import Lockbox.Proofs.Progress
/-!
# Lockbox — a head that was written

Whatever header is written, a reader finds it again in front of whatever
follows. A lock does not carry its place with it, so it is read back with
the place that it has in the table (`Header.placed`), whatever its place
was said to be; nothing else about it is lost, and nothing that stands in
its texts can end them early.
-/

namespace Lockbox

namespace Header

variable {S : Suite} {version : UInt8} {flags : Flags} {h : Header} {fmk : Fmk}

/-- The header with every lock at its place of the table. -/
def placed (h : Header) : Header :=
  { h with locks := h.locks.mapIdx fun i lock => { lock with index := i } }

/-- Places are not written. -/
theorem toJson_placed (h : Header) : h.placed.toJson = h.toJson := by
  have hlocks : h.placed.locks.map Lock.toJson = h.locks.map Lock.toJson := by
    refine List.ext_getElem (by simp [placed]) fun i hi hi' => ?_
    simp only [placed, List.getElem_map, List.getElem_mapIdx]
    rfl
  unfold toJson
  rw [hlocks]
  rfl

/-- The places of locks are not written, so the head is the same. -/
theorem sealed_placed : h.placed.sealed S version flags fmk = h.sealed S version flags fmk := by
  unfold sealed
  rw [toJson_placed]

/-- With every lock at its place, the table is sound if readers take its
capsules. -/
theorem sound_placed (hcheck : ∀ lock ∈ h.locks, lock.capsule.check = .ok ()) :
    Table.Sound h.placed.locks := by
  intro i hi
  have hi' : i < h.locks.length := by simpa [placed] using hi
  have hlock : h.placed.locks[i] = { h.locks[i] with index := i } := by simp [placed]
  rw [hlock]
  exact ⟨rfl, hcheck h.locks[i] (List.getElem_mem hi')⟩

/-- Once its locks are told their places, readers take the header. -/
theorem readable_placed (hsuite : h.suite = Suite.name) (hne : h.locks ≠ [])
    (hcheck : ∀ lock ∈ h.locks, lock.capsule.check = .ok ())
    (hlength : h.toJson.render.length ≤ maxHeaderLength) : h.placed.Readable where
  suite := hsuite
  length := by
    rw [toJson_placed]
    exact hlength
  locks := by
    intro hnil
    have hlength := congrArg List.length hnil
    rw [placed, List.length_mapIdx] at hlength
    exact hne (List.eq_nil_of_length_eq_zero hlength)
  sound := sound_placed hcheck

/-- A head is its preamble, its header and a code of 32 bytes. -/
theorem length_sealed : (h.sealed S version flags fmk).length
    = ParsedHeader.preambleLength + h.toJson.render.length + 32 := by
  have hmac := (mac S fmk (preamble version flags h.toJson.render.length)
    h.toJson.render).property
  simp only [sealed, List.length_append, length_preamble, hmac]

/-- What is given as the number of bytes is their number. -/
theorem count_of_write {sink sink' : Sink} {n : Nat}
    (hw : h.write S version flags fmk sink = (.ok n, sink')) :
    n = (h.sealed S version flags fmk).length := by
  unfold write at hw
  dsimp only at hw
  split at hw
  · exact absurd (Prod.mk.inj hw).1 (by simp)
  · split at hw
    · exact absurd (Prod.mk.inj hw).1 (by simp)
    · have hn := Except.ok.inj (Prod.mk.inj hw).1
      rw [← hn, length_sealed, length_preamble]

end Header

/-- **A head is read as it was written**, up to the first byte of what
follows, whether or not data errors are to be ignored: no lock is left out,
each has its place in the table, and the master key confirms the head. -/
theorem head_read_as_written {S : Suite} {flags : Flags} {h : Header} {fmk : Fmk}
    {sink sink' : Sink} {n : Nat} (hsuite : h.suite = Suite.name) (hne : h.locks ≠ [])
    (hcheck : ∀ lock ∈ h.locks, lock.capsule.check = .ok ())
    (hwrite : h.write S containerVersion flags fmk sink = (.ok n, sink')) :
    ∃ written, sink'.accepted = sink.accepted ++ written ∧ written.length = n ∧
      ∀ (lenient : Bool) (rest : Bytes) (source : Source), source.Steady →
        source.contents = written ++ rest →
        ∃ p source', ParsedHeader.read lenient source = (.ok p, source') ∧
          p.version = containerVersion ∧ p.flags = flags ∧ p.payloadNonce = h.payloadNonce ∧
          p.locks = h.locks.mapIdx (fun j lock => { lock with index := j }) ∧ p.skipped = 0 ∧
          p.verify S fmk = .ok () ∧ source'.Steady ∧ source'.contents = rest := by
  obtain ⟨hlength, haccepted⟩ := Header.write_ok hwrite
  refine ⟨_, haccepted, (Header.count_of_write hwrite).symm,
    fun lenient rest source hsteady hcontents => ?_⟩
  -- the bytes are those of the header with its locks in their places
  rw [← Header.sealed_placed] at hcontents
  have hreadable := Header.readable_placed hsuite hne hcheck hlength
  obtain ⟨source', hread, hsteady', hrest⟩ := Header.read_sealed lenient hreadable hsteady hcontents
  exact ⟨h.placed.parsed S flags fmk, source', hread, rfl, rfl, rfl, rfl, rfl,
    Header.verify_parsed, hsteady', hrest⟩

/-- A header whose texts look like JSON and whose locks claim places that
they do not have. -/
def oddHeader : Header :=
  ⟨Suite.name, .zero 24,
    [⟨7, "\",\"nonce\":\"\\", .zero 24, [],
        .password (.zero 32) (.zero 32) 1⟩,
      ⟨7, "\x01\n\x7f", .zero 24, [1, 2, 3, 4],
        .server (.zero 32) "\\u0000\"" "\t"⟩]⟩

/-- It is read back from the bytes that were written and two more, the
locks with the places zero and one. -/
theorem oddHeader_read_as_written : ∃ n sink p source,
    oddHeader.write .standard containerVersion ⟨true⟩ ⟨.zero 32⟩ .unlimited = (.ok n, sink) ∧
      sink.accepted.length = n ∧
      ParsedHeader.read true (.ofBytes (sink.accepted ++ [1, 2])) = (.ok p, source) ∧
      p.locks = [{ oddHeader.locks[0] with index := 0 }, { oddHeader.locks[1] with index := 1 }] ∧
      p.skipped = 0 ∧ p.verify .standard ⟨.zero 32⟩ = .ok () ∧ source.contents = [1, 2] := by
  have hlength : oddHeader.toJson.render.length ≤ maxHeaderLength := by decide +kernel
  have hcheck : ∀ lock ∈ oddHeader.locks, lock.capsule.check = .ok () := by
    intro lock hlock
    rcases List.mem_cons.mp hlock with rfl | hlock
    · rfl
    · obtain rfl := List.mem_singleton.mp hlock
      rfl
  obtain ⟨n, sink, hwrite, -⟩ := Header.write_succeeds Sink.unbounded_unlimited hlength
    .standard containerVersion ⟨true⟩ ⟨.zero 32⟩
  obtain ⟨written, haccepted, hcount, hread⟩ :=
    head_read_as_written (h := oddHeader) rfl (by simp [oddHeader]) hcheck hwrite
  have hall : sink.accepted = written := haccepted
  obtain ⟨p, source, hp, -, -, -, hlocks, hskipped, hverify, -, hrest⟩ := hread true [1, 2]
    (.ofBytes (sink.accepted ++ [1, 2])) (Source.steady_ofBytes _)
    (by rw [Source.contents_ofBytes, hall])
  exact ⟨n, sink, p, source, hwrite, by rw [hall, hcount], hp, hlocks, hskipped, hverify, hrest⟩

end Lockbox
