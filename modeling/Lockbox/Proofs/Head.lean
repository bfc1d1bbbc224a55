import Lockbox.Header
import Lockbox.Proofs.JsonRecord
import Lockbox.Proofs.Stream
/-!
# Lockbox — reading the head of a container that was written

Capsules, locks and headers are read back from their JSON forms one after
the other, and so is the table, in which every lock finds the place that
it was written at (`Header.interpret_toJson`). Around the JSON stand the
preamble and the authentication code, of fixed lengths: `Header.read_sealed`
says what is read of a head and that the payload is what is left.
-/

namespace Lockbox

open Json

/-! ## Capsules and locks

A capsule is a record with a tag and members of its own. That it is written,
settled and read back is shown member by member, with the five kinds side by
side. -/

namespace Capsule

/-- The members of a capsule have different names, and none of them is called
like the tag. -/
theorem nodup_members (c : Capsule) : ((("type", Json.ofText c.type.name) :: c.members).map
    Prod.fst).Nodup := by
  cases c <;> simp [members]

/-- They are bytes, texts and numbers, all of them written as such. -/
theorem written_members (c : Capsule) : ∀ m ∈ c.members, Written m.2 := by
  cases c <;> simp [members, written_ofBytes, written_ofText, written_ofNat]

/-- They are settled: the only number is one of 32 bits. -/
theorem settled_members (room : Nat) (c : Capsule) : ∀ m ∈ c.members, Settled room m.2 := by
  cases c with
  | password salt pwSalt n =>
    have : n.toNat < 1 <<< 53 := Nat.lt_trans n.toNat_lt (by decide)
    simp [members, settled_ofBytes, settled_ofNat room this]
  | symmetricKey => simp [members, settled_ofBytes]
  | publicKey => simp [members, settled_ofBytes]
  | certificate => simp [members, settled_ofBytes]
  | server => simp [members, settled_ofBytes, settled_ofText]

/-- So a capsule is written as a record. -/
theorem written_toJson (c : Capsule) : Written c.toJson := by
  refine written_record fun m hm => ?_
  rcases List.mem_cons.mp hm with rfl | hm
  · exact written_ofText _
  · exact written_members c m hm

/-- It is settled with the room that a record takes. -/
theorem settled_toJson (room : Nat) (c : Capsule) : Settled (room + 1) c.toJson := by
  refine settled_record (nodup_members c) fun m hm => ?_
  rcases List.mem_cons.mp hm with rfl | hm
  · exact settled_ofText room _
  · exact settled_members room c m hm

/-- **The members of a capsule are read back as those of its type.** -/
theorem ofMembers?_members (c : Capsule) : ofMembers? c.type.name (.record c.members) = some c := by
  have hnodup := (List.nodup_cons.mp (nodup_members c)).2
  have hfields := allFields?_record hnodup
  have hn : ∀ n : UInt32, (Json.ofNat n.toNat).nat? 4294967295 = some n.toNat :=
    fun n => nat?_ofNat (Nat.le_pred_of_lt n.toNat_lt) (by decide)
  cases c <;> simp only [members, List.map_cons, List.map_nil] at hfields <;>
    simp [ofMembers?, type, LockType.name, members, hfields, hn]

/-- **A capsule is read back from its written form.** -/
theorem ofJson?_toJson (c : Capsule) : ofJson? c.toJson = some c := by
  have hfresh : ∀ m ∈ c.members, m.1 ≠ "type" := by
    intro m hm heq
    have hname := List.mem_map_of_mem (f := Prod.fst) hm
    rw [heq] at hname
    exact (List.nodup_cons.mp (nodup_members c)).1 hname
  rw [ofJson?, toJson, tagged?_record hfresh]
  exact ofMembers?_members c

end Capsule

namespace Lock

/-- A lock is written as its four members are. -/
theorem written_toJson (l : Lock) : Written l.toJson := by
  refine written_record fun m hm => ?_
  simp only [List.mem_cons, List.not_mem_nil, or_false] at hm
  rcases hm with rfl | rfl | rfl | rfl
  · exact written_ofText _
  · exact written_ofBytes _
  · exact written_ofBytes _
  · exact Capsule.written_toJson _

/-- It takes the room of a record above that of its capsule. -/
theorem settled_toJson (room : Nat) (l : Lock) : Settled (room + 2) l.toJson := by
  refine settled_record (by simp) fun m hm => ?_
  simp only [List.mem_cons, List.not_mem_nil, or_false] at hm
  rcases hm with rfl | rfl | rfl | rfl
  · exact settled_ofText _ _
  · exact settled_ofBytes _ _
  · exact settled_ofBytes _ _
  · exact Capsule.settled_toJson _ _

/-- **A lock is read back from its written form,** but for its place. -/
theorem ofJson?_toJson (room : Nat) (l : Lock) :
    ofJson? (room + 2) l.toJson = some { l with index := 0 } := by
  have hfields : l.toJson.allFields? ["label", "nonce", "encrypted_fmk", "capsule"]
      = some [.ofText l.label, .ofBytes l.nonce.val, .ofBytes l.wrapped, l.capsule.toJson] :=
    allFields?_record (by simp)
  have hsettle : l.capsule.toJson.settle (room + 1) = some l.capsule.toJson :=
    Capsule.settled_toJson room l.capsule
  simp [ofJson?, hfields, hsettle, Capsule.ofJson?_toJson]

end Lock

/-! ## The table of locks -/

namespace Table

/-- Each lock says where it stands, and readers take its capsule. -/
def Sound (locks : List Lock) : Prop :=
  ∀ i (h : i < locks.length), locks[i].index = i ∧ locks[i].capsule.check = .ok ()

/-- Each entry is read as the lock it was written for, and is given the index
of its place. -/
theorem readEntries_toJson {locks : List Lock} (h : Sound locks) :
    readEntries (locks.map Lock.toJson) = locks.map .ok := by
  refine List.ext_getElem (by simp [readEntries]) fun i hi _ => ?_
  simp only [readEntries, List.length_map, List.length_zipIdx] at hi
  obtain ⟨hindex, hcheck⟩ := h i hi
  -- the room of an entry is two less than the nesting allowed, and a lock needs two
  have hroom : Lock.ofJson? Header.entryRoom locks[i].toJson
      = some { locks[i] with index := 0 } := Lock.ofJson?_toJson 123 locks[i]
  simp only [readEntries, List.getElem_map, List.getElem_zipIdx, Nat.zero_add, readEntry, hroom,
    hcheck]
  congr
  exact hindex.symm

/-- **A table is read back as it was written,** every lock in its place. -/
theorem read_toJson (lenient : Bool) {locks : List Lock} (h : Sound locks) :
    read lenient (locks.map Lock.toJson) = .ok (locks, 0) := by
  rw [read]
  simp only [readEntries_toJson h]
  cases lenient with
  | true =>
    have hall : (locks.map Except.ok).filterMap lockOf? = locks := by
      rw [List.filterMap_map]
      exact List.filterMap_some
    simp [hall]
  | false =>
    have hall : (locks.map Except.ok).mapM id = (.ok locks : Except ParseFault (List Lock)) := by
      rw [List.mapM_map]
      exact (mapM_eq_pure fun _ _ => rfl).trans (congrArg _ (List.map_id locks))
    simp only [Bool.false_eq_true, if_false, hall]
    rfl

end Table

/-! ## Headers -/

namespace Header

/-- A header is written as its three members are. -/
theorem written_toJson (h : Header) : Written h.toJson := by
  refine written_record fun m hm => ?_
  simp only [List.mem_cons, List.not_mem_nil, or_false] at hm
  rcases hm with rfl | rfl | rfl
  · exact written_ofText _
  · exact written_ofBytes _
  · refine written_array fun j hj => ?_
    obtain ⟨lock, -, rfl⟩ := List.mem_map.mp hj
    exact Lock.written_toJson lock

/-- And its members are found again. -/
theorem parts?_toJson (h : Header) :
    parts? h.toJson = some (h.suite, h.payloadNonce, h.locks.map Lock.toJson) := by
  have hfields : h.toJson.allFields? ["suite", "payload_nonce", "locks"]
      = some [.ofText h.suite, .ofBytes h.payloadNonce.val, .array (h.locks.map Lock.toJson)] :=
    allFields?_record (by simp)
  simp [parts?, hfields]

/-- **A header is read back from its written form.** -/
theorem interpret_toJson (lenient : Bool) {h : Header} (hsuite : h.suite = Suite.name)
    (hne : h.locks ≠ []) (hsound : Table.Sound h.locks) :
    ParsedHeader.interpret lenient h.toJson.render = .ok (h.payloadNonce, h.locks, 0) := by
  have hsettle : (h.locks.map Lock.toJson).mapM (Json.settle entryRoom)
      = some (h.locks.map Lock.toJson) := by
    rw [List.mapM_map]
    exact mapM_eq_some fun lock _ => Lock.settled_toJson 123 lock
  have hentries : h.locks.map Lock.toJson ≠ [] := by simpa using hne
  have htable := Table.read_toJson lenient hsound
  simp only [ParsedHeader.interpret, parse?_render (written_toJson h), parts?_toJson, hsettle,
    Option.bind_eq_bind, Option.bind_some, Option.pure_def, hsuite, ne_eq, not_true, if_false,
    if_neg hentries, htable]
  rfl

/-- The head of a container: preamble, header and authentication code. -/
def sealed (S : Suite) (version : UInt8) (flags : Flags) (h : Header) (fmk : Fmk) : Bytes :=
  let json := h.toJson.render
  let pre := preamble version flags json.length
  pre ++ json ++ (mac S fmk pre json).val

/-- A head that could be written is not too long, and all of it is there. -/
theorem write_ok {S : Suite} {version : UInt8} {flags : Flags} {h : Header} {fmk : Fmk}
    {sink sink' : Sink} {n : Nat} (hw : h.write S version flags fmk sink = (.ok n, sink')) :
    h.toJson.render.length ≤ maxHeaderLength ∧
      sink'.accepted = sink.accepted ++ h.sealed S version flags fmk := by
  unfold write at hw
  dsimp only at hw
  split at hw
  · exact absurd (Prod.mk.inj hw).1 (by simp)
  · rename_i hlen
    split at hw
    · exact absurd (Prod.mk.inj hw).1 (by simp)
    · rename_i sink₁ hsink
      obtain ⟨-, rfl⟩ := Prod.mk.inj hw
      refine ⟨Nat.le_of_not_lt hlen, ?_⟩
      rw [Sink.accepted_writeEach_of_ok hsink]
      simp [sealed]

/-- Whatever becomes of writing a head, a beginning of it is there. -/
theorem accepted_write (S : Suite) (version : UInt8) (flags : Flags) (h : Header) (fmk : Fmk)
    (sink : Sink) :
    ∃ p, p <+: h.sealed S version flags fmk ∧
      (h.write S version flags fmk sink).2.accepted = sink.accepted ++ p := by
  unfold write
  dsimp only
  split
  · exact ⟨[], List.nil_prefix, by simp⟩
  · obtain ⟨p, hp, ha⟩ := Sink.accepted_writeEach sink
      [preamble version flags h.toJson.render.length, h.toJson.render,
        (mac S fmk (preamble version flags h.toJson.render.length) h.toJson.render).val]
    refine ⟨p, ?_, ?_⟩
    · simpa [sealed] using hp
    · split
      · rename_i hw
        rw [hw] at ha
        exact ha
      · rename_i hw
        rw [hw] at ha
        exact ha

/-- The preamble is of a fixed length. -/
@[simp] theorem length_preamble (version : UInt8) (flags : Flags) (length : Nat) :
    (preamble version flags length).length = ParsedHeader.preambleLength := by
  simp [preamble, magic, ParsedHeader.preambleLength]

/-- **A preamble is read back:** the version is the one that readers know, the
flags are, and the length of a header that is not too long fits into four
bytes. -/
theorem readPreamble_preamble (flags : Flags) {length : Nat} (h : length ≤ maxHeaderLength) :
    ParsedHeader.readPreamble (preamble containerVersion flags length)
      = .ok (containerVersion, flags, length) := by
  have hlength : Bytes.toNat (Bytes.ofNat 4 length) = length := by
    refine Bytes.toNat_ofNat_of_lt ?_
    rw [maxHeaderLength] at h
    exact Nat.lt_of_le_of_lt h (by decide)
  have hdrop : (preamble containerVersion flags length).drop magic.length
      = containerVersion :: flags.toByte :: Bytes.ofNat 4 length := rfl
  have htake : (preamble containerVersion flags length).take magic.length = magic := rfl
  rw [ParsedHeader.readPreamble, hdrop]
  simp only [htake, hlength, ne_eq, not_true, if_false, Flags.isKnown_toByte,
    if_neg (Nat.not_lt.mpr h), Flags.ofByte_toByte]

end Header

/-! ## The bytes of a head

Three parts stand one after the other, and each is read by its length. Where
the source ends within one of them, that part is missed. -/

namespace ParsedHeader

/-- If there is enough, the part is taken from the front. -/
theorem take_of_le {source : Source} (h : source.Steady) (part : HeadPart) {n : Nat}
    (hn : n ≤ source.contents.length) :
    ∃ source', take part n source = (.ok (source.contents.take n), source') ∧ source'.Steady ∧
      source'.contents = source.contents.drop n := by
  obtain ⟨source', hs, hsteady, hcontents⟩ := Source.takeExactly_of_le h hn
  exact ⟨source', by rw [take, hs], hsteady, hcontents⟩

/-- If not, the part is missed by its name, and nothing is left. -/
theorem take_of_lt {source : Source} (h : source.Steady) (part : HeadPart) {n : Nat}
    (hn : source.contents.length < n) :
    take part n source = (.error (.parse (.truncated part)), []) := by
  rw [take, Source.takeExactly_of_lt h hn]

/-- What was taken stood first. -/
theorem take_ok {source source' : Source} {part : HeadPart} {n : Nat} {b : Bytes}
    (ht : take part n source = (.ok b, source')) :
    b.length = n ∧ source.contents = b ++ source'.contents ∧
      (source.Steady → source'.Steady) := by
  unfold take at ht
  split at ht
  · rename_i c source₁ hgot
    obtain ⟨hb, rfl⟩ := Prod.mk.inj ht
    cases hb
    exact Source.takeExactly_got hgot
  · exact absurd (Prod.mk.inj ht).1 (by simp)
  · exact absurd (Prod.mk.inj ht).1 (by simp)

/-- **What was read of a head** stands first in the source, and says what
the parsed head says. -/
theorem read_ok {lenient : Bool} {source source' : Source} {p : ParsedHeader}
    (hr : read lenient source = (.ok p, source')) :
    source.contents = p.preamble ++ p.json ++ p.mac ++ source'.contents ∧
      (source.Steady → source'.Steady) ∧
      p.preamble.length = preambleLength ∧ p.mac.length = 32 ∧
      readPreamble p.preamble = .ok (p.version, p.flags, p.json.length) ∧
      interpret lenient p.json = .ok (p.payloadNonce, p.locks, p.skipped) := by
  unfold read at hr
  split at hr
  · exact absurd (Prod.mk.inj hr).1 (by simp)
  · rename_i pre source₁ hpre
    split at hr
    · exact absurd (Prod.mk.inj hr).1 (by simp)
    · rename_i version flags length hread
      split at hr
      · exact absurd (Prod.mk.inj hr).1 (by simp)
      · rename_i json source₂ hjson
        split at hr
        · exact absurd (Prod.mk.inj hr).1 (by simp)
        · rename_i mac source₃ hmac
          split at hr
          · exact absurd (Prod.mk.inj hr).1 (by simp)
          · rename_i nonce locks skipped hinterpret
            obtain ⟨hp, rfl⟩ := Prod.mk.inj hr
            cases hp
            obtain ⟨hlen₁, hc₁, hs₁⟩ := take_ok hpre
            obtain ⟨hlen₂, hc₂, hs₂⟩ := take_ok hjson
            obtain ⟨hlen₃, hc₃, hs₃⟩ := take_ok hmac
            refine ⟨?_, fun hs => hs₃ (hs₂ (hs₁ hs)), hlen₁, hlen₃, ?_, hinterpret⟩
            · rw [hc₁, hc₂, hc₃]
              simp
            · rw [hread, hlen₂]

end ParsedHeader

namespace Header

/-- Readers take such a header: it is of the one suite, not too long and
not without locks, and its table is sound. -/
structure Readable (h : Header) : Prop where
  suite : h.suite = Suite.name
  length : h.toJson.render.length ≤ maxHeaderLength
  locks : h.locks ≠ []
  sound : Table.Sound h.locks

variable {S : Suite} {h : Header} {flags : Flags} {fmk : Fmk}

/-- The head as readers see it. -/
def parsed (S : Suite) (flags : Flags) (h : Header) (fmk : Fmk) : ParsedHeader :=
  let json := h.toJson.render
  let pre := preamble containerVersion flags json.length
  ⟨containerVersion, flags, h.payloadNonce, h.locks, 0, pre, json, (mac S fmk pre json).val⟩

/-- The master key confirms a head that was written with it. -/
theorem verify_parsed : (h.parsed S flags fmk).verify S fmk = .ok () := if_pos rfl

/-- **A head is read back as it was written,** up to where the payload
begins. -/
theorem read_sealed (lenient : Bool) (hr : h.Readable) {source : Source} {payload : Bytes}
    (hs : source.Steady) (hc : source.contents = h.sealed S containerVersion flags fmk ++ payload) :
    ∃ source', ParsedHeader.read lenient source = (.ok (h.parsed S flags fmk), source') ∧
      source'.Steady ∧ source'.contents = payload := by
  have hmac := (mac S fmk (preamble containerVersion flags h.toJson.render.length)
    h.toJson.render).property
  simp only [sealed, List.append_assoc] at hc
  -- the parts are taken in their order, each from where the last one ended
  obtain ⟨s₁, ht₁, hs₁, hc₁⟩ := ParsedHeader.take_of_le hs .preamble
    (show ParsedHeader.preambleLength ≤ _ by rw [hc]; simp)
  rw [hc, List.take_left' (length_preamble ..)] at ht₁
  rw [hc, List.drop_left' (length_preamble ..)] at hc₁
  obtain ⟨s₂, ht₂, hs₂, hc₂⟩ := ParsedHeader.take_of_le hs₁ .header
    (show h.toJson.render.length ≤ _ by rw [hc₁]; simp)
  rw [hc₁, List.take_left] at ht₂
  rw [hc₁, List.drop_left] at hc₂
  obtain ⟨s₃, ht₃, hs₃, hc₃⟩ := ParsedHeader.take_of_le hs₂ .mac
    (show 32 ≤ _ by rw [hc₂, List.length_append, hmac]; omega)
  rw [hc₂, List.take_left' hmac] at ht₃
  rw [hc₂, List.drop_left' hmac] at hc₃
  refine ⟨s₃, ?_, hs₃, hc₃⟩
  have hinterpret := interpret_toJson lenient hr.suite hr.locks hr.sound
  simp only [ParsedHeader.read, ht₁, readPreamble_preamble flags hr.length, ht₂, ht₃, hinterpret]
  rfl

/-- **A head is read only as it was written**: where its preamble and its
header are, with its authentication code, nothing else is read. -/
theorem eq_parsed_of_read {lenient : Bool} (hr : h.Readable) {source rest : Source}
    {p : ParsedHeader} (hread : ParsedHeader.read lenient source = (.ok p, rest))
    (hsame : p.preamble ++ p.json = (h.parsed S flags fmk).preamble ++ (h.parsed S flags fmk).json)
    (hmac : p.mac = (h.parsed S flags fmk).mac) : p = h.parsed S flags fmk := by
  obtain ⟨-, -, hpre, -, hfields, hinterpret⟩ := ParsedHeader.read_ok hread
  -- the preamble is of a fixed length, so it cannot be shifted against the header
  obtain ⟨hpreamble, hjson⟩ := List.append_inj hsame (hpre.trans (length_preamble ..).symm)
  obtain ⟨version, flags', nonce, locks, skipped, pre, json, code⟩ := p
  dsimp only at hpreamble hjson hmac hfields hinterpret
  subst hpreamble hjson hmac
  have hwritten : ParsedHeader.readPreamble (h.parsed S flags fmk).preamble
      = .ok (containerVersion, flags, h.toJson.render.length) :=
    readPreamble_preamble flags hr.length
  have hmeans : ParsedHeader.interpret lenient (h.parsed S flags fmk).json
      = .ok (h.payloadNonce, h.locks, 0) := interpret_toJson lenient hr.suite hr.locks hr.sound
  rw [hwritten] at hfields
  rw [hmeans] at hinterpret
  cases hfields
  cases hinterpret
  rfl

/-- Of a head that is cut off nothing is read. -/
theorem read_cut (lenient : Bool) (hr : h.Readable) {source : Source} (hs : source.Steady)
    (hc : source.contents <+: h.sealed S containerVersion flags fmk)
    (hlt : source.contents.length < (h.sealed S containerVersion flags fmk).length) :
    ∃ f, (ParsedHeader.read lenient source).1 = .error (.parse f) := by
  obtain ⟨rest, hrest⟩ := hc
  have hmac := (mac S fmk (preamble containerVersion flags h.toJson.render.length)
    h.toJson.render).property
  simp only [sealed, List.append_assoc, List.length_append, length_preamble, hmac] at hrest hlt
  by_cases h₁ : ParsedHeader.preambleLength ≤ source.contents.length
  · obtain ⟨s₁, ht₁, hs₁, hc₁⟩ := ParsedHeader.take_of_le hs .preamble h₁
    have hlen₁ := congrArg List.length hc₁
    rw [List.length_drop] at hlen₁
    -- the preamble is whole, so it says how long the header ought to be
    have hpre : source.contents.take ParsedHeader.preambleLength
        = preamble containerVersion flags h.toJson.render.length := by
      have := congrArg (List.take ParsedHeader.preambleLength) hrest
      rwa [List.take_append_of_le_length h₁, List.take_left' (length_preamble ..)] at this
    rw [hpre] at ht₁
    by_cases h₂ : h.toJson.render.length ≤ s₁.contents.length
    · obtain ⟨s₂, ht₂, hs₂, hc₂⟩ := ParsedHeader.take_of_le hs₁ .header h₂
      have hlen₂ := congrArg List.length hc₂
      rw [List.length_drop] at hlen₂
      -- preamble and header are whole, so the code is what is cut
      have ht₃ := ParsedHeader.take_of_lt hs₂ .mac (show s₂.contents.length < 32 by omega)
      refine ⟨.truncated .mac, ?_⟩
      simp only [ParsedHeader.read, ht₁, readPreamble_preamble flags hr.length, ht₂, ht₃]
    · have ht₂ := ParsedHeader.take_of_lt hs₁ .header (Nat.lt_of_not_le h₂)
      refine ⟨.truncated .header, ?_⟩
      simp only [ParsedHeader.read, ht₁, readPreamble_preamble flags hr.length, ht₂]
  · refine ⟨.truncated .preamble, ?_⟩
    simp only [ParsedHeader.read, ParsedHeader.take_of_lt hs .preamble (Nat.lt_of_not_le h₁)]

end Header

end Lockbox
