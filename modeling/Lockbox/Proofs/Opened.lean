import Lockbox.Proofs.Reading
import Lockbox.Proofs.Session
/-!
# Lockbox — opening what was sealed

A container that a run sealed, or a beginning of it, in front of a reader.
The head is read as it was written, every lock is where it was put, and
the frames supply the reader of the payload; nothing is to blame if all of
them are there, and there is no end of the payload if some are lost.
-/

namespace Lockbox

open Payload

/-- Of a sound table, the lock at a place is found. -/
theorem Table.Sound.find? {locks : List Lock} (h : Table.Sound locks) {i : Nat}
    (hi : i < locks.length) : locks.find? (·.index = i) = some locks[i] := by
  rw [List.find?_eq_some_iff_getElem]
  refine ⟨decide_eq_true (h i hi).1, i, hi, rfl, fun j hj => ?_⟩
  have hindex := (h j (Nat.lt_trans hj hi)).1
  have hne : locks[j].index ≠ i := by omega
  simpa using hne

namespace Payload.Supply

variable {S : Suite} {channel : Channel} {frames : List Frame}

theorem feeds_create (p : Supply S channel frames) {source : Source} (h : p.At 0 source)
    (allowTrailing : Bool) : p.Feeds (Reader.create source channel allowTrailing) :=
  ⟨rfl, h, rfl⟩

/-- If all frames are there, nothing is to blame. -/
theorem not_blames_stored (hs : S.OpensSealed) (hz : S.InflatesDeflated) (hf : S.FitsFrames)
    (e : Error) : ¬ (stored hs hz hf.countsSealed channel frames []).Blames e := by
  rintro ⟨r, ⟨rfl, ⟨hsteady, hc⟩, -⟩, ⟨hlt, he⟩ | ⟨hend, he⟩⟩
  · rw [List.append_nil, Channel.stream_drop _ _ hlt] at hc
    -- the frame of this number stands first and is read
    obtain ⟨source, hr, -⟩ := Reader.readFrame_store hs hz hf hsteady hc
    rw [hr] at he
    exact absurd he (by simp)
  · rw [hend, List.append_nil, List.drop_length, Channel.stream_nil] at hc
    rw [(Reader.checkTrailing_ok_iff hsteady).mpr (.inr hc)] at he
    exact absurd he (by simp)

/-- **A stored script is read to its end,** and all its entries are passed
on. -/
theorem drain_stored {γ : Type} {k : Consumer γ} {view : γ → List (FileInfo × Bytes)}
    (hs : S.OpensSealed) (hz : S.InflatesDeflated) (hf : S.FitsFrames) (hk : k.Accepts view)
    {entries : List (FileInfo × Bytes)} (hstorable : Storable entries)
    (hcomplete : Item.Complete entries) {source : Source} (hsteady : source.Steady)
    (hcontents : source.contents = channel.stream S 0 (Frame.script entries))
    (allowTrailing : Bool) (c : γ) :
    ∃ r c', Opening.drain S k 0 (.create source channel allowTrailing) c
        = (.ok entries.length, r, c') ∧ r.isFinished = true ∧ view c' = view c ++ entries := by
  let p := stored hs hz hf.countsSealed channel (Frame.script entries) []
  have hat : p.At 0 source := ⟨hsteady, by rw [List.append_nil, List.drop_zero, hcontents]⟩
  obtain ⟨r, c', hdrain, hfin, hview, -⟩ | ⟨e, -, -, -, -, hblame, -⟩ :=
    drain_script hk hstorable hcomplete c 0 (p.feeds_create hat allowTrailing) (.inl rfl) rfl
  · rw [Nat.zero_add] at hdrain
    exact ⟨r, c', hdrain, hfin, hview⟩
  · exact absurd hblame (not_blames_stored hs hz hf e)

/-- If the end of the frames is lost, the payload does not end. -/
theorem not_concluded_stored (hs : S.OpensSealed) (hz : S.InflatesDeflated) (hl : S.CountsSealed)
    {lost : Bytes} (hlost : lost ≠ []) (allowTrailing : Bool) :
    ¬ (stored hs hz hl channel frames lost).Concluded allowTrailing := by
  rintro ⟨r, ⟨-, ⟨-, hc⟩, -⟩, hend, -⟩
  rw [hend, List.drop_length, Channel.stream_nil] at hc
  exact hlost (List.append_eq_nil_iff.mp hc).2

end Payload.Supply

namespace SealedRun

variable {σ τ γ : Type} (run : SealedRun σ)

/-- A session that reads the container and has not touched its payload. -/
structure Faces (s : Opening τ) (lenient : Bool) (source : Source) : Prop where
  suite : s.smith.suite = run.suite
  header : s.header = run.parsed
  lenient : s.lenient = lenient
  stage : s.stage.untouched? = some source

variable {run} {reader : Locksmith τ} {s : Opening τ} {lenient : Bool} {source : Source}

/-- **The head of a container is read as it was written.** -/
theorem create_of_head (lenient : Bool) (hsuite : reader.suite = run.suite) (hsteady : source.Steady)
    {payload : Bytes} (hc : source.contents
      = run.draft.header.sealed run.suite containerVersion run.flags run.fmk ++ payload) :
    ∃ s source', Opening.create reader lenient source = .ok s ∧ s.smith = reader ∧
      run.Faces s lenient source' ∧ source'.Steady ∧ source'.contents = payload := by
  obtain ⟨source', hread, hsteady', hpayload⟩ :=
    Header.read_sealed lenient run.container_eq.1 hsteady hc
  refine ⟨⟨reader, run.parsed, lenient, .locksParsed source'⟩, source', ?_, rfl,
    ⟨hsuite, rfl, rfl, rfl⟩, hsteady', hpayload⟩
  rw [Opening.create, hread]
  rfl

/-- **The lock of a recipient** stands at the recipient's place, and was made for
the recipient. -/
theorem lock_getElem (run : SealedRun σ) {i : Nat} (hi : i < run.recipients.length) :
    ∃ hi' : i < run.draft.locks.length, run.parsed.lock? i = some run.draft.locks[i] ∧
      run.draft.locks[i].info
        = ⟨i, run.recipients[i].recipient.type, run.recipients[i].recipient.label⟩ ∧
      ∃ w w', run.smith.wrap i run.recipients[i].recipient run.fmk w
          = (.ok run.draft.locks[i], w') ∧
        run.recipients[i].asked
          = run.smith.asked i run.recipients[i].recipient run.fmk w := by
  obtain ⟨hreadable, ⟨hlength, hlocks⟩, -⟩ := run.container_eq
  have hi' : i < run.draft.locks.length := hlength ▸ hi
  obtain ⟨-, w, w', hwrap, hasked⟩ := hlocks i hi hi'
  exact ⟨hi', hreadable.sound.find? hi', (run.smith.wrap_ok hwrap).1, w, w', hwrap, hasked⟩

/-- The locks are listed in the order in which the recipients were added. -/
theorem Faces.locks_eq (h : run.Faces s lenient source) :
    s.locks = run.recipients.mapIdx fun i e => ⟨i, e.recipient.type, e.recipient.label⟩ := by
  obtain ⟨-, ⟨hlength, -⟩, -⟩ := run.container_eq
  have hlist : s.locks = run.draft.locks.map Lock.info := by
    rw [Opening.locks, h.header]
    rfl
  rw [hlist]
  refine List.ext_getElem (by simpa using hlength) fun i hi hi' => ?_
  rw [List.length_mapIdx] at hi'
  obtain ⟨_, -, hinfo, -⟩ := run.lock_getElem hi'
  rw [List.getElem_map, List.getElem_mapIdx, hinfo]

/-- **A lock gives the master key to whoever can answer for its
recipient.** -/
theorem Faces.getFmk_eq (h : run.Faces s lenient source) (hs : run.suite.OpensSealed)
    (hd : run.suite.AgreesBothWays) {i : Nat} (hi : i < run.recipients.length) {w : World τ}
    (hp : s.smith.providers.Serve run.suite w.outside
      ⟨i, run.recipients[i].recipient.type, run.recipients[i].recipient.label⟩
      run.recipients[i].asked run.recipients[i].recipient) :
    ∃ s' w', s.getFmk i w = (.ok run.fmk, s', w') ∧ s'.smith = s.smith ∧
      run.Faces s' lenient source := by
  obtain ⟨hi', hfound, hinfo, w₀, w₁, hwrap, hasked⟩ := run.lock_getElem hi
  rw [hasked, ← hinfo, ← h.suite] at hp
  obtain ⟨w', hw'⟩ := Locksmith.unwrap_wrap h.suite hs hd hwrap hp
  have hlock : s.header.lock? i = some run.draft.locks[i] := by
    rw [h.header]
    exact hfound
  have hverify : s.header.verify s.smith.suite run.fmk = .ok () := by
    rw [h.header, h.suite]
    exact Header.verify_parsed
  refine ⟨{ s with stage := .fmkObtained source }, w', ?_, rfl,
    ⟨h.suite, h.header, h.lenient, rfl⟩⟩
  simp only [Opening.getFmk, h.stage, hlock, hw', hverify, Opening.noteFmk_eq h.stage]

/-- The master key of the container begins the reading of its payload. -/
theorem Faces.begin_eq (h : run.Faces s lenient source) :
    s.begin run.fmk = (.ok (),
      { s with stage := .decrypting run.fmk (.create source run.channel lenient) }) := by
  have hverify : s.header.verify s.smith.suite run.fmk = .ok () := by
    rw [h.header, h.suite]
    exact Header.verify_parsed
  have hchannel : s.channel run.fmk = run.channel := by
    rw [Opening.channel, h.header, h.suite]
    rfl
  rw [Opening.begin_eq h.stage, hverify, hchannel, h.lenient]

/-- Decrypting everything is draining the payload. -/
theorem Faces.decryptAll_eq (h : run.Faces s lenient source) {k : Consumer γ} {c c' : γ}
    {result : Except Error Nat} {r : Reader}
    (hdrain : Opening.drain run.suite k 0 (.create source run.channel lenient) c = (result, r, c')) :
    s.decryptAll run.fmk k c = (result, { s with stage := .finished r.isFinished }, c') := by
  rw [← h.suite] at hdrain
  have hall := Opening.decryptAll_eq h.begin_eq rfl hdrain
  exact hall

end SealedRun

end Lockbox
