import Lockbox.Consumer
import Lockbox.Header
import Lockbox.Payload.Reader
import Lockbox.Wrapping
/-!
# Lockbox — opening a container

A session that reads begins with the head of a container. Any number of
locks may be tried; a failure leaves the session where it was. With a
master key that the head of the container confirms, the payload is read
entry by entry, once. The container counts as fully decrypted only if the
session was finished after the last frame.
-/

namespace Lockbox

namespace Opening

/-- How far a session is. -/
inductive Stage where
  | locksParsed (source : Source)
  | fmkObtained (source : Source)
  | decrypting (fmk : Fmk) (payload : Payload.Reader)
  | finished (complete : Bool)
  /-- Stands in for a stage that has been taken out and not replaced yet. -/
  | poisoned

/-- The phase that a stage shows. -/
def Stage.phase : Stage → Phase
  | .locksParsed _ => .locksParsed
  | .fmkObtained _ => .fmkObtained
  | .decrypting _ _ => .decrypting
  | .finished _ => .finished
  | .poisoned => .poisoned

/-- The source of a payload that nobody has begun to read. -/
def Stage.untouched? : Stage → Option Source
  | .locksParsed source | .fmkObtained source => some source
  | .decrypting _ _ | .finished _ | .poisoned => none

end Opening

/-- A session that reads a container. -/
structure Opening (σ : Type) where
  smith : Locksmith σ
  header : ParsedHeader
  lenient : Bool
  stage : Opening.Stage

namespace Opening

variable {σ γ : Type}

/-- Reads the head of a container. -/
def create (smith : Locksmith σ) (lenient : Bool) (source : Source) : Except Error (Opening σ) :=
  match ParsedHeader.read lenient source with
  | (.error e, _) => .error e
  | (.ok header, source) => .ok ⟨smith, header, lenient, .locksParsed source⟩

/-- The locks of the container. -/
def locks (s : Opening σ) : List LockInfo := s.header.locks.map Lock.info

/-- The first lock that was made for a certificate. -/
def lockForCertificate? (s : Opening σ) (certificate : Bytes) : Option LockInfo :=
  (s.header.locks.find? (·.matchesCertificate s.smith.suite certificate)).map Lock.info

/-- The session was finished after the last frame. -/
def isFullyDecrypted (s : Opening σ) : Bool :=
  match s.stage with
  | .finished complete => complete
  | _ => false

/-- An operation that came in the wrong phase. -/
def refuse (s : Opening σ) (op : Operation) : Error := .state op s.stage.phase

/-- Takes the stage out of a session. -/
def takeStage (s : Opening σ) : Stage × Opening σ := (s.stage, { s with stage := .poisoned })

/-- Moves on from the parsed locks, if a session is still there. -/
def noteFmk (s : Opening σ) : Opening σ :=
  match s.stage with
  | .locksParsed _ =>
    match s.takeStage with
    | (.locksParsed source, s) => { s with stage := .fmkObtained source }
    | (_, s) => s
  | _ => s

/-- Opens a lock; the head of the container must confirm the key. -/
def getFmk (index : Nat) (s : Opening σ) (w : World σ) : Except Error Fmk × Opening σ × World σ :=
  match s.stage.untouched? with
  | none => (.error (s.refuse .getFmk), s, w)
  | some _ =>
    match s.header.lock? index with
    | none => (.error (.noSuchLock index), s, w)
    | some lock =>
      match s.smith.unwrap lock w with
      | (.error e, w) => (.error e, s, w)
      | (.ok fmk, w) =>
        match s.header.verify s.smith.suite fmk with
        | .error e => (.error e, s, w)
        | .ok () => (.ok fmk, s.noteFmk, w)

/-- What the reading end of the payload shares with the writing end. -/
def channel (s : Opening σ) (fmk : Fmk) : Channel :=
  ⟨fmk.contentKey s.smith.suite, s.header.payloadNonce, s.header.version, s.header.flags⟩

/-- Starts to read the payload with a master key. -/
def begin (fmk : Fmk) (s : Opening σ) : Except Error Unit × Opening σ :=
  match s.stage.untouched? with
  | none => (.error (s.refuse .beginDecryption), s)
  | some _ =>
    match s.header.verify s.smith.suite fmk with
    | .error e => (.error e, s)
    | .ok () =>
      let (stage, s) := s.takeStage
      match stage.untouched? with
      | none => (.error (s.refuse .beginDecryption), s)
      | some source =>
        (.ok (), { s with stage := .decrypting fmk (.create source (s.channel fmk) s.lenient) })

/-- Goes on to the next entry; there is none after the last frame. -/
def nextFile (s : Opening σ) : Except Error (Option FileInfo) × Opening σ :=
  match s.stage with
  | .decrypting fmk payload =>
    let (result, payload) := payload.next s.smith.suite
    (result, { s with stage := .decrypting fmk payload })
  | _ => (.error (s.refuse .nextFile), s)

/-- Passes the data of the current entry on to a sink. -/
def readContent (sink : Sink) (s : Opening σ) : Except Error UInt64 × Opening σ × Sink :=
  match s.stage with
  | .decrypting fmk payload =>
    let (result, payload, sink) := payload.readInto s.smith.suite sink
    (result, { s with stage := .decrypting fmk payload }, sink)
  | _ => (.error (s.refuse .readFile), s, sink)

/-- Ends the session. To stop before the last frame is allowed. -/
def finish (s : Opening σ) : Except Error Unit × Opening σ :=
  match s.stage with
  | .decrypting _ _ =>
    match s.takeStage with
    | (.decrypting _ payload, s) => (.ok (), { s with stage := .finished payload.isFinished })
    | (_, s) => (.error (s.refuse .finishDecryption), s)
  | _ => (.error (s.refuse .finishDecryption), s)

/-! ## All at once -/

/-- Passes all entries that are left on to a consumer. An entry whose data
fails is aborted. `count` entries went before. -/
def drain (S : Suite) (consumer : Consumer γ) (count : Nat) (r : Payload.Reader) (c : γ) :
    Except Error Nat × Payload.Reader × γ :=
  match hnext : r.next S with
  | (.error e, r) => (.error e, r, c)
  | (.ok none, r) => (.ok count, r, c)
  | (.ok (some info), r₁) =>
    match consumer.openEntry info c with
    | (.error e, c) => (.error (.io e), r₁, c)
    | (.ok sink₀, c) =>
      match hread : r₁.readInto S sink₀ with
      | (.error e, r, sink) => (.error e, r, consumer.abortEntry info sink c)
      | (.ok _, r₂, sink) =>
        have : r₂.source.weight < r.source.weight := by
          have hle := Payload.Reader.weight_readInto_le S r₁ sink₀
          rw [hread] at hle
          exact Nat.lt_of_le_of_lt hle (Payload.Reader.weight_next_lt hnext)
        match consumer.closeEntry info sink c with
        | (.error e, c) => (.error (.io e), r₂, c)
        | (.ok (), c) => drain S consumer (count + 1) r₂ c
termination_by r.source.weight

/-- Passes all entries on to a consumer, ends the session and gives the
number of entries. -/
def decryptAll (fmk : Fmk) (consumer : Consumer γ) (s : Opening σ) (c : γ) :
    Except Error Nat × Opening σ × γ :=
  match s.begin fmk with
  | (.error e, s) => (.error e, s, c)
  | (.ok (), s) =>
    match s.stage with
    | .decrypting key payload =>
      let (drained, payload, c) := drain s.smith.suite consumer 0 payload c
      let (finished, s) := { s with stage := .decrypting key payload }.finish
      (drained.bind fun count => finished.map fun () => count, s, c)
    | _ => (.error (s.refuse .nextFile), s, c)

/-! ### What passing entries on comes to -/

section

variable {S : Suite} {k : Consumer γ} {r r₁ r₂ : Payload.Reader} {c c₁ c₂ : γ} {info : FileInfo}
  {sink₁ sink₂ : Sink}

/-- Draining ends where no entry is left. -/
theorem drain_none (count : Nat) (hnext : r.next S = (.ok none, r₁)) :
    drain S k count r c = (.ok count, r₁, c) := by
  unfold drain
  split <;> simp_all

/-- It ends where the next entry cannot be found. -/
theorem drain_error {e : Error} (count : Nat) (hnext : r.next S = (.error e, r₁)) :
    drain S k count r c = (.error e, r₁, c) := by
  unfold drain
  split <;> simp_all

/-- It ends where the consumer does not take the entry, which is not aborted
then. -/
theorem drain_unopened {e : IoError} (count : Nat) (hnext : r.next S = (.ok (some info), r₁))
    (hopen : k.openEntry info c = (.error e, c₁)) :
    drain S k count r c = (.error (.io e), r₁, c₁) := by
  unfold drain
  split <;> simp_all

/-- An entry that could be opened is read. -/
theorem drain_some (count : Nat) (hnext : r.next S = (.ok (some info), r₁))
    (hopen : k.openEntry info c = (.ok sink₁, c₁)) :
    drain S k count r c = match r₁.readInto S sink₁ with
      | (.error e, r, sink) => (.error e, r, k.abortEntry info sink c₁)
      | (.ok _, r, sink) => match k.closeEntry info sink c₁ with
        | (.error e, c) => (.error (.io e), r, c)
        | (.ok (), c) => drain S k (count + 1) r c := by
  -- only the left side is unfolded: the right one still has the rest to drain
  conv => lhs; unfold drain
  split
  · simp_all
  · simp_all
  · rename_i hnext'
    rw [hnext] at hnext'
    obtain ⟨hinfo, rfl⟩ := Prod.mk.inj hnext'
    cases hinfo
    simp only [hopen]
    split
    · rename_i hread
      simp only [hread]
    · rename_i sink hread
      rcases hclose : k.closeEntry info sink c₁ with ⟨closed, c₂⟩
      cases closed <;> simp only [hread, hclose]

/-- It ends where the entry cannot be read, and the consumer is told to drop
it. -/
theorem drain_abort {e : Error} (count : Nat) (hnext : r.next S = (.ok (some info), r₁))
    (hopen : k.openEntry info c = (.ok sink₁, c₁))
    (hread : r₁.readInto S sink₁ = (.error e, r₂, sink₂)) :
    drain S k count r c = (.error e, r₂, k.abortEntry info sink₂ c₁) := by
  rw [drain_some count hnext hopen, hread]

/-- Otherwise it goes on behind the entry. -/
theorem drain_entry {size : UInt64} (count : Nat) (hnext : r.next S = (.ok (some info), r₁))
    (hopen : k.openEntry info c = (.ok sink₁, c₁))
    (hread : r₁.readInto S sink₁ = (.ok size, r₂, sink₂))
    (hclose : k.closeEntry info sink₂ c₁ = (.ok (), c₂)) :
    drain S k count r c = drain S k (count + 1) r₂ c₂ := by
  rw [drain_some count hnext hopen, hread]
  simp only [hclose]

end

/-! ## What a move leads to -/

section

variable {s s' : Opening σ} {source : Source}

/-- A session begins after the head, in front of the payload. -/
theorem create_ok {smith : Locksmith σ} {lenient : Bool}
    (h : create smith lenient source = .ok s) :
    ∃ rest, ParsedHeader.read lenient source = (.ok s.header, rest) ∧ s.smith = smith ∧
      s.lenient = lenient ∧ s.stage = .locksParsed rest := by
  unfold create at h
  split at h
  · exact absurd h (by simp)
  · rename_i header rest hread
    cases h
    exact ⟨rest, hread, rfl, rfl, rfl⟩

/-- A lock that was opened leaves the payload as it is. -/
theorem noteFmk_eq (h : s.stage.untouched? = some source) :
    s.noteFmk = { s with stage := .fmkObtained source } := by
  obtain ⟨smith, header, lenient, stage⟩ := s
  cases stage with
  | locksParsed | fmkObtained =>
    obtain rfl := Option.some.inj h
    rfl
  | decrypting | finished | poisoned => exact absurd h (by simp [Stage.untouched?])

/-- A key that is given out is confirmed by the head, and the payload
stays as it is. -/
theorem getFmk_ok {index : Nat} {fmk : Fmk} {w w' : World σ}
    (h : s.getFmk index w = (.ok fmk, s', w')) :
    ∃ source, s.stage.untouched? = some source ∧ s.header.verify s.smith.suite fmk = .ok () ∧
      s' = { s with stage := .fmkObtained source } := by
  unfold getFmk at h
  split at h
  · exact absurd (Prod.mk.inj h).1 (by simp)
  · rename_i source hstage
    split at h
    · exact absurd (Prod.mk.inj h).1 (by simp)
    · split at h
      · exact absurd (Prod.mk.inj h).1 (by simp)
      · split at h
        · exact absurd (Prod.mk.inj h).1 (by simp)
        · rename_i hverify
          obtain ⟨hfmk, hrest⟩ := Prod.mk.inj h
          cases hfmk
          obtain ⟨hs, -⟩ := Prod.mk.inj hrest
          exact ⟨source, hstage, hverify, hs.symm.trans (noteFmk_eq hstage)⟩

/-- A lock that could not be opened leaves the session where it was. -/
theorem getFmk_error {index : Nat} {e : Error} {w w' : World σ}
    (h : s.getFmk index w = (.error e, s', w')) : s' = s := by
  unfold getFmk at h
  split at h
  · exact (Prod.mk.inj (Prod.mk.inj h).2).1.symm
  · split at h
    · exact (Prod.mk.inj (Prod.mk.inj h).2).1.symm
    · split at h
      · exact (Prod.mk.inj (Prod.mk.inj h).2).1.symm
      · split at h
        · exact (Prod.mk.inj (Prod.mk.inj h).2).1.symm
        · exact absurd (Prod.mk.inj h).1 (by simp)

/-- A key that the head confirms moves the source on to a reader. -/
theorem begin_eq (h : s.stage.untouched? = some source) (fmk : Fmk) :
    s.begin fmk = match s.header.verify s.smith.suite fmk with
      | .error e => (.error e, s)
      | .ok () =>
        (.ok (), { s with stage := .decrypting fmk (.create source (s.channel fmk) s.lenient) }) := by
  simp only [begin, takeStage, h]
  rfl

/-- Reading that began had a key that the head confirms, and is at the first
frame. -/
theorem begin_ok {fmk : Fmk} (h : s.begin fmk = (.ok (), s')) :
    ∃ source, s.stage.untouched? = some source ∧
      s.header.verify s.smith.suite fmk = .ok () ∧
      s' = { s with stage := .decrypting fmk (.create source (s.channel fmk) s.lenient) } := by
  cases hstage : s.stage.untouched? with
  | none =>
    rw [Opening.begin, hstage] at h
    exact absurd (Prod.mk.inj h).1 (by simp)
  | some source =>
    rw [begin_eq hstage] at h
    cases hverify : s.header.verify s.smith.suite fmk with
    | error e =>
      rw [hverify] at h
      exact absurd (Prod.mk.inj h).1 (by simp)
    | ok u =>
      rw [hverify] at h
      exact ⟨source, rfl, rfl, (Prod.mk.inj h).2.symm⟩

/-- A session that decrypts is finished, and remembers whether it was at the
end. -/
theorem finish_eq {fmk : Fmk} {payload : Payload.Reader} (h : s.stage = .decrypting fmk payload) :
    s.finish = (.ok (), { s with stage := .finished payload.isFinished }) := by
  simp only [finish, takeStage, h]

/-- Once the reading has begun, decrypting everything is to drain the
payload and to finish. -/
theorem decryptAll_eq {fmk key : Fmk} {payload payload' : Payload.Reader} {consumer : Consumer γ}
    {c c' : γ} {result : Except Error Nat} (hbegin : s.begin fmk = (.ok (), s'))
    (hstage : s'.stage = .decrypting key payload)
    (hdrain : drain s'.smith.suite consumer 0 payload c = (result, payload', c')) :
    s.decryptAll fmk consumer c
      = (result, { s' with stage := .finished payload'.isFinished }, c') := by
  simp only [decryptAll, hbegin, hstage, hdrain, finish, takeStage]
  cases result <;> rfl

end

end Opening

end Lockbox
