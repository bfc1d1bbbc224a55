import Lockbox.Proofs.Turns
/-!
# Lockbox — everything at once, spelled out

To encrypt everything at once is to make single calls, and which ones is
computed here from what the sources deliver and from where a call fails.
An `Act` is what a session can be told, a single call or all at once, and
what acts lead to is what their calls lead to (`played_spelled`).
-/

namespace Lockbox

namespace Sealing

variable {σ : Type}

/-! ## The calls of everything -/

/-- The calls that add recipients, up to the first that fails. -/
def callsOfRecipients : List Recipient → Sealing σ → World σ → List Call
  | [], _, _ => []
  | r :: rest, s, w =>
    .addRecipient r ::
      match s.addRecipient r w with
      | (.ok _, s, w) => callsOfRecipients rest s w
      | (.error _, _, _) => []

/-- The calls that hand over what a source delivers. -/
def callsOfPump (remaining : Nat) (source : Source) (s : Sealing σ) : List Call :=
  if hr : remaining = 0 then []
  else
    have hpos : 0 < min chunkSize remaining := by
      have : 0 < chunkSize := by decide
      omega
    match hread : source.read (min chunkSize remaining) with
    | (.ended, _) | (.failed _, _) => []
    | (.got b, source') =>
      have := Source.weight_read hpos hread (by simp)
      .writeData b ::
        match s.writeData b with
        | (.ok (), s) => callsOfPump (remaining - b.length) source' s
        | (.error _, _) => []
termination_by source.weight

/-- The calls that add entries, up to where one of them fails. -/
def callsOfFiles : List (FileInfo × Source) → Sealing σ → List Call
  | [], _ => []
  | (info, source) :: rest, s =>
    .addFile info.name info.size ::
      match s.addFile info.name info.size with
      | (.error _, _) => []
      | (.ok (), s) => callsOfPump info.size.toNat source s ++
        match s.pump info.size.toNat source with
        | (.error _, _) => []
        | (.ok (), s) => callsOfFiles rest s

/-- The call to begin, if nothing has begun yet. -/
def callsToBegin (s : Sealing σ) : List Call :=
  match s.stage with
  | .created => [.begin]
  | _ => []

/-- The calls that add all recipients and entries and finish. -/
def callsOfAll (recipients : List Recipient) (files : List (FileInfo × Source)) (s : Sealing σ)
    (w : World σ) : List Call :=
  callsToBegin s ++
    match s.ensureBegun w with
    | (.error _, _, _) => []
    | (.ok (), s, w) => callsOfRecipients recipients s w ++
      match s.addRecipients recipients w with
      | (.error _, _, _) => []
      | (.ok (), s, _) => callsOfFiles files s ++
        match s.addFiles files with
        | (.error _, _) => []
        | (.ok (), _) => [.finish]

/-- A call, and then the others. -/
theorem played_cons (call : Call) (calls : List Call) (s : Sealing σ) (w : World σ) :
    played (call :: calls) s w = played calls (call.next s w).1 (call.next s w).2 := rfl

/-- The recipients are added by their calls. -/
theorem played_callsOfRecipients (recipients : List Recipient) (s : Sealing σ) (w : World σ) :
    played (callsOfRecipients recipients s w) s w = (s.addRecipients recipients w).2 := by
  induction recipients generalizing s w with
  | nil => rfl
  | cons r rest ih =>
    have hnext : (Call.addRecipient r).next s w = (s.addRecipient r w).2 := rfl
    rw [callsOfRecipients, played_cons, hnext, addRecipients]
    rcases s.addRecipient r w with ⟨e | index, s', w'⟩
    · rfl
    · exact ih s' w'

section

variable {remaining : Nat} {source source' : Source} {s : Sealing σ}

/-- A source that ends has nothing more to hand over, and its entry may be too
short. -/
theorem pump_of_ended (hr : remaining ≠ 0)
    (h : source.read (min chunkSize remaining) = (.ended, source')) :
    s.pump remaining source = (.ok (), s) := by
  rw [pump, dif_neg hr]
  split <;> simp_all

/-- A source that fails ends the pumping, and the session does not take note of
it. -/
theorem pump_of_failed {e : IoError} (hr : remaining ≠ 0)
    (h : source.read (min chunkSize remaining) = (.failed e, source')) :
    s.pump remaining source = (.error (.io e), s) := by
  rw [pump, dif_neg hr]
  split <;> simp_all

/-- What a source delivers is handed over in one call. -/
theorem pump_of_got {b : Bytes} (hr : remaining ≠ 0)
    (h : source.read (min chunkSize remaining) = (.got b, source')) :
    s.pump remaining source = match s.writeData b with
      | (.ok (), s') => s'.pump (remaining - b.length) source'
      | (.error e, s') => (.error e, s') := by
  rw [pump, dif_neg hr]
  split
  · simp_all
  · simp_all
  · rename_i hread
    obtain ⟨hb, rfl⟩ := Prod.mk.inj (hread.symm.trans h)
    cases hb
    rfl

end

/-- **Pumping is one call for each piece that the source delivers.** -/
theorem played_callsOfPump (remaining : Nat) (source : Source) (s : Sealing σ) (w : World σ) :
    played (callsOfPump remaining source s) s w = ((s.pump remaining source).2, w) := by
  -- piece by piece, as the source delivers
  fun_induction callsOfPump remaining source s with
  | case1 source s =>
    rw [pump, dif_pos rfl]
    rfl
  | case2 remaining source s hr hpos x hread =>
    rw [pump_of_ended hr hread]
    rfl
  | case3 remaining source s hr hpos e x hread =>
    rw [pump_of_failed hr hread]
    rfl
  | case4 remaining source s hr hpos b source' hread hlt ih =>
    have hnext : (Call.writeData b).next s w = ((s.writeData b).2, w) := rfl
    rw [pump_of_got hr hread, played_cons, hnext]
    rcases hwrite : s.writeData b with ⟨e | u, s'⟩
    · rfl
    · exact ih s'

/-- Entries are added by the calls that declare them and hand over their data.
-/
theorem played_callsOfFiles (files : List (FileInfo × Source)) (s : Sealing σ) (w : World σ) :
    played (callsOfFiles files s) s w = ((s.addFiles files).2, w) := by
  induction files generalizing s with
  | nil => rfl
  | cons file rest ih =>
    obtain ⟨info, source⟩ := file
    have hnext : (Call.addFile info.name info.size).next s w
        = ((s.addFile info.name info.size).2, w) := rfl
    rw [callsOfFiles, played_cons, hnext, addFiles]
    rcases s.addFile info.name info.size with ⟨e | u, s₁⟩
    · rfl
    · dsimp only
      have hpump := played_callsOfPump info.size.toNat source s₁ w
      rw [played_append, hpump]
      rcases s₁.pump info.size.toNat source with ⟨e | u, s₂⟩
      · rfl
      · exact ih s₂

/-- **To encrypt everything is to make these calls.** -/
theorem played_callsOfAll (recipients : List Recipient) (files : List (FileInfo × Source))
    (s : Sealing σ) (w : World σ) :
    played (callsOfAll recipients files s w) s w = (s.encryptAll recipients files w).2 := by
  have hbegin : played (callsToBegin s) s w = (s.ensureBegun w).2 := by
    cases hstage : s.stage with
    | created =>
      simp only [callsToBegin, ensureBegun, hstage]
      rfl
    | _ =>
      simp only [callsToBegin, ensureBegun, hstage]
      rfl
  rw [callsOfAll, played_append, hbegin, encryptAll]
  rcases s.ensureBegun w with ⟨e | u, s₁, w₁⟩
  · rfl
  · dsimp only
    have hrecipients := played_callsOfRecipients recipients s₁ w₁
    rw [played_append, hrecipients]
    rcases s₁.addRecipients recipients w₁ with ⟨e | u, s₂, w₂⟩
    · rfl
    · dsimp only
      have hfiles := played_callsOfFiles files s₂ w₂
      rw [played_append, hfiles]
      rcases s₂.addFiles files with ⟨e | u, s₃⟩
      · rfl
      · rfl

/-! ## Acts -/

/-- What a session can be told. -/
inductive Act where
  | single (call : Call)
  | everything (recipients : List Recipient) (files : List (FileInfo × Source))

/-- The session and the world after an act. -/
def Act.next : Act → Sealing σ → World σ → Sealing σ × World σ
  | .single call, s, w => call.next s w
  | .everything recipients files, s, w => (s.encryptAll recipients files w).2

/-- The calls of an act. -/
def Act.calls : Act → Sealing σ → World σ → List Call
  | .single call, _, _ => [call]
  | .everything recipients files, s, w => callsOfAll recipients files s w

/-- The session and the world after acts. -/
def acted (acts : List Act) (s : Sealing σ) (w : World σ) : Sealing σ × World σ :=
  acts.foldl (fun p act => act.next p.1 p.2) (s, w)

/-- The calls of acts, one after the other. -/
def spelled : List Act → Sealing σ → World σ → List Call
  | [], _, _ => []
  | act :: acts, s, w => act.calls s w ++ spelled acts (act.next s w).1 (act.next s w).2

/-- An act leads to what its calls lead to. -/
theorem Act.played_calls (act : Act) (s : Sealing σ) (w : World σ) :
    played (act.calls s w) s w = act.next s w := by
  cases act with
  | single call => rfl
  | everything recipients files => exact played_callsOfAll recipients files s w

/-- **Acts lead to what their calls lead to.** -/
theorem played_spelled (acts : List Act) (s : Sealing σ) (w : World σ) :
    played (spelled acts s w) s w = acted acts s w := by
  induction acts generalizing s w with
  | nil => rfl
  | cons act acts ih =>
    rw [spelled, played_append, act.played_calls, ih]
    rfl

end Sealing

end Lockbox
