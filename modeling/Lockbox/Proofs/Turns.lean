import Lockbox.Proofs.Session
/-!
# Lockbox — the calls of a session that writes

What each call answers and what it leaves, told by the phase of the
session. A call out of turn is refused and changes nothing. A failure of
size, of a sink or for want of recipients ends a session, and so does
every failure to finish; to fail to make a lock does not. The destination
is out of reach for all calls but one, a `finish` that finds a lock and a
last entry that is complete.
-/

namespace Lockbox

open Payload

/-! ## Failures

Failures are sorted by what they do to a session. The steps that make a lock
are followed to see that none of theirs is final. -/

namespace Error

/-- The entry of the wrong size, if that was the failure. -/
def mismatch? : Error → Option Mismatch
  | .sizeMismatch m => some m
  | _ => none

/-- Failures that end the session, whatever call they come from. -/
def Final : Error → Prop
  | .sizeMismatch _ | .noRecipients | .io _ => True
  | _ => False

/-- Failures to finish that come before anything is written. -/
def BeforeOutput : Error → Prop
  | .noRecipients | .sizeMismatch _ | .state _ _ | .parse _ => True
  | _ => False

/-- Failures of frames: their sink failed, or there was no number left. -/
def FromFrames : Error → Prop
  | .io _ | .crypto _ => True
  | _ => False

/-- A frame that fails is no matter of sizes. -/
theorem FromFrames.mismatch? {e : Error} (h : e.FromFrames) : e.mismatch? = none := by
  cases e with
  | io | crypto => rfl
  | _ => exact h.elim

end Error

/-- A step none of whose failures would end a session. -/
def Step.Lasting {s α : Type} (x : Step Error s α) : Prop :=
  ∀ w w' e, x w = (.error e, w') → ¬ e.Final

namespace Step.Lasting

variable {s t ε α β : Type}

theorem answer {r : Except Error α} (h : ∀ e, r = .error e → ¬ e.Final) :
    Lasting (Step.answer r : Step Error s α) := by
  intro w w' e hw
  exact h e (Prod.mk.inj hw).1

theorem pure (a : α) : Lasting (pure a : Step Error s α) :=
  answer fun e he => absurd he (by simp)

theorem fail {e : Error} (h : ¬ e.Final) : Lasting (Step.fail e : Step Error s α) :=
  answer fun e' he => by
    cases he
    exact h

/-- Of two steps that last the first one may fail or the second one. -/
theorem bind {x : Step Error s α} {f : α → Step Error s β} (hx : Lasting x)
    (hf : ∀ a, Lasting (f a)) : Lasting (x >>= f) := by
  intro w w' e hw
  rw [Step.bind_apply] at hw
  rcases hr : x w with ⟨e' | a, w₁⟩
  · rw [hr] at hw
    obtain ⟨he, -⟩ := Prod.mk.inj hw
    cases he
    exact hx w w₁ e hr
  · rw [hr] at hw
    exact hf a w₁ w' e hw

/-- What others are asked for fails in a way of its own. -/
theorem ask_blame {σ : Type} {f : ε → Error} (h : ∀ e, ¬ (f e).Final) (x : Step ε σ α) :
    Lasting (World.ask (Step.blame f x)) := by
  intro w w' e hw
  simp only [World.ask, Step.zoom, Step.blame] at hw
  rcases hr : x w.outside with ⟨e' | a, o⟩
  · rw [hr] at hw
    obtain ⟨he, -⟩ := Prod.mk.inj hw
    cases he
    exact h e'
  · rw [hr] at hw
    exact absurd (Prod.mk.inj hw).1 (by simp)

theorem draw {σ : Type} (n : Nat) :
    Lasting (World.draw n : Step Error (World σ) (Octets n)) := by
  intro w w' e hw
  exact absurd (Prod.mk.inj hw).1 (by simp)

/-- Failures that are translated last if their translations do. -/
theorem mapError {ε α : Type} {f : ε → Error} (h : ∀ e, ¬ (f e).Final) (r : Except ε α) :
    Lasting (Step.answer (r.mapError f) : Step Error s α) :=
  answer fun e he => by
    cases r with
    | ok a => cases he
    | error e' =>
      cases he
      exact h e'

end Step.Lasting

namespace Locksmith

variable {σ : Type} (m : Locksmith σ)

/-- A provider that has no secret fails in its own way. -/
theorem lasting_inlineOr (info : LockInfo) (given : Option Bytes) :
    (m.inlineOr info given).Lasting := by
  cases given with
  | some secret => exact .pure secret
  | none => exact .ask_blame (fun _ => id) _

/-- A recipient whose key is no key is a failure of cryptography. -/
theorem lasting_agreeWith (recipient : Octets 32) : (m.agreeWith recipient).Lasting :=
  .bind (.draw 32) fun _ => .mapError (fun _ => id) _

/-- All that can fail in preparing a lock, one kind after the other: a secret
that is missing or empty, too few rounds, a key that cannot be derived, a
server that is not there. -/
theorem lasting_prepare (info : LockInfo) (r : Recipient) : (m.prepare info r).Lasting := by
  cases r with
  | password label password iterations =>
    refine .bind (m.lasting_inlineOr info password) fun password => ?_
    refine .bind (.mapError (fun _ => id) _) fun _ => ?_
    refine .bind (.draw 32) fun salt => .bind (.draw 32) fun pwSalt => ?_
    exact .bind (.mapError (fun _ => id) _) fun key => .pure _
  | symmetricKey label key =>
    refine .bind (m.lasting_inlineOr info key) fun key => ?_
    split
    · exact .fail id
    · exact .bind (.draw 32) fun salt => .pure _
  | publicKey label recipient => exact .bind (m.lasting_agreeWith recipient) fun _ => .pure _
  | certificate label certificate recipient =>
    exact .bind (m.lasting_agreeWith recipient) fun _ => .pure _
  | server label recipient serverId =>
    simp only [prepare]
    split
    · exact .fail id
    · split
      · exact .fail id
      · refine .bind (m.lasting_agreeWith recipient) fun _ => ?_
        exact .bind (.ask_blame (fun _ => id) _) fun _ => .pure _

/-- **To fail to make a lock does not end a session.** -/
theorem lasting_wrap (index : Nat) (r : Recipient) (fmk : Fmk) :
    (m.wrap index r fmk).Lasting :=
  .bind (m.lasting_prepare _ r) fun _ => .bind (.draw 24) fun _ => .pure _

end Locksmith

/-! ## Turns -/

namespace Payload.Writer

variable {S : Suite} {w : Writer}

/-- The last entry has received all of its data, or there is none. -/
def AtRest (w : Writer) : Prop := ∀ f, w.current = some f → f.written = f.declared.toNat

/-- The check of completeness looks at the last entry alone. -/
theorem checkComplete_ok_iff : w.checkComplete = .ok () ↔ w.AtRest := by
  unfold checkComplete AtRest
  split
  · rename_i f hf
    rw [hf]
    constructor
    · intro h g hg
      cases hg
      split at h
      · assumption
      · exact absurd h (by simp)
    · intro h
      rw [if_pos (h f rfl)]
  · rename_i hf
    rw [hf]
    exact ⟨fun _ g hg => absurd hg (by simp), fun _ => rfl⟩

/-- A frame that is not written has failed for its sink or its number. -/
theorem Unwritten.fromFrames {e : Error} (h : Unwritten e w) : e.FromFrames := by
  obtain ⟨fault, rfl⟩ | ⟨rfl, -⟩ := h <;> trivial

/-- Recipients are no matter of a payload. -/
theorem declare_ne_noRecipients (name : String) (size : UInt64) :
    (w.declare S name size).1 ≠ .error .noRecipients := by
  intro he
  obtain ⟨-, ⟨f, -, h⟩ | ⟨m, -, h⟩ | ⟨-, h⟩⟩ | h := declare_error (Prod.ext he rfl)
  · exact absurd h (by simp)
  · exact absurd h (by simp)
  · exact absurd h (by simp)
  · exact h.fromFrames

/-- Nor are they of data. -/
theorem write_ne_noRecipients (data : Bytes) : (w.write S data).1 ≠ .error .noRecipients := by
  intro he
  obtain ⟨-, ⟨-, h⟩ | ⟨f, -, -, h⟩⟩ | h := write_error (Prod.ext he rfl)
  · exact absurd h (by simp)
  · exact absurd h (by simp)
  · exact h.fromFrames

/-- To close a complete payload fails only with its last frame. -/
theorem close_error_kind {e : Error} (hrest : w.AtRest) (h : w.close S = .error e) :
    e.FromFrames := by
  unfold Writer.close at h
  rw [checkComplete_ok_iff.mpr hrest] at h
  dsimp only at h
  split at h
  · rename_i hemit
    cases h
    exact (emit_error hemit).fromFrames
  · split at h
    · cases h
      trivial
    · exact absurd h (by simp)

end Payload.Writer

namespace Sealing

variable {σ : Type} {s s' : Sealing σ} {w w' : World σ} {draft : Draft} {e : Error}

/-- The operation that a call asks for. -/
def Call.operation : Call → Operation
  | .begin => .beginEncryption
  | .addRecipient _ => .addRecipient
  | .addFile _ _ => .addFile
  | .writeData _ => .writeData
  | .finish => .finishEncryption

/-- The phase in which a call does anything. -/
def Call.phase : Call → Phase
  | .begin => .created
  | _ => .accepting

/-- What a call answers, but for the place of a lock. -/
def Call.answer : Call → Sealing σ → World σ → Except Error Unit
  | .begin, s, w => (s.begin w).1
  | .addRecipient r, s, w => (s.addRecipient r w).1.map fun _ => ()
  | .addFile name size, s, _ => (s.addFile name size).1
  | .writeData data, s, _ => (s.writeData data).1
  | .finish, s, _ => s.finish.1

/-- The session and the world after a call. -/
def Call.next (call : Call) (s : Sealing σ) (w : World σ) : Sealing σ × World σ :=
  (call.apply (.empty, s, w)).2

/-- The ledger is kept beside the run and does not steer it. -/
theorem Call.apply_snd (call : Call) (l : Ledger) (s : Sealing σ) (w : World σ) :
    (call.apply (l, s, w)).2 = call.next s w := by
  cases call <;> rfl

/-- The session and the world after calls. -/
def played (calls : List Call) (s : Sealing σ) (w : World σ) : Sealing σ × World σ :=
  calls.foldl (fun p call => call.next p.1 p.2) (s, w)

theorem played_append (before later : List Call) (s : Sealing σ) (w : World σ) :
    played (before ++ later) s w = played later (played before s w).1 (played before s w).2 := by
  simp [played, List.foldl_append]

/-- A run goes through the same sessions. -/
theorem run_snd (calls : List Call) (s : Sealing σ) (w : World σ) :
    (run calls s w).2 = played calls s w := by
  have hstep : ∀ (calls : List Call) (l : Ledger) (s : Sealing σ) (w : World σ),
      (calls.foldl (fun state call => call.apply state) (l, s, w)).2 = played calls s w := by
    intro calls
    induction calls with
    | nil => exact fun l s w => rfl
    | cons call calls ih =>
      intro l s w
      have hlater := ih (call.apply (l, s, w)).1 (call.apply (l, s, w)).2.1
        (call.apply (l, s, w)).2.2
      show _ = played calls (call.next s w).1 (call.next s w).2
      rw [← call.apply_snd l]
      exact hlater
  exact hstep calls .empty s w

/-- What every call keeps, unless something is met, is kept until that is
met. -/
theorem kept_or_met {P : Sealing σ → Prop} {M : Call → Sealing σ → Prop}
    (hstep : ∀ (call : Call) (s : Sealing σ) (w : World σ), P s → P (call.next s w).1 ∨ M call s)
    (calls : List Call) (s : Sealing σ) (w : World σ) (h : P s) :
    P (played calls s w).1 ∨ ∃ before call later, calls = before ++ call :: later ∧
      P (played before s w).1 ∧ M call (played before s w).1 :=
  foldl_kept_or_met (fun p call => hstep call p.1 p.2) calls (s, w) h

/-! ## Calls out of turn

In every phase but its own a call is refused, and the session answers from
its stage alone. -/

/-- A session begins once. -/
theorem begin_of_ne (h : s.stage.phase ≠ .created) (w : World σ) :
    s.begin w = (.error (s.refuse .beginEncryption), s, w) := by
  unfold Sealing.begin
  split
  · rename_i hstage
    exact absurd (congrArg Stage.phase hstage) h
  · rfl

/-- Recipients are added while a session accepts. -/
theorem addRecipient_of_ne (h : s.stage.phase ≠ .accepting) (r : Recipient) (w : World σ) :
    s.addRecipient r w = (.error (s.refuse .addRecipient), s, w) := by
  unfold Sealing.addRecipient
  split
  · rename_i hstage
    exact absurd (congrArg Stage.phase hstage) h
  · rfl

/-- Entries and their data are, too. -/
theorem onPayload_of_ne (h : s.stage.phase ≠ .accepting) (op : Operation)
    (f : Writer → Except Error Unit × Writer) : s.onPayload op f = (.error (s.refuse op), s) := by
  unfold onPayload
  split
  · rename_i hstage
    exact absurd (congrArg Stage.phase hstage) h
  · rfl

/-- A session is finished while it accepts. Only one that failed for a wrong
size answers otherwise. -/
theorem finish_of_ne (h : s.stage.phase ≠ .accepting) (hcause : ∀ m, s.stage ≠ .failed (some m)) :
    s.finish = (.error (s.refuse .finishEncryption), s) := by
  unfold Sealing.finish
  split
  · rename_i m hstage
    exact absurd hstage (hcause m)
  · rename_i hstage
    exact absurd (congrArg Stage.phase hstage) h
  · rfl

/-- A session that failed for a wrong size repeats which it was. -/
theorem finish_of_mismatch {m : Mismatch} (h : s.stage = .failed (some m)) :
    s.finish = (.error (.sizeMismatch m), s) := by
  simp only [Sealing.finish, h]

/-- **A call out of turn changes nothing.** -/
theorem Call.next_of_ne {call : Call} (h : s.stage.phase ≠ call.phase) (w : World σ) :
    call.next s w = (s, w) := by
  cases call with
  | begin => exact congrArg Prod.snd (begin_of_ne h w)
  | addRecipient r => exact congrArg Prod.snd (addRecipient_of_ne h r w)
  | addFile name size =>
    show ((s.onPayload _ _).2, w) = (s, w)
    rw [onPayload_of_ne h]
  | writeData data =>
    show ((s.onPayload _ _).2, w) = (s, w)
    rw [onPayload_of_ne h]
  | finish =>
    show (s.finish.2, w) = (s, w)
    by_cases hcause : ∃ m, s.stage = .failed (some m)
    · obtain ⟨m, hm⟩ := hcause
      rw [finish_of_mismatch hm]
    · rw [finish_of_ne h fun m hm => hcause ⟨m, hm⟩]

/-- And it is refused, but that the wrong size is repeated. -/
theorem Call.answer_of_ne {call : Call} (h : s.stage.phase ≠ call.phase)
    (hcause : call = .finish → ∀ m, s.stage ≠ .failed (some m)) (w : World σ) :
    call.answer s w = .error (s.refuse call.operation) := by
  cases call with
  | begin => exact congrArg Prod.fst (begin_of_ne h w)
  | addRecipient r =>
    show (s.addRecipient r w).1.map _ = _
    rw [addRecipient_of_ne h]
    rfl
  | addFile name size => exact congrArg Prod.fst (onPayload_of_ne h _ _)
  | writeData data => exact congrArg Prod.fst (onPayload_of_ne h _ _)
  | finish => exact congrArg Prod.fst (finish_of_ne h (hcause rfl))

/-! ## What a call can do

For each call, what a failure of it leaves, and that the destination is
written by one of them only. -/

/-- A session that a call to finish would begin to deliver. -/
def Ripe (s : Sealing σ) : Prop :=
  ∃ draft, s.stage = .accepting draft ∧ draft.locks ≠ [] ∧ draft.payload.AtRest

/-- **Where delivering fails,** it is never for a wrong size, and if it fails
before the output begins, the destination is as it was. -/
theorem deliver_error {spool dest : Sink} (h : s.deliver draft spool = (.error e, dest)) :
    e.mismatch? = none ∧ (e.BeforeOutput → dest = s.dest) := by
  unfold deliver at h
  dsimp only at h
  split at h
  · -- the spool cannot be read from its beginning: nothing was written yet
    obtain ⟨he, rfl⟩ := Prod.mk.inj h
    cases he
    exact ⟨rfl, fun _ => rfl⟩
  split at h
  · rename_i e' dest' hwrite
    obtain ⟨he, rfl⟩ := Prod.mk.inj h
    cases he
    -- a head that is too long fails before its first byte, one that is cut off after it
    unfold Header.write at hwrite
    dsimp only at hwrite
    split at hwrite
    · obtain ⟨he, rfl⟩ := Prod.mk.inj hwrite
      cases he
      exact ⟨rfl, fun _ => rfl⟩
    · split at hwrite
      · obtain ⟨he, -⟩ := Prod.mk.inj hwrite
        cases he
        exact ⟨rfl, False.elim⟩
      · exact absurd (Prod.mk.inj hwrite).1 (by simp)
  · split at h
    · obtain ⟨he, -⟩ := Prod.mk.inj h
      cases he
      exact ⟨rfl, False.elim⟩
    · split at h
      · obtain ⟨he, -⟩ := Prod.mk.inj h
        cases he
        exact ⟨rfl, False.elim⟩
      · split at h
        · obtain ⟨he, -⟩ := Prod.mk.inj h
          cases he
          exact ⟨rfl, False.elim⟩
        · exact absurd (Prod.mk.inj h).1 (by simp)

/-- **To fail to finish ends a session.** Nothing is written if it fails
before the output begins. -/
theorem finish_error (hstage : s.stage = .accepting draft) (h : s.finish = (.error e, s')) :
    s'.stage = .failed e.mismatch? ∧ (e.BeforeOutput → s'.dest = s.dest) := by
  unfold Sealing.finish at h
  rw [hstage] at h
  dsimp only at h
  split at h
  · obtain ⟨he, rfl⟩ := Prod.mk.inj h
    cases he
    exact ⟨rfl, fun _ => rfl⟩
  · split at h
    · rename_i hcomplete
      obtain ⟨m, rfl⟩ := Writer.checkComplete_error hcomplete
      obtain ⟨he, rfl⟩ := Prod.mk.inj h
      cases he
      exact ⟨rfl, fun _ => rfl⟩
    · rename_i hcomplete
      split at h
      · rename_i hclose
        obtain ⟨he, rfl⟩ := Prod.mk.inj h
        cases he
        have hkind := Writer.close_error_kind (Writer.checkComplete_ok_iff.mp hcomplete) hclose
        rw [hkind.mismatch?]
        exact ⟨rfl, fun _ => rfl⟩
      · split at h
        · rename_i hdeliver
          obtain ⟨he, rfl⟩ := Prod.mk.inj h
          cases he
          obtain ⟨hmismatch, hdest⟩ := deliver_error hdeliver
          rw [hmismatch]
          exact ⟨rfl, hdest⟩
        · exact absurd (Prod.mk.inj h).1 (by simp)

/-- A session that is not ripe does not write. -/
theorem dest_finish (h : ¬ s.Ripe) : s.finish.2.dest = s.dest := by
  unfold Sealing.finish
  split
  · rfl
  · rename_i draft hstage
    split
    · rfl
    · rename_i hlocks
      split
      · rfl
      · rename_i hcomplete
        exact absurd ⟨draft, hstage, hlocks, Writer.checkComplete_ok_iff.mp hcomplete⟩ h
  · rfl

/-- **Only a session that is ripe and told to finish writes.** -/
theorem dest_next (call : Call) (s : Sealing σ) (w : World σ) :
    (call.next s w).1.dest = s.dest ∨ call = .finish ∧ s.Ripe := by
  cases call with
  | begin =>
    left
    show (s.begin w).2.1.dest = s.dest
    unfold Sealing.begin
    split <;> rfl
  | addRecipient r =>
    left
    show (s.addRecipient r w).2.1.dest = s.dest
    unfold Sealing.addRecipient
    split
    · dsimp only
      split <;> rfl
    · rfl
  | addFile name size =>
    left
    show (s.onPayload _ _).2.dest = s.dest
    unfold onPayload
    split <;> rfl
  | writeData data =>
    left
    show (s.onPayload _ _).2.dest = s.dest
    unfold onPayload
    split <;> rfl
  | finish =>
    by_cases hripe : s.Ripe
    · exact .inr ⟨rfl, hripe⟩
    · exact .inl (dest_finish hripe)

/-- A stage goes on after what is neither a wrong size nor a failure of a
sink. -/
theorem Stage.after_cases (draft : Draft) (result : Except Error Unit) :
    (∃ cause, Stage.after draft result = .failed cause) ∨
      Stage.after draft result = .accepting draft ∧
        ∀ e, result = .error e → ¬ Writer.Fatal e := by
  unfold Stage.after
  split
  · exact .inl ⟨_, rfl⟩
  · exact .inl ⟨_, rfl⟩
  · rename_i hsize hio
    refine .inr ⟨rfl, fun e he hfatal => ?_⟩
    cases e with
    | sizeMismatch m => exact hsize m he
    | io fault => exact hio fault he
    | _ => exact hfatal.elim

/-- What an operation on the payload answers decides where the session goes. -/
theorem stage_onPayload (hstage : s.stage = .accepting draft) (op : Operation)
    (f : Writer → Except Error Unit × Writer) : (s.onPayload op f).2.stage =
      Stage.after { draft with payload := (f draft.payload).2 } (f draft.payload).1 := by
  simp only [Sealing.onPayload, hstage]

/-- Finishing leaves the locksmith as it is. -/
theorem smith_finish (s : Sealing σ) : s.finish.2.smith = s.smith := by
  unfold Sealing.finish
  repeat' split
  all_goals rfl

/-- A payload that fails for good ends the session. -/
theorem onPayload_final {op : Operation} {f : Writer → Except Error Unit × Writer}
    (hne : ∀ w, (f w).1 ≠ .error .noRecipients) (h : (s.onPayload op f).1 = .error e)
    (hfinal : e.Final) : (s.onPayload op f).2.stage = .failed e.mismatch? := by
  unfold onPayload at h ⊢
  split
  · rename_i draft hstage
    rw [hstage] at h
    have hfails : (f draft.payload).1 = .error e := h
    show Stage.after _ (f draft.payload).1 = _
    rw [hfails]
    -- of the failures that are final, a payload knows only these two
    cases e with
    | sizeMismatch | io => rfl
    | noRecipients => exact absurd hfails (hne _)
    | _ => exact hfinal.elim
  · rename_i hstage
    split at h
    · exact absurd ‹_› (hstage _)
    · cases h
      exact hfinal.elim

/-- **A failure that is final ends the session,** and so does every failure
of a session that accepts to finish. -/
theorem failed_of_answer {call : Call} (h : call.answer s w = .error e)
    (hends : e.Final ∨ call = .finish ∧ s.stage.phase = .accepting) :
    (call.next s w).1.stage = .failed e.mismatch? := by
  by_cases hturn : s.stage.phase = call.phase
  · cases call with
    | begin =>
      change (s.begin w).1 = .error e at h
      unfold Sealing.begin at h
      split at h
      · exact absurd h (by simp)
      · rename_i hstage
        cases hs : s.stage <;> simp_all [Stage.phase, Call.phase]
    | addRecipient r =>
      have hfinal : e.Final := hends.resolve_right (by simp)
      change (s.addRecipient r w).1.map _ = .error e at h
      unfold Sealing.addRecipient at h
      split at h
      · dsimp only at h
        split at h
        · exact absurd h (by simp [Except.map])
        · rename_i hwrap
          cases h
          exact absurd hfinal (s.smith.lasting_wrap _ r _ _ _ _ hwrap)
      · cases h
        exact hfinal.elim
    | addFile name size =>
      exact onPayload_final (fun w => Writer.declare_ne_noRecipients name size) h
        (hends.resolve_right (by simp))
    | writeData data =>
      exact onPayload_final (fun w => Writer.write_ne_noRecipients data) h
        (hends.resolve_right (by simp))
    | finish =>
      have hfinish : s.finish = (.error e, s.finish.2) := Prod.ext h rfl
      cases hstage : s.stage with
      | accepting draft => exact (finish_error hstage hfinish).1
      | _ => rw [hstage] at hturn; exact absurd hturn (by simp [Stage.phase, Call.phase])
  · -- out of turn, only a wrong size that is repeated is final
    rw [Call.next_of_ne hturn]
    by_cases hcause : call = .finish ∧ ∃ m, s.stage = .failed (some m)
    · obtain ⟨rfl, m, hm⟩ := hcause
      change s.finish.1 = .error e at h
      rw [finish_of_mismatch hm] at h
      cases h
      exact hm
    · rw [Call.answer_of_ne hturn (fun hc m hm => hcause ⟨hc, m, hm⟩)] at h
      cases h
      obtain hfinal | ⟨rfl, hphase⟩ := hends
      · exact hfinal.elim
      · exact absurd hphase hturn

/-- A call to finish that succeeds has sealed. -/
theorem sealed_of_finish (h : s.finish.1 = .ok ()) : s.finish.2.stage = .sealed := by
  have hfinish : s.finish = (.ok (), s.finish.2) := Prod.ext h rfl
  obtain ⟨draft, spool, hstage, hlocks, hclose, hdeliver⟩ := finish_ok hfinish
  obtain ⟨dest, hdest⟩ : ∃ dest, s.deliver draft spool = (.ok (), dest) := ⟨_, hdeliver⟩
  simp only [Sealing.finish, hstage, if_neg hlocks, Writer.complete_of_close hclose, hclose, hdest]

end Sealing

end Lockbox
