import Lockbox.Proofs.AllAtOnce
import Lockbox.Proofs.Turns
/-!
# Lockbox — how a session that writes ends

A session accepts until it fails or is sealed, and after that nothing
moves it any more: it is `Over`, and all that is left of it are its
refusals. Which of the two comes about, and when, is told by the answers
of its calls.
-/

namespace Lockbox

open Payload

namespace Sealing

variable {σ : Type} {s s' : Sealing σ} {w w' : World σ} {draft : Draft} {e : Error}

/-! ## Sessions that are over

A session can be over in two ways, sealed or failed. Both are absorbing, and
they differ in the refusals only. -/

/-- Every call gets its refusal, and none changes anything. -/
structure Over (refusal : Call → Error) (s : Sealing σ) : Prop where
  answer : ∀ (call : Call) (w : World σ), call.answer s w = .error (refusal call)
  still : ∀ (call : Call) (w : World σ), call.next s w = (s, w)

/-- The refusals of a session that failed. Told to finish, it repeats which
entry was of the wrong size, if that was the failure. -/
def Call.refusalAfter (cause : Option Mismatch) : Call → Error
  | .finish => cause.elim (.state .finishEncryption .failed) .sizeMismatch
  | call => .state call.operation .failed

/-- A session that failed is over, and says why if it was for a wrong size. -/
theorem over_of_failed {cause : Option Mismatch} (h : s.stage = .failed cause) :
    s.Over (Call.refusalAfter cause) := by
  have hphase : ∀ call : Call, s.stage.phase ≠ call.phase := by
    intro call
    rw [h]
    cases call <;> simp [Stage.phase, Call.phase]
  have hrefuse : ∀ op, s.refuse op = .state op .failed := by
    intro op
    rw [refuse, h]
    rfl
  constructor
  · intro call w
    cases call with
    | finish =>
      cases cause with
      | some m => exact congrArg Prod.fst (finish_of_mismatch h)
      | none =>
        rw [Call.answer_of_ne (hphase _) (fun _ m hm => by simp [h] at hm), hrefuse]
        rfl
    | _ =>
      rw [Call.answer_of_ne (hphase _) (fun hc => absurd hc (by simp)), hrefuse]
      rfl
  · exact fun call w => Call.next_of_ne (hphase call) w

/-- A session that is sealed is over. -/
theorem over_of_sealed (h : s.stage = .sealed) :
    s.Over fun call => .state call.operation .sealed := by
  have hphase : ∀ call : Call, s.stage.phase ≠ call.phase := by
    intro call
    rw [h]
    cases call <;> simp [Stage.phase, Call.phase]
  constructor
  · intro call w
    rw [Call.answer_of_ne (hphase _) (fun _ m hm => by simp [h] at hm), refuse, h]
    rfl
  · exact fun call w => Call.next_of_ne (hphase call) w

/-- **A session that is over stays as it is.** -/
theorem Over.played {refusal : Call → Error} (h : s.Over refusal) (calls : List Call)
    (w : World σ) : Sealing.played calls s w = (s, w) := by
  induction calls with
  | nil => rfl
  | cons call calls ih =>
    have hfirst : Sealing.played (call :: calls) s w
        = Sealing.played calls (call.next s w).1 (call.next s w).2 := rfl
    rw [hfirst, h.still]
    exact ih

theorem isSealed_iff : s.isSealed = true ↔ s.stage = .sealed := by
  unfold isSealed
  split
  · rename_i hstage
    exact ⟨fun _ => hstage, fun _ => rfl⟩
  · rename_i hstage
    exact ⟨fun h => absurd h (by simp), fun h => absurd h hstage⟩

/-- **Only a call to finish seals,** and only if it succeeds. -/
theorem sealed_next {call : Call} (h : s.stage ≠ .sealed)
    (hsealed : (call.next s w).1.stage = .sealed) : call = .finish ∧ s.finish.1 = .ok () := by
  have hpayload : ∀ op f, (s.onPayload op f).2.stage ≠ .sealed := by
    intro op f hs
    cases hstage : s.stage with
    | accepting draft =>
      rw [stage_onPayload hstage] at hs
      obtain ⟨cause, hends⟩ | ⟨hlasts, -⟩ := Stage.after_cases
        { draft with payload := (f draft.payload).2 } (f draft.payload).1
      · exact absurd (hends.symm.trans hs) (by simp)
      · exact absurd (hlasts.symm.trans hs) (by simp)
    | _ =>
      rw [onPayload_of_ne (by simp [hstage, Stage.phase])] at hs
      exact h hs
  cases call with
  | begin =>
    change (s.begin w).2.1.stage = .sealed at hsealed
    unfold Sealing.begin at hsealed
    split at hsealed
    · exact absurd hsealed (by simp)
    · exact absurd hsealed h
  | addRecipient r =>
    change (s.addRecipient r w).2.1.stage = .sealed at hsealed
    unfold Sealing.addRecipient at hsealed
    split at hsealed
    · dsimp only at hsealed
      split at hsealed
      · exact absurd hsealed (by simp)
      · exact absurd hsealed h
    · exact absurd hsealed h
  | addFile name size => exact absurd hsealed (hpayload _ _)
  | writeData data => exact absurd hsealed (hpayload _ _)
  | finish =>
    refine ⟨rfl, ?_⟩
    rcases hanswer : Call.finish.answer s w with e | u
    · by_cases hturn : s.stage.phase = .accepting
      · have hfailed := failed_of_answer hanswer (.inr ⟨rfl, hturn⟩)
        rw [hsealed] at hfailed
        exact absurd hfailed (by simp)
      · rw [Call.next_of_ne hturn] at hsealed
        exact absurd hsealed h
    · exact hanswer

end Sealing

/-! ## The end of a run

What was sealed is known from the call that finished it: the container stands
in the destination, behind what was there. -/

namespace SealedRun

variable {σ : Type} (run : SealedRun σ)

/-- What a run sealed stands in its destination, after what was there. -/
theorem accepted_dest :
    run.unsealed.finish.2.dest.accepted = run.dest.accepted ++ run.container := by
  obtain ⟨spool, -, -, hdeliver⟩ := run.closed
  obtain ⟨-, hdest⟩ := Sealing.deliver_ok hdeliver
  have hfirst : run.unsealed.dest = run.dest := by rw [unsealed_eq]
  rw [hfirst] at hdest
  rw [container, hdest, List.drop_left' rfl]

end SealedRun

namespace Sealing

variable {σ : Type} {smith : Locksmith σ} {version : UInt8} {spool dest : Sink} {start : Sealing σ}

/-- **A destination holds a whole container** once a call to finish
succeeded: the head, and the frames of all entries that the run accepted. -/
theorem accepted_of_finish (hcreate : create smith version spool dest = .ok start)
    (hfresh : spool.accepted = []) {world : World σ} {calls : List Call}
    (h : (played calls start world).1.finish.1 = .ok ()) :
    ∃ draft, (played calls start world).1.stage = .accepting draft ∧
      (played calls start world).1.finish.2.dest.accepted = dest.accepted ++
        (draft.header.sealed smith.suite containerVersion ⟨smith.config.compress⟩ draft.fmk ++
          Channel.stream smith.suite ⟨draft.fmk.contentKey smith.suite, draft.payloadNonce,
            containerVersion, ⟨smith.config.compress⟩⟩ 0
            (Frame.script (run calls start world).1.entries)) := by
  obtain ⟨draft, -, hstage, -⟩ := finish_ok (Prod.ext h rfl)
  rw [← run_snd] at h hstage
  let sealedRun : SealedRun σ :=
    ⟨smith, version, spool, dest, hfresh, start, hcreate, world, calls, draft, hstage, h⟩
  obtain ⟨-, -, hcontainer, -⟩ := sealedRun.container_eq
  have hdest := sealedRun.accepted_dest
  rw [hcontainer] at hdest
  rw [← run_snd]
  exact ⟨draft, hstage, hdest⟩

end Sealing

open Sealing in
/-- **A session that writes ends once, and for good.** Its destination is as
it was until a call to finish finds a lock and a last entry that is
complete, and a call to finish that fails for want of recipients, for a
wrong size, for its phase or for a head that is too long leaves it so. After
a failure that is final, or any failure to finish a session that accepts,
the session is never sealed; it refuses everything, and told to finish it
repeats which entry was of the wrong size, if that was the failure. It is
sealed just if a call to finish succeeded; then the destination has the head
and all frames, and nothing changes any more. -/
theorem sealing_is_final {σ : Type} {smith : Locksmith σ} {version : UInt8} {spool dest : Sink}
    {start : Sealing σ} (hcreate : create smith version spool dest = .ok start)
    (hfresh : spool.accepted = []) (world : World σ) :
    (∀ calls, (played calls start world).1.dest = dest ∨
      ∃ before later, calls = before ++ .finish :: later ∧ (played before start world).1.Ripe) ∧
    (∀ calls e s', (played calls start world).1.finish = (.error e, s') → e.BeforeOutput →
      s'.dest = (played calls start world).1.dest) ∧
    (∀ before call later e,
      call.answer (played before start world).1 (played before start world).2 = .error e →
      e.Final ∨ call = .finish ∧ (played before start world).1.stage.phase = .accepting →
      (played (before ++ call :: later) start world).1.isSealed = false ∧
        (played (before ++ call :: later) start world).1.Over (Call.refusalAfter e.mismatch?)) ∧
    (∀ calls, (played calls start world).1.isSealed = true ↔
      ∃ before later, calls = before ++ .finish :: later ∧
        (played before start world).1.finish.1 = .ok ()) ∧
    ∀ before later, (played before start world).1.finish.1 = .ok () →
      ∃ draft, (played before start world).1.stage = .accepting draft ∧
        (played (before ++ .finish :: later) start world).1.dest.accepted = dest.accepted ++
          (draft.header.sealed smith.suite containerVersion ⟨smith.config.compress⟩ draft.fmk ++
            Channel.stream smith.suite ⟨draft.fmk.contentKey smith.suite, draft.payloadNonce,
              containerVersion, ⟨smith.config.compress⟩⟩ 0
              (Frame.script (run before start world).1.entries)) ∧
        (played (before ++ .finish :: later) start world).1.Over
          fun call => .state call.operation .sealed := by
  have hstart := create_ok hcreate
  -- what comes after a call that ended the session is what that call left
  have hafter : ∀ before (call : Call) later refusal,
      (call.next (played before start world).1 (played before start world).2).1.Over refusal →
      (played (before ++ call :: later) start world).1
        = (call.next (played before start world).1 (played before start world).2).1 := by
    intro before call later refusal hover
    rw [played_append]
    exact congrArg Prod.fst (hover.played later _)
  have hsealed : ∀ before later, (played before start world).1.finish.1 = .ok () →
      (played (before ++ .finish :: later) start world).1
        = (played before start world).1.finish.2 := fun before later h =>
    hafter before .finish later _ (over_of_sealed (sealed_of_finish h))
  refine ⟨fun calls => ?_, fun calls e s' h hbefore => ?_, fun before call later e h hends => ?_,
    fun calls => ⟨fun h => ?_, ?_⟩, fun before later h => ?_⟩
  · -- only a session that is ripe writes
    obtain hkept | ⟨before, call, later, rfl, -, rfl, hripe⟩ := kept_or_met
      (P := fun s => s.dest = dest) (M := fun call s => call = .finish ∧ s.Ripe)
      (fun call s w hs => (dest_next call s w).imp_left fun hd => hd.trans hs) calls start world
      (by rw [hstart])
    · exact .inl hkept
    · exact .inr ⟨before, later, rfl, hripe⟩
  · by_cases hturn : ∃ draft, (played calls start world).1.stage = .accepting draft
    · obtain ⟨draft, hdraft⟩ := hturn
      exact (finish_error hdraft h).2 hbefore
    · have hdest := dest_finish fun ⟨draft, hdraft, _⟩ => hturn ⟨draft, hdraft⟩
      rw [h] at hdest
      exact hdest
  · have hfailed := failed_of_answer h hends
    rw [hafter before call later _ (over_of_failed hfailed)]
    exact ⟨by rw [isSealed, hfailed], over_of_failed hfailed⟩
  · -- a session that is not sealed stays so until a call to finish succeeds
    obtain hkept | ⟨before, call, later, rfl, -, rfl, hok⟩ := kept_or_met
      (P := fun s => s.stage ≠ .sealed) (M := fun call s => call = .finish ∧ s.finish.1 = .ok ())
      (fun call s w hs => Classical.or_iff_not_imp_left.mpr fun hn =>
        sealed_next hs (Classical.not_not.mp hn)) calls start world (by rw [hstart]; simp)
    · exact absurd (isSealed_iff.mp h) hkept
    · exact ⟨before, later, rfl, hok⟩
  · rintro ⟨before, later, rfl, hok⟩
    rw [hsealed before later hok]
    exact isSealed_iff.mpr (sealed_of_finish hok)
  · obtain ⟨draft, hdraft, hdest⟩ := accepted_of_finish hcreate hfresh h
    rw [hsealed before later h]
    exact ⟨draft, hdraft, hdest, over_of_sealed (sealed_of_finish h)⟩

open Sealing in
/-- A session that sealed two entries stays sealed when it is told to begin
again; finished right after it began, it has failed for good. -/
theorem twoEntries_sealing_is_final : ∃ run : SealedRun Unit, run.entries = twoEntries ∧
    (played (run.calls ++ [.finish, .begin]) run.start run.world).1.isSealed = true ∧
    ((played (run.calls ++ [.finish, .begin]) run.start run.world).1.Over
      fun call => .state call.operation .sealed) ∧
    Call.finish.answer (played [.begin] run.start run.world).1
      (played [.begin] run.start run.world).2 = .error .noRecipients ∧
    (played [.begin, .finish, .begin] run.start run.world).1.isSealed = false ∧
    (played [.begin, .finish, .begin] run.start run.world).1.Over (Call.refusalAfter none) := by
  obtain ⟨run, -, -, hentries, -⟩ :=
    SealedRun.exists_twoEntries (show (some [1]).getD [1] = [1] from rfl)
  obtain ⟨-, -, hfails, hseals, hends⟩ := sealing_is_final run.created run.fresh run.world
  have hok : (played run.calls run.start run.world).1.finish.1 = .ok () := by
    rw [← run_snd]
    exact run.sealed
  have hnone : Call.finish.answer (played [.begin] run.start run.world).1
      (played [.begin] run.start run.world).2 = .error .noRecipients := by
    rw [run.start_eq]
    rfl
  obtain ⟨-, -, -, hover⟩ := hends run.calls [.begin] hok
  obtain ⟨hunsealed, hfailed⟩ := hfails [.begin] .finish [.begin] .noRecipients hnone (.inl trivial)
  exact ⟨run, hentries, (hseals _).mpr ⟨run.calls, [.begin], rfl, hok⟩, hover, hnone, hunsealed,
    hfailed⟩

end Lockbox
