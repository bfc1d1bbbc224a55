import Lockbox.Proofs.Sizes
/-!
# Lockbox — calls that are rejected

A call that fails without ending a session that accepts leaves the session
as it is. So it might as well not have been made: **without the calls that
were rejected, all others answer the same, ask the same, and lead to the
same session** (`rejected_calls_leave_no_trace`). Two things could stand
in the way. A rejected call may have drawn random bytes, so each call is
given its own; and it may have asked a provider, so the providers must
answer the same whatever they were asked before (`Providers.Memoryless`).
What is asked of them is compared by the log that a noting locksmith keeps
(`Step.Settled`).
-/

namespace Lockbox

open Payload

/-! ## Providers without memory

To leave a question out is to ask the later ones in another state. So what a
session does must not depend on that state but by the answers, which do not
change. -/

section Memoryless

variable {σ ε δ α β : Type} {P : σ → Prop}

/-- In these states the question has one answer, and leads to such a state
again. -/
def Step.Constant (P : σ → Prop) (x : Step ε σ α) : Prop :=
  ∃ answer, ∀ o, P o → (x o).1 = answer ∧ P (x o).2

/-- In these states the answers of the providers do not depend on what they
were asked before: each question that a session that writes may ask has one
answer. -/
structure Providers.Memoryless (p : Providers σ) (P : σ → Prop) : Prop where
  secret : ∀ info, (p.secret info).Constant P
  deposit : ∀ remote, p.remote = some remote → ∀ server request,
    (remote.deposit server request).Constant P

/-- For given random bytes there is one result, one rest of the random bytes
and one list of new questions. -/
def Step.Settled (P : σ → Prop) (x : Step ε (World (List Exchange × σ)) α) : Prop :=
  ∀ entropy, ∃ result entropy' new, ∀ log o, P o →
    ∃ o', P o' ∧ x ⟨entropy, log, o⟩ = (result, ⟨entropy', log ++ new, o'⟩)

namespace Step.Settled

theorem answer (r : Except ε α) : Settled P (Step.answer r) := fun entropy =>
  ⟨r, entropy, [], fun log o ho => ⟨o, ho, by rw [List.append_nil]; rfl⟩⟩

theorem draw (n : Nat) : Settled (ε := ε) P (World.draw n) := fun entropy =>
  ⟨.ok (entropy.draw n).1, (entropy.draw n).2, [], fun log o ho =>
    ⟨o, ho, by rw [List.append_nil]; rfl⟩⟩

/-- Two steps that are settled are settled together: what the first one leaves
of the random bytes does not depend on the providers, so neither does the
second one. -/
theorem bind {x : Step ε (World (List Exchange × σ)) α}
    {f : α → Step ε (World (List Exchange × σ)) β} (h : Settled P x) (hf : ∀ a, Settled P (f a)) :
    Settled P (x >>= f) := by
  intro entropy
  obtain ⟨result, entropy₁, new, hx⟩ := h entropy
  rcases result with e | a
  · refine ⟨.error e, entropy₁, new, fun log o ho => ?_⟩
    obtain ⟨o₁, ho₁, hx⟩ := hx log o ho
    exact ⟨o₁, ho₁, by rw [Step.bind_apply, hx]⟩
  · obtain ⟨result, entropy₂, more, hf⟩ := hf a entropy₁
    refine ⟨result, entropy₂, new ++ more, fun log o ho => ?_⟩
    obtain ⟨o₁, ho₁, hx⟩ := hx log o ho
    obtain ⟨o₂, ho₂, hf⟩ := hf (log ++ new) o₁ ho₁
    exact ⟨o₂, ho₂, by rw [Step.bind_apply, hx, ← List.append_assoc]; exact hf⟩

/-- **A question with one answer is noted with that answer,** whatever was
asked before. -/
theorem ask (f : δ → ε) (note : Except δ α → Exchange) {x : Step δ σ α} (h : x.Constant P) :
    Settled P (World.ask (Step.blame f (x.noting note))) := by
  intro entropy
  obtain ⟨answer, hanswer⟩ := h
  refine ⟨answer.mapError f, entropy, [note answer], fun log o ho => ?_⟩
  obtain ⟨rfl, ho'⟩ := hanswer o ho
  refine ⟨(x o).2, ho', ?_⟩
  simp only [World.ask, Step.zoom, Step.blame, Step.noting]
  rcases x o with ⟨_ | _, _⟩ <;> rfl

end Step.Settled

end Memoryless

namespace Locksmith

variable {σ : Type} {P : σ → Prop} {m : Locksmith σ}

/-- The secret of a recipient is there, or it is asked for. -/
theorem settled_inlineOr (h : m.providers.Memoryless P) (info : LockInfo) (given : Option Bytes) :
    (m.noting.inlineOr info given).Settled P := by
  cases given with
  | some secret => exact .answer (.ok secret)
  | none => exact .ask _ _ (h.secret info)

/-- An agreement asks nobody. -/
theorem settled_agreeWith (recipient : Octets 32) : (m.noting.agreeWith recipient).Settled P :=
  .bind (.draw 32) fun _ => .answer _

/-- What is prepared for a lock, one kind after the other. -/
theorem settled_prepare (h : m.providers.Memoryless P) (info : LockInfo) (r : Recipient) :
    (m.noting.prepare info r).Settled P := by
  cases r with
  | password label password iterations =>
    exact .bind (settled_inlineOr h info password) fun _ => .bind (.answer _) fun _ =>
      .bind (.draw 32) fun _ => .bind (.draw 32) fun _ => .bind (.answer _) fun _ => .answer (.ok _)
  | symmetricKey label key =>
    refine .bind (settled_inlineOr h info key) fun secret => ?_
    by_cases hempty : secret = []
    · simp only [hempty, if_true]
      exact .answer _
    · simp only [hempty, if_false]
      exact .bind (.draw 32) fun _ => .answer (.ok _)
  | publicKey label recipient =>
    exact .bind (settled_agreeWith recipient) fun _ => .answer (.ok _)
  | certificate label certificate recipient =>
    exact .bind (settled_agreeWith recipient) fun _ => .answer (.ok _)
  | server label recipient serverId =>
    simp only [prepare, noting, Providers.noting]
    cases hremote : m.providers.remote with
    | none => exact .answer _
    | some remote =>
      simp only [Option.map_some]
      cases serverId <|> m.config.keyServer with
      | none => exact .answer _
      | some server =>
        exact .bind (settled_agreeWith recipient) fun _ =>
          .bind (.ask Error.network _ (h.deposit remote hremote server _)) fun _ => .answer (.ok _)

/-- And a lock is made of it. -/
theorem settled_wrap (h : m.providers.Memoryless P) (index : Nat) (r : Recipient) (fmk : Fmk) :
    (m.noting.wrap index r fmk).Settled P :=
  .bind (settled_prepare h _ r) fun _ => .bind (.draw 24) fun _ => .answer (.ok _)

/-- **How a lock is made does not depend on what was asked before.** -/
theorem wrap_settled (h : m.providers.Memoryless P) (index : Nat) (r : Recipient) (fmk : Fmk)
    (entropy : Entropy) :
    ∃ result entropy' asked, ∀ o, P o → m.asked index r fmk ⟨entropy, o⟩ = asked ∧
      ∃ o', P o' ∧ m.wrap index r fmk ⟨entropy, o⟩ = (result, ⟨entropy', o'⟩) := by
  obtain ⟨result, entropy', new, hnoted⟩ := settled_wrap h index r fmk entropy
  refine ⟨result, entropy', new, fun o ho => ?_⟩
  obtain ⟨o', ho', hwrap⟩ := hnoted [] o ho
  have hsame := m.wrap_noting index r fmk ⟨entropy, o⟩
  rw [World.noting, hwrap] at hsame
  obtain ⟨hresult, hworld⟩ := Prod.mk.inj hsame
  rcases hw : m.wrap index r fmk ⟨entropy, o⟩ with ⟨result', entropy'', o''⟩
  rw [hw] at hresult hworld
  obtain ⟨rfl, hasked⟩ := World.mk.inj hworld
  obtain ⟨hlog, rfl⟩ := Prod.mk.inj hasked
  exact ⟨hlog.symm, o', ho', by rw [hresult]⟩

end Locksmith

namespace Sealing

/-! ## What a session survives

All calls are gone through: which failures leave the stage as it is, and
that nothing else of the session has changed then. -/

variable {σ : Type} {s : Sealing σ} {w : World σ} {draft : Draft} {e : Error} {P : σ → Prop}

/-- To begin again, to fail to add a recipient, to declare an entry under a
name that is refused, to hand over bytes of no entry. -/
def Call.rejectedFor : Call → Error → Bool
  | .begin, .state _ _ => true
  | .addRecipient _, _ => true
  | .addFile _ _, .invalidName _ => true
  | .addFile _ _, .duplicateName _ => true
  | .writeData _, .sequence _ => true
  | _, _ => false

/-- A session that accepts has a draft. -/
theorem exists_of_accepting {stage : Stage} (h : stage.phase = .accepting) :
    ∃ draft, stage = .accepting draft := by
  cases stage with
  | accepting draft => exact ⟨draft, rfl⟩
  | _ => exact absurd h (by simp [Stage.phase])

/-- A session that accepts rejects the call. -/
def Call.rejected (call : Call) (s : Sealing σ) (w : World σ) : Bool :=
  match s.stage, call.answer s w with
  | .accepting _, .error e => call.rejectedFor e
  | _, _ => false

/-- What it is to be rejected. -/
theorem Call.rejected_eq_true {call : Call} (h : call.rejected s w = true) :
    ∃ draft e, s.stage = .accepting draft ∧ call.answer s w = .error e ∧
      call.rejectedFor e = true := by
  unfold Call.rejected at h
  split at h
  · rename_i draft e hstage he
    exact ⟨draft, e, hstage, he, h⟩
  · exact absurd h (by simp)

/-- A recipient who could not be added is nowhere in the session. -/
theorem addRecipient_error {r : Recipient} {s' : Sealing σ} {w' : World σ}
    (h : s.addRecipient r w = (.error e, s', w')) : s' = s := by
  unfold addRecipient at h
  split at h
  · dsimp only at h
    split at h
    · exact absurd (Prod.mk.inj h).1 (by simp)
    · exact (Prod.mk.inj (Prod.mk.inj h).2).1.symm
  · exact (Prod.mk.inj (Prod.mk.inj h).2).1.symm

/-- An operation that leaves the payload as it is, and whose failure does not
end the session, leaves the session as it is. -/
theorem onPayload_eq_self {op : Operation} {f : Writer → Except Error Unit × Writer}
    (hstage : s.stage = .accepting draft) (hf : (f draft.payload).2 = draft.payload)
    (hafter : Stage.after draft (f draft.payload).1 = .accepting draft) :
    (s.onPayload op f).2 = s := by
  simp only [onPayload, hstage, hf, hafter]
  rw [← hstage]

/-- **A call that is rejected leaves the session as it was.** -/
theorem Call.next_of_rejected {call : Call} (h : call.rejected s w = true) :
    (call.next s w).1 = s := by
  obtain ⟨draft, e, hstage, he, hfor⟩ := Call.rejected_eq_true h
  cases call with
  | begin => rw [Call.next_of_ne (by rw [hstage]; simp [Stage.phase, Call.phase])]
  | addRecipient r =>
    change (s.addRecipient r w).1.map _ = _ at he
    show (s.addRecipient r w).2.1 = s
    rcases h : s.addRecipient r w with ⟨e' | index, s', w'⟩
    · exact addRecipient_error h
    · rw [h] at he
      exact absurd he (by simp [Except.map])
  | addFile name size =>
    -- of all that can go wrong with an entry, a name that is refused leaves no trace
    rcases hdeclare : draft.payload.declare s.smith.suite name size with ⟨result, payload⟩
    have hresult : result = .error e := by
      have he : (s.onPayload _ _).1 = _ := he
      simpa [onPayload, hstage, hdeclare] using he
    subst hresult
    obtain ⟨rfl, ⟨f, -, rfl⟩ | ⟨m, -, rfl⟩ | ⟨-, rfl⟩⟩ | ⟨fault, rfl⟩ | ⟨rfl, -⟩ :=
      Writer.declare_error hdeclare
    · exact onPayload_eq_self hstage (by rw [hdeclare]) (by rw [hdeclare]; rfl)
    · exact absurd hfor (by simp [Call.rejectedFor])
    · exact onPayload_eq_self hstage (by rw [hdeclare]) (by rw [hdeclare]; rfl)
    all_goals exact absurd hfor (by simp [Call.rejectedFor])
  | writeData data =>
    -- and of all that can go wrong with bytes, that there is no entry for them
    rcases hwrite : draft.payload.write s.smith.suite data with ⟨result, payload⟩
    have hresult : result = .error e := by
      have he : (s.onPayload _ _).1 = _ := he
      simpa [onPayload, hstage, hwrite] using he
    subst hresult
    obtain ⟨rfl, ⟨-, rfl⟩ | ⟨f, -, -, rfl⟩⟩ | ⟨fault, rfl⟩ | ⟨rfl, -⟩ := Writer.write_error hwrite
    · exact onPayload_eq_self hstage (by rw [hwrite]) (by rw [hwrite]; rfl)
    all_goals exact absurd hfor (by simp [Call.rejectedFor])
  | finish => exact absurd hfor (by simp [Call.rejectedFor])

/-- **These are the failures that a session survives,** but for the want of
a number for another frame. -/
theorem Call.rejected_of_survived {call : Call} (hstage : s.stage = .accepting draft)
    (he : call.answer s w = .error e) (hsurvived : (call.next s w).1.stage.phase = .accepting) :
    call.rejected s w = true ∨ e = .crypto .framesExhausted := by
  have hrejected : call.rejected s w = call.rejectedFor e := by
    rw [Call.rejected, hstage, he]
  rw [hrejected]
  have hfinal : ¬ e.Final := fun hfinal => by
    rw [failed_of_answer he (.inl hfinal)] at hsurvived
    exact absurd hsurvived (by simp [Stage.phase])
  cases call with
  | begin =>
    have hturn : s.stage.phase ≠ Call.begin.phase := by rw [hstage]; simp [Stage.phase, Call.phase]
    rw [Call.answer_of_ne hturn (fun hc => absurd hc (by simp))] at he
    cases he
    exact .inl rfl
  | addRecipient r => exact .inl rfl
  | addFile name size =>
    change (s.onPayload _ _).1 = _ at he
    rw [onPayload, hstage] at he
    obtain ⟨-, ⟨f, -, rfl⟩ | ⟨m, -, rfl⟩ | ⟨-, rfl⟩⟩ | ⟨fault, rfl⟩ | ⟨rfl, -⟩ :=
      Writer.declare_error (Prod.ext he rfl)
    · exact .inl rfl
    · exact absurd trivial hfinal
    · exact .inl rfl
    · exact absurd trivial hfinal
    · exact .inr rfl
  | writeData data =>
    change (s.onPayload _ _).1 = _ at he
    rw [onPayload, hstage] at he
    obtain ⟨-, ⟨-, rfl⟩ | ⟨f, -, -, rfl⟩⟩ | ⟨fault, rfl⟩ | ⟨rfl, -⟩ :=
      Writer.write_error (Prod.ext he rfl)
    · exact .inl rfl
    · exact absurd trivial hfinal
    · exact absurd trivial hfinal
    · exact .inr rfl
  | finish =>
    have hphase : s.stage.phase = .accepting := by rw [hstage]; rfl
    rw [failed_of_answer he (.inr ⟨rfl, hphase⟩)] at hsurvived
    exact absurd hsurvived (by simp [Stage.phase])

/-! ## Runs without them

The two runs are followed turn by turn; a rejected one is a turn that only
the first run makes. -/

/-- A call, with random bytes of its own. -/
structure Turn where
  call : Call
  entropy : Entropy

/-- What is to be seen of a turn: what it answers, for a recipient with the
place of the lock, what it asks, and whether it is rejected. -/
structure Line where
  turn : Turn
  answer : Except Error (Option Nat)
  asked : List Exchange
  rejected : Bool

/-- What a call answers, for a recipient with the place of the lock. -/
def Call.reply : Call → Sealing σ → World σ → Except Error (Option Nat)
  | .addRecipient r, s, w => (s.addRecipient r w).1.map some
  | call, s, w => (call.answer s w).map fun _ => none

/-- What a call asks. -/
def Call.asked : Call → Sealing σ → World σ → List Exchange
  | .addRecipient r, s, w => s.asked r w
  | _, _, _ => []

/-- What is to be seen of a turn whose providers are in this state. -/
def Turn.line (t : Turn) (s : Sealing σ) (o : σ) : Line :=
  ⟨t, t.call.reply s ⟨t.entropy, o⟩, t.call.asked s ⟨t.entropy, o⟩,
    t.call.rejected s ⟨t.entropy, o⟩⟩

/-- The session and the state of the providers after a turn. -/
def Turn.next (t : Turn) (s : Sealing σ) (o : σ) : Sealing σ × σ :=
  ((t.call.next s ⟨t.entropy, o⟩).1, (t.call.next s ⟨t.entropy, o⟩).2.outside)

/-- The session and the state of the providers after turns. -/
def taken (turns : List Turn) (s : Sealing σ) (o : σ) : Sealing σ × σ :=
  turns.foldl (fun p t => t.next p.1 p.2) (s, o)

/-- What is to be seen of turns. -/
def transcript : List Turn → Sealing σ → σ → List Line
  | [], _, _ => []
  | t :: turns, s, o => t.line s o :: transcript turns (t.next s o).1 (t.next s o).2

/-- The lines of a transcript but for the calls that were rejected. -/
def unrejected (lines : List Line) : List Line := lines.filter (!·.rejected)

/-- **What is seen of a turn, and what it leads to, does not depend on what
was asked before.** -/
theorem Turn.settled (h : s.smith.providers.Memoryless P) (t : Turn) {o o' : σ} (ho : P o)
    (ho' : P o') :
    t.line s o = t.line s o' ∧ (t.next s o).1 = (t.next s o').1 ∧ P (t.next s o).2 := by
  obtain ⟨call, entropy⟩ := t
  cases call with
  | addRecipient r =>
    cases hstage : s.stage with
    | accepting draft =>
      obtain ⟨result, entropy', asked, hwrap⟩ :=
        Locksmith.wrap_settled h draft.locks.length r draft.fmk entropy
      obtain ⟨hasked₁, o₁, ho₁, hwrap₁⟩ := hwrap o ho
      obtain ⟨hasked₂, o₂, -, hwrap₂⟩ := hwrap o' ho'
      have hsame : Turn.line ⟨.addRecipient r, entropy⟩ s o
          = Turn.line ⟨.addRecipient r, entropy⟩ s o' := by
        simp only [Turn.line, Call.reply, Call.asked, Call.rejected, Call.answer, Sealing.asked,
          Sealing.addRecipient, hstage, hasked₁, hasked₂, hwrap₁, hwrap₂]
        cases result <;> rfl
      refine ⟨hsame, ?_⟩
      show (s.addRecipient r ⟨entropy, o⟩).2.1 = (s.addRecipient r ⟨entropy, o'⟩).2.1 ∧
        P (s.addRecipient r ⟨entropy, o⟩).2.2.outside
      simp only [Sealing.addRecipient, hstage, hwrap₁, hwrap₂]
      cases result with
      | error e => exact ⟨rfl, ho₁⟩
      | ok lock => exact ⟨rfl, ho₁⟩
    | _ =>
      have hturn : s.stage.phase ≠ .accepting := by rw [hstage]; simp [Stage.phase]
      simp only [Turn.line, Turn.next, Call.next, Call.apply, Call.reply, Call.asked,
        Call.rejected, Call.answer, Sealing.asked, addRecipient_of_ne hturn, hstage, true_and]
      exact ho
  | begin =>
    have hbegin : (s.begin ⟨entropy, o⟩).1 = (s.begin ⟨entropy, o'⟩).1 ∧
        (s.begin ⟨entropy, o⟩).2.1 = (s.begin ⟨entropy, o'⟩).2.1 ∧
        (s.begin ⟨entropy, o⟩).2.2.outside = o := by
      unfold Sealing.begin
      split
      · exact ⟨rfl, rfl, rfl⟩
      · exact ⟨rfl, rfl, rfl⟩
    obtain ⟨hanswer, hsession, houtside⟩ := hbegin
    simp only [Turn.line, Turn.next, Call.next, Call.apply, Call.reply, Call.asked, Call.rejected,
      Call.answer, hanswer, hsession, houtside, true_and]
    exact ho
  | addFile name size => exact ⟨rfl, rfl, ho⟩
  | writeData data => exact ⟨rfl, rfl, ho⟩
  | finish => exact ⟨rfl, rfl, ho⟩

/-- The turns that were not rejected. -/
def kept (turns : List Turn) (s : Sealing σ) (o : σ) : List Turn :=
  (unrejected (transcript turns s o)).map Line.turn

theorem Turn.next_of_rejected {t : Turn} {o : σ} (h : (t.line s o).rejected = true) :
    (t.next s o).1 = s :=
  Call.next_of_rejected h

/-- **Without the turns that were rejected, the others are seen as before and
lead to the same session.** The two runs may begin in different states of
the providers, as they come to do where a rejected turn is left out. -/
theorem transcript_kept (h : s.smith.providers.Memoryless P) (turns : List Turn) {o o' : σ}
    (ho : P o) (ho' : P o') :
    transcript (kept turns s o) s o' = unrejected (transcript turns s o) ∧
      (taken (kept turns s o) s o').1 = (taken turns s o).1 := by
  -- the session changes from turn to turn, but its providers do not
  induction turns generalizing s o o' with
  | nil => exact ⟨rfl, rfl⟩
  | cons t turns ih =>
    obtain ⟨hline, hnext, ho₁⟩ := t.settled h ho ho'
    obtain ⟨-, -, ho₁'⟩ := t.settled h ho' ho
    have hsmith : (t.next s o).1.smith.providers.Memoryless P := (smith_next t.call s _).symm ▸ h
    have htaken : taken (t :: turns) s o = taken turns (t.next s o).1 (t.next s o).2 := rfl
    by_cases hrejected : (t.line s o).rejected = true
    · -- the session is where it was, and the providers still answer as in `o'`
      have hlines : unrejected (transcript (t :: turns) s o)
          = unrejected (transcript turns (t.next s o).1 (t.next s o).2) :=
        List.filter_cons_of_neg (by simp [hrejected])
      have hkept : kept (t :: turns) s o = kept turns (t.next s o).1 (t.next s o).2 :=
        congrArg _ hlines
      have hlater := ih hsmith ho₁ ho'
      rw [hkept, hlines, htaken]
      rw [Turn.next_of_rejected hrejected] at hlater ⊢
      exact hlater
    · have hlines : unrejected (transcript (t :: turns) s o)
          = t.line s o :: unrejected (transcript turns (t.next s o).1 (t.next s o).2) :=
        List.filter_cons_of_pos (by simp [hrejected])
      have hkept : kept (t :: turns) s o = t :: kept turns (t.next s o).1 (t.next s o).2 :=
        congrArg _ hlines
      obtain ⟨hsame, hsession⟩ := ih hsmith ho₁ ho₁'
      rw [hkept, hlines, htaken, transcript, ← hline, ← hnext, hsame, ← hsession]
      exact ⟨rfl, by rw [hnext]; rfl⟩

end Sealing

/-- **Calls that are rejected leave no trace.** A session that accepts and
rejects a call goes on unchanged: its locks, the names it knows, what waits
and the frames that were written. These are all failures that it survives,
but for the want of a number for another frame. So if the providers answer
the same whatever they were asked before, then all calls that were rejected
can be left out of a run, each other call having its own random bytes: the
others answer the same, for a recipient with the same place of the lock, and
ask the same, for locks of the same place, type and label; and the session
they lead to is the same, with the same locks, and once it is sealed with the
same container. -/
theorem rejected_calls_leave_no_trace {σ : Type} :
    (∀ (call : Sealing.Call) (s : Sealing σ) (w : World σ), call.rejected s w = true →
      (call.next s w).1 = s) ∧
    (∀ (call : Sealing.Call) (s : Sealing σ) (w : World σ) (e : Error),
      s.stage.phase = .accepting → call.answer s w = .error e →
      (call.next s w).1.stage.phase = .accepting →
        call.rejected s w = true ∨ e = .crypto .framesExhausted) ∧
    ∀ (P : σ → Prop) (s : Sealing σ), s.smith.providers.Memoryless P → ∀ o, P o →
      ∀ turns : List Sealing.Turn,
        Sealing.transcript (Sealing.kept turns s o) s o
          = Sealing.unrejected (Sealing.transcript turns s o) ∧
        (Sealing.taken (Sealing.kept turns s o) s o).1 = (Sealing.taken turns s o).1 := by
  refine ⟨fun call s w => Sealing.Call.next_of_rejected, fun call s w e hphase he hsurvived => ?_,
    fun P s hmemoryless o ho turns => Sealing.transcript_kept hmemoryless turns ho ho⟩
  obtain ⟨draft, hstage⟩ := Sealing.exists_of_accepting hphase
  exact Sealing.Call.rejected_of_survived hstage he hsurvived

/-- A provider that counts its questions and has no secret but the empty one:
bytes of no entry, a recipient for whom it is asked, and an entry without a
name are rejected, and without them the session begins all the same. The first
of these calls leaves the session that has begun as it is. -/
theorem counted_rejected_calls_leave_no_trace :
    ∃ (s begun : Sealing Nat) (turns : List Sealing.Turn) (w : World Nat),
      s.smith.providers.Memoryless (fun _ => True) ∧
      (Sealing.transcript turns s 0).map Sealing.Line.rejected = [false, true, true, true] ∧
      (Sealing.taken turns s 0).2 = 1 ∧ (Sealing.kept turns s 0).length = 1 ∧
      Sealing.transcript (Sealing.kept turns s 0) s 0
        = Sealing.unrejected (Sealing.transcript turns s 0) ∧
      (Sealing.taken (Sealing.kept turns s 0) s 0).1 = (Sealing.taken turns s 0).1 ∧
      begun.stage.phase = .accepting ∧ (Sealing.Call.writeData [7]).rejected begun w = true ∧
      ((Sealing.Call.writeData [7]).next begun w).1 = begun := by
  let s : Sealing Nat := ⟨⟨.plain, .default, ⟨fun _ n => (.ok [], n + 1), none⟩⟩, containerVersion,
    ⟨false⟩, .unlimited, .unlimited, .created⟩
  let turns : List Sealing.Turn := [⟨.begin, .splitMix 1⟩, ⟨.writeData [7], .splitMix 2⟩,
    ⟨.addRecipient (.symmetricKey "key" none), .splitMix 3⟩, ⟨.addFile "" 1, .splitMix 4⟩]
  have hmemoryless : s.smith.providers.Memoryless (fun _ => True) :=
    ⟨fun _ => ⟨.ok [], fun _ _ => ⟨rfl, trivial⟩⟩, fun _ h => absurd h (by simp [s])⟩
  obtain ⟨hleaves, hsurvived, hwithout⟩ := rejected_calls_leave_no_trace (σ := Nat)
  obtain ⟨hlines, hsession⟩ := hwithout _ s hmemoryless 0 trivial turns
  let begun : Sealing Nat := (Sealing.taken [⟨.begin, .splitMix 1⟩] s 0).1
  have hrejected : (Sealing.Call.writeData [7]).rejected begun ⟨.splitMix 2, 0⟩ = true :=
    (hsurvived _ begun _ (.sequence .undeclared) rfl rfl rfl).resolve_right (by simp)
  exact ⟨s, begun, turns, ⟨.splitMix 2, 0⟩, hmemoryless, rfl, rfl, rfl, hlines, hsession, rfl,
    hrejected, hleaves _ begun _ hrejected⟩

end Lockbox
