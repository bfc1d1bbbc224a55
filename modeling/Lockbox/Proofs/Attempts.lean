import Lockbox.Proofs.Course
import Lockbox.Proofs.Forward
import Lockbox.Proofs.Rejected
/-!
# Lockbox — attempts leave no trace

A session that reads may try its locks in any order and as often as it
likes, and may be told to begin with a key that the head does not confirm.
With providers that answer the same whatever they were asked before
(`Providers.Forgetful`), each attempt comes out as if it were the first one,
and nothing is read of the payload meanwhile.

Two sessions over one container, of which one has tried and the other has
not, are peers (`Opening.Peers`): all that tells them apart is the phase
that they name when they refuse something. They answer alike as long as
this lasts, and once the payload is begun with one key they are the same
session (`Opening.Peers.act`).
-/

namespace Lockbox

/-! ## Providers that forget -/

section Constant

variable {σ ε δ α β : Type} {P : σ → Prop}

/-- In these states the answers of the providers do not depend on what they
were asked before: each question that the opening of a lock may ask has one
answer. -/
structure Providers.Forgetful (p : Providers σ) (P : σ → Prop) : Prop where
  secret : ∀ info, (p.secret info).Constant P
  certificates : ∀ remote, p.remote = some remote → remote.certificates.Constant P
  release : ∀ remote, p.remote = some remote → ∀ index request,
    (remote.release index request).Constant P

namespace Step.Constant

theorem answer (r : Except ε α) : Constant P (Step.answer r) := ⟨r, fun _ ho => ⟨rfl, ho⟩⟩

/-- Two steps that are constant are constant together. -/
theorem bind {x : Step ε σ α} {f : α → Step ε σ β} (h : x.Constant P)
    (hf : ∀ a, (f a).Constant P) : (x >>= f).Constant P := by
  obtain ⟨result, hx⟩ := h
  rcases result with e | a
  · refine ⟨.error e, fun o ho => ?_⟩
    obtain ⟨he, ho'⟩ := hx o ho
    rw [bind_apply]
    generalize x o = outcome at he ho' ⊢
    obtain ⟨result, o'⟩ := outcome
    subst he
    exact ⟨rfl, ho'⟩
  · obtain ⟨answer, hanswer⟩ := hf a
    refine ⟨answer, fun o ho => ?_⟩
    obtain ⟨ha, ho'⟩ := hx o ho
    rw [bind_apply]
    generalize x o = outcome at ha ho' ⊢
    obtain ⟨result, o'⟩ := outcome
    subst ha
    exact hanswer o' ho'

/-- A question is constant if its answer is. -/
theorem ask {x : Step δ σ α} (h : x.Constant P) (f : δ → ε) :
    Constant (fun w : World σ => P w.outside) (World.ask (Step.blame f x)) := by
  obtain ⟨answer, hanswer⟩ := h
  refine ⟨answer.mapError f, fun w hw => ?_⟩
  obtain ⟨rfl, ho⟩ := hanswer w.outside hw
  simp only [World.ask, Step.zoom, Step.blame]
  generalize x w.outside = outcome at ho ⊢
  obtain ⟨_ | _, o⟩ := outcome
  · exact ⟨rfl, ho⟩
  · exact ⟨rfl, ho⟩

end Step.Constant

end Constant

namespace Locksmith

variable {σ : Type} {P : σ → Prop} {m : Locksmith σ}

/-- What comes before the secret is answered the same each time. -/
theorem constant_approach (h : m.providers.Forgetful P) (lock : Lock) :
    (m.approach lock).Constant fun w => P w.outside := by
  cases hc : lock.capsule with
  | password salt pwSalt n =>
    simp only [approach, hc]
    exact .bind (.answer _) fun _ => .answer (.ok _)
  | symmetricKey salt =>
    simp only [approach, hc]
    exact .answer (.ok _)
  | publicKey recipient sender =>
    simp only [approach, hc]
    exact .answer (.ok _)
  | certificate fingerprint recipient sender =>
    simp only [approach, hc]
    cases hr : m.providers.remote with
    | none => exact .answer _
    | some remote =>
      refine .bind (.ask (h.certificates remote hr) _) fun certificates => ?_
      split
      · exact .answer (.ok _)
      · exact .answer _
  | server recipient serverId transactionId =>
    simp only [approach, hc]
    cases hr : m.providers.remote with
    | none => exact .answer _
    | some remote =>
      refine .bind (.ask (h.release remote hr _ _) _) fun response => ?_
      cases Octets.ofBytes? 32 response with
      | none => exact .answer _
      | some sender => exact .answer (.ok _)

/-- **What an opening comes to does not depend on what was asked before.** -/
theorem constant_unwrap (h : m.providers.Forgetful P) (lock : Lock) :
    (m.unwrap lock).Constant fun w => P w.outside := by
  rw [unwrap_eq]
  exact .bind (constant_approach h lock) fun _ => .bind (.ask (h.secret _) _) fun _ => .answer _

end Locksmith

namespace Opening

variable {σ : Type} {P : σ → Prop} {s t : Opening σ} {w v : World σ} {source : Source}

/-! ## One attempt

An attempt looks at the lock in its place, at the providers and at the head.
It is written as a function of these, which do not change by it. -/

/-- What an attempt comes to with the lock that is found at a place and the
check that the head makes. -/
def keyOf (smith : Locksmith σ) (index : Nat) (lock? : Option Lock) (verify : Fmk → Except Error Unit)
    (w : World σ) : Except Error Fmk :=
  match lock? with
  | none => .error (.noSuchLock index)
  | some lock => match (smith.unwrap lock w).1 with
    | .error e => .error e
    | .ok fmk => (verify fmk).map fun () => fmk

/-- **An attempt comes to nothing else**, and moves the session on only if it
gives out a key. -/
theorem getFmk_eq (h : s.stage.untouched? = some source) (index : Nat) (w : World σ) :
    (s.getFmk index w).1
        = keyOf s.smith index (s.header.lock? index) (s.header.verify s.smith.suite) w ∧
      (s.getFmk index w).2.1 = match (s.getFmk index w).1 with
        | .ok _ => { s with stage := .fmkObtained source }
        | .error _ => s := by
  simp only [getFmk, h, keyOf]
  cases s.header.lock? index with
  | none => exact ⟨rfl, rfl⟩
  | some lock =>
    dsimp only
    rcases s.smith.unwrap lock w with ⟨e | fmk, w'⟩
    · exact ⟨rfl, rfl⟩
    · dsimp only
      cases s.header.verify s.smith.suite fmk with
      | error e => exact ⟨rfl, rfl⟩
      | ok u => exact ⟨rfl, noteFmk_eq h⟩

/-- The key that a lock gives does not depend on what was asked before, and it
takes no other check of keys than that of the one it opens to. -/
theorem keyOf_congr {smith : Locksmith σ} (hforgetful : smith.providers.Forgetful P)
    (hw : P w.outside) (hv : P v.outside) (index : Nat) {lock? : Option Lock}
    {verify verify' : Fmk → Except Error Unit}
    (hverify : ∀ lock fmk, lock? = some lock → (smith.unwrap lock w).1 = .ok fmk →
      verify fmk = verify' fmk) :
    keyOf smith index lock? verify w = keyOf smith index lock? verify' v := by
  cases lock? with
  | none => rfl
  | some lock =>
    obtain ⟨result, hresult⟩ := Locksmith.constant_unwrap hforgetful lock
    have hsame : (smith.unwrap lock v).1 = (smith.unwrap lock w).1 :=
      (hresult v hv).1.trans (hresult w hw).1.symm
    simp only [keyOf, hsame]
    cases hopen : (smith.unwrap lock w).1 with
    | error e => rfl
    | ok fmk => simp only [hverify lock fmk rfl hopen]

/-- After an attempt the providers answer as before. -/
theorem outside_getFmk (hforgetful : s.smith.providers.Forgetful P) (index : Nat)
    (hw : P w.outside) : P (s.getFmk index w).2.2.outside := by
  unfold getFmk
  split
  · exact hw
  · split
    · exact hw
    · rename_i lock _
      obtain ⟨result, hresult⟩ := Locksmith.constant_unwrap hforgetful lock
      have hopened := (hresult w hw).2
      generalize s.smith.unwrap lock w = opened at hopened ⊢
      obtain ⟨e | fmk, w'⟩ := opened
      · exact hopened
      · dsimp only
        split
        · exact hopened
        · exact hopened

/-! ## Two sessions over one container

Peers have the same locksmith, the same head and the same payload before
them; a phase each is all that they have of their own. -/

/-- Two sessions before the payload of one container, which may be in
different phases. -/
structure Peers (s t : Opening σ) : Prop where
  smith : s.smith = t.smith
  header : s.header = t.header
  lenient : s.lenient = t.lenient
  stage : ∃ source, s.stage.untouched? = some source ∧ t.stage.untouched? = some source

theorem Peers.refl (h : s.stage.untouched? = some source) : Peers s s :=
  ⟨rfl, rfl, rfl, source, h, h⟩

/-- A session that was just created has its payload before it. -/
theorem Peers.of_create {smith : Locksmith σ} {lenient : Bool}
    (h : create smith lenient source = .ok s) : Peers s s := by
  obtain ⟨rest, -, -, -, hstage⟩ := create_ok h
  exact .refl (show s.stage.untouched? = some rest by rw [hstage]; rfl)

theorem Peers.symm (h : Peers s t) : Peers t s := by
  obtain ⟨source, hs, ht⟩ := h.stage
  exact ⟨h.smith.symm, h.header.symm, h.lenient.symm, source, ht, hs⟩

/-- An attempt leaves a session where it stands. -/
theorem Peers.getFmk (h : Peers s t) (index : Nat) (w : World σ) :
    Peers (s.getFmk index w).2.1 t := by
  obtain ⟨source, hs, ht⟩ := h.stage
  rw [(getFmk_eq hs index w).2]
  split
  · exact ⟨h.smith, h.header, h.lenient, source, rfl, ht⟩
  · exact h

/-- **An attempt comes out the same** in both sessions. -/
theorem Peers.getFmk_fst (h : Peers s t) (hforgetful : s.smith.providers.Forgetful P)
    (hw : P w.outside) (hv : P v.outside) (index : Nat) :
    (s.getFmk index w).1 = (t.getFmk index v).1 := by
  obtain ⟨source, hs, ht⟩ := h.stage
  rw [(getFmk_eq hs index w).1, (getFmk_eq ht index v).1, ← h.smith, ← h.header]
  exact keyOf_congr hforgetful hw hv index fun _ _ _ _ => rfl

/-- **To begin comes out the same,** and makes the two sessions one if it
succeeds. -/
theorem Peers.begin (h : Peers s t) (fmk : Fmk) :
    (∃ e, s.begin fmk = (.error e, s) ∧ t.begin fmk = (.error e, t)) ∨
      ∃ s', s.begin fmk = (.ok (), s') ∧ t.begin fmk = (.ok (), s') := by
  obtain ⟨source, hs, ht⟩ := h.stage
  obtain ⟨smith, header, lenient, stage⟩ := s
  obtain ⟨smith', header', lenient', stage'⟩ := t
  obtain ⟨rfl, rfl, rfl, -⟩ := h
  rw [begin_eq hs, begin_eq ht]
  dsimp only
  cases header.verify smith.suite fmk with
  | error e => exact .inl ⟨e, rfl, rfl⟩
  | ok u => exact .inr ⟨_, rfl, rfl⟩

/-! ## What both answer

A refusal names the phase, so peers may differ there. `Agrees` is said act
by act, and what an act is refused with is compared up to the phase. -/

/-- The act is answered the same by the two sessions. -/
def Act.Agrees (s t : Opening σ) (w v : World σ) : Act → Prop
  | .single request => request.answer s w = request.answer t v
  | .everything fmk consumer c =>
    (s.decryptAll fmk consumer c).1 = (t.decryptAll fmk consumer c).1 ∧
      (s.decryptAll fmk consumer c).2.2 = (t.decryptAll fmk consumer c).2.2

/-- Both sessions refuse the act, each in the phase that it is in. -/
def Act.RefusedByBoth (s t : Opening σ) (w v : World σ) (act : Act) : Prop :=
  ∃ request, act = .single request ∧ request.answer s w = request.refusal s.stage.phase ∧
    request.answer t v = request.refusal t.stage.phase

/-- After an act the providers answer as before. -/
theorem outside_act (hforgetful : s.smith.providers.Forgetful P) (hw : P w.outside) (act : Act) :
    P (act.next s w).2.outside := by
  cases act with
  | single request =>
    cases request with
    | getFmk index => exact outside_getFmk hforgetful index hw
    | begin fmk => exact hw
    | nextFile => exact hw
    | readContent sink => exact hw
    | finish => exact hw
  | everything fmk consumer c => exact hw

/-- **A session answers the same whatever the providers were asked before.** -/
theorem act_congr (hforgetful : s.smith.providers.Forgetful P) (hw : P w.outside)
    (hv : P v.outside) (act : Act) :
    act.Agrees s s w v ∧ (act.next s w).1 = (act.next s v).1 := by
  cases act with
  | everything fmk consumer c => exact ⟨⟨rfl, rfl⟩, rfl⟩
  | single request =>
    cases request with
    | begin fmk => exact ⟨rfl, rfl⟩
    | nextFile => exact ⟨rfl, rfl⟩
    | readContent sink => exact ⟨rfl, rfl⟩
    | finish => exact ⟨rfl, rfl⟩
    | getFmk index =>
      cases hstage : s.stage.untouched? with
      | none =>
        have hrefused : ¬ (Request.getFmk index).Served s.stage.phase :=
          untouched?_eq_none_iff.mp hstage
        simp only [Act.Agrees, Act.next, (Request.refused hrefused).1, (Request.refused hrefused).2,
          and_self]
      | some source =>
        have hsame := (Peers.refl hstage).getFmk_fst hforgetful hw hv index
        refine ⟨congrArg Reply.key hsame, ?_⟩
        show (s.getFmk index w).2.1 = (s.getFmk index v).2.1
        rw [(getFmk_eq hstage index w).2, (getFmk_eq hstage index v).2, hsame]

/-- **Peers answer alike,** and go on as peers or are the same session from
then on. -/
theorem Peers.act (h : Peers s t) (hforgetful : s.smith.providers.Forgetful P)
    (hw : P w.outside) (hv : P v.outside) (act : Act) :
    (act.Agrees s t w v ∨ act.RefusedByBoth s t w v) ∧
      (Peers (act.next s w).1 (act.next t v).1 ∨ (act.next s w).1 = (act.next t v).1) := by
  have hunserved : ∀ {request : Request}, request.Served = (· = .decrypting) →
      Act.RefusedByBoth s t w v (.single request) ∧
        Peers (request.next s w).1 (request.next t v).1 := by
    intro request hserved
    obtain ⟨source, hs, ht⟩ := h.stage
    have hnot : ∀ {u : Opening σ}, u.stage.untouched? = some source →
        ¬ request.Served u.stage.phase := by
      intro u hu
      rw [hserved]
      obtain hu | hu := untouched?_eq_some_iff.mp hu <;> simp [hu, Stage.phase]
    obtain ⟨hanswer, hnext⟩ := Request.refused (w := w) (hnot hs)
    obtain ⟨hanswer', hnext'⟩ := Request.refused (w := v) (hnot ht)
    exact ⟨⟨request, rfl, hanswer, hanswer'⟩, by rw [hnext, hnext']; exact h⟩
  cases act with
  | single request =>
    cases request with
    | getFmk index =>
      exact ⟨.inl (congrArg Reply.key (h.getFmk_fst hforgetful hw hv index)),
        .inl ((h.getFmk index w).symm.getFmk index v).symm⟩
    | begin fmk =>
      obtain ⟨e, hs, ht⟩ | ⟨s', hs, ht⟩ := h.begin fmk
      · simp only [Act.Agrees, Act.next, Request.answer, Request.next, hs, ht]
        exact ⟨.inl trivial, .inl h⟩
      · simp only [Act.Agrees, Act.next, Request.answer, Request.next, hs, ht]
        exact ⟨.inl trivial, .inr trivial⟩
    | nextFile => exact (hunserved rfl).imp .inr .inl
    | readContent sink => exact (hunserved rfl).imp .inr .inl
    | finish => exact (hunserved rfl).imp .inr .inl
  | everything fmk consumer c =>
    obtain ⟨e, hs, ht⟩ | ⟨s', hs, ht⟩ := h.begin fmk
    · simp only [Act.Agrees, Act.next, decryptAll, hs, ht]
      exact ⟨.inl ⟨trivial, trivial⟩, .inl h⟩
    · simp only [Act.Agrees, Act.next, decryptAll, hs, ht]
      exact ⟨.inl ⟨trivial, trivial⟩, .inr trivial⟩

/-- No request changes the locksmith. -/
theorem smith_played (requests : List Request) (s : Opening σ) (w : World σ) :
    (played requests s w).1.smith = s.smith := by
  induction requests generalizing s w with
  | nil => rfl
  | cons request requests ih =>
    rw [played_cons, ih]
    have hmoves := request.moves s w
    generalize (request.next s w).1 = s' at hmoves
    cases hmoves <;> rfl

theorem smith_act (act : Act) (s : Opening σ) (w : World σ) :
    (act.next s w).1.smith = s.smith := by
  rw [← act.played_requests]
  exact smith_played _ s w

/-- Two sessions that are peers or the same, with providers that forget. -/
structure Twins (P : σ → Prop) (s t : Opening σ) (w v : World σ) : Prop where
  sessions : Peers s t ∨ s = t
  forgetful : s.smith.providers.Forgetful P
  outside : P w.outside
  outside' : P v.outside

/-- **Twins answer alike** and go on as twins. -/
theorem Twins.act (h : Twins P s t w v) (act : Act) :
    (act.Agrees s t w v ∨ act.RefusedByBoth s t w v) ∧
      Twins P (act.next s w).1 (act.next t v).1 (act.next s w).2 (act.next t v).2 := by
  have hforgetful : t.smith.providers.Forgetful P := by
    obtain hpeers | rfl := h.sessions
    · exact hpeers.smith ▸ h.forgetful
    · exact h.forgetful
  have hnext : (act.Agrees s t w v ∨ act.RefusedByBoth s t w v) ∧
      (Peers (act.next s w).1 (act.next t v).1 ∨ (act.next s w).1 = (act.next t v).1) := by
    obtain hpeers | rfl := h.sessions
    · exact hpeers.act h.forgetful h.outside h.outside' act
    · obtain ⟨hagrees, hsame⟩ := act_congr h.forgetful h.outside h.outside' act
      exact ⟨.inl hagrees, .inr hsame⟩
  exact ⟨hnext.1, hnext.2, (smith_act act s w).symm ▸ h.forgetful,
    outside_act h.forgetful h.outside act, outside_act hforgetful h.outside' act⟩

/-- So they stay alike through all acts. -/
theorem Twins.acted (h : Twins P s t w v) (acts : List Act) :
    Twins P (acted acts s w).1 (acted acts t v).1 (acted acts s w).2 (acted acts t v).2 := by
  induction acts generalizing s t w v with
  | nil => exact h
  | cons act acts ih => exact ih (h.act act).2

/-- The same session stays the same. -/
theorem acted_congr (hforgetful : s.smith.providers.Forgetful P) (hw : P w.outside)
    (hv : P v.outside) (acts : List Act) : (Opening.acted acts s w).1 = (Opening.acted acts s v).1 := by
  induction acts generalizing s w v with
  | nil => rfl
  | cons act acts ih =>
    have hforgetful' : (act.next s w).1.smith.providers.Forgetful P :=
      (smith_act act s w).symm ▸ hforgetful
    have hlater := ih hforgetful' (outside_act hforgetful hw act) (outside_act hforgetful hv act)
    rw [show Opening.acted (act :: acts) s w = Opening.acted acts (act.next s w).1 (act.next s w).2
      from rfl, hlater, (act_congr hforgetful hw hv act).2]
    rfl

/-! ## Attempts

A run of attempts is taken one by one: each leaves a session that is a peer
of the one before, hence of the first. -/

/-- To try a lock, or to begin with a key that is not taken. -/
def Request.Tries (s : Opening σ) : Request → Prop
  | .getFmk _ => True
  | .begin fmk => ∃ e, (s.begin fmk).1 = .error e
  | _ => False

/-- Nothing but attempts, one after the other. -/
def Tries : List Request → Opening σ → World σ → Prop
  | [], _, _ => True
  | request :: requests, s, w =>
    request.Tries s ∧ Tries requests (request.next s w).1 (request.next s w).2

/-- **An attempt leaves a session a peer of one that has not tried.** -/
theorem Peers.tries (h : Peers s t) {request : Request} (htries : request.Tries s) (w : World σ) :
    Peers (request.next s w).1 t := by
  cases request with
  | getFmk index => exact h.getFmk index w
  | begin fmk =>
    obtain ⟨e, he⟩ := htries
    obtain ⟨e', hs, -⟩ | ⟨s', hs, -⟩ := h.begin fmk
    · rw [Request.next, hs]
      exact h
    · rw [hs] at he
      cases he
  | nextFile => exact htries.elim
  | readContent sink => exact htries.elim
  | finish => exact htries.elim

/-- **Attempts on one of the two leave them peers.** -/
theorem Peers.played (h : Peers s t) (hforgetful : s.smith.providers.Forgetful P)
    (hw : P w.outside) {requests : List Request} (htries : Tries requests s w) :
    Peers (played requests s w).1 t ∧ P (played requests s w).2.outside := by
  induction requests generalizing s w with
  | nil => exact ⟨h, hw⟩
  | cons request requests ih =>
    have hnext := h.tries htries.1 w
    exact ih hnext (hnext.smith.trans h.smith.symm ▸ hforgetful)
      (outside_act hforgetful hw (.single request)) htries.2

/-- An attempt moves a session on just if it gives out a key, to the session
or to its peer. -/
theorem Peers.stage_tries (h : Peers s t) (hforgetful : s.smith.providers.Forgetful P)
    (hw : P w.outside) (hv : P v.outside) (ht : t.stage.untouched? = some source)
    {request : Request} (htries : request.Tries s) :
    (request.next s w).1.stage = .fmkObtained source ↔ s.stage = .fmkObtained source ∨
      ∃ index fmk, request = .getFmk index ∧ (t.getFmk index v).1 = .ok fmk := by
  cases request with
  | getFmk index =>
    obtain ⟨source', hs, ht'⟩ := h.stage
    obtain rfl := Option.some.inj (ht'.symm.trans ht)
    have hsame := h.getFmk_fst hforgetful hw hv index
    have hmoved := (getFmk_eq hs index w).2
    rw [hsame] at hmoved
    simp only [Request.next, hmoved, Request.getFmk.injEq]
    cases hkey : (t.getFmk index v).1 with
    | error e => simp [hkey]
    | ok fmk => exact iff_of_true rfl (.inr ⟨index, fmk, rfl, hkey⟩)
  | begin fmk =>
    obtain ⟨e, he⟩ := htries
    obtain ⟨e', hs, -⟩ | ⟨s', hs, -⟩ := h.begin fmk
    · simp [Request.next, hs]
    · rw [hs] at he
      cases he
  | nextFile => exact htries.elim
  | readContent sink => exact htries.elim
  | finish => exact htries.elim

/-- **A key has been obtained after attempts just if one of them gave it
out,** as it would have at first. -/
theorem Peers.stage_played (h : Peers s t) (hforgetful : s.smith.providers.Forgetful P)
    (hw : P w.outside) (hv : P v.outside) (ht : t.stage.untouched? = some source)
    {requests : List Request} (htries : Tries requests s w) :
    (Opening.played requests s w).1.stage = .fmkObtained source ↔ s.stage = .fmkObtained source ∨
      ∃ index fmk, .getFmk index ∈ requests ∧ (t.getFmk index v).1 = .ok fmk := by
  induction requests generalizing s w with
  | nil => simp [Opening.played]
  | cons request requests ih =>
    have hnext := h.tries htries.1 w
    have hw' : P (request.next s w).2.outside := outside_act hforgetful hw (.single request)
    have hlater := ih hnext (hnext.smith.trans h.smith.symm ▸ hforgetful) hw' htries.2
    rw [played_cons, hlater, h.stage_tries hforgetful hw hv ht htries.1, or_assoc]
    refine or_congr_right ⟨?_, ?_⟩
    · rintro (⟨index, fmk, rfl, hkey⟩ | ⟨index, fmk, hmem, hkey⟩)
      · exact ⟨index, fmk, List.mem_cons_self, hkey⟩
      · exact ⟨index, fmk, List.mem_cons_of_mem _ hmem, hkey⟩
    · rintro ⟨index, fmk, hmem, hkey⟩
      rcases List.mem_cons.mp hmem with heq | hmem
      · exact .inl ⟨index, fmk, heq.symm, hkey⟩
      · exact .inr ⟨index, fmk, hmem, hkey⟩

end Opening

/-- **Attempts leave no trace but in the phase.** A session whose providers do
not remember what they were asked has tried any locks, in any order and with
any outcome, and was told to begin with keys that were not taken. Then:

* the payload is where it was, and so are the head and the settings; and the
  phase is that a key was obtained just if one of the attempts gave out a key,
  and else the one in which the session began;
* to try a lock comes out as it would have come out at first;
* and it comes out the same in any other session of this locksmith before its
  payload that has the same lock at this place, and makes the same of the key
  that the lock opens to when it checks it against its head;
* to begin comes out as in a session that has not tried anything, and if it
  succeeds it is the same session from then on, which answers everything the
  same;
* if it fails, whatever is asked then is answered the same too, but that each
  of the two sessions refuses in the phase that it is in what is out of
  turn. -/
theorem attempts_leave_no_trace {σ : Type} {smith : Locksmith σ} {lenient : Bool} {source : Source}
    {start : Opening σ} (hcreate : Opening.create smith lenient source = .ok start) {P : σ → Prop}
    (hforgetful : smith.providers.Forgetful P) {w : World σ} (hw : P w.outside)
    {tries : List Opening.Request} (htries : Opening.Tries tries start w) {s : Opening σ}
    {v : World σ} (hplayed : Opening.played tries start w = (s, v)) :
    P v.outside ∧
    (∃ rest, start.stage = .locksParsed rest ∧
      (s.stage = .locksParsed rest ∨ s.stage = .fmkObtained rest) ∧
      (s.stage = .fmkObtained rest ↔
        ∃ index fmk, .getFmk index ∈ tries ∧ (start.getFmk index w).1 = .ok fmk) ∧
      s.header = start.header ∧ s.lenient = start.lenient ∧ s.smith = start.smith) ∧
    (∀ (index : Nat) (u : World σ), P u.outside →
      (s.getFmk index v).1 = (start.getFmk index u).1 ∧
      ∀ other : Opening σ, other.smith = smith → other.stage.untouched? ≠ none →
        other.header.lock? index = start.header.lock? index →
        (∀ lock fmk, start.header.lock? index = some lock → (smith.unwrap lock u).1 = .ok fmk →
          other.header.verify smith.suite fmk = start.header.verify smith.suite fmk) →
        (other.getFmk index u).1 = (s.getFmk index v).1) ∧
    ∀ fmk : Fmk, (s.begin fmk).1 = (start.begin fmk).1 ∧
      ((s.begin fmk).1 = .ok () → (s.begin fmk).2 = (start.begin fmk).2) ∧
      ∀ (u : World σ), P u.outside → ∀ (acts : List Opening.Act) (x y : Opening σ × World σ),
        Opening.acted acts (s.begin fmk).2 v = x → Opening.acted acts (start.begin fmk).2 u = y →
        ∀ act : Opening.Act,
          ((s.begin fmk).1 = .ok () → x.1 = y.1 ∧ act.Agrees x.1 y.1 x.2 y.2) ∧
          (act.Agrees x.1 y.1 x.2 y.2 ∨ act.RefusedByBoth x.1 y.1 x.2 y.2) := by
  obtain ⟨rest, -, hsmith, -, hstart⟩ := Opening.create_ok hcreate
  have hforgetful' : start.smith.providers.Forgetful P := hsmith ▸ hforgetful
  have hfresh : start.stage.untouched? = some rest := by rw [hstart]; rfl
  obtain ⟨hpeers, hv⟩ := (Opening.Peers.refl hfresh).played hforgetful' hw htries
  have hobtained := (Opening.Peers.refl hfresh).stage_played hforgetful' hw hw hfresh htries
  rw [hstart] at hobtained
  rw [hplayed] at hpeers hv hobtained
  dsimp only at hpeers hv
  have hsforgetful : s.smith.providers.Forgetful P := hpeers.smith.symm ▸ hforgetful'
  have hstage : s.stage.untouched? = some rest := by
    obtain ⟨source', hs, ht⟩ := hpeers.stage
    exact hs.trans (ht.symm.trans hfresh)
  refine ⟨hv, ⟨rest, hstart, Opening.untouched?_eq_some_iff.mp hstage,
    hobtained.trans (or_iff_right (by simp)), hpeers.header, hpeers.lenient, hpeers.smith⟩,
    fun index u hu => ⟨?_, ?_⟩, fun fmk => ?_⟩
  · exact hpeers.getFmk_fst hsforgetful hv hu index
  · intro other hother huntouched hlock hverify
    obtain ⟨source', hother'⟩ := Option.ne_none_iff_exists'.mp huntouched
    rw [hpeers.getFmk_fst hsforgetful hv hu index, (Opening.getFmk_eq hother' index u).1,
      (Opening.getFmk_eq hfresh index u).1, hother, hsmith, hlock]
    exact Opening.keyOf_congr hforgetful hu hu index hverify
  · have htwins : ∀ u, P u.outside →
        Opening.Twins P (s.begin fmk).2 (start.begin fmk).2 v u := by
      intro u hu
      have hafter := (hpeers.act hsforgetful hv hu (.single (.begin fmk))).2
      exact ⟨hafter, (Opening.smith_act (.single (.begin fmk)) s v).symm ▸ hsforgetful, hv, hu⟩
    have hbegin : (s.begin fmk).1 = (start.begin fmk).1 ∧
        ((s.begin fmk).1 = .ok () → (s.begin fmk).2 = (start.begin fmk).2) := by
      obtain ⟨e, hs, ht⟩ | ⟨s', hs, ht⟩ := hpeers.begin fmk
      · rw [hs, ht]
        exact ⟨rfl, fun hok => by cases hok⟩
      · rw [hs, ht]
        exact ⟨rfl, fun _ => rfl⟩
    refine ⟨hbegin.1, hbegin.2, fun u hu acts x y hx hy act => ?_⟩
    have hx' := (htwins u hu).acted acts
    rw [hx, hy] at hx'
    refine ⟨fun hok => ?_, (hx'.act act).1⟩
    -- it is one session from here on, so only the providers could tell a difference
    have hsame : x.1 = y.1 := by
      rw [← hx, ← hy, hbegin.2 hok]
      exact Opening.acted_congr ((hbegin.2 hok) ▸ (htwins u hu).forgetful) hv hu acts
    have hagrees := (Opening.act_congr hx'.forgetful hx'.outside hx'.outside' act).1
    rw [← hsame]
    exact ⟨rfl, hagrees⟩

/-! ## A container to try -/

/-- The plain suite, but that keys are not mixed up with anything: a key is
derived as it is, and a code is the key. -/
def Suite.unmixed : Suite :=
  { Suite.plain with
    derive := fun material _ _ => Octets.fit 32 material
    mac := fun key _ => Octets.fit 32 key }

/-- Where nothing is mixed, the code of a head is the master key. -/
theorem Header.mac_unmixed (fmk : Fmk) (preamble json : Bytes) :
    Header.mac .unmixed fmk preamble json = fmk.key := by
  show Octets.fit 32 (Octets.fit 32 fmk.key.val).val = fmk.key
  rw [Octets.fit_val, Octets.fit_val]

/-- The locksmith of this suite, who has a key of one byte for every lock. -/
def Locksmith.unmixed : Locksmith Unit :=
  ⟨.unmixed, .default, ⟨fun _ => Step.answer (.ok [1]), none⟩⟩

theorem Locksmith.forgetful_unmixed : Locksmith.unmixed.providers.Forgetful fun _ => True where
  secret _ := .answer _
  certificates _ h := by cases h
  release _ h := by cases h

/-- There is a container whose first lock this locksmith opens, and a key that
its head does not confirm. -/
theorem Opening.exists_unmixed : ∃ (source : Source) (start s : Opening Unit) (fmk wrong : Fmk)
    (w : World Unit), Opening.create .unmixed false source = .ok start ∧
      start.getFmk 0 ⟨.splitMix 2, ()⟩ = (.ok fmk, s, w) ∧
      ∀ t : Opening Unit, t.Peers start → t.begin wrong = (.error (.integrity .headerMac), t) := by
  have hkey : Locksmith.unmixed.KeyAtHand (.symmetricKey "key" (some [1])) :=
    Locksmith.keyAtHand_of_brought _ (by decide) (by simp)
  obtain ⟨run, asked, hsmith, -, hrecipients⟩ := SealedRun.exists_of_entries Locksmith.unmixed
    Suite.plain_fitsFrames.tag hkey (fun _ he => absurd he List.not_mem_nil)
    (fun _ he => absurd he List.not_mem_nil)
    (by simp) (by decide) ⟨.splitMix 1, ()⟩
  have hsuite : run.suite = .unmixed := congrArg Locksmith.suite hsmith
  obtain ⟨-, -, hcontainer, -⟩ := run.container_eq
  obtain ⟨start, payload, hcreate, hreader, hfaces, -⟩ :=
    SealedRun.create_of_head false (show Locksmith.unmixed.suite = run.suite from hsuite.symm)
      (Source.steady_ofBytes run.container) ((Source.contents_ofBytes _).trans hcontainer)
  have hserve : start.smith.providers.Serve run.suite ()
      ⟨0, .symmetricKey, "key"⟩ asked (.symmetricKey "key" (some [1])) := by
    rw [hreader]
    exact ⟨[1], rfl, .inl rfl⟩
  obtain ⟨s, w, hget, -, -⟩ := hfaces.getFmk_eq (hsuite ▸ Suite.plain_opensSealed)
    (hsuite ▸ Suite.plain_agreesBothWays) (i := 0) (by simp [hrecipients])
    (w := ⟨.splitMix 2, ()⟩) (by simp only [hrecipients]; exact hserve)
  obtain ⟨wrong, hwrong⟩ : ∃ wrong : Fmk, wrong ≠ run.fmk := by
    by_cases h : run.fmk = ⟨.zero 32⟩
    · exact ⟨⟨.fit 32 [1]⟩, by rw [h]; decide⟩
    · exact ⟨⟨.zero 32⟩, Ne.symm h⟩
  refine ⟨_, start, s, run.fmk, wrong, w, hcreate, hget, fun t ht => ?_⟩
  obtain ⟨source, hstage, -⟩ := ht.stage
  have hverify : t.header.verify t.smith.suite wrong = .error (.integrity .headerMac) := by
    have hmac : run.parsed.mac = run.fmk.key.val := by
      show (Header.mac run.suite run.fmk _ _).val = _
      rw [hsuite, Header.mac_unmixed]
    have hne : wrong.key.val ≠ run.fmk.key.val := by
      intro h
      have hkey : wrong.key = run.fmk.key := Subtype.ext h
      exact hwrong (congrArg Fmk.mk hkey)
    rw [ht.header, ht.smith, hfaces.suite, hfaces.header, hsuite, ParsedHeader.verify,
      Header.mac_unmixed, hmac]
    exact if_neg hne
  rw [Opening.begin_eq hstage, hverify]

/-- Between two attempts that give out the key of a container, one at a place
without a lock and the wrong key come to nothing, and the key begins the
reading as if none of them had been made. -/
theorem unmixed_attempts_leave_no_trace : ∃ (source : Source) (start s : Opening Unit)
    (fmk wrong : Fmk) (v : World Unit), Opening.create .unmixed false source = .ok start ∧
      Opening.played [.getFmk 0, .getFmk 9, .begin wrong, .getFmk 0] start ⟨.splitMix 2, ()⟩
        = (s, v) ∧
      (s.getFmk 0 v).1 = .ok fmk ∧ (s.getFmk 9 v).1 = (start.getFmk 9 ⟨.splitMix 2, ()⟩).1 ∧
      (s.begin fmk).1 = .ok () ∧ (s.begin fmk).2 = (start.begin fmk).2 := by
  obtain ⟨source, start, s₁, fmk, wrong, w, hcreate, hget, hwrong⟩ := Opening.exists_unmixed
  have hfresh := Opening.Peers.of_create hcreate
  have htries : Opening.Tries [.getFmk 0, .getFmk 9, .begin wrong, .getFmk 0] start
      ⟨.splitMix 2, ()⟩ :=
    ⟨trivial, trivial, ⟨_, congrArg Prod.fst (hwrong _ ((hfresh.getFmk 0 _).getFmk 9 _))⟩, trivial,
      trivial⟩
  obtain ⟨-, -, hkeys, hbegins⟩ := attempts_leave_no_trace hcreate Locksmith.forgetful_unmixed
    (w := ⟨.splitMix 2, ()⟩) trivial htries rfl
  obtain ⟨hbegin, hsame, -⟩ := hbegins fmk
  obtain ⟨source', hstage, hverify, -⟩ := Opening.getFmk_ok hget
  have hok : (start.begin fmk).1 = .ok () := by rw [Opening.begin_eq hstage, hverify]
  refine ⟨source, start, _, fmk, wrong, _, hcreate, rfl, ?_, (hkeys 9 _ trivial).1,
    hbegin.trans hok, hsame (hbegin.trans hok)⟩
  rw [(hkeys 0 ⟨.splitMix 2, ()⟩ trivial).1, hget]

/-- **An attempt leaves its phase behind.** A session that was given the key of
its container, and one over the same container that has not tried, are both
told to begin with a wrong key, and fail alike. Asked for the next entry, the
one refuses because a key was obtained, and the other because the locks were
parsed. -/
theorem attempt_leaves_phase : ∃ (source : Source) (start s : Opening Unit) (fmk wrong : Fmk)
    (w : World Unit), Opening.create .unmixed false source = .ok start ∧
      Locksmith.unmixed.providers.Forgetful (fun _ => True) ∧
      start.getFmk 0 ⟨.splitMix 2, ()⟩ = (.ok fmk, s, w) ∧
      s.begin wrong = (.error (.integrity .headerMac), s) ∧
      start.begin wrong = (.error (.integrity .headerMac), start) ∧
      s.nextFile.1 = .error (.state .nextFile .fmkObtained) ∧
      start.nextFile.1 = .error (.state .nextFile .locksParsed) := by
  obtain ⟨source, start, s, fmk, wrong, w, hcreate, hget, hwrong⟩ := Opening.exists_unmixed
  obtain ⟨rest, -, -, -, hstart⟩ := Opening.create_ok hcreate
  have hfresh := Opening.Peers.of_create hcreate
  have htried : s.Peers start := by
    have hafter := hfresh.getFmk 0 ⟨.splitMix 2, ()⟩
    rwa [hget] at hafter
  obtain ⟨source', -, -, hs⟩ := Opening.getFmk_ok hget
  have hnext : s.nextFile.1 = .error (.state .nextFile .fmkObtained) := by rw [hs]; rfl
  have hnext' : start.nextFile.1 = .error (.state .nextFile .locksParsed) := by
    rw [Opening.nextFile, Opening.refuse, hstart]
    rfl
  exact ⟨source, start, s, fmk, wrong, w, hcreate, Locksmith.forgetful_unmixed, hget,
    hwrong s htried, hwrong start hfresh, hnext, hnext'⟩

end Lockbox
