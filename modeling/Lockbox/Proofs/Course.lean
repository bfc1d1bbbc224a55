import Lockbox.Proofs.Unlocking
/-!
# Lockbox — the course of an opening

The opening of a lock has three parts (`Locksmith.unwrap_eq`). First comes
all that can fail before a secret is wanted, and it ends with a way to get
from a secret to the wrapping key (`Locksmith.approach`). Then the secret
is asked for, once. What follows asks nobody (`Lock.openWith`). So there
are three courses that an opening can take, told apart by what was asked
(`Locksmith.Course`): it stopped before the secret was wanted, the secret
was refused, or there was one and all else follows from it.
-/

namespace Lockbox

/-! ## From a secret to the master key

Once a secret is there, no one is asked any more: what becomes of it is a
function of the lock, the secret and how a key is derived from it. -/

/-- The question for the secret of a lock, with its answer in a state. -/
def Providers.secretCall {σ : Type} (p : Providers σ) (info : LockInfo) (o : σ) : Exchange :=
  .secret info (p.secret info o).1

/-- How a wrapping key is found from a secret. -/
inductive Derivation where
  | stretched (salt pwSalt : Octets 32) (iterations : UInt32)
  | shared (salt : Octets 32)
  | agreed (recipient sender : Octets 32)

/-- The wrapping key of a lock with this label, if the secret leads to one. -/
def Derivation.key? (S : Suite) (label : String) (secret : Bytes) : Derivation → Option (Octets 32)
  | .stretched salt pwSalt n => (WrapKey.ofPassword S secret salt pwSalt n label).toOption
  | .shared salt => some (WrapKey.ofKey S secret salt label)
  | .agreed recipient sender => WrapKey.ofPrivate? S secret recipient sender

/-- What an opening with a wrapping key comes to. -/
def Lock.openUnder (S : Suite) (lock : Lock) (key : Octets 32) : Except Error Fmk :=
  match S.decrypt? key lock.nonce (Lock.context lock.type lock.label) lock.wrapped with
  | none => .error (.lock lock.index .wrongSecret)
  | some plain => (Fmk.ofBytes plain).mapError Error.crypto

/-- What an opening with a secret comes to. -/
def Lock.openWith (S : Suite) (lock : Lock) (d : Derivation) (secret : Bytes) : Except Error Fmk :=
  match d.key? S lock.label secret with
  | none => .error (.lock lock.index .wrongSecret)
  | some key => lock.openUnder S key

/-- The sender's public key in what a server released. -/
def Exchange.released? : Exchange → Option (Octets 32)
  | .release _ _ (.ok response) => Octets.ofBytes? 32 response
  | _ => none

/-- How the wrapping key of a lock is found, after these questions. -/
def Lock.derivation? (lock : Lock) (calls : List Exchange) : Option Derivation :=
  match lock.capsule with
  | .password salt pwSalt n => some (.stretched salt pwSalt n)
  | .symmetricKey salt => some (.shared salt)
  | .publicKey recipient sender | .certificate _ recipient sender => some (.agreed recipient sender)
  | .server recipient _ _ => (calls.findSome? Exchange.released?).map (.agreed recipient)

/-- A number of rounds is accepted within its bounds. -/
theorem checkIterations_eq_ok_iff {n : UInt32} :
    checkIterations n = .ok () ↔ 1 ≤ n.toNat ∧ n.toNat ≤ maxIterations := by
  unfold checkIterations
  split
  · exact iff_of_true rfl ‹_›
  · exact iff_of_false (by simp) ‹_›

theorem checkIterations_eq_error {n : UInt32} (h : ¬ (1 ≤ n.toNat ∧ n.toNat ≤ maxIterations)) :
    checkIterations n = .error ⟨n⟩ := if_neg h

/-- A password that was stretched at least once gives a key. -/
theorem WrapKey.ofPassword_of_check {n : UInt32} (h : checkIterations n = .ok ()) (S : Suite)
    (password : Bytes) (salt pwSalt : Octets 32) (label : String) :
    WrapKey.ofPassword S password salt pwSalt n label
      = .ok (WrapKey.ofKey S (S.stretch password pwSalt.val n.toNat).val salt label) := by
  have hn : n.toNat ≠ 0 := Nat.one_le_iff_ne_zero.mp (checkIterations_eq_ok_iff.mp h).1
  rw [WrapKey.ofPassword, WrapKey.stretch, if_neg hn]
  rfl

/-! ## What is asked on the way

What an operation asks in one world is told by running it beside its noting
form. For a sequence of steps the questions follow each other, and a step
that is known to ask nobody adds none. -/

section Asks

variable {σ ε δ α β : Type}

/-- The second operation does in this world what the first one does, and
notes these questions. -/
def Asks (x : Step ε (World σ) α) (y : Step ε (World (List Exchange × σ)) α) (w : World σ)
    (calls : List Exchange) : Prop :=
  ∀ log, y (w.noting log) = ((x w).1, (x w).2.noting (log ++ calls))

/-- A question asks just itself. -/
theorem asks_ask (f : δ → ε) (note : Except δ α → Exchange) (x : Step δ σ α) (w : World σ) :
    Asks (World.ask (Step.blame f x)) (World.ask (Step.blame f (x.noting note))) w
      [note (x w.outside).1] :=
  fun log => ask_noting f note x log w

variable {x : Step ε (World σ) α} {y : Step ε (World (List Exchange × σ)) α}
  {f : α → Step ε (World σ) β} {g : α → Step ε (World (List Exchange × σ)) β}
  {w w₁ : World σ} {calls more : List Exchange}

/-- An operation that notes nothing asks nothing. -/
theorem Asks.of_quiet (h : Noted (fun _ => False) x y) (w : World σ) : Asks x y w [] := by
  intro log
  obtain ⟨new, hall, hnew⟩ := h log w
  rw [hnew, List.eq_nil_iff_forall_not_mem.mpr hall]

/-- Where the first of two steps succeeds, the questions of the second one
follow. -/
theorem Asks.bind_ok {a : α} (h : Asks x y w calls) (hx : x w = (.ok a, w₁))
    (hf : Asks (f a) (g a) w₁ more) : Asks (x >>= f) (y >>= g) w (calls ++ more) := by
  intro log
  have hy := h log
  rw [hx] at hy
  rw [Step.bind_of_ok hy, Step.bind_of_ok hx, hf, List.append_assoc]

/-- Where it fails, there are no more. -/
theorem Asks.bind_error {e : ε} (h : Asks x y w calls) (hx : x w = (.error e, w₁)) :
    Asks (x >>= f) (y >>= g) w calls := by
  intro log
  rw [Step.bind_apply, Step.bind_apply, h log, hx]

/-- If the second step asks nobody, there are no more either. -/
theorem Asks.bind_quiet (h : Asks x y w calls) (hf : ∀ a, Noted (fun _ => False) (f a) (g a)) :
    Asks (x >>= f) (y >>= g) w calls := by
  rcases hx : x w with ⟨e | a, w₁⟩
  · exact h.bind_error hx
  · have := h.bind_ok hx (.of_quiet (hf a) w₁)
    rwa [List.append_nil] at this

end Asks

/-! ## The parts of an opening

Opening is divided where the secret is asked for. What comes before may ask
one question, and what comes after asks none, so the courses can be listed. -/

namespace Locksmith

variable {σ : Type} (m : Locksmith σ)

/-- All of an opening that comes before the secret is asked for. -/
def approach (lock : Lock) : Step Error (World σ) Derivation :=
  match lock.capsule with
  | .password salt pwSalt n => do
    Step.answer ((checkIterations n).mapError fun f => .parse (.iterations f))
    return .stretched salt pwSalt n
  | .symmetricKey salt => pure (.shared salt)
  | .publicKey recipient sender => pure (.agreed recipient sender)
  | .certificate fingerprint recipient sender =>
    match m.providers.remote with
    | none =>
      Step.fail (.lock lock.index (.unsupported "certificate lock needs a remote provider"))
    | some remote => do
      let certificates ← World.ask (Step.blame Error.network remote.certificates)
      if certificates.any (fun c => m.suite.hash c = fingerprint) then
        return .agreed recipient sender
      else Step.fail (.lock lock.index .certificateNotFound)
  | .server recipient serverId transactionId =>
    match m.providers.remote with
    | none =>
      Step.fail (.lock lock.index (.unsupported "server-assisted lock needs a remote provider"))
    | some remote => do
      let response ← World.ask (Step.blame Error.network
        (remote.release lock.index (releaseRequest serverId transactionId)))
      match Octets.ofBytes? 32 response with
      | none => Step.fail (.network (.keyLength serverId response.length))
      | some sender => return .agreed recipient sender

/-- The key that was agreed on, and then the rest of the opening. -/
theorem agreedKey_bind (lock : Lock) (secret : Bytes) (recipient sender : Octets 32) :
    (m.agreedKey lock.index secret recipient sender >>= fun key =>
      Step.answer (lock.openUnder m.suite key))
    = (Step.answer (lock.openWith m.suite (.agreed recipient sender) secret) :
        Step Error (World σ) Fmk) := by
  simp only [agreedKey, Lock.openWith, Derivation.key?]
  cases WrapKey.ofPrivate? m.suite secret recipient sender with
  | none => rfl
  | some key => rfl

/-- **An opening is an approach, one question for the secret, and what
follows from that.** -/
theorem unwrap_eq (lock : Lock) :
    m.unwrap lock = (do
      let d ← m.approach lock
      let secret ← m.secretFor lock.info
      Step.answer (lock.openWith m.suite d secret)) := by
  have hunder : m.unwrap lock = m.recover lock >>= fun key =>
      Step.answer (lock.openUnder m.suite key) := by
    refine congrArg _ (funext fun key => ?_)
    rw [Lock.openUnder]
    cases m.suite.decrypt? key lock.nonce (Lock.context lock.type lock.label) lock.wrapped with
    | none => rfl
    | some plain => rfl
  rw [hunder]
  cases hc : lock.capsule with
  | password salt pwSalt n =>
    simp only [recover, approach, hc, bind_assoc, pure_bind]
    cases hn : checkIterations n with
    | error f => rfl
    | ok u =>
      -- the check is passed, so the stretching cannot fail
      simp only [Lock.openWith, Derivation.key?, WrapKey.ofPassword_of_check hn]
      rfl
  | symmetricKey salt =>
    simp only [recover, approach, hc, bind_assoc, pure_bind]
    rfl
  | publicKey recipient sender =>
    simp only [recover, approach, hc, bind_assoc, pure_bind, agreedKey_bind]
  | certificate fingerprint recipient sender =>
    simp only [recover, approach, hc]
    cases m.providers.remote with
    | none => rfl
    | some remote =>
      simp only [bind_assoc]
      refine congrArg _ (funext fun certificates => ?_)
      split
      · simp only [bind_assoc, pure_bind, agreedKey_bind]
      · rfl
  | server recipient serverId transactionId =>
    simp only [recover, approach, hc]
    cases m.providers.remote with
    | none => rfl
    | some remote =>
      simp only [bind_assoc]
      refine congrArg _ (funext fun response => ?_)
      cases Octets.ofBytes? 32 response with
      | none => rfl
      | some sender => simp only [bind_assoc, pure_bind, agreedKey_bind]

/-- The one question that an approach may ask. -/
def callsBefore (lock : Lock) (o : σ) : List Exchange :=
  match lock.capsule, m.providers.remote with
  | .certificate .., some remote => [.certificates (remote.certificates o).1]
  | .server _ serverId transactionId, some remote =>
    [.release lock.index (releaseRequest serverId transactionId)
      (remote.release lock.index (releaseRequest serverId transactionId) o).1]
  | _, _ => []

/-- **What is asked before the secret** is one question at most, to the remote.
-/
theorem asks_approach (lock : Lock) (w : World σ) :
    Asks (m.approach lock) (m.noting.approach lock) w (m.callsBefore lock w.outside) := by
  cases hc : lock.capsule with
  | password salt pwSalt n =>
    simp only [approach, callsBefore, hc]
    exact .of_quiet ((noted_answer _).bind fun _ => noted_answer (.ok _)) w
  | symmetricKey salt =>
    simp only [approach, callsBefore, hc]
    exact .of_quiet (noted_answer (.ok _)) w
  | publicKey recipient sender =>
    simp only [approach, callsBefore, hc]
    exact .of_quiet (noted_answer (.ok _)) w
  | certificate fingerprint recipient sender =>
    cases hr : m.providers.remote with
    | none =>
      simp only [approach, callsBefore, noting, Providers.noting, hc, hr, Option.map_none]
      exact .of_quiet (noted_answer _) w
    | some remote =>
      simp only [approach, callsBefore, noting, Providers.noting, hc, hr, Option.map_some]
      refine (asks_ask Error.network _ _ w).bind_quiet fun certificates => ?_
      split
      · exact noted_answer (.ok _)
      · exact noted_answer _
  | server recipient serverId transactionId =>
    cases hr : m.providers.remote with
    | none =>
      simp only [approach, callsBefore, noting, Providers.noting, hc, hr, Option.map_none]
      exact .of_quiet (noted_answer _) w
    | some remote =>
      simp only [approach, callsBefore, noting, Providers.noting, hc, hr, Option.map_some]
      refine (asks_ask Error.network _ _ w).bind_quiet fun response => ?_
      cases Octets.ofBytes? 32 response with
      | none => exact noted_answer _
      | some sender => exact noted_answer (.ok _)

/-- To ask for the secret is one question. -/
theorem asks_secretFor (info : LockInfo) (w : World σ) :
    Asks (m.secretFor info) (m.noting.secretFor info) w
      [m.providers.secretCall info w.outside] :=
  asks_ask _ _ _ w

/-- To ask for the secret changes nothing but what is outside, and a failure is
blamed on the lock. -/
theorem secretFor_eq (info : LockInfo) (w : World σ) :
    m.secretFor info w = ((m.providers.secret info w.outside).1.mapError (Error.lock info.index),
      { w with outside := (m.providers.secret info w.outside).2 }) := by
  unfold secretFor World.ask Step.zoom Step.blame
  rcases m.providers.secret info w.outside with ⟨_ | _, _⟩
  · rfl
  · rfl

/-- Before the secret, only the lock of a certificate asks for certificates,
and only the lock of a server for the release of a capsule. -/
theorem mem_callsBefore {e : Exchange} {lock : Lock} {o : σ} (he : e ∈ m.callsBefore lock o) :
    (∃ fingerprint recipient sender remote,
      lock.capsule = .certificate fingerprint recipient sender ∧
      m.providers.remote = some remote ∧ e = .certificates (remote.certificates o).1) ∨
    ∃ recipient serverId transactionId remote,
      lock.capsule = .server recipient serverId transactionId ∧
      m.providers.remote = some remote ∧
      e = .release lock.index (releaseRequest serverId transactionId)
        (remote.release lock.index (releaseRequest serverId transactionId) o).1 := by
  unfold callsBefore at he
  split at he
  · rename_i fingerprint recipient sender remote hc hr
    exact .inl ⟨_, _, _, remote, hc, hr, List.mem_singleton.mp he⟩
  · rename_i recipient serverId transactionId remote hc hr
    exact .inr ⟨_, _, _, remote, hc, hr, List.mem_singleton.mp he⟩
  · exact absurd he (by simp)

/-- No secret is asked for before. -/
theorem secret_notMem_callsBefore {info : LockInfo} {answer : Except LockError Bytes} {lock : Lock}
    {o : σ} : .secret info answer ∉ m.callsBefore lock o := by
  intro hmem
  obtain ⟨_, _, _, _, _, _, he⟩ | ⟨_, _, _, _, _, _, he⟩ := m.mem_callsBefore hmem
  · cases he
  · cases he

/-- How the wrapping key is found can be told from what was asked. -/
theorem derivation_of_approach {lock : Lock} {w w₁ : World σ} {d : Derivation}
    (h : m.approach lock w = (.ok d, w₁)) (later : List Exchange) :
    lock.derivation? (m.callsBefore lock w.outside ++ later) = some d := by
  cases hc : lock.capsule with
  | password salt pwSalt n =>
    simp only [approach, hc] at h
    obtain ⟨u, w₂, -, hd⟩ := Step.bind_ok h
    cases (Step.answer_ok hd).1
    simp only [Lock.derivation?, hc]
  | symmetricKey salt =>
    simp only [approach, hc] at h
    cases (Step.answer_ok h).1
    simp only [Lock.derivation?, hc]
  | publicKey recipient sender =>
    simp only [approach, hc] at h
    cases (Step.answer_ok h).1
    simp only [Lock.derivation?, hc]
  | certificate fingerprint recipient sender =>
    simp only [approach, hc] at h
    cases hr : m.providers.remote with
    | none =>
      rw [hr] at h
      exact absurd (Prod.mk.inj h).1 (by simp)
    | some remote =>
      rw [hr] at h
      obtain ⟨certificates, w₂, -, hd⟩ := Step.bind_ok h
      split at hd
      · cases (Step.answer_ok hd).1
        simp only [Lock.derivation?, hc]
      · exact absurd (Prod.mk.inj hd).1 (by simp)
  | server recipient serverId transactionId =>
    simp only [approach, hc] at h
    cases hr : m.providers.remote with
    | none =>
      rw [hr] at h
      exact absurd (Prod.mk.inj h).1 (by simp)
    | some remote =>
      rw [hr] at h
      obtain ⟨response, w₂, hask, hd⟩ := Step.bind_ok h
      cases ho : Octets.ofBytes? 32 response with
      | none =>
        rw [ho] at hd
        exact absurd (Prod.mk.inj hd).1 (by simp)
      | some sender =>
        rw [ho] at hd
        cases (Step.answer_ok hd).1
        -- the response that was noted is the one that was taken
        obtain ⟨o, hblame, -⟩ := Step.zoom_ok_iff.mp hask
        have hresponse := congrArg Prod.fst (Step.blame_ok_iff.mp hblame)
        simp only [Lock.derivation?, callsBefore, hc, hr, hresponse, List.cons_append,
          List.findSome?_cons, Exchange.released?, ho, Option.map_some]

/-- **The courses of an opening**: what was asked, and what came of it. -/
inductive Course (lock : Lock) (w : World σ) : List Exchange → Except Error Fmk → Prop
  /-- Something was in the way of asking for the secret. -/
  | stopped (e : Error) (w₁ : World σ) (h : m.approach lock w = (.error e, w₁)) :
      Course lock w (m.callsBefore lock w.outside) (.error e)
  /-- There was no secret to be had. -/
  | refused (d : Derivation) (w₁ : World σ) (f : LockError)
      (h : m.approach lock w = (.ok d, w₁))
      (hsecret : (m.providers.secret lock.info w₁.outside).1 = .error f) :
      Course lock w (m.callsBefore lock w.outside ++ [.secret lock.info (.error f)])
        (.error (.lock lock.index f))
  /-- There was a secret. -/
  | answered (d : Derivation) (w₁ : World σ) (secret : Bytes)
      (h : m.approach lock w = (.ok d, w₁))
      (hsecret : (m.providers.secret lock.info w₁.outside).1 = .ok secret) :
      Course lock w (m.callsBefore lock w.outside ++ [.secret lock.info (.ok secret)])
        (lock.openWith m.suite d secret)

/-- An opening takes one of these courses. -/
theorem course_unwrap (lock : Lock) (w : World σ) :
    m.Course lock w (m.consulted lock w) (m.unwrap lock w).1 := by
  have hnoting : ∀ calls, Asks (m.unwrap lock) (m.noting.unwrap lock) w calls →
      m.consulted lock w = calls := fun calls h => by
    rw [consulted, h [], List.nil_append]
    rfl
  have happroach := m.asks_approach lock w
  rw [unwrap_eq, unwrap_eq] at hnoting
  rw [unwrap_eq]
  rcases h : m.approach lock w with ⟨e | d, w₁⟩
  · rw [hnoting _ (happroach.bind_error h), Step.bind_apply, h]
    exact .stopped e w₁ h
  · rw [hnoting _ (happroach.bind_ok h ((m.asks_secretFor lock.info w₁).bind_quiet
      fun _ => noted_answer _)), Step.bind_of_ok h, Step.bind_apply, secretFor_eq,
      Providers.secretCall]
    cases hs : (m.providers.secret lock.info w₁.outside).1 with
    | error f => exact .refused d w₁ f h hs
    | ok secret => exact .answered d w₁ secret h hs

/-- What an opening asks is what its approach asks and then, if nothing was
in the way, the secret. -/
theorem consulted_eq (lock : Lock) (w : World σ) :
    m.consulted lock w = m.callsBefore lock w.outside ++ match m.approach lock w with
      | (.ok _, w₁) => [m.providers.secretCall lock.info w₁.outside]
      | (.error _, _) => [] := by
  have hcourse := m.course_unwrap lock w
  generalize m.consulted lock w = calls, (m.unwrap lock w).1 = result at hcourse
  cases hcourse with
  | stopped e w₁ h => rw [h, List.append_nil]
  | refused d w₁ f h hsecret => simp only [h, Providers.secretCall, hsecret]
  | answered d w₁ secret h hsecret => simp only [h, Providers.secretCall, hsecret]

variable {m} {lock : Lock} {w : World σ}

/-- Whatever secret there was, the rest of the opening follows from it. -/
theorem unwrap_of_secret {info : LockInfo} {secret : Bytes}
    (h : .secret info (.ok secret) ∈ m.consulted lock w) :
    ∃ d, lock.derivation? (m.consulted lock w) = some d ∧
      (m.unwrap lock w).1 = lock.openWith m.suite d secret := by
  have hcourse := m.course_unwrap lock w
  generalize m.consulted lock w = calls, (m.unwrap lock w).1 = result at hcourse h ⊢
  cases hcourse with
  | stopped e w₁ _ => exact absurd h m.secret_notMem_callsBefore
  | refused d w₁ f _ _ =>
    cases List.mem_singleton.mp ((List.mem_append.mp h).resolve_left m.secret_notMem_callsBefore)
  | answered d w₁ secret' happroach _ =>
    cases List.mem_singleton.mp ((List.mem_append.mp h).resolve_left m.secret_notMem_callsBefore)
    exact ⟨d, m.derivation_of_approach happroach _, rfl⟩

/-- No lock is opened without a secret. -/
theorem secret_of_unwrap {fmk : Fmk} (h : (m.unwrap lock w).1 = .ok fmk) :
    ∃ secret, .secret lock.info (.ok secret) ∈ m.consulted lock w := by
  have hcourse := m.course_unwrap lock w
  generalize m.consulted lock w = calls, (m.unwrap lock w).1 = result at hcourse h ⊢
  cases hcourse with
  | stopped => cases h
  | refused => cases h
  | answered d w₁ secret => exact ⟨secret, List.mem_append_right _ (List.mem_singleton_self _)⟩

end Locksmith

end Lockbox
