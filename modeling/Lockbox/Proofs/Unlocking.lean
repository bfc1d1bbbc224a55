import Lockbox.Proofs.Asked
import Lockbox.Proofs.Laws
/-!
# Lockbox — opening the locks that were made

What the making of a lock leaves behind is said for all five kinds at once
(`wrap_ok`): a key that the master key is wrapped under, and a capsule
from which the key can be found again (`Capsule.Hides`). Whoever can
answer for the recipient finds it (`recover_of_hides`), so opening a lock
undoes making it (`unwrap_wrap`). Who can answer is said by
`Providers.Serve`, in terms of what was asked when the lock was made.
-/

namespace Lockbox

/-! ## Steps that succeed -/

namespace Step

variable {ε s α β : Type}

/-- Both of two steps have succeeded if the two together have. -/
theorem bind_ok {x : Step ε s α} {f : α → Step ε s β} {w w' : s} {b : β}
    (h : (x >>= f) w = (.ok b, w')) : ∃ a w₁, x w = (.ok a, w₁) ∧ f a w₁ = (.ok b, w') := by
  rw [bind_apply] at h
  split at h
  · rename_i a w₁ hx
    exact ⟨a, w₁, hx, h⟩
  · exact absurd (Prod.mk.inj h).1 (by simp)

/-- If they fail, one of them does. -/
theorem bind_error {x : Step ε s α} {f : α → Step ε s β} {w w' : s} {e : ε}
    (h : (x >>= f) w = (.error e, w')) :
    x w = (.error e, w') ∨ ∃ a w₁, x w = (.ok a, w₁) ∧ f a w₁ = (.error e, w') := by
  rw [bind_apply] at h
  split at h
  · rename_i a w₁ hx
    exact .inr ⟨a, w₁, hx, h⟩
  · rename_i hx
    obtain ⟨he, rfl⟩ := Prod.mk.inj h
    cases he
    exact .inl hx

/-- Behind a step that succeeded the next one goes on. -/
theorem bind_of_ok {x : Step ε s α} {w w₁ : s} {a : α} (h : x w = (.ok a, w₁))
    (f : α → Step ε s β) : (x >>= f) w = f a w₁ := by
  rw [bind_apply, h]

theorem bind_answer (a : α) (f : α → Step ε s β) (w : s) :
    (Step.answer (.ok a) >>= f) w = f a w := rfl

theorem bind_get (f : s → Step ε s β) (w : s) : (Step.get >>= f) w = f w w := rfl

theorem blame_ok_iff {ε' : Type} {f : ε → ε'} {x : Step ε s α} {w w' : s} {a : α} :
    x.blame f w = (.ok a, w') ↔ x w = (.ok a, w') := by
  unfold blame
  rcases x w with ⟨e | b, v⟩
  · simp
  · simp

/-- A step on a part succeeds as it does there, and puts back what it leaves.
-/
theorem zoom_ok_iff {t : Type} {part : s → t} {put : t → s → s} {x : Step ε t α} {w w' : s} {a : α} :
    x.zoom part put w = (.ok a, w') ↔ ∃ v, x (part w) = (.ok a, v) ∧ w' = put v w := by
  unfold zoom
  rcases x (part w) with ⟨r, v⟩
  simp only [Prod.mk.injEq]
  constructor
  · rintro ⟨rfl, rfl⟩
    exact ⟨v, ⟨rfl, rfl⟩, rfl⟩
  · rintro ⟨v, ⟨rfl, rfl⟩, rfl⟩
    exact ⟨rfl, rfl⟩

theorem answer_ok {r : Except ε α} {w w' : s} {a : α} (h : Step.answer r w = (.ok a, w')) :
    r = .ok a ∧ w' = w := ⟨(Prod.mk.inj h).1, (Prod.mk.inj h).2.symm⟩

end Step

/-- Failures that are translated are no success. -/
theorem Except.ok_of_mapError {ε ε' α : Type} {f : ε → ε'} {r : Except ε α} {a : α}
    (h : r.mapError f = .ok a) : r = .ok a := by
  cases r with
  | ok b =>
    cases h
    rfl
  | error e => cases h

theorem Except.bind_ok {ε α β : Type} {r : Except ε α} {f : α → Except ε β} {b : β}
    (h : (r >>= f) = .ok b) : ∃ a, r = .ok a ∧ f a = .ok b := by
  cases r with
  | ok a => exact ⟨a, rfl, h⟩
  | error e => cases h

/-- Drawing does not touch what is outside. -/
theorem World.draw_ok {ε σ : Type} {n : Nat} {w w' : World σ} {o : Octets n}
    (h : World.draw (ε := ε) n w = (.ok o, w')) : w'.outside = w.outside := by
  obtain ⟨-, rfl⟩ := Prod.mk.inj h
  rfl

/-! ## Making a lock

The secret that a lock is made with comes from the recipient or from a
question, and what was asked is known from the noting locksmith.
`Capsule.Hides` keeps both for the one who opens. -/

/-- The secret was brought along, or it was all that was asked for. -/
def Exchange.Gave (asked : List Exchange) (info : LockInfo) (given : Option Bytes)
    (secret : Bytes) : Prop :=
  given = some secret ∧ asked = [] ∨ given = none ∧ asked = [.secret info (.ok secret)]

/-- The sender's key was agreed on with the recipient. -/
def WrapKey.Agreed (S : Suite) (recipient sender key : Octets 32) : Prop :=
  ∃ ephemeral, WrapKey.ofEphemeral S ephemeral recipient = .ok (sender, key)

/-- The capsule of a recipient's lock hides the wrapping key. -/
def Capsule.Hides (S : Suite) (c : Capsule) (info : LockInfo) (key : Octets 32)
    (asked : List Exchange) : Recipient → Prop
  | .password label given _ => ∃ secret salt pwSalt n, c = .password salt pwSalt n ∧
      checkIterations n = .ok () ∧ WrapKey.ofPassword S secret salt pwSalt n label = .ok key ∧
      Exchange.Gave asked info given secret
  | .symmetricKey label given => ∃ secret salt, c = .symmetricKey salt ∧
      key = WrapKey.ofKey S secret salt label ∧ Exchange.Gave asked info given secret
  | .publicKey _ recipient => ∃ sender, c = .publicKey recipient sender ∧
      WrapKey.Agreed S recipient sender key ∧ asked = []
  | .certificate _ held recipient => ∃ sender,
      c = .certificate (S.hash held) recipient sender ∧
      WrapKey.Agreed S recipient sender key ∧ asked = []
  | .server _ recipient _ => ∃ sender server transaction,
      c = .server recipient server transaction ∧ WrapKey.Agreed S recipient sender key ∧
      asked = [.deposit server (Locksmith.depositRequest recipient sender) (.ok transaction)]

namespace Locksmith

variable {σ : Type} (m : Locksmith σ)

/-- Who is noting knows where a secret came from: it was brought along and
nothing was asked, or it was the answer to the one question. -/
theorem inlineOr_noting {info : LockInfo} {given : Option Bytes} {log : List Exchange}
    {w : World σ} {w' : World (List Exchange × σ)} {secret : Bytes}
    (h : m.noting.inlineOr info given (w.noting log) = (.ok secret, w')) :
    given = some secret ∧ w'.outside.1 = log ∨
      given = none ∧ w'.outside.1 = log ++ [.secret info (.ok secret)] := by
  cases given with
  | some s =>
    obtain ⟨hs, rfl⟩ := Prod.mk.inj h
    cases hs
    exact .inl ⟨rfl, rfl⟩
  | none =>
    refine .inr ⟨rfl, ?_⟩
    simp only [inlineOr, secretFor, noting, Providers.noting, World.ask, Step.zoom, Step.blame,
      Step.noting, World.noting] at h
    rcases hx : m.providers.secret info w.outside with ⟨_ | s, o⟩
    · rw [hx] at h
      exact absurd (Prod.mk.inj h).1 (by simp)
    · rw [hx] at h
      obtain ⟨hs, rfl⟩ := Prod.mk.inj h
      cases hs
      rfl

/-- So the secret was given by the recipient or by the provider. -/
theorem gave_of_inlineOr {info : LockInfo} {given : Option Bytes} {w : World σ}
    {w' : World (List Exchange × σ)} {secret : Bytes} {asked : List Exchange}
    (h : m.noting.inlineOr info given (w.noting []) = (.ok secret, w'))
    (hw : w'.outside.1 = asked) : Exchange.Gave asked info given secret := by
  rw [← hw]
  exact m.inlineOr_noting h

/-- A deposit that is noted. -/
theorem deposit_noting {remote : Remote σ} {server transaction : String} {request : Bytes}
    {w w' : World (List Exchange × σ)}
    (h : World.ask (Step.blame Error.network (remote.noting.deposit server request)) w
      = (.ok transaction, w')) :
    w'.outside.1 = w.outside.1 ++ [.deposit server request (.ok transaction)] := by
  simp only [World.ask, Step.zoom, Step.blame, Remote.noting, Step.noting] at h
  rcases hx : remote.deposit server request w.outside.2 with ⟨_ | t, o⟩
  · rw [hx] at h
    exact absurd (Prod.mk.inj h).1 (by simp)
  · rw [hx] at h
    obtain ⟨ht, rfl⟩ := Prod.mk.inj h
    cases ht
    rfl

/-- An agreement that was made is one with this recipient, by some ephemeral
key. -/
theorem agreeWith_ok {recipient sender key : Octets 32} {w w' : World σ}
    (h : m.agreeWith recipient w = (.ok (sender, key), w')) :
    WrapKey.Agreed m.suite recipient sender key ∧ w'.outside = w.outside := by
  obtain ⟨ephemeral, w₁, hdraw, hanswer⟩ := Step.bind_ok h
  obtain ⟨hkey, rfl⟩ := Step.answer_ok hanswer
  exact ⟨⟨ephemeral, Except.ok_of_mapError hkey⟩, World.draw_ok hdraw⟩

/-- What the preparation of a lock leaves behind. -/
theorem prepare_ok {info : LockInfo} {r : Recipient} {key : Octets 32} {c : Capsule} {w : World σ}
    {w' : World (List Exchange × σ)}
    (h : m.noting.prepare info r (w.noting []) = (.ok (key, c), w')) :
    c.Hides m.suite info key w'.outside.1 r ∧ c.type = r.type := by
  cases r with
  | password label given iterations =>
    obtain ⟨secret, w₁, hsecret, h₁⟩ := Step.bind_ok h
    obtain ⟨u, w₂, hcheck, h₂⟩ := Step.bind_ok h₁
    obtain ⟨salt, w₃, hsalt, h₃⟩ := Step.bind_ok h₂
    obtain ⟨pwSalt, w₄, hpw, h₄⟩ := Step.bind_ok h₃
    obtain ⟨k, w₅, hkey, h₅⟩ := Step.bind_ok h₄
    -- after the question for the secret, nobody is asked anything
    obtain ⟨hc, hw₂⟩ := Step.answer_ok hcheck
    obtain ⟨hk, hw₅⟩ := Step.answer_ok hkey
    obtain ⟨hout, hw'⟩ := Prod.mk.inj h₅
    cases hout
    have hlog : w₁.outside = w'.outside := by
      rw [← hw', hw₅, World.draw_ok hpw, World.draw_ok hsalt, hw₂]
    exact ⟨⟨secret, salt, pwSalt, _, rfl, Except.ok_of_mapError hc, Except.ok_of_mapError hk,
      m.gave_of_inlineOr hsecret (congrArg Prod.fst hlog)⟩, rfl⟩
  | symmetricKey label given =>
    obtain ⟨secret, w₁, hsecret, h₁⟩ := Step.bind_ok h
    by_cases hempty : secret = []
    · simp only [hempty, if_true] at h₁
      exact absurd (Prod.mk.inj h₁).1 (by simp)
    · simp only [hempty, if_false] at h₁
      obtain ⟨salt, w₂, hsalt, h₂⟩ := Step.bind_ok h₁
      obtain ⟨hout, hw'⟩ := Prod.mk.inj h₂
      cases hout
      have hlog : w₁.outside = w'.outside := by rw [← hw', World.draw_ok hsalt]
      exact ⟨⟨secret, salt, rfl, rfl, m.gave_of_inlineOr hsecret (congrArg Prod.fst hlog)⟩, rfl⟩
  | publicKey label recipient =>
    obtain ⟨⟨sender, k⟩, w₁, hagree, h₁⟩ := Step.bind_ok h
    obtain ⟨hout, hw'⟩ := Prod.mk.inj h₁
    cases hout
    obtain ⟨hagreed, hlog⟩ := m.noting.agreeWith_ok hagree
    exact ⟨⟨sender, rfl, hagreed, by rw [← hw', hlog]; rfl⟩, rfl⟩
  | certificate label certificate recipient =>
    obtain ⟨⟨sender, k⟩, w₁, hagree, h₁⟩ := Step.bind_ok h
    obtain ⟨hout, hw'⟩ := Prod.mk.inj h₁
    cases hout
    obtain ⟨hagreed, hlog⟩ := m.noting.agreeWith_ok hagree
    exact ⟨⟨sender, rfl, hagreed, by rw [← hw', hlog]; rfl⟩, rfl⟩
  | server label recipient serverId =>
    simp only [prepare, noting, Providers.noting] at h
    cases hr : m.providers.remote with
    | none =>
      rw [hr] at h
      exact absurd (Prod.mk.inj h).1 (by simp)
    | some remote =>
      rw [hr] at h
      cases hs : serverId <|> m.config.keyServer with
      | none =>
        simp only [hs, Option.map_some] at h
        exact absurd (Prod.mk.inj h).1 (by simp)
      | some server =>
        simp only [hs, Option.map_some] at h
        obtain ⟨⟨sender, k⟩, w₁, hagree, h₁⟩ := Step.bind_ok h
        obtain ⟨hagreed, hlog⟩ := m.noting.agreeWith_ok hagree
        obtain ⟨transaction, w₂, hdeposit, h₂⟩ := Step.bind_ok h₁
        obtain ⟨hout, hw'⟩ := Prod.mk.inj h₂
        cases hout
        refine ⟨⟨sender, server, transaction, rfl, hagreed, ?_⟩, rfl⟩
        rw [← hw', deposit_noting hdeposit, hlog]
        rfl

/-- **What the making of a lock leaves behind**: the master key under a key
that the capsule hides. -/
theorem wrap_ok {index : Nat} {r : Recipient} {fmk : Fmk} {w w' : World σ} {lock : Lock}
    (h : m.wrap index r fmk w = (.ok lock, w')) :
    lock.info = ⟨index, r.type, r.label⟩ ∧ ∃ key,
      lock.wrapped = m.suite.encrypt key lock.nonce (Lock.context r.type r.label) fmk.key.val ∧
      lock.capsule.Hides m.suite lock.info key (m.asked index r fmk w) r := by
  have hnoting := m.wrap_noting index r fmk w
  rw [h] at hnoting
  obtain ⟨⟨key, c⟩, w₁, hprepare, h₁⟩ := Step.bind_ok hnoting
  obtain ⟨nonce, w₂, hnonce, h₂⟩ := Step.bind_ok h₁
  obtain ⟨hlock, hw₂⟩ := Prod.mk.inj h₂
  cases hlock
  obtain ⟨hhides, htype⟩ := m.prepare_ok hprepare
  have hlog : w₁.outside.1 = m.asked index r fmk w := by
    rw [← World.draw_ok hnonce, hw₂]
    rfl
  rw [hlog] at hhides
  have hinfo : (⟨index, r.label, nonce, m.noting.suite.encrypt key nonce
      (Lock.context r.type r.label) fmk.key.val, c⟩ : Lock).info = ⟨index, r.type, r.label⟩ := by
    rw [Lock.info, Lock.type, htype]
  exact ⟨hinfo, key, rfl, by rw [hinfo]; exact hhides⟩

end Locksmith

/-- Readers take the capsule of a lock that was made. -/
theorem Capsule.Hides.check {S : Suite} {c : Capsule} {info : LockInfo} {key : Octets 32}
    {asked : List Exchange} {r : Recipient} (h : c.Hides S info key asked r) :
    c.check = .ok () := by
  cases r with
  | password =>
    obtain ⟨secret, salt, pwSalt, n, rfl, hcheck, -⟩ := h
    exact hcheck
  | symmetricKey =>
    obtain ⟨secret, salt, rfl, -⟩ := h
    rfl
  | publicKey =>
    obtain ⟨sender, rfl, -⟩ := h
    rfl
  | certificate =>
    obtain ⟨sender, rfl, -⟩ := h
    rfl
  | server =>
    obtain ⟨sender, server, transaction, rfl, -⟩ := h
    rfl

/-! ## Opening a lock

Each kind of capsule is opened in its own way, and the key that is found is
the one that was hidden, because both sides derive it from the same data. -/

namespace Providers

variable {σ : Type}

/-- The provider of secrets has the private key of a recipient. -/
def HasPrivate (S : Suite) (p : Providers σ) (o : σ) (info : LockInfo) (recipient : Octets 32) :
    Prop :=
  ∃ secret : Octets 32, (p.secret info o).1 = .ok secret.val ∧ S.publicKey secret = recipient

/-- The provider of secrets has the secret that a lock was made with:
the one that the recipient brought along, or else the one that was the
answer when it was asked for. -/
def HasShared (p : Providers σ) (o : σ) (info : LockInfo) (given : Option Bytes)
    (asked : List Exchange) : Prop :=
  ∃ secret, (p.secret info o).1 = .ok secret ∧
    (given = some secret ∨ given = .none ∧ ∃ i, Exchange.secret i (.ok secret) ∈ asked)

/-- **The providers, in this state, can answer for a recipient** to whom a
lock was made: they have the secret, where a certificate is wanted it is
among those at hand, and where a server keeps a key it returns what it was
given. -/
def Serve (S : Suite) (p : Providers σ) (o : σ) (info : LockInfo) (asked : List Exchange) :
    Recipient → Prop
  | .password _ given _ | .symmetricKey _ given => p.HasShared o info given asked
  | .publicKey _ recipient => p.HasPrivate S o info recipient
  | .certificate _ certificate recipient => ∃ remote certificates o', p.remote = some remote ∧
      remote.certificates o = (.ok certificates, o') ∧ certificate ∈ certificates ∧
      p.HasPrivate S o' info recipient
  | .server _ recipient _ => ∃ remote, p.remote = some remote ∧
      ∀ server transaction sender,
        Exchange.deposit server (Locksmith.depositRequest recipient sender) (.ok transaction) ∈ asked →
        ∃ o', remote.release info.index (Locksmith.releaseRequest server transaction) o
            = (.ok sender.val, o') ∧ p.HasPrivate S o' info recipient

/-- The secret is the one that the lock was made with. -/
theorem HasShared.eq {p : Providers σ} {o : σ} {info : LockInfo} {given : Option Bytes}
    {asked : List Exchange} {secret : Bytes} (h : p.HasShared o info given asked)
    (hgave : Exchange.Gave asked info given secret) : (p.secret info o).1 = .ok secret := by
  obtain ⟨s, hs, hsame⟩ := h
  rcases hgave with ⟨rfl, rfl⟩ | ⟨rfl, rfl⟩
  · rcases hsame with h | ⟨h, -⟩
    · cases h
      exact hs
    · exact absurd h (by simp)
  · rcases hsame with h | ⟨-, i, h⟩
    · exact absurd h (by simp)
    · simp only [List.mem_singleton, Exchange.secret.injEq, Except.ok.injEq] at h
      rw [hs, h.2]

end Providers

/-- The recipient leaves it to the provider to have the secret. -/
def Recipient.leavesOut : Recipient → Bool
  | .password _ none _ | .symmetricKey _ none => true
  | _ => false

/-- **Whoever gives the answer that was given before can answer for a
recipient who left the secret out.** -/
theorem Capsule.Hides.serve {σ : Type} {S : Suite} {c : Capsule} {info : LockInfo}
    {key : Octets 32} {asked : List Exchange} {r : Recipient} {p : Providers σ} {o : σ}
    (h : c.Hides S info key asked r) (hr : r.leavesOut = true)
    (hp : ∀ answer, .secret info answer ∈ asked → (p.secret info o).1 = answer) :
    p.Serve S o info asked r := by
  have hshared : ∀ {secret}, Exchange.Gave asked info none secret →
      p.HasShared o info none asked := by
    rintro secret (⟨hgiven, -⟩ | ⟨-, hasked⟩)
    · exact absurd hgiven (by simp)
    · have hmem : Exchange.secret info (.ok secret) ∈ asked := by
        rw [hasked]
        exact List.mem_singleton_self _
      exact ⟨secret, hp _ hmem, .inr ⟨rfl, info, hmem⟩⟩
  cases r with
  | password label given =>
    cases given with
    | some secret => exact absurd hr (by simp [Recipient.leavesOut])
    | none =>
      obtain ⟨secret, salt, pwSalt, n, -, -, -, hgave⟩ := h
      exact hshared hgave
  | symmetricKey label given =>
    cases given with
    | some secret => exact absurd hr (by simp [Recipient.leavesOut])
    | none =>
      obtain ⟨secret, salt, -, -, hgave⟩ := h
      exact hshared hgave
  | publicKey => exact absurd hr (by simp [Recipient.leavesOut])
  | certificate => exact absurd hr (by simp [Recipient.leavesOut])
  | server => exact absurd hr (by simp [Recipient.leavesOut])

/-- Whoever has the private key of the recipient agrees on the same key. -/
theorem WrapKey.Agreed.ofPrivate? {S : Suite} (hd : S.AgreesBothWays)
    {recipient sender key secret : Octets 32} (h : WrapKey.Agreed S recipient sender key)
    (hsecret : S.publicKey secret = recipient) :
    WrapKey.ofPrivate? S secret.val recipient sender = some key := by
  obtain ⟨ephemeral, hephemeral⟩ := h
  -- the sender agreed on something, so the recipient does, and on the same
  unfold WrapKey.ofEphemeral at hephemeral
  dsimp only at hephemeral
  split at hephemeral
  · rename_i k hk
    cases hephemeral
    subst hsecret
    have hagree := hd ephemeral secret
    simp [WrapKey.ofPrivate?, ← hagree, hk]
  · exact absurd hephemeral (by simp)

namespace Locksmith

variable {σ τ : Type} {m : Locksmith σ}

/-- Whoever asks a provider that has the secret is given it. -/
theorem secretFor_of_ok {info : LockInfo} {w : World σ} {secret : Bytes}
    (h : (m.providers.secret info w.outside).1 = .ok secret) :
    ∃ w', m.secretFor info w = (.ok secret, w') := by
  rcases hx : m.providers.secret info w.outside with ⟨result, o⟩
  rw [hx] at h
  cases h
  exact ⟨{ w with outside := o }, by simp [secretFor, World.ask, Step.zoom, Step.blame, hx]⟩

/-- The key that was agreed on is found with the private key. -/
theorem agreedKey_of_hasPrivate (hd : m.suite.AgreesBothWays) {lock : Lock}
    {recipient sender key : Octets 32} {w : World σ}
    (hagreed : WrapKey.Agreed m.suite recipient sender key)
    (hp : m.providers.HasPrivate m.suite w.outside lock.info recipient) :
    ∃ w', (m.secretFor lock.info >>= fun secret =>
      m.agreedKey lock.index secret recipient sender) w = (.ok key, w') := by
  obtain ⟨secret, hsecret, hkey⟩ := hp
  obtain ⟨w', hw'⟩ := secretFor_of_ok hsecret
  refine ⟨w', ?_⟩
  rw [Step.bind_of_ok hw', agreedKey, hagreed.ofPrivate? hd hkey]
  rfl

/-- **Whoever can answer for the recipient finds the wrapping key.** -/
theorem recover_of_hides (hd : m.suite.AgreesBothWays) {lock : Lock} {r : Recipient}
    {key : Octets 32} {asked : List Exchange} {w : World σ} (hlabel : lock.label = r.label)
    (h : lock.capsule.Hides m.suite lock.info key asked r)
    (hp : m.providers.Serve m.suite w.outside lock.info asked r) :
    ∃ w', m.recover lock w = (.ok key, w') := by
  cases r with
  | password label given iterations =>
    obtain ⟨secret, salt, pwSalt, n, hc, hcheck, hkey, hgave⟩ := h
    obtain ⟨w', hw'⟩ := secretFor_of_ok (hp.eq hgave)
    have hlabel : lock.label = label := hlabel
    refine ⟨w', ?_⟩
    simp only [recover, hc, hcheck]
    rw [Step.bind_of_ok (x := Step.answer (Except.mapError _ (.ok ()))) rfl,
      Step.bind_of_ok hw', hlabel, hkey]
    rfl
  | symmetricKey label given =>
    obtain ⟨secret, salt, hc, hkey, hgave⟩ := h
    obtain ⟨w', hw'⟩ := secretFor_of_ok (hp.eq hgave)
    have hlabel : lock.label = label := hlabel
    refine ⟨w', ?_⟩
    simp only [recover, hc]
    rw [Step.bind_of_ok hw', hlabel, hkey]
    rfl
  | publicKey label recipient =>
    obtain ⟨sender, hc, hagreed, -⟩ := h
    simp only [recover, hc]
    exact agreedKey_of_hasPrivate hd hagreed hp
  | certificate label certificate recipient =>
    obtain ⟨sender, hc, hagreed, -⟩ := h
    obtain ⟨remote, certificates, o', hremote, hlist, hmem, hprivate⟩ := hp
    have hask : World.ask (Step.blame Error.network remote.certificates) w
        = (.ok certificates, { w with outside := o' }) := by
      simp [World.ask, Step.zoom, Step.blame, hlist]
    -- a certificate with the same bytes has the same fingerprint
    have hfound : certificates.any (fun c => m.suite.hash c = m.suite.hash certificate) = true :=
      List.any_eq_true.mpr ⟨certificate, hmem, decide_eq_true rfl⟩
    obtain ⟨w', hw'⟩ := agreedKey_of_hasPrivate (w := { w with outside := o' }) hd hagreed hprivate
    refine ⟨w', ?_⟩
    simp only [recover, hc, hremote]
    rw [Step.bind_of_ok hask, if_pos hfound]
    exact hw'
  | server label recipient serverId =>
    obtain ⟨sender, server, transaction, hc, hagreed, hasked⟩ := h
    obtain ⟨remote, hremote, hreturn⟩ := hp
    obtain ⟨o', hrelease, hprivate⟩ :=
      hreturn server transaction sender (by rw [hasked]; exact List.mem_singleton_self _)
    have hask : World.ask (Step.blame Error.network
        (remote.release lock.index (releaseRequest server transaction))) w
        = (.ok sender.val, { w with outside := o' }) := by
      have hrelease : remote.release lock.index (releaseRequest server transaction) w.outside
          = (.ok sender.val, o') := hrelease
      simp [World.ask, Step.zoom, Step.blame, hrelease]
    obtain ⟨w', hw'⟩ := agreedKey_of_hasPrivate (w := { w with outside := o' }) hd hagreed hprivate
    refine ⟨w', ?_⟩
    simp only [recover, hc, hremote]
    rw [Step.bind_of_ok hask]
    simp only [Octets.ofBytes?_val]
    exact hw'

/-- Opening a lock undoes making it, whoever opens it, if the providers
can answer for the recipient. -/
theorem unwrap_wrap {reader : Locksmith τ} {index : Nat} {r : Recipient} {fmk : Fmk}
    {w w' : World σ} {v : World τ} {lock : Lock} (hsuite : reader.suite = m.suite)
    (hs : m.suite.OpensSealed) (hd : m.suite.AgreesBothWays)
    (h : m.wrap index r fmk w = (.ok lock, w'))
    (hp : reader.providers.Serve reader.suite v.outside lock.info (m.asked index r fmk w) r) :
    ∃ v', reader.unwrap lock v = (.ok fmk, v') := by
  obtain ⟨hinfo, key, hwrapped, hhides⟩ := m.wrap_ok h
  have hlabel : lock.label = r.label := congrArg LockInfo.label hinfo
  have htype : lock.type = r.type := congrArg LockInfo.type hinfo
  rw [← hsuite] at hs hd hwrapped hhides
  obtain ⟨v', hv'⟩ := recover_of_hides hd hlabel hhides hp
  refine ⟨v', ?_⟩
  have hopen := hs key lock.nonce (Lock.context r.type r.label) fmk.key.val
  rw [unwrap, Step.bind_of_ok hv', htype, hlabel, hwrapped, hopen]
  simp only [Fmk.ofBytes_val]
  rfl

end Locksmith

end Lockbox
