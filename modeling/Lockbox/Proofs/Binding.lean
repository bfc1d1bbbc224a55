import Lockbox.Proofs.AllAtOnce
import Lockbox.Proofs.Course
/-!
# Lockbox — what a lock is bound to

The master key is sealed in a lock together with the kind and the label of
the lock, and what it is sealed with tells the two apart
(`Lock.context_injective`). If the cipher opens nothing but what was sealed,
then whatever is made of a lock, it opens to the master key that was put
in, or to none: a secret that leads to another key, or to no key at all,
is a wrong secret.
-/

namespace Lockbox

/-! ## The context of a lock

The context is the type, a zero byte and the label. No type has a zero byte
in its name, so a context comes from one type and one label only. -/

namespace LockType

/-- The kinds have different names. -/
theorem name_injective {t t' : LockType} (h : t.name = t'.name) : t = t' := by
  revert h
  cases t <;> cases t' <;> decide

/-- No name has a zero in it. -/
theorem zero_notMem_name (t : LockType) : (0 : UInt8) ∉ Bytes.ofText t.name := by
  cases t <;> decide

end LockType

/-- Where neither beginning has a zero in it, the first zero ends both. -/
theorem Bytes.append_zero_inj {a a' b b' : Bytes} (ha : 0 ∉ a) (ha' : 0 ∉ a')
    (h : a ++ 0 :: b = a' ++ 0 :: b') : a = a' ∧ b = b' := by
  obtain ⟨c, rfl, hc⟩ | ⟨c, rfl, hc⟩ := List.append_eq_append_iff.mp h
  · cases c with
    | nil => exact ⟨(List.append_nil a).symm, (List.cons.inj hc).2⟩
    | cons x c =>
      obtain ⟨rfl, -⟩ := List.cons.inj hc
      exact absurd (by simp) ha'
  · cases c with
    | nil => exact ⟨List.append_nil a', (List.cons.inj hc).2.symm⟩
    | cons x c =>
      obtain ⟨rfl, -⟩ := List.cons.inj hc
      exact absurd (by simp) ha

/-- **Locks of another kind or another label are sealed in another context.** -/
theorem Lock.context_injective {t t' : LockType} {l l' : String}
    (h : Lock.context t l = Lock.context t' l') : t = t' ∧ l = l' := by
  -- a label may have zeros in it, but a name has none
  obtain ⟨hname, hlabel⟩ := Bytes.append_zero_inj (LockType.zero_notMem_name t)
    (LockType.zero_notMem_name t') h
  exact ⟨LockType.name_injective (Bytes.ofText_injective hname), Bytes.ofText_injective hlabel⟩

/-! ## What the cipher opens

A cipher that opens what it sealed may open other things as well; that it
does not, for one key and one context, is what the theorem assumes of it,
and nothing else. -/

/-- The cipher opens nothing but what was sealed here. -/
def Suite.OpensOnly (S : Suite) (key : Octets 32) (nonce : Octets 24) (context msg : Bytes) : Prop :=
  ∀ k n a c plain, S.decrypt? k n a c = some plain →
    k = key ∧ n = nonce ∧ a = context ∧ c = S.encrypt key nonce context msg ∧ plain = msg

/-- The two locks agree in all that the master key is bound to. -/
structure Lock.SameSeal (lock lock' : Lock) : Prop where
  label : lock.label = lock'.label
  type : lock.type = lock'.type
  nonce : lock.nonce = lock'.nonce
  wrapped : lock.wrapped = lock'.wrapped

/-- The secret is not the private key of the recipient, or nothing is agreed
on with the sender. -/
def Derivation.Misfits (S : Suite) (secret : Bytes) : Derivation → Prop
  | .agreed recipient sender => secret.length ≠ 32 ∨ ∃ key : Octets 32, key.val = secret ∧
      (S.publicKey key ≠ recipient ∨ S.agree key sender = .zero 32)
  | _ => False

/-- A secret that misfits leads to no key. -/
theorem Derivation.Misfits.key? {S : Suite} {d : Derivation} {secret : Bytes}
    (h : d.Misfits S secret) (label : String) : d.key? S label secret = none := by
  cases d with
  | stretched salt pwSalt n => exact h.elim
  | shared salt => exact h.elim
  | agreed recipient sender =>
    simp only [Derivation.key?, WrapKey.ofPrivate?]
    obtain hlen | ⟨key, rfl, hforeign | hzero⟩ := h
    · rw [Octets.ofBytes?, dif_neg hlen]
      rfl
    · simp [hforeign]
    · simp [WrapKey.ofShared?, hzero]

namespace Lock

variable {S : Suite} {lock : Lock} {kek key : Octets 32} {fmk : Fmk}

/-- Under the wrapping key the lock opens to the master key, as does every
lock that has the same seal; any other key or any other seal is wrong. -/
theorem openUnder_cases (honly : S.OpensOnly kek lock.nonce (context lock.type lock.label)
      fmk.key.val)
    (hwrapped : lock.wrapped = S.encrypt kek lock.nonce (context lock.type lock.label) fmk.key.val)
    (lock' : Lock) (key : Octets 32) :
    (lock'.openUnder S key = .ok fmk ∧ key = kek ∧ lock'.SameSeal lock) ∨
      lock'.openUnder S key = .error (.lock lock'.index .wrongSecret) := by
  unfold openUnder
  cases h : S.decrypt? key lock'.nonce (context lock'.type lock'.label) lock'.wrapped with
  | none => exact .inr rfl
  | some plain =>
    obtain ⟨hkey, hnonce, hcontext, hsealed, rfl⟩ := honly _ _ _ _ _ h
    obtain ⟨htype, hlabel⟩ := context_injective hcontext
    refine .inl ⟨?_, hkey, hlabel, htype, hnonce, hsealed.trans hwrapped.symm⟩
    simp only [Fmk.ofBytes_val]
    rfl

/-- A secret that no key can be derived from is the wrong one. -/
theorem openWith_of_none {d : Derivation} {secret : Bytes} (h : d.key? S lock.label secret = none) :
    lock.openWith S d secret = .error (.lock lock.index .wrongSecret) := by
  rw [openWith, h]

/-- Any other is tried as its key is. -/
theorem openWith_of_some {d : Derivation} {secret : Bytes}
    (h : d.key? S lock.label secret = some key) :
    lock.openWith S d secret = lock.openUnder S key := by
  rw [openWith, h]

end Lock

namespace Locksmith

variable {σ : Type} {m : Locksmith σ}

/-- A lock that was made wraps the master key under the key that was
prepared. -/
theorem wrapped_of_wrap {index : Nat} {r : Recipient} {fmk : Fmk} {w w₁ w' : World σ}
    {kek : Octets 32} {capsule : Capsule} {lock : Lock}
    (hprepare : m.prepare ⟨index, r.type, r.label⟩ r w = (.ok (kek, capsule), w₁))
    (hwrap : m.wrap index r fmk w = (.ok lock, w')) :
    lock.wrapped = m.suite.encrypt kek lock.nonce (Lock.context r.type r.label) fmk.key.val := by
  obtain ⟨⟨key, c⟩, w₂, hprepare', h⟩ := Step.bind_ok hwrap
  cases hprepare.symm.trans hprepare'
  obtain ⟨nonce, w₃, -, h⟩ := Step.bind_ok h
  cases (Prod.mk.inj h).1
  rfl

end Locksmith

/-- **A lock opens to what was put in, or to nothing.** Suppose that the
cipher opens nothing but what was sealed when a lock was made. Then whatever
lock there is, made of that one or not, and whatever the providers answer:
it opens only to the master key that was put in, and only if it agrees with
the lock that was made in its label, its kind, its nonce and the wrapped key.
If a secret is to be had, then it opens so or the secret is wrong; and wrong is
each secret that leads to another wrapping key, that is not the private key of
the recipient, or by which nothing is agreed on. -/
theorem lock_opens_as_sealed {σ τ : Type} {m : Locksmith σ} {reader : Locksmith τ}
    (hsuite : reader.suite = m.suite) {index : Nat} {r : Recipient} {fmk : Fmk}
    {w w₁ w' : World σ} {kek : Octets 32} {capsule : Capsule} {lock : Lock}
    (hprepare : m.prepare ⟨index, r.type, r.label⟩ r w = (.ok (kek, capsule), w₁))
    (hwrap : m.wrap index r fmk w = (.ok lock, w'))
    (honly : m.suite.OpensOnly kek lock.nonce (Lock.context r.type r.label) fmk.key.val)
    (lock' : Lock) (v : World τ) :
    (∀ fmk', (reader.unwrap lock' v).1 = .ok fmk' → fmk' = fmk ∧ lock'.SameSeal lock) ∧
    ∀ secret, .secret lock'.info (.ok secret) ∈ reader.consulted lock' v →
      ∃ d, lock'.derivation? (reader.consulted lock' v) = some d ∧
        ((reader.unwrap lock' v).1 = .ok fmk ∧ d.key? m.suite lock'.label secret = some kek ∧
            lock'.SameSeal lock ∨
          (reader.unwrap lock' v).1 = .error (.lock lock'.index .wrongSecret)) ∧
        (d.key? m.suite lock'.label secret ≠ some kek ∨ d.Misfits m.suite secret →
          (reader.unwrap lock' v).1 = .error (.lock lock'.index .wrongSecret)) := by
  obtain ⟨hinfo, -⟩ := m.wrap_ok hwrap
  have htype : lock.type = r.type := congrArg LockInfo.type hinfo
  have hlabel : lock.label = r.label := congrArg LockInfo.label hinfo
  have hwrapped := Locksmith.wrapped_of_wrap hprepare hwrap
  rw [← htype, ← hlabel] at honly hwrapped
  -- with a secret, the opening comes to the master key or to a wrong secret
  have hcases : ∀ d secret, lock'.openWith m.suite d secret = .ok fmk ∧
      d.key? m.suite lock'.label secret = some kek ∧ lock'.SameSeal lock ∨
      lock'.openWith m.suite d secret = .error (.lock lock'.index .wrongSecret) := by
    intro d secret
    cases hkey : d.key? m.suite lock'.label secret with
    | none => exact .inr (Lock.openWith_of_none hkey)
    | some key =>
      rw [Lock.openWith_of_some hkey]
      obtain ⟨hopen, rfl, hsame⟩ | hwrong := Lock.openUnder_cases honly hwrapped lock' key
      · exact .inl ⟨hopen, rfl, hsame⟩
      · exact .inr hwrong
  rw [← hsuite] at hcases ⊢
  constructor
  · intro fmk' hok
    obtain ⟨secret, hsecret⟩ := Locksmith.secret_of_unwrap hok
    obtain ⟨d, -, hresult⟩ := Locksmith.unwrap_of_secret hsecret
    obtain ⟨hopen, -, hsame⟩ | hwrong := hcases d secret
    · cases hok.symm.trans (hresult.trans hopen)
      exact ⟨rfl, hsame⟩
    · cases hok.symm.trans (hresult.trans hwrong)
  · intro secret hsecret
    obtain ⟨d, hd, hresult⟩ := Locksmith.unwrap_of_secret hsecret
    rw [hresult]
    refine ⟨d, hd, hcases d secret, fun hother => ?_⟩
    obtain ⟨-, hkey, -⟩ | hwrong := hcases d secret
    · -- it led to the wrapping key, so it neither led elsewhere nor misfits
      obtain hne | hmisfits := hother
      · exact absurd hkey hne
      · exact absurd (hkey.symm.trans (hmisfits.key? _)) (by simp)
    · exact hwrong

/-- The same suite, but that its cipher opens one message only. -/
def Suite.openingOnly (S : Suite) (key : Octets 32) (nonce : Octets 24) (context msg : Bytes) :
    Suite :=
  { S with
    decrypt? := fun k n a c =>
      if k = key ∧ n = nonce ∧ a = context ∧ c = S.encrypt key nonce context msg then
        S.decrypt? k n a c
      else none }

theorem Suite.OpensSealed.openingOnly {S : Suite} (h : S.OpensSealed) (key : Octets 32)
    (nonce : Octets 24) (context msg : Bytes) :
    (S.openingOnly key nonce context msg).OpensOnly key nonce context msg := by
  intro k n a c plain hopen
  simp only [Suite.openingOnly] at hopen
  split at hopen
  · rename_i hsame
    obtain ⟨rfl, rfl, rfl, rfl⟩ := hsame
    rw [h] at hopen
    exact ⟨rfl, rfl, rfl, rfl, (Option.some.inj hopen).symm⟩
  · cases hopen

/-- A lock for a key of one byte opens. With another label it does not, and
as a lock for a public key it has the byte for a wrong secret. -/
theorem oneByte_lock_opens_as_sealed : ∃ (m : Locksmith Unit) (fmk : Fmk) (lock : Lock)
    (w w' : World Unit), m.wrap 0 (.symmetricKey "key" (some [1])) fmk w = (.ok lock, w') ∧
      (m.unwrap lock w).1 = .ok fmk ∧
      (∀ fmk', (m.unwrap { lock with label := "other" } w).1 ≠ .ok fmk') ∧
      (m.unwrap { lock with index := 7, capsule := .publicKey (.zero 32) (.zero 32) } w).1
        = .error (.lock 7 .wrongSecret) := by
  let w : World Unit := ⟨.splitMix 1, ()⟩
  let salt : Octets 32 := (w.entropy.draw 32).1
  let nonce : Octets 24 := ((w.entropy.draw 32).2.draw 24).1
  let kek : Octets 32 := WrapKey.ofKey .plain [1] salt "key"
  let fmk : Fmk := ⟨.zero 32⟩
  let S : Suite := Suite.plain.openingOnly kek nonce (Lock.context .symmetricKey "key") fmk.key.val
  let m : Locksmith Unit := ⟨S, .default, ⟨fun _ => Step.answer (.ok [1]), none⟩⟩
  let lock : Lock := ⟨0, "key", nonce,
    S.encrypt kek nonce (Lock.context .symmetricKey "key") fmk.key.val, .symmetricKey salt⟩
  have honly := Suite.plain_opensSealed.openingOnly kek nonce (Lock.context .symmetricKey "key")
    fmk.key.val
  have hprepare : m.prepare ⟨0, .symmetricKey, "key"⟩ (.symmetricKey "key" (some [1])) w
      = (.ok (kek, .symmetricKey salt), { w with entropy := (w.entropy.draw 32).2 }) := rfl
  have hwrap : m.wrap 0 (.symmetricKey "key" (some [1])) fmk w
      = (.ok lock, { w with entropy := ((w.entropy.draw 32).2.draw 24).2 }) := rfl
  have hopens := lock_opens_as_sealed (rfl : m.suite = m.suite) hprepare hwrap honly
  refine ⟨m, fmk, lock, w, _, hwrap, ?_, fun fmk' hok => ?_, ?_⟩
  · have hopen : S.decrypt? kek lock.nonce (Lock.context lock.type lock.label) lock.wrapped
        = some fmk.key.val :=
      (if_pos ⟨rfl, rfl, rfl, rfl⟩).trans (Suite.plain_opensSealed _ _ _ _)
    rw [Locksmith.unwrap_eq]
    show lock.openUnder S kek = .ok fmk
    rw [Lock.openUnder, hopen]
    simp only [Fmk.ofBytes_val]
    rfl
  · have hlabel := ((hopens _ w).1 fmk' hok).2.label
    exact absurd hlabel (by decide)
  · obtain ⟨d, hd, -, hwrong⟩ := (hopens
      { lock with index := 7, capsule := .publicKey (.zero 32) (.zero 32) } w).2 [1] (by
        rw [Locksmith.consulted_eq]
        exact List.mem_singleton_self _)
    rw [Locksmith.consulted_eq] at hd
    cases hd
    exact hwrong (.inr (.inl (by decide)))

end Lockbox
