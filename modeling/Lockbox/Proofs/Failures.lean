import Lockbox.Proofs.Forward
import Lockbox.Proofs.Leniency
/-!
# Lockbox — what an operation that reads may fail with

A container may be any byte string and a provider may answer anything, and
still each operation of a session that reads fails in a few ways only. To
parse the head is to fail for what stands there or for its version. A lock
fails for itself or for the network, and for its key in one way only, after
it has been opened (`Locksmith.unwrap_error`): what the iterations of a
password may be was looked at when the head was read. Whatever is wrong with
a frame is a failure of integrity (`Payload.Damaged`), and what is refused
for want of order reads nothing.
-/

namespace Lockbox

/-! ## Steps

The kinds of failure are followed through the steps of an operation. A kind
is a predicate, so that the lemmas on binding and blaming serve for all of
them. -/

/-- All failures of a step are of this kind. -/
def Step.FailsWith {ε s α : Type} (P : ε → Prop) (x : Step ε s α) : Prop :=
  ∀ w e w', x w = (.error e, w') → P e

namespace Step

variable {ε ε' s α β : Type} {P : ε → Prop}

theorem FailsWith.pure (a : α) : (pure a : Step ε s α).FailsWith P := by
  intro w e w' h
  exact absurd (Prod.mk.inj h).1 (by simp)

theorem FailsWith.fail {e : ε} (h : P e) : (fail e : Step ε s α).FailsWith P := by
  intro w e' w' hfails
  cases hfails
  exact h

/-- A plain answer fails with what it says. -/
theorem FailsWith.answer {r : Except ε α} (h : ∀ e, r = .error e → P e) :
    (answer r : Step ε s α).FailsWith P := by
  intro w e w' hfails
  exact h e (Prod.mk.inj hfails).1

/-- Of two steps the first one fails or the second one. -/
theorem FailsWith.bind {x : Step ε s α} {f : α → Step ε s β} (hx : x.FailsWith P)
    (hf : ∀ a, (f a).FailsWith P) : (x >>= f).FailsWith P := by
  intro w e w' h
  rw [bind_apply] at h
  rcases hw : x w with ⟨e' | a, w₁⟩
  · rw [hw] at h
    cases h
    exact hx w e _ hw
  · rw [hw] at h
    exact hf a w₁ e w' h

/-- Failures that are all translated into the kind are of it. -/
theorem FailsWith.blame (f : ε → ε') (x : Step ε s α) {P : ε' → Prop} (h : ∀ e, P (f e)) :
    (x.blame f).FailsWith P := by
  intro w e w' hfails
  unfold Step.blame at hfails
  rcases hw : x w with ⟨e' | a, w₁⟩
  · rw [hw] at hfails
    cases hfails
    exact h e'
  · rw [hw] at hfails
    exact absurd (Prod.mk.inj hfails).1 (by simp)

/-- Asking fails as the question does. -/
theorem FailsWith.ask {question : Step ε s α} (h : question.FailsWith P) :
    (World.ask question).FailsWith P := by
  intro w e w' hfails
  unfold World.ask zoom at hfails
  rcases hw : question w.outside with ⟨r, outside⟩
  rw [hw] at hfails
  obtain ⟨rfl, -⟩ := Prod.mk.inj hfails
  exact h w.outside e outside hw

end Step

/-! ## Heads

A head is read in five steps, each with failures of its own, and all of them
of parsing but one: a preamble of another version says so. -/

namespace ParsedHeader

/-- A part of a head fails only because the source ends before it does. -/
theorem take_error {source source' : Source} (h : source.Steady) {part : HeadPart} {n : Nat}
    {e : Error} (ht : take part n source = (.error e, source')) :
    e = .parse (.truncated part) := by
  by_cases hn : n ≤ source.contents.length
  · obtain ⟨rest, htake, -⟩ := take_of_le h part hn
    rw [htake] at ht
    exact absurd (Prod.mk.inj ht).1 (by simp)
  · rw [take_of_lt h part (Nat.lt_of_not_le hn)] at ht
    cases ht
    rfl

/-- A preamble is malformed or of another version. -/
theorem readPreamble_error {preamble : Bytes} {e : Error} (h : readPreamble preamble = .error e) :
    (∃ f, e = .parse f) ∨ ∃ v, e = .unsupportedVersion v := by
  unfold readPreamble at h
  split at h
  · rename_i version flags written _
    dsimp only at h
    split at h
    · cases h
      exact .inl ⟨_, rfl⟩
    · split at h
      · cases h
        exact .inr ⟨_, rfl⟩
      · split at h
        · cases h
          exact .inl ⟨_, rfl⟩
        · split at h
          · cases h
            exact .inl ⟨_, rfl⟩
          · exact absurd h (by simp)
  · cases h
    exact .inl ⟨_, rfl⟩

/-- **A head that cannot be read** is none, or is of another version. -/
theorem read_error {lenient : Bool} {source source' : Source} (h : source.Steady) {e : Error}
    (hr : read lenient source = (.error e, source')) :
    (∃ f, e = .parse f) ∨ ∃ v, e = .unsupportedVersion v := by
  unfold read at hr
  split at hr
  · rename_i e' source₁ htake
    obtain ⟨he, -⟩ := Prod.mk.inj hr
    cases he
    exact .inl ⟨_, take_error h htake⟩
  · rename_i preamble source₁ hpreamble
    have hsteady₁ := (take_ok hpreamble).2.2 h
    split at hr
    · rename_i e' hfields
      cases hr
      exact readPreamble_error hfields
    · split at hr
      · rename_i e' source₂ htake
        obtain ⟨he, -⟩ := Prod.mk.inj hr
        cases he
        exact .inl ⟨_, take_error hsteady₁ htake⟩
      · rename_i json source₂ hjson
        have hsteady₂ := (take_ok hjson).2.2 hsteady₁
        split at hr
        · rename_i e' source₃ htake
          obtain ⟨he, -⟩ := Prod.mk.inj hr
          cases he
          exact .inl ⟨_, take_error hsteady₂ htake⟩
        · split at hr
          · cases hr
            exact .inl ⟨_, rfl⟩
          · exact absurd (Prod.mk.inj hr).1 (by simp)

/-- **Readers take the capsule of every lock of a head.** -/
theorem check_of_lock? {lenient : Bool} {source rest : Source} {p : ParsedHeader}
    (h : read lenient source = (.ok p, rest)) {index : Nat} {lock : Lock}
    (hlock : p.lock? index = some lock) : lock.index = index ∧ lock.capsule.check = .ok () := by
  obtain ⟨entries, -, hlocks, -⟩ := read_lists h
  rw [lock?_eq hlocks] at hlock
  exact (Table.lockAt?_some hlock).2

end ParsedHeader

/-! ## Locks

What a lock fails with is a failure of its own or of the network. The one exception is a
wrapped key that opens, but to something of another length. -/

namespace Locksmith

variable {σ : Type} {m : Locksmith σ} {lock : Lock} {w w' : World σ} {e : Error}

/-- What the lock itself or the network is to blame for. -/
def Blamed (index : Nat) (e : Error) : Prop := (∃ f, e = .lock index f) ∨ ∃ f, e = .network f

/-- A provider that has no secret is blamed under the index of the lock. -/
theorem failsWith_secretFor (m : Locksmith σ) (info : LockInfo) :
    (m.secretFor info).FailsWith (Blamed info.index) :=
  .ask (.blame _ _ fun f => .inl ⟨f, rfl⟩)

/-- A private key that does not fit is blamed there, too. -/
theorem failsWith_agreedKey (m : Locksmith σ) (index : Nat) (secret : Bytes)
    (recipient sender : Octets 32) :
    (m.agreedKey index secret recipient sender).FailsWith (Blamed index) := by
  unfold agreedKey
  split
  · exact .pure _
  · exact .fail (.inl ⟨_, rfl⟩)

/-- **The wrapping key of a lock** that readers took is missed for the lock
or for the network. -/
theorem failsWith_recover (m : Locksmith σ) (hcheck : lock.capsule.check = .ok ()) :
    (m.recover lock).FailsWith (Blamed lock.index) := by
  have hsecret : (m.secretFor lock.info).FailsWith (Blamed lock.index) :=
    m.failsWith_secretFor lock.info
  unfold recover
  split
  · rename_i salt pwSalt iterations hcapsule
    rw [hcapsule] at hcheck
    have hcount : checkIterations iterations = .ok () := hcheck
    have hsome : iterations.toNat ≠ 0 := by
      unfold checkIterations at hcount
      split at hcount
      · rename_i hrange
        exact Nat.one_le_iff_ne_zero.mp hrange.1
      · exact absurd hcount (by simp)
    rw [hcount]
    refine .bind (.answer fun e he => absurd he (by simp [Except.mapError])) fun _ => ?_
    refine .bind hsecret fun password => .answer fun e he => ?_
    rw [WrapKey.ofPassword, WrapKey.stretch, if_neg hsome] at he
    exact absurd he (by simp [Except.mapError, bind, Except.bind, pure, Except.pure])
  · exact .bind hsecret fun key => .pure _
  · exact .bind hsecret fun secret => m.failsWith_agreedKey _ _ _ _
  · split
    · exact .fail (.inl ⟨_, rfl⟩)
    · refine .bind (.ask (.blame _ _ fun f => .inr ⟨f, rfl⟩)) fun certificates => ?_
      split
      · exact .bind hsecret fun secret => m.failsWith_agreedKey _ _ _ _
      · exact .fail (.inl ⟨_, rfl⟩)
  · split
    · exact .fail (.inl ⟨_, rfl⟩)
    · refine .bind (.ask (.blame _ _ fun f => .inr ⟨f, rfl⟩)) fun response => ?_
      split
      · exact .fail (.inr ⟨_, rfl⟩)
      · exact .bind hsecret fun secret => m.failsWith_agreedKey _ _ _ _

/-- The wrapped key of a lock opens, and what it holds is of this length,
which is none of a master key. -/
def OpensToLength (m : Locksmith σ) (lock : Lock) (w : World σ) (n : Nat) : Prop :=
  n ≠ 32 ∧ ∃ key w' plain, m.recover lock w = (.ok key, w') ∧
    m.suite.decrypt? key lock.nonce (Lock.context lock.type lock.label) lock.wrapped = some plain ∧
    plain.length = n

/-- **A lock that readers took fails** for itself or for the network, or what
was wrapped has not the length of a master key. -/
theorem unwrap_error (hcheck : lock.capsule.check = .ok ())
    (h : m.unwrap lock w = (.error e, w')) :
    Blamed lock.index e ∨ ∃ n, m.OpensToLength lock w n ∧ e = .crypto (.masterKeyLength n) := by
  rw [unwrap, Step.bind_apply] at h
  rcases hrecover : m.recover lock w with ⟨e' | key, w₁⟩
  · rw [hrecover] at h
    cases h
    exact .inl (m.failsWith_recover hcheck w e _ hrecover)
  · rw [hrecover] at h
    dsimp only at h
    cases hplain : m.suite.decrypt? key lock.nonce (Lock.context lock.type lock.label)
        lock.wrapped with
    | none =>
      rw [hplain] at h
      cases h
      exact .inl (.inl ⟨_, rfl⟩)
    | some plain =>
      rw [hplain] at h
      have hfmk : (Fmk.ofBytes plain).mapError Error.crypto = .error e := (Prod.mk.inj h).1
      unfold Fmk.ofBytes Octets.ofBytes? at hfmk
      by_cases hlength : plain.length = 32
      · simp only [hlength, dif_pos] at hfmk
        exact absurd hfmk (by simp [Except.mapError])
      · simp only [hlength, dif_neg, not_false_eq_true] at hfmk
        cases hfmk
        exact .inr ⟨plain.length, ⟨hlength, key, w₁, plain, hrecover, hplain, rfl⟩, rfl⟩

/-- And then it does fail. -/
theorem unwrap_of_opensToLength {n : Nat} (h : m.OpensToLength lock w n) :
    (m.unwrap lock w).1 = .error (.crypto (.masterKeyLength n)) := by
  obtain ⟨hne, key, w₁, plain, hrecover, hplain, rfl⟩ := h
  rw [unwrap, Step.bind_apply, hrecover]
  dsimp only
  rw [hplain]
  show (Fmk.ofBytes plain).mapError Error.crypto = _
  simp only [Fmk.ofBytes, Octets.ofBytes?, dif_neg hne]
  rfl

end Locksmith

/-! ## Frames

A frame can be damaged in the ways of `Damaged`, and it is not read just in
these: there
is no other reason for a frame of a steady source to be missed. -/

namespace Payload

/-- What is wrong with the next frame of these bytes: it is cut off, or its
length is out of range, or it does not open to a frame. -/
inductive Damaged (S : Suite) (c : Channel) (counter : Nat) (b : Bytes) : IntegrityFault → Prop where
  | noLength (h : b.length < 4) : Damaged S c counter b .truncated
  | outOfRange (h : 4 ≤ b.length)
      (hrange : Bytes.toNat (b.take 4) < Aead.tagLength ∨
        maxSealedLength < Bytes.toNat (b.take 4)) :
      Damaged S c counter b (.frameLength (Bytes.toNat (b.take 4)))
  | cutOff (h : 4 ≤ b.length)
      (hrange : ¬ (Bytes.toNat (b.take 4) < Aead.tagLength ∨
        maxSealedLength < Bytes.toNat (b.take 4)))
      (hshort : (b.drop 4).length < Bytes.toNat (b.take 4)) : Damaged S c counter b .truncated
  | unopened {f : IntegrityFault} (h : 4 ≤ b.length)
      (hrange : ¬ (Bytes.toNat (b.take 4) < Aead.tagLength ∨
        maxSealedLength < Bytes.toNat (b.take 4)))
      (hwhole : Bytes.toNat (b.take 4) ≤ (b.drop 4).length)
      (hopen : c.openFrame S counter ((b.drop 4).take (Bytes.toNat (b.take 4))) = .error f) :
      Damaged S c counter b f

namespace Reader

variable {S : Suite} {r r' : Reader} {e : Error} {f : IntegrityFault}

/-- **A frame is not read just if something is wrong with it,** and that is
a failure of integrity. -/
theorem readFrame_error_iff (h : r.source.Steady) :
    (r.readFrame S).1 = .error e ↔
      ∃ f, e = .integrity f ∧ Damaged S r.channel r.counter r.source.contents f := by
  constructor
  · intro hread
    unfold readFrame at hread
    by_cases hfour : 4 ≤ r.source.contents.length
    · obtain ⟨s₁, htake, hsteady₁, hcontents₁⟩ := take_of_le h hfour
      rw [htake] at hread
      dsimp only at hread
      split at hread
      · rename_i hrange
        cases hread
        exact ⟨_, rfl, .outOfRange hfour hrange⟩
      · rename_i hrange
        by_cases hwhole : Bytes.toNat (r.source.contents.take 4) ≤ s₁.contents.length
        · obtain ⟨s₂, htake', -⟩ := take_of_le (r := { r with source := s₁ }) hsteady₁ hwhole
          rw [htake'] at hread
          dsimp only at hread
          split at hread
          · rename_i f hopen
            cases hread
            rw [hcontents₁] at hwhole hopen
            exact ⟨f, rfl, .unopened hfour hrange hwhole hopen⟩
          · exact absurd hread (by simp)
        · rw [take_of_lt (r := { r with source := s₁ }) hsteady₁ (Nat.lt_of_not_le hwhole)] at hread
          cases hread
          rw [hcontents₁] at hwhole
          exact ⟨_, rfl, .cutOff hfour hrange (Nat.lt_of_not_le hwhole)⟩
    · rw [take_of_lt h (Nat.lt_of_not_le hfour)] at hread
      cases hread
      exact ⟨_, rfl, .noLength (Nat.lt_of_not_le hfour)⟩
  · rintro ⟨f, rfl, hdamaged⟩
    unfold readFrame
    cases hdamaged with
    | noLength hshort => rw [take_of_lt h hshort]
    | outOfRange hfour hrange =>
      obtain ⟨s₁, htake, -⟩ := take_of_le h hfour
      rw [htake]
      dsimp only
      rw [if_pos hrange]
      rfl
    | cutOff hfour hrange hshort =>
      obtain ⟨s₁, htake, hsteady₁, hcontents₁⟩ := take_of_le h hfour
      rw [← hcontents₁] at hshort
      rw [htake]
      dsimp only
      rw [if_neg hrange, take_of_lt (r := { r with source := s₁ }) hsteady₁ hshort]
    | unopened hfour hrange hwhole hopen =>
      obtain ⟨s₁, htake, hsteady₁, hcontents₁⟩ := take_of_le h hfour
      rw [← hcontents₁] at hwhole hopen
      obtain ⟨s₂, htake', -⟩ := take_of_le (r := { r with source := s₁ }) hsteady₁ hwhole
      rw [htake]
      dsimp only
      rw [if_neg hrange, htake']
      dsimp only
      rw [hopen]
      rfl

/-! ## Entries -/

/-- **Asked for the next entry** a reader refuses and reads nothing, or it
fails for the integrity of the payload. -/
theorem next_error (h : r.source.Steady) (hr : r.next S = (.error e, r')) :
    (∃ f, e = .integrity f) ∨ (r' = r ∧ ∃ f, e = .sequence f) := by
  unfold next at hr
  split at hr
  · cases hr
    exact .inl ⟨_, rfl⟩
  · split at hr
    · exact absurd (Prod.mk.inj hr).1 (by simp)
    · cases hr
      exact .inr ⟨rfl, _, rfl⟩
    all_goals
      left
      unfold advance at hr
      split at hr
      · rename_i hread
        cases hr
        exact (readFrame_error h hread).1
      · exact absurd (Prod.mk.inj hr).1 (by simp)
      · rename_i r₁ hread
        have hsteady := steady_readFrame S h
        rw [hread] at hsteady
        split at hr
        · rename_i hcheck
          cases hr
          exact (checkTrailing_error (r := r₁) hsteady hcheck).1
        · exact absurd (Prod.mk.inj hr).1 (by simp)
      · cases hr
        exact ⟨_, rfl⟩

/-- A sink that takes everything still does after data were poured, and data
that are missed are missed for the integrity of the payload. -/
theorem pour_unbounded (info : FileInfo) (remaining : Nat) {sink : Sink} (h : r.source.Steady)
    (hsink : sink.Unbounded) :
    (pour S info remaining r sink).2.2.Unbounded ∧
      ∀ e, (pour S info remaining r sink).1 = .error e → ∃ f, e = .integrity f := by
  fun_induction pour S info remaining r sink with
  | case1 => exact ⟨hsink, fun e he => absurd he (by simp)⟩
  | case2 remaining r sink _ e' r₁ hread =>
    refine ⟨hsink, fun e he => ?_⟩
    cases he
    exact (readFrame_error h hread).1
  | case3 remaining r sink _ chunk r₁ hread _ result r₂ hfail =>
    cases hfail
    exact ⟨hsink, fun e he => ⟨_, (Except.error.inj he).symm⟩⟩
  | case4 remaining r sink _ chunk r₁ hread _ e' sink₁ hwrite =>
    obtain ⟨sink₂, hwrite', -⟩ := hsink.write chunk.val
    rw [hwrite'] at hwrite
    exact absurd (Prod.mk.inj hwrite).1 (by simp)
  | case5 remaining r sink _ chunk r₁ hread _ sink₁ hwrite left ih =>
    have hsteady := steady_readFrame S h
    rw [hread] at hsteady
    obtain ⟨sink₂, hwrite', hsink₂, -⟩ := hsink.write chunk.val
    rw [hwrite'] at hwrite
    obtain ⟨-, rfl⟩ := Prod.mk.inj hwrite
    exact ih hsteady hsink₂
  | case6 remaining r sink _ f r₁ hne hread result r₂ hfail =>
    cases hfail
    exact ⟨hsink, fun e he => ⟨_, (Except.error.inj he).symm⟩⟩

/-- **Asked for data** a reader refuses and reads nothing, or it fails for
the integrity of the payload. -/
theorem readInto_error {sink sink' : Sink} (h : r.source.Steady) (hsink : sink.Unbounded)
    (hr : r.readInto S sink = (.error e, r', sink')) :
    (∃ f, e = .integrity f) ∨ (r' = r ∧ sink' = sink ∧ ∃ f, e = .sequence f) := by
  unfold readInto at hr
  split at hr
  · cases hr
    exact .inl ⟨_, rfl⟩
  · split at hr
    · cases hr
      exact .inr ⟨rfl, rfl, _, rfl⟩
    · cases hr
      exact .inr ⟨rfl, rfl, _, rfl⟩
    · cases hr
      exact .inr ⟨rfl, rfl, _, rfl⟩
    · rename_i info remaining _
      split at hr
      · cases hr
        exact .inr ⟨rfl, rfl, _, rfl⟩
      · obtain ⟨hunbounded, hfails⟩ := pour_unbounded (S := S) info remaining h hsink
        split at hr
        · rename_i hpour
          rw [hpour] at hfails
          cases hr
          exact .inl (hfails e rfl)
        · rename_i r₁ sink₁ hpour
          rw [hpour] at hunbounded
          have hflush : sink₁.flush = .ok () := hunbounded.flush_eq
          rw [hflush] at hr
          exact absurd (Prod.mk.inj hr).1 (by simp)

/-- **A damaged frame** is what asking for the next entry fails with. -/
theorem next_of_damaged (h : r.source.Steady) (hf : r.failed = false) (hc : r.cursor.Due)
    (hdamaged : Damaged S r.channel r.counter r.source.contents f) :
    (r.next S).1 = .error (.integrity f) := by
  have hread := (readFrame_error_iff h).mpr ⟨f, rfl, hdamaged⟩
  obtain ⟨r₁, hread⟩ : ∃ r₁, r.readFrame S = (.error (.integrity f), r₁) := ⟨_, Prod.ext hread rfl⟩
  rw [next_of_due hf hc, advance, hread]

/-- And it is what asking for data fails with. -/
theorem readInto_of_damaged (h : r.source.Steady) (hf : r.failed = false) {info : FileInfo}
    (hc : r.cursor = .pending info info.size.toNat) (hsome : info.size.toNat ≠ 0)
    (hdamaged : Damaged S r.channel r.counter r.source.contents f) (sink : Sink) :
    (r.readInto S sink).1 = .error (.integrity f) := by
  have hread := (readFrame_error_iff h).mpr ⟨f, rfl, hdamaged⟩
  obtain ⟨r₁, hread⟩ : ∃ r₁, r.readFrame S = (.error (.integrity f), r₁) := ⟨_, Prod.ext hread rfl⟩
  rw [readInto, if_neg (by simp [hf]), hc]
  dsimp only
  rw [if_neg (by simp), pour, if_neg hsome, hread]

end Reader

end Payload

/-! ## Sessions

A session adds little: an operation out of turn is refused, a place of no
lock is not found, and the head is confirmed by its code. -/

namespace Opening

open Payload

variable {σ : Type} {s : Opening σ} {w : World σ} {e : Error}

/-- What opening a lock may fail with. -/
inductive KeyFailure (s : Opening σ) (index : Nat) (w : World σ) : Error → Prop where
  | outOfTurn (h : s.stage.untouched? = none) :
      KeyFailure s index w (.state .getFmk s.stage.phase)
  | noSuchLock (h : s.header.lock? index = none) : KeyFailure s index w (.noSuchLock index)
  | lock (f : LockError) : KeyFailure s index w (.lock index f)
  | network (f : NetworkFault) : KeyFailure s index w (.network f)
  | unconfirmed : KeyFailure s index w (.integrity .headerMac)
  | notKey {lock : Lock} {n : Nat} (hstage : s.stage.untouched? ≠ none)
      (hlock : s.header.lock? index = some lock) (h : s.smith.OpensToLength lock w n) :
      KeyFailure s index w (.crypto (.masterKeyLength n))

/-- Readers take the capsule of every lock that the session has. -/
def Checked (s : Opening σ) : Prop :=
  ∀ index lock, s.header.lock? index = some lock →
    lock.index = index ∧ lock.capsule.check = .ok ()

/-- A head that is not confirmed fails by its code. -/
theorem verify_error {p : ParsedHeader} {S : Suite} {fmk : Fmk} (h : p.verify S fmk = .error e) :
    e = .integrity .headerMac := by
  unfold ParsedHeader.verify at h
  split at h
  · exact absurd h (by simp)
  · cases h
    rfl

/-- **A lock that is not opened** is refused, is not there, fails for itself,
for the network, for the code of the head, or holds no master key. -/
theorem Checked.getFmk_fst (h : s.Checked) {index : Nat} (hget : (s.getFmk index w).1 = .error e) :
    s.KeyFailure index w e := by
  unfold getFmk at hget
  split at hget
  · rename_i hstage
    cases hget
    exact .outOfTurn hstage
  · rename_i source hstage
    split at hget
    · rename_i hlock
      cases hget
      exact .noSuchLock hlock
    · rename_i lock hlock
      obtain ⟨rfl, hcheck⟩ := h _ _ hlock
      split at hget
      · rename_i e' w₁ hunwrap
        cases hget
        obtain (⟨f, rfl⟩ | ⟨f, rfl⟩) | ⟨n, hlength, rfl⟩ := Locksmith.unwrap_error hcheck hunwrap
        · exact .lock f
        · exact .network f
        · exact .notKey (by simp [hstage]) hlock hlength
      · split at hget
        · rename_i hverify
          cases hget
          rw [verify_error hverify]
          exact .unconfirmed
        · exact absurd hget (by simp)

/-- A lock that holds no master key is not opened. -/
theorem getFmk_of_opensToLength {index n : Nat} {lock : Lock} (hstage : s.stage.untouched? ≠ none)
    (hlock : s.header.lock? index = some lock) (h : s.smith.OpensToLength lock w n) :
    (s.getFmk index w).1 = .error (.crypto (.masterKeyLength n)) := by
  obtain ⟨source, hsource⟩ := Option.ne_none_iff_exists'.mp hstage
  obtain ⟨w₁, hunwrap⟩ : ∃ w₁, s.smith.unwrap lock w
      = (.error (.crypto (.masterKeyLength n)), w₁) :=
    ⟨_, Prod.ext (Locksmith.unwrap_of_opensToLength h) rfl⟩
  simp only [getFmk, hsource, hlock, hunwrap]

/-- Where decryption does not begin, the session is past that, or the head does
not confirm the key. -/
theorem begin_fst {fmk : Fmk} (h : (s.begin fmk).1 = .error e) :
    (e = .state .beginDecryption s.stage.phase ∧ s.stage.untouched? = none) ∨
      e = .integrity .headerMac := by
  cases hstage : s.stage.untouched? with
  | none =>
    rw [Opening.begin, hstage] at h
    cases h
    exact .inl ⟨rfl, rfl⟩
  | some source =>
    rw [begin_eq hstage] at h
    cases hverify : s.header.verify s.smith.suite fmk with
    | error e' =>
      rw [hverify] at h
      cases h
      exact .inr (verify_error hverify)
    | ok u =>
      rw [hverify] at h
      exact absurd h (by simp)

/-- **A next entry that is missed** is refused and nothing is read, or the
payload is not what was written. -/
theorem nextFile_error {s' : Opening σ} (h : s.stage.Steady) (hnext : s.nextFile = (.error e, s')) :
    (∃ f, e = .integrity f) ∨
      (s' = s ∧ (e = .state .nextFile s.stage.phase ∨ ∃ f, e = .sequence f)) := by
  obtain ⟨smith, header, mode, stage⟩ := s
  cases stage with
  | decrypting fmk r =>
    rw [Opening.nextFile] at hnext
    rcases hr : r.next smith.suite with ⟨result, r'⟩
    simp only [hr] at hnext
    obtain ⟨rfl, rfl⟩ := Prod.mk.inj hnext
    obtain hfails | ⟨rfl, hrefused⟩ := Reader.next_error h hr
    · exact .inl hfails
    · exact .inr ⟨rfl, .inr hrefused⟩
  | _ =>
    cases hnext
    exact .inr ⟨rfl, .inl rfl⟩

/-- **Data that are missed** are refused and nothing is read, or the payload
is not what was written. -/
theorem readContent_error {s' : Opening σ} {sink sink' : Sink} (h : s.stage.Steady)
    (hsink : sink.Unbounded) (hread : s.readContent sink = (.error e, s', sink')) :
    (∃ f, e = .integrity f) ∨ (s' = s ∧ sink' = sink ∧
      (e = .state .readFile s.stage.phase ∨ ∃ f, e = .sequence f)) := by
  obtain ⟨smith, header, mode, stage⟩ := s
  cases stage with
  | decrypting fmk r =>
    rw [Opening.readContent] at hread
    rcases hr : r.readInto smith.suite sink with ⟨result, r', sink₁⟩
    simp only [hr] at hread
    cases hread
    obtain hfails | ⟨rfl, rfl, hrefused⟩ := Reader.readInto_error h hsink hr
    · exact .inl hfails
    · exact .inr ⟨rfl, rfl, .inr hrefused⟩
  | _ =>
    cases hread
    exact .inr ⟨rfl, rfl, .inl rfl⟩

/-- A session that began with a head that was read is checked, whatever it
was told. -/
theorem checked_acted {smith : Locksmith σ} {lenient : Bool} {source : Source} {start : Opening σ}
    (hsteady : source.Steady) (hcreate : create smith lenient source = .ok start)
    (acts : List Act) (w : World σ) :
    (acted acts start w).1.Checked ∧ (acted acts start w).1.stage.Steady := by
  obtain ⟨rest, hread, -, -, hstage⟩ := create_ok hcreate
  have hrest : start.stage.Steady := by
    rw [hstage]
    exact (ParsedHeader.read_ok hread).2.1 hsteady
  have hsound := (sound_start hstage).played (spelled acts start w) w
  have hlater := steady_played (spelled acts start w) hrest w
  rw [played_spelled] at hsound hlater
  refine ⟨fun index lock hlock => ?_, hlater⟩
  rw [hsound.header] at hlock
  exact ParsedHeader.check_of_lock? hread hlock

end Opening

/-- **Failures tell what is wrong.** From any byte string whose source does
not fail, whoever is asked for secrets and whether data errors are to be
ignored or not:

* a session that cannot begin has found no head, or one of another version;
* whatever was done before, a lock that is not opened fails in one of the
  ways of `Opening.KeyFailure`, and with a failure of the key just if it
  could be opened and held something that is no master key;
* reading begins unless it is out of turn or the head does not confirm the
  key;
* the next entry and the data of an entry, if the sink takes everything,
  are missed for the integrity of the payload, or they are refused and
  nothing is read;
* and if there is anything wrong with the frame that comes next, that is
  what fails. -/
theorem failures_classified {σ : Type} (smith : Locksmith σ) (lenient : Bool) {source : Source}
    (hsteady : source.Steady) :
    (∀ e, Opening.create smith lenient source = .error e →
      (∃ f, e = .parse f) ∨ ∃ v, e = .unsupportedVersion v) ∧
    ∀ start : Opening σ, Opening.create smith lenient source = .ok start →
      ∀ (acts : List Opening.Act) (world : World σ) (s : Opening σ) (w : World σ),
        Opening.acted acts start world = (s, w) →
        (∀ index e, (s.getFmk index w).1 = .error e → s.KeyFailure index w e) ∧
        (∀ index lock n, s.stage.untouched? ≠ none → s.header.lock? index = some lock →
          s.smith.OpensToLength lock w n →
          (s.getFmk index w).1 = .error (.crypto (.masterKeyLength n))) ∧
        (∀ fmk e, (s.begin fmk).1 = .error e →
          (e = .state .beginDecryption s.stage.phase ∧ s.stage.untouched? = none) ∨
            e = .integrity .headerMac) ∧
        (∀ e s', s.nextFile = (.error e, s') → (∃ f, e = .integrity f) ∨
          (s' = s ∧ (e = .state .nextFile s.stage.phase ∨ ∃ f, e = .sequence f))) ∧
        (∀ sink e s' sink', sink.Unbounded → s.readContent sink = (.error e, s', sink') →
          (∃ f, e = .integrity f) ∨ (s' = s ∧ sink' = sink ∧
            (e = .state .readFile s.stage.phase ∨ ∃ f, e = .sequence f))) ∧
        ∀ fmk r f, s.stage = .decrypting fmk r → r.failed = false →
          Payload.Damaged s.smith.suite r.channel r.counter r.source.contents f →
          (r.cursor.Due → s.nextFile.1 = .error (.integrity f)) ∧
          ∀ info sink, r.cursor = .pending info info.size.toNat → info.size.toNat ≠ 0 →
            (s.readContent sink).1 = .error (.integrity f) := by
  refine ⟨fun e he => ?_, fun start hcreate acts world s w hacted => ?_⟩
  · unfold Opening.create at he
    split at he
    · rename_i hread
      cases he
      exact ParsedHeader.read_error hsteady hread
    · exact absurd he (by simp)
  · obtain ⟨hchecked, hsteady'⟩ := Opening.checked_acted hsteady hcreate acts world
    rw [hacted] at hchecked hsteady'
    refine ⟨fun index e => hchecked.getFmk_fst,
      fun index lock n hstage hlock => Opening.getFmk_of_opensToLength hstage hlock,
      fun fmk e => Opening.begin_fst, fun e s' => Opening.nextFile_error hsteady',
      fun sink e s' sink' hsink => Opening.readContent_error hsteady' hsink,
      fun fmk r f hstage hsound hdamaged => ⟨fun hdue => ?_, fun info sink hcursor hsome => ?_⟩⟩
    · rw [hstage] at hsteady'
      have hnext := Payload.Reader.next_of_damaged hsteady' hsound hdue hdamaged
      simp only [Opening.nextFile, hstage]
      exact hnext
    · rw [hstage] at hsteady'
      have hread := Payload.Reader.readInto_of_damaged hsteady' hsound hcursor hsome hdamaged sink
      simp only [Opening.readContent, hstage]
      exact hread

/-- Of two sealed entries, of which the payload is lost: a lock that is not
there fails as such, and once the reading has begun the first frame, of which
nothing is left, fails for the integrity of the payload. -/
theorem twoEntries_failures_classified :
    ∃ (run : SealedRun Unit) (start s : Opening Unit) (w : World Unit),
      run.entries = twoEntries ∧
      Opening.create (.plain [1]) false (.ofBytes (run.draft.header.sealed run.suite
        containerVersion run.flags run.fmk)) = .ok start ∧
      (start.getFmk 1 ⟨.splitMix 2, ()⟩).1 = .error (.noSuchLock 1) ∧
      start.KeyFailure 1 ⟨.splitMix 2, ()⟩ (.noSuchLock 1) ∧
      Opening.acted [.single (.begin run.fmk)] start ⟨.splitMix 2, ()⟩ = (s, w) ∧
      s.nextFile.1 = .error (.integrity .truncated) := by
  obtain ⟨run, asked, hsmith, hentries, hrecipients⟩ :=
    SealedRun.exists_twoEntries (show (some [1]).getD [1] = [1] from rfl)
  have hsuite : (Locksmith.plain [1]).suite = run.suite := (congrArg Locksmith.suite hsmith).symm
  obtain ⟨head, hhead⟩ : ∃ head, head
      = run.draft.header.sealed run.suite containerVersion run.flags run.fmk := ⟨_, rfl⟩
  have hsteady := Source.steady_ofBytes head
  have hcontents : (Source.ofBytes head).contents
      = run.draft.header.sealed run.suite containerVersion run.flags run.fmk ++ [] := by
    rw [Source.contents_ofBytes, hhead, List.append_nil]
  obtain ⟨start, rest, hcreate, -, hfaces, -, hrest⟩ :=
    SealedRun.create_of_head false hsuite hsteady hcontents
  obtain ⟨hreadable, ⟨hlength, -⟩, -⟩ := run.container_eq
  have hone : run.draft.header.locks.length = 1 := by
    rw [hrecipients] at hlength
    exact hlength
  -- the table has one lock, and that stands at the first place
  have hnone : start.header.lock? 1 = none := by
    rw [hfaces.header]
    refine List.find?_eq_none.mpr fun lock hlock => ?_
    obtain ⟨i, hi, rfl⟩ := List.getElem_of_mem hlock
    have hindex := (hreadable.sound i hi).1
    have hlt : i < 1 := hone ▸ hi
    have hne : run.draft.header.locks[i].index ≠ 1 := by omega
    exact fun hsame => hne (of_decide_eq_true hsame)
  have hmissing : (start.getFmk 1 ⟨.splitMix 2, ()⟩).1 = .error (.noSuchLock 1) := by
    simp only [Opening.getFmk, hfaces.stage, hnone]
  have hbegin := hfaces.begin_eq
  obtain ⟨s, hs⟩ : ∃ s, s = { start with
    stage := .decrypting run.fmk (.create rest run.channel false) } := ⟨_, rfl⟩
  rw [← hs] at hbegin
  have hacted : Opening.acted [.single (.begin run.fmk)] start ⟨.splitMix 2, ()⟩
      = (s, ⟨.splitMix 2, ()⟩) := by
    show (Opening.Request.begin run.fmk).next start ⟨.splitMix 2, ()⟩ = _
    rw [Opening.Request.next, hbegin]
  have hclassified := (failures_classified (.plain [1]) false hsteady).2 start hcreate
  obtain ⟨hkey, -⟩ := hclassified [] ⟨.splitMix 2, ()⟩ start _ rfl
  obtain ⟨-, -, -, -, -, hframe⟩ := hclassified _ _ s _ hacted
  have hlost : Payload.Damaged s.smith.suite run.channel 0 rest.contents .truncated := by
    rw [hrest]
    exact .noLength (by decide)
  obtain ⟨hfails, -⟩ := hframe run.fmk (.create rest run.channel false) .truncated (by rw [hs]) rfl
    hlost
  exact ⟨run, start, s, _, hentries, hhead ▸ hcreate, hmissing, hkey 1 _ hmissing, hacted,
    hfails trivial⟩

end Lockbox
