import Lockbox.Entropy
/-!
# Lockbox — steps

A step is a function on a state that may fail; what it did to the state
before it failed stays done. Steps follow each other as long as they
succeed. A step on a part of a state is a step on all of it (`zoom`), and
the world of an operation that draws random bytes and asks others is the
state of both.
-/

namespace Lockbox

/-- An operation on a state of type `s` that may fail with an `ε`. -/
def Step (ε s α : Type) : Type := s → Except ε α × s

namespace Step

variable {ε ε' s t α β : Type}

/-- Does nothing but answer. -/
def answer (r : Except ε α) : Step ε s α := fun w => (r, w)

/-- One step, and another if it succeeds. -/
def andThen (x : Step ε s α) (f : α → Step ε s β) : Step ε s β := fun w =>
  match x w with
  | (.ok a, w) => f a w
  | (.error e, w) => (.error e, w)

instance : Monad (Step ε s) where
  pure a := answer (.ok a)
  bind := andThen

/-- Fails. -/
def fail (e : ε) : Step ε s α := answer (.error e)

/-- The state. -/
def get : Step ε s s := fun w => (.ok w, w)

/-- Another state. -/
def set (w : s) : Step ε s Unit := fun _ => (.ok (), w)

/-- Turns the failures of a step into others. -/
def blame (f : ε → ε') (x : Step ε s α) : Step ε' s α := fun w =>
  match x w with
  | (.ok a, w) => (.ok a, w)
  | (.error e, w) => (.error (f e), w)

/-- A step on a part of the state. -/
def zoom (part : s → t) (put : t → s → s) (x : Step ε t α) : Step ε s α := fun w =>
  match x (part w) with
  | (r, t) => (r, put t w)

/-- The same step for each member of a list. -/
def forEach (f : α → Step ε s Unit) : List α → Step ε s Unit
  | [] => pure ()
  | a :: rest => do
    f a
    forEach f rest

@[simp] theorem pure_apply (a : α) (w : s) : (pure a : Step ε s α) w = (.ok a, w) := rfl

/-- What comes next is done only if nothing failed. -/
theorem bind_apply (x : Step ε s α) (f : α → Step ε s β) (w : s) :
    (x >>= f) w = match x w with
      | (.ok a, w) => f a w
      | (.error e, w) => (.error e, w) := rfl

theorem id_map (x : Step ε s α) : id <$> x = x := by
  funext w
  show (match x w with
    | (.ok a, w) => (Except.ok a, w)
    | (.error e, w) => (Except.error e, w)) = x w
  split <;> simp_all

theorem bind_assoc {γ : Type} (x : Step ε s α) (f : α → Step ε s β) (g : β → Step ε s γ) :
    x >>= f >>= g = x >>= fun a => f a >>= g := by
  funext w
  simp only [bind_apply]
  rcases x w with ⟨_ | _, _⟩ <;> rfl

instance : LawfulMonad (Step ε s) := LawfulMonad.mk' _ id_map (fun _ _ => rfl) bind_assoc

end Step

/-! ## Runs -/

/-- What every step of a run keeps, unless something is met, is kept until
that is met. -/
theorem foldl_kept_or_met {α β : Type} {f : β → α → β} {P : β → Prop} {M : α → β → Prop}
    (hstep : ∀ b a, P b → P (f b a) ∨ M a b) (l : List α) (b : β) (h : P b) :
    P (l.foldl f b) ∨ ∃ before a later, l = before ++ a :: later ∧ P (before.foldl f b) ∧
      M a (before.foldl f b) := by
  induction l generalizing b with
  | nil => exact .inl h
  | cons a l ih =>
    obtain hkept | hmet := hstep b a h
    · obtain hall | ⟨before, a', later, rfl, hkept', hmet⟩ := ih (f b a) hkept
      · exact .inl hall
      · exact .inr ⟨a :: before, a', later, rfl, hkept', hmet⟩
    · exact .inr ⟨[], a, l, rfl, h, hmet⟩

/-- Two outcomes with the same answer, whose states are related. -/
abbrev Alike {α s : Type} (R : s → s → Prop) (x y : α × s) : Prop :=
  ∃ answer t u, x = (answer, t) ∧ y = (answer, u) ∧ R t u

/-! ## The world of an operation -/

/-- Random bytes, and the state of whoever is asked. -/
structure World (σ : Type) where
  entropy : Entropy
  outside : σ

namespace World

variable {ε σ α : Type}

/-- Draws random bytes. -/
def draw (n : Nat) : Step ε (World σ) (Octets n) := fun w =>
  let (bytes, entropy) := w.entropy.draw n
  (.ok bytes, { w with entropy })

/-- Asks someone outside. -/
def ask (question : Step ε σ α) : Step ε (World σ) α :=
  question.zoom World.outside fun outside w => { w with outside }

end World

end Lockbox
