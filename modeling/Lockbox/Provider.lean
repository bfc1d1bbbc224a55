import Lockbox.Lock
import Lockbox.Step
/-!
# Lockbox — providers

Secrets are not kept by containers: whoever opens or writes one supplies
them through a provider, and those locks that need a network through a
remote. A provider may have a state of its own, of any type.
-/

namespace Lockbox

/-- What needs a network: the certificates at hand, and a server that
keeps capsules. -/
structure Remote (σ : Type) where
  /-- The certificates of the current user. -/
  certificates : Step NetworkFault σ (List Bytes)
  /-- Asks the server to release the capsule of a lock. -/
  release : (index : Nat) → (request : Bytes) → Step NetworkFault σ Bytes
  /-- Deposits a capsule on a server and gives the number to ask for it. -/
  deposit : (server : String) → (request : Bytes) → Step NetworkFault σ String

namespace Remote

/-- What a remote answers that stores no capsules. -/
def noDeposit {σ : Type} (server : String) (_request : Bytes) : Step NetworkFault σ String :=
  Step.fail (.storingUnsupported server)

end Remote

/-- Where secrets come from. -/
structure Providers (σ : Type) where
  secret : LockInfo → Step LockError σ Bytes
  remote : Option (Remote σ)

namespace Providers

/-- No secrets and no network. -/
def none {σ : Type} : Providers σ := ⟨fun _ => Step.fail .noSecret, .none⟩

end Providers

/-- Secrets by the label of their lock, each label once. -/
structure LabelSecrets where
  secrets : List (String × Bytes)
  deriving DecidableEq

namespace LabelSecrets

/-- No secrets. -/
def empty : LabelSecrets := ⟨[]⟩

/-- Puts a secret in the place of the one its label had. -/
def insert (s : LabelSecrets) (label : String) (secret : Bytes) : LabelSecrets :=
  ⟨s.secrets.filter (·.1 ≠ label) ++ [(label, secret)]⟩

/-- The secret of a label. -/
def find (s : LabelSecrets) (label : String) : Except LockError Bytes :=
  match s.secrets.lookup label with
  | some secret => .ok secret
  | none => .error .noSecret

/-- A provider of these secrets. -/
def toProviders {σ : Type} (s : LabelSecrets) (remote : Option (Remote σ)) : Providers σ :=
  ⟨fun info => Step.answer (s.find info.label), remote⟩

/-- A secret is found under its label. -/
theorem find_insert (s : LabelSecrets) (label : String) (secret : Bytes) :
    (s.insert label secret).find label = .ok secret := by
  have : ∀ l : List (String × Bytes),
      (l.filter (·.1 ≠ label) ++ [(label, secret)]).lookup label = some secret := by
    intro l
    induction l with
    | nil => simp
    | cons p l ih =>
      obtain ⟨k, v⟩ := p
      by_cases h : k = label
      · simpa [h] using ih
      · have hne : (label == k) = false := by simpa using Ne.symm h
        rw [List.filter_cons_of_pos (by simpa using h), List.cons_append, List.lookup_cons, hne]
        exact ih
  rw [find, insert, this]

end LabelSecrets

end Lockbox
