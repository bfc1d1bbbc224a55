import Lockbox.Proofs.JsonText
/-!
# Lockbox — reading records that were written

A record whose members have different names gives each of them back under
its name (`allFields?_record`), in any place and also without its tag
(`tagged?_record`). Settling a value for later leaves it as it is if there
is nothing to settle in it, which is what `Settled` says of a value and
of the room that it takes.
-/

namespace Lockbox

/-- A step that succeeds for each member of a list succeeds for the list. -/
theorem mapM_eq_pure {m : Type → Type} [Monad m] [LawfulMonad m] {α β : Type} {f : α → m β}
    {g : α → β} {l : List α} (h : ∀ a ∈ l, f a = pure (g a)) : l.mapM f = pure (l.map g) := by
  induction l with
  | nil => exact List.mapM_nil
  | cons a l ih =>
    rw [List.mapM_cons, h a List.mem_cons_self, ih fun b hb => h b (List.mem_cons_of_mem _ hb)]
    simp

namespace Json

/-- The same for steps that may have nothing to give. -/
theorem mapM_eq_some {α β : Type} {f : α → Option β} {g : α → β} {l : List α}
    (h : ∀ a ∈ l, f a = some (g a)) : l.mapM f = some (l.map g) :=
  mapM_eq_pure h

/-! ## Members by name -/

/-- The members of a record keep their names. -/
theorem namedMembers_record (members : List (String × Json)) :
    namedMembers (members.map fun m => ((Bytes.ofText m.1).flatMap escapeByte, m.2))
      = some members := by
  rw [namedMembers, mapM_eq_some (g := fun m => ((textOf? m.1).getD "", m.2))]
  · rw [List.map_map]
    congr 1
    refine (List.map_congr_left fun m _ => ?_).trans (List.map_id members)
    simp [textOf?_escaped]
  · intro m hm
    obtain ⟨n, -, rfl⟩ := List.mem_map.mp hm
    simp [textOf?_escaped]

/-- A name that no other member has is the name of its member. -/
theorem single?_of_nodup {members : List (String × Json)} (h : (members.map Prod.fst).Nodup)
    {m : String × Json} (hm : m ∈ members) : single? members m.1 = some (some m.2) := by
  -- no other member passes the filter, before it or after
  have hfilter : members.filter (·.1 = m.1) = [m] := by
    induction members with
    | nil => exact absurd hm (by simp)
    | cons n members ih =>
      rw [List.map_cons, List.nodup_cons] at h
      rcases List.mem_cons.mp hm with rfl | hm
      · have hnone : members.filter (·.1 = m.1) = [] := by
          rw [List.filter_eq_nil_iff]
          intro k hk heq
          exact h.1 ((decide_eq_true_eq.mp heq) ▸ List.mem_map_of_mem hk)
        rw [List.filter_cons_of_pos (by simp), hnone]
      · have hne : n.1 ≠ m.1 := fun heq => h.1 (heq ▸ List.mem_map_of_mem hm)
        rw [List.filter_cons_of_neg (by simpa using hne), ih h.2 hm]
  rw [single?, hfilter]

/-- **A record gives back all of its members.** -/
theorem allFields?_record {members : List (String × Json)} (h : (members.map Prod.fst).Nodup) :
    (record members).allFields? (members.map Prod.fst) = some (members.map Prod.snd) := by
  have hfields : (record members).fields? (members.map Prod.fst)
      = some (members.map fun m => some m.2) := by
    simp only [fields?, record, namedMembers_record, Option.bind_eq_bind, Option.bind_some]
    rw [List.mapM_map]
    exact mapM_eq_some fun m hm => single?_of_nodup h hm
  rw [allFields?, hfields, Option.bind_eq_bind, Option.bind_some, List.mapM_map]
  exact mapM_eq_some fun m _ => rfl

/-- **A tagged record gives back its tag and the rest.** -/
theorem tagged?_record {tag kind : String} {members : List (String × Json)}
    (h : ∀ m ∈ members, m.1 ≠ tag) :
    (record ((tag, ofText kind) :: members)).tagged? tag = some (kind, record members) := by
  have hsingle : single? ((tag, ofText kind) :: members) tag = some (some (ofText kind)) := by
    have hnone : members.filter (·.1 = tag) = [] := by
      rw [List.filter_eq_nil_iff]
      exact fun m hm heq => h m hm (decide_eq_true_eq.mp heq)
    rw [single?, List.filter_cons_of_pos (by simp), hnone]
  -- only the tag is filtered out
  have hrest : ((members.map fun m => ((Bytes.ofText m.1).flatMap escapeByte, m.2)).zip
      members).filter (fun m => m.2.1 ≠ tag)
      = (members.map fun m => ((Bytes.ofText m.1).flatMap escapeByte, m.2)).zip members := by
    rw [List.filter_eq_self]
    intro m hm
    exact decide_eq_true (h m.2 (List.of_mem_zip hm).2)
  have hnamed := namedMembers_record ((tag, ofText kind) :: members)
  rw [List.map_cons] at hnamed
  rw [record, tagged?, List.map_cons]
  simp only [hnamed, Option.bind_eq_bind, Option.bind_some, hsingle, text?_ofText,
    List.zip_cons_cons]
  rw [List.filter_cons_of_neg (by simp), hrest, List.map_fst_zip (by simp)]
  rfl

/-! ## Settled values -/

/-- With this room, settling the value leaves it as it is. -/
def Settled (room : Nat) (j : Json) : Prop := settle room j = some j

theorem settled_ofText (room : Nat) (s : String) : Settled room (ofText s) := by
  have := textOf?_escaped s
  rw [Settled, ofText, settle, this]
  rfl

/-- Bytes are settled: their base 64 is a text. -/
theorem settled_ofBytes (room : Nat) (b : Bytes) : Settled room (ofBytes b) := by
  obtain ⟨s, hs⟩ : ∃ s, textOf? (Base64.encode b) = some s := by
    have h := bytes?_ofBytes b
    simp only [bytes?, ofBytes, Option.bind_eq_bind, Option.bind_eq_some_iff] at h
    obtain ⟨s, hs, -⟩ := h
    exact ⟨s, hs⟩
  rw [Settled, ofBytes, settle, hs]
  rfl

/-- A number that a double can hold is settled. -/
theorem settled_ofNat (room : Nat) {n : Nat} (h : n < 1 <<< 53) : Settled room (ofNat n) := by
  rw [Settled, ofNat, settle, if_pos (isFinite_ofNat h)]

/-- Of names that are all different each one is the last of its kind. -/
theorem lastOfEach_of_nodup {members : List (String × Bytes × Json)}
    (h : (members.map Prod.fst).Nodup) : lastOfEach members = members := by
  induction members with
  | nil => rfl
  | cons m members ih =>
    rw [List.map_cons, List.nodup_cons] at h
    have hnew : members.any (·.1 = m.1) = false := by
      rw [List.any_eq_false]
      intro k hk heq
      exact h.1 ((decide_eq_true_eq.mp heq) ▸ List.mem_map_of_mem hk)
    have ih := ih h.2
    rw [lastOfEach] at ih ⊢
    rw [List.foldr_cons, ih, hnew]
    rfl

/-- **There is nothing to settle in a record** whose members have different
names and nothing to settle in them. -/
theorem settled_record {room : Nat} {members : List (String × Json)}
    (h : (members.map Prod.fst).Nodup) (hm : ∀ m ∈ members, Settled room m.2) :
    Settled (room + 1) (record members) := by
  have hmap : (members.map fun m => ((Bytes.ofText m.1).flatMap escapeByte, m.2)).mapM
      (fun m => do
        let name ← textOf? m.1
        let value ← settle room m.2
        return (name, m.1, value))
      = some (members.map fun m => (m.1, (Bytes.ofText m.1).flatMap escapeByte, m.2)) := by
    rw [List.mapM_map]
    refine mapM_eq_some fun m hmem => ?_
    have hvalue : settle room m.2 = some m.2 := hm m hmem
    simp [textOf?_escaped, hvalue]
  have hnames : ((members.map fun m => (m.1, (Bytes.ofText m.1).flatMap escapeByte, m.2)).map
      Prod.fst).Nodup := by
    rw [List.map_map]
    exact h
  rw [Settled, record, settle, hmap]
  simp only [Option.bind_eq_bind, Option.bind_some, lastOfEach_of_nodup hnames, List.map_map]
  rfl

/-! ## Written values -/

theorem written_ofText (s : String) : Written (ofText s) := plain_escaped _

theorem written_ofBytes (b : Bytes) : Written (ofBytes b) := plain_encode b

theorem written_ofNat (n : Nat) : Written (ofNat n) := ⟨n, rfl⟩

theorem written_array {items : List Json} (h : ∀ j ∈ items, Written j) :
    Written (.array items) := by
  rw [Written]
  induction items with
  | nil => trivial
  | cons j items ih =>
    exact ⟨h j List.mem_cons_self, ih fun i hi => h i (List.mem_cons_of_mem _ hi)⟩

/-- A record is written if all its members are: their names are escaped like
any text. -/
theorem written_record {members : List (String × Json)} (h : ∀ m ∈ members, Written m.2) :
    Written (record members) := by
  rw [record, Written]
  induction members with
  | nil => trivial
  | cons m members ih =>
    exact ⟨plain_escaped _, h m List.mem_cons_self,
      ih fun n hn => h n (List.mem_cons_of_mem _ hn)⟩

end Json

end Lockbox
