import Lockbox.Proofs.Places
/-!
# Lockbox — directories that are created

To create a directory is to leave all else as it is: what was there before
is there afterwards, and found under the same paths
(`FileTree.Extends`). What has been created is a directory, whatever was
missing on the way to it (`FileTree.createDirectories_ok`).
-/

namespace Lockbox

namespace FileTree

variable {t t' : FileTree} {place base : Place} {path dir : String}

/-! ## Trees with more in them

A tree extends another one if what was there still is. Paths that led
somewhere still lead there. -/

/-- Everything that was there is there still, and the working directory is
the same. -/
structure Extends (t t' : FileTree) : Prop where
  here : t'.here = t.here
  kept : ∀ place node, t.node? place = some node → t'.node? place = some node

theorem Extends.refl (t : FileTree) : Extends t t := ⟨rfl, fun _ _ h => h⟩

theorem Extends.trans {t'' : FileTree} (h : Extends t t') (h' : Extends t' t'') :
    Extends t t'' :=
  ⟨h'.here.trans h.here, fun place node hnode => h'.kept place node (h.kept place node hnode)⟩

/-- Something new takes the place of nothing. -/
theorem extends_put (h : t.node? place = none) (node : Node) : Extends t (t.put place node) := by
  refine ⟨rfl, fun other found hfound => ?_⟩
  have hne : other ≠ place := by
    rintro rfl
    exact absurd (hfound.symm.trans h) (by simp)
  rw [node?_put_of_ne hne]
  exact hfound

/-- **A path that led somewhere still does.** -/
theorem Extends.follow (h : Extends t t') {parts : List String}
    (hfollow : t.follow path parts = .ok place) : t'.follow path parts = .ok place :=
  follow_mono h.here (fun place => h.kept place .directory) hfollow

/-! ## What is at a path -/

/-- What is found under a path is what stands at its place. -/
theorem find_eq_ok_iff {node : Node} : t.find path = .ok node ↔
    ∃ place, t.locate path = .ok place ∧ t.node? place = some node := by
  unfold find
  cases t.locate path with
  | error e => simp [bind, Except.bind]
  | ok place =>
    cases hnode : t.node? place with
    | none => simp [bind, Except.bind, hnode]
    | some found => simp [bind, Except.bind, pure, Except.pure, hnode]

/-- Only a file is read. -/
theorem read_eq_ok_iff {data : Bytes} : t.read path = .ok data ↔ t.find path = .ok (.file data) := by
  unfold FileTree.read
  cases t.find path with
  | error e => simp [bind, Except.bind]
  | ok node => cases node <;> simp [bind, Except.bind, pure, Except.pure]

/-- What is at a path stays there. -/
theorem Extends.find (h : Extends t t') {node : Node} (hfind : t.find path = .ok node) :
    t'.find path = .ok node := by
  obtain ⟨place, hlocate, hnode⟩ := find_eq_ok_iff.mp hfind
  exact find_eq_ok_iff.mpr ⟨place, h.follow hlocate, h.kept place node hnode⟩

/-- A directory is a path that leads to one. -/
theorem isDirectory_iff : t.isDirectory path = true ↔
    ∃ place, t.locate path = .ok place ∧ t.node? place = some .directory := by
  rw [← find_eq_ok_iff, isDirectory]
  cases t.find path with
  | error e => simp
  | ok node => cases node <;> simp

/-- **What it is to replace a file:** there was no directory at its place, and
nothing changes elsewhere. -/
theorem replace_ok {data : Bytes} (h : t.replace path data = .ok t') :
    ∃ place, t.locate path = .ok place ∧ t.node? place ≠ some .directory ∧
      t' = t.put place (.file data) := by
  unfold replace at h
  split at h
  · cases hslash : t.follow path ((partsOfNew path).dropLast ++ ["."]) with
    | error e =>
      rw [hslash] at h
      exact absurd h (by simp [bind, Except.bind])
    | ok place =>
      rw [hslash] at h
      exact absurd h (by simp [bind, Except.bind])
  · cases hlocate : t.locate path with
    | error e =>
      rw [hlocate] at h
      exact absurd h (by simp [bind, Except.bind])
    | ok place =>
      rw [hlocate] at h
      simp only [bind, Except.bind] at h
      split at h
      · exact absurd h (by simp)
      · rename_i hfile
        cases h
        exact ⟨place, rfl, hfile, rfl⟩

/-- **A file that was put somewhere** is there. -/
theorem read_of_replace {data : Bytes} (h : t.replace path data = .ok t') :
    t'.read path = .ok data := by
  obtain ⟨place, hlocate, hfile, rfl⟩ := replace_ok h
  exact read_eq_ok_iff.mpr (find_eq_ok_iff.mpr ⟨place,
    (sameDirectories_put hfile data).locate hlocate, node?_put_self (ne_nil_of_node? hfile) _⟩)

/-! ## Creating

A directory is created part by part, and each part is there already or is
put where nothing was; so what was in the tree stays. -/

/-- Parts that lead nowhere end where they begin. -/
theorem walk_idle (hbase : t.node? base = some .directory) {parts : List String}
    (hidle : ∀ part ∈ parts, Path.isIdle part = true) : t.walk base parts = .ok base := by
  induction parts with
  | nil => rfl
  | cons part rest ih =>
    rw [walk, hbase]
    dsimp only
    rw [if_pos (hidle part List.mem_cons_self)]
    exact ih fun later hlater => hidle later (List.mem_cons_of_mem _ hlater)

/-- A path is what it asks for if it is created, and slashes. -/
theorem parts_eq_partsOfNew (path : String) :
    ∃ slashes, Path.parts path = partsOfNew path ++ slashes ∧ ∀ part ∈ slashes, part = "" := by
  refine ⟨((Path.parts path).reverse.takeWhile (· = "")).reverse, ?_, fun part hpart => ?_⟩
  · have hsplit := List.takeWhile_append_dropWhile (p := fun part : String => decide (part = ""))
      (l := (Path.parts path).reverse)
    have hreverse := congrArg List.reverse hsplit
    rw [List.reverse_append, List.reverse_reverse] at hreverse
    exact hreverse.symm
  · simpa using List.mem_takeWhile_imp (List.mem_reverse.mp hpart)

/-- **A directory that was created** is one, and nothing else has changed. -/
theorem createDirectory_ok (h : t.createDirectory path = .ok t') :
    Extends t t' ∧ t'.isDirectory path = true := by
  unfold createDirectory at h
  cases hnew : t.locateNew path with
  | error e =>
    rw [hnew] at h
    exact absurd h (by simp [bind, Except.bind])
  | ok place =>
    rw [hnew] at h
    simp only [bind, Except.bind] at h
    cases habsent : t.node? place with
    | some node =>
      rw [habsent] at h
      exact absurd h (by simp)
    | none =>
      rw [habsent] at h
      cases h
      have hextends := extends_put habsent .directory
      have hdirectory : (t.put place .directory).node? place = some .directory :=
        node?_put_self (ne_nil_of_node? (t := t) (by simp [habsent])) _
      refine ⟨hextends, isDirectory_iff.mpr ⟨place, ?_, hdirectory⟩⟩
      -- the slashes at the end lead nowhere from what is now a directory
      obtain ⟨slashes, hparts, hslashes⟩ := parts_eq_partsOfNew path
      have hfollow := hextends.follow hnew
      unfold follow at hfollow
      rw [locate, follow, hparts, walk_append]
      split at hfollow
      · exact absurd hfollow (by simp)
      · rename_i hne
        rw [if_neg hne]
        split at hfollow
        · exact absurd hfollow (by simp)
        · rename_i hnul
          rw [if_neg hnul]
          split at hfollow
          · exact absurd hfollow (by simp)
          · rename_i hlength
            rw [if_neg hlength, hfollow]
            exact walk_idle hdirectory fun part hpart => by
              rw [hslashes part hpart]
              rfl

/-- The same if those it is in are created before it. -/
theorem createUpTo_ok {depth : Nat} (h : createUpTo depth path t = (.ok (), t')) :
    Extends t t' ∧ t'.isDirectory path = true := by
  induction depth generalizing path t t' with
  | zero => exact absurd (Prod.mk.inj h).1 (by simp)
  | succ depth ih =>
    rw [createUpTo] at h
    dsimp only at h
    split at h
    · rename_i hdirectory
      cases h
      exact ⟨.refl t, hdirectory⟩
    · split at h
      · rename_i t₁ hcreate
        cases h
        exact createDirectory_ok hcreate
      · split at h
        · exact absurd (Prod.mk.inj h).1 (by simp)
        · split at h
          · exact absurd (Prod.mk.inj h).1 (by simp)
          · rename_i t₁ hparent
            have hextends := (ih hparent).1
            split at h
            · rename_i t₂ hcreate
              cases h
              obtain ⟨hlater, hdirectory⟩ := createDirectory_ok hcreate
              exact ⟨hextends.trans hlater, hdirectory⟩
            · split at h
              · rename_i hdirectory
                cases h
                exact ⟨hextends, hdirectory⟩
              · exact absurd (Prod.mk.inj h).1 (by simp)

/-- **Whoever creates directories can put names in the last of them,** and
finds everything else where it was. -/
theorem createDirectories_ok (hhere : t.node? t.here = some .directory)
    (h : createDirectories dir t = (.ok (), t')) :
    Extends t t' ∧ ∃ base, t'.enter dir = .ok base ∧ t'.node? base = some .directory := by
  unfold createDirectories at h
  split at h
  · rename_i hempty
    cases h
    exact ⟨.refl t, t.here, if_pos hempty, hhere⟩
  · rename_i hne
    obtain ⟨hextends, hdirectory⟩ := createUpTo_ok h
    obtain ⟨base, hlocate, hbase⟩ := isDirectory_iff.mp hdirectory
    exact ⟨hextends, base, by rw [enter, if_neg hne]; exact hlocate, hbase⟩

/-- **A directory that is there already** need not be created. -/
theorem createDirectories_of_isDirectory (hne : dir ≠ "") (h : t.isDirectory dir = true) :
    createDirectories dir t = (.ok (), t) := by
  rw [createDirectories, if_neg hne, createUpTo]
  exact if_pos h

end FileTree

end Lockbox
