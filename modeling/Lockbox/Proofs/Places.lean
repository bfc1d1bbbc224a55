import Lockbox.FileTree
import Mathlib.Data.List.TakeWhile
/-!
# Lockbox — names in a directory

Where a path leads that is a directory with a name behind it: to the place
of the directory, one name further (`FileTree.locate_join_iff`). Nothing but
the directories of a tree has a part in that, so files that are added or
removed lead no path to another place (`FileTree.SameDirectories`).
-/

namespace Lockbox

/-! ## Parts

Paths are texts that slashes divide. What is in a part, and what joining
adds to the parts, is settled here, on characters. -/

namespace Text

variable {separates : Char → Bool} {cs : List Char}

/-- A text without separators is one part. -/
theorem split_of_not (h : ∀ c ∈ cs, separates c = false) : split separates cs = [cs] := by
  induction cs with
  | nil => rfl
  | cons c cs ih =>
    exact split_cons_of_not (h c List.mem_cons_self) (ih fun d hd => h d (List.mem_cons_of_mem _ hd))

/-- A separator splits a text into the parts before and the parts behind. -/
theorem split_append_cons {c : Char} (hc : separates c = true) (before after : List Char) :
    split separates (before ++ c :: after)
      = split separates before ++ split separates after := by
  induction before with
  | nil => exact split_cons_of_separates hc after
  | cons d before ih =>
    cases hd : separates d with
    | true =>
      rw [List.cons_append, split_cons_of_separates hd, split_cons_of_separates hd, ih]
      rfl
    | false =>
      obtain ⟨part, parts, hs⟩ := List.exists_cons_of_ne_nil (split_ne_nil separates before)
      rw [hs, List.cons_append] at ih
      rw [List.cons_append, split_cons_of_not hd ih, split_cons_of_not hd hs]
      rfl

/-- A part is what is left of the text between two separators. -/
theorem of_mem_split {part : List Char} (h : part ∈ split separates cs) :
    ∀ c ∈ part, c ∈ cs ∧ separates c = false := by
  induction cs generalizing part with
  | nil =>
    obtain rfl := List.mem_singleton.mp h
    simp
  | cons d cs ih =>
    obtain ⟨first, parts, hs⟩ := List.exists_cons_of_ne_nil (split_ne_nil separates cs)
    cases hd : separates d with
    | true =>
      rw [split_cons_of_separates hd] at h
      rcases List.mem_cons.mp h with rfl | h
      · simp
      · exact fun c hc => ⟨List.mem_cons_of_mem _ (ih h c hc).1, (ih h c hc).2⟩
    | false =>
      rw [split_cons_of_not hd hs] at h
      rcases List.mem_cons.mp h with rfl | h
      · intro c hc
        rcases List.mem_cons.mp hc with rfl | hc
        · exact ⟨List.mem_cons_self, hd⟩
        · have hfirst := ih (hs ▸ List.mem_cons_self) c hc
          exact ⟨List.mem_cons_of_mem _ hfirst.1, hfirst.2⟩
      · have hlater := ih (hs ▸ List.mem_cons_of_mem _ h)
        exact fun c hc => ⟨List.mem_cons_of_mem _ (hlater c hc).1, (hlater c hc).2⟩

/-- No separator is left in the last part. -/
theorem lastPart_separates {c : Char} (hc : c ∈ lastPart separates cs) : separates c = false := by
  have hmem := List.mem_takeWhile_imp (List.mem_reverse.mp hc)
  simpa using hmem

/-- A text without separators is its last part. -/
theorem lastPart_of_not (h : ∀ c ∈ cs, separates c = false) : lastPart separates cs = cs := by
  have hall : cs.reverse.takeWhile (fun c => !separates c) = cs.reverse :=
    List.takeWhile_eq_self_iff.mpr fun c hc => by simp [h c (List.mem_reverse.mp hc)]
  rw [lastPart, hall, List.reverse_reverse]

end Text

namespace Path

variable {dir name : String}

/-- A text that is one part of a path and leads to somewhere in the place
where it is followed. -/
structure IsName (name : String) : Prop where
  nonempty : name ≠ ""
  ne_dot : name ≠ "."
  ne_dots : name ≠ ".."
  slash : '/' ∉ name.toList

/-- A name leads somewhere. -/
theorem IsName.not_idle (h : IsName name) : isIdle name = false := by
  simp [isIdle, h.nonempty, h.ne_dot]

/-- A path without a slash is one part. -/
theorem parts_of_slash_notMem (h : '/' ∉ name.toList) : parts name = [name] := by
  have hsplit : Text.split (· = '/') name.toList = [name.toList] := Text.split_of_not fun c hc => by
    have hne : c ≠ '/' := fun heq => h (heq ▸ hc)
    simpa using hne
  rw [parts, hsplit]
  simp

/-- What stands in a part stands in the path, and is no slash. -/
theorem of_mem_parts {p part : String} (h : part ∈ parts p) :
    ∀ c ∈ part.toList, c ∈ p.toList ∧ c ≠ '/' := by
  obtain ⟨cs, hcs, rfl⟩ := List.mem_map.mp h
  intro c hc
  rw [String.toList_ofList] at hc
  obtain ⟨hmem, hslash⟩ := Text.of_mem_split hcs c hc
  exact ⟨hmem, of_decide_eq_false hslash⟩

/-- **The last part that leads somewhere** is a name. -/
theorem fileName?_eq_some {p : String} (h : fileName? p = some name) :
    IsName name ∧ name ∈ parts p := by
  unfold fileName? at h
  split at h
  · exact absurd h (by simp)
  · rename_i part rest hrest
    split at h
    · exact absurd h (by simp)
    · rename_i hdots
      cases h
      have hmem : name ∈ parts p := by
        have hlater : name ∈ (parts p).reverse.dropWhile isIdle := by simp [hrest]
        exact List.mem_reverse.mp ((List.dropWhile_sublist _).subset hlater)
      have hidle : isIdle name = false := by
        have hhead := List.head?_dropWhile_not isIdle (parts p).reverse
        simpa [hrest] using hhead
      obtain ⟨hempty, hdot⟩ : name ≠ "" ∧ name ≠ "." := by simpa [isIdle] using hidle
      exact ⟨⟨hempty, hdot, hdots, fun hc => (of_mem_parts hmem _ hc).2 rfl⟩, hmem⟩

/-- The parts that lead into a directory. -/
def within (dir : String) : List String :=
  if dir = "" then [] else if endsInSlash dir then (parts dir).dropLast else parts dir

/-- A path that ends in a slash has an empty last part. -/
theorem within_of_endsInSlash (h : endsInSlash dir = true) : parts dir = within dir ++ [""] := by
  have hne : dir ≠ "" := by
    rintro rfl
    exact absurd h (by decide)
  obtain ⟨before, hbefore⟩ := List.getLast?_eq_some_iff.mp (of_decide_eq_true h)
  have hparts : parts dir = (Text.split (· = '/') before).map String.ofList ++ [""] := by
    rw [parts, hbefore, Text.split_append_cons (by simp)]
    simp [Text.split]
  rw [within, if_neg hne, if_pos h, hparts, List.dropLast_concat]

/-- **A name in a directory** is one part more. -/
theorem parts_join (h : '/' ∉ name.toList) : parts (join dir name) = within dir ++ [name] := by
  have hname := parts_of_slash_notMem h
  by_cases hempty : dir = ""
  · subst hempty
    rw [join, if_pos (.inl rfl), String.empty_append, hname]
    rfl
  · cases hslash : endsInSlash dir with
    | true =>
      obtain ⟨before, hbefore⟩ := List.getLast?_eq_some_iff.mp (of_decide_eq_true hslash)
      have hparts := within_of_endsInSlash hslash
      rw [parts, hbefore, Text.split_append_cons (by simp), List.map_append] at hparts
      have hwithin : (Text.split (· = '/') before).map String.ofList = within dir :=
        (List.append_inj' hparts (by simp [Text.split])).1
      rw [join, if_pos (.inr hslash), parts, String.toList_append, hbefore, List.append_assoc,
        List.singleton_append, Text.split_append_cons (by simp), List.map_append, hwithin]
      exact congrArg (within dir ++ ·) hname
    | false =>
      have hjoin : (join dir name).toList = dir.toList ++ '/' :: name.toList := by
        rw [join, if_neg (by simp [hempty, hslash]), String.toList_append, String.toList_append]
        simp
      rw [parts, hjoin, Text.split_append_cons (by simp), List.map_append, within, if_neg hempty,
        if_neg (by simp [hslash])]
      exact congrArg (parts dir ++ ·) hname

/-- The path of a name in a directory is that of the directory, the name,
and at most a slash between the two. -/
theorem join_eq (dir name : String) :
    ∃ between, join dir name = dir ++ between ++ name ∧ ∀ c ∈ between.toList, c = '/' := by
  unfold join
  split
  · exact ⟨"", by simp, by simp⟩
  · exact ⟨"/", rfl, by simp⟩

/-- Joining brings in nothing but a slash. -/
theorem mem_join {c : Char} (hc : c ≠ '/') :
    c ∈ (join dir name).toList ↔ c ∈ dir.toList ∨ c ∈ name.toList := by
  obtain ⟨between, hjoin, hslash⟩ := join_eq dir name
  have hnot : c ∉ between.toList := fun hmem => hc (hslash c hmem)
  rw [hjoin]
  simp [hnot]

/-- A joined path is no shorter than the directory. -/
theorem size_le_join (dir name : String) : dir.utf8ByteSize ≤ (join dir name).utf8ByteSize := by
  obtain ⟨between, hjoin, -⟩ := join_eq dir name
  rw [hjoin, String.utf8ByteSize_append, String.utf8ByteSize_append]
  omega

/-- A name in a directory is looked for from where the directory is. -/
theorem isAbsolute_join (h : IsName name) : isAbsolute (join dir name) = isAbsolute dir := by
  by_cases hempty : dir = ""
  · subst hempty
    have hfirst : name.toList.head? ≠ some '/' := fun hhead =>
      h.slash (List.mem_of_mem_head? hhead)
    rw [join, if_pos (.inl rfl), String.empty_append]
    simpa [isAbsolute] using hfirst
  · obtain ⟨between, hjoin, -⟩ := join_eq dir name
    have hsome : dir.toList ≠ [] := by simpa using hempty
    obtain ⟨c, rest, hdir⟩ := List.exists_cons_of_ne_nil hsome
    rw [isAbsolute, isAbsolute, hjoin]
    simp [hdir]

/-- The path of a name does not end in a slash. -/
theorem endsInSlash_join (h : IsName name) :
    endsInSlash (join dir name) = false := by
  obtain ⟨between, hjoin, -⟩ := join_eq dir name
  have hlast : name.toList.getLast? ≠ some '/' := fun heq =>
    h.slash (List.mem_of_getLast? heq)
  have hsome : name.toList ≠ [] := by simpa using h.nonempty
  obtain ⟨init, c, hinit⟩ := List.eq_nil_or_concat name.toList |>.resolve_left hsome
  rw [hinit] at hlast
  rw [endsInSlash, hjoin]
  simpa [hinit] using hlast

end Path

/-! ## Places

To follow a path is to walk through its parts from the root or from the
working directory. The walk asks the tree for directories only, and in one
direction: more directories lead to more places, and never to others. -/

namespace FileTree

variable {t t' : FileTree} {place base : Place} {dir name path : String}

theorem node?_clear_self (h : place ≠ []) : (t.clear place).node? place = none := by
  have hnot : (t.nodes.filter (·.1 ≠ place)).lookup place = none := by
    refine List.lookup_eq_none_iff.mpr fun n hn => ?_
    have hne : n.1 ≠ place := by simpa using (List.mem_filter.mp hn).2
    simpa using Ne.symm hne
  rw [node?, if_neg h]
  exact hnot

/-- The same directories are there, and the working directory is the same. -/
structure SameDirectories (t t' : FileTree) : Prop where
  here : t'.here = t.here
  directory : ∀ place, t'.node? place = some .directory ↔ t.node? place = some .directory

theorem SameDirectories.symm (h : SameDirectories t t') : SameDirectories t' t :=
  ⟨h.here.symm, fun place => (h.directory place).symm⟩

theorem SameDirectories.trans {t'' : FileTree} (h : SameDirectories t t')
    (h' : SameDirectories t' t'') : SameDirectories t t'' :=
  ⟨h'.here.trans h.here, fun place => (h'.directory place).trans (h.directory place)⟩

/-- **A path is followed part by part.** -/
theorem walk_append (t : FileTree) (base : Place) (before after : List String) :
    t.walk base (before ++ after)
      = (t.walk base before).bind fun middle => t.walk middle after := by
  induction before generalizing base with
  | nil => rfl
  | cons part before ih =>
    rw [List.cons_append, walk, walk]
    cases t.node? base with
    | none => rfl
    | some node =>
      cases node with
      | file data => rfl
      | directory =>
        dsimp only
        split
        · exact ih base
        · split
          · exact ih base.dropLast
          · split
            · rfl
            · exact ih (base ++ [part])

/-- **Only directories lead on,** so a path that leads somewhere leads there
in every tree with the same ones or more. -/
theorem walk_mono (hdirectory : ∀ place, t.node? place = some .directory →
    t'.node? place = some .directory) {parts : List String}
    (hwalk : t.walk base parts = .ok place) : t'.walk base parts = .ok place := by
  induction parts generalizing base with
  | nil => exact hwalk
  | cons part rest ih =>
    rw [walk] at hwalk
    split at hwalk
    · exact absurd hwalk (by simp)
    · exact absurd hwalk (by simp)
    · rename_i hbase
      rw [walk, hdirectory base hbase]
      dsimp only
      split
      · rename_i hidle
        rw [if_pos hidle] at hwalk
        exact ih hwalk
      · rename_i hidle
        rw [if_neg hidle] at hwalk
        split
        · rename_i hdots
          rw [if_pos hdots] at hwalk
          exact ih hwalk
        · rename_i hdots
          rw [if_neg hdots] at hwalk
          split
          · rename_i hlong
            rw [if_pos hlong] at hwalk
            exact absurd hwalk (by simp)
          · rename_i hlong
            rw [if_neg hlong] at hwalk
            exact ih hwalk

/-- **A path leads to the same place in every tree that has the directories it
goes through.** -/
theorem follow_mono (hhere : t'.here = t.here) (hdirectory : ∀ place,
    t.node? place = some .directory → t'.node? place = some .directory) {parts : List String}
    (hfollow : t.follow path parts = .ok place) : t'.follow path parts = .ok place := by
  unfold follow at hfollow ⊢
  split at hfollow
  · exact absurd hfollow (by simp)
  · split at hfollow
    · exact absurd hfollow (by simp)
    · split at hfollow
      · exact absurd hfollow (by simp)
      · rename_i hne hnul hlength
        rw [if_neg hne, if_neg hnul, if_neg hlength, hhere]
        exact walk_mono hdirectory hfollow

/-- So two trees with the same directories resolve paths alike. -/
theorem SameDirectories.locate (h : SameDirectories t t') (hlocate : t.locate path = .ok place) :
    t'.locate path = .ok place :=
  follow_mono h.here (fun place => (h.directory place).mpr) hlocate

/-- A path that leads somewhere has no part that is too long for a name. -/
theorem size_le_of_walk {parts : List String} (hwalk : t.walk base parts = .ok place)
    (hname : Path.IsName name) (hmem : name ∈ parts) : name.utf8ByteSize ≤ maxName := by
  induction parts generalizing base with
  | nil => exact absurd hmem List.not_mem_nil
  | cons part rest ih =>
    rw [walk] at hwalk
    split at hwalk
    · exact absurd hwalk (by simp)
    · exact absurd hwalk (by simp)
    · by_cases hpart : name = part
      · subst hpart
        rw [if_neg (by simp [hname.not_idle]), if_neg hname.ne_dots] at hwalk
        split at hwalk
        · exact absurd hwalk (by simp)
        · rename_i hlong
          exact Nat.le_of_not_lt hlong
      · have hmem := (List.mem_cons.mp hmem).resolve_left hpart
        split at hwalk
        · exact ih hwalk hmem
        · split at hwalk
          · exact ih hwalk hmem
          · split at hwalk
            · exact absurd hwalk (by simp)
            · exact ih hwalk hmem

/-- **The last name of a path that leads somewhere** can be looked for in
any directory. -/
theorem fileName_of_locate (hlocate : t.locate path = .ok place)
    (hlast : Path.fileName? path = some name) :
    Path.IsName name ∧ name.utf8ByteSize ≤ maxName ∧ '\x00' ∉ name.toList := by
  obtain ⟨hname, hmem⟩ := Path.fileName?_eq_some hlast
  unfold locate follow at hlocate
  split at hlocate
  · exact absurd hlocate (by simp)
  · split at hlocate
    · exact absurd hlocate (by simp)
    · rename_i hnul
      split at hlocate
      · exact absurd hlocate (by simp)
      · exact ⟨hname, size_le_of_walk hlocate hname hmem,
          fun hc => hnul (Path.of_mem_parts hmem _ hc).1⟩

/-- From a directory a name leads one further. -/
theorem walk_name (hname : Path.IsName name) :
    t.walk base [name] = .ok place ↔ t.node? base = some .directory ∧
      name.utf8ByteSize ≤ maxName ∧ place = base ++ [name] := by
  rw [walk]
  cases hbase : t.node? base with
  | none => simp
  | some node =>
    cases node with
    | file data => simp
    | directory =>
      dsimp only
      rw [if_neg (by simp [hname.not_idle]), if_neg hname.ne_dots]
      split
      · rename_i hlong
        simp [Nat.not_le.mpr hlong]
      · rename_i hlong
        simp [Nat.le_of_not_lt hlong, walk, eq_comm]

/-- The place of a directory in which names are looked for. To put a name
behind the empty path is to look for it in the working directory. -/
def enter (t : FileTree) (dir : String) : Except IoError Place :=
  if dir = "" then .ok t.here else t.locate dir

/-- No path with a null byte leads anywhere. -/
theorem nul_notMem_of_enter (h : t.enter dir = .ok base) : '\x00' ∉ dir.toList := by
  unfold enter at h
  split at h
  · rename_i hempty
    subst hempty
    exact List.not_mem_nil
  · rename_i hne
    rw [locate, follow, if_neg hne] at h
    split at h
    · exact absurd h (by simp)
    · rename_i hnul
      exact hnul

/-- A path behind which a name can be put. -/
theorem enter_eq (hnul : '\x00' ∉ dir.toList) (hlength : dir.utf8ByteSize ≤ maxPath)
    (hbase : t.node? base = some .directory) :
    t.enter dir = .ok base ↔
      t.walk (if Path.isAbsolute dir then [] else t.here) (Path.within dir) = .ok base := by
  unfold enter
  split
  · rename_i hempty
    subst hempty
    have hwithin : Path.within "" = [] := if_pos rfl
    have hrelative : Path.isAbsolute "" = false := by decide
    rw [hwithin, hrelative]
    exact Iff.rfl
  · rename_i hne
    rw [locate, follow, if_neg hne, if_neg hnul, if_neg (Nat.not_lt.mpr hlength)]
    cases hslash : Path.endsInSlash dir with
    | false =>
      have hwithin : Path.within dir = Path.parts dir := by
        rw [Path.within, if_neg hne, if_neg (by simp [hslash])]
      rw [hwithin]
    | true =>
      -- the empty part behind the last slash leads nowhere, but only from a directory
      rw [Path.within_of_endsInSlash hslash, walk_append]
      cases t.walk (if Path.isAbsolute dir then [] else t.here) (Path.within dir) with
      | error e => exact Iff.rfl
      | ok middle =>
        have hidle : Path.isIdle "" = true := by decide
        show t.walk middle [""] = .ok base ↔ _
        rw [walk]
        constructor
        · intro h
          split at h
          · exact absurd h (by simp)
          · exact absurd h (by simp)
          · rw [if_pos hidle] at h
            exact h
        · intro h
          cases h
          rw [hbase]
          dsimp only
          rw [if_pos hidle]
          rfl

/-- **A name in a directory** is at the place of the directory, one further,
if neither it nor the path is too long. -/
theorem locate_join_iff (hname : Path.IsName name) :
    t.locate (Path.join dir name) = .ok place ↔
      ∃ base, t.enter dir = .ok base ∧ t.node? base = some .directory ∧
        place = base ++ [name] ∧ name.utf8ByteSize ≤ maxName ∧ '\x00' ∉ name.toList ∧
        (Path.join dir name).utf8ByteSize ≤ maxPath := by
  have hne : Path.join dir name ≠ "" := by
    obtain ⟨between, hjoin, -⟩ := Path.join_eq dir name
    rw [hjoin]
    simpa using fun _ _ => hname.nonempty
  rw [locate, follow, if_neg hne, Path.parts_join hname.slash, Path.isAbsolute_join hname,
    walk_append]
  constructor
  · intro h
    split at h
    · exact absurd h (by simp)
    · split at h
      · exact absurd h (by simp)
      · rename_i hnul hlength
        have hnul := not_or.mp fun hor => hnul ((Path.mem_join (by decide)).mpr hor)
        have hlength := Nat.le_of_not_lt hlength
        cases hwalk : t.walk (if Path.isAbsolute dir then [] else t.here) (Path.within dir) with
        | error e =>
          rw [hwalk] at h
          exact absurd h (by simp [Except.bind])
        | ok base =>
          rw [hwalk] at h
          obtain ⟨hbase, hsize, rfl⟩ := (walk_name hname).mp h
          exact ⟨base, (enter_eq hnul.1 (Nat.le_trans (Path.size_le_join dir name) hlength)
            hbase).mpr hwalk, hbase, rfl, hsize, hnul.2, hlength⟩
  · rintro ⟨base, henter, hbase, rfl, hsize, hnul, hlength⟩
    have hnul' := nul_notMem_of_enter henter
    have hwalk := (enter_eq hnul' (Nat.le_trans (Path.size_le_join dir name) hlength) hbase).mp henter
    rw [if_neg fun hmem => not_or.mpr ⟨hnul', hnul⟩ ((Path.mem_join (by decide)).mp hmem),
      if_neg (Nat.not_lt.mpr hlength), hwalk]
    exact (walk_name hname).mpr ⟨hbase, hsize, rfl⟩

theorem SameDirectories.enter (h : SameDirectories t t') (henter : t.enter dir = .ok base) :
    t'.enter dir = .ok base := by
  unfold FileTree.enter at henter ⊢
  split
  · rename_i hempty
    rw [if_pos hempty] at henter
    rw [h.here]
    exact henter
  · rename_i hne
    rw [if_neg hne] at henter
    exact h.locate henter

/-! ## Files come and go

A file that is put where no directory stands, or taken away, changes no
walk. -/

/-- The root is a directory, so what is none is not the root. -/
theorem ne_nil_of_node? (h : t.node? place ≠ some .directory) : place ≠ [] := by
  rintro rfl
  exact h (if_pos rfl)

/-- **A file that was created** is an empty one at a place where nothing was. -/
theorem createNew_ok {path : String} (h : t.createNew path = .ok t') :
    ∃ place, t.locate path = .ok place ∧ t.node? place = none ∧ t' = t.put place (.file []) := by
  unfold createNew at h
  cases hlocate : t.locate path with
  | error e =>
    rw [hlocate] at h
    cases h
  | ok place =>
    rw [hlocate] at h
    cases hnode : t.node? place with
    | some node =>
      simp only [bind, Except.bind, hnode] at h
      cases h
    | none =>
      simp only [bind, Except.bind, hnode] at h
      cases h
      exact ⟨place, rfl, hnode, rfl⟩

/-- **To put a file anywhere** leaves the directories as they are. -/
theorem sameDirectories_put (h : t.node? place ≠ some .directory) (data : Bytes) :
    SameDirectories t (t.put place (.file data)) := by
  refine ⟨rfl, fun other => ?_⟩
  by_cases heq : other = place
  · subst heq
    rw [node?_put_self (ne_nil_of_node? h)]
    simp [h]
  · rw [node?_put_of_ne heq]

end FileTree

end Lockbox
