import Lockbox.Proofs.Head
import Mathlib.Data.List.Basic
import Mathlib.Data.List.Induction
/-!
# Lockbox — what a table of locks lists

A place of the table holds a lock, if its entry is one whose capsule
readers take, or it is at fault (`Table.lockAt?`, `Table.Faulty`). A lenient
reading gives the locks in their order and counts the places at fault; a
strict one gives the same locks if no place is at fault, and otherwise fails
with the first of them (`Table.read_lenient`, `Table.read_strict_cases`).
What else a head says does not depend on how its table is read
(`ParsedHeader.read_other`).
-/

namespace Lockbox

namespace Table

/-- The lock at a place of the table: what its entry says, with the place as
its index, if the entry is a lock whose capsule readers take. -/
def lockAt? (entries : List Json) (i : Nat) : Option Lock := do
  let stored ← Lock.ofJson? Header.entryRoom (← entries[i]?)
  match stored.capsule.check with
  | .ok () => some { stored with index := i }
  | .error _ => none

/-- What is wrong with the entry at a place of the table. -/
inductive Faulty (entries : List Json) (i : Nat) : ParseFault → Prop where
  | unreadable {entry : Json} (hentry : entries[i]? = some entry)
      (hno : Lock.ofJson? Header.entryRoom entry = none) : Faulty entries i (.unreadableLock i)
  | iterations {entry : Json} {stored : Lock} {f : IterationFault}
      (hentry : entries[i]? = some entry)
      (hlock : Lock.ofJson? Header.entryRoom entry = some stored)
      (hcheck : stored.capsule.check = .error f) : Faulty entries i (.lockIterations i f)

/-- The first place of the table that is at fault, and what is wrong there. -/
def FirstFaulty (entries : List Json) (i : Nat) (f : ParseFault) : Prop :=
  Faulty entries i f ∧ ∀ j < i, (lockAt? entries j).isSome

/-- The locks of a table in their order. -/
def locksOf (entries : List Json) : List Lock :=
  (List.range entries.length).filterMap (lockAt? entries)

/-- How many places of a table are at fault. -/
def faultsOf (entries : List Json) : Nat :=
  (List.range entries.length).countP fun i => (lockAt? entries i).isNone

variable {entries : List Json} {entry : Json} {i : Nat} {lock : Lock} {f : ParseFault}

/-! ## One place

An entry of the table is a lock or it is at fault, and which of the two does
not depend on the others or on the mode. -/

theorem lockAt?_eq_lockOf? (h : entries[i]? = some entry) :
    lockAt? entries i = lockOf? (readEntry entry i) := by
  simp only [lockAt?, h, Option.bind_eq_bind, Option.bind_some, readEntry]
  cases Lock.ofJson? Header.entryRoom entry with
  | none => rfl
  | some stored =>
    rw [Option.bind_some]
    dsimp only
    cases stored.capsule.check <;> rfl

/-- An entry that cannot be read is faulty, by that fault. -/
theorem faulty_of_readEntry (h : entries[i]? = some entry) (he : readEntry entry i = .error f) :
    Faulty entries i f := by
  unfold readEntry at he
  split at he
  · rename_i hno
    cases he
    exact .unreadable h hno
  · rename_i stored hlock
    split at he
    · rename_i g hcheck
      cases he
      exact .iterations h hlock hcheck
    · exact absurd he (by simp)

/-- **A lock of the table has the place of its entry,** and readers take its
capsule. -/
theorem lockAt?_some (h : lockAt? entries i = some lock) :
    i < entries.length ∧ lock.index = i ∧ lock.capsule.check = .ok () := by
  unfold lockAt? at h
  obtain ⟨entry, hentry, h⟩ := Option.bind_eq_some_iff.mp h
  obtain ⟨stored, -, h⟩ := Option.bind_eq_some_iff.mp h
  split at h
  · rename_i hcheck
    cases h
    exact ⟨(List.getElem?_eq_some_iff.mp hentry).1, rfl, hcheck⟩
  · exact absurd h (by simp)

theorem Faulty.lt (h : Faulty entries i f) : i < entries.length := by
  cases h with
  | unreadable hentry => exact (List.getElem?_eq_some_iff.mp hentry).1
  | iterations hentry => exact (List.getElem?_eq_some_iff.mp hentry).1

/-- A place at fault holds no lock. -/
theorem Faulty.lockAt?_eq (h : Faulty entries i f) : lockAt? entries i = none := by
  cases h with
  | unreadable hentry hno => simp [lockAt?, hentry, hno]
  | iterations hentry hlock hcheck => simp [lockAt?, hentry, hlock, hcheck]

/-- Entries that are appended leave the places before them as they are. -/
theorem lockAt?_append (entries more : List Json) (h : i < entries.length) :
    lockAt? (entries ++ more) i = lockAt? entries i := by
  simp only [lockAt?, List.getElem?_append_left h]

theorem Faulty.append (h : Faulty entries i f) (more : List Json) : Faulty (entries ++ more) i f := by
  cases h with
  | unreadable hentry hno =>
    refine .unreadable ?_ hno
    rw [List.getElem?_append_left (List.getElem?_eq_some_iff.mp hentry).1, hentry]
  | iterations hentry hlock hcheck =>
    refine .iterations ?_ hlock hcheck
    rw [List.getElem?_append_left (List.getElem?_eq_some_iff.mp hentry).1, hentry]

/-- Entries behind it do not change which is the first one. -/
theorem FirstFaulty.append (h : FirstFaulty entries i f) (more : List Json) :
    FirstFaulty (entries ++ more) i f := by
  obtain ⟨hfaulty, hbefore⟩ := h
  refine ⟨hfaulty.append more, fun j hj => ?_⟩
  rw [lockAt?_append entries more (Nat.lt_trans hj hfaulty.lt)]
  exact hbefore j hj

/-- A table with a place at fault counts one. -/
theorem Faulty.faultsOf_ne (h : Faulty entries i f) : faultsOf entries ≠ 0 := by
  intro hzero
  have hlock := List.countP_eq_zero.mp hzero i (List.mem_range.mpr h.lt)
  exact hlock (by rw [h.lockAt?_eq]; rfl)

/-! ## The table

Both readings go through the same entries. The lenient one keeps the locks,
the strict one stops at the first fault. -/

/-- What the last entry adds to the locks. -/
theorem locksOf_concat (entries : List Json) (entry : Json) :
    locksOf (entries ++ [entry])
      = locksOf entries ++ (lockOf? (readEntry entry entries.length)).toList := by
  have hlast : (entries ++ [entry])[entries.length]? = some entry := by simp
  have hbefore : (List.range entries.length).filterMap (lockAt? (entries ++ [entry]))
      = locksOf entries :=
    List.filterMap_congr fun i hi => lockAt?_append entries [entry] (List.mem_range.mp hi)
  rw [locksOf, List.length_append, List.length_singleton, List.range_succ, List.filterMap_append,
    hbefore, List.filterMap_cons, lockAt?_eq_lockOf? hlast]
  cases lockOf? (readEntry entry entries.length) <;> rfl

/-- Each entry is read by itself, with its index. -/
theorem readEntries_concat (entries : List Json) (entry : Json) :
    readEntries (entries ++ [entry]) = readEntries entries ++ [readEntry entry entries.length] := by
  simp [readEntries, List.zipIdx_append]

/-- **Every entry is a lock or is counted as a fault.** -/
theorem length_locksOf_add (entries : List Json) :
    (locksOf entries).length + faultsOf entries = entries.length := by
  have hcount := List.length_eq_countP_add_countP (fun i => (lockAt? entries i).isSome)
    (l := List.range entries.length)
  rw [List.length_range] at hcount
  simp only [Bool.not_eq_true, Option.isSome_eq_false_iff, Bool.decide_eq_true] at hcount
  rw [locksOf, List.length_filterMap_eq_countP, faultsOf]
  exact hcount.symm

/-- **A lenient reading gives the locks in their order** and counts the
places at fault. -/
theorem read_lenient (entries : List Json) :
    read true entries = .ok (locksOf entries, faultsOf entries) := by
  have hlocks : (readEntries entries).filterMap lockOf? = locksOf entries := by
    induction entries using List.reverseRecOn with
    | nil => rfl
    | append_singleton entries entry ih =>
      rw [readEntries_concat, List.filterMap_append, ih, locksOf_concat, List.filterMap_cons]
      cases lockOf? (readEntry entry entries.length) <;> rfl
  have hlength : (readEntries entries).length = entries.length := by simp [readEntries]
  have hadd := length_locksOf_add entries
  simp only [read, if_true, hlocks, hlength]
  rw [← hadd, Nat.add_sub_cancel_left]

/-- **A strict reading gives the same locks, or fails with the first place
that is at fault.** -/
theorem read_strict_cases (entries : List Json) :
    (faultsOf entries = 0 ∧ read false entries = .ok (locksOf entries, 0)) ∨
    ∃ i f, FirstFaulty entries i f ∧ read false entries = .error f := by
  -- on the entries read so far, because a strict reading stops at the first fault
  suffices h : ((∀ i < entries.length, (lockAt? entries i).isSome) ∧
      (readEntries entries).mapM id = .ok (locksOf entries)) ∨
      ∃ i f, FirstFaulty entries i f ∧ (readEntries entries).mapM id = .error f by
    obtain ⟨hall, hread⟩ | ⟨i, f, hfirst, hread⟩ := h
    · refine .inl ⟨?_, by simp only [read, Bool.false_eq_true, if_false, hread]; rfl⟩
      refine List.countP_eq_zero.mpr fun i hi => ?_
      simpa [Option.isSome_iff_ne_none] using hall i (List.mem_range.mp hi)
    · exact .inr ⟨i, f, hfirst, by simp only [read, Bool.false_eq_true, if_false, hread]; rfl⟩
  induction entries using List.reverseRecOn with
  | nil => exact .inl ⟨fun i hi => absurd hi (by simp), rfl⟩
  | append_singleton entries entry ih =>
    have hlast : (entries ++ [entry])[entries.length]? = some entry := by simp
    have hlock := lockAt?_eq_lockOf? hlast
    rw [readEntries_concat, List.mapM_append]
    obtain ⟨hall, hread⟩ | ⟨i, f, hfirst, hread⟩ := ih
    · have hbefore : ∀ j < entries.length, (lockAt? (entries ++ [entry]) j).isSome := fun j hj => by
        rw [lockAt?_append entries [entry] hj]
        exact hall j hj
      rw [hread, locksOf_concat]
      cases hentry : readEntry entry entries.length with
      | error f =>
        exact .inr ⟨entries.length, f, ⟨faulty_of_readEntry hlast hentry, hbefore⟩, rfl⟩
      | ok lock =>
        refine .inl ⟨fun j hj => ?_, rfl⟩
        rw [List.length_append, List.length_singleton] at hj
        rcases Nat.lt_succ_iff_lt_or_eq.mp hj with hlt | rfl
        · exact hbefore j hlt
        · rw [hlock, hentry]
          rfl
    · rw [hread]
      exact .inr ⟨i, f, hfirst.append [entry], rfl⟩

/-- **Every lock of a table says its place,** and readers take its capsule. -/
theorem mem_locksOf_iff : lock ∈ locksOf entries ↔ lockAt? entries lock.index = some lock := by
  rw [locksOf, List.mem_filterMap]
  constructor
  · rintro ⟨i, -, hlock⟩
    rwa [(lockAt?_some hlock).2.1]
  · exact fun hlock => ⟨lock.index, List.mem_range.mpr (lockAt?_some hlock).1, hlock⟩

/-- The lock that is found under an index is the one at that place. -/
theorem find?_locksOf (entries : List Json) (i : Nat) :
    (locksOf entries).find? (·.index = i) = lockAt? entries i := by
  cases hlock : lockAt? entries i with
  | none =>
    refine List.find?_eq_none.mpr fun lock hmem hindex => ?_
    have hat := mem_locksOf_iff.mp hmem
    rw [of_decide_eq_true hindex, hlock] at hat
    exact absurd hat (by simp)
  | some lock =>
    have hindex := (lockAt?_some hlock).2.1
    have hmem : lock ∈ locksOf entries := mem_locksOf_iff.mpr (by rw [hindex, hlock])
    cases hfound : (locksOf entries).find? (·.index = i) with
    | none => exact absurd (List.find?_eq_none.mp hfound lock hmem) (by simp [hindex])
    | some found =>
      have hat := mem_locksOf_iff.mp (List.mem_of_find?_eq_some hfound)
      have hplace : found.index = i := by simpa using List.find?_some hfound
      rw [hplace, hlock] at hat
      exact hat.symm

end Table

/-! ## Headers -/

namespace ParsedHeader

/-- What a header in JSON stores: the suite, the nonce and the entries of
its table. -/
def stored? (json : Bytes) : Option (String × Octets 24 × List Json) := do
  let (suite, nonce, entries) ← Header.parts? (← Json.parse? json)
  return (suite, nonce, ← entries.mapM (Json.settle Header.entryRoom))

/-- **A header is read from what it stores.** -/
theorem interpret_ok {lenient : Bool} {json : Bytes} {nonce : Octets 24} {locks : List Lock}
    {skipped : Nat} (h : interpret lenient json = .ok (nonce, locks, skipped)) :
    ∃ entries, stored? json = some (Suite.name, nonce, entries) ∧
      Table.read lenient entries = .ok (locks, skipped) ∧
      ∀ other, interpret other json
        = (Table.read other entries).map fun table => (nonce, table.1, table.2) := by
  rw [interpret] at h
  dsimp only at h
  split at h
  · exact absurd h (by simp)
  · rename_i suite nonce' entries hstored
    split at h
    · exact absurd h (by simp)
    · rename_i hsuite
      split at h
      · exact absurd h (by simp)
      · rename_i hentries
        cases htable : Table.read lenient entries with
        | error f =>
          rw [htable] at h
          exact absurd h (by simp [bind, Except.bind])
        | ok table =>
          rw [htable] at h
          cases h
          rw [Classical.not_not.mp hsuite] at hstored
          refine ⟨entries, hstored, htable, fun other => ?_⟩
          rw [interpret]
          simp only [hstored, ne_eq, not_true_eq_false, if_false, if_neg hentries]
          cases Table.read other entries <;> rfl

/-- **Where a head was read, only its table can be read otherwise.** -/
theorem read_other {lenient : Bool} {source rest : Source} {p : ParsedHeader}
    (h : read lenient source = (.ok p, rest)) (other : Bool) :
    read other source = match interpret other p.json with
      | .error f => (.error (.parse f), rest)
      | .ok (payloadNonce, locks, skipped) => (.ok { p with payloadNonce, locks, skipped }, rest) := by
  unfold read at h ⊢
  split at h
  · exact absurd (Prod.mk.inj h).1 (by simp)
  · split at h
    · exact absurd (Prod.mk.inj h).1 (by simp)
    · split at h
      · exact absurd (Prod.mk.inj h).1 (by simp)
      · split at h
        · exact absurd (Prod.mk.inj h).1 (by simp)
        · split at h
          · exact absurd (Prod.mk.inj h).1 (by simp)
          · obtain ⟨hp, rfl⟩ := Prod.mk.inj h
            cases hp
            rfl

/-- The lock that a head has under an index is the one at that place of the
table. -/
theorem lock?_eq {p : ParsedHeader} {entries : List Json} (h : p.locks = Table.locksOf entries)
    (i : Nat) : p.lock? i = Table.lockAt? entries i := by
  rw [lock?, h, Table.find?_locksOf]

/-- **A head that was read lists the locks of its table,** whether strictly
or not; strictly, no place of it is at fault. -/
theorem read_lists {lenient : Bool} {source rest : Source} {p : ParsedHeader}
    (h : read lenient source = (.ok p, rest)) :
    ∃ entries, stored? p.json = some (Suite.name, p.payloadNonce, entries) ∧
      p.locks = Table.locksOf entries ∧ p.skipped = Table.faultsOf entries ∧
      (lenient = false → p.skipped = 0) ∧
      ∀ other, interpret other p.json
        = (Table.read other entries).map fun table => (p.payloadNonce, table.1, table.2) := by
  obtain ⟨-, -, -, -, -, hinterpret⟩ := read_ok h
  obtain ⟨entries, hstored, htable, hother⟩ := interpret_ok hinterpret
  refine ⟨entries, hstored, ?_⟩
  cases lenient with
  | true =>
    rw [Table.read_lenient] at htable
    obtain ⟨hlocks, hskipped⟩ := Prod.mk.inj (Except.ok.inj htable)
    exact ⟨hlocks.symm, hskipped.symm, fun hfalse => absurd hfalse (by simp), hother⟩
  | false =>
    obtain ⟨hnone, hread⟩ | ⟨i, f, -, hread⟩ := Table.read_strict_cases entries
    · rw [hread] at htable
      obtain ⟨hlocks, hskipped⟩ := Prod.mk.inj (Except.ok.inj htable)
      exact ⟨hlocks.symm, hskipped.symm.trans hnone.symm, fun _ => hskipped.symm, hother⟩
    · rw [hread] at htable
      exact absurd htable (by simp)

/-- **What is read strictly is read leniently too.** -/
theorem read_true_of_read {lenient : Bool} {source rest : Source} {p : ParsedHeader}
    (h : read lenient source = (.ok p, rest)) : read true source = (.ok p, rest) := by
  obtain ⟨entries, -, hlocks, hskipped, -, hother⟩ := read_lists h
  rw [read_other h, hother, Table.read_lenient, ← hlocks, ← hskipped]
  rfl

/-- **What is read leniently is read strictly,** if no entry was left out,
and otherwise the first place at fault is what that fails with. -/
theorem read_false_cases {source rest : Source} {p : ParsedHeader}
    (h : read true source = (.ok p, rest)) {entries : List Json}
    (hstored : stored? p.json = some (Suite.name, p.payloadNonce, entries)) :
    (p.skipped = 0 ∧ read false source = (.ok p, rest)) ∨
    (p.skipped ≠ 0 ∧ ∃ i f, Table.FirstFaulty entries i f ∧
      read false source = (.error (.parse f), rest)) := by
  obtain ⟨entries', hstored', hlocks, hskipped, -, hother⟩ := read_lists h
  obtain rfl : entries' = entries := by
    rw [hstored] at hstored'
    cases hstored'
    rfl
  obtain ⟨hnone, htable⟩ | ⟨i, f, hfirst, htable⟩ := Table.read_strict_cases entries'
  · refine .inl ⟨hskipped.trans hnone, ?_⟩
    rw [read_other h, hother, htable, ← hlocks, ← hskipped.trans hnone]
    rfl
  · refine .inr ⟨fun hnone => hfirst.1.faultsOf_ne (hskipped.symm.trans hnone), i, f, hfirst, ?_⟩
    rw [read_other h, hother, htable]
    rfl

/-- **To read strictly is to read leniently with no entry left out.** -/
theorem read_false_iff {source rest : Source} {p : ParsedHeader} :
    read false source = (.ok p, rest) ↔ read true source = (.ok p, rest) ∧ p.skipped = 0 := by
  constructor
  · intro h
    obtain ⟨-, -, -, -, hnone, -⟩ := read_lists h
    exact ⟨read_true_of_read h, hnone rfl⟩
  · rintro ⟨h, hnone⟩
    obtain ⟨entries, hstored, -⟩ := read_lists h
    obtain ⟨-, hstrict⟩ | ⟨hne, -⟩ := read_false_cases h hstored
    · exact hstrict
    · exact absurd hnone hne

end ParsedHeader

end Lockbox
