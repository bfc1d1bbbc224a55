import Lockbox.Error
import Lockbox.Proofs.Places
/-!
# Lockbox — labels read back

A written label reads back as the pairs it was written from, in their
order, whatever characters their keys and values hold: an escaped text
holds neither an ampersand nor an equals sign, so both levels of splitting
cut exactly where writing joined (`Label.parse_render`). A label is written
exactly for keys that are not empty and do not occur twice; every other list
is refused at the first key that breaks this (`Label.checkKeys_eq_error`).
-/

namespace Lockbox

/-! ## Splitting what was joined

To split at a separator undoes joining with it, if no part contains it. -/

namespace Text

/-- Parts without separators are the parts of the text that has a separator
between them. -/
theorem split_intercalate {separator : Char} {parts : List (List Char)} (hne : parts ≠ [])
    (hfree : ∀ part ∈ parts, separator ∉ part) :
    split (· = separator) ([separator].intercalate parts) = parts := by
  induction parts with
  | nil => exact absurd rfl hne
  | cons part parts ih =>
    have hpart : split (· = separator) part = [part] := split_of_not fun c hc => by
      have hother : c ≠ separator := fun h => hfree part List.mem_cons_self (h ▸ hc)
      simpa using hother
    cases parts with
    | nil => simpa using hpart
    | cons next parts =>
      have hrest := ih (List.cons_ne_nil _ _) fun p hp => hfree p (List.mem_cons_of_mem _ hp)
      rw [List.intercalate_cons_cons, List.append_assoc, List.singleton_append,
        split_append_cons (by simp), hpart, hrest]
      rfl

/-- A text is cut at the separator behind a part that has none. -/
theorem cut?_append_cons {separator : Char} {before : List Char} (hfree : separator ∉ before)
    (after : List Char) : cut? separator (before ++ separator :: after) = some (before, after) := by
  have hother : ∀ c ∈ before, decide (c ≠ separator) = true := fun c hc => by
    simpa using fun h : c = separator => hfree (h ▸ hc)
  rw [cut?, List.dropWhile_append_of_pos hother, List.takeWhile_append_of_pos hother]
  simp

/-- A text is cut where the separator is for the first time. -/
theorem cut?_eq_some_iff {separator : Char} {cs before after : List Char} :
    cut? separator cs = some (before, after) ↔
      separator ∉ before ∧ cs = before ++ separator :: after := by
  constructor
  · intro h
    unfold cut? at h
    split at h
    · exact absurd h (by simp)
    · rename_i c rest hdrop
      cases h
      have hsplit := List.takeWhile_append_dropWhile (p := fun d => decide (d ≠ separator)) (l := cs)
      have hhead : decide (c ≠ separator) = false := by
        have hnot := List.head?_dropWhile_not (fun d => decide (d ≠ separator)) cs
        rw [hdrop] at hnot
        simpa using hnot
      have hc : c = separator := by simpa using hhead
      refine ⟨fun hmem => ?_, ?_⟩
      · have htrue := List.all_takeWhile (p := fun d => decide (d ≠ separator)) (l := cs)
        have hother := List.all_eq_true.mp htrue separator hmem
        simp at hother
      · rw [hdrop, hc] at hsplit
        exact hsplit.symm
  · rintro ⟨hfree, rfl⟩
    exact cut?_append_cons hfree after

end Text

/-! ## Escaped texts

After escaping none of the delimiters is left in a text, so it can stand
between them. -/

namespace Percent

/-- An escaped text holds none of the characters that a label is put
together with. -/
theorem plain_of_mem_escape {s : String} {c : Char} (h : c ∈ escape s) : c ≠ '&' ∧ c ≠ '=' := by
  have hbyte : ∀ n : Fin 256,
      (escapeByte n.val.toUInt8).all (fun c => c ≠ '&' ∧ c ≠ '=') = true := by
    decide +kernel
  obtain ⟨b, -, hc⟩ := List.mem_flatMap.mp h
  have hall := List.all_eq_true.mp (hbyte ⟨b.toNat, b.toNat_lt⟩) c (by simpa using hc)
  simpa using hall

end Percent

namespace Label

variable {pairs : List (String × String)} {seen keys : List String}

/-- An escaped text stands for the text. -/
theorem unescape_escape (s : String) : unescape (Percent.escape s) = .ok s := by
  rw [unescape, Percent.unescape?_escape]
  simp

/-! ## Keys -/

/-- Keys are accepted if they are not empty, do not occur twice and were not
seen before. -/
theorem checkKeys_eq_ok_iff :
    checkKeys seen keys = .ok () ↔ "" ∉ keys ∧ keys.Nodup ∧ ∀ k ∈ keys, k ∉ seen := by
  induction keys generalizing seen with
  | nil => simp [checkKeys]
  | cons k keys ih =>
    rw [checkKeys]
    by_cases hempty : k = ""
    · simp [hempty]
    by_cases hseen : k ∈ seen
    · simp [hempty, hseen]
    rw [if_neg hempty, if_neg hseen, ih]
    have hempty' : ¬ "" = k := fun h => hempty h.symm
    simp only [List.mem_cons, List.nodup_cons, hempty', false_or, forall_eq_or_imp, hseen,
      not_false_eq_true, true_and, not_or]
    constructor
    · rintro ⟨hnone, hnodup, hfresh⟩
      exact ⟨hnone, ⟨fun hk => (hfresh k hk).1 rfl, hnodup⟩, fun j hj => (hfresh j hj).2⟩
    · rintro ⟨hnone, ⟨hk, hnodup⟩, hfresh⟩
      exact ⟨hnone, hnodup, fun j hj => ⟨fun h => hk (h ▸ hj), hfresh j hj⟩⟩

/-- What is wrong with a key behind others. -/
def Refuses (before : List String) (k : String) : Fault → Prop
  | .emptyKey => k = ""
  | .duplicateKey other => k ≠ "" ∧ k ∈ before ∧ other = k
  | _ => False

/-- **Keys are refused at the first one that is empty or was there before.** -/
theorem checkKeys_eq_error {f : Fault} (h : checkKeys seen keys = .error f) :
    ∃ before k after, keys = before ++ k :: after ∧ checkKeys seen before = .ok () ∧
      Refuses (seen ++ before) k f := by
  induction keys generalizing seen with
  | nil => simp [checkKeys] at h
  | cons k keys ih =>
    rw [checkKeys] at h
    by_cases hempty : k = ""
    · rw [if_pos hempty] at h
      cases h
      exact ⟨[], k, keys, rfl, rfl, hempty⟩
    rw [if_neg hempty] at h
    by_cases hseen : k ∈ seen
    · rw [if_pos hseen] at h
      cases h
      exact ⟨[], k, keys, rfl, rfl, hempty, by simpa using hseen, rfl⟩
    rw [if_neg hseen] at h
    obtain ⟨before, j, after, rfl, hbefore, hj⟩ := ih h
    refine ⟨k :: before, j, after, rfl, ?_, ?_⟩
    · rw [checkKeys, if_neg hempty, if_neg hseen, hbefore]
    · cases f <;> simp only [Refuses, List.mem_append, List.mem_cons] at hj ⊢ <;> grind

/-! ## Components -/

/-- A component is cut into its escaped key and value. -/
theorem cut?_component (p : String × String) :
    Text.cut? '=' (component p) = some (Percent.escape p.1, Percent.escape p.2) :=
  Text.cut?_append_cons (fun h => (Percent.plain_of_mem_escape h).2 rfl) _

/-- No ampersand is left in a component. -/
theorem ampersand_notMem_component (p : String × String) : '&' ∉ component p := by
  intro h
  rcases List.mem_append.mp h with h | h
  · exact (Percent.plain_of_mem_escape h).1 rfl
  · rcases List.mem_cons.mp h with h | h
    · exact absurd h (by decide)
    · exact (Percent.plain_of_mem_escape h).1 rfl

/-- A component is read as its pair where its key is allowed. -/
theorem readComponent_component {p : String × String} (hempty : p.1 ≠ "") (hseen : p.1 ∉ seen) :
    readComponent seen (component p) = .ok p := by
  have hequals : '=' ∉ Percent.escape p.2 := fun h => (Percent.plain_of_mem_escape h).2 rfl
  simp only [readComponent, cut?_component, if_neg hequals, unescape_escape, bind, Except.bind,
    pure, Except.pure, if_neg hempty, if_neg hseen]

/-- Components are read as their pairs, behind those read before. -/
theorem readComponents_map (done : List (String × String))
    (h : checkKeys (done.map Prod.fst) (pairs.map Prod.fst) = .ok ()) :
    readComponents done (pairs.map component) = .ok (done.reverse ++ pairs) := by
  induction pairs generalizing done with
  | nil => simp [readComponents]
  | cons p pairs ih =>
    rw [List.map_cons, checkKeys] at h
    by_cases hempty : p.1 = ""
    · simp [hempty] at h
    by_cases hseen : p.1 ∈ done.map Prod.fst
    · rw [if_neg hempty, if_pos hseen] at h
      cases h
    rw [if_neg hempty, if_neg hseen] at h
    have hrest := ih (p :: done) (by simpa using h)
    rw [List.map_cons, readComponents, readComponent_component hempty hseen]
    simpa [bind, Except.bind] using hrest

/-! ## Labels

A label is a prefix, and components with a key and a value each. Building it
checks the keys, and reading checks them again. -/

/-- A label is written exactly where its keys are accepted. -/
theorem build_eq_ok_iff {s : String} :
    build pairs = .ok s ↔ checkKeys [] (pairs.map Prod.fst) = .ok () ∧ render pairs = s := by
  unfold build
  cases hkeys : checkKeys [] (pairs.map Prod.fst) with
  | ok u => simp [bind, Except.bind, pure, Except.pure]
  | error f => simp [bind, Except.bind]

/-- A label is refused for its keys and for nothing else. -/
theorem build_eq_error_iff {f : Fault} :
    build pairs = .error f ↔ checkKeys [] (pairs.map Prod.fst) = .error f := by
  unfold build
  cases hkeys : checkKeys [] (pairs.map Prod.fst) <;> simp [bind, Except.bind, pure, Except.pure]

/-- The components of a written body are those it was joined from. -/
theorem components_intercalate (hne : pairs ≠ []) :
    components (['&'].intercalate (pairs.map component)) = pairs.map component := by
  refine Text.split_intercalate (by simpa using hne) fun part hpart => ?_
  obtain ⟨p, -, rfl⟩ := List.mem_map.mp hpart
  exact ampersand_notMem_component p

/-- A body with a component in it is not empty. -/
theorem body_ne_nil (p : String × String) :
    ['&'].intercalate ((p :: pairs).map component) ≠ [] := by
  have hcomponent : component p ≠ [] := by simp [component]
  cases pairs with
  | nil => simpa using hcomponent
  | cons next pairs =>
    rw [List.map_cons, List.map_cons, List.intercalate_cons_cons]
    simp

/-- **Reading undoes writing**, for keys that a label can carry. -/
theorem parse_render (h : checkKeys [] (pairs.map Prod.fst) = .ok ()) :
    parse (render pairs) = .ok pairs := by
  have htake : (start ++ ['&'].intercalate (pairs.map component)).take start.length = start :=
    List.take_left' rfl
  have hdrop : (start ++ ['&'].intercalate (pairs.map component)).drop start.length
      = ['&'].intercalate (pairs.map component) := List.drop_left' rfl
  simp only [parse, render, String.toList_ofList, htake, if_true, hdrop]
  cases pairs with
  | nil => rfl
  | cons p pairs =>
    split
    · next hnil => exact absurd hnil (body_ne_nil p)
    · rw [components_intercalate (List.cons_ne_nil _ _)]
      exact readComponents_map [] h

/-- A label that was written reads back as its pairs. -/
theorem parse_of_build {s : String} (h : build pairs = .ok s) : parse s = .ok pairs := by
  obtain ⟨hkeys, rfl⟩ := build_eq_ok_iff.mp h
  exact parse_render hkeys

/-- The value of a key in a written label is looked up in its pairs. -/
theorem value?_of_build {s : String} (h : build pairs = .ok s) (key : String) :
    value? s key = pairs.lookup key := by
  rw [value?, parse_of_build h]

/-- A key that occurs once is looked up as the value it is paired with. -/
theorem lookup_of_mem {k v : String} (hnodup : (pairs.map Prod.fst).Nodup)
    (hmem : (k, v) ∈ pairs) : pairs.lookup k = some v := by
  induction pairs with
  | nil => cases hmem
  | cons p pairs ih =>
    obtain ⟨j, w⟩ := p
    rw [List.map_cons, List.nodup_cons] at hnodup
    rcases List.mem_cons.mp hmem with h | h
    · cases h
      simp
    · have hkey : k ∈ pairs.map Prod.fst := List.mem_map_of_mem h
      have hne : k ≠ j := fun heq => hnodup.1 (heq ▸ hkey)
      have hlookup := ih hnodup.2 h
      rw [List.lookup_cons, beq_false_of_ne hne]
      exact hlookup

/-- A key that does not occur is looked up as nothing. -/
theorem lookup_of_notMem {k : String} (h : k ∉ pairs.map Prod.fst) : pairs.lookup k = none := by
  rw [List.lookup_eq_none_iff]
  intro p hp
  have hne : k ≠ p.1 := fun heq => h (heq ▸ List.mem_map_of_mem hp)
  simpa using hne

end Label

/-! ## The codec -/

/-- **The label codec.** A list of pairs has a label exactly if no key is
empty and none occurs twice; any other list is a failure of format at the
first key that is empty or was there before. The label of a list is read
back as that list, no other list has it, and it holds for each key the value
paired with it and for every other key nothing. -/
theorem label_codec (pairs : List (String × String)) :
    ((∃ s, Label.build pairs = .ok s) ↔
      (∀ p ∈ pairs, p.1 ≠ "") ∧ (pairs.map Prod.fst).Nodup) ∧
    (¬ ((∀ p ∈ pairs, p.1 ≠ "") ∧ (pairs.map Prod.fst).Nodup) →
      ∃ f before k after, (Label.build pairs).mapError Error.format = .error (.format f) ∧
        pairs.map Prod.fst = before ++ k :: after ∧ "" ∉ before ∧ before.Nodup ∧
        Label.Refuses before k f) ∧
    ∀ s, Label.build pairs = .ok s →
      Label.parse s = .ok pairs ∧
      (∀ others, Label.build others = .ok s → others = pairs) ∧
      (∀ k v, (k, v) ∈ pairs → Label.value? s k = some v) ∧
      ∀ k, k ∉ pairs.map Prod.fst → Label.value? s k = none := by
  have hempty : (∀ p ∈ pairs, p.1 ≠ "") ↔ "" ∉ pairs.map Prod.fst :=
    ⟨fun h hmem => by
      obtain ⟨p, hp, heq⟩ := List.mem_map.mp hmem
      exact h p hp heq,
    fun h p hp heq => h (List.mem_map.mpr ⟨p, hp, heq⟩)⟩
  have hbuilds : (∃ s, Label.build pairs = .ok s) ↔
      (∀ p ∈ pairs, p.1 ≠ "") ∧ (pairs.map Prod.fst).Nodup := by
    rw [hempty]
    simp only [Label.build_eq_ok_iff, Label.checkKeys_eq_ok_iff, exists_and_left, exists_eq',
      List.not_mem_nil, not_false_eq_true, implies_true, and_true]
  refine ⟨hbuilds, fun hrefused => ?_, fun s hs => ?_⟩
  · rw [← hbuilds] at hrefused
    cases hbuild : Label.build pairs with
    | ok s => exact absurd ⟨s, hbuild⟩ hrefused
    | error f =>
      obtain ⟨before, k, after, hkeys, hbefore, hk⟩ :=
        Label.checkKeys_eq_error (Label.build_eq_error_iff.mp hbuild)
      obtain ⟨hnone, hnodup, -⟩ := Label.checkKeys_eq_ok_iff.mp hbefore
      exact ⟨f, before, k, after, rfl, hkeys, hnone, hnodup, hk⟩
  · have hparse := Label.parse_of_build hs
    have hnodup := (hbuilds.mp ⟨s, hs⟩).2
    refine ⟨hparse, fun others hothers => ?_, fun k v hmem => ?_, fun k hmem => ?_⟩
    · have heq := (Label.parse_of_build hothers).symm.trans hparse
      exact Except.ok.inj heq
    · rw [Label.value?_of_build hs, Label.lookup_of_mem hnodup hmem]
    · rw [Label.value?_of_build hs, Label.lookup_of_notMem hmem]

/-- Keys and values that hold the characters of the syntax. -/
theorem label_codec_delimiters :
    ∃ s, Label.build [("a&b=%", "data:x=1&"), ("é %41", ""), ("😀", "a&b=%")] = .ok s ∧
      Label.parse s = .ok [("a&b=%", "data:x=1&"), ("é %41", ""), ("😀", "a&b=%")] ∧
      Label.value? s "é %41" = some "" ∧ Label.value? s "b" = none := by
  obtain ⟨hbuilds, -, hread⟩ :=
    label_codec [("a&b=%", "data:x=1&"), ("é %41", ""), ("😀", "a&b=%")]
  obtain ⟨s, hs⟩ := hbuilds.mpr (by decide)
  obtain ⟨hparse, -, hvalue, habsent⟩ := hread s hs
  exact ⟨s, hs, hparse, hvalue _ _ (by decide), habsent _ (by decide)⟩

end Lockbox
