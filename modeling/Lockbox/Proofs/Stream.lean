import Lockbox.Stream
/-!
# Lockbox — sources and sinks that do not fail

A source none of whose reads fails is as good as the byte string it
delivers: how that is cut into pieces and interrupted makes no
difference to `takeExactly_of_le`, `takeExactly_of_lt` and the two
lemmas on `read`. A sink that takes everything appends what it is
offered; any other sink still appends a beginning of it.
-/

namespace Lockbox

namespace Source

/-- No read fails. -/
def Steady (s : Source) : Prop := ∀ e, Delivery.failure e ∉ s

/-- A byte string is a source that does not fail. -/
theorem steady_ofBytes (b : Bytes) : (ofBytes b).Steady := by
  intro e h
  simp [ofBytes] at h

@[simp] theorem contents_ofBytes (b : Bytes) : (ofBytes b).contents = b := by
  simp [ofBytes, contents]

theorem Steady.tail {d : Delivery} {s : Source} (h : Steady (d :: s)) : Steady s :=
  fun e he => h e (List.mem_cons_of_mem _ he)

/-- Bytes that are put back are read again, and that does not fail either. -/
theorem Steady.cons_bytes {s : Source} (h : Steady s) (b : Bytes) : Steady (.bytes b :: s) := by
  intro e he
  rcases List.mem_cons.mp he with hb | hs
  · cases hb
  · exact h e hs

/-- Reading on, no read fails. -/
theorem Steady.takeInto {s : Source} (h : s.Steady) (g : Gathering) (n : Nat) :
    (takeInto g n s).2.Steady := by
  fun_induction Source.takeInto g n s with
  | case1 => exact h
  | case2 => exact h
  | case3 g n rest hne ih => exact ih h.tail
  | case4 => exact h.tail
  | case5 g n rest hne b now hlt ih => exact ih h.tail
  | case6 g n rest hne b now hlt => exact h.tail.cons_bytes _

/-- Nor does it fail after a single read. -/
theorem Steady.read {s : Source} (h : s.Steady) (most : Nat) : (read most s).2.Steady := by
  fun_induction Source.read most s with
  | case1 => exact h
  | case2 rest ih => exact ih h.tail
  | case3 => exact h.tail
  | case4 rest ih => exact ih h.tail
  | case5 c b rest => exact h.tail.cons_bytes _

/-- What is taken comes after what was gathered before. -/
theorem takeInto_of_le {s : Source} (h : s.Steady) (g : Gathering) {n : Nat}
    (hn : n ≤ s.contents.length) :
    ∃ s', takeInto g n s = (.got (g.toBytes ++ s.contents.take n), s') ∧ s'.Steady ∧
      s'.contents = s.contents.drop n := by
  fun_induction takeInto g n s with
  | case1 g n =>
    have : n = 0 := by simpa [contents] using hn
    exact ⟨[], by simp [this, contents], h, by simp [contents]⟩
  | case2 g d rest => exact ⟨d :: rest, by simp, h, by simp⟩
  | case3 g n rest hne ih => simpa [contents] using ih h.tail (by simpa [contents] using hn)
  | case4 g n rest hne e => exact absurd List.mem_cons_self (h e)
  -- a piece that is too short is taken whole, and reading goes on with the next one
  | case5 g n rest hne b now hlt ih =>
    have hb : b.length < n := by
      simp only [now, List.length_take] at hlt
      omega
    have hnow : now = b := List.take_of_length_le (by omega)
    rw [hnow] at ih ⊢
    have hrest : n - b.length ≤ (contents rest).length := by
      simp only [contents, List.length_append] at hn
      omega
    obtain ⟨s', hs', hsteady, hcontents⟩ := ih h.tail hrest
    refine ⟨s', ?_, hsteady, ?_⟩
    · rw [hs', contents, List.take_append, List.take_of_length_le (by omega : b.length ≤ n)]
      simp
    · rw [hcontents, contents, List.drop_append, List.drop_eq_nil_of_le (by omega : b.length ≤ n)]
      simp
  -- a piece that is long enough is cut, and what is left of it is put back
  | case6 g n rest hne b now hlt =>
    have hb : n ≤ b.length := by
      simp only [now, List.length_take] at hlt
      omega
    refine ⟨.bytes (b.drop n) :: rest, ?_, h.tail.cons_bytes _, ?_⟩
    · rw [contents, List.take_append_of_le_length hb, Gathering.toBytes_add]
    · rw [contents, contents, List.drop_append_of_le_length hb]

/-- A source that holds too little is read to its end. -/
theorem takeInto_of_lt {s : Source} (h : s.Steady) (g : Gathering) {n : Nat}
    (hn : s.contents.length < n) : takeInto g n s = (.ended, []) := by
  fun_induction takeInto g n s with
  | case1 g n => simp [contents] at hn; simp [show n ≠ 0 by omega]
  | case2 g d rest => omega
  | case3 g n rest hne ih => exact ih h.tail (by simpa [contents] using hn)
  | case4 g n rest hne e => exact absurd List.mem_cons_self (h e)
  | case5 g n rest hne b now hlt ih =>
    have hlen : now.length ≤ b.length := by simp only [now, List.length_take]; omega
    refine ih h.tail ?_
    simp only [now, List.length_take] at hlt ⊢
    simp only [contents, List.length_append] at hn
    omega
  | case6 g n rest hne b now hlt =>
    simp only [now, List.length_take] at hlt
    simp only [contents, List.length_append] at hn
    omega

/-- What was taken stood first, whatever fails later. -/
theorem takeInto_got {s s' : Source} {g : Gathering} {n : Nat} {b : Bytes}
    (h : takeInto g n s = (.got b, s')) :
    ∃ taken, b = g.toBytes ++ taken ∧ taken.length = n ∧ s.contents = taken ++ s'.contents ∧
      (s.Steady → s'.Steady) := by
  fun_induction takeInto g n s with
  | case1 g n =>
    obtain ⟨hb, rfl⟩ := Prod.mk.inj h
    split at hb
    · cases hb
      exact ⟨[], by simp, by simp [*], rfl, id⟩
    · exact absurd hb (by simp)
  | case2 g d rest =>
    obtain ⟨hb, rfl⟩ := Prod.mk.inj h
    cases hb
    exact ⟨[], by simp, rfl, rfl, id⟩
  | case3 g n rest hne ih =>
    obtain ⟨taken, hb, hlength, hcontents, hsteady⟩ := ih h
    exact ⟨taken, hb, hlength, hcontents, fun hs => hsteady hs.tail⟩
  | case4 g n rest hne e => exact absurd (Prod.mk.inj h).1 (by simp)
  | case5 g n rest hne c now hlt ih =>
    obtain ⟨taken, hb, hlength, hcontents, hsteady⟩ := ih h
    have hall : now = c := by
      simp only [now, List.length_take] at hlt
      exact List.take_of_length_le (by omega)
    refine ⟨now ++ taken, by rw [hb, Gathering.toBytes_add, List.append_assoc], ?_, ?_,
      fun hs => hsteady hs.tail⟩
    · rw [List.length_append, hlength]
      omega
    · rw [contents, hcontents, hall, List.append_assoc]
  | case6 g n rest hne c now hlt =>
    obtain ⟨hb, rfl⟩ := Prod.mk.inj h
    cases hb
    refine ⟨now, Gathering.toBytes_add .., ?_, ?_, fun hs => hs.tail.cons_bytes _⟩
    · simp only [now, List.length_take] at hlt ⊢
      omega
    · simp only [now, contents, ← List.append_assoc, List.take_append_drop]

/-- A source does not go back. -/
theorem contents_takeInto_suffix (g : Gathering) (n : Nat) (s : Source) :
    (takeInto g n s).2.contents <:+ s.contents := by
  fun_induction takeInto g n s with
  | case1 => exact List.suffix_refl _
  | case2 => exact List.suffix_refl _
  | case3 g n rest hne ih => exact ih
  | case4 => exact List.suffix_refl _
  | case5 g n rest hne b now hlt ih => exact ih.trans (List.suffix_append b _)
  | case6 g n rest hne b now hlt =>
    refine ⟨b.take n, ?_⟩
    rw [contents, contents, ← List.append_assoc, List.take_append_drop]

theorem takeExactly_got {s s' : Source} {n : Nat} {b : Bytes}
    (h : s.takeExactly n = (.got b, s')) :
    b.length = n ∧ s.contents = b ++ s'.contents ∧ (s.Steady → s'.Steady) := by
  obtain ⟨taken, hb, hlength, hcontents, hsteady⟩ := takeInto_got h
  obtain rfl : b = taken := hb
  exact ⟨hlength, hcontents, hsteady⟩

/-- What was read at once stood first. -/
theorem read_got {most : Nat} {s s' : Source} {b : Bytes} (h : s.read most = (.got b, s')) :
    b.length ≤ most ∧ s.contents = b ++ s'.contents := by
  fun_induction read most s with
  | case1 => exact absurd (Prod.mk.inj h).1 (by simp)
  | case2 rest ih => exact ih h
  | case3 => exact absurd (Prod.mk.inj h).1 (by simp)
  | case4 rest ih => exact ih h
  | case5 c d rest =>
    obtain ⟨hb, rfl⟩ := Prod.mk.inj h
    cases hb
    refine ⟨List.length_take_le _ _, ?_⟩
    rw [contents, contents, ← List.append_assoc, List.take_append_drop]

/-- A single read does not go back either. -/
theorem contents_read_suffix (most : Nat) (s : Source) :
    (s.read most).2.contents <:+ s.contents := by
  fun_induction read most s with
  | case1 => exact List.suffix_refl _
  | case2 rest ih => exact ih
  | case3 => exact List.suffix_refl _
  | case4 rest ih => exact ih
  | case5 c b rest =>
    refine ⟨(c :: b).take most, ?_⟩
    rw [contents, contents, ← List.append_assoc, List.take_append_drop]

/-- **A source that does not fail delivers what it holds.** -/
theorem takeExactly_of_le {s : Source} (h : s.Steady) {n : Nat} (hn : n ≤ s.contents.length) :
    ∃ s', s.takeExactly n = (.got (s.contents.take n), s') ∧ s'.Steady ∧
      s'.contents = s.contents.drop n := by
  simpa [takeExactly] using takeInto_of_le h .empty hn

/-- And where it holds too little, it ends. -/
theorem takeExactly_of_lt {s : Source} (h : s.Steady) {n : Nat} (hn : s.contents.length < n) :
    s.takeExactly n = (.ended, []) :=
  takeInto_of_lt h .empty hn

/-- A single read finds the end just if nothing is left. -/
theorem read_ended_iff {s : Source} (h : s.Steady) (most : Nat) :
    (s.read most).1 = .ended ↔ s.contents = [] := by
  fun_induction read most s with
  | case1 => simp [contents]
  | case2 rest ih => simpa [contents] using ih h.tail
  | case3 e rest => exact absurd List.mem_cons_self (h e)
  | case4 rest ih => simpa [contents] using ih h.tail
  | case5 c b rest => simp [contents]

/-- No read fails, whatever its size. -/
theorem read_ne_failed {s : Source} (h : s.Steady) (most : Nat) (e : IoError) :
    (s.read most).1 ≠ .failed e := by
  fun_induction read most s with
  | case1 => simp
  | case2 rest ih => exact ih h.tail
  | case3 e rest => exact absurd List.mem_cons_self (h e)
  | case4 rest ih => exact ih h.tail
  | case5 c b rest => simp

end Source

namespace Sink

/-- The sink takes everything, can be flushed, and gives back what it took. -/
structure Unbounded (s : Sink) : Prop where
  quota : ∀ writes accepted offered, offered ≤ s.quota writes accepted offered
  flush : s.flushFault = none
  readBack : s.recallFault = none

theorem unbounded_unlimited : unlimited.Unbounded := ⟨fun _ _ _ => Nat.le_refl _, rfl, rfl⟩

/-- **A sink that takes everything appends what it is offered.** -/
theorem Unbounded.write {s : Sink} (h : s.Unbounded) (b : Bytes) :
    ∃ s', s.write b = (.ok (), s') ∧ s'.Unbounded ∧ s'.accepted = s.accepted ++ b := by
  by_cases hb : b = []
  · exact ⟨s, by simp [Sink.write, hb], h, by simp [hb]⟩
  · have hq := h.quota s.writes s.stored.size b.length
    have htake : b.take (s.quota s.writes s.stored.size b.length) = b :=
      List.take_of_length_le hq
    refine ⟨{ s with stored := s.stored.add b, writes := s.writes + 1 }, ?_,
      ⟨h.quota, h.flush, h.readBack⟩, ?_⟩
    · rw [Sink.write, if_neg hb]
      simp only [htake, Nat.lt_irrefl, if_false]
    · simp [accepted]

/-- Several writes, one after the other. -/
theorem Unbounded.writeEach {s : Sink} (h : s.Unbounded) (parts : List Bytes) :
    ∃ s', s.writeEach parts = (.ok (), s') ∧ s'.Unbounded ∧
      s'.accepted = s.accepted ++ parts.flatten := by
  induction parts generalizing s with
  | nil => exact ⟨s, rfl, h, by simp⟩
  | cons b rest ih =>
    obtain ⟨s₁, h₁, hu₁, ha₁⟩ := h.write b
    obtain ⟨s₂, h₂, hu₂, ha₂⟩ := ih hu₁
    exact ⟨s₂, by rw [Sink.writeEach, h₁]; exact h₂, hu₂, by rw [ha₂, ha₁]; simp⟩

theorem Unbounded.flush_eq {s : Sink} (h : s.Unbounded) : s.flush = .ok () := by
  rw [Sink.flush, h.flush]

/-- All that such a sink took can be had again. -/
theorem Unbounded.readBack_eq {s : Sink} (h : s.Unbounded) :
    s.rewind = .ok () ∧ s.readBack = (s.accepted, none) := by
  simp only [Sink.rewind, Sink.readBack, h.readBack, and_self]

/-- Whatever becomes of several writes, a beginning of all that was
offered is appended. -/
theorem accepted_writeEach (s : Sink) (parts : List Bytes) :
    ∃ p, p <+: parts.flatten ∧ (s.writeEach parts).2.accepted = s.accepted ++ p := by
  induction parts generalizing s with
  | nil => exact ⟨[], List.nil_prefix, by simp [writeEach]⟩
  | cons b rest ih =>
    rw [writeEach]
    split
    · rename_i s₁ h₁
      obtain ⟨p, hp, ha⟩ := ih s₁
      refine ⟨b ++ p, ?_, ?_⟩
      · rw [List.flatten_cons]
        exact (List.prefix_append_right_inj b).mpr hp
      · rw [ha, accepted_write_of_ok h₁, List.append_assoc]
    · rename_i e s₁ h₁
      obtain ⟨n, hn⟩ := accepted_write s b
      rw [h₁] at hn
      refine ⟨b.take n, ?_, hn⟩
      rw [List.flatten_cons]
      exact (List.take_prefix n b).trans (List.prefix_append _ _)

end Sink

end Lockbox
