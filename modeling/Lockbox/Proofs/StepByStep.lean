import Lockbox.Proofs.Handed
import Lockbox.Proofs.Sources
/-!
# Lockbox — all at once and step by step

To encrypt everything at once is to begin, to add each recipient, to
declare each entry and hand over its data in one call, and to finish,
stopping at the first failure (`encryptAll_eq_stepByStep`). All at once,
the data come in the pieces in which the source happens to deliver them,
and those never line up with the frames. What makes up for that is that
bytes handed over in two calls are bytes handed over in one
(`Payload.Writer.fill_append`, `Payload.Writer.write_append`). Two things
differ on the way and do not matter in the end: the pieces of what waits,
and how much a failed call has counted of the entry.
-/

namespace Lockbox

open Payload

/-- Two outcomes that are the same failure, or else successes whose states
are related. -/
abbrev Agree {s : Type} (R : s → s → Prop) (x y : Except Error Unit × s) : Prop :=
  ∃ result t u, x = (result, t) ∧ y = (result, u) ∧ (result = .ok () → R t u)

section

variable {s : Type} {R Q : s → s → Prop}

/-- Agreement goes on from one outcome to the next where the relation does. -/
theorem Agree.trans {x y z : Except Error Unit × s} (h : Agree R x y) (h' : Agree R y z)
    (hR : ∀ {t u v}, R t u → R u v → R t v) : Agree R x z := by
  obtain ⟨result, t, u, rfl, rfl, hrelated⟩ := h
  obtain ⟨result', u', v, hy, rfl, hrelated'⟩ := h'
  obtain ⟨rfl, rfl⟩ := Prod.mk.inj hy
  exact ⟨result, t, v, rfl, rfl, fun hok => hR (hrelated hok) (hrelated' hok)⟩

/-- What goes on from related states in the same way agrees to its end. -/
theorem Agree.andThen {f g : Step Error s Unit} {t u : s} (h : Agree R (f t) (g u))
    (f' g' : Step Error s Unit) (hthen : ∀ t u, R t u → Agree Q (f' t) (g' u)) :
    Agree Q (Step.andThen f (fun _ => f') t) (Step.andThen g (fun _ => g') u) := by
  obtain ⟨result, t', u', ht, hu, hrelated⟩ := h
  simp only [Step.andThen, ht, hu]
  rcases result with e | _
  · exact ⟨_, _, _, rfl, rfl, fun h => absurd h (by simp)⟩
  · exact hthen t' u' (hrelated rfl)

end

namespace Payload.Writer

variable {S : Suite} {w w₁ w₂ : Writer}

/-- Two writers that differ in the pieces of what waits, and in what they
count of the entry. -/
def Near (w₁ w₂ : Writer) : Prop :=
  ∃ waiting current, waiting.val.toBytes = w₁.held ∧ w₂ = { w₁ with waiting, current }

/-- A writer is near itself. -/
theorem Near.refl (w : Writer) : w.Near w := ⟨w.waiting, w.current, rfl, rfl⟩

/-- What may differ between the first and the second, and between that and the
third, may differ between the first and the third. -/
theorem Near.trans {w₃ : Writer} (h : w₁.Near w₂) (h' : w₂.Near w₃) : w₁.Near w₃ := by
  obtain ⟨waiting, current, hheld, rfl⟩ := h
  obtain ⟨waiting', current', hheld', rfl⟩ := h'
  exact ⟨waiting', current', hheld'.trans hheld, rfl⟩

/-- A frame looks neither at what waits nor at the entry. -/
theorem Near.emit (h : w₁.Near w₂) (frame : Frame) :
    Agree Near (w₁.emit S frame) (w₂.emit S frame) := by
  obtain ⟨waiting, current, hheld, rfl⟩ := h
  unfold Writer.emit
  dsimp only
  split
  · exact ⟨_, _, _, rfl, rfl, fun h => absurd h (by simp)⟩
  · split
    · exact ⟨_, _, _, rfl, rfl, fun _ => ⟨waiting, current, hheld, rfl⟩⟩
    · exact ⟨_, _, _, rfl, rfl, fun h => absurd h (by simp)⟩

/-- Where the same waits, as much of it waits. -/
theorem size_eq_of_held {a b : Waiting} (h : a.val.toBytes = b.val.toBytes) :
    a.val.size = b.val.size := by
  rw [← Gathering.length_toBytes, h, Gathering.length_toBytes]

/-- What waits leaves as one frame, in whatever pieces it came. -/
theorem Near.flush (h : w₁.Near w₂) : Agree Near (w₁.flush S) (w₂.flush S) := by
  obtain ⟨waiting, current, hheld, rfl⟩ := h
  have hsize := size_eq_of_held hheld
  by_cases hpos : 0 < w₁.waiting.val.size
  · have hpos' : 0 < ({ w₁ with waiting, current } : Writer).waiting.val.size := hsize ▸ hpos
    have hchunk : ({ w₁ with waiting, current } : Writer).heldChunk hpos' = w₁.heldChunk hpos :=
      Subtype.ext hheld
    rw [flush_of_pos hpos, flush_of_pos hpos', hchunk]
    exact Near.emit ⟨.none, current, rfl, rfl⟩ _
  · have hpos' : ¬ 0 < ({ w₁ with waiting, current } : Writer).waiting.val.size := hsize ▸ hpos
    rw [flush_of_not_pos hpos, flush_of_not_pos hpos']
    exact ⟨_, _, _, rfl, rfl, fun _ => ⟨waiting, current, hheld, rfl⟩⟩

/-- Where a frame is filled, fewer bytes are left. -/
theorem length_drop_room_lt {input : Bytes} (h : ¬ w.waiting.val.size + input.length < chunkSize) :
    (input.drop w.room).length < input.length := by
  have hlt := w.waiting.property
  have hroom : w.room = chunkSize - w.waiting.val.size := rfl
  rw [List.length_drop]
  omega

/-- **The frames that an input fills do not depend on the pieces of what
waits.** -/
theorem Near.fill (h : w₁.Near w₂) (input : Bytes) :
    Agree Near (w₁.fill S input) (w₂.fill S input) := by
  -- on the length of the input, which every full frame makes less
  induction hn : input.length using Nat.strongRecOn generalizing input w₁ w₂ with
  | _ n ih =>
    obtain ⟨waiting, current, hheld, rfl⟩ := h
    have hsize := size_eq_of_held hheld
    by_cases hfit : w₁.waiting.val.size + input.length < chunkSize
    · have hfit' : ({ w₁ with waiting, current } : Writer).waiting.val.size + input.length
          < chunkSize := hsize ▸ hfit
      rw [fill_of_fit hfit, fill_of_fit hfit']
      refine ⟨_, _, _, rfl, rfl, fun _ => ⟨_, current, ?_, rfl⟩⟩
      simp only [held, Gathering.toBytes_add, hheld]
    · have hfit' : ¬ ({ w₁ with waiting, current } : Writer).waiting.val.size + input.length
          < chunkSize := hsize ▸ hfit
      have hroom : ({ w₁ with waiting, current } : Writer).room = w₁.room := by
        simp only [room, hsize]
      have hchunk : ({ w₁ with waiting, current } : Writer).fullChunk input hfit'
          = w₁.fullChunk input hfit := by
        refine Subtype.ext ?_
        simp only [fullChunk, Gathering.toBytes_add, hheld, hroom]
      rw [fill_of_full hfit, fill_of_full hfit', hchunk, hroom]
      have hnear : w₁.emptied.Near ({ w₁ with waiting, current } : Writer).emptied :=
        ⟨.none, current, rfl, rfl⟩
      obtain ⟨result, t, u, ht, hu, hnear⟩ := hnear.emit (S := S) (.data (w₁.fullChunk input hfit))
      rw [ht, hu]
      rcases result with e | _
      · exact ⟨_, _, _, rfl, rfl, fun h => absurd h (by simp)⟩
      · exact ih _ (hn ▸ length_drop_room_lt hfit) (hnear rfl) _ rfl

/-- An outcome agrees with itself. -/
theorem agree_refl (x : Except Error Unit × Writer) : Agree Near x x :=
  ⟨x.1, x.2, x.2, rfl, rfl, fun _ => .refl x.2⟩

/-- **Bytes in two calls fill the frames like bytes in one.** -/
theorem fill_append (a b : Bytes) (w : Writer) :
    Agree Near (Step.andThen (Writer.fill S a) (fun _ => Writer.fill S b) w)
      (w.fill S (a ++ b)) := by
  -- on the length of the first bytes: while they fill frames, both sides fill the same
  -- one
  induction hn : a.length using Nat.strongRecOn generalizing a w with
  | _ n ih =>
    have hroom : w.room = chunkSize - w.waiting.val.size := rfl
    by_cases hfit : w.waiting.val.size + a.length < chunkSize
    · -- the first bytes only wait
      obtain ⟨w', hw'⟩ : ∃ w' : Writer, w' = { w with waiting := ⟨w.waiting.val.add a, hfit⟩ } :=
        ⟨_, rfl⟩
      have hfirst : w.fill S a = (.ok (), w') := hw' ▸ fill_of_fit hfit
      simp only [Step.andThen, hfirst]
      have hsize : w'.waiting.val.size = w.waiting.val.size + a.length := by rw [hw']; rfl
      have hheld : w'.waiting.val.toBytes = w.waiting.val.toBytes ++ a := by
        rw [hw', Gathering.toBytes_add]
      by_cases hboth : w.waiting.val.size + (a ++ b).length < chunkSize
      · have hthen : w'.waiting.val.size + b.length < chunkSize := by
          rw [List.length_append] at hboth
          omega
        rw [fill_of_fit hthen, fill_of_fit hboth]
        subst hw'
        exact ⟨_, _, _, rfl, rfl, fun _ => ⟨_, w.current, by simp [held], rfl⟩⟩
      · have hthen : ¬ w'.waiting.val.size + b.length < chunkSize := by
          rw [List.length_append] at hboth
          omega
        have hle : a.length ≤ w.room := by omega
        have hroom' : w'.room = w.room - a.length := by
          simp only [room, hsize]
          omega
        have hchunk : w'.fullChunk b hthen = w.fullChunk (a ++ b) hboth := by
          refine Subtype.ext ?_
          simp only [fullChunk, Gathering.toBytes_add, hroom', hheld, List.take_append,
            List.take_of_length_le hle, List.append_assoc]
        have hdrop : b.drop w'.room = (a ++ b).drop w.room := by
          rw [hroom', List.drop_append, List.drop_of_length_le hle, List.nil_append]
        have hemptied : w'.emptied = w.emptied := by rw [hw']
        rw [fill_of_full hthen, fill_of_full hboth, hchunk, hdrop, hemptied]
        exact agree_refl _
    · -- they fill a frame, and the same frame in both cases
      have hlong : w.room ≤ a.length := by
        have hlt := w.waiting.property
        omega
      have hboth : ¬ w.waiting.val.size + (a ++ b).length < chunkSize := by
        rw [List.length_append]
        omega
      have hchunk : w.fullChunk a hfit = w.fullChunk (a ++ b) hboth := by
        refine Subtype.ext ?_
        simp only [fullChunk, Gathering.toBytes_add, List.take_append_of_le_length hlong]
      simp only [Step.andThen, fill_of_full hfit, fill_of_full hboth, hchunk,
        List.drop_append_of_le_length hlong]
      rcases w.emptied.emit S (.data (w.fullChunk (a ++ b) hboth)) with ⟨e | u, w₁⟩
      · exact agree_refl _
      · exact ih _ (hn ▸ length_drop_room_lt hfit) _ w₁ rfl

/-! ## Whole calls

Two calls with data and one call with both leave the same in the sink, but
what waits may be in different pieces. This is carried through all
operations that follow. -/

/-- Two writers that differ in the pieces of what waits. -/
def Beside (w₁ w₂ : Writer) : Prop :=
  ∃ waiting, waiting.val.toBytes = w₁.held ∧ w₂ = { w₁ with waiting }

/-- A writer is beside itself. -/
theorem Beside.refl (w : Writer) : w.Beside w := ⟨w.waiting, rfl, rfl⟩

/-- Neither of the two is the one with the pieces. -/
theorem Beside.symm (h : w₁.Beside w₂) : w₂.Beside w₁ := by
  obtain ⟨waiting, hheld, rfl⟩ := h
  exact ⟨w₁.waiting, hheld.symm, rfl⟩

/-- And a third one that is beside the second is beside the first. -/
theorem Beside.trans {w₃ : Writer} (h : w₁.Beside w₂) (h' : w₂.Beside w₃) : w₁.Beside w₃ := by
  obtain ⟨waiting, hheld, rfl⟩ := h
  obtain ⟨waiting', hheld', rfl⟩ := h'
  exact ⟨waiting', hheld'.trans hheld, rfl⟩

/-- Beside each other is near, and the same is counted. -/
theorem Beside.near (h : w₁.Beside w₂) : w₁.Near w₂ := by
  obtain ⟨waiting, hheld, rfl⟩ := h
  exact ⟨waiting, w₁.current, hheld, rfl⟩

/-- What is near is beside each other once the same is counted of the entry. -/
theorem Near.beside (h : w₁.Near w₂) (current : Option OpenFile) :
    ({ w₁ with current } : Writer).Beside { w₂ with current } := by
  obtain ⟨waiting, current', hheld, rfl⟩ := h
  exact ⟨waiting, hheld, rfl⟩

/-- A declaration asks whether the entry before is complete, which the pieces
of what waits do not tell. -/
theorem Beside.declare (h : w₁.Beside w₂) (name : String) (size : UInt64) :
    Agree Beside (w₁.declare S name size) (w₂.declare S name size) := by
  have hemit := fun stored => h.near.emit (S := S) (.file stored size)
  obtain ⟨waiting, hheld, rfl⟩ := h
  unfold Writer.declare
  split
  · exact ⟨_, _, _, rfl, rfl, fun h => absurd h (by simp)⟩
  · rename_i stored hstored
    rw [show ({ w₁ with waiting } : Writer).checkComplete = w₁.checkComplete from rfl]
    split
    · exact ⟨_, _, _, rfl, rfl, fun h => absurd h (by simp)⟩
    · dsimp only
      split
      · exact ⟨_, _, _, rfl, rfl, fun h => absurd h (by simp)⟩
      · obtain ⟨result, t, u, ht, hu, hnear⟩ := hemit stored
        rw [ht, hu]
        rcases result with e | _
        · exact ⟨_, _, _, rfl, rfl, fun h => absurd h (by simp)⟩
        · obtain ⟨waiting', current', hheld', rfl⟩ := hnear rfl
          exact ⟨_, _, _, rfl, rfl, fun _ => ⟨waiting', hheld', rfl⟩⟩

/-- What a call does to the entry, once its bytes have been filled in. -/
def settle (S : Suite) (f : OpenFile) (w : Writer) : Except Error Unit × Writer :=
  match if f.written = f.declared.toNat then w.flush S else (.ok (), w) with
  | (.error e, w) => (.error e, w)
  | (.ok (), w) => (.ok (), { w with current := some f })

/-- Bytes that fit the entry are filled in, and then the entry is settled. -/
theorem write_eq {data : Bytes} {f : OpenFile} (hf : w.current = some f)
    (hfits : f.written + data.length ≤ f.declared.toNat) :
    w.write S data = Step.andThen (Writer.fill S data)
      (fun _ => settle S { f with written := f.written + data.length }) w := by
  have hle : ¬ f.declared.toNat < f.written + data.length := Nat.not_lt.mpr hfits
  simp only [Writer.write, hf, if_neg hle, Step.andThen]
  rcases w.fill S data with ⟨e | u, w₁⟩
  · rfl
  · rfl

/-- To settle an entry writes what waits if it is complete, and makes the
counts the same. -/
theorem Near.settle (h : w₁.Near w₂) (f : OpenFile) :
    Agree Beside (w₁.settle S f) (w₂.settle S f) := by
  unfold Writer.settle
  by_cases hlast : f.written = f.declared.toNat
  · obtain ⟨result, t, u, ht, hu, hnear⟩ := h.flush (S := S)
    simp only [if_pos hlast, ht, hu]
    rcases result with e | _
    · exact ⟨_, _, _, rfl, rfl, fun h => absurd h (by simp)⟩
    · exact ⟨_, _, _, rfl, rfl, fun _ => (hnear rfl).beside _⟩
  · simp only [if_neg hlast]
    exact ⟨_, _, _, rfl, rfl, fun _ => h.beside _⟩

/-- So data are written alike, and refused alike where they do not fit. -/
theorem Beside.write (h : w₁.Beside w₂) (data : Bytes) :
    Agree Beside (w₁.write S data) (w₂.write S data) := by
  have hcurrent : w₂.current = w₁.current := by
    obtain ⟨waiting, -, rfl⟩ := h
    rfl
  cases hf : w₁.current with
  | none =>
    simp only [Writer.write, hcurrent, hf]
    exact ⟨_, _, _, rfl, rfl, fun h => absurd h (by simp)⟩
  | some f =>
    by_cases hfits : f.written + data.length ≤ f.declared.toNat
    · rw [write_eq hf hfits, write_eq (hcurrent.trans hf) hfits]
      exact (h.near.fill data).andThen _ _ fun t u hnear => hnear.settle _
    · simp only [Writer.write, hcurrent, hf, if_pos (Nat.not_le.mp hfits)]
      exact ⟨_, _, _, rfl, rfl, fun h => absurd h (by simp)⟩

/-- No bytes are handed over to no effect. -/
theorem write_nil {f : OpenFile} (hf : w.current = some f) (hle : f.written ≤ f.declared.toNat)
    (hend : f.written = f.declared.toNat → w.held = []) :
    Agree Beside (.ok (), w) (w.write S []) := by
  have hfit : w.waiting.val.size + ([] : Bytes).length < chunkSize := w.waiting.property
  have hheld : w.held = (w.waiting.val.add []).toBytes := by simp [held]
  rw [write_eq hf (by simpa using hle)]
  simp only [Step.andThen, fill_of_fit hfit, settle, List.length_nil, Nat.add_zero]
  by_cases hlast : f.written = f.declared.toNat
  · have hnone :
        ¬ 0 < ({ w with waiting := ⟨w.waiting.val.add [], hfit⟩ } : Writer).waiting.val.size := by
      rw [← length_held, held, ← hheld, hend hlast]
      simp
    rw [if_pos hlast, flush_of_not_pos hnone]
    exact ⟨_, _, _, rfl, rfl, fun _ => ⟨_, hheld.symm, by rw [hf]⟩⟩
  · rw [if_neg hlast]
    exact ⟨_, _, _, rfl, rfl, fun _ => ⟨_, hheld.symm, by rw [hf]⟩⟩

/-- **Bytes in two calls are bytes in one,** as long as they fit the entry. -/
theorem write_append {a b : Bytes} {f : OpenFile} (hf : w.current = some f)
    (hfits : f.written + (a ++ b).length ≤ f.declared.toNat) :
    Agree Beside (Step.andThen (Writer.write S a) (fun _ => Writer.write S b) w)
      (w.write S (a ++ b)) := by
  -- a second call without bytes would flush nothing, but it is a call of its own
  by_cases hb : b = []
  · subst hb
    rw [List.append_nil]
    rcases hone : w.write S a with ⟨e | _, w'⟩
    · simp only [Step.andThen, hone]
      exact ⟨_, _, _, rfl, rfl, fun h => absurd h (by simp)⟩
    · obtain ⟨g, more, -, hle, -, -, hcurrent, -, hheld⟩ := write_ok hone
      have hnone := write_nil (S := S) hcurrent hle fun hlast => by rwa [if_pos hlast] at hheld
      obtain ⟨result, t, u, ht, hu, hbeside⟩ := hnone
      obtain ⟨rfl, rfl⟩ := Prod.mk.inj ht
      simp only [Step.andThen, hone, hu]
      exact ⟨_, _, _, rfl, rfl, fun _ => (hbeside rfl).symm⟩
  have hpos := List.length_pos_iff.mpr hb
  have hboth := write_eq (S := S) hf hfits
  have happend := fill_append (S := S) a b w
  rw [List.length_append] at hfits
  have hone : w.write S a = _ := write_eq hf (by omega)
  rw [hboth]
  rcases hfill : w.fill S a with ⟨e | _, w'⟩
  · simp only [Step.andThen, hfill] at hone happend
    obtain ⟨result, t, u, ht, hu, -⟩ := happend
    obtain ⟨rfl, -⟩ := Prod.mk.inj ht
    simp only [Step.andThen, hone, hu]
    exact ⟨_, _, _, rfl, rfl, fun h => absurd h (by simp)⟩
  · -- the first call only counts besides, and the second one goes on from there
    have hmiddle : f.written + a.length ≠ f.declared.toNat := by omega
    obtain ⟨g, hg⟩ : ∃ g : OpenFile, g = { f with written := f.written + a.length } := ⟨_, rfl⟩
    simp only [Step.andThen, hfill, settle, if_neg hmiddle, ← hg] at hone happend
    have hcounted : ({ w' with current := some g } : Writer).Near w' :=
      ⟨w'.waiting, w'.current, rfl, rfl⟩
    have hsum : f.written + (a ++ b).length = g.written + b.length := by
      rw [hg, List.length_append, Nat.add_assoc]
    have hrest : ({ w' with current := some g } : Writer).write S b = _ :=
      write_eq rfl (by rw [hg]; dsimp only; omega)
    have hfilled := (hcounted.fill (S := S) b).trans happend Near.trans
    have hsettled := hfilled.andThen (settle S { g with written := g.written + b.length })
      (settle S { f with written := f.written + (a ++ b).length }) fun t u hnear => by
        rw [hsum, hg]
        exact hnear.settle _
    rw [← hrest] at hsettled
    simp only [Step.andThen, hone] at hsettled ⊢
    exact hsettled

/-- Both have a complete entry, or neither. -/
theorem Beside.checkComplete (h : w₁.Beside w₂) : w₁.checkComplete = w₂.checkComplete := by
  obtain ⟨waiting, -, rfl⟩ := h
  rfl

/-- **And the payloads that they end with are the same.** -/
theorem Beside.close (h : w₁.Beside w₂) : w₁.close S = w₂.close S := by
  obtain ⟨result, t, u, ht, hu, hnear⟩ := h.near.emit (S := S) .finish
  unfold Writer.close
  rw [← h.checkComplete, ht, hu]
  rcases result with e | _
  · rfl
  · obtain ⟨waiting, current, -, rfl⟩ := hnear rfl
    rfl

/-- Nothing waits of an entry that is complete. -/
def Neat (w : Writer) : Prop := w.checkComplete = .ok () → w.held = []

/-- What waits of an entry does not depend on its pieces. -/
theorem Beside.neat (h : w₁.Beside w₂) (hneat : w₁.Neat) : w₂.Neat := by
  obtain ⟨waiting, hheld, rfl⟩ := h
  exact fun hcomplete => hheld.trans (hneat hcomplete)

/-- The bytes that complete an entry leave nothing behind. -/
theorem neat_of_write {data : Bytes} {w' : Writer} (h : w.write S data = (.ok (), w')) :
    w'.Neat := by
  obtain ⟨f, more, -, -, -, -, hcurrent, -, hheld⟩ := write_ok h
  intro hcomplete
  simp only [Writer.checkComplete, hcurrent] at hcomplete
  split at hcomplete
  · rename_i hlast
    rwa [if_pos hlast] at hheld
  · exact absurd hcomplete (by simp)

end Payload.Writer

namespace Sealing

variable {σ : Type} {s s₁ s₂ : Sealing σ} {draft : Draft}

/-! ## Sessions -/

/-- Two sessions that accept and differ in the pieces of what waits. -/
def Beside (s₁ s₂ : Sealing σ) : Prop :=
  ∃ draft payload, s₁.stage = .accepting draft ∧ draft.payload.Beside payload ∧
    s₂ = { s₁ with stage := .accepting { draft with payload } }

/-- Two sessions with the same bytes at their destinations, that are as far
as each other, and if they failed remember the same. -/
structure Resembles (s₁ s₂ : Sealing σ) : Prop where
  dest : s₁.dest = s₂.dest
  phase : s₁.stage.phase = s₂.stage.phase
  cause : ∀ m, s₁.stage = .failed m ↔ s₂.stage = .failed m

/-- A session resembles itself. -/
theorem Resembles.refl (s : Sealing σ) : s.Resembles s := ⟨rfl, rfl, fun _ => Iff.rfl⟩

/-- Of two sessions that resemble each other both are sealed, or neither. -/
theorem Resembles.isSealed (h : s₁.Resembles s₂) : s₁.isSealed = s₂.isSealed := by
  have hphase := h.phase
  unfold Sealing.isSealed
  cases h₁ : s₁.stage <;> cases h₂ : s₂.stage <;> simp_all [Stage.phase]

/-- To resemble each other goes on from one session to the next. -/
theorem Resembles.trans {s₃ : Sealing σ} (h : s₁.Resembles s₂) (h' : s₂.Resembles s₃) :
    s₁.Resembles s₃ :=
  ⟨h.dest.trans h'.dest, h.phase.trans h'.phase, fun m => (h.cause m).trans (h'.cause m)⟩

/-- Two outcomes with the same answer and sessions that resemble each other;
unless it is a failure, the sessions can be told what the other is told. -/
abbrev Concur (x y : Except Error Unit × Sealing σ) : Prop :=
  ∃ result t u, x = (result, t) ∧ y = (result, u) ∧ t.Resembles u ∧ (result = .ok () → t.Beside u)

/-- Sessions beside each other have drafts with payloads beside each other, so
this goes on too. -/
theorem Beside.trans {s₃ : Sealing σ} (h : s₁.Beside s₂) (h' : s₂.Beside s₃) : s₁.Beside s₃ := by
  obtain ⟨draft, payload, hstage, hpayload, rfl⟩ := h
  obtain ⟨draft', payload', hstage', hpayload', rfl⟩ := h'
  obtain rfl := Stage.accepting.inj hstage'
  exact ⟨draft, payload', hstage, hpayload.trans hpayload', rfl⟩

/-- And so do outcomes that concur. -/
theorem Concur.trans {x y z : Except Error Unit × Sealing σ} (h : Concur x y) (h' : Concur y z) :
    Concur x z := by
  obtain ⟨result, t, u, rfl, rfl, hresembles, hbeside⟩ := h
  obtain ⟨result', u', v, hy, rfl, hresembles', hbeside'⟩ := h'
  obtain ⟨rfl, rfl⟩ := Prod.mk.inj hy
  exact ⟨result, t, v, rfl, rfl, hresembles.trans hresembles',
    fun hok => (hbeside hok).trans (hbeside' hok)⟩

/-- The outcome of what was done to the payload of a draft. -/
def onDraft (s : Sealing σ) (draft : Draft) (x : Except Error Unit × Writer) :
    Except Error Unit × Sealing σ :=
  (x.1, { s with stage := .after { draft with payload := x.2 } x.1 })

/-- A session that accepts hands an operation on to its payload. -/
theorem onPayload_eq (hstage : s.stage = .accepting draft) (op : Operation)
    (f : Writer → Except Error Unit × Writer) :
    s.onPayload op f = s.onDraft draft (f draft.payload) := by
  simp only [onPayload, hstage, onDraft]

/-- What a session becomes by an operation is told by the answer, but for the
draft that it goes on with. -/
theorem resembles_after (s : Sealing σ) (d₁ d₂ : Draft) (result : Except Error Unit) :
    Resembles { s with stage := .after d₁ result } { s with stage := .after d₂ result } := by
  unfold Stage.after
  split
  · exact .refl _
  · exact .refl _
  · exact ⟨rfl, rfl, fun _ => by simp⟩

/-- What agrees for a payload concurs for a session. -/
theorem concur_onDraft (s : Sealing σ) (draft : Draft) {x y : Except Error Unit × Writer}
    (h : Agree Writer.Beside x y) : Concur (s.onDraft draft x) (s.onDraft draft y) := by
  obtain ⟨result, t, u, rfl, rfl, hbeside⟩ := h
  refine ⟨result, _, _, rfl, rfl, resembles_after s _ _ result, fun hok => ?_⟩
  subst hok
  exact ⟨_, u, rfl, hbeside rfl, rfl⟩

/-- What agrees for payloads beside each other concurs for sessions. -/
theorem Beside.onPayload (h : s₁.Beside s₂) (op : Operation)
    {f : Writer → Except Error Unit × Writer}
    (hf : ∀ w₁ w₂, w₁.Beside w₂ → Agree Writer.Beside (f w₁) (f w₂)) :
    Concur (s₁.onPayload op f) (s₂.onPayload op f) := by
  obtain ⟨draft, payload, hstage, hpayload, rfl⟩ := h
  rw [onPayload_eq hstage, onPayload_eq (s := { s₁ with stage := _ }) rfl]
  exact concur_onDraft _ _ (hf _ _ hpayload)

/-- Sessions beside each other declare an entry alike. -/
theorem Beside.addFile (h : s₁.Beside s₂) (name : String) (size : UInt64) :
    Concur (s₁.addFile name size) (s₂.addFile name size) := by
  have hsmith : s₂.smith = s₁.smith := by
    obtain ⟨draft, payload, -, -, rfl⟩ := h
    rfl
  rw [Sealing.addFile, Sealing.addFile, hsmith]
  exact h.onPayload _ fun w₁ w₂ hw => hw.declare name size

/-- And they take data alike. -/
theorem Beside.writeData (h : s₁.Beside s₂) (data : Bytes) :
    Concur (s₁.writeData data) (s₂.writeData data) := by
  have hsmith : s₂.smith = s₁.smith := by
    obtain ⟨draft, payload, -, -, rfl⟩ := h
    rfl
  rw [Sealing.writeData, Sealing.writeData, hsmith]
  exact h.onPayload _ fun w₁ w₂ hw => hw.write data

/-- **Two calls with data are one call with both,** for a session as for its
payload. -/
theorem writeData_append (hstage : s.stage = .accepting draft) {f : OpenFile}
    (hf : draft.payload.current = some f) {a b : Bytes}
    (hfits : f.written + (a ++ b).length ≤ f.declared.toNat) :
    Concur (Step.andThen (Sealing.writeData a) (fun _ => Sealing.writeData b) s)
      (s.writeData (a ++ b)) := by
  have hboth := concur_onDraft s draft (Writer.write_append (S := s.smith.suite) hf hfits)
  rw [Sealing.writeData, onPayload_eq hstage]
  have hthen : Step.andThen (Sealing.writeData a) (fun _ => Sealing.writeData b) s
      = s.onDraft draft (Step.andThen (Writer.write s.smith.suite a)
        (fun _ => Writer.write s.smith.suite b) draft.payload) := by
    simp only [Step.andThen, Sealing.writeData, onPayload_eq hstage, onDraft]
    rcases draft.payload.write s.smith.suite a with ⟨e | _, w₁⟩
    · rfl
    · rfl
  rw [hthen]
  exact hboth

/-- **What a source delivers is handed over in one call,** in whatever pieces
it comes. -/
theorem pump_concur {remaining : Nat} {source : Source} (hsteady : source.Steady)
    (hstage : s.stage = .accepting draft) {f : OpenFile} (hf : draft.payload.current = some f)
    (hleft : f.written + remaining = f.declared.toNat) (hneat : draft.payload.Neat) :
    Concur (s.pump remaining source) (s.writeData (source.contents.take remaining)) := by
  induction hn : source.weight using Nat.strongRecOn
    generalizing s draft remaining source f with
  | _ n ih =>
    have hnothing : Concur (.ok (), s) (s.writeData []) := by
      have hnil := concur_onDraft s draft (Writer.write_nil (S := s.smith.suite) hf (by omega)
        fun hlast => hneat (by rw [Writer.checkComplete, hf]; exact if_pos hlast))
      rw [Sealing.writeData, onPayload_eq hstage]
      have hself : s.onDraft draft (.ok (), draft.payload) = (.ok (), s) := by
        show (Except.ok (), { s with stage := .accepting draft }) = _
        rw [← hstage]
      rwa [hself] at hnil
    by_cases hr : remaining = 0
    · rw [pump, dif_pos hr, hr, List.take_zero]
      exact hnothing
    rcases hread : source.read (min chunkSize remaining) with ⟨b | _ | e, source'⟩
    · obtain ⟨hmost, hcontents⟩ := Source.read_got hread
      have hpos : 0 < min chunkSize remaining := by
        have : 0 < chunkSize := by decide
        omega
      have hless := Source.weight_read hpos hread (by simp)
      have hsteady' := hsteady.read (min chunkSize remaining)
      rw [hread] at hsteady'
      have htake : source.contents.take remaining
          = b ++ source'.contents.take (remaining - b.length) := by
        rw [hcontents, List.take_append, List.take_of_length_le (by omega)]
      have hfits : f.written + (b ++ source'.contents.take (remaining - b.length)).length
          ≤ f.declared.toNat := by
        rw [List.length_append, List.length_take]
        omega
      rw [pump_of_got hr hread, htake]
      -- the rest is handed over in one call by induction, and that call joins the first one
      refine Concur.trans ?_ (writeData_append hstage hf hfits)
      rcases hwrite : draft.payload.write s.smith.suite b with ⟨e | _, payload⟩
      · have hdata : s.writeData b = s.onDraft draft (.error e, payload) := by
          rw [Sealing.writeData, onPayload_eq hstage, hwrite]
        simp only [Step.andThen, hdata, onDraft]
        exact ⟨_, _, _, rfl, rfl, .refl _, fun h => absurd h (by simp)⟩
      · have hdata : s.writeData b
            = (.ok (), { s with stage := .accepting { draft with payload } }) := by
          rw [Sealing.writeData, onPayload_eq hstage, hwrite]
          rfl
        obtain ⟨g, more, hg, -, -, -, hcurrent, -⟩ := Writer.write_ok hwrite
        obtain rfl : f = g := Option.some.inj (hf.symm.trans hg)
        simp only [Step.andThen, hdata]
        exact ih _ (hn ▸ hless) (s := { s with stage := .accepting { draft with payload } })
          hsteady' rfl hcurrent (by dsimp only; omega) (Writer.neat_of_write hwrite) rfl
    · have hend := (Source.read_ended_iff hsteady (min chunkSize remaining)).mp (by rw [hread])
      rw [pump_of_ended hr hread, hend, List.take_nil]
      exact hnothing
    · exact absurd (congrArg Prod.fst hread) (Source.read_ne_failed hsteady _ e)

/-! ## Calls in turn

The operation that does everything at once stops at the first failure, and
so does the list of calls that stands for it. -/

/-- Calls one after the other, up to the first that fails. -/
def inTurn : List Call → Sealing σ → World σ → Except Error Unit × Sealing σ × World σ
  | [], s, w => (.ok (), s, w)
  | call :: calls, s, w =>
    match call.answer s w with
    | .ok () => inTurn calls (call.next s w).1 (call.next s w).2
    | .error e => (.error e, call.next s w)

/-- The calls that add an entry: its data are the first bytes of what its
source delivers, as many as were announced. -/
def callsOfFile (file : FileInfo × Source) : List Call :=
  [.addFile file.1.name file.1.size, .writeData (file.2.contents.take file.1.size.toNat)]

/-- The calls that begin, add recipients and entries one by one, and finish. -/
def callsStepByStep (recipients : List Recipient) (files : List (FileInfo × Source)) : List Call :=
  .begin :: (recipients.map .addRecipient ++ (files.flatMap callsOfFile ++ [.finish]))

/-- A recipient in turn: the other calls follow, unless none could be added. -/
theorem inTurn_addRecipient (r : Recipient) (calls : List Call) (s : Sealing σ) (w : World σ) :
    inTurn (.addRecipient r :: calls) s w = match s.addRecipient r w with
      | (.ok _, s, w) => inTurn calls s w
      | (.error e, s, w) => (.error e, s, w) := by
  simp only [inTurn, Call.answer, Call.next, Call.apply]
  rcases s.addRecipient r w with ⟨e | index, s', w'⟩ <;> rfl

/-- An entry in turn: its data follow, unless it was refused. -/
theorem inTurn_addFile (name : String) (size : UInt64) (calls : List Call) (s : Sealing σ)
    (w : World σ) : inTurn (.addFile name size :: calls) s w = match s.addFile name size with
      | (.ok (), s) => inTurn calls s w
      | (.error e, s) => (.error e, s, w) := by
  simp only [inTurn, Call.answer, Call.next, Call.apply]
  rcases s.addFile name size with ⟨e | _, s'⟩ <;> rfl

/-- Data in turn. -/
theorem inTurn_writeData (data : Bytes) (calls : List Call) (s : Sealing σ) (w : World σ) :
    inTurn (.writeData data :: calls) s w = match s.writeData data with
      | (.ok (), s) => inTurn calls s w
      | (.error e, s) => (.error e, s, w) := by
  simp only [inTurn, Call.answer, Call.next, Call.apply]
  rcases s.writeData data with ⟨e | _, s'⟩ <;> rfl

/-- The call that finishes comes last, and its answer is that of the run. -/
theorem inTurn_finish (s : Sealing σ) (w : World σ) :
    inTurn [.finish] s w = (s.finish.1, s.finish.2, w) := by
  simp only [inTurn, Call.answer, Call.next, Call.apply]
  rcases s.finish with ⟨e | _, s'⟩ <;> rfl

/-- All recipients in turn are what adds them at once. -/
theorem inTurn_recipients (recipients : List Recipient) (calls : List Call) (s : Sealing σ)
    (w : World σ) :
    inTurn (recipients.map .addRecipient ++ calls) s w = match s.addRecipients recipients w with
      | (.ok (), s, w) => inTurn calls s w
      | (.error e, s, w) => (.error e, s, w) := by
  induction recipients generalizing s w with
  | nil => rfl
  | cons r rest ih =>
    rw [List.map_cons, List.cons_append, inTurn_addRecipient, addRecipients]
    rcases s.addRecipient r w with ⟨e | index, s', w'⟩
    · rfl
    · exact ih s' w'

/-- Recipients leave the payload as it is. -/
theorem payload_addRecipients {recipients : List Recipient} {w w' : World σ} {s' : Sealing σ}
    (hstage : s.stage = .accepting draft) (h : s.addRecipients recipients w = (.ok (), s', w')) :
    ∃ draft', s'.stage = .accepting draft' ∧ draft'.payload = draft.payload := by
  induction recipients generalizing s w draft with
  | nil =>
    obtain ⟨-, hrest⟩ := Prod.mk.inj h
    obtain ⟨rfl, -⟩ := Prod.mk.inj hrest
    exact ⟨draft, hstage, rfl⟩
  | cons r rest ih =>
    rw [addRecipients, addRecipient, hstage] at h
    dsimp only at h
    rcases hwrap : s.smith.wrap draft.locks.length r draft.fmk w with ⟨e | lock, w₁⟩
    · rw [hwrap] at h
      exact absurd (Prod.mk.inj h).1 (by simp)
    · rw [hwrap] at h
      obtain ⟨draft', hstage', hpayload⟩ := ih (s := { s with stage := .accepting _ }) rfl h
      exact ⟨draft', hstage', hpayload⟩

/-- An operation that succeeds changes the payload and nothing else. -/
theorem onPayload_ok {op : Operation} {f : Writer → Except Error Unit × Writer} {t : Sealing σ}
    (hstage : s.stage = .accepting draft) (h : s.onPayload op f = (.ok (), t)) :
    ∃ payload, f draft.payload = (.ok (), payload) ∧
      t = { s with stage := .accepting { draft with payload } } := by
  rw [onPayload_eq hstage, onDraft] at h
  obtain ⟨hok, rfl⟩ := Prod.mk.inj h
  refine ⟨(f draft.payload).2, Prod.ext hok rfl, ?_⟩
  rw [hok]
  rfl

/-- A session that accepts is beside itself. -/
theorem Beside.refl (hstage : s.stage = .accepting draft) : s.Beside s :=
  ⟨draft, draft.payload, hstage, .refl _, by rw [← hstage]⟩

/-- What is beside each other resembles each other. -/
theorem Beside.resembles (h : s₁.Beside s₂) : s₁.Resembles s₂ := by
  obtain ⟨draft, payload, hstage, -, rfl⟩ := h
  exact ⟨rfl, by rw [hstage]; rfl, fun m => by rw [hstage]; simp⟩

/-- **Sessions beside each other finish with the same container,** since their
payloads close alike. -/
theorem Beside.finish (h : s₁.Beside s₂) :
    ∃ result t u, s₁.finish = (result, t) ∧ s₂.finish = (result, u) ∧ t.Resembles u := by
  obtain ⟨draft, payload, hstage, hpayload, rfl⟩ := h
  simp only [Sealing.finish, hstage, ← hpayload.checkComplete, ← hpayload.close]
  split
  · exact ⟨_, _, _, rfl, rfl, .refl _⟩
  · split
    · exact ⟨_, _, _, rfl, rfl, resembles_after s₁ _ _ _⟩
    · split
      · exact ⟨_, _, _, rfl, rfl, .refl _⟩
      · rename_i spool _
        have hdeliver : Sealing.deliver { draft with payload } spool
            ({ s₁ with stage := .accepting { draft with payload } } : Sealing σ)
              = s₁.deliver draft spool := rfl
        rw [hdeliver]
        rcases s₁.deliver draft spool with ⟨e | _, dest⟩
        · exact ⟨_, _, _, rfl, rfl, .refl _⟩
        · exact ⟨_, _, _, rfl, rfl, .refl _⟩

/-- **Entries are added call by call.** -/
theorem addFiles_concur {files : List (FileInfo × Source)} (hfiles : ∀ file ∈ files, file.2.Steady)
    (h : s₁.Beside s₂) (hstage : s₁.stage = .accepting draft) (hneat : draft.payload.Neat)
    (calls : List Call) (w : World σ) :
    ∃ result t u, s₁.addFiles files = (result, t) ∧ t.Resembles u ∧
      (result = .ok () → t.Beside u) ∧
      inTurn (files.flatMap callsOfFile ++ calls) s₂ w = match result with
        | .ok () => inTurn calls u w
        | .error e => (.error e, u, w) := by
  -- entry by entry; what carries over is that nothing waits of an entry that is
  -- complete
  induction files generalizing s₁ s₂ draft with
  | nil => exact ⟨.ok (), s₁, s₂, rfl, h.resembles, fun _ => h, rfl⟩
  | cons file rest ih =>
    obtain ⟨info, source⟩ := file
    have hsteady := hfiles _ List.mem_cons_self
    obtain ⟨declared, t, u, ht, hu, hresembles, hbeside⟩ := h.addFile info.name info.size
    rw [List.flatMap_cons, callsOfFile, addFiles]
    dsimp only [List.cons_append, List.nil_append]
    rw [inTurn_addFile, ht, hu]
    rcases declared with e | _
    · exact ⟨_, t, u, rfl, hresembles, fun h => absurd h (by simp), rfl⟩
    -- the entry has been declared, and now it gets its data
    obtain ⟨payload, hdeclare, rfl⟩ := onPayload_ok hstage ht
    obtain ⟨stored, -, hcomplete, -, -, hheld, hcurrent, -⟩ := Writer.declare_ok hdeclare
    have hneat₁ : payload.Neat := fun _ => hheld.trans (hneat hcomplete)
    have hpump : Concur (Sealing.pump info.size.toNat source
        { s₁ with stage := .accepting { draft with payload } }) _ :=
      pump_concur hsteady rfl hcurrent (Nat.zero_add _) hneat₁
    obtain ⟨written, t₂, m, ht₂, hm, hresembles₁, hbeside₁⟩ := hpump
    obtain ⟨written', m', u₂, hm', hu₂, hresembles₂, hbeside₂⟩ :=
      (hbeside rfl).writeData (source.contents.take info.size.toNat)
    obtain ⟨rfl, rfl⟩ := Prod.mk.inj (hm.symm.trans hm')
    dsimp only
    rw [inTurn_writeData, hu₂, ht₂]
    rcases written with e | _
    · exact ⟨_, t₂, u₂, rfl, hresembles₁.trans hresembles₂, fun h => absurd h (by simp), rfl⟩
    · obtain ⟨payload', hwrite, hm₂⟩ := onPayload_ok rfl hm
      -- the session that was pumped goes on with a draft beside that of the single call
      obtain ⟨draft₂, payload₂, hstage₂, hpayload₂, hm₂'⟩ := hbeside₁ rfl
      obtain rfl : payload' = payload₂ :=
        congrArg Draft.payload (Stage.accepting.inj (congrArg Sealing.stage (hm₂.symm.trans hm₂')))
      have hneat₂ : draft₂.payload.Neat := hpayload₂.symm.neat (Writer.neat_of_write hwrite)
      exact ih (fun file hfile => hfiles file (List.mem_cons_of_mem _ hfile))
        ((hbeside₁ rfl).trans (hbeside₂ rfl)) hstage₂ hneat₂

end Sealing

/-- **To encrypt everything at once is to do so step by step.** Let no read of
the sources fail; they may deliver their bytes in any pieces, with any
interruptions in between. From a session that was just created, with the
same random bytes and the same answers from outside, it comes to the same
to begin, to add each recipient, to declare each entry and hand over in one
call the first bytes of its source, as many as were announced or else all
there are, and to finish, stopping at the first failure: the answer is the
same, the bytes at the destination are, and so is whether the session is
sealed, accepts or has failed, and for which wrong size. -/
theorem encryptAll_eq_stepByStep {σ : Type} (recipients : List Recipient)
    {files : List (FileInfo × Source)} (hfiles : ∀ file ∈ files, file.2.Steady) {s : Sealing σ}
    (hcreated : s.stage = .created) (w : World σ) :
    ∃ result s₁ s₂ w', s.encryptAll recipients files w = (result, s₁, w') ∧
      Sealing.inTurn (Sealing.callsStepByStep recipients files) s w = (result, s₂, w') ∧
      s₁.dest = s₂.dest ∧ s₁.stage.phase = s₂.stage.phase ∧ s₁.isSealed = s₂.isSealed ∧
      ∀ cause, s₁.stage = .failed cause ↔ s₂.stage = .failed cause := by
  suffices hall : ∃ result s₁ s₂ w', s.encryptAll recipients files w = (result, s₁, w') ∧
      Sealing.inTurn (Sealing.callsStepByStep recipients files) s w = (result, s₂, w') ∧
      s₁.Resembles s₂ by
    obtain ⟨result, s₁, s₂, w', h₁, h₂, h⟩ := hall
    exact ⟨result, s₁, s₂, w', h₁, h₂, h.dest, h.phase, h.isSealed, h.cause⟩
  -- both begin, and both add the recipients one by one
  obtain ⟨start, draft, w₁, hbegin, hstage, hheld⟩ : ∃ (start : Sealing σ) (draft : Sealing.Draft)
      (w₁ : World σ), s.begin w = (.ok (), start, w₁) ∧ start.stage = .accepting draft ∧
      draft.payload.held = [] := by
    rw [Sealing.begin, hcreated]
    exact ⟨_, _, _, rfl, rfl, rfl⟩
  rw [Sealing.encryptAll, Sealing.ensureBegun, hcreated, Sealing.callsStepByStep, Sealing.inTurn]
  simp only [Sealing.Call.answer, Sealing.Call.next, Sealing.Call.apply, hbegin,
    Sealing.inTurn_recipients]
  rcases hrecipients : start.addRecipients recipients w₁ with ⟨e | _, s₂, w₂⟩
  · exact ⟨_, _, _, _, rfl, rfl, .refl s₂⟩
  obtain ⟨draft', hstage', hpayload⟩ := Sealing.payload_addRecipients hstage hrecipients
  have hneat : draft'.payload.Neat := fun _ => by rw [hpayload, hheld]
  obtain ⟨result, t, u, ht, hresembles, hbeside, hu⟩ :=
    Sealing.addFiles_concur hfiles (.refl hstage') hstage' hneat [.finish] w₂
  dsimp only
  rw [ht, hu]
  rcases result with e | _
  · exact ⟨_, t, u, _, rfl, rfl, hresembles⟩
  · obtain ⟨finished, t', u', ht', hu', hresembles'⟩ := (hbeside rfl).finish
    dsimp only
    rw [Sealing.inTurn_finish, ht', hu']
    exact ⟨_, t', u', _, rfl, rfl, hresembles'⟩

open Sealing in
/-- Two bytes that come in two pieces are sealed like two bytes in one call. -/
theorem twoPieces_encryptAll_eq_stepByStep : ∃ (start s₁ s₂ : Sealing Unit) (w' : World Unit),
    create (.plain [1]) containerVersion .unlimited .unlimited = .ok start ∧
    start.encryptAll [.symmetricKey "key" (some [1])]
      [(⟨"two", 2⟩, [.bytes [7], .interrupted, .bytes [8]])] ⟨.splitMix 1, ()⟩ = (.ok (), s₁, w') ∧
    inTurn [.begin, .addRecipient (.symmetricKey "key" (some [1])), .addFile "two" 2,
      .writeData [7, 8], .finish] start ⟨.splitMix 1, ()⟩ = (.ok (), s₂, w') ∧
    s₁.dest = s₂.dest ∧ s₂.isSealed = true := by
  let files : List (FileInfo × Source) := [(⟨"two", 2⟩, [.bytes [7], .interrupted, .bytes [8]])]
  have hdeliver : Deliver files := by
    intro file hfile
    obtain rfl := List.mem_singleton.mp hfile
    exact ⟨fun e he => by simp at he, rfl⟩
  have hstorable : ∀ file ∈ files, ∃ stored, EntryName.ofText file.1.name = .ok stored := by
    intro file hfile
    obtain rfl := List.mem_singleton.mp hfile
    exact ⟨⟨"two", by decide⟩, EntryName.ofText_eq_ok_iff.mpr rfl⟩
  obtain ⟨bytes, w₁, hcontainer⟩ : ∃ bytes w₁, container (.plain [1])
      [.symmetricKey "key" (some [1])] files ⟨.splitMix 1, ()⟩ = (.ok bytes, w₁) :=
    container_succeeds Suite.plain_fitsFrames.tag (by simp) (by decide)
      (Locksmith.plain_keyAtHand [1]) hdeliver hstorable (by simp [files]) (by decide)
      ⟨.splitMix 1, ()⟩
  unfold container at hcontainer
  split at hcontainer
  · exact absurd (Prod.mk.inj hcontainer).1 (by simp)
  · rename_i start hcreate
    have hcreated : start.stage = .created := by rw [create_ok hcreate]
    obtain ⟨result, s₁, s₂, w', hall, hturn, hdest, -, hsealed, -⟩ := encryptAll_eq_stepByStep
      [.symmetricKey "key" (some [1])] (fun file hfile => (hdeliver file hfile).1) hcreated
      ⟨.splitMix 1, ()⟩
    rw [hall] at hcontainer
    rcases result with e | _
    · exact absurd (Prod.mk.inj hcontainer).1 (by simp)
    · have hok := (encryptAll_ok_iff_sealed hcreated).mp (congrArg Prod.fst hall)
      rw [hall] at hok
      exact ⟨start, s₁, s₂, w', hcreate, hall, hturn, hdest, hsealed.symm.trans hok⟩

end Lockbox
