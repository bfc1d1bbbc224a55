import Lockbox.Proofs.AllAtOnce
import Lockbox.Proofs.Listing
import Lockbox.Proofs.Onward
import Lockbox.Proofs.Opened
import Lockbox.Proofs.Requests
/-!
# Lockbox — reading with and without data errors ignored

To ignore data errors is to read the same container in the same way, but
for two things: entries of the table that are no locks are left out, and
bytes that follow the last frame are let pass. Here a session is put beside
the same session in the other mode (`Opening.inMode`). Every request keeps
the two beside each other and is answered by both alike, until one of them
reads a last frame that bytes follow (`Opening.MeetsTrailing`); there they
part for good.
-/

namespace Lockbox

namespace Payload

/-! ## Readers

A reader knows of its mode only by the flag that lets bytes follow the last
frame, and looks at it in one place. All else is the same computation, which
is what the `_allowing` lemmas say operation by operation. -/

/-- Where a reader that is asked for the next entry reads a frame. -/
def Cursor.Due : Cursor → Prop
  | .start | .pending _ 0 | .consumed => True
  | .pending _ (_ + 1) | .ended => False

namespace Reader

variable {S : Suite} {r : Reader} {after : Bytes}

/-- The same reader, to which bytes after the last frame are allowed or
not. -/
def allowing (b : Bool) (r : Reader) : Reader := { r with allowTrailing := b }

/-- Asked for the next entry, the reader reads the last frame, authentic and
in its place, and `after` is what follows it. -/
def MeetsEnd (S : Suite) (r : Reader) (after : Bytes) : Prop :=
  r.failed = false ∧ r.cursor.Due ∧
    ∃ r', r.readFrame S = (.ok .finish, r') ∧ r'.source.contents = after

/-- What is taken does not depend on what may follow. -/
theorem take_allowing (b : Bool) (n : Nat) (r : Reader) :
    (r.allowing b).take n = ((r.take n).1, (r.take n).2.allowing b) := by
  have hsource : (r.allowing b).source = r.source := rfl
  rw [take, take, hsource]
  rcases r.source.takeExactly n with ⟨taken, source⟩
  cases taken <;> rfl

/-- **Which frames are read is the same in both modes.** -/
theorem readFrame_allowing (S : Suite) (b : Bool) (r : Reader) :
    (r.allowing b).readFrame S = ((r.readFrame S).1, (r.readFrame S).2.allowing b) := by
  rw [readFrame, readFrame, take_allowing]
  rcases r.take 4 with ⟨e | written, r₁⟩
  · rfl
  · dsimp only
    split
    · rfl
    · rw [take_allowing]
      rcases r₁.take (Bytes.toNat written) with ⟨e | sealed, r₂⟩
      · rfl
      · have hchannel : (r₂.allowing b).channel = r₂.channel := rfl
        have hcounter : (r₂.allowing b).counter = r₂.counter := rfl
        dsimp only
        rw [hchannel, hcounter]
        cases r₂.channel.openFrame S r₂.counter sealed <;> rfl

/-- Where the source has ended, it makes no difference what may follow. -/
theorem checkTrailing_allowing (b : Bool) (h : r.source.Steady) (hend : r.source.contents = []) :
    (r.allowing b).checkTrailing = (r.checkTrailing.1, r.checkTrailing.2.allowing b) := by
  have hended := (Source.read_ended_iff h 1).mpr hend
  have hsource : (r.allowing b).source = r.source := rfl
  rw [checkTrailing, checkTrailing, hsource]
  rcases hread : r.source.read 1 with ⟨single, source⟩
  rw [hread] at hended
  obtain rfl : single = .ended := hended
  rfl

/-- What follows the last frame is what the two modes differ in. -/
theorem checkTrailing_fst (b : Bool) (h : r.source.Steady) :
    (r.allowing b).checkTrailing.1
      = if b = true ∨ r.source.contents = [] then .ok () else .error (.integrity .trailing) := by
  have hended := Source.read_ended_iff h 1
  have hsource : (r.allowing b).source = r.source := rfl
  rw [checkTrailing, hsource]
  rcases hread : r.source.read 1 with ⟨single, source⟩
  rw [hread] at hended
  cases single with
  | ended => rw [if_pos (.inr (hended.mp rfl))]
  | failed e => exact absurd (congrArg Prod.fst hread) (Source.read_ne_failed h 1 e)
  | got bytes =>
    have hne : r.source.contents ≠ [] := fun hc => absurd (hended.mpr hc) (by simp)
    have hallow : (r.allowing b).allowTrailing = b := rfl
    dsimp only
    rw [hallow]
    cases b with
    | true => rfl
    | false => simp [hne, fail]

/-- A reader that is due to read a frame reads it when it is asked for the
next entry. -/
theorem next_of_due (hf : r.failed = false) (hc : r.cursor.Due) : r.next S = r.advance S := by
  rw [next, if_neg (by simp [hf])]
  split
  · rename_i hcursor
    rw [hcursor] at hc
    exact hc.elim
  · rename_i hcursor
    rw [hcursor] at hc
    exact hc.elim
  all_goals rfl

/-- And one that is not answers without reading. -/
theorem next_of_not_due (b : Bool) (h : ¬ (r.failed = false ∧ r.cursor.Due)) :
    (r.allowing b).next S = ((r.next S).1, (r.next S).2.allowing b) := by
  have hfailed : (r.allowing b).failed = r.failed := rfl
  have hcursor : (r.allowing b).cursor = r.cursor := rfl
  rw [next, next, hfailed, hcursor]
  split
  · rfl
  · rename_i hsound
    have hnot : ¬ r.cursor.Due := fun hc => h ⟨by simpa using hsound, hc⟩
    cases hc : r.cursor with
    | ended => rfl
    | start => exact absurd (by rw [hc]; trivial) hnot
    | consumed => exact absurd (by rw [hc]; trivial) hnot
    | pending info n =>
      cases n with
      | zero => exact absurd (by rw [hc]; trivial) hnot
      | succ n => rfl

/-- **Asked for the next entry, both modes answer alike,** unless bytes
follow the last frame. -/
theorem next_allowing (b : Bool) (h : r.source.Steady)
    (hnot : ∀ after, r.MeetsEnd S after → after = []) :
    (r.allowing b).next S = ((r.next S).1, (r.next S).2.allowing b) := by
  by_cases hdue : r.failed = false ∧ r.cursor.Due
  case neg => exact next_of_not_due b hdue
  obtain ⟨hf, hc⟩ := hdue
  have hsteady := steady_readFrame S h
  have hsame : (r.allowing b).next S = (r.allowing b).advance S := next_of_due hf hc
  rw [hsame, next_of_due hf hc, advance, advance, readFrame_allowing]
  rcases hread : r.readFrame S with ⟨e | frame, r₁⟩
  · rfl
  · rw [hread] at hsteady
    cases frame with
    | file name size => rfl
    | data chunk => rfl
    | finish =>
      have hend : r₁.source.contents = [] := hnot _ ⟨hf, hc, r₁, hread, rfl⟩
      dsimp only
      rw [checkTrailing_allowing b hsteady hend]
      rcases r₁.checkTrailing with ⟨e | u, r₂⟩ <;> rfl

/-- **At the last frame** a reader answers that there is no next entry, if
nothing follows it or that is allowed. -/
theorem MeetsEnd.next_fst (h : r.MeetsEnd S after) (hsteady : r.source.Steady) (b : Bool) :
    ((r.allowing b).next S).1
      = if b = true ∨ after = [] then .ok none else .error (.integrity .trailing) := by
  obtain ⟨hf, hc, r₁, hread, rfl⟩ := h
  have hsteady₁ := steady_readFrame S hsteady
  rw [hread] at hsteady₁
  have hdue : (r.allowing b).next S = (r.allowing b).advance S := next_of_due hf hc
  have hcheck := checkTrailing_fst b hsteady₁
  rw [hdue, advance, readFrame_allowing, hread]
  dsimp only
  by_cases hallowed : b = true ∨ r₁.source.contents = []
  · rw [if_pos hallowed] at hcheck ⊢
    have htrailing : (r₁.allowing b).checkTrailing = (.ok (), _) := Prod.ext hcheck rfl
    rw [htrailing]
  · rw [if_neg hallowed] at hcheck ⊢
    have htrailing : (r₁.allowing b).checkTrailing = (.error (.integrity .trailing), _) :=
      Prod.ext hcheck rfl
    rw [htrailing]

/-- Data are passed on in both modes alike. -/
theorem pour_allowing (S : Suite) (b : Bool) (info : FileInfo) (remaining : Nat) (r : Reader)
    (sink : Sink) :
    pour S info remaining (r.allowing b) sink
      = ((pour S info remaining r sink).1, (pour S info remaining r sink).2.1.allowing b,
          (pour S info remaining r sink).2.2) := by
  fun_induction pour S info remaining r sink with
  | case1 r sink =>
    rw [pour, if_pos rfl]
  | case2 remaining r sink hne e r₁ hread =>
    rw [pour, if_neg hne, readFrame_allowing, hread]
  | case3 remaining r sink hne chunk r₁ hread hlt result r₂ hfail =>
    rw [pour, if_neg hne, readFrame_allowing, hread]
    obtain ⟨rfl, rfl⟩ := Prod.mk.inj hfail
    dsimp only
    rw [if_pos hlt]
    rfl
  | case4 remaining r sink hne chunk r₁ hread hlt e sink₁ hwrite =>
    rw [pour, if_neg hne, readFrame_allowing, hread]
    dsimp only
    rw [if_neg hlt, hwrite]
  | case5 remaining r sink hne chunk r₁ hread hlt sink₁ hwrite left ih =>
    rw [pour, if_neg hne, readFrame_allowing, hread]
    dsimp only
    rw [if_neg hlt, hwrite]
    exact ih
  | case6 remaining r sink hne f r₁ hnot hread result r₂ hfail =>
    rw [pour, if_neg hne, readFrame_allowing, hread]
    obtain ⟨rfl, rfl⟩ := Prod.mk.inj hfail
    cases f with
    | data chunk => exact absurd rfl (hnot chunk)
    | file name size => rfl
    | finish => rfl

/-- So an entry is read alike in both modes. -/
theorem readInto_allowing (S : Suite) (b : Bool) (r : Reader) (sink : Sink) :
    (r.allowing b).readInto S sink
      = ((r.readInto S sink).1, (r.readInto S sink).2.1.allowing b, (r.readInto S sink).2.2) := by
  have hfailed : (r.allowing b).failed = r.failed := rfl
  have hcursor : (r.allowing b).cursor = r.cursor := rfl
  rw [readInto, readInto, hfailed, hcursor]
  split
  · rfl
  · cases r.cursor with
    | start => rfl
    | consumed => rfl
    | ended => rfl
    | pending info remaining =>
      dsimp only
      split
      · rfl
      · rw [pour_allowing]
        rcases pour S info remaining r sink with ⟨e | u, r₁, sink₁⟩
        · rfl
        · dsimp only
          cases sink₁.flush <;> rfl

end Reader

end Payload

namespace Opening

open Payload

variable {σ γ : Type} {s : Opening σ} {w : World σ} {after : Bytes}

/-! ## Sessions

The two sessions differ in that flag of their reader and in the mode that
the head was read in; which locks they have was settled when they were
created. -/

/-- The stage of the same session in this mode. -/
def Stage.inMode (lenient : Bool) : Stage → Stage
  | .decrypting fmk r => .decrypting fmk (r.allowing lenient)
  | stage => stage

/-- The same session in this mode: it stands where it stands and has read
what it has read. -/
def inMode (lenient : Bool) (s : Opening σ) : Opening σ :=
  { s with lenient, stage := s.stage.inMode lenient }

/-- No read of what is left of the source fails. -/
def Stage.Steady : Stage → Prop
  | .locksParsed source | .fmkObtained source => source.Steady
  | .decrypting _ r => r.source.Steady
  | .finished _ | .poisoned => True

/-- Asked for the next entry, the session reads the last frame, authentic
and in its place, and `after` is what follows it. -/
def MeetsEnd (s : Opening σ) (after : Bytes) : Prop :=
  ∃ fmk r, s.stage = .decrypting fmk r ∧ r.MeetsEnd s.smith.suite after

/-- One of these requests for the next entry reads the last frame, and bytes
follow it. -/
def MeetsTrailing (requests : List Request) (s : Opening σ) (w : World σ) : Prop :=
  ∃ before later after, requests = before ++ .nextFile :: later ∧
    (played before s w).1.MeetsEnd after ∧ after ≠ []

theorem untouched?_inMode (lenient : Bool) (stage : Stage) :
    (stage.inMode lenient).untouched? = stage.untouched? := by
  cases stage <;> rfl

theorem phase_inMode (lenient : Bool) (stage : Stage) :
    (stage.inMode lenient).phase = stage.phase := by
  cases stage <;> rfl

/-- Nobody has begun to read, so only the mode is another. -/
theorem inMode_of_untouched {source : Source} (h : s.stage.untouched? = some source)
    (lenient : Bool) : s.inMode lenient = { s with lenient } := by
  obtain ⟨smith, header, mode, stage⟩ := s
  obtain rfl | rfl := untouched?_eq_some_iff.mp h
  · rfl
  · rfl

/-- **Attempts at a lock go alike in both modes.** -/
theorem getFmk_inMode (lenient : Bool) (index : Nat) (s : Opening σ) (w : World σ) :
    (s.inMode lenient).getFmk index w
      = ((s.getFmk index w).1, (s.getFmk index w).2.1.inMode lenient, (s.getFmk index w).2.2) := by
  have hstage : (s.inMode lenient).stage.untouched? = s.stage.untouched? :=
    untouched?_inMode lenient s.stage
  have hrefuse : (s.inMode lenient).refuse .getFmk = s.refuse .getFmk :=
    congrArg (Error.state .getFmk) (phase_inMode lenient s.stage)
  rw [getFmk, getFmk, hstage, hrefuse]
  cases huntouched : s.stage.untouched? with
  | none => rfl
  | some source =>
    have hlock : (s.inMode lenient).header.lock? index = s.header.lock? index := rfl
    have hsmith : (s.inMode lenient).smith = s.smith := rfl
    have hheader : (s.inMode lenient).header = s.header := rfl
    dsimp only
    rw [hlock, hsmith, hheader]
    cases s.header.lock? index with
    | none => rfl
    | some lock =>
      dsimp only
      rcases s.smith.unwrap lock w with ⟨e | fmk, w'⟩
      · rfl
      · dsimp only
        cases s.header.verify s.smith.suite fmk with
        | error e => rfl
        | ok u =>
          dsimp only
          rw [noteFmk_eq huntouched, noteFmk_eq (s := s.inMode lenient) (hstage.trans huntouched)]
          rfl

/-- Decryption begins alike in both modes. -/
theorem begin_inMode (lenient : Bool) (fmk : Fmk) (s : Opening σ) :
    (s.inMode lenient).begin fmk = ((s.begin fmk).1, (s.begin fmk).2.inMode lenient) := by
  have hstage : (s.inMode lenient).stage.untouched? = s.stage.untouched? :=
    untouched?_inMode lenient s.stage
  cases huntouched : s.stage.untouched? with
  | none =>
    have hrefuse : (s.inMode lenient).refuse .beginDecryption = s.refuse .beginDecryption :=
      congrArg (Error.state .beginDecryption) (phase_inMode lenient s.stage)
    rw [Opening.begin, Opening.begin, hstage, huntouched, hrefuse]
  | some source =>
    have hverify : (s.inMode lenient).header.verify (s.inMode lenient).smith.suite fmk
        = s.header.verify s.smith.suite fmk := rfl
    rw [begin_eq huntouched, begin_eq (hstage.trans huntouched), hverify]
    cases s.header.verify s.smith.suite fmk <;> rfl

/-- **A request is answered in both modes alike,** unless it reads a last
frame that bytes follow. -/
theorem Request.inMode (lenient : Bool) (request : Request) (w : World σ) (h : s.stage.Steady)
    (hnot : request = .nextFile → ∀ after, s.MeetsEnd after → after = []) :
    request.answer (s.inMode lenient) w = request.answer s w ∧
      request.next (s.inMode lenient) w
        = ((request.next s w).1.inMode lenient, (request.next s w).2) := by
  cases request with
  | getFmk index => simp only [answer, next, getFmk_inMode, and_self]
  | begin fmk => simp only [answer, next, begin_inMode, and_self]
  | nextFile =>
    obtain ⟨smith, header, mode, stage⟩ := s
    cases stage with
    | decrypting fmk r =>
      have hnext := Reader.next_allowing (S := smith.suite) lenient h fun after hmeets =>
        hnot rfl after ⟨fmk, r, rfl, hmeets⟩
      simp only [answer, next, Opening.nextFile, Opening.inMode, Stage.inMode, hnext, and_self]
    | _ => exact ⟨rfl, rfl⟩
  | readContent sink =>
    obtain ⟨smith, header, mode, stage⟩ := s
    cases stage with
    | decrypting fmk r =>
      have hread := Reader.readInto_allowing smith.suite lenient r sink
      simp only [answer, next, Opening.readContent, Opening.inMode, Stage.inMode, hread, and_self]
    | _ => exact ⟨rfl, rfl⟩
  | finish =>
    obtain ⟨smith, header, mode, stage⟩ := s
    cases stage <;> exact ⟨rfl, rfl⟩

/-- **At the last frame** the modes differ if bytes follow it, and only
then. -/
theorem MeetsEnd.nextFile_fst (h : s.MeetsEnd after) (hsteady : s.stage.Steady) (lenient : Bool) :
    (s.inMode lenient).nextFile.1
      = if lenient = true ∨ after = [] then .ok none else .error (.integrity .trailing) := by
  obtain ⟨fmk, r, hstage, hmeets⟩ := h
  rw [hstage] at hsteady
  have hnext := hmeets.next_fst hsteady lenient
  have hmode : (s.inMode lenient).stage = .decrypting fmk (r.allowing lenient) := by
    rw [inMode, hstage]
    rfl
  rw [Opening.nextFile, hmode]
  exact hnext

/-! ### What a request leaves -/

/-- A source that does not fail goes on not failing. -/
theorem Stage.Steady.next (h : s.stage.Steady) (request : Request) (w : World σ) :
    (request.next s w).1.stage.Steady := by
  have hmoves := request.moves s w
  generalize (request.next s w).1 = s' at hmoves
  have hsource : ∀ source, s.stage.untouched? = some source → source.Steady := by
    intro source hstage
    obtain hs | hs := untouched?_eq_some_iff.mp hstage
    · rw [hs] at h
      exact h
    · rw [hs] at h
      exact h
  cases hmoves with
  | stays => exact h
  | obtains hstage => exact hsource _ hstage
  | begins hstage => exact hsource _ hstage
  | advances hstage =>
    rw [hstage] at h
    exact Reader.steady_next s.smith.suite h
  | @pours fmk r sink hstage =>
    rw [hstage] at h
    exact Reader.steady_readInto s.smith.suite sink h
  | ends => trivial

theorem not_meetsTrailing_nil : ¬ MeetsTrailing [] s w := by
  rintro ⟨before, later, after, hrequests, -⟩
  exact absurd hrequests (by simp)

/-- The first request meets the end, or what it leaves to the others does. -/
theorem meetsTrailing_cons_iff {request : Request} {requests : List Request} :
    MeetsTrailing (request :: requests) s w ↔
      (request = .nextFile ∧ ∃ after, s.MeetsEnd after ∧ after ≠ []) ∨
        MeetsTrailing requests (request.next s w).1 (request.next s w).2 := by
  constructor
  · rintro ⟨before, later, after, hrequests, hmeets, hne⟩
    cases before with
    | nil =>
      obtain ⟨rfl, -⟩ := List.cons.inj hrequests
      exact .inl ⟨rfl, after, hmeets, hne⟩
    | cons first before =>
      obtain ⟨rfl, rfl⟩ := List.cons.inj hrequests
      exact .inr ⟨before, later, after, rfl, hmeets, hne⟩
  · rintro (⟨rfl, after, hmeets, hne⟩ | ⟨before, later, after, rfl, hmeets, hne⟩)
    · exact ⟨[], requests, after, rfl, hmeets, hne⟩
    · exact ⟨request :: before, later, after, rfl, hmeets, hne⟩

/-- Only a request for the next entry can meet bytes behind the last frame. -/
theorem meetsTrailing_cons_of_ne {request : Request} {requests : List Request}
    (hne : request ≠ .nextFile) :
    MeetsTrailing (request :: requests) s w ↔
      MeetsTrailing requests (request.next s w).1 (request.next s w).2 := by
  rw [meetsTrailing_cons_iff]
  exact or_iff_right fun hfirst => hne hfirst.1

/-- Over two stretches of requests it is met in the first or in the second. -/
theorem meetsTrailing_append_iff {before later : List Request} :
    MeetsTrailing (before ++ later) s w ↔ MeetsTrailing before s w ∨
      MeetsTrailing later (played before s w).1 (played before s w).2 := by
  induction before generalizing s w with
  | nil => simp [not_meetsTrailing_nil, played]
  | cons request before ih =>
    rw [List.cons_append, meetsTrailing_cons_iff, meetsTrailing_cons_iff, ih, played_cons, or_assoc]

theorem steady_played (requests : List Request) (h : s.stage.Steady) (w : World σ) :
    (played requests s w).1.stage.Steady := by
  induction requests generalizing s w with
  | nil => exact h
  | cons request requests ih => exact ih (h.next request w) (request.next s w).2

/-- **Requests lead both modes to the same,** as long as no last frame is
read that bytes follow. -/
theorem played_inMode (lenient : Bool) (requests : List Request) (w : World σ) (h : s.stage.Steady)
    (hnot : ¬ MeetsTrailing requests s w) :
    played requests (s.inMode lenient) w
      = ((played requests s w).1.inMode lenient, (played requests s w).2) := by
  induction requests generalizing s w with
  | nil => rfl
  | cons request requests ih =>
    rw [meetsTrailing_cons_iff, not_or] at hnot
    obtain ⟨hnow, hlater⟩ := hnot
    have hfirst := (request.inMode lenient w h fun hrequest after hmeets =>
      Classical.not_not.mp fun hne => hnow ⟨hrequest, after, hmeets, hne⟩).2
    rw [played_cons, hfirst, ih _ (h.next request w) hlater]
    rfl

/-- **The sessions of the two modes begin beside each other.** -/
theorem create_beside {smith : Locksmith σ} {source : Source} {strict lenient : Opening σ}
    (hsteady : source.Steady) (hstrict : create smith false source = .ok strict)
    (hlenient : create smith true source = .ok lenient) :
    lenient = strict.inMode true ∧ strict.inMode false = strict ∧ strict.stage.Steady := by
  obtain ⟨rest, hread, hsmith, hmode, hstage⟩ := create_ok hstrict
  obtain ⟨rest', hread', hsmith', hmode', hstage'⟩ := create_ok hlenient
  rw [(ParsedHeader.read_false_iff.mp hread).1] at hread'
  obtain ⟨hheader, rfl⟩ := Prod.mk.inj hread'
  have huntouched : strict.stage.untouched? = some rest := by
    rw [hstage]
    rfl
  refine ⟨?_, ?_, ?_⟩
  · rw [inMode_of_untouched huntouched]
    obtain ⟨smith', header', mode', stage'⟩ := lenient
    cases hheader
    obtain rfl : smith' = smith := hsmith'
    obtain rfl : mode' = true := hmode'
    obtain rfl : stage' = .locksParsed rest := hstage'
    rw [hsmith, hstage]
  · rw [inMode_of_untouched huntouched, ← hmode]
  · rw [hstage]
    exact (ParsedHeader.read_ok hread).2.1 hsteady

/-! ## Everything at once

To drain a payload is to ask again and again, so the two modes part at most
once, at the end, when everything was passed on already. -/

/-- **At the last frame** no more is passed on, and what follows it is let
pass or not. -/
theorem drain_meetsEnd {S : Suite} {r : Reader} {after : Bytes} (consumer : Consumer γ) (c : γ)
    (count : Nat) (h : r.MeetsEnd S after) (hsteady : r.source.Steady) (b : Bool) :
    drain S consumer count (r.allowing b) c
      = (if b = true ∨ after = [] then .ok count else .error (.integrity .trailing),
          ((r.allowing b).next S).2, c) := by
  have hnext := h.next_fst hsteady b
  by_cases hallowed : b = true ∨ after = []
  · rw [if_pos hallowed] at hnext ⊢
    exact drain_none count (Prod.ext hnext rfl)
  · rw [if_neg hallowed] at hnext ⊢
    exact drain_error count (Prod.ext hnext rfl)

/-- **To pass entries on comes to the same in both modes,** unless bytes
follow the last frame; then the same entries are passed on, and the strict
mode fails. -/
theorem drain_allowing (consumer : Consumer γ) (c : γ) (count : Nat) {fmk : Fmk} {r : Reader}
    (h : s.stage = .decrypting fmk r) (hsteady : r.source.Steady) :
    (¬ MeetsTrailing (requestsOfDrain s.smith.suite consumer r c) s w ∧
      ∀ b, drain s.smith.suite consumer count (r.allowing b) c
        = ((drain s.smith.suite consumer count r c).1,
            (drain s.smith.suite consumer count r c).2.1.allowing b,
            (drain s.smith.suite consumer count r c).2.2)) ∨
    (MeetsTrailing (requestsOfDrain s.smith.suite consumer r c) s w ∧
      ∃ n r₁ r₂ c', drain s.smith.suite consumer count (r.allowing true) c = (.ok n, r₁, c') ∧
        drain s.smith.suite consumer count (r.allowing false) c
          = (.error (.integrity .trailing), r₂, c')) := by
  generalize hS : s.smith.suite = S
  -- on the calls of the drain, each of which reads a whole entry
  fun_induction requestsOfDrain S consumer r c generalizing s count with
  | case1 r c ih =>
    subst hS
    by_cases hends : ∃ after, r.MeetsEnd s.smith.suite after ∧ after ≠ []
    · obtain ⟨after, hmeets, hne⟩ := hends
      have hlenient := drain_meetsEnd consumer c count hmeets hsteady true
      have hstrict := drain_meetsEnd consumer c count hmeets hsteady false
      rw [if_pos (.inl rfl)] at hlenient
      rw [if_neg (by simp [hne])] at hstrict
      exact .inr ⟨meetsTrailing_cons_iff.mpr (.inl ⟨rfl, after, ⟨fmk, r, h, hmeets⟩, hne⟩),
        count, _, _, c, hlenient, hstrict⟩
    · have hfirst : ¬ (Request.nextFile = .nextFile ∧ ∃ after, s.MeetsEnd after ∧ after ≠ []) := by
        rintro ⟨-, after, ⟨key, r', hstage, hmeets⟩, hne⟩
        rw [h] at hstage
        cases hstage
        exact hends ⟨after, hmeets, hne⟩
      have hsame : ∀ b, (r.allowing b).next s.smith.suite
          = ((r.next s.smith.suite).1, (r.next s.smith.suite).2.allowing b) := fun b =>
        Reader.next_allowing b hsteady fun after hmeets =>
          Classical.not_not.mp fun hne => hends ⟨after, hmeets, hne⟩
      have hsteady₁ := Reader.steady_next s.smith.suite hsteady
      rw [meetsTrailing_cons_iff, or_iff_right hfirst]
      split
      · rename_i e r₁ hnext
        refine .inl ⟨not_meetsTrailing_nil, fun b => ?_⟩
        rw [drain_error count (by rw [hsame, hnext]), drain_error count hnext]
      · rename_i r₁ hnext
        refine .inl ⟨not_meetsTrailing_nil, fun b => ?_⟩
        rw [drain_none count (by rw [hsame, hnext]), drain_none count hnext]
      · rename_i info r₁ hnext
        rw [hnext] at hsteady₁
        have hsame₁ : ∀ b, (r.allowing b).next s.smith.suite = (.ok (some info), r₁.allowing b) :=
          fun b => by rw [hsame, hnext]
        have hannounced : Request.nextFile.next s w = ({ s with stage := .decrypting fmk r₁ }, w) :=
          Request.next_nextFile h hnext
        rw [hannounced]
        split
        · rename_i e c₁ hopen
          refine .inl ⟨not_meetsTrailing_nil, fun b => ?_⟩
          rw [drain_unopened count (hsame₁ b) hopen, drain_unopened count hnext hopen]
        · rename_i sink₀ c₁ hopen
          rw [meetsTrailing_cons_of_ne (by simp)]
          dsimp only
          split
          · rename_i e r₂ sink hread
            refine .inl ⟨not_meetsTrailing_nil, fun b => ?_⟩
            have hread' := Reader.readInto_allowing s.smith.suite b r₁ sink₀
            rw [hread] at hread'
            rw [drain_abort count (hsame₁ b) hopen hread', drain_abort count hnext hopen hread]
          · rename_i size r₂ sink hread
            have hread' : ∀ b, (r₁.allowing b).readInto s.smith.suite sink₀
                = (.ok size, r₂.allowing b, sink) := fun b => by rw [Reader.readInto_allowing, hread]
            have hsteady₂ := Reader.steady_readInto s.smith.suite sink₀ hsteady₁
            rw [hread] at hsteady₂
            rw [Request.next_readContent (s := { s with stage := .decrypting fmk r₁ }) rfl hread]
            dsimp only
            rcases hclose : consumer.closeEntry info sink c₁ with ⟨e | u, c₂⟩
            · refine .inl ⟨not_meetsTrailing_nil, fun b => ?_⟩
              rw [drain_some count (hsame₁ b) hopen, hread', drain_some count hnext hopen, hread]
              simp only [hclose]
            · have hrest : ∀ b, drain s.smith.suite consumer count (r.allowing b) c
                  = drain s.smith.suite consumer (count + 1) (r₂.allowing b) c₂ := fun b =>
                drain_entry count (hsame₁ b) hopen (hread' b) hclose
              have hrest' := drain_entry count hnext hopen hread hclose
              rw [hrest']
              simp only [hrest]
              exact ih info r₁ hnext sink₀ size r₂ sink hread c₂ (count + 1)
                (s := { s with stage := .decrypting fmk r₂ }) rfl hsteady₂ rfl

/-- **To decrypt everything comes to the same in both modes,** unless bytes
follow the last frame; then the consumer is given the same, and the strict
mode fails. -/
theorem decryptAll_inMode (fmk : Fmk) (consumer : Consumer γ) (c : γ) (w : World σ)
    (h : s.stage.Steady) :
    (¬ MeetsTrailing (requestsOfAll fmk consumer s c) s w ∧
      ∀ lenient, (s.inMode lenient).decryptAll fmk consumer c
        = ((s.decryptAll fmk consumer c).1, (s.decryptAll fmk consumer c).2.1.inMode lenient,
            (s.decryptAll fmk consumer c).2.2)) ∨
    (MeetsTrailing (requestsOfAll fmk consumer s c) s w ∧
      ∃ n s₁ s₂ c', (s.inMode true).decryptAll fmk consumer c = (.ok n, s₁, c') ∧
        (s.inMode false).decryptAll fmk consumer c
          = (.error (.integrity .trailing), s₂, c')) := by
  have hsteady := h.next (.begin fmk) w
  rw [requestsOfAll, meetsTrailing_cons_of_ne (by simp)]
  rw [Request.next] at hsteady ⊢
  rcases hbegin : s.begin fmk with ⟨e | u, s'⟩
  · refine .inl ⟨not_meetsTrailing_nil, fun lenient => ?_⟩
    rw [decryptAll, begin_inMode, decryptAll, hbegin]
  · rw [hbegin] at hsteady
    obtain ⟨source, -, -, hs'⟩ := begin_ok hbegin
    obtain ⟨r, hreader⟩ : ∃ r, s'.stage = .decrypting fmk r := ⟨_, by rw [hs']⟩
    have hbegun : ∀ lenient, (s.inMode lenient).begin fmk = (.ok (), s'.inMode lenient) := fun _ => by
      rw [begin_inMode, hbegin]
    have hmode : ∀ lenient, (s'.inMode lenient).stage = .decrypting fmk (r.allowing lenient) :=
      fun lenient => by rw [inMode, hreader]; rfl
    have hsource : r.source.Steady := by
      have hsteady : s'.stage.Steady := hsteady
      rw [hreader] at hsteady
      exact hsteady
    dsimp only
    rw [hreader]
    dsimp only
    -- to finish reads nothing
    rw [meetsTrailing_append_iff, or_iff_left
      (fun hfinish => not_meetsTrailing_nil ((meetsTrailing_cons_of_ne (by simp)).mp hfinish))]
    obtain ⟨hnever, hsame⟩ | ⟨hmeets, n, r₁, r₂, c', hlenient, hstrict⟩ :=
      drain_allowing (w := w) consumer c 0 hreader hsource
    · refine .inl ⟨hnever, fun lenient => ?_⟩
      rw [decryptAll_eq hbegin hreader rfl, decryptAll_eq (hbegun lenient) (hmode lenient)
        (hsame lenient)]
      rfl
    · exact .inr ⟨hmeets, n, _, _, c', decryptAll_eq (hbegun true) (hmode true) hlenient,
        decryptAll_eq (hbegun false) (hmode false) hstrict⟩

/-- **An act leads both modes to the same,** unless it reads a last frame
that bytes follow. -/
theorem Act.inMode (lenient : Bool) (act : Act) (w : World σ) (h : s.stage.Steady)
    (hnot : ¬ MeetsTrailing (act.requests s) s w) :
    act.next (s.inMode lenient) w = ((act.next s w).1.inMode lenient, (act.next s w).2) := by
  cases act with
  | single request => exact played_inMode lenient [request] w h hnot
  | everything fmk consumer c =>
    obtain ⟨-, hsame⟩ | ⟨hmeets, -⟩ := decryptAll_inMode fmk consumer c w h
    · rw [Act.next, hsame lenient]
      rfl
    · exact absurd hmeets hnot

/-- **Acts that do not meet such bytes go alike in both modes.** -/
theorem acted_inMode (lenient : Bool) (acts : List Act) (w : World σ) (h : s.stage.Steady)
    (hnot : ¬ MeetsTrailing (spelled acts s w) s w) :
    acted acts (s.inMode lenient) w = ((acted acts s w).1.inMode lenient, (acted acts s w).2) := by
  induction acts generalizing s w with
  | nil => rfl
  | cons act acts ih =>
    rw [spelled, meetsTrailing_append_iff, act.played_requests, not_or] at hnot
    obtain ⟨hnow, hlater⟩ := hnot
    have hfirst : acted (act :: acts) (s.inMode lenient) w
        = acted acts ((act.next s w).1.inMode lenient) (act.next s w).2 := by
      rw [acted, List.foldl_cons, act.inMode lenient w h hnow]
      rfl
    have hsteady : (act.next s w).1.stage.Steady := by
      rw [← act.played_requests]
      exact steady_played _ h w
    rw [hfirst, ih _ hsteady hlater]
    rfl

end Opening

/-- **To ignore data errors is a conservative extension.** Of any source
none of whose reads fails:

* a head is read strictly just if it is read leniently with no entry left
  out, and then the two heads are the same;
* a head that is read leniently lists the locks among the entries that it
  stores, in their order and each under the place of its entry, and counts
  the places at fault; if there are any, to read it strictly fails with the
  first of them;
* two sessions that began with the two modes, and are told the same, stand
  beside each other and answer alike as long as no last frame was read that
  bytes follow. At a last frame the lenient one answers that there is no
  next entry; the strict one does so if nothing follows, and otherwise fails
  for the integrity of the container. -/
theorem lenient_extends_strict {σ : Type} (smith : Locksmith σ) {source : Source}
    (hsteady : source.Steady) :
    (∀ header rest, ParsedHeader.read false source = (.ok header, rest) ↔
      ParsedHeader.read true source = (.ok header, rest) ∧ header.skipped = 0) ∧
    (∀ header rest, ParsedHeader.read true source = (.ok header, rest) →
      source.contents = header.preamble ++ header.json ++ header.mac ++ rest.contents ∧
      ∃ entries, ParsedHeader.stored? header.json
          = some (Suite.name, header.payloadNonce, entries) ∧
        header.locks = Table.locksOf entries ∧
        (∀ i, header.lock? i = Table.lockAt? entries i) ∧
        header.skipped = Table.faultsOf entries ∧
        (header.skipped ≠ 0 → ∃ i f, Table.FirstFaulty entries i f ∧
          ParsedHeader.read false source = (.error (.parse f), rest))) ∧
    ∀ strict lenient : Opening σ, Opening.create smith false source = .ok strict →
      Opening.create smith true source = .ok lenient →
      ∀ (acts : List Opening.Act) (world : World σ),
        ¬ Opening.MeetsTrailing (Opening.spelled acts strict world) strict world →
        ∃ s w, Opening.acted acts strict world = (s, w) ∧
          Opening.acted acts lenient world = (s.inMode true, w) ∧ s.inMode false = s ∧
          (s.inMode true).locks = s.locks ∧
          (∀ certificate, (s.inMode true).lockForCertificate? certificate
            = s.lockForCertificate? certificate) ∧
          (s.inMode true).isFullyDecrypted = s.isFullyDecrypted ∧
          (∀ request : Opening.Request, ¬ Opening.MeetsTrailing [request] s w →
            request.answer (s.inMode true) w = request.answer s w) ∧
          (∀ after, s.MeetsEnd after → (s.inMode true).nextFile.1 = .ok none ∧
            s.nextFile.1 = if after = [] then .ok none else .error (.integrity .trailing)) ∧
          ∀ (γ : Type) (fmk : Fmk) (consumer : Consumer γ) (c : γ),
            (¬ Opening.MeetsTrailing (Opening.requestsOfAll fmk consumer s c) s w ∧
              (s.inMode true).decryptAll fmk consumer c
                = ((s.decryptAll fmk consumer c).1,
                    (s.decryptAll fmk consumer c).2.1.inMode true,
                    (s.decryptAll fmk consumer c).2.2)) ∨
            (Opening.MeetsTrailing (Opening.requestsOfAll fmk consumer s c) s w ∧
              ∃ n s₁ s₂ c', (s.inMode true).decryptAll fmk consumer c = (.ok n, s₁, c') ∧
                s.decryptAll fmk consumer c = (.error (.integrity .trailing), s₂, c')) := by
  refine ⟨fun header rest => ParsedHeader.read_false_iff,
    fun header rest hread => ⟨(ParsedHeader.read_ok hread).1, ?_⟩, ?_⟩
  · obtain ⟨entries, hstored, hlocks, hskipped, -, -⟩ := ParsedHeader.read_lists hread
    refine ⟨entries, hstored, hlocks, ParsedHeader.lock?_eq hlocks, hskipped, fun hne => ?_⟩
    obtain ⟨hnone, -⟩ | ⟨-, hfirst⟩ := ParsedHeader.read_false_cases hread hstored
    · exact absurd hnone hne
    · exact hfirst
  · intro strict lenient hstrict hlenient acts world hnever
    -- the two sessions begin beside each other, and they stay so
    obtain ⟨hbeside, hitself, hsteady₀⟩ := Opening.create_beside hsteady hstrict hlenient
    have hacted := Opening.acted_inMode true acts world hsteady₀ hnever
    have hacted' := Opening.acted_inMode false acts world hsteady₀ hnever
    have hsteady₁ : (Opening.acted acts strict world).1.stage.Steady := by
      rw [← Opening.played_spelled]
      exact Opening.steady_played _ hsteady₀ world
    rcases hs : Opening.acted acts strict world with ⟨s, w⟩
    rw [hs] at hacted hacted' hsteady₁
    rw [hitself, hs] at hacted'
    have hstays : s.inMode false = s := (Prod.mk.inj hacted').1.symm
    refine ⟨s, w, rfl, by rw [hbeside]; exact hacted, hstays, rfl, fun certificate => rfl, ?_,
      fun request hnot => ?_, fun after hmeets => ?_, fun γ fmk consumer c => ?_⟩
    · obtain ⟨smith', header', mode', stage'⟩ := s
      cases stage' <;> rfl
    · refine (request.inMode true w hsteady₁ fun hrequest after hmeets => ?_).1
      exact Classical.not_not.mp fun hne =>
        hnot (Opening.meetsTrailing_cons_iff.mpr (.inl ⟨hrequest, after, hmeets, hne⟩))
    · refine ⟨by rw [hmeets.nextFile_fst hsteady₁, if_pos (.inl rfl)], ?_⟩
      have hanswer := hmeets.nextFile_fst hsteady₁ false
      rw [hstays] at hanswer
      simpa using hanswer
    · obtain ⟨hnot, hall⟩ | ⟨hmeets, n, s₁, s₂, c', hall, hfails⟩ :=
        Opening.decryptAll_inMode fmk consumer c w hsteady₁
      · exact .inl ⟨hnot, hall true⟩
      · rw [hstays] at hfails
        exact .inr ⟨hmeets, n, s₁, s₂, c', hall, hfails⟩

/-- A container without entries that one byte follows: both modes take its
head and its key, and at its last frame, after which the byte is left, they
part. -/
theorem followedByByte_lenient_extends_strict :
    ∃ (run : SealedRun Unit) (strict lenient s : Opening Unit) (w : World Unit),
      run.entries = [] ∧ (Source.ofBytes (run.container ++ [0])).Steady ∧
      Opening.create (.plain [1]) false (.ofBytes (run.container ++ [0])) = .ok strict ∧
      Opening.create (.plain [1]) true (.ofBytes (run.container ++ [0])) = .ok lenient ∧
      Opening.acted [.single (.begin run.fmk)] strict ⟨.splitMix 2, ()⟩ = (s, w) ∧
      Opening.acted [.single (.begin run.fmk)] lenient ⟨.splitMix 2, ()⟩ = (s.inMode true, w) ∧
      s.MeetsEnd [0] ∧ (s.inMode true).nextFile.1 = .ok none ∧
      s.nextFile.1 = .error (.integrity .trailing) := by
  obtain ⟨run, asked, hsmith, hentries, -⟩ := SealedRun.exists_of_entries (Locksmith.plain [1])
    Suite.plain_fitsFrames.tag
    (Locksmith.plain_keyAtHand [1] _ (List.mem_singleton_self _))
    (fun _ he => absurd he List.not_mem_nil) (fun _ he => absurd he List.not_mem_nil)
    (by simp) (by decide) ⟨.splitMix 1, ()⟩
  have hsuite : run.suite = .plain := congrArg Locksmith.suite hsmith
  obtain ⟨-, -, hcontainer, -⟩ := run.container_eq
  have hframes : run.frames = [.finish] := by
    rw [SealedRun.frames, hentries]
    rfl
  have hcontents : (Source.ofBytes (run.container ++ [0])).contents
      = run.draft.header.sealed run.suite containerVersion run.flags run.fmk
        ++ (run.channel.store run.suite 0 .finish ++ [0]) := by
    rw [Source.contents_ofBytes, hcontainer, hframes]
    simp
  have hsteady := Source.steady_ofBytes (run.container ++ [0])
  have hplain : (Locksmith.plain [1]).suite = run.suite := hsuite.symm
  obtain ⟨strict, rest, hstrict, -, hfaces, hsteady', hrest⟩ :=
    SealedRun.create_of_head false hplain hsteady hcontents
  obtain ⟨lenient, -, hlenient, -⟩ := SealedRun.create_of_head true hplain hsteady hcontents
  have hbegin := hfaces.begin_eq
  obtain ⟨s, hs⟩ : ∃ s, s = { strict with
    stage := .decrypting run.fmk (.create rest run.channel false) } := ⟨_, rfl⟩
  rw [← hs] at hbegin
  have hmeets : s.MeetsEnd [0] := by
    obtain ⟨rest', hread, -, hlast⟩ := Payload.Reader.readFrame_store
      (hsuite ▸ Suite.plain_opensSealed) (hsuite ▸ Suite.plain_inflatesDeflated)
      (hsuite ▸ Suite.plain_fitsFrames) (r := .create rest run.channel false) hsteady' hrest
    have hsmith' : s.smith.suite = run.suite := by
      rw [hs]
      exact hfaces.suite
    exact ⟨run.fmk, .create rest run.channel false, by rw [hs], rfl, trivial, _,
      by rw [hsmith']; exact hread, hlast⟩
  have hacted : Opening.acted [.single (.begin run.fmk)] strict ⟨.splitMix 2, ()⟩
      = (s, ⟨.splitMix 2, ()⟩) := by
    show (Opening.Request.begin run.fmk).next strict ⟨.splitMix 2, ()⟩ = _
    rw [Opening.Request.next, hbegin]
  have hnever : ¬ Opening.MeetsTrailing (Opening.spelled [.single (.begin run.fmk)] strict
      ⟨.splitMix 2, ()⟩) strict ⟨.splitMix 2, ()⟩ := fun hmeets =>
    Opening.not_meetsTrailing_nil ((Opening.meetsTrailing_cons_of_ne (by simp)).mp hmeets)
  obtain ⟨s', w', hacted', hbeside, -, -, -, -, -, hlast, -⟩ :=
    (lenient_extends_strict (.plain [1]) hsteady).2.2 strict lenient hstrict hlenient
      [.single (.begin run.fmk)] ⟨.splitMix 2, ()⟩ hnever
  rw [hacted] at hacted'
  obtain ⟨rfl, rfl⟩ := Prod.mk.inj hacted'
  obtain ⟨hnone, hfails⟩ := hlast [0] hmeets
  exact ⟨run, strict, lenient, s, _, hentries, hsteady, hstrict, hlenient, hacted, hbeside, hmeets,
    hnone, hfails⟩

end Lockbox
