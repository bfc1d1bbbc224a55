import Lockbox.Proofs.AllAtOnce
import Lockbox.Proofs.Onward
import Lockbox.Proofs.Opened
import Lockbox.Proofs.Requests
/-!
# Lockbox — sessions that read move forward

Whatever a session is asked and in whatever order, it goes through its
phases forward only. A master key that it gives out or reads with is
confirmed by the head, over exactly the bytes that were read. And it
counts as fully decrypted in one way only: the last frame was read, the
next entry was asked for and there was none, and then the session was
ended.

Nothing is assumed of the bytes of the container, of the source that
delivers them, or of what is outside.
-/

namespace Lockbox

namespace Opening

variable {σ γ : Type} {start s : Opening σ} {rest : Source} {fmk : Fmk} {w : World σ}

/-- The head confirms a master key: the code that is stored is the code of
the preamble and the header under the key. -/
def Confirms (s : Opening σ) (fmk : Fmk) : Prop :=
  (Header.mac s.smith.suite fmk s.header.preamble s.header.json).val = s.header.mac

/-- The check of a key comes out just if the head confirms it. -/
theorem verify_eq_ok_iff : s.header.verify s.smith.suite fmk = .ok () ↔ s.Confirms fmk := by
  unfold ParsedHeader.verify Confirms
  split <;> simp_all

/-! ## What stays sound -/

/-- What a stage holds if the payload behind the head was `rest`. -/
def Holds (start : Opening σ) (rest : Source) : Stage → Prop
  | .locksParsed source | .fmkObtained source => source = rest
  | .decrypting fmk r =>
    start.Confirms fmk ∧ r.channel = start.channel fmk ∧ r.source.contents <:+ rest.contents
  | .finished _ => True
  | .poisoned => False

/-- A session that began as `start`: locksmith and head are the same, and
the stage holds nothing else than it should. -/
structure Sound (start : Opening σ) (rest : Source) (s : Opening σ) : Prop where
  smith : s.smith = start.smith
  header : s.header = start.header
  stage : start.Holds rest s.stage

/-- A sound session confirms the keys that it confirmed when it began. -/
theorem Sound.confirms_iff (h : Sound start rest s) : s.Confirms fmk ↔ start.Confirms fmk := by
  rw [Confirms, Confirms, h.smith, h.header]

/-- And it opens frames as it would have then. -/
theorem Sound.channel_eq (h : Sound start rest s) (fmk : Fmk) :
    s.channel fmk = start.channel fmk := by
  rw [channel, channel, h.smith, h.header]

/-- A payload that was not begun is the one behind the head. -/
theorem Sound.untouched (h : Sound start rest s) {source : Source}
    (hstage : s.stage.untouched? = some source) : source = rest := by
  have hholds := h.stage
  obtain hs | hs := untouched?_eq_some_iff.mp hstage
  · rw [hs] at hholds
    exact hholds
  · rw [hs] at hholds
    exact hholds

/-- Another stage that holds what it should leaves a session sound. -/
theorem Sound.withStage (h : Sound start rest s) {stage : Stage} (hstage : start.Holds rest stage) :
    Sound start rest { s with stage } :=
  ⟨h.smith, h.header, hstage⟩

/-- A session is sound when it begins. -/
theorem sound_start (hstart : start.stage = .locksParsed rest) : Sound start rest start :=
  ⟨rfl, rfl, by rw [hstart]; exact rfl⟩

/-- **Every request keeps a session sound.** -/
theorem Sound.next (h : Sound start rest s) (request : Request) (w : World σ) :
    Sound start rest (request.next s w).1 := by
  have hmoves := request.moves s w
  generalize (request.next s w).1 = s' at hmoves
  cases hmoves with
  | stays => exact h
  | obtains hstage => exact h.withStage (h.untouched hstage)
  -- the reader starts with the whole payload, under a key that was just confirmed
  | begins hstage hverify =>
    refine h.withStage ⟨h.confirms_iff.mp (verify_eq_ok_iff.mp hverify), h.channel_eq _, ?_⟩
    rw [h.untouched hstage]
    exact List.suffix_refl _
  | @advances fmk r hstage =>
    obtain ⟨hconfirms, hchannel, hcontents⟩ := hstage ▸ h.stage
    have honward := r.onward_next s.smith.suite
    exact h.withStage ⟨hconfirms, honward.channel.trans hchannel, honward.contents.trans hcontents⟩
  | @pours fmk r sink hstage =>
    obtain ⟨hconfirms, hchannel, hcontents⟩ := hstage ▸ h.stage
    have honward := (r.onward_readInto s.smith.suite sink).1
    exact h.withStage ⟨hconfirms, honward.channel.trans hchannel, honward.contents.trans hcontents⟩
  | ends => exact h.withStage trivial

/-- **And so does a run of requests.** -/
theorem Sound.played (h : Sound start rest s) (requests : List Request) (w : World σ) :
    Sound start rest (played requests s w).1 := by
  induction requests generalizing s w with
  | nil => exact h
  | cons request requests ih => exact ih (h.next request w) (request.next s w).2

/-- A sound session has a stage. -/
theorem Sound.phase_ne (h : Sound start rest s) : s.stage.phase ≠ .poisoned := by
  have hholds := h.stage
  cases hs : s.stage with
  | poisoned =>
    rw [hs] at hholds
    exact hholds.elim
  | _ => simp [Stage.phase]

/-- A run of requests goes forward, phase by phase. -/
theorem leads_played (requests : List Request) (s : Opening σ) (w : World σ) :
    Relation.ReflTransGen Phase.Leads s.stage.phase (played requests s w).1.stage.phase := by
  induction requests generalizing s w with
  | nil => exact .refl
  | cons request requests ih =>
    exact (request.moves s w).leads.to_reflTransGen.trans (ih _ (request.next s w).2)

/-- So does an act, which is a run of requests. -/
theorem Act.leads (act : Act) (s : Opening σ) (w : World σ) :
    Relation.ReflTransGen Phase.Leads s.stage.phase (act.next s w).1.stage.phase := by
  rw [← act.played_requests]
  exact leads_played (act.requests s) s w

/-! ## How the end is reached -/

/-- The payload has been read to its end. -/
def Stage.AtEnd : Stage → Prop
  | .decrypting _ r => r.cursor = .ended
  | .finished complete => complete = true
  | _ => False

/-- Fully decrypted is only who has read the payload to its end. -/
theorem atEnd_of_isFullyDecrypted (h : s.isFullyDecrypted = true) : s.stage.AtEnd := by
  unfold isFullyDecrypted at h
  split at h
  · rename_i hstage
    rw [hstage]
    exact h
  · exact absurd h (by simp)

/-- **Only the request for the next entry leads to the end,** and then the
last frame was what came next. -/
theorem Sound.next_atEnd (h : Sound start rest s) (hnot : ¬ s.stage.AtEnd) {request : Request}
    (hend : (request.next s w).1.stage.AtEnd) :
    request = .nextFile ∧ s.nextFile.1 = .ok none ∧
      ∃ fmk r, s.stage = .decrypting fmk r ∧ start.Confirms fmk ∧
        r.source.contents <:+ rest.contents ∧
        Payload.ShowsEnd start.smith.suite (start.channel fmk) r.counter r.source.contents := by
  have hmoves := request.moves s w
  generalize (request.next s w).1 = s' at hmoves hend
  cases hmoves with
  | stays => exact absurd hend hnot
  | obtains => exact hend.elim
  -- a reader that has just begun is not at the end
  | begins => exact absurd hend (by simp [Stage.AtEnd, Payload.Reader.create])
  | @advances fmk r hstage hanswer =>
    rw [hstage] at hnot
    obtain ⟨hconfirms, hchannel, hcontents⟩ := hstage ▸ h.stage
    obtain ⟨hnone, hshows⟩ := Payload.Reader.next_ended hend hnot
    rw [h.smith, hchannel] at hshows
    exact ⟨rfl, hanswer.trans hnone, fmk, r, hstage, hconfirms, hcontents, hshows⟩
  | @pours fmk r sink hstage =>
    rw [hstage] at hnot
    exact absurd ((r.onward_readInto s.smith.suite sink).2 hend) hnot
  | @ends fmk r hstage =>
    rw [hstage] at hnot
    have hcomplete : r.isFinished = true := hend
    unfold Payload.Reader.isFinished at hcomplete
    split at hcomplete
    · exact absurd ‹_› hnot
    · exact absurd hcomplete (by simp)

/-- **Only the request to finish makes a session fully decrypted.** -/
theorem next_isFullyDecrypted (hnot : s.isFullyDecrypted = false) {request : Request}
    (hfull : (request.next s w).1.isFullyDecrypted = true) :
    request = .finish ∧ s.finish.1 = .ok () := by
  have hmoves := request.moves s w
  generalize (request.next s w).1 = s' at hmoves hfull
  cases hmoves with
  | stays => exact absurd hfull (by simp [hnot])
  | ends _ hanswer => exact ⟨rfl, hanswer⟩
  | _ => exact absurd hfull (by simp [isFullyDecrypted])

/-- Among these requests to `start` one for the next entry was answered
that there is none: with a key that the head confirms the last frame was
read there, out of the payload `rest`. And a later one ended the session. -/
def ReachedEnd (start : Opening σ) (rest : Source) (requests : List Request) (w : World σ) :
    Prop :=
  ∃ before between later fmk r,
    requests = before ++ .nextFile :: (between ++ .finish :: later) ∧
    (played before start w).1.stage = .decrypting fmk r ∧ start.Confirms fmk ∧
    r.source.contents <:+ rest.contents ∧
    Payload.ShowsEnd start.smith.suite (start.channel fmk) r.counter r.source.contents ∧
    (played before start w).1.nextFile.1 = .ok none ∧
    (played (before ++ .nextFile :: between) start w).1.finish.1 = .ok ()

/-- **A session that is fully decrypted has reached the end on its way:** its
requests are those up to the end, those up to the one that ended it, and the
rest. -/
theorem reachedEnd_of_isFullyDecrypted (hstart : start.stage = .locksParsed rest)
    {requests : List Request} (w : World σ)
    (hfull : (played requests start w).1.isFullyDecrypted = true) :
    start.ReachedEnd rest requests w := by
  -- up to the request that came to the end
  obtain ⟨-, hnever⟩ | ⟨before, request, more, rfl, ⟨hsound', hnot⟩, w', hend⟩ :=
    kept_or_met (P := fun s => Sound start rest s ∧ ¬ s.stage.AtEnd)
      (M := fun request s => ∃ w, (request.next s w).1.stage.AtEnd)
      (fun request s w h => by
        by_cases hend : (request.next s w).1.stage.AtEnd
        · exact .inr ⟨w, hend⟩
        · exact .inl ⟨h.1.next request w, hend⟩)
      requests start w ⟨sound_start hstart, by rw [hstart]; exact id⟩
  · exact absurd (atEnd_of_isFullyDecrypted hfull) hnever
  · obtain ⟨rfl, hnone, fmk, r, hstage, hconfirms, hcontents, hshows⟩ :=
      hsound'.next_atEnd hnot hend
    rw [played_append, played_cons] at hfull
    have hopen : (Request.nextFile.next (played before start w).1
        (played before start w).2).1.isFullyDecrypted = false := by
      rw [Request.next_nextFile hstage rfl]
      rfl
    -- and from there up to the one that ended the session
    obtain hnever | ⟨between, request, later, rfl, -, rfl, hfinish⟩ :=
      kept_or_met (P := fun s => s.isFullyDecrypted = false)
        (M := fun request s => request = .finish ∧ s.finish.1 = .ok ())
        (fun request s w h => by
          cases hfull : (request.next s w).1.isFullyDecrypted with
          | false => exact .inl rfl
          | true => exact .inr (next_isFullyDecrypted h hfull))
        more _ (Request.nextFile.next _ (played before start w).2).2 hopen
    · exact absurd hfull (by rw [hnever]; simp)
    · refine ⟨before, between, later, fmk, r, rfl, hstage, hconfirms, hcontents, hshows, hnone, ?_⟩
      rw [played_append, played_cons]
      exact hfinish

/-- The acts that end a session. -/
inductive Act.Finishes : Act → Prop where
  | finish : Finishes (.single .finish)
  | everything {γ : Type} {fmk : Fmk} {consumer : Consumer γ} {c : γ} :
      Finishes (.everything fmk consumer c)

/-- Of the acts, only those that end a session make it fully decrypted. -/
theorem Act.finishes_of_isFullyDecrypted (hnot : s.isFullyDecrypted = false) {act : Act}
    (hfull : (act.next s w).1.isFullyDecrypted = true) : act.Finishes := by
  cases act with
  | single request =>
    obtain ⟨rfl, -⟩ := next_isFullyDecrypted hnot hfull
    exact .finish
  | everything => exact .everything

end Opening

/-- **A session that reads moves forward.** From any container whose head
could be parsed, and after any requests, single ones or everything at
once:

* the session is in a phase that leads on, one further at a time, and
  never is it found without a stage;
* every master key that it gives out, and the one that it reads with, is
  confirmed by the stored code over the preamble and the header as they
  were read from the source;
* what is out of turn is refused and changes nothing;
* only to finish, or to decrypt everything, makes it fully decrypted, and
  if it is, the end of the payload had been reached: a request for the next
  entry had been answered that there is none, and what came next in the
  source was the last frame, authentic under the key. -/
theorem opening_moves_forward {σ : Type} {smith : Locksmith σ} {lenient : Bool} {source : Source}
    {start : Opening σ} (hcreate : Opening.create smith lenient source = .ok start) :
    ∃ rest, start.stage = .locksParsed rest ∧ start.smith = smith ∧
      source.contents
        = start.header.preamble ++ start.header.json ++ start.header.mac ++ rest.contents ∧
      start.header.preamble.length = ParsedHeader.preambleLength ∧
      start.header.mac.length = 32 ∧
      ParsedHeader.readPreamble start.header.preamble
        = .ok (start.header.version, start.header.flags, start.header.json.length) ∧
      ∀ (acts : List Opening.Act) (world : World σ) (s : Opening σ) (w : World σ),
        Opening.acted acts start world = (s, w) →
        s.stage.phase ≠ .poisoned ∧
        (∀ request : Opening.Request,
          Relation.ReflGen Phase.Leads s.stage.phase (request.next s w).1.stage.phase) ∧
        (∀ act : Opening.Act,
          Relation.ReflTransGen Phase.Leads s.stage.phase (act.next s w).1.stage.phase) ∧
        (∀ index fmk s' w', s.getFmk index w = (.ok fmk, s', w') → start.Confirms fmk) ∧
        (∀ fmk r, s.stage = .decrypting fmk r → start.Confirms fmk) ∧
        (∀ request : Opening.Request, ¬ request.Served s.stage.phase →
          request.answer s w = request.refusal s.stage.phase ∧ request.next s w = (s, w)) ∧
        (∀ (γ : Type) (fmk : Fmk) (consumer : Consumer γ) (c : γ),
          ¬ (s.stage.phase = .locksParsed ∨ s.stage.phase = .fmkObtained) →
            s.decryptAll fmk consumer c
              = (.error (.state .beginDecryption s.stage.phase), s, c)) ∧
        (s.isFullyDecrypted = false → ∀ act : Opening.Act,
          (act.next s w).1.isFullyDecrypted = true → act.Finishes) ∧
        Opening.played (Opening.spelled acts start world) start world = (s, w) ∧
        (s.isFullyDecrypted = true →
          start.ReachedEnd rest (Opening.spelled acts start world) world) := by
  obtain ⟨rest, hread, hsmith, -, hstart⟩ := Opening.create_ok hcreate
  obtain ⟨hcontents, -, hpreamble, hmac, hfields, -⟩ := ParsedHeader.read_ok hread
  refine ⟨rest, hstart, hsmith, hcontents, hpreamble, hmac, hfields, fun acts world s w hacted => ?_⟩
  -- acts are requests, and requests keep the session sound
  have hplayed := (Opening.played_spelled acts start world).trans hacted
  have hsound := (Opening.sound_start hstart).played (Opening.spelled acts start world) world
  rw [hplayed] at hsound
  refine ⟨hsound.phase_ne, fun request => (request.moves s w).leads, fun act => act.leads s w,
    fun index fmk s' w' hget => ?_, fun fmk r hstage => ?_, fun request => Opening.Request.refused,
    fun γ fmk consumer c hturn => Opening.decryptAll_refused hturn fmk consumer c,
    fun hnot act => Opening.Act.finishes_of_isFullyDecrypted hnot, hplayed, fun hfull => ?_⟩
  · obtain ⟨-, -, hverify, -⟩ := Opening.getFmk_ok hget
    exact hsound.confirms_iff.mp (Opening.verify_eq_ok_iff.mp hverify)
  · exact (hstage ▸ hsound.stage).1
  · refine Opening.reachedEnd_of_isFullyDecrypted hstart world ?_
    rw [hplayed]
    exact hfull

/-- The key of the first lock of two sealed entries is confirmed by the
head, and with it everything is decrypted at once, after which nothing is
served any more. -/
theorem twoEntries_opening_moves_forward :
    ∃ (run : SealedRun Unit) (start s s' : Opening Unit) (w w' : World Unit),
      run.entries = twoEntries ∧
      Opening.create (.plain [1]) false (.ofBytes run.container) = .ok start ∧
      start.getFmk 0 ⟨.splitMix 2, ()⟩ = (.ok run.fmk, s, w) ∧ start.Confirms run.fmk ∧
      Opening.acted [.single (.getFmk 0), .everything run.fmk .memory []] start
        ⟨.splitMix 2, ()⟩ = (s', w') ∧
      s'.stage.phase = .finished ∧
      ∀ request : Opening.Request, request.next s' w' = (s', w') := by
  obtain ⟨run, asked, hsmith, hentries, hrecipients⟩ :=
    SealedRun.exists_twoEntries (show (some [1]).getD [1] = [1] from rfl)
  have hsuite : run.suite = .plain := congrArg Locksmith.suite hsmith
  obtain ⟨-, -, hcontainer, -⟩ := run.container_eq
  obtain ⟨start, payload, hcreate, hreader, hfaces, -⟩ :=
    SealedRun.create_of_head false (show (Locksmith.plain [1]).suite = run.suite from hsuite.symm)
      (Source.steady_ofBytes run.container) ((Source.contents_ofBytes _).trans hcontainer)
  have hserve : start.smith.providers.Serve run.suite ()
      ⟨0, .symmetricKey, "key"⟩ asked (.symmetricKey "key" (some [1])) := by
    rw [hreader]
    exact ⟨[1], rfl, .inl rfl⟩
  obtain ⟨s, w, hget, -, hfaces'⟩ := hfaces.getFmk_eq (hsuite ▸ Suite.plain_opensSealed)
    (hsuite ▸ Suite.plain_agreesBothWays) (i := 0) (by simp [hrecipients])
    (w := ⟨.splitMix 2, ()⟩) (by simp only [hrecipients]; exact hserve)
  have hall := hfaces'.decryptAll_eq (k := .memory) (c := []) rfl
  obtain ⟨rest, -, -, -, -, -, -, hforward⟩ := opening_moves_forward hcreate
  obtain ⟨-, -, -, hgiven, -⟩ := hforward [] ⟨.splitMix 2, ()⟩ start _ rfl
  have hacted : Opening.acted [.single (.getFmk 0), .everything run.fmk .memory []] start
      ⟨.splitMix 2, ()⟩ = ((s.decryptAll run.fmk .memory []).2.1, w) := by
    have hfirst : (Opening.Request.getFmk 0).next start ⟨.splitMix 2, ()⟩ = (s, w) := by
      rw [Opening.Request.next, hget]
    rw [Opening.acted, List.foldl_cons, Opening.Act.next, hfirst]
    rfl
  obtain ⟨-, -, -, -, -, hrefused, -⟩ := hforward _ _ _ _ hacted
  have hphase : (s.decryptAll run.fmk .memory []).2.1.stage.phase = .finished := by
    rw [hall]
    rfl
  refine ⟨run, start, s, _, w, w, hentries, hcreate, hget, hgiven _ _ _ _ hget, hacted, hphase,
    fun request => (hrefused request fun hserved => ?_).2⟩
  rw [hphase] at hserved
  cases request <;> simp [Opening.Request.Served] at hserved

end Lockbox
