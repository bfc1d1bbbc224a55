import Lockbox.Opening
import Mathlib.Logic.Relation
/-!
# Lockbox — the requests to a session that reads

What each request answers and what it leaves, told by the phase of the
session: out of turn it is refused and changes nothing, and otherwise it
makes one of the moves there are (`Request.Moves`), which lead one phase
further at most (`Phase.Leads`). To decrypt everything at once is to make
single requests, and which ones is computed here from what the payload
shows and from what the consumer takes; so what holds of all runs of
requests holds of all acts (`played_spelled`).
-/

namespace Lockbox

/-- The phases of a session that reads, each with those that may follow
it. -/
inductive Phase.Leads : Phase → Phase → Prop where
  | obtain : Leads .locksParsed .fmkObtained
  | begin : Leads .locksParsed .decrypting
  | beginObtained : Leads .fmkObtained .decrypting
  | finish : Leads .decrypting .finished

namespace Opening

variable {σ γ : Type}

/-! ## Requests -/

/-- What a session that reads is asked for, one thing at a time. -/
inductive Request where
  | getFmk (index : Nat)
  | begin (fmk : Fmk)
  | nextFile
  | readContent (sink : Sink)
  | finish

/-- What it answers. -/
inductive Reply where
  | key (result : Except Error Fmk)
  | done (result : Except Error Unit)
  | entry (result : Except Error (Option FileInfo))
  | content (result : Except Error UInt64) (sink : Sink)

/-- The answer to a request. -/
def Request.answer : Request → Opening σ → World σ → Reply
  | .getFmk index, s, w => .key (s.getFmk index w).1
  | .begin fmk, s, _ => .done (s.begin fmk).1
  | .nextFile, s, _ => .entry s.nextFile.1
  | .readContent sink, s, _ => .content (s.readContent sink).1 (s.readContent sink).2.2
  | .finish, s, _ => .done s.finish.1

/-- The session and the world after a request. -/
def Request.next : Request → Opening σ → World σ → Opening σ × World σ
  | .getFmk index, s, w => (s.getFmk index w).2
  | .begin fmk, s, w => ((s.begin fmk).2, w)
  | .nextFile, s, w => (s.nextFile.2, w)
  | .readContent sink, s, w => ((s.readContent sink).2.1, w)
  | .finish, s, w => (s.finish.2, w)

/-- The phases in which a request is served. -/
def Request.Served : Request → Phase → Prop
  | .getFmk _, phase | .begin _, phase => phase = .locksParsed ∨ phase = .fmkObtained
  | .nextFile, phase | .readContent _, phase | .finish, phase => phase = .decrypting

/-- The answer to a request that is not served. -/
def Request.refusal : Request → Phase → Reply
  | .getFmk _, phase => .key (.error (.state .getFmk phase))
  | .begin _, phase => .done (.error (.state .beginDecryption phase))
  | .nextFile, phase => .entry (.error (.state .nextFile phase))
  | .readContent sink, phase => .content (.error (.state .readFile phase)) sink
  | .finish, phase => .done (.error (.state .finishDecryption phase))

/-- The session and the world after requests. -/
def played (requests : List Request) (s : Opening σ) (w : World σ) : Opening σ × World σ :=
  requests.foldl (fun p request => request.next p.1 p.2) (s, w)

theorem played_cons (request : Request) (requests : List Request) (s : Opening σ) (w : World σ) :
    played (request :: requests) s w
      = played requests (request.next s w).1 (request.next s w).2 := rfl

theorem played_append (before later : List Request) (s : Opening σ) (w : World σ) :
    played (before ++ later) s w = played later (played before s w).1 (played before s w).2 := by
  simp [played, List.foldl_append]

/-- What every request keeps, unless something is met, is kept until that is
met. -/
theorem kept_or_met {P : Opening σ → Prop} {M : Request → Opening σ → Prop}
    (hstep : ∀ (request : Request) (s : Opening σ) (w : World σ), P s →
      P (request.next s w).1 ∨ M request s)
    (requests : List Request) (s : Opening σ) (w : World σ) (h : P s) :
    P (played requests s w).1 ∨ ∃ before request later, requests = before ++ request :: later ∧
      P (played before s w).1 ∧ M request (played before s w).1 :=
  foldl_kept_or_met (fun p request => hstep request p.1 p.2) requests (s, w) h

/-! ## Phases

Whether a request is answered at all depends on the phase, and a refusal
changes nothing. -/

variable {s : Opening σ} {w : World σ}

/-- The payload is untouched until decryption begins. -/
theorem untouched?_eq_none_iff {stage : Stage} :
    stage.untouched? = none ↔ ¬ (stage.phase = .locksParsed ∨ stage.phase = .fmkObtained) := by
  cases stage <;> simp [Stage.untouched?, Stage.phase]

/-- In the two phases before, its source is the one that stands behind the
head. -/
theorem untouched?_eq_some_iff {stage : Stage} {source : Source} :
    stage.untouched? = some source ↔ stage = .locksParsed source ∨ stage = .fmkObtained source := by
  cases stage <;> simp [Stage.untouched?]

/-- A session that decrypts has a master key and a reader. -/
theorem exists_of_decrypting {stage : Stage} (h : stage.phase = .decrypting) :
    ∃ fmk r, stage = .decrypting fmk r := by
  cases stage with
  | decrypting fmk r => exact ⟨fmk, r, rfl⟩
  | _ => exact absurd h (by simp [Stage.phase])

/-- **A request out of turn is refused and changes nothing.** -/
theorem Request.refused {request : Request} (h : ¬ request.Served s.stage.phase) :
    request.answer s w = request.refusal s.stage.phase ∧ request.next s w = (s, w) := by
  cases request with
  | getFmk index =>
    have hnone := untouched?_eq_none_iff.mpr h
    simp only [answer, next, refusal, Opening.getFmk, hnone, refuse, and_self]
  | begin fmk =>
    have hnone := untouched?_eq_none_iff.mpr h
    simp only [answer, next, refusal, Opening.begin, hnone, refuse, and_self]
  | nextFile =>
    cases hstage : s.stage with
    | decrypting fmk r => exact absurd (congrArg Stage.phase hstage) h
    | _ => simp only [answer, next, refusal, Opening.nextFile, hstage, refuse, and_self]
  | readContent sink =>
    cases hstage : s.stage with
    | decrypting fmk r => exact absurd (congrArg Stage.phase hstage) h
    | _ => simp only [answer, next, refusal, Opening.readContent, hstage, refuse, and_self]
  | finish =>
    cases hstage : s.stage with
    | decrypting fmk r => exact absurd (congrArg Stage.phase hstage) h
    | _ => simp only [answer, next, refusal, Opening.finish, hstage, refuse, and_self]

/-- What a request can do to a session. -/
inductive Request.Moves (s : Opening σ) : Request → Opening σ → Prop where
  /-- It changes nothing. -/
  | stays {request : Request} : Moves s request s
  /-- A lock was opened, and the head confirms the key. -/
  | obtains {source : Source} {index : Nat} {fmk : Fmk} (hstage : s.stage.untouched? = some source)
      (hverify : s.header.verify s.smith.suite fmk = .ok ()) :
      Moves s (.getFmk index) { s with stage := .fmkObtained source }
  /-- The reading begins, with a key that the head confirms. -/
  | begins {source : Source} {fmk : Fmk} (hstage : s.stage.untouched? = some source)
      (hverify : s.header.verify s.smith.suite fmk = .ok ()) :
      Moves s (.begin fmk)
        { s with stage := .decrypting fmk (.create source (s.channel fmk) s.lenient) }
  /-- The reader is asked for the next entry. -/
  | advances {fmk : Fmk} {r : Payload.Reader} (hstage : s.stage = .decrypting fmk r)
      (hanswer : s.nextFile.1 = (r.next s.smith.suite).1) :
      Moves s .nextFile { s with stage := .decrypting fmk (r.next s.smith.suite).2 }
  /-- The reader passes data on. -/
  | pours {fmk : Fmk} {r : Payload.Reader} {sink : Sink} (hstage : s.stage = .decrypting fmk r) :
      Moves s (.readContent sink)
        { s with stage := .decrypting fmk (r.readInto s.smith.suite sink).2.1 }
  /-- The session ends. -/
  | ends {fmk : Fmk} {r : Payload.Reader} (hstage : s.stage = .decrypting fmk r)
      (hanswer : s.finish.1 = .ok ()) :
      Moves s .finish { s with stage := .finished r.isFinished }

/-- **These are all the moves there are.** -/
theorem Request.moves (request : Request) (s : Opening σ) (w : World σ) :
    request.Moves s (request.next s w).1 := by
  by_cases hturn : request.Served s.stage.phase
  case neg =>
    rw [(refused hturn).2]
    exact .stays
  cases request with
  | getFmk index =>
    rcases h : s.getFmk index w with ⟨e | fmk, s', w'⟩
    · obtain rfl := getFmk_error h
      rw [next, h]
      exact .stays
    · obtain ⟨source, hstage, hverify, rfl⟩ := getFmk_ok h
      rw [next, h]
      exact .obtains hstage hverify
  | begin fmk =>
    obtain ⟨source, hstage⟩ := Option.ne_none_iff_exists'.mp fun h => untouched?_eq_none_iff.mp h hturn
    rw [next, begin_eq hstage]
    cases hverify : s.header.verify s.smith.suite fmk with
    | error e => exact .stays
    | ok u => exact .begins hstage hverify
  | nextFile =>
    obtain ⟨fmk, r, hstage⟩ := exists_of_decrypting hturn
    have hmoved := Moves.advances hstage (by rw [Opening.nextFile, hstage])
    rw [next, Opening.nextFile, hstage]
    exact hmoved
  | readContent sink =>
    obtain ⟨fmk, r, hstage⟩ := exists_of_decrypting hturn
    have hmoved : (readContent sink).Moves s _ := .pours hstage
    rw [next, Opening.readContent, hstage]
    exact hmoved
  | finish =>
    obtain ⟨fmk, r, hstage⟩ := exists_of_decrypting hturn
    rw [next, finish_eq hstage]
    exact .ends hstage (by rw [finish_eq hstage])

/-- **A request leads one phase further at most.** -/
theorem Request.Moves.leads {request : Request} {s' : Opening σ} (h : request.Moves s s') :
    Relation.ReflGen Phase.Leads s.stage.phase s'.stage.phase := by
  cases h with
  | stays => exact .refl
  | obtains hstage =>
    obtain hs | hs := untouched?_eq_some_iff.mp hstage
    · rw [hs]
      exact .single .obtain
    · rw [hs]
  | begins hstage =>
    obtain hs | hs := untouched?_eq_some_iff.mp hstage
    · rw [hs]
      exact .single .begin
    · rw [hs]
      exact .single .beginObtained
  | advances hstage | pours hstage =>
    rw [hstage]
    exact .refl
  | ends hstage =>
    rw [hstage]
    exact .single .finish

/-! ## Everything at once

To decrypt everything is a run of single requests, so what holds of all runs
holds of it. -/

/-- The requests that pass on all entries that are left, up to where one of
them fails. -/
def requestsOfDrain (S : Suite) (consumer : Consumer γ) (r : Payload.Reader) (c : γ) :
    List Request :=
  .nextFile ::
    match hnext : r.next S with
    | (.error _, _) | (.ok none, _) => []
    | (.ok (some info), r₁) =>
      match consumer.openEntry info c with
      | (.error _, _) => []
      | (.ok sink₀, c) =>
        .readContent sink₀ ::
          match hread : r₁.readInto S sink₀ with
          | (.error _, _, _) => []
          | (.ok _, r₂, sink) =>
            have : r₂.source.weight < r.source.weight := by
              have hle := Payload.Reader.weight_readInto_le S r₁ sink₀
              rw [hread] at hle
              exact Nat.lt_of_le_of_lt hle (Payload.Reader.weight_next_lt hnext)
            match consumer.closeEntry info sink c with
            | (.error _, _) => []
            | (.ok (), c) => requestsOfDrain S consumer r₂ c
termination_by r.source.weight

/-- The requests that pass on all entries and end the session. -/
def requestsOfAll (fmk : Fmk) (consumer : Consumer γ) (s : Opening σ) (c : γ) : List Request :=
  .begin fmk ::
    match s.begin fmk with
    | (.error _, _) => []
    | (.ok (), s) =>
      match s.stage with
      | .decrypting _ payload => requestsOfDrain s.smith.suite consumer payload c ++ [.finish]
      | _ => []

section

variable {fmk : Fmk} {r r' : Payload.Reader}

/-- The reader goes on to the next entry, and nothing else of the session
changes. -/
theorem Request.next_nextFile {result : Except Error (Option FileInfo)}
    (h : s.stage = .decrypting fmk r) (hnext : r.next s.smith.suite = (result, r')) :
    nextFile.next s w = ({ s with stage := .decrypting fmk r' }, w) := by
  rw [next, Opening.nextFile, h]
  dsimp only
  rw [hnext]

/-- It reads the data of the entry, and nothing else of the session changes. -/
theorem Request.next_readContent {sink sink' : Sink} {result : Except Error UInt64}
    (h : s.stage = .decrypting fmk r)
    (hread : r.readInto s.smith.suite sink = (result, r', sink')) :
    (readContent sink).next s w = ({ s with stage := .decrypting fmk r' }, w) := by
  rw [next, Opening.readContent, h]
  dsimp only
  rw [hread]

/-- **To pass entries on is to make these requests.** -/
theorem played_requestsOfDrain (consumer : Consumer γ) (c : γ) (count : Nat)
    (h : s.stage = .decrypting fmk r) :
    played (requestsOfDrain s.smith.suite consumer r c) s w
      = ({ s with stage := .decrypting fmk (drain s.smith.suite consumer count r c).2.1 }, w) := by
  generalize hS : s.smith.suite = S
  -- on the calls of the drain, each of which reads a whole entry
  fun_induction requestsOfDrain S consumer r c generalizing s count with
  | case1 r c ih =>
    subst hS
    split
    · rename_i e r₁ hnext
      rw [played_cons, Request.next_nextFile h hnext, drain_error count hnext]
      rfl
    · rename_i r₁ hnext
      rw [played_cons, Request.next_nextFile h hnext, drain_none count hnext]
      rfl
    · rename_i info r₁ hnext
      have hannounced : Request.nextFile.next s w = (_, w) := Request.next_nextFile h hnext
      split
      · rename_i e c₁ hopen
        rw [played_cons, hannounced, drain_unopened count hnext hopen]
        rfl
      · rename_i sink₀ c₁ hopen
        rw [played_cons, hannounced, played_cons]
        dsimp only
        split
        · rename_i e r₂ sink hread
          rw [Request.next_readContent (s := { s with stage := .decrypting fmk r₁ }) rfl hread,
            drain_abort count hnext hopen hread]
          rfl
        · rename_i size r₂ sink hread
          rw [Request.next_readContent (s := { s with stage := .decrypting fmk r₁ }) rfl hread,
            drain_some count hnext hopen, hread]
          dsimp only
          rcases consumer.closeEntry info sink c₁ with ⟨e | u, c₂⟩
          · rfl
          · exact ih info r₁ hnext sink₀ size r₂ sink hread c₂ (count + 1) rfl rfl

end

/-- **To decrypt everything is to make these requests.** -/
theorem played_requestsOfAll (fmk : Fmk) (consumer : Consumer γ) (s : Opening σ) (c : γ)
    (w : World σ) :
    played (requestsOfAll fmk consumer s c) s w = ((s.decryptAll fmk consumer c).2.1, w) := by
  rw [requestsOfAll, played_cons, Request.next, decryptAll]
  rcases s.begin fmk with ⟨e | u, s'⟩
  · rfl
  · dsimp only
    cases hstage : s'.stage with
    | decrypting key payload =>
      dsimp only
      rw [played_append, played_requestsOfDrain consumer c 0 hstage]
      rfl
    | _ => rfl

/-- What a session can be told, a single request or everything at once. -/
inductive Act : Type 1 where
  | single (request : Request)
  | everything {γ : Type} (fmk : Fmk) (consumer : Consumer γ) (c : γ)

/-- The session and the world after an act. -/
def Act.next : Act → Opening σ → World σ → Opening σ × World σ
  | .single request, s, w => request.next s w
  | .everything fmk consumer c, s, w => ((s.decryptAll fmk consumer c).2.1, w)

/-- The requests of an act. -/
def Act.requests : Act → Opening σ → List Request
  | .single request, _ => [request]
  | .everything fmk consumer c, s => requestsOfAll fmk consumer s c

/-- The session and the world after acts. -/
def acted (acts : List Act) (s : Opening σ) (w : World σ) : Opening σ × World σ :=
  acts.foldl (fun p act => act.next p.1 p.2) (s, w)

/-- The requests of acts, one after the other. -/
def spelled : List Act → Opening σ → World σ → List Request
  | [], _, _ => []
  | act :: acts, s, w => act.requests s ++ spelled acts (act.next s w).1 (act.next s w).2

/-- **An act is the requests that it consists of.** -/
theorem Act.played_requests (act : Act) (s : Opening σ) (w : World σ) :
    played (act.requests s) s w = act.next s w := by
  cases act with
  | single request => rfl
  | everything fmk consumer c => exact played_requestsOfAll fmk consumer s c w

/-- **Acts lead to what their requests lead to.** -/
theorem played_spelled (acts : List Act) (s : Opening σ) (w : World σ) :
    played (spelled acts s w) s w = acted acts s w := by
  induction acts generalizing s w with
  | nil => rfl
  | cons act acts ih =>
    rw [spelled, played_append, act.played_requests, ih]
    rfl

/-- Everything at once is refused like the request to begin. -/
theorem decryptAll_refused (h : ¬ (s.stage.phase = .locksParsed ∨ s.stage.phase = .fmkObtained))
    (fmk : Fmk) (consumer : Consumer γ) (c : γ) :
    s.decryptAll fmk consumer c
      = (.error (.state .beginDecryption s.stage.phase), s, c) := by
  simp only [decryptAll, Opening.begin, untouched?_eq_none_iff.mpr h, refuse]

end Opening

end Lockbox
