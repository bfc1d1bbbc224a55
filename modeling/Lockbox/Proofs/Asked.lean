import Lockbox.Wrapping
/-!
# Lockbox — what was asked outside

Whoever makes or opens a lock asks others: for a secret, for certificates,
for a capsule. Providers that note each question with its answer
(`Providers.noting`) give the same answers as those they note for, so an
operation does with them what it does without, and tells besides what was
asked (`Noted`). `Locksmith.asked` is what the making of one lock asked,
and `Locksmith.consulted` what the opening of one did. Nobody is said to
have answered what they did not, and nobody was asked for the secret of
another lock (`answered_asked`, `answered_consulted`).
-/

namespace Lockbox

/-- A question to someone outside, with its answer. -/
inductive Exchange where
  | secret (info : LockInfo) (answer : Except LockError Bytes)
  | certificates (answer : Except NetworkFault (List Bytes))
  | release (index : Nat) (request : Bytes) (answer : Except NetworkFault Bytes)
  | deposit (server : String) (request : Bytes) (answer : Except NetworkFault String)

/-- The providers give this answer to the question in some state, and if
it is for a secret, it is for the secret of this lock. -/
def Providers.Answered {σ : Type} (p : Providers σ) (info : LockInfo) : Exchange → Prop
  | .secret info' answer => info' = info ∧ ∃ o, (p.secret info o).1 = answer
  | .certificates answer => ∃ remote, p.remote = some remote ∧ ∃ o,
      (remote.certificates o).1 = answer
  | .release index request answer => ∃ remote, p.remote = some remote ∧ ∃ o,
      (remote.release index request o).1 = answer
  | .deposit server request answer => ∃ remote, p.remote = some remote ∧ ∃ o,
      (remote.deposit server request o).1 = answer

section Noting

variable {σ ε α β : Type}

/-- The same step, noted. -/
def Step.noting (note : Except ε α → Exchange) (x : Step ε σ α) :
    Step ε (List Exchange × σ) α := fun (log, o) =>
  ((x o).1, log ++ [note (x o).1], (x o).2)

/-- The same remote, all questions to it noted. -/
def Remote.noting (r : Remote σ) : Remote (List Exchange × σ) where
  certificates := r.certificates.noting .certificates
  release index request := (r.release index request).noting (.release index request)
  deposit server request := (r.deposit server request).noting (.deposit server request)

/-- The same providers, all questions to them noted. -/
def Providers.noting (p : Providers σ) : Providers (List Exchange × σ) where
  secret info := (p.secret info).noting (.secret info)
  remote := p.remote.map Remote.noting

/-- The same locksmith with providers that note. -/
def Locksmith.noting (m : Locksmith σ) : Locksmith (List Exchange × σ) :=
  ⟨m.suite, m.config, m.providers.noting⟩

/-- The world of a noting locksmith who has noted `log` so far. -/
def World.noting (log : List Exchange) (w : World σ) : World (List Exchange × σ) :=
  ⟨w.entropy, log, w.outside⟩

/-- What the making of a lock asks. -/
def Locksmith.asked (m : Locksmith σ) (index : Nat) (r : Recipient) (fmk : Fmk) (w : World σ) :
    List Exchange :=
  (m.noting.wrap index r fmk (w.noting [])).2.outside.1

/-- What the opening of a lock asks. -/
def Locksmith.consulted (m : Locksmith σ) (lock : Lock) (w : World σ) : List Exchange :=
  (m.noting.unwrap lock (w.noting [])).2.outside.1

/-- The second operation is the first one, noted, and all that it notes
is of the kind `P`. -/
def Noted (P : Exchange → Prop) (x : Step ε (World σ) α)
    (y : Step ε (World (List Exchange × σ)) α) : Prop :=
  ∀ log w, ∃ new, (∀ e ∈ new, P e) ∧ y (w.noting log) = ((x w).1, (x w).2.noting (log ++ new))

variable {P : Exchange → Prop}

theorem noted_answer (r : Except ε α) :
    Noted P (σ := σ) (Step.answer r) (Step.answer r) :=
  fun log w => ⟨[], by simp [Step.answer]⟩

theorem noted_draw (n : Nat) : Noted P (ε := ε) (σ := σ) (World.draw n) (World.draw n) :=
  fun log w => ⟨[], by simp [World.draw, World.noting]⟩

/-- What two operations note one after the other is noted by both of them
together. If the first one fails, the second one notes nothing. -/
theorem Noted.bind {x : Step ε (World σ) α} {y : Step ε (World (List Exchange × σ)) α}
    {f : α → Step ε (World σ) β} {g : α → Step ε (World (List Exchange × σ)) β}
    (h : Noted P x y) (hf : ∀ a, Noted P (f a) (g a)) : Noted P (x >>= f) (y >>= g) := by
  intro log w
  obtain ⟨new, hall, hnew⟩ := h log w
  simp only [Step.bind_apply, hnew]
  cases hx : x w with
  | mk result w₁ =>
    cases result with
    | ok a =>
      obtain ⟨more, hall', hmore⟩ := hf a (log ++ new) w₁
      refine ⟨new ++ more, fun e he => ?_, by rw [← List.append_assoc]; exact hmore⟩
      exact (List.mem_append.mp he).elim (hall e) (hall' e)
    | error e => exact ⟨new, hall, rfl⟩

/-- A question is asked as it is, and noted with its answer. -/
theorem ask_noting {δ : Type} (f : δ → ε) (note : Except δ α → Exchange) (x : Step δ σ α)
    (log : List Exchange) (w : World σ) :
    World.ask (Step.blame f (x.noting note)) (w.noting log)
      = ((World.ask (Step.blame f x) w).1,
        (World.ask (Step.blame f x) w).2.noting (log ++ [note (x w.outside).1])) := by
  simp only [World.ask, Step.zoom, Step.blame, Step.noting, World.noting]
  rcases x w.outside with ⟨_ | _, _⟩ <;> rfl

/-- A question whose every answer is of the kind is noted as one of them. -/
theorem noted_ask {δ : Type} (f : δ → ε) {note : Except δ α → Exchange} {x : Step δ σ α}
    (h : ∀ o, P (note (x o).1)) :
    Noted P (World.ask (Step.blame f x)) (World.ask (Step.blame f (x.noting note))) :=
  fun log w =>
    ⟨[note (x w.outside).1], fun _ he => List.mem_singleton.mp he ▸ h _, ask_noting f note x log w⟩

end Noting

namespace Locksmith

variable {σ : Type} (m : Locksmith σ)

/-- Asking for the secret of a lock is a question to the provider of secrets.
-/
theorem noted_secretFor (info : LockInfo) :
    Noted (m.providers.Answered info) (m.secretFor info) (m.noting.secretFor info) :=
  noted_ask _ fun o => ⟨rfl, o, rfl⟩

/-- A secret that stands in the recipient is not asked for. -/
theorem noted_inlineOr (info : LockInfo) (given : Option Bytes) :
    Noted (m.providers.Answered info) (m.inlineOr info given) (m.noting.inlineOr info given) := by
  cases given with
  | some secret => exact noted_answer (.ok secret)
  | none => exact m.noted_secretFor info

/-- Making an agreement asks nobody: its ephemeral key is drawn. -/
theorem noted_agreeWith (info : LockInfo) (recipient : Octets 32) :
    Noted (m.providers.Answered info) (m.agreeWith recipient) (m.noting.agreeWith recipient) :=
  (noted_draw 32).bind fun _ => noted_answer _

/-- What is prepared for a lock, one kind after the other. Only the key server
is asked for more than a secret. -/
theorem noted_prepare (info : LockInfo) (r : Recipient) :
    Noted (m.providers.Answered info) (m.prepare info r) (m.noting.prepare info r) := by
  cases r with
  | password label password iterations =>
    -- the check of the number of rounds stands between the secret and the two salts
    exact (m.noted_inlineOr info password).bind fun _ => (noted_answer _).bind fun _ =>
      (noted_draw 32).bind fun _ => (noted_draw 32).bind fun _ => (noted_answer _).bind fun _ =>
        noted_answer (.ok _)
  | symmetricKey label key =>
    refine (m.noted_inlineOr info key).bind fun secret => ?_
    by_cases h : secret = []
    · simp only [h, if_true]
      exact noted_answer _
    · simp only [h, if_false]
      exact (noted_draw 32).bind fun _ => noted_answer (.ok _)
  | publicKey label recipient =>
    exact (m.noted_agreeWith info recipient).bind fun _ => noted_answer (.ok _)
  | certificate label certificate recipient =>
    exact (m.noted_agreeWith info recipient).bind fun _ => noted_answer (.ok _)
  | server label recipient serverId =>
    simp only [prepare, noting, Providers.noting]
    cases hremote : m.providers.remote with
    | none => exact noted_answer _
    | some remote =>
      simp only [Option.map_some]
      -- without the name of a server nothing is sent
      cases serverId <|> m.config.keyServer with
      | none => exact noted_answer _
      | some server =>
        exact (m.noted_agreeWith info recipient).bind fun _ =>
          (noted_ask Error.network fun o => ⟨remote, hremote, o, rfl⟩).bind fun _ =>
            noted_answer (.ok _)

/-- **A lock is made in the same way by a locksmith who notes.** -/
theorem noted_wrap (index : Nat) (r : Recipient) (fmk : Fmk) :
    Noted (m.providers.Answered ⟨index, r.type, r.label⟩) (m.wrap index r fmk)
      (m.noting.wrap index r fmk) :=
  (m.noted_prepare _ r).bind fun _ => (noted_draw 24).bind fun _ => noted_answer (.ok _)

/-- A locksmith who notes has noted what was asked. -/
theorem wrap_noting (index : Nat) (r : Recipient) (fmk : Fmk) (w : World σ) :
    m.noting.wrap index r fmk (w.noting [])
      = ((m.wrap index r fmk w).1,
          (m.wrap index r fmk w).2.noting (m.asked index r fmk w)) := by
  obtain ⟨new, -, hnew⟩ := m.noted_wrap index r fmk [] w
  rw [List.nil_append] at hnew
  rw [asked, hnew]
  rfl

/-- **What was asked to make a lock was answered so,** and was asked for
that lock. -/
theorem answered_asked {index : Nat} {r : Recipient} {fmk : Fmk} {w : World σ} {e : Exchange}
    (he : e ∈ m.asked index r fmk w) : m.providers.Answered ⟨index, r.type, r.label⟩ e := by
  obtain ⟨new, hall, hnew⟩ := m.noted_wrap index r fmk [] w
  rw [List.nil_append] at hnew
  rw [asked, hnew] at he
  exact hall e he

/-- The key of an agreement is found with the private key, which is the secret
of the lock. -/
theorem noted_agreedKey (lock : Lock) (recipient sender : Octets 32) :
    Noted (m.providers.Answered lock.info)
      (m.secretFor lock.info >>= fun secret => m.agreedKey lock.index secret recipient sender)
      (m.noting.secretFor lock.info >>= fun secret =>
        m.noting.agreedKey lock.index secret recipient sender) := by
  refine (m.noted_secretFor lock.info).bind fun secret => ?_
  simp only [agreedKey, noting]
  split
  · exact noted_answer (.ok _)
  · exact noted_answer _

/-- What is recovered of a lock, one kind after the other. A certificate lock
asks which certificates there are before it asks for a secret, and a server
lock asks the server first. -/
theorem noted_recover (lock : Lock) :
    Noted (m.providers.Answered lock.info) (m.recover lock) (m.noting.recover lock) := by
  cases hc : lock.capsule with
  | password salt pwSalt n =>
    simp only [recover, hc]
    exact (noted_answer _).bind fun _ => (m.noted_secretFor lock.info).bind fun _ => noted_answer _
  | symmetricKey salt =>
    simp only [recover, hc]
    exact (m.noted_secretFor lock.info).bind fun _ => noted_answer (.ok _)
  | publicKey recipient sender =>
    simp only [recover, hc]
    exact m.noted_agreedKey lock recipient sender
  | certificate fingerprint recipient sender =>
    simp only [recover, hc]
    cases hremote : m.providers.remote with
    | none =>
      simp only [noting, Providers.noting, hremote, Option.map_none]
      exact noted_answer _
    | some remote =>
      simp only [noting, Providers.noting, hremote, Option.map_some]
      refine (noted_ask Error.network fun o => ⟨remote, hremote, o, rfl⟩).bind
        fun certificates => ?_
      -- the secret is asked for only if one of them is the certificate of the lock
      by_cases h : certificates.any (fun c => m.suite.hash c = fingerprint) = true
      · simp only [h, if_true]
        exact m.noted_agreedKey lock recipient sender
      · simp only [h]
        exact noted_answer _
  | server recipient server transaction =>
    simp only [recover, hc]
    cases hremote : m.providers.remote with
    | none =>
      simp only [noting, Providers.noting, hremote, Option.map_none]
      exact noted_answer _
    | some remote =>
      simp only [noting, Providers.noting, hremote, Option.map_some]
      refine (noted_ask Error.network fun o => ⟨remote, hremote, o, rfl⟩).bind
        fun response => ?_
      cases Octets.ofBytes? 32 response with
      | none => exact noted_answer _
      | some sender => exact m.noted_agreedKey lock recipient sender

/-- And so is a lock opened. -/
theorem noted_unwrap (lock : Lock) :
    Noted (m.providers.Answered lock.info) (m.unwrap lock) (m.noting.unwrap lock) := by
  refine (m.noted_recover lock).bind fun key => ?_
  simp only [noting]
  split
  · exact noted_answer _
  · exact noted_answer _

/-- What was asked to open a lock was answered so, and was asked for that
lock. -/
theorem answered_consulted {lock : Lock} {w : World σ} {e : Exchange}
    (he : e ∈ m.consulted lock w) : m.providers.Answered lock.info e := by
  obtain ⟨new, hall, hnew⟩ := m.noted_unwrap lock [] w
  rw [List.nil_append] at hnew
  rw [consulted, hnew] at he
  exact hall e he

end Locksmith

end Lockbox
