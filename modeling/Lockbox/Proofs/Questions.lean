import Lockbox.Proofs.Course
import Lockbox.Proofs.JsonRecord
/-!
# Lockbox — the questions of one lock

What the opening of one lock asks, and what its making asks, is written
down here as a list that depends on the lock, the providers and their
state alone (`Locksmith.callsToOpen`, `Locksmith.callsToMake`): nothing is
asked twice, nothing is asked too early, and everything is asked for the
lock at hand. Whose answer an operation fails by is to be seen in its
failure (`Locksmith.Blames`).
-/

namespace Lockbox

/-- A question for a secret. -/
def Exchange.isSecret : Exchange → Bool
  | .secret .. => true
  | _ => false

/-- A question to keep a capsule. -/
def Exchange.isDeposit : Exchange → Bool
  | .deposit .. => true
  | _ => false

namespace Locksmith

variable {σ : Type} (m : Locksmith σ)

/-! ## Opening

The questions of an opening are those of its approach and then one for the
secret, if the approach came to its end. Each of the results below is read
off the courses that an opening can take. -/

/-- What the opening of a lock asks, one after the other, of providers in
this state. -/
def callsToOpen (lock : Lock) (o : σ) : List Exchange :=
  match lock.capsule, m.providers.remote with
  | .password _ _ n, _ =>
    if 1 ≤ n.toNat ∧ n.toNat ≤ maxIterations then [m.providers.secretCall lock.info o] else []
  | .symmetricKey _, _ | .publicKey .., _ => [m.providers.secretCall lock.info o]
  | .certificate .., none | .server .., none => []
  | .certificate fingerprint _ _, some remote =>
    .certificates (remote.certificates o).1 :: match remote.certificates o with
      | (.ok certificates, o') =>
        if ∃ c ∈ certificates, m.suite.hash c = fingerprint then
          [m.providers.secretCall lock.info o']
        else []
      | (.error _, _) => []
  | .server _ serverId transactionId, some remote =>
    let request := releaseRequest serverId transactionId
    .release lock.index request (remote.release lock.index request o).1 ::
      match remote.release lock.index request o with
      | (.ok response, o') =>
        if response.length = 32 then [m.providers.secretCall lock.info o'] else []
      | (.error _, _) => []

/-- What an opening comes to where one of its questions, or what stood in
the way of one, makes it fail. -/
structure Blames (lock : Lock) (calls : List Exchange) (result : Except Error Fmk) : Prop where
  iterations : ∀ salt pwSalt n, lock.capsule = .password salt pwSalt n →
    ¬ (1 ≤ n.toNat ∧ n.toNat ≤ maxIterations) → result = .error (.parse (.iterations ⟨n⟩))
  noRemote : ∀ fingerprint recipient sender,
    lock.capsule = .certificate fingerprint recipient sender → m.providers.remote = none →
    result = .error (.lock lock.index (.unsupported "certificate lock needs a remote provider"))
  noServer : ∀ recipient serverId transactionId,
    lock.capsule = .server recipient serverId transactionId → m.providers.remote = none →
    result = .error (.lock lock.index (.unsupported "server-assisted lock needs a remote provider"))
  certificates : ∀ f, .certificates (.error f) ∈ calls → result = .error (.network f)
  notFound : ∀ fingerprint recipient sender certificates,
    lock.capsule = .certificate fingerprint recipient sender →
    .certificates (.ok certificates) ∈ calls → (∀ c ∈ certificates, m.suite.hash c ≠ fingerprint) →
    result = .error (.lock lock.index .certificateNotFound)
  release : ∀ i request f, .release i request (.error f) ∈ calls → result = .error (.network f)
  keyLength : ∀ recipient serverId transactionId i request response,
    lock.capsule = .server recipient serverId transactionId →
    .release i request (.ok response) ∈ calls → response.length ≠ 32 →
    result = .error (.network (.keyLength serverId response.length))
  secret : ∀ info f, .secret info (.error f) ∈ calls → result = .error (.lock lock.index f)

theorem ask_ok {ε δ α : Type} {f : δ → ε} {x : Step δ σ α} {w : World σ} {a : α} {o : σ}
    (h : x w.outside = (.ok a, o)) :
    World.ask (Step.blame f x) w = (.ok a, { w with outside := o }) := by
  simp only [World.ask, Step.zoom, Step.blame, h]

theorem ask_error {ε δ α : Type} {f : δ → ε} {x : Step δ σ α} {w : World σ} {e : δ} {o : σ}
    (h : x w.outside = (.error e, o)) :
    World.ask (Step.blame f x) w = (.error (f e), { w with outside := o }) := by
  simp only [World.ask, Step.zoom, Step.blame, h]

/-- **An opening asks these questions**, in this order. -/
theorem consulted_eq_callsToOpen (lock : Lock) (w : World σ) :
    m.consulted lock w = m.callsToOpen lock w.outside := by
  rw [consulted_eq]
  cases hc : lock.capsule with
  | password salt pwSalt n =>
    simp only [callsBefore, callsToOpen, approach, hc, List.nil_append]
    by_cases hn : 1 ≤ n.toNat ∧ n.toNat ≤ maxIterations
    · rw [if_pos hn, checkIterations_eq_ok_iff.mpr hn]
      rfl
    · rw [if_neg hn, checkIterations_eq_error hn]
      rfl
  | symmetricKey salt =>
    simp only [callsBefore, callsToOpen, approach, hc, List.nil_append]
    rfl
  | publicKey recipient sender =>
    simp only [callsBefore, callsToOpen, approach, hc, List.nil_append]
    rfl
  | certificate fingerprint recipient sender =>
    cases hr : m.providers.remote with
    | none =>
      simp only [callsBefore, callsToOpen, approach, hc, hr, List.nil_append]
      rfl
    | some remote =>
      simp only [callsBefore, callsToOpen, approach, hc, hr, List.singleton_append, Step.bind_apply]
      rcases h : remote.certificates w.outside with ⟨f | certificates, o⟩
      · rw [ask_error h]
      · rw [ask_ok h]
        by_cases hany : ∃ c ∈ certificates, m.suite.hash c = fingerprint
        · simp only [List.any_eq_true, decide_eq_true_eq, hany, if_true]
          rfl
        · simp only [List.any_eq_true, decide_eq_true_eq, hany, if_false]
          rfl
  | server recipient serverId transactionId =>
    cases hr : m.providers.remote with
    | none =>
      simp only [callsBefore, callsToOpen, approach, hc, hr, List.nil_append]
      rfl
    | some remote =>
      simp only [callsBefore, callsToOpen, approach, hc, hr, List.singleton_append, Step.bind_apply]
      rcases h : remote.release lock.index (releaseRequest serverId transactionId) w.outside with
        ⟨f | response, o⟩
      · rw [ask_error h]
      · rw [ask_ok h]
        by_cases hlen : response.length = 32
        · simp only [Octets.ofBytes?, hlen, if_true, dif_pos]
          rfl
        · simp only [Octets.ofBytes?, hlen, if_false, dif_neg, not_false_eq_true]
          rfl

/-- An opening that is stopped early fails by what stopped it. -/
theorem unwrap_of_stopped {lock : Lock} {w : World σ} {e : Error}
    (h : (m.approach lock w).1 = .error e) : (m.unwrap lock w).1 = .error e := by
  obtain ⟨w₁, happroach⟩ : ∃ w₁, m.approach lock w = (.error e, w₁) := ⟨_, Prod.ext h rfl⟩
  rw [unwrap_eq, Step.bind_apply, happroach]

variable {m} {lock : Lock} {w : World σ}

/-- All that is asked besides is the secret. -/
theorem mem_callsBefore_of_mem {e : Exchange} (he : e ∈ m.consulted lock w)
    (hsecret : e.isSecret = false) : e ∈ m.callsBefore lock w.outside := by
  rw [consulted_eq] at he
  refine (List.mem_append.mp he).resolve_right fun hmem => ?_
  split at hmem
  · rw [List.mem_singleton.mp hmem] at hsecret
    exact absurd hsecret (by simp [Providers.secretCall, Exchange.isSecret])
  · exact absurd hmem (by simp)

/-- **Certificates are asked for only by a certificate lock,** of the store
that is there. -/
theorem certificates_of_mem {answer : Except NetworkFault (List Bytes)}
    (h : .certificates answer ∈ m.consulted lock w) :
    ∃ fingerprint recipient sender remote,
      lock.capsule = .certificate fingerprint recipient sender ∧
      m.providers.remote = some remote ∧ (remote.certificates w.outside).1 = answer := by
  obtain ⟨fingerprint, recipient, sender, remote, hc, hr, he⟩ | ⟨_, _, _, _, _, _, he⟩ :=
    m.mem_callsBefore (mem_callsBefore_of_mem h rfl)
  · cases he
    exact ⟨fingerprint, recipient, sender, remote, hc, hr, rfl⟩
  · cases he

/-- **A key server is asked only for a server lock,** with the request that
names the server and its transaction. -/
theorem release_of_mem {i : Nat} {request : Bytes} {answer : Except NetworkFault Bytes}
    (h : .release i request answer ∈ m.consulted lock w) :
    ∃ recipient serverId transactionId remote,
      lock.capsule = .server recipient serverId transactionId ∧
      m.providers.remote = some remote ∧
      (remote.release lock.index (releaseRequest serverId transactionId) w.outside).1 = answer := by
  obtain ⟨_, _, _, _, _, _, he⟩ | ⟨recipient, serverId, transactionId, remote, hc, hr, he⟩ :=
    m.mem_callsBefore (mem_callsBefore_of_mem h rfl)
  · cases he
  · cases he
    exact ⟨recipient, serverId, transactionId, remote, hc, hr, rfl⟩

/-- A question that failed. -/
theorem ask_of_error {ε δ α : Type} {f : δ → ε} {x : Step δ σ α} {e : δ}
    (h : (x w.outside).1 = .error e) : ∃ w₁, World.ask (Step.blame f x) w = (.error (f e), w₁) :=
  ⟨_, ask_error (Prod.ext h rfl)⟩

/-- A question that is answered in this state is answered by the step. -/
theorem ask_of_ok {ε δ α : Type} {f : δ → ε} {x : Step δ σ α} {a : α}
    (h : (x w.outside).1 = .ok a) : ∃ w₁, World.ask (Step.blame f x) w = (.ok a, w₁) :=
  ⟨_, ask_ok (Prod.ext h rfl)⟩

variable (m lock w)

/-- **An opening fails by whose answer made it fail.** -/
theorem blames_unwrap : m.Blames lock (m.consulted lock w) (m.unwrap lock w).1 where
  iterations salt pwSalt n hc hn := by
    refine m.unwrap_of_stopped ?_
    simp only [approach, hc, checkIterations_eq_error hn]
    rfl
  noRemote fingerprint recipient sender hc hr := by
    refine m.unwrap_of_stopped ?_
    simp only [approach, hc, hr]
    rfl
  noServer recipient serverId transactionId hc hr := by
    refine m.unwrap_of_stopped ?_
    simp only [approach, hc, hr]
    rfl
  certificates f h := by
    obtain ⟨fingerprint, recipient, sender, remote, hc, hr, hanswer⟩ := certificates_of_mem h
    obtain ⟨w₁, hask⟩ := ask_of_error (f := Error.network) hanswer
    refine m.unwrap_of_stopped ?_
    simp only [approach, hc, hr, Step.bind_apply, hask]
  notFound fingerprint recipient sender certificates hc h hnone := by
    obtain ⟨_, _, _, remote, -, hr, hanswer⟩ := certificates_of_mem h
    obtain ⟨w₁, hask⟩ := ask_of_ok (f := Error.network) hanswer
    have hany : ¬ certificates.any (fun c => m.suite.hash c = fingerprint) = true := by
      simpa using hnone
    refine m.unwrap_of_stopped ?_
    simp only [approach, hc, hr, Step.bind_of_ok hask, if_neg hany]
    rfl
  release i request f h := by
    obtain ⟨recipient, serverId, transactionId, remote, hc, hr, hanswer⟩ := release_of_mem h
    obtain ⟨w₁, hask⟩ := ask_of_error (f := Error.network) hanswer
    refine m.unwrap_of_stopped ?_
    simp only [approach, hc, hr, Step.bind_apply, hask]
  keyLength recipient serverId transactionId i request response hc h hlen := by
    obtain ⟨_, _, _, remote, hc', hr, hanswer⟩ := release_of_mem h
    cases hc.symm.trans hc'
    obtain ⟨w₁, hask⟩ := ask_of_ok (f := Error.network) hanswer
    refine m.unwrap_of_stopped ?_
    simp only [approach, hc, hr, Step.bind_of_ok hask, Octets.ofBytes?, dif_neg hlen]
    rfl
  secret info f h := by
    have hcourse := m.course_unwrap lock w
    have hbefore : .secret info (.error f) ∉ m.callsBefore lock w.outside :=
      m.secret_notMem_callsBefore
    generalize m.consulted lock w = calls, (m.unwrap lock w).1 = result at hcourse h
    cases hcourse with
    | stopped e w₁ _ => exact absurd h hbefore
    | refused d w₁ f' _ _ =>
      cases List.mem_singleton.mp ((List.mem_append.mp h).resolve_left hbefore)
      rfl
    | answered d w₁ secret _ _ =>
      cases List.mem_singleton.mp ((List.mem_append.mp h).resolve_left hbefore)

/-! ## Making

To make a lock is to ask for the secret or to deposit a capsule, never both,
and for some recipients neither. -/

variable {lock w}

/-- What the making of a lock asks. -/
def callsToMake (index : Nat) (r : Recipient) (w : World σ) : List Exchange :=
  match r with
  | .password _ none _ | .symmetricKey _ none =>
    [m.providers.secretCall ⟨index, r.type, r.label⟩ w.outside]
  | .server _ recipient serverId =>
    match m.providers.remote, serverId <|> m.config.keyServer,
      WrapKey.ofEphemeral m.suite (w.entropy.draw 32).1 recipient with
    | some remote, some server, .ok (sender, _) =>
      let request := depositRequest recipient sender
      [.deposit server request (remote.deposit server request w.outside).1]
    | _, _, _ => []
  | _ => []

/-- Once the secret is there, the making of a lock asks nobody. -/
theorem asks_inlineOr (info : LockInfo) (given : Option Bytes) (w : World σ) :
    Asks (m.inlineOr info given) (m.noting.inlineOr info given) w
      (if given = none then [m.providers.secretCall info w.outside] else []) := by
  cases given with
  | none => exact m.asks_secretFor info w
  | some secret => exact .of_quiet (noted_answer (.ok secret)) w

/-- The questions of making a lock, one kind after the other. -/
theorem asks_prepare (index : Nat) (r : Recipient) (w : World σ) :
    Asks (m.prepare ⟨index, r.type, r.label⟩ r) (m.noting.prepare ⟨index, r.type, r.label⟩ r) w
      (m.callsToMake index r w) := by
  cases r with
  | password label given iterations =>
    have hcalls : m.callsToMake index (.password label given iterations) w
        = if given = none then [m.providers.secretCall ⟨index, .password, label⟩ w.outside]
          else [] := by cases given <;> rfl
    rw [hcalls]
    exact (m.asks_inlineOr _ given w).bind_quiet fun _ => (noted_answer _).bind fun _ =>
      (noted_draw 32).bind fun _ => (noted_draw 32).bind fun _ => (noted_answer _).bind fun _ =>
        noted_answer (.ok _)
  | symmetricKey label given =>
    have hcalls : m.callsToMake index (.symmetricKey label given) w
        = if given = none then [m.providers.secretCall ⟨index, .symmetricKey, label⟩ w.outside]
          else [] := by cases given <;> rfl
    rw [hcalls]
    refine (m.asks_inlineOr _ given w).bind_quiet fun key => ?_
    split
    · exact noted_answer _
    · exact (noted_draw 32).bind fun _ => noted_answer (.ok _)
  | publicKey label recipient =>
    exact .of_quiet (((noted_draw 32).bind fun _ => noted_answer _).bind fun _ =>
      noted_answer (.ok _)) w
  | certificate label certificate recipient =>
    exact .of_quiet (((noted_draw 32).bind fun _ => noted_answer _).bind fun _ =>
      noted_answer (.ok _)) w
  | server label recipient serverId =>
    simp only [prepare, callsToMake, noting, Providers.noting]
    cases m.providers.remote with
    | none => exact .of_quiet (noted_answer _) w
    | some remote =>
      cases serverId <|> m.config.keyServer with
      | none => exact .of_quiet (noted_answer _) w
      | some server =>
        -- nothing is asked to agree, so only the deposit is
        have hagree : Asks (m.agreeWith recipient) (m.noting.agreeWith recipient) w [] :=
          .of_quiet ((noted_draw 32).bind fun _ => noted_answer _) w
        have hdraw : m.agreeWith recipient w
            = ((WrapKey.ofEphemeral m.suite (w.entropy.draw 32).1 recipient).mapError Error.crypto,
              { w with entropy := (w.entropy.draw 32).2 }) := rfl
        cases h : WrapKey.ofEphemeral m.suite (w.entropy.draw 32).1 recipient with
        | error f =>
          rw [h] at hdraw
          exact hagree.bind_error hdraw
        | ok found =>
          obtain ⟨sender, key⟩ := found
          rw [h] at hdraw
          exact hagree.bind_ok hdraw ((asks_ask Error.network _ _ _).bind_quiet fun _ =>
            noted_answer (.ok _))

/-- **The making of a lock asks these questions.** -/
theorem asks_wrap (index : Nat) (r : Recipient) (fmk : Fmk) (w : World σ) :
    Asks (m.wrap index r fmk) (m.noting.wrap index r fmk) w (m.callsToMake index r w) :=
  (m.asks_prepare index r w).bind_quiet fun _ => (noted_draw 24).bind fun _ => noted_answer (.ok _)

/-- **A secret is asked for once at most,** and only for a recipient who left
it out. -/
theorem countP_secret_callsToMake (index : Nat) (r : Recipient) (w : World σ) :
    (m.callsToMake index r w).countP Exchange.isSecret = if r.leavesOut then 1 else 0 := by
  unfold callsToMake
  split
  · rfl
  · rfl
  · dsimp only
    split
    · rfl
    · rfl
  · rename_i hpassword hkey hserver
    cases r with
    | password label given iterations =>
      cases given with
      | none => exact absurd rfl (hpassword label iterations)
      | some secret => rfl
    | symmetricKey label given =>
      cases given with
      | none => exact absurd rfl (hkey label)
      | some secret => rfl
    | publicKey => rfl
    | certificate => rfl
    | server => rfl

/-- A key is deposited once at most, and only with a key server. -/
theorem deposits_callsToMake (index : Nat) (r : Recipient) (w : World σ) :
    (m.callsToMake index r w).countP Exchange.isDeposit
      ≤ if r.type = .server then 1 else 0 := by
  unfold callsToMake
  split
  · exact Nat.zero_le _
  · exact Nat.zero_le _
  · dsimp only
    split
    · exact Nat.le_refl 1
    · exact Nat.zero_le _
  · exact Nat.zero_le _

/-- What the making of a lock comes to where one of its questions fails, or
nobody is there to be asked. -/
structure BlamesMaking (index : Nat) (r : Recipient) (calls : List Exchange)
    (result : Except Error Lock) : Prop where
  secret : ∀ info f, .secret info (.error f) ∈ calls → result = .error (.lock index f)
  deposit : ∀ server request f, .deposit server request (.error f) ∈ calls →
    result = .error (.network f)
  noRemote : r.type = .server → m.providers.remote = none → result = .error (.network .noRemote)

/-- Only for a recipient who left it out a secret is asked for, and only for
that of a server a capsule is deposited. -/
theorem mem_callsToMake {index : Nat} {r : Recipient} {w : World σ} {e : Exchange}
    (he : e ∈ m.callsToMake index r w) :
    r.leavesOut = true ∧ e = m.providers.secretCall ⟨index, r.type, r.label⟩ w.outside ∨
    ∃ label recipient serverId remote server sender key,
      r = .server label recipient serverId ∧ m.providers.remote = some remote ∧
      (serverId <|> m.config.keyServer) = some server ∧
      WrapKey.ofEphemeral m.suite (w.entropy.draw 32).1 recipient = .ok (sender, key) ∧
      e = .deposit server (depositRequest recipient sender)
        (remote.deposit server (depositRequest recipient sender) w.outside).1 := by
  unfold callsToMake at he
  split at he
  · exact .inl ⟨rfl, List.mem_singleton.mp he⟩
  · exact .inl ⟨rfl, List.mem_singleton.mp he⟩
  · rename_i label recipient serverId
    dsimp only at he
    split at he
    · rename_i remote server sender key hr hs hagree
      exact .inr ⟨label, recipient, serverId, remote, server, sender, key, rfl, hr, hs, hagree,
        List.mem_singleton.mp he⟩
    · exact absurd he (by simp)
  · exact absurd he (by simp)

/-- A lock is not made if its preparation fails, and fails with the same. -/
theorem wrap_of_stopped {index : Nat} {r : Recipient} {fmk : Fmk} {w : World σ} {e : Error}
    (h : (m.prepare ⟨index, r.type, r.label⟩ r w).1 = .error e) :
    (m.wrap index r fmk w).1 = .error e := by
  obtain ⟨w₁, hprepare⟩ : ∃ w₁, m.prepare ⟨index, r.type, r.label⟩ r w = (.error e, w₁) :=
    ⟨_, Prod.ext h rfl⟩
  simp only [wrap, Step.bind_apply, hprepare]

/-- **Where a question fails, the making of the lock fails with it,** blamed on
the lock or on the network. -/
theorem blames_wrap (index : Nat) (r : Recipient) (fmk : Fmk) (w : World σ) :
    m.BlamesMaking index r (m.callsToMake index r w) (m.wrap index r fmk w).1 where
  secret info f h := by
    obtain ⟨hleft, he⟩ | ⟨_, _, _, _, _, _, _, _, _, _, _, he⟩ := m.mem_callsToMake h
    · obtain ⟨rfl, hf⟩ := Exchange.secret.inj he
      obtain ⟨w₁, hsecret⟩ : ∃ w₁, m.secretFor ⟨index, r.type, r.label⟩ w
          = (.error (.lock index f), w₁) := ask_of_error (f := Error.lock index) hf.symm
      refine m.wrap_of_stopped ?_
      cases r with
      | password label given iterations =>
        cases given with
        | none => simp only [prepare, inlineOr, Step.bind_apply, hsecret]
        | some secret => cases hleft
      | symmetricKey label given =>
        cases given with
        | none => simp only [prepare, inlineOr, Step.bind_apply, hsecret]
        | some secret => cases hleft
      | publicKey => cases hleft
      | certificate => cases hleft
      | server => cases hleft
    · cases he
  deposit server request f h := by
    obtain ⟨-, he⟩ | ⟨label, recipient, serverId, remote, server', sender, key, rfl, hr, hs, hagree,
      he⟩ := m.mem_callsToMake h
    · cases he
    · obtain ⟨rfl, rfl, hf⟩ := Exchange.deposit.inj he
      have hdraw : m.agreeWith recipient w
          = (.ok (sender, key), { w with entropy := (w.entropy.draw 32).2 }) := by
        simp only [agreeWith, World.draw, Step.bind_apply, Step.answer, hagree]
        rfl
      obtain ⟨w₁, hask⟩ := ask_of_error (f := Error.network)
        (w := { w with entropy := (w.entropy.draw 32).2 }) hf.symm
      refine m.wrap_of_stopped ?_
      simp only [prepare, hr, hs, Step.bind_of_ok hdraw, Step.bind_apply, hask]
  noRemote htype hr := by
    cases r with
    | server label recipient serverId =>
      refine m.wrap_of_stopped ?_
      simp only [prepare, hr]
      rfl
    | password => cases htype
    | symmetricKey => cases htype
    | publicKey => cases htype
    | certificate => cases htype

/-- A request for a capsule can be read again. -/
theorem parse?_releaseRequest (serverId transactionId : String) :
    ∃ request server transaction,
      Json.parse? (releaseRequest serverId transactionId) = some request ∧
      request.allFields? ["server_id", "transaction_id"] = some [server, transaction] ∧
      server.text? = some serverId ∧ transaction.text? = some transactionId := by
  have hnodup : ([("server_id", Json.ofText serverId),
      ("transaction_id", .ofText transactionId)].map Prod.fst).Nodup := by simp
  refine ⟨_, _, _, Json.parse?_render (Json.written_record fun m hm => ?_),
    Json.allFields?_record hnodup, Json.text?_ofText _, Json.text?_ofText _⟩
  simp only [List.mem_cons, List.not_mem_nil, or_false] at hm
  rcases hm with rfl | rfl
  · exact Json.written_ofText _
  · exact Json.written_ofText _

end Locksmith

/-- **A provider is asked for the secret of a lock once, and only when
nothing else is in the way.** The opening of a lock asks the questions
written down in `callsToOpen` and no others, whatever it is answered: a
locksmith who notes what is asked has noted these, and comes to what one
who does not comes to. Where a question fails, or stands for something that
is not there, that is what the opening fails by. The making of a lock asks
for a secret once if the recipient has left it out and not at all if not, and
it deposits at most one capsule, and that only for a recipient of a server.
What is sent to a server to release a capsule can be read again as the server
and the transaction that the lock names. -/
theorem secret_asked_last {σ : Type} (m : Locksmith σ) :
    (∀ (lock : Lock) (w : World σ),
      m.noting.unwrap lock (w.noting []) = ((m.unwrap lock w).1,
        (m.unwrap lock w).2.noting (m.callsToOpen lock w.outside)) ∧
      m.Blames lock (m.callsToOpen lock w.outside) (m.unwrap lock w).1) ∧
    (∀ (index : Nat) (r : Recipient) (fmk : Fmk) (w : World σ),
      m.noting.wrap index r fmk (w.noting []) = ((m.wrap index r fmk w).1,
        (m.wrap index r fmk w).2.noting (m.callsToMake index r w)) ∧
      m.BlamesMaking index r (m.callsToMake index r w) (m.wrap index r fmk w).1 ∧
      (m.callsToMake index r w).countP Exchange.isSecret = (if r.leavesOut then 1 else 0) ∧
      (m.callsToMake index r w).countP Exchange.isDeposit
        ≤ if r.type = .server then 1 else 0) ∧
    ∀ serverId transactionId : String, ∃ request server transaction,
      Json.parse? (Locksmith.releaseRequest serverId transactionId) = some request ∧
      request.allFields? ["server_id", "transaction_id"] = some [server, transaction] ∧
      server.text? = some serverId ∧ transaction.text? = some transactionId := by
  refine ⟨fun lock w => ⟨?_, ?_⟩, fun index r fmk w => ⟨m.asks_wrap index r fmk w [],
    m.blames_wrap index r fmk w, m.countP_secret_callsToMake index r w,
    m.deposits_callsToMake index r w⟩, Locksmith.parse?_releaseRequest⟩
  · obtain ⟨new, -, hnew⟩ := m.noted_unwrap lock [] w
    rw [List.nil_append] at hnew
    have hconsulted : m.consulted lock w = new := by
      rw [Locksmith.consulted, hnew]
      rfl
    rw [← m.consulted_eq_callsToOpen, hconsulted, hnew]
  · rw [← m.consulted_eq_callsToOpen]
    exact m.blames_unwrap lock w

/-- A server that released too little is the last one to be asked. -/
example : (⟨.plain, .default, ⟨fun _ n => (.ok [1], n + 1), some ⟨fun n => (.ok [], n),
    fun _ _ n => (.ok [7], n + 1), Remote.noDeposit⟩⟩⟩ : Locksmith Nat).callsToOpen
      ⟨3, "key", .zero 24, [], .server (.zero 32) "here" "tx"⟩ 0
    = [.release 3 (Locksmith.releaseRequest "here" "tx") (.ok [7])] := rfl

end Lockbox
