import Lockbox.Proofs.Head
import Lockbox.Proofs.Unlocking
import Lockbox.Proofs.Writing
import Lockbox.Sealing
/-!
# Lockbox — runs of a session that writes

A run is any list of calls, in any order and whether they succeed or not.
Its ledger tells what was accepted: the recipients with what was asked for
them, and the entries with their data. `Keeps` is the invariant of a run:
while the session accepts, its draft has a lock for each recipient of the
ledger and the payload of its entries. A run that could be finished is a
`SealedRun`; `SealedRun.container_eq` says, byte for byte, what it sealed.
-/

namespace Lockbox

open Payload

/-! ## Runs

The ledger is kept beside the session, from the answers that the caller
sees. It is what the theorems about a run speak of, so that they need no
look into the session. -/

/-- A recipient who was accepted: the place that was given for the lock,
and what was asked to make it. -/
structure Enrolled where
  index : Nat
  recipient : Recipient
  asked : List Exchange

/-- What a session has accepted. -/
structure Ledger where
  recipients : List Enrolled
  entries : List (FileInfo × Bytes)

namespace Ledger

/-- Nothing yet. -/
def empty : Ledger := ⟨[], []⟩

/-- One more recipient, if there was a place for the lock. -/
def enroll (l : Ledger) (r : Recipient) (asked : List Exchange) : Except Error Nat → Ledger
  | .ok index => { l with recipients := l.recipients ++ [⟨index, r, asked⟩] }
  | .error _ => l

/-- The entries after a call on the payload, if it succeeded. -/
def update (l : Ledger) (f : List (FileInfo × Bytes) → List (FileInfo × Bytes)) :
    Except Error Unit → Ledger
  | .ok () => { l with entries := f l.entries }
  | .error _ => l

end Ledger

namespace Sealing

variable {σ : Type}

/-- The calls of a session that writes. -/
inductive Call where
  | begin
  | addRecipient (r : Recipient)
  | addFile (name : String) (size : UInt64)
  | writeData (data : Bytes)
  | finish

/-- What was asked when a recipient was added. -/
def asked (s : Sealing σ) (r : Recipient) (w : World σ) : List Exchange :=
  match s.stage with
  | .accepting draft => s.smith.asked draft.locks.length r draft.fmk w
  | _ => []

/-- One call, and the ledger after it. -/
def Call.apply : Call → Ledger × Sealing σ × World σ → Ledger × Sealing σ × World σ
  | .begin, (l, s, w) => (l, (s.begin w).2)
  | .addRecipient r, (l, s, w) =>
    (l.enroll r (s.asked r w) (s.addRecipient r w).1, (s.addRecipient r w).2)
  | .addFile name size, (l, s, w) =>
    (l.update (· ++ [(⟨name, size⟩, [])]) (s.addFile name size).1, (s.addFile name size).2, w)
  | .writeData data, (l, s, w) =>
    (l.update (handOver data) (s.writeData data).1, (s.writeData data).2, w)
  | .finish, (l, s, w) => (l, s.finish.2, w)

/-- All calls, one after the other. -/
def run (calls : List Call) (s : Sealing σ) (w : World σ) : Ledger × Sealing σ × World σ :=
  calls.foldl (fun state call => call.apply state) (.empty, s, w)

/-! ## The invariant

`Keeps` is proved call by call (`Keeps.apply`) and then of a run by
induction. A payload without a number left is let off: it cannot be closed
any more. -/

/-- The locks were made for these recipients, each at its place. -/
def Locked (m : Locksmith σ) (fmk : Fmk) (recipients : List Enrolled) (locks : List Lock) : Prop :=
  locks.length = recipients.length ∧
    ∀ i (h : i < recipients.length) (h' : i < locks.length), recipients[i].index = i ∧
      ∃ w w', m.wrap i recipients[i].recipient fmk w = (.ok locks[i], w') ∧
        recipients[i].asked = m.asked i recipients[i].recipient fmk w

/-- A draft has what the ledger says: a lock for each recipient, and the
payload of the entries, unless no frame can be written any more. -/
structure Draft.Keeps (s : Sealing σ) (l : Ledger) (d : Draft) : Prop where
  locks : Locked s.smith d.fmk l.recipients d.locks
  payload : d.payload.Spent ∨ Writer.Holds s.smith.suite l.entries d.payload ∧
    d.payload.channel = ⟨d.fmk.contentKey s.smith.suite, d.payloadNonce, s.version, s.flags⟩

/-- What holds of a session that began as `start`, with its ledger. -/
structure Keeps (start : Sealing σ) (l : Ledger) (s : Sealing σ) : Prop where
  smith : s.smith = start.smith
  version : s.version = start.version
  flags : s.flags = start.flags
  spool : s.spool = start.spool
  created : s.stage = .created → l = .empty ∧ s.dest = start.dest
  draft : ∀ d, s.stage = .accepting d → d.Keeps s l ∧ s.dest = start.dest

variable {start s : Sealing σ} {l l' : Ledger}

/-- A call that goes on to another stage. -/
theorem Keeps.goOn (h : Keeps start l s) (stage : Stage) (dest : Sink)
    (hcreated : stage ≠ .created)
    (hdraft : ∀ d, stage = .accepting d → d.Keeps s l' ∧ dest = start.dest) :
    Keeps start l' { s with stage, dest } where
  smith := h.smith
  version := h.version
  flags := h.flags
  spool := h.spool
  created hc := absurd hc hcreated
  draft d hd :=
    have ⟨⟨hlocks, hpayload⟩, hdest⟩ := hdraft d hd
    ⟨⟨hlocks, hpayload⟩, hdest⟩

/-- To begin, the session draws what it needs and has an empty payload. -/
theorem Keeps.begin (h : Keeps start l s) (hfresh : start.spool.accepted = []) (w : World σ) :
    Keeps start l (s.begin w).2.1 := by
  unfold Sealing.begin
  split
  · rename_i hstage
    obtain ⟨hempty, hdest⟩ := h.created hstage
    have hspool : s.spool.accepted = [] := by rw [h.spool, hfresh]
    refine h.goOn _ s.dest (by simp) fun d hd => ⟨?_, hdest⟩
    cases hd
    refine ⟨⟨by rw [hempty]; rfl, fun i hi => ?_⟩, .inr ⟨?_, rfl⟩⟩
    · rw [hempty] at hi
      exact absurd hi (by simp [Ledger.empty])
    · rw [hempty]
      exact Writer.holds_create hspool _
  · exact h

/-- A lock that was made for one more recipient stands behind the others. -/
theorem Locked.concat {m : Locksmith σ} {fmk : Fmk} {recipients : List Enrolled}
    {locks : List Lock} {r : Recipient} {w w' : World σ} {lock : Lock}
    (h : Locked m fmk recipients locks) (hw : m.wrap locks.length r fmk w = (.ok lock, w')) :
    Locked m fmk (recipients ++ [⟨locks.length, r, m.asked locks.length r fmk w⟩])
      (locks ++ [lock]) := by
  obtain ⟨hlength, hlocks⟩ := h
  refine ⟨by simp [hlength], fun i hi hi' => ?_⟩
  by_cases hlt : i < locks.length
  · have hlt' : i < recipients.length := hlength ▸ hlt
    rw [List.getElem_append_left hlt, List.getElem_append_left hlt']
    exact hlocks i hlt' hlt
  · -- the lock that was added last
    have heq : i = locks.length := by
      rw [List.length_append, List.length_singleton] at hi'
      omega
    subst heq
    have hget : (recipients ++ [⟨locks.length, r, m.asked locks.length r fmk w⟩])[locks.length]
        = ⟨locks.length, r, m.asked locks.length r fmk w⟩ := by
      rw [List.getElem_append_right (by omega)]
      simp [hlength]
    have hget' : (locks ++ [lock])[locks.length] = lock := by
      rw [List.getElem_append_right (Nat.le_refl _)]
      simp
    rw [hget, hget']
    exact ⟨rfl, w, w', hw, rfl⟩

/-- The locks stand where they say, and readers take their capsules. -/
theorem Locked.sound {m : Locksmith σ} {fmk : Fmk} {recipients : List Enrolled}
    {locks : List Lock} (h : Locked m fmk recipients locks) : Table.Sound locks := by
  obtain ⟨hlength, hlocks⟩ := h
  intro i hi
  obtain ⟨-, w, w', hwrap, -⟩ := hlocks i (hlength ▸ hi) hi
  obtain ⟨hinfo, key, -, hhides⟩ := m.wrap_ok hwrap
  exact ⟨congrArg LockInfo.index hinfo, hhides.check⟩

/-- A recipient who is added is enrolled with the lock. -/
theorem Keeps.addRecipient (h : Keeps start l s) (r : Recipient) (w : World σ) :
    Keeps start (l.enroll r (s.asked r w) (s.addRecipient r w).1) (s.addRecipient r w).2.1 := by
  cases hstage : s.stage with
  | accepting draft =>
    obtain ⟨⟨hlocks, hpayload⟩, hdest⟩ := h.draft draft hstage
    simp only [Sealing.addRecipient, asked, hstage]
    rcases hwrap : s.smith.wrap draft.locks.length r draft.fmk w with ⟨e | lock, w'⟩
    · exact h
    · refine h.goOn _ s.dest (by simp) fun d hd => ⟨?_, hdest⟩
      cases hd
      exact ⟨hlocks.concat hwrap, hpayload⟩
  | created =>
    simp only [Sealing.addRecipient, hstage]
    exact h
  | sealed =>
    simp only [Sealing.addRecipient, hstage]
    exact h
  | failed cause =>
    simp only [Sealing.addRecipient, hstage]
    exact h

/-- A call on the payload that hands over, fails without a trace, ends the
session or leaves no number. -/
theorem Keeps.onPayload (h : Keeps start l s) (op : Operation)
    {f : Writer → Except Error Unit × Writer}
    {g : List (FileInfo × Bytes) → List (FileInfo × Bytes)}
    (hok : ∀ {w w'}, f w = (.ok (), w') → Writer.Holds s.smith.suite l.entries w →
      Writer.Holds s.smith.suite (g l.entries) w' ∧ w'.channel = w.channel)
    (herror : ∀ {w w' e}, f w = (.error e, w') → w' = w ∨ Writer.Fatal e ∨ w'.Spent)
    (hcounter : ∀ w, w.counter ≤ (f w).2.counter) :
    Keeps start (l.update g (s.onPayload op f).1) (s.onPayload op f).2 := by
  unfold Sealing.onPayload
  split
  · rename_i draft hstage
    obtain ⟨⟨hlocks, hpayload⟩, hdest⟩ := h.draft draft hstage
    -- numbers are never given back
    have hspent : draft.payload.Spent → (f draft.payload).2.Spent := fun hs =>
      Nat.le_trans hs (Nat.succ_le_succ (hcounter draft.payload))
    rcases hf : f draft.payload with ⟨result, w'⟩
    rw [hf] at hspent
    cases result with
    | ok u =>
      refine h.goOn _ s.dest (by simp [Stage.after]) fun d hd => ⟨?_, hdest⟩
      cases hd
      refine ⟨hlocks, ?_⟩
      rcases hpayload with hs | ⟨hholds, hchannel⟩
      · exact .inl (hspent hs)
      · obtain ⟨hholds', hchannel'⟩ := hok hf hholds
        exact .inr ⟨hholds', hchannel'.trans hchannel⟩
    | error e =>
      refine h.goOn _ s.dest ?_ fun d hd => ⟨?_, hdest⟩
      · unfold Stage.after
        split <;> simp
      · -- the session accepts no more after a fatal failure
        have hgoes : ¬ Writer.Fatal e ∧ d = { draft with payload := w' } := by
          unfold Stage.after at hd
          split at hd
          · exact absurd hd (by simp)
          · exact absurd hd (by simp)
          · cases hd
            refine ⟨fun hfatal => ?_, rfl⟩
            cases e <;> simp_all [Writer.Fatal]
        obtain ⟨hmild, rfl⟩ := hgoes
        refine ⟨hlocks, ?_⟩
        rcases herror hf with rfl | hfatal | hs
        · exact hpayload
        · exact absurd hfatal hmild
        · exact .inl hs
  · exact h

/-- An entry that is declared is one in the ledger. -/
theorem Keeps.addFile (h : Keeps start l s) (name : String) (size : UInt64) :
    Keeps start (l.update (· ++ [(⟨name, size⟩, [])]) (s.addFile name size).1)
      (s.addFile name size).2 :=
  h.onPayload .addFile
    (fun hw hholds =>
      have ⟨_, _, _, _, hwrote, _⟩ := Writer.declare_ok hw
      ⟨hholds.declare hw, hwrote.channel⟩)
    (fun hw => (Writer.declare_error hw).imp And.left Writer.Unwritten.fatal_or_spent)
    fun w => (Writer.paid_declare name size w).counter

/-- Bytes that are handed over belong to the last entry of the ledger. -/
theorem Keeps.writeData (h : Keeps start l s) (data : Bytes) :
    Keeps start (l.update (handOver data) (s.writeData data).1) (s.writeData data).2 :=
  h.onPayload .writeData
    (fun hw hholds =>
      have ⟨_, _, _, _, _, hwrote, _⟩ := Writer.write_ok hw
      ⟨hholds.write hw, hwrote.channel⟩)
    (fun hw => (Writer.write_error hw).imp And.left Writer.Unwritten.fatal_or_spent)
    fun w => (Writer.paid_write data w).counter

/-- To finish changes nothing in the ledger. -/
theorem Keeps.finish (h : Keeps start l s) : Keeps start l s.finish.2 := by
  unfold Sealing.finish
  split
  · exact h
  · rename_i draft hstage
    obtain ⟨⟨hlocks, hpayload⟩, hdest⟩ := h.draft draft hstage
    split
    · exact h.goOn _ s.dest (by simp) fun d hd => absurd hd (by simp)
    · split
      · refine h.goOn _ s.dest ?_ fun d hd => ⟨?_, hdest⟩
        · unfold Stage.after
          split <;> simp
        · unfold Stage.after at hd
          split at hd
          · exact absurd hd (by simp)
          · exact absurd hd (by simp)
          · cases hd
            exact ⟨hlocks, hpayload⟩
      · split
        · exact h.goOn _ s.dest (by simp) fun d hd => absurd hd (by simp)
        · split
          · exact h.goOn _ _ (by simp) fun d hd => absurd hd (by simp)
          · exact h.goOn _ _ (by simp) fun d hd => absurd hd (by simp)
  · exact h

/-- **Every call keeps what holds of the session.** -/
theorem Keeps.apply {w : World σ} (h : Keeps start l s) (hfresh : start.spool.accepted = [])
    (call : Call) : Keeps start (call.apply (l, s, w)).1 (call.apply (l, s, w)).2.1 := by
  cases call with
  | begin => exact h.begin hfresh w
  | addRecipient r => exact h.addRecipient r w
  | addFile name size => exact h.addFile name size
  | writeData data => exact h.writeData data
  | finish => exact h.finish

/-- **And so does every run.** -/
theorem keeps_run (hfresh : start.spool.accepted = []) (hcreated : start.stage = .created)
    (calls : List Call) (w : World σ) :
    Keeps start (run calls start w).1 (run calls start w).2.1 := by
  have hstep : ∀ (calls : List Call) (l : Ledger) (s : Sealing σ) (w : World σ),
      Keeps start l s →
      Keeps start (calls.foldl (fun state call => call.apply state) (l, s, w)).1
        (calls.foldl (fun state call => call.apply state) (l, s, w)).2.1 := by
    intro calls
    induction calls with
    | nil => exact fun l s w h => h
    | cons call calls ih => exact fun l s w h => ih _ _ _ (h.apply hfresh call)
  refine hstep calls .empty start w ⟨rfl, rfl, rfl, rfl, fun _ => ⟨rfl, rfl⟩, fun d hd => ?_⟩
  rw [hcreated] at hd
  exact absurd hd (by simp)

/-! ## The end of a run

Finishing closes the payload into the spool, writes the head to the
destination and copies the spool behind it. Each of these may fail, also the
reading of the spool, and what is there then is a beginning of the
container. -/

/-- A session that was created has written nothing, and is of the one version
there is. -/
theorem create_ok {smith : Locksmith σ} {version : UInt8} {spool dest : Sink}
    (h : create smith version spool dest = .ok s) :
    s = ⟨smith, containerVersion, ⟨smith.config.compress⟩, spool, dest, .created⟩ := by
  unfold create at h
  split at h
  · rename_i hversion
    rw [← Except.ok.inj h, hversion]
  · exact absurd h (by simp)

/-- The header that a draft leads to. -/
def Draft.header (d : Draft) : Header := ⟨Suite.name, d.payloadNonce, d.locks⟩

/-- A container that could be delivered is there: its head and its payload. -/
theorem deliver_ok {draft : Draft} {spool dest : Sink} (h : s.deliver draft spool = (.ok (), dest)) :
    draft.header.toJson.render.length ≤ maxHeaderLength ∧
      dest.accepted = s.dest.accepted ++
        (draft.header.sealed s.smith.suite s.version s.flags draft.fmk ++ spool.accepted) := by
  unfold deliver at h
  dsimp only at h
  split at h
  · exact absurd (Prod.mk.inj h).1 (by simp)
  split at h
  · exact absurd (Prod.mk.inj h).1 (by simp)
  rename_i n dest₁ hhead
  obtain ⟨hlength, haccepted⟩ := Header.write_ok hhead
  refine ⟨hlength, ?_⟩
  split at h
  · exact absurd (Prod.mk.inj h).1 (by simp)
  rename_i dest₂ hpayload
  split at h
  · exact absurd (Prod.mk.inj h).1 (by simp)
  rename_i hrecalled
  rw [Sink.readBack_of_none hrecalled] at hpayload
  split at h
  · exact absurd (Prod.mk.inj h).1 (by simp)
  · obtain ⟨-, rfl⟩ := Prod.mk.inj h
    rw [Sink.accepted_write_of_ok hpayload, haccepted, List.append_assoc]
    rfl

/-- Whatever becomes of the delivery, a beginning of the container is
there. -/
theorem accepted_deliver (s : Sealing σ) (draft : Draft) (spool : Sink) :
    ∃ q, q <+: draft.header.sealed s.smith.suite s.version s.flags draft.fmk ++ spool.accepted ∧
      (s.deliver draft spool).2.accepted = s.dest.accepted ++ q := by
  obtain ⟨q, hq, haccepted⟩ := draft.header.accepted_write s.smith.suite s.version s.flags
    draft.fmk s.dest
  unfold deliver
  dsimp only
  split
  · -- the spool cannot be read again, and nothing is written
    exact ⟨[], List.nil_prefix, (List.append_nil _).symm⟩
  split
  · rename_i hhead
    rw [Draft.header, hhead] at haccepted
    exact ⟨q, hq.trans (List.prefix_append _ _), haccepted⟩
  · rename_i n dest₁ hhead
    obtain ⟨-, hdest₁⟩ := Header.write_ok hhead
    obtain ⟨k, hk⟩ := Sink.accepted_write dest₁ spool.readBack.1
    refine ⟨draft.header.sealed s.smith.suite s.version s.flags draft.fmk ++
      spool.readBack.1.take k, (List.prefix_append_right_inj _).mpr
        ((List.take_prefix _ _).trans spool.readBack_prefix), ?_⟩
    have hdest : (dest₁.write spool.readBack.1).2.accepted = s.dest.accepted ++
        (draft.header.sealed s.smith.suite s.version s.flags draft.fmk ++
          spool.readBack.1.take k) := by
      rw [hk, hdest₁, List.append_assoc]
      rfl
    split
    · rename_i hw
      rw [hw] at hdest
      exact hdest
    · rename_i hw
      rw [hw] at hdest
      split
      · exact hdest
      · split
        · exact hdest
        · exact hdest

/-- What a session that could be finished had, and what it delivered. -/
theorem finish_ok {s' : Sealing σ} (h : s.finish = (.ok (), s')) :
    ∃ draft spool, s.stage = .accepting draft ∧ draft.locks ≠ [] ∧
      draft.payload.close s.smith.suite = .ok spool ∧
      s.deliver draft spool = (.ok (), s'.dest) := by
  unfold Sealing.finish at h
  split at h
  · exact absurd (Prod.mk.inj h).1 (by simp)
  · rename_i draft hstage
    split at h
    · exact absurd (Prod.mk.inj h).1 (by simp)
    · rename_i hlocks
      split at h
      · exact absurd (Prod.mk.inj h).1 (by simp)
      · split at h
        · exact absurd (Prod.mk.inj h).1 (by simp)
        · rename_i spool hclose
          split at h
          · exact absurd (Prod.mk.inj h).1 (by simp)
          · rename_i dest hdeliver
            obtain ⟨-, rfl⟩ := Prod.mk.inj h
            exact ⟨draft, spool, hstage, hlocks, hclose, hdeliver⟩
  · exact absurd (Prod.mk.inj h).1 (by simp)

/-- A session whose payload can be closed delivers a beginning of the
container, whatever becomes of the rest. -/
theorem accepted_finish {draft : Draft} {spool : Sink} (hstage : s.stage = .accepting draft)
    (hlocks : draft.locks ≠ []) (hclose : draft.payload.close s.smith.suite = .ok spool) :
    ∃ q, q <+: draft.header.sealed s.smith.suite s.version s.flags draft.fmk ++ spool.accepted ∧
      s.finish.2.dest.accepted = s.dest.accepted ++ q := by
  obtain ⟨q, hq, haccepted⟩ := s.accepted_deliver draft spool
  refine ⟨q, hq, ?_⟩
  simp only [Sealing.finish, hstage, if_neg hlocks, Writer.complete_of_close hclose, hclose]
  rcases hdeliver : s.deliver draft spool with ⟨_ | _, dest⟩
  · rw [hdeliver] at haccepted
    exact haccepted
  · rw [hdeliver] at haccepted
    exact haccepted

end Sealing

/-! ## Sealed containers

A run that was finished, with all that is known of it. Theorems on reading
start from here. -/

/-- A run of a session from its creation to where it was finished, with the
draft that it had before. The spool is empty at first. -/
structure SealedRun (σ : Type) where
  smith : Locksmith σ
  version : UInt8
  spool : Sink
  dest : Sink
  fresh : spool.accepted = []
  start : Sealing σ
  created : Sealing.create smith version spool dest = .ok start
  world : World σ
  calls : List Sealing.Call
  draft : Sealing.Draft
  accepting : (Sealing.run calls start world).2.1.stage = .accepting draft
  sealed : (Sealing.run calls start world).2.1.finish.1 = .ok ()

namespace SealedRun

variable {σ : Type} (run : SealedRun σ)

/-- The suite of the container. -/
abbrev suite : Suite := run.smith.suite

/-- What the session accepted. -/
def ledger : Ledger := (Sealing.run run.calls run.start run.world).1

/-- The recipients, in the order in which they were added. -/
def recipients : List Enrolled := run.ledger.recipients

/-- The entries with their data, in the order in which they were declared. -/
def entries : List (FileInfo × Bytes) := run.ledger.entries

/-- The session before it was finished. -/
def unsealed : Sealing σ := (Sealing.run run.calls run.start run.world).2.1

/-- The master key of the container. -/
def fmk : Fmk := run.draft.fmk

/-- The flags of the container. -/
def flags : Flags := ⟨run.smith.config.compress⟩

/-- What sealing wrote to the destination. -/
def container : Bytes := run.unsealed.finish.2.dest.accepted.drop run.dest.accepted.length

/-- The channel of the payload. -/
def channel : Channel :=
  ⟨run.fmk.contentKey run.suite, run.draft.payloadNonce, containerVersion, run.flags⟩

/-- The frames of the payload. -/
def frames : List Frame := Frame.script run.entries

/-- The head of the container as readers see it. -/
def parsed : ParsedHeader := run.draft.header.parsed run.suite run.flags run.fmk

theorem start_eq : run.start
    = ⟨run.smith, containerVersion, run.flags, run.spool, run.dest, .created⟩ :=
  Sealing.create_ok run.created

/-- The invariant at the end of the run. -/
theorem keeps : Sealing.Keeps run.start run.ledger run.unsealed := by
  refine Sealing.keeps_run ?_ ?_ run.calls run.world
  · rw [start_eq]
    exact run.fresh
  · rw [start_eq]

theorem unsealed_eq : run.unsealed
    = ⟨run.smith, containerVersion, run.flags, run.spool, run.dest, .accepting run.draft⟩ := by
  obtain ⟨hsmith, hversion, hflags, hspool, -, hdraft⟩ := run.keeps
  obtain ⟨-, hdest⟩ := hdraft run.draft run.accepting
  rw [start_eq] at hsmith hversion hflags hspool hdest
  have hstage : run.unsealed.stage = .accepting run.draft := run.accepting
  generalize run.unsealed = s at *
  cases s
  simp_all

/-- The run was finished with locks and with a payload that was closed. -/
theorem closed : ∃ spool, run.draft.locks ≠ [] ∧
    run.draft.payload.close run.suite = .ok spool ∧
    run.unsealed.deliver run.draft spool = (.ok (), run.unsealed.finish.2.dest) := by
  have hfinish : run.unsealed.finish = (.ok (), run.unsealed.finish.2) := Prod.ext run.sealed rfl
  obtain ⟨draft, spool, hstage, hlocks, hclose, hdeliver⟩ := Sealing.finish_ok hfinish
  have hdraft : run.draft = draft := by
    have := run.accepting.symm.trans hstage
    injection this
  subst hdraft
  refine ⟨spool, hlocks, ?_, hdeliver⟩
  rw [unsealed_eq] at hclose
  exact hclose

/-- What sealing wrote stands behind what the destination had. -/
theorem accepted_sealed :
    run.unsealed.finish.2.dest.accepted = run.dest.accepted ++ run.container := by
  obtain ⟨spool, -, -, hdeliver⟩ := run.closed
  obtain ⟨-, hdest⟩ := Sealing.deliver_ok hdeliver
  have hfirst : run.unsealed.dest = run.dest := by rw [unsealed_eq]
  rw [hfirst] at hdest
  rw [container, hdest, List.drop_left' rfl]

/-- **What a run sealed**: readers take its header, each recipient of its
ledger has a lock at the place that was given, and the container is the
head and the frames of its entries. -/
theorem container_eq :
    run.draft.header.Readable ∧
    Sealing.Locked run.smith run.fmk run.recipients run.draft.locks ∧
    run.container = run.draft.header.sealed run.suite containerVersion run.flags run.fmk ++
      run.channel.stream run.suite 0 run.frames ∧
    Item.Complete run.entries ∧ Storable run.entries ∧ run.frames.length < UInt64.size := by
  obtain ⟨⟨hlocked, hpayload⟩, -⟩ := run.keeps.draft run.draft run.accepting
  obtain ⟨spool, hlocks, hclose, hdeliver⟩ := run.closed
  obtain ⟨hlength, hdest⟩ := Sealing.deliver_ok hdeliver
  have hcontainer := congrArg (List.drop run.dest.accepted.length) hdest
  rw [unsealed_eq] at hlocked hpayload hcontainer
  rw [List.drop_left' rfl] at hcontainer
  obtain hspent | ⟨hholds, hchannel⟩ := hpayload
  -- a payload without a number left could not have been closed
  · exact absurd hclose (hspent.close spool)
  · obtain ⟨hspool, hframes, hcomplete, hstorable⟩ := hholds.close hclose
    rw [hspool, hchannel] at hcontainer
    refine ⟨⟨rfl, hlength, hlocks, hlocked.sound⟩, hlocked, ?_, hcomplete, hstorable, hframes⟩
    rw [container, unsealed_eq]
    exact hcontainer

/-- **A destination that fails has taken a beginning of the container.** -/
theorem accepted_finish (dest : Sink) :
    ∃ q, q <+: run.container ∧
      { run.unsealed with dest }.finish.2.dest.accepted = dest.accepted ++ q := by
  obtain ⟨spool, hlocks, hclose, hdeliver⟩ := run.closed
  obtain ⟨-, hdest⟩ := Sealing.deliver_ok hdeliver
  have hfirst : run.unsealed.dest = run.dest := by rw [unsealed_eq]
  have hsuite : run.unsealed.smith = run.smith := by rw [unsealed_eq]
  rw [hfirst] at hdest
  have hcontainer : run.container = run.draft.header.sealed run.unsealed.smith.suite
      run.unsealed.version run.unsealed.flags run.draft.fmk ++ spool.accepted := by
    rw [container, hdest, List.drop_left' rfl]
  rw [hcontainer]
  rw [suite, ← hsuite] at hclose
  exact Sealing.accepted_finish (s := { run.unsealed with dest }) run.accepting hlocks hclose

end SealedRun

end Lockbox
