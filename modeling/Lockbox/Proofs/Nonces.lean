import Lockbox.Proofs.AllAtOnce
import Lockbox.Proofs.Handed
/-!
# Lockbox — nonces

A session hands frames to the cipher as long as it accepts, and it counts
them. A frame that was not written does not count, so that the next one
would bear the same number; but then the sink has failed, and with it the
session. Hence the number of frames handed over is the number of the next
one (`Counted`), up to the last number there is, and no nonce comes twice.

Only one thing is encrypted beside: the master key, once for each lock, under
the key of its recipient and with a nonce that is drawn for it
(`Locksmith.handedByWrap`).
-/

namespace Lockbox

open Payload

namespace Locksmith

variable {σ : Type} {m : Locksmith σ}
variable {encrypt : Octets 32 → Octets 24 → Bytes → Bytes → Bytes}

/-- The plaintext that is handed to the cipher for a lock, if a key for it
could be prepared. -/
def handedByWrap (m : Locksmith σ) (index : Nat) (r : Recipient) (fmk : Fmk) (w : World σ) :
    List Encryption :=
  match m.prepare ⟨index, r.type, r.label⟩ r w with
  | (.ok (key, _), w) => [⟨key, (w.entropy.draw 24).1, Lock.context r.type r.label, fmk.key.val⟩]
  | (.error _, _) => []

/-- The locksmith with another cipher. -/
def withCipher (encrypt : Octets 32 → Octets 24 → Bytes → Bytes → Bytes) (m : Locksmith σ) :
    Locksmith σ :=
  { m with suite := { m.suite with encrypt } }

/-- Nothing is encrypted to prepare a key. -/
theorem prepare_congr (info : LockInfo) (r : Recipient) :
    (m.withCipher encrypt).prepare info r = m.prepare info r := by
  cases r <;> rfl

/-- **A lock depends on the cipher by what is handed over for it.** -/
theorem wrap_congr {index : Nat} {r : Recipient} {fmk : Fmk} {w : World σ}
    (h : Answers m.suite encrypt (m.handedByWrap index r fmk w)) :
    (m.withCipher encrypt).wrap index r fmk w = m.wrap index r fmk w := by
  unfold handedByWrap at h
  simp only [wrap, Step.bind_apply, prepare_congr]
  rcases hprepare : m.prepare ⟨index, r.type, r.label⟩ r w with ⟨e | ⟨key, capsule⟩, w₁⟩
  · rfl
  · rw [hprepare] at h
    have hwrapped : encrypt key (w₁.entropy.draw 24).1 (Lock.context r.type r.label) fmk.key.val
        = m.suite.encrypt key (w₁.entropy.draw 24).1 (Lock.context r.type r.label) fmk.key.val :=
      h ⟨key, (w₁.entropy.draw 24).1, Lock.context r.type r.label, fmk.key.val⟩
        List.mem_cons_self
    exact congrArg (fun wrapped =>
      ((Except.ok ⟨index, r.label, (w₁.entropy.draw 24).1, wrapped, capsule⟩ : Except Error Lock),
        ({ w₁ with entropy := (w₁.entropy.draw 24).2 } : World σ))) hwrapped

end Locksmith

namespace Sealing

variable {σ : Type}

/-! ## The plaintexts of a run

For each call the plaintexts that it hands to the cipher are listed: under
the content key for the payload, and under the key of the recipient for the
lock. -/

/-- Plaintexts of the draft, if there is one. -/
def ofDraft (f : Draft → List Encryption) (s : Sealing σ) : List Encryption :=
  match s.stage with
  | .accepting draft => f draft
  | _ => []

/-- The plaintexts that a call hands to the cipher under the content key,
whether it succeeds or not. -/
def Call.handed : Call → Sealing σ → List Encryption
  | .begin, _ | .addRecipient _, _ => []
  | .addFile name size, s =>
    s.ofDraft fun d => d.payload.handedByDeclare s.smith.suite name size
  | .writeData data, s => s.ofDraft fun d => d.payload.handedByWrite s.smith.suite data
  | .finish, s =>
    s.ofDraft fun d => if d.locks = [] then [] else d.payload.handedByClose s.smith.suite

/-- The plaintext that a call hands to the cipher under the key of a lock. -/
def Call.wrapped : Call → Sealing σ → World σ → List Encryption
  | .addRecipient r, s, w =>
    s.ofDraft fun d => s.smith.handedByWrap d.locks.length r d.fmk w
  | _, _, _ => []

/-- The plaintexts of calls under the content key, in the order in which
they are handed over. -/
def handed : List Call → Sealing σ → World σ → List Encryption
  | [], _, _ => []
  | call :: calls, s, w => call.handed s ++ handed calls (call.next s w).1 (call.next s w).2

/-- The master key that a session draws. -/
def drawnFmk (w : World σ) : Fmk := ⟨(w.entropy.draw 32).1⟩

/-- The base nonce that a session draws. -/
def drawnNonce (w : World σ) : Octets 24 := ((w.entropy.draw 32).2.draw 24).1

theorem ofDraft_of_ne {s : Sealing σ} (h : s.stage.phase ≠ .accepting)
    (f : Draft → List Encryption) : s.ofDraft f = [] := by
  unfold ofDraft
  split
  · rename_i hstage
    exact absurd (congrArg Stage.phase hstage) h
  · rfl

/-- A call out of turn hands nothing over. -/
theorem Call.handed_of_ne {s : Sealing σ} {call : Call} (h : s.stage.phase ≠ call.phase) :
    call.handed s = [] := by
  cases call with
  | begin | addRecipient => rfl
  | addFile | writeData | finish => exact ofDraft_of_ne h _

/-! ## Nothing else is encrypted

The lists are complete. If another cipher gives the same for what is listed,
the call does the same with it, so it cannot have asked the cipher for
anything else. -/

/-- The session with another cipher. -/
def withCipher (encrypt : Octets 32 → Octets 24 → Bytes → Bytes → Bytes) (s : Sealing σ) :
    Sealing σ :=
  { s with smith := s.smith.withCipher encrypt }

section

variable {s : Sealing σ} {encrypt : Octets 32 → Octets 24 → Bytes → Bytes → Bytes}

/-- To begin encrypts nothing. -/
theorem begin_congr (w : World σ) : (s.withCipher encrypt).begin w
    = ((s.begin w).1, (s.begin w).2.1.withCipher encrypt, (s.begin w).2.2) := by
  have hstage' : (s.withCipher encrypt).stage = s.stage := rfl
  cases hstage : s.stage with
  | created =>
    rw [hstage] at hstage'
    simp only [Sealing.begin, hstage', hstage]
    rfl
  | _ =>
    rw [hstage] at hstage'
    simp only [Sealing.begin, hstage', hstage, refuse]

/-- To add a recipient encrypts the master key under the key of the lock, and
nothing else. -/
theorem addRecipient_congr {r : Recipient} {w : World σ}
    (h : Answers s.smith.suite encrypt ((Call.addRecipient r).wrapped s w)) :
    (s.withCipher encrypt).addRecipient r w = ((s.addRecipient r w).1,
      (s.addRecipient r w).2.1.withCipher encrypt, (s.addRecipient r w).2.2) := by
  have hstage' : (s.withCipher encrypt).stage = s.stage := rfl
  cases hstage : s.stage with
  | accepting draft =>
    simp only [Call.wrapped, ofDraft, hstage] at h
    rw [hstage] at hstage'
    have hwrap : (s.withCipher encrypt).smith.wrap draft.locks.length r draft.fmk w
        = s.smith.wrap draft.locks.length r draft.fmk w := Locksmith.wrap_congr h
    simp only [Sealing.addRecipient, hstage', hstage, hwrap]
    rcases s.smith.wrap draft.locks.length r draft.fmk w with ⟨e | lock, w₁⟩ <;> rfl
  | _ =>
    rw [hstage] at hstage'
    simp only [Sealing.addRecipient, hstage', hstage, refuse]

/-- Operations on the payload that agree for the draft agree for the session.
-/
theorem onPayload_congr {op : Operation} {f f' : Writer → Except Error Unit × Writer}
    (h : ∀ d, s.stage = .accepting d → f' d.payload = f d.payload) :
    (s.withCipher encrypt).onPayload op f'
      = ((s.onPayload op f).1, (s.onPayload op f).2.withCipher encrypt) := by
  cases hstage : s.stage with
  | accepting draft =>
    simp only [onPayload, withCipher, hstage, h draft hstage]
  | _ => simp only [onPayload, withCipher, hstage, refuse]

/-- To finish encrypts the last frame, and nothing of the head. -/
theorem finish_congr (h : Answers s.smith.suite encrypt (Call.finish.handed s)) :
    (s.withCipher encrypt).finish = (s.finish.1, s.finish.2.withCipher encrypt) := by
  cases hstage : s.stage with
  | accepting draft =>
    by_cases hlocks : draft.locks = []
    · simp only [Sealing.finish, withCipher, hstage, if_pos hlocks]
    · simp only [Call.handed, ofDraft, hstage, if_neg hlocks] at h
      have hstage' : (s.withCipher encrypt).stage = .accepting draft := hstage
      have hclose : draft.payload.close (s.withCipher encrypt).smith.suite
          = draft.payload.close s.smith.suite := Writer.close_congr h
      -- the head is authenticated, not encrypted
      have hdeliver : ∀ spool, (s.withCipher encrypt).deliver draft spool = s.deliver draft spool :=
        fun spool => rfl
      simp only [Sealing.finish, hstage', hstage, if_neg hlocks, hclose, hdeliver]
      cases draft.payload.checkComplete with
      | error e => rfl
      | ok u =>
        cases draft.payload.close s.smith.suite with
        | error e => rfl
        | ok spool =>
          dsimp only
          rcases s.deliver draft spool with ⟨e | u, dest⟩
          · rfl
          · rfl
  | failed cause => cases cause <;> simp only [Sealing.finish, withCipher, hstage, refuse]
  | _ => simp only [Sealing.finish, withCipher, hstage, refuse]

/-- **What a session does depends on the cipher by what is handed to it.** -/
theorem Call.next_congr {call : Call} {w : World σ}
    (h : Answers s.smith.suite encrypt (call.handed s ++ call.wrapped s w)) :
    call.answer (s.withCipher encrypt) w = call.answer s w ∧
      call.next (s.withCipher encrypt) w
        = ((call.next s w).1.withCipher encrypt, (call.next s w).2) := by
  have hpair : ∀ {r : Except Error Unit × Sealing σ} {a : Except Error Unit} {s' : Sealing σ},
      r = (a, s'.withCipher encrypt) → r.1 = a ∧ (r.2, w) = (s'.withCipher encrypt, w) := by
    rintro r a s' rfl
    exact ⟨rfl, rfl⟩
  have hhanded : Answers s.smith.suite encrypt (call.handed s) :=
    fun e he => h e (List.mem_append_left _ he)
  cases call with
  | begin =>
    have hbegin : (s.withCipher encrypt).begin w = _ := begin_congr w
    have hanswer := congrArg Prod.fst hbegin
    have hnext := congrArg Prod.snd hbegin
    exact ⟨hanswer, hnext⟩
  | addRecipient r =>
    have hadd := addRecipient_congr (w := w) h
    have hanswer := congrArg (fun x => x.1.map fun _ => ()) hadd
    have hnext := congrArg Prod.snd hadd
    exact ⟨hanswer, hnext⟩
  | addFile name size =>
    refine hpair (onPayload_congr fun d hd => Writer.declare_congr ?_)
    simp only [Call.handed, ofDraft, hd] at hhanded
    exact hhanded
  | writeData data =>
    refine hpair (onPayload_congr fun d hd => Writer.write_congr ?_)
    simp only [Call.handed, ofDraft, hd] at hhanded
    exact hhanded
  | finish => exact hpair (finish_congr hhanded)

end

/-! ## Counting

The number of plaintexts that were handed over is the number of the next
frame, as long as the session accepts. A frame that is not written breaks
that, but then the session has ended. -/

/-- A draft with the master key and the base nonce that were drawn, and with
the number of the next frame, `n` being handed over. -/
structure Draft.Counts (S : Suite) (master : Fmk) (first : Octets 24) (n : Nat) (d : Draft) :
    Prop where
  fmk : d.fmk = master
  nonce : d.payloadNonce = first
  key : d.payload.channel.key = master.contentKey S
  base : d.payload.channel.base = first
  counter : d.payload.counter = Writer.number n

/-- A session that began as `start` in this world and has handed over `n`
frames. -/
structure Counted (start : Sealing σ) (world : World σ) (n : Nat) (s : Sealing σ) (w : World σ) :
    Prop where
  smith : s.smith = start.smith
  created : s.stage = .created → n = 0 ∧ w = world
  draft : ∀ d, s.stage = .accepting d →
    d.Counts start.smith.suite (drawnFmk world) (drawnNonce world) n

/-- Encryptions under the key and the base nonce that were drawn. -/
abbrev Drawn (start : Sealing σ) (world : World σ) (n : Nat) (handed : List Encryption) : Prop :=
  Writer.Numbered ((drawnFmk world).contentKey start.smith.suite) (drawnNonce world) n handed

variable {start s : Sealing σ} {world w : World σ} {n : Nat}

theorem counted_start (hcreated : start.stage = .created) : Counted start world 0 start world where
  smith := rfl
  created _ := ⟨rfl, rfl⟩
  draft d hd := by
    rw [hcreated] at hd
    exact absurd hd (by simp)

/-- A session that accepts no more has no next frame. -/
theorem Counted.ended (h : Counted start world n s w) {s' : Sealing σ} {m : Nat} {w' : World σ}
    (hsmith : s'.smith = s.smith) (hcreated : s'.stage ≠ .created)
    (hended : ∀ d, s'.stage ≠ .accepting d) : Counted start world m s' w' where
  smith := hsmith.trans h.smith
  created hc := absurd hc hcreated
  draft d hd := absurd hd (hended d)

/-- A session that goes on with a draft. -/
theorem Counted.goOn (h : Counted start world n s w) {d : Draft} {m : Nat} {w' : World σ}
    (hd : d.Counts start.smith.suite (drawnFmk world) (drawnNonce world) m) :
    Counted start world m { s with stage := .accepting d } w' where
  smith := h.smith
  created hc := absurd hc (by simp)
  draft d' hd' := by
    cases hd'
    exact hd

/-- To begin draws the master key and the base nonce, and counts from zero. -/
theorem Counted.begin (h : Counted start world n s w) :
    Counted start world n (s.begin w).2.1 (s.begin w).2.2 := by
  unfold Sealing.begin
  split
  · rename_i hstage
    obtain ⟨rfl, rfl⟩ := h.created hstage
    refine h.goOn ⟨rfl, rfl, ?_, rfl, rfl⟩
    show (drawnFmk w).contentKey s.smith.suite = _
    rw [h.smith]
  · exact h

/-- A recipient costs no number: the lock has a nonce of its own. -/
theorem Counted.addRecipient (h : Counted start world n s w) (r : Recipient) :
    Counted start world n (s.addRecipient r w).2.1 (s.addRecipient r w).2.2 := by
  cases hstage : s.stage with
  | accepting draft =>
    obtain ⟨hfmk, hnonce, hkey, hbase, hcounter⟩ := h.draft draft hstage
    simp only [Sealing.addRecipient, hstage]
    rcases s.smith.wrap draft.locks.length r draft.fmk w with ⟨e | lock, w'⟩
    · refine ⟨h.smith, fun hc => ?_, h.draft⟩
      rw [hstage] at hc
      exact absurd hc (by simp)
    · exact h.goOn ⟨hfmk, hnonce, hkey, hbase, hcounter⟩
  | created | sealed | failed =>
    simp only [Sealing.addRecipient, hstage]
    exact h

/-- **An operation on the payload hands over the next numbers,** and unless
it ends the session, the number that follows them is next. -/
theorem Counted.onPayload (h : Counted start world n s w) (op : Operation)
    {f : Writer → Except Error Unit × Writer} {g : Writer → List Encryption}
    (hf : ∀ {w : Writer} {n : Nat}, w.counter = Writer.number n → Writer.Tally n w (g w) (f w)) :
    Drawn start world n (s.ofDraft fun d => g d.payload) ∧
      Counted start world (n + (s.ofDraft fun d => g d.payload).length) (s.onPayload op f).2 w := by
  cases hstage : s.stage with
  | accepting draft =>
    obtain ⟨hfmk, hnonce, hkey, hbase, hcounter⟩ := h.draft draft hstage
    obtain ⟨hnumbered, hchannel, hnext⟩ := hf hcounter
    rw [hkey, hbase] at hnumbered
    simp only [ofDraft, Sealing.onPayload, hstage]
    refine ⟨hnumbered, ?_⟩
    rcases hresult : f draft.payload with ⟨result, payload⟩
    rw [hresult] at hchannel hnext
    obtain ⟨cause, hends⟩ | ⟨hlasts, hlasting⟩ := Stage.after_cases { draft with payload } result
    · refine h.ended rfl ?_ fun d => ?_
      · rw [hends]
        simp
      · rw [hends]
        simp
    · -- the session goes on, so its sink did not fail
      rw [hlasts]
      exact h.goOn ⟨hfmk, hnonce, (congrArg Channel.key hchannel).trans hkey,
        (congrArg Channel.base hchannel).trans hbase, hnext fun _ hio => hlasting _ hio trivial⟩
  | created | sealed | failed =>
    simp only [ofDraft, Sealing.onPayload, hstage]
    exact ⟨trivial, h⟩

/-- A session that accepts has ended once it was told to finish. -/
theorem stage_finish {draft : Draft} (h : s.stage = .accepting draft) :
    s.finish.2.stage = .sealed ∨ ∃ cause, s.finish.2.stage = .failed cause := by
  rcases hanswer : s.finish.1 with e | u
  · obtain ⟨hfailed, -⟩ := finish_error h (Prod.ext hanswer rfl)
    exact .inr ⟨_, hfailed⟩
  · exact .inl (sealed_of_finish hanswer)

/-- To finish gives away the numbers of the frames that it hands over. -/
theorem Counted.finish (h : Counted start world n s w) :
    Drawn start world n (Call.finish.handed s) ∧
      Counted start world (n + (Call.finish.handed s).length) s.finish.2 w := by
  cases hstage : s.stage with
  | accepting draft =>
    obtain ⟨-, -, hkey, hbase, hcounter⟩ := h.draft draft hstage
    constructor
    · have hclose := Writer.numbered_close (S := s.smith.suite) hcounter
      rw [hkey, hbase] at hclose
      simp only [Call.handed, ofDraft, hstage]
      split
      · trivial
      · exact hclose
    · obtain hsealed | ⟨cause, hfailed⟩ := stage_finish hstage
      · exact h.ended (smith_finish s) (by simp [hsealed]) (by simp [hsealed])
      · exact h.ended (smith_finish s) (by simp [hfailed]) (by simp [hfailed])
  | _ =>
    have hturn : s.stage.phase ≠ .accepting := by simp [hstage, Stage.phase]
    have hnext : Call.finish.next s w = (s, w) := Call.next_of_ne hturn w
    have hfinish : s.finish.2 = s := congrArg Prod.fst hnext
    rw [hfinish, Call.handed_of_ne hturn]
    exact ⟨trivial, h⟩

/-- **A call hands over the next numbers.** -/
theorem Counted.next (h : Counted start world n s w) (call : Call) :
    Drawn start world n (call.handed s) ∧
      Counted start world (n + (call.handed s).length) (call.next s w).1 (call.next s w).2 := by
  cases call with
  | begin => exact ⟨trivial, h.begin⟩
  | addRecipient r => exact ⟨trivial, h.addRecipient r⟩
  | addFile name size =>
    exact h.onPayload .addFile fun hcounter => Writer.tally_declare hcounter name size
  | writeData data => exact h.onPayload .writeData fun hcounter => Writer.tally_write hcounter data
  | finish => exact h.finish

/-- **And so do all calls of a run.** -/
theorem Counted.run (calls : List Call) (h : Counted start world n s w) :
    Drawn start world n (handed calls s w) ∧
      Counted start world (n + (handed calls s w).length) (played calls s w).1
        (played calls s w).2 := by
  induction calls generalizing n s w with
  | nil => exact ⟨trivial, h⟩
  | cons call calls ih =>
    obtain ⟨hfirst, hnext⟩ := h.next call
    obtain ⟨hrest, hend⟩ := ih hnext
    refine ⟨Writer.numbered_append.mpr ⟨hfirst, hrest⟩, ?_⟩
    rw [handed, List.length_append, ← Nat.add_assoc]
    exact hend

end Sealing

/-- Frames with different numbers have different nonces, as long as there
are numbers. -/
theorem Payload.Writer.Numbered.nodup {key : Octets 32} {base : Octets 24}
    {handed : List Encryption} (h : Writer.Numbered key base 0 handed)
    (hlength : handed.length ≤ UInt64.size) : (handed.map Encryption.nonce).Nodup := by
  refine List.pairwise_iff_getElem.mpr fun i j hi hj hlt heq => ?_
  rw [List.length_map] at hi hj
  rw [List.getElem_map, List.getElem_map] at heq
  have hnonce : ∀ k (hk : k < handed.length), handed[k].nonce = Channel.nonce base k := by
    intro k hk
    have hget : handed[k]? = some handed[k] := List.getElem?_eq_getElem hk
    rw [(h.getElem? hget).2, Nat.zero_add]
    congr 1
    unfold Writer.number
    omega
  rw [hnonce i hi, hnonce j hj] at heq
  have hsame := Channel.nonce_injective (by omega) (by omega) heq
  omega

open Sealing in
/-- **No nonce is used twice.** Whatever a session is told, and whatever
fails, there are one master key and one base nonce that all its drafts have;
the `k`-th plaintext that is handed to the cipher comes with the content key
and with the base nonce, `k` added into its last eight bytes without carry;
and as long as no more frames are handed over than there are numbers, no two
of them share their nonce. Nothing is handed over beside but the master key
for each lock, under the key that its recipient is given: a cipher that
answers these plaintexts alike changes nothing of what a call does. -/
theorem nonces_never_reused {σ : Type} {smith : Locksmith σ} {version : UInt8} {spool dest : Sink}
    {start : Sealing σ} (hcreate : create smith version spool dest = .ok start) (world : World σ)
    (acts : List Act) :
    played (spelled acts start world) start world = acted acts start world ∧
    ∃ (fmk : Fmk) (base : Octets 24),
      (∀ calls draft, (played calls start world).1.stage = .accepting draft →
        draft.fmk = fmk ∧ draft.payloadNonce = base) ∧
      (∀ k e, k < UInt64.size → (handed (spelled acts start world) start world)[k]? = some e →
        e.key = fmk.contentKey smith.suite ∧
        e.nonce.val = base.val.take 16 ++ Bytes.xor (base.val.drop 16) (Bytes.ofNat 8 k)) ∧
      ((handed (spelled acts start world) start world).length ≤ UInt64.size →
        ((handed (spelled acts start world) start world).map Encryption.nonce).Nodup) ∧
      ∀ (s : Sealing σ) (w : World σ) (call : Call)
        (encrypt : Octets 32 → Octets 24 → Bytes → Bytes → Bytes),
        Answers s.smith.suite encrypt (call.handed s ++ call.wrapped s w) →
          call.answer (s.withCipher encrypt) w = call.answer s w ∧
            call.next (s.withCipher encrypt) w
              = ((call.next s w).1.withCipher encrypt, (call.next s w).2) := by
  have hstart : Counted start world 0 start world := counted_start (by rw [create_ok hcreate])
  have hsmith : start.smith = smith := by rw [create_ok hcreate]
  obtain ⟨hnumbered, -⟩ := hstart.run (spelled acts start world)
  refine ⟨played_spelled acts start world, drawnFmk world, drawnNonce world,
    fun calls draft hdraft => ?_, fun k e hk he => ?_, hnumbered.nodup,
    fun s w call encrypt hanswers => Call.next_congr hanswers⟩
  · obtain ⟨-, hcounted⟩ := hstart.run calls
    obtain ⟨hfmk, hnonce, -⟩ := hcounted.draft draft hdraft
    exact ⟨hfmk, hnonce⟩
  · obtain ⟨hkey, hnonce⟩ := hnumbered.getElem? he
    have hnumber : Writer.number (0 + k) = k := by
      unfold Writer.number
      omega
    rw [hsmith] at hkey
    rw [hnumber] at hnonce
    exact ⟨hkey, congrArg Subtype.val hnonce⟩

open Sealing in
/-- A spool with room for three bytes fails at the first frame, and the
second is not handed over any more. -/
theorem narrowSpool_nonces_never_reused :
    ∃ (start : Sealing Unit) (e : Encryption) (fmk : Fmk) (base : Octets 24),
      create (.plain [1]) 2 (.limited 3) .unlimited = .ok start ∧
      handed (spelled [.single .begin, .single (.addFile "one" 1), .single (.addFile "two" 1)]
        start ⟨.splitMix 1, ()⟩) start ⟨.splitMix 1, ()⟩ = [e] ∧
      e.key = fmk.contentKey .plain ∧
      e.nonce.val = base.val.take 16 ++ Bytes.xor (base.val.drop 16) (Bytes.ofNat 8 0) := by
  -- what is drawn does not matter
  generalize (⟨.splitMix 1, ()⟩ : World Unit) = world
  obtain ⟨start, hcreate⟩ : ∃ start,
      create (σ := Unit) (.plain [1]) 2 (.limited 3) .unlimited = .ok start := ⟨_, rfl⟩
  obtain ⟨e, he⟩ : ∃ e, handed (spelled [.single .begin, .single (.addFile "one" 1),
      .single (.addFile "two" 1)] start world) start world = [e] := by
    cases hcreate
    exact ⟨_, rfl⟩
  obtain ⟨-, fmk, base, -, hnonces, -, -⟩ := nonces_never_reused hcreate world
    [.single .begin, .single (.addFile "one" 1), .single (.addFile "two" 1)]
  obtain ⟨hkey, hnonce⟩ := hnonces 0 e (by decide) (by rw [he]; rfl)
  exact ⟨start, e, fmk, base, hcreate, he, hkey, hnonce⟩

end Lockbox
