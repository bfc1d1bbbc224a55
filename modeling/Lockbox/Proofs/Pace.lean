import Lockbox.Proofs.AllAtOnce
import Lockbox.Proofs.Opened
import Lockbox.Proofs.Requests
/-!
# Lockbox — the pace of a source

Two sources that deliver the same bytes may cut them into pieces as they
like, and interrupt the reads as often as they like: a session that reads
from the one and a session that reads from the other stand beside each
other after every act, and **reading is independent of how a source
delivers its bytes** (`reading_independent_of_delivery`). The two runs are
compared read by read. Each layer of the reading says of two states beside
each other that it answers the same and leaves two states beside each
other; whatever a source is asked for is answered from its contents
(`Source.Agrees.takeExactly`, `Source.Agrees.read_one`).
-/

namespace Lockbox

namespace Source

/-- No read of either source fails, and they deliver the same bytes. -/
structure Agrees (s₁ s₂ : Source) : Prop where
  steady₁ : s₁.Steady
  steady₂ : s₂.Steady
  contents : s₁.contents = s₂.contents

variable {s₁ s₂ : Source}

/-- Sources that are used up agree. -/
theorem agrees_nil : Agrees [] [] :=
  ⟨fun _ => List.not_mem_nil, fun _ => List.not_mem_nil, rfl⟩

/-- **Bytes that are asked for are the same from both,** or both are too short;
and what is left agrees again. -/
theorem Agrees.takeExactly (h : s₁.Agrees s₂) (n : Nat) :
    ∃ t₁ t₂, t₁.Agrees t₂ ∧
      ((∃ b, s₁.takeExactly n = (.got b, t₁) ∧ s₂.takeExactly n = (.got b, t₂)) ∨
        (s₁.takeExactly n = (.ended, t₁) ∧ s₂.takeExactly n = (.ended, t₂))) := by
  obtain hlt | hle := Nat.lt_or_ge s₁.contents.length n
  · exact ⟨[], [], agrees_nil,
      .inr ⟨takeExactly_of_lt h.steady₁ hlt, takeExactly_of_lt h.steady₂ (h.contents ▸ hlt)⟩⟩
  · obtain ⟨t₁, h₁, hsteady₁, hrest₁⟩ := takeExactly_of_le h.steady₁ hle
    obtain ⟨t₂, h₂, hsteady₂, hrest₂⟩ := takeExactly_of_le h.steady₂ (h.contents ▸ hle)
    rw [← h.contents] at h₂ hrest₂
    exact ⟨t₁, t₂, ⟨hsteady₁, hsteady₂, hrest₁.trans hrest₂.symm⟩, .inl ⟨_, h₁, h₂⟩⟩

/-- A read of one byte answers the first byte there is, in whatever piece
it comes and after however many interruptions. -/
theorem read_one (h : s₁.Steady) :
    (s₁.contents = [] ∧ s₁.read 1 = (.ended, [])) ∨
      ∃ c rest t, s₁.contents = c :: rest ∧ s₁.read 1 = (.got [c], t) ∧ t.Steady ∧
        t.contents = rest := by
  -- over the events that deliver nothing: empty pieces and interruptions are read past
  fun_induction Source.read 1 s₁ with
  | case1 => exact .inl ⟨rfl, rfl⟩
  | case2 rest ih => exact ih h.tail
  | case3 e rest => exact absurd List.mem_cons_self (h e)
  | case4 rest ih => exact ih h.tail
  | case5 c b rest =>
    exact .inr ⟨c, b ++ Source.contents rest, _, rfl, rfl, h.tail.cons_bytes b, rfl⟩

/-- And so is a single byte. -/
theorem Agrees.read_one (h : s₁.Agrees s₂) :
    ∃ t₁ t₂, t₁.Agrees t₂ ∧
      ((∃ b, s₁.read 1 = (.got b, t₁) ∧ s₂.read 1 = (.got b, t₂)) ∨
        (s₁.read 1 = (.ended, t₁) ∧ s₂.read 1 = (.ended, t₂))) := by
  obtain ⟨hnone₁, h₁⟩ | ⟨c, rest, t₁, hc₁, h₁, hsteady₁, hrest₁⟩ := Source.read_one h.steady₁ <;>
    obtain ⟨hnone₂, h₂⟩ | ⟨d, rest', t₂, hc₂, h₂, hsteady₂, hrest₂⟩ := Source.read_one h.steady₂
  · exact ⟨[], [], agrees_nil, .inr ⟨h₁, h₂⟩⟩
  · simp [h.contents, hc₂] at hnone₁
  · simp [← h.contents, hc₁] at hnone₂
  · obtain ⟨rfl, rfl⟩ := List.cons.inj (hc₁.symm.trans (h.contents.trans hc₂))
    exact ⟨t₁, t₂, ⟨hsteady₁, hsteady₂, hrest₁.trans hrest₂.symm⟩, .inl ⟨_, h₁, h₂⟩⟩

end Source

namespace Payload.Reader

/-! ## Readers

Two readers are compared that have the same bytes before them, cut
differently. Every operation takes the same from both, so whether a piece
ends here or there shows nowhere. -/

/-- Two readers that differ in how their sources deliver the same bytes. -/
def Beside (r₁ r₂ : Reader) : Prop :=
  ∃ source, r₁.source.Agrees source ∧ r₂ = { r₁ with source := source }

variable {γ : Type} {r₁ r₂ : Reader}

/-- Readers beside each other take the same bytes. -/
theorem Beside.take (h : r₁.Beside r₂) (n : Nat) :
    Alike Beside (r₁.take n) (r₂.take n) := by
  obtain ⟨source, hagree, rfl⟩ := h
  obtain ⟨t₁, t₂, hagree, ⟨b, h₁, h₂⟩ | ⟨h₁, h₂⟩⟩ := hagree.takeExactly n <;>
    simp only [Reader.take, h₁, h₂]
  · exact ⟨_, _, _, rfl, rfl, t₂, hagree, rfl⟩
  · exact ⟨_, _, _, rfl, rfl, t₂, hagree, rfl⟩

/-- So they read the same frame, or fail by the same fault of it. -/
theorem Beside.readFrame (h : r₁.Beside r₂) (S : Suite) :
    Alike Beside (r₁.readFrame S) (r₂.readFrame S) := by
  obtain ⟨written, r₁', r₂', h₁, h₂, h⟩ := h.take 4
  simp only [Reader.readFrame, h₁, h₂]
  rcases written with e | written
  · exact ⟨_, _, _, rfl, rfl, h⟩
  dsimp only
  split
  · obtain ⟨source, hagree, rfl⟩ := h
    exact ⟨_, _, _, rfl, rfl, source, hagree, rfl⟩
  obtain ⟨sealed, r₁'', r₂'', h₁, h₂, h⟩ := h.take (Bytes.toNat written)
  simp only [h₁, h₂]
  rcases sealed with e | sealed
  · exact ⟨_, _, _, rfl, rfl, h⟩
  obtain ⟨source, hagree, rfl⟩ := h
  dsimp only
  split
  · exact ⟨_, _, _, rfl, rfl, source, hagree, rfl⟩
  · exact ⟨_, _, _, rfl, rfl, source, hagree, rfl⟩

/-- They find the same behind the last frame. -/
theorem Beside.checkTrailing (h : r₁.Beside r₂) :
    Alike Beside r₁.checkTrailing r₂.checkTrailing := by
  obtain ⟨source, hagree, rfl⟩ := h
  obtain ⟨t₁, t₂, hagree, ⟨b, h₁, h₂⟩ | ⟨h₁, h₂⟩⟩ := hagree.read_one <;>
    simp only [Reader.checkTrailing, h₁, h₂]
  · split
    · exact ⟨_, _, _, rfl, rfl, t₂, hagree, rfl⟩
    · exact ⟨_, _, _, rfl, rfl, t₂, hagree, rfl⟩
  · exact ⟨_, _, _, rfl, rfl, t₂, hagree, rfl⟩

/-- They go to the same entry. -/
theorem Beside.advance (h : r₁.Beside r₂) (S : Suite) :
    Alike Beside (r₁.advance S) (r₂.advance S) := by
  obtain ⟨frame, r₁', r₂', h₁, h₂, h⟩ := h.readFrame S
  simp only [Reader.advance, h₁, h₂]
  obtain e | ⟨name, size⟩ | chunk | _ := frame
  · exact ⟨_, _, _, rfl, rfl, h⟩
  · obtain ⟨source, hagree, rfl⟩ := h
    exact ⟨_, _, _, rfl, rfl, source, hagree, rfl⟩
  · obtain ⟨source, hagree, rfl⟩ := h
    exact ⟨_, _, _, rfl, rfl, source, hagree, rfl⟩
  · obtain ⟨result, r₁'', r₂'', h₁, h₂, h⟩ := h.checkTrailing
    simp only [h₁, h₂]
    cases result with
    | error e => exact ⟨_, _, _, rfl, rfl, h⟩
    | ok u =>
      obtain ⟨source, hagree, rfl⟩ := h
      exact ⟨_, _, _, rfl, rfl, source, hagree, rfl⟩

/-- They answer a request for the next entry alike. -/
theorem Beside.next (h : r₁.Beside r₂) (S : Suite) :
    Alike Beside (r₁.next S) (r₂.next S) := by
  have hadvance := h.advance S
  obtain ⟨source, hagree, rfl⟩ := h
  rw [Reader.next, Reader.next]
  dsimp only
  split
  · exact ⟨_, _, _, rfl, rfl, source, hagree, rfl⟩
  · split
    · exact ⟨_, _, _, rfl, rfl, source, hagree, rfl⟩
    · exact ⟨_, _, _, rfl, rfl, source, hagree, rfl⟩
    all_goals exact hadvance

/-- Frame by frame, a sink is given the same. -/
theorem Beside.pour (h : r₁.Beside r₂) (S : Suite) (info : FileInfo) (remaining : Nat)
    (sink : Sink) :
    ∃ result r₁' r₂' sink', Reader.pour S info remaining r₁ sink = (result, r₁', sink') ∧
      Reader.pour S info remaining r₂ sink = (result, r₂', sink') ∧ r₁'.Beside r₂' := by
  induction remaining using Nat.strongRecOn generalizing r₁ r₂ sink with
  | _ remaining ih =>
    unfold Reader.pour
    split
    · exact ⟨_, _, _, _, rfl, rfl, h⟩
    obtain ⟨frame, r₁', r₂', h₁, h₂, h⟩ := h.readFrame S
    simp only [h₁, h₂]
    obtain e | ⟨name, size⟩ | chunk | _ := frame
    · exact ⟨_, _, _, _, rfl, rfl, h⟩
    · obtain ⟨source, hagree, rfl⟩ := h
      exact ⟨_, _, _, _, rfl, rfl, source, hagree, rfl⟩
    · obtain ⟨source, hagree, rfl⟩ := h
      dsimp only
      split
      · exact ⟨_, _, _, _, rfl, rfl, source, hagree, rfl⟩
      · rcases sink.write chunk.val with ⟨e | u, sink'⟩
        · exact ⟨_, _, _, _, rfl, rfl, source, hagree, rfl⟩
        · have := chunk.property.1
          have hless : remaining - chunk.val.length < remaining := by omega
          have hbeside :
              Beside { r₁' with cursor := .pending info (remaining - chunk.val.length) } _ :=
            ⟨source, hagree, rfl⟩
          exact ih _ hless hbeside sink'
    · obtain ⟨source, hagree, rfl⟩ := h
      exact ⟨_, _, _, _, rfl, rfl, source, hagree, rfl⟩

/-- They offer a sink the same, and so it does the same. -/
theorem Beside.readInto (h : r₁.Beside r₂) (S : Suite) (sink : Sink) :
    ∃ result r₁' r₂' sink', r₁.readInto S sink = (result, r₁', sink') ∧
      r₂.readInto S sink = (result, r₂', sink') ∧ r₁'.Beside r₂' := by
  have hpour := fun info remaining => h.pour S info remaining sink
  obtain ⟨source, hagree, rfl⟩ := h
  rw [Reader.readInto, Reader.readInto]
  dsimp only
  split
  · exact ⟨_, _, _, _, rfl, rfl, source, hagree, rfl⟩
  split
  · exact ⟨_, _, _, _, rfl, rfl, source, hagree, rfl⟩
  · exact ⟨_, _, _, _, rfl, rfl, source, hagree, rfl⟩
  · exact ⟨_, _, _, _, rfl, rfl, source, hagree, rfl⟩
  · rename_i info remaining _
    split
    · exact ⟨_, _, _, _, rfl, rfl, source, hagree, rfl⟩
    obtain ⟨result, r₁', r₂', sink', h₁, h₂, source, hagree, rfl⟩ := hpour info remaining
    simp only [h₁, h₂]
    cases result with
    | error e => exact ⟨_, _, _, _, rfl, rfl, source, hagree, rfl⟩
    | ok u =>
      dsimp only
      split
      · exact ⟨_, _, _, _, rfl, rfl, source, hagree, rfl⟩
      · exact ⟨_, _, _, _, rfl, rfl, source, hagree, rfl⟩

/-- A consumer is passed the same entries. -/
theorem Beside.drain (h : r₁.Beside r₂) (S : Suite) (consumer : Consumer γ) (count : Nat) (c : γ) :
    ∃ result r₁' r₂' c', Opening.drain S consumer count r₁ c = (result, r₁', c') ∧
      Opening.drain S consumer count r₂ c = (result, r₂', c') ∧ r₁'.Beside r₂' := by
  -- on the weight of the first source, which each entry makes less; the other reader
  -- follows along
  induction hweight : r₁.source.weight using Nat.strongRecOn
    generalizing r₁ r₂ count c with
  | _ weight ih =>
    obtain ⟨result, r₁', r₂', h₁, h₂, h'⟩ := h.next S
    obtain e | _ | info := result
    · exact ⟨_, _, _, _, Opening.drain_error count h₁, Opening.drain_error count h₂, h'⟩
    · exact ⟨_, _, _, _, Opening.drain_none count h₁, Opening.drain_none count h₂, h'⟩
    rcases hopen : consumer.openEntry info c with ⟨e | sink, c'⟩
    · exact ⟨_, _, _, _, Opening.drain_unopened count h₁ hopen,
        Opening.drain_unopened count h₂ hopen, h'⟩
    obtain ⟨read, r₁'', r₂'', sink', hread₁, hread₂, h''⟩ := h'.readInto S sink
    rw [Opening.drain_some count h₁ hopen, Opening.drain_some count h₂ hopen, hread₁, hread₂]
    rcases read with e | size
    · exact ⟨_, _, _, _, rfl, rfl, h''⟩
    dsimp only
    rcases consumer.closeEntry info sink' c' with ⟨e | u, c''⟩
    · exact ⟨_, _, _, _, rfl, rfl, h''⟩
    · have hle := weight_readInto_le S r₁' sink
      rw [hread₁] at hle
      have hless : r₁''.source.weight < weight := by
        rw [← hweight]
        exact Nat.lt_of_le_of_lt hle (weight_next_lt h₁)
      exact ih _ hless h'' _ _ rfl

end Payload.Reader

namespace ParsedHeader

/-- A part of the head is read from both sources, or from neither. -/
theorem take_agrees {s₁ s₂ : Source} (h : s₁.Agrees s₂) (part : HeadPart) (n : Nat) :
    Alike Source.Agrees (take part n s₁) (take part n s₂) := by
  obtain ⟨t₁, t₂, hagree, ⟨b, h₁, h₂⟩ | ⟨h₁, h₂⟩⟩ := h.takeExactly n <;>
    simp only [take, h₁, h₂] <;>
    exact ⟨_, _, _, rfl, rfl, hagree⟩

/-- **The heads that two sources show are the same,** and the payloads behind
them agree. A head is read part by part, and each part may be the one at which
both reads fail. -/
theorem read_agrees {s₁ s₂ : Source} (h : s₁.Agrees s₂) (lenient : Bool) :
    Alike Source.Agrees (read lenient s₁) (read lenient s₂) := by
  obtain ⟨preamble, t₁, t₂, h₁, h₂, h⟩ := take_agrees h .preamble preambleLength
  simp only [read, h₁, h₂]
  rcases preamble with e | preamble
  · exact ⟨_, _, _, rfl, rfl, h⟩
  dsimp only
  rcases readPreamble preamble with e | ⟨version, flags, length⟩
  · exact ⟨_, _, _, rfl, rfl, h⟩
  obtain ⟨json, t₁, t₂, h₁, h₂, h⟩ := take_agrees h .header length
  simp only [h₁, h₂]
  rcases json with e | json
  · exact ⟨_, _, _, rfl, rfl, h⟩
  obtain ⟨mac, t₁, t₂, h₁, h₂, h⟩ := take_agrees h .mac 32
  simp only [h₁, h₂]
  rcases mac with e | mac
  · exact ⟨_, _, _, rfl, rfl, h⟩
  dsimp only
  split
  · exact ⟨_, _, _, rfl, rfl, h⟩
  · exact ⟨_, _, _, rfl, rfl, h⟩

end ParsedHeader

namespace Opening

variable {σ γ : Type} {s₁ s₂ : Opening σ}

/-! ## Sessions

The relation is carried through the stages of a session; in each of them at
most one source is left. -/

/-- Two stages that differ in how their sources deliver the same bytes. -/
inductive Stage.Beside : Stage → Stage → Prop where
  | locksParsed {t₁ t₂ : Source} (h : t₁.Agrees t₂) : Beside (.locksParsed t₁) (.locksParsed t₂)
  | fmkObtained {t₁ t₂ : Source} (h : t₁.Agrees t₂) : Beside (.fmkObtained t₁) (.fmkObtained t₂)
  | decrypting {fmk : Fmk} {r₁ r₂ : Payload.Reader} (h : r₁.Beside r₂) :
    Beside (.decrypting fmk r₁) (.decrypting fmk r₂)
  | finished {complete : Bool} : Beside (.finished complete) (.finished complete)
  | poisoned : Beside .poisoned .poisoned

/-- Stages beside each other show the same phase. -/
theorem Stage.Beside.phase {a b : Stage} (h : a.Beside b) : a.phase = b.phase := by
  cases h <;> rfl

/-- Where one session reads with a key, the other one does, with the same. -/
theorem Stage.Beside.of_decrypting {a b : Stage} (h : a.Beside b) {fmk : Fmk}
    {r₁ : Payload.Reader} (ha : a = .decrypting fmk r₁) :
    ∃ r₂, b = .decrypting fmk r₂ ∧ r₁.Beside r₂ := by
  subst ha
  cases h with
  | decrypting h => exact ⟨_, rfl, h⟩

/-- Both have their payloads before them, or neither has. -/
theorem Stage.Beside.untouched {a b : Stage} (h : a.Beside b) :
    (a.untouched? = none ∧ b.untouched? = none) ∨
      ∃ t₁ t₂, a.untouched? = some t₁ ∧ b.untouched? = some t₂ ∧ t₁.Agrees t₂ := by
  cases h with
  | locksParsed h | fmkObtained h => exact .inr ⟨_, _, rfl, rfl, h⟩
  | decrypting | finished | poisoned => exact .inl ⟨rfl, rfl⟩

/-- Two sessions that differ in how their sources deliver the same bytes. -/
def Beside (s₁ s₂ : Opening σ) : Prop :=
  ∃ stage, s₁.stage.Beside stage ∧ s₂ = { s₁ with stage := stage }

/-- An attempt with a lock comes out the same: the lock is one of the same
head, and the payload is not read for it. -/
theorem Beside.getFmk (h : s₁.Beside s₂) (index : Nat) (w : World σ) :
    ∃ result s₁' s₂' w', s₁.getFmk index w = (result, s₁', w') ∧
      s₂.getFmk index w = (result, s₂', w') ∧ s₁'.Beside s₂' := by
  obtain ⟨stage, hstage, rfl⟩ := h
  have hphase := hstage.phase
  obtain ⟨hnone₁, hnone₂⟩ | ⟨t₁, t₂, ht₁, ht₂, hagree⟩ := hstage.untouched
  · simp only [Opening.getFmk, hnone₁, hnone₂, refuse, hphase]
    exact ⟨_, _, _, _, rfl, rfl, stage, hstage, rfl⟩
  simp only [Opening.getFmk, ht₁, ht₂]
  rw [noteFmk_eq ht₁, noteFmk_eq (s := { s₁ with stage := stage }) ht₂]
  rcases s₁.header.lock? index with _ | lock
  · exact ⟨_, _, _, _, rfl, rfl, stage, hstage, rfl⟩
  dsimp only
  rcases s₁.smith.unwrap lock w with ⟨e | fmk, w'⟩
  · exact ⟨_, _, _, _, rfl, rfl, stage, hstage, rfl⟩
  dsimp only
  rcases s₁.header.verify s₁.smith.suite fmk with e | u
  · exact ⟨_, _, _, _, rfl, rfl, stage, hstage, rfl⟩
  · exact ⟨_, _, _, _, rfl, rfl, _, .fmkObtained hagree, rfl⟩

/-- Both begin with a key, or both are refused. -/
theorem Beside.begin (h : s₁.Beside s₂) (fmk : Fmk) :
    Alike Beside (s₁.begin fmk) (s₂.begin fmk) := by
  obtain ⟨stage, hstage, rfl⟩ := h
  have hphase := hstage.phase
  obtain ⟨hnone₁, hnone₂⟩ | ⟨t₁, t₂, ht₁, ht₂, hagree⟩ := hstage.untouched
  · simp only [Opening.begin, hnone₁, hnone₂, refuse, hphase]
    exact ⟨_, _, _, rfl, rfl, stage, hstage, rfl⟩
  rw [begin_eq ht₁, begin_eq (s := { s₁ with stage := stage }) ht₂]
  dsimp only
  rcases s₁.header.verify s₁.smith.suite fmk with e | u
  · exact ⟨_, _, _, rfl, rfl, stage, hstage, rfl⟩
  · exact ⟨_, _, _, rfl, rfl, _, .decrypting ⟨t₂, hagree, rfl⟩, rfl⟩

/-- Sessions beside each other are in the same phase. -/
theorem Beside.phase (h : s₁.Beside s₂) : s₁.stage.phase = s₂.stage.phase := by
  obtain ⟨stage, hstage, rfl⟩ := h
  exact hstage.phase

/-- A request is answered the same, and leads the world to the same. -/
theorem Beside.request (h : s₁.Beside s₂) (request : Request) (w : World σ) :
    request.answer s₁ w = request.answer s₂ w ∧
      ∃ s₁' s₂' w', request.next s₁ w = (s₁', w') ∧ request.next s₂ w = (s₂', w') ∧
        s₁'.Beside s₂' := by
  by_cases hturn : request.Served s₁.stage.phase
  case neg =>
    obtain ⟨hanswer₁, hnext₁⟩ := Request.refused (w := w) hturn
    obtain ⟨hanswer₂, hnext₂⟩ := Request.refused (s := s₂) (w := w) (h.phase ▸ hturn)
    exact ⟨by rw [hanswer₁, hanswer₂, h.phase], s₁, s₂, w, hnext₁, hnext₂, h⟩
  cases request with
  | getFmk index =>
    obtain ⟨result, s₁', s₂', w', h₁, h₂, h⟩ := h.getFmk index w
    rw [Request.answer, Request.answer, Request.next, Request.next, h₁, h₂]
    exact ⟨rfl, s₁', s₂', w', rfl, rfl, h⟩
  | begin fmk =>
    obtain ⟨result, s₁', s₂', h₁, h₂, h⟩ := h.begin fmk
    rw [Request.answer, Request.answer, Request.next, Request.next, h₁, h₂]
    exact ⟨rfl, s₁', s₂', w, rfl, rfl, h⟩
  | nextFile =>
    obtain ⟨stage, hstage, rfl⟩ := h
    obtain ⟨fmk, r₁, hr₁⟩ := exists_of_decrypting hturn
    obtain ⟨r₂, rfl, hr⟩ := hstage.of_decrypting hr₁
    obtain ⟨result, r₁', r₂', h₁, h₂, hr'⟩ := hr.next s₁.smith.suite
    simp only [Request.answer, Request.next, Opening.nextFile, hr₁, h₁, h₂]
    exact ⟨trivial, _, _, _, rfl, rfl, _, .decrypting hr', rfl⟩
  | readContent sink =>
    obtain ⟨stage, hstage, rfl⟩ := h
    obtain ⟨fmk, r₁, hr₁⟩ := exists_of_decrypting hturn
    obtain ⟨r₂, rfl, hr⟩ := hstage.of_decrypting hr₁
    obtain ⟨result, r₁', r₂', sink', h₁, h₂, hr'⟩ := hr.readInto s₁.smith.suite sink
    simp only [Request.answer, Request.next, Opening.readContent, hr₁, h₁, h₂]
    exact ⟨trivial, _, _, _, rfl, rfl, _, .decrypting hr', rfl⟩
  | finish =>
    obtain ⟨stage, hstage, rfl⟩ := h
    obtain ⟨fmk, r₁, hr₁⟩ := exists_of_decrypting hturn
    obtain ⟨r₂, rfl, hr⟩ := hstage.of_decrypting hr₁
    obtain ⟨source, -, rfl⟩ := hr
    rw [Request.answer, Request.answer, Request.next, Request.next, finish_eq hr₁,
      finish_eq (s := { s₁ with stage := _ }) rfl]
    exact ⟨rfl, _, _, _, rfl, rfl, _, .finished, rfl⟩

/-- To decrypt everything gives the consumer the same. -/
theorem Beside.decryptAll (h : s₁.Beside s₂) (fmk : Fmk) (consumer : Consumer γ) (c : γ) :
    ∃ result s₁' s₂' c', s₁.decryptAll fmk consumer c = (result, s₁', c') ∧
      s₂.decryptAll fmk consumer c = (result, s₂', c') ∧ s₁'.Beside s₂' := by
  obtain ⟨result, s₁', s₂', h₁, h₂, h⟩ := h.begin fmk
  rcases result with e | u
  · rw [Opening.decryptAll, Opening.decryptAll, h₁, h₂]
    exact ⟨_, _, _, _, rfl, rfl, h⟩
  obtain ⟨source, -, -, hs₁⟩ := begin_ok h₁
  obtain ⟨r₁, hr₁⟩ : ∃ r, s₁'.stage = .decrypting fmk r := ⟨_, by rw [hs₁]⟩
  obtain ⟨stage, hstage, rfl⟩ := h
  obtain ⟨r₂, rfl, hr⟩ := hstage.of_decrypting hr₁
  obtain ⟨result, r₁', r₂', c', hdrain₁, hdrain₂, source', -, rfl⟩ :=
    hr.drain s₁'.smith.suite consumer 0 c
  exact ⟨_, _, _, _, decryptAll_eq h₁ hr₁ hdrain₁, decryptAll_eq h₂ rfl hdrain₂, _, .finished, rfl⟩

/-- And so any act leaves them beside each other. -/
theorem Beside.act (h : s₁.Beside s₂) (act : Act) (w : World σ) :
    ∃ s₁' s₂' w', act.next s₁ w = (s₁', w') ∧ act.next s₂ w = (s₂', w') ∧ s₁'.Beside s₂' := by
  cases act with
  | single request => exact (h.request request w).2
  | everything fmk consumer c =>
    obtain ⟨result, s₁', s₂', c', h₁, h₂, h⟩ := h.decryptAll fmk consumer c
    exact ⟨s₁', s₂', w, by rw [Act.next, h₁], by rw [Act.next, h₂], h⟩

/-- Two runs stay beside each other. -/
theorem Beside.acted (h : s₁.Beside s₂) (acts : List Act) (w : World σ) :
    ∃ s₁' s₂' w', Opening.acted acts s₁ w = (s₁', w') ∧ Opening.acted acts s₂ w = (s₂', w') ∧
      s₁'.Beside s₂' := by
  induction acts generalizing s₁ s₂ w with
  | nil => exact ⟨s₁, s₂, w, rfl, rfl, h⟩
  | cons act acts ih =>
    obtain ⟨s₁', s₂', w', h₁, h₂, h⟩ := h.act act w
    rw [Opening.acted, Opening.acted, List.foldl_cons, List.foldl_cons, h₁, h₂]
    exact ih h w'

end Opening

/-- **Reading is independent of how a source delivers its bytes.** Let two
sources deliver the same bytes, cut into pieces and interrupted in any way,
and then end. In either mode a session begins at both of them, or at
neither and for the same reason. After any acts the two sessions and the
world are as far as each other and show the same; every request is then
answered the same, what a sink was given included, and to decrypt everything
ends the same and passes the same on to the consumer. -/
theorem reading_independent_of_delivery {σ : Type} (smith : Locksmith σ) (lenient : Bool)
    {source₁ source₂ : Source} (h₁ : source₁.Steady) (h₂ : source₂.Steady)
    (hcontents : source₁.contents = source₂.contents) :
    (∃ e, Opening.create smith lenient source₁ = .error e ∧
      Opening.create smith lenient source₂ = .error e) ∨
    ∃ s₁ s₂ : Opening σ, Opening.create smith lenient source₁ = .ok s₁ ∧
      Opening.create smith lenient source₂ = .ok s₂ ∧
      ∀ (acts : List Opening.Act) (world : World σ),
        ∃ t₁ t₂ w, Opening.acted acts s₁ world = (t₁, w) ∧
          Opening.acted acts s₂ world = (t₂, w) ∧
          t₁.stage.phase = t₂.stage.phase ∧ t₁.header = t₂.header ∧ t₁.locks = t₂.locks ∧
          (∀ certificate, t₁.lockForCertificate? certificate
            = t₂.lockForCertificate? certificate) ∧
          t₁.isFullyDecrypted = t₂.isFullyDecrypted ∧
          (∀ request : Opening.Request, request.answer t₁ w = request.answer t₂ w) ∧
          ∀ (γ : Type) (fmk : Fmk) (consumer : Consumer γ) (c : γ),
            ∃ result t₁' t₂' c', t₁.decryptAll fmk consumer c = (result, t₁', c') ∧
              t₂.decryptAll fmk consumer c = (result, t₂', c') := by
  obtain ⟨result, rest₁, rest₂, hread₁, hread₂, hagree⟩ :=
    ParsedHeader.read_agrees ⟨h₁, h₂, hcontents⟩ lenient
  rw [Opening.create, Opening.create, hread₁, hread₂]
  rcases result with e | header
  · exact .inl ⟨e, rfl, rfl⟩
  refine .inr ⟨_, _, rfl, rfl, fun acts world => ?_⟩
  have hcreated : Opening.Beside (σ := σ) ⟨smith, header, lenient, .locksParsed rest₁⟩ _ :=
    ⟨.locksParsed rest₂, .locksParsed hagree, rfl⟩
  obtain ⟨t₁, t₂, w, hacted₁, hacted₂, hbeside⟩ := hcreated.acted acts world
  refine ⟨t₁, t₂, w, hacted₁, hacted₂, hbeside.phase, ?_⟩
  have hrequest := fun request => (hbeside.request request w).1
  have hall := fun (γ : Type) fmk (consumer : Consumer γ) c => hbeside.decryptAll fmk consumer c
  obtain ⟨stage, hstage, rfl⟩ := hbeside
  refine ⟨rfl, rfl, fun certificate => rfl, ?_, hrequest, fun γ fmk consumer c => ?_⟩
  · rw [Opening.isFullyDecrypted, Opening.isFullyDecrypted]
    generalize t₁.stage = first at hstage ⊢
    cases hstage <;> rfl
  · obtain ⟨result, t₁', t₂', c', hall₁, hall₂, -⟩ := hall γ fmk consumer c
    exact ⟨result, t₁', t₂', c', hall₁, hall₂⟩

/-- A container that comes in one piece, and in two pieces with an
interruption before each, the first of which ends within the preamble. -/
theorem twoEntries_reading_independent_of_delivery :
    ∃ (run : SealedRun Unit) (s₁ s₂ t₁ t₂ : Opening Unit),
      run.entries = twoEntries ∧
      Opening.create (.plain [1]) false (.ofBytes run.container) = .ok s₁ ∧
      Opening.create (.plain [1]) false [.interrupted, .bytes (run.container.take 3),
        .interrupted, .bytes (run.container.drop 3)] = .ok s₂ ∧
      s₁.decryptAll run.fmk .memory [] = (.ok 2, t₁, twoEntries) ∧
      s₂.decryptAll run.fmk .memory [] = (.ok 2, t₂, twoEntries) := by
  obtain ⟨run, asked, hsmith, hentries, -⟩ :=
    SealedRun.exists_twoEntries (show (some [1]).getD [1] = [1] from rfl)
  have hsuite : run.suite = .plain := congrArg Locksmith.suite hsmith
  obtain ⟨-, -, hcontainer, hcomplete, hstorable, -⟩ := run.container_eq
  obtain ⟨s, payload, hcreate, -, hfaces, hsteady', hpayload⟩ :=
    SealedRun.create_of_head false (show (Locksmith.plain [1]).suite = run.suite from hsuite.symm)
      (Source.steady_ofBytes run.container) ((Source.contents_ofBytes _).trans hcontainer)
  -- the session at the whole piece decrypts everything
  obtain ⟨r, files, hdrain, -, hview⟩ := Payload.Supply.drain_stored
    (hsuite ▸ Suite.plain_opensSealed) (hsuite ▸ Suite.plain_inflatesDeflated)
    (hsuite ▸ Suite.plain_fitsFrames) Consumer.memory_accepts hstorable hcomplete hsteady' hpayload
    false []
  obtain rfl : files = run.entries := hview
  have hwhole := hfaces.decryptAll_eq hdrain
  -- and the other one answers the same
  have hcut : Source.Steady [.interrupted, .bytes (run.container.take 3), .interrupted,
      .bytes (run.container.drop 3)] := by
    intro e he
    simp at he
  obtain ⟨e, hfailed, -⟩ | ⟨s₁, s₂, h₁, h₂, hsame⟩ :=
    reading_independent_of_delivery (.plain [1]) false (Source.steady_ofBytes run.container) hcut
      (by simp [Source.contents])
  · exact absurd (hcreate.symm.trans hfailed) (by simp)
  obtain rfl : s = s₁ := Except.ok.inj (hcreate.symm.trans h₁)
  obtain ⟨t₁, t₂, w, hacted₁, hacted₂, -, -, -, -, -, -, hall⟩ := hsame [] ⟨.splitMix 2, ()⟩
  obtain ⟨rfl, rfl⟩ := Prod.mk.inj hacted₁
  obtain ⟨rfl, -⟩ := Prod.mk.inj hacted₂
  obtain ⟨result, t₁', t₂', c', hall₁, hall₂⟩ := hall _ run.fmk .memory []
  rw [hwhole] at hall₁
  obtain ⟨rfl, hrest⟩ := Prod.mk.inj hall₁
  obtain ⟨-, rfl⟩ := Prod.mk.inj hrest
  rw [hentries] at hwhole hall₂
  exact ⟨run, s, s₂, _, _, hentries, hcreate, h₂, hwhole, hall₂⟩

end Lockbox
