import Lockbox.Proofs.Session
/-!
# Lockbox — what can be sealed

Where nothing outside fails, nothing stands in the way of a container. A
writer that has numbers left declares an entry and writes the data of it,
however they come (`Ready.declare`, `Amid.write`), a lock can be made for
whoever has a symmetric key at hand (`Locksmith.KeyAtHand.wrap`), and a
session whose last entry is complete can be finished
(`Sealing.finish_succeeds`). How long a head may become is settled by bounds
on its JSON, for as many locks as there are.
-/

namespace Lockbox

open Payload

/-! ## Writers

A number is needed for each frame and one more behind it. How many frames
bytes will make depends on how they come, so every byte is granted a number;
that is far more than is used, and still far below the last one. -/

namespace Payload.Writer

variable {S : Suite} {w : Writer}

/-- Between two entries, a writer that has numbers for `n` frames. -/
structure Ready (n : Nat) (w : Writer) : Prop where
  sink : w.sink.Unbounded
  waiting : w.waiting.val.size = 0
  complete : w.checkComplete = .ok ()
  room : w.counter + n < UInt64.size

/-- A frame is written if the sink takes it and there is a number behind its
own. -/
theorem emit_succeeds (h : w.sink.Unbounded) (hroom : w.counter + 1 < UInt64.size)
    (frame : Frame) : ∃ w', w.emit S frame = (.ok (), w') ∧ w'.sink.Unbounded := by
  obtain ⟨sink, hsink, hu, -⟩ := h.writeEach
    [Bytes.ofNat 4 (w.channel.sealFrame S w.counter frame).length,
      w.channel.sealFrame S w.counter frame]
  refine ⟨{ w with sink, counter := w.counter + 1 }, ?_, hu⟩
  simp only [emit, hsink, if_pos hroom]

/-- Every frame takes one number, and bytes that have waited or come. -/
theorem fill_succeeds (input : Bytes) (h : w.sink.Unbounded)
    (hroom : w.counter + w.waiting.val.size + input.length < UInt64.size) :
    ∃ w', w.fill S input = (.ok (), w') ∧ w'.sink.Unbounded ∧
      w'.counter + w'.waiting.val.size ≤ w.counter + w.waiting.val.size + input.length := by
  fun_induction fill S input w with
  | case1 input w hlt hfit =>
    exact ⟨_, rfl, h, Nat.le_of_eq (Nat.add_assoc ..).symm⟩
  | case2 input w hlt hfit room full hfull hpos w₁ hemit ih =>
    -- a full frame takes one number for more than one byte
    obtain ⟨w₂, hw₂, hu⟩ := emit_succeeds (S := S) (w := { w with waiting := .none }) h
      (show w.counter + 1 < UInt64.size by omega) (.data ⟨full, by omega, by omega⟩)
    obtain rfl := (Prod.mk.inj (hemit.symm.trans hw₂)).2
    obtain ⟨hwrote, -, hw₁, -⟩ := emit_ok hemit
    have hcounter : w₁.counter = w.counter + 1 := hwrote.counter
    have hsize : w₁.waiting.val.size = 0 := by rw [hw₁]; rfl
    have hleft : (input.drop room).length = input.length - room := List.length_drop
    obtain ⟨w', hw', hu', hle⟩ := ih hu (by omega)
    exact ⟨w', hw', hu', by omega⟩
  | case3 input w hlt hfit room full hfull hpos e w₁ hemit =>
    obtain ⟨w₂, hw₂, -⟩ := emit_succeeds (S := S) (w := { w with waiting := .none }) h
      (show w.counter + 1 < UInt64.size by omega) (.data ⟨full, by omega, by omega⟩)
    exact absurd (Prod.mk.inj (hemit.symm.trans hw₂)).1 (by simp)

/-- What waits is written out. It takes a number if it is anything, so no more
than it has bytes. -/
theorem flush_succeeds (h : w.sink.Unbounded)
    (hroom : w.counter + w.waiting.val.size < UInt64.size) :
    ∃ w', w.flush S = (.ok (), w') ∧ w'.sink.Unbounded ∧ w'.waiting.val.size = 0 ∧
      w'.counter ≤ w.counter + w.waiting.val.size := by
  by_cases hpos : 0 < w.waiting.val.size
  · have hlen := w.waiting.val.length_toBytes
    have hlt := w.waiting.property
    obtain ⟨w', hw', hu⟩ := emit_succeeds (S := S) (w := { w with waiting := .none }) h
      (show w.counter + 1 < UInt64.size by omega)
      (.data ⟨w.waiting.val.toBytes, by omega, by omega⟩)
    obtain ⟨hwrote, -, hwaiting, -⟩ := emit_ok hw'
    have hcounter : w'.counter = w.counter + 1 := hwrote.counter
    exact ⟨w', by rw [flush, dif_pos hpos]; exact hw', hu, by rw [hwaiting]; rfl, by omega⟩
  · exact ⟨w, by rw [flush, dif_neg hpos], h, by omega, by omega⟩

/-- **An entry can be declared** if the last one is complete and its name is
new and can be stored. -/
theorem declare_succeeds {n : Nat} {name : String} {size : UInt64} {stored : EntryName}
    (h : w.Ready (n + 1)) (hstored : EntryName.ofText name = .ok stored) (hnew : name ∉ w.names) :
    ∃ w', w.declare S name size = (.ok (), w') ∧ w'.sink.Unbounded ∧
      w'.waiting.val.size = 0 ∧ w'.counter = w.counter + 1 := by
  have hroom := h.room
  obtain ⟨w₁, hw₁, hu⟩ := emit_succeeds (S := S) h.sink
    (show w.counter + 1 < UInt64.size by omega) (.file stored size)
  obtain ⟨hwrote, -, hwaiting, -⟩ := emit_ok hw₁
  refine ⟨{ w₁ with current := some ⟨name, size, 0⟩, names := name :: w₁.names }, ?_, hu, ?_,
    hwrote.counter⟩
  · simp only [declare, hstored, h.complete, if_neg hnew, hw₁]
  · show w₁.waiting.val.size = 0
    rw [hwaiting]
    exact h.waiting

/-- Amid an entry of which so much is left, a writer that has numbers for
that and for `n` frames more. -/
structure Amid (n left : Nat) (w : Writer) : Prop where
  sink : w.sink.Unbounded
  current : ∃ f, w.current = some f ∧ f.written + left = f.declared.toNat
  waiting : left = 0 → w.waiting.val.size = 0
  room : w.counter + w.waiting.val.size + left + n < UInt64.size

/-- After the last byte an entry is complete. -/
theorem Amid.ready {n : Nat} (h : w.Amid n 0) : w.Ready n := by
  obtain ⟨f, hcurrent, hall⟩ := h.current
  have hwaiting := h.waiting rfl
  have hroom := h.room
  refine ⟨h.sink, hwaiting, ?_, by omega⟩
  simp only [checkComplete, hcurrent]
  rw [if_pos (by omega)]

/-- **An entry can be declared.** -/
theorem Ready.declare {n : Nat} {name : String} {size : UInt64} {stored : EntryName}
    (h : w.Ready (n + (1 + size.toNat))) (hstored : EntryName.ofText name = .ok stored)
    (hnew : name ∉ w.names) :
    ∃ w', w.declare S name size = (.ok (), w') ∧ w'.Amid n size.toNat ∧
      w'.names = name :: w.names := by
  have hroom := h.room
  obtain ⟨w', hw', hu, hwaiting, hcounter⟩ := declare_succeeds (S := S) (n := n + size.toNat)
    ⟨h.sink, h.waiting, h.complete, by omega⟩ hstored hnew
  obtain ⟨-, -, -, -, -, -, hcurrent, hnames⟩ := declare_ok hw'
  exact ⟨w', hw', ⟨hu, ⟨_, hcurrent, Nat.zero_add _⟩, fun _ => hwaiting, by omega⟩, hnames⟩

/-- **Data of an entry can be handed over,** as much as is left of them. -/
theorem Amid.write {n left : Nat} {data : Bytes} (h : w.Amid n left) (hfits : data.length ≤ left) :
    ∃ w', w.write S data = (.ok (), w') ∧ w'.Amid n (left - data.length) ∧
      w'.names = w.names := by
  have hroom := h.room
  obtain ⟨f, hcurrent, hleft⟩ := h.current
  obtain ⟨w₁, hw₁, hu₁, hle₁⟩ := fill_succeeds (S := S) data h.sink (by omega)
  obtain ⟨-, -, -, -, -, hnames₁⟩ := fill_ok hw₁
  have hdeclared : ¬ f.declared.toNat < f.written + data.length := by omega
  by_cases hend : f.written + data.length = f.declared.toNat
  · -- these are the last of them, so what waits is written too
    obtain ⟨w₂, hw₂, hu₂, hwaiting₂, hle₂⟩ := flush_succeeds (S := S) hu₁ (by omega)
    obtain ⟨-, -, -, hnames₂⟩ := flush_ok hw₂
    refine ⟨{ w₂ with current := some { f with written := f.written + data.length } }, ?_,
      ⟨hu₂, ⟨_, rfl, ?_⟩, fun _ => hwaiting₂, ?_⟩, hnames₂.trans hnames₁⟩
    · simp only [Writer.write, hcurrent, if_neg hdeclared, hw₁, if_pos hend, hw₂]
    · dsimp only
      omega
    · dsimp only
      omega
  · refine ⟨{ w₁ with current := some { f with written := f.written + data.length } }, ?_,
      ⟨hu₁, ⟨_, rfl, ?_⟩, ?_, ?_⟩, hnames₁⟩
    · simp only [Writer.write, hcurrent, if_neg hdeclared, hw₁, if_neg hend]
    · dsimp only
      omega
    · omega
    · dsimp only
      omega

/-- A payload that is ready for one more frame can be closed. -/
theorem Ready.close (h : w.Ready 1) : ∃ sink, w.close S = .ok sink ∧ sink.Unbounded := by
  obtain ⟨w', hw', hu⟩ := emit_succeeds (S := S) h.sink h.room .finish
  exact ⟨w'.sink, by simp only [Writer.close, h.complete, hw', hu.flush_eq], hu⟩

end Payload.Writer

/-- A header of a length that is allowed can be written. -/
theorem Header.write_succeeds {h : Header} {sink : Sink} (hu : sink.Unbounded)
    (hlength : h.toJson.render.length ≤ maxHeaderLength) (S : Suite) (version : UInt8)
    (flags : Flags) (fmk : Fmk) :
    ∃ n sink', h.write S version flags fmk sink = (.ok n, sink') ∧ sink'.Unbounded := by
  obtain ⟨sink', hsink, hu', -⟩ := hu.writeEach
    [preamble version flags h.toJson.render.length, h.toJson.render,
      (mac S fmk (preamble version flags h.toJson.render.length) h.toJson.render).val]
  refine ⟨(preamble version flags h.toJson.render.length).length + h.toJson.render.length + 32,
    sink', ?_, hu'⟩
  simp only [write, if_neg (Nat.not_lt.mpr hlength), hsink]

/-! ## Sessions -/

namespace Sealing

variable {σ : Type} {s : Sealing σ} {draft : Draft} {n : Nat}

/-- As many numbers as the frames of entries can need. -/
def numbers : List (FileInfo × Bytes) → Nat
  | [] => 0
  | e :: rest => 1 + e.2.length + numbers rest

/-- **A head that is not too long is delivered,** with the payload behind it,
if spool and destination do not fail. -/
theorem deliver_succeeds (hdest : s.dest.Unbounded)
    (hfit : draft.header.toJson.render.length ≤ maxHeaderLength) {spool : Sink}
    (hspool : spool.Unbounded) : ∃ dest, s.deliver draft spool = (.ok (), dest) := by
  obtain ⟨n, dest₁, hwrite, hu₁⟩ := Header.write_succeeds hdest hfit s.smith.suite
    s.version s.flags draft.fmk
  obtain ⟨dest₂, hpayload, hu₂, -⟩ := hu₁.write spool.accepted
  obtain ⟨hrewind, hrecall⟩ := hspool.readBack_eq
  rw [Draft.header] at hwrite
  exact ⟨dest₂, by simp only [deliver, hrewind, hrecall, hwrite, hpayload, hu₂.flush_eq]⟩

/-- **A session can be finished** that has a lock and whose last entry is
complete. -/
theorem finish_succeeds (hstage : s.stage = .accepting draft) (hlocks : draft.locks ≠ [])
    (hready : draft.payload.Ready 1) (hdest : s.dest.Unbounded)
    (hfit : draft.header.toJson.render.length ≤ maxHeaderLength) : s.finish.1 = .ok () := by
  obtain ⟨spool, hclose, hspool⟩ := hready.close (S := s.smith.suite)
  obtain ⟨dest, hdeliver⟩ := deliver_succeeds hdest hfit hspool
  simp only [finish, hstage, if_neg hlocks, hready.complete, hclose, hdeliver]

end Sealing

/-! ## The length of a head

A head must not be too long, so the length of its JSON is bounded from
above, value by value. The bounds are generous: a thousand locks with short
labels fit. -/

namespace Json

/-- The longest escape is a backslash, a letter and four digits. -/
theorem length_escapeByte_le (c : UInt8) : (escapeByte c).length ≤ 6 := by
  unfold escapeByte
  repeat' split
  all_goals simp

/-- So escaping makes a text six times as long at most. -/
theorem length_escaped_le (b : Bytes) : (b.flatMap escapeByte).length ≤ 6 * b.length := by
  induction b with
  | nil => simp
  | cons c b ih =>
    have := length_escapeByte_le c
    rw [List.flatMap_cons, List.length_append, List.length_cons]
    omega

/-- A text is rendered with two quotes around it. -/
theorem length_render_ofText_le (s : String) :
    (ofText s).render.length ≤ 6 * s.utf8ByteSize + 2 := by
  have := length_escaped_le (Bytes.ofText s)
  rw [Bytes.length_ofText] at this
  simp only [ofText, render, quote, List.length_cons, List.length_append, List.length_nil]
  omega

/-- Bytes in base 64 take four digits for three of them. -/
theorem length_render_ofBytes (b : Bytes) :
    (ofBytes b).render.length = (b.length + 2) / 3 * 4 + 2 := by
  simp only [ofBytes, render, quote, List.length_cons, List.length_append, List.length_nil,
    Base64.length_encode]

/-- A member takes its value and little more, if its name is short. -/
theorem length_render_record_le (members : List (String × Json))
    (h : ∀ name ∈ members.map Prod.fst, name.utf8ByteSize ≤ 16) :
    (record members).render.length
      ≤ members.foldr (fun m room => 100 + m.2.render.length + room) 2 := by
  have hmembers : (renderMembers
      (members.map fun m => ((Bytes.ofText m.1).flatMap escapeByte, m.2))).length
        + 2 ≤ members.foldr (fun m room => 100 + m.2.render.length + room) 2 := by
    induction members with
    | nil => simp [renderMembers]
    | cons m members ih =>
      have ih := ih fun name hname => h name (List.mem_cons_of_mem _ hname)
      have hname := length_escaped_le (Bytes.ofText m.1)
      rw [Bytes.length_ofText] at hname
      have hshort := h m.1 List.mem_cons_self
      cases members with
      | nil =>
        simp only [List.map_cons, List.map_nil, renderMembers, quote, List.length_append,
          List.length_cons, List.length_nil, List.foldr_cons, List.foldr_nil]
        omega
      | cons m' members =>
        simp only [List.map_cons, List.foldr_cons] at ih ⊢
        simp only [renderMembers, quote, List.length_append, List.length_cons, List.length_nil]
          at ih ⊢
        omega
  simp only [record, render, List.length_cons, List.length_append, List.length_nil]
  omega

end Json

/-- A lock takes its label, the wrapped key, its capsule and little more. -/
theorem Lock.length_render_le (l : Lock) : l.toJson.render.length
    ≤ 6 * l.label.utf8ByteSize + (l.wrapped.length + 2) / 3 * 4 + l.capsule.toJson.render.length
      + 500 := by
  have hlabel := Json.length_render_ofText_le l.label
  have hnames : ∀ name ∈ ["label", "nonce", "encrypted_fmk", "capsule"],
      name.utf8ByteSize ≤ 16 := by decide
  have hrecord := Json.length_render_record_le [("label", .ofText l.label),
    ("nonce", .ofBytes l.nonce.val), ("encrypted_fmk", .ofBytes l.wrapped),
    ("capsule", l.capsule.toJson)] hnames
  simp only [List.foldr_cons, List.foldr_nil, Json.length_render_ofBytes,
    l.nonce.property] at hrecord
  rw [toJson]
  omega

theorem Capsule.length_render_symmetricKey_le (salt : Octets 32) :
    (Capsule.symmetricKey salt).toJson.render.length ≤ 400 := by
  have htype := Json.length_render_ofText_le LockType.symmetricKey.name
  have hname : LockType.symmetricKey.name.utf8ByteSize = 13 := by decide
  have hnames : ∀ name ∈ ["type", "salt"], name.utf8ByteSize ≤ 16 := by decide
  have hrecord := Json.length_render_record_le
    [("type", .ofText LockType.symmetricKey.name), ("salt", .ofBytes salt.val)] hnames
  simp only [List.foldr_cons, List.foldr_nil, Json.length_render_ofBytes,
    salt.property] at hrecord
  show (Json.record _).render.length ≤ 400
  simp only [members, type]
  omega

/-- A lock for a symmetric key is short, unless its label is long. -/
theorem Lock.length_render_symmetricKey_le {l : Lock} {salt : Octets 32}
    (hlabel : l.label.utf8ByteSize ≤ 1000) (hwrapped : l.wrapped.length = 32 + Aead.tagLength)
    (hcapsule : l.capsule = .symmetricKey salt) : l.toJson.render.length ≤ 7000 := by
  have hrender := l.length_render_le
  have hsalt := Capsule.length_render_symmetricKey_le salt
  rw [hwrapped, hcapsule, Aead.tagLength] at hrender
  omega

/-- A table takes its items and a byte more for each. -/
theorem Json.length_render_array_le {room : Nat} {items : List Json}
    (h : ∀ j ∈ items, j.render.length ≤ room) :
    (array items).render.length ≤ items.length * (room + 1) + 2 := by
  have hitems : (renderItems items).length ≤ items.length * (room + 1) := by
    induction items with
    | nil => simp [renderItems]
    | cons j items ih =>
      have hfirst := h j List.mem_cons_self
      have hrest := ih fun j hj => h j (List.mem_cons_of_mem _ hj)
      cases items with
      | nil =>
        simp only [renderItems, List.length_cons, List.length_nil]
        omega
      | cons j' items =>
        have hcomma : renderItems (j :: j' :: items)
            = j.render ++ 0x2C :: renderItems (j' :: items) := by simp [renderItems]
        rw [hcomma, List.length_append, List.length_cons, List.length_cons, Nat.succ_mul]
        omega
  simp only [render, List.length_cons, List.length_append, List.length_nil]
  omega

/-- A header takes its locks and little more. -/
theorem Header.length_render_le (nonce : Octets 24) {room : Nat} {locks : List Lock}
    (h : ∀ l ∈ locks, l.toJson.render.length ≤ room) :
    (Header.toJson ⟨Suite.name, nonce, locks⟩).render.length
      ≤ locks.length * (room + 1) + 800 := by
  have hsuite := Json.length_render_ofText_le Suite.name
  have hname : Suite.name.utf8ByteSize ≤ 60 := by decide
  have htable : (Json.array (locks.map Lock.toJson)).render.length
      ≤ locks.length * (room + 1) + 2 := by
    rw [← List.length_map (f := Lock.toJson)]
    refine Json.length_render_array_le fun j hj => ?_
    obtain ⟨l, hl, rfl⟩ := List.mem_map.mp hj
    exact h l hl
  have hnames : ∀ name ∈ ["suite", "payload_nonce", "locks"], name.utf8ByteSize ≤ 16 := by decide
  have hrecord := Json.length_render_record_le [("suite", .ofText Suite.name),
    ("payload_nonce", .ofBytes nonce.val), ("locks", .array (locks.map Lock.toJson))] hnames
  simp only [List.foldr_cons, List.foldr_nil, Json.length_render_ofBytes,
    nonce.property] at hrecord
  simp only [toJson]
  omega

/-- A header with short locks can be written, unless they are very many. -/
theorem Header.fits (nonce : Octets 24) {locks : List Lock} (hfew : locks.length ≤ 1000)
    (hshort : ∀ l ∈ locks, l.toJson.render.length ≤ 7000) :
    (Header.toJson ⟨Suite.name, nonce, locks⟩).render.length ≤ maxHeaderLength := by
  have hheader := Header.length_render_le nonce hshort
  rw [maxHeaderLength]
  omega

/-! ## Containers -/

/-- A lock can be made for whoever has a symmetric key that is not empty. -/
theorem Locksmith.wrap_symmetricKey {σ : Type} (m : Locksmith σ) {index : Nat} {label : String}
    {given : Option Bytes} {secret : Bytes} {w w₁ : World σ}
    (h : m.inlineOr ⟨index, .symmetricKey, label⟩ given w = (.ok secret, w₁)) (hne : secret ≠ [])
    (fmk : Fmk) : ∃ key nonce salt w', m.wrap index (.symmetricKey label given) fmk w
      = (.ok ⟨index, label, nonce, m.suite.encrypt key nonce
          (Lock.context .symmetricKey label) fmk.key.val, .symmetricKey salt⟩, w') := by
  simp only [wrap, prepare, Recipient.label, Recipient.type, Step.bind_apply, h, if_neg hne,
    World.draw, Step.pure_apply]
  exact ⟨_, _, _, _, rfl⟩

/-- A symmetric key can be had for a recipient, whose label is not long. -/
def Locksmith.KeyAtHand {σ : Type} (m : Locksmith σ) : Recipient → Prop
  | .symmetricKey label given => label.utf8ByteSize ≤ 1000 ∧ ∃ secret, secret ≠ [] ∧
      ∀ index w, ∃ w', m.inlineOr ⟨index, .symmetricKey, label⟩ given w = (.ok secret, w')
  | _ => False

/-- Whoever brings a key along has it at hand. -/
theorem Locksmith.keyAtHand_of_brought {σ : Type} (m : Locksmith σ) {label : String}
    {secret : Bytes} (hlabel : label.utf8ByteSize ≤ 1000) (hne : secret ≠ []) :
    m.KeyAtHand (.symmetricKey label (some secret)) :=
  ⟨hlabel, secret, hne, fun _ w => ⟨w, rfl⟩⟩

/-- A short lock can be made where a symmetric key is at hand. -/
theorem Locksmith.KeyAtHand.wrap {σ : Type} {m : Locksmith σ} {r : Recipient} (h : m.KeyAtHand r)
    (htag : ∀ key nonce aad msg,
      (m.suite.encrypt key nonce aad msg).length = msg.length + Aead.tagLength)
    (index : Nat) (fmk : Fmk) (w : World σ) :
    ∃ lock w', m.wrap index r fmk w = (.ok lock, w') ∧ lock.toJson.render.length ≤ 7000 := by
  cases r with
  | symmetricKey label given =>
    obtain ⟨hlabel, secret, hne, hsecret⟩ := h
    obtain ⟨w₁, hw₁⟩ := hsecret index w
    obtain ⟨key, nonce, salt, w', hwrap⟩ := m.wrap_symmetricKey hw₁ hne fmk
    have hwrapped := htag key nonce (Lock.context .symmetricKey label) fmk.key.val
    rw [fmk.key.property] at hwrapped
    exact ⟨_, w', hwrap, Lock.length_render_symmetricKey_le hlabel hwrapped rfl⟩
  | password | publicKey | certificate | server => exact h.elim

end Lockbox
