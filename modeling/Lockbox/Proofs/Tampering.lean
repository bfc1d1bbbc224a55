import Lockbox.Proofs.AllAtOnce
import Lockbox.Proofs.Following
import Lockbox.Proofs.Opened
/-!
# Lockbox — what was tampered with is not taken

Any byte string may stand in the place of a container. What is assumed of
its maker is that nothing was forged (`SealedRun.Unforged`): of the
authentication code and of the encrypted pieces that the byte string
shows, those that are accepted are the ones of the run. They need not
stand where the run had put them, and the lengths and the head around them
may be anything. `Supply.authentic` puts every piece back into its place,
because the nonce of a frame tells its number; and the head is read as it
was written, because its parts cannot be shifted against each other
(`SealedRun.faces_of_verified`).
-/

namespace Lockbox

open Payload

/-! ## Pieces

A payload of unknown origin is divided by the lengths that stand in it,
whatever they enclose. Only pieces that are accepted as frames have to be
genuine. -/

namespace Payload

/-- What stands between the lengths of a payload: each four bytes long,
and followed by so many bytes. An incomplete end is left out. -/
def pieces (payload : Bytes) : List Bytes :=
  if 4 ≤ payload.length ∧ Bytes.toNat (payload.take 4) ≤ (payload.drop 4).length then
    (payload.drop 4).take (Bytes.toNat (payload.take 4)) ::
      pieces ((payload.drop 4).drop (Bytes.toNat (payload.take 4)))
  else []
termination_by payload.length
decreasing_by
  simp only [List.length_drop]
  omega

/-- A piece behind its length is the first of the pieces. -/
theorem pieces_append {length piece : Bytes} (hfour : length.length = 4)
    (hlength : Bytes.toNat length = piece.length) (rest : Bytes) :
    pieces (length ++ piece ++ rest) = piece :: pieces rest := by
  have htake : (length ++ piece ++ rest).take 4 = length := by
    rw [List.append_assoc]
    exact List.take_left' hfour
  have hdrop : (length ++ piece ++ rest).drop 4 = piece ++ rest := by
    rw [List.append_assoc]
    exact List.drop_left' hfour
  rw [pieces, htake, hdrop, hlength, List.take_left, List.drop_left, if_pos]
  simp [hfour]

/-- Too few bytes for a length are left out. -/
theorem pieces_of_lt {rest : Bytes} (h : rest.length < 4) : pieces rest = [] := by
  rw [pieces, if_neg (fun hfits => by omega)]

/-- The pieces of stored frames are the frames, encrypted. -/
theorem getElem?_pieces_stream {S : Suite} (hl : S.CountsSealed) (c : Channel) {n k : Nat}
    {frames : List Frame} {rest piece : Bytes} (hrest : rest.length < 4)
    (h : (pieces (c.stream S n frames ++ rest))[k]? = some piece) :
    ∃ hk : k < frames.length, piece = c.sealFrame S (n + k) frames[k] := by
  induction frames generalizing n k with
  | nil =>
    rw [Channel.stream_nil, List.nil_append, pieces_of_lt hrest] at h
    exact absurd h (by simp)
  | cons f frames ih =>
    rw [Channel.stream_cons, Channel.store, List.append_assoc,
      pieces_append (Bytes.length_ofNat ..) (Bytes.toNat_ofNat_of_lt (hl _ _ _))] at h
    cases k with
    | zero =>
      rw [List.getElem?_cons_zero] at h
      exact ⟨Nat.zero_lt_succ _, (Option.some.inj h).symm⟩
    | succ k =>
      rw [List.getElem?_cons_succ] at h
      obtain ⟨hk, hpiece⟩ := ih h
      refine ⟨Nat.succ_lt_succ hk, ?_⟩
      rw [hpiece, List.getElem_cons_succ, Nat.add_assoc, Nat.add_comm 1]

namespace Supply

variable {S : Suite} {channel : Channel} {frames : List Frame}

/-- Of these pieces, what is accepted as frame `k` is a frame that was
encrypted, perhaps under another number. -/
def Genuine (S : Suite) (channel : Channel) (frames : List Frame) (payload : Bytes) : Prop :=
  ∀ k piece, (pieces payload)[k]? = some piece →
    S.decrypt? channel.key (Channel.nonce channel.base k)
        (Channel.context channel.version channel.flags) piece ≠ none →
      ∃ j, ∃ h : j < frames.length,
        Channel.nonce channel.base k = Channel.nonce channel.base j ∧
          piece = channel.sealFrame S j frames[j]

/-- A frame that is read from genuine pieces is the one of its number, and
it was stored in the same bytes. -/
theorem Genuine.frame {payload : Bytes} (hs : S.OpensSealed) (hz : S.InflatesDeflated)
    (hcount : frames.length < UInt64.size) (h : Genuine S channel frames payload) {r r' : Reader}
    {f : Frame} (hchannel : r.channel = channel) (hsteady : r.source.Steady)
    (hle : r.counter ≤ frames.length)
    (hpieces : pieces r.source.contents = (pieces payload).drop r.counter)
    (hr : r.readFrame S = (.ok f, r')) :
    ∃ hlt : r.counter < frames.length, f = frames[r.counter] ∧ r'.source.Steady ∧
      pieces r'.source.contents = (pieces payload).drop (r.counter + 1) ∧
      r.source.contents = channel.store S r.counter frames[r.counter] ++ r'.source.contents := by
  obtain ⟨length, piece, hcontents, hfour, hlength, hopen, hsteady', -⟩ :=
    Reader.readFrame_ok hr
  rw [hchannel] at hopen
  rw [hcontents, pieces_append hfour hlength] at hpieces
  have hpiece : (pieces payload)[r.counter]? = some piece := by
    rw [← List.head?_drop, ← hpieces]
    rfl
  have hauthentic : S.decrypt? channel.key (Channel.nonce channel.base r.counter)
      (Channel.context channel.version channel.flags) piece ≠ none := by
    intro hnone
    rw [Channel.openFrame, hnone] at hopen
    exact absurd hopen (by simp)
  obtain ⟨j, hj, hnonce, rfl⟩ := h r.counter piece hpiece hauthentic
  -- the nonce tells the number, so the piece stands where it was put
  obtain rfl : r.counter = j := Channel.nonce_injective (by omega) (by omega) hnonce
  rw [Channel.openFrame_sealFrame hs hz] at hopen
  have hfield : Bytes.ofNat 4 (channel.sealFrame S r.counter frames[r.counter]).length = length := by
    rw [← hlength, ← hfour, Bytes.ofNat_toNat]
  refine ⟨hj, (Except.ok.inj hopen).symm, hsteady' hsteady, ?_, ?_⟩
  · rw [← List.tail_drop, ← hpieces]
    rfl
  · rw [hcontents, Channel.store, hfield]

/-- **Genuine pieces supply a reader,** whose source has been read as the
frames before its place were stored. -/
def authentic (hs : S.OpensSealed) (hz : S.InflatesDeflated)
    (hcount : frames.length < UInt64.size) {payload : Bytes}
    (h : Genuine S channel frames payload) : Supply S channel frames where
  At n s := s.Steady ∧ n ≤ frames.length ∧ pieces s.contents = (pieces payload).drop n ∧
    payload = channel.stream S 0 (frames.take n) ++ s.contents
  steady h := h.1
  frame := by
    rintro r r' f hchannel ⟨hsteady, hle, hpieces, hpayload⟩ hr
    obtain ⟨hlt, rfl, hsteady', hpieces', hstore⟩ :=
      h.frame hs hz hcount hchannel hsteady hle hpieces hr
    refine ⟨List.getElem?_eq_getElem hlt, hsteady', hlt, hpieces', ?_⟩
    rw [hpayload, Channel.stream_take_succ _ _ hlt, hstore, List.append_assoc]

/-- Where a payload ends whose pieces are genuine, all frames were read in
the bytes that they were stored in, and nothing follows that is not
allowed. -/
theorem stream_of_concluded (hs : S.OpensSealed) (hz : S.InflatesDeflated)
    (hcount : frames.length < UInt64.size) {payload : Bytes}
    (h : Genuine S channel frames payload) {allowTrailing : Bool}
    (hend : (authentic hs hz hcount h).Concluded allowTrailing) :
    channel.stream S 0 frames <+: payload ∧
      (allowTrailing = false → payload = channel.stream S 0 frames) := by
  obtain ⟨r, ⟨-, ⟨hsteady, -, -, hpayload⟩, -⟩, hcounter, htrailing, hcheck⟩ := hend
  rw [hcounter, List.take_length] at hpayload
  refine ⟨⟨_, hpayload.symm⟩, fun hstrict => ?_⟩
  obtain hallow | hnone := (Reader.checkTrailing_ok_iff hsteady).mp hcheck
  · rw [htrailing, hstrict] at hallow
    exact absurd hallow (by simp)
  · rw [hpayload, hnone, List.append_nil]

end Supply

end Payload

/-! ## Before the payload

Nothing is read of a payload before a key was confirmed, so what was tried
before does not matter. -/

namespace Opening

variable {τ γ : Type} {s s' : Opening τ}

/-- Locks are tried one after the other, with or without success. -/
def tryLocks (indices : List Nat) (s : Opening τ) (w : World τ) : Opening τ × World τ :=
  indices.foldl (fun state i => (state.1.getFmk i state.2).2) (s, w)

/-- A session that has read the head of a source, of which so much is
left. -/
structure Untouched (smith : Locksmith τ) (lenient : Bool) (source rest : Source)
    (s : Opening τ) : Prop where
  header : ParsedHeader.read lenient source = (.ok s.header, rest)
  smith : s.smith = smith
  lenient : s.lenient = lenient
  stage : s.stage.untouched? = some rest

/-- **A session that was created has read a head,** and its payload is
untouched. -/
theorem untouched_create {smith : Locksmith τ} {lenient : Bool} {source : Source}
    (h : create smith lenient source = .ok s) : ∃ rest, s.Untouched smith lenient source rest := by
  obtain ⟨rest, hread, hsmith, hlenient, hstage⟩ := create_ok h
  exact ⟨rest, hread, hsmith, hlenient, by rw [hstage]; rfl⟩

variable {smith : Locksmith τ} {lenient : Bool} {source rest : Source}

/-- Attempts at locks do not touch the payload. -/
theorem Untouched.getFmk (h : s.Untouched smith lenient source rest) (i : Nat) (w : World τ) :
    (s.getFmk i w).2.1.Untouched smith lenient source rest := by
  rcases hget : s.getFmk i w with ⟨e | fmk, s', w'⟩
  · rw [getFmk_error hget]
    exact h
  · obtain ⟨source, hstage, -, rfl⟩ := getFmk_ok hget
    cases h.stage.symm.trans hstage
    exact ⟨h.header, h.smith, h.lenient, rfl⟩

/-- However many locks are tried, the payload is not touched. -/
theorem Untouched.tryLocks (h : s.Untouched smith lenient source rest) (indices : List Nat)
    (w : World τ) : (s.tryLocks indices w).1.Untouched smith lenient source rest := by
  unfold Opening.tryLocks
  induction indices generalizing s w with
  | nil => exact h
  | cons i indices ih => exact ih (h.getFmk i w) _

/-- A key that begins the reading of a payload has been confirmed. -/
theorem verify_of_begin {fmk : Fmk} (h : s.begin fmk = (.ok (), s')) :
    s.header.verify s.smith.suite fmk = .ok () := by
  unfold begin at h
  split at h
  · exact absurd (Prod.mk.inj h).1 (by simp)
  · split at h
    · exact absurd (Prod.mk.inj h).1 (by simp)
    · assumption

theorem begin_of_decryptAll {fmk : Fmk} {k : Consumer γ} {c c' : γ} {n : Nat}
    (h : s.decryptAll fmk k c = (.ok n, s', c')) : ∃ s₁, s.begin fmk = (.ok (), s₁) := by
  unfold decryptAll at h
  split at h
  · exact absurd (Prod.mk.inj h).1 (by simp)
  · exact ⟨_, by assumption⟩

end Opening

/-! ## Containers that were tampered with

What could be a forgery is limited to what a reader looks at: one code, and
one piece for each number. -/

namespace SealedRun

variable {σ τ γ : Type} (run : SealedRun σ)

/-- **Nothing was forged.** Of what a source shows to a reader, an
authentication code is accepted under the header key of the run only for
the head and the code that the run wrote, and a piece is accepted under
its content key only with the nonce, the context and the bytes of a frame
that the run encrypted. -/
structure Unforged (lenient : Bool) (source : Source) : Prop where
  mac : ∀ p rest, ParsedHeader.read lenient source = (.ok p, rest) →
    p.verify run.suite run.fmk = .ok () →
      p.preamble ++ p.json = run.parsed.preamble ++ run.parsed.json ∧ p.mac = run.parsed.mac
  aead : ∀ p rest, ParsedHeader.read lenient source = (.ok p, rest) →
    ∀ k piece, (pieces rest.contents)[k]? = some piece →
      run.suite.decrypt? (run.fmk.contentKey run.suite) (Channel.nonce p.payloadNonce k)
          (Channel.context p.version p.flags) piece ≠ none →
        ∃ j, ∃ h : j < run.frames.length,
          Channel.nonce p.payloadNonce k = Channel.nonce run.channel.base j ∧
            Channel.context p.version p.flags = Channel.context run.channel.version run.channel.flags ∧
            piece = run.channel.sealFrame run.suite j run.frames[j]

variable {run} {reader : Locksmith τ} {lenient : Bool} {source rest : Source} {s : Opening τ}

/-- A container is not forged, also with a few bytes behind it. -/
theorem unforged_of_append (hl : run.suite.CountsSealed) (hsteady : source.Steady)
    {more : Bytes} (hmore : more.length < 4) (hcontents : source.contents = run.container ++ more) :
    run.Unforged lenient source := by
  obtain ⟨hreadable, -, hcontainer, -⟩ := run.container_eq
  rw [hcontainer, List.append_assoc] at hcontents
  obtain ⟨rest, hread, -, hpayload⟩ := Header.read_sealed lenient hreadable hsteady hcontents
  constructor
  · intro p rest' hp _
    rw [hread] at hp
    obtain ⟨hhead, -⟩ := Prod.mk.inj hp
    cases hhead
    exact ⟨rfl, rfl⟩
  · intro p rest' hp k piece hpiece _
    rw [hread] at hp
    obtain ⟨hhead, rfl⟩ := Prod.mk.inj hp
    cases hhead
    rw [hpayload] at hpiece
    obtain ⟨hk, hsealed⟩ := getElem?_pieces_stream hl run.channel hmore hpiece
    rw [Nat.zero_add] at hsealed
    exact ⟨k, hk, rfl, rfl, hsealed⟩

/-- **A head that the master key confirms is the head of the run.** -/
theorem faces_of_verified (hsuite : reader.suite = run.suite) (hsteady : source.Steady)
    (hunforged : run.Unforged lenient source) (h : s.Untouched reader lenient source rest)
    (hverify : s.header.verify s.smith.suite run.fmk = .ok ()) :
    run.Faces s lenient rest ∧ rest.Steady ∧ source.contents
      = run.draft.header.sealed run.suite containerVersion run.flags run.fmk ++ rest.contents := by
  rw [h.smith, hsuite] at hverify
  obtain ⟨hsame, hmac⟩ := hunforged.mac _ _ h.header hverify
  have hheader : s.header = run.parsed :=
    Header.eq_parsed_of_read run.container_eq.1 h.header hsame hmac
  obtain ⟨hcontents, hsteady', -⟩ := ParsedHeader.read_ok h.header
  refine ⟨⟨by rw [h.smith, hsuite], hheader, h.lenient, h.stage⟩, hsteady' hsteady, ?_⟩
  rw [hcontents, hheader]
  rfl

/-- Behind such a head, the pieces are genuine. -/
theorem genuine_of_faces (hunforged : run.Unforged lenient source)
    (h : s.Untouched reader lenient source rest) (hfaces : run.Faces s lenient rest) :
    Supply.Genuine run.suite run.channel run.frames rest.contents := by
  intro k piece hpiece hauthentic
  have hread := h.header
  rw [hfaces.header] at hread
  obtain ⟨j, hj, hnonce, -, hsealed⟩ := hunforged.aead _ _ hread k piece hpiece hauthentic
  exact ⟨j, hj, hnonce, hsealed⟩

end SealedRun

/-- **Tampering is detected.** Let any bytes be read, with whatever locks
tried, and nothing in them be forged. If the master key of a run begins to
decrypt them, then whatever calls follow, in any order and with sinks that
take everything, what they tell is a beginning of what the run sealed, and
all of it where no entry is left. And they are decrypted as a whole only
if they begin with the container of the run; if data errors are not to be
ignored, only if they are the container. -/
theorem tampering_detected {σ τ γ : Type} (run : SealedRun σ) (hs : run.suite.OpensSealed)
    (hz : run.suite.InflatesDeflated) {reader : Locksmith τ} (hsuite : reader.suite = run.suite)
    {lenient : Bool} {source : Source} (hsteady : source.Steady)
    (hunforged : run.Unforged lenient source) {s₀ s : Opening τ}
    (hcreate : Opening.create reader lenient source = .ok s₀) {indices : List Nat} {w : World τ}
    (htried : (s₀.tryLocks indices w).1 = s) :
    (∀ s', s.begin run.fmk = (.ok (), s') → ∀ calls, Opening.Unfailing calls →
      (Opening.follow calls s').1 <+: Item.ofEntries run.entries ∧
        ((Opening.follow calls s').2.nextFile.1 = .ok none →
          (Opening.follow calls s').1 = Item.ofEntries run.entries)) ∧
    ∀ (k : Consumer γ) c n s' c', s.decryptAll run.fmk k c = (.ok n, s', c') →
      run.container <+: source.contents ∧
        (lenient = false → source.contents = run.container) := by
  obtain ⟨-, -, hcontainer, -, hstorable, hcount⟩ := run.container_eq
  obtain ⟨rest, huntouched⟩ := Opening.untouched_create hcreate
  have huntouched := huntouched.tryLocks indices w
  rw [htried] at huntouched
  have hends : Supply.Ends run.frames := Supply.ends_script run.entries
  -- whoever begins has had the head confirmed, and then the pieces behind it are genuine
  have hbegun : ∀ s₁, s.begin run.fmk = (.ok (), s₁) →
      ∃ p : Supply run.suite run.channel run.frames, run.Faces s lenient rest ∧
        p.Feeds (.create rest run.channel lenient) ∧ (p.Concluded lenient →
          run.container <+: source.contents ∧
            (lenient = false → source.contents = run.container)) := by
    intro s₁ hbegin
    obtain ⟨hfaces, hsteady', hcontents⟩ := SealedRun.faces_of_verified hsuite hsteady hunforged
      huntouched (Opening.verify_of_begin hbegin)
    have hgenuine := SealedRun.genuine_of_faces hunforged huntouched hfaces
    let p := Supply.authentic hs hz hcount hgenuine
    have hat : p.At 0 rest := ⟨hsteady', Nat.zero_le _, by simp, by simp⟩
    refine ⟨p, hfaces, p.feeds_create hat lenient, fun hend => ?_⟩
    obtain ⟨hbegins, hstrict⟩ := Supply.stream_of_concluded hs hz hcount hgenuine hend
    rw [hcontainer, hcontents]
    exact ⟨(List.prefix_append_right_inj _).mpr hbegins, fun hl => by rw [hstrict hl]⟩
  constructor
  · intro s' hbegin calls hcalls
    obtain ⟨p, hfaces, hfeeds, -⟩ := hbegun s' hbegin
    have htells : Opening.Tells p [] s' := by
      obtain ⟨-, rfl⟩ := Prod.mk.inj (hbegin.symm.trans hfaces.begin_eq)
      exact ⟨hfaces.suite, run.fmk, _, rfl, .reading hfeeds (by simp [Reader.create]) rfl⟩
    have hfollow := htells.follow hends hcalls
    rwa [SealedRun.frames, Item.ofFrames_script hstorable] at hfollow
  · intro k c n s' c' hdecrypt
    obtain ⟨s₁, hbegin⟩ := Opening.begin_of_decryptAll hdecrypt
    obtain ⟨p, hfaces, hfeeds, hwhole⟩ := hbegun s₁ hbegin
    obtain ⟨⟨result, r, c₁⟩, hdrain⟩ :
        ∃ x, Opening.drain run.suite k 0 (.create rest run.channel lenient) c = x := ⟨_, rfl⟩
    obtain ⟨rfl, -⟩ := Prod.mk.inj (hdecrypt.symm.trans (hfaces.decryptAll_eq hdrain))
    have hstands : p.Stands lenient (.create rest run.channel lenient) :=
      .reading hfeeds (by simp [Reader.create]) rfl
    exact hwhole (hstands.drain hends hdrain)

/-- Of two entries that were sealed, with a byte put behind them, no more is
told than what was sealed, and they are not decrypted as a whole. -/
theorem twoEntries_tampering_detected :
    ∃ (run : SealedRun Unit) (s s' : Opening Unit),
      run.entries = twoEntries ∧
      Opening.create (.plain [1]) false (.ofBytes (run.container ++ [0])) = .ok s ∧
      s.begin run.fmk = (.ok (), s') ∧
      (Opening.follow [.nextFile, .readContent .unlimited, .nextFile] s').1
        <+: Item.ofEntries twoEntries ∧
      ∀ n s'' files, s.decryptAll run.fmk .memory [] ≠ (.ok n, s'', files) := by
  obtain ⟨run, asked, hsmith, hentries, -⟩ :=
    SealedRun.exists_twoEntries (show (some [1]).getD [1] = [1] from rfl)
  have hsuite : run.suite = .plain := congrArg Locksmith.suite hsmith
  have hreader : (Locksmith.plain [1]).suite = run.suite := hsuite.symm
  have hl : run.suite.CountsSealed := hsuite ▸ Suite.plain_fitsFrames.countsSealed
  have hsteady := Source.steady_ofBytes (run.container ++ [0])
  have hcontents := Source.contents_ofBytes (run.container ++ [0])
  obtain ⟨-, -, hcontainer, -⟩ := run.container_eq
  obtain ⟨s, rest, hcreate, -, hfaces, -⟩ := SealedRun.create_of_head false hreader hsteady
    (hcontents.trans (by rw [hcontainer, List.append_assoc]))
  obtain ⟨hfollow, hwhole⟩ := tampering_detected (γ := List (FileInfo × Bytes)) run
    (hsuite ▸ Suite.plain_opensSealed) (hsuite ▸ Suite.plain_inflatesDeflated) hreader hsteady
    (SealedRun.unforged_of_append hl hsteady (show [0].length < 4 by decide) hcontents)
    hcreate (show (s.tryLocks [] ⟨.splitMix 2, ()⟩).1 = s from rfl)
  refine ⟨run, s, _, hentries, hcreate, hfaces.begin_eq, ?_, fun n s'' files hall => ?_⟩
  · have hsinks : Opening.Unfailing [.nextFile, .readContent .unlimited, .nextFile] := by
      intro sink hmem
      obtain rfl : sink = .unlimited := by simpa using hmem
      exact Sink.unbounded_unlimited
    rw [← hentries]
    exact (hfollow _ hfaces.begin_eq _ hsinks).1
  · have hsame := (hwhole .memory [] n s'' files hall).2 rfl
    rw [hcontents] at hsame
    exact absurd (congrArg List.length hsame) (by simp)

end Lockbox
