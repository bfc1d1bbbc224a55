import Lockbox.Proofs.Ending
/-!
# Lockbox — sources and declared sizes

To encrypt everything at once is to declare each entry and to read its source
until the declared size is reached. A source that has less to give leaves its
entry incomplete, and then nothing is sealed. What a source would deliver
beyond the declared size is never read, so it makes no difference
(`encryptAll_upTo`); in particular it is no failure, although more bytes than
declared are one where they are handed over (`declared_size_sealed`).
-/

namespace Lockbox

/-! ## What a source delivers -/

namespace Source

/-- The bytes that are delivered before the end, or before the first read that
fails. -/
def delivered : Source → Bytes
  | [] => []
  | .interrupted :: rest => delivered rest
  | .failure _ :: _ => []
  | .bytes b :: rest => b ++ delivered rest

/-- The source as far as it delivers `n` bytes. -/
def upTo : Nat → Source → Source
  | _, [] => []
  | n, .interrupted :: rest => .interrupted :: upTo n rest
  | _, .failure e :: _ => [.failure e]
  | n, .bytes b :: rest =>
    if n ≤ b.length then [.bytes (b.take n)] else .bytes b :: upTo (n - b.length) rest

/-- Up to `n` bytes a source delivers the first `n` bytes. -/
theorem contents_upTo (n : Nat) (s : Source) : (upTo n s).contents = s.delivered.take n := by
  induction s generalizing n with
  | nil => simp [upTo, contents, delivered]
  | cons d rest ih =>
    cases d with
    | interrupted => exact ih n
    | failure e => simp [upTo, contents, delivered]
    | bytes b =>
      rw [upTo, delivered]
      split
      · rename_i hle
        rw [List.take_append_of_le_length hle]
        simp [contents]
      · rename_i hlt
        rw [contents, ih, List.take_append, List.take_of_length_le (show b.length ≤ n by omega)]

/-- **Reads within `n` bytes do not tell where a source would end.** -/
theorem read_upTo {most n : Nat} (hmost : 0 < most) (hn : most ≤ n) (s : Source) :
    match read most s with
    | (.ended, _) => (read most (upTo n s)).1 = .ended
    | (.failed e, _) => (read most (upTo n s)).1 = .failed e
    | (.got b, s') => read most (upTo n s) = (.got b, upTo (n - b.length) s') := by
  fun_induction read most s with
  | case1 => rfl
  | case2 rest ih => simpa [upTo, read] using ih
  | case3 e rest => rfl
  | case4 rest ih =>
    have hne : n ≠ 0 := by omega
    simpa [upTo, hne, read] using ih
  | case5 c b rest =>
    dsimp only
    have hlength : ((c :: b).take most).length = min most (c :: b).length := List.length_take
    have hleft : ((c :: b).drop most).length = (c :: b).length - most := List.length_drop
    by_cases hle : n ≤ (c :: b).length
    · -- the piece is cut, behind what is read of it
      obtain ⟨m, rfl⟩ : ∃ m, n = m + 1 := ⟨n - 1, by omega⟩
      have hmost : m + 1 - ((c :: b).take most).length = m + 1 - most := by omega
      rw [upTo, if_pos hle, List.take_succ_cons, read, ← List.take_succ_cons, upTo, hmost,
        if_pos (by omega), List.take_take, Nat.min_eq_left hn, List.drop_take]
    · rw [upTo, if_neg hle, read, upTo, if_neg (by omega)]
      have hrest : n - ((c :: b).take most).length - ((c :: b).drop most).length
          = n - (c :: b).length := by omega
      rw [hrest]

end Source

namespace Sealing

variable {σ : Type} {s s' : Sealing σ} {w w' : World σ}

/-! ## What lies beyond the declared size

Adding an entry asks for as many bytes as were declared, and then stops. A
source that is cut off there cannot be told from one that goes on. -/

/-- **No more is read of a source than is wanted of it.** -/
theorem pump_upTo (remaining : Nat) (source : Source) (s : Sealing σ) :
    s.pump remaining (source.upTo remaining) = s.pump remaining source := by
  induction hn : source.weight using Nat.strongRecOn generalizing s remaining source with
  | ind weight ih =>
    by_cases hr : remaining = 0
    · rw [pump, dif_pos hr, pump, dif_pos hr]
    · have hpos : 0 < min chunkSize remaining := by
        have : 0 < chunkSize := by decide
        omega
      have hread := Source.read_upTo hpos (Nat.min_le_right chunkSize remaining) source
      rcases hanswer : source.read (min chunkSize remaining) with ⟨answer, source'⟩
      rw [hanswer] at hread
      cases answer with
      | ended => rw [pump_of_ended hr hanswer, pump_of_ended hr (Prod.ext hread rfl)]
      | failed e => rw [pump_of_failed hr hanswer, pump_of_failed hr (Prod.ext hread rfl)]
      | got b =>
        have hless := Source.weight_read hpos hanswer (by simp)
        rw [pump_of_got hr hanswer, pump_of_got hr hread]
        rcases s.writeData b with ⟨e | u, s₁⟩
        · rfl
        · exact ih source'.weight (hn ▸ hless) (remaining - b.length) source' s₁ rfl

/-- Entries whose sources end where their declared sizes do. -/
def withinSizes (files : List (FileInfo × Source)) : List (FileInfo × Source) :=
  files.map fun file => (file.1, file.2.upTo file.1.size.toNat)

/-- **Files are added by what they hold up to their sizes.** -/
theorem addFiles_upTo (files : List (FileInfo × Source)) (s : Sealing σ) :
    s.addFiles (withinSizes files) = s.addFiles files := by
  induction files generalizing s with
  | nil => rfl
  | cons file rest ih =>
    obtain ⟨info, source⟩ := file
    have hfirst : withinSizes ((info, source) :: rest)
        = (info, source.upTo info.size.toNat) :: withinSizes rest := rfl
    rw [hfirst, addFiles, addFiles]
    rcases s.addFile info.name info.size with ⟨e | u, s₁⟩
    · rfl
    · dsimp only
      rw [pump_upTo]
      rcases s₁.pump info.size.toNat source with ⟨e | u, s₂⟩
      · rfl
      · exact ih s₂

/-- **What sources deliver beyond the declared sizes makes no difference.** -/
theorem encryptAll_upTo (recipients : List Recipient) (files : List (FileInfo × Source))
    (s : Sealing σ) (w : World σ) :
    s.encryptAll recipients (withinSizes files) w = s.encryptAll recipients files w := by
  simp only [encryptAll, addFiles_upTo]

/-! ## What is not finished is not sealed -/

/-- Calls that do not finish do not seal. -/
theorem ne_sealed_played {calls : List Call} (hlast : .finish ∉ calls) (h : s.stage ≠ .sealed)
    (w : World σ) : (played calls s w).1.stage ≠ .sealed := by
  induction calls generalizing s w with
  | nil => exact h
  | cons call calls ih =>
    refine ih (fun hmem => hlast (List.mem_cons_of_mem _ hmem)) (fun hsealed => ?_) _
    obtain ⟨rfl, -⟩ := sealed_next h hsealed
    exact hlast List.mem_cons_self

theorem finish_notMem_callsOfRecipients (recipients : List Recipient) (s : Sealing σ)
    (w : World σ) : .finish ∉ callsOfRecipients recipients s w := by
  induction recipients generalizing s w with
  | nil => exact List.not_mem_nil
  | cons r rest ih =>
    rw [callsOfRecipients, List.mem_cons, not_or]
    refine ⟨by simp, ?_⟩
    split
    · exact ih _ _
    · exact List.not_mem_nil

theorem finish_notMem_callsOfPump (remaining : Nat) (source : Source) (s : Sealing σ) :
    .finish ∉ callsOfPump remaining source s := by
  fun_induction callsOfPump remaining source s with
  | case1 => exact List.not_mem_nil
  | case2 => exact List.not_mem_nil
  | case3 => exact List.not_mem_nil
  | case4 remaining source s hr hpos b source' hread hlt ih =>
    rw [List.mem_cons, not_or]
    refine ⟨by simp, ?_⟩
    split
    · exact ih _
    · exact List.not_mem_nil

/-- Files are added without finishing. -/
theorem finish_notMem_callsOfFiles (files : List (FileInfo × Source)) (s : Sealing σ) :
    .finish ∉ callsOfFiles files s := by
  induction files generalizing s with
  | nil => exact List.not_mem_nil
  | cons file rest ih =>
    obtain ⟨info, source⟩ := file
    rw [callsOfFiles, List.mem_cons, not_or]
    refine ⟨by simp, ?_⟩
    split
    · exact List.not_mem_nil
    · rw [List.mem_append, not_or]
      refine ⟨finish_notMem_callsOfPump _ _ _, ?_⟩
      split
      · exact List.not_mem_nil
      · exact ih _

/-- **A session that has just been created is sealed at once exactly if that
succeeds.** -/
theorem encryptAll_ok_iff_sealed {recipients : List Recipient} {files : List (FileInfo × Source)}
    (hcreated : s.stage = .created) : (s.encryptAll recipients files w).1 = .ok () ↔
      (s.encryptAll recipients files w).2.1.isSealed = true := by
  rw [isSealed_iff, encryptAll, ensureBegun, hcreated]
  dsimp only
  have hbegun : ∃ s₁ w₁, s.begin w = (.ok (), s₁, w₁) ∧ s₁.stage ≠ .sealed := by
    simp only [Sealing.begin, hcreated]
    exact ⟨_, _, rfl, by simp⟩
  obtain ⟨s₁, w₁, hbegin, hopen₁⟩ := hbegun
  rw [hbegin]
  dsimp only
  have hopen₂ := ne_sealed_played (finish_notMem_callsOfRecipients recipients s₁ w₁) hopen₁ w₁
  rw [played_callsOfRecipients] at hopen₂
  rcases hlocks : s₁.addRecipients recipients w₁ with ⟨e | u, s₂, w₂⟩
  · rw [hlocks] at hopen₂
    exact iff_of_false (by simp) hopen₂
  · rw [hlocks] at hopen₂
    dsimp only
    have hopen₃ := ne_sealed_played (finish_notMem_callsOfFiles files s₂) hopen₂ w₂
    rw [played_callsOfFiles] at hopen₃
    rcases hfiles : s₂.addFiles files with ⟨e | u, s₃⟩
    · rw [hfiles] at hopen₃
      exact iff_of_false (by simp) hopen₃
    · rw [hfiles] at hopen₃
      constructor
      · exact sealed_of_finish
      · intro hsealed
        have hnext : (Call.finish.next s₃ w₂).1.stage = .sealed := hsealed
        exact (sealed_next hopen₃ hnext).2

/-- **What was encrypted at once is what was declared of each source,** and
each has delivered as much. -/
theorem encryptAll_delivered {smith : Locksmith σ} {spool dest : Sink} {start : Sealing σ}
    {recipients : List Recipient} {files : List (FileInfo × Source)}
    (hcreate : create smith containerVersion spool dest = .ok start) (hfresh : spool.accepted = [])
    (hok : (start.encryptAll recipients files w).1 = .ok ()) :
    (∀ file ∈ files, file.1.size.toNat ≤ file.2.delivered.length) ∧
    ∃ run : SealedRun σ, run.smith = smith ∧
      run.recipients.map Enrolled.recipient = recipients ∧
      run.entries = files.map (fun file => (file.1, file.2.delivered.take file.1.size.toNat)) ∧
      (start.encryptAll recipients files w).2.1.dest.accepted = dest.accepted ++ run.container := by
  -- of sources that end where they should, all that was read is all that they hold
  have hall : start.encryptAll recipients (withinSizes files) w
      = (.ok (), (start.encryptAll recipients files w).2) := by
    rw [encryptAll_upTo]
    exact Prod.ext hok rfl
  obtain ⟨run, hsmith, hrecipients, hentries, haccepted⟩ := encryptAll_sealed hcreate hfresh hall
  have htaken : run.entries
      = files.map (fun file => (file.1, file.2.delivered.take file.1.size.toNat)) := by
    rw [hentries, withinSizes, List.map_map]
    refine List.map_congr_left fun file _ => ?_
    simp only [Function.comp_apply, Source.contents_upTo, List.take_take, Nat.min_self]
  obtain ⟨-, -, -, hcomplete, -⟩ := run.container_eq
  refine ⟨fun file hfile => ?_, run, hsmith, hrecipients, htaken, haccepted⟩
  rw [htaken] at hcomplete
  have hlength : (file.2.delivered.take file.1.size.toNat).length = file.1.size.toNat :=
    hcomplete _ (List.mem_map_of_mem hfile)
  rw [List.length_take] at hlength
  omega

end Sealing

open Sealing in
/-- **Entries are sealed with as many bytes as were declared.** To encrypt
everything with a new session succeeds exactly if the session is sealed
afterwards. It is sealed only if every source delivers, however its reads cut
that and interrupt it, at least the bytes that were declared for it; then the
container holds that many of each, and where no source has more, all of them.
If one source has fewer, that is a failure, and nothing is sealed. What a
source has beyond the declared size is never read: the outcome is the same as
for sources that end there. -/
theorem declared_size_sealed {σ : Type} {smith : Locksmith σ} {version : UInt8} {spool dest : Sink}
    {start : Sealing σ} (hcreate : create smith version spool dest = .ok start)
    (hfresh : spool.accepted = []) (recipients : List Recipient) (files : List (FileInfo × Source))
    (world : World σ) :
    ((start.encryptAll recipients files world).1 = .ok () ↔
      (start.encryptAll recipients files world).2.1.isSealed = true) ∧
    ((start.encryptAll recipients files world).1 = .ok () →
      (∀ file ∈ files, file.1.size.toNat ≤ file.2.delivered.length) ∧
      ∃ run : SealedRun σ, run.smith = smith ∧
        run.recipients.map Enrolled.recipient = recipients ∧
        run.entries = files.map (fun file => (file.1, file.2.delivered.take file.1.size.toNat)) ∧
        (start.encryptAll recipients files world).2.1.dest.accepted
          = dest.accepted ++ run.container) ∧
    ((∃ file ∈ files, file.2.delivered.length < file.1.size.toNat) →
      (∃ e, (start.encryptAll recipients files world).1 = .error e) ∧
        (start.encryptAll recipients files world).2.1.isSealed = false) ∧
    ((∀ file ∈ files, file.2.delivered.length ≤ file.1.size.toNat) →
      (start.encryptAll recipients files world).1 = .ok () →
      ∀ file ∈ files, file.2.delivered.length = file.1.size.toNat) ∧
    start.encryptAll recipients files world
      = start.encryptAll recipients (withinSizes files) world := by
  have hstart := create_ok hcreate
  have hcreated : start.stage = .created := by rw [hstart]
  have hcurrent : create smith containerVersion spool dest = .ok start := by
    rw [hstart]
    exact if_pos rfl
  have hsealed : (start.encryptAll recipients files world).1 = .ok () ↔
      (start.encryptAll recipients files world).2.1.isSealed = true :=
    encryptAll_ok_iff_sealed hcreated
  refine ⟨hsealed, encryptAll_delivered hcurrent hfresh, ?_, ?_,
    (encryptAll_upTo recipients files start world).symm⟩
  · rintro ⟨file, hfile, hshort⟩
    have hfails : (start.encryptAll recipients files world).1 ≠ .ok () := by
      intro hok
      have hleast := (encryptAll_delivered hcurrent hfresh hok).1 file hfile
      omega
    constructor
    · rcases hresult : (start.encryptAll recipients files world).1 with e | u
      · exact ⟨e, rfl⟩
      · exact absurd hresult hfails
    · rw [Ne, hsealed] at hfails
      simpa using hfails
  · intro hfew hok file hfile
    have hmost := hfew file hfile
    have hleast := (encryptAll_delivered hcurrent hfresh hok).1 file hfile
    omega

open Sealing in
/-- Two bytes that were declared and one that is delivered. -/
theorem shortSource_declared_size_sealed : ∃ start : Sealing Unit,
    create (.plain [1]) containerVersion .unlimited .unlimited = .ok start ∧
    (let after := start.encryptAll [.symmetricKey "key" (some [1])]
      [(⟨"one", 2⟩, [.interrupted, .bytes [7], .interrupted])] ⟨.splitMix 1, ()⟩
    (∃ e, after.1 = .error e) ∧ after.2.1.isSealed = false) := by
  have hcreate : create (.plain [1]) containerVersion .unlimited .unlimited
      = .ok (⟨.plain [1], containerVersion, ⟨(Locksmith.plain [1]).config.compress⟩, .unlimited,
        .unlimited, .created⟩ : Sealing Unit) := if_pos rfl
  obtain ⟨-, -, hshort, -⟩ := declared_size_sealed hcreate rfl [.symmetricKey "key" (some [1])]
    [(⟨"one", 2⟩, [.interrupted, .bytes [7], .interrupted])] ⟨.splitMix 1, ()⟩
  exact ⟨_, hcreate, hshort ⟨_, List.mem_cons_self, by decide⟩⟩

open Sealing in
/-- **A source may have more than was declared.** One byte is declared, two
are delivered, and the container is sealed. -/
theorem overlong_source_sealed : ∃ start : Sealing Unit,
    create (.plain [1]) containerVersion .unlimited .unlimited = .ok start ∧
    (let file : FileInfo × Source := (⟨"one", 1⟩, [.bytes [7, 8]])
    let after := start.encryptAll [.symmetricKey "key" (some [1])] [file] ⟨.splitMix 1, ()⟩
    after.1 = .ok () ∧ after.2.1.isSealed = true ∧
      file.2.delivered.length ≠ file.1.size.toNat) := by
  have hstored : EntryName.ofText "one" = .ok ⟨"one", by decide⟩ :=
    EntryName.ofText_eq_ok_iff.mpr rfl
  have hdeliver : Deliver [(⟨"one", 1⟩, [.bytes [7]])] := by
    intro file hfile
    obtain rfl := List.mem_singleton.mp hfile
    exact ⟨Source.steady_ofBytes [7], rfl⟩
  have hstorable : ∀ file ∈ [((⟨"one", 1⟩, [.bytes [7]]) : FileInfo × Source)],
      ∃ stored, EntryName.ofText file.1.name = .ok stored := by
    intro file hfile
    obtain rfl := List.mem_singleton.mp hfile
    exact ⟨_, hstored⟩
  obtain ⟨bytes, w', hcontainer⟩ : ∃ bytes w', container (.plain [1])
      [.symmetricKey "key" (some [1])] [(⟨"one", 1⟩, [.bytes [7]])] ⟨.splitMix 1, ()⟩
      = (.ok bytes, w') :=
    container_succeeds Suite.plain_fitsFrames.tag (by simp) (by decide)
      (Locksmith.plain_keyAtHand [1]) hdeliver hstorable (by simp) (by decide) ⟨.splitMix 1, ()⟩
  unfold container at hcontainer
  split at hcontainer
  · exact absurd (Prod.mk.inj hcontainer).1 (by simp)
  · rename_i start hcreate
    split at hcontainer
    · exact absurd (Prod.mk.inj hcontainer).1 (by simp)
    · rename_i s' w₂ hall
      -- the source that ends behind the first byte is as good
      have hsame := encryptAll_upTo [.symmetricKey "key" (some [1])] [(⟨"one", 1⟩, [.bytes [7, 8]])]
        start ⟨.splitMix 1, ()⟩
      have hok : (start.encryptAll [.symmetricKey "key" (some [1])]
          [(⟨"one", 1⟩, [.bytes [7, 8]])] ⟨.splitMix 1, ()⟩).1 = .ok () := by
        rw [← hsame]
        exact congrArg Prod.fst hall
      have hcreated : start.stage = .created := by rw [create_ok hcreate]
      exact ⟨start, hcreate, hok, (encryptAll_ok_iff_sealed hcreated).mp hok, by decide⟩

end Lockbox
