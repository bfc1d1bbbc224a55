import Lockbox.Proofs.Laws
/-!
# Lockbox — the script of a payload

What a payload is to consist of, told without the writer and the reader.
Entries with their data determine the frames: an announcement each, then
the data cut into frames that are full but for the last, and at the end
the frame that says so (`Frame.script`). A channel turns frames into
bytes (`Channel.stream`). What there is to see of it all are items, the
announcements and the bytes between them; `Item.ofFrames_script` says
that frames and entries show the same.
-/

namespace Lockbox

/-! ## Items -/

/-- The least thing that a payload shows: that an entry begins, or one byte
of its data. -/
inductive Item where
  | entry (info : FileInfo)
  | byte (b : UInt8)
  deriving DecidableEq

namespace Item

/-- The items of some data. -/
def ofData (b : Bytes) : List Item := b.map .byte

/-- The items of entries, one after the other. -/
def ofEntries (entries : List (FileInfo × Bytes)) : List Item :=
  entries.flatMap fun e => .entry e.1 :: ofData e.2

/-- The items of a frame. -/
def ofFrame : Frame → List Item
  | .file name size => [.entry ⟨name.val, size⟩]
  | .data chunk => ofData chunk.val
  | .finish => []

/-- The items of frames, one after the other. -/
def ofFrames (frames : List Frame) : List Item := frames.flatMap ofFrame

/-- Nothing shows nothing, and parts show their items one after the other. -/
@[simp] theorem ofData_nil : ofData [] = [] := rfl

@[simp] theorem ofData_append (a b : Bytes) : ofData (a ++ b) = ofData a ++ ofData b :=
  List.map_append

@[simp] theorem ofEntries_nil : ofEntries [] = [] := rfl

/-- An entry shows itself and its data before the entries that follow. -/
@[simp] theorem ofEntries_cons (e : FileInfo × Bytes) (es : List (FileInfo × Bytes)) :
    ofEntries (e :: es) = .entry e.1 :: ofData e.2 ++ ofEntries es := rfl

@[simp] theorem ofFrames_nil : ofFrames [] = [] := rfl

@[simp] theorem ofFrames_cons (f : Frame) (fs : List Frame) :
    ofFrames (f :: fs) = ofFrame f ++ ofFrames fs := rfl

/-- And so do frames. -/
@[simp] theorem ofFrames_append (fs gs : List Frame) :
    ofFrames (fs ++ gs) = ofFrames fs ++ ofFrames gs :=
  List.flatMap_append

/-- Every entry has the data that it was declared with. -/
def Complete (entries : List (FileInfo × Bytes)) : Prop :=
  ∀ e ∈ entries, e.2.length = e.1.size.toNat

end Item

/-! ## Data in frames

Data are cut from the front, so a prefix of whole chunks can be split off at
any time. -/

namespace Chunk

/-- The first bytes of some data, as many as fit, are a chunk. -/
theorem take_fits {data : Bytes} (h : data ≠ []) :
    0 < (data.take chunkSize).length ∧ (data.take chunkSize).length ≤ chunkSize := by
  have := List.length_pos_iff.mpr h
  rw [List.length_take, chunkSize]
  omega

/-- And fewer are left behind them. -/
theorem length_drop_lt {data : Bytes} (h : data ≠ []) :
    (data.drop chunkSize).length < data.length := by
  have := List.length_pos_iff.mpr h
  rw [List.length_drop, chunkSize]
  omega

/-- Data cut into chunks, all of them full but perhaps the last. -/
def cut (data : Bytes) : List Chunk :=
  if h : data = [] then [] else ⟨data.take chunkSize, take_fits h⟩ :: cut (data.drop chunkSize)
termination_by data.length
decreasing_by exact length_drop_lt h

@[simp] theorem cut_nil : cut [] = [] := by
  rw [cut, dif_pos rfl]

/-- The chunks hold the data. -/
theorem flatMap_cut (data : Bytes) : (cut data).flatMap Subtype.val = data := by
  fun_induction cut data with
  | case1 => rfl
  | case2 data h ih => rw [List.flatMap_cons, ih, List.take_append_drop]

/-- Data that fits one chunk is one. -/
theorem cut_of_le {data : Bytes} (h : 0 < data.length ∧ data.length ≤ chunkSize) :
    cut data = [⟨data, h⟩] := by
  rw [cut, dif_neg (List.length_pos_iff.mp h.1)]
  congr 1
  · exact Subtype.ext (List.take_of_length_le h.2)
  · rw [List.drop_eq_nil_of_le h.2, cut_nil]

/-- Behind full chunks the cut begins anew. -/
theorem cut_append {a : Bytes} (h : chunkSize ∣ a.length) (b : Bytes) :
    cut (a ++ b) = cut a ++ cut b := by
  fun_induction cut a with
  | case1 => rw [List.nil_append, List.nil_append]
  | case2 a hne ih =>
    have hpos := List.length_pos_iff.mpr hne
    have hle : chunkSize ≤ a.length := Nat.le_of_dvd hpos h
    have hdvd : chunkSize ∣ (a.drop chunkSize).length := by
      rw [List.length_drop]
      exact Nat.dvd_sub h (Nat.dvd_refl _)
    rw [cut, dif_neg (by simp [hne]), List.cons_append]
    simp only [List.take_append_of_le_length hle, List.drop_append_of_le_length hle]
    rw [ih hdvd]

end Chunk

namespace Frame

/-- The frame that announces an entry, if its name can be stored. -/
def announce (info : FileInfo) : List Frame :=
  match EntryName.ofText info.name with
  | .ok name => [.file name info.size]
  | .error _ => []

/-- The frames of data. -/
def ofData (data : Bytes) : List Frame := (Chunk.cut data).map .data

/-- The frames of entries, one after the other. -/
def ofEntries (entries : List (FileInfo × Bytes)) : List Frame :=
  entries.flatMap fun e => announce e.1 ++ ofData e.2

/-- **The frames of a payload**: those of its entries, and the last. -/
def script (entries : List (FileInfo × Bytes)) : List Frame := ofEntries entries ++ [.finish]

/-- An entry whose name can be stored is announced by one frame. -/
theorem announce_of_ok {info : FileInfo} {name : EntryName}
    (h : EntryName.ofText info.name = .ok name) : announce info = [.file name info.size] := by
  rw [announce, h]

/-- Behind full frames the frames of the other data begin. -/
theorem ofData_append {a : Bytes} (h : chunkSize ∣ a.length) (b : Bytes) :
    ofData (a ++ b) = ofData a ++ ofData b := by
  rw [ofData, Chunk.cut_append h, List.map_append]
  rfl

@[simp] theorem ofData_nil : ofData [] = [] := by
  rw [ofData, Chunk.cut_nil, List.map_nil]

/-- Data that fit one frame are one frame. -/
theorem ofData_of_le {data : Bytes} (h : 0 < data.length ∧ data.length ≤ chunkSize) :
    ofData data = [.data ⟨data, h⟩] := by
  rw [ofData, Chunk.cut_of_le h, List.map_singleton]

/-- Data begin with a chunk of them. -/
theorem ofData_cons {data : Bytes} (h : data ≠ []) :
    ∃ chunk : Chunk, chunk.val = data.take chunkSize ∧
      ofData data = .data chunk :: ofData (data.drop chunkSize) := by
  rw [ofData, Chunk.cut, dif_neg h]
  exact ⟨_, rfl, rfl⟩

@[simp] theorem ofEntries_nil : ofEntries [] = [] := rfl

/-- An entry is announced, and its data follow. -/
@[simp] theorem ofEntries_cons (e : FileInfo × Bytes) (es : List (FileInfo × Bytes)) :
    ofEntries (e :: es) = announce e.1 ++ ofData e.2 ++ ofEntries es := rfl

@[simp] theorem ofEntries_append (es fs : List (FileInfo × Bytes)) :
    ofEntries (es ++ fs) = ofEntries es ++ ofEntries fs :=
  List.flatMap_append

/-- Data never end a payload. -/
theorem finish_notMem_ofData (data : Bytes) : finish ∉ ofData data := by
  simp [ofData]

/-- Only the last frame of a payload is the last frame. -/
theorem finish_notMem_ofEntries (entries : List (FileInfo × Bytes)) :
    finish ∉ ofEntries entries := by
  induction entries with
  | nil => simp
  | cons e es ih =>
    have hann : finish ∉ announce e.1 := by
      unfold announce
      split <;> simp
    simp [hann, finish_notMem_ofData, ih]

end Frame

/-- The names of all entries can be stored. -/
def Storable (entries : List (FileInfo × Bytes)) : Prop :=
  ∀ e ∈ entries, ∃ name, EntryName.ofText e.1.name = .ok name

namespace Item

/-- However data are cut, their frames show every byte in its place. -/
theorem ofFrames_ofData (data : Bytes) : ofFrames (Frame.ofData data) = ofData data := by
  have hmap : ∀ chunks : List Chunk,
      ofFrames (chunks.map .data) = ofData (chunks.flatMap Subtype.val) := by
    intro chunks
    induction chunks with
    | nil => rfl
    | cons c chunks ih =>
      rw [List.map_cons, ofFrames_cons, ih, List.flatMap_cons, ofData_append]
      rfl
  rw [Frame.ofData, hmap, Chunk.flatMap_cut]

/-- The announcement shows its entry, under the name that was stored. -/
theorem ofFrames_announce {info : FileInfo} (h : ∃ name, EntryName.ofText info.name = .ok name) :
    ofFrames (Frame.announce info) = [.entry info] := by
  obtain ⟨name, hname⟩ := h
  rw [Frame.announce_of_ok hname]
  simp [ofFrame, EntryName.ofText_eq_ok_iff.mp hname]

/-- So the frames of entries show these entries. -/
theorem ofFrames_ofEntries {entries : List (FileInfo × Bytes)} (h : Storable entries) :
    ofFrames (Frame.ofEntries entries) = ofEntries entries := by
  induction entries with
  | nil => rfl
  | cons e es ih =>
    have hes : Storable es := fun g hg => h g (List.mem_cons_of_mem _ hg)
    rw [Frame.ofEntries_cons, ofFrames_append, ofFrames_append,
      ofFrames_announce (h e List.mem_cons_self), ofFrames_ofData, ih hes, ofEntries_cons]
    rfl

/-- **The frames of a payload show its entries.** -/
theorem ofFrames_script {entries : List (FileInfo × Bytes)} (h : Storable entries) :
    ofFrames (Frame.script entries) = ofEntries entries := by
  rw [Frame.script, ofFrames_append, ofFrames_ofEntries h]
  simp [ofFrame]

end Item

/-! ## Frames as bytes

Every frame is stored with its length before it and its number in its nonce.
What is stored of the frames behind some others begins where those end. -/

namespace Channel

variable (S : Suite) (c : Channel)

/-- A frame as it is stored: the length of its encrypted form, and that. -/
def store (counter : Nat) (frame : Frame) : Bytes :=
  Bytes.ofNat 4 (c.sealFrame S counter frame).length ++ c.sealFrame S counter frame

/-- Frames as they are stored, one after the other, numbered from `counter`
on. -/
def stream : (counter : Nat) → List Frame → Bytes
  | _, [] => []
  | n, f :: rest => c.store S n f ++ stream (n + 1) rest

@[simp] theorem stream_nil (n : Nat) : c.stream S n [] = [] := rfl

@[simp] theorem stream_cons (n : Nat) (f : Frame) (fs : List Frame) :
    c.stream S n (f :: fs) = c.store S n f ++ c.stream S (n + 1) fs := rfl

/-- The frames behind others are stored behind them, with the numbers that
follow. -/
theorem stream_append (n : Nat) (fs gs : List Frame) :
    c.stream S n (fs ++ gs) = c.stream S n fs ++ c.stream S (n + fs.length) gs := by
  -- each frame moves the number of those behind it by one
  induction fs generalizing n with
  | nil => rfl
  | cons f fs ih =>
    rw [List.cons_append, stream_cons, ih, stream_cons, List.append_assoc, List.length_cons,
      Nat.add_assoc, Nat.add_comm 1]

/-- A stored frame is at least a byte long. -/
theorem length_le_stream (n : Nat) (fs : List Frame) : fs.length ≤ (c.stream S n fs).length := by
  induction fs generalizing n with
  | nil => exact Nat.le_refl _
  | cons f fs ih =>
    have hrest := ih (n + 1)
    simp only [stream_cons, store, List.length_append, Bytes.length_ofNat, List.length_cons]
    omega

/-- What is stored splits where a frame begins. -/
theorem stream_drop {n : Nat} {fs : List Frame} (h : n < fs.length) :
    c.stream S n (fs.drop n) = c.store S n fs[n] ++ c.stream S (n + 1) (fs.drop (n + 1)) := by
  rw [List.drop_eq_getElem_cons h, stream_cons]

/-- One frame more of a payload is stored behind the others. -/
theorem stream_take_succ {n : Nat} {fs : List Frame} (h : n < fs.length) :
    c.stream S 0 (fs.take (n + 1)) = c.stream S 0 (fs.take n) ++ c.store S n fs[n] := by
  rw [List.take_succ_eq_append_getElem h, stream_append, List.length_take,
    Nat.min_eq_left (Nat.le_of_lt h)]
  simp

end Channel

end Lockbox
