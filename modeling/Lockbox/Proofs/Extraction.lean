import Lockbox.Consumer.Directory
import Lockbox.Proofs.Following
import Lockbox.Proofs.Places
/-!
# Lockbox — what extraction leaves

A container that nobody can trust is extracted into a directory: its
entries may have any names and sizes, it may end or break anywhere, and the
directory may hold anything before. Nor is the disk to be trusted: it may
refuse to create a file, and a file may fail at any write and when it is
flushed. `extraction_contained` says what is there afterwards, whether or not
the extraction came to its end.

The frames that were read are followed along (`Payload.Shows`), since what
is put into a file must have come from them; the tree is followed by an
invariant (`Extraction.Holds`), which every entry keeps, whether it becomes
a file or is given up.
-/

namespace Lockbox

namespace Payload

/-! ## Frames that were read

A frame counts as read only if it stood in the source and was opened under
its number. So what a payload `Shows` is what whoever has the key has made. -/

/-- These frames stand first in some bytes, each stored with its length and
authentic under its number of the channel, and `rest` follows. -/
inductive Shows (S : Suite) (c : Channel) : (counter : Nat) → Bytes → List Frame → Bytes → Prop where
  | nil (counter : Nat) (rest : Bytes) : Shows S c counter rest [] rest
  | cons {counter : Nat} {length sealed after rest : Bytes} {f : Frame} {frames : List Frame}
      (hfour : length.length = 4) (hlength : Bytes.toNat length = sealed.length)
      (hopen : c.openFrame S counter sealed = .ok f)
      (hafter : Shows S c (counter + 1) after frames rest) :
      Shows S c counter (length ++ sealed ++ after) (f :: frames) rest

variable {S : Suite} {c : Channel} {counter : Nat} {b rest rest' : Bytes} {frames frames' : List Frame}

/-- One stretch of frames behind another is numbered on. -/
theorem Shows.append (h : Shows S c counter b frames rest)
    (h' : Shows S c (counter + frames.length) rest frames' rest') :
    Shows S c counter b (frames ++ frames') rest' := by
  induction h with
  | nil => exact h'
  | cons hfour hlength hopen _ ih =>
    refine .cons hfour hlength hopen (ih ?_)
    rwa [List.length_cons, ← Nat.add_assoc, Nat.add_right_comm] at h'

/-- A reader has read these frames and become another one. -/
structure Reader.Read (S : Suite) (r : Reader) (frames : List Frame) (r' : Reader) : Prop where
  channel : r'.channel = r.channel
  counter : r'.counter = r.counter + frames.length
  shows : Shows S r.channel r.counter r.source.contents frames r'.source.contents

namespace Reader

variable {r r' r'' : Reader} {f : Frame} {info : FileInfo}

theorem Read.refl (r : Reader) : r.Read S [] r := ⟨rfl, rfl, .nil _ _⟩

/-- Frames read one after the other. -/
theorem Read.trans (h : r.Read S frames r') (h' : r'.Read S frames' r'') :
    r.Read S (frames ++ frames') r'' where
  channel := h'.channel.trans h.channel
  counter := by rw [h'.counter, h.counter, List.length_append, Nat.add_assoc]
  shows := by
    have hlater := h'.shows
    rw [h.channel, h.counter] at hlater
    exact h.shows.append hlater

/-- What was read does not depend on where the reader stands in an entry. -/
theorem Read.withCursor (h : r.Read S frames r') (cursor : Cursor) :
    r.Read S frames { r' with cursor } := ⟨h.channel, h.counter, h.shows⟩

/-- To read a frame is to read one. -/
theorem read_of_readFrame (h : r.readFrame S = (.ok f, r')) : r.Read S [f] r' := by
  obtain ⟨length, sealed, hcontents, hfour, hlength, hopen, -, hr'⟩ := readFrame_ok h
  refine ⟨by rw [hr'], by rw [hr']; rfl, ?_⟩
  rw [hcontents]
  exact .cons hfour hlength hopen (.nil _ _)

/-- **An entry that is announced** was read as a frame. -/
theorem read_of_next (h : r.next S = (.ok (some info), r')) :
    ∃ name size, info = ⟨name.val, size⟩ ∧ r.Read S [.file name size] r' ∧
      r'.cursor = .pending info size.toNat := by
  have hadvance : r.advance S = (.ok (some info), r') := by
    rcases Supply.next_cases h with ⟨-, e, he⟩ | ⟨-, hnone, -⟩ | ⟨hadvance, -⟩
    · exact absurd he (by simp)
    · exact absurd hnone (by simp)
    · exact hadvance
  unfold advance at hadvance
  split at hadvance
  · exact absurd (Prod.mk.inj hadvance).1 (by simp)
  · rename_i name size r₁ hread
    obtain ⟨hinfo, rfl⟩ := Prod.mk.inj hadvance
    cases hinfo
    exact ⟨name, size, rfl, (read_of_readFrame hread).withCursor _, rfl⟩
  · split at hadvance <;> exact absurd (Prod.mk.inj hadvance).1 (by simp)
  · exact absurd (Prod.mk.inj hadvance).1 (by simp)

/-- **Data that were poured out** were read as frames, and they are as many
as were left. -/
theorem read_of_pour {remaining : Nat} {sink sink' : Sink}
    (h : pour S info remaining r sink = (.ok (), r', sink')) :
    ∃ chunks : List Chunk, r.Read S (chunks.map .data) r' ∧
      sink'.accepted = sink.accepted ++ chunks.flatMap Subtype.val ∧
      (chunks.flatMap Subtype.val).length = remaining := by
  fun_induction pour S info remaining r sink with
  | case1 r sink =>
    cases h
    exact ⟨[], .refl _, by simp, rfl⟩
  | case2 => exact absurd (Prod.mk.inj h).1 (by simp)
  | case3 remaining r sink _ chunk r₁ hread _ result r₂ hfail =>
    cases hfail
    exact absurd (Prod.mk.inj h).1 (by simp)
  | case4 => exact absurd (Prod.mk.inj h).1 (by simp)
  | case5 remaining r sink _ chunk r₁ hread hfit sink₁ hwrite left ih =>
    obtain ⟨chunks, hrest, haccepted, hlength⟩ := ih h
    have hfirst := (read_of_readFrame hread).withCursor (.pending info left)
    refine ⟨chunk :: chunks, hfirst.trans hrest, ?_, ?_⟩
    · rw [haccepted, Sink.accepted_write_of_ok hwrite, List.flatMap_cons, List.append_assoc]
    · rw [List.flatMap_cons, List.length_append, hlength]
      omega
  | case6 remaining r sink _ f r₁ hne hread result r₂ hfail =>
    cases hfail
    exact absurd (Prod.mk.inj h).1 (by simp)

/-- The same for the data of an entry: there are as many as were declared. -/
theorem read_of_readInto {size : UInt64} {sink sink' : Sink}
    (hcursor : r.cursor = .pending info info.size.toNat)
    (h : r.readInto S sink = (.ok size, r', sink')) :
    ∃ chunks : List Chunk, r.Read S (chunks.map .data) r' ∧
      sink'.accepted = sink.accepted ++ chunks.flatMap Subtype.val ∧
      (chunks.flatMap Subtype.val).length = info.size.toNat := by
  unfold readInto at h
  rw [hcursor] at h
  split at h
  · exact absurd (Prod.mk.inj h).1 (by simp)
  · dsimp only at h
    rw [if_neg (by simp)] at h
    split at h
    · exact absurd (Prod.mk.inj h).1 (by simp)
    · rename_i r₁ sink₁ hpour
      obtain ⟨chunks, hread, haccepted, hlength⟩ := read_of_pour hpour
      split at h
      · exact absurd (Prod.mk.inj h).1 (by simp)
      · cases h
        exact ⟨chunks, hread.withCursor _, haccepted, hlength⟩

end Reader

end Payload

/-! ## One entry

A consumer has three operations on an entry. To open it creates an empty
file where nothing was; to close it fills that file, and to abort it removes
it. -/

namespace Consumer

variable {disk : Disk} {dir name path : String} {info : FileInfo} {x x' : Extraction} {base : Place}
  {sink : Sink}

/-- The name of the file that an entry becomes. -/
def lastName (name : String) : String := String.ofList (Text.lastPart separatesName name.toList)

/-- No character of a last name separates names. -/
theorem separates_lastName {c : Char} (hc : c ∈ (lastName name).toList) : separatesName c = false := by
  rw [lastName, String.toList_ofList] at hc
  exact Text.lastPart_separates hc

theorem slash_notMem_lastName (name : String) : '/' ∉ (lastName name).toList := fun h =>
  absurd (separates_lastName h) (by decide)

theorem backslash_notMem_lastName (name : String) : '\\' ∉ (lastName name).toList := fun h =>
  absurd (separates_lastName h) (by decide)

/-- A name without separators is its last name. -/
theorem lastName_of_not {name : String} (h : ∀ c ∈ name.toList, separatesName c = false) :
    lastName name = name := by
  rw [lastName, Text.lastPart_of_not h, String.ofList_toList]

/-- **An entry has a path just if its last name is the name of a file.** -/
theorem target_eq_ok_iff : target dir name = .ok path ↔
    Path.IsName (lastName name) ∧ path = Path.join dir (lastName name) := by
  unfold target
  dsimp only
  split
  · rename_i hnone
    refine ⟨fun h => absurd h (by simp), fun ⟨hname, _⟩ => ?_⟩
    rcases hnone with h | h | h
    · exact absurd h hname.nonempty
    · exact absurd h hname.ne_dot
    · exact absurd h hname.ne_dots
  · rename_i hsome
    obtain ⟨hnonempty, hdot, hdots⟩ : lastName name ≠ "" ∧ lastName name ≠ "." ∧
        lastName name ≠ ".." := by simpa [lastName, not_or] using hsome
    constructor
    · intro h
      exact ⟨⟨hnonempty, hdot, hdots, slash_notMem_lastName name⟩, (Except.ok.inj h).symm⟩
    · rintro ⟨-, rfl⟩
      rfl

/-- A name of the directory under which nothing is there yet. -/
structure Fresh (t : FileTree) (dir name : String) (base : Place) : Prop where
  isName : Path.IsName name
  located : t.locate (Path.join dir name) = .ok (base ++ [name])
  entered : t.enter dir = .ok base
  directory : t.node? base = some .directory
  absent : t.node? (base ++ [name]) = none

/-- A file where nothing was yet changes no directory. -/
theorem Fresh.sameDirectories {t : FileTree} (h : Fresh t dir name base) (data : Bytes) :
    FileTree.SameDirectories t (t.put (base ++ [name]) (.file data)) :=
  FileTree.sameDirectories_put (by simp [h.absent]) data

/-- A file that was put there is found under its path. -/
theorem Fresh.located_put {t : FileTree} (h : Fresh t dir name base) (data : Bytes) :
    (t.put (base ++ [name]) (.file data)).locate (Path.join dir name) = .ok (base ++ [name]) :=
  (h.sameDirectories data).locate h.located

/-- An entry that could not be opened changes nothing. -/
theorem openEntry_error {e : IoError} (h : (directory disk dir).openEntry info x = (.error e, x')) :
    x' = x := by
  unfold directory at h
  dsimp only at h
  split at h
  · exact (Prod.mk.inj h).2.symm
  · split at h
    · exact (Prod.mk.inj h).2.symm
    · split at h
      · -- the tree had room for the file, and the system did not
        exact (Prod.mk.inj h).2.symm
      · exact absurd (Prod.mk.inj h).1 (by simp)

/-- **An entry that was opened** has an empty file where nothing was, and a
sink that has taken nothing. -/
theorem openEntry_ok (h : (directory disk dir).openEntry info x = (.ok sink, x')) :
    sink.accepted = [] ∧ ∃ base, Fresh x.tree dir (lastName info.name) base ∧
      x' = { x with tree := x.tree.put (base ++ [lastName info.name]) (.file []) } := by
  unfold directory at h
  dsimp only at h
  split at h
  · exact absurd (Prod.mk.inj h).1 (by simp)
  · rename_i path htarget
    obtain ⟨hname, rfl⟩ := target_eq_ok_iff.mp htarget
    split at h
    · exact absurd (Prod.mk.inj h).1 (by simp)
    · rename_i tree hcreate
      split at h
      · exact absurd (Prod.mk.inj h).1 (by simp)
      · rename_i made hmade
        obtain ⟨hsink, rfl⟩ := Prod.mk.inj h
        cases hsink
        obtain ⟨place, hlocate, habsent, rfl⟩ := FileTree.createNew_ok hcreate
        obtain ⟨base, hentered, hdirectory, rfl, -⟩ := (FileTree.locate_join_iff hname).mp hlocate
        exact ⟨disk.empty _ _ hmade, base, ⟨hname, hlocate, hentered, hdirectory, habsent⟩, rfl⟩

/-- **An entry for which there is room** is opened, if the system creates its
file. -/
theorem openEntry_eq (h : Fresh x.tree dir (lastName info.name) base)
    (hdisk : disk.create (Path.join dir (lastName info.name)) = .ok sink) :
    (directory disk dir).openEntry info x
      = (.ok sink, { x with tree := x.tree.put (base ++ [lastName info.name]) (.file []) }) := by
  have htarget : target dir info.name = .ok (Path.join dir (lastName info.name)) :=
    target_eq_ok_iff.mpr ⟨h.isName, rfl⟩
  have hcreate : x.tree.createNew (Path.join dir (lastName info.name))
      = .ok (x.tree.put (base ++ [lastName info.name]) (.file [])) := by
    rw [FileTree.createNew, h.located]
    simp only [bind, Except.bind, h.absent]
    rfl
  simp only [directory, htarget, hcreate, hdisk]

/-- **An entry that is closed** becomes a file with its data, once these were
flushed. -/
theorem closeEntry_eq (h : Fresh x.tree dir (lastName info.name) base)
    (hflush : sink.flush = .ok ()) :
    (directory disk dir).closeEntry info sink
        { x with tree := x.tree.put (base ++ [lastName info.name]) (.file []) }
      = (.ok (), ⟨(x.tree.put (base ++ [lastName info.name]) (.file [])).put
          (base ++ [lastName info.name]) (.file sink.accepted),
        x.written ++ [Path.join dir (lastName info.name)]⟩) := by
  have htarget : target dir info.name = .ok (Path.join dir (lastName info.name)) :=
    target_eq_ok_iff.mpr ⟨h.isName, rfl⟩
  have hnode : (x.tree.put (base ++ [lastName info.name]) (.file [])).node?
      (base ++ [lastName info.name]) = some (.file []) := FileTree.node?_put_self (by simp) _
  have hreplace : (x.tree.put (base ++ [lastName info.name]) (.file [])).replace
      (Path.join dir (lastName info.name)) sink.accepted
      = .ok ((x.tree.put (base ++ [lastName info.name]) (.file [])).put
          (base ++ [lastName info.name]) (.file sink.accepted)) := by
    rw [FileTree.replace, Path.endsInSlash_join h.isName, h.located_put]
    simp only [Bool.false_eq_true, if_false, bind, Except.bind, hnode]
    rfl
  simp only [directory, htarget, hreplace, hflush]

/-- **An entry that is given up** leaves no file. -/
theorem abortEntry_eq (h : Fresh x.tree dir (lastName info.name) base) (sink : Sink) :
    (directory disk dir).abortEntry info sink
        { x with tree := x.tree.put (base ++ [lastName info.name]) (.file []) }
      = ⟨(x.tree.put (base ++ [lastName info.name]) (.file [])).clear
          (base ++ [lastName info.name]), x.written⟩ := by
  have htarget : target dir info.name = .ok (Path.join dir (lastName info.name)) :=
    target_eq_ok_iff.mpr ⟨h.isName, rfl⟩
  have hnode : (x.tree.put (base ++ [lastName info.name]) (.file [])).node?
      (base ++ [lastName info.name]) = some (.file []) := FileTree.node?_put_self (by simp) _
  have hremove : (x.tree.put (base ++ [lastName info.name]) (.file [])).remove
      (Path.join dir (lastName info.name))
      = .ok ((x.tree.put (base ++ [lastName info.name]) (.file [])).clear
          (base ++ [lastName info.name])) := by
    rw [FileTree.remove, h.located_put]
    simp only [bind, Except.bind, hnode]
    rfl
  simp only [directory, htarget, hremove]

end Consumer

/-! ## All entries

The invariant tells the tree from the entries that became files. An entry
that is being read is not among them: its file is empty until it is closed,
and it is gone if anything fails before. -/

/-- An entry that became a file: what was announced of it, and the chunks of
data that came for it. -/
structure Extracted where
  entry : EntryName
  size : UInt64
  chunks : List Chunk

namespace Extracted

/-- The name of the file. -/
def name (f : Extracted) : String := Consumer.lastName f.entry.val

/-- The data of the file. -/
def data (f : Extracted) : Bytes := f.chunks.flatMap Subtype.val

/-- The frames that told of the entry. -/
def frames (f : Extracted) : List Frame := .file f.entry f.size :: f.chunks.map .data

end Extracted

namespace Extraction

variable {t : FileTree} {disk : Disk} {dir : String} {base base' : Place} {files : List Extracted}
  {x : Extraction}

/-- What is there once these entries became files: the files stand in the
directory, under names that nothing had, and all else is as it was. -/
structure Holds (t : FileTree) (dir : String) (base : Place) (files : List Extracted)
    (x : Extraction) : Prop where
  written : x.written = files.map fun f => Path.join dir f.name
  here : x.tree.here = t.here
  entered : files ≠ [] → t.enter dir = .ok base ∧ t.node? base = some .directory
  nodup : (files.map Extracted.name).Nodup
  stored : ∀ f ∈ files, Path.IsName f.name ∧
    x.tree.locate (Path.join dir f.name) = .ok (base ++ [f.name]) ∧
    t.node? (base ++ [f.name]) = none ∧
    x.tree.node? (base ++ [f.name]) = some (.file f.data)
  kept : ∀ place, (∀ f ∈ files, place ≠ base ++ [f.name]) → x.tree.node? place = t.node? place

/-- In the beginning nothing was extracted. -/
theorem Holds.nothing (t : FileTree) (dir : String) (base : Place) :
    Holds t dir base [] ⟨t, []⟩ where
  written := rfl
  here := rfl
  entered h := absurd rfl h
  nodup := List.nodup_nil
  stored _ hf := absurd hf List.not_mem_nil
  kept _ _ := rfl

/-- The directories are those that were there before. -/
theorem Holds.sameDirectories (h : Holds t dir base files x) :
    FileTree.SameDirectories t x.tree := by
  refine ⟨h.here, fun place => ?_⟩
  by_cases hplace : ∃ f ∈ files, place = base ++ [f.name]
  · obtain ⟨f, hf, rfl⟩ := hplace
    obtain ⟨-, -, habsent, hstored⟩ := h.stored f hf
    simp [habsent, hstored]
  · rw [h.kept place fun f hf heq => hplace ⟨f, hf, heq⟩]

/-- **An entry that is given up** leaves everything as it was. -/
theorem Holds.giveUp (h : Holds t dir base files x) {name : String}
    (hfresh : Consumer.Fresh x.tree dir name base') :
    Holds t dir base files
      ⟨(x.tree.put (base' ++ [name]) (.file [])).clear (base' ++ [name]), x.written⟩ := by
  have hsame : ∀ place, ((x.tree.put (base' ++ [name]) (.file [])).clear (base' ++ [name])).node?
      place = x.tree.node? place := by
    intro place
    by_cases hplace : place = base' ++ [name]
    · rw [hplace, FileTree.node?_clear_self (by simp), hfresh.absent]
    · rw [FileTree.node?_clear_of_ne hplace, FileTree.node?_put_of_ne hplace]
  have hdirectories : FileTree.SameDirectories x.tree
      ((x.tree.put (base' ++ [name]) (.file [])).clear (base' ++ [name])) :=
    ⟨rfl, fun place => by rw [hsame]⟩
  refine ⟨h.written, h.here, h.entered, h.nodup, fun f hf => ?_, fun place hplace => ?_⟩
  · obtain ⟨hname, hlocated, habsent, hstored⟩ := h.stored f hf
    exact ⟨hname, hdirectories.locate hlocated, habsent, (hsame _).trans hstored⟩
  · exact (hsame place).trans (h.kept place hplace)

/-- **An entry that becomes a file** is one more, and nothing else changes. -/
theorem Holds.add (h : Holds t dir base files x)
    (hbase : ∀ place, t.enter dir = .ok place → place = base) {f : Extracted}
    (hfresh : Consumer.Fresh x.tree dir f.name base') :
    Holds t dir base (files ++ [f])
      ⟨(x.tree.put (base' ++ [f.name]) (.file [])).put (base' ++ [f.name]) (.file f.data),
        x.written ++ [Path.join dir f.name]⟩ := by
  have hsymm := h.sameDirectories.symm
  have hentered := hsymm.enter hfresh.entered
  obtain rfl := hbase _ hentered
  -- nothing was at the new place before, and so none of the files is there
  have hother : ∀ g ∈ files, base' ++ [g.name] ≠ base' ++ [f.name] := by
    intro g hg heq
    have hstored := (h.stored g hg).2.2.2
    rw [heq, hfresh.absent] at hstored
    exact absurd hstored (by simp)
  have habsent : t.node? (base' ++ [f.name]) = none := by
    rw [← h.kept _ fun g hg heq => hother g hg heq.symm]
    exact hfresh.absent
  have hnode : ∀ place, place ≠ base' ++ [f.name] →
      ((x.tree.put (base' ++ [f.name]) (.file [])).put (base' ++ [f.name]) (.file f.data)).node?
        place = x.tree.node? place := fun place hplace => by
    rw [FileTree.node?_put_of_ne hplace, FileTree.node?_put_of_ne hplace]
  have hself : ((x.tree.put (base' ++ [f.name]) (.file [])).put (base' ++ [f.name])
      (.file f.data)).node? (base' ++ [f.name]) = some (.file f.data) :=
    FileTree.node?_put_self (by simp) _
  have hdirectories : FileTree.SameDirectories x.tree
      ((x.tree.put (base' ++ [f.name]) (.file [])).put (base' ++ [f.name]) (.file f.data)) := by
    refine (hfresh.sameDirectories []).trans (FileTree.sameDirectories_put ?_ f.data)
    rw [FileTree.node?_put_self (by simp)]
    simp
  refine ⟨by rw [h.written, List.map_append]; rfl, h.here,
    fun _ => ⟨hentered, (hsymm.directory base').mpr hfresh.directory⟩, ?_, ?_, ?_⟩
  · rw [List.map_append, List.map_singleton, List.nodup_append]
    refine ⟨h.nodup, by simp, fun name hname name' hname' heq => ?_⟩
    obtain ⟨g, hg, rfl⟩ := List.mem_map.mp hname
    obtain rfl := List.mem_singleton.mp hname'
    exact hother g hg (by rw [heq])
  · intro g hg
    rcases List.mem_append.mp hg with hg | hg
    · obtain ⟨hname, hlocated, hgone, hstored⟩ := h.stored g hg
      exact ⟨hname, hdirectories.locate hlocated, hgone, (hnode _ (hother g hg)).trans hstored⟩
    · obtain rfl := List.mem_singleton.mp hg
      exact ⟨hfresh.isName, hdirectories.locate hfresh.located, habsent, hself⟩
  · intro place hplace
    rw [hnode place (hplace f (by simp))]
    exact h.kept place fun g hg => hplace g (List.mem_append_left _ hg)

/-- **What is passed on to a directory** becomes files, one after the other,
out of the frames that were read; where it fails, the entry leaves nothing. -/
theorem Holds.drain {S : Suite} {count : Nat} {r r' : Payload.Reader} {x' : Extraction}
    {result : Except Error Nat} (h : Holds t dir base files x)
    (hbase : ∀ place, t.enter dir = .ok place → place = base)
    (hdrain : Opening.drain S (Consumer.directory disk dir) count r x = (result, r', x')) :
    ∃ more r₁, Holds t dir base (files ++ more) x' ∧
      (∀ f ∈ more, f.data.length = f.size.toNat) ∧
      r.Read S (more.flatMap Extracted.frames) r₁ ∧
      ∀ n, result = .ok n → n = count + more.length := by
  fun_induction Opening.drain S (Consumer.directory disk dir) count r x generalizing files with
  | case1 count r x e r₁ hnext =>
    cases hdrain
    refine ⟨[], r, by rwa [List.append_nil], by simp, .refl r, fun n hn => absurd hn (by simp)⟩
  | case2 count r x r₁ hnext =>
    cases hdrain
    refine ⟨[], r, by rwa [List.append_nil], by simp, .refl r, fun n hn => ?_⟩
    exact (Except.ok.inj hn).symm
  | case3 count r x info r₁ hnext e x₁ hopen =>
    cases hdrain
    obtain rfl := Consumer.openEntry_error hopen
    refine ⟨[], r, by rwa [List.append_nil], by simp, .refl r, fun n hn => absurd hn (by simp)⟩
  | case4 count r x info r₁ hnext sink x₁ hopen e r₂ sink₂ hread =>
    cases hdrain
    obtain ⟨-, base', hfresh, rfl⟩ := Consumer.openEntry_ok hopen
    rw [Consumer.abortEntry_eq hfresh]
    refine ⟨[], r, ?_, by simp, .refl r, fun n hn => absurd hn (by simp)⟩
    rw [List.append_nil]
    exact h.giveUp hfresh
  | case5 count r x info r₁ hnext sink x₁ hopen size r₂ sink₂ hread _ e x₂ hclose =>
    -- a file that was just created can be closed, since reading has flushed it
    obtain ⟨-, base', hfresh, rfl⟩ := Consumer.openEntry_ok hopen
    rw [Consumer.closeEntry_eq hfresh (Payload.Reader.flush_of_readInto hread)] at hclose
    exact absurd (Prod.mk.inj hclose).1 (by simp)
  | case6 count r x info r₁ hnext sink x₁ hopen size r₂ sink₂ hread _ x₂ hclose ih =>
    obtain ⟨hempty, base', hfresh, rfl⟩ := Consumer.openEntry_ok hopen
    obtain ⟨entry, declared, rfl, hannounced, hcursor⟩ := Payload.Reader.read_of_next hnext
    obtain ⟨chunks, hdata, haccepted, hlength⟩ := Payload.Reader.read_of_readInto hcursor hread
    rw [hempty, List.nil_append] at haccepted
    rw [Consumer.closeEntry_eq hfresh (Payload.Reader.flush_of_readInto hread), haccepted] at hclose
    obtain ⟨-, rfl⟩ := Prod.mk.inj hclose
    let f : Extracted := ⟨entry, declared, chunks⟩
    obtain ⟨more, r₃, hholds, hwhole, hrest, hcount⟩ := ih (h.add hbase (f := f) hfresh) hdrain
    refine ⟨f :: more, r₃, by simpa using hholds, ?_, ?_, fun n hn => ?_⟩
    · intro g hg
      rcases List.mem_cons.mp hg with rfl | hg
      · exact hlength
      · exact hwhole g hg
    · exact (hannounced.trans hdata).trans hrest
    · rw [hcount n hn, List.length_cons]
      omega

/-- **The entries of a session become files,** if it can be begun. -/
theorem holds_decryptAll {σ : Type} {s s' : Opening σ} {fmk : Fmk} {result : Except Error Nat}
    (hall : s.decryptAll fmk (Consumer.directory disk dir) ⟨t, []⟩ = (result, s', x)) :
    ∃ base files, Holds t dir base files x ∧ (∀ f ∈ files, f.data.length = f.size.toNat) ∧
      (∀ source, s.stage.untouched? = some source → ∃ r₁,
        (Payload.Reader.create source (s.channel fmk) s.lenient).Read s.smith.suite
          (files.flatMap Extracted.frames) r₁) ∧
      ((s.begin fmk).1 ≠ .ok () → files = []) ∧ ∀ n, result = .ok n → n = files.length := by
  -- if the directory is somewhere, that is the place of all files
  obtain ⟨base, hbase⟩ : ∃ base, ∀ place, t.enter dir = .ok place → place = base := by
    cases t.enter dir with
    | error e => exact ⟨[], fun place h => absurd h (by simp)⟩
    | ok base => exact ⟨base, fun place h => (Except.ok.inj h).symm⟩
  have hnothing := Holds.nothing t dir base
  refine ⟨base, ?_⟩
  rcases hbegin : s.begin fmk with ⟨e | u, s₁⟩
  · rw [Opening.decryptAll, hbegin] at hall
    cases hall
    exact ⟨[], hnothing, by simp, fun source _ => ⟨_, .refl _⟩, fun _ => rfl,
      fun n hn => absurd hn (by simp)⟩
  · obtain ⟨source, huntouched, -, rfl⟩ := Opening.begin_ok hbegin
    rcases hdrain : Opening.drain s.smith.suite (Consumer.directory disk dir) 0
      (.create source (s.channel fmk) s.lenient) ⟨t, []⟩ with ⟨drained, r', x'⟩
    rw [Opening.decryptAll_eq hbegin rfl hdrain] at hall
    cases hall
    obtain ⟨files, r₁, hholds, hwhole, hread, hcount⟩ := hnothing.drain hbase hdrain
    refine ⟨files, hholds, hwhole, fun source' hsource' => ?_, fun hne => absurd rfl hne,
      fun n hn => by rw [hcount n hn, Nat.zero_add]⟩
    rw [huntouched] at hsource'
    cases hsource'
    exact ⟨r₁, hread⟩

end Extraction

/-- **Extraction stays in its directory and leaves whole files only.**
Whatever the container, its session and the tree were, whatever the disk
refuses to create, to take or to flush, and whether or not everything could be
decrypted, there is afterwards:

* each path that was written is a name behind the directory, one that leads
  nowhere else, and names a file of the directory where nothing was before,
  with as many bytes as were declared of its entry;
* at all other places, in the directory and outside of it, there is what was
  there before;
* and the files came, one after the other, from the first frames of the
  payload, each authentic in its place. -/
theorem extraction_contained {σ : Type} (s : Opening σ) (fmk : Fmk) (disk : Disk) (dir : String)
    (t : FileTree) :
    ∃ (result : Except Error Nat) (s' : Opening σ) (x : Extraction) (base : Place)
        (files : List Extracted),
      s.decryptAll fmk (Consumer.directory disk dir) ⟨t, []⟩ = (result, s', x) ∧
      (files ≠ [] → t.enter dir = .ok base ∧ t.node? base = some .directory) ∧
      x.written = files.map (fun f => Path.join dir f.name) ∧
      (files.map Extracted.name).Nodup ∧
      (∀ f ∈ files, Path.IsName f.name ∧ '\\' ∉ f.name.toList ∧
        x.tree.locate (Path.join dir f.name) = .ok (base ++ [f.name]) ∧
        t.node? (base ++ [f.name]) = none ∧
        x.tree.node? (base ++ [f.name]) = some (.file f.data) ∧
        f.data.length = f.size.toNat) ∧
      x.tree.here = t.here ∧
      (∀ place, (∀ f ∈ files, place ≠ base ++ [f.name]) → x.tree.node? place = t.node? place) ∧
      (∀ source, s.stage.untouched? = some source → ∃ rest,
        Payload.Shows s.smith.suite (s.channel fmk) 0 source.contents
          (files.flatMap Extracted.frames) rest) ∧
      ((s.begin fmk).1 ≠ .ok () → files = []) ∧
      ∀ n, result = .ok n → n = files.length := by
  rcases hall : s.decryptAll fmk (Consumer.directory disk dir) ⟨t, []⟩ with ⟨result, s', x⟩
  obtain ⟨base, files, hholds, hwhole, hread, hrefused, hcount⟩ := Extraction.holds_decryptAll hall
  refine ⟨result, s', x, base, files, rfl, hholds.entered, hholds.written, hholds.nodup,
    fun f hf => ?_, hholds.here, hholds.kept, fun source hsource => ?_, hrefused, hcount⟩
  · obtain ⟨hname, hlocated, habsent, hstored⟩ := hholds.stored f hf
    exact ⟨hname, Consumer.backslash_notMem_lastName _, hlocated, habsent, hstored, hwhole f hf⟩
  · obtain ⟨r₁, hframes⟩ := hread source hsource
    exact ⟨r₁.source.contents, hframes.shows⟩

end Lockbox
