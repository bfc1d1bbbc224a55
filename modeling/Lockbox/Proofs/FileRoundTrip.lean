import Lockbox.Proofs.FileWork
import Lockbox.Proofs.Opened
/-!
# Lockbox — files that go into a container and come out

Files are encrypted under their last names, and extracted into a directory
under what is behind the last separator of these; a backslash separates
there too. Whoever can open a lock of the container gets all of them, each
with its data, in a directory where there was nothing before
(`files_extracted_as_encrypted`).
-/

namespace Lockbox

open Payload

/-! ## Entries that become files

An entry is extracted under its last name, which has to be the name of a
file. A name of a file that was encrypted is one already, but a backslash in
it divides it once more. -/

namespace Consumer

variable {name : String}

/-- The last name is the end of the name. -/
theorem lastName_suffix (name : String) : (lastName name).toList <:+ name.toList := by
  rw [lastName, String.toList_ofList, Text.lastPart, ← List.reverse_prefix, List.reverse_reverse]
  exact List.takeWhile_prefix _

/-- A last name is no longer than the name. -/
theorem size_lastName_le (name : String) : (lastName name).utf8ByteSize ≤ name.utf8ByteSize := by
  obtain ⟨before, hbefore⟩ := lastName_suffix name
  have hname : name = String.ofList before ++ lastName name := by
    rw [← String.toList_inj, String.toList_append, String.toList_ofList, hbefore]
  have hsize := congrArg String.utf8ByteSize hname
  rw [String.utf8ByteSize_append] at hsize
  omega

end Consumer

namespace Extraction

variable {t : FileTree} {dir : String} {base : Place} {files : List Extracted} {x : Extraction}

/-- **Where there was room for a name there still is,** if no file took it. -/
theorem Holds.fresh (h : Holds t dir base files x) {name : String}
    (hfresh : Consumer.Fresh t dir name base) (hnew : ∀ f ∈ files, f.name ≠ name) :
    Consumer.Fresh x.tree dir name base where
  isName := hfresh.isName
  located := h.sameDirectories.locate hfresh.located
  entered := h.sameDirectories.enter hfresh.entered
  directory := (h.sameDirectories.directory base).mpr hfresh.directory
  absent := by
    refine (h.kept _ fun f hf heq => hnew f hf ?_).trans hfresh.absent
    simpa using heq.symm

/-- These entries became files, with their data and under their last names. -/
def Has (t : FileTree) (dir : String) (base : Place) (entries : List (FileInfo × Bytes))
    (x : Extraction) : Prop :=
  ∃ files, Holds t dir base files x ∧
    files.map (fun f => (f.name, f.data))
      = entries.map fun e => (Consumer.lastName e.1.name, e.2)

/-- **A directory takes all entries for which there is room,** if their last
names differ and the disk is reliable. -/
theorem directory_takes {entries : List (FileInfo × Bytes)} (hstorable : Storable entries)
    (hroom : ∀ e ∈ entries, Consumer.Fresh t dir (Consumer.lastName e.1.name) base)
    (hnodup : (entries.map fun e => Consumer.lastName e.1.name).Nodup) :
    (Consumer.directory .reliable dir).Takes (Has t dir base) entries := by
  rintro before e after x rfl ⟨files, hholds, hmap⟩
  have hmem : e ∈ before ++ e :: after := by simp
  obtain ⟨stored, hstored⟩ := hstorable e hmem
  have hname : stored.val = e.1.name := EntryName.ofText_eq_ok_iff.mp hstored
  let f : Extracted := ⟨stored, e.1.size, Chunk.cut e.2⟩
  have hlast : f.name = Consumer.lastName e.1.name := congrArg Consumer.lastName hname
  have hdata : f.data = e.2 := Chunk.flatMap_cut e.2
  -- the names so far are those of the entries before
  have hnames : files.map Extracted.name = before.map fun e => Consumer.lastName e.1.name := by
    have hfirst := congrArg (List.map Prod.fst) hmap
    simpa [List.map_map, Function.comp_def] using hfirst
  have hnew : ∀ g ∈ files, g.name ≠ Consumer.lastName e.1.name := by
    intro g hg heq
    rw [List.map_append, List.nodup_append] at hnodup
    have hbefore : g.name ∈ before.map fun e => Consumer.lastName e.1.name :=
      hnames ▸ List.mem_map_of_mem hg
    exact hnodup.2.2 _ hbefore _ (by simp) heq
  have hfresh := hholds.fresh (hroom e hmem) hnew
  refine ⟨.unlimited, _, Consumer.openEntry_eq hfresh rfl, Sink.unbounded_unlimited, rfl,
    fun sink hsink hflush => ⟨_, Consumer.closeEntry_eq hfresh hflush, files ++ [f], ?_, ?_⟩⟩
  · have hentered := (hroom e hmem).entered
    have hbase : ∀ place, t.enter dir = .ok place → place = base := fun place hplace =>
      Except.ok.inj (hplace.symm.trans hentered)
    rw [← hlast] at hfresh ⊢
    rw [hsink, ← hdata]
    exact hholds.add hbase hfresh
  · rw [List.map_append, List.map_append, hmap, List.map_singleton, List.map_singleton, hlast,
      hdata]

end Extraction

/-- The recipients for whom a run sealed, by their places. -/
theorem SealedRun.recipient_getElem {σ : Type} {run : SealedRun σ} {recipients : List Recipient}
    (h : run.recipients.map Enrolled.recipient = recipients) {i : Nat} (hi : i < recipients.length) :
    ∃ hrun : i < run.recipients.length, run.recipients[i].recipient = recipients[i] := by
  subst h
  exact ⟨by rwa [List.length_map] at hi, (List.getElem_map Enrolled.recipient).symm⟩

namespace Files

variable {σ : Type}

/-- **There is room for every file** in a directory where nothing is. -/
theorem fresh_target {f : InputFile} {t t₁ : FileTree} {dir : String} {base : Place}
    (hf : f.Stands t) (hname : Path.IsName f.target) (hentered : t₁.enter dir = .ok base)
    (hdirectory : t₁.node? base = some .directory)
    (hnothing : ∀ below, below ≠ [] → t₁.node? (base ++ below) = none)
    (hlength : (Path.join dir f.target).utf8ByteSize ≤ FileTree.maxPath) :
    Consumer.Fresh t₁ dir f.target base := by
  obtain ⟨-, hsize, hnul⟩ := hf.isName
  have hsize' : f.target.utf8ByteSize ≤ FileTree.maxName :=
    Nat.le_trans (Consumer.size_lastName_le f.name) hsize
  have hnul' : '\x00' ∉ f.target.toList := fun hmem =>
    hnul ((Consumer.lastName_suffix f.name).subset hmem)
  exact ⟨hname, (FileTree.locate_join_iff hname).mpr
    ⟨base, hentered, hdirectory, rfl, hsize', hnul', hlength⟩, hentered, hdirectory,
    hnothing _ (by simp)⟩

/-- **Whoever can answer for a recipient gets all entries** of a container
that a run sealed, if there is room for them. -/
theorem decrypt_sealed {τ : Type} {run : SealedRun σ} (hs : run.suite.OpensSealed)
    (hd : run.suite.AgreesBothWays) (hz : run.suite.InflatesDeflated) (hf : run.suite.FitsFrames)
    {reader : Locksmith τ} (hsuite : reader.suite = run.suite) {path dir : String} {i : Nat}
    (hi : i < run.recipients.length) {t t₁ : FileTree} {w : World τ} {base : Place}
    (hserve : reader.providers.Serve run.suite w.outside
      ⟨i, run.recipients[i].recipient.type, run.recipients[i].recipient.label⟩
      run.recipients[i].asked run.recipients[i].recipient)
    (hmake : FileTree.createDirectories dir t = (.ok (), t₁))
    (hread : t₁.read path = .ok run.container)
    (hroom : ∀ e ∈ run.entries, Consumer.Fresh t₁ dir (Consumer.lastName e.1.name) base)
    (hnodup : (run.entries.map fun e => Consumer.lastName e.1.name).Nodup) :
    ∃ x w', decrypt reader path i dir ⟨t, w⟩ = (.ok x.written, ⟨x.tree, w'⟩) ∧
      Extraction.Has t₁ dir base run.entries x := by
  obtain ⟨-, -, hcontainer, hcomplete, hstorable, -⟩ := run.container_eq
  have hsource : t₁.source path = .ok (.ofBytes run.container) := by
    rw [FileTree.source, FileTree.read_eq_ok_iff.mp hread]
    rfl
  obtain ⟨session, payload, hcreate, rfl, hfaces, hsteady, hpayload⟩ :=
    SealedRun.create_of_head false hsuite (Source.steady_ofBytes run.container)
      ((Source.contents_ofBytes _).trans hcontainer)
  obtain ⟨session', w', hget, -, hfaces'⟩ := hfaces.getFmk_eq hs hd hi hserve
  -- all frames are there, so they are read to the last, and nothing can be to blame
  let p := Supply.stored hs hz hf.countsSealed run.channel run.frames []
  have hat : p.At 0 payload := ⟨hsteady, by rw [hpayload, List.append_nil, List.drop_zero]⟩
  obtain ⟨r, x, hdrain, hhas⟩ := Supply.drain_takes [] (c := ⟨t₁, []⟩)
    (Supply.not_blames_stored hs hz hf) (Extraction.directory_takes hstorable hroom hnodup)
    hstorable hcomplete (p.feeds_create hat false) (.inl rfl) rfl
    ⟨[], Extraction.Holds.nothing t₁ dir base, rfl⟩
  refine ⟨x, w', ?_, hhas⟩
  rw [decrypt_apply hmake hsource hcreate hget, hfaces'.decryptAll_eq hdrain]

end Files

/-- What is in a directory to which entries were added where nothing was. -/
theorem Extraction.Has.contents {t : FileTree} {dir : String} {base : Place}
    {inputs : List InputFile} {x : Extraction}
    (h : Extraction.Has t dir base (inputs.map InputFile.entry) x)
    (hnothing : ∀ below, below ≠ [] → t.node? (base ++ below) = none) :
    x.written = inputs.map (fun f => Path.join dir f.target) ∧
    (∀ f ∈ inputs, x.tree.read (Path.join dir f.target) = .ok f.data) ∧
    (∀ below, below ≠ [] → ∀ node, x.tree.node? (base ++ below) = some node ↔
      ∃ f ∈ inputs, below = [f.target] ∧ node = .file f.data) ∧
    ∀ place, (∀ f ∈ inputs, place ≠ base ++ [f.target]) → x.tree.node? place = t.node? place := by
  obtain ⟨files, hholds, hmap⟩ := h
  rw [List.map_map] at hmap
  have hpairs : files.map (fun g => (g.name, g.data)) = inputs.map fun f => (f.target, f.data) :=
    hmap
  have hfile : ∀ f ∈ inputs, ∃ g ∈ files, g.name = f.target ∧ g.data = f.data := by
    intro f hf
    have hmem : (f.target, f.data) ∈ files.map fun g => (g.name, g.data) := by
      rw [hpairs]
      exact List.mem_map_of_mem hf
    obtain ⟨g, hg, heq⟩ := List.mem_map.mp hmem
    exact ⟨g, hg, (Prod.mk.inj heq).1, (Prod.mk.inj heq).2⟩
  have hinput : ∀ g ∈ files, ∃ f ∈ inputs, f.target = g.name ∧ f.data = g.data := by
    intro g hg
    have hmem : (g.name, g.data) ∈ inputs.map fun f => (f.target, f.data) := by
      rw [← hpairs]
      exact List.mem_map_of_mem hg
    obtain ⟨f, hf, heq⟩ := List.mem_map.mp hmem
    exact ⟨f, hf, (Prod.mk.inj heq).1, (Prod.mk.inj heq).2⟩
  refine ⟨?_, fun f hf => ?_, fun below hbelow node => ⟨fun hnode => ?_, ?_⟩, fun place hplace => ?_⟩
  · have hwritten := congrArg (List.map fun pair => Path.join dir pair.1) hpairs
    rw [List.map_map, List.map_map] at hwritten
    rw [hholds.written]
    exact hwritten
  · obtain ⟨g, hg, hname, hdata⟩ := hfile f hf
    obtain ⟨-, hlocated, -, hstored⟩ := hholds.stored g hg
    rw [← hname, ← hdata]
    exact FileTree.read_eq_ok_iff.mpr (FileTree.find_eq_ok_iff.mpr ⟨_, hlocated, hstored⟩)
  · by_cases hplace : ∃ g ∈ files, base ++ below = base ++ [g.name]
    · obtain ⟨g, hg, heq⟩ := hplace
      obtain ⟨f, hf, hname, hdata⟩ := hinput g hg
      obtain ⟨-, -, -, hstored⟩ := hholds.stored g hg
      rw [heq, hstored] at hnode
      refine ⟨f, hf, ?_, ?_⟩
      · rw [hname]
        exact List.append_cancel_left heq
      · rw [hdata]
        exact (Option.some.inj hnode).symm
    · rw [hholds.kept _ fun g hg heq => hplace ⟨g, hg, heq⟩, hnothing below hbelow] at hnode
      exact absurd hnode (by simp)
  · rintro ⟨f, hf, rfl, rfl⟩
    obtain ⟨g, hg, hname, hdata⟩ := hfile f hf
    obtain ⟨-, -, -, hstored⟩ := hholds.stored g hg
    rw [← hname, ← hdata]
    exact hstored
  · refine hholds.kept place fun g hg heq => ?_
    obtain ⟨f, hf, hname, -⟩ := hinput g hg
    exact hplace f hf (by rw [hname]; exact heq)

/-- **Files are extracted as they were encrypted,** for every recipient who
can answer. If files can be encrypted, the container at the output path has
the size that was given; and from there, or from wherever else its bytes
are, everything is extracted into a directory that is new or empty: the
paths written are those of the files in their order, each the name of the
file behind the directory, and in the directory there are these files with
their data and nothing else.

The name of a file in the directory is what is behind the last backslash of
its own name, all of it if there is none. These names must differ and be
names of files, and the paths with them must not be too long. -/
theorem files_extracted_as_encrypted {σ τ : Type} {smith : Locksmith σ} {reader : Locksmith τ}
    (hsuite : reader.suite = smith.suite) (hs : smith.suite.OpensSealed)
    (hd : smith.suite.AgreesBothWays) (hz : smith.suite.InflatesDeflated)
    (hf : smith.suite.FitsFrames) {output : String} {recipients : List Recipient}
    {inputs : List InputFile} {s s' : Site σ} {size : Nat}
    (hinputs : ∀ f ∈ inputs, f.Stands s.tree) (hnames : ∀ f ∈ inputs, Path.IsName f.target)
    (hnodup : (inputs.map InputFile.target).Nodup)
    (hencrypt : Files.encrypt smith output recipients (inputs.map InputFile.path) s
      = (.ok size, s')) :
    (∀ f ∈ inputs, '\\' ∉ f.name.toList → f.target = f.name) ∧
    ∃ (container : Bytes) (asked : List (List Exchange)),
      s'.tree.read output = .ok container ∧ container.length = size ∧
      asked.length = recipients.length ∧
      ∀ (i : Nat) (hi : i < recipients.length) (hi' : i < asked.length) (path dir : String)
          (t t₁ : FileTree) (w : World τ),
        reader.providers.Serve smith.suite w.outside
          ⟨i, recipients[i].type, recipients[i].label⟩ asked[i] recipients[i] →
        t.read path = .ok container → t.node? t.here = some .directory →
        FileTree.createDirectories dir t = (.ok (), t₁) →
        (∀ base, t₁.enter dir = .ok base →
          ∀ below, below ≠ [] → t₁.node? (base ++ below) = none) →
        (∀ f ∈ inputs, (Path.join dir f.target).utf8ByteSize ≤ FileTree.maxPath) →
        ∃ (base : Place) (s'' : Site τ),
          Files.decrypt reader path i dir ⟨t, w⟩
            = (.ok (inputs.map fun f => Path.join dir f.target), s'') ∧
          t₁.enter dir = .ok base ∧ t₁.node? base = some .directory ∧
          (∀ f ∈ inputs, s''.tree.read (Path.join dir f.target) = .ok f.data) ∧
          (∀ below, below ≠ [] → ∀ node, s''.tree.node? (base ++ below) = some node ↔
            ∃ f ∈ inputs, below = [f.target] ∧ node = .file f.data) ∧
          ∀ place, (∀ f ∈ inputs, place ≠ base ++ [f.target]) →
            s''.tree.node? place = t₁.node? place := by
  obtain ⟨run, rfl, hrecipients, hentries, hread, hsize⟩ := Files.encrypt_sealed hinputs hencrypt
  refine ⟨fun f hf => (hinputs f hf).target_eq, run.container, run.recipients.map Enrolled.asked,
    hread, hsize, by rw [← hrecipients, List.length_map, List.length_map], ?_⟩
  intro i hi hi' path dir t t₁ w hserve hthere hhere hmake hnothing hlength
  obtain ⟨hextends, base, hentered, hdirectory⟩ := FileTree.createDirectories_ok hhere hmake
  replace hnothing := hnothing base hentered
  obtain ⟨hrun, hrecipient⟩ := SealedRun.recipient_getElem hrecipients hi
  rw [← hrecipient, List.getElem_map] at hserve
  have hroom : ∀ e ∈ run.entries, Consumer.Fresh t₁ dir (Consumer.lastName e.1.name) base := by
    intro e he
    rw [hentries] at he
    obtain ⟨f, hf, rfl⟩ := List.mem_map.mp he
    exact Files.fresh_target (hinputs f hf) (hnames f hf) hentered hdirectory hnothing
      (hlength f hf)
  have hlast : (run.entries.map fun e => Consumer.lastName e.1.name).Nodup := by
    rw [hentries, List.map_map]
    exact hnodup
  have hcontainer : t₁.read path = .ok run.container :=
    FileTree.read_eq_ok_iff.mpr (hextends.find (FileTree.read_eq_ok_iff.mp hthere))
  obtain ⟨x, w', hdecrypt, hhas⟩ := Files.decrypt_sealed hs hd hz hf hsuite hrun hserve hmake
    hcontainer hroom hlast
  rw [hentries] at hhas
  obtain ⟨hwritten, hfound, hexactly, hkept⟩ := hhas.contents hnothing
  rw [hwritten] at hdecrypt
  exact ⟨base, _, hdecrypt, hentered, hdirectory, hfound, hexactly, hkept⟩

/-- Two files, one of them without data, and the working directory. -/
def twoFiles : FileTree :=
  ((FileTree.empty []).put ["empty"] (.file [])).put ["one"] (.file [7])

/-- Both files come out of a container that is somewhere else by then. -/
theorem twoFiles_extracted_as_encrypted :
    ∃ (size : Nat) (s' s'' : Site Unit) (container : Bytes),
      Files.encrypt (.plain [1]) "box" [.symmetricKey "key" (some [1])] ["one", "empty"]
        ⟨twoFiles, ⟨.splitMix 1, ()⟩⟩ = (.ok size, s') ∧
      s'.tree.read "box" = .ok container ∧ container.length = size ∧
      Files.decrypt (.plain [1]) "moved" 0 "out"
          ⟨(FileTree.empty ["home"]).put ["home", "moved"] (.file container), ⟨.splitMix 2, ()⟩⟩
        = (.ok ["out/one", "out/empty"], s'') ∧
      s''.tree.read "out/one" = .ok [7] ∧ s''.tree.read "out/empty" = .ok [] := by
  let inputs : List InputFile := [⟨"one", "one", [7]⟩, ⟨"empty", "empty", []⟩]
  have hinputs : ∀ f ∈ inputs, f.Stands twoFiles := by
    intro f hf
    rcases List.mem_cons.mp hf with rfl | hf
    · exact ⟨rfl, by decide, by decide⟩
    · obtain rfl := List.mem_singleton.mp hf
      exact ⟨rfl, by decide, by decide⟩
  have hnames : ∀ f ∈ inputs, Path.IsName f.target := by
    intro f hf
    rcases List.mem_cons.mp hf with rfl | hf
    · exact ⟨by decide, by decide, by decide, by decide⟩
    · obtain rfl := List.mem_singleton.mp hf
      exact ⟨by decide, by decide, by decide, by decide⟩
  obtain ⟨bytes, w', hencrypt⟩ : ∃ bytes w',
      Files.encrypt (.plain [1]) "box" [.symmetricKey "key" (some [1])]
        (inputs.map InputFile.path) ⟨twoFiles, ⟨.splitMix 1, ()⟩⟩
        = (.ok bytes.length, ⟨twoFiles.put ["box"] (.file bytes), w'⟩) :=
    Files.encrypt_succeeds Suite.plain_fitsFrames.tag (by simp) (by decide)
      (Locksmith.plain_keyAtHand [1]) hinputs (by decide) (by decide) rfl fun _ => rfl
  have hsuite : (Locksmith.plain [1]).suite = (Locksmith.plain [1]).suite := rfl
  obtain ⟨-, container, asked, hread, hsize, hasked, hextracts⟩ :=
    files_extracted_as_encrypted hsuite
      Suite.plain_opensSealed Suite.plain_agreesBothWays Suite.plain_inflatesDeflated
      Suite.plain_fitsFrames hinputs hnames (by decide) hencrypt
  let t := (FileTree.empty ["home"]).put ["home", "moved"] (.file container)
  obtain ⟨base, s'', hdecrypt, -, -, hfound, -⟩ := hextracts 0 (by decide) (by rw [hasked]; decide)
    "moved" "out" t (t.put ["home", "out"] .directory) ⟨.splitMix 2, ()⟩
    ⟨[1], rfl, .inl rfl⟩ rfl rfl rfl
    (by
      intro base hbase below hbelow
      obtain rfl : base = ["home", "out"] := (Except.ok.inj hbase).symm
      obtain ⟨name, rest, rfl⟩ := List.exists_cons_of_ne_nil hbelow
      simp [t, FileTree.node?, FileTree.put, FileTree.empty])
    (by decide)
  exact ⟨_, _, s'', container, hencrypt, hread, hsize, hdecrypt,
    hfound ⟨"one", "one", [7]⟩ (by simp [inputs]), hfound ⟨"empty", "empty", []⟩ (by simp [inputs])⟩

/-! ## Names and paths that are not taken -/

/-- A path that was written is short enough to be followed. -/
theorem Files.size_le_of_decrypt {σ : Type} {smith : Locksmith σ} {path dir : String} {index : Nat}
    {s : Site σ} {written : List String}
    (h : (Files.decrypt smith path index dir s).1 = .ok written) :
    ∀ p ∈ written, p.utf8ByteSize ≤ FileTree.maxPath := by
  obtain ⟨session, session', fmk, t₁, n, x, hall, rfl⟩ := Files.decrypt_ok (Prod.ext h rfl)
  obtain ⟨base, files, hholds, -⟩ := Extraction.holds_decryptAll hall
  intro p hp
  rw [hholds.written] at hp
  obtain ⟨f, hf, rfl⟩ := List.mem_map.mp hp
  obtain ⟨hname, hlocated, -, -⟩ := hholds.stored f hf
  obtain ⟨-, -, -, -, -, -, hlength⟩ := (FileTree.locate_join_iff hname).mp hlocated
  exact hlength

/-- So many slashes. -/
def slashes (n : Nat) : String := String.ofList (List.replicate n '/')

theorem size_slashes (n : Nat) : (slashes n).utf8ByteSize = n := by
  induction n with
  | zero => rfl
  | succ n ih =>
    have hslash : slashes (n + 1) = "/" ++ slashes n := by
      simp [slashes, List.replicate_succ]
    have hone : "/".utf8ByteSize = 1 := by decide
    rw [hslash, String.utf8ByteSize_append, ih, hone]
    omega

theorem endsInSlash_slashes {n : Nat} (hpos : 0 < n) : Path.endsInSlash (slashes n) = true := by
  rw [Path.endsInSlash, slashes, String.toList_ofList, List.getLast?_replicate]
  simpa using Nat.ne_of_gt hpos

/-- Slashes lead to the root. -/
theorem FileTree.enter_slashes {t : FileTree} {n : Nat} (hpos : 0 < n) (hn : n ≤ maxPath) :
    t.enter (slashes n) = .ok [] := by
  have hslash : ∀ c ∈ (slashes n).toList, c = '/' := by
    intro c hc
    rw [slashes, String.toList_ofList] at hc
    exact List.eq_of_mem_replicate hc
  have hne : slashes n ≠ "" := by
    intro heq
    have hsize := size_slashes n
    rw [heq] at hsize
    exact absurd hsize (by simpa using Nat.ne_of_lt hpos)
  have habsolute : Path.isAbsolute (slashes n) = true := by
    obtain ⟨m, rfl⟩ := Nat.exists_eq_succ_of_ne_zero (Nat.ne_of_gt hpos)
    rw [Path.isAbsolute, slashes, String.toList_ofList, List.replicate_succ]
    rfl
  have hidle : ∀ part ∈ Path.parts (slashes n), Path.isIdle part = true := by
    intro part hpart
    have hempty : part.toList = [] := by
      refine List.eq_nil_iff_forall_not_mem.mpr fun c hc => ?_
      obtain ⟨hmem, hnot⟩ := Path.of_mem_parts hpart c hc
      exact hnot (hslash c hmem)
    have hpart : part = "" := by simpa using hempty
    rw [hpart]
    rfl
  rw [enter, if_neg hne, locate, follow, if_neg hne, if_neg fun hmem => absurd (hslash _ hmem)
    (by decide), if_neg (by rw [size_slashes]; omega), habsolute]
  exact walk_idle (if_pos rfl) hidle

/-- A path as long as there may be. -/
def longPath : String := Path.join (slashes 4092) "out"

theorem isName_out : Path.IsName "out" := ⟨by decide, by decide, by decide, by decide⟩

/-- The path is as long as one may be. -/
theorem size_longPath : longPath.utf8ByteSize = FileTree.maxPath := by
  have hsize : "out".utf8ByteSize = 3 := by decide
  rw [longPath, Path.join, if_pos (.inr (endsInSlash_slashes (by decide))),
    String.utf8ByteSize_append, size_slashes, hsize, FileTree.maxPath]

theorem longPath_ne : longPath ≠ "" := by
  intro heq
  have hsize := size_longPath
  rw [heq] at hsize
  exact absurd hsize (by decide)

/-- A tree with a file and an empty directory. -/
def oddTree (name : String) : FileTree :=
  ((FileTree.empty []).put ["out"] .directory).put [name] (.file [7])

/-- The tree with a container in it. -/
def oddTreeWith (name : String) (container : Bytes) : FileTree :=
  (oddTree name).put ["box"] (.file container)

/-- The directory to extract into is empty. -/
theorem oddTreeWith_nothing (name : String) (container : Bytes) (below : Place)
    (hbelow : below ≠ []) :
    (oddTreeWith name container).node? (["out"] ++ below) = none := by
  obtain ⟨first, rest, rfl⟩ := List.exists_cons_of_ne_nil hbelow
  simp [oddTreeWith, oddTree, FileTree.node?, FileTree.put, FileTree.empty]

/-- **The file is encrypted under its odd name.** -/
theorem oddTree_encrypted {name : String} (hf : (InputFile.mk name name [7]).Stands (oddTree name))
    (hreplace : ∀ bytes, (oddTree name).replace "box" bytes = .ok (oddTreeWith name bytes)) :
    ∃ bytes w', Files.encrypt (.plain [1]) "box" [.symmetricKey "key" (some [1])]
      ([InputFile.mk name name [7]].map InputFile.path) ⟨oddTree name, ⟨.splitMix 1, ()⟩⟩
      = (.ok bytes.length, ⟨oddTreeWith name bytes, w'⟩) := by
  have hinputs : ∀ f ∈ [InputFile.mk name name [7]], f.Stands (oddTree name) := by simpa using hf
  have hroom : Sealing.numbers ([InputFile.mk name name [7]].map InputFile.entry) + 1
      < UInt64.size := show 1 + 1 + 0 + 1 < UInt64.size by decide
  exact Files.encrypt_succeeds Suite.plain_fitsFrames.tag (by simp) (by decide)
    (Locksmith.plain_keyAtHand [1]) hinputs (by simp) hroom rfl hreplace

/-- **Not all files are extracted under their names, and not into all
directories:** a backslash in a name separates, and a directory may have a
path that is too long for any name in it. -/
theorem not_all_extracted :
    (∃ (size : Nat) (s' s'' : Site Unit),
      (InputFile.mk "a\\b" "a\\b" [7]).Stands (oddTree "a\\b") ∧
      Files.encrypt (.plain [1]) "box" [.symmetricKey "key" (some [1])] ["a\\b"]
        ⟨oddTree "a\\b", ⟨.splitMix 1, ()⟩⟩ = (.ok size, s') ∧
      FileTree.createDirectories "out" s'.tree = (.ok (), s'.tree) ∧
      (∀ below, below ≠ [] → s'.tree.node? (["out"] ++ below) = none) ∧
      Files.decrypt (.plain [1]) "box" 0 "out" s' = (.ok ["out/b"], s'') ∧
      "out/b" ≠ Path.join "out" "a\\b") ∧
    ∃ (size : Nat) (s' : Site Unit) (dir : String),
      (InputFile.mk "a" "a" [7]).Stands (oddTree "a") ∧
      Files.encrypt (.plain [1]) "box" [.symmetricKey "key" (some [1])] ["a"]
        ⟨oddTree "a", ⟨.splitMix 1, ()⟩⟩ = (.ok size, s') ∧
      s'.tree.enter dir = .ok ["out"] ∧
      FileTree.createDirectories dir s'.tree = (.ok (), s'.tree) ∧
      (∀ below, below ≠ [] → s'.tree.node? (["out"] ++ below) = none) ∧
      (Files.decrypt (.plain [1]) "box" 0 dir s').1 ≠ .ok [Path.join dir "a"] := by
  constructor
  · have hf : (InputFile.mk "a\\b" "a\\b" [7]).Stands (oddTree "a\\b") :=
      ⟨rfl, by decide, by decide⟩
    obtain ⟨bytes, w', hencrypt⟩ := oddTree_encrypted hf fun _ => rfl
    have hinputs : ∀ f ∈ [InputFile.mk "a\\b" "a\\b" [7]], f.Stands (oddTree "a\\b") := by
      simpa using hf
    obtain ⟨run, hsmith, hrecipients, hentries, hread, -⟩ :=
      Files.encrypt_sealed hinputs hencrypt
    have hsuite : run.suite = .plain := congrArg Locksmith.suite hsmith
    have hnothing := oddTreeWith_nothing "a\\b" bytes
    have hroom : ∀ e ∈ run.entries, Consumer.Fresh (oddTreeWith "a\\b" bytes) "out"
        (Consumer.lastName e.1.name) ["out"] := by
      intro e he
      rw [hentries] at he
      obtain rfl := List.mem_singleton.mp he
      have htarget : (InputFile.mk "a\\b" "a\\b" [7]).target = "b" := by decide
      have hname : Path.IsName "b" := ⟨by decide, by decide, by decide, by decide⟩
      have hentered : (oddTreeWith "a\\b" bytes).enter "out" = .ok ["out"] := rfl
      have hfresh := Files.fresh_target hf (htarget ▸ hname) hentered rfl hnothing
        (by rw [htarget]; decide)
      exact hfresh
    obtain ⟨hi, hrecipient⟩ := SealedRun.recipient_getElem hrecipients (i := 0) (by decide)
    have hmake : FileTree.createDirectories "out" (oddTreeWith "a\\b" bytes)
        = (.ok (), oddTreeWith "a\\b" bytes) := rfl
    obtain ⟨x, w'', hdecrypt, hhas⟩ := Files.decrypt_sealed (τ := Unit)
      (hsuite ▸ Suite.plain_opensSealed) (hsuite ▸ Suite.plain_agreesBothWays)
      (hsuite ▸ Suite.plain_inflatesDeflated) (hsuite ▸ Suite.plain_fitsFrames)
      (show (Locksmith.plain [1]).suite = run.suite from hsuite.symm) hi (w := w')
      (hrecipient ▸ ⟨[1], rfl, .inl rfl⟩) hmake hread hroom
      (by rw [hentries]; decide)
    rw [hentries] at hhas
    rw [(hhas.contents hnothing).1] at hdecrypt
    exact ⟨_, _, _, hf, hencrypt, rfl, hnothing, hdecrypt, by decide⟩
  · have hf : (InputFile.mk "a" "a" [7]).Stands (oddTree "a") := ⟨rfl, by decide, by decide⟩
    obtain ⟨bytes, w', hencrypt⟩ := oddTree_encrypted hf fun _ => rfl
    have hlocate : (oddTreeWith "a" bytes).locate longPath = .ok ["out"] :=
      (FileTree.locate_join_iff isName_out).mpr ⟨[], FileTree.enter_slashes (by decide) (by decide),
        rfl, rfl, by decide, by decide, Nat.le_of_eq size_longPath⟩
    refine ⟨_, _, longPath, hf, hencrypt, by rw [FileTree.enter, if_neg longPath_ne]; exact hlocate,
      FileTree.createDirectories_of_isDirectory longPath_ne
        (FileTree.isDirectory_iff.mpr ⟨_, hlocate, rfl⟩),
      oddTreeWith_nothing "a" bytes, fun hwritten => ?_⟩
    -- the path would be longer than any that was ever written
    have hsize := Files.size_le_of_decrypt hwritten _ List.mem_cons_self
    have hjoin : Path.join longPath "a" = longPath ++ "/" ++ "a" :=
      if_neg (not_or.mpr ⟨longPath_ne, by simp [longPath, Path.endsInSlash_join isName_out]⟩)
    have hone : "/".utf8ByteSize = 1 := by decide
    have hlast : "a".utf8ByteSize = 1 := by decide
    rw [hjoin, String.utf8ByteSize_append, String.utf8ByteSize_append, size_longPath, hone, hlast]
      at hsize
    exact absurd hsize (by decide)

end Lockbox
