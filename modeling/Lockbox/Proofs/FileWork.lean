import Lockbox.Proofs.AllAtOnce
import Lockbox.Proofs.Directories
import Lockbox.Proofs.Extraction
/-!
# Lockbox — work on files, taken apart

What encrypting files and decrypting a container consist of when they
succeed, one step after the other. What was encrypted was sealed by a run
whose entries are the files, under their last names
(`Files.encrypt_sealed`); and files with different names can be encrypted
(`Files.encrypt_succeeds`).
-/

namespace Lockbox

/-! ## Steps

The operations on files are steps on a site, a tree and a world together.
These lemmas take them apart into what was done to the one and to the other. -/

namespace Files

variable {σ α : Type} {smith : Locksmith σ} {s s' : Site σ}

/-- Work that needs no files leaves them as they are. -/
theorem inWorld_ok_iff {x : Step Error (World σ) α} {a : α} : inWorld x s = (.ok a, s') ↔
    ∃ w, x s.world = (.ok a, w) ∧ s' = { s with world := w } := by
  rw [inWorld, Step.zoom_ok_iff]
  simp only [Step.blame_ok_iff]

/-- A change of files leaves the rest of the world as it is. -/
theorem change_ok_iff {o : Obstacle} {x : Step IoError FileTree α} {a : α} :
    change o x s = (.ok a, s') ↔ ∃ t, x s.tree = (.ok a, t) ∧ s' = { s with tree := t } := by
  rw [change, Step.zoom_ok_iff]
  simp only [Step.blame_ok_iff]

/-- **What was done if files were encrypted.** -/
theorem encrypt_ok {output : String} {recipients : List Recipient} {inputs : List String}
    {size : Nat} (h : encrypt smith output recipients inputs s = (.ok size, s')) :
    ∃ entries sources bytes, inputs.mapM (announce s.tree) = .ok entries ∧
      entries.mapM (openInput s.tree) = .ok sources ∧
      Sealing.container smith recipients sources s.world = (.ok bytes, s'.world) ∧
      s.tree.replace output bytes = .ok s'.tree ∧ bytes.length = size := by
  unfold encrypt at h
  obtain ⟨s₀, s₁, hget, hread⟩ := Step.bind_ok h
  cases hget
  obtain ⟨entries, s₁, hentries, hopen⟩ := Step.bind_ok hread
  -- the files are looked at before anything is sealed, and the output is put in place
  -- last
  obtain ⟨hentries, rfl⟩ := Step.answer_ok hentries
  obtain ⟨sources, s₂, hsources, hcheck⟩ := Step.bind_ok hopen
  obtain ⟨hsources, rfl⟩ := Step.answer_ok hsources
  obtain ⟨u, s₃, hroom, hseal⟩ := Step.bind_ok hcheck
  obtain ⟨-, rfl⟩ := Step.answer_ok hroom
  obtain ⟨bytes, s₄, hcontainer, hmove⟩ := Step.bind_ok hseal
  obtain ⟨v, s₅, hplace, hdone⟩ := Step.bind_ok hmove
  cases hdone
  obtain ⟨w, hsealed, rfl⟩ := inWorld_ok_iff.mp hcontainer
  obtain ⟨t, hput, rfl⟩ := change_ok_iff.mp hplace
  refine ⟨entries, sources, bytes, hentries, hsources, hsealed, ?_, rfl⟩
  split at hput
  · rename_i t' hreplace
    rw [hreplace, (Prod.mk.inj hput).2]
  · exact absurd (Prod.mk.inj hput).1 (by simp)

/-- **What is done to decrypt a container,** once its master key is known. -/
theorem decrypt_apply {path : String} {index : Nat} {dir : String} {t t₁ : FileTree} {w w' : World σ}
    {source : Source} {session session' : Opening σ} {fmk : Fmk}
    (hmake : FileTree.createDirectories dir t = (.ok (), t₁)) (hsource : t₁.source path = .ok source)
    (hcreate : Opening.create smith false source = .ok session)
    (hget : session.getFmk index w = (.ok fmk, session', w')) :
    decrypt smith path index dir ⟨t, w⟩
      = match session'.decryptAll fmk (Consumer.directory .reliable dir) ⟨t₁, []⟩ with
        | (.ok _, _, x) => (.ok x.written, ⟨x.tree, w'⟩)
        | (.error e, _, x) => (.error (.container e), ⟨x.tree, w'⟩) := by
  have hchange : change (σ := σ) (.outputDirectory dir) (FileTree.createDirectories dir) ⟨t, w⟩
      = (.ok (), ⟨t₁, w⟩) := change_ok_iff.mpr ⟨t₁, hmake, rfl⟩
  have hopen : openContainer t₁ path = .ok source := by
    rw [openContainer, hsource]
    rfl
  unfold decrypt
  rw [Step.bind_of_ok hchange, Step.bind_get, hopen, Step.bind_answer, hcreate]
  show (Step.answer (.ok session) >>= _) (⟨t₁, w⟩ : Site σ) = _
  rw [Step.bind_answer]
  refine Step.bind_of_ok (a := (fmk, session')) (inWorld_ok_iff.mpr ⟨w', ?_, rfl⟩) _
  rw [hget]

/-- Where paths were written, a session was decrypted into the directory. -/
theorem decrypt_ok {path : String} {index : Nat} {dir : String} {written : List String}
    (h : decrypt smith path index dir s = (.ok written, s')) :
    ∃ (session session' : Opening σ) (fmk : Fmk) (t₁ : FileTree) (n : Nat) (x : Extraction),
      session.decryptAll fmk (Consumer.directory .reliable dir) ⟨t₁, []⟩ = (.ok n, session', x) ∧
      x.written = written := by
  unfold decrypt at h
  obtain ⟨u, s₁, -, h⟩ := Step.bind_ok h
  obtain ⟨s₂, s₃, -, h⟩ := Step.bind_ok h
  obtain ⟨source, s₄, -, h⟩ := Step.bind_ok h
  obtain ⟨session, s₅, -, h⟩ := Step.bind_ok h
  obtain ⟨⟨fmk, session'⟩, s₆, -, h⟩ := Step.bind_ok h
  dsimp only at h
  split at h
  · rename_i n session'' x hall
    exact ⟨session', session'', fmk, s₆.tree, n, x, hall, Except.ok.inj (Prod.mk.inj h).1⟩
  · exact absurd (Prod.mk.inj h).1 (by simp)

end Files

/-! ## Input files

A file is known to the session by its last name, its size and its data. That
it is there, under a path with a last name, is all that is asked of it. -/

/-- A file to be encrypted: its path, its last name and its data. -/
structure InputFile where
  path : String
  name : String
  data : Bytes

namespace InputFile

/-- The announcement of the file. -/
def info (f : InputFile) : FileInfo := ⟨f.name, f.data.length.toUInt64⟩

/-- The entry that the file becomes. -/
def entry (f : InputFile) : FileInfo × Bytes := (f.info, f.data)

/-- The name under which the file is extracted. -/
def target (f : InputFile) : String := Consumer.lastName f.name

/-- The file is there. -/
structure Stands (t : FileTree) (f : InputFile) : Prop where
  found : t.find f.path = .ok (.file f.data)
  named : Path.fileName? f.path = some f.name
  short : f.data.length < UInt64.size

variable {t : FileTree} {f : InputFile}

/-- What is true of the last name of any path that leads somewhere. -/
theorem Stands.isName (h : f.Stands t) :
    Path.IsName f.name ∧ f.name.utf8ByteSize ≤ FileTree.maxName ∧ '\x00' ∉ f.name.toList := by
  obtain ⟨place, hlocate, -⟩ := FileTree.find_eq_ok_iff.mp h.found
  exact FileTree.fileName_of_locate hlocate h.named

/-- A file without a backslash in its name is extracted under its name. -/
theorem Stands.target_eq (h : f.Stands t) (hname : '\\' ∉ f.name.toList) : f.target = f.name := by
  refine Consumer.lastName_of_not fun c hc => ?_
  have hslash : c ≠ '/' := fun heq => h.isName.1.slash (heq ▸ hc)
  have hbackslash : c ≠ '\\' := fun heq => hname (heq ▸ hc)
  simp [Consumer.separatesName, hslash, hbackslash]

/-- The size that is announced is that of the file, which fits 64 bits. -/
theorem Stands.size_info (h : f.Stands t) : f.info.size.toNat = f.data.length := by
  simp [info, Nat.mod_eq_of_lt h.short]

/-- **A file that is there is announced** under its last name. A name that a
directory can hold is never too long for an entry. -/
theorem Stands.announce_eq (h : f.Stands t) : Files.announce t f.path = .ok (f.info, f.path) := by
  obtain ⟨hname, hshort, -⟩ := h.isName
  have hstored : f.name ≠ "" ∧ f.name.utf8ByteSize ≤ maxNameLength :=
    ⟨hname.nonempty, Nat.le_trans hshort (by decide)⟩
  have hsize : t.size f.path = .ok f.data.length.toUInt64 := by
    rw [FileTree.size, h.found]
    rfl
  have hcreate : FileInfo.create f.name f.data.length.toUInt64 = .ok f.info := by
    rw [FileInfo.create, EntryName.ofText, dif_neg hstored.1, dif_pos hstored.2]
    rfl
  simp only [Files.announce, h.named, hsize, Files.orObstacle, bind, Except.bind, hcreate]
  rfl

/-- And it is opened, with its data to be read. -/
theorem Stands.openInput_eq (h : f.Stands t) :
    Files.openInput t (f.info, f.path) = .ok (f.info, .ofBytes f.data) := by
  have hsource : t.source f.path = .ok (.ofBytes f.data) := by
    rw [FileTree.source, h.found]
    rfl
  simp only [Files.openInput, hsource, Files.orObstacle]
  rfl

end InputFile

namespace Files

variable {σ : Type} {smith : Locksmith σ} {s s' : Site σ} {inputs : List InputFile}

/-- All files that are there are announced. -/
theorem announced (h : ∀ f ∈ inputs, f.Stands s.tree) :
    (inputs.map InputFile.path).mapM (announce s.tree)
      = .ok (inputs.map fun f => (f.info, f.path)) := by
  rw [List.mapM_map]
  exact mapM_eq_pure fun f hf => (h f hf).announce_eq

/-- All of them are opened. -/
theorem opened (h : ∀ f ∈ inputs, f.Stands s.tree) :
    (inputs.map fun f => (f.info, f.path)).mapM (openInput s.tree)
      = .ok (inputs.map fun f => (f.info, Source.ofBytes f.data)) := by
  rw [List.mapM_map]
  exact mapM_eq_pure fun f hf => (h f hf).openInput_eq

/-- And they deliver as much as was announced of them. -/
theorem deliver_opened (h : ∀ f ∈ inputs, f.Stands s.tree) :
    Sealing.Deliver (inputs.map fun f => (f.info, Source.ofBytes f.data)) := by
  intro file hfile
  obtain ⟨f, hf, rfl⟩ := List.mem_map.mp hfile
  exact ⟨Source.steady_ofBytes f.data, by rw [Source.contents_ofBytes, (h f hf).size_info]⟩

/-- **What was encrypted was sealed by a run,** with the files as its
entries, and is at the output path. -/
theorem encrypt_sealed {output : String} {recipients : List Recipient} {size : Nat}
    (hinputs : ∀ f ∈ inputs, f.Stands s.tree)
    (h : encrypt smith output recipients (inputs.map InputFile.path) s = (.ok size, s')) :
    ∃ run : SealedRun σ, run.smith = smith ∧
      run.recipients.map Enrolled.recipient = recipients ∧
      run.entries = inputs.map InputFile.entry ∧ s'.tree.read output = .ok run.container ∧
      run.container.length = size := by
  obtain ⟨entries, sources, bytes, hentries, hsources, hcontainer, hreplace, hsize⟩ := encrypt_ok h
  obtain rfl := Except.ok.inj (hentries.symm.trans (announced hinputs))
  obtain rfl := Except.ok.inj (hsources.symm.trans (opened hinputs))
  obtain ⟨run, hsmith, hrecipients, hrun, rfl⟩ :=
    Sealing.container_ok hcontainer (deliver_opened hinputs)
  refine ⟨run, hsmith, hrecipients, ?_, FileTree.read_of_replace hreplace, hsize⟩
  rw [hrun, List.map_map]
  exact List.map_congr_left fun f _ => by
    show (f.info, (Source.ofBytes f.data).contents) = _
    rw [Source.contents_ofBytes]
    rfl

/-- **Files with different names can be encrypted** for recipients who
have symmetric keys at hand, if the output can be put where it belongs. -/
theorem encrypt_succeeds
    (htag : ∀ key nonce aad msg,
      (smith.suite.encrypt key nonce aad msg).length = msg.length + Aead.tagLength)
    {recipients : List Recipient} (hsome : recipients ≠ []) (hfew : recipients.length ≤ 1000)
    (hkeys : ∀ r ∈ recipients, smith.KeyAtHand r)
    (hinputs : ∀ f ∈ inputs, f.Stands s.tree) (hnodup : (inputs.map InputFile.name).Nodup)
    (hroom : Sealing.numbers (inputs.map InputFile.entry) + 1 < UInt64.size) {output : String}
    (hcheck : checkRoom s.tree (Path.parent output) = .ok ()) {after : Bytes → FileTree}
    (hreplace : ∀ bytes, s.tree.replace output bytes = .ok (after bytes)) :
    ∃ bytes w', encrypt smith output recipients (inputs.map InputFile.path) s
      = (.ok bytes.length, ⟨after bytes, w'⟩) := by
  let files := inputs.map fun f => (f.info, Source.ofBytes f.data)
  have hentries : files.map (fun file => (file.1, file.2.contents)) = inputs.map InputFile.entry := by
    rw [List.map_map]
    refine List.map_congr_left fun f _ => ?_
    show (f.info, (Source.ofBytes f.data).contents) = _
    rw [Source.contents_ofBytes]
    rfl
  have hstorable : ∀ file ∈ files, ∃ stored, EntryName.ofText file.1.name = .ok stored := by
    intro file hfile
    obtain ⟨f, hf, rfl⟩ := List.mem_map.mp hfile
    obtain ⟨hname, hshort, -⟩ := (hinputs f hf).isName
    exact ⟨⟨f.name, hname.nonempty, Nat.le_trans hshort (by decide)⟩,
      EntryName.ofText_eq_ok_iff.mpr rfl⟩
  obtain ⟨bytes, w', hcontainer⟩ := Sealing.container_succeeds htag hsome hfew hkeys
    (deliver_opened hinputs) hstorable (by rw [List.map_map]; exact hnodup)
    (by rw [hentries]; exact hroom) s.world
  refine ⟨bytes, w', ?_⟩
  unfold encrypt
  rw [Step.bind_get, announced hinputs, Step.bind_answer, opened hinputs, Step.bind_answer,
    hcheck, Step.bind_answer]
  have hsealed : inWorld (Sealing.container smith recipients files) s
      = (.ok bytes, ⟨s.tree, w'⟩) := inWorld_ok_iff.mpr ⟨w', hcontainer, rfl⟩
  rw [Step.bind_of_ok hsealed]
  refine Step.bind_of_ok (a := ()) (change_ok_iff.mpr ⟨after bytes, ?_, rfl⟩) _
  rw [hreplace]

end Files

end Lockbox
