import Lockbox.Files
import Lockbox.Proofs.Progress
import Lockbox.Proofs.Spelling
import Mathlib.Data.List.Forall2
/-!
# Lockbox — everything at once, accepted

What a session has accepted that was given everything at once: those
recipients, and those entries with what their sources held. So a container
that was made at once is one that a run sealed (`Sealing.container_ok`).
And one can be made of any entries with different names, each with the data
that were declared, for recipients who have symmetric keys at hand
(`Sealing.container_succeeds`, `SealedRun.exists_of_entries`).
-/

namespace Lockbox

open Payload

namespace Sealing

variable {σ : Type} {s s' : Sealing σ} {l : Ledger} {w w' : World σ}

/-- Every source delivers as much as was announced of it, and does not fail. -/
def Deliver (files : List (FileInfo × Source)) : Prop :=
  ∀ file ∈ files, file.2.Steady ∧ file.2.contents.length = file.1.size.toNat

/-- All calls, one after the other, behind what a ledger has already. -/
def runFrom (l : Ledger) (calls : List Call) (s : Sealing σ) (w : World σ) :
    Ledger × Sealing σ × World σ :=
  calls.foldl (fun state call => call.apply state) (l, s, w)

theorem runFrom_cons (call : Call) (calls : List Call) : runFrom l (call :: calls) s w
    = runFrom (call.apply (l, s, w)).1 calls (call.apply (l, s, w)).2.1 (call.apply (l, s, w)).2.2 :=
  rfl

theorem runFrom_append (before later : List Call) : runFrom l (before ++ later) s w
    = runFrom (runFrom l before s w).1 later (runFrom l before s w).2.1 (runFrom l before s w).2.2 :=
  List.foldl_append

/-- **Recipients that could all be added** are all enrolled. -/
theorem runFrom_recipients {recipients : List Recipient}
    (h : s.addRecipients recipients w = (.ok (), s', w')) :
    ∃ enrolled : List Enrolled, enrolled.map Enrolled.recipient = recipients ∧
      runFrom l (callsOfRecipients recipients s w) s w
        = ({ l with recipients := l.recipients ++ enrolled }, s', w') := by
  induction recipients generalizing l s w with
  | nil =>
    cases h
    exact ⟨[], rfl, by simp [runFrom, callsOfRecipients]⟩
  | cons r rest ih =>
    rw [addRecipients] at h
    cases hadd : s.addRecipient r w with
    | mk result after =>
      obtain ⟨s₁, w₁⟩ := after
      rw [hadd] at h
      cases result with
      | error e => exact absurd (Prod.mk.inj h).1 (by simp)
      | ok index =>
        let one : Enrolled := ⟨index, r, s.asked r w⟩
        obtain ⟨enrolled, hmap, hrest⟩ :=
          ih (l := { l with recipients := l.recipients ++ [one] }) h
        refine ⟨one :: enrolled, by rw [List.map_cons, hmap], ?_⟩
        have hfirst : (Call.addRecipient r).apply (l, s, w)
            = ({ l with recipients := l.recipients ++ [one] }, s₁, w₁) := by
          simp only [Call.apply, hadd]
          rfl
        rw [callsOfRecipients, runFrom_cons, hfirst, hadd]
        simpa using hrest

/-- **Data that could all be handed over** are those of the last entry: what
a source holds first, and no more of it than was wanted. -/
theorem runFrom_pump {remaining : Nat} {source : Source} {before : List (FileInfo × Bytes)}
    {e : FileInfo × Bytes} (h : s.pump remaining source = (.ok (), s'))
    (hentries : l.entries = before ++ [e]) :
    ∃ data, data <+: source.contents ∧
      runFrom l (callsOfPump remaining source s) s w
        = ({ l with entries := before ++ [(e.1, e.2 ++ data)] }, s', w) := by
  fun_induction callsOfPump remaining source s generalizing l e with
  | case1 source s =>
    rw [pump, dif_pos rfl] at h
    cases h
    exact ⟨[], List.nil_prefix, by rw [List.append_nil, ← hentries]; rfl⟩
  | case2 remaining source s hr hpos x hread =>
    rw [pump_of_ended hr hread] at h
    cases h
    exact ⟨[], List.nil_prefix, by rw [List.append_nil, ← hentries]; rfl⟩
  | case3 remaining source s hr hpos fault x hread =>
    rw [pump_of_failed hr hread] at h
    exact absurd (Prod.mk.inj h).1 (by simp)
  | case4 remaining source s hr hpos b source' hread hlt ih =>
    obtain ⟨-, hcontents⟩ := Source.read_got hread
    rw [pump_of_got hr hread] at h
    cases hwrite : s.writeData b with
    | mk result s₁ =>
      rw [hwrite] at h
      cases result with
      | error e => exact absurd (Prod.mk.inj h).1 (by simp)
      | ok u =>
        have hfirst : (Call.writeData b).apply (l, s, w)
            = ({ l with entries := before ++ [(e.1, e.2 ++ b)] }, s₁, w) := by
          simp only [Call.apply, hwrite, Ledger.update, hentries, handOver_concat]
        obtain ⟨data, hdata, hrest⟩ := ih s₁ (l := { l with entries := before ++ [(e.1, e.2 ++ b)] })
          (e := (e.1, e.2 ++ b)) h rfl
        refine ⟨b ++ data, ?_, ?_⟩
        · rw [hcontents]
          exact (List.prefix_append_right_inj b).mpr hdata
        · rw [runFrom_cons, hfirst, ← List.append_assoc]
          exact hrest

/-- The entry was announced so, and its data are what the source holds
first. -/
def Brought (file : FileInfo × Source) (e : FileInfo × Bytes) : Prop :=
  e.1 = file.1 ∧ e.2 <+: file.2.contents

/-- **Entries that could all be added** are all there, with what their
sources held. -/
theorem runFrom_files {files : List (FileInfo × Source)} (h : s.addFiles files = (.ok (), s')) :
    ∃ added, List.Forall₂ Brought files added ∧
      runFrom l (callsOfFiles files s) s w
        = ({ l with entries := l.entries ++ added }, s', w) := by
  induction files generalizing l s with
  | nil =>
    cases h
    exact ⟨[], .nil, by simp [runFrom, callsOfFiles]⟩
  | cons file rest ih =>
    obtain ⟨info, source⟩ := file
    rw [addFiles] at h
    cases hadd : s.addFile info.name info.size with
    | mk result s₁ =>
      rw [hadd] at h
      cases result with
      | error e => exact absurd (Prod.mk.inj h).1 (by simp)
      | ok u =>
        dsimp only at h
        cases hpump : s₁.pump info.size.toNat source with
        | mk result s₂ =>
          rw [hpump] at h
          cases result with
          | error e => exact absurd (Prod.mk.inj h).1 (by simp)
          | ok u =>
            have hfirst : (Call.addFile info.name info.size).apply (l, s, w)
                = ({ l with entries := l.entries ++ [(info, [])] }, s₁, w) := by
              simp only [Call.apply, hadd, Ledger.update]
            obtain ⟨data, hprefix, hdata⟩ := runFrom_pump (w := w)
              (l := { l with entries := l.entries ++ [(info, [])] }) hpump rfl
            obtain ⟨added, hadded, hrest⟩ :=
              ih (l := { l with entries := l.entries ++ [(info, data)] }) h
            refine ⟨(info, data) :: added, .cons ⟨rfl, hprefix⟩ hadded, ?_⟩
            rw [callsOfFiles, runFrom_cons, hfirst, hadd]
            dsimp only
            rw [runFrom_append, hdata, hpump]
            simpa using hrest

/-- Of complete entries, as much was brought as was announced. -/
theorem Brought.entries_eq {files : List (FileInfo × Source)} {added : List (FileInfo × Bytes)}
    (h : List.Forall₂ Brought files added) (hcomplete : Item.Complete added) :
    added = files.map fun file => (file.1, file.2.contents.take file.1.size.toNat) := by
  induction h with
  | nil => rfl
  | @cons file e files added hfirst hrest ih =>
    obtain ⟨info, data⟩ := e
    obtain ⟨rfl, hprefix⟩ := hfirst
    have hlength : data.length = file.1.size.toNat := hcomplete _ List.mem_cons_self
    rw [List.map_cons, ← ih fun e he => hcomplete e (List.mem_cons_of_mem _ he), ← hlength,
      ← List.prefix_iff_eq_take.mp hprefix]

/-- What everything at once consists of, if all of it succeeds. -/
theorem encryptAll_ok {recipients : List Recipient} {files : List (FileInfo × Source)}
    (hcreated : s.stage = .created) (h : s.encryptAll recipients files w = (.ok (), s', w')) :
    ∃ s₁ w₁ s₂ s₃, s.begin w = (.ok (), s₁, w₁) ∧
      s₁.addRecipients recipients w₁ = (.ok (), s₂, w') ∧ s₂.addFiles files = (.ok (), s₃) ∧
      s₃.finish = (.ok (), s') := by
  rw [encryptAll, ensureBegun, hcreated] at h
  dsimp only at h
  split at h
  · exact absurd (Prod.mk.inj h).1 (by simp)
  · rename_i s₁ w₁ hbegin
    split at h
    · exact absurd (Prod.mk.inj h).1 (by simp)
    · rename_i s₂ w₂ hrecipients
      split at h
      · exact absurd (Prod.mk.inj h).1 (by simp)
      · rename_i s₃ hfiles
        obtain ⟨hresult, hlater⟩ := Prod.mk.inj h
        obtain ⟨rfl, rfl⟩ := Prod.mk.inj hlater
        exact ⟨s₁, w₁, s₂, s₃, hbegin, hrecipients, hfiles, Prod.ext hresult rfl⟩

/-- **What was encrypted at once was sealed by a run,** with these
recipients, and with these entries and what their sources held. It stands
behind what the destination had. -/
theorem encryptAll_sealed {smith : Locksmith σ} {spool dest : Sink} {start : Sealing σ}
    {recipients : List Recipient} {files : List (FileInfo × Source)}
    (hcreate : create smith containerVersion spool dest = .ok start) (hfresh : spool.accepted = [])
    (h : start.encryptAll recipients files w = (.ok (), s', w')) :
    ∃ run : SealedRun σ, run.smith = smith ∧
      run.recipients.map Enrolled.recipient = recipients ∧
      run.entries = files.map (fun file => (file.1, file.2.contents.take file.1.size.toNat)) ∧
      s'.dest.accepted = dest.accepted ++ run.container := by
  have hcreated : start.stage = .created := by rw [create_ok hcreate]
  obtain ⟨s₁, w₁, s₂, s₃, hbegin, hrecipients, hadded, hfinish⟩ := encryptAll_ok hcreated h
  obtain ⟨enrolled, henrolled, hfirst⟩ := runFrom_recipients (l := .empty) hrecipients
  obtain ⟨added, hbrought, hfiles⟩ := runFrom_files (l := ⟨enrolled, []⟩) (w := w') hadded
  let calls := .begin :: (callsOfRecipients recipients s₁ w₁ ++ callsOfFiles files s₂)
  have hrun : run calls start w = (⟨enrolled, added⟩, s₃, w') := by
    show runFrom .empty calls start w = _
    have happly : Call.begin.apply (.empty, start, w) = (.empty, s₁, w₁) := by
      rw [Call.apply, hbegin]
    rw [runFrom_cons, happly, runFrom_append, hfirst]
    exact hfiles
  obtain ⟨draft, -, hstage, -⟩ := finish_ok hfinish
  let sealed : SealedRun σ := ⟨smith, containerVersion, spool, dest, hfresh, start, hcreate, w, calls,
    draft, by rw [hrun]; exact hstage, by rw [hrun]; exact congrArg Prod.fst hfinish⟩
  have hledger : sealed.ledger = ⟨enrolled, added⟩ := congrArg Prod.fst hrun
  have hunsealed : sealed.unsealed = s₃ := congrArg (fun x => x.2.1) hrun
  have hentries : sealed.entries = added := by rw [SealedRun.entries, hledger]
  obtain ⟨-, -, -, hcomplete, -⟩ := sealed.container_eq
  rw [hentries] at hcomplete
  refine ⟨sealed, rfl, ?_, ?_, ?_⟩
  · rw [SealedRun.recipients, hledger]
    exact henrolled
  · rw [hentries, Brought.entries_eq hbrought hcomplete]
  · have haccepted := sealed.accepted_sealed
    rw [hunsealed, hfinish] at haccepted
    exact haccepted

/-- **A container that was made at once was sealed by a run,** with these
recipients, and with these entries and what their sources held. -/
theorem container_sealed {smith : Locksmith σ} {recipients : List Recipient}
    {files : List (FileInfo × Source)} {bytes : Bytes}
    (h : container smith recipients files w = (.ok bytes, w')) :
    ∃ run : SealedRun σ, run.smith = smith ∧
      run.recipients.map Enrolled.recipient = recipients ∧
      run.entries = files.map (fun file => (file.1, file.2.contents.take file.1.size.toNat)) ∧
      run.container = bytes := by
  unfold container at h
  split at h
  · exact absurd (Prod.mk.inj h).1 (by simp)
  · rename_i start hcreate
    split at h
    · exact absurd (Prod.mk.inj h).1 (by simp)
    · rename_i s' w₂ hall
      obtain ⟨hbytes, rfl⟩ := Prod.mk.inj h
      obtain ⟨run, hsmith, hrecipients, hentries, haccepted⟩ := encryptAll_sealed hcreate rfl hall
      exact ⟨run, hsmith, hrecipients, hentries, haccepted.symm.trans (Except.ok.inj hbytes)⟩

/-- Where every source delivers as much as was announced, the entries have
all that their sources held. -/
theorem container_ok {smith : Locksmith σ} {recipients : List Recipient}
    {files : List (FileInfo × Source)} {bytes : Bytes}
    (h : container smith recipients files w = (.ok bytes, w')) (hfiles : Deliver files) :
    ∃ run : SealedRun σ, run.smith = smith ∧
      run.recipients.map Enrolled.recipient = recipients ∧
      run.entries = files.map (fun file => (file.1, file.2.contents)) ∧
      run.container = bytes := by
  obtain ⟨run, hsmith, hrecipients, hentries, hcontainer⟩ := container_sealed h
  refine ⟨run, hsmith, hrecipients, hentries.trans ?_, hcontainer⟩
  refine List.map_congr_left fun file hfile => ?_
  rw [List.take_of_length_le (Nat.le_of_eq (hfiles file hfile).2)]

/-! ## What can be accepted

Each step finds the session as the step before left it: with a draft, a
payload that has numbers for all that is still to come, and the locks made
so far. -/

section

variable {draft : Draft} {n : Nat}

/-- **What a source holds can all be handed over.** -/
theorem pump_succeeds {remaining : Nat} {source : Source} (hstage : s.stage = .accepting draft)
    (h : draft.payload.Amid n remaining) (hsteady : source.Steady)
    (hlength : source.contents.length = remaining) :
    ∃ payload, s.pump remaining source
        = (.ok (), { s with stage := .accepting { draft with payload } }) ∧
      payload.Ready n ∧ payload.names = draft.payload.names := by
  induction hn : source.weight using Nat.strongRecOn generalizing s draft remaining source with
  | ind weight ih =>
    by_cases hr : remaining = 0
    · subst hr
      refine ⟨draft.payload, ?_, h.ready, rfl⟩
      rw [pump, dif_pos rfl, ← hstage]
    · have hpos : 0 < min chunkSize remaining := by
        have : 0 < chunkSize := by decide
        omega
      cases hread : source.read (min chunkSize remaining) with
      | mk answer source' =>
        have hsteady' := hsteady.read (min chunkSize remaining)
        rw [hread] at hsteady'
        cases answer with
        | ended =>
          have hended := (Source.read_ended_iff hsteady _).mp (congrArg Prod.fst hread)
          rw [hended] at hlength
          exact absurd hlength.symm hr
        | failed fault =>
          exact absurd (congrArg Prod.fst hread) (Source.read_ne_failed hsteady _ fault)
        | got b =>
          have hless := Source.weight_read hpos hread (by simp)
          obtain ⟨hmost, hcontents⟩ := Source.read_got hread
          obtain ⟨w₁, hw₁, hamid, hnames⟩ := h.write (S := s.smith.suite)
            (show b.length ≤ remaining by omega)
          have hwrite : s.writeData b
              = (.ok (), { s with stage := .accepting { draft with payload := w₁ } }) := by
            simp only [writeData, onPayload, hstage, hw₁, Stage.after]
          have hleft : source'.contents.length = remaining - b.length := by
            rw [hcontents, List.length_append] at hlength
            omega
          rw [pump_of_got hr hread, hwrite]
          obtain ⟨payload, hrest, hready, hnames'⟩ := ih source'.weight (hn ▸ hless)
            (s := { s with stage := .accepting { draft with payload := w₁ } }) rfl hamid hsteady'
            hleft rfl
          exact ⟨payload, hrest, hready, hnames'.trans hnames⟩

/-- **Entries with new names, and with sources of the sizes that were
announced, can all be added.** -/
theorem addFiles_succeeds {files : List (FileInfo × Source)} (hstage : s.stage = .accepting draft)
    (h : draft.payload.Ready (n + numbers (files.map fun file => (file.1, file.2.contents))))
    (hfiles : Deliver files) (hstorable : ∀ file ∈ files, ∃ stored,
      EntryName.ofText file.1.name = .ok stored)
    (hnodup : (files.map fun file => file.1.name).Nodup)
    (hnew : ∀ file ∈ files, file.1.name ∉ draft.payload.names) :
    ∃ payload, s.addFiles files
        = (.ok (), { s with stage := .accepting { draft with payload } }) ∧ payload.Ready n := by
  induction files generalizing s draft with
  | nil =>
    refine ⟨draft.payload, ?_, h⟩
    rw [addFiles, ← hstage]
  | cons file rest ih =>
    obtain ⟨info, source⟩ := file
    obtain ⟨hsteady, hlength⟩ := hfiles _ List.mem_cons_self
    obtain ⟨stored, hstored⟩ := hstorable _ List.mem_cons_self
    obtain ⟨hfresh, hrest⟩ := List.nodup_cons.mp hnodup
    have hcost : n + numbers (((info, source) :: rest).map fun file => (file.1, file.2.contents))
        = n + numbers (rest.map fun file => (file.1, file.2.contents))
          + (1 + info.size.toNat) := by
      rw [List.map_cons, numbers]
      dsimp only at hlength ⊢
      omega
    rw [hcost] at h
    obtain ⟨w₁, hw₁, hamid, hnames₁⟩ := h.declare (S := s.smith.suite) hstored
      (hnew _ List.mem_cons_self)
    have hadd : s.addFile info.name info.size
        = (.ok (), { s with stage := .accepting { draft with payload := w₁ } }) := by
      simp only [addFile, onPayload, hstage, hw₁, Stage.after]
    obtain ⟨w₂, hpump, hready, hnames₂⟩ := pump_succeeds
      (s := { s with stage := .accepting { draft with payload := w₁ } }) rfl hamid hsteady hlength
    have hnew' : ∀ later ∈ rest, later.1.name ∉ w₂.names := by
      intro later hlater hmem
      rw [hnames₂, hnames₁] at hmem
      rcases List.mem_cons.mp hmem with hsame | hmem
      · have hname := List.mem_map_of_mem (f := fun file : FileInfo × Source => file.1.name) hlater
        rw [hsame] at hname
        exact hfresh hname
      · exact hnew later (List.mem_cons_of_mem _ hlater) hmem
    obtain ⟨payload, hlater, hready'⟩ := ih
      (s := { s with stage := .accepting { draft with payload := w₂ } }) rfl hready
      (fun later hlater => hfiles later (List.mem_cons_of_mem _ hlater))
      (fun later hlater => hstorable later (List.mem_cons_of_mem _ hlater)) hrest hnew'
    refine ⟨payload, ?_, hready'⟩
    rw [addFiles, hadd]
    dsimp only
    rw [hpump]
    exact hlater

/-- **Recipients with symmetric keys at hand can all be added,** and each has
a short lock then. -/
theorem addRecipients_succeeds (hstage : s.stage = .accepting draft)
    (htag : ∀ key nonce aad msg,
      (s.smith.suite.encrypt key nonce aad msg).length = msg.length + Aead.tagLength)
    (hshort : ∀ l ∈ draft.locks, l.toJson.render.length ≤ 7000) {recipients : List Recipient}
    (hkeys : ∀ r ∈ recipients, s.smith.KeyAtHand r) (w : World σ) :
    ∃ locks w', s.addRecipients recipients w
        = (.ok (), { s with stage := .accepting { draft with locks } }, w') ∧
      locks.length = draft.locks.length + recipients.length ∧
      ∀ l ∈ locks, l.toJson.render.length ≤ 7000 := by
  induction recipients generalizing s draft w with
  | nil =>
    refine ⟨draft.locks, w, ?_, rfl, hshort⟩
    rw [addRecipients, ← hstage]
  | cons r rest ih =>
    obtain ⟨lock, w₁, hwrap, hlock⟩ :=
      (hkeys r List.mem_cons_self).wrap htag draft.locks.length draft.fmk w
    have hadd : s.addRecipient r w = (.ok draft.locks.length,
        { s with stage := .accepting { draft with locks := draft.locks ++ [lock] } }, w₁) := by
      simp only [addRecipient, hstage, hwrap]
    have hshort' : ∀ l ∈ draft.locks ++ [lock], l.toJson.render.length ≤ 7000 := by
      intro l hl
      rcases List.mem_append.mp hl with hold | hnew
      · exact hshort l hold
      · rw [List.mem_singleton.mp hnew]
        exact hlock
    obtain ⟨locks, w', hrest, hlength, hall⟩ := ih
      (s := { s with stage := .accepting { draft with locks := draft.locks ++ [lock] } }) rfl htag
      hshort' (fun r hr => hkeys r (List.mem_cons_of_mem _ hr)) w₁
    refine ⟨locks, w', ?_, ?_, hall⟩
    · rw [addRecipients, hadd]
      exact hrest
    · rw [hlength, List.length_append, List.length_singleton, List.length_cons]
      omega

end

/-- **A container can be made at once** of entries with different names
that can be stored, for recipients with symmetric keys at hand. -/
theorem container_succeeds {smith : Locksmith σ}
    (htag : ∀ key nonce aad msg,
      (smith.suite.encrypt key nonce aad msg).length = msg.length + Aead.tagLength)
    {recipients : List Recipient} (hsome : recipients ≠ []) (hfew : recipients.length ≤ 1000)
    (hkeys : ∀ r ∈ recipients, smith.KeyAtHand r)
    {files : List (FileInfo × Source)} (hfiles : Deliver files)
    (hstorable : ∀ file ∈ files, ∃ stored, EntryName.ofText file.1.name = .ok stored)
    (hnodup : (files.map fun file => file.1.name).Nodup)
    (hroom : numbers (files.map fun file => (file.1, file.2.contents)) + 1 < UInt64.size)
    (w : World σ) :
    ∃ bytes w', container smith recipients files w = (.ok bytes, w') := by
  let start : Sealing σ :=
    ⟨smith, containerVersion, ⟨smith.config.compress⟩, .unlimited, .unlimited, .created⟩
  have hcreate : create smith containerVersion .unlimited .unlimited = .ok start := if_pos rfl
  -- the session begins, and then it has a lock for each recipient
  obtain ⟨fmk, nonce, channel, w₁, hbegin⟩ : ∃ fmk nonce channel w₁, start.begin w
      = (.ok (), { start with stage := .accepting ⟨fmk, nonce, .create .unlimited channel, []⟩ },
        w₁) := ⟨_, _, _, _, rfl⟩
  obtain ⟨locks, w₂, hrecipients, hlength, hshort⟩ := addRecipients_succeeds
    (s := { start with stage := .accepting ⟨fmk, nonce, .create .unlimited channel, []⟩ })
    rfl htag (fun _ hl => absurd hl List.not_mem_nil) hkeys w₁
  rw [List.length_nil, Nat.zero_add] at hlength
  have hlocks : locks ≠ [] := by
    rintro rfl
    exact hsome (List.eq_nil_of_length_eq_zero hlength.symm)
  have hready : (Writer.create .unlimited channel).Ready
      (1 + numbers (files.map fun file => (file.1, file.2.contents))) :=
    ⟨Sink.unbounded_unlimited, rfl, rfl, by
      show 0 + (1 + numbers (files.map fun file => (file.1, file.2.contents))) < UInt64.size
      omega⟩
  obtain ⟨payload, hadd, hready'⟩ := addFiles_succeeds
    (s := { start with stage := .accepting ⟨fmk, nonce, .create .unlimited channel, locks⟩ })
    rfl hready hfiles hstorable hnodup fun _ _ hmem => absurd hmem (by simp [Writer.create])
  have hfit : (Header.toJson ⟨Suite.name, nonce, locks⟩).render.length ≤ maxHeaderLength :=
    Header.fits nonce (hlength ▸ hfew) hshort
  have hfinish := finish_succeeds
    (s := { start with stage := .accepting ⟨fmk, nonce, payload, locks⟩ }) rfl hlocks hready'
    Sink.unbounded_unlimited hfit
  rw [container, hcreate]
  dsimp only
  rw [encryptAll, ensureBegun]
  dsimp only [start]
  rw [hbegin]
  dsimp only
  rw [hrecipients]
  dsimp only
  rw [hadd]
  dsimp only
  rw [hfinish]
  exact ⟨_, _, rfl⟩

end Sealing

namespace SealedRun

/-- **Entries can be sealed**, if their names differ and can be stored and
if each has the data that were declared, for a recipient with a symmetric
key at hand. -/
theorem exists_of_entries {σ : Type} (smith : Locksmith σ)
    (htag : ∀ key nonce aad msg,
      (smith.suite.encrypt key nonce aad msg).length = msg.length + Aead.tagLength)
    {label : String} {given : Option Bytes}
    (hkey : smith.KeyAtHand (.symmetricKey label given)) {entries : List (FileInfo × Bytes)}
    (hstorable : Storable entries)
    (hcomplete : Item.Complete entries) (hnodup : (entries.map fun e => e.1.name).Nodup)
    (hroom : Sealing.numbers entries + 1 < UInt64.size) (world : World σ) :
    ∃ (run : SealedRun σ) (asked : List Exchange), run.smith = smith ∧ run.entries = entries ∧
      run.recipients = [⟨0, .symmetricKey label given, asked⟩] := by
  let files := entries.map fun e => (e.1, Source.ofBytes e.2)
  have hcontents : files.map (fun file => (file.1, file.2.contents)) = entries := by
    rw [List.map_map]
    exact (List.map_congr_left fun e _ => by simp).trans (List.map_id entries)
  have hfiles : Sealing.Deliver files := by
    intro file hfile
    obtain ⟨e, he, rfl⟩ := List.mem_map.mp hfile
    exact ⟨Source.steady_ofBytes e.2, by rw [Source.contents_ofBytes, hcomplete e he]⟩
  have hstored : ∀ file ∈ files, ∃ stored, EntryName.ofText file.1.name = .ok stored := by
    intro file hfile
    obtain ⟨e, he, rfl⟩ := List.mem_map.mp hfile
    exact hstorable e he
  have hkeys : ∀ r ∈ [Recipient.symmetricKey label given], smith.KeyAtHand r :=
    List.forall_mem_singleton.mpr hkey
  obtain ⟨bytes, w', hcontainer⟩ := Sealing.container_succeeds htag (List.cons_ne_nil _ _)
    (by simp) hkeys hfiles hstored (by rw [List.map_map]; exact hnodup)
    (by rw [hcontents]; exact hroom) world
  obtain ⟨run, hsmith, hrecipients, hentries, -⟩ := Sealing.container_ok hcontainer hfiles
  rw [hcontents] at hentries
  -- the one recipient has the first lock
  obtain ⟨-, ⟨-, hlocks⟩, -⟩ := run.container_eq
  obtain ⟨⟨index, r, asked⟩, hone, rfl⟩ := List.map_eq_singleton_iff.mp hrecipients
  have hlength : run.draft.locks.length = run.recipients.length := run.container_eq.2.1.1
  have hfirst : 0 < run.recipients.length := by
    rw [hone]
    exact Nat.one_pos
  have hindex := (hlocks 0 hfirst (hlength ▸ hfirst)).1
  simp only [hone, List.getElem_cons_zero] at hindex
  subst hindex
  exact ⟨run, asked, hsmith, hentries, hone⟩

end SealedRun

/-! ## A container -/

/-- A locksmith of the plain suite. Whatever lock the provider is asked
for, it has the same secret. -/
def Locksmith.plain (secret : Bytes) : Locksmith Unit :=
  ⟨.plain, .default, ⟨fun _ => Step.answer (.ok secret), none⟩⟩

/-- The one recipient of the examples brings a key along. -/
theorem Locksmith.plain_keyAtHand (secret : Bytes) :
    ∀ r ∈ [Recipient.symmetricKey "key" (some [1])], (Locksmith.plain secret).KeyAtHand r :=
  List.forall_mem_singleton.mpr (keyAtHand_of_brought _ (by decide) (by simp))

/-- An entry without data and one with a byte. -/
def twoEntries : List (FileInfo × Bytes) := [(⟨"empty", 0⟩, []), (⟨"one", 1⟩, [7])]

/-- Two entries can be sealed for a recipient who brings the provider's key
along, or leaves it out. -/
theorem SealedRun.exists_twoEntries {given : Option Bytes} (h : given.getD [1] = [1]) :
    ∃ (run : SealedRun Unit) (asked : List Exchange), run.smith = .plain [1] ∧
      run.entries = twoEntries ∧ run.recipients = [⟨0, .symmetricKey "key" given, asked⟩] := by
  have hkey : (Locksmith.plain [1]).KeyAtHand (.symmetricKey "key" given) := by
    refine ⟨by decide, [1], by simp, fun index w => ?_⟩
    cases given with
    | some secret =>
      obtain rfl : secret = [1] := h
      exact ⟨w, rfl⟩
    | none => exact ⟨w, rfl⟩
  have hstorable : Storable twoEntries := by
    intro e he
    rcases List.mem_cons.mp he with rfl | he
    · exact ⟨⟨"empty", by decide⟩, EntryName.ofText_eq_ok_iff.mpr rfl⟩
    · obtain rfl := List.mem_singleton.mp he
      exact ⟨⟨"one", by decide⟩, EntryName.ofText_eq_ok_iff.mpr rfl⟩
  have hcomplete : Item.Complete twoEntries := by
    unfold Item.Complete
    decide
  exact exists_of_entries _ Suite.plain_fitsFrames.tag hkey hstorable hcomplete (by decide) (by decide)
    ⟨.splitMix 1, ()⟩

end Lockbox
