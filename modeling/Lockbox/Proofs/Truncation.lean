import Lockbox.Proofs.AllAtOnce
import Lockbox.Proofs.Opened
/-!
# Lockbox — what is cut off is missed

A container of which an end is missing is never taken for a whole one,
and no assumption on what others can forge is needed for that: the head
says how long it is, a frame says how long it is, and only the last frame
says that the payload ends. What a destination has taken that failed on
the way is such a container.
-/

namespace Lockbox

open Payload

namespace SealedRun

variable {σ τ : Type} {run : SealedRun σ}

/-- A cut goes through the head, or through what the frames were stored
in; a whole head with nothing behind it is of the second kind. -/
theorem cut_cases {contents : Bytes} (hbegins : contents <+: run.container)
    (hne : contents ≠ run.container) :
    (contents <+: run.draft.header.sealed run.suite containerVersion run.flags run.fmk ∧
      contents.length
        < (run.draft.header.sealed run.suite containerVersion run.flags run.fmk).length) ∨
    ∃ payload lost, lost ≠ [] ∧
      contents = run.draft.header.sealed run.suite containerVersion run.flags run.fmk ++ payload ∧
      payload ++ lost = run.channel.stream run.suite 0 run.frames := by
  obtain ⟨-, -, hcontainer, -⟩ := run.container_eq
  obtain ⟨lost, hlost⟩ := hbegins
  have hlost' : lost ≠ [] := by
    rintro rfl
    rw [List.append_nil] at hlost
    exact hne hlost
  rw [hcontainer] at hlost
  obtain ⟨missing, hhead, hframes⟩ | ⟨payload, hcontents, hpayload⟩ :=
    List.append_eq_append_iff.mp hlost
  · cases missing with
    | nil =>
      rw [List.append_nil] at hhead
      rw [List.nil_append] at hframes
      exact .inr ⟨[], lost, hlost', by rw [hhead, List.append_nil], hframes⟩
    | cons b missing =>
      refine .inl ⟨⟨_, hhead.symm⟩, ?_⟩
      rw [hhead, List.length_append, List.length_cons]
      omega
  · exact .inr ⟨payload, lost, hlost', hcontents, hpayload.symm⟩

/-- A head that is cut cannot be parsed. -/
theorem create_of_cut (lenient : Bool) {reader : Locksmith τ} {source : Source}
    (hsteady : source.Steady)
    (hcut : source.contents
      <+: run.draft.header.sealed run.suite containerVersion run.flags run.fmk)
    (hlt : source.contents.length
      < (run.draft.header.sealed run.suite containerVersion run.flags run.fmk).length) :
    ∃ f, Opening.create reader lenient source = .error (.parse f) := by
  obtain ⟨f, hread⟩ := Header.read_cut lenient run.container_eq.1 hsteady hcut hlt
  obtain ⟨source', hread'⟩ : ∃ source',
      ParsedHeader.read lenient source = (.error (.parse f), source') :=
    ⟨_, Prod.ext hread rfl⟩
  refine ⟨f, ?_⟩
  rw [Opening.create, hread']

end SealedRun

/-- **Truncation is detected.** Whatever destination a run had been given,
it has taken a beginning of the container. And of every beginning that is
not all of it, either the head cannot be parsed, or decrypting it fails for
its integrity after entries that are a beginning of those that were
written, whether or not data errors are to be ignored. -/
theorem truncation_detected {σ τ γ : Type} (run : SealedRun σ) (hs : run.suite.OpensSealed)
    (hz : run.suite.InflatesDeflated) (hl : run.suite.CountsSealed) {reader : Locksmith τ}
    (hsuite : reader.suite = run.suite) :
    (∀ dest : Sink, ∃ q, q <+: run.container ∧
      { run.unsealed with dest }.finish.2.dest.accepted = dest.accepted ++ q) ∧
    ∀ (lenient : Bool) (source : Source), source.Steady → source.contents <+: run.container →
      source.contents ≠ run.container →
      (∃ f, Opening.create reader lenient source = .error (.parse f)) ∨
      ∃ s, Opening.create reader lenient source = .ok s ∧
        ∀ (k : Consumer γ) (view : γ → List (FileInfo × Bytes)), k.Accepts view → ∀ c,
          ∃ f s' c' closed, s.decryptAll run.fmk k c = (.error (.integrity f), s', c') ∧
            s'.isFullyDecrypted = false ∧ closed <+: run.entries ∧ view c' = view c ++ closed := by
  refine ⟨run.accepted_finish, fun lenient source hsteady hbegins hne => ?_⟩
  obtain ⟨-, -, -, hcomplete, hstorable, -⟩ := run.container_eq
  obtain ⟨hcut, hlt⟩ | ⟨payload, lost, hlost, hcontents, hframes⟩ := SealedRun.cut_cases hbegins hne
  · exact .inl (SealedRun.create_of_cut lenient hsteady hcut hlt)
  · -- the head is whole, so it is read, and the frames are what is cut off
    obtain ⟨s, rest, hcreate, -, hfaces, hsteady', hpayload⟩ :=
      SealedRun.create_of_head lenient hsuite hsteady hcontents
    refine .inr ⟨s, hcreate, fun k view hk c => ?_⟩
    let p := Supply.stored hs hz hl run.channel run.frames lost
    have hat : p.At 0 rest := ⟨hsteady', by rw [hpayload, hframes, List.drop_zero]⟩
    obtain ⟨r, c', -, -, -, hend⟩ | ⟨e, r, c', closed, hdrain, hblame, hfin, hclosed, hview⟩ :=
      Supply.drain_script hk hstorable hcomplete c 0 (p.feeds_create hat lenient) (.inl rfl) rfl
    · exact absurd hend (Supply.not_concluded_stored hs hz hl hlost _)
    · obtain ⟨f, rfl⟩ := hblame.integrity
      exact ⟨f, _, c', closed, hfaces.decryptAll_eq hdrain, hfin, hclosed, hview⟩

/-- Of two entries that were sealed, what a destination took that had room
for five bytes is a beginning, and without its last byte the container is
not taken for a whole one. -/
theorem twoEntries_truncation_detected :
    ∃ run : SealedRun Unit, run.entries = twoEntries ∧
      { run.unsealed with dest := .limited 5 }.finish.2.dest.accepted <+: run.container ∧
      run.container.dropLast ≠ run.container ∧
      ((∃ f, Opening.create (.plain [1]) true (.ofBytes run.container.dropLast)
          = .error (.parse f)) ∨
        ∃ s f s' files,
          Opening.create (.plain [1]) true (.ofBytes run.container.dropLast) = .ok s ∧
          s.decryptAll run.fmk .memory [] = (.error (.integrity f), s', files) ∧
          s'.isFullyDecrypted = false ∧ files <+: twoEntries) := by
  obtain ⟨run, asked, hsmith, hentries, -⟩ :=
    SealedRun.exists_twoEntries (show (some [1]).getD [1] = [1] from rfl)
  have hsuite : run.suite = .plain := congrArg Locksmith.suite hsmith
  obtain ⟨hfails, hcut⟩ := truncation_detected (τ := Unit) (γ := List (FileInfo × Bytes)) run
    (hsuite ▸ Suite.plain_opensSealed) (hsuite ▸ Suite.plain_inflatesDeflated)
    (hsuite ▸ Suite.plain_fitsFrames.countsSealed)
    (show (Locksmith.plain [1]).suite = run.suite from hsuite.symm)
  obtain ⟨q, hq, hdest⟩ := hfails (.limited 5)
  have hless : run.container.dropLast ≠ run.container := by
    intro heq
    have hlen := congrArg List.length heq
    rw [List.length_dropLast] at hlen
    obtain ⟨-, -, hcontainer, -⟩ := run.container_eq
    have hpos : 0 < run.container.length := by
      rw [hcontainer, Header.sealed]
      simp only [List.length_append, Header.length_preamble, ParsedHeader.preambleLength]
      omega
    omega
  refine ⟨run, hentries, ?_, hless, ?_⟩
  · rw [hdest]
    exact hq
  · obtain hparse | ⟨s, hcreate, hdecrypt⟩ := hcut true (.ofBytes run.container.dropLast)
      (Source.steady_ofBytes _) (by simpa using List.dropLast_prefix _) (by simpa using hless)
    · exact .inl hparse
    · obtain ⟨f, s', files, closed, hall, hfull, hclosed, hview⟩ :=
        hdecrypt .memory id Consumer.memory_accepts []
      have hfiles : files = closed := hview
      rw [hentries, ← hfiles] at hclosed
      exact .inr ⟨s, f, s', files, hcreate, hall, hfull, hclosed⟩

end Lockbox
