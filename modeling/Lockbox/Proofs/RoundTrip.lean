import Lockbox.Proofs.AllAtOnce
import Lockbox.Proofs.Opened
/-!
# Lockbox — what is sealed can be opened

The two ends of the library fit. Whoever can answer for a recipient gets
the master key out of that recipient's lock, at whatever place of the
table it stands, and with the master key every entry comes out as it was
put in. Nothing is said here of those who cannot answer.
-/

namespace Lockbox

open Payload

/-- **A sealed container is opened as it was sealed**, by any recipient: the
locks are listed in the order in which they were added, the lock of a
recipient gives the master key to whoever can answer for that recipient,
and with it all entries are decrypted, and nothing is left. -/
theorem opened_as_sealed {σ τ γ : Type} (run : SealedRun σ) (hs : run.suite.OpensSealed)
    (hd : run.suite.AgreesBothWays) (hz : run.suite.InflatesDeflated) (hf : run.suite.FitsFrames)
    {reader : Locksmith τ} (hsuite : reader.suite = run.suite) {source : Source}
    (hsteady : source.Steady) (hcontents : source.contents = run.container) :
    ∃ s : Opening τ, Opening.create reader false source = .ok s ∧
      s.locks = run.recipients.mapIdx (fun i e => ⟨i, e.recipient.type, e.recipient.label⟩) ∧
      ∀ (i : Nat) (hi : i < run.recipients.length) (w : World τ),
        reader.providers.Serve run.suite w.outside
          ⟨i, run.recipients[i].recipient.type, run.recipients[i].recipient.label⟩
          run.recipients[i].asked run.recipients[i].recipient →
        ∃ s' w', s.getFmk i w = (.ok run.fmk, s', w') ∧
          ∀ (k : Consumer γ) (view : γ → List (FileInfo × Bytes)), k.Accepts view → ∀ c,
            ∃ s'' c', s'.decryptAll run.fmk k c = (.ok run.entries.length, s'', c') ∧
              view c' = view c ++ run.entries ∧ s''.isFullyDecrypted = true := by
  obtain ⟨-, -, hcontainer, hcomplete, hstorable, -⟩ := run.container_eq
  obtain ⟨s, payload, hcreate, rfl, hfaces, hsteady', hpayload⟩ :=
    SealedRun.create_of_head false hsuite hsteady (hcontents.trans hcontainer)
  refine ⟨s, hcreate, hfaces.locks_eq, fun i hi w hserve => ?_⟩
  obtain ⟨s', w', hget, -, hfaces'⟩ := hfaces.getFmk_eq hs hd hi hserve
  refine ⟨s', w', hget, fun k view hk c => ?_⟩
  -- all frames are there, so they are read to the last, and nothing can be to blame
  let p := Supply.stored hs hz hf.countsSealed run.channel run.frames []
  have hat : p.At 0 payload := ⟨hsteady', by rw [hpayload, List.append_nil, List.drop_zero]⟩
  obtain ⟨r, c', hdrain, hfin, hview, -⟩ | ⟨e, r, c', closed, -, hblame, -⟩ :=
    Supply.drain_script hk hstorable hcomplete c 0 (p.feeds_create hat false) (.inl rfl) rfl
  · rw [Nat.zero_add] at hdrain
    exact ⟨_, c', hfaces'.decryptAll_eq hdrain, hview, hfin⟩
  · exact absurd hblame (Supply.not_blames_stored hs hz hf e)

/-- Two sealed entries can be decrypted with their master key. -/
theorem SealedRun.exists_twoEntries_decrypted :
    ∃ (run : SealedRun Unit) (s : Opening Unit) (source : Source) (r : Reader),
      run.entries = twoEntries ∧
      Opening.create (.plain [1]) false (.ofBytes run.container) = .ok s ∧
      s.stage.untouched? = some source ∧
      s.begin run.fmk = (.ok (),
        { s with stage := .decrypting run.fmk (.create source run.channel false) }) ∧
      s.decryptAll run.fmk .memory []
        = (.ok 2, { s with stage := .finished r.isFinished }, twoEntries) := by
  obtain ⟨run, asked, hsmith, hentries, -⟩ :=
    SealedRun.exists_twoEntries (show (some [1]).getD [1] = [1] from rfl)
  have hsuite : run.suite = .plain := congrArg Locksmith.suite hsmith
  obtain ⟨-, -, hcontainer, hcomplete, hstorable, -⟩ := run.container_eq
  obtain ⟨s, source, hcreate, -, hfaces, hsteady, hpayload⟩ :=
    SealedRun.create_of_head false (show (Locksmith.plain [1]).suite = run.suite from hsuite.symm)
      (Source.steady_ofBytes run.container) ((Source.contents_ofBytes _).trans hcontainer)
  obtain ⟨r, files, hdrain, -, hview⟩ := Supply.drain_stored (hsuite ▸ Suite.plain_opensSealed)
    (hsuite ▸ Suite.plain_inflatesDeflated) (hsuite ▸ Suite.plain_fitsFrames)
    Consumer.memory_accepts hstorable hcomplete hsteady hpayload false []
  have hfiles : files = twoEntries := by
    rw [← hentries]
    exact hview
  rw [hentries, hfiles] at hdrain
  exact ⟨run, s, source, r, hentries, hcreate, hfaces.stage, hfaces.begin_eq,
    hfaces.decryptAll_eq hdrain⟩

/-- Two entries, one of them without data, come out as they were sealed. -/
theorem twoEntries_opened_as_sealed :
    ∃ (run : SealedRun Unit) (s s' s'' : Opening Unit) (w' : World Unit),
      run.entries = twoEntries ∧
      Opening.create (.plain [1]) false (.ofBytes run.container) = .ok s ∧
      s.locks = [⟨0, .symmetricKey, "key"⟩] ∧
      s.getFmk 0 ⟨.splitMix 2, ()⟩ = (.ok run.fmk, s', w') ∧
      s'.decryptAll run.fmk .memory [] = (.ok 2, s'', twoEntries) ∧
      s''.isFullyDecrypted = true := by
  obtain ⟨run, asked, hsmith, hentries, hrecipients⟩ :=
    SealedRun.exists_twoEntries (show (some [1]).getD [1] = [1] from rfl)
  have hsuite : run.suite = .plain := congrArg Locksmith.suite hsmith
  obtain ⟨s, hcreate, hlocks, hopens⟩ := opened_as_sealed (τ := Unit) run
    (hsuite ▸ Suite.plain_opensSealed) (hsuite ▸ Suite.plain_agreesBothWays)
    (hsuite ▸ Suite.plain_inflatesDeflated) (hsuite ▸ Suite.plain_fitsFrames)
    (show (Locksmith.plain [1]).suite = run.suite from hsuite.symm)
    (Source.steady_ofBytes run.container) (Source.contents_ofBytes _)
  have hserve : (Locksmith.plain [1]).providers.Serve run.suite ()
      ⟨0, .symmetricKey, "key"⟩ asked (.symmetricKey "key" (some [1])) :=
    ⟨[1], rfl, .inl rfl⟩
  simp only [hrecipients] at hlocks hopens
  obtain ⟨s', w', hget, hdecrypt⟩ := hopens 0 (by simp) ⟨.splitMix 2, ()⟩ hserve
  obtain ⟨s'', files, hall, hview, hfull⟩ := hdecrypt .memory id Consumer.memory_accepts []
  have hfiles : files = twoEntries := by rw [← hentries]; exact hview
  rw [hentries, hfiles] at hall
  exact ⟨run, s, s', s'', w', hentries, hcreate, hlocks, hget, hall, hfull⟩

/-- **Locks are opened as they were made,** of every kind and at every
place, by whoever can answer for the recipient. In a container that was
sealed, each lock is at the place that was given when its recipient was
added, and what is asked to open it, and was asked to make it, is asked for
that place, type and label; so where a recipient left the secret out, any
provider that answers to these three serves both sides. -/
theorem locks_opened_as_made {σ τ : Type} {S : Suite} (hs : S.OpensSealed)
    (hd : S.AgreesBothWays) :
    (∀ (m : Locksmith σ) (reader : Locksmith τ), m.suite = S → reader.suite = S →
      ∀ index r fmk w lock w', m.wrap index r fmk w = (.ok lock, w') →
        ∀ v : World τ,
          reader.providers.Serve S v.outside lock.info (m.asked index r fmk w) r →
            ∃ v', reader.unwrap lock v = (.ok fmk, v')) ∧
    ∀ (run : SealedRun σ) (reader : Locksmith τ), run.suite = S → reader.suite = S →
      ∀ (lenient : Bool) (source : Source), source.Steady → source.contents = run.container →
        ∃ s : Opening τ, Opening.create reader lenient source = .ok s ∧
          ∀ (i : Nat) (hi : i < run.recipients.length), run.recipients[i].index = i ∧
            ∃ lock, s.header.lock? i = some lock ∧
              lock.info
                = ⟨i, run.recipients[i].recipient.type, run.recipients[i].recipient.label⟩ ∧
              (∀ info answer, .secret info answer ∈ run.recipients[i].asked →
                info = lock.info) ∧
              (∀ v info answer, .secret info answer ∈ reader.consulted lock v →
                info = lock.info) ∧
              (run.recipients[i].recipient.leavesOut = true →
                ∀ f : LockInfo → Except LockError Bytes,
                  (∀ info o, (run.smith.providers.secret info o).1 = f info) →
                  (∀ info o, (reader.providers.secret info o).1 = f info) →
                    ∀ v, ∃ s' v', s.getFmk i v = (.ok run.fmk, s', v')) := by
  constructor
  · rintro m reader rfl hsuite index r fmk w lock w' hwrap v hserve
    rw [← hsuite] at hserve
    exact Locksmith.unwrap_wrap hsuite hs hd hwrap hserve
  · rintro run reader rfl hsuite lenient source hsteady hcontents
    obtain ⟨hreadable, ⟨hlength, hlocks⟩, hcontainer, -⟩ := run.container_eq
    obtain ⟨s, payload, hcreate, rfl, hfaces, -⟩ :=
      SealedRun.create_of_head lenient hsuite hsteady (hcontents.trans hcontainer)
    refine ⟨s, hcreate, fun i hi => ?_⟩
    have hi' : i < run.draft.locks.length := hlength ▸ hi
    obtain ⟨hindex, w, w', hwrap, hasked⟩ := hlocks i hi hi'
    obtain ⟨hinfo, key, -, hhides⟩ := run.smith.wrap_ok hwrap
    rw [← hasked] at hhides
    have hlock : s.header.lock? i = some run.draft.locks[i] := by
      rw [hfaces.header]
      exact hreadable.sound.find? hi'
    refine ⟨hindex, _, hlock, hinfo, fun info answer he => ?_, fun v info answer he => ?_,
      fun hout f hf hf' v => ?_⟩
    · rw [hasked] at he
      rw [hinfo]
      exact (run.smith.answered_asked he).1
    · exact (s.smith.answered_consulted he).1
    · -- the provider gives the answer that it gave, since it is asked the same
      have hserve : s.smith.providers.Serve run.suite v.outside run.draft.locks[i].info
          run.recipients[i].asked run.recipients[i].recipient := by
        refine hhides.serve hout fun answer he => ?_
        rw [hasked] at he
        obtain ⟨hsame, o, ho⟩ := run.smith.answered_asked he
        rw [hf' _ v.outside, ← ho, hf, hsame]
      rw [hinfo] at hserve
      obtain ⟨s', v', hget, -⟩ := hfaces.getFmk_eq hs hd hi hserve
      exact ⟨s', v', hget⟩

/-- A recipient who left the key out is served by the provider that was
asked for it. -/
theorem twoEntries_locks_opened :
    ∃ (run : SealedRun Unit) (asked : List Exchange) (s s' : Opening Unit) (v' : World Unit),
      run.recipients = [⟨0, .symmetricKey "key" none, asked⟩] ∧
      Opening.create (.plain [1]) true (.ofBytes run.container) = .ok s ∧
      s.getFmk 0 ⟨.splitMix 2, ()⟩ = (.ok run.fmk, s', v') := by
  obtain ⟨run, asked, hsmith, -, hrecipients⟩ :=
    SealedRun.exists_twoEntries (show Option.getD none [1] = [1] from rfl)
  have hsuite : run.suite = .plain := congrArg Locksmith.suite hsmith
  obtain ⟨-, hsealed⟩ := locks_opened_as_made (σ := Unit) (τ := Unit) Suite.plain_opensSealed
    Suite.plain_agreesBothWays
  obtain ⟨s, hcreate, hlocks⟩ := hsealed run (.plain [1]) hsuite rfl true _
    (Source.steady_ofBytes run.container) (Source.contents_ofBytes _)
  simp only [hrecipients] at hlocks
  obtain ⟨-, lock, -, -, -, -, hserves⟩ := hlocks 0 (by simp)
  obtain ⟨s', v', hget⟩ := hserves rfl (fun _ => .ok [1]) (fun _ _ => by rw [hsmith]; rfl)
    (fun _ _ => rfl) ⟨.splitMix 2, ()⟩
  exact ⟨run, asked, s, s', v', hrecipients, hcreate, hget⟩

end Lockbox
