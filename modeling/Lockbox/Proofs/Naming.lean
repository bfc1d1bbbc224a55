import Lockbox.Command.Run
import Lockbox.Proofs.FileRoundTrip
import Lockbox.Proofs.Labels
import Mathlib.Data.List.Nodup
/-!
# Lockbox — locks found by name

A recipient on the command line is given a name, and the decrypt command
looks for that name among the labels of a container, in one session, and
opens the lock at the place it found in another. Every label that is made
for a name holds it and has a colon, and no name has one; so a name is
found in its own label and in no other (`Command.names_iff`). The locks are
in the order of the recipients, so the place is the recipient's
(`locks_found_by_name`).
-/

namespace Lockbox

/-- An answer that got past an obstacle is the one that there was. -/
theorem Files.orObstacle_ok {α : Type} {o : Obstacle} {r : Except IoError α} {a : α}
    (h : orObstacle o r = .ok a) : r = .ok a := by
  cases r with
  | ok b =>
    cases h
    rfl
  | error e => cases h

/-! ## Digits and blanks -/

/-- A digit is no blank. -/
theorem Hex.not_isBlank {c : Char} {n : Nat} (h : value? c = some n) : Text.isBlank c = false := by
  have hrange : 48 ≤ c.toNat ∧ c.toNat ≤ 102 := by
    simp only [value?] at h
    split at h
    · omega
    split at h
    · omega
    split at h
    · omega
    · cases h
  simp [Text.isBlank]
  omega

/-- What can be read as digits holds no blank. -/
theorem Hex.not_isBlank_of_decodeFrom {done b : Bytes} {cs : List Char}
    (h : decodeFrom done cs = some b) : ∀ c ∈ cs, Text.isBlank c = false := by
  fun_induction decodeFrom done cs with
  | case1 => simp
  | case2 => cases h
  | case3 done high low rest byte hbyte ih =>
    simp only [byte?, Option.bind_eq_bind, Option.bind_eq_some_iff] at hbyte
    obtain ⟨x, hhigh, y, hlow, -⟩ := hbyte
    simpa [not_isBlank hhigh, not_isBlank hlow] using ih h
  | case4 => cases h

namespace Command

/-! ## Parts of an argument

The first two colons divide an argument. A value may have more of them, as a
path may. -/

/-- **An argument has a name, a type and a value** if there are colons after
two parts that have none; the value may have some. -/
theorem recipientParts?_eq_some_iff {arg name type value : String} :
    recipientParts? arg = some (name, type, value) ↔
      ':' ∉ name.toList ∧ ':' ∉ type.toList ∧ arg = name ++ ":" ++ type ++ ":" ++ value := by
  have harg : arg = name ++ ":" ++ type ++ ":" ++ value ↔
      arg.toList = name.toList ++ ':' :: (type.toList ++ ':' :: value.toList) := by
    rw [← String.toList_inj]
    simp [String.toList_append]
  rw [harg]
  constructor
  · intro h
    simp only [recipientParts?, Option.bind_eq_bind, Option.bind_eq_some_iff, Prod.exists,
      Option.pure_def, Option.some.injEq, Prod.mk.injEq] at h
    obtain ⟨before, rest, hfirst, middle, last, hsecond, rfl, rfl, rfl⟩ := h
    obtain ⟨hbefore, hcs⟩ := Text.cut?_eq_some_iff.mp hfirst
    obtain ⟨hmiddle, rfl⟩ := Text.cut?_eq_some_iff.mp hsecond
    simpa using ⟨hbefore, hmiddle, hcs⟩
  · rintro ⟨hname, htype, hcs⟩
    simp [recipientParts?, Text.cut?_eq_some_iff.mpr ⟨hname, hcs⟩,
      Text.cut?_eq_some_iff.mpr ⟨htype, rfl⟩]

/-! ## Labels of names -/

/-- **A label that was made for a name is found by that name,** and by no
other text without a colon. -/
theorem names_iff {name kind label wanted : String} (h : lockLabel name kind = .ok label)
    (hwanted : ':' ∉ wanted.toList) :
    (label = wanted ∨ Label.value? label "label" = some wanted) ↔ name = wanted := by
  have hbuild := Except.ok_of_mapError h
  have hvalue : Label.value? label "label" = some name := by
    rw [Label.value?_of_build hbuild]
    exact Label.lookup_of_mem (by simp) (by simp)
  obtain ⟨-, rfl⟩ := Label.build_eq_ok_iff.mp hbuild
  have hcolon : ':' ∈ (Label.render [("v", "1"), ("type", kind), ("label", name)]).toList := by
    simp [Label.render, Label.start]
  rw [hvalue]
  constructor
  · rintro (rfl | hname)
    · exact absurd hcolon hwanted
    · exact Option.some.inj hname
  · rintro rfl
    exact .inr rfl

/-- **A lock is found by its name** if the ones before it have other names. -/
theorem findLock?_eq_some {locks : List Lock} {name kind : String} {i : Nat}
    (hi : i < locks.length) (hname : ':' ∉ name.toList)
    (hlabel : lockLabel name kind = .ok locks[i].label)
    (hbefore : ∀ j (hj : j < i), ∃ other kind, other ≠ name ∧
      lockLabel other kind = .ok locks[j].label) :
    findLock? (locks.map fun lock => (lock.info, lock.description)) name
      = some locks[i].info := by
  rw [findLock?, List.map_map, List.find?_eq_some_iff_getElem]
  refine ⟨decide_eq_true ((names_iff hlabel hname).mpr rfl), i, by simpa using hi, by simp,
    fun j hj => ?_⟩
  obtain ⟨other, kind, hother, hlabel⟩ := hbefore j hj
  have hnot := mt (names_iff hlabel hname).mp hother
  simpa [Lock.info] using hnot

/-! ## Recipients that were read

What an argument describes is told by its type, one constructor for each,
with what has to be read from the tree for it. -/

/-- What a recipient is that has this label and was described by a type and
a value. -/
inductive Describes (t : FileTree) (label : String) : (type value : String) → Recipient → Prop
  | password (value : String) :
      Describes t label "pw" value (.password label (some (Bytes.ofText value)) none)
  | symmetricKey {value : String} {key : Bytes} :
      Hex.decode? value = some key →
      Describes t label "skey" value (.symmetricKey label (some key))
  | publicKey {value : String} {key : Octets 32} :
      readKey value = .ok key → Describes t label "pkey" value (.publicKey label key)
  | certificate {value : String} {path digits : List Char} {certificate : Bytes}
      {key : Octets 32} :
      Text.cutLast? ':' value.toList = some (path, digits) →
      t.read (String.ofList path) = .ok certificate → readKey (String.ofList digits) = .ok key →
      Describes t label "cert" value (.certificate label certificate key)

variable {t : FileTree} {arg : String} {r : Recipient}

theorem Describes.label_eq {label type value : String} (h : Describes t label type value r) :
    r.label = label := by
  cases h <;> rfl

/-- **What was read of an argument:** a recipient as its type and value
describe it, with a label that was made for its name. -/
theorem readRecipient_ok (h : readRecipient t arg = .ok r) :
    ∃ name type value kind, recipientParts? arg = some (name, type, value) ∧
      lockLabel name kind = .ok r.label ∧ Describes t r.label type value r := by
  unfold readRecipient at h
  split at h
  · cases h
  · rename_i name type value hparts
    suffices hread : ∃ kind label, lockLabel name kind = .ok label ∧
        Describes t label type value r by
      obtain ⟨kind, label, hlabel, hdescribes⟩ := hread
      rw [← hdescribes.label_eq] at hlabel hdescribes
      exact ⟨name, type, value, kind, hparts, hlabel, hdescribes⟩
    split at h
    · cases h
    split at h
    · rename_i htype
      obtain ⟨label, hlabel, hread⟩ := Except.bind_ok h
      cases hread
      exact ⟨_, label, hlabel, htype ▸ .password value⟩
    split at h
    · rename_i htype
      obtain ⟨label, hlabel, hread⟩ := Except.bind_ok h
      split at hread
      · rename_i key hkey
        cases hread
        exact ⟨_, label, hlabel, htype ▸ .symmetricKey hkey⟩
      · cases hread
    split at h
    · rename_i htype
      obtain ⟨label, hlabel, hread⟩ := Except.bind_ok h
      obtain ⟨key, hkey, hdone⟩ := Except.bind_ok hread
      cases hdone
      exact ⟨_, label, hlabel, htype ▸ .publicKey hkey⟩
    split at h
    · rename_i htype
      unfold readCertificateRecipient at h
      split at h
      · cases h
      · rename_i path digits hcut
        obtain ⟨certificate, hfile, hread⟩ := Except.bind_ok h
        obtain ⟨label, hlabel, hread⟩ := Except.bind_ok hread
        obtain ⟨key, hkey, hdone⟩ := Except.bind_ok hread
        cases hdone
        exact ⟨_, label, hlabel, htype ▸ .certificate hcut (Files.orObstacle_ok hfile) hkey⟩
    · cases h

/-- Arguments that could all be read, each with its recipient. -/
theorem readRecipients_ok {args : List String} {recipients : List Recipient}
    (h : args.mapM (readRecipient t) = .ok recipients) :
    List.Forall₂ (fun arg r => readRecipient t arg = .ok r) args recipients := by
  induction args generalizing recipients with
  | nil =>
    cases h
    exact .nil
  | cons arg args ih =>
    rw [List.mapM_cons] at h
    obtain ⟨r, hr, hrest⟩ := Except.bind_ok h
    obtain ⟨rest, hmap, hdone⟩ := Except.bind_ok hrest
    cases hdone
    exact .cons hr (ih hmap)

/-! ## Containers that were written -/

/-- **What the encrypt command wrote was sealed by a run** for the recipients
that were read, in their order. -/
theorem encryptFiles_sealed {S : Suite} {config : Config} {out text : String}
    {args files : List String} {compress : Bool} {site site' : Site Unit}
    (h : encryptFiles S config out args compress files site = (.ok text, site')) :
    ∃ (run : SealedRun Unit) (recipients : List Recipient), run.suite = S ∧
      site'.tree.read out = .ok run.container ∧
      args.mapM (readRecipient site.tree) = .ok recipients ∧
      run.recipients.map Enrolled.recipient = recipients := by
  unfold encryptFiles at h
  obtain ⟨s₀, s₁, hget, hwork⟩ := Step.bind_ok h
  cases hget
  obtain ⟨recipients, s₁, hanswer, hrest⟩ := Step.bind_ok hwork
  obtain ⟨hread, rfl⟩ := Step.answer_ok hanswer
  obtain ⟨size, s₂, hencrypt, hdone⟩ := Step.bind_ok hrest
  obtain ⟨-, rfl⟩ := Prod.mk.inj hdone
  obtain ⟨entries, sources, bytes, -, -, hcontainer, hreplace, -⟩ := Files.encrypt_ok hencrypt
  obtain ⟨run, hsmith, hrecipients, -, rfl⟩ := Sealing.container_sealed hcontainer
  exact ⟨run, recipients, congrArg Locksmith.suite hsmith, FileTree.read_of_replace hreplace, hread,
    hrecipients⟩

end Command

/-- **The locks of a sealed container are listed** as they are in its head. -/
theorem Files.locks_sealed {σ : Type} (run : SealedRun σ) (config : Config) {t : FileTree}
    {path : String} (h : t.read path = .ok run.container) :
    Files.locks run.suite config t path
      = .ok (run.draft.locks.map fun lock => (lock.info, lock.description)) := by
  have hsource : t.source path = .ok (.ofBytes run.container) := by
    rw [FileTree.source, FileTree.read_eq_ok_iff.mp h]
    rfl
  obtain ⟨-, -, hcontainer, -⟩ := run.container_eq
  obtain ⟨s, payload, hcreate, -, hfaces, -⟩ := SealedRun.create_of_head true
    (show (⟨run.suite, config, .none⟩ : Locksmith Unit).suite = run.suite from rfl)
    (Source.steady_ofBytes run.container) ((Source.contents_ofBytes _).trans hcontainer)
  simp only [Files.locks, openContainer, hsource, orObstacle, bind, Except.bind, hcreate,
    Except.mapError, hfaces.header]
  rfl

/-! ## What is given to open a lock

The decrypt command is given one secret and perhaps a certificate. They go
with a recipient if a provider made of them answers for that recipient. -/

namespace Command

/-- What offers the certificate that was given, if one was. -/
def offered (t : FileTree) (cert : Option String) : Except TaskError (Option (Remote Unit)) :=
  cert.mapM fun path => do
    return localRemote (← Files.orObstacle (.offeredCertificate path) (t.read path))

/-- The locksmith that the decrypt command opens a lock of this label with. -/
def opener (S : Suite) (config : Config) (t : FileTree) (label : String)
    (password secret cert : Option String) : Except TaskError (Locksmith Unit) := do
  let secret ← readSecret password secret
  return ⟨S, config, (LabelSecrets.empty.insert label secret).toProviders (← offered t cert)⟩

/-- **Once a lock was found, the decrypt command is to decrypt the container
with the lock at the place of the one that was found.** -/
theorem decryptFile_eq {S : Suite} {config : Config} {path name dir : String}
    {password secret cert : Option String} {t : FileTree} {w : World Unit}
    {locks : List (LockInfo × String)} {info : LockInfo} {smith : Locksmith Unit}
    (hlocks : Files.locks S config t path = .ok locks) (hfound : findLock? locks name = some info)
    (hopener : opener S config t info.label password secret cert = .ok smith) :
    decryptFile S config path name password secret cert dir ⟨t, w⟩
      = (Files.decrypt smith path info.index dir >>= fun written => pure (pathLines written))
          ⟨t, w⟩ := by
  obtain ⟨bytes, hsecret, hrest⟩ := Except.bind_ok hopener
  obtain ⟨remote, hremote, hdone⟩ := Except.bind_ok hrest
  cases hdone
  unfold decryptFile
  rw [Step.bind_get, hlocks, Step.bind_answer, hfound]
  dsimp only
  rw [hsecret, Step.bind_answer]
  rw [offered] at hremote
  rw [hremote, Step.bind_answer]

/-- The certificate that is offered, if there is one, can be read. -/
def Readable (t : FileTree) (cert : Option String) : Prop :=
  ∀ path ∈ cert, ∃ certificate, t.read path = .ok certificate

/-- **What the decrypt command is given goes with a recipient** that was
described by this type and value: the password itself, digits of the same
symmetric key, digits of the private key of the public key, and for a
certificate besides that a file with the same in it. -/
def GoesWith (S : Suite) (before now : FileTree) (type value : String)
    (password secret cert : Option String) : Prop :=
  match type with
  | "pw" => password = some value ∧ Readable now cert
  | "skey" => password = none ∧ Readable now cert ∧ ∃ digits, secret = some digits ∧
      Hex.decode? (trimmed digits) = Hex.decode? value
  | "pkey" => password = none ∧ Readable now cert ∧ ∃ digits key, secret = some digits ∧
      readKey digits = .ok key ∧ readKey value = .ok (S.publicKey key)
  | "cert" => password = none ∧ ∃ digits key path file published, secret = some digits ∧
      cert = some path ∧ Text.cutLast? ':' value.toList = some (file, published) ∧
      readKey digits = .ok key ∧ readKey (String.ofList published) = .ok (S.publicKey key) ∧
      now.read path = before.read (String.ofList file)
  | _ => False

theorem offered_some {path : String} {certificate : Bytes} (h : t.read path = .ok certificate) :
    offered t (some path) = .ok (some (localRemote certificate)) := by
  show (do return localRemote (← Files.orObstacle _ (t.read path)) : Except TaskError _).map some = _
  rw [h]
  rfl

theorem Readable.offered_ok {cert : Option String} (h : Readable t cert) :
    ∃ remote, offered t cert = .ok remote := by
  cases cert with
  | none => exact ⟨none, rfl⟩
  | some path =>
    obtain ⟨certificate, hread⟩ := h path rfl
    exact ⟨_, offered_some hread⟩

/-- There are no blanks around what can be read as digits. -/
theorem trimmed_of_decode? {digits : String} {b : Bytes} (h : Hex.decode? digits = some b) :
    trimmed digits = digits := by
  have hdigit : ∀ c ∈ digits.toList, Text.isBlank c = false := fun c hc =>
    Hex.not_isBlank_of_decodeFrom h c hc
  have hkept : ∀ cs : List Char, (∀ c ∈ cs, Text.isBlank c = false) →
      cs.dropWhile Text.isBlank = cs := by
    intro cs hcs
    cases cs with
    | nil => rfl
    | cons c cs => rw [List.dropWhile_cons_of_neg (by simp [hcs c List.mem_cons_self])]
  rw [trimmed, Text.trim, hkept _ hdigit, hkept _ (by simpa using hdigit), List.reverse_reverse,
    String.ofList_toList]

/-- A key in digits is the secret that they give. -/
theorem readSecret_of_readKey {digits : String} {key : Octets 32} (h : readKey digits = .ok key) :
    readSecret none (some digits) = .ok key.val := by
  unfold readKey at h
  split at h
  · cases h
  · rename_i bytes hdecode
    split at h
    · rename_i octets hoctets
      cases h
      rw [readSecret, hdecode, Octets.ofBytes?_eq_some_iff.mp hoctets]
    · cases h

/-- A provider of one secret answers for its label. -/
theorem secret_toProviders {remote : Option (Remote Unit)} (label : String) (secret : Bytes)
    (index : Nat) (type : LockType) (o : Unit) :
    (((LabelSecrets.empty.insert label secret).toProviders remote).secret
      ⟨index, type, label⟩ o).1 = .ok secret :=
  LabelSecrets.find_insert .empty label secret

/-- The secret that was read and the certificate that is offered make the locksmith. -/
theorem opener_of_secret {S : Suite} {config : Config} {label : String} {bytes : Bytes}
    {password secret cert : Option String} {remote : Option (Remote Unit)}
    (hsecret : readSecret password secret = .ok bytes) (hremote : offered t cert = .ok remote) :
    opener S config t label password secret cert
      = .ok ⟨S, config, (LabelSecrets.empty.insert label bytes).toProviders remote⟩ := by
  rw [opener, hsecret, hremote]
  rfl

/-- **What goes with a recipient answers for the recipient.** -/
theorem GoesWith.serves {S : Suite} {before now : FileTree} (config : Config)
    {label type value : String} {password secret cert : Option String} {r : Recipient}
    (hgiven : GoesWith S before now type value password secret cert)
    (hdescribes : Describes before label type value r) :
    ∃ smith, opener S config now label password secret cert = .ok smith ∧ smith.suite = S ∧
      ∀ o i asked, smith.providers.Serve S o ⟨i, r.type, label⟩ asked r := by
  cases hdescribes with
  | password value =>
    obtain ⟨rfl, hcert⟩ := hgiven
    obtain ⟨remote, hremote⟩ := hcert.offered_ok
    exact ⟨_, opener_of_secret rfl hremote, rfl, fun o i asked =>
      ⟨_, secret_toProviders .., .inl rfl⟩⟩
  | @symmetricKey value secret hkey =>
    obtain ⟨rfl, hcert, digits, rfl, hdigits⟩ := hgiven
    obtain ⟨remote, hremote⟩ := hcert.offered_ok
    have hsecret : readSecret none (some digits) = .ok secret := by
      rw [readSecret, hdigits, hkey]
    exact ⟨_, opener_of_secret hsecret hremote, rfl, fun o i asked =>
      ⟨_, secret_toProviders .., .inl rfl⟩⟩
  | publicKey hkey =>
    obtain ⟨rfl, hcert, digits, key, rfl, hdigits, hpublic⟩ := hgiven
    obtain ⟨remote, hremote⟩ := hcert.offered_ok
    obtain rfl := Except.ok.inj (hpublic.symm.trans hkey)
    exact ⟨_, opener_of_secret (readSecret_of_readKey hdigits) hremote, rfl, fun o i asked =>
      ⟨key, secret_toProviders .., rfl⟩⟩
  | certificate hcut hfile hkey =>
    obtain ⟨rfl, digits, key, path, file, published, rfl, rfl, hcut', hdigits, hpublic, hsame⟩ :=
      hgiven
    obtain ⟨rfl, rfl⟩ := Prod.mk.inj (Option.some.inj (hcut'.symm.trans hcut))
    obtain rfl := Except.ok.inj (hpublic.symm.trans hkey)
    have hremote := offered_some (hsame.trans hfile)
    exact ⟨_, opener_of_secret (readSecret_of_readKey hdigits) hremote, rfl, fun o i asked =>
      ⟨_, _, o, rfl, rfl, List.mem_singleton_self _, key, secret_toProviders .., rfl⟩⟩

/-- The name in an argument. -/
def recipientName? (arg : String) : Option String := (recipientParts? arg).map Prod.fst

/-- An argument, the recipient that was read of it and the lock that was made
for the recipient, all at the same place. -/
structure Enrols (t : FileTree) (run : SealedRun Unit) (i : Nat) (arg name type value : String)
    (r : Recipient) (lock : Lock) : Prop where
  parts : recipientParts? arg = some (name, type, value)
  read : readRecipient t arg = .ok r
  described : Describes t r.label type value r
  labelled : ∃ kind, lockLabel name kind = .ok lock.label
  enrolled : ∃ hi : i < run.recipients.length, run.recipients[i].recipient = r
  stands : ∃ hi : i < run.draft.locks.length, run.draft.locks[i] = lock
  found : run.parsed.lock? i = some lock
  info : lock.info = ⟨i, r.type, r.label⟩

/-- **Every argument enrols a recipient,** if a container was sealed for the
recipients that were read. -/
theorem enrols {run : SealedRun Unit} {args : List String} {recipients : List Recipient}
    (hread : args.mapM (readRecipient t) = .ok recipients)
    (hrecipients : run.recipients.map Enrolled.recipient = recipients) {i : Nat}
    (hi : i < args.length) :
    ∃ name type value r lock, Enrols t run i args[i] name type value r lock := by
  have hargs := readRecipients_ok hread
  have hi' : i < recipients.length := hargs.length_eq ▸ hi
  obtain ⟨hrun, hr⟩ := SealedRun.recipient_getElem hrecipients hi'
  obtain ⟨hlock, hfound, hinfo, -⟩ := run.lock_getElem hrun
  have harg : readRecipient t args[i] = .ok recipients[i] := hargs.get hi hi'
  obtain ⟨name, type, value, kind, hparts, hlabel, hdescribes⟩ := readRecipient_ok harg
  rw [hr] at hinfo
  have hsame : run.draft.locks[i].label = recipients[i].label := congrArg LockInfo.label hinfo
  exact ⟨name, type, value, recipients[i], run.draft.locks[i], hparts, harg, hdescribes,
    ⟨kind, hsame ▸ hlabel⟩, ⟨hrun, hr⟩, ⟨hlock, rfl⟩, hfound, hinfo⟩

/-- **By the name in an argument the lock is found that was made for it,** if
the names differ. -/
theorem Enrols.findLock? {run : SealedRun Unit} {args : List String} {recipients : List Recipient}
    (hread : args.mapM (readRecipient t) = .ok recipients)
    (hrecipients : run.recipients.map Enrolled.recipient = recipients)
    (hnames : (args.map recipientName?).Nodup) {i : Nat} (hi : i < args.length)
    {name type value : String} {r : Recipient} {lock : Lock}
    (h : Enrols t run i args[i] name type value r lock) :
    findLock? (run.draft.locks.map fun lock => (lock.info, lock.description)) name
      = some lock.info := by
  obtain ⟨hname, -, -⟩ := recipientParts?_eq_some_iff.mp h.parts
  obtain ⟨kind, hlabel⟩ := h.labelled
  obtain ⟨hlock, rfl⟩ := h.stands
  refine findLock?_eq_some hlock hname hlabel fun j hj => ?_
  have hj' : j < args.length := Nat.lt_trans hj hi
  obtain ⟨other, type', value', r', lock', h'⟩ := enrols hread hrecipients hj'
  obtain ⟨kind', hlabel'⟩ := h'.labelled
  obtain ⟨hlock', rfl⟩ := h'.stands
  refine ⟨other, kind', ?_, hlabel'⟩
  -- two recipients with one name would be at the same place
  rintro rfl
  refine List.nodup_iff_getElem?_ne_getElem?.mp hnames j i hj (by simpa using hi) ?_
  simp [recipientName?, hi, hj', h.parts, h'.parts]

end Command

/-- **A lock is opened by the name of its recipient.** If the encrypt command
writes a container for recipients whose names differ, then wherever its bytes
are, its locks can be listed, and by the name of a recipient the lock at the
place of that recipient is found, which is the same lock to every reader of
the container. With what goes with the recipient, the decrypt command then
decrypts with the lock at this place, and gets the master key of the
container. -/
theorem locks_found_by_name {S : Suite} (hs : S.OpensSealed) (hd : S.AgreesBothWays)
    {config : Config} {out text : String} {args files : List String} {compress : Bool}
    {site site' : Site Unit} (hnames : (args.map Command.recipientName?).Nodup)
    (h : Command.encryptFiles S config out args compress files site = (.ok text, site')) :
    ∃ (container : Bytes) (fmk : Fmk), site'.tree.read out = .ok container ∧
      ∀ (config' : Config) (t : FileTree) (path : String), t.read path = .ok container →
        ∃ locks, Files.locks S config' t path = .ok locks ∧
          ∀ (i : Nat) (hi : i < args.length), ∃ name type value r lock,
            Command.recipientParts? args[i] = some (name, type, value) ∧
            Command.readRecipient site.tree args[i] = .ok r ∧
            Command.findLock? locks name = some lock.info ∧ lock.info = ⟨i, r.type, r.label⟩ ∧
            (∀ (reader : Locksmith Unit) (lenient : Bool) (source : Source), reader.suite = S →
              source.Steady → source.contents = container →
              ∃ session, Opening.create reader lenient source = .ok session ∧
                session.header.lock? i = some lock) ∧
            ∀ password secret cert,
              Command.GoesWith S site.tree t type value password secret cert →
              ∃ smith, Command.opener S config' t lock.label password secret cert = .ok smith ∧
                (∀ dir w, Command.decryptFile S config' path name password secret cert dir ⟨t, w⟩
                  = (Files.decrypt smith path i dir >>= fun written =>
                      pure (Command.pathLines written)) ⟨t, w⟩) ∧
                ∀ source w, source.Steady → source.contents = container →
                  ∃ session session' w', Opening.create smith false source = .ok session ∧
                    session.getFmk i w = (.ok fmk, session', w') := by
  obtain ⟨run, recipients, rfl, hout, hread, hrecipients⟩ := Command.encryptFiles_sealed h
  obtain ⟨-, -, hcontainer, -⟩ := run.container_eq
  refine ⟨run.container, run.fmk, hout, fun config' t path hpath => ?_⟩
  have hlocks := Files.locks_sealed run config' hpath
  refine ⟨_, hlocks, fun i hi => ?_⟩
  obtain ⟨name, type, value, r, lock, henrols⟩ := Command.enrols hread hrecipients hi
  have hfound := henrols.findLock? hread hrecipients hnames hi
  have hlabel : lock.label = r.label := congrArg LockInfo.label henrols.info
  refine ⟨name, type, value, r, lock, henrols.parts, henrols.read, hfound, henrols.info,
    fun reader lenient source hsuite hsteady hcontents => ?_,
    fun password secret cert hgiven => ?_⟩
  · obtain ⟨session, payload, hcreate, -, hfaces, -⟩ :=
      SealedRun.create_of_head lenient hsuite hsteady (hcontents.trans hcontainer)
    exact ⟨session, hcreate, by rw [hfaces.header]; exact henrols.found⟩
  · obtain ⟨smith, hopener, hsuite, hserves⟩ :=
      hgiven.serves config' henrols.described
    rw [← hlabel] at hopener
    refine ⟨smith, hopener, fun dir w => ?_, fun source w hsteady hcontents => ?_⟩
    · rw [Command.decryptFile_eq hlocks hfound hopener, henrols.info]
    · obtain ⟨session, payload, hcreate, rfl, hfaces, -⟩ :=
        SealedRun.create_of_head false hsuite hsteady (hcontents.trans hcontainer)
      obtain ⟨hrun, rfl⟩ := henrols.enrolled
      obtain ⟨session', w', hget, -⟩ := hfaces.getFmk_eq hs hd hrun (hserves w.outside i _)
      exact ⟨session, session', w', hcreate, hget⟩

/-- The digits of a symmetric key go with its recipient as they were given. -/
theorem Command.goesWith_digits {S : Suite} {before now : FileTree} {value : String} {key : Bytes}
    (h : Hex.decode? value = some key) :
    GoesWith S before now "skey" value none (some value) none :=
  ⟨rfl, by simp [Readable], value, rfl, by rw [trimmed_of_decode? h]⟩

/-- Of two recipients, the second has a name that looks like the parts of a
label, that of the first among them. Each is found at its place by its own
name, and the key of the second opens the second lock. -/
theorem delimiters_lock_found_by_name :
    ∃ (text : String) (site' : Site Unit) (container : Bytes) (fmk : Fmk)
      (locks : List (LockInfo × String)) (first second : Lock) (smith : Locksmith Unit)
      (session session' : Opening Unit) (w' : World Unit),
      Command.encryptFiles .plain .default "box" ["b:skey:0b", "a&label=b% c:skey:0a"] false ["one"]
        ⟨twoFiles, ⟨.splitMix 1, ()⟩⟩ = (.ok text, site') ∧
      site'.tree.read "box" = .ok container ∧
      Files.locks .plain .default site'.tree "box" = .ok locks ∧
      Command.findLock? locks "b" = some first.info ∧ first.info.index = 0 ∧
      Command.findLock? locks "a&label=b% c" = some second.info ∧ second.info.index = 1 ∧
      Command.opener .plain .default site'.tree second.label none (some "0a") none = .ok smith ∧
      Opening.create smith false (.ofBytes container) = .ok session ∧
      session.getFmk 1 ⟨.splitMix 2, ()⟩ = (.ok fmk, session', w') := by
  let plain : Locksmith Unit := ⟨.plain, .default, .none⟩
  let recipients : List Recipient := [.symmetricKey "data:v=1&type=secret&label=b" (some [11]),
    .symmetricKey "data:v=1&type=secret&label=a%26label%3Db%25%20c" (some [10])]
  have hmap : ["b:skey:0b", "a&label=b% c:skey:0a"].mapM (Command.readRecipient twoFiles)
      = .ok recipients := by
    have hfirst : Command.readRecipient twoFiles "b:skey:0b"
        = .ok (.symmetricKey "data:v=1&type=secret&label=b" (some [11])) := by
      rfl
    have hsecond : Command.readRecipient twoFiles "a&label=b% c:skey:0a"
        = .ok (.symmetricKey "data:v=1&type=secret&label=a%26label%3Db%25%20c" (some [10])) := by
      rfl
    rw [List.mapM_cons, List.mapM_cons, hfirst, hsecond]
    rfl
  have hkeys : ∀ r ∈ recipients, plain.KeyAtHand r := by
    intro r hr
    rcases List.mem_cons.mp hr with rfl | hr
    · exact plain.keyAtHand_of_brought (by decide) (by simp)
    · obtain rfl := List.mem_singleton.mp hr
      exact plain.keyAtHand_of_brought (by decide) (by simp)
  have hinputs : ∀ f ∈ [InputFile.mk "one" "one" [7]], f.Stands twoFiles := by
    simpa using ⟨rfl, by decide, by decide⟩
  obtain ⟨bytes, w', hencrypt⟩ : ∃ bytes w', Files.encrypt plain "box" recipients
      ([InputFile.mk "one" "one" [7]].map InputFile.path) ⟨twoFiles, ⟨.splitMix 1, ()⟩⟩
      = (.ok bytes.length, ⟨twoFiles.put ["box"] (.file bytes), w'⟩) :=
    Files.encrypt_succeeds Suite.plain_fitsFrames.tag (by simp [recipients]) (by decide) hkeys
      hinputs (by simp) (by decide) rfl fun _ => rfl
  have hencrypted : Command.encryptFiles .plain .default "box"
      ["b:skey:0b", "a&label=b% c:skey:0a"] false ["one"] ⟨twoFiles, ⟨.splitMix 1, ()⟩⟩
      = (.ok (Command.pathLines ["one"]), ⟨twoFiles.put ["box"] (.file bytes), w'⟩) := by
    unfold Command.encryptFiles
    rw [Step.bind_get, hmap, Step.bind_answer]
    exact Step.bind_of_ok hencrypt _
  obtain ⟨container, fmk, hout, hfinds⟩ := locks_found_by_name Suite.plain_opensSealed
    Suite.plain_agreesBothWays (by decide) hencrypted
  obtain ⟨locks, hlocks, hfinds⟩ := hfinds .default _ "box" hout
  obtain ⟨name, type, value, r, first, hparts, -, hfirst, hfirstInfo, -⟩ := hfinds 0 (by simp)
  have hthese : Command.recipientParts? "b:skey:0b" = some ("b", "skey", "0b") := rfl
  cases hthese.symm.trans hparts
  obtain ⟨name, type, value, r, second, hparts, -, hsecond, hsecondInfo, -, hopens⟩ :=
    hfinds 1 (by simp)
  have hthose : Command.recipientParts? "a&label=b% c:skey:0a"
      = some ("a&label=b% c", "skey", "0a") := rfl
  cases hthose.symm.trans hparts
  obtain ⟨smith, hopener, -, hgets⟩ := hopens none (some "0a") none
    (Command.goesWith_digits (show Hex.decode? "0a" = some [10] from rfl))
  obtain ⟨session, session', w'', hcreate, hget⟩ :=
    hgets (.ofBytes container) ⟨.splitMix 2, ()⟩ (Source.steady_ofBytes _) (Source.contents_ofBytes _)
  exact ⟨_, _, container, fmk, locks, first, second, smith, session, session', w'', hencrypted, hout,
    hlocks, hfirst, by rw [hfirstInfo], hsecond, by rw [hsecondInfo], hopener, hcreate, hget⟩

end Lockbox
