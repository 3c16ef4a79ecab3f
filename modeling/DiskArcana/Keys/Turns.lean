import DiskArcana.Keys.Model

/-!
# What a command leaves

`Entry` is what a device has in its key store: nothing, a record that was broken off while it was written,
or a salt with a key. `Writes` says which record a command writes, from the entry that it finds, and `Left`
which files it leaves, wherever it stops (`left_command`); `Done` is what a command has done that answers
well (`done_command`).
-/

namespace DiskArcana.Keys

open DiskArcana.Lib DiskArcana.Client DiskArcana.Core DiskArcana.Server
open DiskArcana.Accounts (trim isWhitespace trim_eq_self isWhitespace_of_visible)
open DiskArcana.Lib.Interrupted (Fault Prog Triple Reads check inspect attempt observe change step mapError
  attempt_of bind_apply)

/-! ## Names -/

/-- The label of the key of a device. -/
def keyLabel (d : Device) : Text := "e2ee.".toList ++ d.nodeId

/-- The file of the key of a device. -/
def keyPath (d : Device) : FilePath := pathFor (d.stateDir ++ ["keys".toList]) (keyLabel d)

/-- What the id of a node is made of. -/
theorem of_validateNodeId {id : List Char} (h : validateNodeId id = .ok ()) :
    (String.ofList id).utf8ByteSize ≤ 63 ∧
      ∀ c ∈ id, (isAsciiLowercase c || c.isDigit || c = '-') = true := by
  rcases id with _ | ⟨first, rest⟩
  · cases h
  · rw [validateNodeId] at h
    rcases hfind : (first :: rest).find? fun c => !(isAsciiLowercase c || c.isDigit || c = '-') with _ | c
    · have hall := List.find?_eq_none.mp hfind
      refine ⟨?_, fun c hc => by simpa only [Bool.not_eq_true', Bool.not_eq_false] using hall c hc⟩
      by_contra hlong
      rw [if_pos (Nat.lt_of_not_le hlong)] at h
      cases h
    · rw [hfind] at h
      split_ifs at h <;> cases h

/-- Every device has a label that key stores accept. -/
theorem validateLabel_keyLabel (d : Device) : validateLabel (keyLabel d) = .ok () := by
  obtain ⟨hsize, hchars⟩ := of_validateNodeId d.valid
  have hlength : (String.ofList (keyLabel d)).utf8ByteSize ≤ 128 := by
    rw [keyLabel, String.ofList_append, String.utf8ByteSize_append]
    have hpre : (String.ofList "e2ee.".toList).utf8ByteSize = 5 := by decide
    omega
  have hall : ((keyLabel d).all fun c => isLowerOrDigit c || c = '.' || c = '_' || c = '-') = true := by
    rw [keyLabel, List.all_append, Bool.and_eq_true]
    refine ⟨by decide, ?_⟩
    rw [List.all_eq_true]
    intro c hc
    have := hchars c hc
    simp only [isLowerOrDigit, Bool.or_eq_true] at this ⊢
    tauto
  have hshape : keyLabel d = 'e' :: ("2ee.".toList ++ d.nodeId) := rfl
  rw [hshape] at hlength hall ⊢
  rw [validateLabel, if_neg (Nat.not_lt.mpr hlength), if_neg (by decide), if_pos hall]

theorem e2eeKeystoreLabel_eq (d : Device) : e2eeKeystoreLabel d.nodeId = .ok (keyLabel d) := by
  show (do validateLabel (keyLabel d); return keyLabel d) = _
  rw [validateLabel_keyLabel]
  rfl

/-- Each device has a key file of its own. -/
theorem keyPath_inj {d d' : Device} : keyPath d = keyPath d' ↔ d = d' := by
  refine ⟨fun h => ?_, fun h => by rw [h]⟩
  obtain ⟨hdir, hname⟩ := List.append_inj' h rfl
  have hstate : d.stateDir = d'.stateDir := (List.append_inj' hdir rfl).1
  have hlabel : keyLabel d = keyLabel d' := List.append_cancel_right (List.singleton_inj.mp hname)
  have hid : d.nodeId = d'.nodeId := List.append_cancel_left hlabel
  rcases d with ⟨stateDir, nodeId, valid⟩
  cases hstate
  cases hid
  rfl

/-- No key file is an escrow file. -/
theorem keyPath_ne_escrowPath (d d' : Device) : keyPath d ≠ escrowPath d' := by
  intro h
  rw [keyPath, pathFor, escrowPath, List.append_assoc] at h
  have hnames := (List.append_inj' h rfl).2
  have hkeys : "keys".toList = "escrow".toList := (List.cons.inj hnames).1
  cases hkeys

/-! ## Records -/

/-- Hexadecimal digits are read back. -/
theorem hexDecode_hex (bytes : Bytes) : hexDecode (Text.hex bytes) = some bytes := by
  have hvalue : ∀ n < 16, hexValue (Text.hexDigit n) = some (UInt8.ofNat n) := by decide
  induction bytes with
  | nil => rfl
  | cons b bytes ih =>
      have hb := b.toNat_lt
      have hcons : Text.hex (b :: bytes) =
          Text.hexDigit (b.toNat / 16) :: Text.hexDigit (b.toNat % 16) :: Text.hex bytes := rfl
      have hbyte : 16 * UInt8.ofNat (b.toNat / 16) + UInt8.ofNat (b.toNat % 16) = b := by
        rw [← UInt8.toNat_inj, UInt8.toNat_add, UInt8.toNat_mul, UInt8.toNat_ofNat', UInt8.toNat_ofNat']
        simp only [UInt8.reduceToNat]
        omega
      rw [hcons, hexDecode, hvalue _ (by omega), hvalue _ (by omega), ih]
      simp [hbyte]

/-- There is no white space in hexadecimal. -/
theorem trim_hex (bytes : Bytes) : trim (Text.hex bytes) = Text.hex bytes := by
  have hdigit : ∀ n < 16, isWhitespace (Text.hexDigit n) = false := by decide
  apply trim_eq_self
  intro c hc
  obtain ⟨n, hn, rfl⟩ := Text.of_mem_hex hc
  exact hdigit n hn

/-- Bytes are read back from their hex. -/
theorem decodeHex_hex {ε : Type} (error : ε) (bytes : Bytes) :
    decodeHex error (Text.hex bytes) = .ok bytes := by
  rw [decodeHex, trim_hex, hexDecode_hex]
  rfl

variable {deps : Deps}

/-- The key of a record is read back. -/
theorem parseStoredKey_record (salt : Bytes) (key : VaultKey) :
    parseStoredKey deps (storedRecord salt key).toJson = .ok key := by
  rw [parseStoredKey, deps.storedKey.read_write]
  simp only [storedRecord, ne_eq, not_true_eq_false, if_false]
  rw [trim_hex, hexDecode_hex]
  simp only
  rw [dif_pos (List.Vector.toList_length key)]
  rfl

/-- The salt of a record is read back. -/
theorem parseStoredSalt_record (salt : Bytes) (key : VaultKey) :
    parseStoredSalt deps (storedRecord salt key).toJson = .ok salt := by
  rw [parseStoredSalt, deps.storedKey.read_write]
  simp only [storedRecord, ne_eq, not_true_eq_false, if_false]
  exact decodeHex_hex _ salt

/-! ## Entries -/

/-- What a device has in its key store. -/
inductive Entry
  | absent
  | torn
  | held (salt : Bytes) (key : VaultKey)
  deriving DecidableEq

section

variable (deps) {κ : Type}

def Entry.ofText (t : Text) : Entry :=
  match parseStoredSalt deps t with
  | .error _ => .torn
  | .ok salt =>
    match parseStoredKey deps t with
    | .error _ => .torn
    | .ok key => .held salt key

def entryOf (m : Machine κ) (d : Device) : Entry :=
  ((m.files (keyPath d)).map fun f => Entry.ofText deps f.text).getD .absent

/-- The key that an escrow file holds for a passphrase. -/
def openEscrow (t : Text) (recovery : Bytes) : Option VaultKey :=
  ((escrowFromJson deps t).bind fun blob => recoverFromEscrow deps blob recovery).toOption

/-- The key that a command finds in the escrow file that it reads. -/
def openedKey (m : Machine κ) (d : Device) : VaultCommand → Option VaultKey
  | .escrowRecover file input _ =>
      (m.files (file.getD (escrowPath d))).bind fun f => openEscrow deps f.text (OsPath.utf8 input.text)
  | _ => none

/-- The key that a device works with: that of the environment, or that of a key file which only the owner
may read. -/
def resolvedKey (m : Machine κ) (env : Env) (d : Device) : Option VaultKey :=
  match loadVaultKeyFromEnv deps env with
  | .error _ => none
  | .ok (some key) => some key
  | .ok none =>
    (m.files (keyPath d)).bind fun f =>
      if insecure f.mode then none else (parseStoredKey deps f.text).toOption

/-- The blob that a command makes for the key that it resolves. -/
def sealedBlob (m : Machine κ) (env : Env) (d : Device) (input : PassphraseInput) (salt : Salt)
    (nonce : Nonce) : Option EscrowBlob :=
  (resolvedKey deps m env d).bind fun key =>
    (createEscrow deps key (OsPath.utf8 input.text) salt nonce).toOption

/-- The records that a command writes, from the entry that it finds. -/
inductive Writes : VaultCommand → Option VaultKey → Entry → Bytes → VaultKey → Prop
  | given {input : PassphraseInput} {t : Text} {fresh : Salt} {opened : Option VaultKey} {e : Entry}
      {salt : Bytes} {key : VaultKey} (hsalt : decodeHex CliError.saltHex t = .ok salt)
      (hkey : deriveFromPassphrase deps (OsPath.utf8 input.text) salt = .ok key) :
      Writes (.unlock input (some t) fresh) opened e salt key
  | again {input : PassphraseInput} {fresh : Salt} {opened : Option VaultKey} {salt : Bytes}
      {old key : VaultKey} (hkey : deriveFromPassphrase deps (OsPath.utf8 input.text) salt = .ok key) :
      Writes (.unlock input none fresh) opened (.held salt old) salt key
  | first {input : PassphraseInput} {fresh : Salt} {opened : Option VaultKey} {key : VaultKey}
      (hkey : deriveFromPassphrase deps (OsPath.utf8 input.text) fresh.toList = .ok key) :
      Writes (.unlock input none fresh) opened .absent fresh.toList key
  | recovered {file : Option FilePath} {input : PassphraseInput} {fresh : Salt} {e : Entry}
      {key : VaultKey} : Writes (.escrowRecover file input fresh) (some key) e fresh.toList key

/-- A file is written anew; one that is there keeps its permissions. -/
def Machine.wrote (m : Machine κ) (p : FilePath) (mode : ℕ) (t : Text) : Machine κ :=
  m.put p ⟨((m.files p).map KeyFile.mode).getD mode, t⟩

/-- What a command may leave, wherever it stops. -/
inductive Left (m : Machine κ) (d : Device) (env : Env) : VaultCommand → Machine κ → Prop
  | same {c : VaultCommand} : Left m d env c m
  | removed : Left m d env .lock (m.remove (keyPath d))
  | record {c : VaultCommand} {salt : Bytes} {key : VaultKey} (n : ℕ)
      (h : Writes deps c (openedKey deps m d c) (entryOf deps m d) salt key) :
      Left m d env c (m.wrote (keyPath d) 0o600 ((storedRecord salt key).toJson.take n))
  | escrow {input : PassphraseInput} {salt : Salt} {nonce : Nonce} {blob : EscrowBlob} (mode n : ℕ)
      (h : sealedBlob deps m env d input salt nonce = some blob) :
      Left m d env (.escrowCreate input salt nonce) (m.put (escrowPath d) ⟨mode, blob.toJson.take n⟩)

/-- What a command has done that answers well. -/
inductive Done (m : Machine κ) (d : Device) (env : Env) : VaultCommand → Machine κ → Prop
  | removed : Done m d env .lock (m.remove (keyPath d))
  | record {c : VaultCommand} {salt : Bytes} {key : VaultKey}
      (h : Writes deps c (openedKey deps m d c) (entryOf deps m d) salt key) :
      Done m d env c (m.wrote (keyPath d) 0o600 (storedRecord salt key).toJson)
  | escrow {input : PassphraseInput} {salt : Salt} {nonce : Nonce} {blob : EscrowBlob}
      (h : sealedBlob deps m env d input salt nonce = some blob) :
      Done m d env (.escrowCreate input salt nonce) (m.put (escrowPath d) ⟨0o600, blob.toJson⟩)

end

/-! ## Key stores -/

section

variable {κ : Type} {kr : Keyring κ} {m : Machine κ} {d : Device} {env : Env} {dir : FilePath}
  {label t : Text}

/-- The keychain is not asked: no store accepts the label of the probe. -/
theorem probeOsKeystore_eq (service : Text) (fs : List Fault) :
    probeOsKeystore (osKeyStore kr service) m fs = (.error (.invalidLabel probeLabel), m, fs) := rfl

theorem detectOrFile_eq (service : Text) :
    detectOrFile kr service dir = (do makeDir .io; return fileKeyStore dir) := by
  funext m fs
  rw [detectOrFile, bind_apply, attempt_of (probeOsKeystore_eq service fs)]

theorem reads_makeDir {ε : Type} (error : ε) : Reads m (makeDir error) fun _ => True :=
  (Reads.observe _).mono fun _ _ => trivial

/-- Every device keeps its key in a file. -/
theorem reads_openE2eeKeystore : Reads m (openE2eeKeystore kr d) fun store =>
    store = fileKeyStore (d.stateDir ++ ["keys".toList]) := by
  rw [openE2eeKeystore, detectOrFile_eq]
  exact ((reads_makeDir _).seq fun _ _ => Reads.pure _).mapError

theorem reads_label : Reads m (check ((e2eeKeystoreLabel d.nodeId).mapError VaultKeyError.keyStore))
    fun label => label = keyLabel d := by
  rw [e2eeKeystoreLabel_eq]
  exact (Reads.check _).mono fun label h => (Except.ok.inj h).symm

theorem of_mapError {ε ε' α : Type} {f : ε → ε'} {a : Except ε α} {v : α} (h : a.mapError f = .ok v) :
    a = .ok v := by
  rcases a with e | w
  · cases h
  · cases h
    rfl

/-- What a key store reads: nothing where there is no file, or the text of a file that only the owner may
read. -/
def LoadsFrom (m : Machine κ) (p : FilePath) (entry : Option Text) : Prop :=
  m.files p = none ∧ entry = none ∨ ∃ f, m.files p = some f ∧ insecure f.mode = false ∧ entry = some f.text

/-- A load reads the file of its label. -/
theorem reads_load : Reads m ((fileKeyStore dir).load label) (LoadsFrom m (pathFor dir label)) := by
  refine (Reads.check _).seq fun _ _ => (Reads.inspect _).seq fun file hfile => ?_
  have hfile : m.files (pathFor dir label) = file := Except.ok.inj hfile
  rcases file with _ | f
  · exact (Reads.pure _).mono fun _ h => .inl ⟨hfile, h⟩
  · refine (Reads.observe _).seq fun _ haudit => (Reads.observe _).seq fun text htext => ?_
    simp only [hfile] at haudit htext
    rcases hmode : insecure f.mode with _ | _
    · exact (Reads.pure _).mono fun _ h => .inr ⟨f, hfile, hmode, by rw [h, ← Except.ok.inj htext]⟩
    · rw [hmode] at haudit
      cases haudit

theorem fill_truncate (p : FilePath) (mode : ℕ) (t : Text) :
    (m.truncate p mode).fill p t = m.wrote p mode t := by
  simp [Machine.truncate, Machine.fill, Machine.wrote, Machine.put]

/-- A write leaves the text, or a beginning of it. -/
theorem triple_writeFile {ε : Type} (error : ε) (p : FilePath) (mode : ℕ) (t : Text) :
    Triple (fun m' => m' = m) (writeFile error p mode t) (fun _ m' => m' = m.wrote p mode t)
      fun m' => m' = m ∨ ∃ n, m' = m.wrote p mode (t.take n) := by
  refine Triple.bind (Q := fun _ m' => m' = m.truncate p mode) ?_ fun _ => ?_
  · refine Triple.change (fun m' hm => .inl hm) fun m' v m'' hm hdone => ?_
    cases hm
    cases hdone
    exact ⟨.inr ⟨0, rfl⟩, rfl⟩
  · refine Triple.step (fun n m' hm => .inr ⟨n, ?_⟩) (fun m' hm => .inr ⟨0, ?_⟩) fun m' v m'' hm hdone => ?_
    · rw [hm, fill_truncate]
    · rw [hm]
      rfl
    · cases hdone
      rw [hm, fill_truncate]
      exact ⟨.inr ⟨t.length, by rw [List.take_length]⟩, rfl⟩

/-- A store does so in the file of its label. -/
theorem triple_store (label t : Text) : Triple (fun m' => m' = m) ((fileKeyStore dir).store label t)
    (fun _ m' => m' = m.wrote (pathFor dir label) 0o600 t)
    fun m' => m' = m ∨ ∃ n, m' = m.wrote (pathFor dir label) 0o600 (t.take n) :=
  (Reads.check _).bind (.inl rfl) fun _ _ => (reads_makeDir _).bind (.inl rfl) fun _ _ =>
    triple_writeFile KeyStoreError.io _ 0o600 t

/-- A delete removes the file of its label. -/
theorem triple_delete (label : Text) : Triple (fun m' => m' = m) ((fileKeyStore dir).delete label)
    (fun _ m' => m' = m.remove (pathFor dir label))
    fun m' => m' = m ∨ m' = m.remove (pathFor dir label) := by
  refine (Reads.check _).bind (.inl rfl) fun _ _ => ?_
  refine Triple.change (fun m' hm => .inl hm) fun m' v m'' hm hdone => ?_
  cases hm
  cases hdone
  exact ⟨.inr rfl, rfl⟩

/-! ## Commands -/

/-- Every key file is a record, or breaks off within one. -/
def Shaped (m : Machine κ) : Prop :=
  ∀ d f, m.files (keyPath d) = some f → ∃ salt key, f.text <+: (storedRecord salt key).toJson

/-- A whole record is held. -/
theorem ofText_record (salt : Bytes) (key : VaultKey) :
    Entry.ofText deps (storedRecord salt key).toJson = .held salt key := by
  rw [Entry.ofText, parseStoredSalt_record]
  simp only
  rw [parseStoredKey_record]

/-- A record that breaks off is torn. -/
theorem ofText_brokenOff {salt : Bytes} {key : VaultKey} (h : BreaksOff t (storedRecord salt key).toJson) :
    Entry.ofText deps t = .torn := by
  rw [Entry.ofText, parseStoredSalt, deps.storedKey.read_brokenOff h]

theorem entryOf_of_some {f : KeyFile} (h : m.files (keyPath d) = some f) :
    entryOf deps m d = Entry.ofText deps f.text := by
  rw [entryOf, h]
  rfl

theorem entryOf_of_none (h : m.files (keyPath d) = none) : entryOf deps m d = .absent := by
  rw [entryOf, h]
  rfl

/-- The salt of a record is read with a key. -/
theorem Shaped.entryOf_of_salt {f : KeyFile} {salt : Bytes} (hshaped : Shaped m)
    (hfile : m.files (keyPath d) = some f) (hsalt : parseStoredSalt deps f.text = .ok salt) :
    ∃ key, entryOf deps m d = .held salt key := by
  obtain ⟨salt', key, hpre⟩ := hshaped d f hfile
  rw [entryOf_of_some hfile]
  by_cases hwhole : f.text = (storedRecord salt' key).toJson
  · rw [hwhole, parseStoredSalt_record] at hsalt
    exact ⟨key, by rw [hwhole, ofText_record, Except.ok.inj hsalt]⟩
  · rw [parseStoredSalt, deps.storedKey.read_brokenOff ⟨hpre, hwhole⟩] at hsalt
    cases hsalt

/-- The key of a record is read with a salt. -/
theorem Shaped.entryOf_of_key {f : KeyFile} {key : VaultKey} (hshaped : Shaped m)
    (hfile : m.files (keyPath d) = some f) (hkey : parseStoredKey deps f.text = .ok key) :
    ∃ salt, entryOf deps m d = .held salt key := by
  obtain ⟨salt, key', hpre⟩ := hshaped d f hfile
  rw [entryOf_of_some hfile]
  by_cases hwhole : f.text = (storedRecord salt key').toJson
  · rw [hwhole, parseStoredKey_record] at hkey
    exact ⟨salt, by rw [hwhole, ofText_record, Except.ok.inj hkey]⟩
  · rw [parseStoredKey, deps.storedKey.read_brokenOff ⟨hpre, hwhole⟩] at hkey
    cases hkey

variable {input : PassphraseInput} {saltHex : Option Text} {fresh : Salt}

/-- The salt that an unlock takes. -/
theorem reads_unlockSalt (input : PassphraseInput) (hshaped : Shaped m) {given : Option Bytes}
    (hgiven : saltHex.elim (.ok none) (fun t => (decodeHex CliError.saltHex t).map some) = .ok given) :
    Reads m (unlockSalt deps (fileKeyStore (d.stateDir ++ ["keys".toList])) (keyLabel d) given fresh)
      fun salt => ∀ opened key, deriveFromPassphrase deps (OsPath.utf8 input.text) salt = .ok key →
        Writes deps (.unlock input saltHex fresh) opened (entryOf deps m d) salt key := by
  rcases saltHex with _ | t
  · cases hgiven
    refine reads_load.mapError.seq fun entry hentry => ?_
    rcases hentry with ⟨hnone, rfl⟩ | ⟨f, hfile, -, rfl⟩
    · refine (Reads.pure _).mono fun salt hsalt opened key hkey => ?_
      rw [entryOf_of_none hnone, hsalt]
      exact .first (hsalt ▸ hkey)
    · refine (Reads.check _).mono fun salt hsalt opened key hkey => ?_
      obtain ⟨old, hheld⟩ := hshaped.entryOf_of_salt hfile hsalt
      rw [hheld]
      exact .again hkey
  · rcases hdecoded : decodeHex CliError.saltHex t with e | salt
    · simp [hdecoded, Except.map] at hgiven
    · simp only [Option.elim_some, hdecoded, Except.map, Except.ok.injEq] at hgiven
      subst hgiven
      refine (Reads.check _).mono fun salt' hsalt opened key hkey => ?_
      split_ifs at hsalt
      cases hsalt
      exact .given hdecoded hkey

theorem reads_resolveVaultKey : Reads m (resolveVaultKey deps kr env d)
    fun o => ∀ key, o = some key → resolvedKey deps m env d = some key := by
  refine (Reads.check _).seq fun found hfound => ?_
  have henv : loadVaultKeyFromEnv deps env = .ok found := of_mapError hfound
  rcases found with _ | key
  · refine reads_label.seq fun label hlabel => reads_openE2eeKeystore.seq fun store hstore => ?_
    subst hlabel hstore
    refine reads_load.mapError.seq fun entry hentry => ?_
    rcases hentry with ⟨-, rfl⟩ | ⟨f, hfile, hmode, rfl⟩
    · exact (Reads.pure _).mono fun o ho key hkey => by rw [ho] at hkey; cases hkey
    · refine (Reads.check _).seq fun key hkey => (Reads.pure _).mono fun o ho key' hkey' => ?_
      rw [ho] at hkey'
      cases hkey'
      have hfile' : m.files (keyPath d) = some f := hfile
      rw [resolvedKey, henv]
      simp [hfile', hmode, hkey, Except.toOption]
  · refine (Reads.pure _).mono fun o ho key' hkey' => ?_
    rw [ho] at hkey'
    cases hkey'
    rw [resolvedKey, henv]

/-- Storing the record that a command writes. -/
theorem triple_storeRecord {c : VaultCommand} {salt : Bytes} {key : VaultKey}
    (h : Writes deps c (openedKey deps m d c) (entryOf deps m d) salt key) :
    Triple (fun m' => m' = m)
      ((fileKeyStore (d.stateDir ++ ["keys".toList])).store (keyLabel d) (storedRecord salt key).toJson)
      (fun _ => Done deps m d env c) (Left deps m d env c) := by
  intro m' fs hm
  obtain ⟨hleft, hdone⟩ := triple_store (keyLabel d) (storedRecord salt key).toJson m' fs hm
  refine ⟨?_, fun v hv => ?_⟩
  · rcases hleft with hsame | ⟨n, hwrote⟩
    · rw [hsame]
      exact .same
    · rw [hwrote]
      exact .record n h
  · rw [hdone v hv]
    exact .record h

/-- Unlocking with the salt that is given, or a stored or fresh one. -/
theorem triple_unlockVaultKey (hshaped : Shaped m) {given : Option Bytes}
    (hgiven : saltHex.elim (.ok none) (fun t => (decodeHex CliError.saltHex t).map some) = .ok given) :
    Triple (fun m' => m' = m) (unlockVaultKey deps kr (OsPath.utf8 input.text) d given fresh)
      (fun _ => Done deps m d env (.unlock input saltHex fresh))
      (Left deps m d env (.unlock input saltHex fresh)) := by
  refine (Reads.check _).bind .same fun _ _ => reads_label.bind .same fun label hlabel =>
    reads_openE2eeKeystore.bind .same fun store hstore => ?_
  subst hlabel hstore
  refine (reads_unlockSalt input hshaped hgiven).bind .same fun salt hsalt =>
    (Reads.check _).bind .same fun key hkey => ?_
  exact Triple.mapError (triple_storeRecord (hsalt _ key (of_mapError hkey)))

/-- The input of a passphrase that is accepted. -/
theorem reads_readPassphrase : Reads m (check (readPassphrase input)) fun p => p = input.text :=
  (Reads.check _).mono fun p hp => by
    unfold readPassphrase at hp
    split_ifs at hp
    exact (Except.ok.inj hp).symm

/-- **Unlocking.** -/
theorem triple_runUnlock (hshaped : Shaped m) :
    Triple (fun m' => m' = m) (runUnlock deps kr d env input saltHex fresh)
      (fun _ => Done deps m d env (.unlock input saltHex fresh))
      (Left deps m d env (.unlock input saltHex fresh)) := by
  refine reads_readPassphrase.bind .same fun passphrase hpassphrase =>
    (Reads.check _).bind .same fun given hgiven => ?_
  subst hpassphrase
  refine Triple.bind (triple_unlockVaultKey hshaped hgiven).always.mapError fun _ => ?_
  -- The key that was stored is resolved again, and nothing changes.
  refine Triple.of_forall fun m' hm' => reads_resolveVaultKey.mapError.bind hm'.2 fun found _ => ?_
  rcases found with _ | key
  · exact (Reads.check _).last hm'.2 fun _ _ => hm'.1
  · exact (Reads.pure _).last hm'.2 fun _ _ => hm'.1

/-- Removing the key file. -/
theorem triple_removeKey : Triple (fun m' => m' = m)
    ((fileKeyStore (d.stateDir ++ ["keys".toList])).delete (keyLabel d))
    (fun _ => Done deps m d env .lock) (Left deps m d env .lock) := by
  intro m' fs hm
  obtain ⟨hleft, hdone⟩ := triple_delete (keyLabel d) m' fs hm
  refine ⟨?_, fun v hv => ?_⟩
  · rcases hleft with hsame | hgone
    · rw [hsame]
      exact .same
    · rw [hgone]
      exact .removed
  · rw [hdone v hv]
    exact .removed

/-- **Locking.** -/
theorem triple_runLock : Triple (fun m' => m' = m) (runLock kr d) (fun _ => Done deps m d env .lock)
    (Left deps m d env .lock) := by
  have hlock : Triple (fun m' => m' = m) (lockVaultKey kr d) (fun _ => Done deps m d env .lock)
      (Left deps m d env .lock) := by
    refine reads_label.bind .same fun label hlabel => reads_openE2eeKeystore.bind .same fun store hstore => ?_
    subst hlabel hstore
    refine reads_load.mapError.bind .same fun entry _ => ?_
    refine Triple.bind triple_removeKey.always.mapError fun _ => ?_
    exact Triple.of_forall fun m' hm' => (Reads.pure _).last hm'.2 fun _ _ => hm'.1
  refine Triple.bind hlock.always.mapError fun _ => ?_
  exact Triple.of_forall fun m' hm' => (Reads.pure _).last hm'.2 fun _ _ => hm'.1

/-! ### Escrow -/

variable {salt : Salt} {nonce : Nonce} {blob : EscrowBlob} {file : Option FilePath} {key : VaultKey}

/-- Writing the escrow file. -/
theorem triple_writeEscrowFile (h : sealedBlob deps m env d input salt nonce = some blob) :
    Triple (fun m' => m' = m) (writeEscrowFile (escrowPath d) blob)
      (fun _ => Done deps m d env (.escrowCreate input salt nonce))
      (Left deps m d env (.escrowCreate input salt nonce)) := by
  have hwrote : ∀ n, Left deps m d env (.escrowCreate input salt nonce)
      (m.wrote (escrowPath d) 0o644 (blob.toJson.take n)) := fun n => .escrow _ n h
  refine (reads_makeDir _).bind .same fun _ _ => ?_
  refine Triple.bind (Q := fun _ m' => m' = m.wrote (escrowPath d) 0o644 blob.toJson) ?_ fun _ => ?_
  · intro m' fs hm
    obtain ⟨hleft, hdone⟩ := triple_writeFile (E2eeError.keyDerivation .escrowWrite) (escrowPath d) 0o644
      blob.toJson m' fs hm
    refine ⟨?_, hdone⟩
    rcases hleft with hsame | ⟨n, hn⟩
    · rw [hsame]
      exact .same
    · rw [hn]
      exact hwrote n
  · have hwhole : Left deps m d env (.escrowCreate input salt nonce)
        (m.wrote (escrowPath d) 0o644 blob.toJson) := by
      simpa only [List.take_length] using hwrote blob.toJson.length
    refine Triple.change (fun m' hm => by rw [hm]; exact hwhole) fun m' v m'' hm hchmod => ?_
    have hdone : m'' = m.put (escrowPath d) ⟨0o600, blob.toJson⟩ := by
      cases hchmod
      rw [hm]
      simp [Machine.chmod, Machine.wrote, Machine.put]
    rw [hdone]
    refine ⟨?_, .escrow h⟩
    have hleft : Left deps m d env (.escrowCreate input salt nonce)
        (m.put (escrowPath d) ⟨0o600, blob.toJson.take blob.toJson.length⟩) := .escrow _ _ h
    rwa [List.take_length] at hleft

/-- **Creating an escrow.** -/
theorem triple_runEscrowCreate : Triple (fun m' => m' = m) (runEscrowCreate deps kr d env input salt nonce)
    (fun _ => Done deps m d env (.escrowCreate input salt nonce))
    (Left deps m d env (.escrowCreate input salt nonce)) := by
  refine reads_resolveVaultKey.mapError.bind .same fun found hfound => ?_
  rcases found with _ | key
  · exact (Reads.check _).last .same fun _ h => by cases h
  · refine reads_readPassphrase.bind .same fun recovery hrecovery =>
      (Reads.check _).bind .same fun blob hblob => ?_
    subst hrecovery
    refine Triple.mapError (triple_writeEscrowFile ?_)
    rw [sealedBlob, hfound key rfl, Option.bind_some, of_mapError hblob]
    rfl

/-- The blob in an escrow file. -/
theorem reads_readEscrowFile (p : FilePath) : Reads m (readEscrowFile deps p) fun blob =>
    ∃ f, m.files p = some f ∧ escrowFromJson deps f.text = .ok blob := by
  refine (Reads.observe _).seq fun raw hraw => (Reads.check _).mono fun blob hblob => ?_
  rcases hfile : m.files p with _ | f
  · simp [hfile] at hraw
  · simp only [hfile, Except.ok.injEq] at hraw
    exact ⟨f, rfl, hraw ▸ hblob⟩

/-- Importing a key under a fresh salt. -/
theorem triple_importVaultKey {env : Env}
    (h : openedKey deps m d (.escrowRecover file input fresh) = some key) :
    Triple (fun m' => m' = m) (importVaultKey kr key d fresh)
      (fun _ => Done deps m d env (.escrowRecover file input fresh))
      (Left deps m d env (.escrowRecover file input fresh)) := by
  have hwrites : Writes deps (.escrowRecover file input fresh)
      (openedKey deps m d (.escrowRecover file input fresh)) (entryOf deps m d) fresh.toList key := by
    rw [h]
    exact .recovered
  refine reads_label.bind .same fun label hlabel => reads_openE2eeKeystore.bind .same fun store hstore => ?_
  subst hlabel hstore
  exact Triple.mapError (triple_storeRecord hwrites)

/-- **Recovering from an escrow.** -/
theorem triple_runEscrowRecover : Triple (fun m' => m' = m) (runEscrowRecover deps kr d file input fresh)
    (fun _ => Done deps m d env (.escrowRecover file input fresh))
    (Left deps m d env (.escrowRecover file input fresh)) := by
  refine (reads_readEscrowFile _).mapError.bind .same fun blob hblob =>
    reads_readPassphrase.bind .same fun recovery hrecovery => (Reads.check _).bind .same fun key hkey => ?_
  obtain ⟨f, hfile, hparsed⟩ := hblob
  subst hrecovery
  refine Triple.mapError (triple_importVaultKey ?_)
  simp [openedKey, hfile, openEscrow, hparsed, Except.bind, of_mapError hkey, Except.toOption]

/-- **What a command does to the files**, wherever it stops and where it answers well. -/
theorem triple_command (hshaped : Shaped m) (c : VaultCommand) :
    Triple (fun m' => m' = m) (c.prog deps kr d env) (fun _ => Done deps m d env c) (Left deps m d env c) := by
  cases c with
  | unlock input saltHex fresh => exact triple_runUnlock hshaped
  | lock => exact triple_runLock
  | escrowCreate input salt nonce => exact triple_runEscrowCreate
  | escrowRecover file input fresh => exact triple_runEscrowRecover

end

end DiskArcana.Keys
