import DiskArcana.Keys.Store
import DiskArcana.Client.Encrypted
import DiskArcana.Client.LanFetch
import DiskArcana.Accounts.Model
import DiskArcana.Lib.Json
import DiskArcana.Lib.OsPath
import DiskArcana.Lib.Trace

/-!
# The vault key of a device

`disk vault` (`disk-cli/src/vault.rs`) with `disk-client/src/vault_key.rs` and `disk-core/src/e2ee/escrow.rs`.
`unlock` derives the key of a vault from a passphrase and a salt, and stores both in the key store of the
device; `lock` removes them; `escrow create` wraps the key with a recovery passphrase in a file, and
`escrow recover` stores the key that such a file holds. `resolveVaultKey` is the key that a daemon starts
with.

`KeyEvent` adds what others do to the files: the operator carries an escrow file to another device, and
someone changes the permissions of a file. Commands run one after another; each may fail at any of its
steps, or be stopped there.
-/

namespace DiskArcana.Keys

open DiskArcana.Lib DiskArcana.Client DiskArcana.Core DiskArcana.Server
open DiskArcana.Accounts (trim trimEndMatches)
open DiskArcana.Lib.Json (Ends ends_comma string_append_inj delimits_nat joined_cons_cons joined_singleton)
open DiskArcana.Lib.Interrupted (Fault Prog Triple check inspect attempt observe change step mapError)

/-- Source: `e2ee/mod.rs`, `SALT_LEN` -/
abbrev Salt := List.Vector UInt8 16

/-- The reasons of `E2eeError::KeyDerivation`. -/
inductive DerivationReason
  | argon
  | saltRequired
  | saltHex
  | recoveryPassphraseEmpty
  | recoverySaltHex
  | nonceHex
  | ciphertextHex
  | escrowJson
  | escrowVersion (v : UInt8)
  | escrowDir
  | escrowWrite
  | escrowChmod
  | escrowRead
  deriving DecidableEq

/-- Source: `e2ee/error.rs`, `E2eeError` -/
inductive E2eeError
  | saltTooShort
  | keyDerivation (reason : DerivationReason)
  | encrypt
  | decryptFailed
  | invalidNonce
  deriving DecidableEq

/-- The reasons of `VaultKeyError::InvalidRecord`. -/
inductive RecordReason
  | parse
  | version (v : UInt8)
  | saltHex
  | keyHex
  | keyLength
  deriving DecidableEq

/-- Source: `vault_key.rs`, `VaultKeyError` -/
inductive VaultKeyError
  | e2ee (e : E2eeError)
  | keyStore (e : KeyStoreError)
  | emptyPassphrase
  | invalidRecord (reason : RecordReason)
  deriving DecidableEq

/-- Source: `vault_key.rs`, `StoredE2eeKey` -/
structure StoredE2eeKey where
  v : UInt8
  salt : Text
  key : Text
  deriving DecidableEq

/-- Source: `e2ee/escrow.rs`, `EscrowBlob` -/
structure EscrowBlob where
  v : UInt8
  recoverySaltHex : Text
  nonceHex : Text
  ciphertextHex : Text
  deriving DecidableEq

/-- `serde_json::to_string` -/
def StoredE2eeKey.toJson (r : StoredE2eeKey) : Text :=
  Json.object [("v".toList, Json.nat r.v.toNat), ("salt".toList, Json.string r.salt),
    ("key".toList, Json.string r.key)]

/-- A field of an object that is written with indentation. -/
def prettyField (name value : Text) : Text :=
  ['\n', ' ', ' '] ++ Json.string name ++ [':', ' '] ++ value

/-- `serde_json::to_string_pretty` -/
def EscrowBlob.toJson (b : EscrowBlob) : Text :=
  '\x7b' :: Json.joined [prettyField "v".toList (Json.nat b.v.toNat),
    prettyField "recovery_salt_hex".toList (Json.string b.recoverySaltHex),
    prettyField "nonce_hex".toList (Json.string b.nonceHex),
    prettyField "ciphertext_hex".toList (Json.string b.ciphertextHex)] ++ ['\n', '\x7d']

/-- A text that breaks off before the end of another. -/
def BreaksOff (t whole : Text) : Prop := t <+: whole ∧ t ≠ whole

/-- `serde_json::from_str` for a type with a written form: it reads what was written, and no text that
breaks off. -/
structure Reader {α : Type} (write : α → Text) where
  read : Text → Option α
  read_write : ∀ a, read (write a) = some a
  read_brokenOff : ∀ {t a}, BreaksOff t (write a) → read t = none

theorem StoredE2eeKey.toJson_append (r : StoredE2eeKey) (x : Text) : r.toJson ++ x =
    "\x7b\"v\":".toList ++ (Json.nat r.v.toNat ++ (",\"salt\":".toList ++ (Json.string r.salt ++
      (",\"key\":".toList ++ (Json.string r.key ++ '\x7d' :: x))))) := by
  have hv : Json.string "v".toList = "\"v\"".toList := by decide
  have hsalt : Json.string "salt".toList = "\"salt\"".toList := by decide
  have hkey : Json.string "key".toList = "\"key\"".toList := by decide
  rw [StoredE2eeKey.toJson, Json.object]
  simp only [List.map_cons, List.map_nil, joined_cons_cons, joined_singleton, hv, hsalt, hkey]
  simp

theorem EscrowBlob.toJson_append (b : EscrowBlob) (x : Text) : b.toJson ++ x =
    "\x7b\n  \"v\": ".toList ++ (Json.nat b.v.toNat ++ (",\n  \"recovery_salt_hex\": ".toList ++
      (Json.string b.recoverySaltHex ++ (",\n  \"nonce_hex\": ".toList ++ (Json.string b.nonceHex ++
        (",\n  \"ciphertext_hex\": ".toList ++ (Json.string b.ciphertextHex ++ '\n' :: '\x7d' :: x))))))) := by
  have hv : Json.string "v".toList = "\"v\"".toList := by decide
  have hsalt : Json.string "recovery_salt_hex".toList = "\"recovery_salt_hex\"".toList := by decide
  have hnonce : Json.string "nonce_hex".toList = "\"nonce_hex\"".toList := by decide
  have hciphertext : Json.string "ciphertext_hex".toList = "\"ciphertext_hex\"".toList := by decide
  rw [EscrowBlob.toJson]
  simp only [prettyField, joined_cons_cons, joined_singleton, hv, hsalt, hnonce, hciphertext]
  simp

/-- A record ends where its text does. -/
theorem StoredE2eeKey.toJson_prefix {a b : StoredE2eeKey} (h : a.toJson <+: b.toJson) : a = b := by
  obtain ⟨x, hx⟩ := h
  rw [← List.append_nil b.toJson, toJson_append, toJson_append] at hx
  have hcomma : ∀ t : Text, Ends (",\"salt\":".toList ++ t) := fun t => ends_comma _
  obtain ⟨hv, hx⟩ := delimits_nat _ _ (hcomma _) (hcomma _) (List.append_cancel_left hx)
  obtain ⟨hsalt, hx⟩ := string_append_inj.mp (List.append_cancel_left hx)
  obtain ⟨hkey, -⟩ := string_append_inj.mp (List.append_cancel_left hx)
  rcases a with ⟨v, salt, key⟩
  cases hsalt
  cases hkey
  cases UInt8.toNat_inj.mp (Json.nat_inj.mp hv)
  rfl

theorem EscrowBlob.toJson_prefix {a b : EscrowBlob} (h : a.toJson <+: b.toJson) : a = b := by
  obtain ⟨x, hx⟩ := h
  rw [← List.append_nil b.toJson, toJson_append, toJson_append] at hx
  have hcomma : ∀ t : Text, Ends (",\n  \"recovery_salt_hex\": ".toList ++ t) := fun t => ends_comma _
  obtain ⟨hv, hx⟩ := delimits_nat _ _ (hcomma _) (hcomma _) (List.append_cancel_left hx)
  obtain ⟨hsalt, hx⟩ := string_append_inj.mp (List.append_cancel_left hx)
  obtain ⟨hnonce, hx⟩ := string_append_inj.mp (List.append_cancel_left hx)
  obtain ⟨hciphertext, -⟩ := string_append_inj.mp (List.append_cancel_left hx)
  rcases a with ⟨v, recoverySaltHex, nonceHex, ciphertextHex⟩
  cases hsalt
  cases hnonce
  cases hciphertext
  cases UInt8.toNat_inj.mp (Json.nat_inj.mp hv)
  rfl

open Classical in
/-- The reader of texts that end where they do. -/
noncomputable def Reader.ofPrefixFree {α : Type} {write : α → Text} (h : ∀ a b, write a <+: write b → a = b) :
    Reader write where
  read t := if ht : ∃ a, write a = t then some ht.choose else none
  read_write a := by
    have hwritten : ∃ b, write b = write a := ⟨a, rfl⟩
    rw [dif_pos hwritten]
    have hpre : write hwritten.choose <+: write a := by rw [hwritten.choose_spec]
    exact congrArg some (h _ _ hpre)
  read_brokenOff := by
    rintro t a ⟨hpre, hne⟩
    refine dif_neg ?_
    rintro ⟨b, rfl⟩
    exact hne (congrArg write (h _ _ hpre))

/-- The crates that the key of a vault rests on: `argon2id` derives 32 bytes from a passphrase and a salt,
or fails. -/
structure Deps where
  argon2id : Bytes → Bytes → Option VaultKey
  aead : Aead
  storedKey : Reader StoredE2eeKey.toJson
  escrowBlob : Reader EscrowBlob.toJson

/-- The variables of the environment; one that is no text counts as unset. -/
structure Env where
  vaultPassphrase : Option Text
  vaultSalt : Option Text

/-- A state directory, and the node of a loaded configuration. -/
structure Device where
  stateDir : FilePath
  nodeId : Text
  valid : validateNodeId nodeId = .ok ()

section

variable (deps : Deps) {κ : Type}

/-- Source: `e2ee/mod.rs`, `VaultKey::derive_from_passphrase` -/
def deriveFromPassphrase (passphrase salt : Bytes) : Except E2eeError VaultKey :=
  if salt.length < 8 then .error .saltTooShort
  else (deps.argon2id passphrase salt).elim (.error (.keyDerivation .argon)) .ok

/-- `hex::decode` of a text without the white space around it. -/
def decodeHex {ε : Type} (error : ε) (t : Text) : Except ε Bytes :=
  (hexDecode (trim t)).elim (.error error) .ok

/-! ## Escrow -/

/-- Source: `e2ee/escrow.rs`, `EscrowBlob::from_json` -/
def escrowFromJson (t : Text) : Except E2eeError EscrowBlob :=
  match deps.escrowBlob.read t with
  | none => .error (.keyDerivation .escrowJson)
  | some b => if b.v ≠ 1 then .error (.keyDerivation (.escrowVersion b.v)) else .ok b

/-- Source: `e2ee/escrow.rs`, `create_escrow` -/
def createEscrow (key : VaultKey) (recovery : Bytes) (salt : Salt) (nonce : Nonce) :
    Except E2eeError EscrowBlob := do
  if recovery = [] then throw (.keyDerivation .recoveryPassphraseEmpty)
  let wrapKey ← deriveFromPassphrase deps recovery salt.toList
  let ciphertext ← (deps.aead.encrypt wrapKey nonce key.toList).elim (.error .encrypt) .ok
  return ⟨1, Text.hex salt.toList, Text.hex nonce.toList, Text.hex ciphertext⟩

/-- Source: `e2ee/escrow.rs`, `recover_from_escrow` -/
def recoverFromEscrow (blob : EscrowBlob) (recovery : Bytes) : Except E2eeError VaultKey := do
  let salt ← decodeHex (.keyDerivation .recoverySaltHex) blob.recoverySaltHex
  if salt.length < 8 then throw .saltTooShort
  let nonce ← decodeHex (.keyDerivation .nonceHex) blob.nonceHex
  if hn : nonce.length = 24 then
    let ciphertext ← decodeHex (.keyDerivation .ciphertextHex) blob.ciphertextHex
    let wrapKey ← deriveFromPassphrase deps recovery salt
    let plain ← (deps.aead.decrypt wrapKey ⟨nonce, hn⟩ ciphertext).elim (.error .decryptFailed) .ok
    if hp : plain.length = 32 then return ⟨plain, hp⟩ else throw .decryptFailed
  else throw .invalidNonce

/-- Source: `e2ee/escrow.rs`, `escrow_path` -/
def escrowPath (d : Device) : FilePath := d.stateDir ++ ["escrow".toList, d.nodeId ++ ".escrow.json".toList]

/-- Source: `e2ee/escrow.rs`, `write_escrow_file` -/
def writeEscrowFile (p : FilePath) (blob : EscrowBlob) : Cmd κ E2eeError Unit := do
  makeDir (.keyDerivation .escrowDir)
  writeFile (.keyDerivation .escrowWrite) p 0o644 blob.toJson
  change (.keyDerivation .escrowChmod) fun m => .ok ((), m.chmod p 0o600)

/-- Source: `e2ee/escrow.rs`, `read_escrow_file` -/
def readEscrowFile (p : FilePath) : Cmd κ E2eeError EscrowBlob := do
  let raw ← readFile (.keyDerivation .escrowRead) p
  check (escrowFromJson deps raw)

/-! ## The key store of a device -/

/-- Source: `vault_key.rs`, `e2ee_keystore_label` -/
def e2eeKeystoreLabel (nodeId : Text) : Except KeyStoreError Text := do
  let label := "e2ee.".toList ++ nodeId
  validateLabel label
  return label

variable (kr : Keyring κ)

/-- Source: `vault_key.rs`, `open_e2ee_keystore` -/
def openE2eeKeystore (d : Device) : Cmd κ VaultKeyError (KeyStore κ) :=
  mapError .keyStore (detectOrFile kr defaultOsKeyringService (d.stateDir ++ ["keys".toList]))

/-- Source: `vault_key.rs`, `load_vault_key_from_env` -/
def loadVaultKeyFromEnv (env : Env) : Except E2eeError (Option VaultKey) :=
  match env.vaultPassphrase.filter fun p => p ≠ [] with
  | none => .ok none
  | some passphrase => do
    let saltHex ← env.vaultSalt.elim (.error (.keyDerivation .saltRequired)) .ok
    let salt ← decodeHex (.keyDerivation .saltHex) saltHex
    let key ← deriveFromPassphrase deps (OsPath.utf8 passphrase) salt
    return some key

/-- Source: `vault_key.rs`, `parse_stored_key` -/
def parseStoredKey (blob : Text) : Except VaultKeyError VaultKey :=
  match deps.storedKey.read blob with
  | none => .error (.invalidRecord .parse)
  | some record =>
    if record.v ≠ 1 then .error (.invalidRecord (.version record.v))
    else
      match hexDecode (trim record.key) with
      | none => .error (.invalidRecord .keyHex)
      | some bytes => if h : bytes.length = 32 then .ok ⟨bytes, h⟩ else .error (.invalidRecord .keyLength)

/-- The salt of a stored record.
Source: `vault_key.rs`, `unlock_vault_key` -/
def parseStoredSalt (blob : Text) : Except VaultKeyError Bytes :=
  match deps.storedKey.read blob with
  | none => .error (.invalidRecord .parse)
  | some record =>
    if record.v ≠ 1 then .error (.invalidRecord (.version record.v))
    else decodeHex (.invalidRecord .saltHex) record.salt

/-- Source: `vault_key.rs`, `load_vault_key_from_keystore` -/
def loadVaultKeyFromKeystore (d : Device) : Cmd κ VaultKeyError (Option VaultKey) := do
  let label ← check ((e2eeKeystoreLabel d.nodeId).mapError .keyStore)
  let store ← openE2eeKeystore kr d
  match ← mapError .keyStore (store.load label) with
  | none => return none
  | some blob =>
    let key ← check (parseStoredKey deps blob)
    return some key

/-- Source: `vault_key.rs`, `resolve_vault_key` -/
def resolveVaultKey (env : Env) (d : Device) : Cmd κ VaultKeyError (Option VaultKey) := do
  match ← check ((loadVaultKeyFromEnv deps env).mapError .e2ee) with
  | some key => return some key
  | none => loadVaultKeyFromKeystore deps kr d

/-- A record of the version that is written. -/
def storedRecord (salt : Bytes) (key : VaultKey) : StoredE2eeKey := ⟨1, Text.hex salt, Text.hex key.toList⟩

/-- The salt to unlock with: the given one, that of the stored record, or a fresh one.
Source: `vault_key.rs`, `unlock_vault_key` -/
def unlockSalt (store : KeyStore κ) (label : Text) (saltOverride : Option Bytes) (fresh : Salt) :
    Cmd κ VaultKeyError Bytes :=
  match saltOverride with
  | some s => check (if s.length < 8 then .error (.e2ee .saltTooShort) else .ok s)
  | none => do
    match ← mapError .keyStore (store.load label) with
    | some existing => check (parseStoredSalt deps existing)
    | none => return fresh.toList

/-- Source: `vault_key.rs`, `unlock_vault_key` -/
def unlockVaultKey (passphrase : Bytes) (d : Device) (saltOverride : Option Bytes) (fresh : Salt) :
    Cmd κ VaultKeyError Unit := do
  check (if passphrase = [] then .error .emptyPassphrase else .ok ())
  let label ← check ((e2eeKeystoreLabel d.nodeId).mapError .keyStore)
  let store ← openE2eeKeystore kr d
  let salt ← unlockSalt deps store label saltOverride fresh
  let key ← check ((deriveFromPassphrase deps passphrase salt).mapError .e2ee)
  mapError .keyStore (store.store label (storedRecord salt key).toJson)

/-- Source: `vault_key.rs`, `import_vault_key` -/
def importVaultKey (key : VaultKey) (d : Device) (salt : Salt) : Cmd κ VaultKeyError Unit := do
  let label ← check ((e2eeKeystoreLabel d.nodeId).mapError .keyStore)
  let store ← openE2eeKeystore kr d
  mapError .keyStore (store.store label (storedRecord salt.toList key).toJson)

/-- Source: `vault_key.rs`, `lock_vault_key` -/
def lockVaultKey (d : Device) : Cmd κ VaultKeyError Bool := do
  let label ← check ((e2eeKeystoreLabel d.nodeId).mapError .keyStore)
  let store ← openE2eeKeystore kr d
  let entry ← mapError .keyStore (store.load label)
  mapError .keyStore (store.delete label)
  return entry.isSome

/-- Source: `vault_key.rs`, `VaultLockState` -/
inductive VaultLockState
  | locked
  | unlocked
  deriving DecidableEq

/-- Source: `vault_key.rs`, `vault_key_status` -/
def vaultKeyStatus (d : Device) : Cmd κ VaultKeyError VaultLockState := do
  let label ← check ((e2eeKeystoreLabel d.nodeId).mapError .keyStore)
  let store ← openE2eeKeystore kr d
  let entry ← mapError .keyStore (store.load label)
  return if entry.isSome then .unlocked else .locked

/-! ## Commands -/

/-- Errors of `disk vault`. -/
inductive CliError
  | passphraseEmpty
  | saltHex
  | vault (e : VaultKeyError)
  | verify (e : VaultKeyError)
  | keyNotLoadable
  | notUnlocked
  | e2ee (e : E2eeError)
  deriving DecidableEq

/-- Where a passphrase is read from: a flag, a line of standard input, or a terminal. -/
inductive PassphraseInput
  | flag (p : Text)
  | line (l : Text)
  | tty (p : Text)

def PassphraseInput.text : PassphraseInput → Text
  | .flag p => p
  | .line l => trimEndMatches (fun c => c = '\r' || c = '\n') l
  | .tty p => p

/-- Source: `vault.rs`, `read_passphrase` -/
def readPassphrase (input : PassphraseInput) : Except CliError Text :=
  if input.text = [] then .error .passphraseEmpty else .ok input.text

/-- Source: `vault.rs`, `run_unlock` -/
def runUnlock (d : Device) (env : Env) (input : PassphraseInput) (saltHex : Option Text) (fresh : Salt) :
    Cmd κ CliError Unit := do
  let passphrase ← check (readPassphrase input)
  let salt ← check (saltHex.elim (.ok none) fun t => (decodeHex .saltHex t).map some)
  mapError .vault (unlockVaultKey deps kr (OsPath.utf8 passphrase) d salt fresh)
  match ← mapError .verify (resolveVaultKey deps kr env d) with
  | none => check (.error .keyNotLoadable)
  | some _ => return ()

/-- Source: `vault.rs`, `run_lock` -/
def runLock (d : Device) : Cmd κ CliError Unit := do
  let _ ← mapError .vault (lockVaultKey kr d)

/-- Source: `vault.rs`, `run_escrow_create` -/
def runEscrowCreate (d : Device) (env : Env) (input : PassphraseInput) (salt : Salt) (nonce : Nonce) :
    Cmd κ CliError Unit := do
  match ← mapError .vault (resolveVaultKey deps kr env d) with
  | none => check (.error .notUnlocked)
  | some key =>
    let recovery ← check (readPassphrase input)
    let blob ← check ((createEscrow deps key (OsPath.utf8 recovery) salt nonce).mapError .e2ee)
    mapError .e2ee (writeEscrowFile (escrowPath d) blob)

/-- Source: `vault.rs`, `run_escrow_recover` -/
def runEscrowRecover (d : Device) (escrowFile : Option FilePath) (input : PassphraseInput) (fresh : Salt) :
    Cmd κ CliError Unit := do
  let blob ← mapError .e2ee (readEscrowFile deps (escrowFile.getD (escrowPath d)))
  let recovery ← check (readPassphrase input)
  let key ← check ((recoverFromEscrow deps blob (OsPath.utf8 recovery)).mapError .e2ee)
  mapError .vault (importVaultKey kr key d fresh)

/-- The commands of `disk vault` that change files, with what the system draws for them. -/
inductive VaultCommand
  | unlock (input : PassphraseInput) (saltHex : Option Text) (fresh : Salt)
  | lock
  | escrowCreate (input : PassphraseInput) (salt : Salt) (nonce : Nonce)
  | escrowRecover (escrowFile : Option FilePath) (input : PassphraseInput) (fresh : Salt)

/-- Source: `vault.rs` -/
def VaultCommand.prog (d : Device) (env : Env) : VaultCommand → Cmd κ CliError Unit
  | .unlock input saltHex fresh => runUnlock deps kr d env input saltHex fresh
  | .lock => runLock kr d
  | .escrowCreate input salt nonce => runEscrowCreate deps kr d env input salt nonce
  | .escrowRecover escrowFile input fresh => runEscrowRecover deps kr d escrowFile input fresh

/-- What happens to the key files and the escrow files. -/
inductive KeyEvent
  | command (d : Device) (env : Env) (c : VaultCommand) (faults : List Fault)
  | carry (src dst : Device)
  | chmod (p : FilePath) (mode : ℕ)

/-- The operator puts the escrow file of a device in the place of that of another. -/
def carry (m : Machine κ) (src dst : Device) : Machine κ :=
  match m.files (escrowPath src) with
  | none => m
  | some f => m.put (escrowPath dst) f

def keyStep (m : Machine κ) : KeyEvent → Machine κ
  | .command d env c faults => (c.prog deps kr d env m faults).2.1
  | .carry src dst => carry m src dst
  | .chmod p mode => m.chmod p mode

/-- What a command answers. -/
def answer (m : Machine κ) : KeyEvent → Option (Except CliError Unit)
  | .command d env c faults => some (c.prog deps kr d env m faults).1
  | _ => none

end

end DiskArcana.Keys
