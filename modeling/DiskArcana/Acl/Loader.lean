import DiskArcana.Core.Types
import DiskArcana.Server.Exchange

/-!
# Loading the access list

The pipeline of `acl/loader.rs`: read the file, verify its signature, parse it, compare its version
with the last one accepted, build the enforcement table. The parser is the third-party YAML reader
and stays a parameter; what the disk and the signature check answer is the input of an attempt
(`Attempt`), since both may change between two readings of one file.

`parse_fingerprint` cuts a string of 64 bytes into slices of two. A slice that would cut a character
panics, and a panic ends the reload task, so `loadFromYaml` has two ways to fail (`LoadFailure`).
-/

namespace DiskArcana.Acl

open DiskArcana.Core DiskArcana.Lib DiskArcana.Server

/-- SHA-256 of a client certificate.
Source: `acl/mod.rs`, `CertFingerprint` -/
abbrev CertFingerprint := Digest

/-- Source: `acl/mod.rs`, `EnforcedRole::parse` -/
def parseRole (s : String) : Option EnforcedRole :=
  if s = "bidirectional" then some .bidirectional
  else if s = "receive_only" then some .receiveOnly
  else if s = "send_only" then some .sendOnly
  else if s = "publisher" then some .publisher
  else none

/-! ## Tables -/

/-- The roles by certificate and share, with the version of the file they come from.
Source: `acl/mod.rs`, `EnforcementTable` -/
structure EnforcementTable where
  version : ℕ
  entries : Table (CertFingerprint × String) EnforcedRole

namespace EnforcementTable

/-- Source: `acl/mod.rs`, `EnforcementTable::new` -/
def new (version : ℕ) : EnforcementTable := ⟨version, ∅⟩

/-- Source: `acl/mod.rs`, `EnforcementTable::insert` -/
def insert (t : EnforcementTable) (certFp : CertFingerprint) (share : String)
    (role : EnforcedRole) : EnforcementTable :=
  { t with entries := t.entries.insert (certFp, share) role }

/-- Source: `acl/mod.rs`, `EnforcementTable::lookup` -/
def lookup (t : EnforcementTable) (certFp : CertFingerprint) (share : String) :
    Option EnforcedRole :=
  t.entries.lookup (certFp, share)

/-- Source: `acl/mod.rs`, `EnforcementTable::len` -/
def len (t : EnforcementTable) : ℕ := t.entries.entries.length

@[simp] theorem new_version (version : ℕ) : (new version).version = version := rfl

@[simp] theorem insert_version (t : EnforcementTable) (certFp : CertFingerprint) (share : String)
    (role : EnforcedRole) : (t.insert certFp share role).version = t.version := rfl

/-- Two tables of one version that give every caller the same role: the table has not changed. -/
def Same (t u : EnforcementTable) : Prop :=
  t.version = u.version ∧ ∀ certFp share, t.lookup certFp share = u.lookup certFp share

theorem Same.rfl {t : EnforcementTable} : t.Same t := ⟨Eq.refl _, fun _ _ => Eq.refl _⟩

end EnforcementTable

/-! ## The file -/

/-- One node of the file. The shares are in key order.
Source: `acl/loader.rs`, `AclNodeEntry` -/
structure AclNodeEntry where
  certFingerprint : String
  enabled : Bool
  shares : List (String × String)
  deriving DecidableEq

/-- Source: `acl/loader.rs`, `AclYamlFile` -/
structure AclYamlFile where
  version : ℕ
  signedBy : String
  nodes : List AclNodeEntry
  deriving DecidableEq

/-- Why a load fails.
Source: `acl/loader.rs`, `AclLoadError` -/
inductive AclLoadError where
  | io (notFound : Bool) (message : String)
  | fileMissing (path : String)
  | parse (message : String)
  | signatureFailed (message : String)
  | signerRevoked (message : String)
  | versionRegress (stored attempted : ℕ)
  | badFingerprint (index : ℕ) (detail : String)
  | badRole (index : ℕ) (share role : String)
  deriving DecidableEq

/-- Why the access list is unhealthy.
Source: `acl/mod.rs`, `UnhealthyReason` -/
inductive UnhealthyReason where
  | neverLoaded
  | parseError (message : String)
  | signatureFailed (message : String)
  | versionRegress (stored attempted : ℕ)
  | fileMissing
  | signerRevoked
  deriving DecidableEq

/-- Source: `acl/loader.rs`, `AclLoadError::into_unhealthy_reason` -/
def AclLoadError.intoUnhealthyReason : AclLoadError → UnhealthyReason
  | .io true _ => .fileMissing
  | .fileMissing _ => .fileMissing
  | .io false message => .parseError s!"io: {message}"
  | .parse message => .parseError message
  | .signatureFailed message => .signatureFailed message
  | .signerRevoked _ => .signerRevoked
  | .versionRegress stored attempted => .versionRegress stored attempted
  | .badFingerprint index detail => .parseError s!"node[{index}].cert_fingerprint: {detail}"
  | .badRole index share role =>
      .parseError s!"node[{index}].shares[{share}]: invalid role `{role}`"

/-- A load ends with an error, or with a panic that ends the task it runs in. -/
inductive LoadFailure where
  | error (e : AclLoadError)
  | panic
  deriving DecidableEq

/-- What one reload finds: the answer of the disk, and that of the signature verifier, which reads
a detached signature and a keyring of its own. -/
structure Attempt where
  /-- `true` in the error: the file does not exist. -/
  read : Except (Bool × String) Bytes
  verify : Bytes → Except AclLoadError Unit

/-- Source: `acl/loader.rs`, `LoadOutcome` -/
structure LoadOutcome where
  table : EnforcementTable
  newVersion : ℕ
  signedBy : String

/-! ## Fingerprints -/

/-- The value of a hexadecimal digit. -/
def hexDigit (b : UInt8) : Option UInt8 :=
  if 48 ≤ b ∧ b ≤ 57 then some (b - 48)
  else if 97 ≤ b ∧ b ≤ 102 then some (b - 87)
  else if 65 ≤ b ∧ b ≤ 70 then some (b - 55)
  else none

/-- `u8::from_str_radix(s, 16)` on a string of two bytes: two digits, or a plus sign and one. -/
def fromStrRadix16 (a b : UInt8) : Option UInt8 :=
  if a = 43 then hexDigit b
  else do
    let high ← hexDigit a
    let low ← hexDigit b
    return 16 * high + low

/-- `str::is_char_boundary`: the end of the string, or a byte that does not continue a character. -/
def isCharBoundary (bytes : Bytes) (i : ℕ) : Bool :=
  match bytes.drop i with
  | [] => i == bytes.length
  | b :: _ => b &&& 0xC0 != 0x80

/-- One byte of a fingerprint.
Source: `acl/loader.rs`, `parse_fingerprint` -/
def parseFingerprintByte (index : ℕ) (hexPart : Bytes) (i : Fin 32) : Except LoadFailure UInt8 :=
  if isCharBoundary hexPart (i * 2) && isCharBoundary hexPart (i * 2 + 2) then
    match fromStrRadix16 (hexPart.getD (i * 2) 0) (hexPart.getD (i * 2 + 1) 0) with
    | some byte => .ok byte
    | none =>
        let offset := i.val * 2
        .error (.error (.badFingerprint index s!"non-hex char near offset {offset}"))
  else
    .error .panic

/-- Source: `acl/loader.rs`, `parse_fingerprint` -/
def parseFingerprint (index : ℕ) (raw : String) : Except LoadFailure CertFingerprint :=
  let marker := "sha256:".toList
  let hexChars := if marker.isPrefixOf raw.toList then raw.toList.drop marker.length else raw.toList
  let hexPart := hexChars.flatMap String.utf8EncodeChar
  let count := hexPart.length
  if count ≠ 64 then
    .error (.error (.badFingerprint index s!"expected 64 hex chars, got {count}"))
  else
    (List.Vector.ofFn fun i : Fin 32 => i).mmap (parseFingerprintByte index hexPart)

/-! ## The pipeline -/

/-- Enter the shares of one node.
Source: `acl/loader.rs`, `load_from_yaml` -/
def insertShares (index : ℕ) (certFp : CertFingerprint) (table : EnforcementTable) :
    List (String × String) → Except LoadFailure EnforcementTable
  | [] => .ok table
  | (share, roleStr) :: shares =>
      match parseRole roleStr with
      | none => .error (.error (.badRole index share roleStr))
      | some role => insertShares index certFp (table.insert certFp share role) shares

/-- Enter the nodes of the file, skipping those that are not enabled.
Source: `acl/loader.rs`, `load_from_yaml` -/
def insertNodes (table : EnforcementTable) :
    ℕ → List AclNodeEntry → Except LoadFailure EnforcementTable
  | _, [] => .ok table
  | index, node :: nodes =>
      if node.enabled then
        match parseFingerprint index node.certFingerprint with
        | .error e => .error e
        | .ok certFp =>
            match insertShares index certFp table node.shares with
            | .error e => .error e
            | .ok table => insertNodes table (index + 1) nodes
      else
        insertNodes table (index + 1) nodes

/-- The table of a file. -/
def buildTable (file : AclYamlFile) : Except LoadFailure EnforcementTable :=
  insertNodes (.new file.version) 0 file.nodes

section Pipeline

variable (parse : Bytes → Except String AclYamlFile) (path : String)

/-- Source: `acl/loader.rs`, `load_from_yaml` -/
def loadFromYaml (storedVersion : ℕ) (a : Attempt) : Except LoadFailure LoadOutcome :=
  match a.read with
  | .error (true, _) => .error (.error (.fileMissing path))
  | .error (false, message) => .error (.error (.io false message))
  | .ok bytes =>
      match a.verify bytes with
      | .error e => .error (.error e)
      | .ok () =>
          match parse bytes with
          | .error message => .error (.error (.parse message))
          | .ok file =>
              if file.version ≤ storedVersion ∧ 0 < storedVersion then
                .error (.error (.versionRegress storedVersion file.version))
              else
                match buildTable file with
                | .error e => .error e
                | .ok table => .ok ⟨table, file.version, file.signedBy⟩

/-- The attempt finds a file that passes its signature check and denotes a table. -/
def Verified (a : Attempt) (t : EnforcementTable) : Prop :=
  ∃ bytes file, a.read = .ok bytes ∧ a.verify bytes = .ok () ∧ parse bytes = .ok file ∧
    buildTable file = .ok t

variable {parse path} {a : Attempt} {t : EnforcementTable}

theorem insertShares_version {index : ℕ} {certFp : CertFingerprint} {shares : List (String × String)}
    {table : EnforcementTable} (h : insertShares index certFp table shares = .ok t) :
    t.version = table.version := by
  induction shares generalizing table with
  | nil =>
      cases h
      rfl
  | cons entry shares ih =>
      obtain ⟨share, roleStr⟩ := entry
      rw [insertShares] at h
      split at h
      · exact nomatch h
      · simpa using ih h

theorem insertNodes_version {table : EnforcementTable} {index : ℕ} {nodes : List AclNodeEntry}
    (h : insertNodes table index nodes = .ok t) : t.version = table.version := by
  induction nodes generalizing table index with
  | nil =>
      cases h
      rfl
  | cons node nodes ih =>
      rw [insertNodes] at h
      split at h
      · split at h
        · exact nomatch h
        · split at h
          · exact nomatch h
          · rename_i certFp _ table' hshares
            rw [ih h, insertShares_version hshares]
      · exact ih h

theorem buildTable_version {file : AclYamlFile} (h : buildTable file = .ok t) :
    t.version = file.version :=
  insertNodes_version h

/-- A load that succeeds read a verified file that does not fall back to a version already stored. -/
theorem of_loadFromYaml {storedVersion : ℕ} {out : LoadOutcome}
    (h : loadFromYaml parse path storedVersion a = .ok out) :
    Verified parse a out.table ∧ out.newVersion = out.table.version ∧
      (storedVersion = 0 ∨ storedVersion < out.table.version) := by
  rw [loadFromYaml] at h
  split at h
  · exact nomatch h
  · exact nomatch h
  · rename_i bytes hread
    split at h
    · exact nomatch h
    · rename_i hverify
      split at h
      · exact nomatch h
      · rename_i file hparse
        split at h
        · exact nomatch h
        · rename_i hversion
          split at h
          · exact nomatch h
          · rename_i table hbuild
            cases h
            have hv : table.version = file.version := buildTable_version hbuild
            refine ⟨⟨bytes, file, hread, hverify, hparse, hbuild⟩, hv.symm, ?_⟩
            show storedVersion = 0 ∨ storedVersion < table.version
            omega

/-- A verified file of a version above the one stored is loaded. -/
theorem loadFromYaml_of_verified (path : String) {storedVersion : ℕ} (h : Verified parse a t)
    (hversion : storedVersion = 0 ∨ storedVersion < t.version) :
    ∃ out, loadFromYaml parse path storedVersion a = .ok out ∧ out.table = t := by
  obtain ⟨bytes, file, hread, hverify, hparse, hbuild⟩ := h
  rw [buildTable_version hbuild] at hversion
  refine ⟨⟨t, file.version, file.signedBy⟩, ?_, rfl⟩
  have hfresh : ¬ (file.version ≤ storedVersion ∧ 0 < storedVersion) := by omega
  simp only [loadFromYaml, hread, hverify, hparse, hbuild, if_neg hfresh]

/-- A verified file of a version that is not above the one stored is refused as a regress. -/
theorem loadFromYaml_of_verified_regress (path : String) {storedVersion : ℕ}
    (h : Verified parse a t) (hpos : 0 < storedVersion) (hle : t.version ≤ storedVersion) :
    loadFromYaml parse path storedVersion a =
      .error (.error (.versionRegress storedVersion t.version)) := by
  obtain ⟨bytes, file, hread, hverify, hparse, hbuild⟩ := h
  rw [buildTable_version hbuild] at hle ⊢
  simp only [loadFromYaml, hread, hverify, hparse, if_pos (And.intro hle hpos)]

end Pipeline

end DiskArcana.Acl
