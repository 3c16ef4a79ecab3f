import DiskArcana.Acl.Loader

/-!
# Verifying a publisher's signature

The verifier of `publisher/mod.rs` over the two tables it keeps: a cache of public keys and, for each
certificate and share, the highest counter that was accepted. Ed25519 and the key store are
parameters; what the clock and the database answer in the course of one call is its environment
(`VerifyEnv`).

The check of the counter and its update are two statements (`fetchMax`, `advance`), with nothing that
holds the row in between. `checkAndAdvanceCounter` is one after the other.
-/

namespace DiskArcana.Publisher

open DiskArcana.Core DiskArcana.Lib DiskArcana.Acl

/-- What is published.
Source: `publisher/mod.rs`, `FileMetadata` -/
structure PublishedFile where
  path : String
  blake3 : Digest
  deriving DecidableEq

/-- Source: `publisher/mod.rs`, `PublisherSignatureProof` -/
structure PublisherSignatureProof where
  ed25519Signature : Bytes
  vaultKeyRef : String
  signedAtUnixMs : Int64
  counter : UInt64
  deriving DecidableEq

/-- Source: `publisher/mod.rs`, `VerifyError` -/
inductive VerifyError where
  | keyFetchFailed (message : String)
  | signatureMismatch
  | replayDetected (incoming stored : UInt64)
  | db (message : String)
  | invalidPublicKey (message : String)
  deriving DecidableEq

/-- The text of an error.
Source: `publisher/mod.rs`, `VerifyError` -/
def VerifyError.toText : VerifyError → String
  | .keyFetchFailed message => s!"could not fetch public key from Vault: {message}"
  | .signatureMismatch => "Ed25519 signature verification failed"
  | .replayDetected incoming stored =>
      s!"publisher replay detected: incoming counter {incoming} <= stored {stored}"
  | .db message => s!"database error: {message}"
  | .invalidPublicKey message => s!"invalid public key format: {message}"

/-! ## The signed payload -/

/-- `u64::to_le_bytes` -/
def toLeBytes (n : UInt64) : Bytes :=
  (List.range 8).map fun i => (n >>> (8 * i).toUInt64).toUInt8

/-- The bytes that the publisher signed.
Source: `publisher/mod.rs`, `build_signed_payload` -/
def buildSignedPayload (file : PublishedFile) (share : String) (signedAtUnixMs : Int64)
    (counter : UInt64) : Bytes :=
  file.blake3.toList ++ share.toUTF8.toList ++ [0] ++ file.path.toUTF8.toList ++ [0] ++
    toLeBytes signedAtUnixMs.toUInt64 ++ toLeBytes counter

/-! ## The tables -/

/-- A row of `publisher_keys`. -/
structure KeyRow where
  vaultKeyRef : String
  pubkeyEd25519 : Bytes
  fetchedAt : ℤ
  deriving DecidableEq

/-- A row of `publisher_counter`: the counter as SQLite stores it. -/
structure CounterRow where
  maxCounter : Int64
  updatedAt : ℤ
  deriving DecidableEq

/-- Whose counter: certificate and share. -/
abbrev CounterKey := CertFingerprint × String

/-- The tables of the verifier. -/
structure PublisherDb where
  keys : Table CertFingerprint KeyRow
  counters : Table CounterKey CounterRow

/-- What the environment answers in the course of one call. -/
structure VerifyEnv where
  nowMs : ℤ
  keyRead : Except String Unit
  /-- The answer of the key store. -/
  fetchPubkey : String → Except VerifyError Digest
  keyWriteOk : Bool
  counterRead : Except String Unit
  counterWrite : Except String Unit

/-- Source: `publisher/mod.rs`, `get_pubkey` -/
def getPubkey (db : PublisherDb) (env : VerifyEnv) (certFp : CertFingerprint) (keyRef : String) :
    Except VerifyError Digest × PublisherDb :=
  let fetch : Except VerifyError Digest × PublisherDb :=
    match env.fetchPubkey keyRef with
    | .error e => (.error e, db)
    | .ok key =>
        (.ok key,
          if env.keyWriteOk then
            { db with keys := db.keys.insert certFp ⟨keyRef, key.toList, env.nowMs⟩ }
          else db)
  match env.keyRead with
  | .error e => (.error (.db e), db)
  | .ok () =>
      match db.keys.lookup certFp with
      | none => fetch
      | some row =>
          if env.nowMs - row.fetchedAt < 24 * 3600 * 1000 then
            if h : row.pubkeyEd25519.length = 32 then (.ok ⟨row.pubkeyEd25519, h⟩, db)
            else (.error (.invalidPublicKey "cached key wrong length"), db)
          else fetch

/-! ## The counter -/

/-- The highest counter that was accepted; 0 when there is no row. -/
def storedCounter (counters : Table CounterKey CounterRow) (key : CounterKey) : UInt64 :=
  ((counters.lookup key).map fun row => row.maxCounter.toUInt64).getD 0

/-- The first half of `check_and_advance_counter`: read the highest counter and compare.
Source: `publisher/mod.rs`, `check_and_advance_counter` -/
def fetchMax (counters : Table CounterKey CounterRow) (answer : Except String Unit)
    (key : CounterKey) (counter : UInt64) : Except VerifyError Unit :=
  match answer with
  | .error e => .error (.db e)
  | .ok () =>
      if counter ≤ storedCounter counters key then
        .error (.replayDetected counter (storedCounter counters key))
      else .ok ()

/-- The second half: write the counter.
Source: `publisher/mod.rs`, `check_and_advance_counter` -/
def advance (counters : Table CounterKey CounterRow) (answer : Except String Unit) (nowMs : ℤ)
    (key : CounterKey) (counter : UInt64) :
    Except VerifyError Unit × Table CounterKey CounterRow :=
  match answer with
  | .error e => (.error (.db e), counters)
  | .ok () => (.ok (), counters.insert key ⟨counter.toInt64, nowMs⟩)

/-- Both halves, with nothing in between.
Source: `publisher/mod.rs`, `check_and_advance_counter` -/
def checkAndAdvanceCounter (db : PublisherDb) (env : VerifyEnv) (certFp : CertFingerprint)
    (share : String) (counter : UInt64) : Except VerifyError Unit × PublisherDb :=
  match fetchMax db.counters env.counterRead (certFp, share) counter with
  | .error e => (.error e, db)
  | .ok () =>
      let (answer, counters) :=
        advance db.counters env.counterWrite env.nowMs (certFp, share) counter
      (answer, { db with counters := counters })

/-- What was written is read back; the cast through a signed integer loses nothing. -/
theorem storedCounter_insert (counters : Table CounterKey CounterRow) (key key' : CounterKey)
    (counter : UInt64) (nowMs : ℤ) :
    storedCounter (counters.insert key ⟨counter.toInt64, nowMs⟩) key' =
      if key' = key then counter else storedCounter counters key' := by
  unfold storedCounter
  rw [Table.lookup_insert_eq_ite]
  split
  · simp
  · rfl

/-- A check passes exactly when the statement ran and the counter is above the stored one. -/
theorem fetchMax_eq_ok_iff {counters : Table CounterKey CounterRow} {answer : Except String Unit}
    {key : CounterKey} {counter : UInt64} :
    fetchMax counters answer key counter = .ok () ↔
      answer = .ok () ∧ storedCounter counters key < counter := by
  rcases answer with e | ⟨⟩
  · simp [fetchMax]
  · simp only [fetchMax, true_and]
    split
    · rename_i hle
      simp [UInt64.not_lt.mpr hle]
    · rename_i hlt
      simp [UInt64.not_le.mp hlt]

/-! ## The whole call -/

section Verify

-- why raw bytes are not a public key, and the Ed25519 verification
variable (keyError : Digest → Option String) (ed25519 : Digest → Bytes → Bytes → Bool)

/-- Source: `publisher/mod.rs`, `verify` -/
def verify (db : PublisherDb) (env : VerifyEnv) (proof : PublisherSignatureProof)
    (certFp : CertFingerprint) (share : String) (file : PublishedFile) :
    Except VerifyError Unit × PublisherDb :=
  match getPubkey db env certFp proof.vaultKeyRef with
  | (.error e, db) => (.error e, db)
  | (.ok key, db) =>
      match keyError key with
      | some message => (.error (.invalidPublicKey message), db)
      | none =>
          let payload := buildSignedPayload file share proof.signedAtUnixMs proof.counter
          if proof.ed25519Signature.length = 64 ∧
              ed25519 key payload proof.ed25519Signature = true then
            checkAndAdvanceCounter db env certFp share proof.counter
          else (.error .signatureMismatch, db)

end Verify

end DiskArcana.Publisher
