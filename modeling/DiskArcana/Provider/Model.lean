import Mathlib.Data.Char
import Mathlib.Data.List.Lex
import DiskArcana.Lib.Interrupted
import DiskArcana.Lib.SyncedTree
import DiskArcana.Personal.Descriptor

/-!
# The provider of object files

Objects are staged in three places: a row of the inventory is reserved, the bytes are written under a
staging name, synced, renamed into the directory of the object and the directories synced, and then the
row is committed with the next sequence number. A call can fail at each of its steps (`Fault`), and a
process that stops there leaves the same files and rows. A transaction of the inventory is on disk when
it has been committed.

The root directory is held by one process, and its entries are as the provider made them: the checks on
owners, modes, devices and inodes and on the schema of the inventory are part of the steps that can fail.
-/

namespace DiskArcana.Provider

open DiskArcana.Lib DiskArcana.Accounts
open DiskArcana.Personal (CaptureDescriptor identifier digest field maxCounter)
open DiskArcana.Lib.Interrupted (Fault Prog Triple check attempt observe change)

/-! ## Requests -/

def maxBlob : ℕ := 1048576

def maxRecords : ℕ := 128

def maxReservedBytes : ℕ := 64 * 1048576

/-- Source: `provider/types.rs`, `Error`; `io` and `ioNotFound` are its `Io` -/
inductive Error
  | invalidInput | unsafePath | conflict | notFound | unresolvedPrepared | poisoned | poisonUncertain
  | capacity | schema | injected (place : Text) | io | ioNotFound | sql | json
  deriving DecidableEq

inductive Kind
  | note | attachment
  deriving DecidableEq

def Kind.asText : Kind → Text
  | .note => "note".toList
  | .attachment => "attachment".toList

structure Request where
  operationId : Text
  attemptId : Text
  objectId : Text
  revisionId : Text
  kind : Kind
  expectedLen : ℕ
  sha256 : Text
  deriving DecidableEq

/-- What `sha2` computes, in hexadecimal digits, and what `serde_json::from_str` makes of a text. -/
structure Deps where
  sha256 : Bytes → Text
  requestFromStr : Text → Option Request

def nilId : Text := "00000000-0000-0000-0000-000000000000".toList

/-- Source: `provider/types.rs`, `valid_id`: what the parser of UUIDs takes and writes back unchanged -/
def validId (id : Text) : Bool := identifier id && id ≠ nilId

def Kind.limit : Kind → ℕ
  | .note => 65536
  | .attachment => maxBlob

namespace Request

variable (r : Request)

/-- Source: `provider/types.rs`, `Request::validate` -/
def valid : Bool :=
  [r.operationId, r.attemptId, r.objectId, r.revisionId].all validId && r.expectedLen ≤ r.kind.limit &&
    digest r.sha256

def validate : Except Error Unit := if r.valid then .ok () else .error .invalidInput

/-- Source: `provider/types.rs`, `Request::verifies` -/
def verifies (deps : Deps) (bytes : Bytes) : Bool :=
  bytes.length = r.expectedLen && deps.sha256 bytes = r.sha256 &&
    (r.kind ≠ .note || (fromUtf8 bytes).isSome)

/-- The request as `serde_json` writes it. -/
def toJson : Text :=
  Json.object [field "operation_id" (Json.string r.operationId),
    field "attempt_id" (Json.string r.attemptId), field "object_id" (Json.string r.objectId),
    field "revision_id" (Json.string r.revisionId), field "kind" (Json.string r.kind.asText),
    field "expected_len" (Json.nat r.expectedLen), field "sha256" (Json.string r.sha256)]

/-- Source: `provider/inventory.rs`, `commit_id` -/
def commitId (deps : Deps) : Text := "local-".toList ++ deps.sha256 (utf8 r.toJson)

end Request

/-- Source: `provider/types.rs`, `LocalCommit` -/
structure LocalCommit where
  localCommitId : Text
  sequence : ℕ
  request : Request
  deriving DecidableEq

/-- Source: `capture_binding.rs`, `CaptureDescriptor::allocation` -/
def allocation (d : CaptureDescriptor) (realm part : Text) (r : Request) : Except Error Unit := do
  r.validate
  match d.parts.find? fun p => p.2.partId.1 = part with
  | none => .error .invalidInput
  | some (role, p) =>
    if d.realmId.1 ≠ realm ∨ p.objectId.1 ≠ r.objectId ∨ p.objectRevision.1 ≠ r.revisionId ∨
        p.sizeBytes ≠ r.expectedLen ∨ p.sha256.1 ≠ r.sha256 ∨
        decide (role = .note) ≠ decide (r.kind = .note) then
      .error .conflict
    else .ok ()

/-! ## Files and tables -/

/-- The files under the root: the marker `POISON`, `staging/<attempt>.part` and
`objects/<object>/<revision>.blob`. -/
inductive BlobPath
  | poison
  | staging (attemptId : Text)
  | object (objectId revisionId : Text)
  deriving DecidableEq

/-- The directories that are made are those of objects. -/
def BlobPath.dirOf : BlobPath → Option Text
  | .object o _ => some o
  | _ => none

def Request.stagingPath (r : Request) : BlobPath := .staging r.attemptId

def Request.objectPath (r : Request) : BlobPath := .object r.objectId r.revisionId

inductive RowState
  | prepared | durable
  deriving DecidableEq

/-- A row of `attempts`. -/
structure AttemptRow where
  operationId : Text
  attemptId : Text
  objectId : Text
  revisionId : Text
  requestJson : Text
  expectedLen : ℕ
  state : RowState
  localCommitId : Option Text
  sequence : Option ℕ
  deriving DecidableEq

/-- A row of `capture_binding`. -/
structure CaptureRow where
  operationId : Text
  realmId : Text
  captureId : Text
  partId : Text
  cancellationGeneration : ℕ
  descriptorIdentity : Text
  deriving DecidableEq

/-- The profile of a root and the realm that it is bound to. -/
structure Profile where
  capture : Bool
  realm : Text

/-- What is under the root, with the inventory, and in memory whether a provider is open on it and whether
that provider has been poisoned. -/
structure State where
  tree : SyncedTree BlobPath Text
  attempts : List AttemptRow
  captures : List CaptureRow
  opened : Bool
  poisoned : Bool

/-- After `Provider::initialize_profile`. -/
def State.initial : State := ⟨.empty, [], [], false, false⟩

abbrev Run := Prog State Error

variable (deps : Deps) (profile : Profile)

def checkpoint (place : String) : Run Unit := observe (.injected place.toList) fun _ => .ok ()

/-! ## The root -/

/-- Source: `provider/fs.rs`, `Root::validate` -/
def validate : Run Unit := observe .unsafePath fun s =>
  if (s.tree.files.lookup .poison).isSome then .error .poisoned else .ok ()

/-- Source: `provider/mod.rs`, `Provider::available` -/
def available : Run Unit := do
  Interrupted.inspect fun s => if s.poisoned then .error .poisoned else .ok ()
  validate

/-- A change to the files under the root. -/
def onFiles (f : SyncedFiles BlobPath → SyncedFiles BlobPath) (s : State) : State :=
  { s with tree := { s.tree with files := f s.tree.files } }

/-- Source: `provider/fs.rs`, `open_relative` with `CREATE` and `EXCL` -/
def createNew (p : BlobPath) : Run Unit := change .io fun s =>
  if (s.tree.files.lookup p).isSome then .error .io
  else .ok ((), onFiles (SyncedFiles.create p) s)

/-- `write_all` of bytes that come after those written before. -/
def writeAll (p : BlobPath) (bytes : Bytes) : Run Unit :=
  Interrupted.step .io (fun n => onFiles (SyncedFiles.append p (bytes.take n)))
    fun s => .ok ((), onFiles (SyncedFiles.append p bytes) s)

/-- `sync_all` of a file. -/
def syncFile (p : BlobPath) : Run Unit := change .io fun s => .ok ((), onFiles (SyncedFiles.flush p) s)

/-- `sync_all` of a directory that holds these files. -/
def syncDir (holds : BlobPath → Bool) : Run Unit := change .io fun s =>
  .ok ((), onFiles (SyncedFiles.link holds) s)

def isPoison : BlobPath → Bool
  | .poison => true
  | _ => false

def isStaging : BlobPath → Bool
  | .staging _ => true
  | _ => false

def isIn (objectId : Text) : BlobPath → Bool
  | .object o _ => o = objectId
  | _ => false

/-- `sync_all` of the directory `objects`. -/
def syncObjects : Run Unit := change .io fun s => .ok ((), { s with tree := s.tree.linkDirs })

/-- Source: `provider/fs.rs`, `Root::poison` -/
def rootPoison : Run Unit := do
  createNew .poison
  writeAll .poison (utf8 "synthetic provider integrity failure\n".toList)
  syncFile .poison
  syncDir isPoison

/-- Source: `provider/mod.rs`, `Provider::poison` -/
def poison {α : Type} : Run α := do
  Interrupted.modify fun s => { s with poisoned := true }
  match ← attempt rootPoison with
  | .error _ => check (.error .poisonUncertain)
  | .ok _ => check (.error .poisoned)

/-- Source: `provider/fs.rs`, `Root::object_dir` without `create` -/
def openObjectDir (r : Request) : Run Unit := observe .io fun s =>
  if s.tree.hasDir r.objectId then .ok () else .error .ioNotFound

/-- Source: `provider/fs.rs`, `Root::object_dir` with `create` -/
def makeObjectDir (r : Request) : Run Unit := do
  let made ← change .io fun s =>
    if s.tree.hasDir r.objectId then .ok (false, s)
    else .ok (true, { s with tree := s.tree.makeDir r.objectId })
  if made then
    syncObjects
    openObjectDir r
  else openObjectDir r

/-- Source: `provider/fs.rs`, `Root::existing` -/
def «existing» (p : BlobPath) : Run Bool := observe .io fun s => .ok (s.tree.files.lookup p).isSome

/-- Source: `provider/fs.rs`, `Root::verified_bytes` -/
def verifiedBytes (p : BlobPath) (r : Request) : Run Bytes := observe .io fun s =>
  let bytes := (((s.tree.files.lookup p).map SyncedFile.bytes).getD []).take (maxBlob + 1)
  if r.verifies deps bytes then .ok bytes else .error .unresolvedPrepared

/-- Source: `provider/fs.rs`, `Root::publish` -/
def publish (r : Request) : Run Unit := change .io fun s =>
  match SyncedFiles.rename r.stagingPath r.objectPath s.tree.files with
  | none => .error .io
  | some files => .ok ((), { s with tree := { s.tree with files := files } })

/-- Source: `provider/fs.rs`, `Root::sync_publish_dirs` -/
def syncPublishDirs (r : Request) : Run Unit := do
  checkpoint "before_staging_directory_sync"
  syncDir isStaging
  checkpoint "before_destination_directory_sync"
  syncDir (isIn r.objectId)
  checkpoint "before_objects_directory_sync"
  syncObjects
  checkpoint "before_root_directory_sync"
  syncDir isPoison

/-! ## The inventory -/

structure Record where
  request : Request
  committed : Option LocalCommit
  deriving DecidableEq

/-- Source: `provider/inventory.rs`, the loop of `records` -/
def recordOf (row : AttemptRow) : Except Error Record :=
  if 2048 < row.requestJson.length then .error .schema
  else
    match deps.requestFromStr row.requestJson with
    | none => .error .json
    | some r => do
      r.validate
      if row.operationId ≠ r.operationId ∨ row.attemptId ≠ r.attemptId ∨ row.objectId ≠ r.objectId ∨
          row.revisionId ≠ r.revisionId ∨ row.expectedLen ≠ r.expectedLen then
        .error .schema
      else
        match row.state, row.localCommitId, row.sequence with
        | .prepared, none, none => .ok ⟨r, none⟩
        | .durable, some id, some sequence =>
            if 0 < sequence ∧ id = r.commitId deps then .ok ⟨r, some ⟨id, sequence, r⟩⟩
            else .error .schema
        | _, _, _ => .error .schema

def byOperation (a b : AttemptRow) : Bool := a.operationId ≤ b.operationId

/-- Source: `provider/inventory.rs`, `records` -/
def records : Run (List Record) := do
  let count ← observe .sql fun s => .ok s.attempts.length
  if maxRecords < count then check (.error .capacity)
  else
    let rows ← observe .sql fun s => .ok ((s.attempts.mergeSort byOperation).take (maxRecords + 1))
    check (rows.mapM (recordOf deps))

/-- Source: `provider/inventory.rs`, `verify_capture` -/
def verifyCapture (r : Request) (d : CaptureDescriptor) (part : Text) : Run Unit := observe .sql fun s =>
  match s.captures.find? fun c => c.operationId = r.operationId with
  | none => .error .conflict
  | some c =>
    if c.realmId ≠ d.realmId.1 ∨ c.captureId ≠ d.captureId.1 ∨ c.partId ≠ part ∨
        c.cancellationGeneration ≠ d.cancellationGeneration ∨ c.descriptorIdentity ≠ d.descriptorIdentity then
      .error .conflict
    else .ok ()

/-- The binding of an allocation, where it has one. -/
def verifyBound (r : Request) : Option (CaptureDescriptor × Text) → Run Unit
  | none => pure ()
  | some (d, part) => verifyCapture r d part

/-- The constraints of the table `attempts` on a new row that is prepared. -/
def acceptsRow (rows : List AttemptRow) (row : AttemptRow) : Bool :=
  row.requestJson.length ≤ 2048 && row.expectedLen ≤ 1048576 &&
    rows.all fun old => old.operationId ≠ row.operationId && old.attemptId ≠ row.attemptId &&
      !(old.objectId = row.objectId && old.revisionId = row.revisionId)

/-- The constraints of the table `capture_binding` on a new row. -/
def acceptsCapture (rows : List CaptureRow) (row : CaptureRow) : Bool :=
  row.cancellationGeneration ≤ maxCounter && 1 ≤ row.descriptorIdentity.length &&
    row.descriptorIdentity.length ≤ 798 &&
    rows.all fun old => old.operationId ≠ row.operationId &&
      !(old.realmId = row.realmId && old.captureId = row.captureId && old.partId = row.partId &&
        old.cancellationGeneration = row.cancellationGeneration)

def preparedRow (r : Request) : AttemptRow where
  operationId := r.operationId
  attemptId := r.attemptId
  objectId := r.objectId
  revisionId := r.revisionId
  requestJson := r.toJson
  expectedLen := r.expectedLen
  state := .prepared
  localCommitId := none
  sequence := none

def captureRow (r : Request) (d : CaptureDescriptor) (part : Text) : CaptureRow where
  operationId := r.operationId
  realmId := d.realmId
  captureId := d.captureId
  partId := part
  cancellationGeneration := d.cancellationGeneration
  descriptorIdentity := d.descriptorIdentity

/-- The transaction of `reserve`. -/
def insertAttempt (r : Request) (capture : Option (CaptureDescriptor × Text)) (s : State) :
    Except Error (Unit × State) :=
  if acceptsRow s.attempts (preparedRow r) then
    match capture with
    | none => .ok ((), { s with attempts := s.attempts ++ [preparedRow r] })
    | some (d, part) =>
      if acceptsCapture s.captures (captureRow r d part) then
        .ok ((), { s with attempts := s.attempts ++ [preparedRow r], captures := s.captures ++ [captureRow r d part] })
      else .error .sql
  else .error .sql

/-- The loop of `reserve`: what is decided by a record that is there. -/
def reserveAmong (r : Request) (capture : Option (CaptureDescriptor × Text)) :
    List Record → Run (Option (Option LocalCommit))
  | [] => pure none
  | record :: rest =>
    if record.request.operationId = r.operationId then
      if record.request ≠ r then check (.error .conflict)
      else do
        verifyBound r capture
        pure (some record.committed)
    else if record.request.attemptId = r.attemptId ∨
        record.request.objectId = r.objectId ∧ record.request.revisionId = r.revisionId then
      check (.error .conflict)
    else reserveAmong r capture rest

/-- Whether the attempt was there, and its commit.
Source: `provider/inventory.rs`, `reserve` -/
def reserve (r : Request) (capture : Option (CaptureDescriptor × Text)) :
    Run (Bool × Option LocalCommit) := do
  let rs ← records deps
  match ← reserveAmong r capture rs with
  | some commit => pure (true, commit)
  | none =>
    let reserved := (rs.map fun record => record.request.expectedLen).sum
    if maxRecords ≤ rs.length ∨ maxReservedBytes < reserved + r.expectedLen then check (.error .capacity)
    else
      change .sql (insertAttempt r capture)
      pure (false, none)

/-- `SELECT COALESCE(MAX(sequence), 0) + 1` -/
def nextSequence (rows : List AttemptRow) : ℕ := (rows.filterMap AttemptRow.sequence).foldl max 0 + 1

/-- The row is the one that `commit` updates. -/
def isReserved (r : Request) (row : AttemptRow) : Bool :=
  row.operationId = r.operationId && row.state = .prepared && row.requestJson = r.toJson

def commitRow (r : Request) (sequence : ℕ) (row : AttemptRow) : AttemptRow :=
  if isReserved r row then
    { row with state := .durable, localCommitId := some (r.commitId deps), sequence := some sequence }
  else row

/-- No two rows have one value of a unique column. -/
def uniqueColumns (rows : List AttemptRow) : Bool :=
  (rows.filterMap AttemptRow.localCommitId).Nodup && (rows.filterMap AttemptRow.sequence).Nodup

/-- Source: `provider/inventory.rs`, `commit` -/
def commit (r : Request) : Run LocalCommit := change .sql fun s =>
  let sequence := nextSequence s.attempts
  let rows := s.attempts.map (commitRow deps r sequence)
  if !uniqueColumns rows then .error .sql
  else if s.attempts.countP (isReserved r) ≠ 1 then .error .conflict
  else .ok (⟨r.commitId deps, sequence, r⟩, { s with attempts := rows })

/-! ## Calls -/

/-- Source: `provider/mod.rs`, `Provider::durable_bytes` -/
def durableBytes (r : Request) : Run Bytes := do
  openObjectDir r
  if ← «existing» r.objectPath then verifiedBytes deps r.objectPath r
  else check (.error .notFound)

/-- The loop of `consistency`. -/
def consistencyOf : List Record → Run Unit
  | [] => pure ()
  | record :: rest => do
    if record.committed.isSome then
      match ← attempt (durableBytes deps record.request) with
      | .error _ => poison
      | .ok _ => consistencyOf rest
    else consistencyOf rest

/-- Source: `provider/mod.rs`, `Provider::consistency` -/
def consistency : Run Unit := do
  available
  match ← attempt (records deps) with
  | .error _ => poison
  | .ok rs => consistencyOf deps rs

/-- Source: `provider/mod.rs`, `Provider::reject_unattributed_files` -/
def rejectUnattributedFiles (r : Request) : Run Unit := do
  if ← «existing» r.stagingPath then check (.error .conflict)
  else
    match ← attempt (openObjectDir r) with
    | .ok _ => if ← «existing» r.objectPath then check (.error .conflict) else pure ()
    | .error .ioNotFound => pure ()
    | .error e => check (.error e)

/-- Files without a record are refused. -/
def rejectUnlessKnown (r : Request) (prior : List Record) : Run Unit :=
  if prior.all fun record => record.request.operationId ≠ r.operationId then rejectUnattributedFiles r
  else pure ()

/-- Source: `provider/mod.rs`, `Provider::prepare_file`; what is behind the first 4096 bytes is written in
chunks -/
def prepareFile (r : Request) (bytes : Bytes) (wasReserved : Bool) : Run Unit := do
  if ← «existing» r.stagingPath then
    if wasReserved then
      let _ ← verifiedBytes deps r.stagingPath r
      checkpoint "before_file_sync"
      syncFile r.stagingPath
      checkpoint "after_file_sync"
    else check (.error .conflict)
  else
    createNew r.stagingPath
    checkpoint "after_create"
    checkpoint "before_write"
    writeAll r.stagingPath (bytes.take 4096)
    checkpoint "after_partial_write"
    writeAll r.stagingPath (bytes.drop 4096)
    checkpoint "after_write"
    checkpoint "before_file_sync"
    syncFile r.stagingPath
    checkpoint "after_file_sync"

/-- From the reservation to the rename: the file is under its final name. -/
def placeFile (r : Request) (bytes : Bytes) (wasReserved : Bool) : Run Unit := do
  makeObjectDir r
  if ← «existing» r.objectPath then
    if wasReserved then
      let _ ← verifiedBytes deps r.objectPath r
      checkpoint "before_file_sync"
      syncFile r.objectPath
    else check (.error .conflict)
  else
    prepareFile deps r bytes wasReserved
    checkpoint "before_rename"
    publish r
    checkpoint "after_rename"

/-- What `stage_internal` does after the reservation. -/
def complete (r : Request) (bytes : Bytes) (wasReserved : Bool) : Run LocalCommit := do
  checkpoint "after_prepare"
  placeFile deps r bytes wasReserved
  checkpoint "before_directory_sync"
  syncPublishDirs r
  checkpoint "after_directory_sync"
  available
  checkpoint "before_commit"
  let done ← commit deps r
  checkpoint "after_commit"
  pure done

/-- A commit that is there is the answer. -/
def completeUnless (r : Request) (bytes : Bytes) : Bool × Option LocalCommit → Run LocalCommit
  | (_, some done) => pure done
  | (wasReserved, none) => complete deps r bytes wasReserved

/-- Source: `provider/mod.rs`, `Provider::stage_internal` -/
def stageInternal (r : Request) (bytes : Bytes) (capture : Option (CaptureDescriptor × Text)) :
    Run LocalCommit := do
  available
  check r.validate
  if !r.verifies deps bytes then check (.error .invalidInput)
  else
    consistency deps
    let prior ← records deps
    rejectUnlessKnown r prior
    checkpoint "before_prepare"
    let reserved ← reserve deps r capture
    completeUnless deps r bytes reserved

/-- Source: `provider/mod.rs`, `Provider::stage` -/
def stage (r : Request) (bytes : Bytes) : Run LocalCommit :=
  if profile.capture then check (.error .conflict) else stageInternal deps r bytes none

/-- Source: `provider/mod.rs`, `Provider::stage_capture` -/
def stageCapture (d : CaptureDescriptor) (part : Text) (r : Request) (bytes : Bytes) : Run LocalCommit :=
  if profile.capture then do
    check (allocation d profile.realm part r)
    if (fromUtf8 bytes).isNone then check (.error .invalidInput)
    else stageInternal deps r bytes (some (d, part))
  else check (.error .conflict)

/-- What is read by the record of the operation. -/
def readRecord (r : Request) : Option Record → Run Bytes
  | none => check (.error .notFound)
  | some record =>
    if record.request ≠ r then check (.error .conflict)
    else if record.committed.isNone then check (.error .unresolvedPrepared)
    else do
      match ← attempt (durableBytes deps r) with
      | .ok bytes => pure bytes
      | .error _ => poison

/-- Source: `provider/mod.rs`, `Provider::read_internal` -/
def readInternal (r : Request) : Run Bytes := do
  available
  check r.validate
  consistency deps
  let rs ← records deps
  readRecord deps r (rs.find? fun record => record.request.operationId = r.operationId)

/-- Source: `provider/mod.rs`, `Provider::read` -/
def read (r : Request) : Run Bytes :=
  if profile.capture then check (.error .conflict) else readInternal deps r

/-- Source: `provider/mod.rs`, `Provider::read_capture` -/
def readCapture (d : CaptureDescriptor) (part : Text) (r : Request) : Run Bytes :=
  if profile.capture then do
    check (allocation d profile.realm part r)
    verifyCapture r d part
    readInternal deps r
  else check (.error .conflict)

/-- Source: `provider/types.rs`, `Inspection`, without the settings of SQLite -/
structure Inspection where
  prepared : ℕ
  durable : List LocalCommit
  deriving DecidableEq

/-- Source: `provider/mod.rs`, `Provider::inspect` -/
def inspect : Run Inspection := do
  consistency deps
  let rs ← records deps
  pure ⟨rs.countP fun record => record.committed.isNone, rs.filterMap Record.committed⟩

/-- Every attempt has a binding of the realm, and every binding an attempt.
Source: `provider/inventory.rs`, `verify_binding` -/
def bindingsAgree (s : State) : Bool :=
  (s.attempts.all fun a => s.captures.any fun c =>
      c.operationId = a.operationId && c.realmId = profile.realm) &&
    s.captures.all fun c => s.attempts.any fun a => a.operationId = c.operationId

def verifyBinding : Run Unit := observe .sql fun s =>
  if profile.capture && !bindingsAgree profile s then .error .schema else .ok ()

/-- Source: `provider/mod.rs`, `Provider::open_profile` -/
def openProfile : Run Unit := do
  validate
  verifyBinding profile
  consistency deps

/-! ## Runs -/

inductive Call
  | stage (r : Request) (bytes : Bytes)
  | stageCapture (d : CaptureDescriptor) (part : Text) (r : Request) (bytes : Bytes)
  | read (r : Request)
  | readCapture (d : CaptureDescriptor) (part : Text) (r : Request)
  | inspect

inductive Answer
  | staged (done : LocalCommit)
  | bytes (bytes : Bytes)
  | inspected (i : Inspection)
  deriving DecidableEq

/-- The request that a call reads. -/
def Call.reads : Call → Option Request
  | .read r => some r
  | .readCapture _ _ r => some r
  | _ => none

/-- The request that a call stages. -/
def Call.staged : Call → Option (Request × Bytes)
  | .stage r bytes => some (r, bytes)
  | .stageCapture _ _ r bytes => some (r, bytes)
  | _ => none

def exec : Call → Run Answer
  | .stage r bytes => Answer.staged <$> stage deps profile r bytes
  | .stageCapture d part r bytes => Answer.staged <$> stageCapture deps profile d part r bytes
  | .read r => Answer.bytes <$> read deps profile r
  | .readCapture d part r => Answer.bytes <$> readCapture deps profile d part r
  | .inspect => Answer.inspected <$> inspect deps

/-- The request is read back as it was written. -/
def RoundTrips (r : Request) : Prop := deps.requestFromStr r.toJson = some r

/-- Opening makes a new provider, and there is none when it fails. -/
def opening (faults : List Fault) (s : State) : State :=
  let run := openProfile deps profile { s with poisoned := false } faults
  { run.2.1 with opened := run.1.toOption.isSome }

/-- A call of an open provider, with what fails in it; the provider is opened, or closed, also by the end
of the process; or the power is lost. -/
inductive Step : State → State → Prop
  | call {s : State} (c : Call) (faults : List Fault) (hopened : s.opened = true)
      (hround : ∀ r bytes, c.staged = some (r, bytes) → RoundTrips deps r) :
      Step s (exec deps profile c s faults).2.1
  | opens {s : State} (faults : List Fault) : Step s (opening deps profile faults s)
  | closes {s : State} : Step s { s with opened := false }
  | powerLoss {s : State} (tree : SyncedTree BlobPath Text) (hloss : s.tree.PowerLoss BlobPath.dirOf tree) :
      Step s { s with tree := tree, opened := false }

/-- The states that runs lead to. -/
def Reachable (s : State) : Prop := Relation.ReflTransGen (Step deps profile) .initial s

end DiskArcana.Provider
