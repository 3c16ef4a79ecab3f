import Mathlib.Logic.Relation
import DiskArcana.Lib.SyncedFiles
import DiskArcana.Personal.Native

/-!
# The owner journal in a directory

One file for each outcome, named by its effect lease: written under a `.pending` name, synced, renamed to its
`.json` name, and the directory synced. Every call scans the whole directory, in whatever order it is
listed. A call can stop with an error at any of its steps (`Stop`); a process that stops there leaves the
same directory. The directory is held without its lock file, and the lock is free at every call.
-/

namespace DiskArcana.Personal

open DiskArcana.Lib DiskArcana.Accounts

/-- Source: `parent_journal.rs`, `JournalError` -/
inductive JournalError
  | unsafeDirectory | unsafeEntry | corrupt | conflict | capacity | pending | io
  deriving DecidableEq, Repr

inductive RecordResult
  | recorded | existing
  deriving DecidableEq, Repr

structure LocalRecord where
  schemaVersion : Text
  effectLeaseId : Id
  outcome : Outcome
  deriving DecidableEq

namespace Journal

def maxRecord : ℕ := 16384

def maxRecords : ℕ := 128

def schema : Text := "disk-local-owner-journal/1-source".toList

/-- The bytes of a record. -/
def encode (lease : Id) (outcome : Outcome) : Bytes :=
  utf8 (Json.object [field "schema_version" (Json.string schema),
    field "effect_lease_id" (Json.string lease), field "outcome" outcome.registrationJson])

def pendingSuffix : Text := ".pending".toList

def jsonSuffix : Text := ".json".toList

def pendingName (lease : Id) : Text := lease.1 ++ pendingSuffix

def finalName (lease : Id) : Text := lease.1 ++ jsonSuffix

/-- The name without a suffix, where it has it. -/
def stripSuffix (suffix name : Text) : Option Text :=
  if suffix.isSuffixOf name then some (name.take (name.length - suffix.length)) else none

abbrev Dir := SyncedFiles Text

/-- A name of the directory with its file. -/
abbrev DirEntry := Sigma fun _ : Text => SyncedFile Text

/-- What goes wrong in a call: a check, the lock or a read, or one of the steps of the append. `write n`
has written `n` bytes before it. -/
inductive Stop
  | read | create | write (n : ℕ) | sync | rename | link
  deriving DecidableEq

/-! ## Scans -/

structure Scanned where
  name : Text
  bytes : Bytes
  record : LocalRecord
  deriving DecidableEq

-- `serde_json::from_slice` at a record.
variable (recordFromSlice : Bytes → Option LocalRecord)

def read (f : SyncedFile Text) : Except JournalError Bytes :=
  if maxRecord < f.bytes.length then .error .capacity else .ok f.bytes

/-- One round of the loop of `scan`, with the records so far. -/
def scanEntry (seen : List Scanned) (e : DirEntry) : Except JournalError Scanned :=
  if pendingSuffix.isSuffixOf e.1 then .error .pending
  else
    match stripSuffix jsonSuffix e.1 with
    | none => .error .unsafeEntry
    | some stem =>
      if hid : identifier stem = true then
        if maxRecords ≤ seen.length then .error .capacity
        else do
          let bytes ← read e.2
          match recordFromSlice bytes with
          | none => .error .corrupt
          | some record =>
            if record.schemaVersion ≠ schema ∨ record.effectLeaseId ≠ ⟨stem, hid⟩ ∨
                (∃ s ∈ seen, s.record.outcome.ownerReceiptId = record.outcome.ownerReceiptId) ∨
                ∃ s ∈ seen, s.record.outcome.localSequence = record.outcome.localSequence then
              .error .corrupt
            else .ok ⟨e.1, bytes, record⟩
      else .error .unsafeEntry

def scanEntries (seen : List Scanned) : List DirEntry → Except JournalError (List Scanned)
  | [] => .ok seen
  | e :: rest => do
      let s ← scanEntry recordFromSlice seen e
      scanEntries (seen ++ [s]) rest

def bySequence (a b : Scanned) : Bool :=
  a.record.outcome.localSequence ≤ b.record.outcome.localSequence

/-- Source: `parent_journal.rs`, `Journal::scan`, over the directory as it is listed -/
def scan (listing : List DirEntry) : Except JournalError (List Scanned) := do
  let records ← scanEntries recordFromSlice [] listing
  .ok (records.mergeSort bySequence)

/-! ## Calls -/

/-- Source: `parent_journal.rs`, `Journal::inspect` -/
def inspect (listing : List DirEntry) (stop : Option Stop) : Except JournalError (List LocalRecord) :=
  if stop = some .read then .error .io
  else do
    let records ← scan recordFromSlice listing
    .ok (records.map Scanned.record)

/-- The loop of `record` over the records in order: what is decided by a record that is there. -/
def settled (lease : Id) (outcome : Outcome) (bytes : Bytes) :
    List Scanned → Option (Except JournalError RecordResult)
  | [] => none
  | s :: rest =>
    if s.record.effectLeaseId = lease then
      some (if s.bytes = bytes then .ok .existing else .error .conflict)
    else if s.record.outcome.ownerReceiptId = outcome.ownerReceiptId ∨
        s.record.outcome.localSequence = outcome.localSequence then
      some (.error .conflict)
    else settled lease outcome bytes rest

/-- The append, after all checks. -/
def appendRecord (lease : Id) (bytes : Bytes) (stop : Option Stop) (d : Dir) :
    Except JournalError RecordResult × Dir :=
  if (d.lookup (pendingName lease)).isSome ∨ stop = some .create then (.error .io, d)
  else
    let created := SyncedFiles.create (pendingName lease) d
    match stop with
    | some (.write n) => (.error .io, SyncedFiles.append (pendingName lease) (bytes.take n) created)
    | _ =>
      let written := SyncedFiles.append (pendingName lease) bytes created
      if stop = some .sync then (.error .io, written)
      else
        let flushed := SyncedFiles.flush (pendingName lease) written
        if stop = some .rename then (.error .io, flushed)
        else
          match SyncedFiles.rename (pendingName lease) (finalName lease) flushed with
          | none => (.error .io, flushed)
          | some renamed =>
            if stop = some .link then (.error .io, renamed)
            else (.ok .recorded, SyncedFiles.link (fun _ => true) renamed)

/-- Source: `parent_journal.rs`, `Journal::record` -/
def record (lease : Id) (outcome : Outcome) (expected : OriginalEffect) (listing : List DirEntry)
    (stop : Option Stop) (d : Dir) : Except JournalError RecordResult × Dir :=
  if !outcome.matchesOriginalEffect expected then (.error .conflict, d)
  else if maxRecord < (encode lease outcome).length then (.error .capacity, d)
  else if stop = some .read then (.error .io, d)
  else
    match scan recordFromSlice listing with
    | .error e => (.error e, d)
    | .ok records =>
      match settled lease outcome (encode lease outcome) records with
      | some answer => (answer, d)
      | none =>
        if maxRecords ≤ records.length then (.error .capacity, d)
        else appendRecord lease (encode lease outcome) stop d

/-! ## Runs -/

/-- The record of a lease and an outcome is read back as it was written. -/
def RoundTrips (lease : Id) (outcome : Outcome) : Prop :=
  recordFromSlice (encode lease outcome) = some ⟨schema, lease, outcome⟩

/-- A call of `record`, whatever it answers. Calls of `inspect` do not change the directory. -/
inductive Calls : Dir → Dir → Prop
  | record {d : Dir} (lease : Id) (outcome : Outcome) (expected : OriginalEffect)
      (listing : List DirEntry) (stop : Option Stop) (hlisting : listing.Perm d.entries)
      (hround : RoundTrips recordFromSlice lease outcome) :
      Calls d (record recordFromSlice lease outcome expected listing stop d).2

/-- A call, or the power is lost. -/
def Step (d d' : Dir) : Prop := Calls recordFromSlice d d' ∨ SyncedFiles.PowerLoss d d'

/-- The directories that runs lead to. -/
def Reachable (d : Dir) : Prop := Relation.ReflTransGen (Step recordFromSlice) ∅ d

end Journal

end DiskArcana.Personal
