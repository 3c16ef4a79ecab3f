import DiskArcana.Lib.Table
import DiskArcana.Lib.Transactions
import DiskArcana.Personal.Native

/-!
# The SQLite backend of the personal disk

Four tables: the captures with their tombstones, the attempts to stage a part, the objects with their bodies,
and the owner journal. A part is staged in two transactions with the attempt `prepared` between them; a
capture is cleaned by a tombstone and then, in a transaction of its own, by removing all its bodies.
The transactions are functions of the tables, and `stageContext`, `readContext`, `tombstoneContext` and
`cleanupContext` are programs over a session. Queries that follow each other without a write between them
are one read.
-/

namespace DiskArcana.Personal

open DiskArcana.Lib DiskArcana.Lib.Transactions DiskArcana.Accounts

instance : Refusals Refusal where
  pending := .pending
  unavailable := .unavailable

/-! ## Tables -/

structure Capture where
  descriptor : Text
  cancelled : Option Text
  deriving DecidableEq

inductive AttemptState
  | prepared | committed
  deriving DecidableEq, Repr

structure Attempt where
  lease : Text
  proposal : Text
  state : AttemptState
  deriving DecidableEq

structure Object where
  capture : Text
  receipt : Text
  body : Option Bytes
  outcome : Text
  deriving DecidableEq

structure JournalRow where
  ownerReceipt : Text
  lease : Text
  sequence : Text
  resource : Text
  outcome : Text
  deriving DecidableEq

/-- `captures` by identity, `attempts` and `objects` by resource. -/
structure Tables where
  captures : Table Text Capture
  attempts : Table Text Attempt
  objects : Table Text Object
  ownerJournal : List JournalRow
  deriving DecidableEq

def Tables.empty : Tables := ⟨∅, ∅, ∅, []⟩

/-- `SELECT … FROM owner_journal WHERE resource=?1` -/
def Tables.journalOf (t : Tables) (resource : Text) : List JournalRow :=
  t.ownerJournal.filter fun row => row.resource = resource

/-! ## Contexts -/

inductive OriginalDisposition
  | fencedNoCommit | existingOrUnknown
  deriving DecidableEq, Repr

structure NativeCommitContext where
  lease : Id
  proposal : Outcome
  original : OriginalEffect
  resource : Text
  descriptor : Text
  disposition : OriginalDisposition

namespace NativeCommitContext

/-- Source: `parent_backend.rs`, `from_control_readback` -/
def fromControlReadback (lease : Id) (proposal : Outcome) (original : OriginalEffect) (r : Request)
    (disposition : OriginalDisposition) : Except Refusal NativeCommitContext :=
  if proposal.matchesOriginalEffect original then
    .ok ⟨lease, proposal, original, r.resourceIdentity, r.descriptorIdentity, disposition⟩
  else .error .conflict

/-- Source: `parent_backend.rs`, `NativeCommitContext::matches` -/
def matchesRequest (e : NativeCommitContext) (r : Request) : Except Refusal Unit :=
  if e.resource = r.resourceIdentity ∧ e.descriptor = r.descriptorIdentity ∧
      e.proposal.matchesOriginalEffect e.original then .ok ()
  else .error .notAvailable

end NativeCommitContext

inductive Observation (R O : Type)
  | unseen
  | prepared
  | durable (receipt : R) (outcome : O)
  | cleanupPending
  | cancelledCleaned (outcome : O)
  | corrupt
  | unknown
  deriving DecidableEq

def require (b : Bool) (e : Refusal) : Except Refusal Unit := if b then .ok () else .error e

variable (deps : Deps)

/-! ## Reads -/

/-- The `cancelled` column of the capture, if there is one with this descriptor.
Source: `parent_backend.rs`, `capture` -/
def capture (r : Request) (t : Tables) : Except Refusal (Option (Option Text)) :=
  match t.captures.lookup r.captureId with
  | none => .ok none
  | some c => if c.descriptor = r.descriptorIdentity then .ok (some c.cancelled) else .error .conflict

/-- The observation of a capture with a tombstone. -/
def observeCancelled (e : NativeCommitContext) (r : Request) (t : Tables) (cancelled : Text) :
    Except Refusal (Observation Unit Outcome) :=
  match t.journalOf r.resourceIdentity with
  | [] => .ok .cleanupPending
  | [row] => do
      let outcome ← Outcome.parse deps (utf8 row.outcome)
      match outcome with
      | .cleaned _ =>
          if !outcome.matchesOriginalEffect e.original || !r.acceptsOperation .cleanupCancelled then
            .error .conflict
          else do
            let cancellation ← CancelledResource.parse deps (utf8 cancelled) r
            cancellation.verifyCleaned r outcome
            .ok (.cancelledCleaned outcome)
      | .stored _ =>
          .ok (if r.acceptsOperation .cleanupCancelled then .corrupt else .cleanupPending)
  | _ => .ok .corrupt

/-- The observation of an object that is there. -/
def observeObject (e : NativeCommitContext) (r : Request) (t : Tables) (a : Attempt) (o : Object) :
    Except Refusal (Observation Unit Outcome) := do
  let outcome ← Outcome.parse deps (utf8 o.outcome)
  let _ ← outcome.receipt r
  require (outcome.matchesOriginalEffect e.original && outcome.matchesOperation .stage) .conflict
  if (t.journalOf r.resourceIdentity).map (fun row => (row.outcome, row.ownerReceipt, row.sequence)) ≠
        [(o.outcome, outcome.ownerReceiptId, Json.nat outcome.localSequence)] ∨
      a.proposal ≠ o.outcome then
    .ok .corrupt
  else .ok (.durable () outcome)

/-- The observation of a capture without a tombstone. -/
def observeAttempt (e : NativeCommitContext) (r : Request) (t : Tables) :
    Except Refusal (Observation Unit Outcome) :=
  match t.attempts.lookup r.resourceIdentity, t.objects.lookup r.resourceIdentity with
  | some ⟨_, _, .prepared⟩, none =>
      .ok (if (t.journalOf r.resourceIdentity).isEmpty then .prepared else .corrupt)
  | some ⟨_, _, .prepared⟩, some _ => .ok .corrupt
  | some ⟨lease, proposal, .committed⟩, some o => observeObject deps e r t ⟨lease, proposal, .committed⟩ o
  | none, some _ => .ok .corrupt
  | some ⟨_, _, .committed⟩, none => .ok .corrupt
  | none, none =>
      .ok (if !(t.journalOf r.resourceIdentity).isEmpty then .corrupt
        else match e.disposition with
          | .fencedNoCommit => .unseen
          | .existingOrUnknown => .unknown)

/-- Source: `parent_backend.rs`, `observe_context` -/
def observe (e : NativeCommitContext) (r : Request) (t : Tables) :
    Except Refusal (Observation Unit Outcome) := do
  match ← capture r t with
  | some (some cancelled) => observeCancelled deps e r t cancelled
  | _ => observeAttempt deps e r t

/-- The body of a committed object, after all checks.
Source: `parent_backend.rs`, `read_context`, after `observe_context` -/
def readBody (r : Request) (max : ℕ) (t : Tables) : Except Refusal Bytes := do
  let expected ← r.selectedSize
  require (max = expected) .notAvailable
  let cancelled ← capture r t
  require (cancelled = some none) .notAvailable
  let receipt ← r.selectedReceiptJson
  match t.objects.lookup r.resourceIdentity, t.attempts.lookup r.resourceIdentity with
  | some ⟨_, stored, some bytes, outcome⟩, some a =>
      if bytes.length = max ∧ stored = receipt ∧ a.state = .committed then do
        let outcome ← Outcome.parse deps (utf8 outcome)
        let _ ← outcome.receipt r
        r.verifyBody deps bytes
        .ok bytes
      else .error .notAvailable
  | _, _ => .error .notAvailable

def readExact (e : NativeCommitContext) (r : Request) (max : ℕ) (t : Tables) : Except Refusal Bytes := do
  match ← observe deps e r t with
  | .durable _ _ => readBody deps r max t
  | _ => .error .notAvailable

/-- The outcome of a cleanup that has been journaled before, if there is one.
Source: `parent_backend.rs`, `cleanup_context`, before its transaction -/
def cleanedBefore (e : NativeCommitContext) (r : Request) (c : CancelledResource) (t : Tables) :
    Except Refusal (Option Outcome) := do
  let cancelled ← capture r t
  require (cancelled = some (some c.toJson)) .notAvailable
  match t.journalOf r.resourceIdentity with
  | [] => .ok none
  | [row] => do
      let outcome ← Outcome.parse deps (utf8 row.outcome)
      c.verifyCleaned r outcome
      require (outcome.matchesOriginalEffect e.original) .conflict
      .ok (some outcome)
  | _ => .error .unavailable

/-! ## Transactions -/

/-- `INSERT INTO captures … ON CONFLICT(id) DO NOTHING` -/
def insertCapture (r : Request) (cancelled : Option Text) (t : Tables) : Tables :=
  match t.captures.lookup r.captureId with
  | none => { t with captures := t.captures.insert r.captureId ⟨r.descriptorIdentity, cancelled⟩ }
  | some _ => t

def insertAttempt (e : NativeCommitContext) (r : Request) (t : Tables) :
    Except (Stop Refusal) Tables :=
  if (t.attempts.lookup r.resourceIdentity).isSome ∨
      ∃ row ∈ t.attempts.entries, row.2.lease = e.lease.1 then
    .error .violation
  else
    .ok { t with attempts :=
      t.attempts.insert r.resourceIdentity ⟨e.lease, e.proposal.registrationJson, .prepared⟩ }

def insertObject (r : Request) (o : Object) (t : Tables) : Except (Stop Refusal) Tables :=
  if (t.objects.lookup r.resourceIdentity).isSome then .error .violation
  else .ok { t with objects := t.objects.insert r.resourceIdentity o }

def maxJournal : ℕ := 128

/-- The row that an effect adds to the journal. -/
def journalRow (e : NativeCommitContext) (r : Request) : JournalRow where
  ownerReceipt := e.proposal.ownerReceiptId
  lease := e.lease
  sequence := Json.nat e.proposal.localSequence
  resource := r.resourceIdentity
  outcome := e.proposal.registrationJson

/-- Two rows that a constraint keeps apart. -/
def JournalRow.Clashes (a b : JournalRow) : Prop :=
  a.ownerReceipt = b.ownerReceipt ∨ a.lease = b.lease ∨ a.sequence = b.sequence

instance (a b : JournalRow) : Decidable (a.Clashes b) := by
  unfold JournalRow.Clashes
  infer_instance

/-- Source: `parent_backend.rs`, `journal` -/
def journal (e : NativeCommitContext) (r : Request) (t : Tables) : Except (Stop Refusal) Tables :=
  if maxJournal ≤ t.ownerJournal.length then .error (.refused .backpressure)
  else if ∃ row ∈ t.ownerJournal, row.Clashes (journalRow e r) then .error .violation
  else .ok { t with ownerJournal := t.ownerJournal ++ [journalRow e r] }

/-- `UPDATE attempts SET state='committed' WHERE resource=?1 AND lease=?2 AND state='prepared'` -/
def commitAttempt (e : NativeCommitContext) (r : Request) (t : Tables) : Tables :=
  match t.attempts.lookup r.resourceIdentity with
  | some ⟨lease, proposal, .prepared⟩ =>
      if lease = e.lease.1 then
        { t with attempts := t.attempts.insert r.resourceIdentity ⟨lease, proposal, .committed⟩ }
      else t
  | _ => t

/-- The tables of a capture without a tombstone. -/
def requireOpen (r : Request) (t : Tables) : Except (Stop Refusal) Unit :=
  match capture r t with
  | .ok (some none) => .ok ()
  | .ok _ => .error (.refused .conflict)
  | .error x => .error (.refused x)

/-- The first transaction of `stage_context`. -/
def prepare (e : NativeCommitContext) (r : Request) (t : Tables) : Except (Stop Refusal) Tables := do
  let t := insertCapture r none t
  requireOpen r t
  insertAttempt e r t

/-- The second transaction of `stage_context`. -/
def commit (e : NativeCommitContext) (r : Request) (receipt : Text) (bytes : Bytes) (t : Tables) :
    Except (Stop Refusal) Tables := do
  requireOpen r t
  let t ← insertObject r ⟨r.captureId, receipt, some bytes, e.proposal.registrationJson⟩ t
  let t ← journal e r t
  .ok (commitAttempt e r t)

/-- An attempt of the capture that is not known to have ended. -/
def Unfinished (r : Request) (t : Tables) : Prop :=
  (∃ row ∈ t.objects.entries, row.2.capture = r.captureId ∧
    ∃ a ∈ t.attempts.lookup row.1, a.state = .prepared) ∨
  ∃ resource ∈ r.partResourceIdentities, ∃ a ∈ t.attempts.lookup resource, a.state ≠ .committed

instance (r : Request) (t : Tables) : Decidable (Unfinished r t) := by
  unfold Unfinished
  infer_instance

/-- The transaction of `tombstone_context`. -/
def tombstone (r : Request) (c : CancelledResource) (t : Tables) : Except (Stop Refusal) Tables :=
  if Unfinished r t then .error (.refused .pending)
  else
    let t := insertCapture r (some c.toJson) t
    match capture r t with
    | .error x => .error (.refused x)
    | .ok none => .error (.refused .conflict)
    | .ok (some none) =>
        .ok { t with captures := t.captures.insert r.captureId ⟨r.descriptorIdentity, some c.toJson⟩ }
    | .ok (some (some cancelled)) =>
        if cancelled = c.toJson then .ok t else .error (.refused .conflict)

/-- `UPDATE objects SET body=NULL WHERE resource=?1 AND capture=?2` -/
def removeBody (captureId : Text) (objects : Table Text Object) (resource : Text) : Table Text Object :=
  match objects.lookup resource with
  | some o => if o.capture = captureId then objects.insert resource { o with body := none } else objects
  | none => objects

/-- The transaction of `cleanup_context`. -/
def clean (e : NativeCommitContext) (r : Request) (t : Tables) : Except (Stop Refusal) Tables :=
  let t := { t with objects := r.partResourceIdentities.foldl (removeBody r.captureId) t.objects }
  if ∃ row ∈ t.objects.entries, row.2.capture = r.captureId ∧ row.2.body.isSome then
    .error (.refused .conflict)
  else journal e r t

/-! ## Calls -/

/-- What `stage_context` checks before it looks at the tables. -/
def stageChecks (e : NativeCommitContext) (r : Request) (bytes : Bytes) : Except Refusal Unit := do
  e.matchesRequest r
  r.verifyBody deps bytes
  let _ ← e.proposal.receipt r
  require (e.proposal.matchesOperation .stage) .conflict

/-- What `tombstone_context` and `cleanup_context` check before they look at the tables. -/
def cancelChecks (e : NativeCommitContext) (r : Request) (objects : List ObjectKey)
    (c : CancelledResource) : Except Refusal Unit := do
  e.matchesRequest r
  let keys ← c.objects r
  require (keys = objects) .notAvailable
  c.verifyCleaned r e.proposal

def observeContext (e : NativeCommitContext) (r : Request) :
    Sql Tables Refusal (Observation Unit Outcome) := do
  check (e.matchesRequest r)
  reading (observe deps e r)

def readContext (e : NativeCommitContext) (r : Request) (max : ℕ) : Sql Tables Refusal Bytes := do
  check (e.matchesRequest r)
  reading (readExact deps e r max)

/-- A transaction that writes the last rows of an effect: without a definite answer the outcome is not
known. -/
def settle (e : NativeCommitContext) (body : Tables → Except (Stop Refusal) Tables) :
    Sql Tables Refusal (Option Outcome) := do
  match ← attempt (transaction body) with
  | .ok () => pure (some e.proposal)
  | .error .pending => pure none
  | .error .unavailable => pure none
  | .error x => check (.error x)

/-- The branch of `stage_context` for a resource without any rows. -/
def stageUnseen (e : NativeCommitContext) (r : Request) (bytes : Bytes) :
    Sql Tables Refusal (Option Outcome) := do
  transaction (prepare e r)
  let receipt ← check r.selectedReceiptJson
  settle e (commit e r receipt bytes)

/-- Source: `parent_backend.rs`, `stage_context` -/
def stageContext (e : NativeCommitContext) (r : Request) (bytes : Bytes) :
    Sql Tables Refusal (Option Outcome) := do
  check (stageChecks deps e r bytes)
  match ← reading (observe deps e r) with
  | .durable _ outcome => do
      let size ← check r.selectedSize
      let _ ← readContext deps e r size
      pure (some outcome)
  | .unseen => stageUnseen e r bytes
  | .prepared => check (.error .pending)
  | .unknown => check (.error .pending)
  | _ => check (.error .conflict)

/-- Source: `parent_backend.rs`, `tombstone_context` -/
def tombstoneContext (e : NativeCommitContext) (r : Request) (objects : List ObjectKey)
    (c : CancelledResource) : Sql Tables Refusal Unit := do
  check (cancelChecks e r objects c)
  transaction (tombstone r c)

/-- Source: `parent_backend.rs`, `cleanup_context` -/
def cleanupContext (e : NativeCommitContext) (r : Request) (objects : List ObjectKey)
    (c : CancelledResource) : Sql Tables Refusal (Option Outcome) := do
  check (cancelChecks e r objects c)
  match ← reading (cleanedBefore deps e r c) with
  | some outcome => pure (some outcome)
  | none => settle e (clean e r)

inductive Call
  | stage (e : NativeCommitContext) (r : Request) (bytes : Bytes)
  | observe (e : NativeCommitContext) (r : Request)
  | read (e : NativeCommitContext) (r : Request) (max : ℕ)
  | tombstone (e : NativeCommitContext) (r : Request) (objects : List ObjectKey) (c : CancelledResource)
  | cleanup (e : NativeCommitContext) (r : Request) (objects : List ObjectKey) (c : CancelledResource)

/-- The session after a call. -/
def exec : Call → Session Tables → Session Tables
  | .stage e r bytes, s => (stageContext deps e r bytes s).2
  | .observe e r, s => (observeContext deps e r s).2
  | .read e r max, s => (readContext deps e r max s).2
  | .tombstone e r objects c, s => (tombstoneContext e r objects c s).2
  | .cleanup e r objects c, s => (cleanupContext deps e r objects c s).2

/-- A backend on the empty schema. -/
def fresh : Session Tables := ⟨.empty, false, []⟩

end DiskArcana.Personal
