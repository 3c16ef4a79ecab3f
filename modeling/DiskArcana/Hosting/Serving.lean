import DiskArcana.Hosting.Effects
import DiskArcana.ShareIndex.Watch

/-!
# Uploads in progress and the share index on one file system

`deltaUpload` is one step of a host, with its temporary files kept apart. Here an upload takes as many
steps as its handler has points at which others can run, and its spool is what it is on disk: a file
`.tmp-<random>` in the root of the share, which the watcher reports, the index resolves and a request can
name. Blobs, quarantined uploads and spools are files among the others, and requests, index events and
full reconciliations come in any order (`serveStep`).

Which files are spools is known by their place and the upload that made them. A rename puts another file
into a place; what is appended to a spool whose name is gone is no longer seen by anybody.
-/

namespace DiskArcana.Hosting

open DiskArcana.Core DiskArcana.Lib DiskArcana.Lib.DirTree DiskArcana.Lib.LexicalPath
open DiskArcana.Server DiskArcana.ShareIndex

/-! ## The state -/

/-- How far an upload has come. -/
inductive UploadStage where
  /-- The stream is being read; first come the chunks left of the message at hand. -/
  | receiving (pending : List DeltaChunk)
  /-- The stream is at its end and the spool is synced. -/
  | received
  /-- Publisher and quota let the upload pass. -/
  | cleared
  /-- These bytes are in place; the row is missing. -/
  | placed (target : List String) (bytes : Bytes)

/-- An upload in progress. -/
structure OpenUpload where
  /-- The request, with the messages that have not been read. -/
  request : UploadRequest
  stage : UploadStage
  announced : Option Announced
  /-- The path of the spool, and what has been appended to it.
  Source: `services/sync.rs`, `UploadSpool` -/
  spool : Option (List String × Bytes)

/-- The bytes received. -/
def OpenUpload.bytes (u : OpenUpload) : Bytes := (u.spool.map Prod.snd).getD []

/-- The state of the server with what is in progress. -/
structure Serving where
  host : Host
  /-- The spools on disk, with the number of the upload that made them. -/
  spools : Table (List String) ℕ
  uploads : Table ℕ OpenUpload
  nextUpload : ℕ
  /-- The events on their way to the index loop, with their share. -/
  queue : List (String × IndexEvent)
  /-- Where bytes of a rejected publisher lie. -/
  rejected : List (List String)

namespace Serving

/-- A server that has just been set up. -/
def empty : Serving where
  host := .empty
  spools := ∅
  uploads := ∅
  nextUpload := 0
  queue := []
  rejected := []

/-- The handler returns. -/
def close (s : Serving) (id : ℕ) : Serving := { s with uploads := s.uploads.erase id }

/-- The handler goes on. -/
def keep (s : Serving) (id : ℕ) (u : OpenUpload) : Serving :=
  { s with uploads := s.uploads.insert id u }

/-- The state with other files and tables. -/
def withHost (s : Serving) (h : Host) : Serving := { s with host := h }

/-- Create an empty file for an upload. -/
def createSpool (s : Serving) (id : ℕ) (loc : List String) : Serving :=
  { s with host := s.host.write loc [], spools := s.spools.insert loc id }

/-- What is appended to a spool is seen under its name as long as the name is that of the spool. -/
def fill (s : Serving) (id : ℕ) (loc : List String) (bytes : Bytes) : Serving :=
  if s.spools.lookup loc = some id then s.withHost (s.host.write loc bytes) else s

/-- Remove the file at a path. -/
def removeFile (s : Serving) (loc : List String) : Serving :=
  { s with host := { s.host with files := s.host.files.erase loc }, spools := s.spools.erase loc }

/-- Rename a file with these bytes. -/
def renameFile (s : Serving) (loc target : List String) (bytes : Bytes) : Serving :=
  { s.removeFile loc with
    host := (s.removeFile loc).host.write target bytes
    spools := (s.removeFile loc).spools.erase target }

/-- An upload is given up before its stream is at its end: dropping the spool removes its file. An
upload whose hash is wrong removes it, too.
Source: `services/sync.rs`, `UploadSpool::drop` and `delta_upload` (content hash) -/
def abandon (s : Serving) (id : ℕ) (u : OpenUpload) : Serving :=
  match u.spool with
  | some (loc, _) => if u.request.removeOk then (s.removeFile loc).close id else s.close id
  | none => s.close id

end Serving

/-- The tree below a root. -/
def treeOf (h : Host) (root : List String) : Tree :=
  Listing.ofFiles (h.files.entries.filterMap fun e =>
    if root.isPrefixOf e.1 then some (e.1.drop root.length, e.2) else none)

/-! ## Uploads -/

section

variable (blake3 : Bytes → Digest) (cfg : HostConfig)

/-- Where a spool is created.
Source: `services/sync.rs`, `UploadSpool::create` -/
def spoolLoc (share : String) (random : ℕ) : List String :=
  cfg.rootFor share ++ [".tmp-" ++ toString random]

namespace Serving

/-- Append the bytes of a chunk.
Source: `services/sync.rs`, `UploadSpool::append` -/
def appendChunk (s : Serving) (id : ℕ) (u : OpenUpload) (loc : List String) (bytes data : Bytes)
    (pending : List DeltaChunk) : Serving :=
  if u.request.appendOk (bytes ++ data) then
    (s.fill id loc (bytes ++ data)).keep id
      { u with stage := .receiving pending, spool := some (loc, bytes ++ data) }
  else s.abandon id { u with spool := some (loc, bytes) }

/-- Receive a chunk; the first one creates the spool, under a name that no file has.
Source: `services/sync.rs`, `delta_upload` -/
def takeChunk (s : Serving) (id : ℕ) (u : OpenUpload) (random : ℕ) (chunk : DeltaChunk)
    (pending : List DeltaChunk) : Serving :=
  if !chunkOk blake3 chunk then s.abandon id u
  else match u.spool with
    | some (loc, bytes) => s.appendChunk id u loc bytes chunk.data pending
    | none =>
      let loc := spoolLoc cfg u.request.share random
      if !u.request.spoolOk || (s.host.files.lookup loc).isSome then s.close id
      else (s.createSpool id loc).appendChunk id u loc [] chunk.data pending

/-- Receive a message; the first one announces the path.
Source: `services/sync.rs`, `delta_upload` -/
def takeMessage (s : Serving) (id : ℕ) (u : OpenUpload) (msg : StreamMessage)
    (rest : List (Except String StreamMessage)) : Serving :=
  match (match u.announced with
    | some a => .ok a
    | none => announce cfg u.request msg : Except String Announced) with
  | .error _ => s.abandon id u
  | .ok a => s.keep id
      { u with
        request := { u.request with stream := rest }
        stage := .receiving msg.chunks
        announced := some a }

/-- The end of the stream. From here on the spool stays on disk.
Source: `services/sync.rs`, `UploadSpool::finalize` -/
def finalize (s : Serving) (id : ℕ) (u : OpenUpload) : Serving :=
  if u.spool.isNone || u.request.fsyncOk then s.keep id { u with stage := .received }
  else s.abandon id u

/-- The spool of an upload, if it is on disk under its name. -/
def ownSpool (s : Serving) (id : ℕ) (u : OpenUpload) : List (List String) :=
  (u.spool.map Prod.fst).toList.filter fun loc => decide (s.spools.lookup loc = some id)

/-- The publisher is rejected: the spool is copied into the quarantine, and stays where it is.
Source: `services/sync.rs`, `delta_upload` (publisher verification gate) -/
def quarantine (s : Serving) (id : ℕ) (u : OpenUpload) (a : Announced) : Serving :=
  let copied := match u.spool with
    | some (loc, _) => s.host.files.lookup loc
    | none => some []
  let s := { s with rejected := s.ownSpool id u ++ s.rejected }
  match copied, u.request.quarantineOk with
  | some bytes, true =>
    { s with
      host := s.host.write (quarantineLoc cfg u.request a.path) bytes
      rejected := quarantineLoc cfg u.request a.path :: s.rejected }
  | _, _ => s

/-- The gates between the stream and the commit. An upload that has announced nothing is done.
Source: `services/sync.rs`, `delta_upload` -/
def check (s : Serving) (id : ℕ) (u : OpenUpload) : Serving :=
  let expected := (u.announced.map Announced.contentHash).getD []
  if !expected.isEmpty && expected.length != 32 then s.close id
  else if !expected.isEmpty && expected != (blake3 u.bytes).toList then s.abandon id u
  else match u.announced with
    | none => s.close id
    | some a =>
      match u.request.publisher, u.request.quota with
      | .error _, _ => (s.quarantine cfg id u a).close id
      | .ok _, .error _ => s.close id
      | .ok _, .ok _ => s.keep id { u with stage := .cleared }

/-- Rename the received bytes into place.
Source: `services/sync.rs`, `delta_upload` (commit) -/
def moveInto (s : Serving) (id : ℕ) (u : OpenUpload) (loc target : List String) : Serving :=
  match s.host.files.lookup loc, u.request.renameOk with
  | some bytes, true => (s.renameFile loc target bytes).keep id
      { u with stage := .placed target u.bytes, spool := none }
  | _, _ => s.close id

/-- Archive the old bytes and put the new ones into place; an upload without chunks gets a staging file.
Source: `services/sync.rs`, `delta_upload` (commit) -/
def place (s : Serving) (id : ℕ) (u : OpenUpload) (random : ℕ) : Serving :=
  match u.announced with
  | none => s.close id
  | some a =>
    match pathGuard (cfg.rootFor u.request.share) a.path with
    | .error _ => s.close id
    | .ok target =>
      let s := s.withHost
        (archive cfg s.host u.request.scope (dbKey a.path) target u.request.archiveOk)
      if !u.request.dirOk then s.close id
      else match u.spool with
        | some (loc, _) => s.moveInto id u loc target
        | none =>
          let loc := spoolLoc cfg u.request.share random
          if !u.request.stageOk then s.close id
          else if !u.request.stageSyncOk then (s.createSpool id loc).close id
          else (s.createSpool id loc).moveInto id u loc target

/-- Write the row.
Source: `services/sync.rs`, `delta_upload` (commit) -/
def record (s : Serving) (id : ℕ) (u : OpenUpload) (target : List String) (bytes : Bytes) : Serving :=
  if u.request.dbOk then (s.withHost (recordRow blake3 cfg s.host u.request target bytes)).close id
  else s.close id

/-- The next step of an upload; `random` names a file if the step creates one.
Source: `services/sync.rs`, `delta_upload` -/
def advance (s : Serving) (id random : ℕ) : Serving :=
  match s.uploads.lookup id with
  | none => s
  | some u =>
    match u.stage with
    | .receiving (chunk :: pending) => s.takeChunk blake3 cfg id u random chunk pending
    | .receiving [] =>
      match u.request.stream with
      | [] => s.finalize id u
      | .error _ :: _ => s.abandon id u
      | .ok msg :: rest => s.takeMessage cfg id u msg rest
    | .received => s.check blake3 cfg id u
    | .cleared => s.place cfg id u random
    | .placed target bytes => s.record blake3 cfg id u target bytes

/-- The caller is gone, and the handler is dropped where it waits. -/
def cancel (s : Serving) (id : ℕ) : Serving :=
  match s.uploads.lookup id with
  | none => s
  | some u =>
    match u.stage with
    | .receiving _ => s.abandon id u
    | _ => s.close id

end Serving

/-! ## Runs -/

/-- An upload. -/
def Request.isUpload : Request → Bool
  | .upload _ => true
  | _ => false

/-- What happens at the server. -/
inductive ServerEvent where
  /-- A request that is answered in one step. -/
  | request (req : { req : Request // req.isUpload = false })
  /-- An upload begins. -/
  | start (r : UploadRequest)
  | advance (id random : ℕ)
  | cancel (id : ℕ)
  /-- The watcher of a share reports. -/
  | notify (vault : String) (ev : NotifyEvent)
  /-- The index loop takes its next event. -/
  | index (stat : Path → FileStat) (now : ℤ)
  /-- The index loop reconciles the configured shares, in this order. -/
  | reconcile (env : IndexEnv) (vaults : List String)

/-- The rows without a tenant. -/
def Host.vaults (h : Host) : Vaults := fun vault => h.db (none, vault)

/-- Replace the rows without a tenant. -/
def Host.setVaults (h : Host) (db : Vaults) : Host :=
  { h with db := fun scope => if scope.1 = none then db scope.2 else h.db scope }

/-- The configured shares with their trees. -/
def HostConfig.trees (h : Host) (vaults : List String) : List (String × Tree) :=
  vaults.filterMap fun vault => (cfg.shareRoots vault).map fun root => (vault, treeOf h root)

def serveStep (s : Serving) : ServerEvent → Serving
  | .request req => s.withHost (serve blake3 cfg s.host req.1)
  | .start r =>
    match r.admitted with
    | .error _ => s
    | .ok _ =>
      { s with
        uploads := s.uploads.insert s.nextUpload
          { request := r, stage := .receiving [], announced := none, spool := none }
        nextUpload := s.nextUpload + 1 }
  | .advance id random => s.advance blake3 cfg id random
  | .cancel id => s.cancel id
  | .notify vault ev =>
    match cfg.shareRoots vault with
    | none => s
    | some root => { s with queue := s.queue ++ (translateNotifyEvent root ev).map (vault, ·) }
  | .index stat now =>
    match s.queue with
    | [] => s
    | (vault, ev) :: queue =>
      let s := { s with queue := queue }
      match cfg.shareRoots vault with
      | none => s
      | some root => s.withHost (s.host.setDb (none, vault) (indexEvent blake3 cfg.serverNodeId root
          (treeOf s.host root) stat now (s.host.db (none, vault)) ev))
  | .reconcile env vaults =>
    s.withHost (s.host.setVaults (fullReconcile blake3 cfg.serverNodeId env
      (cfg.trees s.host vaults) s.host.vaults).2)

end

end DiskArcana.Hosting
