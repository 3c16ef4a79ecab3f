import DiskArcana.Lib.DirTree
import DiskArcana.Hosting.Basic

/-!
# The share index

`share_index/mod.rs`: the rows of a configured share follow the files below its root. `full_reconcile`
walks the trees and lists the rows of all shares before it changes anything, sweeps the legacy rows
that shadow a share, and then indexes every file that it has seen and tombstones every row whose file
is gone. `run_index_loop` does the same file by file, for the events of a watcher.

A root is canonical and its tree does not change during a reconciliation. Calls of the operating system
and of the database that may fail are answered by an `IndexEnv`; a failure during the walk or a listing
ends the reconciliation, any other is logged and passed over.
-/

namespace DiskArcana.ShareIndex

open DiskArcana.Core DiskArcana.Lib DiskArcana.Lib.DirTree DiskArcana.Server DiskArcana.Hosting

/-- The tree below the root of a share. -/
abbrev Tree := Listing Bytes

/-- The rows of each vault, without a tenant. -/
abbrev Vaults := String → MetaDb

/-- Source: `share_index/mod.rs`, `ShareIndexError` -/
inductive ShareIndexError where
  | io (path : Path) (source : String)
  | metaDb (error : String)

/-! ## The walk -/

/-- The calls of a walk that may fail. -/
inductive WalkCall where
  | readDir (dir : Path)
  /-- The next entry of a directory, or its end. -/
  | nextEntry (dir : Path) (name : Option String)
  | fileType (path : Path)
  | canonicalize (path : Path)

/-- Where the error of a call is reported. -/
def WalkCall.path : WalkCall → Path
  | .readDir dir => dir
  | .nextEntry dir _ => dir
  | .fileType path => path
  | .canonicalize path => path

/-- One call. -/
def attempt (fault : WalkCall → Option String) (call : WalkCall) : Except ShareIndexError Unit :=
  match fault call with
  | some e => .error (.io call.path e)
  | none => .ok ()

/-- The entries of one directory. An entry that is no link canonicalizes to itself, so that the check
for an escape from the directory never fires.
Source: `share_index/mod.rs`, `walk_files_impl` -/
def walkEntries (fault : WalkCall → Option String) (dir : Path) :
    Tree → Except ShareIndexError (List Path)
  | .nil => do
      attempt fault (.nextEntry dir none)
      return []
  | .leaf name entry rest => do
      attempt fault (.nextEntry dir (some name))
      attempt fault (.fileType (dir ++ [name]))
      match entry with
      | .file _ =>
          if isInternalPath (dir ++ [name]) then walkEntries fault dir rest
          else
            attempt fault (.canonicalize (dir ++ [name]))
            let files ← walkEntries fault dir rest
            return (dir ++ [name]) :: files
      | _ => walkEntries fault dir rest
  | .dir name children rest => do
      attempt fault (.nextEntry dir (some name))
      attempt fault (.fileType (dir ++ [name]))
      if isInternalPath (dir ++ [name]) then walkEntries fault dir rest
      else
        attempt fault (.canonicalize (dir ++ [name]))
        attempt fault (.readDir (dir ++ [name]))
        let below ← walkEntries fault (dir ++ [name]) children
        let files ← walkEntries fault dir rest
        return below ++ files

/-- Source: `share_index/mod.rs`, `walk_files` -/
def walkFiles (fault : WalkCall → Option String) (root : Tree) :
    Except ShareIndexError (List Path) := do
  attempt fault (.readDir [])
  walkEntries fault [] root

/-! ## One file -/

/-- The links that the system follows on the way to a file. -/
def maxLinks : ℕ := 40

/-- The regular file that a path leads to, with its canonical location.
Source: `share_index/mod.rs`, `resolve_present_file` and `resolve_existing_file` -/
def resolvePresentFile (root : Tree) (rel : Path) : Option (Path × Bytes) :=
  match root.lstat maxLinks rel with
  | some (canonical, .leaf (.file bytes)) => some (canonical, bytes)
  | _ => none

section

variable (blake3 : Bytes → Digest) (nodeId : NodeId)

/-- Index a file; `ok` is `false` when reading the file or writing the row fails.
Source: `share_index/mod.rs`, `upsert_local_file` -/
def upsertLocalFile (root : Tree) (stat : Path → FileStat) (ok : Bool) (db : MetaDb) (rel : Path) :
    MetaDb :=
  match resolvePresentFile root rel with
  | some (canonical, bytes) =>
      if canonical.isEmpty || !ok then db
      else db.upsertFileScoped { indexedMeta blake3 nodeId canonical bytes (stat canonical) with
        path := pathAsStr canonical }
  | none => db

/-- Tombstone the row of a path, making one up when there is none; `ok` is `false` when the database
fails.
Source: `share_index/mod.rs`, `tombstone_local_file` -/
def tombstoneLocalFile (now : ℤ) (ok : Bool) (db : MetaDb) (rel : Path) : MetaDb :=
  if rel.isEmpty || !ok then db
  else match db.getFileScoped (pathAsStr rel) with
    | some row => db.upsertFileScoped (tombstone now row)
    | none => db.upsertFileScoped { missingTombstone nodeId rel now with path := pathAsStr rel }

/-! ## Reconciliation -/

/-- What the system and the database answer during a reconciliation, for each share. -/
structure IndexEnv where
  walk : String → WalkCall → Option String
  /-- Listing the rows of a vault, in the first phase and in the sweep. -/
  list : String → Option String
  sweepList : String → Option String
  sweepOk : Path → Bool
  stat : String → Path → FileStat
  upsertOk : String → Path → Bool
  /-- The single look at a path before it is tombstoned. -/
  lookOk : String → Path → Bool
  tombstoneOk : String → Path → Bool
  now : ℤ

/-- List the rows of a vault. -/
def listRows (fault : Option String) (db : MetaDb) : Except ShareIndexError (List FileMeta) :=
  match fault with
  | some e => .error (.metaDb e)
  | none => .ok db.listFilesScoped

/-- The vault of the rows that were once written without a scope. -/
def legacyVault : String := "default"

/-- The legacy rows without those whose path a configured share has a row for.
Source: `share_index/mod.rs`, `sweep_shadowed_default_rows` -/
def sweepShadowedDefaultRows (env : IndexEnv) (shares : List String) (db : Vaults) :
    Except ShareIndexError Vaults :=
  if legacyVault ∈ shares then .ok db
  else do
    let legacyRows ← listRows (env.sweepList legacyVault) (db legacyVault)
    if legacyRows.isEmpty then return db
    let claimed ← shares.mapM fun vault => listRows (env.sweepList vault) (db vault)
    let shadowed := legacyRows.filter fun row =>
      claimed.any fun rows => rows.any fun m => decide (m.path = row.path)
    return Function.update db legacyVault ((shadowed.filter fun row => env.sweepOk row.path).foldl
      (fun legacy row => legacy.deleteFileScoped row.path) (db legacyVault))

/-- What the first phase knows of a share. -/
structure Gathered where
  vault : String
  root : Tree
  files : List Path
  rows : List FileMeta

/-- The first phase: all walks, then all listings; nothing is changed.
Source: `share_index/mod.rs`, `full_reconcile` (gather) -/
def gather (env : IndexEnv) (shares : List (String × Tree)) (db : Vaults) :
    Except ShareIndexError (List Gathered) := do
  let walked ← shares.mapM fun share => do
    let files ← walkFiles (env.walk share.1) share.2
    return (share, files)
  walked.mapM fun (share, files) => do
    let rows ← listRows (env.list share.1) (db share.1)
    return ⟨share.1, share.2, files, rows⟩

/-- A row that is tombstoned: live, not seen by the walk, and with no file at its path.
Source: `share_index/mod.rs`, `full_reconcile` (tombstone pass) -/
def isGone (env : IndexEnv) (g : Gathered) (row : FileMeta) : Bool :=
  !row.deleted && !g.files.contains row.path &&
    !(env.lookOk g.vault row.path && (resolvePresentFile g.root row.path).isSome)

/-- The rows of a share after its files are indexed. -/
def indexFiles (env : IndexEnv) (g : Gathered) (db : MetaDb) : MetaDb :=
  g.files.foldl
    (fun db rel => upsertLocalFile blake3 nodeId g.root (env.stat g.vault) (env.upsertOk g.vault rel) db rel)
    db

/-- The rows of a share after the lost ones are tombstoned. -/
def tombstoneGone (env : IndexEnv) (g : Gathered) (db : MetaDb) : MetaDb :=
  (g.rows.filter (isGone env g)).foldl
    (fun db row => tombstoneLocalFile nodeId env.now (env.tombstoneOk g.vault row.path) db row.path) db

/-- What the second phase does to the rows of one share. -/
def reconcileRows (env : IndexEnv) (g : Gathered) (db : MetaDb) : MetaDb :=
  tombstoneGone nodeId env g (indexFiles blake3 nodeId env g db)

/-- The rows that said a file was deleted which the walk has seen. -/
def revived (g : Gathered) : ℕ := g.rows.countP fun row => row.deleted && g.files.contains row.path

/-- Reconcile the rows of all configured shares with their trees. The answer counts the revived rows.
Source: `share_index/mod.rs`, `full_reconcile` -/
def fullReconcile (env : IndexEnv) (shares : List (String × Tree)) (db : Vaults) :
    Except ShareIndexError ℕ × Vaults :=
  match gather env shares db with
  | .error e => (.error e, db)
  | .ok gathered =>
      match sweepShadowedDefaultRows env (shares.map Prod.fst) db with
      | .error e => (.error e, db)
      | .ok swept =>
          (.ok (gathered.map revived).sum, gathered.foldl
            (fun db g => Function.update db g.vault (reconcileRows blake3 nodeId env g (db g.vault)))
            swept)

end

end DiskArcana.ShareIndex
