import DiskArcana.Client.Conflict
import DiskArcana.Lib.LexicalPath

/-!
# Resolving a conflict over REST

`rest_api/conflicts.rs`: a request names a path and an action. The handler checks both, finds the
unresolved conflict row, carries out the file side of the action and marks the row resolved.

A share directory is a table of regular files. Each action reads and writes at most once each of
the live file and the fork, and `FileIo` says which of these operations the file system lets
through. The file side returns the directory also when it fails, since a failure can come after
a write.
-/

namespace DiskArcana.Client

open DiskArcana.Core DiskArcana.Lib DiskArcana.Lib.LexicalPath

/-! ## The file side -/

/-- The accepted resolution actions.
Source: `rest_api/conflicts.rs`, `is_valid_action` -/
inductive ResolveAction where
  | forkLocal
  | forkRemote
  | merge
  | keepLocal
  | keepRemote
  deriving DecidableEq, Repr

/-- The text of an action in a request. -/
def ResolveAction.text : ResolveAction → String
  | .forkLocal => "fork-local"
  | .forkRemote => "fork-remote"
  | .merge => "merge"
  | .keepLocal => "keep-local"
  | .keepRemote => "keep-remote"

/-- The action that a text stands for.
Source: `rest_api/conflicts.rs`, `is_valid_action` -/
def ResolveAction.parse (text : String) : Option ResolveAction :=
  [forkLocal, forkRemote, merge, keepLocal, keepRemote].find? fun a => a.text == text

/-- Source: `rest_api/conflicts.rs`, `FileOpError` -/
inductive FileOpError where
  | forkArtifactMissing (reason : String)
  | io (message : String)
  deriving DecidableEq

/-- Source: `conflict_writer.rs`, the `Display` of `ForkWriteError` -/
def ForkWriteError.message : ForkWriteError → String
  | .io message => "fork write I/O error: " ++ message
  | .pathTraversal => "fork path would escape vault root"

/-- Source: `rest_api/conflicts.rs`, `From<ForkWriteError> for FileOpError` -/
def FileOpError.ofFork (e : ForkWriteError) : FileOpError := .io e.message

/-- The file operations that the file system lets through. -/
structure FileIo where
  readLive : Bool
  readFork : Bool
  writeFork : Bool
  writeLive : Bool

/-- `Path::display` of a path under a root. -/
def displayUnder (root : String) (rel : Path) : String := root ++ "/" ++ "/".intercalate rel

/-- Read a file that was seen to exist. -/
def readFile (disk : PathMap Bytes) (path : Path) (ok : Bool) : Except FileOpError Bytes :=
  match disk.lookup path with
  | some bytes => if ok then .ok bytes else .error (.io "")
  | none => .error (.io "")

/-- Replace the live file through a temporary file and a rename: all or nothing.
Source: `rest_api/conflicts.rs`, `atomic_write` -/
def atomicWriteLive (disk : PathMap Bytes) (path : Path) (bytes : Bytes) (io : FileIo) :
    PathMap Bytes × Except FileOpError Unit :=
  if io.writeLive then (disk.insert path bytes, .ok ()) else (disk, .error (.io ""))

/-- Read the fork and put its bytes at the live path. -/
def applyFork (disk : PathMap Bytes) (liveRel fork : Path) (io : FileIo) :
    PathMap Bytes × Except FileOpError Unit :=
  match readFile disk fork io.readFork with
  | .error e => (disk, .error e)
  | .ok remoteBytes => atomicWriteLive disk liveRel remoteBytes io

section

variable (diffy : String → String → String → Except String String)

/-- The file side of an action.
Source: `rest_api/conflicts.rs`, `perform_file_op` -/
def performFileOp (root : String) (disk : PathMap Bytes) (liveRel : Path) (forkRel : Option Path)
    (action : ResolveAction) (ts : ℤ) (io : FileIo) : PathMap Bytes × Except FileOpError Unit :=
  match action with
  | .keepLocal => (disk, .ok ())
  | .keepRemote =>
    match forkRel with
    | none => (disk, .error (.forkArtifactMissing
        "keep-remote requires a fork artifact but fork_path is not recorded; use fork-local to create a local copy first"))
    | some fork =>
      if (disk.lookup fork).isNone then
        (disk, .error (.forkArtifactMissing (s!"keep-remote: fork artifact '{displayUnder root fork}' " ++
          "is missing from the vault; it may have been moved or deleted")))
      else applyFork disk liveRel fork io
  | .forkLocal =>
    if (disk.lookup liveRel).isNone then
      (disk, .error (.forkArtifactMissing s!"fork-local: live file '{displayUnder root liveRel}' is missing; nothing to fork"))
    else match readFile disk liveRel io.readLive with
      | .error e => (disk, .error e)
      | .ok localBytes =>
        -- the local bytes are forked first, the remote ones applied after
        match writeFork disk liveRel localBytes "local-fork" ts io.writeFork with
        | .error e => (disk, .error (.ofFork e))
        | .ok (_, forked) =>
          match forkRel with
          | none => (forked, .ok ())
          | some fork =>
            if (forked.lookup fork).isNone then (forked, .ok ())
            else applyFork forked liveRel fork io
  | .forkRemote =>
    match forkRel with
    | none => (disk, .error (.forkArtifactMissing
        "fork-remote: no fork_path recorded for this conflict; the sync-loop APPLY phase may not have run yet"))
    | some fork =>
      if (disk.lookup fork).isNone then
        (disk, .error (.forkArtifactMissing (s!"fork-remote: fork artifact '{displayUnder root fork}' " ++
          "is missing; it may have already been moved or deleted")))
      else (disk, .ok ())
  | .merge =>
    match forkRel with
    | none => (disk, .error (.forkArtifactMissing
        "merge: no fork artifact recorded; cannot determine remote bytes. Use fork-local or fork-remote to accept one side"))
    | some fork =>
      if (disk.lookup liveRel).isNone || (disk.lookup fork).isNone then
        (disk, .error (.forkArtifactMissing
          (s!"merge: live file or fork artifact is missing (live={displayUnder root liveRel}, " ++
            s!"fork={displayUnder root fork}); use fork-local/fork-remote to accept one side")))
      else match readFile disk liveRel io.readLive, readFile disk fork io.readFork with
        | .error e, _ => (disk, .error e)
        | .ok _, .error e => (disk, .error e)
        | .ok localBytes, .ok remoteBytes =>
          match applyConflict diffy disk liveRel none localBytes remoteBytes "merge-op" ts
              io.writeFork with
          | .error e => (disk, .error (.ofFork e))
          | .ok (_, disk) => (disk, .ok ())

/-! ## What the file side can do -/

variable {diffy}

/-- The directories and outcomes that an action can end with. -/
inductive FileEffect (disk : PathMap Bytes) (liveRel : Path) (forkRel : Option Path) (ts : ℤ) :
    ResolveAction → PathMap Bytes → Except FileOpError Unit → Prop
  | unchanged (action : ResolveAction) (res : Except FileOpError Unit) :
      FileEffect disk liveRel forkRel ts action disk res
  | replaced {fork : Path} {remoteBytes : Bytes} : forkRel = some fork →
      disk.lookup fork = some remoteBytes →
      FileEffect disk liveRel forkRel ts .keepRemote (disk.insert liveRel remoteBytes) (.ok ())
  | copiedLocal {copy : Path} {localBytes : Bytes} (res : Except FileOpError Unit) :
      disk.lookup liveRel = some localBytes → disk.lookup copy = none →
      copy ∈ forkCandidates liveRel "local-fork" ts →
      FileEffect disk liveRel forkRel ts .forkLocal (disk.insert copy localBytes) res
  | copiedReplaced {copy fork : Path} {localBytes remoteBytes : Bytes} :
      disk.lookup liveRel = some localBytes → disk.lookup copy = none →
      copy ∈ forkCandidates liveRel "local-fork" ts → forkRel = some fork →
      (disk.insert copy localBytes).lookup fork = some remoteBytes →
      FileEffect disk liveRel forkRel ts .forkLocal
        ((disk.insert copy localBytes).insert liveRel remoteBytes) (.ok ())
  | copiedRemote {copy fork : Path} {remoteBytes : Bytes} : forkRel = some fork →
      disk.lookup fork = some remoteBytes → disk.lookup copy = none →
      copy ∈ forkCandidates liveRel "merge-op" ts →
      FileEffect disk liveRel forkRel ts .merge (disk.insert copy remoteBytes) (.ok ())

/-- Applying the fork replaces the live file or changes nothing. -/
theorem applyFork_cases (disk : PathMap Bytes) (liveRel fork : Path) (io : FileIo) :
    (∃ e, applyFork disk liveRel fork io = (disk, .error e)) ∨
      ∃ remoteBytes, disk.lookup fork = some remoteBytes ∧
        applyFork disk liveRel fork io = (disk.insert liveRel remoteBytes, .ok ()) := by
  unfold applyFork readFile atomicWriteLive
  rcases disk.lookup fork with _ | remoteBytes
  · exact Or.inl ⟨_, rfl⟩
  · rcases io.readFork with _ | _
    · exact Or.inl ⟨_, rfl⟩
    rcases io.writeLive with _ | _
    · exact Or.inl ⟨_, rfl⟩
    · exact Or.inr ⟨remoteBytes, rfl, rfl⟩

/-- A file that was read is there. -/
theorem lookup_of_readFile {disk : PathMap Bytes} {path : Path} {ok : Bool} {bytes : Bytes}
    (h : readFile disk path ok = .ok bytes) : disk.lookup path = some bytes := by
  unfold readFile at h
  rcases hl : disk.lookup path with _ | b
  · rw [hl] at h
    cases h
  · rw [hl] at h
    cases ok with
    | false => cases h
    | true =>
        cases h
        rfl

/-- Without an ancestor a conflict is never merged. -/
theorem applyConflict_none {disk disk' : PathMap Bytes} {relPath : Path}
    {localBytes remote : Bytes} {nodeId : NodeId} {ts : ℤ} {ioOk : Bool}
    {outcome : ConflictApplyOutcome}
    (h : applyConflict diffy disk relPath none localBytes remote nodeId ts ioOk =
      .ok (outcome, disk')) :
    ∃ f, f ∈ forkCandidates relPath nodeId ts ∧ disk.lookup f = none ∧
      disk' = disk.insert f remote := by
  rcases applyConflict_cases diffy h with ⟨-, merged, hclean, -⟩ | ⟨f, -, hf, hfree, hdisk⟩
  · cases hclean
  · exact ⟨f, hf, hfree, hdisk⟩

variable (diffy) in
/-- **The file side of an action.** -/
theorem performFileOp_effect (root : String) (disk : PathMap Bytes) (liveRel : Path)
    (forkRel : Option Path) (action : ResolveAction) (ts : ℤ) (io : FileIo) :
    FileEffect disk liveRel forkRel ts action
      (performFileOp diffy root disk liveRel forkRel action ts io).1
      (performFileOp diffy root disk liveRel forkRel action ts io).2 := by
  cases action with
  | keepLocal => exact .unchanged _ _
  | keepRemote =>
      rcases forkRel with _ | fork
      · exact .unchanged _ _
      unfold performFileOp
      dsimp only
      split_ifs
      · exact .unchanged _ _
      rcases applyFork_cases disk liveRel fork io with ⟨e, he⟩ | ⟨remoteBytes, hfork, he⟩
      · rw [he]
        exact .unchanged _ _
      · rw [he]
        exact .replaced rfl hfork
  | forkLocal =>
      unfold performFileOp
      dsimp only
      split_ifs
      · exact .unchanged _ _
      rcases hread : readFile disk liveRel io.readLive with e | localBytes
      · exact .unchanged _ _
      have hlive := lookup_of_readFile hread
      dsimp only
      rcases hcopy : writeFork disk liveRel localBytes "local-fork" ts io.writeFork with
        e | ⟨copy, forked⟩
      · exact .unchanged _ _
      obtain ⟨hmem, hfree, rfl⟩ := of_writeFork hcopy
      rcases forkRel with _ | fork
      · exact .copiedLocal _ hlive hfree hmem
      dsimp only
      split_ifs
      · exact .copiedLocal _ hlive hfree hmem
      rcases applyFork_cases (disk.insert copy localBytes) liveRel fork io with
        ⟨e, he⟩ | ⟨remoteBytes, hfork, he⟩
      · rw [he]
        exact .copiedLocal _ hlive hfree hmem
      · rw [he]
        exact .copiedReplaced hlive hfree hmem rfl hfork
  | forkRemote =>
      rcases forkRel with _ | fork
      · exact .unchanged _ _
      unfold performFileOp
      dsimp only
      split_ifs
      · exact .unchanged _ _
      · exact .unchanged _ _
  | merge =>
      rcases forkRel with _ | fork
      · exact .unchanged _ _
      unfold performFileOp
      dsimp only
      split_ifs
      · exact .unchanged _ _
      rcases readFile disk liveRel io.readLive with e | localBytes
      · exact .unchanged _ _
      rcases hread : readFile disk fork io.readFork with e | remoteBytes
      · exact .unchanged _ _
      dsimp only
      rcases hconflict : applyConflict diffy disk liveRel none localBytes remoteBytes "merge-op" ts
        io.writeFork with e | ⟨outcome, disk'⟩
      · exact .unchanged _ _
      obtain ⟨copy, hmem, hfree, rfl⟩ := applyConflict_none hconflict
      exact .copiedRemote rfl (lookup_of_readFile hread) hfree hmem

namespace FileEffect

variable {disk disk' : PathMap Bytes} {liveRel : Path} {forkRel : Option Path} {ts : ℤ}
  {action : ResolveAction} {res : Except FileOpError Unit}

/-- A file written where nothing stood leaves every other file as it is. -/
theorem lookup_insert_of_free {copy path : Path} {bytes content : Bytes}
    (hfree : disk.lookup copy = none) (h : disk.lookup path = some content) :
    (disk.insert copy bytes).lookup path = some content := by
  have hne : path ≠ copy := by
    rintro rfl
    rw [hfree] at h
    cases h
  rw [AList.lookup_insert_ne hne, h]

/-- Every content is kept by every action but `keep-remote`. -/
theorem kept (h : FileEffect disk liveRel forkRel ts action disk' res) (haction : action ≠ .keepRemote)
    {path : Path} {content : Bytes} (hpath : disk.lookup path = some content) :
    ∃ path', disk'.lookup path' = some content := by
  cases h with
  | unchanged => exact ⟨path, hpath⟩
  | replaced => exact absurd rfl haction
  | copiedLocal _ _ hfree _ => exact ⟨path, lookup_insert_of_free hfree hpath⟩
  | @copiedReplaced copy fork localBytes remoteBytes hlive hfree _ _ _ =>
      by_cases hp : path = liveRel
      · -- the live file is replaced, and its content is in the copy
        rw [hp, hlive] at hpath
        cases hpath
        have hne : copy ≠ liveRel := by
          rintro rfl
          rw [hfree] at hlive
          cases hlive
        exact ⟨copy, by rw [AList.lookup_insert_ne hne, AList.lookup_insert]⟩
      · refine ⟨path, ?_⟩
        rw [AList.lookup_insert_ne hp]
        exact lookup_insert_of_free hfree hpath
  | copiedRemote _ _ hfree _ => exact ⟨path, lookup_insert_of_free hfree hpath⟩

/-- The content of the fork is kept by every action. -/
theorem fork_kept (h : FileEffect disk liveRel forkRel ts action disk' res) {fork : Path}
    {content : Bytes} (hrel : forkRel = some fork) (hfork : disk.lookup fork = some content) :
    ∃ path, disk'.lookup path = some content := by
  cases h with
  | unchanged => exact ⟨fork, hfork⟩
  | replaced hrel' hfork' =>
      rw [hrel] at hrel'
      cases hrel'
      rw [hfork] at hfork'
      cases hfork'
      exact ⟨liveRel, AList.lookup_insert _⟩
  | copiedLocal _ _ hfree _ => exact ⟨fork, lookup_insert_of_free hfree hfork⟩
  | copiedReplaced _ hfree _ hrel' hfork' =>
      rw [hrel] at hrel'
      cases hrel'
      rw [lookup_insert_of_free hfree hfork] at hfork'
      cases hfork'
      exact ⟨liveRel, AList.lookup_insert _⟩
  | copiedRemote _ _ hfree _ => exact ⟨fork, lookup_insert_of_free hfree hfork⟩

/-- A failed action leaves every file as it is. -/
theorem kept_of_error (h : FileEffect disk liveRel forkRel ts action disk' res) {e : FileOpError}
    (he : res = .error e) {path : Path} {content : Bytes}
    (hpath : disk.lookup path = some content) : disk'.lookup path = some content := by
  cases h with
  | unchanged => exact hpath
  | replaced => cases he
  | copiedLocal _ _ hfree _ => exact lookup_insert_of_free hfree hpath
  | copiedReplaced => cases he
  | copiedRemote => cases he

/-- All that a failed action can leave is a copy of the local content. -/
theorem of_error_ne (h : FileEffect disk liveRel forkRel ts action disk' res) {e : FileOpError}
    (he : res = .error e) (hne : disk' ≠ disk) :
    action = .forkLocal ∧ ∃ copy content, disk.lookup liveRel = some content ∧
      disk.lookup copy = none ∧ copy ∈ forkCandidates liveRel "local-fork" ts ∧
      disk' = disk.insert copy content := by
  cases h with
  | unchanged => exact absurd rfl hne
  | replaced => cases he
  | @copiedLocal copy content _ hlive hfree hmem =>
      exact ⟨rfl, copy, content, hlive, hfree, hmem, rfl⟩
  | copiedReplaced => cases he
  | copiedRemote => cases he

end FileEffect

variable (diffy)

end

/-! ## The request -/

/-- What the handler reads and writes of a conflict row.
Source: `types.rs`, `ConflictRecord` -/
structure ConflictRow where
  id : Option ℤ
  vaultId : String
  path : String
  forkPath : Option String
  resolution : Option String
  resolved : Bool
  createdAt : ℤ
  resolvedAt : Option ℤ
  deriving DecidableEq

/-- The daemon as the handler sees it: the conflicts table, if one is attached, the roots of the
shares and the directories under them.
Source: `rest_api/mod.rs`, `DaemonState` -/
structure Daemon where
  metaDb : Option (List ConflictRow)
  vaultRoots : Table String String
  vaultRoot : Option String
  disks : Table String (PathMap Bytes)

/-- Source: `rest_api/mod.rs`, `vault_root_for` -/
def Daemon.vaultRootFor (d : Daemon) (vaultId : String) : Option String :=
  (d.vaultRoots.lookup vaultId).or (if vaultId = "default" then d.vaultRoot else none)

/-- The directory under a root. -/
def Daemon.disk (d : Daemon) (root : String) : PathMap Bytes := (d.disks.lookup root).getD ∅

/-- Source: `rest_api/conflicts.rs`, `validate_conflict_path` -/
def validateConflictPath (path : String) : Except String Unit :=
  if path.toList.contains '\x00' then .error "path contains NUL byte"
  else if path.toList.head? = some '/' then .error "path must not be absolute"
  else if (splitSlash path.toList).contains "..".toList then .error "path contains '..' component"
  else .ok ()

/-- Source: `meta_db/conflicts.rs`, `list_unresolved_conflicts` -/
def listUnresolvedConflicts (rows : List ConflictRow) : List ConflictRow :=
  (rows.filter fun c => !c.resolved).mergeSort fun a b => decide (a.createdAt ≤ b.createdAt)

/-- Source: `meta_db/conflicts.rs`, `resolve_conflict` -/
def markResolved (rows : List ConflictRow) (id : ℤ) (resolution : String) (now : ℤ) :
    List ConflictRow :=
  rows.map fun c =>
    if c.id = some id then
      { c with resolved := true, resolution := some resolution, resolvedAt := some now }
    else c

/-- The answers of the handler. -/
inductive ResolveReply where
  | error (status : ℕ) (message : String)
  | notResolved (reason : String)
  | resolved (vaultId path action : String)
  deriving DecidableEq

/-- What is outside the handler's control in one request: the clock, the file system and the two
database statements. -/
structure ResolveWorld where
  now : ℤ
  io : FileIo
  listOk : Bool
  updateOk : Bool

section

variable (diffy : String → String → String → Except String String)

/-- The row update after the file side.
Source: `rest_api/conflicts.rs`, the end of `resolve_conflict` -/
def finishRow (d : Daemon) (rows : List ConflictRow) (row : ConflictRow) (id : ℤ)
    (action : ResolveAction) (w : ResolveWorld) : Daemon × ResolveReply :=
  if w.updateOk then
    ({ d with metaDb := some (markResolved rows id action.text w.now) },
      .resolved row.vaultId row.path action.text)
  else (d, .error 500 "")

/-- The file side of a request, and the row update after it.
Source: `rest_api/conflicts.rs`, the second half of `resolve_conflict` -/
def resolveRow (d : Daemon) (rows : List ConflictRow) (row : ConflictRow) (id : ℤ)
    (action : ResolveAction) (w : ResolveWorld) : Daemon × ResolveReply :=
  match d.vaultRootFor row.vaultId with
  | some root =>
    let op := performFileOp diffy root (d.disk root) (components row.path)
      (row.forkPath.map components) action w.now w.io
    let d := { d with disks := d.disks.insert root op.1 }
    match op.2 with
    | .ok () => finishRow d rows row id action w
    | .error (.forkArtifactMissing reason) => (d, .notResolved reason)
    | .error (.io e) => (d, .error 500 s!"file op failed: {e}")
  | none =>
    if action = .keepRemote || action = .forkLocal || action = .merge then
      (d, .error 503 s!"storage root unavailable for share '{row.vaultId}'")
    else finishRow d rows row id action w

/-- One request to resolve the conflict at a path.
Source: `rest_api/conflicts.rs`, `resolve_conflict` -/
def resolveConflict (d : Daemon) (vaultId : Option String) (rawPath action : String)
    (w : ResolveWorld) : Daemon × ResolveReply :=
  match validateConflictPath rawPath with
  | .error e => (d, .error 400 e)
  | .ok () =>
    match ResolveAction.parse action with
    | none => (d, .error 400 s!"invalid action '{action}'; accepted: fork-local, fork-remote, merge, keep-local, keep-remote")
    | some act =>
      match d.metaDb with
      | none => (d, .error 503 "meta_db not available")
      | some rows =>
        if !w.listOk then (d, .error 500 "")
        else
          let matching := (listUnresolvedConflicts rows).filter fun c =>
            c.path == rawPath && (vaultId.map fun expected => c.vaultId == expected).getD true
          if vaultId.isNone && 1 < matching.length then
            (d, .error 409 "conflict path is ambiguous across shares; use the share-qualified route")
          else match matching.head? with
            | none => (d, .error 404 s!"no unresolved conflict at path '{rawPath}'")
            | some row =>
              match row.id with
              | none => (d, .error 500 "conflict row has no id")
              | some id => resolveRow diffy d rows row id act w

/-- A request either fails before it touches anything or comes down to one row. -/
theorem resolveConflict_cases (d : Daemon) (vaultId : Option String) (rawPath action : String)
    (w : ResolveWorld) :
    (∃ status message, resolveConflict diffy d vaultId rawPath action w =
      (d, .error status message)) ∨
    ∃ act rows row id, ResolveAction.parse action = some act ∧ d.metaDb = some rows ∧
      row ∈ rows ∧ row.resolved = false ∧ row.path = rawPath ∧ row.id = some id ∧
      (∀ expected, vaultId = some expected → row.vaultId = expected) ∧
      resolveConflict diffy d vaultId rawPath action w = resolveRow diffy d rows row id act w := by
  unfold resolveConflict
  rcases validateConflictPath rawPath with e | -
  · exact Or.inl ⟨400, e, rfl⟩
  rcases ResolveAction.parse action with _ | act
  · exact Or.inl ⟨400, _, rfl⟩
  rcases hdb : d.metaDb with _ | rows
  · exact Or.inl ⟨503, _, rfl⟩
  dsimp only
  split
  · exact Or.inl ⟨500, _, rfl⟩
  split
  · exact Or.inl ⟨409, _, rfl⟩
  split
  · exact Or.inl ⟨404, _, rfl⟩
  rename_i row hhead
  rcases hid : row.id with _ | id
  · exact Or.inl ⟨500, _, rfl⟩
  obtain ⟨hmem, hmatch⟩ := List.mem_filter.mp (List.mem_of_head? hhead)
  obtain ⟨hrow, hopen⟩ := List.mem_filter.mp (List.mem_mergeSort.mp hmem)
  simp only [Bool.and_eq_true, beq_iff_eq] at hmatch
  refine Or.inr ⟨act, rows, row, id, rfl, rfl, hrow, by simpa using hopen, hmatch.1, hid, ?_, rfl⟩
  rintro expected rfl
  simpa using hmatch.2

/-- The row update leaves the files alone, and marks the row exactly when it answers so. -/
theorem finishRow_cases (d : Daemon) (rows : List ConflictRow) (row : ConflictRow) (id : ℤ)
    (action : ResolveAction) (w : ResolveWorld) :
    (finishRow d rows row id action w).1.disks = d.disks ∧
      ((finishRow d rows row id action w).1.metaDb = d.metaDb ∨
        (finishRow d rows row id action w).2 = .resolved row.vaultId row.path action.text) := by
  unfold finishRow
  split_ifs
  · exact ⟨rfl, Or.inr rfl⟩
  · exact ⟨rfl, Or.inl rfl⟩

/-- **One row of a request.** The files are as before, or the directory of the row's share is what
the file side left of it; the table changes only with the answer `resolved`. -/
theorem resolveRow_cases (d : Daemon) (rows : List ConflictRow) (row : ConflictRow) (id : ℤ)
    (action : ResolveAction) (w : ResolveWorld) :
    ((resolveRow diffy d rows row id action w).1.disks = d.disks ∨
      ∃ root disk res, (resolveRow diffy d rows row id action w).1.disks = d.disks.insert root disk ∧
        FileEffect (d.disk root) (components row.path) (row.forkPath.map components) w.now action
          disk res) ∧
    ((resolveRow diffy d rows row id action w).1.metaDb = d.metaDb ∨
      (resolveRow diffy d rows row id action w).2 =
        .resolved row.vaultId row.path action.text) := by
  unfold resolveRow
  rcases d.vaultRootFor row.vaultId with _ | root
  · dsimp only
    split_ifs
    · exact ⟨Or.inl rfl, Or.inl rfl⟩
    · obtain ⟨hdisks, hdb⟩ := finishRow_cases d rows row id action w
      exact ⟨Or.inl hdisks, hdb⟩
  have heffect := performFileOp_effect diffy root (d.disk root) (components row.path)
    (row.forkPath.map components) action w.now w.io
  dsimp only
  generalize performFileOp diffy root (d.disk root) (components row.path)
    (row.forkPath.map components) action w.now w.io = op at heffect ⊢
  obtain ⟨disk, res⟩ := op
  rcases res with (reason | e) | ⟨⟩
  · exact ⟨Or.inr ⟨root, disk, _, rfl, heffect⟩, Or.inl rfl⟩
  · exact ⟨Or.inr ⟨root, disk, _, rfl, heffect⟩, Or.inl rfl⟩
  · obtain ⟨hdisks, hdb⟩ := finishRow_cases { d with disks := d.disks.insert root disk } rows row id
      action w
    exact ⟨Or.inr ⟨root, disk, _, hdisks, heffect⟩, hdb⟩

/-- **No request but `keep-remote` loses a content of any share.** -/
theorem resolveConflict_kept (d : Daemon) (vaultId : Option String) (rawPath action : String)
    (w : ResolveWorld) (haction : ResolveAction.parse action ≠ some .keepRemote) {root : String}
    {path : Path} {content : Bytes} (hpath : (d.disk root).lookup path = some content) :
    ∃ path', ((resolveConflict diffy d vaultId rawPath action w).1.disk root).lookup path' =
      some content := by
  rcases resolveConflict_cases diffy d vaultId rawPath action w with
    ⟨status, message, h⟩ | ⟨act, rows, row, id, hact, -, -, -, -, -, -, h⟩
  · rw [h]
    exact ⟨path, hpath⟩
  · rw [h]
    have hne : act ≠ .keepRemote := by
      rintro rfl
      exact haction hact
    unfold Daemon.disk at hpath ⊢
    rcases (resolveRow_cases diffy d rows row id act w).1 with hsame | ⟨root', disk, res, hd, heffect⟩
    · rw [hsame]
      exact ⟨path, hpath⟩
    · rw [hd, Table.lookup_insert_eq_ite]
      split_ifs with hr
      · subst hr
        exact heffect.kept hne hpath
      · exact ⟨path, hpath⟩

/-- **Only a request that is answered as resolved changes the conflicts table.** -/
theorem resolveConflict_metaDb (d : Daemon) (vaultId : Option String) (rawPath action : String)
    (w : ResolveWorld) :
    (resolveConflict diffy d vaultId rawPath action w).1.metaDb = d.metaDb ∨
      ∃ share, (resolveConflict diffy d vaultId rawPath action w).2 =
        .resolved share rawPath action := by
  rcases resolveConflict_cases diffy d vaultId rawPath action w with
    ⟨status, message, h⟩ | ⟨act, rows, row, id, hact, -, -, -, hraw, -, -, h⟩
  · rw [h]
    exact Or.inl rfl
  · have htext : act.text = action := by simpa using List.find?_some hact
    rw [h]
    rcases (resolveRow_cases diffy d rows row id act w).2 with hdb | hreply
    · exact Or.inl hdb
    · refine Or.inr ⟨row.vaultId, ?_⟩
      rw [hreply, hraw, htext]

end

end DiskArcana.Client
