import DiskArcana.Lib.LexicalPath
import DiskArcana.Client.Conflict
import DiskArcana.Client.Files

/-!
# Which files a sync cycle touches

The file operations of `RemoteSync::execute` under an arbitrary answer of the server: downloads,
conflicts and deletions join the server's paths to the scan root. Only the conflict copies are
guarded against paths that leave the root (`confined_of_mem_forkTouches`); everything else stays
inside exactly when the paths do (`executeConfined_iff`).

The scan root is the list of names that leads to it, and locations are lexical: `.` and `..` are
resolved without looking at the file system. The client's own stores, its database and its blob
cache, are not files of the vault and are left out.
-/

namespace DiskArcana.Client

open DiskArcana.Core DiskArcana.Lib DiskArcana.Lib.LexicalPath

/-! ## File operations -/

/-- What the file system makes of a write or a removal. -/
inductive FsOutcome where
  /-- Nothing happens. -/
  | refused
  /-- It begins, and ends with an error. -/
  | failed
  | done
  deriving DecidableEq

/-- What the environment answers while one entry of the server's answer is worked off: the bytes
that a peer or the server sends, what is read of the local file, the ancestor in the blob cache,
which locations exist, how the file operation ends, the random part of a temporary name, the time. -/
structure Answers where
  wire : Option Bytes
  localBytes : Option Bytes
  base : Option Bytes
  taken : List String → Bool
  fs : FsOutcome
  tmpSuffix : String
  now : ℤ

/-- A file that is created, overwritten, renamed to or removed: the path that was joined to the scan
root, and where it leads. -/
structure Touch where
  path : Path
  location : List String
  deriving DecidableEq

/-- `scan_root.join(path)`. -/
def touch (root : List String) (path : Path) : Touch := ⟨path, resolve root path⟩

/-- The file is inside the scan root, and no absolute path took the root's place. -/
def Touch.Confined (root : List String) (t : Touch) : Prop :=
  "/" ∉ t.path ∧ Within root t.location

instance (root : List String) (t : Touch) : Decidable (t.Confined root) :=
  inferInstanceAs (Decidable (_ ∧ _))

/-- `std::fs::write`: a write that fails halfway has created or truncated the file. -/
def writeTouches (root : List String) (path : Path) (a : Answers) : List Touch :=
  match a.fs with
  | .refused => []
  | .failed | .done => [touch root path]

/-- The temporary file beside a path.
Source: `tempfile::NamedTempFile::new_in` -/
def tmpPath (path : Path) (a : Answers) : Path := path.dropLast ++ [".tmp" ++ a.tmpSuffix]

/-- A temporary file that is renamed into place.
Source: `conflict_writer.rs`, `write_atomic` and `apply_conflict` -/
def atomicTouches (root : List String) (path : Path) (a : Answers) : List Touch :=
  match a.fs with
  | .refused => []
  | .failed => [touch root (tmpPath path a)]
  | .done => [touch root (tmpPath path a), touch root path]

/-- A conflict copy: the first of its names that is free.
Source: `conflict_writer.rs`, `write_fork` -/
def forkTouches (root : List String) (relPath : Path) (nodeId : NodeId) (a : Answers) :
    List Touch :=
  if !validateNoTraversal (forkFilename relPath nodeId a.now) then []
  else match (forkCandidates relPath nodeId a.now).find? fun c => !a.taken (resolve root c) with
    | none => []
    | some candidate => atomicTouches root candidate a

section

variable (blake3 : Bytes → Digest) (decrypt : Bytes → Bytes → Option Bytes)
  (diffy : String → String → String → Except String String) (root : List String)

/-- One entry of `to_download`.
Source: `sync_loop/wire.rs`, `execute` (download phase) -/
def downloadTouches (entry : FileMetadata) (a : Answers) : List Touch :=
  match a.wire.bind fun wire => materializeDownloadedBytes blake3 decrypt wire entry with
  | none => []
  | some _ => writeTouches root entry.path a

/-- The server's side of a conflict. -/
def remotePlain (conflict : ConflictMessage) (a : Answers) : Option Bytes :=
  a.wire.bind fun wire => conflict.remoteFile.bind fun entry =>
    materializeDownloadedBytes blake3 decrypt wire entry

/-- One reported conflict; `receiveOnly` is the share's declared direction.
Source: `sync_loop/wire.rs`, `execute` (conflict phase), `conflict_writer.rs`, `apply_conflict` -/
def conflictTouches (receiveOnly : Bool) (nodeId : NodeId) (conflict : ConflictMessage)
    (a : Answers) : List Touch :=
  if isSyncEphemeralMarker conflict.path then []
  else match a.localBytes, remotePlain blake3 decrypt conflict a with
    | some localBytes, some remote =>
      if receiveOnly then writeTouches root conflict.path a
      else match isMergeEligible conflict.path, threeWayMerge diffy a.base localBytes remote with
        | true, .clean _ => atomicTouches root conflict.path a
        | _, _ => forkTouches root conflict.path nodeId a
    | _, _ => []

/-- One entry of `to_delete`.
Source: `sync_loop/wire.rs`, `execute` (delete phase) -/
def deleteTouches (entry : FileMetadata) (a : Answers) : List Touch :=
  if a.taken (resolve root entry.path) && decide (a.fs = .done) then [touch root entry.path] else []

/-- The environment of a cycle: its answers for each position of each list. -/
structure Environment where
  download : ℕ → Answers
  conflict : ℕ → Answers
  delete : ℕ → Answers

/-- **The files a cycle touches**, in the order of its phases; uploads only read.
Source: `sync_loop/wire.rs`, `execute` -/
def executeTouches (receiveOnly : Bool) (nodeId : NodeId) (r : SyncStateResponse)
    (env : Environment) : List Touch :=
  (r.toDownload.zipIdx.flatMap fun x => downloadTouches blake3 decrypt root x.1 (env.download x.2)) ++
    (r.conflicts.zipIdx.flatMap fun x =>
      conflictTouches blake3 decrypt diffy root receiveOnly nodeId x.1 (env.conflict x.2)) ++
    r.toDelete.zipIdx.flatMap fun x => deleteTouches root x.1 (env.delete x.2)

/-! ## Paths that stay inside -/

/-- The path is relative, and it ends below the directory it starts from: it may climb out of the
root only to come back through the root's own last names. -/
def StaysBelow (path : Path) : Prop :=
  "/" ∉ path ∧ Within (root.rtake (climb path).1) (climb path).2

variable {root}

/-- A joined path is confined exactly when it stays below the root. -/
theorem confined_touch_iff {path : Path} :
    (touch root path).Confined root ↔ StaysBelow root path := by
  unfold Touch.Confined StaysBelow touch
  rw [and_congr_right_iff]
  intro h
  exact within_resolve_iff root h

theorem isName_of_isNormal {segment : String} (h : isNormal segment = true) : IsName segment := by
  unfold isNormal at h
  simp only [Bool.and_eq_true, bne_iff_ne, ne_eq] at h
  exact ⟨h.1.1, h.1.2, h.2⟩

/-- A temporary name is a name. -/
theorem isName_tmp (suffix : String) : IsName (".tmp" ++ suffix) := by
  apply isName_of_isNormal
  apply isNormal_of_length
  have hfour : ".tmp".toList.length = 4 := by decide
  rw [String.toList_append, List.length_append]
  omega

/-- A file with a name is confined exactly when its directory is the root or inside it. -/
theorem confined_touch_concat {dir : Path} {name : String} (h : IsName name) :
    (touch root (dir ++ [name])).Confined root ↔ "/" ∉ dir ∧ root <+: resolve root dir := by
  unfold Touch.Confined touch
  rw [within_resolve_concat h, List.mem_append, List.mem_singleton, not_or]
  constructor
  · rintro ⟨⟨hdir, -⟩, hpre⟩
    exact ⟨hdir, hpre⟩
  · rintro ⟨hdir, hpre⟩
    exact ⟨⟨hdir, fun heq => h.1 heq.symm⟩, hpre⟩

/-- A temporary file is confined exactly when the file it will replace is. -/
theorem confined_tmp_iff {path : Path} (h : (fileName path).isSome = true) (a : Answers) :
    (touch root (tmpPath path a)).Confined root ↔ (touch root path).Confined root := by
  obtain ⟨name, hname⟩ := Option.isSome_iff_exists.mp h
  unfold fileName at hname
  obtain ⟨hlast, hnormal⟩ := Option.filter_eq_some_iff.mp hname
  obtain ⟨dir, rfl⟩ := List.getLast?_eq_some_iff.mp hlast
  unfold tmpPath
  rw [List.dropLast_concat, confined_touch_concat (isName_tmp _),
    confined_touch_concat (isName_of_isNormal hnormal)]

/-- An atomic write touches confined files exactly when it does nothing or its path stays below the
root. -/
theorem atomicTouches_confined_iff {path : Path} (h : (fileName path).isSome = true) (a : Answers) :
    (∀ t ∈ atomicTouches root path a, t.Confined root) ↔
      (a.fs ≠ .refused → StaysBelow root path) := by
  have htmp : (touch root (tmpPath path a)).Confined root ↔ StaysBelow root path :=
    (confined_tmp_iff h a).trans confined_touch_iff
  unfold atomicTouches
  rcases hfs : a.fs with _ | _ | _
  · simp
  · simp [htmp]
  · simp [htmp, confined_touch_iff]

/-- A plain write touches confined files exactly when it does nothing or its path stays below the
root. -/
theorem writeTouches_confined_iff {path : Path} (a : Answers) :
    (∀ t ∈ writeTouches root path a, t.Confined root) ↔
      (a.fs ≠ .refused → StaysBelow root path) := by
  unfold writeTouches
  rcases hfs : a.fs with _ | _ | _
  · simp
  · simp [confined_touch_iff]
  · simp [confined_touch_iff]

/-- **Conflict copies stay inside the root**, whatever the server's path: the guard on the name of
the copy rejects absolute paths and `..`. -/
theorem confined_of_mem_forkTouches {relPath : Path} {nodeId : NodeId} {a : Answers} {t : Touch}
    (h : t ∈ forkTouches root relPath nodeId a) : t.Confined root := by
  unfold forkTouches at h
  rcases hv : validateNoTraversal (forkFilename relPath nodeId a.now) with _ | _
  · rw [hv] at h
    cases h
  rcases hfind : (forkCandidates relPath nodeId a.now).find? fun c => !a.taken (resolve root c) with
    _ | candidate
  · rw [hv, hfind] at h
    cases h
  rw [hv, hfind] at h
  obtain ⟨name, hcand, hlong⟩ := of_mem_forkCandidates (List.mem_of_find?_eq_some hfind)
  have hnormal : isNormal name = true := isNormal_of_length (by omega)
  -- the guard looks at the first candidate, which stands in the same directory
  obtain ⟨first, hfirst, -⟩ : ∃ first : String, forkFilename relPath nodeId a.now =
      relPath.dropLast ++ [first] ∧ 14 < first.toList.length := by
    apply of_mem_forkCandidates
    unfold forkCandidates
    exact List.mem_map.mpr ⟨0, by decide, rfl⟩
  unfold validateNoTraversal at hv
  simp only [hfirst, Bool.and_eq_true, Bool.not_eq_true', List.contains_eq_mem,
    decide_eq_false_iff_not, List.mem_append, not_or] at hv
  have hconfined : (touch root candidate).Confined root := by
    rw [hcand, confined_touch_concat (isName_of_isNormal hnormal)]
    exact ⟨hv.2.1, prefix_resolve_of_not_mem root hv.2.1 hv.1.2.1⟩
  have hname : (fileName candidate).isSome = true := by
    unfold fileName
    rw [hcand, List.getLast?_concat, Option.filter_some, if_pos hnormal]
    rfl
  have hall := (atomicTouches_confined_iff hname a).mpr fun _ => confined_touch_iff.mp hconfined
  exact hall t h

/-! ## The phases -/

/-- The bytes of a download arrive, pass the check and are written. -/
def DownloadWrites (entry : FileMetadata) (a : Answers) : Prop :=
  (a.wire.bind fun wire => materializeDownloadedBytes blake3 decrypt wire entry) ≠ none ∧
    a.fs ≠ .refused

/-- A conflict overwrites the live path: both sides are read, and the share is receive-only or the
text merges cleanly. -/
def ConflictOverwrites (receiveOnly : Bool) (conflict : ConflictMessage) (a : Answers) : Prop :=
  isSyncEphemeralMarker conflict.path = false ∧ a.fs ≠ .refused ∧
    ∃ localBytes remote, a.localBytes = some localBytes ∧
      remotePlain blake3 decrypt conflict a = some remote ∧
      (receiveOnly = true ∨ isMergeEligible conflict.path = true ∧
        ∃ merged, threeWayMerge diffy a.base localBytes remote = .clean merged)

variable (root) in
/-- The file of a deletion exists and is removed. -/
def DeleteRemoves (entry : FileMetadata) (a : Answers) : Prop :=
  a.taken (resolve root entry.path) = true ∧ a.fs = .done

theorem downloadTouches_confined_iff (entry : FileMetadata) (a : Answers) :
    (∀ t ∈ downloadTouches blake3 decrypt root entry a, t.Confined root) ↔
      (DownloadWrites blake3 decrypt entry a → StaysBelow root entry.path) := by
  unfold downloadTouches DownloadWrites
  rcases hfetch : a.wire.bind fun wire => materializeDownloadedBytes blake3 decrypt wire entry with
    _ | bytes
  · simp
  · simp only [ne_eq, reduceCtorEq, not_false_eq_true, true_and]
    exact writeTouches_confined_iff a

theorem deleteTouches_confined_iff (entry : FileMetadata) (a : Answers) :
    (∀ t ∈ deleteTouches root entry a, t.Confined root) ↔
      (DeleteRemoves root entry a → StaysBelow root entry.path) := by
  unfold deleteTouches DeleteRemoves
  rw [← confined_touch_iff]
  by_cases h : a.taken (resolve root entry.path) = true ∧ a.fs = .done
  · rw [if_pos (by simp [h.1, h.2])]
    simp [h]
  · rw [if_neg (by simpa using h)]
    simp [h]

/-- A path that is merged has a file name. -/
theorem isSome_fileName_of_isMergeEligible {path : Path} (h : isMergeEligible path = true) :
    (fileName path).isSome = true := by
  rcases hname : fileName path with _ | name
  · unfold isMergeEligible pathExtension at h
    rw [hname] at h
    cases h
  · rfl

theorem conflictTouches_confined_iff (receiveOnly : Bool) (nodeId : NodeId)
    (conflict : ConflictMessage) (a : Answers) :
    (∀ t ∈ conflictTouches blake3 decrypt diffy root receiveOnly nodeId conflict a,
      t.Confined root) ↔
      (ConflictOverwrites blake3 decrypt diffy receiveOnly conflict a →
        StaysBelow root conflict.path) := by
  unfold conflictTouches ConflictOverwrites
  rcases hm : isSyncEphemeralMarker conflict.path with _ | _
  case true => simp
  rcases hl : a.localBytes with _ | localBytes
  · simp
  rcases hr : remotePlain blake3 decrypt conflict a with _ | remote
  · simp
  have hexists : (∃ l r, some localBytes = some l ∧ some remote = some r ∧
      (receiveOnly = true ∨ isMergeEligible conflict.path = true ∧
        ∃ merged, threeWayMerge diffy a.base l r = .clean merged)) ↔
      (receiveOnly = true ∨ isMergeEligible conflict.path = true ∧
        ∃ merged, threeWayMerge diffy a.base localBytes remote = .clean merged) := by
    constructor
    · rintro ⟨l, r, hl', hr', h⟩
      cases hl'
      cases hr'
      exact h
    · intro h
      exact ⟨localBytes, remote, rfl, rfl, h⟩
  rw [hexists]
  cases receiveOnly with
  | true => simp [writeTouches_confined_iff]
  | false =>
      rcases he : isMergeEligible conflict.path with _ | _
      · simp only [Bool.false_eq_true, if_false, false_and, or_self, and_false, false_imp_iff,
          iff_true]
        exact fun t ht => confined_of_mem_forkTouches ht
      · have hname := isSome_fileName_of_isMergeEligible he
        rcases hmerge : threeWayMerge diffy a.base localBytes remote with merged | marked | reason
        · simp [hmerge, atomicTouches_confined_iff hname]
        · simp only [hmerge, Bool.false_eq_true, if_false, reduceCtorEq, exists_false, and_false, or_self,
            false_imp_iff, iff_true]
          exact fun t ht => confined_of_mem_forkTouches ht
        · simp only [hmerge, Bool.false_eq_true, if_false, reduceCtorEq, exists_false, and_false, or_self,
            false_imp_iff, iff_true]
          exact fun t ht => confined_of_mem_forkTouches ht

/-! ## The cycle -/

/-- What holds of everything that a list's entries, with their positions, give rise to. -/
theorem forall_mem_flatMap_zipIdx {α β : Type} {l : List α} {f : α → ℕ → List β} {p : β → Prop} :
    (∀ b ∈ l.zipIdx.flatMap fun x => f x.1 x.2, p b) ↔
      ∀ i x, l[i]? = some x → ∀ b ∈ f x i, p b := by
  constructor
  · intro h i x hx b hb
    exact h b (List.mem_flatMap.mpr ⟨(x, i), List.mem_zipIdx_iff_getElem?.mpr hx, hb⟩)
  · intro h b hb
    obtain ⟨⟨x, i⟩, hx, hb⟩ := List.mem_flatMap.mp hb
    exact h i x (List.mem_zipIdx_iff_getElem?.mp hx) b hb

/-- **A cycle stays inside the scan root exactly when the server's paths do.** For every answer of
the server, every transfer and every behaviour of the file system: all files that the cycle
creates, overwrites, renames to or removes are inside the scan root, and no absolute path takes its
place, if and only if the paths of the downloads that are written, of the conflicts that overwrite
the live file and of the deletions that remove a file are relative and end below the root.
Source: `sync_loop/wire.rs`, `execute` -/
theorem executeConfined_iff (root : List String) (receiveOnly : Bool) (nodeId : NodeId)
    (r : SyncStateResponse) (env : Environment) :
    (∀ t ∈ executeTouches blake3 decrypt diffy root receiveOnly nodeId r env, t.Confined root) ↔
      (∀ i entry, r.toDownload[i]? = some entry →
        DownloadWrites blake3 decrypt entry (env.download i) → StaysBelow root entry.path) ∧
      (∀ i conflict, r.conflicts[i]? = some conflict →
        ConflictOverwrites blake3 decrypt diffy receiveOnly conflict (env.conflict i) →
          StaysBelow root conflict.path) ∧
      (∀ i entry, r.toDelete[i]? = some entry →
        DeleteRemoves root entry (env.delete i) → StaysBelow root entry.path) := by
  unfold executeTouches
  simp only [List.forall_mem_append]
  rw [forall_mem_flatMap_zipIdx (f := fun entry i =>
      downloadTouches blake3 decrypt root entry (env.download i)),
    forall_mem_flatMap_zipIdx (f := fun conflict i =>
      conflictTouches blake3 decrypt diffy root receiveOnly nodeId conflict (env.conflict i)),
    forall_mem_flatMap_zipIdx (f := fun entry i => deleteTouches root entry (env.delete i)),
    and_assoc]
  simp only [downloadTouches_confined_iff, conflictTouches_confined_iff, deleteTouches_confined_iff]

end

/-- An environment in which the transfer is an empty file, every location exists and everything
works. -/
def compliant : Environment :=
  let answers : Answers :=
    { wire := some [], localBytes := some [], base := none, taken := fun _ => true, fs := .done,
      tmpSuffix := "", now := 0 }
  ⟨fun _ => answers, fun _ => answers, fun _ => answers⟩

/-- A server that offers `/etc/passwd` for download, without a hash to check, and asks for the
deletion of `../notes`. -/
def hostileAnswer : SyncStateResponse where
  toUpload := []
  toDownload := [{ path := components "/etc/passwd" }]
  toDelete := [{ path := components "../notes" }]
  conflicts := []
  serverClock := .new

/-- **The server reaches outside the scan root**: the client writes `/etc/passwd` and removes the
file `notes` beside its root. -/
theorem server_paths_leave_root :
    executeTouches (fun _ => zeroDigest) (fun _ _ => none) (fun _ _ _ => .error "")
        ["home", "vault"] false "n" hostileAnswer compliant =
      [⟨["/", "etc", "passwd"], ["etc", "passwd"]⟩, ⟨["..", "notes"], ["home", "notes"]⟩] ∧
    ∀ t ∈ executeTouches (fun _ => zeroDigest) (fun _ _ => none) (fun _ _ _ => .error "")
        ["home", "vault"] false "n" hostileAnswer compliant, ¬ t.Confined ["home", "vault"] := by
  refine ⟨by decide +kernel, by decide +kernel⟩

end DiskArcana.Client
