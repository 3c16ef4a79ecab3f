import Mathlib.Data.List.Sort
import Mathlib.Data.List.Dedup
import DiskArcana.Core.Types

/-!
# The reconciliation engine

`ReconciliationEngine::reconcile` of `disk-core/src/reconciler/`: three snapshots are indexed by
path (a later entry of a path replaces an earlier one), every path of their union is decided by
`resolveOne`, and a second pass turns (upload at `A`, delete-remote at `B`) pairs with equal inode
and content hash into a rename of `B` to `A`.

`resolveOne` follows the source's chain of early returns. Over it stands `verdict`, the same
decision as a table over the three sides; `resolveOne_eq_verdict` says the chain computes the
table, so in particular the `Inconsistent` error at its end is never reached.
-/

namespace DiskArcana.Core

open DiskArcana.Lib

/-! ## Indexing the triple -/

/-- Index a snapshot by path; a later entry of a path replaces an earlier one.
Source: `reconciler/triple.rs`, `index_by_path` -/
def indexByPath (items : List FileMeta) : PathMap FileMeta := Table.collect FileMeta.path items

/-- Union of the paths of the three snapshots, sorted and without repetition.
Source: `reconciler/triple.rs`, `union_paths` -/
def unionPaths (localIdx remoteIdx indexedIdx : PathMap FileMeta) : List Path :=
  (localIdx.keys ++ remoteIdx.keys ++ indexedIdx.keys).dedup.insertionSort (· ≤ ·)

/-! ## Deciding one path -/

/-- The error of the reconciler.
Source: `error.rs`, `ReconcileError::Inconsistent` -/
structure ReconcileError where
  path : String
  reason : String
  deriving DecidableEq

/-- Equality of content hashes, `false` when either entry is missing.
Source: `reconciler/tree.rs`, `hashes_eq` -/
def hashesEq : Option FileMeta → Option FileMeta → Bool
  | some x, some y => x.contentHash == y.contentHash
  | _, _ => false

/-- Causality of two entries' clocks, concurrent when either is missing.
Source: `reconciler/tree.rs`, `clock_compare` -/
def clockCompare : Option FileMeta → Option FileMeta → Causality
  | some x, some y => x.vectorClock.compare y.vectorClock
  | _, _ => .concurrent

/-- The plain action of a path: `server_version` is the remote entry.
Source: `reconciler/tree.rs`, closure `make` of `resolve_one` -/
def makeAction (path : Path) (remote : Option FileMeta) (action : ActionType) : SyncAction where
  path := path
  action := action
  serverVersion := remote
  conflict := none
  renameTo := none

/-- An action with a conflict report that names the hashes of the three sides.
Source: `reconciler/tree.rs`, closure `make_with_conflict` of `resolve_one` -/
def makeWithConflict (path : Path) (localMeta remote indexed : Option FileMeta)
    (action : ActionType) (kind : ConflictKind) : SyncAction :=
  { makeAction path remote action with
    conflict := some
      { kind := kind
        localHash := localMeta.map FileMeta.contentHash
        remoteHash := remote.map FileMeta.contentHash
        baseHash := indexed.map FileMeta.contentHash } }

/-- Decide one path from the three entries.
Source: `reconciler/tree.rs`, `resolve_one` -/
def resolveOne (path : Path) (localMeta remote indexed : Option FileMeta) :
    Except ReconcileError SyncAction :=
  let l_present := (localMeta.map fun m => !m.deleted).getD false
  let l_tomb := (localMeta.map fun m => m.deleted).getD false
  let r_present := (remote.map fun m => !m.deleted).getD false
  let r_tomb := (remote.map fun m => m.deleted).getD false
  let i_present := (indexed.map fun m => !m.deleted).getD false
  let i_tomb := (indexed.map fun m => m.deleted).getD false
  let make := makeAction path remote
  let makeC := makeWithConflict path localMeta remote indexed
  -- created on one side only, no index entry
  if l_present && remote.isNone && indexed.isNone then .ok (make .upload)
  else if localMeta.isNone && r_present && indexed.isNone then .ok (make .download)
  -- created on both sides with no shared base
  else if l_present && r_present && indexed.isNone then
    if hashesEq localMeta remote then .ok (make .skip)
    else .ok (makeC .conflictFork .concurrent)
  -- both sides live over a live base
  else if l_present && r_present && i_present then
    match !hashesEq localMeta indexed, !hashesEq remote indexed with
    | false, false => .ok (make .skip)
    | true, false => .ok (make .upload)
    | false, true => .ok (make .download)
    | true, true =>
      if hashesEq localMeta remote then .ok (make .skip)
      else match clockCompare localMeta remote with
        | .before => .ok (make .download)
        | .after => .ok (make .upload)
        | .equal | .concurrent => .ok (makeC .conflictFork .concurrent)
  -- tombstone interactions with a live base
  else if l_tomb && r_present && i_present then
    if hashesEq remote indexed then .ok (make .deleteRemote)
    else .ok (makeC .download .modifiedDeleted)
  else if l_present && r_tomb && i_present then
    if hashesEq localMeta indexed then .ok (make .deleteLocal)
    else .ok (makeC .upload .modifiedDeleted)
  else if l_tomb && r_tomb then .ok (make .skip)
  -- recreate with a tombstone in the index
  else if l_present && remote.isNone && i_tomb then
    if hashesEq localMeta indexed then .ok (make .skip) else .ok (make .upload)
  else if localMeta.isNone && r_present && i_tomb then .ok (make .download)
  else if l_present && r_present && i_tomb then
    if hashesEq localMeta remote then .ok (make .skip)
    else .ok (makeC .download .modifiedDeleted)
  -- one side live, the other a tombstone, no live base
  else if l_present && r_tomb && indexed.isNone then .ok (makeC .upload .modifiedDeleted)
  else if l_present && r_tomb && i_tomb then .ok (makeC .upload .modifiedDeleted)
  else if l_tomb && r_present && indexed.isNone then .ok (makeC .download .modifiedDeleted)
  else if l_tomb && r_present && i_tomb then .ok (make .download)
  -- one side a tombstone, the other nothing
  else if localMeta.isNone && r_tomb then .ok (make .deleteLocal)
  else if l_tomb && remote.isNone && i_tomb then .ok (make .skip)
  else if l_tomb && remote.isNone then .ok (make .deleteRemote)
  -- gone from both sides
  else if localMeta.isNone && remote.isNone then .ok (make .skip)
  -- gone from one side over a live base
  else if l_present && remote.isNone && i_present then
    if hashesEq localMeta indexed then .ok (make .deleteLocal)
    else .ok (makeC .upload .modifiedDeleted)
  else if localMeta.isNone && r_present && i_present then
    if hashesEq remote indexed then .ok (make .deleteRemote)
    else .ok (makeC .download .modifiedDeleted)
  else .error
    { path := "/".intercalate path
      reason := s!"unhandled triple state: l_present={l_present} l_tomb={l_tomb} " ++
        s!"r_present={r_present} r_tomb={r_tomb} i_present={i_present} i_tomb={i_tomb}" }

/-! ## The rename pass -/

/-- The key under which the rename pass pairs an upload with a delete: inode and content hash. -/
abbrev RenameKey := ℕ × Digest

/-- The rename key of an entry that has an inode. -/
def renameKey (m : FileMeta) : Option RenameKey := m.inode.map fun inode => (inode, m.contentHash)

/-- Position of the last delete-remote action of each key, read off the indexed snapshot.
Source: `reconciler/tree.rs`, first loop of `detect_remote_renames` -/
def deleteRemoteIdx (indexedIdx : PathMap FileMeta) (actions : List SyncAction) :
    Table RenameKey ℕ :=
  Table.insertAll Prod.fst Prod.snd ∅ <| actions.zipIdx.filterMap fun (a, idx) =>
    if a.action = .deleteRemote then
      ((indexedIdx.lookup a.path).bind renameKey).map fun key => (key, idx)
    else none

/-- Position of the last upload action of each key, read off the local snapshot.
Source: `reconciler/tree.rs`, first loop of `detect_remote_renames` -/
def uploadIdx (localIdx : PathMap FileMeta) (actions : List SyncAction) : Table RenameKey ℕ :=
  Table.insertAll Prod.fst Prod.snd ∅ <| actions.zipIdx.filterMap fun (a, idx) =>
    if a.action = .upload then
      ((localIdx.lookup a.path).bind renameKey).map fun key => (key, idx)
    else none

/-- The (upload, delete) positions that share a key. -/
def renamePairs (localIdx indexedIdx : PathMap FileMeta) (actions : List SyncAction) :
    List (ℕ × ℕ) :=
  (uploadIdx localIdx actions).entries.filterMap fun e =>
    ((deleteRemoteIdx indexedIdx actions).lookup e.1).map fun del => (e.2, del)

/-- Rewrite one pair: the upload becomes a rename of the deleted path to its own, the delete a
skip.
Source: `reconciler/tree.rs`, last loop of `detect_remote_renames` -/
def applyRename (actions : List SyncAction) (pair : ℕ × ℕ) : List SyncAction :=
  match actions[pair.1]?, actions[pair.2]? with
  | some up, some del =>
    (actions.set pair.1
      { up with action := .renameRemote, renameTo := some up.path, path := del.path }).set pair.2
      { del with action := .skip, renameTo := none }
  | _, _ => actions

/-- Re-classify matching uploads and delete-remotes as renames.
Source: `reconciler/tree.rs`, `detect_remote_renames` -/
def detectRemoteRenames (localIdx indexedIdx : PathMap FileMeta) (actions : List SyncAction) :
    List SyncAction :=
  (renamePairs localIdx indexedIdx actions).foldl applyRename actions

/-- Classify every path in the union of the three snapshots.
Source: `reconciler/tree.rs`, `ReconciliationEngine::reconcile` -/
def reconcile (localFiles remoteFiles indexedFiles : List FileMeta) :
    Except ReconcileError (List SyncAction) := do
  let localIdx := indexByPath localFiles
  let remoteIdx := indexByPath remoteFiles
  let indexedIdx := indexByPath indexedFiles
  let actions ← (unionPaths localIdx remoteIdx indexedIdx).mapM fun path =>
    resolveOne path (localIdx.lookup path) (remoteIdx.lookup path) (indexedIdx.lookup path)
  return detectRemoteRenames localIdx indexedIdx actions

/-! ## The decision as a table -/

/-- The decision on one path, by the sides the three entries show.
Source: the 30-scenario matrix that `reconciler/tree.rs` implements -/
def verdict (l r i : Option FileMeta) : ActionType × Option ConflictKind :=
  match side l, side r, side i with
  | .absent, .absent, _ => (.skip, none)
  | .absent, .tomb, _ => (.deleteLocal, none)
  | .absent, .live, .absent => (.download, none)
  | .absent, .live, .tomb => (.download, none)
  | .absent, .live, .live =>
    if hashesEq r i then (.deleteRemote, none) else (.download, some .modifiedDeleted)
  | .tomb, .absent, .tomb => (.skip, none)
  | .tomb, .absent, _ => (.deleteRemote, none)
  | .tomb, .tomb, _ => (.skip, none)
  | .tomb, .live, .absent => (.download, some .modifiedDeleted)
  | .tomb, .live, .tomb => (.download, none)
  | .tomb, .live, .live =>
    if hashesEq r i then (.deleteRemote, none) else (.download, some .modifiedDeleted)
  | .live, .absent, .absent => (.upload, none)
  | .live, .absent, .tomb => if hashesEq l i then (.skip, none) else (.upload, none)
  | .live, .absent, .live =>
    if hashesEq l i then (.deleteLocal, none) else (.upload, some .modifiedDeleted)
  | .live, .tomb, .live =>
    if hashesEq l i then (.deleteLocal, none) else (.upload, some .modifiedDeleted)
  | .live, .tomb, _ => (.upload, some .modifiedDeleted)
  | .live, .live, .absent =>
    if hashesEq l r then (.skip, none) else (.conflictFork, some .concurrent)
  | .live, .live, .tomb =>
    if hashesEq l r then (.skip, none) else (.download, some .modifiedDeleted)
  | .live, .live, .live =>
    if hashesEq l i then
      if hashesEq r i then (.skip, none) else (.download, none)
    else if hashesEq r i then (.upload, none)
    else if hashesEq l r then (.skip, none)
    else match clockCompare l r with
      | .before => (.download, none)
      | .after => (.upload, none)
      | .equal | .concurrent => (.conflictFork, some .concurrent)

/-- The action a verdict stands for. -/
def actionOf (path : Path) (l r i : Option FileMeta) : SyncAction :=
  match verdict l r i with
  | (action, none) => makeAction path r action
  | (action, some kind) => makeWithConflict path l r i action kind

/-- The three shapes of an entry. -/
theorem side_cases (o : Option FileMeta) :
    o = none ∨ (∃ m, o = some m ∧ m.deleted = true) ∨ (∃ m, o = some m ∧ m.deleted = false) := by
  rcases o with _ | m
  · exact Or.inl rfl
  · rcases h : m.deleted with _ | _
    · exact Or.inr (Or.inr ⟨m, rfl, h⟩)
    · exact Or.inr (Or.inl ⟨m, rfl, h⟩)

/-- **The chain of `resolve_one` computes the table**, and never falls through to its error. -/
theorem resolveOne_eq_verdict (path : Path) (l r i : Option FileMeta) :
    resolveOne path l r i = .ok (actionOf path l r i) := by
  rcases side_cases l with rfl | ⟨l, rfl, hl⟩ | ⟨l, rfl, hl⟩ <;>
    rcases side_cases r with rfl | ⟨r, rfl, hr⟩ | ⟨r, rfl, hr⟩ <;>
    rcases side_cases i with rfl | ⟨i, rfl, hi⟩ | ⟨i, rfl, hi⟩ <;>
    simp only [resolveOne, actionOf, verdict, side, Option.map_none, Option.map_some,
      Option.getD_none, Option.getD_some, Option.isNone_none, Option.isNone_some, *,
      Bool.not_true, Bool.not_false, Bool.and_true, Bool.and_false, if_true, if_false,
      Bool.false_eq_true]
  all_goals try (split_ifs <;> rfl)
  -- what is left is the cell with three live sides
  rcases hashesEq (some l) (some i) with _ | _ <;>
    rcases hashesEq (some r) (some i) with _ | _ <;>
    simp only [Bool.not_true, Bool.not_false, Bool.false_eq_true, reduceIte]
  rcases hashesEq (some l) (some r) with _ | _
  · rcases clockCompare (some l) (some r) with _ | _ | _ | _ <;> rfl
  · rfl

@[simp] theorem actionOf_path (path : Path) (l r i : Option FileMeta) :
    (actionOf path l r i).path = path := by
  unfold actionOf
  rcases verdict l r i with ⟨action, _ | kind⟩ <;> rfl

@[simp] theorem actionOf_action (path : Path) (l r i : Option FileMeta) :
    (actionOf path l r i).action = (verdict l r i).1 := by
  unfold actionOf
  rcases verdict l r i with ⟨action, _ | kind⟩ <;> rfl

@[simp] theorem actionOf_serverVersion (path : Path) (l r i : Option FileMeta) :
    (actionOf path l r i).serverVersion = r := by
  unfold actionOf
  rcases verdict l r i with ⟨action, _ | kind⟩ <;> rfl

/-! ## The actions of a whole reconciliation -/

/-- The actions before the rename pass: one for each path of the union. -/
def plainActions (localIdx remoteIdx indexedIdx : PathMap FileMeta) : List SyncAction :=
  (unionPaths localIdx remoteIdx indexedIdx).map fun path =>
    actionOf path (localIdx.lookup path) (remoteIdx.lookup path) (indexedIdx.lookup path)

/-- Deciding the paths of a list one by one never fails. -/
theorem mapM_resolveOne (localIdx remoteIdx indexedIdx : PathMap FileMeta) (paths : List Path) :
    (paths.mapM fun path => resolveOne path (localIdx.lookup path) (remoteIdx.lookup path)
      (indexedIdx.lookup path)) =
      .ok (paths.map fun path => actionOf path (localIdx.lookup path) (remoteIdx.lookup path)
        (indexedIdx.lookup path)) := by
  induction paths with
  | nil => rfl
  | cons path paths ih =>
      rw [List.mapM_cons, resolveOne_eq_verdict, ih]
      rfl

/-- **Reconciliation never fails**, and is the rename pass over the table's actions. -/
theorem reconcile_eq (localFiles remoteFiles indexedFiles : List FileMeta) :
    reconcile localFiles remoteFiles indexedFiles =
      .ok (detectRemoteRenames (indexByPath localFiles) (indexByPath indexedFiles)
        (plainActions (indexByPath localFiles) (indexByPath remoteFiles)
          (indexByPath indexedFiles))) := by
  unfold reconcile
  simp only [mapM_resolveOne]
  rfl

theorem unionPaths_nodup (localIdx remoteIdx indexedIdx : PathMap FileMeta) :
    (unionPaths localIdx remoteIdx indexedIdx).Nodup :=
  (List.perm_insertionSort _ _).nodup_iff.mpr (List.nodup_dedup _)

/-- The union holds the paths that some snapshot holds. -/
theorem mem_unionPaths {localIdx remoteIdx indexedIdx : PathMap FileMeta} {path : Path} :
    path ∈ unionPaths localIdx remoteIdx indexedIdx ↔
      localIdx.lookup path ≠ none ∨ remoteIdx.lookup path ≠ none ∨
        indexedIdx.lookup path ≠ none := by
  have hk : ∀ idx : PathMap FileMeta, path ∈ idx.keys ↔ idx.lookup path ≠ none := by
    intro idx
    rw [Ne, AList.lookup_eq_none, not_not]
    exact AList.mem_keys.symm
  unfold unionPaths
  rw [List.mem_insertionSort, List.mem_dedup, List.mem_append, List.mem_append, hk, hk, hk, or_assoc]

/-- An action before the rename pass is the table's action at its path. -/
theorem mem_plainActions {localIdx remoteIdx indexedIdx : PathMap FileMeta} {a : SyncAction} :
    a ∈ plainActions localIdx remoteIdx indexedIdx ↔
      a.path ∈ unionPaths localIdx remoteIdx indexedIdx ∧
        a = actionOf a.path (localIdx.lookup a.path) (remoteIdx.lookup a.path)
          (indexedIdx.lookup a.path) := by
  unfold plainActions
  rw [List.mem_map]
  constructor
  · rintro ⟨path, hp, rfl⟩
    rw [actionOf_path]
    exact ⟨hp, rfl⟩
  · rintro ⟨hp, ha⟩
    exact ⟨a.path, hp, ha.symm⟩

theorem plainActions_map_path (localIdx remoteIdx indexedIdx : PathMap FileMeta) :
    (plainActions localIdx remoteIdx indexedIdx).map SyncAction.path =
      unionPaths localIdx remoteIdx indexedIdx := by
  unfold plainActions
  rw [List.map_map]
  conv_rhs => rw [← List.map_id (unionPaths localIdx remoteIdx indexedIdx)]
  exact List.map_congr_left fun path _ => actionOf_path _ _ _ _

/-! ## What the rename pass can do -/

/-- A pair of the rename pass names an upload and a delete-remote. -/
theorem of_mem_renamePairs {localIdx indexedIdx : PathMap FileMeta} {actions : List SyncAction}
    {pair : ℕ × ℕ} (h : pair ∈ renamePairs localIdx indexedIdx actions) :
    (∃ up, actions[pair.1]? = some up ∧ up.action = .upload) ∧
      ∃ del, actions[pair.2]? = some del ∧ del.action = .deleteRemote := by
  unfold renamePairs at h
  obtain ⟨⟨key, up⟩, he, hd⟩ := List.mem_filterMap.mp h
  obtain ⟨del, hdel, rfl⟩ := Option.map_eq_some_iff.mp hd
  have hup := Table.mem_entries_iff.mp he
  constructor
  · obtain ⟨x, hx, -, rfl⟩ := Table.of_lookup_insertAll_empty hup
    obtain ⟨⟨a, idx⟩, hmem, ha⟩ := List.mem_filterMap.mp hx
    simp only at ha
    split_ifs at ha with hact
    obtain ⟨k, -, rfl⟩ := Option.map_eq_some_iff.mp ha
    exact ⟨a, List.mem_zipIdx_iff_getElem?.mp hmem, hact⟩
  · obtain ⟨x, hx, -, rfl⟩ := Table.of_lookup_insertAll_empty hdel
    obtain ⟨⟨a, idx⟩, hmem, ha⟩ := List.mem_filterMap.mp hx
    simp only at ha
    split_ifs at ha with hact
    obtain ⟨k, -, rfl⟩ := Option.map_eq_some_iff.mp ha
    exact ⟨a, List.mem_zipIdx_iff_getElem?.mp hmem, hact⟩

/-- What the rename pass may make of an action `o` of `orig`: nothing, a rename away from the path
of a delete-remote, or a skip in place of a delete-remote. -/
def Rewrites (orig : List SyncAction) (o a : SyncAction) : Prop :=
  a = o ∨
  (o.action = .upload ∧ a.action = .renameRemote ∧
    ∃ del ∈ orig, del.action = .deleteRemote ∧ a.path = del.path) ∨
  (o.action = .deleteRemote ∧ a.action = .skip ∧ a.path = o.path)

/-- `cur` is `orig` with some positions rewritten. -/
structure RewritesAll (orig cur : List SyncAction) : Prop where
  length_eq : cur.length = orig.length
  rewrites : ∀ (j : ℕ) (o a : SyncAction), orig[j]? = some o → cur[j]? = some a → Rewrites orig o a

/-- One rewritten pair keeps every position a rewrite of its original action. -/
theorem RewritesAll.applyRename {orig cur : List SyncAction} (hcur : RewritesAll orig cur)
    {pair : ℕ × ℕ} (hup : ∃ up, orig[pair.1]? = some up ∧ up.action = .upload)
    (hdel : ∃ del, orig[pair.2]? = some del ∧ del.action = .deleteRemote) :
    RewritesAll orig (applyRename cur pair) := by
  obtain ⟨up, hup, hupAct⟩ := hup
  obtain ⟨del, hdel, hdelAct⟩ := hdel
  unfold Core.applyRename
  rcases hcu : cur[pair.1]? with _ | cu
  · exact hcur
  rcases hcd : cur[pair.2]? with _ | cd
  · exact hcur
  -- the delete keeps its path whatever the pass did to it before
  have hpath : cd.path = del.path := by
    rcases hcur.rewrites _ _ _ hdel hcd with rfl | ⟨h, -⟩ | ⟨-, -, h⟩
    · rfl
    · rw [hdelAct] at h
      cases h
    · exact h
  refine ⟨by simpa using hcur.length_eq, fun j o a ho ha => ?_⟩
  simp only [List.getElem?_set] at ha
  split_ifs at ha with h₂ hlt₂ h₁ hlt₁
  · cases ha
    rw [← h₂, hdel] at ho
    cases ho
    exact Or.inr (Or.inr ⟨hdelAct, rfl, hpath⟩)
  · cases ha
    rw [← h₁, hup] at ho
    cases ho
    exact Or.inr (Or.inl ⟨hupAct, rfl, del, List.mem_of_getElem? hdel, hdelAct, hpath⟩)
  · exact hcur.rewrites j o a ho ha

/-- **The rename pass, position by position.** -/
theorem detectRemoteRenames_rewrites (localIdx indexedIdx : PathMap FileMeta)
    (orig : List SyncAction) :
    RewritesAll orig (detectRemoteRenames localIdx indexedIdx orig) := by
  have hrun : ∀ (pairs : List (ℕ × ℕ)) (cur : List SyncAction),
      (∀ pair ∈ pairs, (∃ up, orig[pair.1]? = some up ∧ up.action = .upload) ∧
        ∃ del, orig[pair.2]? = some del ∧ del.action = .deleteRemote) →
      RewritesAll orig cur → RewritesAll orig (pairs.foldl applyRename cur) := by
    intro pairs
    induction pairs with
    | nil => exact fun cur _ hcur => hcur
    | cons pair pairs ih =>
        intro cur hpairs hcur
        obtain ⟨hup, hdel⟩ := hpairs pair List.mem_cons_self
        exact ih _ (fun q hq => hpairs q (List.mem_cons_of_mem _ hq)) (hcur.applyRename hup hdel)
  refine hrun _ orig (fun pair hp => of_mem_renamePairs hp) ⟨rfl, fun j o a ho ha => ?_⟩
  rw [ho] at ha
  exact Or.inl (Option.some.inj ha).symm

/-- Every action after the pass comes from one before it. -/
theorem of_mem_detectRemoteRenames {localIdx indexedIdx : PathMap FileMeta}
    {orig : List SyncAction} {a : SyncAction}
    (ha : a ∈ detectRemoteRenames localIdx indexedIdx orig) : ∃ o ∈ orig, Rewrites orig o a := by
  obtain ⟨hlen, hrw⟩ := detectRemoteRenames_rewrites localIdx indexedIdx orig
  obtain ⟨j, hj⟩ := List.getElem?_of_mem ha
  have hlt : j < orig.length := by
    rw [← hlen]
    exact (List.getElem?_eq_some_iff.mp hj).1
  have ho : orig[j]? = some orig[j] := List.getElem?_eq_getElem hlt
  exact ⟨orig[j], List.getElem_mem hlt, hrw j _ a ho hj⟩

/-- An action that is neither an upload nor a delete-remote survives the pass. -/
theorem mem_detectRemoteRenames_of_mem {localIdx indexedIdx : PathMap FileMeta}
    {orig : List SyncAction} {o : SyncAction} (ho : o ∈ orig) (hu : o.action ≠ .upload)
    (hd : o.action ≠ .deleteRemote) : o ∈ detectRemoteRenames localIdx indexedIdx orig := by
  obtain ⟨hlen, hrw⟩ := detectRemoteRenames_rewrites localIdx indexedIdx orig
  obtain ⟨j, hj⟩ := List.getElem?_of_mem ho
  have hlt : j < (detectRemoteRenames localIdx indexedIdx orig).length := by
    rw [hlen]
    exact (List.getElem?_eq_some_iff.mp hj).1
  have ha := List.getElem?_eq_getElem hlt
  rcases hrw j _ _ hj ha with h | ⟨h, -⟩ | ⟨h, -⟩
  · rw [← h]
    exact List.getElem_mem hlt
  · exact absurd h hu
  · exact absurd h hd

/-- Over an indexed snapshot without inodes the pass pairs nothing. The server's baselines are
such snapshots: their table has no inode column. -/
theorem detectRemoteRenames_of_inode_none {localIdx indexedIdx : PathMap FileMeta}
    (h : ∀ path m, indexedIdx.lookup path = some m → m.inode = none) (actions : List SyncAction) :
    detectRemoteRenames localIdx indexedIdx actions = actions := by
  have hdel : deleteRemoteIdx indexedIdx actions = ∅ := by
    have hnil : (actions.zipIdx.filterMap fun x : SyncAction × ℕ =>
        if x.1.action = .deleteRemote then
          ((indexedIdx.lookup x.1.path).bind renameKey).map fun key => (key, x.2)
        else none) = [] := by
      rw [List.filterMap_eq_nil_iff]
      rintro ⟨a, idx⟩ -
      split_ifs
      · rcases hm : indexedIdx.lookup a.path with _ | m
        · rfl
        · simp [renameKey, h _ _ hm]
      · rfl
    unfold deleteRemoteIdx
    rw [hnil]
    rfl
  have hpairs : renamePairs localIdx indexedIdx actions = [] := by
    unfold renamePairs
    rw [hdel, List.filterMap_eq_nil_iff]
    intro e _
    rfl
  unfold detectRemoteRenames
  rw [hpairs]
  rfl

end DiskArcana.Core
