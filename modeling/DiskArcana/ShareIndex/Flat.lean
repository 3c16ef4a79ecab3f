import DiskArcana.ShareIndex.Watch

/-!
# The share index of the mesh

The mesh has the tree of a share as a table of its regular files, in which nothing fails
(`Server.indexEvent`, `Server.fullReconcile`). Here these are the index over directories: on a tree of
regular files and directories an event does the same to the rows (`indexEvent_flat`), and what
`fullReconcile` of the mesh leaves is what a reconciliation may leave (`reconciled_flat`).
-/

namespace DiskArcana.ShareIndex

open DiskArcana.Core DiskArcana.Lib DiskArcana.Lib.DirTree DiskArcana.Server

section

variable {blake3 : Bytes → Digest} {s : SyncServer} {tree : Tree} {rel : Path} {stat : Path → FileStat}
  {now : ℤ} {db : MetaDb}

/-- The share of the server is the table of the regular files of a tree. -/
structure Flattens (s : SyncServer) (tree : Tree) : Prop where
  proper : tree.Proper FileName Leaf.IsFile
  lookup : ∀ path, s.shareTree.lookup path = tree.file path

theorem upsertLocalFile_flat (h : Flattens s tree) (hrel : RelPath rel) :
    Server.upsertLocalFile blake3 { s with db := db } rel (stat rel) =
      { s with db := upsertLocalFile blake3 s.serverNodeId tree stat true db rel } := by
  have hne : rel.isEmpty = false := List.isEmpty_eq_false_iff.mpr hrel.nonempty
  unfold Server.upsertLocalFile upsertLocalFile
  dsimp only
  rw [h.lookup, resolvePresentFile_eq h.proper]
  cases tree.file rel with
  | none => rfl
  | some bytes =>
      dsimp only [Option.map_some]
      rw [hne, hrel.pathAsStr_eq]
      rfl

theorem tombstoneLocalFile_flat (hrel : RelPath rel) :
    Server.tombstoneLocalFile { s with db := db } rel now =
      { s with db := tombstoneLocalFile s.serverNodeId now true db rel } := by
  have hne : rel.isEmpty = false := List.isEmpty_eq_false_iff.mpr hrel.nonempty
  unfold Server.tombstoneLocalFile tombstoneLocalFile
  dsimp only
  rw [hne, hrel.pathAsStr_eq]
  cases db.getFileScoped rel with
  | none => rfl
  | some row => rfl

/-- **Events**: the loop does to a flat tree what it does to its directories. -/
theorem indexEvent_flat (h : Flattens s tree) {root : Path} {e : IndexEvent} (hrel : RelPath (e.rel root))
    (hint : isInternalPath (e.rel root) = false) :
    Server.indexEvent blake3 { s with db := db } e.kind (e.rel root) (stat (e.rel root)) now =
      { s with db := indexEvent blake3 s.serverNodeId root tree stat now db e } := by
  unfold Server.indexEvent indexEvent
  rw [hint, show e.absPath.drop root.length = e.rel root from rfl]
  cases e.kind with
  | upsert => exact upsertLocalFile_flat h hrel
  | tombstone =>
      dsimp only
      rw [h.lookup, resolvePresentFile_eq h.proper]
      cases hfile : tree.file (e.rel root) with
      | none => exact tombstoneLocalFile_flat hrel
      | some bytes => exact upsertLocalFile_flat h hrel

/-- A fold of steps of which each is a step of the rows. -/
theorem foldl_flat {α : Type} {step : SyncServer → α → SyncServer} {dbStep : MetaDb → α → MetaDb}
    {l : List α} (h : ∀ db, ∀ a ∈ l, step { s with db := db } a = { s with db := dbStep db a })
    (db : MetaDb) : l.foldl step { s with db := db } = { s with db := l.foldl dbStep db } := by
  induction l generalizing db with
  | nil => rfl
  | cons a l ih =>
      rw [List.foldl_cons, List.foldl_cons, h db a List.mem_cons_self]
      exact ih (fun db b hb => h db b (List.mem_cons_of_mem a hb)) (dbStep db a)

/-- What the mesh sees of a share. -/
def seenBy (s : SyncServer) (vault : String) (tree : Tree) : Gathered where
  vault := vault
  root := tree
  files := s.shareTree.keys.filter fun rel => !isInternalPath rel
  rows := s.db.listFilesScoped

theorem faithful_seenBy (h : Flattens s tree) (hkeys : LiveKeys s.db) (vault : String) :
    (seenBy s vault tree).Faithful s.db := by
  refine ⟨h.proper.mono fun _ _ => trivial, ?_, rfl, hkeys⟩
  intro path
  show path ∈ s.shareTree.keys.filter _ ↔ _
  rw [List.mem_filter, Bool.not_eq_true', ← AList.mem_keys, ← AList.lookup_isSome, h.lookup,
    Option.isSome_iff_exists]
  exact Iff.rfl

/-- The rows that the mesh tombstones. -/
theorem isGone_seenBy (h : Flattens s tree) {env : IndexEnv} (henv : env.Works) (vault : String)
    (m : FileMeta) : isGone env (seenBy s vault tree) m =
      !(m.deleted || (seenBy s vault tree).files.contains m.path ||
        (s.shareTree.lookup m.path).isSome) := by
  unfold isGone
  rw [henv.lookOk, h.lookup, show (seenBy s vault tree).root = tree from rfl,
    resolvePresentFile_eq h.proper, Option.isSome_map, Bool.true_and, Bool.not_or, Bool.not_or]

/-- **Reconciliations**: the mesh does to the rows what the second phase does. -/
theorem fullReconcile_flat (h : Flattens s tree) (hkeys : LiveKeys s.db) {env : IndexEnv}
    (henv : env.Works) (vault : String) :
    Server.fullReconcile blake3 s (env.stat vault) env.now =
      { s with db := reconcileRows blake3 s.serverNodeId env (seenBy s vault tree) s.db } := by
  have hfaithful := faithful_seenBy h hkeys vault
  have hindex : (seenBy s vault tree).files.foldl
      (fun s rel => Server.upsertLocalFile blake3 s rel (env.stat vault rel)) s =
      { s with db := indexFiles blake3 s.serverNodeId env (seenBy s vault tree) s.db } := by
    apply foldl_flat
    intro db rel hrel
    obtain ⟨⟨bytes, hbytes⟩, -⟩ := (hfaithful.mem_files_iff rel).mp hrel
    rw [henv.upsertOk]
    exact upsertLocalFile_flat h (relPath_of_file h.proper hbytes)
  have hgone : ∀ db, (seenBy s vault tree).rows.foldl
      (fun s' m => if m.deleted || (seenBy s vault tree).files.contains m.path ||
          (s'.shareTree.lookup m.path).isSome then s'
        else Server.tombstoneLocalFile s' m.path env.now) { s with db := db } =
      { s with db := tombstoneGone s.serverNodeId env (seenBy s vault tree) db } := by
    intro db
    unfold tombstoneGone
    rw [List.foldl_filter]
    apply foldl_flat
    intro db m hm
    cases hm' : isGone env (seenBy s vault tree) m with
    | true =>
        have hskip := hm'
        rw [isGone_seenBy h henv, Bool.not_eq_true'] at hskip
        rw [if_neg (by rw [hskip]; exact Bool.false_ne_true), if_pos rfl, henv.tombstoneOk]
        exact tombstoneLocalFile_flat (hfaithful.relPath_of_isGone hm hm')
    | false =>
        rw [isGone_seenBy h henv, Bool.not_eq_false'] at hm'
        rw [if_pos hm', if_neg Bool.false_ne_true]
  show (seenBy s vault tree).rows.foldl _ ((seenBy s vault tree).files.foldl _ s) = _
  rw [hindex]
  exact hgone _

/-- The mesh leaves what a reconciliation may leave. -/
theorem reconciled_flat (h : Flattens s tree) (hkeys : LiveKeys s.db) {env : IndexEnv}
    (henv : env.Works) (vault : String) :
    Reconciled blake3 env vault tree s.db (Server.fullReconcile blake3 s (env.stat vault) env.now).db := by
  rw [fullReconcile_flat h hkeys henv vault]
  exact (faithful_seenBy h hkeys vault).reconciled

end

end DiskArcana.ShareIndex
