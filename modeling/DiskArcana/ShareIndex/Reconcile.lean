import DiskArcana.ShareIndex.Model
import DiskArcana.System.Mesh

/-!
# What a reconciliation leaves

A walk that ends without an error has seen exactly the regular files outside the internal directories
(`mem_walkFiles`). So a reconciliation that answers has a live row, with the hash and the size of the
content, for every such file whose upsert went through; every other row that is still live had been
live before and has a file at its path, or its tombstone could not be written. A reconciliation that
ends with an error has changed nothing (`fullReconcile_exact`).
-/

namespace DiskArcana.ShareIndex

open DiskArcana.Core DiskArcana.Lib DiskArcana.Lib.DirTree DiskArcana.Lib.LexicalPath
open DiskArcana.Server DiskArcana.Hosting

/-! ## Names and keys -/

/-- A file name of the system, without a backslash. -/
structure FileName (name : String) : Prop extends Clean name where
  backslash : '\\' ∉ name.toList

theorem fileName_iff {name : String} : FileName name ↔
    (name.toList ≠ [] ∧ '/' ∉ name.toList ∧ name ≠ "." ∧ name ≠ "..") ∧ '\\' ∉ name.toList :=
  ⟨fun h => ⟨⟨h.nonempty, h.slash, h.dot, h.dots⟩, h.backslash⟩,
    fun h => ⟨⟨h.1.1, h.1.2.1, h.1.2.2.1, h.1.2.2.2⟩, h.2⟩⟩

instance (name : String) : Decidable (FileName name) := decidable_of_iff _ fileName_iff.symm

/-- A relative path of such names. -/
structure RelPath (path : Path) : Prop where
  nonempty : path ≠ []
  names : ∀ n ∈ path, FileName n

theorem relPath_iff {path : Path} : RelPath path ↔ path ≠ [] ∧ ∀ n ∈ path, FileName n :=
  ⟨fun h => ⟨h.nonempty, h.names⟩, fun h => ⟨h.1, h.2⟩⟩

instance (path : Path) : Decidable (RelPath path) := decidable_of_iff _ relPath_iff.symm

/-- Such a path is its own key. -/
theorem RelPath.pathAsStr_eq {path : Path} (h : RelPath path) : pathAsStr path = path := by
  rw [Hosting.pathAsStr_eq fun n hn => (h.names n hn).backslash]
  have hsplit : splitSlash (pathString path).toList = path.map String.toList := by
    unfold pathString
    rw [splitSlash_eq_splitOn, String.toList_intercalate]
    apply List.splitOn_intercalate '/'
    · intro part hpart
      obtain ⟨n, hn, rfl⟩ := List.mem_map.mp hpart
      exact (h.names n hn).slash
    · intro hnil
      exact h.nonempty (List.map_eq_nil_iff.mp hnil)
  unfold dbKey
  rw [hsplit, List.map_map]
  simp [Function.comp_def]

/-- The live rows of a vault are under such paths. -/
def LiveKeys (db : MetaDb) : Prop :=
  ∀ path row, db.files.lookup path = some row → row.deleted = false → RelPath path

/-- `canonical_roots`, in the order in which the map is read. -/
structure Roots where
  shares : List (String × Tree)
  nodup : (shares.map Prod.fst).Nodup
  proper : ∀ share ∈ shares, share.2.Proper FileName fun _ => True

theorem relPath_of_file {root : Tree} {leafOk : Leaf Bytes → Prop} (hroot : root.Proper FileName leafOk)
    {path : Path} {bytes : Bytes} (h : root.file path = some bytes) : RelPath path := by
  refine ⟨?_, (hroot.of_get (Listing.file_eq_some_iff.mp h)).1⟩
  rintro rfl
  cases h

/-! ## The walk -/

/-- A computation that went through has gone through its first part. -/
theorem of_bind_eq_ok {ε β γ : Type} {x : Except ε β} {f : β → Except ε γ} {c : γ}
    (h : (x >>= f) = .ok c) : ∃ b, x = .ok b ∧ f b = .ok c := by
  cases x with
  | error e => cases h
  | ok b => exact ⟨b, rfl, h⟩

theorem isInternalPath_append (dir below : Path) :
    isInternalPath (dir ++ below) = (isInternalPath dir || isInternalPath below) := by
  unfold isInternalPath
  exact List.any_append

/-- A file below a directory of the tree, outside the internal directories. -/
def Indexable (l : Tree) (dir path : Path) : Prop :=
  ∃ below bytes, path = dir ++ below ∧ l.file below = some bytes ∧ isInternalPath path = false

theorem indexable_leaf_iff {name : String} {e : Leaf Bytes} {rest : Tree}
    (hnew : name ∉ rest.names) {dir path : Path} :
    Indexable (.leaf name e rest) dir path ↔
      (path = dir ++ [name] ∧ (∃ bytes, e = .file bytes) ∧ isInternalPath path = false) ∨
        Indexable rest dir path := by
  constructor
  · rintro ⟨below, bytes, hpath, hfile, hint⟩
    rcases (Listing.file_leaf_iff hnew).mp hfile with ⟨rfl, he⟩ | hrest
    · exact Or.inl ⟨hpath, ⟨bytes, he⟩, hint⟩
    · exact Or.inr ⟨below, bytes, hpath, hrest, hint⟩
  · rintro (⟨hpath, ⟨bytes, he⟩, hint⟩ | ⟨below, bytes, hpath, hrest, hint⟩)
    · exact ⟨[name], bytes, hpath, (Listing.file_leaf_iff hnew).mpr (Or.inl ⟨rfl, he⟩), hint⟩
    · exact ⟨below, bytes, hpath, (Listing.file_leaf_iff hnew).mpr (Or.inr hrest), hint⟩

theorem indexable_dir_iff {name : String} {children rest : Tree} (hnew : name ∉ rest.names)
    {dir path : Path} :
    Indexable (.dir name children rest) dir path ↔
      Indexable children (dir ++ [name]) path ∨ Indexable rest dir path := by
  constructor
  · rintro ⟨below, bytes, hpath, hfile, hint⟩
    rcases (Listing.file_dir_iff hnew).mp hfile with ⟨below', rfl, hchild⟩ | hrest
    · exact Or.inl ⟨below', bytes, by rw [hpath, List.append_assoc]; rfl, hchild, hint⟩
    · exact Or.inr ⟨below, bytes, hpath, hrest, hint⟩
  · rintro (⟨below, bytes, hpath, hchild, hint⟩ | ⟨below, bytes, hpath, hrest, hint⟩)
    · refine ⟨name :: below, bytes, ?_, (Listing.file_dir_iff hnew).mpr (Or.inl ⟨below, rfl, hchild⟩),
        hint⟩
      rw [hpath, List.append_assoc]
      rfl
    · exact ⟨below, bytes, hpath, (Listing.file_dir_iff hnew).mpr (Or.inr hrest), hint⟩

/-- Nothing below an internal directory is indexed. -/
theorem not_indexable_of_internal {l : Tree} {dir path : Path} (hdir : isInternalPath dir = true) :
    ¬ Indexable l dir path := by
  rintro ⟨below, bytes, rfl, -, hint⟩
  rw [isInternalPath_append, hdir] at hint
  cases hint

section

variable {fault : WalkCall → Option String} {dir : Path} {name : String} {rest : Tree} {files : List Path}

/-- A walk past a leaf: a regular file outside the internal directories is listed. -/
theorem of_walkEntries_leaf {e : Leaf Bytes} (h : walkEntries fault dir (.leaf name e rest) = .ok files) :
    ∃ more, walkEntries fault dir rest = .ok more ∧ ∀ path, path ∈ files ↔
      (path = dir ++ [name] ∧ (∃ bytes, e = .file bytes) ∧ isInternalPath path = false) ∨
        path ∈ more := by
  obtain ⟨-, -, h⟩ := of_bind_eq_ok h
  obtain ⟨-, -, h⟩ := of_bind_eq_ok h
  cases e with
  | link target =>
      refine ⟨files, h, ?_⟩
      simp
  | other =>
      refine ⟨files, h, ?_⟩
      simp
  | file bytes =>
      dsimp only at h
      split_ifs at h with hint
      · refine ⟨files, h, fun path => (or_iff_right ?_).symm⟩
        rintro ⟨rfl, -, hnot⟩
        rw [hint] at hnot
        cases hnot
      · obtain ⟨-, -, h⟩ := of_bind_eq_ok h
        obtain ⟨more, hmore, h⟩ := of_bind_eq_ok h
        cases h
        refine ⟨more, hmore, fun path => ?_⟩
        rw [List.mem_cons]
        apply or_congr _ Iff.rfl
        constructor
        · rintro rfl
          exact ⟨rfl, ⟨bytes, rfl⟩, Bool.eq_false_iff.mpr hint⟩
        · exact fun hpath => hpath.1

/-- A walk past a directory: an internal one is not entered. -/
theorem of_walkEntries_dir {children : Tree}
    (h : walkEntries fault dir (.dir name children rest) = .ok files) :
    (isInternalPath (dir ++ [name]) = true ∧ walkEntries fault dir rest = .ok files) ∨
    ∃ below more, walkEntries fault (dir ++ [name]) children = .ok below ∧
      walkEntries fault dir rest = .ok more ∧ files = below ++ more := by
  obtain ⟨-, -, h⟩ := of_bind_eq_ok h
  obtain ⟨-, -, h⟩ := of_bind_eq_ok h
  split_ifs at h with hint
  · exact Or.inl ⟨hint, h⟩
  · obtain ⟨-, -, h⟩ := of_bind_eq_ok h
    obtain ⟨-, -, h⟩ := of_bind_eq_ok h
    obtain ⟨below, hbelow, h⟩ := of_bind_eq_ok h
    obtain ⟨more, hmore, h⟩ := of_bind_eq_ok h
    cases h
    exact Or.inr ⟨below, more, hbelow, hmore, rfl⟩

end

/-- What a walk of one directory lists. -/
theorem mem_walkEntries {fault : WalkCall → Option String} {ok : String → Prop} {leafOk : Leaf Bytes → Prop}
    {l : Tree} (hl : l.Proper ok leafOk) {dir : Path} {files : List Path}
    (h : walkEntries fault dir l = .ok files) (path : Path) : path ∈ files ↔ Indexable l dir path := by
  induction l generalizing dir files with
  | nil =>
      obtain ⟨-, -, hfiles⟩ := of_bind_eq_ok h
      cases hfiles
      constructor
      · intro hmem
        cases hmem
      · rintro ⟨below, bytes, -, hfile, -⟩
        cases below <;> cases hfile
  | leaf name e rest ih =>
      obtain ⟨-, -, hnew, hrest⟩ := hl
      obtain ⟨more, hmore, hmem⟩ := of_walkEntries_leaf h
      rw [hmem, indexable_leaf_iff hnew, ih hrest hmore]
  | dir name children rest ihBelow ihRest =>
      obtain ⟨-, hchildren, hnew, hrest⟩ := hl
      rw [indexable_dir_iff hnew]
      rcases of_walkEntries_dir h with ⟨hint, hwalk⟩ | ⟨below, more, hbelow, hmore, rfl⟩
      · rw [ihRest hrest hwalk]
        exact (or_iff_right (not_indexable_of_internal hint)).symm
      · rw [List.mem_append, ihBelow hchildren hbelow, ihRest hrest hmore]

/-- **What a walk lists**: the regular files outside the internal directories. -/
theorem mem_walkFiles {fault : WalkCall → Option String} {ok : String → Prop} {leafOk : Leaf Bytes → Prop}
    {root : Tree} (hroot : root.Proper ok leafOk) {files : List Path} (h : walkFiles fault root = .ok files) (path : Path) :
    path ∈ files ↔ (∃ bytes, root.file path = some bytes) ∧ isInternalPath path = false := by
  obtain ⟨-, -, h⟩ := of_bind_eq_ok h
  rw [mem_walkEntries hroot h]
  constructor
  · rintro ⟨below, bytes, rfl, hfile, hint⟩
    exact ⟨⟨bytes, hfile⟩, hint⟩
  · rintro ⟨⟨bytes, hfile⟩, hint⟩
    exact ⟨path, bytes, rfl, hfile, hint⟩

/-! ## One file -/

/-- A row that says what a file holds. -/
structure IndexedRow (blake3 : Bytes → Digest) (bytes : Bytes) (row : FileRow) : Prop where
  live : row.deleted = false
  hash : row.contentHash = blake3 bytes
  size : row.size = bytes.length

/-- A row as the index writes it: the version columns apart, all of it is read off the disk. -/
structure WrittenRow (blake3 : Bytes → Digest) (bytes : Bytes) (stat : FileStat) (row : FileRow) : Prop
    extends IndexedRow blake3 bytes row where
  mtimeNs : row.mtimeNs = stat.mtimeNs
  inode : row.inode = stat.inode
  vectorClock : row.vectorClock = .new
  deletedAt : row.deletedAt = none
  encryptionNonce : row.encryptionNonce = none

/-- The columns that only a versioned upsert writes. -/
def versionColumns (row : Option FileRow) : Option ℕ × Option ℕ :=
  (row.bind FileRow.versionId, row.bind FileRow.parentVersionId)

/-- The disk and the version columns determine a row that the index wrote. -/
theorem WrittenRow.eq_of_versionColumns {blake3 : Bytes → Digest} {bytes : Bytes} {stat : FileStat}
    {row row' : FileRow} (h : WrittenRow blake3 bytes stat row) (h' : WrittenRow blake3 bytes stat row')
    (hversions : versionColumns (some row) = versionColumns (some row')) : row = row' := by
  obtain ⟨hversion, hparent⟩ := Prod.mk.inj hversions
  obtain ⟨⟨hlive, hhash, hsize⟩, hmtime, hinode, hclock, hat, hnonce⟩ := h
  obtain ⟨⟨hlive', hhash', hsize'⟩, hmtime', hinode', hclock', hat', hnonce'⟩ := h'
  obtain ⟨⟩ := row
  obtain ⟨⟩ := row'
  simp_all

/-- No version column differs. -/
def KeepsVersions (before after : MetaDb) : Prop :=
  ∀ path, versionColumns (after.files.lookup path) = versionColumns (before.files.lookup path)

theorem KeepsVersions.trans {a b c : MetaDb} (hab : KeepsVersions a b) (hbc : KeepsVersions b c) :
    KeepsVersions a c := fun path => (hbc path).trans (hab path)

theorem keepsVersions_upsertFileScoped (db : MetaDb) (m : FileMeta) :
    KeepsVersions db (db.upsertFileScoped m) := by
  intro path
  rw [MetaDb.lookup_upsertFileScoped]
  split_ifs with h
  · rw [h]
    rfl
  · rfl

theorem keepsVersions_foldl {α : Type} {step : MetaDb → α → MetaDb}
    (hstep : ∀ db a, KeepsVersions db (step db a)) (l : List α) (db : MetaDb) :
    KeepsVersions db (l.foldl step db) := by
  induction l generalizing db with
  | nil => exact fun path => rfl
  | cons a l ih => exact (hstep db a).trans (ih (step db a))

/-- The file at a path is the one that the path leads to. -/
theorem resolvePresentFile_of_file {root : Tree} {path : Path} {bytes : Bytes}
    (h : root.file path = some bytes) : resolvePresentFile root path = some (path, bytes) := by
  unfold resolvePresentFile
  rw [Listing.lstat_of_get maxLinks (Listing.file_eq_some_iff.mp h)]

/-- What a path leads to is a file at its canonical location. -/
theorem file_of_resolvePresentFile {root : Tree} {path canonical : Path} {bytes : Bytes}
    (h : resolvePresentFile root path = some (canonical, bytes)) :
    root.file canonical = some bytes := by
  unfold resolvePresentFile at h
  split at h
  · rename_i canonical' bytes' hstat
    cases h
    exact Listing.file_eq_some_iff.mpr (Listing.get_of_lstat hstat)
  · cases h

section

variable {blake3 : Bytes → Digest} {nodeId : NodeId}

variable (blake3 nodeId) in
/-- An upsert writes the row of the canonical location. -/
theorem upsertLocalFile_files {root : Tree} {leafOk : Leaf Bytes → Prop}
    (hroot : root.Proper FileName leafOk) (stat : Path → FileStat) (db : MetaDb)
    {rel canonical : Path} {bytes : Bytes}
    (h : resolvePresentFile root rel = some (canonical, bytes)) :
    ∃ row, WrittenRow blake3 bytes (stat canonical) row ∧
      (upsertLocalFile blake3 nodeId root stat true db rel).files = db.files.insert canonical row := by
  have hrel := relPath_of_file hroot (file_of_resolvePresentFile h)
  have hne : canonical.isEmpty = false := List.isEmpty_eq_false_iff.mpr hrel.nonempty
  unfold upsertLocalFile
  rw [h]
  dsimp only
  rw [hne, hrel.pathAsStr_eq]
  exact ⟨_, ⟨⟨rfl, rfl, rfl⟩, rfl, rfl, rfl, rfl, rfl⟩, rfl⟩

theorem keepsVersions_upsertLocalFile (root : Tree) (stat : Path → FileStat) (ok : Bool) (db : MetaDb)
    (rel : Path) : KeepsVersions db (upsertLocalFile blake3 nodeId root stat ok db rel) := by
  unfold upsertLocalFile
  split
  · split_ifs
    · exact fun path => rfl
    · exact keepsVersions_upsertFileScoped db _
  · exact fun path => rfl

/-- An upsert that finds no file, or fails, writes nothing. -/
theorem upsertLocalFile_eq_self {root : Tree} {stat : Path → FileStat} {ok : Bool} {db : MetaDb}
    {rel : Path} (h : resolvePresentFile root rel = none ∨ ok = false) :
    upsertLocalFile blake3 nodeId root stat ok db rel = db := by
  unfold upsertLocalFile
  rcases h with h | rfl
  · rw [h]
  · split
    · rw [Bool.not_false, Bool.or_true, if_pos rfl]
    · rfl

variable (nodeId) in
/-- A tombstone is written at its path. -/
theorem tombstoneLocalFile_files (now : ℤ) (db : MetaDb) {rel : Path} (hrel : RelPath rel) :
    ∃ row : FileRow, row.deleted = true ∧
      (tombstoneLocalFile nodeId now true db rel).files = db.files.insert rel row := by
  have hne : rel.isEmpty = false := List.isEmpty_eq_false_iff.mpr hrel.nonempty
  unfold tombstoneLocalFile
  rw [hne, hrel.pathAsStr_eq, Bool.not_true, Bool.or_false, if_neg Bool.false_ne_true]
  cases hrow : db.getFileScoped rel with
  | none => exact ⟨_, rfl, rfl⟩
  | some m =>
      obtain ⟨row, -, rfl⟩ := Option.map_eq_some_iff.mp hrow
      exact ⟨_, rfl, rfl⟩

theorem keepsVersions_tombstoneLocalFile (now : ℤ) (ok : Bool) (db : MetaDb) (rel : Path) :
    KeepsVersions db (tombstoneLocalFile nodeId now ok db rel) := by
  unfold tombstoneLocalFile
  split_ifs
  · exact fun path => rfl
  · split
    · exact keepsVersions_upsertFileScoped db _
    · exact keepsVersions_upsertFileScoped db _

theorem tombstoneLocalFile_eq_self {now : ℤ} {db : MetaDb} {rel : Path} :
    tombstoneLocalFile nodeId now false db rel = db := by
  unfold tombstoneLocalFile
  rw [Bool.not_false, Bool.or_true, if_pos rfl]

/-! ## One share -/

/-- What the first phase knows of a share is true. -/
structure Gathered.Faithful (g : Gathered) (db : MetaDb) : Prop where
  proper : g.root.Proper FileName fun _ => True
  mem_files_iff : ∀ path, path ∈ g.files ↔
    (∃ bytes, g.root.file path = some bytes) ∧ isInternalPath path = false
  rows : g.rows = db.listFilesScoped
  keys : LiveKeys db

section

variable {env : IndexEnv} {g : Gathered}

theorem isGone_iff {row : FileMeta} : isGone env g row = true ↔
    row.deleted = false ∧ row.path ∉ g.files ∧
      ¬ (env.lookOk g.vault row.path = true ∧ (resolvePresentFile g.root row.path).isSome = true) := by
  unfold isGone
  rw [Bool.and_eq_true, Bool.and_eq_true, and_assoc, Bool.not_eq_true', Bool.not_eq_true',
    Bool.not_eq_true', ← Bool.not_eq_true (g.files.contains row.path), List.contains_iff_mem,
    ← Bool.not_eq_true (_ && _), Bool.and_eq_true]

variable {db : MetaDb} (h : g.Faithful db)

include h

theorem Gathered.Faithful.mem_rows_iff {m : FileMeta} :
    m ∈ g.rows ↔ db.getFileScoped m.path = some m := by
  rw [h.rows]
  exact db.lists_listFilesScoped.mem_iff m

theorem Gathered.Faithful.relPath_of_isGone {m : FileMeta} (hm : m ∈ g.rows)
    (hgone : isGone env g m = true) : RelPath m.path := by
  obtain ⟨row, hrow, hm'⟩ := Option.map_eq_some_iff.mp (h.mem_rows_iff.mp hm)
  apply h.keys m.path row hrow
  rw [← (isGone_iff.mp hgone).1, ← hm']
  rfl

variable (blake3 nodeId) in
/-- An upsert of a file that the walk has seen. -/
theorem Gathered.Faithful.upsertLocalFile_files (db : MetaDb) {f : Path} (hf : f ∈ g.files)
    (hok : env.upsertOk g.vault f = true) : ∃ row,
      (∃ bytes, g.root.file f = some bytes ∧ WrittenRow blake3 bytes (env.stat g.vault f) row) ∧
      (upsertLocalFile blake3 nodeId g.root (env.stat g.vault) (env.upsertOk g.vault f) db f).files =
        db.files.insert f row := by
  obtain ⟨⟨bytes, hbytes⟩, -⟩ := (h.mem_files_iff f).mp hf
  obtain ⟨row, hrow, hwritten⟩ := ShareIndex.upsertLocalFile_files blake3 nodeId h.proper
    (env.stat g.vault) db (resolvePresentFile_of_file hbytes)
  rw [hok]
  exact ⟨row, ⟨bytes, hbytes, hrow⟩, hwritten⟩

/-- The rows after the files are indexed, where none was. -/
theorem Gathered.Faithful.lookup_indexFiles (db : MetaDb) {path : Path}
    (hnot : path ∉ g.files ∨ env.upsertOk g.vault path = false) :
    (indexFiles blake3 nodeId env g db).files.lookup path = db.files.lookup path := by
  unfold indexFiles
  apply Table.lookup_foldl_of_not_written MetaDb.files id (env.upsertOk g.vault)
  · exact fun db f hf hok => h.upsertLocalFile_files blake3 nodeId db hf hok
  · exact fun db f _ hfail => congrArg MetaDb.files (upsertLocalFile_eq_self (Or.inr hfail))
  · rintro f hf rfl
    exact hnot.resolve_left (not_not.mpr hf)

/-- The row of an indexed file. -/
theorem Gathered.Faithful.exists_lookup_indexFiles (db : MetaDb) {path : Path} {bytes : Bytes}
    (hmem : path ∈ g.files) (hfile : g.root.file path = some bytes)
    (hok : env.upsertOk g.vault path = true) :
    ∃ row, (indexFiles blake3 nodeId env g db).files.lookup path = some row ∧
      WrittenRow blake3 bytes (env.stat g.vault path) row := by
  have hwritten := Table.exists_lookup_foldl_of_written MetaDb.files id (env.upsertOk g.vault)
    (fun db f hf hok => h.upsertLocalFile_files blake3 nodeId db hf hok)
    (fun db f _ hfail => congrArg MetaDb.files (upsertLocalFile_eq_self (Or.inr hfail))) db
    ⟨path, hmem, rfl, hok⟩
  obtain ⟨f, -, rfl, row, hrow, bytes', hbytes', hwritten⟩ := hwritten
  cases hfile.symm.trans hbytes'
  exact ⟨row, hrow, hwritten⟩

variable (nodeId) in
theorem Gathered.Faithful.tombstoneLocalFile_files (db : MetaDb) {m : FileMeta}
    (hm : m ∈ g.rows.filter (isGone env g)) (hok : env.tombstoneOk g.vault m.path = true) :
    ∃ row : FileRow, row.deleted = true ∧
      (tombstoneLocalFile nodeId env.now (env.tombstoneOk g.vault m.path) db m.path).files =
        db.files.insert m.path row := by
  obtain ⟨hmem, hgone⟩ := List.mem_filter.mp hm
  rw [hok]
  exact ShareIndex.tombstoneLocalFile_files nodeId env.now db (h.relPath_of_isGone hmem hgone)

/-- The rows after the lost ones are tombstoned, where none was. -/
theorem Gathered.Faithful.lookup_tombstoneGone (db : MetaDb) {path : Path}
    (hnot : ∀ m ∈ g.rows, m.path = path → isGone env g m = true →
      env.tombstoneOk g.vault path = false) :
    (tombstoneGone nodeId env g db).files.lookup path = db.files.lookup path := by
  unfold tombstoneGone
  apply Table.lookup_foldl_of_not_written MetaDb.files FileMeta.path
    (fun m => env.tombstoneOk g.vault m.path)
  · exact fun db m hm hok => h.tombstoneLocalFile_files nodeId db hm hok
  · intro db m _ hfail
    rw [hfail, tombstoneLocalFile_eq_self]
  · rintro m hm rfl
    obtain ⟨hmem, hgone⟩ := List.mem_filter.mp hm
    exact hnot m hmem rfl hgone

variable (nodeId) in
/-- A lost row is not live afterwards. -/
theorem Gathered.Faithful.exists_lookup_tombstoneGone (db : MetaDb) {m : FileMeta} (hm : m ∈ g.rows)
    (hgone : isGone env g m = true) (hok : env.tombstoneOk g.vault m.path = true) :
    ∃ row : FileRow, (tombstoneGone nodeId env g db).files.lookup m.path = some row ∧
      row.deleted = true := by
  have hwritten := Table.exists_lookup_foldl_of_written MetaDb.files FileMeta.path
    (fun m => env.tombstoneOk g.vault m.path)
    (fun db m hm hok => h.tombstoneLocalFile_files nodeId db hm hok)
    (fun db m _ hfail => by rw [hfail, tombstoneLocalFile_eq_self]) db
    ⟨m, List.mem_filter.mpr ⟨hm, hgone⟩, rfl, hok⟩
  obtain ⟨-, -, -, row, hrow, hdeleted⟩ := hwritten
  exact ⟨row, hrow, hdeleted⟩

/-- The tombstone pass keeps out of the way of the files that the walk has seen. -/
theorem Gathered.Faithful.lookup_reconcileRows_of_mem {path : Path} (hmem : path ∈ g.files) :
    (reconcileRows blake3 nodeId env g db).files.lookup path =
      (indexFiles blake3 nodeId env g db).files.lookup path := by
  apply h.lookup_tombstoneGone
  rintro m - rfl hgone
  exact absurd hmem (isGone_iff.mp hgone).2.1

end

/-- What a reconciliation of one share does to its rows. -/
structure Reconciled (blake3 : Bytes → Digest) (env : IndexEnv) (vault : String) (root : Tree)
    (before after : MetaDb) : Prop where
  /-- Every file outside the internal directories is indexed, if its upsert goes through. -/
  indexed : ∀ path bytes, root.file path = some bytes → isInternalPath path = false →
    env.upsertOk vault path = true → ∃ row,
      after.files.lookup path = some row ∧ WrittenRow blake3 bytes (env.stat vault path) row
  /-- Any other live row had been there, and was left because a file was found at its path, or because
  its tombstone could not be written. -/
  left : ∀ path row, after.files.lookup path = some row → row.deleted = false →
    ¬ ((∃ bytes, root.file path = some bytes) ∧ isInternalPath path = false) →
    before.files.lookup path = some row ∧
      ((env.lookOk vault path = true ∧ (resolvePresentFile root path).isSome) ∨
        env.tombstoneOk vault path = false)
  /-- A row that was right about the content of its file still is. -/
  kept : ∀ path bytes row, root.file path = some bytes → isInternalPath path = false →
    before.files.lookup path = some row → IndexedRow blake3 bytes row → ∃ row',
      after.files.lookup path = some row' ∧ IndexedRow blake3 bytes row'
  /-- A row that was as the index writes it is the same row. -/
  unchanged : ∀ path bytes row, root.file path = some bytes → isInternalPath path = false →
    before.files.lookup path = some row → WrittenRow blake3 bytes (env.stat vault path) row →
    after.files.lookup path = some row
  versions : KeepsVersions before after

section

variable {env : IndexEnv} {g : Gathered} {db : MetaDb}

variable (blake3 nodeId env g db) in
theorem keepsVersions_reconcileRows : KeepsVersions db (reconcileRows blake3 nodeId env g db) :=
  (keepsVersions_foldl (fun db rel => keepsVersions_upsertLocalFile g.root _ _ db rel) g.files db).trans
    (keepsVersions_foldl (fun db _ => keepsVersions_tombstoneLocalFile env.now _ db _) _ _)

variable (h : g.Faithful db)

include h

variable (blake3 nodeId) in
/-- The row of a file that the walk has seen is left alone, if its upsert fails, or written. -/
theorem Gathered.Faithful.lookup_of_file {path : Path} {bytes : Bytes}
    (hfile : g.root.file path = some bytes) (hint : isInternalPath path = false) :
    (env.upsertOk g.vault path = false ∧
      (reconcileRows blake3 nodeId env g db).files.lookup path = db.files.lookup path) ∨
    ∃ row, (reconcileRows blake3 nodeId env g db).files.lookup path = some row ∧
      WrittenRow blake3 bytes (env.stat g.vault path) row := by
  have hmem : path ∈ g.files := (h.mem_files_iff path).mpr ⟨⟨bytes, hfile⟩, hint⟩
  rw [h.lookup_reconcileRows_of_mem hmem]
  cases hok : env.upsertOk g.vault path with
  | false => exact Or.inl ⟨rfl, h.lookup_indexFiles db (Or.inr hok)⟩
  | true => exact Or.inr (h.exists_lookup_indexFiles db hmem hfile hok)

/-- A row that is live although the walk has not seen its file. -/
theorem Gathered.Faithful.of_live {path : Path} {row : FileRow}
    (hrow : (reconcileRows blake3 nodeId env g db).files.lookup path = some row)
    (hlive : row.deleted = false) (hmem : path ∉ g.files) :
    db.files.lookup path = some row ∧
      ((env.lookOk g.vault path = true ∧ (resolvePresentFile g.root path).isSome) ∨
        env.tombstoneOk g.vault path = false) := by
  have hnone : ∀ m ∈ g.rows, m.path = path → isGone env g m = true →
      env.tombstoneOk g.vault path = false := by
    rintro m hm rfl hgone
    apply Bool.eq_false_iff.mpr
    intro hok
    obtain ⟨row', hrow', hdeleted⟩ := h.exists_lookup_tombstoneGone nodeId
      (indexFiles blake3 nodeId env g db) hm hgone hok
    cases hrow.symm.trans hrow'
    rw [hlive] at hdeleted
    cases hdeleted
  have hbefore : db.files.lookup path = some row := by
    rw [← hrow, reconcileRows, h.lookup_tombstoneGone _ hnone, h.lookup_indexFiles db (Or.inl hmem)]
  refine ⟨hbefore, ?_⟩
  have hlisted : rowToMeta path row ∈ g.rows := by
    apply h.mem_rows_iff.mpr
    show (db.files.lookup path).map (rowToMeta path) = some (rowToMeta path row)
    rw [hbefore]
    rfl
  by_cases hgone : isGone env g (rowToMeta path row) = true
  · exact Or.inr (hnone _ hlisted rfl hgone)
  · left
    by_contra hfile
    exact hgone (isGone_iff.mpr ⟨hlive, hmem, hfile⟩)

/-- **One share**: its rows after the second phase, if the first phase saw it as it is. -/
theorem Gathered.Faithful.reconciled :
    Reconciled blake3 env g.vault g.root db (reconcileRows blake3 nodeId env g db) := by
  have hversions := keepsVersions_reconcileRows blake3 nodeId env g db
  refine ⟨?_, ?_, ?_, ?_, hversions⟩
  · intro path bytes hfile hint hok
    rcases h.lookup_of_file blake3 nodeId hfile hint with ⟨hfail, -⟩ | hwritten
    · rw [hfail] at hok
      cases hok
    · exact hwritten
  · intro path row hrow hlive hnot
    exact h.of_live hrow hlive fun hmem => hnot ((h.mem_files_iff path).mp hmem)
  · intro path bytes row hfile hint hrow hindexed
    rcases h.lookup_of_file blake3 nodeId hfile hint with ⟨-, hsame⟩ | ⟨row', hrow', hwritten⟩
    · exact ⟨row, hsame.trans hrow, hindexed⟩
    · exact ⟨row', hrow', hwritten.toIndexedRow⟩
  · intro path bytes row hfile hint hrow hwritten
    rcases h.lookup_of_file blake3 nodeId hfile hint with ⟨-, hsame⟩ | ⟨row', hrow', hwritten'⟩
    · exact hsame.trans hrow
    · have hcolumns := hversions path
      rw [hrow, hrow'] at hcolumns
      rw [hrow', hwritten'.eq_of_versionColumns hwritten hcolumns]

end

/-! ## All shares -/

/-- What a list of calls that all went through has given. -/
theorem of_mapM_eq_ok {ε β γ : Type} {f : β → Except ε γ} (back : γ → β)
    (hback : ∀ b c, f b = .ok c → back c = b) {l : List β} {r : List γ} (h : l.mapM f = .ok r) :
    r.map back = l ∧ ∀ c ∈ r, f (back c) = .ok c := by
  induction l generalizing r with
  | nil =>
      cases h
      exact ⟨rfl, nofun⟩
  | cons b l ih =>
      rw [List.mapM_cons] at h
      obtain ⟨c, hc, h⟩ := of_bind_eq_ok h
      obtain ⟨more, hmore, h⟩ := of_bind_eq_ok h
      cases h
      obtain ⟨hmap, hcalls⟩ := ih hmore
      rw [List.map_cons, hmap, hback b c hc]
      refine ⟨rfl, List.forall_mem_cons.mpr ⟨?_, hcalls⟩⟩
      rw [hback b c hc]
      exact hc

theorem of_listRows_eq_ok {fault : Option String} {db : MetaDb} {rows : List FileMeta}
    (h : listRows fault db = .ok rows) : rows = db.listFilesScoped := by
  unfold listRows at h
  split at h
  · cases h
  · cases h
    rfl

/-- The first phase sees every share, in order, and as it is. -/
theorem of_gather_eq_ok {env : IndexEnv} {shares : List (String × Tree)} {db : Vaults}
    {gathered : List Gathered} (h : gather env shares db = .ok gathered) :
    gathered.map (fun g => (g.vault, g.root)) = shares ∧ ∀ g ∈ gathered,
      walkFiles (env.walk g.vault) g.root = .ok g.files ∧ g.rows = (db g.vault).listFilesScoped := by
  obtain ⟨walked, hwalked, h⟩ := of_bind_eq_ok h
  obtain ⟨hshares, hwalks⟩ := of_mapM_eq_ok Prod.fst (by
    intro share w hw
    obtain ⟨files, -, hfiles⟩ := of_bind_eq_ok hw
    cases hfiles
    rfl) hwalked
  obtain ⟨hmap, hlists⟩ := of_mapM_eq_ok (fun g : Gathered => ((g.vault, g.root), g.files)) (by
    rintro ⟨share, files⟩ g hg
    obtain ⟨rows, -, hrows⟩ := of_bind_eq_ok hg
    cases hrows
    rfl) h
  refine ⟨?_, ?_⟩
  · rw [← hshares, ← hmap, List.map_map]
    rfl
  · intro g hg
    have hwalk := hwalks ((g.vault, g.root), g.files) (hmap ▸ List.mem_map_of_mem hg)
    obtain ⟨files, hfiles, hsame⟩ := of_bind_eq_ok hwalk
    obtain ⟨rows, hrows, hg'⟩ := of_bind_eq_ok (hlists g hg)
    cases hsame
    refine ⟨hfiles, ?_⟩
    rw [← of_listRows_eq_ok hrows]
    exact (congrArg Gathered.rows (Except.ok.inj hg')).symm

/-- The sweep leaves the rows of the configured shares alone. -/
theorem of_sweepShadowedDefaultRows_eq_ok {env : IndexEnv} {shares : List String} {db swept : Vaults}
    (h : sweepShadowedDefaultRows env shares db = .ok swept) {vault : String} (hvault : vault ∈ shares) :
    swept vault = db vault := by
  unfold sweepShadowedDefaultRows at h
  split_ifs at h with hlegacy
  · cases h
    rfl
  · obtain ⟨legacyRows, -, h⟩ := of_bind_eq_ok h
    split_ifs at h
    · cases h
      rfl
    · obtain ⟨claimed, -, h⟩ := of_bind_eq_ok h
      cases h
      apply Function.update_of_ne
      rintro rfl
      exact hlegacy hvault

variable (blake3 nodeId) in
/-- How a reconciliation can end. -/
theorem fullReconcile_cases (env : IndexEnv) (shares : List (String × Tree)) (db : Vaults) :
    (∃ e, fullReconcile blake3 nodeId env shares db = (.error e, db)) ∨
    ∃ gathered swept, gather env shares db = .ok gathered ∧
      sweepShadowedDefaultRows env (shares.map Prod.fst) db = .ok swept ∧
      fullReconcile blake3 nodeId env shares db =
        (.ok (gathered.map revived).sum, gathered.foldl
          (fun db g => Function.update db g.vault (reconcileRows blake3 nodeId env g (db g.vault)))
          swept) := by
  unfold fullReconcile
  cases gather env shares db with
  | error e => exact Or.inl ⟨e, rfl⟩
  | ok gathered =>
      cases sweepShadowedDefaultRows env (shares.map Prod.fst) db with
      | error e => exact Or.inl ⟨e, rfl⟩
      | ok swept => exact Or.inr ⟨gathered, swept, rfl, rfl, rfl⟩

/-- No call fails. -/
structure IndexEnv.Works (env : IndexEnv) : Prop where
  walk : ∀ vault call, env.walk vault call = none
  list : ∀ vault, env.list vault = none
  sweepList : ∀ vault, env.sweepList vault = none
  upsertOk : ∀ vault path, env.upsertOk vault path = true
  lookOk : ∀ vault path, env.lookOk vault path = true
  tombstoneOk : ∀ vault path, env.tombstoneOk vault path = true

theorem exists_walkEntries_eq_ok {fault : WalkCall → Option String} (h : ∀ call, fault call = none)
    (dir : Path) (l : Tree) : ∃ files, walkEntries fault dir l = .ok files := by
  have hcall : ∀ call, attempt fault call = .ok () := by
    intro call
    unfold attempt
    rw [h call]
  induction l generalizing dir with
  | nil =>
      refine ⟨[], ?_⟩
      rw [walkEntries, hcall]
      rfl
  | leaf name e rest ih =>
      obtain ⟨files, hfiles⟩ := ih dir
      cases e with
      | file bytes =>
          rw [walkEntries, hcall, hcall]
          by_cases hint : isInternalPath (dir ++ [name]) = true
          · exact ⟨files, (if_pos hint).trans hfiles⟩
          · refine ⟨(dir ++ [name]) :: files, (if_neg hint).trans ?_⟩
            rw [hcall, hfiles]
            rfl
      | link target =>
          refine ⟨files, ?_⟩
          rw [walkEntries, hcall, hcall]
          · exact hfiles
          · exact nofun
      | other =>
          refine ⟨files, ?_⟩
          rw [walkEntries, hcall, hcall]
          · exact hfiles
          · exact nofun
  | dir name children rest ihBelow ihRest =>
      obtain ⟨below, hbelow⟩ := ihBelow (dir ++ [name])
      obtain ⟨files, hfiles⟩ := ihRest dir
      rw [walkEntries, hcall, hcall]
      by_cases hint : isInternalPath (dir ++ [name]) = true
      · exact ⟨files, (if_pos hint).trans hfiles⟩
      · refine ⟨below ++ files, (if_neg hint).trans ?_⟩
        rw [hcall, hcall, hbelow, hfiles]
        rfl

theorem exists_mapM_eq_ok {ε β γ : Type} {f : β → Except ε γ} (h : ∀ b, ∃ c, f b = .ok c) (l : List β) :
    ∃ r, l.mapM f = .ok r := by
  induction l with
  | nil => exact ⟨[], rfl⟩
  | cons b l ih =>
      obtain ⟨c, hc⟩ := h b
      obtain ⟨r, hr⟩ := ih
      refine ⟨c :: r, ?_⟩
      rw [List.mapM_cons, hc, hr]
      rfl

theorem exists_gather_eq_ok {env : IndexEnv} (h : env.Works) (shares : List (String × Tree)) (db : Vaults) :
    ∃ gathered, gather env shares db = .ok gathered := by
  obtain ⟨walked, hwalked⟩ : ∃ walked, (shares.mapM fun share => do
      let files ← walkFiles (env.walk share.1) share.2
      return (share, files)) = .ok walked := by
    apply exists_mapM_eq_ok
    intro share
    obtain ⟨files, hfiles⟩ := exists_walkEntries_eq_ok (h.walk share.1) [] share.2
    refine ⟨(share, files), ?_⟩
    rw [walkFiles, attempt, h.walk]
    show (walkEntries _ _ _ >>= _) = _
    rw [hfiles]
    rfl
  unfold gather
  rw [hwalked]
  apply exists_mapM_eq_ok
  rintro ⟨share, files⟩
  refine ⟨⟨share.1, share.2, files, (db share.1).listFilesScoped⟩, ?_⟩
  dsimp only
  rw [h.list]
  rfl

theorem exists_sweep_eq_ok {env : IndexEnv} (h : env.Works) (shares : List String) (db : Vaults) :
    ∃ swept, sweepShadowedDefaultRows env shares db = .ok swept := by
  have hlist : ∀ vault, listRows (env.sweepList vault) (db vault) = .ok (db vault).listFilesScoped := by
    intro vault
    rw [h.sweepList]
    rfl
  obtain ⟨claimed, hclaimed⟩ := exists_mapM_eq_ok
    (fun vault => ⟨(db vault).listFilesScoped, hlist vault⟩) shares
  unfold sweepShadowedDefaultRows
  rw [hlist, hclaimed]
  by_cases hlegacy : legacyVault ∈ shares
  · exact ⟨db, if_pos hlegacy⟩
  · by_cases hempty : (db legacyVault).listFilesScoped.isEmpty = true
    · exact ⟨db, (if_neg hlegacy).trans (if_pos hempty)⟩
    · exact ⟨_, (if_neg hlegacy).trans (if_neg hempty)⟩

variable (blake3 nodeId) in
/-- A reconciliation of which no call fails answers. -/
theorem exists_fullReconcile_eq_ok {env : IndexEnv} (h : env.Works) (shares : List (String × Tree))
    (db : Vaults) : ∃ count, (fullReconcile blake3 nodeId env shares db).1 = .ok count := by
  obtain ⟨gathered, hgather⟩ := exists_gather_eq_ok h shares db
  obtain ⟨swept, hsweep⟩ := exists_sweep_eq_ok h (shares.map Prod.fst) db
  refine ⟨(gathered.map revived).sum, ?_⟩
  unfold fullReconcile
  rw [hgather]
  dsimp only
  rw [hsweep]

/-- A reconciliation that ends with an error has changed nothing. -/
theorem fullReconcile_of_error {env : IndexEnv} {shares : List (String × Tree)} {db : Vaults}
    {e : ShareIndexError} (h : (fullReconcile blake3 nodeId env shares db).1 = .error e) :
    (fullReconcile blake3 nodeId env shares db).2 = db := by
  rcases fullReconcile_cases blake3 nodeId env shares db with ⟨e', he⟩ | ⟨_, _, -, -, hok⟩
  · rw [he]
  · rw [hok] at h
    cases h

/-- A reconciliation that answers has reconciled every share. -/
theorem reconciled_of_fullReconcile {env : IndexEnv} {roots : Roots} {db : Vaults} {count : ℕ}
    (h : (fullReconcile blake3 nodeId env roots.shares db).1 = .ok count) {share : String × Tree}
    (hshare : share ∈ roots.shares)
    (hrows : LiveKeys (db share.1)) :
    Reconciled blake3 env share.1 share.2 (db share.1)
      ((fullReconcile blake3 nodeId env roots.shares db).2 share.1) := by
  rcases fullReconcile_cases blake3 nodeId env roots.shares db with
    ⟨e', he⟩ | ⟨gathered, swept, hgather, hsweep, hok⟩
  · rw [he] at h
    cases h
  · obtain ⟨hshares, hseen⟩ := of_gather_eq_ok hgather
    have hvaults : gathered.map Gathered.vault = roots.shares.map Prod.fst := by
      rw [← hshares, List.map_map]
      rfl
    obtain ⟨g, hg, rfl⟩ := List.mem_map.mp (hshares ▸ hshare)
    have hkept : swept g.vault = db g.vault :=
      of_sweepShadowedDefaultRows_eq_ok hsweep (hvaults ▸ List.mem_map_of_mem hg)
    have hfaithful : g.Faithful (db g.vault) :=
      ⟨roots.proper _ hshare, mem_walkFiles (roots.proper _ hshare) (hseen g hg).1, (hseen g hg).2, hrows⟩
    rw [hok]
    dsimp only
    rw [Table.foldl_update_of_mem (hvaults ▸ roots.nodup) swept hg, hkept]
    exact hfaithful.reconciled

end

/-- **Reconciliation**: an error changes nothing, and an answer is exact up to the calls that failed
and the rows that were left because something is at their path. -/
theorem fullReconcile_exact (blake3 : Bytes → Digest) (nodeId : NodeId) (env : IndexEnv) (roots : Roots)
    (db : Vaults) (hrows : ∀ share ∈ roots.shares, LiveKeys (db share.1)) :
    (∀ e, (fullReconcile blake3 nodeId env roots.shares db).1 = .error e →
      (fullReconcile blake3 nodeId env roots.shares db).2 = db) ∧
    ∀ count, (fullReconcile blake3 nodeId env roots.shares db).1 = .ok count →
      ∀ share ∈ roots.shares, Reconciled blake3 env share.1 share.2 (db share.1)
        ((fullReconcile blake3 nodeId env roots.shares db).2 share.1) := by
  refine ⟨fun e he => fullReconcile_of_error he, ?_⟩
  intro count hcount share hshare
  exact reconciled_of_fullReconcile hcount hshare (hrows share hshare)

/-! ## A small share -/

/-- Nothing fails. -/
def quietEnv : IndexEnv where
  walk _ _ := none
  list _ := none
  sweepList _ := none
  sweepOk _ := true
  stat _ _ := ⟨none, 1⟩
  upsertOk _ _ := true
  lookOk _ _ := true
  tombstoneOk _ _ := true
  now := 5

/-- The live row of a file. -/
def sampleRow (bytes : Bytes) : FileRow where
  contentHash := System.sampleBlake3 bytes
  size := bytes.length
  mtimeNs := 1
  inode := none
  vectorClock := .new
  deleted := false
  deletedAt := none
  encryptionNonce := none
  versionId := none
  parentVersionId := none

/-- The vault `kb` with the given rows. -/
def sampleVaults (rows : PathMap FileRow) : Vaults := fun vault =>
  { tenantId := none
    files := if vault = "kb" then rows else ∅
    nodeBaselines := ∅
    fileVersions := []
    conflicts := [] }

/-- A note, and a directory with another. -/
def notesTree : Tree :=
  .leaf "a.md" (.file [97]) (.dir "d" (.leaf "b.md" (.file [98]) .nil) .nil)

/-- The rows of the first note and of a third that is gone. -/
def notesRows : PathMap FileRow :=
  (AList.insert ["a.md"] (sampleRow [97]) ∅).insert ["c.md"] (sampleRow [99])

/-- The share of the notes. -/
def notesRoots : Roots where
  shares := [("kb", notesTree)]
  nodup := by decide
  proper := by
    intro share hshare
    cases List.mem_singleton.mp hshare
    exact ⟨by decide, trivial, by decide, by decide, ⟨by decide, trivial, by decide, trivial⟩, by decide,
      trivial⟩

/-- The rows of the notes have keys of the right form. -/
theorem liveKeys_notesRows : LiveKeys (sampleVaults notesRows "kb") := by
  intro path row h _
  have hkeys : ∀ p ∈ (sampleVaults notesRows "kb").files.keys, RelPath p := by decide
  apply hkeys
  apply AList.lookup_isSome.mp
  rw [h]
  rfl

theorem fullReconcile_exact_notes :
    (fullReconcile System.sampleBlake3 "server" quietEnv notesRoots.shares (sampleVaults notesRows)).1 =
      .ok 0 ∧
    Reconciled System.sampleBlake3 quietEnv "kb" notesTree (sampleVaults notesRows "kb")
      ((fullReconcile System.sampleBlake3 "server" quietEnv notesRoots.shares
        (sampleVaults notesRows)).2 "kb") := by
  have hok : (fullReconcile System.sampleBlake3 "server" quietEnv notesRoots.shares
    (sampleVaults notesRows)).1 = .ok 0 := rfl
  refine ⟨hok, (fullReconcile_exact System.sampleBlake3 "server" quietEnv notesRoots
    (sampleVaults notesRows) ?_).2 0 hok ("kb", notesTree) List.mem_cons_self⟩
  intro share hshare
  cases List.mem_singleton.mp hshare
  exact liveKeys_notesRows

/-- The live rows are those of the files outside the internal directories. -/
structure Indexes (blake3 : Bytes → Digest) (root : Tree) (db : MetaDb) : Prop where
  present : ∀ path bytes, root.file path = some bytes → isInternalPath path = false → ∃ row,
    db.files.lookup path = some row ∧ IndexedRow blake3 bytes row
  absent : ∀ path row, db.files.lookup path = some row → row.deleted = false →
    (∃ bytes, root.file path = some bytes) ∧ isInternalPath path = false

/-- The version store of the server, below the root of the share. -/
def storeTree : Tree := .dir ".version-blobs" (.leaf "b" (.file [98]) .nil) .nil

/-- A row from the time when the store was indexed. -/
def storeRows : PathMap FileRow := AList.insert [".version-blobs", "b"] (sampleRow [98]) ∅

/-- The walk does not see the store, and the tombstone pass does not touch what is there. -/
theorem storeRow_stays_live :
    (fullReconcile System.sampleBlake3 "server" quietEnv [("kb", storeTree)] (sampleVaults storeRows)).1 =
      .ok 0 ∧
    ¬ Indexes System.sampleBlake3 storeTree
      ((fullReconcile System.sampleBlake3 "server" quietEnv [("kb", storeTree)]
        (sampleVaults storeRows)).2 "kb") := by
  refine ⟨rfl, ?_⟩
  intro h
  have hrow : ((fullReconcile System.sampleBlake3 "server" quietEnv [("kb", storeTree)]
    (sampleVaults storeRows)).2 "kb").files.lookup [".version-blobs", "b"] = some (sampleRow [98]) := rfl
  obtain ⟨-, hint⟩ := h.absent _ _ hrow rfl
  exact absurd hint (by decide)

end DiskArcana.ShareIndex
