import DiskArcana.Storage.S3

/-!
# The two backends answer alike

The rows of the two backends are the same but for their times (`SameRows`), and the object that a row
points to holds in the bucket what the blob of its content holds on the disk (`Agree`). A key ends with
the hash of the content, so an object that a row of another path points to is about the same content;
that row is counted, and the object stays (`Agree.delete`).

What is not removed: a `put` over a row leaves the object and the blob of the row, and a `delete` on S3
leaves its object when a row of another path has the same content under another key. `LeavesNothing`
is the condition that a call does neither, and `backends_agree` says what follows with and without it.
-/

namespace DiskArcana.Storage

open DiskArcana.Core DiskArcana.Lib

/-! ## The same rows, apart from times -/

/-- The row without its times. -/
def ObjectRow.timeless (row : ObjectRow) : ObjectRow := { row with mtimeNs := 0, createdAtNs := 0 }

/-- The rows are the same, apart from times. -/
def SameRows (rows rows' : ObjectRows) : Prop :=
  ∀ path, (rows.lookup path).map ObjectRow.timeless = (rows'.lookup path).map ObjectRow.timeless

/-- What is stored of an object, apart from times. -/
theorem timeless_objectRow (rows : ObjectRows) (object : ObjectMetadata) :
    (MetadataStore.objectRow rows object).timeless =
      ⟨object.size, object.contentSha256, object.objectStoreKey, 0, 0, object.tags⟩ := by
  simp [ObjectRow.timeless, MetadataStore.objectRow]

theorem contentSha256_eq_of_timeless {row row' : ObjectRow} (h : row.timeless = row'.timeless) :
    row.contentSha256 = row'.contentSha256 := (ObjectRow.mk.inj h).2.1

theorem objectStoreKey_eq_of_timeless {row row' : ObjectRow} (h : row.timeless = row'.timeless) :
    row.objectStoreKey = row'.objectStoreKey := (ObjectRow.mk.inj h).2.2.1

namespace SameRows

variable {rows rows' : ObjectRows} {path : Text}

theorem symm (h : SameRows rows rows') : SameRows rows' rows := fun path => (h path).symm

variable (path) in
theorem lookup_eq_none (h : SameRows rows rows') :
    rows'.lookup path = none ↔ rows.lookup path = none := by
  have hpath := h path
  rw [← Option.map_eq_none_iff (f := ObjectRow.timeless), ← hpath, Option.map_eq_none_iff]

/-- A row has its like among the others. -/
theorem exists_row (h : SameRows rows rows') {row : ObjectRow} (hrow : rows.lookup path = some row) :
    ∃ row', rows'.lookup path = some row' ∧ row'.timeless = row.timeless := by
  have hpath := h path
  rw [hrow, Option.map_some, eq_comm, Option.map_eq_some_iff] at hpath
  exact hpath

/-- Rows that are alike go into both. -/
theorem insert (h : SameRows rows rows') {row row' : ObjectRow} (hrow : row.timeless = row'.timeless) :
    SameRows (rows.insert path row) (rows'.insert path row') := by
  intro path'
  rw [Table.lookup_insert_eq_ite, Table.lookup_insert_eq_ite]
  split_ifs
  · rw [Option.map_some, Option.map_some, hrow]
  · exact h path'

variable (path) in
/-- A path is erased from both. -/
theorem erase (h : SameRows rows rows') : SameRows (rows.erase path) (rows'.erase path) := by
  intro path'
  by_cases hpath : path' = path
  · subst hpath
    rw [AList.lookup_erase, AList.lookup_erase]
  · rw [AList.lookup_erase_ne hpath, AList.lookup_erase_ne hpath]
    exact h path'

/-- Objects that are alike go into both. -/
theorem upsert (h : SameRows rows rows') {object object' : ObjectMetadata}
    (hobject : object.timeless = object'.timeless) :
    SameRows (MetadataStore.upsert rows object) (MetadataStore.upsert rows' object') := by
  obtain ⟨hpath, hsize, hsha, hkey, -, -, htags⟩ := ObjectMetadata.mk.inj hobject
  unfold MetadataStore.upsert
  rw [← hpath]
  apply h.insert
  rw [timeless_objectRow, timeless_objectRow, hsize, hsha, hkey, htags]

/-- A content has rows in both or in none. -/
theorem countContent_eq_zero (h : SameRows rows rows') (sha256Hex : Text) :
    MetadataStore.countContent rows sha256Hex = 0 ↔
      MetadataStore.countContent rows' sha256Hex = 0 := by
  have hone : ∀ {rows rows' : ObjectRows}, SameRows rows rows' →
      MetadataStore.countContent rows sha256Hex = 0 →
        MetadataStore.countContent rows' sha256Hex = 0 := by
    intro rows rows' h hzero
    rw [MetadataStore.countContent_eq_zero] at hzero ⊢
    intro path row' hrow'
    obtain ⟨row, hrow, hsame⟩ := h.symm.exists_row hrow'
    rw [← contentSha256_eq_of_timeless hsame]
    exact hzero path row hrow
  exact ⟨hone h, hone h.symm⟩

/-- A listing of the rows, sorted by path, apart from times. -/
theorem list_eq (h : SameRows rows rows') (options : ListOptions) :
    listObjects rows options = listObjects rows' options := by
  let found : Text → Bool := fun path =>
    options.pathPrefix.all fun p => like (cString (p ++ ['%'])) (cString path)
  let entry : ObjectMetadata → ListEntry := fun object =>
    ⟨object.path, object.size, object.contentSha256⟩
  let listed : ObjectRows → List ListEntry := fun rows =>
    ((rows.entries.map fun e => rowToMetadata e.1 e.2).filter fun object => found object.path).map entry
  have hlists : ∀ rows, Table.Lists ListEntry.path
      (fun path => (if found path then (rows.lookup path).map (rowToMetadata path) else none).map entry)
      (listed rows) := fun rows =>
    ((Table.Lists.entries rows rowToMetadata fun _ _ => rfl).filter found).map _ entry fun _ => rfl
  have hnodup : ∀ rows, ((listed rows).map ListEntry.path).Nodup := by
    intro rows
    rw [List.map_map]
    apply List.Nodup.sublist (List.filter_sublist.map _)
    rw [List.map_map]
    exact rows.nodupKeys
  have hsort : ∀ rows, listObjects rows options =
      ((listed rows).insertionSort fun a b => a.path ≤ b.path).take (options.limit.getD 1000) := by
    intro rows
    rw [listObjects, MetadataStore.listPrefix, List.map_take]
    exact congrArg (List.take _) (List.map_insertionSort _ _ entry _ fun _ _ _ _ => Iff.rfl)
  have hsame := hlists rows'
  have hfun : ∀ path,
      (if found path then (rows.lookup path).map (rowToMetadata path) else none).map entry =
        (if found path then (rows'.lookup path).map (rowToMetadata path) else none).map entry := by
    intro path
    split_ifs
    · have hpath := congrArg (Option.map fun row => entry (rowToMetadata path row)) (h path)
      rwa [Option.map_map, Option.map_map] at hpath ⊢
    · rfl
  rw [← funext hfun] at hsame
  rw [hsort, hsort, (hlists rows).sort_eq hsame (hnodup rows) (hnodup rows') (· ≤ ·)]

/-- There are rows in both or in none. -/
theorem isEmpty_eq (h : SameRows rows rows') : rows.entries.isEmpty = rows'.entries.isEmpty := by
  have hone : ∀ {rows rows' : ObjectRows}, SameRows rows rows' →
      rows.entries.isEmpty = true → rows'.entries.isEmpty = true := by
    intro rows rows' h hempty
    rw [List.isEmpty_iff] at hempty ⊢
    rw [List.eq_nil_iff_forall_not_mem]
    rintro ⟨path, row⟩ hmem
    obtain ⟨row', hrow', -⟩ := h.symm.exists_row (Table.mem_entries_iff.mp hmem)
    exact absurd (Table.mem_entries_iff.mpr hrow') (hempty ▸ List.not_mem_nil)
  exact Bool.eq_iff_iff.mpr ⟨hone h, hone h.symm⟩

/-- Both list alike, or refuse the pattern. -/
theorem tryList_eq (h : SameRows rows rows') (options : ListOptions) :
    tryListObjects rows options = tryListObjects rows' options := by
  rw [tryListObjects, tryListObjects, patternRefused, patternRefused, h.isEmpty_eq, h.list_eq]

end SameRows

/-! ## What a call does -/

section

variable {rows : ObjectRows} {path : Text} {row : ObjectRow}

/-- A delete without a row. -/
theorem LocalDiskBackend.delete_of_absent {b : LocalDiskBackend} {path : StorageObjectKey}
    (hrow : b.rows.lookup path.path = none) : b.delete path = (b, .error (.notFound path.path)) := by
  simp [LocalDiskBackend.delete, MetadataStore.get, hrow]

/-- The same on S3. -/
theorem S3StorageBackend.delete_of_absent {b : S3StorageBackend} {path : StorageObjectKey}
    (hrow : b.rows.lookup path.path = none) :
    b.delete path = (b, .error (.storage (.notFound path.path))) := by
  simp [S3StorageBackend.delete, MetadataStore.get, hrow]

/-- A rename without a row. -/
theorem LocalDiskBackend.rename_of_absent {b : LocalDiskBackend} {source : StorageObjectKey}
    (target : StorageObjectKey) (now : ℕ) (hrow : b.rows.lookup source.path = none) :
    b.rename source target now = (b, .error (.notFound source.path)) := by
  simp [LocalDiskBackend.rename, MetadataStore.get, hrow]

/-- The same on S3. -/
theorem S3StorageBackend.rename_of_absent {b : S3StorageBackend} {source : StorageObjectKey}
    (target : StorageObjectKey) (now : ℕ) (hrow : b.rows.lookup source.path = none) :
    b.rename source target now = (b, .error (.storage (.notFound source.path))) := by
  simp [S3StorageBackend.rename, MetadataStore.get, hrow]

/-- A rename to a path that is taken. -/
theorem LocalDiskBackend.rename_of_taken {b : LocalDiskBackend} {source target : StorageObjectKey}
    {taken : ObjectRow} (now : ℕ) (hrow : b.rows.lookup source.path = some row)
    (htaken : b.rows.lookup target.path = some taken) :
    b.rename source target now = (b, .error (.alreadyExists target.path)) := by
  simp [LocalDiskBackend.rename, MetadataStore.get, hrow, htaken]

/-- The same on S3. -/
theorem S3StorageBackend.rename_of_taken {b : S3StorageBackend} {source target : StorageObjectKey}
    {taken : ObjectRow} (now : ℕ) (hrow : b.rows.lookup source.path = some row)
    (htaken : b.rows.lookup target.path = some taken) :
    b.rename source target now = (b, .error (.storage (.alreadyExists target.path))) := by
  simp [S3StorageBackend.rename, MetadataStore.get, hrow, htaken]

/-- A blob is removed with the last row of its content. -/
theorem LocalDiskBackend.delete_of_row {b : LocalDiskBackend} {path : StorageObjectKey}
    (hrow : b.rows.lookup path.path = some row) :
    ∃ blobs, b.delete path = (⟨b.rows.erase path.path, blobs⟩, .ok ()) ∧ ∀ name, blobs.read name =
      if MetadataStore.countContent (b.rows.erase path.path) row.contentSha256 = 0 ∧
        name = blobPath row.contentSha256 then none else b.blobs.read name := by
  have hunfold : b.delete path = LocalDiskBackend.deleteBlobIfUnreferenced
      { b with rows := b.rows.erase path.path } row.contentSha256 := by
    simp [LocalDiskBackend.delete, MetadataStore.get, MetadataStore.delete, hrow, rowToMetadata]
  rw [hunfold, LocalDiskBackend.deleteBlobIfUnreferenced]
  split_ifs with hcount hthere
  · refine ⟨_, rfl, fun name => ?_⟩
    simp [Directory.read_remove, hcount]
  · refine ⟨_, rfl, fun name => ?_⟩
    have hnone := Directory.read_eq_none.mpr
      (Directory.contains_eq_false.mp (Bool.eq_false_of_not_eq_true hthere))
    split_ifs with hname
    · rw [hname.2]
      exact hnone
    · rfl
  · refine ⟨_, rfl, fun name => ?_⟩
    rw [if_neg fun hname => hcount hname.1]

/-- An object is removed with its row, if the content has no other. -/
theorem S3StorageBackend.delete_of_row {b : S3StorageBackend} {path : StorageObjectKey}
    (hrow : b.rows.lookup path.path = some row) :
    b.delete path = (⟨b.rows.erase path.path,
      if MetadataStore.countContent (b.rows.erase path.path) row.contentSha256 = 0 then
        b.bucket.erase row.objectStoreKey else b.bucket⟩, .ok ()) := by
  simp only [S3StorageBackend.delete, MetadataStore.get, MetadataStore.delete, hrow, rowToMetadata,
    Option.map_some, Option.isSome_some]
  split_ifs <;> rfl

/-- The object of a row that is moved. -/
def movedObject (row : ObjectRow) (target : Text) (now : ℕ) : ObjectMetadata :=
  { rowToMetadata target row with mtime := now }

theorem timeless_movedObject (row : ObjectRow) (target : Text) (now : ℕ) :
    (movedObject row target now).timeless = movedObject row.timeless target 0 := rfl

/-- The rows after a row is moved. -/
def movedRows (rows : ObjectRows) (source target : Text) (row : ObjectRow) (now : ℕ) : ObjectRows :=
  MetadataStore.upsert ((rows.erase source).insert target row) (movedObject row target now)

/-- A rename to a free path. -/
theorem LocalDiskBackend.rename_of_row {b : LocalDiskBackend} {source target : StorageObjectKey}
    (now : ℕ) (hrow : b.rows.lookup source.path = some row)
    (hfree : b.rows.lookup target.path = none) :
    b.rename source target now = ({ b with rows := movedRows b.rows source.path target.path row now },
      .ok (movedObject row target.path now)) := by
  have hrename := MetadataStore.rename_of_free hrow hfree
  simp [LocalDiskBackend.rename, MetadataStore.get, hrow, hfree, hrename, movedRows, movedObject,
    LocalDiskBackend.renamedMetadata, rowToMetadata]

/-- The same on S3. -/
theorem S3StorageBackend.rename_of_row {b : S3StorageBackend} {source target : StorageObjectKey}
    (now : ℕ) (hrow : b.rows.lookup source.path = some row)
    (hfree : b.rows.lookup target.path = none) :
    b.rename source target now = ({ b with rows := movedRows b.rows source.path target.path row now },
      .ok (movedObject row target.path now)) := by
  have hrename := MetadataStore.rename_of_free hrow hfree
  simp [S3StorageBackend.rename, MetadataStore.get, hrow, hfree, hrename, movedRows, movedObject,
    rowToMetadata]

variable (rows row) in
/-- A row that is moved keeps its content and its object. -/
theorem lookup_movedRows (source target : Text) (now : ℕ) (path : Text) :
    ∃ moved, moved.contentSha256 = row.contentSha256 ∧ moved.objectStoreKey = row.objectStoreKey ∧
      (movedRows rows source target row now).lookup path =
        if path = target then some moved else (rows.erase source).lookup path := by
  refine ⟨MetadataStore.objectRow ((rows.erase source).insert target row)
      (movedObject row target now),
    by simp [MetadataStore.objectRow, movedObject, rowToMetadata],
    by simp [MetadataStore.objectRow, movedObject, rowToMetadata], ?_⟩
  rw [movedRows, MetadataStore.lookup_upsert]
  split_ifs with htarget hpath hpath
  · rfl
  · exact absurd htarget hpath
  · exact absurd hpath htarget
  · rw [Table.lookup_insert_eq_ite, if_neg hpath]

end

/-! ## Two backends that agree -/

/-- The two backends. -/
structure Backends where
  disk : LocalDiskBackend
  s3 : S3StorageBackend

def Backends.new : Backends := ⟨.new, .new⟩

/-- A key ends with the hash. -/
theorem sha256Hex_eq_of_objectKeyFor_eq {sha256 : Bytes → Digest} {path path' : Text}
    {data data' : Bytes} (h : objectKeyFor path (contentSha256Hex sha256 data) =
      objectKeyFor path' (contentSha256Hex sha256 data')) :
    contentSha256Hex sha256 data = contentSha256Hex sha256 data' := by
  have hlength : ('@' :: contentSha256Hex sha256 data).length =
      ('@' :: contentSha256Hex sha256 data').length := by
    simp [contentSha256Hex, Text.length_hex]
  exact (List.cons.inj (List.append_inj' h hlength).2).2

section

variable (sha256 : Bytes → Digest)

/-- A call to both backends, and the time of each. -/
def Backends.step (st : Backends) (e : StorageCall × ℕ × ℕ) : Backends :=
  ⟨(st.disk.call sha256 e.1 e.2.1).1, (st.s3.call sha256 e.1 e.2.2).1⟩

/-- The backends give the call the same reply, apart from times. -/
def SameReply (st : Backends) (e : StorageCall × ℕ × ℕ) : Prop :=
  (st.disk.call sha256 e.1 e.2.1).2.map Reply.timeless =
    (st.s3.call sha256 e.1 e.2.2).2.map Reply.timeless

/-- What is stored about a row: its bytes are in the bucket under its key and on the disk under their
hash. -/
structure Held (contents : Set Bytes) (st : Backends) (path : Text) (row : ObjectRow) : Prop where
  named : ∃ key : StorageObjectKey, key.path = path
  key : ∃ origin, row.objectStoreKey = objectKeyFor origin row.contentSha256
  bytes : ∃ data ∈ contents, row.contentSha256 = contentSha256Hex sha256 data ∧
    st.s3.bucket.lookup row.objectStoreKey = some data ∧
      st.disk.blobs.read (blobPath row.contentSha256) = some data

/-- The backends hold the same objects. -/
structure Agree (contents : Set Bytes) (st : Backends) : Prop where
  rows : SameRows st.disk.rows st.s3.rows
  held : ∀ path row, st.disk.rows.lookup path = some row → Held sha256 contents st path row
  /-- A blob holds bytes that hash to its name. -/
  content : ∀ data bytes, st.disk.blobs.read (blobPath (contentSha256Hex sha256 data)) = some bytes →
    contentSha256Hex sha256 bytes = contentSha256Hex sha256 data ∧ bytes ∈ contents

variable {sha256} {contents : Set Bytes} {st : Backends}

/-- New backends agree. -/
theorem agree_new : Agree sha256 contents .new where
  rows := fun _ => rfl
  held path row h := by simp [Backends.new, LocalDiskBackend.new] at h
  content data bytes h := by
    rw [show Backends.new.disk.blobs.read _ = none from
      Directory.read_eq_none.mpr (Directory.names_empty _)] at h
    cases h

/-- Rows with one key have one content. -/
theorem Held.contentSha256_eq {path path' : Text} {row row' : ObjectRow}
    (h : Held sha256 contents st path row) (h' : Held sha256 contents st path' row')
    (hkey : row.objectStoreKey = row'.objectStoreKey) : row.contentSha256 = row'.contentSha256 := by
  obtain ⟨origin, horigin⟩ := h.key
  obtain ⟨origin', horigin'⟩ := h'.key
  obtain ⟨data, -, hdata, -⟩ := h.bytes
  obtain ⟨data', -, hdata', -⟩ := h'.bytes
  rw [horigin, horigin', hdata, hdata'] at hkey
  rw [hdata, hdata', sha256Hex_eq_of_objectKeyFor_eq hkey]

/-- The row of S3 for a row on the disk. -/
theorem Agree.exists_row (h : Agree sha256 contents st) {path : Text} {row : ObjectRow}
    (hrow : st.disk.rows.lookup path = some row) :
    ∃ row', st.s3.rows.lookup path = some row' ∧ row'.timeless = row.timeless ∧
      row'.contentSha256 = row.contentSha256 ∧ row'.objectStoreKey = row.objectStoreKey := by
  obtain ⟨row', hrow', hsame⟩ := h.rows.exists_row hrow
  exact ⟨row', hrow', hsame, contentSha256_eq_of_timeless hsame, objectStoreKey_eq_of_timeless hsame⟩

/-! ## Steps -/

/-- A blob that is there after a blob is written is that blob or was there before. -/
theorem read_of_writeBlob {b : LocalDiskBackend} {hash : Text} {data : Bytes} {name : FileName}
    {bytes : Bytes} (h : (b.writeBlob hash data).1.blobs.read name = some bytes) :
    name = blobPath hash ∨ b.blobs.read name = some bytes := by
  unfold LocalDiskBackend.writeBlob at h
  split_ifs at h
  · exact .inr h
  · obtain ⟨blobs, hrename, hread⟩ :=
      b.blobs.exists_rename_of_create (tempPath hash) (blobPath hash) data
    simp only [hrename] at h
    rw [hread] at h
    split_ifs at h with hname
    · exact .inl hname
    · exact .inr h

namespace Agree

variable (hsha : Set.InjOn sha256 contents) (h : Agree sha256 contents st)

include h

include hsha in
/-- The blob that a put finds has its bytes. -/
theorem getD_eq {data : Bytes} (hdata : data ∈ contents) :
    (st.disk.blobs.read (blobPath (contentSha256Hex sha256 data))).getD data = data := by
  rcases hread : st.disk.blobs.read (blobPath (contentSha256Hex sha256 data)) with _ | bytes
  · rfl
  · obtain ⟨hhash, hbytes⟩ := h.content data bytes hread
    exact contentSha256Hex_injOn hsha hbytes hdata hhash

include hsha in
/-- A put: the replies, and what it does. -/
theorem step_put (path : StorageObjectKey) {data : Bytes} (options : PutOptions) (now now' : ℕ)
    (hdata : data ∈ contents) :
    SameReply sha256 st (.put path data options, now, now') ∧ ∃ blobs,
      st.step sha256 (.put path data options, now, now') =
        ⟨⟨MetadataStore.upsert st.disk.rows
            (LocalDiskBackend.putMetadata sha256 path data options now), blobs⟩,
          ⟨MetadataStore.upsert st.s3.rows
            (LocalDiskBackend.putMetadata sha256 path data options now'),
          st.s3.bucket.insert (objectKeyFor path.path (contentSha256Hex sha256 data)) data⟩⟩ ∧
      (∀ data', blobs.read (blobPath (contentSha256Hex sha256 data')) =
        if contentSha256Hex sha256 data' = contentSha256Hex sha256 data then some data
        else st.disk.blobs.read (blobPath (contentSha256Hex sha256 data'))) ∧
      ∀ name bytes, blobs.read name = some bytes →
        name = blobPath (contentSha256Hex sha256 data) ∨ st.disk.blobs.read name = some bytes := by
  obtain ⟨blobs, hwrite, hread⟩ := writeBlob_spec sha256 st.disk data
  rw [h.getD_eq hsha hdata] at hread
  have hdisk : st.disk.put sha256 path data options now =
      (⟨MetadataStore.upsert st.disk.rows
        (LocalDiskBackend.putMetadata sha256 path data options now), blobs⟩,
        .ok (LocalDiskBackend.putMetadata sha256 path data options now)) := by
    rw [LocalDiskBackend.put, hwrite]
  simp only [SameReply, Backends.step, LocalDiskBackend.call, S3StorageBackend.call, hdisk]
  refine ⟨rfl, blobs, rfl, hread, fun name bytes hbytes => ?_⟩
  apply read_of_writeBlob
  rw [hwrite]
  exact hbytes

/-- A delete: the replies, and what it does. -/
theorem step_delete {path : StorageObjectKey} {row : ObjectRow} (now now' : ℕ)
    (hrow : st.disk.rows.lookup path.path = some row) :
    SameReply sha256 st (.delete path, now, now') ∧ ∃ blobs,
      st.step sha256 (.delete path, now, now') =
        ⟨⟨st.disk.rows.erase path.path, blobs⟩, ⟨st.s3.rows.erase path.path,
          if MetadataStore.countContent (st.disk.rows.erase path.path) row.contentSha256 = 0 then
            st.s3.bucket.erase row.objectStoreKey else st.s3.bucket⟩⟩ ∧
      ∀ name, blobs.read name =
        if MetadataStore.countContent (st.disk.rows.erase path.path) row.contentSha256 = 0 ∧
          name = blobPath row.contentSha256 then none else st.disk.blobs.read name := by
  obtain ⟨row', hrow', -, hhash', hkey'⟩ := h.exists_row hrow
  obtain ⟨blobs, hdisk, hread⟩ := LocalDiskBackend.delete_of_row hrow
  have hs3 := S3StorageBackend.delete_of_row hrow'
  have hzero := (h.rows.erase path.path).countContent_eq_zero row.contentSha256
  simp only [hhash', hkey', ← hzero] at hs3
  simp only [SameReply, Backends.step, LocalDiskBackend.call, S3StorageBackend.call, hdisk, hs3]
  exact ⟨rfl, blobs, rfl, hread⟩

/-- A delete without a row changes nothing. -/
theorem step_delete_of_absent {path : StorageObjectKey} (now now' : ℕ)
    (hrow : st.disk.rows.lookup path.path = none) :
    SameReply sha256 st (.delete path, now, now') ∧
      st.step sha256 (.delete path, now, now') = st := by
  have hdisk := LocalDiskBackend.delete_of_absent hrow
  have hs3 := S3StorageBackend.delete_of_absent ((h.rows.lookup_eq_none _).mpr hrow)
  simp only [SameReply, Backends.step, LocalDiskBackend.call, S3StorageBackend.call, hdisk, hs3]
  exact ⟨rfl, trivial⟩

/-- A rename that is refused changes nothing; one that is not moves the row. -/
theorem step_rename (source target : StorageObjectKey) (now now' : ℕ) :
    SameReply sha256 st (.rename source target, now, now') ∧
      (st.step sha256 (.rename source target, now, now') = st ∨ ∃ row row',
        st.disk.rows.lookup source.path = some row ∧ row'.timeless = row.timeless ∧
        st.disk.rows.lookup target.path = none ∧
        st.step sha256 (.rename source target, now, now') =
          ⟨{ st.disk with rows := movedRows st.disk.rows source.path target.path row now },
            { st.s3 with rows := movedRows st.s3.rows source.path target.path row' now' }⟩) := by
  rcases hrow : st.disk.rows.lookup source.path with _ | row
  · have hdisk := LocalDiskBackend.rename_of_absent target now hrow
    have hs3 := S3StorageBackend.rename_of_absent target now' ((h.rows.lookup_eq_none _).mpr hrow)
    simp only [SameReply, Backends.step, LocalDiskBackend.call, S3StorageBackend.call, hdisk, hs3]
    exact ⟨rfl, .inl trivial⟩
  · obtain ⟨row', hrow', hsame, -, -⟩ := h.exists_row hrow
    rcases htarget : st.disk.rows.lookup target.path with _ | taken
    · have hdisk := LocalDiskBackend.rename_of_row now hrow htarget
      have hs3 := S3StorageBackend.rename_of_row now' hrow' ((h.rows.lookup_eq_none _).mpr htarget)
      have hobject : (movedObject row target.path now).timeless =
          (movedObject row' target.path now').timeless := by
        rw [timeless_movedObject, timeless_movedObject, hsame]
      simp only [SameReply, Backends.step, LocalDiskBackend.call, S3StorageBackend.call, hdisk, hs3]
      exact ⟨congrArg (fun object => Except.ok (Reply.object object)) hobject,
        .inr ⟨row, row', rfl, hsame, trivial, rfl⟩⟩
    · obtain ⟨taken', htaken', -, -, -⟩ := h.exists_row htarget
      have hdisk := LocalDiskBackend.rename_of_taken now hrow htarget
      have hs3 := S3StorageBackend.rename_of_taken now' hrow' htaken'
      simp only [SameReply, Backends.step, LocalDiskBackend.call, S3StorageBackend.call, hdisk, hs3]
      exact ⟨rfl, .inl trivial⟩

/-- The replies to a get. -/
theorem reply_get (path : StorageObjectKey) (now now' : ℕ) :
    SameReply sha256 st (.get path, now, now') := by
  unfold SameReply
  apply congrArg (Except.map Reply.timeless)
  rcases hrow : st.disk.rows.lookup path.path with _ | row
  · have hnone := (h.rows.lookup_eq_none _).mpr hrow
    simp [LocalDiskBackend.call, S3StorageBackend.call, LocalDiskBackend.get, S3StorageBackend.get,
      MetadataStore.get, hrow, hnone, Except.map, Except.mapError]
  · obtain ⟨row', hrow', -, -, hkey⟩ := h.exists_row hrow
    obtain ⟨data, -, -, hobject, hblob⟩ := (h.held path.path row hrow).bytes
    rw [← hkey] at hobject
    simp [LocalDiskBackend.call, S3StorageBackend.call, LocalDiskBackend.get, S3StorageBackend.get,
      MetadataStore.get, rowToMetadata, hrow, hrow', LocalDiskBackend.readBlob, hblob,
      S3StorageBackend.getObject, hobject, Except.map, Except.mapError]

theorem reply_exists (path : StorageObjectKey) (now now' : ℕ) :
    SameReply sha256 st (.exists_ path, now, now') := by
  have hiff := h.rows.lookup_eq_none path.path
  have hsame : st.disk.exists_ path = st.s3.exists_ path := by
    rw [Bool.eq_iff_iff]
    simp only [LocalDiskBackend.exists_, S3StorageBackend.exists_, MetadataStore.get,
      Option.isSome_map, Option.isSome_iff_ne_none, ne_eq, hiff]
  simp [SameReply, LocalDiskBackend.call, S3StorageBackend.call, hsame]

/-! ## The backends stay in agreement -/

include hsha in
theorem put (path : StorageObjectKey) {data : Bytes} (options : PutOptions) (now now' : ℕ)
    (hdata : data ∈ contents) :
    Agree sha256 contents (st.step sha256 (.put path data options, now, now')) := by
  obtain ⟨-, blobs, hstep, hread, -⟩ := h.step_put hsha path options now now' hdata
  rw [hstep]
  refine ⟨h.rows.upsert rfl, ?_, ?_⟩
  · intro path' row hrow
    change (MetadataStore.upsert _ _).lookup path' = some row at hrow
    rw [MetadataStore.lookup_upsert] at hrow
    split_ifs at hrow with hpath
    · cases hrow
      exact ⟨⟨path, hpath.symm⟩, ⟨path.path, rfl⟩, data, hdata, rfl, AList.lookup_insert _,
        (hread data).trans (if_pos rfl)⟩
    · obtain ⟨hnamed, ⟨origin, horigin⟩, data', hdata', hhash, hobject, hblob⟩ :=
        h.held path' row hrow
      refine ⟨hnamed, ⟨origin, horigin⟩, data', hdata', hhash, ?_, ?_⟩
      · show (AList.insert _ _ _).lookup _ = _
        rw [Table.lookup_insert_eq_ite]
        split_ifs with hkey
        · rw [horigin, hhash] at hkey
          rw [contentSha256Hex_injOn hsha hdata' hdata (sha256Hex_eq_of_objectKeyFor_eq hkey)]
        · exact hobject
      · show blobs.read _ = _
        rw [hhash] at hblob ⊢
        rw [hread]
        split_ifs with hsame
        · rw [contentSha256Hex_injOn hsha hdata' hdata hsame]
        · exact hblob
  · intro data' bytes hbytes
    change blobs.read _ = _ at hbytes
    rw [hread] at hbytes
    split_ifs at hbytes with hsame
    · cases hbytes
      exact ⟨hsame.symm, hdata⟩
    · exact h.content data' bytes hbytes

theorem delete {path : StorageObjectKey} {row : ObjectRow} (now now' : ℕ)
    (hrow : st.disk.rows.lookup path.path = some row) :
    Agree sha256 contents (st.step sha256 (.delete path, now, now')) := by
  obtain ⟨-, blobs, hstep, hread⟩ := h.step_delete now now' hrow
  rw [hstep]
  refine ⟨h.rows.erase _, ?_, ?_⟩
  · intro path' other hother
    change (st.disk.rows.erase path.path).lookup path' = some other at hother
    have hold := h.held path' other (Table.of_lookup_erase hother).2
    obtain ⟨data, hdata, hhash, hobject, hblob⟩ := hold.bytes
    refine ⟨hold.named, hold.key, data, hdata, hhash, ?_, ?_⟩
    · show (if _ then _ else _ : Table Text Bytes).lookup _ = _
      split_ifs with hcount
      · -- a row with the same object has the same content, and would have been counted
        have hne : other.objectStoreKey ≠ row.objectStoreKey := fun hsame =>
          MetadataStore.countContent_eq_zero.mp hcount path' other hother
            (hold.contentSha256_eq (h.held path.path row hrow) hsame)
        rw [AList.lookup_erase_ne hne]
        exact hobject
      · exact hobject
    · show blobs.read _ = _
      rw [hread, if_neg]
      · exact hblob
      · rintro ⟨hcount, hsame⟩
        exact MetadataStore.countContent_eq_zero.mp hcount path' other hother
          (blobPath_injective hsame)
  · intro data bytes hbytes
    change blobs.read _ = _ at hbytes
    rw [hread] at hbytes
    split_ifs at hbytes
    exact h.content data bytes hbytes

/-- The row that is moved keeps what is stored about it. -/
theorem move {source target : StorageObjectKey} {row row' : ObjectRow} (now now' : ℕ)
    (hrow : st.disk.rows.lookup source.path = some row) (hsame : row'.timeless = row.timeless) :
    Agree sha256 contents
      ⟨{ st.disk with rows := movedRows st.disk.rows source.path target.path row now },
        { st.s3 with rows := movedRows st.s3.rows source.path target.path row' now' }⟩ := by
  have hobject : (movedObject row target.path now).timeless =
      (movedObject row' target.path now').timeless := by
    rw [timeless_movedObject, timeless_movedObject, hsame]
  refine ⟨((h.rows.erase _).insert hsame.symm).upsert hobject, ?_, h.content⟩
  intro path' other hother
  change (movedRows _ _ _ _ _).lookup path' = some other at hother
  obtain ⟨moved, hhash, hkey, hlookup⟩ := lookup_movedRows _ _ source.path target.path now path'
  rw [hlookup] at hother
  split_ifs at hother with hpath
  · cases hother
    have hold := h.held source.path row hrow
    refine ⟨⟨target, hpath.symm⟩, ?_, ?_⟩
    · rw [hkey, hhash]
      exact hold.key
    · rw [hkey, hhash]
      exact hold.bytes
  · have hold := h.held path' other (Table.of_lookup_erase hother).2
    exact ⟨hold.named, hold.key, hold.bytes⟩

include hsha in
/-- **One call.** The replies are the same, and the backends agree after it. -/
theorem step (e : StorageCall × ℕ × ℕ) (hdata : ∀ data ∈ e.1.data, data ∈ contents) :
    SameReply sha256 st e ∧ Agree sha256 contents (st.step sha256 e) := by
  obtain ⟨call, now, now'⟩ := e
  cases call with
  | put path data options =>
      exact ⟨(h.step_put hsha path options now now' (hdata data rfl)).1,
        h.put hsha path options now now' (hdata data rfl)⟩
  | get path => exact ⟨h.reply_get path now now', h⟩
  | delete path =>
      rcases hrow : st.disk.rows.lookup path.path with _ | row
      · obtain ⟨hreply, hstep⟩ := h.step_delete_of_absent now now' hrow
        exact ⟨hreply, by rwa [hstep]⟩
      · exact ⟨(h.step_delete now now' hrow).1, h.delete now now' hrow⟩
  | rename source target =>
      obtain ⟨hreply, hstep | ⟨row, row', hrow, hsame, -, hstep⟩⟩ :=
        h.step_rename source target now now'
      · exact ⟨hreply, by rwa [hstep]⟩
      · exact ⟨hreply, hstep ▸ h.move now now' hrow hsame⟩
  | list options =>
      refine ⟨?_, h⟩
      let reply : Except StorageError (List ListEntry) → Except BackendError Reply := fun listed =>
        (listed.map .entries).mapError .storage
      exact congrArg (fun listed => (reply listed).map Reply.timeless) (h.rows.tryList_eq options)
  | exists_ path => exact ⟨h.reply_exists path now now', h⟩

end Agree

/-! ## What is left without a row -/

/-- A row of another path has a property. -/
def OtherRow (rows : ObjectRows) (path : Text) (p : ObjectRow → Prop) : Prop :=
  ∃ path' row, path' ≠ path ∧ rows.lookup path' = some row ∧ p row

variable (sha256) in
/-- The row that the call replaces or deletes does not leave its object. A `put` over it has the same
object, or another path has a row with it; and where another path has a row with the content of a row
that is deleted, another path has a row with the object. -/
def LeavesNothing (rows : ObjectRows) : StorageCall → Prop
  | .put path data _ => ∀ row, rows.lookup path.path = some row →
      row.objectStoreKey = objectKeyFor path.path (contentSha256Hex sha256 data) ∨
        OtherRow rows path.path fun other => other.objectStoreKey = row.objectStoreKey
  | .delete path => ∀ row, rows.lookup path.path = some row →
      (OtherRow rows path.path fun other => other.contentSha256 = row.contentSha256) →
        OtherRow rows path.path fun other => other.objectStoreKey = row.objectStoreKey
  | _ => True

/-- Every object of the bucket and every blob is that of a row. -/
structure Tidy (st : Backends) : Prop where
  bucket : ∀ key data, st.s3.bucket.lookup key = some data →
    ∃ path row, st.disk.rows.lookup path = some row ∧ row.objectStoreKey = key
  blobs : ∀ name bytes, st.disk.blobs.read name = some bytes →
    ∃ path row, st.disk.rows.lookup path = some row ∧ blobPath row.contentSha256 = name

/-- New backends are tidy. -/
theorem tidy_new : Tidy .new where
  bucket key data h := by simp [Backends.new, S3StorageBackend.new] at h
  blobs name bytes h := by
    rw [show Backends.new.disk.blobs.read _ = none from
      Directory.read_eq_none.mpr (Directory.names_empty _)] at h
    cases h

/-- Where the content of a row that is deleted is still counted, another row has it. -/
theorem otherRow_of_countContent {rows : ObjectRows} {path hash : Text}
    (hcount : MetadataStore.countContent (rows.erase path) hash ≠ 0) :
    OtherRow rows path fun other => other.contentSha256 = hash := by
  by_contra hnone
  refine hcount (MetadataStore.countContent_eq_zero.mpr fun path' row hrow hhash => hnone ?_)
  obtain ⟨hne, hrow⟩ := Table.of_lookup_erase hrow
  exact ⟨path', row, hne, hrow, hhash⟩

/-- There is a row with the object and the content of a row. -/
def Covered (rows : ObjectRows) (row : ObjectRow) : Prop :=
  ∃ path other, rows.lookup path = some other ∧ other.objectStoreKey = row.objectStoreKey ∧
    other.contentSha256 = row.contentSha256

section

variable {rows' : ObjectRows} {path : Text} (hkeep : ∀ path' other, path' ≠ path →
  st.disk.rows.lookup path' = some other → rows'.lookup path' = some other)

include hkeep

theorem Covered.of_otherRow (h : Agree sha256 contents st) {row : ObjectRow}
    (hrow : st.disk.rows.lookup path = some row)
    (hother : OtherRow st.disk.rows path fun other => other.objectStoreKey = row.objectStoreKey) :
    Covered rows' row := by
  obtain ⟨path', other, hne, hother, hkey⟩ := hother
  exact ⟨path', other, hkeep path' other hne hother, hkey,
    (h.held path' other hother).contentSha256_eq (h.held path row hrow) hkey⟩

/-- Where only the row of one path changes, the other rows are covered by themselves. -/
theorem Covered.of_kept (hpath : ∀ row, st.disk.rows.lookup path = some row → Covered rows' row)
    {path' : Text} {row : ObjectRow} (hrow : st.disk.rows.lookup path' = some row) :
    Covered rows' row := by
  by_cases hne : path' = path
  · subst hne
    exact hpath row hrow
  · exact ⟨path', row, hkeep path' row hne hrow, rfl, rfl⟩

end

namespace Tidy

variable (h : Agree sha256 contents st) (htidy : Tidy st)

include htidy

/-- Objects that were there are still those of rows, if the rows are covered. -/
theorem of_covered {st' : Backends}
    (hcovered : ∀ path row, st.disk.rows.lookup path = some row → Covered st'.disk.rows row)
    (hbucket : ∀ key data, st'.s3.bucket.lookup key = some data →
      (∃ path row, st'.disk.rows.lookup path = some row ∧ row.objectStoreKey = key) ∨
        st.s3.bucket.lookup key = some data)
    (hblobs : ∀ name bytes, st'.disk.blobs.read name = some bytes →
      (∃ path row, st'.disk.rows.lookup path = some row ∧ blobPath row.contentSha256 = name) ∨
        st.disk.blobs.read name = some bytes) : Tidy st' where
  bucket key data hlookup := by
    rcases hbucket key data hlookup with hrow | hold
    · exact hrow
    · obtain ⟨path, row, hrow, rfl⟩ := htidy.bucket key data hold
      obtain ⟨path', other, hother, hkey, -⟩ := hcovered path row hrow
      exact ⟨path', other, hother, hkey⟩
  blobs name bytes hread := by
    rcases hblobs name bytes hread with hrow | hold
    · exact hrow
    · obtain ⟨path, row, hrow, rfl⟩ := htidy.blobs name bytes hold
      obtain ⟨path', other, hother, -, hhash⟩ := hcovered path row hrow
      exact ⟨path', other, hother, congrArg blobPath hhash⟩

include h

theorem put (hsha : Set.InjOn sha256 contents) {path : StorageObjectKey} {data : Bytes}
    {options : PutOptions} {now now' : ℕ} (hdata : data ∈ contents)
    (hleaves : LeavesNothing sha256 st.disk.rows (.put path data options)) :
    Tidy (st.step sha256 (.put path data options, now, now')) := by
  obtain ⟨-, blobs, hstep, -, hnames⟩ := h.step_put hsha path options now now' hdata
  rw [hstep]
  let object := LocalDiskBackend.putMetadata sha256 path data options now
  have hnew : (MetadataStore.upsert st.disk.rows object).lookup path.path =
      some (MetadataStore.objectRow st.disk.rows object) := AList.lookup_insert _
  apply htidy.of_covered
  · intro path' row hrow
    have hkeep : ∀ path' other, path' ≠ path.path → st.disk.rows.lookup path' = some other →
        (MetadataStore.upsert st.disk.rows object).lookup path' = some other := by
      intro path' other hne hother
      rw [MetadataStore.lookup_upsert, if_neg (show path' ≠ object.path from hne)]
      exact hother
    apply Covered.of_kept hkeep ?_ hrow
    intro row hrow
    rcases hleaves row hrow with hkey | hother
    · obtain ⟨origin, horigin⟩ := (h.held _ row hrow).key
      obtain ⟨data', -, hhash, -⟩ := (h.held _ row hrow).bytes
      refine ⟨path.path, _, hnew, hkey.symm, ?_⟩
      rw [hhash]
      rw [hkey, hhash] at horigin
      exact sha256Hex_eq_of_objectKeyFor_eq horigin
    · exact Covered.of_otherRow hkeep h hrow hother
  · intro key bytes hlookup
    change (AList.insert (objectKeyFor path.path (contentSha256Hex sha256 data)) data
      st.s3.bucket).lookup key = some bytes at hlookup
    rw [Table.lookup_insert_eq_ite] at hlookup
    split_ifs at hlookup with hkey
    · exact .inl ⟨path.path, _, hnew, hkey.symm⟩
    · exact .inr hlookup
  · intro name bytes hread
    rcases hnames name bytes hread with rfl | hold
    · exact .inl ⟨path.path, _, hnew, rfl⟩
    · exact .inr hold

theorem delete {path : StorageObjectKey} {row : ObjectRow} {now now' : ℕ}
    (hrow : st.disk.rows.lookup path.path = some row)
    (hleaves : LeavesNothing sha256 st.disk.rows (.delete path)) :
    Tidy (st.step sha256 (.delete path, now, now')) := by
  obtain ⟨-, blobs, hstep, hread⟩ := h.step_delete now now' hrow
  rw [hstep]
  have hkeep : ∀ path' other, path' ≠ path.path → st.disk.rows.lookup path' = some other →
      (st.disk.rows.erase path.path).lookup path' = some other := by
    intro path' other hne hother
    rw [AList.lookup_erase_ne hne]
    exact hother
  by_cases hcount : MetadataStore.countContent (st.disk.rows.erase path.path) row.contentSha256 = 0
  · -- the object and the blob go with the row
    refine ⟨fun key bytes hlookup => ?_, fun name bytes hbytes => ?_⟩
    · simp only [if_pos hcount] at hlookup
      obtain ⟨hne, hlookup⟩ := Table.of_lookup_erase hlookup
      obtain ⟨path', other, hother, rfl⟩ := htidy.bucket key bytes hlookup
      refine ⟨path', other, hkeep path' other ?_ hother, rfl⟩
      rintro rfl
      rw [hrow] at hother
      cases hother
      exact hne rfl
    · change blobs.read name = _ at hbytes
      rw [hread] at hbytes
      split_ifs at hbytes with hname
      obtain ⟨path', other, hother, rfl⟩ := htidy.blobs name bytes hbytes
      refine ⟨path', other, hkeep path' other ?_ hother, rfl⟩
      rintro rfl
      rw [hrow] at hother
      cases hother
      exact hname ⟨hcount, rfl⟩
  · apply htidy.of_covered
    · intro path' other hother
      apply Covered.of_kept hkeep ?_ hother
      intro row' hrow'
      rw [hrow] at hrow'
      cases hrow'
      exact Covered.of_otherRow hkeep h hrow (hleaves row hrow (otherRow_of_countContent hcount))
    · intro key bytes hlookup
      simp only [if_neg hcount] at hlookup
      exact .inr hlookup
    · intro name bytes hbytes
      change blobs.read name = _ at hbytes
      rw [hread, if_neg fun hname => hcount hname.1] at hbytes
      exact .inr hbytes

/-- A call that leaves nothing keeps the backends tidy. -/
theorem step (hsha : Set.InjOn sha256 contents) (e : StorageCall × ℕ × ℕ)
    (hdata : ∀ data ∈ e.1.data, data ∈ contents)
    (hleaves : LeavesNothing sha256 st.disk.rows e.1) : Tidy (st.step sha256 e) := by
  obtain ⟨call, now, now'⟩ := e
  cases call with
  | put path data options => exact htidy.put h hsha (hdata data rfl) hleaves
  | delete path =>
      rcases hrow : st.disk.rows.lookup path.path with _ | row
      · rw [(h.step_delete_of_absent now now' hrow).2]
        exact htidy
      · exact htidy.delete h hrow hleaves
  | rename source target =>
      obtain ⟨-, hstep | ⟨row, row', hrow, -, htarget, hstep⟩⟩ :=
        h.step_rename source target now now'
      · rwa [hstep]
      · rw [hstep]
        refine htidy.of_covered ?_ (fun key data hlookup => .inr hlookup) fun name bytes hread =>
          .inr hread
        intro path' other hother
        have hlookup := fun path' =>
          lookup_movedRows st.disk.rows row source.path target.path now path'
        by_cases hpath : path' = source.path
        · subst hpath
          obtain ⟨moved, hhash, hkey, hmoved⟩ := hlookup target.path
          rw [hrow] at hother
          cases hother
          exact ⟨target.path, moved, hmoved.trans (if_pos rfl), hkey, hhash⟩
        · obtain ⟨moved, -, -, hmoved⟩ := hlookup path'
          have hne : path' ≠ target.path := by
            rintro rfl
            rw [htarget] at hother
            cases hother
          rw [if_neg hne, AList.lookup_erase_ne hpath, hother] at hmoved
          exact ⟨path', other, hmoved, rfl, rfl⟩
  | get path => exact htidy
  | list options => exact htidy
  | exists_ path => exact htidy

end Tidy

/-- The bucket has an object that no row has. -/
def HasOrphan (st : Backends) : Prop :=
  ∃ key data, st.s3.bucket.lookup key = some data ∧
    ∀ path row, st.disk.rows.lookup path = some row → row.objectStoreKey ≠ key

/-- A call that replaces or deletes a row and leaves its object. -/
theorem Agree.hasOrphan_of_leaves (hsha : Set.InjOn sha256 contents) (h : Agree sha256 contents st)
    (e : StorageCall × ℕ × ℕ) (hdata : ∀ data ∈ e.1.data, data ∈ contents)
    (hleaves : ¬ LeavesNothing sha256 st.disk.rows e.1) : HasOrphan (st.step sha256 e) := by
  obtain ⟨call, now, now'⟩ := e
  cases call with
  | put path data options =>
      simp only [LeavesNothing, not_forall, not_or] at hleaves
      obtain ⟨row, hrow, hkey, hother⟩ := hleaves
      obtain ⟨-, blobs, hstep, -, -⟩ := h.step_put hsha path options now now' (hdata data rfl)
      obtain ⟨old, -, -, hobject, -⟩ := (h.held _ row hrow).bytes
      rw [hstep]
      refine ⟨row.objectStoreKey, old, ?_, ?_⟩
      · show (AList.insert _ _ _).lookup _ = _
        rw [Table.lookup_insert_eq_ite, if_neg hkey]
        exact hobject
      · intro path' row' hrow' hsame
        change (MetadataStore.upsert _ _).lookup path' = some row' at hrow'
        rw [MetadataStore.lookup_upsert] at hrow'
        split_ifs at hrow' with hpath
        · cases hrow'
          exact hkey hsame.symm
        · exact hother ⟨path', row', hpath, hrow', hsame⟩
  | delete path =>
      simp only [LeavesNothing, not_forall] at hleaves
      obtain ⟨row, hrow, ⟨path'', shared, hne, hshared, hhash⟩, hother⟩ := hleaves
      obtain ⟨-, blobs, hstep, -⟩ := h.step_delete now now' hrow
      obtain ⟨old, -, -, hobject, -⟩ := (h.held _ row hrow).bytes
      have hcount :
          MetadataStore.countContent (st.disk.rows.erase path.path) row.contentSha256 ≠ 0 := by
        intro hzero
        apply MetadataStore.countContent_eq_zero.mp hzero path'' shared ?_ hhash
        rw [AList.lookup_erase_ne hne]
        exact hshared
      rw [hstep, if_neg hcount]
      refine ⟨row.objectStoreKey, old, hobject, ?_⟩
      intro path' row' hrow' hsame
      obtain ⟨hne', hrow'⟩ := Table.of_lookup_erase hrow'
      exact hother ⟨path', row', hne', hrow', hsame⟩
  | rename source target => exact absurd trivial hleaves
  | get path => exact absurd trivial hleaves
  | list options => exact absurd trivial hleaves
  | exists_ path => exact absurd trivial hleaves

/-- A `delete` removes the object of the row that it deletes, and no other. -/
theorem Agree.hasOrphan_delete (h : Agree sha256 contents st) (horphan : HasOrphan st)
    (path : StorageObjectKey) (now now' : ℕ) :
    HasOrphan (st.step sha256 (.delete path, now, now')) := by
  obtain ⟨key, data, hobject, hrows⟩ := horphan
  rcases hrow : st.disk.rows.lookup path.path with _ | row
  · rw [(h.step_delete_of_absent now now' hrow).2]
    exact ⟨key, data, hobject, hrows⟩
  · obtain ⟨-, blobs, hstep, -⟩ := h.step_delete now now' hrow
    rw [hstep]
    refine ⟨key, data, ?_, fun path' row' hrow' => ?_⟩
    · show (if _ then _ else _ : Table Text Bytes).lookup _ = _
      split_ifs
      · rw [AList.lookup_erase_ne (hrows path.path row hrow).symm]
        exact hobject
      · exact hobject
    · exact hrows path' row' (Table.of_lookup_erase hrow').2

/-! ## Runs of calls -/

/-- Every stored path has been deleted. -/
def Deleted (st : Backends) : Prop :=
  ∀ path, st.disk.rows.lookup path = none ∧ st.s3.rows.lookup path = none

/-- Once every stored path has been deleted, neither the bucket nor the directory has an object. -/
def Emptied (st : Backends) : Prop :=
  Deleted st → (∀ key, st.s3.bucket.lookup key = none) ∧ ∀ name, st.disk.blobs.read name = none

/-- Tidy backends without rows are empty. -/
theorem Tidy.emptied (htidy : Tidy st) : Emptied st := by
  intro hdeleted
  constructor
  · intro key
    rcases hlookup : st.s3.bucket.lookup key with _ | data
    · rfl
    · obtain ⟨path, row, hrow, -⟩ := htidy.bucket key data hlookup
      rw [(hdeleted path).1] at hrow
      cases hrow
  · intro name
    rcases hread : st.disk.blobs.read name with _ | bytes
    · rfl
    · obtain ⟨path, row, hrow, -⟩ := htidy.blobs name bytes hread
      rw [(hdeleted path).1] at hrow
      cases hrow

/-- Calls that delete some paths. -/
def deletes (paths : List StorageObjectKey) : List (StorageCall × ℕ × ℕ) :=
  paths.map fun path => (.delete path, 0, 0)

/-- After some paths are deleted, an object without a row is still there, and the other rows are. -/
theorem Agree.run_deletes (h : Agree sha256 contents st) (horphan : HasOrphan st)
    (paths : List StorageObjectKey) :
    let st' := Trace.run (Backends.step sha256) st (deletes paths)
    Agree sha256 contents st' ∧ HasOrphan st' ∧
      ∀ path row, st'.disk.rows.lookup path = some row →
        path ∉ paths.map StorageObjectKey.path ∧ st.disk.rows.lookup path = some row := by
  induction paths generalizing st with
  | nil => exact ⟨h, horphan, fun path row hrow => ⟨by simp, hrow⟩⟩
  | cons first paths ih =>
      obtain ⟨hnext, hrows⟩ : Agree sha256 contents (st.step sha256 (.delete first, 0, 0)) ∧
          ∀ path row, (st.step sha256 (.delete first, 0, 0)).disk.rows.lookup path = some row →
            path ≠ first.path ∧ st.disk.rows.lookup path = some row := by
        rcases hrow : st.disk.rows.lookup first.path with _ | row
        · rw [(h.step_delete_of_absent 0 0 hrow).2]
          refine ⟨h, fun path other hother => ⟨?_, hother⟩⟩
          rintro rfl
          rw [hrow] at hother
          cases hother
        · refine ⟨h.delete 0 0 hrow, fun path other hother => ?_⟩
          obtain ⟨-, blobs, hstep, -⟩ := h.step_delete 0 0 hrow
          rw [hstep] at hother
          exact Table.of_lookup_erase hother
      obtain ⟨hagree, horphan', hlast⟩ := ih hnext (h.hasOrphan_delete horphan first 0 0)
      refine ⟨hagree, horphan', fun path row hrow => ?_⟩
      obtain ⟨hnotMem, hrow'⟩ := hlast path row hrow
      obtain ⟨hne, hold⟩ := hrows path row hrow'
      exact ⟨by simpa [hne] using hnotMem, hold⟩

/-- An object without a row outlives the deletion of every path. -/
theorem Agree.exists_deletes (h : Agree sha256 contents st) (horphan : HasOrphan st) :
    ∃ paths, ¬ Emptied (Trace.run (Backends.step sha256) st (deletes paths)) := by
  have hnamed : ∀ path ∈ st.disk.rows.keys, path ∈ Set.range StorageObjectKey.path := by
    intro path hpath
    obtain ⟨row, hrow⟩ := Option.isSome_iff_exists.mp (AList.lookup_isSome.mpr hpath)
    exact (h.held path row hrow).named
  obtain ⟨paths, hpaths⟩ : st.disk.rows.keys ∈ Set.range (List.map StorageObjectKey.path) := by
    rw [Set.range_list_map]
    exact hnamed
  obtain ⟨hagree, ⟨key, data, hobject, -⟩, hrows⟩ := h.run_deletes horphan paths
  refine ⟨paths, fun hemptied => ?_⟩
  have hnone : ∀ path,
      (Trace.run (Backends.step sha256) st (deletes paths)).disk.rows.lookup path = none := by
    intro path
    rcases hrow : (Trace.run (Backends.step sha256) st (deletes paths)).disk.rows.lookup path with
      _ | row
    · rfl
    · obtain ⟨hnotMem, hold⟩ := hrows path row hrow
      rw [hpaths] at hnotMem
      exact absurd (AList.lookup_isSome.mp (by rw [hold]; rfl)) hnotMem
  obtain ⟨hbucket, -⟩ := hemptied fun path =>
    ⟨hnone path, (hagree.rows.lookup_eq_none _).mpr (hnone path)⟩
  rw [hbucket key] at hobject
  cases hobject

variable (sha256) in
/-- **The two backends agree.** Calls that run one after another get the same replies from both. If
each call leaves nothing, then whenever every stored path has been deleted nothing remains in the
bucket and on the disk; and after a call that leaves something, an object remains that deleting every
path does not remove. -/
theorem backends_agree (hsha : Set.InjOn sha256 contents) (calls : List (StorageCall × ℕ × ℕ))
    (hdata : ∀ e ∈ calls, ∀ data ∈ e.1.data, data ∈ contents) :
    Trace.Always (Backends.step sha256) (fun _ st e => SameReply sha256 st e) .new calls ∧
      (Trace.Always (Backends.step sha256)
          (fun _ st e => LeavesNothing sha256 st.disk.rows e.1) .new calls →
        ∀ pre post, calls = pre ++ post → Emptied (Trace.run (Backends.step sha256) .new pre)) ∧
      ∀ pre e post, calls = pre ++ e :: post →
        ¬ LeavesNothing sha256 (Trace.run (Backends.step sha256) .new pre).disk.rows e.1 →
          ∃ paths, ¬ Emptied (Trace.run (Backends.step sha256) .new (pre ++ e :: deletes paths)) := by
  have hstored : Trace.Always (Backends.step sha256)
      (fun _ _ e => ∀ data ∈ e.1.data, data ∈ contents) .new calls := by
    rintro pre e post rfl
    exact hdata e (by simp)
  obtain ⟨hreplies, -⟩ := Trace.Always.of_invariant (φ := fun _ st e => SameReply sha256 st e)
    (I := fun _ st => Agree sha256 contents st) agree_new (fun _ e h he => (h.step hsha e he).1)
    (fun _ e h he => (h.step hsha e he).2) hstored
  refine ⟨hreplies, ?_, ?_⟩
  · rintro hleaves pre post rfl
    have hsteps := (Trace.always_and.mpr ⟨hstored, hleaves⟩).of_append
    obtain ⟨-, -, htidy⟩ := Trace.Always.of_invariant (φ := fun _ _ _ => True)
      (I := fun _ st => Agree sha256 contents st ∧ Tidy st) ⟨agree_new, tidy_new⟩
      (fun _ _ _ _ => trivial)
      (fun _ e h he => ⟨(h.1.step hsha e he.1).2, h.2.step h.1 hsha e he.1 he.2⟩) hsteps
    exact htidy.emptied
  · rintro pre e post rfl hleaves
    obtain ⟨-, hagree⟩ := Trace.Always.of_invariant (φ := fun _ _ _ => True)
      (I := fun _ st => Agree sha256 contents st) agree_new (fun _ _ _ _ => trivial)
      (fun _ e h he => (h.step hsha e he).2) hstored.of_append
    have he : ∀ data ∈ e.1.data, data ∈ contents := hdata e (by simp)
    obtain ⟨paths, hpaths⟩ := (hagree.step hsha e he).2.exists_deletes
      (hagree.hasOrphan_of_leaves hsha e he hleaves)
    exact ⟨paths, by rwa [Trace.run_append]⟩

/-! ## A run -/

/-- Two paths with one content, deleted one after the other. -/
def sharedCalls : List (StorageCall × ℕ × ℕ) :=
  [(.put keyA [65] ⟨none, ∅⟩, 1, 5), (.put keyB [65] ⟨none, ∅⟩, 2, 6), (.delete keyA, 3, 7),
    (.delete keyB, 4, 8)]

theorem sharedCalls_data : ∀ e ∈ sharedCalls, ∀ data ∈ e.1.data, data ∈ sampleContents := by
  intro e he data hdata
  simp only [sharedCalls, List.mem_cons, List.not_mem_nil, or_false] at he
  rcases he with rfl | rfl | rfl | rfl <;> simp_all [StorageCall.data, sampleContents]

/-- The object of the first path stays in the bucket: when its row goes, the content has another row,
and when that row goes, its own object is removed. -/
theorem not_emptied_sharedCalls :
    ¬ Emptied (Trace.run (Backends.step sampleSha256) .new sharedCalls) := by
  intro h
  have hdisk : (Trace.run (Backends.step sampleSha256) .new sharedCalls).disk.rows = ∅ :=
    AList.ext (by decide +kernel)
  have hs3 : (Trace.run (Backends.step sampleSha256) .new sharedCalls).s3.rows = ∅ :=
    AList.ext (by decide +kernel)
  have hobject := (h fun path => ⟨by rw [hdisk]; rfl, by rw [hs3]; rfl⟩).1
    (objectKeyFor ['a'] (contentSha256Hex sampleSha256 [65]))
  exact absurd hobject (by decide +kernel)

theorem sharedCalls_replies :
    Trace.Always (Backends.step sampleSha256) (fun _ st e => SameReply sampleSha256 st e) .new
      sharedCalls :=
  (backends_agree sampleSha256 injOn_sampleContents sharedCalls sharedCalls_data).1

end

end DiskArcana.Storage
