import DiskArcana.Lib.Trace
import DiskArcana.Storage.Model

/-!
# The object store as a map

What the store is for: a map from keys to bytes (`ObjectMap`). Calls that run one after another are
answered as on the map (`serve_refines_map`), as long as SHA-256 has no collision among the contents
that are put. Contents that several keys share stay readable when one of the keys goes, because a row
of another key keeps its blob (`Represents.blob`).

Bytes that no key has any more may stay on the disk: a `put` over a key leaves the blob of the old
bytes. What a blob holds hashes to its name (`Represents.content`), so a later `put` of those bytes
can use it.
-/

namespace DiskArcana.Storage

open DiskArcana.Core DiskArcana.Lib

/-! ## Calls and their answers -/

/-- A call, with the bytes and options that come with it. -/
inductive Call where
  | put (path : StorageObjectKey) (data : Bytes) (options : PutOptions)
  | get (path : StorageObjectKey)
  | delete (path : StorageObjectKey)
  | rename (source target : StorageObjectKey)
  | exists_ (path : StorageObjectKey)

/-- The bytes that a call stores. -/
def Call.data : Call → Option Bytes
  | .put _ data _ => some data
  | _ => none

/-- What a call gives back, apart from times, tags and the object key. -/
inductive Outcome where
  | object (path : Text) (size : ℕ) (contentSha256 : Text)
  | bytes (data : Bytes)
  | deleted
  | present (answer : Bool)
  deriving DecidableEq

abbrev Answer := Except StorageError Outcome

def ObjectMetadata.outcome (object : ObjectMetadata) : Outcome :=
  .object object.path object.size object.contentSha256

section

variable (sha256 : Bytes → Digest)

/-- One call at a time. -/
def LocalDiskBackend.serve (b : LocalDiskBackend) (call : Call) (now : ℕ) :
    LocalDiskBackend × Answer :=
  match call with
  | .put path data options =>
      let (b, answer) := b.put sha256 path data options now
      (b, answer.map ObjectMetadata.outcome)
  | .get path => (b, (b.get path).map .bytes)
  | .delete path =>
      let (b, answer) := b.delete path
      (b, answer.map fun _ => .deleted)
  | .rename source target =>
      let (b, answer) := b.rename source target now
      (b, answer.map ObjectMetadata.outcome)
  | .exists_ path => (b, .ok (.present (b.exists_ path)))

/-! ## The map -/

/-- What is stored under each key. -/
abbrev ObjectMap := Table StorageObjectKey Bytes

/-- The answer about an object that has just been stored. -/
def stored (path : StorageObjectKey) (data : Bytes) : Outcome :=
  .object path.path data.length (contentSha256Hex sha256 data)

/-- What a call does to the map. -/
def ObjectMap.serve (m : ObjectMap) : Call → ObjectMap × Answer
  | .put path data _ => (m.insert path data, .ok (stored sha256 path data))
  | .get path =>
      match m.lookup path with
      | some data => (m, .ok (.bytes data))
      | none => (m, .error (.notFound path.path))
  | .delete path =>
      match m.lookup path with
      | some _ => (m.erase path, .ok .deleted)
      | none => (m, .error (.notFound path.path))
  | .rename source target =>
      match m.lookup source, m.lookup target with
      | none, _ => (m, .error (.notFound source.path))
      | some _, some _ => (m, .error (.alreadyExists target.path))
      | some data, none => ((m.erase source).insert target data, .ok (stored sha256 target data))
  | .exists_ path => (m, .ok (.present (m.lookup path).isSome))

/-! ## Representation -/

/-- The row of each key is about its bytes. -/
def RowsOf (rows : ObjectRows) (m : ObjectMap) : Prop :=
  ∀ path : StorageObjectKey, (rows.lookup path.path).map (fun row => (row.size, row.contentSha256)) =
    (m.lookup path).map fun data => (data.length, contentSha256Hex sha256 data)

/-- The store holds the map. `contents` are the bytes that may have been put. -/
structure Represents (contents : Set Bytes) (b : LocalDiskBackend) (m : ObjectMap) : Prop where
  row : RowsOf sha256 b.rows m
  /-- The blob of every key is there. -/
  blob : ∀ path data, m.lookup path = some data →
    b.blobs.read (blobPath (contentSha256Hex sha256 data)) = some data
  /-- A blob holds bytes that hash to its name. -/
  content : ∀ data bytes, b.blobs.read (blobPath (contentSha256Hex sha256 data)) = some bytes →
    contentSha256Hex sha256 bytes = contentSha256Hex sha256 data ∧ bytes ∈ contents

variable {sha256} {contents : Set Bytes} {b : LocalDiskBackend} {m : ObjectMap} {rows : ObjectRows}

theorem represents_new : Represents sha256 contents .new ∅ where
  row path := by simp [LocalDiskBackend.new]
  blob path data h := by simp at h
  content data bytes h := by
    rw [show LocalDiskBackend.new.blobs.read _ = none from
      Directory.read_eq_none.mpr (Directory.names_empty _)] at h
    cases h

theorem path_injective : Function.Injective StorageObjectKey.path := by
  rintro ⟨p, _, _, _⟩ ⟨q, _, _, _⟩ h
  cases h
  rfl

namespace RowsOf

variable {path : StorageObjectKey} {data : Bytes}

/-- A key that the map does not have has no row. -/
theorem lookup_eq_none (h : RowsOf sha256 rows m) :
    rows.lookup path.path = none ↔ m.lookup path = none := by
  have hrow := h path
  rw [← Option.map_eq_none_iff, hrow, Option.map_eq_none_iff]

/-- A key that the map has has a row about its bytes. -/
theorem exists_row (h : RowsOf sha256 rows m) (hdata : m.lookup path = some data) :
    ∃ row, rows.lookup path.path = some row ∧ row.size = data.length ∧
      row.contentSha256 = contentSha256Hex sha256 data := by
  have hrow := h path
  rw [hdata, Option.map_some, Option.map_eq_some_iff] at hrow
  obtain ⟨row, hlookup, heq⟩ := hrow
  exact ⟨row, hlookup, (Prod.mk.inj heq).1, (Prod.mk.inj heq).2⟩

theorem insert (h : RowsOf sha256 rows m) {row : ObjectRow} (hsize : row.size = data.length)
    (hhash : row.contentSha256 = contentSha256Hex sha256 data) :
    RowsOf sha256 (rows.insert path.path row) (m.insert path data) := by
  intro path'
  rw [Table.lookup_insert_eq_ite, Table.lookup_insert_eq_ite]
  by_cases hpath : path' = path
  · rw [if_pos (congrArg StorageObjectKey.path hpath), if_pos hpath, Option.map_some,
      Option.map_some, hsize, hhash]
  · rw [if_neg fun heq => hpath (path_injective heq), if_neg hpath]
    exact h path'

theorem erase (h : RowsOf sha256 rows m) (path : StorageObjectKey) :
    RowsOf sha256 (rows.erase path.path) (m.erase path) := by
  intro path'
  by_cases hpath : path' = path
  · rw [hpath, AList.lookup_erase, AList.lookup_erase]
    rfl
  · rw [AList.lookup_erase_ne hpath, AList.lookup_erase_ne fun heq => hpath (path_injective heq)]
    exact h path'

end RowsOf

/-! ## The blob of a put -/

/-- After the blob of some bytes is written, it is there, and the other blobs are as before. -/
theorem writeBlob_spec (sha256 : Bytes → Digest) (b : LocalDiskBackend) (data : Bytes) :
    ∃ blobs, b.writeBlob (contentSha256Hex sha256 data) data = ({ b with blobs }, .ok ()) ∧
      ∀ data', blobs.read (blobPath (contentSha256Hex sha256 data')) =
        if contentSha256Hex sha256 data' = contentSha256Hex sha256 data then
          some ((b.blobs.read (blobPath (contentSha256Hex sha256 data))).getD data)
        else b.blobs.read (blobPath (contentSha256Hex sha256 data')) := by
  unfold LocalDiskBackend.writeBlob
  rcases hthere : b.blobs.contains (blobPath (contentSha256Hex sha256 data)) with _ | _
  · obtain ⟨blobs, hrename, hread⟩ := b.blobs.exists_rename_of_create
      (tempPath (contentSha256Hex sha256 data)) (blobPath (contentSha256Hex sha256 data)) data
    refine ⟨blobs, by simp [hrename], fun data' => ?_⟩
    have htemp := (tempPath_ne_blobPath (s := contentSha256Hex sha256 data)
      (dot_notMem_contentSha256Hex sha256 data')).symm
    rw [hread, Directory.read_eq_none.mpr (Directory.contains_eq_false.mp hthere), Option.getD_none,
      if_neg htemp]
    simp only [blobPath_injective.eq_iff]
  · refine ⟨b.blobs, by simp, fun data' => ?_⟩
    obtain ⟨bytes, hbytes⟩ := Directory.contains_iff_read.mp hthere
    split_ifs with hsame
    · rw [hsame, hbytes, Option.getD_some]
    · rfl

/-! ## Each call -/

section

variable (hsha : Set.InjOn sha256 contents) (h : Represents sha256 contents b m)

include hsha h

/-- The blob that a put finds has its bytes. -/
theorem Represents.getD_eq {data : Bytes} (hdata : data ∈ contents) :
    (b.blobs.read (blobPath (contentSha256Hex sha256 data))).getD data = data := by
  rcases hread : b.blobs.read (blobPath (contentSha256Hex sha256 data)) with _ | bytes
  · rfl
  · obtain ⟨hhash, hbytes⟩ := h.content data bytes hread
    exact contentSha256Hex_injOn hsha hbytes hdata hhash

theorem Represents.put (path : StorageObjectKey) {data : Bytes} (options : PutOptions) (now : ℕ)
    (hdata : data ∈ contents) :
    ∃ b', b.put sha256 path data options now =
        (b', .ok (LocalDiskBackend.putMetadata sha256 path data options now)) ∧
      Represents sha256 contents b' (m.insert path data) := by
  obtain ⟨blobs, hwrite, hread⟩ := writeBlob_spec sha256 b data
  rw [h.getD_eq hsha hdata] at hread
  refine ⟨_, by rw [LocalDiskBackend.put, hwrite], ?_, ?_, ?_⟩
  · exact h.row.insert rfl rfl
  · intro path' data' hlookup
    show blobs.read _ = _
    rw [Table.lookup_insert_eq_ite] at hlookup
    rw [hread]
    split_ifs at hlookup with hpath
    · cases hlookup
      rw [if_pos rfl]
    · have hblob := h.blob path' data' hlookup
      split_ifs with hsame
      · -- another key has the same content
        have hfound := h.getD_eq hsha hdata
        rw [← hsame, hblob, Option.getD_some] at hfound
        rw [hfound]
      · exact hblob
  · intro data' bytes hbytes
    change blobs.read _ = _ at hbytes
    rw [hread] at hbytes
    split_ifs at hbytes with hsame
    · cases hbytes
      exact ⟨hsame.symm, hdata⟩
    · exact h.content data' bytes hbytes

omit hsha in
theorem Represents.get {path : StorageObjectKey} {data : Bytes} (hdata : m.lookup path = some data) :
    b.get path = .ok data := by
  obtain ⟨row, hrow, -, hhash⟩ := h.row.exists_row hdata
  have hblob := h.blob path data hdata
  rw [← hhash] at hblob
  simp [LocalDiskBackend.get, MetadataStore.get, hrow, LocalDiskBackend.readBlob, rowToMetadata, hblob]

omit hsha in
theorem Represents.delete {path : StorageObjectKey} {data : Bytes}
    (hdata : m.lookup path = some data) :
    ∃ b', b.delete path = (b', .ok ()) ∧ Represents sha256 contents b' (m.erase path) := by
  obtain ⟨row, hrow, -, hhash⟩ := h.row.exists_row hdata
  have hunfold : b.delete path = LocalDiskBackend.deleteBlobIfUnreferenced
      { b with rows := b.rows.erase path.path } (contentSha256Hex sha256 data) := by
    simp [LocalDiskBackend.delete, MetadataStore.get, MetadataStore.delete, hrow, rowToMetadata,
      hhash]
  have hrows := h.row.erase path
  have hold : ∀ path' data', (m.erase path).lookup path' = some data' →
      b.blobs.read (blobPath (contentSha256Hex sha256 data')) = some data' :=
    fun path' data' hlookup => h.blob path' data' (Table.of_lookup_erase hlookup).2
  rw [hunfold, LocalDiskBackend.deleteBlobIfUnreferenced]
  split_ifs with hcount hthere
  · refine ⟨_, rfl, hrows, ?_, ?_⟩
    · intro path' data' hlookup
      show (b.blobs.remove _).read _ = _
      rw [Directory.read_remove]
      split_ifs with hsame
      · -- a row of another key would have been counted
        obtain ⟨row', hrow', -, hhash'⟩ := hrows.exists_row hlookup
        have hne := MetadataStore.countContent_eq_zero.mp hcount path'.path row' hrow'
        exact absurd (hhash'.trans (blobPath_injective hsame)) hne
      · exact hold path' data' hlookup
    · intro data' bytes hbytes
      change (b.blobs.remove _).read _ = _ at hbytes
      rw [Directory.read_remove] at hbytes
      split_ifs at hbytes
      exact h.content data' bytes hbytes
  · exact ⟨_, rfl, hrows, hold, h.content⟩
  · exact ⟨_, rfl, hrows, hold, h.content⟩

omit hsha in
theorem Represents.rename {source target : StorageObjectKey} {data : Bytes} (now : ℕ)
    (hsource : m.lookup source = some data) (htarget : m.lookup target = none) :
    ∃ b' object, b.rename source target now = (b', .ok object) ∧
      object.outcome = stored sha256 target data ∧
      Represents sha256 contents b' ((m.erase source).insert target data) := by
  obtain ⟨row, hrow, hsize, hhash⟩ := h.row.exists_row hsource
  have hfree := h.row.lookup_eq_none.mpr htarget
  have hrename := MetadataStore.rename_of_free hrow hfree
  let object := LocalDiskBackend.renamedMetadata (rowToMetadata source.path row) target now
  have hcall : b.rename source target now = ({ b with
      rows := MetadataStore.upsert ((b.rows.erase source.path).insert target.path row) object },
      .ok object) := by
    simp [LocalDiskBackend.rename, MetadataStore.get, hrow, hfree, hrename, object]
  refine ⟨_, _, hcall, ?_, ?_, ?_, h.content⟩
  · simp [object, ObjectMetadata.outcome, LocalDiskBackend.renamedMetadata, stored, rowToMetadata,
      hsize, hhash]
  · have hmoved : RowsOf sha256 ((b.rows.erase source.path).insert target.path row)
        ((m.erase source).insert target data) := (h.row.erase source).insert hsize hhash
    intro path'
    show ((MetadataStore.upsert _ object).lookup path'.path).map _ = _
    have hobject : object.path = target.path := rfl
    rw [MetadataStore.lookup_upsert, ← hmoved path', Table.lookup_insert_eq_ite, hobject]
    by_cases hpath : path'.path = target.path
    · rw [if_pos hpath, if_pos hpath]
      simp [MetadataStore.objectRow, object, LocalDiskBackend.renamedMetadata, rowToMetadata]
    · rw [if_neg hpath, if_neg hpath]
  · intro path' data' hlookup
    rw [Table.lookup_insert_eq_ite] at hlookup
    split_ifs at hlookup with hpath
    · cases hlookup
      exact h.blob source data hsource
    · exact h.blob path' data' (Table.of_lookup_erase hlookup).2

end

/-! ## Runs of calls -/

/-- **One call.** It is answered as on the map, and the store then holds the map's next state. -/
theorem Represents.serve (hsha : Set.InjOn sha256 contents) (h : Represents sha256 contents b m)
    (call : Call) (now : ℕ) (hdata : ∀ data ∈ call.data, data ∈ contents) :
    (b.serve sha256 call now).2 = (m.serve sha256 call).2 ∧
      Represents sha256 contents (b.serve sha256 call now).1 (m.serve sha256 call).1 := by
  cases call with
  | put path data options =>
      obtain ⟨b', hcall, hnext⟩ := h.put hsha path options now (hdata data rfl)
      simp only [LocalDiskBackend.serve, ObjectMap.serve, hcall]
      exact ⟨rfl, hnext⟩
  | get path =>
      rcases hlookup : m.lookup path with _ | data
      · have hrow := h.row.lookup_eq_none.mpr hlookup
        simp only [LocalDiskBackend.serve, ObjectMap.serve, hlookup]
        refine ⟨?_, h⟩
        simp [LocalDiskBackend.get, MetadataStore.get, hrow, Except.map]
      · simp only [LocalDiskBackend.serve, ObjectMap.serve, hlookup, h.get hlookup]
        exact ⟨rfl, h⟩
  | delete path =>
      rcases hlookup : m.lookup path with _ | data
      · have hrow := h.row.lookup_eq_none.mpr hlookup
        have hcall : b.delete path = (b, .error (.notFound path.path)) := by
          simp [LocalDiskBackend.delete, MetadataStore.get, hrow]
        simp only [LocalDiskBackend.serve, ObjectMap.serve, hlookup, hcall]
        exact ⟨rfl, h⟩
      · obtain ⟨b', hcall, hnext⟩ := h.delete hlookup
        simp only [LocalDiskBackend.serve, ObjectMap.serve, hlookup, hcall]
        exact ⟨rfl, hnext⟩
  | rename source target =>
      rcases hsource : m.lookup source with _ | data
      · have hrow := h.row.lookup_eq_none.mpr hsource
        have hcall : b.rename source target now = (b, .error (.notFound source.path)) := by
          simp [LocalDiskBackend.rename, MetadataStore.get, hrow]
        simp only [LocalDiskBackend.serve, ObjectMap.serve, hsource, hcall]
        exact ⟨rfl, h⟩
      · rcases htarget : m.lookup target with _ | other
        · obtain ⟨b', object, hcall, hobject, hnext⟩ := h.rename now hsource htarget
          simp only [LocalDiskBackend.serve, ObjectMap.serve, hsource, htarget, hcall]
          exact ⟨by rw [← hobject]; rfl, hnext⟩
        · obtain ⟨row, hrow, -, -⟩ := h.row.exists_row hsource
          obtain ⟨row', hrow', -, -⟩ := h.row.exists_row htarget
          have hcall : b.rename source target now = (b, .error (.alreadyExists target.path)) := by
            simp [LocalDiskBackend.rename, MetadataStore.get, hrow, hrow']
          simp only [LocalDiskBackend.serve, ObjectMap.serve, hsource, htarget, hcall]
          exact ⟨rfl, h⟩
  | exists_ path =>
      refine ⟨?_, h⟩
      simp only [LocalDiskBackend.serve, ObjectMap.serve, LocalDiskBackend.exists_,
        MetadataStore.get, Option.isSome_map]
      rw [show (b.rows.lookup path.path).isSome = (m.lookup path).isSome by
        rw [Bool.eq_iff_iff, Option.isSome_iff_ne_none, Option.isSome_iff_ne_none, Ne, Ne,
          h.row.lookup_eq_none]]

/-- The call is refused because a key is not there, or is. -/
def Refused (answer : Answer) : Prop :=
  ∃ path, answer = .error (.notFound path) ∨ answer = .error (.alreadyExists path)

/-- A refused call changes nothing. -/
theorem serve_of_refused {call : Call} {now : ℕ} (h : Refused (b.serve sha256 call now).2) :
    (b.serve sha256 call now).1 = b := by
  obtain ⟨refusedPath, h⟩ := h
  cases call with
  | put path data options =>
      -- its blob is written in any case
      obtain ⟨blobs, hwrite, -⟩ := writeBlob_spec sha256 b data
      simp [LocalDiskBackend.serve, LocalDiskBackend.put, hwrite, Except.map] at h
  | get path => rfl
  | delete path =>
      rcases hrow : b.rows.lookup path.path with _ | row
      · simp [LocalDiskBackend.serve, LocalDiskBackend.delete, MetadataStore.get, hrow]
      · -- the row is gone, and nothing that follows is refused
        simp only [LocalDiskBackend.serve, LocalDiskBackend.delete, MetadataStore.get,
          MetadataStore.delete, hrow, Option.map_some, Option.isSome_some,
          LocalDiskBackend.deleteBlobIfUnreferenced] at h
        split_ifs at h <;> simp [Except.map] at h
  | rename source target =>
      rcases hrow : b.rows.lookup source.path with _ | row
      · simp [LocalDiskBackend.serve, LocalDiskBackend.rename, MetadataStore.get, hrow]
      · rcases hfree : b.rows.lookup target.path with _ | row'
        · have hrename := MetadataStore.rename_of_free hrow hfree
          simp [LocalDiskBackend.serve, LocalDiskBackend.rename, MetadataStore.get, hrow, hfree,
            hrename, Except.map] at h
        · simp [LocalDiskBackend.serve, LocalDiskBackend.rename, MetadataStore.get, hrow, hfree]
  | exists_ path => rfl

/-- The store after a call that comes at some time. -/
def callStep (sha256 : Bytes → Digest) (b : LocalDiskBackend) (e : Call × ℕ) : LocalDiskBackend :=
  (b.serve sha256 e.1 e.2).1

/-- The map after it. -/
def mapStep (sha256 : Bytes → Digest) (m : ObjectMap) (e : Call × ℕ) : ObjectMap :=
  (m.serve sha256 e.1).1

/-- **The object store is a map from keys to bytes.** Calls that run one after another on a new store
are answered as on the map, and a call that is refused because a key is missing or taken changes
nothing. -/
theorem serve_refines_map (hsha : Set.InjOn sha256 contents) (calls : List (Call × ℕ))
    (hdata : ∀ e ∈ calls, ∀ data ∈ e.1.data, data ∈ contents) :
    (Trace.history (callStep sha256) .new calls).map (fun x => (x.1.serve sha256 x.2.1 x.2.2).2) =
        (Trace.history (mapStep sha256) ∅ calls).map (fun x => (x.1.serve sha256 x.2.1).2) ∧
      Trace.Always (callStep sha256) (fun _ b e => Refused (b.serve sha256 e.1 e.2).2 →
        callStep sha256 b e = b) .new calls := by
  constructor
  · have hstep : ∀ b m (e : Call × ℕ), (∀ data ∈ e.1.data, data ∈ contents) →
        Represents sha256 contents b m → (b.serve sha256 e.1 e.2).2 = (m.serve sha256 e.1).2 ∧
          Represents sha256 contents (callStep sha256 b e) (mapStep sha256 m e) :=
      fun b m e he h => h.serve hsha e.1 e.2 he
    exact (Trace.map_history_eq_of_lockstep hstep represents_new hdata).1
  · intro pre e post _ hrefused
    exact serve_of_refused hrefused

/-! ## A run -/

/-- SHA-256, on two short contents. -/
def sampleSha256 (data : Bytes) : Digest :=
  if data = [65] then
    ⟨[0x55, 0x9a, 0xea, 0xd0, 0x82, 0x64, 0xd5, 0x79, 0x5d, 0x39, 0x09, 0x71, 0x8c, 0xdd, 0x05, 0xab,
      0xd4, 0x95, 0x72, 0xe8, 0x4f, 0xe5, 0x55, 0x90, 0xee, 0xf3, 0x1a, 0x88, 0xa0, 0x8f, 0xdf,
      0xfd], rfl⟩
  else
    ⟨[0xdf, 0x7e, 0x70, 0xe5, 0x02, 0x15, 0x44, 0xf4, 0x83, 0x4b, 0xbe, 0xe6, 0x4a, 0x9e, 0x37, 0x89,
      0xfe, 0xbc, 0x4b, 0xe8, 0x14, 0x70, 0xdf, 0x62, 0x9c, 0xad, 0x6d, 0xdb, 0x03, 0x32, 0x0a,
      0x5c], rfl⟩

def sampleContents : Set Bytes := {[65], [66]}

theorem injOn_sampleContents : Set.InjOn sampleSha256 sampleContents := by
  rintro x (rfl | rfl) y (rfl | rfl) h
  · rfl
  · exact absurd h (by decide)
  · exact absurd h (by decide)
  · rfl

def keyA : StorageObjectKey := ⟨['a'], by decide, by decide, by decide⟩

def keyB : StorageObjectKey := ⟨['b'], by decide, by decide, by decide⟩

/-- Two keys with one content; the first is overwritten, moved onto the second and deleted. -/
def sampleCalls : List (Call × ℕ) :=
  [(.put keyA [65] ⟨none, ∅⟩, 1), (.put keyB [65] ⟨none, ∅⟩, 2), (.delete keyA, 3), (.get keyB, 4),
    (.put keyA [66] ⟨none, ∅⟩, 5), (.rename keyA keyB, 6), (.delete keyB, 7),
    (.rename keyA keyB, 8), (.get keyA, 9), (.get keyB, 10)]

theorem sampleCalls_answers :
    (Trace.history (callStep sampleSha256) .new sampleCalls).map
        (fun x => (x.1.serve sampleSha256 x.2.1 x.2.2).2) =
      [.ok (stored sampleSha256 keyA [65]), .ok (stored sampleSha256 keyB [65]), .ok .deleted,
        .ok (.bytes [65]), .ok (stored sampleSha256 keyA [66]), .error (.alreadyExists ['b']),
        .ok .deleted, .ok (stored sampleSha256 keyB [66]), .error (.notFound ['a']),
        .ok (.bytes [66])] := by
  refine (serve_refines_map injOn_sampleContents sampleCalls ?_).1.trans ?_
  · intro e he data hdata
    simp only [sampleCalls, List.mem_cons, List.not_mem_nil, or_false] at he
    rcases he with rfl | rfl | rfl | rfl | rfl | rfl | rfl | rfl | rfl | rfl <;>
      simp_all [Call.data, sampleContents]
  · decide +kernel

end

end DiskArcana.Storage
