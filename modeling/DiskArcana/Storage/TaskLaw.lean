import DiskArcana.Storage.Tasks

/-!
# Blobs and rows under concurrent calls

The law of `StoreLaw` fails in several ways: a `delete` removes a blob that a `put` has found and is
about to refer to, and a `put` over a key leaves the blob of the old bytes behind, with nobody else on
the store (`not_storeLaw_of_runs`). It holds along a run whose steps are not raced (`Unraced`), by an
invariant that says who answers for each blob (`Sound`): a row, a task that is about to write a row,
or a `delete` that has yet to remove it.
-/

namespace DiskArcana.Storage

open DiskArcana.Core DiskArcana.Lib

/-! ## The law -/

/-- The task has its blob and has yet to write its row. -/
def Task.betweenBlobAndRow : Task → Bool
  | .put _ _ _ .stored => true
  | _ => false

def Task.finished : Task → Bool
  | .put _ _ _ (.done _) | .delete _ (.done _) | .rename _ _ (.done _) => true
  | _ => false

section

variable (sha256 : Bytes → Digest)

/-- Every row has a blob whose bytes hash to its content. -/
def Readable (b : LocalDiskBackend) : Prop :=
  ∀ e ∈ b.rows.entries, ∃ bytes ∈ b.blobs.read (blobPath e.2.contentSha256),
    contentSha256Hex sha256 bytes = e.2.contentSha256

/-- Every blob is the content of a row. -/
def Referenced (b : LocalDiskBackend) : Prop :=
  ∀ data, b.blobs.contains (blobPath (contentSha256Hex sha256 data)) = true →
    ∃ e ∈ b.rows.entries, e.2.contentSha256 = contentSha256Hex sha256 data

/-- What the store owes in each state of a run. -/
structure StoreLaw (s : StoreState) : Prop where
  readable : (∀ e ∈ s.tasks.entries, e.2.betweenBlobAndRow = false) → Readable sha256 s.backend
  referenced : (∀ e ∈ s.tasks.entries, e.2.finished = true) → Referenced sha256 s.backend

/-! ## The condition -/

/-- The content whose temporary file a task has in its hands. -/
def Task.writes : Task → Option Text
  | .put _ data _ (.created _) | .put _ data _ .written | .put _ data _ .contended
  | .put _ data _ .discarding => some (contentSha256Hex sha256 data)
  | _ => none

/-- The content that a task writes into a row next. -/
def Task.pending : Task → Option Text
  | .put _ data _ .stored => some (contentSha256Hex sha256 data)
  | .rename _ _ (.moved object) => some object.contentSha256
  | _ => none

/-- The content whose blob a task has yet to remove, or to find in use. -/
def Task.dropped : Task → Option Text
  | .delete _ (.rowDeleted sha) | .delete _ (.unreferenced sha) | .delete _ (.removing sha) =>
      some sha
  | _ => none

variable (s : StoreState)

/-- Some row has the content, or some task is about to write it into one. -/
def InUse (sha : Text) : Prop :=
  (∃ e ∈ s.backend.rows.entries, e.2.contentSha256 = sha) ∨
    ∃ e ∈ s.tasks.entries, e.2.pending sha256 = some sha

/-- Some task has yet to look after the blob of the content. -/
def Dropped (sha : Text) : Prop := ∃ e ∈ s.tasks.entries, e.2.dropped = some sha

/-- When the row of a path goes, or gets another content than `sha`, somebody still answers for the
content that it has: another row, a task that is about to write it, or a `delete`. -/
def OverwriteKept (path : Text) (sha : Text) : Prop :=
  ∀ row ∈ s.backend.rows.lookup path, row.contentSha256 ≠ sha →
    (∃ e ∈ s.backend.rows.entries, e.1 ≠ path ∧ e.2.contentSha256 = row.contentSha256) ∨
      (∃ e ∈ s.tasks.entries, e.2.pending sha256 = some row.contentSha256) ∨
        Dropped s row.contentSha256

/-- The next step of a task is not raced. A temporary file is in the hands of one task at a time; the
content of a row that is overwritten stays looked after, and so does that of a row that is deleted
although another content was read from it; a blob is removed only while its content is not in use; and
a row that is moved has the content that was read from it, or that content is in use. -/
def TaskUnraced : Task → Prop
  | .put _ data _ .absent =>
      ∀ e ∈ s.tasks.entries, e.2.writes sha256 ≠ some (contentSha256Hex sha256 data)
  | .put path data _ .stored => OverwriteKept sha256 s path.path (contentSha256Hex sha256 data)
  | .delete path (.found sha) => OverwriteKept sha256 s path.path sha
  | .delete _ (.removing sha) => ¬ InUse sha256 s sha
  | .rename source _ (.free object) => ∀ row ∈ s.backend.rows.lookup source.path,
      row.contentSha256 ≠ object.contentSha256 → InUse sha256 s object.contentSha256
  | .rename _ target (.moved object) => OverwriteKept sha256 s target.path object.contentSha256
  | _ => True

def Unraced : StoreEvent → Prop
  | .proceed id _ => ∀ task ∈ s.tasks.lookup id, TaskUnraced sha256 s task
  | _ => True

instance (b : LocalDiskBackend) : Decidable (Readable sha256 b) :=
  inferInstanceAs (Decidable (∀ e ∈ b.rows.entries, ∃ bytes ∈ b.blobs.read _, _))

instance (sha : Text) : Decidable (InUse sha256 s sha) := inferInstanceAs (Decidable (_ ∨ _))

instance (sha : Text) : Decidable (Dropped s sha) :=
  inferInstanceAs (Decidable (∃ e ∈ s.tasks.entries, _))

instance (path sha : Text) : Decidable (OverwriteKept sha256 s path sha) :=
  inferInstanceAs (Decidable (∀ row ∈ s.backend.rows.lookup path, _))

instance : (task : Task) → Decidable (TaskUnraced sha256 s task)
  | .put _ _ _ .absent => inferInstanceAs (Decidable (∀ e ∈ s.tasks.entries, _))
  | .put path _ _ .stored => inferInstanceAs (Decidable (OverwriteKept sha256 s path.path _))
  | .delete path (.found sha) => inferInstanceAs (Decidable (OverwriteKept sha256 s path.path sha))
  | .delete _ (.removing sha) => inferInstanceAs (Decidable (¬ InUse sha256 s sha))
  | .rename source _ (.free _) =>
      inferInstanceAs (Decidable (∀ row ∈ s.backend.rows.lookup source.path, _ → _))
  | .rename _ target (.moved _) =>
      inferInstanceAs (Decidable (OverwriteKept sha256 s target.path _))
  | .put _ _ _ .start | .put _ _ _ (.created _) | .put _ _ _ .written | .put _ _ _ .contended
  | .put _ _ _ .discarding | .put _ _ _ (.done _) | .delete _ .start | .delete _ (.rowDeleted _)
  | .delete _ (.unreferenced _) | .delete _ (.done _) | .rename _ _ .start | .rename _ _ (.found _)
  | .rename _ _ (.done _) => isTrue trivial

instance : (e : StoreEvent) → Decidable (Unraced sha256 s e)
  | .proceed id _ => inferInstanceAs (Decidable (∀ task ∈ s.tasks.lookup id, _))
  | .put .. | .delete .. | .rename .. => isTrue trivial

/-! ## Who answers for a blob -/

/-- The content of some bytes. -/
def IsHash (sha : Text) : Prop := ∃ data, contentSha256Hex sha256 data = sha

/-- The blob of a content is there. -/
def Stored (blobs : Directory FileName UInt8) (sha : Text) : Prop :=
  IsHash sha256 sha ∧ blobs.contains (blobPath sha) = true

/-- The content that a task has read from a row. -/
def Task.content : Task → Option Text
  | .delete _ (.found sha) | .delete _ (.rowDeleted sha) | .delete _ (.unreferenced sha)
  | .delete _ (.removing sha) => some sha
  | .rename _ _ (.found object) | .rename _ _ (.free object) => some object.contentSha256
  | _ => none

/-- The temporary file of a task is as it left it. -/
def Task.TempKept (blobs : Directory FileName UInt8) : Task → Prop
  | .put _ data _ (.created file) =>
      blobs.names.lookup (tempPath (contentSha256Hex sha256 data)) = some file ∧
        blobs.read (tempPath (contentSha256Hex sha256 data)) = some []
  | .put _ data _ .written => blobs.read (tempPath (contentSha256Hex sha256 data)) = some data
  | .put _ _ _ .contended | .put _ _ _ .discarding => False
  | _ => True

/-- What a task relies on. -/
structure Task.Sound (blobs : Directory FileName UInt8) (task : Task) : Prop where
  content : ∀ sha, task.content = some sha → IsHash sha256 sha
  pending : ∀ sha, task.pending sha256 = some sha → Stored sha256 blobs sha
  temp : task.TempKept sha256 blobs

/-- The invariant. -/
structure Sound (s : StoreState) : Prop where
  /-- A blob holds bytes that hash to its name. -/
  hash : ∀ data bytes, s.backend.blobs.read (blobPath (contentSha256Hex sha256 data)) = some bytes →
    contentSha256Hex sha256 bytes = contentSha256Hex sha256 data
  /-- Every row has its blob. -/
  row : ∀ path row, s.backend.rows.lookup path = some row →
    Stored sha256 s.backend.blobs row.contentSha256
  task : ∀ id task, s.tasks.lookup id = some task → task.Sound sha256 s.backend.blobs
  /-- No two tasks write one temporary file. -/
  writer : ∀ id id' task task' sha, s.tasks.lookup id = some task → s.tasks.lookup id' = some task' →
    task.writes sha256 = some sha → task'.writes sha256 = some sha → id = id'
  /-- Somebody answers for every blob. -/
  blob : ∀ data, s.backend.blobs.contains (blobPath (contentSha256Hex sha256 data)) = true →
    InUse sha256 s (contentSha256Hex sha256 data) ∨ Dropped s (contentSha256Hex sha256 data)

/-! ## What a step has to keep -/

variable {sha256} {s} {id : ℕ} {task task' : Task} {b' : LocalDiskBackend}
  {blobs blobs' : Directory FileName UInt8} {sha : Text}

theorem isHash_contentSha256Hex (data : Bytes) : IsHash sha256 (contentSha256Hex sha256 data) :=
  ⟨data, rfl⟩

/-- A temporary file is not a blob, and belongs to one content. -/
theorem IsHash.tempPath_ne (h : IsHash sha256 sha) (sha' : Text) : tempPath sha' ≠ blobPath sha := by
  obtain ⟨data, rfl⟩ := h
  exact tempPath_ne_blobPath (dot_notMem_contentSha256Hex sha256 data)

theorem inUse_iff : InUse sha256 s sha ↔
    (∃ path row, s.backend.rows.lookup path = some row ∧ row.contentSha256 = sha) ∨
      ∃ id task, s.tasks.lookup id = some task ∧ task.pending sha256 = some sha :=
  or_congr (Table.exists_entries_iff (P := fun _ (row : ObjectRow) => row.contentSha256 = sha))
    (Table.exists_entries_iff (P := fun _ (task : Task) => task.pending sha256 = some sha))

theorem dropped_iff : Dropped s sha ↔
    ∃ id task, s.tasks.lookup id = some task ∧ task.dropped = some sha :=
  Table.exists_entries_iff (P := fun _ (task : Task) => task.dropped = some sha)

/-- Another task answers for the blob of a content. -/
def AnsweredBeside (sha256 : Bytes → Digest) (s : StoreState) (id : ℕ) (sha : Text) : Prop :=
  ∃ id' task, id' ≠ id ∧ s.tasks.lookup id' = some task ∧
    (task.pending sha256 = some sha ∨ task.dropped = some sha)

/-- Whoever answers is the task or another one. -/
theorem answers_or_beside (htask : s.tasks.lookup id = some task)
    (h : ∃ id' t, s.tasks.lookup id' = some t ∧
      (t.pending sha256 = some sha ∨ t.dropped = some sha)) :
    (task.pending sha256 = some sha ∨ task.dropped = some sha) ∨ AnsweredBeside sha256 s id sha := by
  obtain ⟨id', t, ht, hanswer⟩ := h
  by_cases hid : id' = id
  · rw [hid, htask] at ht
    cases ht
    exact Or.inl hanswer
  · exact Or.inr ⟨id', t, hid, ht, hanswer⟩

/-- Who may answer for a blob. -/
theorem Sound.answered (h : Sound sha256 s) (htask : s.tasks.lookup id = some task) {data : Bytes}
    (hblob : s.backend.blobs.contains (blobPath (contentSha256Hex sha256 data)) = true) :
    (∃ path row, s.backend.rows.lookup path = some row ∧
        row.contentSha256 = contentSha256Hex sha256 data) ∨
      (task.pending sha256 = some (contentSha256Hex sha256 data) ∨
          task.dropped = some (contentSha256Hex sha256 data)) ∨
        AnsweredBeside sha256 s id (contentSha256Hex sha256 data) := by
  rcases h.blob data hblob with huse | hdrop
  · rcases inUse_iff.mp huse with hrow | ⟨id', t, ht, hp⟩
    · exact Or.inl hrow
    · exact Or.inr (answers_or_beside htask ⟨id', t, ht, Or.inl hp⟩)
  · obtain ⟨id', t, ht, hd⟩ := dropped_iff.mp hdrop
    exact Or.inr (answers_or_beside htask ⟨id', t, ht, Or.inr hd⟩)

/-- Who answers for the content of a row that goes. -/
theorem OverwriteKept.answered (htask : s.tasks.lookup id = some task) {path : Text}
    {row : ObjectRow} (h : OverwriteKept sha256 s path sha)
    (hrow : s.backend.rows.lookup path = some row) (hne : row.contentSha256 ≠ sha) :
    (∃ path' row', path' ≠ path ∧ s.backend.rows.lookup path' = some row' ∧
        row'.contentSha256 = row.contentSha256) ∨
      (task.pending sha256 = some row.contentSha256 ∨ task.dropped = some row.contentSha256) ∨
        AnsweredBeside sha256 s id row.contentSha256 := by
  rcases h row hrow hne with ⟨⟨path', row'⟩, hmem, hpath, hcontent⟩ | ⟨⟨id', t⟩, hmem, hp⟩ | hdrop
  · exact Or.inl ⟨path', row', hpath, Table.mem_entries_iff.mp hmem, hcontent⟩
  · exact Or.inr (answers_or_beside htask ⟨id', t, Table.mem_entries_iff.mp hmem, Or.inl hp⟩)
  · obtain ⟨id', t, ht, hd⟩ := dropped_iff.mp hdrop
    exact Or.inr (answers_or_beside htask ⟨id', t, ht, Or.inr hd⟩)

/-- **A step.** The invariant after a step of one task, from what the step does to the store and what
the other tasks rely on. -/
theorem Sound.next (h : Sound sha256 s)
    (hhash : ∀ data bytes, b'.blobs.read (blobPath (contentSha256Hex sha256 data)) = some bytes →
      contentSha256Hex sha256 bytes = contentSha256Hex sha256 data)
    (hrow : ∀ path row, b'.rows.lookup path = some row → Stored sha256 b'.blobs row.contentSha256)
    (hself : task'.Sound sha256 b'.blobs)
    (hother : ∀ id' t, id' ≠ id → s.tasks.lookup id' = some t → t.Sound sha256 b'.blobs)
    (hwriter : ∀ sha, task'.writes sha256 = some sha → ∀ id' t, id' ≠ id →
      s.tasks.lookup id' = some t → t.writes sha256 ≠ some sha)
    (hblob : ∀ data, b'.blobs.contains (blobPath (contentSha256Hex sha256 data)) = true →
      (∃ path row, b'.rows.lookup path = some row ∧
          row.contentSha256 = contentSha256Hex sha256 data) ∨
        (task'.pending sha256 = some (contentSha256Hex sha256 data) ∨
            task'.dropped = some (contentSha256Hex sha256 data)) ∨
          AnsweredBeside sha256 s id (contentSha256Hex sha256 data)) :
    Sound sha256 ⟨b', s.tasks.insert id task'⟩ where
  hash := hhash
  row := hrow
  task id' t ht := by
    rw [Table.lookup_insert_eq_ite] at ht
    split_ifs at ht with hid
    · cases ht
      exact hself
    · exact hother id' t hid ht
  writer id₁ id₂ t₁ t₂ sha h₁ h₂ hw₁ hw₂ := by
    rw [Table.lookup_insert_eq_ite] at h₁ h₂
    split_ifs at h₁ h₂ with hid₁ hid₂ hid₂
    · rw [hid₁, hid₂]
    · cases h₁
      exact absurd hw₂ (hwriter sha hw₁ id₂ t₂ hid₂ h₂)
    · cases h₂
      exact absurd hw₁ (hwriter sha hw₂ id₁ t₁ hid₁ h₁)
    · exact h.writer id₁ id₂ t₁ t₂ sha h₁ h₂ hw₁ hw₂
  blob data hthere := by
    have hlookup := AList.lookup_insert (b := task') (a := id) s.tasks
    rcases hblob data hthere with hrow | (hp | hd) | ⟨id', t, hid, ht, hanswer⟩
    · exact Or.inl (inUse_iff.mpr (Or.inl hrow))
    · exact Or.inl (inUse_iff.mpr (Or.inr ⟨id, task', hlookup, hp⟩))
    · exact Or.inr (dropped_iff.mpr ⟨id, task', hlookup, hd⟩)
    · have ht' : (s.tasks.insert id task').lookup id' = some t := by
        rw [AList.lookup_insert_ne hid]
        exact ht
      rcases hanswer with hp | hd
      · exact Or.inl (inUse_iff.mpr (Or.inr ⟨id', t, ht', hp⟩))
      · exact Or.inr (dropped_iff.mpr ⟨id', t, ht', hd⟩)

/-- A step that only looks. -/
theorem Sound.next_phase (h : Sound sha256 s) (htask : s.tasks.lookup id = some task)
    (hself : task'.Sound sha256 s.backend.blobs) (hwrites : task'.writes sha256 = none)
    (hanswer : ∀ sha, task.pending sha256 = some sha ∨ task.dropped = some sha →
      s.backend.blobs.contains (blobPath sha) = true →
        (∃ path row, s.backend.rows.lookup path = some row ∧ row.contentSha256 = sha) ∨
          (task'.pending sha256 = some sha ∨ task'.dropped = some sha)) :
    Sound sha256 ⟨s.backend, s.tasks.insert id task'⟩ := by
  refine h.next h.hash h.row hself (fun id' t _ ht => h.task id' t ht) ?_ ?_
  · intro sha hw
    rw [hwrites] at hw
    cases hw
  · intro data hthere
    rcases h.answered htask hthere with hrow | hself' | hother
    · exact Or.inl hrow
    · rcases hanswer _ hself' hthere with hrow | hself''
      · exact Or.inl hrow
      · exact Or.inr (Or.inl hself'')
    · exact Or.inr (Or.inr hother)

/-- A task that has read nothing and is to refer to nothing. -/
theorem Task.sound_of_none (hcontent : task.content = none) (hpending : task.pending sha256 = none)
    (htemp : task.TempKept sha256 blobs) : task.Sound sha256 blobs := by
  refine ⟨?_, ?_, htemp⟩
  · rw [hcontent]
    rintro sha ⟨⟩
  · rw [hpending]
    rintro sha ⟨⟩

/-- What a task relies on is kept when its temporary file and the blob it is to refer to are. -/
theorem Task.Sound.congr (h : task.Sound sha256 blobs)
    (htemp : ∀ sha, task.writes sha256 = some sha →
      blobs'.names.lookup (tempPath sha) = blobs.names.lookup (tempPath sha) ∧
        blobs'.read (tempPath sha) = blobs.read (tempPath sha))
    (hpending : ∀ sha, task.pending sha256 = some sha → Stored sha256 blobs sha →
      Stored sha256 blobs' sha) : task.Sound sha256 blobs' where
  content := h.content
  pending sha hp := hpending sha hp (h.pending sha hp)
  temp := by
    have htemp' := h.temp
    rcases task with ⟨path, data, options, phase⟩ | ⟨path, phase⟩ | ⟨source, target, phase⟩
    · cases phase with
      | created file =>
          obtain ⟨hnames, hread⟩ := htemp _ rfl
          exact ⟨hnames.trans htemp'.1, hread.trans htemp'.2⟩
      | written => exact (htemp _ rfl).2.trans htemp'
      | _ => exact htemp'
    · trivial
    · trivial

/-- A step that writes the row of the content that the task is to refer to. -/
theorem Sound.next_upsert (h : Sound sha256 s) (htask : s.tasks.lookup id = some task)
    {object : ObjectMetadata} (hpending : task.pending sha256 = some object.contentSha256)
    (hdropped : task.dropped = none)
    (hkept : OverwriteKept sha256 s object.path object.contentSha256)
    (hself : ∀ blobs, task'.Sound sha256 blobs) (hwrites : task'.writes sha256 = none) :
    Sound sha256 ⟨{ s.backend with rows := MetadataStore.upsert s.backend.rows object },
      s.tasks.insert id task'⟩ := by
  have hnew : (MetadataStore.upsert s.backend.rows object).lookup object.path =
      some (MetadataStore.objectRow s.backend.rows object) := by
    rw [MetadataStore.lookup_upsert, if_pos rfl]
  have hcontent : (MetadataStore.objectRow s.backend.rows object).contentSha256 =
      object.contentSha256 := rfl
  have hold : ∀ path row, path ≠ object.path → s.backend.rows.lookup path = some row →
      (MetadataStore.upsert s.backend.rows object).lookup path = some row := by
    intro path row hpath hrow
    rw [MetadataStore.lookup_upsert, if_neg hpath]
    exact hrow
  refine h.next h.hash ?_ (hself _) (fun id' t _ ht => h.task id' t ht) ?_ ?_
  · intro path row hrow
    rw [MetadataStore.lookup_upsert] at hrow
    split_ifs at hrow with hpath
    · cases hrow
      exact (h.task id task htask).pending _ hpending
    · exact h.row path row hrow
  · intro sha hw
    rw [hwrites] at hw
    cases hw
  · intro data hthere
    rcases h.answered htask hthere with ⟨path, row, hrow, hdata⟩ | (hp | hd) | hother
    · by_cases hpath : path = object.path
      · by_cases hsame : row.contentSha256 = object.contentSha256
        · exact Or.inl ⟨_, _, hnew, hcontent.trans (hsame.symm.trans hdata)⟩
        · -- the content of the row that is overwritten
          rw [hpath] at hrow
          rcases hkept.answered htask hrow hsame with ⟨path', row', hpath', hrow', hdata'⟩ |
            (hp | hd) | hother
          · exact Or.inl ⟨path', row', hold path' row' hpath' hrow', hdata'.trans hdata⟩
          · rw [hpending] at hp
            exact absurd (Option.some.inj hp).symm hsame
          · rw [hdropped] at hd
            cases hd
          · rw [hdata] at hother
            exact Or.inr (Or.inr hother)
      · exact Or.inl ⟨path, row, hold path row hpath hrow, hdata⟩
    · rw [hpending] at hp
      exact Or.inl ⟨_, _, hnew, hcontent.trans (Option.some.inj hp)⟩
    · rw [hdropped] at hd
      cases hd
    · exact Or.inr (Or.inr hother)

/-- A step on the temporary file of a content that nobody else writes. It leaves the blob of the
content alone, or puts it there for the task. -/
theorem Sound.next_temp (h : Sound sha256 s) (htask : s.tasks.lookup id = some task) (data : Bytes)
    (hsame : ∀ name, name ≠ tempPath (contentSha256Hex sha256 data) →
      name ≠ blobPath (contentSha256Hex sha256 data) →
        blobs'.names.lookup name = s.backend.blobs.names.lookup name ∧
          blobs'.read name = s.backend.blobs.read name)
    (hblob : blobs'.read (blobPath (contentSha256Hex sha256 data)) =
        s.backend.blobs.read (blobPath (contentSha256Hex sha256 data)) ∨
      blobs'.read (blobPath (contentSha256Hex sha256 data)) = some data ∧
        task'.pending sha256 = some (contentSha256Hex sha256 data))
    (hfree : ∀ id' t, id' ≠ id → s.tasks.lookup id' = some t →
      t.writes sha256 ≠ some (contentSha256Hex sha256 data))
    (hpending : task.pending sha256 = none) (hdropped : task.dropped = none)
    (hself : task'.Sound sha256 blobs')
    (hwrites : ∀ sha, task'.writes sha256 = some sha → sha = contentSha256Hex sha256 data) :
    Sound sha256 ⟨{ s.backend with blobs := blobs' }, s.tasks.insert id task'⟩ := by
  have hhash : IsHash sha256 (contentSha256Hex sha256 data) := isHash_contentSha256Hex data
  have hread : ∀ sha, IsHash sha256 sha → sha ≠ contentSha256Hex sha256 data →
      blobs'.read (blobPath sha) = s.backend.blobs.read (blobPath sha) := fun sha hsha hne =>
    (hsame _ (hsha.tempPath_ne _).symm fun heq => hne (blobPath_injective heq)).2
  have hstored : ∀ sha, Stored sha256 s.backend.blobs sha → Stored sha256 blobs' sha := by
    rintro sha ⟨hsha, hthere⟩
    refine ⟨hsha, ?_⟩
    by_cases hdata : sha = contentSha256Hex sha256 data
    · rw [hdata] at hthere ⊢
      rcases hblob with heq | ⟨hnew, -⟩
      · rw [Directory.contains_congr heq]
        exact hthere
      · exact Directory.contains_iff_read.mpr ⟨data, hnew⟩
    · rw [Directory.contains_congr (hread sha hsha hdata)]
      exact hthere
  refine h.next ?_ (fun p row hrow => hstored _ (h.row p row hrow)) hself ?_ ?_ ?_
  · intro data' bytes hbytes
    change blobs'.read _ = _ at hbytes
    by_cases hdata : contentSha256Hex sha256 data' = contentSha256Hex sha256 data
    · rcases hblob with heq | ⟨hnew, -⟩
      · rw [hdata, heq, ← hdata] at hbytes
        exact h.hash data' bytes hbytes
      · rw [hdata, hnew] at hbytes
        cases hbytes
        exact hdata.symm
    · rw [hread _ (isHash_contentSha256Hex data') hdata] at hbytes
      exact h.hash data' bytes hbytes
  · intro id' t hid ht
    refine (h.task id' t ht).congr ?_ fun sha _ => hstored sha
    intro sha hw
    have hne : tempPath sha ≠ tempPath (contentSha256Hex sha256 data) := by
      intro heq
      rw [tempPath_injective heq] at hw
      exact hfree id' t hid ht hw
    exact hsame _ hne (hhash.tempPath_ne sha)
  · intro sha hw id' t hid ht
    rw [hwrites sha hw]
    exact hfree id' t hid ht
  · intro data' hthere
    change blobs'.contains _ = true at hthere
    have hbefore : s.backend.blobs.contains (blobPath (contentSha256Hex sha256 data')) = true →
        (∃ path row, s.backend.rows.lookup path = some row ∧
            row.contentSha256 = contentSha256Hex sha256 data') ∨
          (task'.pending sha256 = some (contentSha256Hex sha256 data') ∨
              task'.dropped = some (contentSha256Hex sha256 data')) ∨
            AnsweredBeside sha256 s id (contentSha256Hex sha256 data') := by
      intro hold
      rcases h.answered htask hold with hrow | (hp | hd) | hother
      · exact Or.inl hrow
      · rw [hpending] at hp
        cases hp
      · rw [hdropped] at hd
        cases hd
      · exact Or.inr (Or.inr hother)
    by_cases hdata : contentSha256Hex sha256 data' = contentSha256Hex sha256 data
    · rcases hblob with heq | ⟨-, hp⟩
      · rw [hdata, Directory.contains_congr heq, ← hdata] at hthere
        exact hbefore hthere
      · exact Or.inr (Or.inl (Or.inl (by rw [hdata]; exact hp)))
    · rw [Directory.contains_congr (hread _ (isHash_contentSha256Hex data') hdata)] at hthere
      exact hbefore hthere

/-! ## The steps of each call -/

theorem Sound.putStep {path : StorageObjectKey} {data : Bytes} {options : PutOptions}
    {phase : PutPhase} (h : Sound sha256 s)
    (htask : s.tasks.lookup id = some (.put path data options phase))
    (hunraced : TaskUnraced sha256 s (.put path data options phase)) (now : ℕ) :
    Sound sha256 ⟨(putStep sha256 path data options now (s.backend, phase)).1, s.tasks.insert id
      (.put path data options (putStep sha256 path data options now (s.backend, phase)).2)⟩ := by
  have hhash : IsHash sha256 (contentSha256Hex sha256 data) := isHash_contentSha256Hex data
  have hself := h.task id _ htask
  have hne := hhash.tempPath_ne (contentSha256Hex sha256 data)
  -- a task that has the temporary file has it alone
  have halone : ∀ task, s.tasks.lookup id = some task →
      task.writes sha256 = some (contentSha256Hex sha256 data) → ∀ id' t, id' ≠ id →
        s.tasks.lookup id' = some t → t.writes sha256 ≠ some (contentSha256Hex sha256 data) :=
    fun task hlookup hw id' t hid ht hw' => hid (h.writer id' id t task _ ht hlookup hw' hw)
  cases phase with
  | start =>
      simp only [Storage.putStep]
      split_ifs with hthere
      · refine h.next_phase htask ⟨by simp [Task.content], ?_, trivial⟩ rfl
          (by simp [Task.pending, Task.dropped])
        rintro _ ⟨⟩
        exact ⟨hhash, hthere⟩
      · exact h.next_phase htask (Task.sound_of_none rfl rfl trivial) rfl
          (by simp [Task.pending, Task.dropped])
  | absent =>
      apply h.next_temp htask data
      · intro name htemp _
        show (s.backend.blobs.create _).1.names.lookup name = _ ∧
          (s.backend.blobs.create _).1.read name = _
        rw [Directory.names_create, Directory.read_create, if_neg htemp, if_neg htemp]
        exact ⟨rfl, rfl⟩
      · refine Or.inl ?_
        show (s.backend.blobs.create _).1.read _ = _
        rw [Directory.read_create, if_neg hne.symm]
      · intro id' t _ ht
        exact hunraced ⟨id', t⟩ (Table.mem_entries_iff.mpr ht)
      · rfl
      · rfl
      · refine Task.sound_of_none rfl rfl ?_
        show (s.backend.blobs.create _).1.names.lookup _ = some (s.backend.blobs.create _).2 ∧
          (s.backend.blobs.create _).1.read _ = _
        rw [Directory.names_create, Directory.read_create, if_pos rfl, if_pos rfl]
        exact ⟨rfl, rfl⟩
      · rintro sha ⟨⟩
        rfl
  | created file =>
      obtain ⟨hnames, hempty⟩ := hself.temp
      apply h.next_temp htask data
      · intro name htemp _
        refine ⟨rfl, ?_⟩
        show (s.backend.blobs.writeAll file data).read name = _
        rw [Directory.read_writeAll_of_names hnames, if_neg htemp]
      · refine Or.inl ?_
        show (s.backend.blobs.writeAll file data).read _ = _
        rw [Directory.read_writeAll_of_names hnames, if_neg hne.symm]
      · exact halone _ htask rfl
      · rfl
      · rfl
      · refine Task.sound_of_none rfl rfl ?_
        show (s.backend.blobs.writeAll file data).read _ = some data
        rw [Directory.read_writeAll_of_names hnames, if_pos rfl, hempty]
        simp
      · rintro sha ⟨⟩
        rfl
  | written =>
      have hwritten : s.backend.blobs.read (tempPath (contentSha256Hex sha256 data)) = some data :=
        hself.temp
      rcases hrename : s.backend.blobs.rename (tempPath (contentSha256Hex sha256 data))
          (blobPath (contentSha256Hex sha256 data)) with _ | blobs'
      · rw [Directory.rename_eq_none, ← Directory.read_eq_none, hwritten] at hrename
        cases hrename
      · simp only [Storage.putStep, hrename]
        apply h.next_temp htask data
        · intro name htemp hblob
          rw [Directory.names_rename hrename, Directory.read_rename hrename, if_neg hblob,
            if_neg hblob, if_neg htemp, if_neg htemp]
          exact ⟨rfl, rfl⟩
        · refine Or.inr ⟨?_, rfl⟩
          rw [Directory.read_rename hrename, if_pos rfl]
          exact hwritten
        · exact halone _ htask rfl
        · rfl
        · rfl
        · refine ⟨by simp [Task.content], ?_, trivial⟩
          rintro sha ⟨⟩
          refine ⟨hhash, Directory.contains_iff_read.mpr ⟨data, ?_⟩⟩
          rw [Directory.read_rename hrename, if_pos rfl]
          exact hwritten
        · rintro sha ⟨⟩
  | contended => exact absurd hself.temp not_false
  | discarding => exact absurd hself.temp not_false
  | stored =>
      exact h.next_upsert htask rfl rfl hunraced
        (fun _ => Task.sound_of_none rfl rfl trivial) rfl
  | done answer =>
      exact h.next_phase htask (Task.sound_of_none rfl rfl trivial) rfl
        (by simp [Task.pending, Task.dropped])

theorem Sound.deleteStep {path : StorageObjectKey} {phase : DeletePhase} (h : Sound sha256 s)
    (htask : s.tasks.lookup id = some (.delete path phase))
    (hunraced : TaskUnraced sha256 s (.delete path phase)) :
    Sound sha256 ⟨(deleteStep path (s.backend, phase)).1, s.tasks.insert id
      (.delete path (deleteStep path (s.backend, phase)).2)⟩ := by
  have hself := h.task id _ htask
  cases phase with
  | start =>
      rcases hget : MetadataStore.get s.backend.rows path.path with _ | object
      · simp only [Storage.deleteStep, hget]
        exact h.next_phase htask (Task.sound_of_none rfl rfl trivial) rfl
          (by simp [Task.pending, Task.dropped])
      · obtain ⟨row, hrow, rfl⟩ := MetadataStore.of_get_eq_some hget
        simp only [Storage.deleteStep, hget]
        refine h.next_phase htask ⟨?_, by simp [Task.pending], trivial⟩ rfl
          (by simp [Task.pending, Task.dropped])
        rintro sha ⟨⟩
        exact (h.row _ _ hrow).1
  | found sha =>
      have hhash : IsHash sha256 sha := hself.content sha rfl
      rcases hrow : s.backend.rows.lookup path.path with _ | row
      · simp only [Storage.deleteStep, MetadataStore.delete, hrow, Option.isSome_none]
        exact h.next_phase htask (Task.sound_of_none rfl rfl trivial) rfl
          (by simp [Task.pending, Task.dropped])
      · simp only [Storage.deleteStep, MetadataStore.delete, hrow, Option.isSome_some]
        refine h.next h.hash (fun p r hr => h.row p r (Table.of_lookup_erase hr).2)
          ⟨?_, by simp [Task.pending], trivial⟩ (fun id' t _ ht => h.task id' t ht) (by rintro sha ⟨⟩) ?_
        · rintro _ ⟨⟩
          exact hhash
        · intro data hthere
          have hold : ∀ p r, p ≠ path.path → s.backend.rows.lookup p = some r →
              (s.backend.rows.erase path.path).lookup p = some r := by
            intro p r hp hr
            rw [AList.lookup_erase_ne hp]
            exact hr
          rcases h.answered htask hthere with ⟨p, r, hr, hdata⟩ | (⟨⟨⟩⟩ | ⟨⟨⟩⟩) | hother
          · by_cases hp : p = path.path
            · by_cases hsame : r.contentSha256 = sha
              · -- the content of the row that goes is the one the task looks after
                exact Or.inr (Or.inl (Or.inr (congrArg some (hsame.symm.trans hdata))))
              · rw [hp] at hr
                rcases hunraced.answered htask hr hsame with ⟨p', r', hp', hr', hdata'⟩ |
                  (⟨⟨⟩⟩ | ⟨⟨⟩⟩) | hother
                · exact Or.inl ⟨p', r', hold p' r' hp' hr', hdata'.trans hdata⟩
                · rw [hdata] at hother
                  exact Or.inr (Or.inr hother)
            · exact Or.inl ⟨p, r, hold p r hp hr, hdata⟩
          · exact Or.inr (Or.inr hother)
  | rowDeleted sha =>
      have hhash : IsHash sha256 sha := hself.content sha rfl
      simp only [Storage.deleteStep]
      split_ifs with hcount
      · refine h.next_phase htask ⟨?_, by simp [Task.pending], trivial⟩ rfl ?_
        · rintro _ ⟨⟩
          exact hhash
        · rintro _ (⟨⟨⟩⟩ | hd) _
          exact Or.inr (Or.inr hd)
      · refine h.next_phase htask (Task.sound_of_none rfl rfl trivial) rfl ?_
        rintro _ (⟨⟨⟩⟩ | ⟨⟨⟩⟩) _
        rw [MetadataStore.countContent_eq_zero] at hcount
        push Not at hcount
        exact Or.inl hcount
  | unreferenced sha =>
      have hhash : IsHash sha256 sha := hself.content sha rfl
      simp only [Storage.deleteStep]
      split_ifs with hthere
      · refine h.next_phase htask ⟨?_, by simp [Task.pending], trivial⟩ rfl ?_
        · rintro _ ⟨⟩
          exact hhash
        · rintro _ (⟨⟨⟩⟩ | hd) _
          exact Or.inr (Or.inr hd)
      · refine h.next_phase htask (Task.sound_of_none rfl rfl trivial) rfl ?_
        rintro _ (⟨⟨⟩⟩ | ⟨⟨⟩⟩) hthere'
        exact absurd hthere' hthere
  | removing sha =>
      have hhash : IsHash sha256 sha := hself.content sha rfl
      have hunused : ¬ InUse sha256 s sha := hunraced
      rw [inUse_iff, not_or] at hunused
      obtain ⟨hnorow, hnotask⟩ := hunused
      simp only [Storage.deleteStep]
      split_ifs with hthere
      · have hstored : ∀ sha', sha' ≠ sha → Stored sha256 s.backend.blobs sha' →
            Stored sha256 (s.backend.blobs.remove (blobPath sha)) sha' := by
          rintro sha' hne ⟨hhash', hthere'⟩
          refine ⟨hhash', ?_⟩
          rwa [Directory.contains_congr]
          rw [Directory.read_remove, if_neg fun heq => hne (blobPath_injective heq)]
        refine h.next ?_ ?_ (Task.sound_of_none rfl rfl trivial) ?_ (by rintro sha ⟨⟩) ?_
        · intro data bytes hbytes
          change (s.backend.blobs.remove _).read _ = _ at hbytes
          rw [Directory.read_remove] at hbytes
          split_ifs at hbytes
          exact h.hash data bytes hbytes
        · intro p row hrow
          exact hstored _ (fun heq => hnorow ⟨p, row, hrow, heq⟩) (h.row p row hrow)
        · intro id' t _ ht
          refine (h.task id' t ht).congr ?_ ?_
          · intro sha' _
            rw [Directory.names_remove, Directory.read_remove, if_neg (hhash.tempPath_ne sha'),
              if_neg (hhash.tempPath_ne sha')]
            exact ⟨rfl, rfl⟩
          · intro sha' hp
            apply hstored
            rintro rfl
            exact hnotask ⟨id', t, ht, hp⟩
        · intro data hthere'
          change (s.backend.blobs.remove _).contains _ = true at hthere'
          obtain ⟨file, hfile⟩ := Directory.contains_iff.mp hthere'
          rw [Directory.names_remove] at hfile
          split_ifs at hfile with hsame
          rcases h.answered htask (Directory.contains_iff.mpr ⟨file, hfile⟩) with
            hrow | (⟨⟨⟩⟩ | hd) | hother
          · exact Or.inl hrow
          · exact absurd (congrArg blobPath (Option.some.inj hd).symm) hsame
          · exact Or.inr (Or.inr hother)
      · refine h.next_phase htask (Task.sound_of_none rfl rfl trivial) rfl ?_
        rintro _ (⟨⟨⟩⟩ | ⟨⟨⟩⟩) hthere'
        exact absurd hthere' hthere
  | done answer =>
      exact h.next_phase htask (Task.sound_of_none rfl rfl trivial) rfl
        (by simp [Task.pending, Task.dropped])

theorem Sound.renameStep {source target : StorageObjectKey} {phase : RenamePhase}
    (h : Sound sha256 s) (htask : s.tasks.lookup id = some (.rename source target phase))
    (hunraced : TaskUnraced sha256 s (.rename source target phase)) (now : ℕ) :
    Sound sha256 ⟨(renameStep source target now (s.backend, phase)).1, s.tasks.insert id
      (.rename source target (renameStep source target now (s.backend, phase)).2)⟩ := by
  have hself := h.task id _ htask
  cases phase with
  | start =>
      rcases hget : MetadataStore.get s.backend.rows source.path with _ | object
      · simp only [Storage.renameStep, hget]
        exact h.next_phase htask (Task.sound_of_none rfl rfl trivial) rfl
          (by simp [Task.pending, Task.dropped])
      · obtain ⟨row, hrow, rfl⟩ := MetadataStore.of_get_eq_some hget
        simp only [Storage.renameStep, hget]
        refine h.next_phase htask ⟨?_, by simp [Task.pending], trivial⟩ rfl
          (by simp [Task.pending, Task.dropped])
        rintro sha ⟨⟩
        exact (h.row _ _ hrow).1
  | found object =>
      simp only [Storage.renameStep]
      split_ifs
      · exact h.next_phase htask (Task.sound_of_none rfl rfl trivial) rfl
          (by simp [Task.pending, Task.dropped])
      · refine h.next_phase htask ⟨?_, by simp [Task.pending], trivial⟩ rfl
          (by simp [Task.pending, Task.dropped])
        rintro sha ⟨⟩
        exact hself.content _ rfl
  | free object =>
      rcases hrename : MetadataStore.rename s.backend.rows source.path target.path with
        e | ⟨rows, _ | _⟩
      · simp only [Storage.renameStep, hrename]
        exact h.next_phase htask (Task.sound_of_none rfl rfl trivial) rfl
          (by simp [Task.pending, Task.dropped])
      · simp only [Storage.renameStep, hrename]
        exact h.next_phase htask (Task.sound_of_none rfl rfl trivial) rfl
          (by simp [Task.pending, Task.dropped])
      · simp only [Storage.renameStep, hrename]
        obtain ⟨row, hrow, hfree, rfl⟩ := MetadataStore.of_rename_eq_ok hrename
        -- what the task is to refer to is the content of the row, or in use otherwise
        have hstored : Stored sha256 s.backend.blobs object.contentSha256 := by
          by_cases hsame : row.contentSha256 = object.contentSha256
          · rw [← hsame]
            exact h.row _ row hrow
          · rcases inUse_iff.mp (hunraced row hrow hsame) with ⟨p, r, hr, hdata⟩ | ⟨id', t, ht, hp⟩
            · rw [← hdata]
              exact h.row p r hr
            · exact (h.task id' t ht).pending _ hp
        refine h.next h.hash ?_ ⟨by simp [Task.content], ?_, trivial⟩
          (fun id' t _ ht => h.task id' t ht) (by rintro sha ⟨⟩) ?_
        · intro p r hr
          rw [Table.lookup_insert_eq_ite] at hr
          split_ifs at hr with hp
          · cases hr
            exact h.row _ row hrow
          · exact h.row p r (Table.of_lookup_erase hr).2
        · rintro sha ⟨⟩
          exact hstored
        · intro data hthere
          rcases h.answered htask hthere with ⟨p, r, hr, hdata⟩ | (⟨⟨⟩⟩ | ⟨⟨⟩⟩) | hother
          · refine Or.inl ?_
            by_cases hp : p = source.path
            · rw [hp, hrow] at hr
              cases hr
              exact ⟨target.path, row, AList.lookup_insert _, hdata⟩
            · refine ⟨p, r, ?_, hdata⟩
              rw [Table.lookup_insert_eq_ite, AList.lookup_erase_ne hp, hr, if_neg]
              rintro rfl
              rw [hfree (Ne.symm hp)] at hr
              cases hr
          · exact Or.inr (Or.inr hother)
  | moved object =>
      exact h.next_upsert htask rfl rfl hunraced (fun _ => Task.sound_of_none rfl rfl trivial) rfl
  | done answer =>
      exact h.next_phase htask (Task.sound_of_none rfl rfl trivial) rfl
        (by simp [Task.pending, Task.dropped])

/-! ## Runs -/

theorem sound_new : Sound sha256 .new where
  hash data bytes h := by
    rw [show StoreState.new.backend.blobs.read _ = none from
      Directory.read_eq_none.mpr (Directory.names_empty _)] at h
    cases h
  row path row h := by simp [StoreState.new, LocalDiskBackend.new] at h
  task id task h := by simp [StoreState.new] at h
  writer id id' task task' sha h := by simp [StoreState.new] at h
  blob data h := by
    obtain ⟨file, hfile⟩ := Directory.contains_iff.mp h
    rw [show StoreState.new.backend.blobs.names.lookup _ = none from Directory.names_empty _] at hfile
    cases hfile

theorem Sound.arrive (h : Sound sha256 s) (hself : ∀ blobs, task.Sound sha256 blobs)
    (hwrites : task.writes sha256 = none) : Sound sha256 (s.arrive id task) := by
  unfold StoreState.arrive
  split_ifs with htaken
  · exact h
  · have hfree : s.tasks.lookup id = none := by simpa using htaken
    refine h.next h.hash h.row (hself _) (fun id' t _ ht => h.task id' t ht) ?_ ?_
    · intro sha hw
      rw [hwrites] at hw
      cases hw
    · intro data hthere
      have hbeside : (∃ id' t, s.tasks.lookup id' = some t ∧
          (t.pending sha256 = some (contentSha256Hex sha256 data) ∨
            t.dropped = some (contentSha256Hex sha256 data))) →
          AnsweredBeside sha256 s id (contentSha256Hex sha256 data) := by
        rintro ⟨id', t, ht, hanswer⟩
        refine ⟨id', t, ?_, ht, hanswer⟩
        rintro rfl
        rw [hfree] at ht
        cases ht
      rcases h.blob data hthere with huse | hdrop
      · rcases inUse_iff.mp huse with hrow | ⟨id', t, ht, hp⟩
        · exact Or.inl hrow
        · exact Or.inr (Or.inr (hbeside ⟨id', t, ht, Or.inl hp⟩))
      · obtain ⟨id', t, ht, hd⟩ := dropped_iff.mp hdrop
        exact Or.inr (Or.inr (hbeside ⟨id', t, ht, Or.inr hd⟩))

theorem Sound.step (h : Sound sha256 s) (e : StoreEvent) (hunraced : Unraced sha256 s e) :
    Sound sha256 (storeStep sha256 s e) := by
  cases e with
  | put id path data options => exact h.arrive (fun _ => Task.sound_of_none rfl rfl trivial) rfl
  | delete id path => exact h.arrive (fun _ => Task.sound_of_none rfl rfl trivial) rfl
  | rename id source target => exact h.arrive (fun _ => Task.sound_of_none rfl rfl trivial) rfl
  | proceed id now =>
      rcases htask : s.tasks.lookup id with _ | task
      · simp only [storeStep, htask]
        exact h
      · have htaskUnraced := hunraced task htask
        simp only [storeStep, htask]
        rcases task with ⟨path, data, options, phase⟩ | ⟨path, phase⟩ | ⟨source, target, phase⟩
        · exact h.putStep htask htaskUnraced now
        · exact h.deleteStep htask htaskUnraced
        · exact h.renameStep htask htaskUnraced now

/-- A store whose blobs are answered for meets the law. -/
theorem Sound.storeLaw (h : Sound sha256 s) : StoreLaw sha256 s where
  readable _ := by
    rintro ⟨path, row⟩ hmem
    obtain ⟨⟨data, hdata⟩, hthere⟩ := h.row path row (Table.mem_entries_iff.mp hmem)
    obtain ⟨bytes, hbytes⟩ := Directory.contains_iff_read.mp hthere
    refine ⟨bytes, hbytes, ?_⟩
    rw [← hdata] at hbytes
    rw [h.hash data bytes hbytes, hdata]
  referenced hfinished data hthere := by
    have hdone : ∀ id task, s.tasks.lookup id = some task →
        task.pending sha256 = none ∧ task.dropped = none := by
      intro id task htask
      have hfin := hfinished ⟨id, task⟩ (Table.mem_entries_iff.mpr htask)
      rcases task with ⟨_, _, _, _ | _⟩ | ⟨_, _ | _⟩ | ⟨_, _, _ | _⟩ <;>
        simp_all [Task.finished, Task.pending, Task.dropped]
    rcases h.blob data hthere with (hrow | ⟨⟨id, task⟩, hmem, hp⟩) | ⟨⟨id, task⟩, hmem, hd⟩
    · exact hrow
    · rw [(hdone id task (Table.mem_entries_iff.mp hmem)).1] at hp
      cases hp
    · rw [(hdone id task (Table.mem_entries_iff.mp hmem)).2] at hd
      cases hd

/-- **Blobs and rows.** In every state of a run of a new store whose steps are not raced, each row has
its blob, and once all tasks are done each blob has a row. -/
theorem storeLaw_of_unraced (events : List StoreEvent)
    (h : Trace.Always (storeStep sha256) (fun _ s e => Unraced sha256 s e) .new events) :
    ∀ pre post, events = pre ++ post → StoreLaw sha256 (Trace.run (storeStep sha256) .new pre) := by
  rintro pre post rfl
  have hsound := (Trace.Always.of_invariant (φ := fun _ _ _ => True)
    (I := fun _ s => Sound sha256 s) sound_new (fun _ _ _ _ => trivial)
    (fun es e hs he => hs.step e he) h.of_append).2
  exact hsound.storeLaw

end

/-! ## Runs -/

/-- The steps of a task, one after the other. -/
def proceeds (id n : ℕ) : List StoreEvent := List.replicate n (.proceed id 1)

/-- Two calls put one content; then the first key is deleted and the second renamed. -/
def sharedEvents : List StoreEvent :=
  [.put 1 keyA [65] ⟨none, ∅⟩, .put 2 keyB [65] ⟨none, ∅⟩] ++ proceeds 1 4 ++ proceeds 2 1 ++
    proceeds 1 1 ++ [.delete 3 keyA] ++ proceeds 3 2 ++ proceeds 2 1 ++ proceeds 3 1 ++
      [.rename 4 keyB keyA] ++ proceeds 4 4

theorem storeLaw_of_sharedEvents :
    StoreLaw sampleSha256 (Trace.run (storeStep sampleSha256) .new sharedEvents) :=
  storeLaw_of_unraced sharedEvents (Trace.always_of_check (by decide +kernel))
    sharedEvents [] (by rw [List.append_nil])

/-- The second `put` finds the blob of the first; the `delete` of the first key removes it. -/
def racedEvents : List StoreEvent :=
  [.put 1 keyA [65] ⟨none, ∅⟩] ++ proceeds 1 5 ++ [.put 2 keyB [65] ⟨none, ∅⟩] ++ proceeds 2 1 ++
    [.delete 3 keyA] ++ proceeds 3 5 ++ proceeds 2 1

/-- The second `put` overwrites the first, and nothing else happens. -/
def overwritingEvents : List StoreEvent :=
  [.put 1 keyA [65] ⟨none, ∅⟩] ++ proceeds 1 5 ++ [.put 2 keyA [66] ⟨none, ∅⟩] ++ proceeds 2 5

/-- A blob is removed under a `put` that has found it, and a blob is left behind by a `put` over its
key. -/
theorem not_storeLaw_of_runs :
    ¬ StoreLaw sampleSha256 (Trace.run (storeStep sampleSha256) .new racedEvents) ∧
      ¬ StoreLaw sampleSha256 (Trace.run (storeStep sampleSha256) .new overwritingEvents) := by
  constructor
  · intro h
    exact absurd (h.readable (by decide +kernel)) (by decide +kernel)
  · intro h
    exact absurd (h.referenced (by decide +kernel) [65] (by decide +kernel)) (by decide +kernel)

end DiskArcana.Storage
