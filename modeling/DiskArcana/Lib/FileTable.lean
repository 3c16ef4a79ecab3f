import Mathlib.Data.List.Infix
import DiskArcana.Lib.Table

/-!
# Directories written file by file

A directory with everything below it, as a table from paths to entries, over any type of names and
of contents. `createDirAll` and `write` are what a program fills it with that makes the directories
of a file and then writes the file. `Holds` says which files there are and that every directory is
there for a file; where the paths of the files are apart, each is written beside the others
(`Holds.write`).
-/

namespace DiskArcana.Lib

/-- What is at a path. -/
inductive FileEntry (α : Type) where
  | dir
  | file (content : α)
  deriving DecidableEq

/-- A directory and what is below it; the directory itself is at the empty path. -/
abbrev FileTable (κ α : Type) [DecidableEq κ] := Table (List κ) (FileEntry α)

namespace FileTable

variable {κ α : Type} [DecidableEq κ]

/-- There is a file at a path. -/
def isFile (d : FileTable κ α) (path : List κ) : Bool :=
  match d.lookup path with
  | some (.file _) => true
  | _ => false

/-- The content of the file at a path. -/
def file (d : FileTable κ α) (path : List κ) : Option α :=
  match d.lookup path with
  | some (.file content) => some content
  | _ => none

/-- Make a directory and those above it, unless one of them is a file. -/
def createDirAll (d : FileTable κ α) (path : List κ) : Option (FileTable κ α) :=
  if path.inits.any d.isFile then none
  else some (Table.insertAll id (fun _ => .dir) d path.inits)

/-- Write a file into a directory that is there. -/
def write (d : FileTable κ α) (path : List κ) (content : α) : Option (FileTable κ α) :=
  match d.lookup path.dropLast, d.lookup path with
  | some .dir, some .dir => none
  | some .dir, _ => some (d.insert path (.file content))
  | _, _ => none

/-- Write a file, with the directories above it. These stay if the file cannot be written. -/
def put (d : FileTable κ α) (path : List κ) (content : α) : FileTable κ α × Bool :=
  match d.createDirAll path.dropLast with
  | none => (d, false)
  | some d =>
    match d.write path content with
    | none => (d, false)
    | some d => (d, true)

/-- Remove the file at a path, if there is one. -/
def remove (d : FileTable κ α) (path : List κ) : FileTable κ α :=
  if d.isFile path then d.erase path else d

/-- Neither path leads through the other. -/
def Apart (p q : List κ) : Prop := ¬ p <+: q ∧ ¬ q <+: p

omit [DecidableEq κ] in
theorem Apart.symm {p q : List κ} (h : Apart p q) : Apart q p := ⟨h.2, h.1⟩

/-- The files are these, and every directory is above one of them. -/
structure Holds (d : FileTable κ α) (files : List (List κ × α)) : Prop where
  file_iff : ∀ path content, d.lookup path = some (.file content) ↔ (path, content) ∈ files
  dir : ∀ path, d.lookup path = some .dir → path = [] ∨ ∃ f ∈ files, path <+: f.1 ∧ path ≠ f.1

variable {d d' : FileTable κ α} {path : List κ} {content : α} {files : List (List κ × α)}

theorem isFile_iff : d.isFile path = true ↔ ∃ content, d.lookup path = some (.file content) := by
  unfold isFile
  rcases d.lookup path with _ | _ | content <;> simp

theorem file_eq_some_iff : d.file path = some content ↔ d.lookup path = some (.file content) := by
  unfold file
  rcases d.lookup path with _ | _ | content <;> simp

theorem Holds.perm (h : d.Holds files) {files' : List (List κ × α)} (hperm : files.Perm files') :
    d.Holds files' where
  file_iff path content := by rw [h.file_iff, hperm.mem_iff]
  dir path hdir := by
    obtain hroot | ⟨f, hf, hpath⟩ := h.dir path hdir
    · exact Or.inl hroot
    · exact Or.inr ⟨f, hperm.mem_iff.mp hf, hpath⟩

theorem createDirAll_eq_some_iff : d.createDirAll path = some d' ↔
    (∀ q, q <+: path → d.isFile q = false) ∧ d' = Table.insertAll id (fun _ => .dir) d path.inits := by
  have hany : path.inits.any d.isFile = true ↔ ¬ ∀ q, q <+: path → d.isFile q = false := by
    simp [List.any_eq_true, List.mem_inits]
  unfold createDirAll
  by_cases hfree : ∀ q, q <+: path → d.isFile q = false
  · rw [if_neg fun h => hany.mp h hfree, Option.some.injEq]
    exact ⟨fun h => ⟨hfree, h.symm⟩, fun h => h.2.symm⟩
  · rw [if_pos (hany.mpr hfree)]
    simp [hfree]

theorem lookup_createDirAll (h : d.createDirAll path = some d') (q : List κ) :
    d'.lookup q = if q <+: path then some .dir else d.lookup q := by
  obtain ⟨-, rfl⟩ := createDirAll_eq_some_iff.mp h
  by_cases hq : q <+: path
  · rw [if_pos hq]
    apply Table.lookup_insertAll_const
    rw [List.map_id]
    exact (List.mem_inits q path).mpr hq
  · rw [if_neg hq]
    apply Table.lookup_insertAll_of_notMem
    rw [List.map_id]
    exact fun hmem => hq ((List.mem_inits q path).mp hmem)

/-! ## Files that are written and removed -/

theorem isFile_eq_false_iff : d.isFile path = false ↔ d.file path = none := by
  unfold isFile file
  rcases d.lookup path with _ | _ | content <;> simp

theorem file_createDirAll (h : d.createDirAll path = some d') (q : List κ) : d'.file q = d.file q := by
  have hlookup := lookup_createDirAll h q
  by_cases hq : q <+: path
  · have hnone := isFile_eq_false_iff.mp ((createDirAll_eq_some_iff.mp h).1 q hq)
    rw [if_pos hq] at hlookup
    rw [hnone, file, hlookup]
  · rw [if_neg hq] at hlookup
    rw [file, file, hlookup]

theorem write_eq_some (h : d.write path content = some d') :
    d' = d.insert path (.file content) ∧ d.lookup path ≠ some .dir := by
  unfold write at h
  split at h
  · cases h
  · rename_i hdir
    exact ⟨(Option.some.inj h).symm, hdir⟩
  · cases h

theorem file_write (h : d.write path content = some d') (q : List κ) :
    d'.file q = if q = path then some content else d.file q := by
  obtain ⟨rfl, -⟩ := write_eq_some h
  unfold file
  rw [Table.lookup_insert_eq_ite]
  split_ifs <;> rfl

/-- A file that is written is there, and the other files stay. -/
theorem file_put (d : FileTable κ α) (path : List κ) (content : α) (q : List κ) :
    (d.put path content).1.file q =
      if (d.put path content).2 = true ∧ q = path then some content else d.file q := by
  unfold put
  rcases hdirs : d.createDirAll path.dropLast with _ | d₁
  · simp
  · rcases hwrite : d₁.write path content with _ | d₂
    · simp [hwrite, file_createDirAll hdirs]
    · simp [hwrite, file_write hwrite, file_createDirAll hdirs]

/-- The root is no file. -/
theorem put_nil (d : FileTable κ α) (content : α) : (d.put [] content).2 = false := by
  unfold put
  rcases hdirs : d.createDirAll ([] : List κ).dropLast with _ | d₁
  · rfl
  · have hroot : d₁.lookup [] = some .dir := by
      rw [lookup_createDirAll hdirs, if_pos List.nil_prefix]
    rcases hwrite : d₁.write [] content with _ | d₂
    · simp [hwrite]
    · exact absurd hroot (write_eq_some hwrite).2

/-- Beside a file that was written, only a directory keeps another from being written. -/
theorem file_eq_none_of_put_put {path' : List κ} {content' : α} (h : (d.put path content).2 = true)
    (hdir : path'.dropLast = path.dropLast)
    (hfail : ((d.put path content).1.put path' content').2 = false) :
    (d.put path content).1.file path' = none := by
  unfold put at h hfail ⊢
  rcases hdirs : d.createDirAll path.dropLast with _ | d₁
  · rw [hdirs] at h
    cases h
  · rcases hwrite : d₁.write path content with _ | d₂
    · simp [hdirs, hwrite] at h
    · simp only [hdirs, hwrite, hdir] at hfail ⊢
      have hnotFile : ∀ q, q <+: path.dropLast → d₂.isFile q = false := by
        intro q hq
        rw [isFile_eq_false_iff, file_write hwrite]
        split_ifs with hself
        · -- the path is longer than its directory
          have hroot : path ≠ [] := by
            rintro rfl
            have hdirRoot : d₁.lookup [] = some .dir := by
              rw [lookup_createDirAll hdirs, if_pos List.nil_prefix]
            exact (write_eq_some hwrite).2 hdirRoot
          have hle := (hself ▸ hq).length_le
          have hpos := List.length_pos_of_ne_nil hroot
          rw [List.length_dropLast] at hle
          omega
        · rw [file_createDirAll hdirs, ← isFile_eq_false_iff]
          exact (createDirAll_eq_some_iff.mp hdirs).1 q hq
      obtain ⟨d₃, hd₃⟩ : ∃ d₃, d₂.createDirAll path.dropLast = some d₃ :=
        ⟨_, createDirAll_eq_some_iff.mpr ⟨hnotFile, rfl⟩⟩
      have hparent : d₃.lookup path'.dropLast = some .dir := by
        rw [lookup_createDirAll hd₃, if_pos (by rw [hdir])]
      rw [← file_createDirAll hd₃]
      rcases hentry : d₃.lookup path' with _ | _ | c
      · rw [file, hentry]
      · rw [file, hentry]
      · simp [hd₃, write, hparent, hentry] at hfail

theorem file_remove (d : FileTable κ α) (path q : List κ) :
    (d.remove path).file q = if q = path then none else d.file q := by
  unfold remove
  by_cases hq : q = path
  · subst hq
    rw [if_pos rfl]
    split_ifs with h
    · unfold file
      rw [AList.lookup_erase]
    · exact isFile_eq_false_iff.mp (Bool.eq_false_of_not_eq_true h)
  · rw [if_neg hq]
    split_ifs with h
    · unfold file
      rw [AList.lookup_erase_ne hq]
    · rfl

variable (κ α) in
/-- A directory with nothing in it. -/
theorem createDirAll_nil : ∃ root : FileTable κ α, (∅ : FileTable κ α).createDirAll [] = some root ∧
    root.Holds [] := by
  obtain ⟨root, hroot⟩ : ∃ root, (∅ : FileTable κ α).createDirAll [] = some root :=
    ⟨_, createDirAll_eq_some_iff.mpr ⟨fun q _ => rfl, rfl⟩⟩
  have hlookup := lookup_createDirAll hroot
  refine ⟨root, hroot, ?_, ?_⟩
  · intro q c
    rw [hlookup]
    split_ifs <;> simp
  · intro q hdir
    rw [hlookup] at hdir
    split_ifs at hdir with hq
    · exact Or.inl (List.prefix_nil.mp hq)
    · simp at hdir

/-- A file whose path is apart from those that are there gets its directories and is written. -/
theorem Holds.write (h : d.Holds files) (hne : path ≠ []) (hapart : ∀ f ∈ files, Apart path f.1)
    (content : α) : ∃ d₁ d₂, d.createDirAll path.dropLast = some d₁ ∧
      FileTable.write d₁ path content = some d₂ ∧ d₂.Holds ((path, content) :: files) := by
  have hprefix : path.dropLast <+: path := path.dropLast_prefix
  have hnot : ¬ path <+: path.dropLast := by
    intro hpre
    have hle := hpre.length_le
    have hpos := List.length_pos_of_ne_nil hne
    rw [List.length_dropLast] at hle
    omega
  have hfree : ∀ q, q <+: path.dropLast → d.isFile q = false := by
    intro q hq
    rw [Bool.eq_false_iff, Ne, isFile_iff]
    rintro ⟨c, hc⟩
    exact (hapart _ ((h.file_iff q c).mp hc)).2 (hq.trans hprefix)
  obtain ⟨d₁, hd₁⟩ : ∃ d₁, d.createDirAll path.dropLast = some d₁ :=
    ⟨_, createDirAll_eq_some_iff.mpr ⟨hfree, rfl⟩⟩
  have hlookup := lookup_createDirAll hd₁
  have hparent : d₁.lookup path.dropLast = some .dir := by rw [hlookup, if_pos List.prefix_rfl]
  have hself : d₁.lookup path ≠ some .dir := by
    rw [hlookup, if_neg hnot]
    intro hdir
    obtain hroot | ⟨f, hf, hpre, -⟩ := h.dir path hdir
    · exact hne hroot
    · exact (hapart f hf).1 hpre
  have hwrite : FileTable.write d₁ path content = some (d₁.insert path (.file content)) := by
    unfold FileTable.write
    rw [hparent]
    rcases hentry : d₁.lookup path with _ | _ | c
    · rfl
    · exact absurd hentry hself
    · rfl
  refine ⟨d₁, _, hd₁, hwrite, ?_, ?_⟩
  · intro q c
    rw [Table.lookup_insert_eq_ite, hlookup, List.mem_cons, Prod.mk.injEq]
    by_cases hq : q = path
    · subst hq
      have hnone : (q, c) ∉ files := fun hmem => (hapart _ hmem).1 List.prefix_rfl
      simp [hnone, eq_comm]
    · by_cases hpre : q <+: path.dropLast
      · have hnone : (q, c) ∉ files := fun hmem => (hapart _ hmem).2 (hpre.trans hprefix)
        simp [hq, hpre, hnone]
      · simp [hq, hpre, h.file_iff]
  · intro q hdir
    rw [Table.lookup_insert_eq_ite, hlookup] at hdir
    split_ifs at hdir with hq hpre
    · cases hdir
    · exact Or.inr ⟨(path, content), List.mem_cons_self, hpre.trans hprefix, hq⟩
    · obtain hroot | ⟨f, hf, hbelow⟩ := h.dir q hdir
      · exact Or.inl hroot
      · exact Or.inr ⟨f, List.mem_cons_of_mem _ hf, hbelow⟩

end FileTable

end DiskArcana.Lib
