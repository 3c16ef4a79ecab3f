import DiskArcana.Lib.Table

/-!
# A directory of files that stay open while they are renamed

Names lead to inodes, and an inode is never led to by two names: files are created, written through
a handle (the inode), renamed over another name and removed, and no operation makes a second link. A
handle outlives its name, so a file that has been renamed or removed while it is open is still
written through the handle.

Creating a file that exists empties the file that is there and keeps its inode; what that does to
another holder of the inode is what the lemmas on `read` say.
-/

namespace DiskArcana.Lib

variable {ν β : Type} [DecidableEq ν]

/-- Names, and the bytes of every inode that there has been. -/
structure Directory (ν β : Type) [DecidableEq ν] where
  names : Table ν ℕ
  inodes : List (List β)
  /-- Every name leads to an inode. -/
  bounded : ∀ n i, names.lookup n = some i → i < inodes.length
  /-- No two names lead to one. -/
  unlinked : ∀ n n' i, names.lookup n = some i → names.lookup n' = some i → n = n'

namespace Directory

/-- Nothing is there. -/
def empty : Directory ν β where
  names := ∅
  inodes := []
  bounded n i h := by simp at h
  unlinked n n' i h := by simp at h

/-- The name is taken. -/
def contains (d : Directory ν β) (n : ν) : Bool := (d.names.lookup n).isSome

/-- The bytes of the file with a name. -/
def read (d : Directory ν β) (n : ν) : Option (List β) :=
  (d.names.lookup n).bind fun i => d.inodes[i]?

/-- Open a file for writing, emptied if it is there and made if not. -/
def create (d : Directory ν β) (n : ν) : Directory ν β × ℕ :=
  match hn : d.names.lookup n with
  | some i =>
      ({ d with
          inodes := d.inodes.set i []
          bounded := by simpa using d.bounded }, i)
  | none =>
      ({ names := d.names.insert n d.inodes.length
         inodes := d.inodes ++ [[]]
         bounded := by
           intro m i h
           rw [Table.lookup_insert_eq_ite] at h
           split_ifs at h
           · cases h
             simp
           · have := d.bounded m i h
             simp
             omega
         unlinked := by
           intro m m' i h h'
           rw [Table.lookup_insert_eq_ite] at h h'
           split_ifs at h h' with hm hm' hm'
           · rw [hm, hm']
           · cases h
             exact absurd (d.bounded m' _ h') (lt_irrefl _)
           · cases h'
             exact absurd (d.bounded m _ h) (lt_irrefl _)
           · exact d.unlinked m m' i h h' }, d.inodes.length)

/-- Write bytes through a handle, from the start of the file. -/
def writeAll (d : Directory ν β) (i : ℕ) (bytes : List β) : Directory ν β :=
  { d with
    inodes := d.inodes.modify i fun old => bytes ++ old.drop bytes.length
    bounded := by simpa using d.bounded }

/-- Give a file another name, over the file that has it. Nothing happens if there is no file. -/
def rename (d : Directory ν β) (source target : ν) : Option (Directory ν β) :=
  match hs : d.names.lookup source with
  | none => none
  | some i =>
      some { d with
        names := (d.names.erase source).insert target i
        bounded := by
          intro m j h
          rw [Table.lookup_insert_eq_ite] at h
          split_ifs at h
          · cases h
            exact d.bounded source _ hs
          · exact d.bounded m j (Table.of_lookup_erase h).2
        unlinked := by
          intro m m' j h h'
          rw [Table.lookup_insert_eq_ite] at h h'
          split_ifs at h h' with hm hm' hm'
          · rw [hm, hm']
          · cases h
            obtain ⟨hne, h'⟩ := Table.of_lookup_erase h'
            exact absurd (d.unlinked m' source _ h' hs) hne
          · cases h'
            obtain ⟨hne, h⟩ := Table.of_lookup_erase h
            exact absurd (d.unlinked m source _ h hs) hne
          · exact d.unlinked m m' j (Table.of_lookup_erase h).2 (Table.of_lookup_erase h').2 }

/-- Remove a name. -/
def remove (d : Directory ν β) (n : ν) : Directory ν β :=
  { d with
    names := d.names.erase n
    bounded := fun m i h => d.bounded m i (Table.of_lookup_erase h).2
    unlinked := fun m m' i h h' =>
      d.unlinked m m' i (Table.of_lookup_erase h).2 (Table.of_lookup_erase h').2 }

variable {d d' : Directory ν β} {n m source target : ν} {i : ℕ} {bytes : List β}

/-! ## What the operations do to names and bytes -/

@[simp] theorem names_empty (n : ν) : (empty : Directory ν β).names.lookup n = none := by
  simp [empty]

theorem contains_iff : d.contains n = true ↔ ∃ i, d.names.lookup n = some i := by
  unfold contains
  rw [Option.isSome_iff_exists]

theorem contains_eq_false : d.contains n = false ↔ d.names.lookup n = none := by
  simp [contains]

/-- A name that is taken has bytes. -/
theorem read_of_names (h : d.names.lookup n = some i) :
    d.read n = some (d.inodes.get ⟨i, d.bounded n i h⟩) := by
  unfold read
  rw [h]
  simp [d.bounded n i h]

theorem read_eq_none : d.read n = none ↔ d.names.lookup n = none := by
  constructor
  · intro h
    rcases hn : d.names.lookup n with _ | i
    · rfl
    · rw [read_of_names hn] at h
      cases h
  · intro h
    simp [read, h]

theorem contains_iff_read : d.contains n = true ↔ ∃ bytes, d.read n = some bytes := by
  rw [← Option.isSome_iff_exists, Option.isSome_iff_ne_none, Ne, read_eq_none, contains,
    Option.isSome_iff_ne_none]

/-- The name of a created file leads to the handle. -/
theorem names_create : (d.create n).1.names.lookup m =
    if m = n then some (d.create n).2 else d.names.lookup m := by
  unfold create
  split
  · next i hn =>
    split_ifs with hm
    · rw [hm]
      exact hn
    · rfl
  · exact Table.lookup_insert_eq_ite _ _ _ _

/-- A created file is empty. -/
theorem read_create : (d.create n).1.read m = if m = n then some [] else d.read m := by
  unfold create
  split
  · next i hn =>
    have hi := d.bounded n i hn
    split_ifs with hm
    · subst hm
      simp [read, hn, hi]
    · rcases hj : d.names.lookup m with _ | j
      · simp [read, hj]
      · have hne : i ≠ j := by
          rintro rfl
          exact hm (d.unlinked m n i hj hn)
        simp [read, hj, List.getElem?_set_ne hne]
  · next hn =>
    split_ifs with hm
    · subst hm
      simp [read]
    · rcases hj : d.names.lookup m with _ | j
      · simp [read, AList.lookup_insert_ne hm, hj]
      · have hlt := d.bounded m j hj
        simp [read, AList.lookup_insert_ne hm, hj, hlt, List.getElem?_append_left]

@[simp] theorem names_writeAll : (d.writeAll i bytes).names = d.names := rfl

/-- Writing through a handle is seen under the name that leads to it. -/
theorem read_writeAll : (d.writeAll i bytes).read m =
    if d.names.lookup m = some i then (d.read m).map fun old => bytes ++ old.drop bytes.length
    else d.read m := by
  unfold read writeAll
  rcases hj : d.names.lookup m with _ | j
  · simp
  · by_cases hij : i = j
    · subst hij
      simp
    · rw [if_neg (by simpa using Ne.symm hij)]
      simp [List.getElem?_modify, hij]

/-- The same under a name that is known to lead to the handle. -/
theorem read_writeAll_of_names (h : d.names.lookup n = some i) : (d.writeAll i bytes).read m =
    if m = n then (d.read m).map fun old => bytes ++ old.drop bytes.length else d.read m := by
  rw [read_writeAll]
  by_cases hm : m = n
  · rw [if_pos hm, hm, if_pos h]
  · rw [if_neg hm, if_neg fun hm' => hm (d.unlinked m n i hm' h)]

theorem contains_congr {d' : Directory ν β} (h : d'.read n = d.read n) :
    d'.contains n = d.contains n := by
  rw [Bool.eq_iff_iff, contains_iff_read, contains_iff_read, h]

theorem rename_eq_none : d.rename source target = none ↔ d.names.lookup source = none := by
  unfold rename
  split <;> simp_all

/-- A renamed file keeps its inode. -/
theorem names_rename (h : d.rename source target = some d') : d'.names.lookup m =
    if m = target then d.names.lookup source else
      if m = source then none else d.names.lookup m := by
  unfold rename at h
  split at h
  · cases h
  · next i hs =>
    cases h
    rw [Table.lookup_insert_eq_ite]
    split_ifs with hm hm'
    · exact hs.symm
    · rw [hm']
      exact AList.lookup_erase source _
    · exact AList.lookup_erase_ne hm'

theorem inodes_rename (h : d.rename source target = some d') : d'.inodes = d.inodes := by
  unfold rename at h
  split at h
  · cases h
  · cases h
    rfl

/-- A renamed file keeps its bytes, and what its new name led to before is gone. -/
theorem read_rename (h : d.rename source target = some d') : d'.read m =
    if m = target then d.read source else if m = source then none else d.read m := by
  unfold read
  rw [names_rename h, inodes_rename h]
  split_ifs <;> rfl

theorem names_remove : (d.remove n).names.lookup m = if m = n then none else d.names.lookup m := by
  unfold remove
  split_ifs with hm
  · subst hm
    exact AList.lookup_erase m _
  · exact AList.lookup_erase_ne hm

theorem read_remove : (d.remove n).read m = if m = n then none else d.read m := by
  unfold read
  rw [names_remove]
  split_ifs <;> rfl

/-- **Write and rename.** A new file written under a temporary name and renamed has its bytes under
the new name; only the two names are touched. -/
theorem exists_rename_of_create (d : Directory ν β) (source target : ν) (bytes : List β) :
    ∃ d', ((d.create source).1.writeAll (d.create source).2 bytes).rename source target = some d' ∧
      ∀ m, d'.read m = if m = target then some bytes else if m = source then none else d.read m := by
  rcases hrename : ((d.create source).1.writeAll (d.create source).2 bytes).rename source target with
    _ | d'
  · rw [rename_eq_none, names_writeAll, names_create, if_pos rfl] at hrename
    cases hrename
  · refine ⟨d', rfl, fun m => ?_⟩
    have hsource : ((d.create source).1.writeAll (d.create source).2 bytes).read source =
        some bytes := by
      rw [read_writeAll, names_create, if_pos rfl, if_pos rfl, read_create, if_pos rfl]
      simp
    rw [read_rename hrename, hsource]
    split_ifs with htarget hm
    · rfl
    · rfl
    · have hother : (d.create source).1.names.lookup m ≠ some (d.create source).2 := by
        intro h
        apply hm
        apply (d.create source).1.unlinked m source _ h
        rw [names_create, if_pos rfl]
      rw [read_writeAll, if_neg hother, read_create, if_neg hm]

end Directory

end DiskArcana.Lib
