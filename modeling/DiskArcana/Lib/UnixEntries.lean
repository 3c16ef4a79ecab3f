import DiskArcana.Lib.UnixWalk

/-!
# The entries of directories

`mkdir`, `open` with `O_EXCL` and `rename` act on the name that a path ends with, in the directory
that the path before it leads to; a link under this name is not followed. `exists` does follow it,
so that a link that leads nowhere is an entry that does not exist.

`Stays` says that a location is as it was, or that a directory is there where nothing was: this is
what `createDirAll` does to a file system, whether or not it succeeds.
-/

namespace DiskArcana.Lib.UnixFs.FileSystem

variable {α : Type}

/-- The directory a path leads to. -/
def dirAt (fs : FileSystem α) (cwd : Location) (path : List String) : Option Location :=
  (locate fs maxLinks cwd path).filter fun loc => isDir fs loc

/-- The place of the name that a path ends with. -/
def entryAt (fs : FileSystem α) (cwd : Location) (path : List String) : Option Location :=
  (dirAt fs cwd path.dropLast).bind fun dir =>
    (path.getLast?.filter fun name => decide (IsEntryName name)).map fun name => dir ++ [name]

/-- Make one directory, where nothing is. -/
def mkdir (fs : FileSystem α) (cwd : Location) (path : List String) : Option (FileSystem α) :=
  (entryAt fs cwd path).bind fun loc =>
    if (fs.lookup loc).isNone then some (fs.insert loc .dir) else none

/-- Make the directories that are missing on the way along a path; `may` says which of them the
system lets be made. Those that were made before an obstacle stay.
Source: `std::fs::create_dir_all` -/
def createDirAll (may : List String → Bool) (cwd : Location) (fs : FileSystem α) :
    List String → List String → FileSystem α × Bool
  | _, [] => (fs, true)
  | before, segment :: rest =>
      let path := before ++ [segment]
      if (dirAt fs cwd path).isSome then createDirAll may cwd fs path rest
      else match (mkdir fs cwd path).filter fun _ => may path with
        | none => (fs, false)
        | some fs' => createDirAll may cwd fs' path rest

/-- Move a file to the name that a path ends with; what is under this name goes, unless it is a
directory.
Source: `rename(2)` -/
def rename (fs : FileSystem α) (cwd : Location) (source : Location) (path : List String) :
    Option (FileSystem α) :=
  match fs.lookup source, entryAt fs cwd path with
  | some (.file content), some loc =>
      if isDir fs loc then none else some ((fs.erase source).insert loc (.file content))
  | _, _ => none

/-- A location is as it was, or a directory is there where nothing was. -/
def Stays (fs fs' : FileSystem α) (loc : Location) : Prop :=
  fs'.lookup loc = fs.lookup loc ∨ fs.lookup loc = none ∧ fs'.lookup loc = some .dir

variable {fs fs' fs'' : FileSystem α} {cwd dir loc source : Location} {path before : List String}
  {name : String} {content : α}

theorem Stays.refl (fs : FileSystem α) (loc : Location) : Stays fs fs loc := Or.inl rfl

theorem Stays.trans (h : Stays fs fs' loc) (h' : Stays fs' fs'' loc) : Stays fs fs'' loc := by
  rcases h with h | ⟨hnone, hdir⟩
  · rcases h' with h' | ⟨hnone', hdir'⟩
    · exact Or.inl (h'.trans h)
    · exact Or.inr ⟨h ▸ hnone', hdir'⟩
  · rcases h' with h' | ⟨hnone', -⟩
    · exact Or.inr ⟨hnone, h'.trans hdir⟩
    · rw [hdir] at hnone'
      cases hnone'

/-- What stays is a file, or nothing, exactly if it was. -/
theorem Stays.file_iff (h : Stays fs fs' loc) :
    fs'.lookup loc = some (.file content) ↔ fs.lookup loc = some (.file content) := by
  rcases h with h | ⟨hnone, hdir⟩
  · rw [h]
  · rw [hnone, hdir]
    simp

theorem Stays.none_of_none (h : Stays fs fs' loc) (hnone : fs'.lookup loc = none) :
    fs.lookup loc = none := by
  rcases h with h | ⟨hnone', -⟩
  · rw [← h, hnone]
  · exact hnone'

theorem stays_mkdir (h : mkdir fs cwd path = some fs') (loc : Location) : Stays fs fs' loc := by
  obtain ⟨at', -, hmake⟩ := Option.bind_eq_some_iff.mp h
  split_ifs at hmake with hfree
  obtain rfl := Option.some.inj hmake
  by_cases hloc : loc = at'
  · subst hloc
    exact Or.inr ⟨Option.isNone_iff_eq_none.mp hfree, AList.lookup_insert fs⟩
  · exact Or.inl (AList.lookup_insert_ne hloc)

/-- Nothing is lost where directories are made. -/
theorem stays_createDirAll (may : List String → Bool) (cwd : Location) (fs : FileSystem α)
    (before path : List String) (loc : Location) :
    Stays fs (createDirAll may cwd fs before path).1 loc := by
  induction path generalizing fs before with
  | nil => exact Stays.refl fs loc
  | cons segment rest ih =>
      unfold createDirAll
      dsimp only
      split_ifs
      · exact ih fs _
      · rcases hmake : (mkdir fs cwd (before ++ [segment])).filter
          fun _ => may (before ++ [segment]) with _ | fs'
        · exact Stays.refl fs loc
        · exact (stays_mkdir (Option.filter_eq_some_iff.mp hmake).1 loc).trans (ih fs' _)

theorem dirAt_eq_some_iff :
    dirAt fs cwd path = some dir ↔ locate fs maxLinks cwd path = some dir ∧ isDir fs dir = true := by
  unfold dirAt
  rw [Option.filter_eq_some_iff]

theorem entryAt_eq_some_iff : entryAt fs cwd path = some loc ↔
    ∃ parent name dir, path = parent ++ [name] ∧ IsEntryName name ∧ dirAt fs cwd parent = some dir ∧
      loc = dir ++ [name] := by
  unfold entryAt
  rw [Option.bind_eq_some_iff]
  constructor
  · rintro ⟨dir, hdir, hname⟩
    obtain ⟨name, hlast, rfl⟩ := Option.map_eq_some_iff.mp hname
    obtain ⟨hlast, hentry⟩ := Option.filter_eq_some_iff.mp hlast
    obtain ⟨parent, rfl⟩ := List.getLast?_eq_some_iff.mp hlast
    rw [List.dropLast_concat] at hdir
    exact ⟨parent, name, dir, rfl, by simpa using hentry, hdir, rfl⟩
  · rintro ⟨parent, name, dir, rfl, hentry, hdir, rfl⟩
    refine ⟨dir, by rw [List.dropLast_concat, hdir], ?_⟩
    rw [List.getLast?_concat, Option.filter_some, if_pos (by simpa using hentry)]
    rfl

/-- A directory is reached the same way where only new entries have appeared. -/
theorem dirAt_of_grows (hgrows : Grows fs fs') (h : dirAt fs cwd path = some dir) :
    dirAt fs' cwd path = some dir := by
  obtain ⟨hlocate, hdir⟩ := dirAt_eq_some_iff.mp h
  have hdir' := isDir_of_grows hgrows hdir
  refine dirAt_eq_some_iff.mpr ⟨locate_of_grows hgrows ?_ hlocate, hdir'⟩
  intro hne target hlink
  rw [isDir_iff_of_ne_nil hne, hlink] at hdir'
  cases hdir'

/-- A name that is missing from a directory is where the path to it leads. -/
theorem locate_of_missing (hdir : dirAt fs cwd before = some dir) (hname : IsEntryName name)
    (hmissing : fs.lookup (dir ++ [name]) = none) :
    locate fs maxLinks cwd (before ++ [name]) = some (dir ++ [name]) := by
  obtain ⟨hlocate, hisDir⟩ := dirAt_eq_some_iff.mp hdir
  obtain ⟨left, -, hgo⟩ := locate_append hlocate hisDir
  rw [show locate fs maxLinks cwd (before ++ [name]) = locate fs left dir [name] from hgo [name]]
  rcases left with _ | left
  · exact (walk_missing hisDir hname hmissing).trans (if_pos rfl)
  · exact (walk_missing hisDir hname hmissing).trans (if_pos rfl)

/-- A new file makes no directory and takes none away. -/
theorem isDir_insert_file (hfree : fs.lookup (dir ++ [name]) = none) (loc : Location) :
    isDir (fs.insert (dir ++ [name]) (.file content)) loc = isDir fs loc := by
  by_cases hroot : loc = []
  · subst hroot
    rfl
  · rw [Bool.eq_iff_iff, isDir_iff_of_ne_nil hroot, isDir_iff_of_ne_nil hroot,
      Table.lookup_insert_eq_ite]
    split_ifs with hloc
    · subst hloc
      simp [hfree]
    · rfl

/-- A file that has just been made in the directory of a path is moved to the path, unless a
directory is there; it is as if it had been made there. -/
theorem rename_new (hdir : dirAt fs cwd path.dropLast = some dir)
    (hfree : fs.lookup (dir ++ [name]) = none) :
    rename (fs.insert (dir ++ [name]) (.file content)) cwd (dir ++ [name]) path =
      ((entryAt fs cwd path).filter fun loc => !isDir fs loc).map fun loc =>
        fs.insert loc (.file content) := by
  have hdir' := dirAt_of_grows (grows_insert_of_none hfree (.file content)) hdir
  have hentry : entryAt (fs.insert (dir ++ [name]) (.file content)) cwd path = entryAt fs cwd path := by
    unfold entryAt
    rw [hdir', hdir]
  unfold rename
  rw [AList.lookup_insert, hentry]
  rcases entryAt fs cwd path with _ | loc
  · rfl
  · dsimp only
    rw [isDir_insert_file hfree, Table.erase_insert_of_none hfree, Option.filter_some]
    rcases isDir fs loc with _ | _
    · rfl
    · rfl

end DiskArcana.Lib.UnixFs.FileSystem
