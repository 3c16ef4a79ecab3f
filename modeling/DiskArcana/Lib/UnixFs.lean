import DiskArcana.Lib.LexicalPath
import DiskArcana.Lib.Table

/-!
# A file system with symbolic links

A table from locations to what is there. A location is the list of names that leads to a place from
the root directory without crossing a link; a path is a list of segments as they stand between the
slashes of a path string, with a `/` in front when the path is absolute. Empty segments and `.` stay
where they are, which must be a directory, and `..` goes up from where the walk has got to.

* `locate` follows a path as `open` with `O_CREAT` does: every link on the way and at the end is
  followed, up to a limit, and only the last name may be missing;
* `canonicalize` is `realpath`: the same for a path that leads to something;
* `readFile`, `writeFile` and `createDirs` are the operations of `std::fs` over it.

What is written at a path is read back there (`readFile_of_writeFile`), and stays readable while
only new entries appear (`readFile_of_extends`). Where there are no links, a path leads where its
names say (`locate_of_linkless`).
-/

namespace DiskArcana.Lib.UnixFs

/-- What is at a location. -/
inductive Node (α : Type) where
  | dir
  | file (content : α)
  | link (target : List String)
  deriving DecidableEq

/-- The names from the root to a place. -/
abbrev Location := List String

/-- A file system; the root directory is always there. -/
abbrev FileSystem (α : Type) := Table Location (Node α)

variable {α : Type}

namespace FileSystem

/-- There is a directory at the location. -/
def isDir (fs : FileSystem α) (loc : Location) : Bool :=
  match loc, fs.lookup loc with
  | [], _ => true
  | _, some .dir => true
  | _, _ => false

/-- Something is at the location. -/
def isThere (fs : FileSystem α) (loc : Location) : Bool :=
  loc.isEmpty || (fs.lookup loc).isSome

/-- Walk along the segments of a path; `follow` continues at a link. -/
def walk (fs : FileSystem α) (follow : Location → List String → Option Location) :
    Location → List String → Option Location
  | cur, [] => some cur
  | cur, segment :: rest =>
      if segment = "/" then walk fs follow [] rest
      else if !isDir fs cur then none
      else if segment = "" ∨ segment = "." then walk fs follow cur rest
      else if segment = ".." then walk fs follow cur.dropLast rest
      else match fs.lookup (cur ++ [segment]) with
        | none => if rest = [] then some (cur ++ [segment]) else none
        | some (.link target) => follow cur (target ++ rest)
        | some _ => walk fs follow (cur ++ [segment]) rest

/-- Where a path leads from a directory over at most so many links; the last name may be missing. -/
def locate (fs : FileSystem α) : ℕ → Location → List String → Option Location
  | 0 => walk fs fun _ _ => none
  | links + 1 => walk fs (locate fs links)

/-- How many links a path may cross on Linux. -/
def maxLinks : ℕ := 40

/-- Where a path leads that leads to something.
Source: `std::fs::canonicalize` -/
def canonicalize (fs : FileSystem α) (cwd : Location) (path : List String) : Option Location :=
  (locate fs maxLinks cwd path).filter fun loc => isThere fs loc

/-- The absolute path of a location. -/
def absolute (loc : Location) : List String := "/" :: loc

/-- The content of the file at a path.
Source: `std::fs::read` -/
def readFile (fs : FileSystem α) (cwd : Location) (path : List String) : Option α :=
  (locate fs maxLinks cwd path).bind fun loc =>
    match fs.lookup loc with
    | some (.file content) => some content
    | _ => none

/-- A file can be written at the location: nothing is there, or a file. -/
def canWrite (fs : FileSystem α) (loc : Location) : Bool :=
  match fs.lookup loc with
  | none => !loc.isEmpty
  | some (.file _) => !loc.isEmpty
  | some _ => false

/-- Create or replace the file at a path; a link at its end has been followed.
Source: `std::fs::write` -/
def writeFile (fs : FileSystem α) (cwd : Location) (path : List String) (content : α) :
    Option (FileSystem α) :=
  (locate fs maxLinks cwd path).bind fun loc =>
    if canWrite fs loc then some (fs.insert loc (.file content)) else none

/-- Create the missing directories on the way to a location; what exists on the way must lead to a
directory. The directories created before an obstacle stay.
Source: `std::fs::create_dir_all` -/
def createDirs (fs : FileSystem α) : Location → List String → FileSystem α × Bool
  | _, [] => (fs, true)
  | cur, name :: rest =>
      match fs.lookup (cur ++ [name]) with
      | none => createDirs (fs.insert (cur ++ [name]) .dir) (cur ++ [name]) rest
      | some .dir => createDirs fs (cur ++ [name]) rest
      | some (.file _) => (fs, false)
      | some (.link _) =>
          match canonicalize fs cur [name] with
          | some loc => if isDir fs loc then createDirs fs loc rest else (fs, false)
          | none => (fs, false)

/-! ## Operations that keep what is there -/

/-- Directories and links stay, and files stay files. -/
structure Grows (fs fs' : FileSystem α) : Prop where
  dir : ∀ loc, fs.lookup loc = some .dir → fs'.lookup loc = some .dir
  link : ∀ loc target, fs.lookup loc = some (.link target) → fs'.lookup loc = some (.link target)
  file : ∀ loc content, fs.lookup loc = some (.file content) →
    ∃ content', fs'.lookup loc = some (.file content')

theorem Grows.refl (fs : FileSystem α) : Grows fs fs where
  dir _ h := h
  link _ _ h := h
  file _ content h := ⟨content, h⟩

/-- A new entry takes nothing away. -/
theorem grows_insert_of_none {fs : FileSystem α} {loc : Location} (h : fs.lookup loc = none)
    (node : Node α) : Grows fs (fs.insert loc node) := by
  have hother : ∀ loc' node', fs.lookup loc' = some node' →
      (fs.insert loc node).lookup loc' = some node' := by
    intro loc' node' hloc'
    have hne : loc' ≠ loc := by
      rintro rfl
      rw [h] at hloc'
      cases hloc'
    rw [AList.lookup_insert_ne hne]
    exact hloc'
  exact ⟨fun l => hother l _, fun l target => hother l _, fun l content hl => ⟨content, hother l _ hl⟩⟩

/-- Replacing a file takes nothing away. -/
theorem grows_insert_file {fs : FileSystem α} {loc : Location}
    (h : ∀ old, fs.lookup loc = some old → ∃ content, old = .file content) (content : α) :
    Grows fs (fs.insert loc (.file content)) := by
  rcases hold : fs.lookup loc with _ | old
  · exact grows_insert_of_none hold _
  obtain ⟨before, rfl⟩ := h old hold
  refine ⟨fun l hl => ?_, fun l target hl => ?_, fun l was hl => ?_⟩
  · have hne : l ≠ loc := by
      rintro rfl
      rw [hold] at hl
      cases hl
    rw [AList.lookup_insert_ne hne]
    exact hl
  · have hne : l ≠ loc := by
      rintro rfl
      rw [hold] at hl
      cases hl
    rw [AList.lookup_insert_ne hne]
    exact hl
  · by_cases heq : l = loc
    · rw [heq, AList.lookup_insert]
      exact ⟨content, rfl⟩
    · rw [AList.lookup_insert_ne heq]
      exact ⟨was, hl⟩

theorem isDir_of_grows {fs fs' : FileSystem α} (h : Grows fs fs') {loc : Location}
    (hloc : isDir fs loc = true) : isDir fs' loc = true := by
  cases loc with
  | nil => rfl
  | cons name rest =>
      unfold isDir at hloc ⊢
      rcases hnode : fs.lookup (name :: rest) with _ | node
      · rw [hnode] at hloc
        cases hloc
      · cases node with
        | dir => rw [h.dir _ hnode]
        | file content =>
            rw [hnode] at hloc
            cases hloc
        | link target =>
            rw [hnode] at hloc
            cases hloc

/-- A walk goes the same way in a file system that has grown, unless a link has appeared at its
end. -/
theorem walk_of_grows {fs fs' : FileSystem α} (hgrows : Grows fs fs')
    {follow follow' : Location → List String → Option Location} {loc : Location}
    (hfollow : ∀ cur path, follow cur path = some loc → follow' cur path = some loc)
    (hend : loc ≠ [] → ∀ target, fs'.lookup loc ≠ some (.link target))
    {cur : Location} {path : List String}
    (h : walk fs follow cur path = some loc) : walk fs' follow' cur path = some loc := by
  induction path generalizing cur with
  | nil => exact h
  | cons segment rest ih =>
      unfold walk at h ⊢
      by_cases hroot : segment = "/"
      · rw [if_pos hroot] at h ⊢
        exact ih h
      rw [if_neg hroot] at h ⊢
      rcases hcur : isDir fs cur with _ | _
      · rw [hcur] at h
        cases h
      rw [hcur] at h
      rw [isDir_of_grows hgrows hcur]
      simp only [Bool.not_true, Bool.false_eq_true, if_false] at h ⊢
      by_cases hstay : segment = "" ∨ segment = "."
      · rw [if_pos hstay] at h ⊢
        exact ih h
      rw [if_neg hstay] at h ⊢
      by_cases hup : segment = ".."
      · rw [if_pos hup] at h ⊢
        exact ih h
      rw [if_neg hup] at h ⊢
      rcases hnode : fs.lookup (cur ++ [segment]) with _ | node
      · -- nothing was there, so the walk ended there
        rw [hnode] at h
        simp only at h
        split_ifs at h with hrest
        subst hrest
        obtain rfl := Option.some.inj h
        rcases hnode' : fs'.lookup (cur ++ [segment]) with _ | node'
        · simp
        · cases node' with
          | dir => rfl
          | file content => rfl
          | link target => exact absurd hnode' (hend (by simp) target)
      · rw [hnode] at h
        cases node with
        | dir =>
            rw [hgrows.dir _ hnode]
            exact ih h
        | file content =>
            obtain ⟨content', hnode'⟩ := hgrows.file _ _ hnode
            rw [hnode']
            exact ih h
        | link target =>
            rw [hgrows.link _ _ hnode]
            exact hfollow _ _ h

theorem locate_of_grows {fs fs' : FileSystem α} (hgrows : Grows fs fs') {loc : Location}
    (hend : loc ≠ [] → ∀ target, fs'.lookup loc ≠ some (.link target)) {links : ℕ} {cur : Location}
    {path : List String} (h : locate fs links cur path = some loc) :
    locate fs' links cur path = some loc := by
  induction links generalizing cur path with
  | zero => exact walk_of_grows hgrows (fun _ _ h => by cases h) hend h
  | succ links ih => exact walk_of_grows hgrows (fun _ _ h => ih h) hend h

/-! ## Reading what was written -/

/-- What a successful write does: it puts a file where the path leads, in place of a file or of
nothing. -/
theorem of_writeFile {fs fs' : FileSystem α} {cwd : Location} {path : List String} {content : α}
    (h : writeFile fs cwd path content = some fs') :
    ∃ loc, locate fs maxLinks cwd path = some loc ∧ Grows fs fs' ∧
      fs' = fs.insert loc (.file content) := by
  obtain ⟨loc, hloc, hwrite⟩ := Option.bind_eq_some_iff.mp h
  split_ifs at hwrite with hcan
  obtain rfl := Option.some.inj hwrite
  refine ⟨loc, hloc, grows_insert_file ?_ content, rfl⟩
  intro old hold
  unfold canWrite at hcan
  rw [hold] at hcan
  cases old with
  | file content => exact ⟨content, rfl⟩
  | dir => cases hcan
  | link target => cases hcan

/-- **What is written at a path is read there.** -/
theorem readFile_of_writeFile {fs fs' : FileSystem α} {cwd : Location} {path : List String}
    {content : α} (h : writeFile fs cwd path content = some fs') :
    readFile fs' cwd path = some content := by
  obtain ⟨loc, hloc, hgrows, rfl⟩ := of_writeFile h
  have hthere : (fs.insert loc (.file content)).lookup loc = some (.file content) :=
    AList.lookup_insert fs
  have hlead := locate_of_grows hgrows (by simp [hthere]) hloc
  unfold readFile
  rw [hlead, Option.bind_some, hthere]

/-- A file stays readable, with its content, when entries appear where nothing was. -/
theorem readFile_of_extends {fs fs' : FileSystem α}
    (h : ∀ loc node, fs.lookup loc = some node → fs'.lookup loc = some node) {cwd : Location}
    {path : List String} {content : α} (hread : readFile fs cwd path = some content) :
    readFile fs' cwd path = some content := by
  have hgrows : Grows fs fs' :=
    ⟨fun l => h l _, fun l target => h l _, fun l was hl => ⟨was, h l _ hl⟩⟩
  obtain ⟨loc, hloc, hfile⟩ := Option.bind_eq_some_iff.mp hread
  rcases hnode : fs.lookup loc with _ | node
  · rw [hnode] at hfile
    cases hfile
  rw [hnode] at hfile
  have hnode' := h loc node hnode
  have hend : ∀ target, fs'.lookup loc ≠ some (.link target) := by
    intro target hlink
    rw [hnode'] at hlink
    obtain rfl := Option.some.inj hlink
    cases hfile
  unfold readFile
  rw [locate_of_grows hgrows (fun _ => hend) hloc, Option.bind_some, hnode']
  exact hfile

/-- Creating directories only adds entries. -/
theorem createDirs_extends (fs : FileSystem α) (cur : Location) (path : List String)
    {loc : Location} {node : Node α} (h : fs.lookup loc = some node) :
    (createDirs fs cur path).1.lookup loc = some node := by
  induction path generalizing fs cur with
  | nil => exact h
  | cons name rest ih =>
      unfold createDirs
      rcases hnode : fs.lookup (cur ++ [name]) with _ | there
      · apply ih
        have hne : loc ≠ cur ++ [name] := by
          rintro rfl
          rw [h] at hnode
          cases hnode
        rw [AList.lookup_insert_ne hne]
        exact h
      · cases there with
        | dir => exact ih _ _ h
        | file content => exact h
        | link target =>
            simp only
            split
            · split_ifs
              · exact ih _ _ h
              · exact h
            · exact h

/-! ## Without links -/

/-- There are no links. -/
def Linkless (fs : FileSystem α) : Prop := ∀ loc target, fs.lookup loc ≠ some (.link target)

/-- Where there are no links, a walk goes where the segments say. -/
theorem walk_of_linkless {fs : FileSystem α} (hlinks : Linkless fs)
    {follow : Location → List String → Option Location} {cur loc : Location} {path : List String}
    (h : walk fs follow cur path = some loc) :
    loc = LexicalPath.resolve cur (path.filter (· ≠ "")) := by
  induction path generalizing cur with
  | nil => exact (Option.some.inj h).symm
  | cons segment rest ih =>
      unfold walk at h
      by_cases hempty : segment = ""
      · rw [List.filter_cons_of_neg (by simpa using hempty)]
        rw [if_neg (by rw [hempty]; decide), if_pos (Or.inl hempty)] at h
        split_ifs at h
        exact ih h
      rw [List.filter_cons_of_pos (by simpa using hempty)]
      show _ = LexicalPath.resolve (LexicalPath.resolveStep cur segment) _
      unfold LexicalPath.resolveStep
      by_cases hroot : segment = "/"
      · rw [if_pos hroot] at h ⊢
        exact ih h
      rw [if_neg hroot] at h ⊢
      rcases hcur : isDir fs cur with _ | _
      · rw [hcur] at h
        cases h
      rw [hcur] at h
      simp only [Bool.not_true, Bool.false_eq_true, if_false] at h
      by_cases hdot : segment = "."
      · rw [if_pos (Or.inr hdot)] at h
        rw [if_pos hdot]
        exact ih h
      rw [if_neg (not_or.mpr ⟨hempty, hdot⟩)] at h
      rw [if_neg hdot]
      by_cases hup : segment = ".."
      · rw [if_pos hup] at h ⊢
        exact ih h
      rw [if_neg hup] at h ⊢
      rcases hnode : fs.lookup (cur ++ [segment]) with _ | node
      · -- nothing is there, so the walk ends there
        rw [hnode] at h
        simp only at h
        split_ifs at h with hrest
        subst hrest
        exact (Option.some.inj h).symm
      · rw [hnode] at h
        cases node with
        | dir => exact ih h
        | file content => exact ih h
        | link target => exact absurd hnode (hlinks _ _)

theorem locate_of_linkless {fs : FileSystem α} (hlinks : Linkless fs) {links : ℕ}
    {cur loc : Location} {path : List String} (h : locate fs links cur path = some loc) :
    loc = LexicalPath.resolve cur (path.filter (· ≠ "")) := by
  cases links with
  | zero => exact walk_of_linkless hlinks h
  | succ links => exact walk_of_linkless hlinks h

theorem Linkless.insert {fs : FileSystem α} (h : Linkless fs) (loc : Location) {node : Node α}
    (hnode : ∀ target, node ≠ .link target) : Linkless (fs.insert loc node) := by
  intro loc' target hlink
  rw [Table.lookup_insert_eq_ite] at hlink
  split_ifs at hlink
  · exact hnode target (Option.some.inj hlink)
  · exact h loc' target hlink

/-- No operation creates links. -/
theorem Linkless.createDirs {fs : FileSystem α} (h : Linkless fs) (cur : Location)
    (path : List String) : Linkless (createDirs fs cur path).1 := by
  induction path generalizing fs cur with
  | nil => exact h
  | cons name rest ih =>
      unfold FileSystem.createDirs
      rcases hnode : fs.lookup (cur ++ [name]) with _ | there
      · exact ih (h.insert _ fun _ hlink => by cases hlink) _
      · cases there with
        | dir => exact ih h _
        | file content => exact h
        | link target => exact absurd hnode (h _ _)

theorem Linkless.writeFile {fs fs' : FileSystem α} (h : Linkless fs) {cwd : Location}
    {path : List String} {content : α} (hwrite : writeFile fs cwd path content = some fs') :
    Linkless fs' := by
  obtain ⟨loc, -, -, rfl⟩ := of_writeFile hwrite
  exact h.insert loc fun _ hlink => by cases hlink

end FileSystem

end DiskArcana.Lib.UnixFs
