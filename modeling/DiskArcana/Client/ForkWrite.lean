import DiskArcana.Client.Conflict
import DiskArcana.Lib.UnixEntries

/-!
# Conflict copies and the file system

`conflict_writer.rs` call by call, over a file system with links. A conflict copy, like the result
of a clean merge, is written to a temporary file in its directory, which is then renamed; each call
may be refused.

`exists` follows links, and `rename` does not. So a candidate name under which a link leads nowhere
counts as free, and the rename replaces the link. An error of `persist` holds the temporary file
until it is dropped, and a removal that is refused goes unnoticed. These are the ways in which
applying a conflict does more than make one new file, or than nothing (`frameLaw_iff`).
-/

namespace DiskArcana.Client.ForkWrite

open DiskArcana.Core DiskArcana.Lib DiskArcana.Lib.UnixFs DiskArcana.Lib.UnixFs.FileSystem

/-- Source: `std::io::ErrorKind`, as far as `write_fork` looks at it -/
inductive ErrorKind where
  | alreadyExists
  | other
  deriving DecidableEq

/-- A `PersistError` holds the temporary file.
Source: `conflict_writer.rs`, `ForkWriteError` -/
inductive ForkWriteError where
  | io (kind : ErrorKind)
  | persist (tmp : Location)
  | pathTraversal
  deriving DecidableEq

/-- What the system answers to the calls of one write: whether the metadata of the path can be read;
the random names that are tried for the temporary file, or why none can be made; after how many
bytes a write is refused; whether the file may be renamed and removed. -/
structure Answers where
  stat : Bool
  temp : Except ErrorKind (List String)
  written : Option ℕ
  rename : Bool
  unlink : Bool

/-- What the system answers to all calls: at which paths a directory may be made, and the answers to
each of the writes. -/
structure System where
  mkdir : List String → Bool
  write : ℕ → Answers

section

variable (cwd : Location) (answers : Answers) (fs : FileSystem Bytes)

/-- An error counts as a no.
Source: `std::path::Path::exists` -/
def pathExists (path : List String) : Bool := answers.stat && (canonicalize fs cwd path).isSome

def tempName (random : String) : String := ".tmp" ++ random

/-- The place of a new temporary file in a directory: the first name that nothing has.
Source: `tempfile::NamedTempFile::new_in` -/
def newIn (parent : List String) : Except ErrorKind Location :=
  match dirAt fs cwd parent, answers.temp with
  | none, _ => .error .other
  | some _, .error kind => .error kind
  | some dir, .ok randoms =>
      match randoms.find? fun random => (fs.lookup (dir ++ [tempName random])).isNone with
      | none => .error .alreadyExists
      | some random => .ok (dir ++ [tempName random])

/-- Dropping a temporary file removes it, and what becomes of the removal is ignored.
Source: `tempfile::TempPath`, `drop` -/
def dropTemp (unlink : Bool) (fs : FileSystem Bytes) (tmp : Location) : FileSystem Bytes :=
  if unlink then fs.erase tmp else fs

/-- Write a temporary file beside a path and rename it to the path.
Source: `conflict_writer.rs`, the lines from `NamedTempFile::new_in` to `persist`, which
`write_atomic` and `apply_conflict` have in common -/
def persistNew (path : List String) (contents : Bytes) :
    FileSystem Bytes × Except ForkWriteError Unit :=
  match newIn cwd answers fs path.dropLast with
  | .error kind => (fs, .error (.io kind))
  | .ok tmp =>
      match answers.written with
      | some n =>
          (dropTemp answers.unlink (fs.insert tmp (.file (contents.take n))) tmp,
            .error (.io .other))
      | none =>
          let written := fs.insert tmp (.file contents)
          match (rename written cwd tmp path).filter fun _ => answers.rename with
          | none => (written, .error (.persist tmp))
          | some fs' => (fs', .ok ())

/-- Source: `conflict_writer.rs`, `write_atomic` -/
def writeAtomic (path : List String) (contents : Bytes) :
    FileSystem Bytes × Except ForkWriteError Unit :=
  if pathExists cwd answers fs path then (fs, .error (.io .alreadyExists))
  else persistNew cwd answers fs path contents

end

section

variable (system : System) (cwd : Location)

/-- Make the directory of a path, and those above it.
Source: `conflict_writer.rs`, the calls of `create_dir_all` -/
def makeParent (fs : FileSystem Bytes) (path : List String) : FileSystem Bytes × Bool :=
  createDirAll system.mkdir cwd fs [] path.dropLast

/-- Write to the first of the candidates at which nothing is found.
Source: `conflict_writer.rs`, the loop of `write_fork` -/
def tryCandidates (base : List String) (contents : Bytes) (fs : FileSystem Bytes) :
    ℕ → List Path → FileSystem Bytes × Except ForkWriteError Path
  | _, [] => (fs, .error (.io .alreadyExists))
  | attempt, candidate :: rest =>
      match writeAtomic cwd (system.write attempt) fs (base ++ candidate) contents with
      | (fs', .ok ()) => (fs', .ok candidate)
      | (fs', .error (.io .alreadyExists)) => tryCandidates base contents fs' (attempt + 1) rest
      | (fs', .error e) => (fs', .error e)

/-- Source: `conflict_writer.rs`, `write_fork` -/
def writeFork (fs : FileSystem Bytes) (base : List String) (relPath : Path) (contents : Bytes)
    (nodeId : NodeId) (ts : ℤ) : FileSystem Bytes × Except ForkWriteError Path :=
  let forkRel := forkFilename relPath nodeId ts
  if !validateNoTraversal forkRel then (fs, .error .pathTraversal)
  else match makeParent system cwd fs (base ++ forkRel) with
    | (fs', false) => (fs', .error (.io .other))
    | (fs', true) => tryCandidates system cwd base contents fs' 0 (forkCandidates relPath nodeId ts)

/-- Source: `std::path::Path::join` -/
def join (base : List String) (relPath : Path) : List String :=
  if relPath.head? = some "/" then relPath else base ++ relPath

variable (diffy : String → String → String → Except String String)

/-- The result of a clean merge, when the path is one that is merged.
Source: `conflict_writer.rs`, the conditions of `apply_conflict` -/
def cleanMerge (relPath : Path) (base : Option Bytes) (localBytes remote : Bytes) : Option Bytes :=
  if isMergeEligible relPath then
    match threeWayMerge diffy base localBytes remote with
    | .clean merged => some merged
    | _ => none
  else none

/-- Source: `conflict_writer.rs`, `apply_conflict` -/
def applyConflict (fs : FileSystem Bytes) (baseDir : List String) (relPath : Path) (base : Option Bytes)
    (localBytes remote : Bytes) (nodeId : NodeId) (ts : ℤ) :
    FileSystem Bytes × Except ForkWriteError ConflictApplyOutcome :=
  match cleanMerge diffy relPath base localBytes remote with
  | some merged =>
      let live := join baseDir relPath
      match makeParent system cwd fs live with
      | (fs', false) => (fs', .error (.io .other))
      | (fs', true) =>
          let (fs'', result) := persistNew cwd (system.write 0) fs' live merged
          (fs'', result.map fun _ => .merged)
  | none =>
      let (fs', result) := writeFork system cwd fs baseDir relPath remote nodeId ts
      (fs', result.map .forked)

end

/-! ## What a conflict may change -/

/-- When the outcome is looked at: as it is returned, or once it has been dropped, where the removal
of the temporary file that an error holds is let be or not. -/
inductive Moment where
  | returned
  | dropped (unlink : Bool)
  deriving DecidableEq

/-- The file system at a moment. -/
def fsAt (moment : Moment) (outcome : FileSystem Bytes × Except ForkWriteError ConflictApplyOutcome) :
    FileSystem Bytes :=
  match moment, outcome.2 with
  | .dropped unlink, .error (.persist tmp) => dropTemp unlink outcome.1 tmp
  | _, _ => outcome.1

/-- There is one new file, where the path leads, with these contents; nothing else has changed, but
for new directories. -/
def NewFile (fs fs' : FileSystem Bytes) (cwd : Location) (path : List String) (contents : Bytes) :
    Prop :=
  ∃ loc, locate fs' maxLinks cwd path = some loc ∧ fs.lookup loc = none ∧
    fs'.lookup loc = some (.file contents) ∧ ∀ other, other ≠ loc → Stays fs fs' other

/-- A conflict copy is one new file with the bytes of the server; an error leaves the files as they
were, and no other file. -/
structure FrameLaw (fs fs' : FileSystem Bytes) (cwd : Location) (base : List String) (remote : Bytes)
    (result : Except ForkWriteError ConflictApplyOutcome) : Prop where
  forked : ∀ path, result = .ok (.forked path) → NewFile fs fs' cwd (base ++ path) remote
  failed : ∀ e, result = .error e → ∀ loc, Stays fs fs' loc

/-! ## Where more is changed -/

section

variable (cwd : Location) (answers : Answers) (fs : FileSystem Bytes) (path : List String)

/-- The system refuses the rename to a path: of itself, or since a directory is there. -/
def RenameRefused : Prop :=
  answers.rename = false ∨ ∀ loc, entryAt fs cwd path = some loc → isDir fs loc = true

/-- The rename goes through at a name that something has: a link, or what could not be looked at. -/
def Replaces : Prop :=
  (∃ tmp, newIn cwd answers fs path.dropLast = .ok tmp) ∧ answers.written = none ∧
    ¬ RenameRefused cwd answers fs path ∧ ∃ loc, entryAt fs cwd path = some loc ∧ fs.lookup loc ≠ none

/-- The temporary file is there at a moment: neither a write nor its removal was let be, or the
rename was refused and the error that holds it has not been dropped, or in vain. -/
def TempLeft (moment : Moment) : Prop :=
  (∃ tmp, newIn cwd answers fs path.dropLast = .ok tmp) ∧
    ((answers.written ≠ none ∧ answers.unlink = false) ∨
      (answers.written = none ∧ RenameRefused cwd answers fs path ∧ moment ≠ .dropped true))

/-- Something is found at the path, or no temporary name is free. -/
def Collides : Prop :=
  pathExists cwd answers fs path = true ∨ newIn cwd answers fs path.dropLast = .error .alreadyExists

instance decidableCollides : Decidable (Collides cwd answers fs path) :=
  inferInstanceAs (Decidable (_ ∨ _))

end

section

variable (system : System) (cwd : Location) (diffy : String → String → String → Except String String)

/-- The candidate at which the search ends, with the answers to its write. -/
def firstFree (base : List String) (fs : FileSystem Bytes) : ℕ → List Path → Option (Path × Answers)
  | _, [] => none
  | attempt, candidate :: rest =>
      if Collides cwd (system.write attempt) fs (base ++ candidate) then
        firstFree base fs (attempt + 1) rest
      else some (candidate, system.write attempt)

/-- A conflict whose write leaves its temporary file, or replaces what a candidate's name stands
for. -/
def Slip (fs : FileSystem Bytes) (baseDir : List String) (relPath : Path) (base : Option Bytes)
    (localBytes remote : Bytes) (nodeId : NodeId) (ts : ℤ) (moment : Moment) : Prop :=
  if (cleanMerge diffy relPath base localBytes remote).isSome then
    ∃ fs', makeParent system cwd fs (join baseDir relPath) = (fs', true) ∧
      TempLeft cwd (system.write 0) fs' (join baseDir relPath) moment
  else
    validateNoTraversal (forkFilename relPath nodeId ts) = true ∧
    ∃ fs' candidate answers,
      makeParent system cwd fs (baseDir ++ forkFilename relPath nodeId ts) = (fs', true) ∧
      firstFree system cwd baseDir fs' 0 (forkCandidates relPath nodeId ts) =
        some (candidate, answers) ∧
      (Replaces cwd answers fs' (baseDir ++ candidate) ∨
        TempLeft cwd answers fs' (baseDir ++ candidate) moment)

end

/-! ## One write -/

section

variable {cwd : Location} {answers : Answers} {before fs : FileSystem Bytes} {path parent : List String}
  {contents : Bytes} {tmp : Location}

theorem of_newIn_eq_ok : newIn cwd answers fs parent = .ok tmp →
    ∃ dir random, dirAt fs cwd parent = some dir ∧ tmp = dir ++ [tempName random] ∧
      fs.lookup tmp = none := by
  unfold newIn
  rcases dirAt fs cwd parent with _ | dir
  · intro h
    cases h
  rcases answers.temp with kind | randoms
  · intro h
    cases h
  dsimp only
  rcases hfind : randoms.find? fun random => (fs.lookup (dir ++ [tempName random])).isNone with
    _ | random
  · intro h
    cases h
  · intro h
    cases h
    have hfree := List.find?_some hfind
    exact ⟨dir, random, rfl, rfl, by simpa using hfree⟩

theorem not_renameRefused_iff : ¬ RenameRefused cwd answers fs path ↔
    answers.rename = true ∧ ∃ loc, entryAt fs cwd path = some loc ∧ isDir fs loc = false := by
  unfold RenameRefused
  simp

/-- What becomes of one write: no temporary file, a write that fails, a rename that is refused, or a
file at the name that the path ends with. -/
inductive Written (cwd : Location) (answers : Answers) (fs : FileSystem Bytes) (path : List String)
    (contents : Bytes) : FileSystem Bytes × Except ForkWriteError Unit → Prop where
  | noTemp {kind : ErrorKind} (h : newIn cwd answers fs path.dropLast = .error kind) :
      Written cwd answers fs path contents (fs, .error (.io kind))
  | failed {tmp : Location} {n : ℕ} (h : newIn cwd answers fs path.dropLast = .ok tmp)
      (hwritten : answers.written = some n) :
      Written cwd answers fs path contents
        (dropTemp answers.unlink (fs.insert tmp (.file (contents.take n))) tmp, .error (.io .other))
  | refused {tmp : Location} (h : newIn cwd answers fs path.dropLast = .ok tmp)
      (hwritten : answers.written = none) (hrefused : RenameRefused cwd answers fs path) :
      Written cwd answers fs path contents (fs.insert tmp (.file contents), .error (.persist tmp))
  | renamed {tmp loc : Location} (h : newIn cwd answers fs path.dropLast = .ok tmp)
      (hwritten : answers.written = none) (hrename : ¬ RenameRefused cwd answers fs path)
      (hentry : entryAt fs cwd path = some loc) (hdir : isDir fs loc = false) :
      Written cwd answers fs path contents (fs.insert loc (.file contents), .ok ())

theorem written_persistNew (cwd : Location) (answers : Answers) (fs : FileSystem Bytes)
    (path : List String) (contents : Bytes) :
    Written cwd answers fs path contents (persistNew cwd answers fs path contents) := by
  unfold persistNew
  rcases htmp : newIn cwd answers fs path.dropLast with kind | tmp
  · exact .noTemp htmp
  dsimp only
  rcases hwritten : answers.written with _ | n
  · obtain ⟨dir, random, hdir, rfl, hfree⟩ := of_newIn_eq_ok htmp
    dsimp only
    rw [rename_new hdir hfree]
    by_cases hrefused : RenameRefused cwd answers fs path
    · have hnone : (((entryAt fs cwd path).filter fun loc => !isDir fs loc).map fun loc =>
          fs.insert loc (.file contents)).filter (fun _ => answers.rename) = none := by
        rcases hrefused with hrename | hdirs
        · simp [hrename]
        · rcases hentry : entryAt fs cwd path with _ | loc
          · rfl
          · simp [hdirs loc hentry]
      rw [hnone]
      exact .refused htmp hwritten hrefused
    · obtain ⟨hrename, loc, hentry, hisDir⟩ := not_renameRefused_iff.mp hrefused
      rw [hentry, Option.filter_some, hisDir, Bool.not_false, if_pos rfl, Option.map_some,
        Option.filter_some, if_pos hrename]
      exact .renamed htmp hwritten hrefused hentry hisDir
  · exact .failed htmp hwritten

theorem not_stays_insert_file (hbefore : ∀ loc, Stays before fs loc) (hfree : fs.lookup tmp = none)
    (contents : Bytes) : ¬ Stays before (fs.insert tmp (.file contents)) tmp := by
  intro h
  have hfile := h.file_iff.mp (AList.lookup_insert fs)
  rw [(hbefore tmp).none_of_none hfree] at hfile
  cases hfile

/-- A temporary file that is dropped is gone if its removal is let be. -/
theorem stays_dropTemp_iff (hbefore : ∀ loc, Stays before fs loc) (hfree : fs.lookup tmp = none)
    (unlink : Bool) (contents : Bytes) :
    (∀ loc, Stays before (dropTemp unlink (fs.insert tmp (.file contents)) tmp) loc) ↔
      unlink = true := by
  unfold dropTemp
  rcases unlink with _ | _
  · simpa using ⟨tmp, not_stays_insert_file hbefore hfree contents⟩
  · rw [if_pos rfl, Table.erase_insert_of_none hfree]
    exact iff_of_true hbefore rfl

theorem fsAt_io (moment : Moment) (fs : FileSystem Bytes) (kind : ErrorKind) :
    fsAt moment (fs, .error (.io kind)) = fs := by
  cases moment <;> rfl

theorem fsAt_ok (moment : Moment) (fs : FileSystem Bytes) (outcome : ConflictApplyOutcome) :
    fsAt moment (fs, .ok outcome) = fs := by
  cases moment <;> rfl

/-- **A write that fails leaves nothing behind**, unless it leaves its temporary file. -/
theorem stays_persistNew_iff (hbefore : ∀ loc, Stays before fs loc) {e : ForkWriteError}
    (moment : Moment) (h : (persistNew cwd answers fs path contents).2 = .error e) :
    (∀ loc, Stays before (fsAt moment ((persistNew cwd answers fs path contents).1, .error e)) loc) ↔
      ¬ TempLeft cwd answers fs path moment := by
  have hwritten := written_persistNew cwd answers fs path contents
  generalize persistNew cwd answers fs path contents = run at h hwritten
  unfold TempLeft
  cases hwritten with
  | noTemp hno =>
      cases h
      rw [fsAt_io]
      simp [hno, hbefore]
  | failed htmp hfailed =>
      cases h
      obtain ⟨-, -, -, -, hfree⟩ := of_newIn_eq_ok htmp
      rw [fsAt_io, stays_dropTemp_iff hbefore hfree]
      simp [htmp, hfailed]
  | @refused tmp htmp hall hrefused =>
      cases h
      obtain ⟨-, -, -, -, hfree⟩ := of_newIn_eq_ok htmp
      have hmoment : (∀ loc, Stays before
          (fsAt moment (fs.insert tmp (.file contents), .error (.persist tmp))) loc) ↔
            moment = .dropped true := by
        cases moment with
        | returned => simpa [fsAt] using ⟨tmp, not_stays_insert_file hbefore hfree contents⟩
        | dropped unlink => simpa [fsAt] using stays_dropTemp_iff hbefore hfree unlink contents
      rw [hmoment]
      simp [htmp, hall, hrefused]
  | renamed => cases h

/-- A write that goes through leaves no temporary file. -/
theorem not_tempLeft_of_ok (moment : Moment)
    (h : (persistNew cwd answers fs path contents).2 = .ok ()) :
    ¬ TempLeft cwd answers fs path moment := by
  have hwritten := written_persistNew cwd answers fs path contents
  generalize persistNew cwd answers fs path contents = run at h hwritten
  unfold TempLeft
  cases hwritten with
  | noTemp => cases h
  | failed => cases h
  | refused => cases h
  | renamed _ hall hrename => simp [hall, hrename]

/-- A write that replaces something goes through. -/
theorem not_replaces_of_error {e : ForkWriteError}
    (h : (persistNew cwd answers fs path contents).2 = .error e) : ¬ Replaces cwd answers fs path := by
  have hwritten := written_persistNew cwd answers fs path contents
  generalize persistNew cwd answers fs path contents = run at h hwritten
  unfold Replaces
  cases hwritten with
  | noTemp hno => simp [hno]
  | failed _ hfailed => simp [hfailed]
  | refused _ _ hrefused => simp [hrefused]
  | renamed => cases h

/-- **A write that goes through makes one new file**, unless it replaces something. -/
theorem newFile_persistNew_iff (hbefore : ∀ loc, Stays before fs loc)
    (h : (persistNew cwd answers fs path contents).2 = .ok ()) :
    NewFile before (persistNew cwd answers fs path contents).1 cwd path contents ↔
      ¬ Replaces cwd answers fs path := by
  have hwritten := written_persistNew cwd answers fs path contents
  generalize persistNew cwd answers fs path contents = run at h hwritten
  cases hwritten with
  | noTemp => cases h
  | failed => cases h
  | refused => cases h
  | @renamed tmp loc htmp hall hrename hentry hisDir =>
      have hthere : (fs.insert loc (.file contents)).lookup loc = some (.file contents) :=
        AList.lookup_insert fs
      constructor
      · rintro ⟨new, -, hnone, hfile, -⟩ ⟨-, -, -, loc', hentry', htaken⟩
        obtain rfl := Option.some.inj (hentry.symm.trans hentry')
        by_cases hnew : new = loc
        · subst hnew
          rcases hbefore new with hsame | ⟨-, hdir⟩
          · exact htaken (hsame.trans hnone)
          · obtain ⟨parent, name, dir, -, -, -, rfl⟩ := entryAt_eq_some_iff.mp hentry
            rw [isDir_concat_iff.mpr hdir] at hisDir
            cases hisDir
        · rw [AList.lookup_insert_ne hnew, (hbefore new).file_iff, hnone] at hfile
          cases hfile
      · intro hno
        have hmissing : fs.lookup loc = none := by
          by_contra htaken
          exact hno ⟨⟨tmp, htmp⟩, hall, hrename, loc, hentry, htaken⟩
        have hgrows := grows_insert_of_none hmissing (.file contents)
        refine ⟨loc, ?_, (hbefore loc).none_of_none hmissing, hthere, ?_⟩
        · obtain ⟨parent, name, dir, rfl, hname, hdir, rfl⟩ := entryAt_eq_some_iff.mp hentry
          exact locate_of_grows hgrows (by simp [hthere]) (locate_of_missing hdir hname hmissing)
        · intro other hother
          refine (hbefore other).trans (Or.inl ?_)
          exact AList.lookup_insert_ne hother

end

/-! ## The search -/

theorem stays_makeParent (system : System) (cwd : Location) (fs : FileSystem Bytes)
    (path : List String) (loc : Location) : Stays fs (makeParent system cwd fs path).1 loc :=
  stays_createDirAll system.mkdir cwd fs [] path.dropLast loc

section

variable {system : System} {cwd : Location} {diffy : String → String → String → Except String String}
  {fs fs' : FileSystem Bytes} {base : List String} {contents : Bytes}

theorem writeAtomic_of_collides {answers : Answers} {path : List String}
    (h : Collides cwd answers fs path) :
    writeAtomic cwd answers fs path contents = (fs, .error (.io .alreadyExists)) := by
  unfold writeAtomic
  split_ifs with hexists
  · rfl
  · rcases h with h | h
    · exact absurd h hexists
    · unfold persistNew
      rw [h]

theorem writeAtomic_of_not_collides (contents : Bytes) {answers : Answers} {path : List String}
    (h : ¬ Collides cwd answers fs path) :
    writeAtomic cwd answers fs path contents = persistNew cwd answers fs path contents ∧
      (persistNew cwd answers fs path contents).2 ≠ .error (.io .alreadyExists) := by
  have hexists : ¬ pathExists cwd answers fs path = true := fun hexists => h (Or.inl hexists)
  refine ⟨by rw [writeAtomic, if_neg hexists], ?_⟩
  have hwritten := written_persistNew cwd answers fs path contents
  generalize persistNew cwd answers fs path contents = run at hwritten
  cases hwritten with
  | @noTemp kind hno =>
      intro hkind
      cases hkind
      exact h (Or.inr hno)
  | failed => simp
  | refused => simp
  | renamed => simp

theorem tryCandidates_of_none {attempt : ℕ} {candidates : List Path}
    (h : firstFree system cwd base fs attempt candidates = none) :
    tryCandidates system cwd base contents fs attempt candidates =
      (fs, .error (.io .alreadyExists)) := by
  induction candidates generalizing attempt with
  | nil => rfl
  | cons candidate rest ih =>
      unfold firstFree at h
      split_ifs at h with hcollides
      unfold tryCandidates
      rw [writeAtomic_of_collides hcollides]
      exact ih h

/-- The search writes at the first candidate that is free. -/
theorem tryCandidates_of_some {attempt : ℕ} {candidates : List Path} {candidate : Path}
    {answers : Answers}
    (h : firstFree system cwd base fs attempt candidates = some (candidate, answers)) :
    tryCandidates system cwd base contents fs attempt candidates =
      ((persistNew cwd answers fs (base ++ candidate) contents).1,
        (persistNew cwd answers fs (base ++ candidate) contents).2.map fun _ => candidate) := by
  induction candidates generalizing attempt with
  | nil => cases h
  | cons first rest ih =>
      unfold firstFree at h
      unfold tryCandidates
      by_cases hcollides : Collides cwd (system.write attempt) fs (base ++ first)
      · rw [if_pos hcollides] at h
        rw [writeAtomic_of_collides hcollides]
        exact ih h
      · rw [if_neg hcollides] at h
        obtain ⟨rfl, rfl⟩ := Prod.mk.inj (Option.some.inj h)
        obtain ⟨hwrite, herror⟩ := writeAtomic_of_not_collides contents hcollides
        rw [hwrite]
        generalize persistNew cwd (system.write attempt) fs (base ++ first) contents = run at herror ⊢
        rcases run with ⟨fs', (kind | tmp | _) | done⟩
        · cases kind with
          | alreadyExists => exact absurd rfl herror
          | other => rfl
        · rfl
        · rfl
        · rfl

end

/-! ## Applying a conflict -/

section

variable {system : System} {cwd : Location} {diffy : String → String → String → Except String String}
  {fs fs' : FileSystem Bytes} {baseDir : List String} {relPath : Path} {base : Option Bytes}
  {localBytes remote merged : Bytes} {nodeId : NodeId} {ts : ℤ} {moment : Moment}

theorem frameLaw_error_iff {e : ForkWriteError} :
    FrameLaw fs fs' cwd baseDir remote (.error e) ↔ ∀ loc, Stays fs fs' loc := by
  constructor
  · intro h
    exact h.failed e rfl
  · intro h
    refine ⟨?_, fun _ _ => h⟩
    rintro _ ⟨⟩

theorem frameLaw_forked_iff {path : Path} :
    FrameLaw fs fs' cwd baseDir remote (.ok (.forked path)) ↔
      NewFile fs fs' cwd (baseDir ++ path) remote := by
  constructor
  · intro h
    exact h.forked path rfl
  · intro h
    constructor
    · rintro _ ⟨⟩
      exact h
    · rintro _ ⟨⟩

theorem frameLaw_merged : FrameLaw fs fs' cwd baseDir remote (.ok .merged) where
  forked _ h := by cases h
  failed _ h := by cases h

/-- The law for the write of a conflict copy. -/
theorem frameLaw_fork_iff (hstays : ∀ loc, Stays fs fs' loc) {answers : Answers} {candidate : Path}
    {run : FileSystem Bytes × Except ForkWriteError Unit}
    (hrun : run = persistNew cwd answers fs' (baseDir ++ candidate) remote) :
    FrameLaw fs (fsAt moment (run.1, run.2.map fun _ => .forked candidate)) cwd baseDir remote
        (run.2.map fun _ => .forked candidate) ↔
      ¬ (Replaces cwd answers fs' (baseDir ++ candidate) ∨
        TempLeft cwd answers fs' (baseDir ++ candidate) moment) := by
  subst hrun
  rw [not_or]
  rcases hresult : (persistNew cwd answers fs' (baseDir ++ candidate) remote).2 with e | done
  · have hno := not_replaces_of_error hresult
    have hiff := stays_persistNew_iff hstays moment hresult
    rw [Except.map, frameLaw_error_iff, hiff]
    simp [hno]
  · have hno := not_tempLeft_of_ok moment hresult
    have hiff := newFile_persistNew_iff hstays hresult
    rw [Except.map, fsAt_ok, frameLaw_forked_iff, hiff]
    simp [hno]

/-- The law for the write of a merge. -/
theorem frameLaw_merge_iff (hstays : ∀ loc, Stays fs fs' loc) {answers : Answers} {path : List String}
    {run : FileSystem Bytes × Except ForkWriteError Unit}
    (hrun : run = persistNew cwd answers fs' path merged) :
    FrameLaw fs (fsAt moment (run.1, run.2.map fun _ => .merged)) cwd baseDir remote
        (run.2.map fun _ => .merged) ↔ ¬ TempLeft cwd answers fs' path moment := by
  subst hrun
  rcases hresult : (persistNew cwd answers fs' path merged).2 with e | done
  · have hiff := stays_persistNew_iff hstays moment hresult
    rw [Except.map, frameLaw_error_iff, hiff]
  · have hno := not_tempLeft_of_ok moment hresult
    exact iff_of_true frameLaw_merged hno

/-- The law for a run in which no more than directories are made. -/
theorem frameLaw_of_stays (hstays : ∀ loc, Stays fs fs' loc) (moment : Moment) {e : ForkWriteError}
    (he : ∀ tmp, e ≠ .persist tmp) :
    FrameLaw fs (fsAt moment (fs', .error e)) cwd baseDir remote (.error e) := by
  have hfs : fsAt moment (fs', .error e) = fs' := by
    cases e with
    | io kind => exact fsAt_io moment fs' kind
    | persist tmp => exact absurd rfl (he tmp)
    | pathTraversal => cases moment <;> rfl
  rw [hfs]
  exact frameLaw_error_iff.mpr hstays

/-- What a conflict copy changes, at every moment. -/
theorem frameLaw_writeFork_iff {run : FileSystem Bytes × Except ForkWriteError Path}
    (hrun : run = writeFork system cwd fs baseDir relPath remote nodeId ts) :
    FrameLaw fs (fsAt moment (run.1, run.2.map .forked)) cwd baseDir remote (run.2.map .forked) ↔
      ¬ (validateNoTraversal (forkFilename relPath nodeId ts) = true ∧
        ∃ fs' candidate answers,
          makeParent system cwd fs (baseDir ++ forkFilename relPath nodeId ts) =
            (fs', true) ∧
          firstFree system cwd baseDir fs' 0 (forkCandidates relPath nodeId ts) =
            some (candidate, answers) ∧
          (Replaces cwd answers fs' (baseDir ++ candidate) ∨
            TempLeft cwd answers fs' (baseDir ++ candidate) moment)) := by
  have hstays := stays_makeParent system cwd fs (baseDir ++ forkFilename relPath nodeId ts)
  unfold writeFork at hrun
  rcases hvalid : validateNoTraversal (forkFilename relPath nodeId ts) with _ | _
  · -- the path is refused
    obtain rfl : run = (fs, .error .pathTraversal) := by simpa [hvalid] using hrun
    exact iff_of_true (frameLaw_of_stays (Stays.refl fs) moment (by simp)) (by simp)
  rcases hdirs : makeParent system cwd fs (baseDir ++ forkFilename relPath nodeId ts) with
    ⟨fs', made⟩
  rw [hdirs] at hstays
  cases made with
  | false =>
      obtain rfl : run = (fs', .error (.io .other)) := by simpa [hvalid, hdirs] using hrun
      exact iff_of_true (frameLaw_of_stays hstays moment (by simp)) (by simp)
  | true =>
      replace hrun : run =
          tryCandidates system cwd baseDir remote fs' 0 (forkCandidates relPath nodeId ts) := by
        simpa [hvalid, hdirs] using hrun
      rcases hfirst : firstFree system cwd baseDir fs' 0 (forkCandidates relPath nodeId ts) with
        _ | ⟨candidate, answers⟩
      · -- nothing is written
        rw [tryCandidates_of_none hfirst] at hrun
        subst hrun
        exact iff_of_true (frameLaw_of_stays hstays moment (by simp)) (by simp [hfirst])
      · rw [tryCandidates_of_some hfirst] at hrun
        subst hrun
        have hmap : ∀ result : Except ForkWriteError Unit,
            (result.map fun _ => candidate).map ConflictApplyOutcome.forked =
              result.map fun _ => .forked candidate := by
          intro result
          cases result <;> rfl
        rw [hmap, frameLaw_fork_iff hstays rfl]
        apply not_congr
        constructor
        · intro hslip
          exact ⟨rfl, fs', candidate, answers, rfl, hfirst, hslip⟩
        · rintro ⟨-, made, candidate', answers', hmade, hfirst', hslip⟩
          obtain rfl := (Prod.mk.inj hmade).1
          obtain ⟨rfl, rfl⟩ := Prod.mk.inj (Option.some.inj (hfirst.symm.trans hfirst'))
          exact hslip

/-- **What applying a conflict changes**: a conflict copy is one new file with the bytes of the
server, and an error changes no file and leaves none, unless a write replaces what its name stands
for or leaves its temporary file. -/
theorem frameLaw_iff (fs : FileSystem Bytes) (baseDir : List String) (relPath : Path)
    (base : Option Bytes) (localBytes remote : Bytes) (nodeId : NodeId) (ts : ℤ) (moment : Moment) :
    FrameLaw fs
        (fsAt moment
          (applyConflict system cwd diffy fs baseDir relPath base localBytes remote nodeId ts))
        cwd baseDir remote
        (applyConflict system cwd diffy fs baseDir relPath base localBytes remote nodeId ts).2 ↔
      ¬ Slip system cwd diffy fs baseDir relPath base localBytes remote nodeId ts moment := by
  generalize hrun : applyConflict system cwd diffy fs baseDir relPath base localBytes remote nodeId
    ts = run
  unfold applyConflict at hrun
  unfold Slip
  rcases hclean : cleanMerge diffy relPath base localBytes remote with _ | merged
  · rw [hclean] at hrun
    generalize hfork : writeFork system cwd fs baseDir relPath remote nodeId ts = fork at hrun
    subst hrun
    rw [Option.isSome_none, if_neg Bool.false_ne_true]
    exact frameLaw_writeFork_iff hfork.symm
  · have hstays := stays_makeParent system cwd fs (join baseDir relPath)
    rw [hclean] at hrun
    rw [Option.isSome_some, if_pos rfl]
    rcases hdirs : makeParent system cwd fs (join baseDir relPath) with ⟨fs', made⟩
    rw [hdirs] at hstays
    simp only [hdirs] at hrun
    subst hrun
    cases made with
    | false => exact iff_of_true (frameLaw_of_stays hstays moment (by simp)) (by simp)
    | true =>
        refine (frameLaw_merge_iff hstays rfl).trans (not_congr ?_)
        constructor
        · intro hleft
          exact ⟨fs', rfl, hleft⟩
        · rintro ⟨made, hmade, hleft⟩
          obtain rfl := (Prod.mk.inj hmade).1
          exact hleft

/-! ## The table of files

`Client.writeFork` keeps of the file system the table of its files only. -/

end

/-- A vault with one file, and a link that leads nowhere under the name of its first conflict
copy. -/
def linkedVault : FileSystem Bytes :=
  (((∅ : FileSystem Bytes).insert ["vault"] .dir).insert ["vault", "a.bin"] (.file [1])).insert
    ["vault", "a.sync-conflict-abc12345-19700101-000000.bin"] (.link ["gone"])

/-- Nothing is refused. -/
def willing : System := ⟨fun _ => true, fun _ => ⟨true, .ok ["x7K2pQ"], none, true, true⟩⟩

/-- A conflict in this vault. -/
def linkedRun : FileSystem Bytes × Except ForkWriteError ConflictApplyOutcome :=
  applyConflict willing [] (fun _ _ _ => .error "") linkedVault ["/", "vault"] ["a.bin"] none [1] [2]
    "abc12345" 0

/-- The link is replaced by the conflict copy. -/
theorem not_frameLaw_linkedVault :
    linkedRun.2 = .ok (.forked ["a.sync-conflict-abc12345-19700101-000000.bin"]) ∧
      ¬ FrameLaw linkedVault (fsAt .returned linkedRun) [] ["/", "vault"] [2] linkedRun.2 := by
  have hforked : linkedRun.2 = .ok (.forked ["a.sync-conflict-abc12345-19700101-000000.bin"]) := by
    decide +kernel
  refine ⟨hforked, ?_⟩
  intro hlaw
  obtain ⟨loc, hlocate, hnone, -⟩ := hlaw.forked _ hforked
  have hlead : locate (fsAt .returned linkedRun) maxLinks []
      (["/", "vault"] ++ ["a.sync-conflict-abc12345-19700101-000000.bin"]) =
        some ["vault", "a.sync-conflict-abc12345-19700101-000000.bin"] := by
    decide +kernel
  obtain rfl := Option.some.inj (hlocate.symm.trans hlead)
  revert hnone
  decide

end DiskArcana.Client.ForkWrite
