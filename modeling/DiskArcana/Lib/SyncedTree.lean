import DiskArcana.Lib.SyncedFiles

/-!
# Files in directories that are made

Files under names, some of them in directories that were made for them. The name of such a directory is
on disk only after its own parent has been synced, and a file whose directory is lost is lost with it.
-/

namespace DiskArcana.Lib

/-- The files, and the directories that were made, each with whether its name is on disk. -/
structure SyncedTree (π δ : Type) [DecidableEq π] [DecidableEq δ] where
  files : SyncedFiles π
  dirs : Table δ Bool

namespace SyncedTree

variable {π δ : Type} [DecidableEq π] [DecidableEq δ]

def empty : SyncedTree π δ := ⟨∅, ∅⟩

/-- The directory is there. -/
def hasDir (d : δ) (t : SyncedTree π δ) : Bool := (t.dirs.lookup d).isSome

/-- A new directory. -/
def makeDir (d : δ) (t : SyncedTree π δ) : SyncedTree π δ := { t with dirs := t.dirs.insert d false }

/-- The parent of the directories is synced. -/
def linkDirs (t : SyncedTree π δ) : SyncedTree π δ := { t with dirs := Table.mapValues (fun _ _ => true) t.dirs }

/-- The name of the file and the name of its directory are on disk. -/
def Linked (dirOf : π → Option δ) (t : SyncedTree π δ) (p : π) (f : SyncedFile π) : Prop :=
  f.linked = true ∧ ∀ d, dirOf p = some d → t.dirs.lookup d = some true

/-- What may be there after the power was lost: directories whose names are on disk stay, and files are
found only in directories that stayed. -/
structure PowerLoss (dirOf : π → Option δ) (t t' : SyncedTree π δ) : Prop where
  keeps : ∀ p f, t.files.lookup p = some f → t.Linked dirOf p f →
    ∃ f', t'.files.lookup p = some f' ∧ (f.flushed = true → f'.bytes = f.bytes)
  comes : ∀ p f', t'.files.lookup p = some f' → f'.flushed = true ∧ f'.linked = true ∧
    ∃ q f, t.files.lookup q = some f ∧ f'.origin = f.origin ∧ (f.flushed = true → f'.bytes = f.bytes) ∧
      (p = q ∨ f.linked = false ∧ p = f.origin ∧ t'.files.lookup q = none)
  keepsDirs : ∀ d, t.dirs.lookup d = some true → t'.dirs.lookup d = some true
  comesDirs : ∀ d b, t'.dirs.lookup d = some b → b = true ∧ t.hasDir d = true
  inside : ∀ p f d, t'.files.lookup p = some f → dirOf p = some d → t'.hasDir d = true

variable {t : SyncedTree π δ} {d e : δ}

theorem hasDir_makeDir : (t.makeDir e).hasDir d = (d = e || t.hasDir d) := by
  unfold hasDir makeDir
  rw [Table.lookup_insert_eq_ite]
  split_ifs with h <;> simp [h]

theorem lookup_linkDirs : t.linkDirs.dirs.lookup d = (t.dirs.lookup d).map fun _ => true :=
  Table.lookup_mapValues _ _ _

@[simp] theorem hasDir_linkDirs : t.linkDirs.hasDir d = t.hasDir d := by
  unfold hasDir
  rw [lookup_linkDirs, Option.isSome_map]

/-- A directory whose name is on disk keeps it when another is made. -/
theorem lookup_makeDir_of_hasDir (hnew : t.hasDir e = false) (h : t.dirs.lookup d = some true) :
    (t.makeDir e).dirs.lookup d = some true := by
  unfold makeDir
  rw [Table.lookup_insert_eq_ite, if_neg, h]
  rintro rfl
  simp [hasDir, h] at hnew

end SyncedTree

end DiskArcana.Lib
