import DiskArcana.Lib.Table

/-!
# Files between memory and disk

Files under names, where a write, a new name and a rename are seen at once and are on disk only after a
sync: of the file for its bytes, and of the directory for its name. When the power is lost, what is on
disk stays; of the rest, bytes may change and names may be lost, or be the ones that the files were made
under (`PowerLoss`).
-/

namespace DiskArcana.Lib

/-- A file: its bytes, the name it was made under, and whether its bytes and its name are on disk. -/
structure SyncedFile (π : Type) where
  bytes : List UInt8
  origin : π
  flushed : Bool
  linked : Bool
  deriving DecidableEq

abbrev SyncedFiles (π : Type) := Table π (SyncedFile π)

namespace SyncedFiles

variable {π : Type} [DecidableEq π]

/-- An empty file under a new name. -/
def create (p : π) (fs : SyncedFiles π) : SyncedFiles π := fs.insert p ⟨[], p, false, false⟩

def append (p : π) (data : List UInt8) (fs : SyncedFiles π) : SyncedFiles π :=
  match fs.lookup p with
  | some f => fs.insert p { f with bytes := f.bytes ++ data, flushed := false }
  | none => fs

/-- The file itself is synced. -/
def flush (p : π) (fs : SyncedFiles π) : SyncedFiles π :=
  match fs.lookup p with
  | some f => fs.insert p { f with flushed := true }
  | none => fs

/-- A rename that replaces nothing. -/
def rename (p q : π) (fs : SyncedFiles π) : Option (SyncedFiles π) :=
  match fs.lookup p, fs.lookup q with
  | some f, none => some ((fs.erase p).insert q { f with linked := false })
  | _, _ => none

/-- Directories are synced. -/
def link (synced : π → Bool) (fs : SyncedFiles π) : SyncedFiles π where
  entries := fs.entries.map fun e => ⟨e.1, { e.2 with linked := e.2.linked || synced e.1 }⟩
  nodupKeys := by
    have hkeys : (fs.entries.map fun e =>
        (⟨e.1, { e.2 with linked := e.2.linked || synced e.1 }⟩ : Sigma fun _ : π => SyncedFile π)).keys =
        fs.entries.keys := by
      simp [List.keys]
    rw [List.NodupKeys, hkeys]
    exact fs.nodupKeys

/-- What may be there after the power was lost. -/
structure PowerLoss (fs fs' : SyncedFiles π) : Prop where
  /-- What is on disk stays. -/
  keeps : ∀ p f, fs.lookup p = some f → f.linked = true →
    ∃ f', fs'.lookup p = some f' ∧ (f.flushed = true → f'.bytes = f.bytes)
  /-- What is there has been there, under this name or under one that its directory did not have yet. -/
  comes : ∀ p f', fs'.lookup p = some f' → f'.flushed = true ∧ f'.linked = true ∧
    ∃ q f, fs.lookup q = some f ∧ f'.origin = f.origin ∧ (f.flushed = true → f'.bytes = f.bytes) ∧
      (p = q ∨ f.linked = false ∧ p = f.origin ∧ fs'.lookup q = none)

variable {p q : π} {fs fs' : SyncedFiles π} {f : SyncedFile π}

theorem lookup_create : (create p fs).lookup q = if q = p then some ⟨[], p, false, false⟩ else fs.lookup q :=
  Table.lookup_insert_eq_ite _ _ _ _

theorem lookup_append {data : List UInt8} (h : fs.lookup p = some f) :
    (append p data fs).lookup q =
      if q = p then some { f with bytes := f.bytes ++ data, flushed := false } else fs.lookup q := by
  rw [append, h]
  exact Table.lookup_insert_eq_ite _ _ _ _

theorem lookup_flush (h : fs.lookup p = some f) :
    (flush p fs).lookup q = if q = p then some { f with flushed := true } else fs.lookup q := by
  rw [flush, h]
  exact Table.lookup_insert_eq_ite _ _ _ _

theorem rename_eq_some (h : rename p q fs = some fs') :
    ∃ f, fs.lookup p = some f ∧ fs.lookup q = none ∧ ∀ x, fs'.lookup x =
      if x = q then some { f with linked := false } else if x = p then none else fs.lookup x := by
  unfold rename at h
  rcases hp : fs.lookup p with _ | f
  · simp [hp] at h
  · rcases hq : fs.lookup q with _ | g
    · simp only [hp, hq, Option.some.injEq] at h
      refine ⟨f, rfl, rfl, ?_⟩
      intro x
      rw [← h, Table.lookup_insert_eq_ite]
      split_ifs with hx hx'
      · rfl
      · rw [hx', AList.lookup_erase]
      · exact AList.lookup_erase_ne hx'
    · simp [hp, hq] at h

theorem isSome_rename (hp : fs.lookup p = some f) (hq : fs.lookup q = none) :
    (rename p q fs).isSome = true := by
  rw [rename, hp, hq]
  rfl

theorem lookup_link (synced : π → Bool) :
    (link synced fs).lookup p =
      (fs.lookup p).map fun f => { f with linked := f.linked || synced p } := by
  rcases h : fs.lookup p with _ | f
  · rw [Option.map_none]
    rw [AList.lookup_eq_none] at h ⊢
    intro hmem
    apply h
    rw [AList.mem_keys] at hmem ⊢
    simpa [link, AList.keys, List.keys] using hmem
  · rw [Option.map_some]
    apply AList.mem_lookup_iff.mpr
    apply List.mem_map.mpr
    exact ⟨⟨p, f⟩, AList.mem_lookup_iff.mp h, rfl⟩

end SyncedFiles

end DiskArcana.Lib
