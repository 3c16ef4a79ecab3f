import DiskArcana.Lib.DirTree

/-!
# Operations on directory trees

What a system does to a tree of files and directories: writing a file, making a directory, removing a
file or an empty directory, renaming. An operation that the system refuses changes nothing.

`file_perform` says which files an operation changes: those that it names, and, when it renames a
directory, those below the directory, which it does not name.
-/

namespace DiskArcana.Lib

namespace DirTree

variable {α : Type}

/-- An operation; its paths are locations below the root. -/
inductive Op (α : Type) where
  | write (path : List String) (content : α)
  | mkdir (path : List String)
  | remove (path : List String)
  | rename (path target : List String)

/-- Where an operation puts something. -/
def Op.shown : Op α → List (List String)
  | .write path _ => [path]
  | .rename _ target => [target]
  | _ => []

/-- Where an operation takes something away. -/
def Op.gone : Op α → List (List String)
  | .remove path => [path]
  | .rename path _ => [path]
  | _ => []

/-- Where an operation may make a new entry. -/
def Op.named : Op α → List (List String)
  | .write path _ => [path]
  | .mkdir path => [path]
  | .remove _ => []
  | .rename _ target => [target]

/-- A file that an operation moves without naming it, by its old or its new path. -/
def Op.Moves (l : Listing α) (path : List String) : Op α → Prop
  | .rename source target => ∃ children below, l.get source = some (.dir children) ∧
      (children.file below).isSome ∧ (path = source ++ below ∨ path = target ++ below)
  | _ => False

/-- What an operation may overwrite with a file. -/
def writable : Option (Node α) → Bool
  | none => true
  | some (.leaf (.file _)) => true
  | _ => false

/-- What an operation may remove. -/
def removable : Option (Node α) → Bool
  | some (.leaf _) => true
  | some (.dir .nil) => true
  | _ => false

/-- What a renamed entry may replace. -/
def replaceable : Node α → Option (Node α) → Bool
  | _, none => true
  | .leaf _, some (.leaf _) => true
  | .dir _, some (.dir .nil) => true
  | _, _ => false

namespace Listing

/-- There is a directory that can hold an entry at the path. -/
def holds (l : Listing α) (path : List String) : Bool :=
  !path.isEmpty &&
    match l.get path.dropLast with
    | some (.dir _) => true
    | _ => false

/-- The tree after an operation; `none` when it is refused. -/
def perform (l : Listing α) : Op α → Option (Listing α)
  | .write path content =>
      if l.holds path && writable (l.get path) then some (l.set path (some (.leaf (.file content))))
      else none
  | .mkdir path =>
      if l.holds path && (l.get path).isNone then some (l.set path (some (.dir .nil))) else none
  | .remove path => if l.holds path && removable (l.get path) then some (l.set path none) else none
  | .rename path target =>
      match l.get path with
      | some node =>
          if l.holds path && l.holds target && !path.isPrefixOf target && !target.isPrefixOf path &&
              replaceable node (l.get target) then
            some ((l.set path none).set target (some node))
          else none
      | none => none

theorem holds_iff {l : Listing α} {path : List String} :
    l.holds path = true ↔ path ≠ [] ∧ l.IsDir path.dropLast := by
  unfold holds IsDir
  cases path with
  | nil => simp
  | cons x path =>
      rw [List.isEmpty_cons, Bool.not_false, Bool.true_and]
      constructor
      · intro h
        refine ⟨List.cons_ne_nil x path, ?_⟩
        split at h
        · rename_i children hget
          exact ⟨children, hget⟩
        · cases h
      · rintro ⟨-, children, hget⟩
        rw [hget]

/-- The files of a tree with one entry set, below the entry and elsewhere. -/
theorem file_set {l : Listing α} {path : List String} (h : l.holds path = true) (node : Option (Node α))
    (other : List String) :
    (∃ below, other = path ++ below ∧ (l.set path node).file other = fileBelow node below ∧
      l.file other = fileBelow (l.get path) below) ∨
    (¬ path <+: other ∧ (l.set path node).file other = l.file other) := by
  obtain ⟨hne, hdir⟩ := holds_iff.mp h
  by_cases hbelow : path <+: other
  · obtain ⟨below, rfl⟩ := hbelow
    cases path with
    | nil => exact absurd rfl hne
    | cons x path =>
        exact Or.inl ⟨below, rfl, file_set_append node hdir below, file_append l (x :: path) below⟩
  · exact Or.inr ⟨hbelow, file_set_of_not_prefix node hdir hbelow⟩

/-- Nothing is below a leaf. -/
theorem fileBelow_leaf_cons (e : Leaf α) (x : String) (path : List String) :
    fileBelow (some (.leaf e)) (x :: path) = none := by
  cases e <;> rfl

theorem file_empty (path : List String) : (Listing.nil : Listing α).file path = none := by
  cases path <;> rfl

/-- Only a file can be lost where something is overwritten. -/
theorem fileBelow_of_replaceable {node : Node α} {old : Option (Node α)}
    (h : replaceable node old = true) {below : List String}
    (hbelow : below ≠ [] ∨ ∃ children, node = .dir children) : fileBelow old below = none := by
  cases old with
  | none => rfl
  | some old =>
      cases old with
      | leaf e =>
          rcases hbelow with hne | ⟨children, rfl⟩
          · obtain ⟨x, below, rfl⟩ := List.exists_cons_of_ne_nil hne
            exact fileBelow_leaf_cons e x below
          · cases h
      | dir children =>
          cases children with
          | nil => exact file_empty below
          | leaf name e rest => cases node <;> cases h
          | dir name sub rest => cases node <;> cases h

theorem fileBelow_of_writable {old : Option (Node α)} (h : writable old = true) (x : String)
    (below : List String) : fileBelow old (x :: below) = none := by
  cases old with
  | none => rfl
  | some old =>
      cases old with
      | leaf e => exact fileBelow_leaf_cons e x below
      | dir children => cases h

theorem fileBelow_of_removable {old : Option (Node α)} (h : removable old = true) (x : String)
    (below : List String) : fileBelow old (x :: below) = none := by
  cases old with
  | none => rfl
  | some old =>
      cases old with
      | leaf e => exact fileBelow_leaf_cons e x below
      | dir children =>
          cases children with
          | nil => exact file_empty (x :: below)
          | leaf name e rest => cases h
          | dir name sub rest => cases h

/-! ## What an operation changes -/

section

variable {ok : String → Prop} {l l' : Listing α}

theorem of_perform_rename {source target : List String}
    (h : l.perform (.rename source target) = some l') : ∃ node, l.get source = some node ∧
      (l.holds source = true ∧ l.holds target = true) ∧ (¬ source <+: target ∧ ¬ target <+: source) ∧
      replaceable node (l.get target) = true ∧ l' = (l.set source none).set target (some node) := by
  rw [perform] at h
  split at h
  · rename_i node hnode
    split_ifs at h with hcond
    cases h
    simp only [Bool.and_eq_true, Bool.not_eq_true', ← Bool.not_eq_true,
      List.isPrefixOf_iff_prefix] at hcond
    obtain ⟨⟨⟨hholds, hbelow⟩, habove⟩, hreplace⟩ := hcond
    exact ⟨node, hnode, hholds, ⟨hbelow, habove⟩, hreplace, rfl⟩
  · cases h

/-- The target of a rename can still be held when the source is gone. -/
theorem holds_set {source target : List String} (htarget : l.holds target = true)
    (h : ¬ source <+: target) (node : Option (Node α)) : (l.set source node).holds target = true := by
  obtain ⟨hne, hdir⟩ := holds_iff.mp htarget
  exact holds_iff.mpr ⟨hne, hdir.set node fun hp => h (hp.trans (List.dropLast_prefix target))⟩

/-- What a rename does to a file: it leaves it, names it, or moves it unnamed. -/
theorem file_perform_rename (hl : l.Proper ok Leaf.IsFile) {source target : List String}
    (h : l.perform (.rename source target) = some l') (path : List String) :
    l'.file path = l.file path ∨ (path = target ∧ (l'.file path).isSome) ∨
      (path = source ∧ l'.file path = none) ∨ Op.Moves l path (.rename source target) := by
  obtain ⟨node, hnode, ⟨hsource, htarget⟩, ⟨hbelow, habove⟩, hreplace, rfl⟩ := of_perform_rename h
  rcases file_set (holds_set htarget hbelow none) (some node) path with
    ⟨below, rfl, hafter, hmid⟩ | ⟨hnot, hafter⟩
  · -- below the target: the renamed entry, where there was none or nothing that counts
    have hbefore : l.file (target ++ below) = fileBelow (l.get target) below := file_append l target below
    rw [hafter, hbefore]
    cases node with
    | dir children =>
        rw [fileBelow_of_replaceable hreplace (Or.inr ⟨children, rfl⟩)]
        cases hfile : children.file below with
        | none => exact Or.inl hfile
        | some content =>
            exact Or.inr (Or.inr (Or.inr ⟨children, below, hnode, by rw [hfile]; rfl, Or.inr rfl⟩))
    | leaf e =>
        cases below with
        | cons x below =>
            rw [fileBelow_of_replaceable hreplace (Or.inl (List.cons_ne_nil x below))]
            exact Or.inl (fileBelow_leaf_cons e x below)
        | nil =>
            right
            left
            refine ⟨List.append_nil target, ?_⟩
            have hfile := (hl.of_get hnode).2
            cases e with
            | file content => rfl
            | link _ => cases hfile
            | other => cases hfile
  · rw [hafter]
    rcases file_set hsource none path with ⟨below, rfl, hgone, hbefore⟩ | ⟨-, hsame⟩
    · -- below the source: nothing is left
      rw [hgone, hbefore, hnode]
      cases node with
      | dir children =>
          cases hfile : children.file below with
          | none => exact Or.inl hfile.symm
          | some content =>
              exact Or.inr (Or.inr (Or.inr ⟨children, below, hnode, by rw [hfile]; rfl, Or.inl rfl⟩))
      | leaf e =>
          cases below with
          | cons x below => exact Or.inl (fileBelow_leaf_cons e x below).symm
          | nil => exact Or.inr (Or.inr (Or.inl ⟨List.append_nil source, rfl⟩))
    · exact Or.inl hsame

/-- **What an operation changes**: the files that it names and those that it moves. -/
theorem file_perform (hl : l.Proper ok Leaf.IsFile) {op : Op α} (h : l.perform op = some l')
    (path : List String) :
    l'.file path = l.file path ∨ (path ∈ op.shown ∧ (l'.file path).isSome) ∨
      (path ∈ op.gone ∧ l'.file path = none) ∨ op.Moves l path := by
  cases op with
  | rename source target =>
      rw [Op.shown, Op.gone, List.mem_singleton, List.mem_singleton]
      exact file_perform_rename hl h path
  | write target content =>
      rw [perform] at h
      split_ifs at h with hcond
      cases h
      obtain ⟨hholds, hwritable⟩ := Bool.and_eq_true_iff.mp hcond
      rcases file_set hholds (some (.leaf (.file content))) path with
        ⟨below, rfl, hafter, hbefore⟩ | ⟨-, hsame⟩
      · rw [hafter, hbefore]
        cases below with
        | nil => exact Or.inr (Or.inl ⟨by rw [List.append_nil]; exact List.mem_singleton_self _, rfl⟩)
        | cons x below =>
            left
            rw [fileBelow_leaf_cons, fileBelow_of_writable hwritable]
      · exact Or.inl hsame
  | mkdir target =>
      rw [perform] at h
      split_ifs at h with hcond
      cases h
      obtain ⟨hholds, hnone⟩ := Bool.and_eq_true_iff.mp hcond
      rcases file_set hholds (some (.dir .nil)) path with ⟨below, rfl, hafter, hbefore⟩ | ⟨-, hsame⟩
      · left
        rw [hafter, hbefore, Option.isNone_iff_eq_none.mp hnone]
        exact file_empty below
      · exact Or.inl hsame
  | remove target =>
      rw [perform] at h
      split_ifs at h with hcond
      cases h
      obtain ⟨hholds, hremovable⟩ := Bool.and_eq_true_iff.mp hcond
      rcases file_set hholds none path with ⟨below, rfl, hafter, hbefore⟩ | ⟨-, hsame⟩
      · rw [hafter, hbefore]
        cases below with
        | nil =>
            exact Or.inr (Or.inr (Or.inl ⟨by rw [List.append_nil]; exact List.mem_singleton_self _, rfl⟩))
        | cons x below =>
            left
            rw [fileBelow_of_removable hremovable]
            rfl
      · exact Or.inl hsame

/-- The root itself is never taken away. -/
theorem ne_nil_of_mem_gone {op : Op α} (h : l.perform op = some l') {path : List String}
    (hpath : path ∈ op.gone) : path ≠ [] := by
  cases op with
  | write target content => cases hpath
  | mkdir target => cases hpath
  | remove target =>
      cases List.mem_singleton.mp hpath
      rw [perform] at h
      split_ifs at h with hcond
      exact (holds_iff.mp (Bool.and_eq_true_iff.mp hcond).1).1
  | rename source target =>
      cases List.mem_singleton.mp hpath
      obtain ⟨-, -, ⟨hsource, -⟩, -⟩ := of_perform_rename h
      exact (holds_iff.mp hsource).1

/-- The same for an operation that may be refused. -/
theorem file_getD_perform (hl : l.Proper ok Leaf.IsFile) (op : Op α) (path : List String) :
    ((l.perform op).getD l).file path = l.file path ∨
      ((l.perform op).isSome ∧ path ∈ op.shown ∧ (((l.perform op).getD l).file path).isSome) ∨
      ((l.perform op).isSome ∧ path ∈ op.gone ∧ path ≠ []) ∨ op.Moves l path := by
  cases hop : l.perform op with
  | none => exact Or.inl rfl
  | some l' =>
      rcases file_perform hl hop path with hsame | ⟨hshown, hsome⟩ | ⟨hgone, -⟩ | hmoved
      · exact Or.inl hsame
      · exact Or.inr (Or.inl ⟨rfl, hshown, hsome⟩)
      · exact Or.inr (Or.inr (Or.inl ⟨rfl, hgone, ne_nil_of_mem_gone hop hgone⟩))
      · exact Or.inr (Or.inr (Or.inr hmoved))

/-- Operations under allowed names keep a tree proper. -/
theorem Proper.perform (hl : l.Proper ok Leaf.IsFile) {op : Op α} (h : l.perform op = some l')
    (hop : ∀ path ∈ op.named, ∀ n ∈ path, ok n) : l'.Proper ok Leaf.IsFile := by
  cases op with
  | write target content =>
      rw [Listing.perform] at h
      split_ifs at h
      cases h
      apply hl.set (hop target List.mem_cons_self)
      rintro n heq
      cases heq
      exact trivial
  | mkdir target =>
      rw [Listing.perform] at h
      split_ifs at h
      cases h
      apply hl.set (hop target List.mem_cons_self)
      rintro n heq
      cases heq
      exact trivial
  | remove target =>
      rw [Listing.perform] at h
      split_ifs at h with hcond
      cases h
      obtain ⟨-, hremovable⟩ := Bool.and_eq_true_iff.mp hcond
      cases hget : l.get target with
      | none =>
          rw [hget] at hremovable
          cases hremovable
      | some node => exact hl.set (hl.of_get hget).1 (fun n heq => nomatch heq)
  | rename source target =>
      obtain ⟨node, hnode, -, -, -, rfl⟩ := of_perform_rename h
      have hgone : (l.set source none).Proper ok Leaf.IsFile :=
        hl.set (hl.of_get hnode).1 (fun n heq => nomatch heq)
      apply hgone.set (hop target List.mem_cons_self)
      rintro n heq
      cases heq
      exact (hl.of_get hnode).2

end

end Listing

end DirTree

end DiskArcana.Lib
