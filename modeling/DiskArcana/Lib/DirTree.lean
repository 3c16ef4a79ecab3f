import Mathlib.Data.List.Basic

/-!
# Directory trees

A directory as the list of its entries in the order in which they are read, over any type of file
contents. An entry is a leaf (a file, a symbolic link, anything else) or a directory with a listing of
its own.

* `get` follows names down from a directory and crosses no link; `file` is its restriction to files;
* `lstat` is what the operating system does with a path: links on the way are followed, a link at the
  end is not. It agrees with `get` where `get` finds something (`lstat_of_get`), or where there is no
  link (`Proper.lstat_eq_none`), and what it finds is at the location that it reports (`get_of_lstat`);
* `set` replaces, adds or removes one entry; `file_set_append` and `file_set_of_not_prefix` say which files
  there are then;
* `ofFiles` makes the tree of a list of files (`mem_of_file_ofFiles`, `proper_ofFiles`).
-/

namespace DiskArcana.Lib

namespace DirTree

variable {α : Type}

/-- An entry without entries of its own. The target of a link is a location below the root; a link that
leads elsewhere is an `other`. -/
inductive Leaf (α : Type) where
  | file (content : α)
  | link (target : List String)
  | other

/-- A regular file. -/
def Leaf.IsFile : Leaf α → Prop
  | .file _ => True
  | _ => False

/-- The entries of a directory. -/
inductive Listing (α : Type) where
  | nil
  | leaf (name : String) (leaf : Leaf α) (rest : Listing α)
  | dir (name : String) (children rest : Listing α)

/-- What a path can lead to. -/
inductive Node (α : Type) where
  | leaf (leaf : Leaf α)
  | dir (children : Listing α)

namespace Listing

/-- The names in a directory. -/
def names : Listing α → List String
  | .nil => []
  | .leaf name _ rest => name :: rest.names
  | .dir name _ rest => name :: rest.names

/-- The entry of a name. -/
def find : Listing α → String → Option (Node α)
  | .nil, _ => none
  | .leaf name e rest, x => if name = x then some (.leaf e) else rest.find x
  | .dir name children rest, x => if name = x then some (.dir children) else rest.find x

/-- What is at a path, without following links. -/
def get : Listing α → List String → Option (Node α)
  | l, [] => some (.dir l)
  | l, x :: path =>
      match l.find x with
      | some (.dir children) => children.get path
      | some (.leaf e) => if path = [] then some (.leaf e) else none
      | none => none

/-- The content of the file at a path. -/
def file (l : Listing α) (path : List String) : Option α :=
  match l.get path with
  | some (.leaf (.file content)) => some content
  | _ => none

/-- There is a directory at a path. -/
def IsDir (l : Listing α) (path : List String) : Prop := ∃ children, l.get path = some (.dir children)

/-- Every name and every leaf is allowed, and no directory has two entries of one name. -/
def Proper (ok : String → Prop) (leafOk : Leaf α → Prop) : Listing α → Prop
  | .nil => True
  | .leaf name e rest => ok name ∧ leafOk e ∧ name ∉ rest.names ∧ rest.Proper ok leafOk
  | .dir name children rest =>
      ok name ∧ children.Proper ok leafOk ∧ name ∉ rest.names ∧ rest.Proper ok leafOk

/-- The same for what is at one path. -/
def ProperNode (ok : String → Prop) (leafOk : Leaf α → Prop) : Node α → Prop
  | .leaf e => leafOk e
  | .dir children => children.Proper ok leafOk

/-! ## Reading -/

@[simp] theorem get_nil (l : Listing α) : l.get [] = some (.dir l) := rfl

theorem get_singleton (l : Listing α) (x : String) : l.get [x] = l.find x := by
  unfold get
  cases l.find x with
  | none => rfl
  | some node => cases node <;> rfl

theorem get_cons_of_dir {l children : Listing α} {x : String} (h : l.find x = some (.dir children))
    (path : List String) : l.get (x :: path) = children.get path := by
  rw [get, h]

theorem get_cons_of_none {l : Listing α} {x : String} (h : l.find x = none) (path : List String) :
    l.get (x :: path) = none := by
  rw [get, h]

/-- The first step on the way to an entry. -/
theorem of_get_cons {l : Listing α} {x : String} {path : List String} {node : Node α}
    (h : l.get (x :: path) = some node) :
    (∃ children, l.find x = some (.dir children) ∧ children.get path = some node) ∨
      ∃ e, l.find x = some (.leaf e) ∧ path = [] ∧ node = .leaf e := by
  rw [get] at h
  split at h
  · rename_i children hfind
    exact Or.inl ⟨children, hfind, h⟩
  · rename_i e hfind
    split_ifs at h with hpath
    cases h
    exact Or.inr ⟨e, hfind, hpath, rfl⟩
  · cases h

/-- What is not found has no name here. -/
theorem find_eq_none_iff {l : Listing α} {x : String} : l.find x = none ↔ x ∉ l.names := by
  induction l with
  | nil => simp [find, names]
  | leaf name e rest ih =>
      by_cases h : name = x
      · simp [find, names, h]
      · simp [find, names, h, ih, Ne.symm h]
  | dir name children rest _ ih =>
      by_cases h : name = x
      · simp [find, names, h]
      · simp [find, names, h, ih, Ne.symm h]

theorem file_eq_some_iff {l : Listing α} {path : List String} {content : α} :
    l.file path = some content ↔ l.get path = some (.leaf (.file content)) := by
  unfold file
  split
  · rename_i c h
    rw [h]
    simp
  · rename_i h
    constructor
    · intro hnone
      cases hnone
    · intro hget
      exact absurd hget (h content)

@[simp] theorem file_nil (l : Listing α) : l.file [] = none := rfl

/-- The file at a path below an entry that may be missing. -/
def fileBelow : Option (Node α) → List String → Option α
  | some (.leaf (.file content)), [] => some content
  | some (.dir children), path => children.file path
  | _, _ => none

/-- The files below one entry of a directory. -/
theorem file_cons (l : Listing α) (x : String) (path : List String) :
    l.file (x :: path) = fileBelow (l.find x) path := by
  unfold file
  rw [get]
  cases l.find x with
  | none => rfl
  | some n =>
      cases n with
      | dir children => rfl
      | leaf e =>
          cases path with
          | nil => cases e <;> rfl
          | cons y path => cases e <;> rfl

/-- The files below what is at a path. -/
theorem file_append (l : Listing α) (path below : List String) :
    l.file (path ++ below) = fileBelow (l.get path) below := by
  induction path generalizing l with
  | nil => rfl
  | cons x path ih =>
      rw [List.cons_append, file_cons]
      cases hfind : l.find x with
      | none =>
          rw [get_cons_of_none hfind]
          rfl
      | some entry =>
          cases entry with
          | dir children =>
              rw [get_cons_of_dir hfind]
              exact ih children
          | leaf e =>
              rw [get, hfind]
              dsimp only
              split_ifs with hpath
              · rw [hpath]
                rfl
              · cases path with
                | nil => exact absurd rfl hpath
                | cons y path => cases e <;> rfl

/-- The files of a directory with a leaf in front. -/
theorem file_leaf_iff {name : String} {e : Leaf α} {rest : Listing α} (hnew : name ∉ rest.names)
    {path : List String} {content : α} :
    (Listing.leaf name e rest).file path = some content ↔
      (path = [name] ∧ e = .file content) ∨ rest.file path = some content := by
  cases path with
  | nil => simp
  | cons x path =>
      rw [file_cons, file_cons, find]
      by_cases hx : name = x
      · subst hx
        rw [if_pos rfl, find_eq_none_iff.mpr hnew]
        cases path with
        | nil => cases e <;> simp [fileBelow]
        | cons y path => cases e <;> simp [fileBelow]
      · rw [if_neg hx]
        simp [Ne.symm hx]

/-- The files of a directory with a directory in front. -/
theorem file_dir_iff {name : String} {children rest : Listing α} (hnew : name ∉ rest.names)
    {path : List String} {content : α} :
    (Listing.dir name children rest).file path = some content ↔
      (∃ below, path = name :: below ∧ children.file below = some content) ∨
        rest.file path = some content := by
  cases path with
  | nil => simp
  | cons x path =>
      rw [file_cons, file_cons, find]
      by_cases hx : name = x
      · subst hx
        rw [if_pos rfl, find_eq_none_iff.mpr hnew]
        simp [fileBelow]
      · rw [if_neg hx]
        simp [Ne.symm hx]

/-! ## Links -/

/-- Go down from a directory at a known location; `hop` continues behind a link. -/
def descend (hop : List String → Option (List String × Node α)) :
    List String → Listing α → List String → Option (List String × Node α)
  | loc, l, [] => some (loc, .dir l)
  | loc, l, x :: path =>
      match l.find x with
      | some (.dir children) => descend hop (loc ++ [x]) children path
      | some (.leaf e) =>
          if path = [] then some (loc ++ [x], .leaf e)
          else match e with
            | .link target => hop (target ++ path)
            | _ => none
      | none => none

/-- What the system finds at a path, and where: at most `hops` links are followed. -/
def lstat (root : Listing α) : ℕ → List String → Option (List String × Node α)
  | 0, path => descend (fun _ => none) [] root path
  | hops + 1, path => descend (root.lstat hops) [] root path

theorem descend_of_get {hop : List String → Option (List String × Node α)} {l : Listing α}
    {path : List String} {node : Node α} (loc : List String) (h : l.get path = some node) :
    descend hop loc l path = some (loc ++ path, node) := by
  induction path generalizing l loc with
  | nil =>
      cases h
      simp [descend]
  | cons x path ih =>
      rw [descend]
      rcases of_get_cons h with ⟨children, hfind, hget⟩ | ⟨e, hfind, rfl, rfl⟩
      · rw [hfind]
        dsimp only
        rw [ih (loc ++ [x]) hget, List.append_assoc]
        rfl
      · rw [hfind]
        rfl

/-- A path that meets no link leads where its names lead. -/
theorem lstat_of_get {root : Listing α} {path : List String} {node : Node α} (hops : ℕ)
    (h : root.get path = some node) : root.lstat hops path = some (path, node) := by
  cases hops with
  | zero => exact descend_of_get [] h
  | succ hops => exact descend_of_get [] h

/-- Names can be followed in two parts. -/
theorem get_append {l children : Listing α} {dir : List String} (path : List String)
    (h : l.get dir = some (.dir children)) : l.get (dir ++ path) = children.get path := by
  induction dir generalizing l with
  | nil =>
      cases h
      rfl
  | cons x dir ih =>
      rcases of_get_cons h with ⟨below, hfind, hget⟩ | ⟨e, -, -, hleaf⟩
      · rw [List.cons_append, get_cons_of_dir hfind]
        exact ih hget
      · cases hleaf

theorem get_of_descend {root : Listing α} {hop : List String → Option (List String × Node α)}
    (hhop : ∀ path loc node, hop path = some (loc, node) → root.get loc = some node)
    {start : List String} {l : Listing α} (hstart : root.get start = some (.dir l))
    {path loc : List String} {node : Node α} (h : descend hop start l path = some (loc, node)) :
    root.get loc = some node := by
  induction path generalizing l start with
  | nil =>
      cases h
      exact hstart
  | cons x path ih =>
      rw [descend] at h
      have hentry : root.get (start ++ [x]) = l.find x := by
        rw [get_append [x] hstart, get_singleton]
      cases hfind : l.find x with
      | none =>
          rw [hfind] at h
          cases h
      | some entry =>
          rw [hfind] at h hentry
          cases entry with
          | dir children => exact ih hentry h
          | leaf e =>
              dsimp only at h
              split_ifs at h
              · cases h
                exact hentry
              · cases e with
                | link target => exact hhop _ _ _ h
                | file content => cases h
                | other => cases h

/-- What the system finds is at the location that it reports, with no link on the way. -/
theorem get_of_lstat {root : Listing α} {hops : ℕ} {path loc : List String} {node : Node α}
    (h : root.lstat hops path = some (loc, node)) : root.get loc = some node := by
  induction hops generalizing path loc node with
  | zero =>
      apply get_of_descend _ (get_nil root) h
      intro path loc node hnone
      cases hnone
  | succ hops ih => exact get_of_descend (fun _ _ _ hhop => ih hhop) (get_nil root) h

/-! ## Editing -/

/-- The directory without a name. -/
def remove : Listing α → String → Listing α
  | .nil, _ => .nil
  | .leaf name e rest, x => if name = x then rest.remove x else .leaf name e (rest.remove x)
  | .dir name children rest, x =>
      if name = x then rest.remove x else .dir name children (rest.remove x)

/-- The directory with one entry replaced, added or removed. -/
def put (l : Listing α) (x : String) : Option (Node α) → Listing α
  | none => l.remove x
  | some (.leaf e) => .leaf x e (l.remove x)
  | some (.dir children) => .dir x children (l.remove x)

/-- The tree with the entry at a path replaced, added or removed; nothing changes when there is no
directory to hold it. -/
def set (l : Listing α) : List String → Option (Node α) → Listing α
  | [], _ => l
  | [x], node => l.put x node
  | x :: y :: path, node =>
      match l.find x with
      | some (.dir children) => l.put x (some (.dir (children.set (y :: path) node)))
      | _ => l

/-- What is found after a name is removed, -/
theorem find_remove (l : Listing α) (x y : String) :
    (l.remove x).find y = if y = x then none else l.find y := by
  -- the entry in front, a leaf or a directory, is dropped when it has the name
  have hfront : ∀ (name : String) (node : Node α) (rest : Listing α),
      (rest.remove x).find y = (if y = x then none else rest.find y) →
      (if name = x then (rest.remove x).find y
        else if name = y then some node else (rest.remove x).find y) =
        if y = x then none else if name = y then some node else rest.find y := by
    intro name node rest ih
    rw [ih]
    by_cases hy : y = x
    · subst hy
      by_cases hx : name = y
      · simp [hx]
      · simp [hx]
    · by_cases hx : name = x
      · simp [hx, hy, Ne.symm hy]
      · simp [hx, hy]
  induction l with
  | nil => simp [remove, find]
  | leaf name e rest ih =>
      rw [remove, apply_ite (fun l : Listing α => l.find y)]
      exact hfront name (.leaf e) rest ih
  | dir name children rest _ ih =>
      rw [remove, apply_ite (fun l : Listing α => l.find y)]
      exact hfront name (.dir children) rest ih

/-- and after one is put. -/
theorem find_put (l : Listing α) (x y : String) (node : Option (Node α)) :
    (l.put x node).find y = if y = x then node else l.find y := by
  have hfront : ∀ n : Node α, (if x = y then some n else (l.remove x).find y) =
      if y = x then some n else l.find y := by
    intro n
    by_cases h : x = y
    · rw [if_pos h, if_pos h.symm]
    · rw [if_neg h, if_neg (Ne.symm h), find_remove, if_neg (Ne.symm h)]
  cases node with
  | none => exact find_remove l x y
  | some n =>
      cases n with
      | leaf e => exact hfront (.leaf e)
      | dir children => exact hfront (.dir children)

theorem file_put_of_ne (l : Listing α) {x y : String} (h : y ≠ x) (node : Option (Node α))
    (path : List String) : (l.put x node).file (y :: path) = l.file (y :: path) := by
  rw [file_cons, file_cons, find_put, if_neg h]

theorem file_put_self (l : Listing α) (x : String) (node : Option (Node α)) (path : List String) :
    (l.put x node).file (x :: path) = fileBelow node path := by
  rw [file_cons, find_put, if_pos rfl]

/-- The files below the entry that was set. -/
theorem file_set_append {l : Listing α} {x : String} {path : List String} (node : Option (Node α))
    (hdir : l.IsDir (x :: path).dropLast) (below : List String) :
    (l.set (x :: path) node).file (x :: path ++ below) = fileBelow node below := by
  induction path generalizing l x with
  | nil => exact file_put_self l x node below
  | cons y path ih =>
      obtain ⟨children, hchildren⟩ := hdir
      rw [List.dropLast_cons_cons] at hchildren
      rcases of_get_cons hchildren with ⟨sub, hfind, hget⟩ | ⟨e, -, -, hleaf⟩
      · rw [set, hfind]
        dsimp only
        rw [List.cons_append, file_put_self]
        exact ih ⟨children, hget⟩
      · cases hleaf

/-- The other files stay. -/
theorem file_set_of_not_prefix {l : Listing α} {path : List String} (node : Option (Node α))
    {other : List String} (hdir : l.IsDir path.dropLast) (h : ¬ path <+: other) :
    (l.set path node).file other = l.file other := by
  induction path generalizing l other with
  | nil => exact absurd List.nil_prefix h
  | cons x path ih =>
      cases other with
      | nil => rfl
      | cons z other =>
          by_cases hz : z = x
          · subst hz
            have hbelow : ¬ path <+: other := fun hp => h (List.cons_prefix_cons.mpr ⟨rfl, hp⟩)
            cases path with
            | nil => exact absurd List.nil_prefix hbelow
            | cons y path =>
                obtain ⟨children, hchildren⟩ := hdir
                rw [List.dropLast_cons_cons] at hchildren
                rcases of_get_cons hchildren with ⟨sub, hfind, hget⟩ | ⟨e, -, -, hleaf⟩
                · rw [set, hfind]
                  dsimp only
                  rw [file_put_self, file_cons, hfind]
                  exact ih ⟨children, hget⟩ hbelow
                · cases hleaf
          · cases path with
            | nil => exact file_put_of_ne l hz node other
            | cons y path =>
                rw [set]
                split
                · exact file_put_of_ne l hz _ other
                · rfl

/-- A directory that is not replaced is still one. -/
theorem IsDir.set {l : Listing α} {other : List String} (hother : l.IsDir other) {path : List String}
    (node : Option (Node α)) (h : ¬ path <+: other) : (l.set path node).IsDir other := by
  induction path generalizing l other with
  | nil => exact absurd List.nil_prefix h
  | cons x path ih =>
      cases other with
      | nil => exact ⟨_, get_nil _⟩
      | cons z other =>
          obtain ⟨children, hchildren⟩ := hother
          by_cases hz : z = x
          · subst hz
            have hbelow : ¬ path <+: other := fun hp => h (List.cons_prefix_cons.mpr ⟨rfl, hp⟩)
            cases path with
            | nil => exact absurd List.nil_prefix hbelow
            | cons y path =>
                rcases of_get_cons hchildren with ⟨sub, hfind, hget⟩ | ⟨e, -, -, hleaf⟩
                · obtain ⟨below, hbelow⟩ := ih ⟨children, hget⟩ hbelow
                  refine ⟨below, ?_⟩
                  rw [Listing.set, hfind]
                  dsimp only
                  rw [get_cons_of_dir (by rw [find_put, if_pos rfl])]
                  exact hbelow
                · cases hleaf
          · have hsame : ∀ n, (l.put x n).get (z :: other) = l.get (z :: other) := by
              intro n
              rw [get, get, find_put, if_neg hz]
            refine ⟨children, ?_⟩
            rw [← hchildren]
            cases path with
            | nil => exact hsame node
            | cons y path =>
                rw [Listing.set]
                split
                · exact hsame _
                · rfl

/-! ## Proper trees -/

section

variable {ok : String → Prop} {leafOk : Leaf α → Prop} {l : Listing α}

theorem Proper.mono {leafOk' : Leaf α → Prop} (h : l.Proper ok leafOk)
    (hleaf : ∀ e, leafOk e → leafOk' e) : l.Proper ok leafOk' := by
  induction l with
  | nil => exact trivial
  | leaf name e rest ih =>
      obtain ⟨hname, he, hnew, hrest⟩ := h
      exact ⟨hname, hleaf e he, hnew, ih hrest⟩
  | dir name children rest ihBelow ihRest =>
      obtain ⟨hname, hchildren, hnew, hrest⟩ := h
      exact ⟨hname, ihBelow hchildren, hnew, ihRest hrest⟩

/-- The entry of a name in a proper directory. -/
theorem Proper.of_find (h : l.Proper ok leafOk) {x : String} {node : Node α}
    (hfind : l.find x = some node) : ok x ∧ ProperNode ok leafOk node := by
  induction l with
  | nil => cases hfind
  | leaf name e rest ih =>
      obtain ⟨hname, he, -, hrest⟩ := h
      rw [find] at hfind
      split_ifs at hfind with hx
      · cases hfind
        exact ⟨hx ▸ hname, he⟩
      · exact ih hrest hfind
  | dir name children rest _ ih =>
      obtain ⟨hname, hchildren, -, hrest⟩ := h
      rw [find] at hfind
      split_ifs at hfind with hx
      · cases hfind
        exact ⟨hx ▸ hname, hchildren⟩
      · exact ih hrest hfind

/-- The names on the way to an entry of a proper tree are allowed. -/
theorem Proper.of_get (h : l.Proper ok leafOk) {path : List String} {node : Node α}
    (hget : l.get path = some node) : (∀ n ∈ path, ok n) ∧ ProperNode ok leafOk node := by
  induction path generalizing l with
  | nil =>
      cases hget
      exact ⟨nofun, h⟩
  | cons x path ih =>
      rcases of_get_cons hget with ⟨children, hfind, hget⟩ | ⟨e, hfind, rfl, rfl⟩
      · obtain ⟨hx, hchildren⟩ := h.of_find hfind
        obtain ⟨hpath, hnode⟩ := ih hchildren hget
        exact ⟨List.forall_mem_cons.mpr ⟨hx, hpath⟩, hnode⟩
      · obtain ⟨hx, he⟩ := h.of_find hfind
        exact ⟨List.forall_mem_singleton.mpr hx, he⟩

/-- Where no leaf is a link, the system finds no more than the names lead to. -/
theorem Proper.descend_eq_none (h : l.Proper ok leafOk) (hlink : ∀ target, ¬ leafOk (.link target))
    {hop : List String → Option (List String × Node α)} (loc : List String) {path : List String}
    (hget : l.get path = none) : descend hop loc l path = none := by
  induction path generalizing l loc with
  | nil => cases hget
  | cons x path ih =>
      rw [descend]
      cases hfind : l.find x with
      | none => rfl
      | some entry =>
          have hentry := (h.of_find hfind).2
          cases entry with
          | dir children =>
              rw [get_cons_of_dir hfind] at hget
              exact ih hentry (loc ++ [x]) hget
          | leaf e =>
              rw [get, hfind] at hget
              dsimp only at hget ⊢
              split_ifs at hget with hpath
              rw [if_neg hpath]
              cases e with
              | link target => exact absurd hentry (hlink target)
              | file content => rfl
              | other => rfl

theorem Proper.lstat_eq_none (h : l.Proper ok leafOk) (hlink : ∀ target, ¬ leafOk (.link target))
    (hops : ℕ) {path : List String} (hget : l.get path = none) : l.lstat hops path = none := by
  cases hops with
  | zero => exact h.descend_eq_none hlink [] hget
  | succ hops => exact h.descend_eq_none hlink [] hget

theorem notMem_names_remove (l : Listing α) (x y : String) :
    y ∉ (l.remove x).names ↔ y = x ∨ y ∉ l.names := by
  rw [← find_eq_none_iff, ← find_eq_none_iff, find_remove]
  split_ifs with h
  · simp [h]
  · simp [h]

theorem Proper.remove (h : l.Proper ok leafOk) (x : String) : (l.remove x).Proper ok leafOk := by
  induction l with
  | nil => exact trivial
  | leaf name e rest ih =>
      obtain ⟨hname, he, hnew, hrest⟩ := h
      rw [Listing.remove]
      split_ifs
      · exact ih hrest
      · exact ⟨hname, he, (notMem_names_remove rest x name).mpr (Or.inr hnew), ih hrest⟩
  | dir name children rest _ ih =>
      obtain ⟨hname, hchildren, hnew, hrest⟩ := h
      rw [Listing.remove]
      split_ifs
      · exact ih hrest
      · exact ⟨hname, hchildren, (notMem_names_remove rest x name).mpr (Or.inr hnew), ih hrest⟩

theorem Proper.put (h : l.Proper ok leafOk) {x : String} (hx : ok x) {node : Option (Node α)}
    (hnode : ∀ n, node = some n → ProperNode ok leafOk n) : (l.put x node).Proper ok leafOk := by
  have hnew : x ∉ (l.remove x).names := (notMem_names_remove l x x).mpr (Or.inl rfl)
  cases node with
  | none => exact h.remove x
  | some n =>
      cases n with
      | leaf e => exact ⟨hx, hnode _ rfl, hnew, h.remove x⟩
      | dir children => exact ⟨hx, hnode _ rfl, hnew, h.remove x⟩

/-- Setting an entry under allowed names keeps a tree proper. -/
theorem Proper.set (h : l.Proper ok leafOk) {path : List String} (hpath : ∀ n ∈ path, ok n)
    {node : Option (Node α)} (hnode : ∀ n, node = some n → ProperNode ok leafOk n) :
    (l.set path node).Proper ok leafOk := by
  induction path generalizing l with
  | nil => exact h
  | cons x path ih =>
      have hx := hpath x List.mem_cons_self
      cases path with
      | nil => exact h.put hx hnode
      | cons y path =>
          rw [Listing.set]
          split
          · rename_i children hfind
            apply h.put hx
            rintro n heq
            cases heq
            exact ih (h.of_find hfind).2 fun n hn => hpath n (List.mem_cons_of_mem _ hn)
          · exact h

end

/-! ## The tree of a list of files -/

/-- The entries of a subdirectory. -/
def subdir (l : Listing α) (x : String) : Listing α :=
  match l.find x with
  | some (.dir children) => children
  | _ => .nil

/-- The tree with a file at a path and the directories that lead to it. -/
def addFile : Listing α → List String → α → Listing α
  | l, [], _ => l
  | l, [x], content => l.put x (some (.leaf (.file content)))
  | l, x :: y :: path, content => l.put x (some (.dir ((l.subdir x).addFile (y :: path) content)))

/-- The tree of the files at given paths. -/
def ofFiles (files : List (List String × α)) : Listing α :=
  files.foldr (fun e l => l.addFile e.1 e.2) .nil

theorem file_subdir (l : Listing α) (x : String) (path : List String) :
    (l.subdir x).file path = fileBelow (l.find x) path ∨ (l.subdir x).file path = none := by
  unfold subdir
  split
  · rename_i children hfind
    rw [hfind]
    exact Or.inl rfl
  · right
    cases path <;> rfl

/-- A file of the tree is the one that was added, or was there before. -/
theorem of_file_addFile {l : Listing α} {path other : List String} {content c : α}
    (h : (l.addFile path content).file other = some c) :
    (other = path ∧ c = content) ∨ l.file other = some c := by
  induction path generalizing l other with
  | nil => exact Or.inr h
  | cons x path ih =>
      cases other with
      | nil => cases h
      | cons z other =>
          by_cases hz : z = x
          · subst hz
            cases path with
            | nil =>
                rw [addFile, file_put_self] at h
                cases other with
                | nil =>
                    cases h
                    exact Or.inl ⟨rfl, rfl⟩
                | cons y other => cases h
            | cons y path =>
                rw [addFile, file_put_self] at h
                rcases ih h with ⟨rfl, rfl⟩ | hold
                · exact Or.inl ⟨rfl, rfl⟩
                · right
                  rcases file_subdir l z other with heq | hnone
                  · rw [file_cons, ← heq]
                    exact hold
                  · rw [hnone] at hold
                    cases hold
          · right
            cases path with
            | nil => rwa [addFile, file_put_of_ne l hz] at h
            | cons y path => rwa [addFile, file_put_of_ne l hz] at h

/-- The files of the tree of a list are on the list. -/
theorem mem_of_file_ofFiles {files : List (List String × α)} {path : List String} {c : α}
    (h : (ofFiles files).file path = some c) : (path, c) ∈ files := by
  induction files with
  | nil => cases path <;> cases h
  | cons e files ih =>
      rcases of_file_addFile h with ⟨rfl, rfl⟩ | hold
      · exact List.mem_cons_self
      · exact List.mem_cons_of_mem _ (ih hold)

theorem Proper.addFile {ok : String → Prop} {leafOk : Leaf α → Prop} {l : Listing α}
    (h : l.Proper ok leafOk) {path : List String} (hpath : ∀ n ∈ path, ok n) {content : α}
    (hleaf : leafOk (.file content)) : (l.addFile path content).Proper ok leafOk := by
  induction path generalizing l with
  | nil => exact h
  | cons x path ih =>
      have hx := hpath x List.mem_cons_self
      cases path with
      | nil =>
          rw [Listing.addFile]
          apply h.put hx
          rintro n heq
          cases heq
          exact hleaf
      | cons y path =>
          rw [Listing.addFile]
          apply h.put hx
          rintro n heq
          cases heq
          refine ih ?_ fun n hn => hpath n (List.mem_cons_of_mem _ hn)
          unfold subdir
          split
          · rename_i children hfind
            exact (h.of_find hfind).2
          · exact trivial

/-- A tree of files has no links, and no name twice. -/
theorem proper_ofFiles (files : List (List String × α)) :
    (ofFiles files).Proper (fun _ => True) Leaf.IsFile := by
  induction files with
  | nil => exact trivial
  | cons e files ih => exact ih.addFile (fun _ _ => trivial) trivial

end Listing

end DirTree

end DiskArcana.Lib
