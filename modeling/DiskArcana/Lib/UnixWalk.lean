import DiskArcana.Lib.UnixFs

/-!
# Where paths lead in a file system with links

In a file system where every entry stands in a directory (`Upright`), what a path leads to is a
place: a directory, or a name in a directory that is no link (`place_of_locate`). A place is reached
again by the names of its location, without crossing a link (`locate_absolute_append`), and a path
that has led to a directory goes on from there (`locate_append`).
-/

namespace DiskArcana.Lib.UnixFs.FileSystem

variable {α : Type}

/-- A segment that names an entry of a directory. -/
def IsEntryName (segment : String) : Prop :=
  segment ≠ "/" ∧ segment ≠ "" ∧ segment ≠ "." ∧ segment ≠ ".."

instance (segment : String) : Decidable (IsEntryName segment) := inferInstanceAs (Decidable (_ ∧ _))

/-- Every entry has a name and stands in a directory, and the root is one. -/
structure Upright (fs : FileSystem α) : Prop where
  root : ∀ node, fs.lookup [] = some node → node = .dir
  parent : ∀ dir name, fs.lookup (dir ++ [name]) ≠ none → isDir fs dir = true
  names : ∀ loc, fs.lookup loc ≠ none → ∀ name ∈ loc, IsEntryName name

/-- A directory, or a name in a directory that is no link. -/
def Place (fs : FileSystem α) (loc : Location) : Prop :=
  isDir fs loc = true ∨ ∃ dir name, loc = dir ++ [name] ∧ isDir fs dir = true ∧ IsEntryName name ∧
    ∀ target, fs.lookup loc ≠ some (.link target)

variable {fs : FileSystem α} {links : ℕ} {cur loc dir : Location} {path rest : List String}
  {name segment : String} {follow : Location → List String → Option Location}

theorem isDir_iff_of_ne_nil (h : loc ≠ []) : isDir fs loc = true ↔ fs.lookup loc = some .dir := by
  rcases loc with _ | ⟨name, rest⟩
  · exact absurd rfl h
  · unfold isDir
    rcases fs.lookup (name :: rest) with _ | _ | _ | _ <;> simp

theorem isDir_concat_iff : isDir fs (dir ++ [name]) = true ↔ fs.lookup (dir ++ [name]) = some .dir :=
  isDir_iff_of_ne_nil (by simp)

theorem Upright.isDir_of_isDir_append (h : Upright fs) (below : List String) :
    isDir fs (dir ++ below) = true → isDir fs dir = true := by
  induction below using List.reverseRecOn with
  | nil => simp
  | append_singleton below name ih =>
      intro hdir
      apply ih
      apply h.parent (dir ++ below) name
      rw [List.append_assoc, (isDir_iff_of_ne_nil (by simp)).mp hdir]
      simp

theorem Upright.isDir_dropLast (h : Upright fs) (hdir : isDir fs dir = true) :
    isDir fs dir.dropLast = true := by
  rcases List.eq_nil_or_concat' dir with rfl | ⟨above, name, rfl⟩
  · exact hdir
  · rw [List.dropLast_concat]
    exact h.isDir_of_isDir_append [name] hdir

/-- Whether every entry has a name and stands in a directory, entry by entry. -/
theorem upright_of_entries (h : ∀ e ∈ fs.entries,
    e.1 ≠ [] ∧ isDir fs e.1.dropLast = true ∧ ∀ name ∈ e.1, IsEntryName name) : Upright fs := by
  have hentry : ∀ loc, fs.lookup loc ≠ none →
      loc ≠ [] ∧ isDir fs loc.dropLast = true ∧ ∀ name ∈ loc, IsEntryName name := by
    intro loc hloc
    obtain ⟨node, hnode⟩ := Option.ne_none_iff_exists'.mp hloc
    exact h ⟨loc, node⟩ (Table.mem_entries_iff.mpr hnode)
  refine ⟨?_, ?_, fun loc hloc => (hentry loc hloc).2.2⟩
  · intro node hroot
    exact absurd rfl (hentry [] (by simp [hroot])).1
  · intro dir name hthere
    have hdir := (hentry _ hthere).2.1
    rwa [List.dropLast_concat] at hdir

/-! ## One segment -/

theorem walk_root : walk fs follow cur ("/" :: rest) = walk fs follow [] rest := by
  rw [walk, if_pos rfl]

theorem walk_stay (hdir : isDir fs cur = true) (hstay : segment = "" ∨ segment = ".") :
    walk fs follow cur (segment :: rest) = walk fs follow cur rest := by
  have hroot : segment ≠ "/" := by
    rcases hstay with rfl | rfl <;> decide
  rw [walk, if_neg hroot, hdir]
  simp [hstay]

theorem walk_of_not_isDir (hdir : isDir fs cur = false) (hroot : segment ≠ "/") :
    walk fs follow cur (segment :: rest) = none := by
  rw [walk, if_neg hroot, hdir]
  simp

theorem walk_missing (hdir : isDir fs cur = true) (hname : IsEntryName name)
    (hnode : fs.lookup (cur ++ [name]) = none) :
    walk fs follow cur (name :: rest) = if rest = [] then some (cur ++ [name]) else none := by
  obtain ⟨hroot, hempty, hdot, hup⟩ := hname
  rw [walk, if_neg hroot, hdir]
  simp only [hempty, hdot, hup, or_self, Bool.not_true, Bool.false_eq_true, if_false, hnode]

theorem walk_link {target : List String} (hdir : isDir fs cur = true) (hname : IsEntryName name)
    (hnode : fs.lookup (cur ++ [name]) = some (.link target)) :
    walk fs follow cur (name :: rest) = follow cur (target ++ rest) := by
  obtain ⟨hroot, hempty, hdot, hup⟩ := hname
  rw [walk, if_neg hroot, hdir]
  simp only [hempty, hdot, hup, or_self, Bool.not_true, Bool.false_eq_true, if_false, hnode]

theorem walk_into {node : Node α} (hdir : isDir fs cur = true) (hname : IsEntryName name)
    (hnode : fs.lookup (cur ++ [name]) = some node) (hlink : ∀ target, node ≠ .link target) :
    walk fs follow cur (name :: rest) = walk fs follow (cur ++ [name]) rest := by
  obtain ⟨hroot, hempty, hdot, hup⟩ := hname
  rw [walk, if_neg hroot, hdir]
  simp only [hempty, hdot, hup, or_self, Bool.not_true, Bool.false_eq_true, if_false, hnode]

theorem walk_up (hdir : isDir fs cur = true) :
    walk fs follow cur (".." :: rest) = walk fs follow cur.dropLast rest := by
  rw [walk, if_neg (by decide), hdir]
  simp

/-! ## Places -/

theorem place_of_walk (hfs : Upright fs)
    (hfollow : ∀ cur path loc, isDir fs cur = true → follow cur path = some loc → Place fs loc)
    (hcur : Place fs cur) (h : walk fs follow cur path = some loc) : Place fs loc := by
  induction path generalizing cur with
  | nil =>
      obtain rfl := Option.some.inj h
      exact hcur
  | cons segment rest ih =>
      by_cases hroot : segment = "/"
      · subst hroot
        rw [walk_root] at h
        exact ih (Or.inl rfl) h
      rcases hdir : isDir fs cur with _ | _
      · rw [walk_of_not_isDir hdir hroot] at h
        cases h
      by_cases hstay : segment = "" ∨ segment = "."
      · rw [walk_stay hdir hstay] at h
        exact ih hcur h
      by_cases hup : segment = ".."
      · subst hup
        rw [walk_up hdir] at h
        exact ih (Or.inl (hfs.isDir_dropLast hdir)) h
      have hname : IsEntryName segment :=
        ⟨hroot, fun hs => hstay (Or.inl hs), fun hs => hstay (Or.inr hs), hup⟩
      rcases hnode : fs.lookup (cur ++ [segment]) with _ | _ | content | target
      · rw [walk_missing hdir hname hnode] at h
        split_ifs at h
        obtain rfl := Option.some.inj h
        exact Or.inr ⟨cur, segment, rfl, hdir, hname, by simp [hnode]⟩
      · rw [walk_into hdir hname hnode (by simp)] at h
        exact ih (Or.inl (isDir_concat_iff.mpr hnode)) h
      · rw [walk_into hdir hname hnode (by simp)] at h
        exact ih (Or.inr ⟨cur, segment, rfl, hdir, hname, by simp [hnode]⟩) h
      · rw [walk_link hdir hname hnode] at h
        exact hfollow cur _ loc hdir h

/-- What a path leads to is a place. -/
theorem place_of_locate (hfs : Upright fs) (hcur : isDir fs cur = true)
    (h : locate fs links cur path = some loc) : Place fs loc := by
  induction links generalizing cur path loc with
  | zero => exact place_of_walk hfs (fun _ _ _ _ h => by cases h) (Or.inl hcur) h
  | succ links ih => exact place_of_walk hfs (fun _ _ _ hdir h => ih hdir h) (Or.inl hcur) h

/-! ## Going on -/

/-- The names of a directory lead to it. -/
theorem walk_append_of_isDir (hfs : Upright fs) (names : List String)
    (hdir : isDir fs (cur ++ names) = true) :
    walk fs follow cur (names ++ rest) = walk fs follow (cur ++ names) rest := by
  induction names generalizing cur with
  | nil => rw [List.append_nil, List.nil_append]
  | cons name names ih =>
      rw [List.append_cons] at hdir
      have hnext := hfs.isDir_of_isDir_append names hdir
      have hcur := hfs.isDir_of_isDir_append [name] hnext
      have hnode := isDir_concat_iff.mp hnext
      have hname : IsEntryName name := hfs.names (cur ++ [name]) (by rw [hnode]; simp) name (by simp)
      rw [List.cons_append, walk_into hcur hname hnode (by simp), ih hdir, ← List.append_cons]

theorem locate_absolute_append (hfs : Upright fs) (hdir : isDir fs dir = true) :
    locate fs links cur (absolute dir ++ rest) = locate fs links dir rest := by
  have hwalk : ∀ follow : Location → List String → Option Location,
      walk fs follow cur ("/" :: (dir ++ rest)) = walk fs follow dir rest := by
    intro follow
    rw [walk_root]
    exact walk_append_of_isDir hfs dir hdir
  rcases links with _ | links
  · exact hwalk _
  · exact hwalk _

/-- A directory that a path leads to, and the links that are left: the path goes on from there. -/
def GoesOn (fs : FileSystem α) (links : ℕ) (go : List String → Option Location)
    (dir : Location) : Prop :=
  ∃ left, left ≤ links ∧ ∀ rest, go rest = locate fs left dir rest

theorem goesOn_walk {links : ℕ}
    (hwalk : ∀ dir rest, walk fs follow dir rest = locate fs links dir rest)
    (hfollow : ∀ cur path, follow cur path = some dir →
      GoesOn fs links (fun rest => follow cur (path ++ rest)) dir)
    (h : walk fs follow cur path = some dir) (hdir : isDir fs dir = true) :
    GoesOn fs links (fun rest => walk fs follow cur (path ++ rest)) dir := by
  induction path generalizing cur with
  | nil =>
      obtain rfl := Option.some.inj h
      exact ⟨links, Nat.le_refl _, fun rest => hwalk cur rest⟩
  | cons segment rest ih =>
      simp only [List.cons_append]
      by_cases hroot : segment = "/"
      · subst hroot
        simp only [walk_root] at h ⊢
        exact ih h
      rcases hcur : isDir fs cur with _ | _
      · rw [walk_of_not_isDir hcur hroot] at h
        cases h
      by_cases hstay : segment = "" ∨ segment = "."
      · simp only [walk_stay hcur hstay] at h ⊢
        exact ih h
      by_cases hup : segment = ".."
      · subst hup
        simp only [walk_up hcur] at h ⊢
        exact ih h
      have hname : IsEntryName segment :=
        ⟨hroot, fun hs => hstay (Or.inl hs), fun hs => hstay (Or.inr hs), hup⟩
      rcases hnode : fs.lookup (cur ++ [segment]) with _ | _ | content | target
      · rw [walk_missing hcur hname hnode] at h
        split_ifs at h
        obtain rfl := Option.some.inj h
        rw [isDir_concat_iff, hnode] at hdir
        cases hdir
      · have hlink : ∀ target, (Node.dir : Node α) ≠ .link target := by simp
        simp only [walk_into hcur hname hnode hlink] at h ⊢
        exact ih h
      · have hlink : ∀ target, Node.file content ≠ .link target := by simp
        simp only [walk_into hcur hname hnode hlink] at h ⊢
        exact ih h
      · simp only [walk_link hcur hname hnode] at h ⊢
        simpa only [List.append_assoc] using hfollow cur (target ++ rest) h

/-- A path that leads to a directory goes on from there, with the links that are left. -/
theorem locate_append (h : locate fs links cur path = some dir) (hdir : isDir fs dir = true) :
    GoesOn fs links (fun rest => locate fs links cur (path ++ rest)) dir := by
  induction links generalizing cur path with
  | zero => exact goesOn_walk (fun _ _ => rfl) (fun _ _ h => by cases h) h hdir
  | succ links ih =>
      have hwalk : ∀ dir rest, walk fs (locate fs links) dir rest = locate fs (links + 1) dir rest :=
        fun _ _ => rfl
      refine goesOn_walk hwalk ?_ h hdir
      intro cur path hfollow
      obtain ⟨left, hle, hgo⟩ := ih hfollow
      exact ⟨left, by omega, hgo⟩

end DiskArcana.Lib.UnixFs.FileSystem
