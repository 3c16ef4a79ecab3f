import Mathlib.Data.List.DropRight

/-!
# Lexical paths

A path as the list of its components: names, `/` for the root of the file system, `.` and `..`.
Directories are the lists of names that lead to them from the root. `resolve` follows a path from a
directory without looking at the file system: `..` goes up, and `/` starts over, so that an absolute
path replaces the directory it is joined to.

A relative path climbs some levels and then descends (`climb`). It ends below the directory it
starts from exactly when it descends through the levels that it climbed, and further
(`within_resolve_iff`). What a path without `..` leads to has a string of its own, the names below
the directory joined by slashes, which leads to the same place (`components_intercalate`,
`resolve_of_clean`).
-/

namespace DiskArcana.Lib.LexicalPath

/-! ## Strings -/

/-- Cut a string at its slashes. -/
def splitSlash : List Char → List (List Char)
  | [] => [[]]
  | c :: cs =>
    if c = '/' then [] :: splitSlash cs
    else match splitSlash cs with
      | [] => [[c]]
      | part :: parts => (c :: part) :: parts

/-- The components of a path string on Unix: slashes in a row count as one, and a `.` is kept only
at the start of a relative path. -/
def components (s : String) : List String :=
  let parts := ((splitSlash s.toList).filter (· ≠ [])).map String.ofList
  if s.toList.head? = some '/' then "/" :: parts.filter (· ≠ ".")
  else parts.head?.toList ++ parts.tail.filter (· ≠ ".")

example : components "a//./b/" = ["a", "b"] := by decide +kernel

example : components "/../etc" = ["/", "..", "etc"] := by decide +kernel

/-! ## Following a path -/

/-- One component further. -/
def resolveStep (dir : List String) (segment : String) : List String :=
  if segment = "/" then []
  else if segment = "." then dir
  else if segment = ".." then dir.dropLast
  else dir ++ [segment]

/-- Where a path leads from a directory. -/
def resolve (base path : List String) : List String := path.foldl resolveStep base

theorem resolve_concat (base path : List String) (segment : String) :
    resolve base (path ++ [segment]) = resolveStep (resolve base path) segment := by
  unfold resolve
  rw [List.foldl_append]
  rfl

theorem resolve_append (base path rest : List String) :
    resolve base (path ++ rest) = resolve (resolve base path) rest :=
  List.foldl_append

/-- A `.` leads nowhere else. -/
theorem resolve_filter_dot (base path : List String) :
    resolve base (path.filter (· ≠ ".")) = resolve base path := by
  induction path generalizing base with
  | nil => rfl
  | cons segment path ih =>
      show _ = resolve (resolveStep base segment) path
      by_cases hdot : segment = "."
      · rw [List.filter_cons_of_neg (by simpa using hdot), ih, hdot]
        rfl
      · rw [List.filter_cons_of_pos (by simpa using hdot)]
        exact ih _

/-- A component that is a name. -/
def IsName (segment : String) : Prop := segment ≠ "/" ∧ segment ≠ "." ∧ segment ≠ ".."

theorem resolve_concat_of_isName {segment : String} (h : IsName segment)
    (base path : List String) :
    resolve base (path ++ [segment]) = resolve base path ++ [segment] := by
  rw [resolve_concat]
  unfold resolveStep
  rw [if_neg h.1, if_neg h.2.1, if_neg h.2.2]

/-- A path of names is followed to its end. -/
theorem resolve_of_isName (base : List String) {names : List String} (h : ∀ n ∈ names, IsName n) :
    resolve base names = base ++ names := by
  induction names using List.reverseRecOn with
  | nil => exact (List.append_nil _).symm
  | append_singleton names name ih =>
      have hlast := h name (List.mem_append_right _ (List.mem_singleton_self _))
      rw [resolve_concat_of_isName hlast,
        ih fun n hn => h n (List.mem_append_left _ hn), List.append_assoc]

/-- A location is properly below a directory. -/
def Within (base loc : List String) : Prop := base <+: loc ∧ loc ≠ base

instance (base loc : List String) : Decidable (Within base loc) :=
  inferInstanceAs (Decidable (_ ∧ _))

theorem within_append_left {base loc : List String} (dir : List String) :
    Within (dir ++ base) (dir ++ loc) ↔ Within base loc := by
  unfold Within
  rw [List.prefix_append_right_inj, ne_eq, List.append_cancel_left_eq]

/-- A file with a name is below a directory exactly when the directory it stands in is that
directory or below it. -/
theorem within_resolve_concat {segment : String} (h : IsName segment) (base path : List String) :
    Within base (resolve base (path ++ [segment])) ↔ base <+: resolve base path := by
  rw [resolve_concat_of_isName h]
  constructor
  · rintro ⟨hpre, hne⟩
    rcases List.prefix_concat_iff.mp hpre with heq | hpre
    · exact absurd heq.symm hne
    · exact hpre
  · intro hpre
    refine ⟨hpre.trans (List.prefix_append _ _), ?_⟩
    intro heq
    have hlen := congrArg List.length heq
    have hle := hpre.length_le
    rw [List.length_append, List.length_singleton] at hlen
    omega

/-! ## Climbing and descending -/

/-- One component further on a relative path that has climbed some levels and descended through
some names. -/
def climbStep (c : ℕ × List String) (segment : String) : ℕ × List String :=
  if segment = "/" ∨ segment = "." then c
  else if segment = ".." then if c.2 = [] then (c.1 + 1, []) else (c.1, c.2.dropLast)
  else (c.1, c.2 ++ [segment])

/-- A relative path in normal form: how many levels it climbs, and the names it descends through
after that. -/
def climb (path : List String) : ℕ × List String := path.foldl climbStep (0, [])

theorem climb_concat (path : List String) (segment : String) :
    climb (path ++ [segment]) = climbStep (climb path) segment := by
  unfold climb
  rw [List.foldl_append]
  rfl

theorem rdrop_succ (l : List String) (n : ℕ) : l.rdrop (n + 1) = (l.rdrop n).dropLast := by
  unfold List.rdrop
  rw [List.dropLast_eq_take, List.take_take, List.length_take]
  congr 1
  omega

/-- **A relative path climbs, then descends.** -/
theorem resolve_eq (base : List String) {path : List String} (h : "/" ∉ path) :
    resolve base path = base.rdrop (climb path).1 ++ (climb path).2 := by
  induction path using List.reverseRecOn with
  | nil => simp [resolve, climb]
  | append_singleton path segment ih =>
      rw [List.mem_append, not_or] at h
      have hroot : segment ≠ "/" := fun heq => h.2 (by rw [heq]; exact List.mem_singleton_self _)
      rw [resolve_concat, climb_concat, ih h.1]
      unfold resolveStep climbStep
      rw [if_neg hroot]
      by_cases hdot : segment = "."
      · rw [if_pos hdot, if_pos (Or.inr hdot)]
      · have hstay : ¬ (segment = "/" ∨ segment = ".") := not_or.mpr ⟨hroot, hdot⟩
        rw [if_neg hdot, if_neg hstay]
        by_cases hup : segment = ".."
        · rw [if_pos hup, if_pos hup]
          by_cases hdown : (climb path).2 = []
          · rw [if_pos hdown, hdown, List.append_nil, List.append_nil, rdrop_succ]
          · rw [if_neg hdown, List.dropLast_append_of_ne_nil hdown]
        · rw [if_neg hup, if_neg hup, List.append_assoc]

/-- **When a relative path ends below its start**: it descends through the levels that it climbed,
and further. -/
theorem within_resolve_iff (base : List String) {path : List String} (h : "/" ∉ path) :
    Within base (resolve base path) ↔ Within (base.rtake (climb path).1) (climb path).2 := by
  rw [resolve_eq base h]
  have hsplit : base = base.rdrop (climb path).1 ++ base.rtake (climb path).1 := by
    unfold List.rdrop List.rtake
    exact (List.take_append_drop _ _).symm
  constructor
  · intro hw
    nth_rewrite 1 [hsplit] at hw
    exact (within_append_left _).mp hw
  · intro hw
    nth_rewrite 1 [hsplit]
    exact (within_append_left _).mpr hw

/-- A path without `..` does not climb. -/
theorem prefix_resolve_of_not_mem (base : List String) {path : List String} (h : "/" ∉ path)
    (hup : ".." ∉ path) : base <+: resolve base path := by
  induction path using List.reverseRecOn with
  | nil => exact List.prefix_refl base
  | append_singleton path segment ih =>
      rw [List.mem_append, not_or] at h hup
      have hroot : segment ≠ "/" := fun heq => h.2 (by rw [heq]; exact List.mem_singleton_self _)
      have hparent : segment ≠ ".." :=
        fun heq => hup.2 (by rw [heq]; exact List.mem_singleton_self _)
      have hpre := ih h.1 hup.1
      rw [resolve_concat]
      unfold resolveStep
      rw [if_neg hroot, if_neg hparent]
      split_ifs
      · exact hpre
      · exact hpre.trans (List.prefix_append _ _)

/-! ## Names joined by slashes -/

theorem splitSlash_eq_splitOn (cs : List Char) : splitSlash cs = cs.splitOn '/' := by
  induction cs with
  | nil => rfl
  | cons c cs ih =>
      rw [List.splitOn_cons_eq_if_modifyHead]
      unfold splitSlash
      rw [ih]
      by_cases hc : c = '/'
      · rw [if_pos hc, if_pos (by rw [hc]; rfl)]
      · rw [if_neg hc, if_neg (by simpa using hc)]
        rcases hsplit : cs.splitOn '/' with _ | ⟨part, parts⟩
        · exact absurd hsplit (List.splitOn_ne_nil _ _)
        · rfl

/-- Joining two strings by a slash joins their parts. -/
theorem splitSlash_append (a b : List Char) :
    splitSlash (a ++ '/' :: b) = splitSlash a ++ splitSlash b := by
  simp only [splitSlash_eq_splitOn]
  exact List.splitOn_append_cons_self a b

/-- Different strings are cut into different parts. -/
theorem splitSlash_injective {a b : List Char} (h : splitSlash a = splitSlash b) : a = b := by
  rw [splitSlash_eq_splitOn, splitSlash_eq_splitOn] at h
  have hjoin := congrArg (['/'].intercalate ·) h
  rwa [List.intercalate_splitOn, List.intercalate_splitOn] at hjoin

/-- The parts have no slash, and their characters are those of the string. -/
theorem of_mem_splitSlash {cs part : List Char} (h : part ∈ splitSlash cs) :
    '/' ∉ part ∧ ∀ c ∈ part, c ∈ cs := by
  induction cs generalizing part with
  | nil =>
      rw [splitSlash, List.mem_singleton] at h
      subst h
      simp
  | cons c cs ih =>
      unfold splitSlash at h
      by_cases hc : c = '/'
      · rw [if_pos hc] at h
        rcases List.mem_cons.mp h with rfl | h
        · simp
        · exact ⟨(ih h).1, fun x hx => List.mem_cons_of_mem _ ((ih h).2 x hx)⟩
      · rw [if_neg hc] at h
        rcases hsplit : splitSlash cs with _ | ⟨first, rest⟩
        · rw [splitSlash_eq_splitOn] at hsplit
          exact absurd hsplit (List.splitOn_ne_nil _ _)
        · rw [hsplit] at h
          rcases List.mem_cons.mp h with rfl | h
          · have hfirst := @ih first (by rw [hsplit]; exact List.mem_cons_self)
            refine ⟨?_, ?_⟩
            · intro hmem
              rcases List.mem_cons.mp hmem with heq | hmem
              · exact hc heq.symm
              · exact hfirst.1 hmem
            · intro x hx
              rcases List.mem_cons.mp hx with rfl | hx
              · exact List.mem_cons_self
              · exact List.mem_cons_of_mem _ (hfirst.2 x hx)
          · have hrest := @ih part (by rw [hsplit]; exact List.mem_cons_of_mem _ h)
            exact ⟨hrest.1, fun x hx => List.mem_cons_of_mem _ (hrest.2 x hx)⟩

/-- The string starts with its first part. -/
theorem prefix_of_splitSlash {cs first : List Char} {rest : List (List Char)}
    (h : splitSlash cs = first :: rest) : first <+: cs := by
  induction cs generalizing first rest with
  | nil =>
      cases h
      exact List.prefix_rfl
  | cons c cs ih =>
      unfold splitSlash at h
      split_ifs at h with hc
      · cases h
        exact List.nil_prefix
      · rcases hsplit : splitSlash cs with _ | ⟨part, parts⟩
        · rw [splitSlash_eq_splitOn] at hsplit
          exact absurd hsplit (List.splitOn_ne_nil _ _)
        · rw [hsplit] at h
          cases h
          exact List.cons_prefix_cons.mpr ⟨rfl, ih hsplit⟩

/-- The parts stand in the string. -/
theorem infix_of_mem_splitSlash {cs part : List Char} (h : part ∈ splitSlash cs) : part <:+: cs := by
  induction cs generalizing part with
  | nil =>
      rw [splitSlash, List.mem_singleton] at h
      exact h ▸ List.infix_rfl
  | cons c cs ih =>
      rcases hsplit : splitSlash (c :: cs) with _ | ⟨first, rest⟩
      · rw [hsplit] at h
        cases h
      · have hfirst := prefix_of_splitSlash hsplit
        rw [hsplit] at h
        rcases List.mem_cons.mp h with rfl | hrest
        · exact hfirst.isInfix
        · have hmem : part ∈ splitSlash cs := by
            unfold splitSlash at hsplit
            split_ifs at hsplit
            · cases hsplit
              exact hrest
            · rcases htail : splitSlash cs with _ | ⟨part', parts⟩
              · rw [htail] at hsplit
                cases hsplit
                cases hrest
              · rw [htail] at hsplit
                cases hsplit
                exact List.mem_cons_of_mem _ hrest
          exact (ih hmem).trans (List.suffix_cons c cs).isInfix

/-- A name that a path string can hold between slashes. -/
structure Clean (name : String) : Prop where
  nonempty : name.toList ≠ []
  slash : '/' ∉ name.toList
  dot : name ≠ "."
  dots : name ≠ ".."

theorem Clean.isName {name : String} (h : Clean name) : IsName name := by
  refine ⟨?_, h.dot, h.dots⟩
  rintro rfl
  exact h.slash (by decide)

/-- The components of a path string are the root, or have no slash and only characters of the
string. -/
theorem of_mem_components {s name : String} (h : name ∈ components s) (hroot : name ≠ "/") :
    name.toList ≠ [] ∧ '/' ∉ name.toList ∧ ∀ c ∈ name.toList, c ∈ s.toList := by
  have hpart : ∀ n, n ∈ ((splitSlash s.toList).filter (· ≠ [])).map String.ofList →
      n.toList ≠ [] ∧ '/' ∉ n.toList ∧ ∀ c ∈ n.toList, c ∈ s.toList := by
    intro n hn
    obtain ⟨part, hpart, rfl⟩ := List.mem_map.mp hn
    obtain ⟨hmem, hne⟩ := List.mem_filter.mp hpart
    rw [String.toList_ofList]
    exact ⟨by simpa using hne, of_mem_splitSlash hmem⟩
  unfold components at h
  dsimp only at h
  split_ifs at h
  · rcases List.mem_cons.mp h with heq | h
    · exact absurd heq hroot
    · exact hpart name (List.mem_of_mem_filter h)
  · rcases List.mem_append.mp h with h | h
    · exact hpart name (List.mem_of_mem_head? (by simpa using h))
    · exact hpart name (List.mem_of_mem_tail (List.mem_of_mem_filter h))

/-- A relative path may have a `.` in front and none behind. -/
theorem components_of_relative {s : String} (h : s.toList.head? ≠ some '/') :
    "." ∉ (components s).tail ∧
      ∀ name ∈ components s, '/' ∉ name.toList ∧ name.toList <:+: s.toList := by
  have hpart : ∀ n, n ∈ ((splitSlash s.toList).filter (· ≠ [])).map String.ofList →
      '/' ∉ n.toList ∧ n.toList <:+: s.toList := by
    intro n hn
    obtain ⟨part, hpart, rfl⟩ := List.mem_map.mp hn
    rw [String.toList_ofList]
    have hmem := List.mem_of_mem_filter hpart
    exact ⟨(of_mem_splitSlash hmem).1, infix_of_mem_splitSlash hmem⟩
  unfold components
  dsimp only
  rw [if_neg h]
  revert hpart
  rcases ((splitSlash s.toList).filter (· ≠ [])).map String.ofList with _ | ⟨first, rest⟩
  · simp
  · intro hpart
    constructor
    · simp
    · intro name hname
      rcases List.mem_cons.mp hname with rfl | hname
      · exact hpart _ List.mem_cons_self
      · exact hpart name (List.mem_cons_of_mem _ (List.mem_of_mem_filter hname))

/-- The root is only the first component. -/
theorem components_cases (s : String) :
    "/" ∉ components s ∨ ∃ rest, components s = "/" :: rest ∧ "/" ∉ rest := by
  have hpart : "/" ∉ ((splitSlash s.toList).filter (· ≠ [])).map String.ofList := by
    intro hmem
    obtain ⟨part, hpart, heq⟩ := List.mem_map.mp hmem
    have hchars : part = ['/'] := by
      rw [← @String.toList_ofList part, heq]
      rfl
    have hslash := (of_mem_splitSlash (List.mem_of_mem_filter hpart)).1
    rw [hchars] at hslash
    exact hslash (List.mem_singleton_self _)
  unfold components
  dsimp only
  split_ifs
  · exact Or.inr ⟨_, rfl, fun h => hpart (List.mem_of_mem_filter h)⟩
  · left
    intro h
    rcases List.mem_append.mp h with h | h
    · exact hpart (List.mem_of_mem_head? (by simpa using h))
    · exact hpart (List.mem_of_mem_tail (List.mem_of_mem_filter h))

/-- The parts of a path string that are not empty. -/
def parts (cs : List Char) : List String := ((splitSlash cs).filter (· ≠ [])).map String.ofList

theorem parts_append (a b : List Char) : parts (a ++ '/' :: b) = parts a ++ parts b := by
  unfold parts
  rw [splitSlash_append, List.filter_append, List.map_append]

/-- Where the components of a path string lead, its parts lead. -/
theorem resolve_components (base : List String) (s : String) :
    resolve base (components s) =
      resolve (if s.toList.head? = some '/' then [] else base) (parts s.toList) := by
  unfold components parts
  dsimp only
  split_ifs
  · exact resolve_filter_dot [] _
  · rcases ((splitSlash s.toList).filter (· ≠ [])).map String.ofList with _ | ⟨first, rest⟩
    · rfl
    · exact resolve_filter_dot (resolveStep base first) rest

theorem resolve_of_clean (base : List String) {names : List String} (h : ∀ n ∈ names, Clean n) :
    resolve base names = base ++ names :=
  resolve_of_isName base fun n hn => (h n hn).isName

/-- A path without `..` and the root only adds its names. -/
theorem resolve_eq_append (base : List String) {path : List String} (h : "/" ∉ path)
    (hup : ".." ∉ path) : resolve base path = base ++ path.filter (· ≠ ".") := by
  induction path using List.reverseRecOn with
  | nil => exact (List.append_nil _).symm
  | append_singleton path segment ih =>
      rw [List.mem_append, not_or] at h hup
      have hroot : segment ≠ "/" := fun heq => h.2 (by rw [heq]; exact List.mem_singleton_self _)
      have hparent : segment ≠ ".." :=
        fun heq => hup.2 (by rw [heq]; exact List.mem_singleton_self _)
      rw [resolve_concat, ih h.1 hup.1, List.filter_append]
      unfold resolveStep
      rw [if_neg hroot, if_neg hparent]
      by_cases hdot : segment = "."
      · simp [hdot]
      · simp [hdot]

/-- The characters of joined parts are slashes and those of the parts. -/
theorem of_mem_intercalate {parts : List (List Char)} {c : Char}
    (h : c ∈ ['/'].intercalate parts) : c = '/' ∨ ∃ part ∈ parts, c ∈ part := by
  induction parts with
  | nil => exact absurd h List.not_mem_nil
  | cons part parts ih =>
      rcases parts with _ | ⟨next, parts⟩
      · rw [List.intercalate_singleton] at h
        exact Or.inr ⟨part, List.mem_cons_self, h⟩
      · rw [List.intercalate_cons_cons, List.mem_append, List.mem_append, List.mem_singleton] at h
        rcases h with (h | h) | h
        · exact Or.inr ⟨part, List.mem_cons_self, h⟩
        · exact Or.inl h
        · rcases ih h with hslash | ⟨p, hp, hc⟩
          · exact Or.inl hslash
          · exact Or.inr ⟨p, List.mem_cons_of_mem _ hp, hc⟩

/-- Names joined by slashes are cut into the names. -/
theorem splitSlash_intercalate {names : List String} (hne : names ≠ [])
    (h : ∀ n ∈ names, '/' ∉ n.toList) :
    splitSlash ("/".intercalate names).toList = names.map String.toList := by
  rw [splitSlash_eq_splitOn, String.toList_intercalate]
  refine List.splitOn_intercalate '/' ?_ (by simpa using hne)
  intro l hl
  obtain ⟨n, hn, rfl⟩ := List.mem_map.mp hl
  exact h n hn

/-- **Names joined by slashes are their own components.** -/
theorem components_intercalate {names : List String} (h : ∀ n ∈ names, Clean n) :
    components ("/".intercalate names) = names := by
  rcases names with _ | ⟨first, rest⟩
  · decide +kernel
  have hfirst := h first List.mem_cons_self
  have hsplit := splitSlash_intercalate (List.cons_ne_nil first rest) fun n hn => (h n hn).slash
  have hparts : ((splitSlash ("/".intercalate (first :: rest)).toList).filter (· ≠ [])).map
      String.ofList = first :: rest := by
    rw [hsplit, List.filter_eq_self.mpr, List.map_map]
    · simp
    · intro l hl
      obtain ⟨n, hn, rfl⟩ := List.mem_map.mp hl
      simpa using (h n hn).nonempty
  have hhead : ("/".intercalate (first :: rest)).toList.head? ≠ some '/' := by
    rw [String.toList_intercalate]
    rcases hchars : first.toList with _ | ⟨c, cs⟩
    · exact absurd hchars hfirst.nonempty
    · have hne : c ≠ '/' := by
        rintro rfl
        exact hfirst.slash (by rw [hchars]; exact List.mem_cons_self)
      rcases rest with _ | ⟨second, rest⟩
      · simpa [hchars] using hne
      · simpa [hchars] using hne
  unfold components
  dsimp only
  rw [if_neg hhead, hparts]
  have hdots : rest.filter (· ≠ ".") = rest := by
    apply List.filter_eq_self.mpr
    intro n hn
    simpa using (h n (List.mem_cons_of_mem _ hn)).dot
  simpa using hdots

end DiskArcana.Lib.LexicalPath
