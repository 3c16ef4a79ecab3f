import DiskArcana.Core.Filter
import DiskArcana.Lib.LexicalPath
import DiskArcana.Lib.OsPath
import Mathlib.Data.List.DropRight
import Mathlib.Data.List.Infix

/-!
# Include prefixes and paths

A node can be limited to folders (`selective_sync.rs`). A folder is stored as its path without outer
white space and outer slashes (`normalizeIncludePrefix`), and a path is looked up in the same reading
(`readPath`), although both may be part of the names of files on a Linux server. The prefix of a folder
is a component-wise prefix of the reading, not of the path (`pathMatchesIncludes_iff`). That makes no
difference for a clean path, nor for one in a folder of the list
(`matches_iff_of_clean_or_inFolder`); an unclean path, if it can be named by prefixes at all, is taken for
another one by some list (`forall_includes_iff_clean`).
-/

namespace DiskArcana.Core

open DiskArcana.Lib

/-! ## Prefixes -/

/-- Backslashes become slashes.
Source: `selective_sync.rs`, `replace('\\', "/")` -/
def forward (c : Char) : Char := if c = '\\' then '/' else c

/-- Source: `selective_sync.rs`, `normalize_include_prefix` -/
def normalizeIncludePrefix (raw : String) : Except String String :=
  let trimmed := (trimChars isTrimmed raw.toList).map forward
  if trimmed.isEmpty then .error "include prefix must not be empty"
  else if ['.', '.'] <:+: trimmed then .error "include prefix must not contain '..'"
  else
    let normalized := trimChars (· == '/') trimmed
    if normalized.isEmpty then .error "include prefix must not be empty"
    else .ok (String.ofList normalized)

/-- The path as it is compared with the prefixes.
Source: `selective_sync.rs`, `path_matches_includes` -/
def readPath (relPath : String) : List Char :=
  trimChars (· == '/') ((trimChars isTrimmed relPath.toList).map forward)

/-- The components of a text. -/
def textComponents (t : List Char) : List (List Char) := OsPath.splitAt '/' t

/-- The components of the path as it is compared. -/
def readComponents (relPath : String) : List (List Char) :=
  if (readPath relPath).isEmpty then [] else textComponents (readPath relPath)

/-! ## Trimmed texts -/

section Trim

variable {p : Char → Bool} {t : List Char}

/-- No character of a kind stands at an end. -/
def Bare (p : Char → Bool) (t : List Char) : Prop :=
  (∀ c ∈ t.head?, p c = false) ∧ ∀ c ∈ t.getLast?, p c = false

theorem trimChars_eq_rdropWhile (p : Char → Bool) (t : List Char) :
    trimChars p t = (t.dropWhile p).rdropWhile p := rfl

theorem dropWhile_of_head? (h : ∀ c ∈ t.head?, p c = false) : t.dropWhile p = t := by
  rcases t with _ | ⟨c, t⟩
  · rfl
  · exact List.dropWhile_cons_of_neg (by rw [h c rfl]; decide)

/-- There is nothing to trim of a bare text. -/
theorem trimChars_of_bare (h : Bare p t) : trimChars p t = t := by
  rw [trimChars_eq_rdropWhile, dropWhile_of_head? h.1, List.rdropWhile_eq_self_iff]
  intro hne
  rw [h.2 _ (List.getLast?_eq_some_getLast hne)]
  decide

/-- What is trimmed is bare. -/
theorem bare_trimChars (p : Char → Bool) (t : List Char) : Bare p (trimChars p t) := by
  rw [trimChars_eq_rdropWhile]
  constructor
  · intro c hc
    obtain ⟨rest, hrest⟩ := List.rdropWhile_prefix p (l := t.dropWhile p)
    have hmem : c ∈ (t.dropWhile p).head? := by
      rw [← hrest, List.head?_append, Option.mem_def.mp hc]
      rfl
    have := List.head?_dropWhile_not p t
    rw [Option.mem_def.mp hmem] at this
    exact this
  · intro c hc
    have hne : (t.dropWhile p).rdropWhile p ≠ [] := by
      intro h
      rw [h] at hc
      cases hc
    have hlast := List.rdropWhile_last_not p (t.dropWhile p) hne
    rw [List.getLast?_eq_some_getLast hne] at hc
    rw [← Option.some.inj hc]
    exact Bool.not_eq_true _ |>.mp hlast

theorem trimChars_eq_self_iff : trimChars p t = t ↔ Bare p t := by
  constructor
  · intro h
    rw [← h]
    exact bare_trimChars p t
  · exact trimChars_of_bare

theorem length_trimChars_le (p : Char → Bool) (t : List Char) : (trimChars p t).length ≤ t.length :=
  le_trans (List.rdropWhile_prefix p _).length_le (List.dropWhile_suffix p).length_le

/-- It is a part of the text. -/
theorem trimChars_isInfix (p : Char → Bool) (t : List Char) : trimChars p t <:+: t :=
  (List.rdropWhile_prefix p _).isInfix.trans (List.dropWhile_suffix p).isInfix

/-- What is in front of a character that stays, stays. -/
theorem rdropWhile_append_cons {b : Char} (hb : p b = false) (s r : List Char) :
    ∃ r', (s ++ b :: r).rdropWhile p = s ++ b :: r' ∧ r' <+: r := by
  induction r using List.reverseRecOn with
  | nil => exact ⟨[], List.rdropWhile_concat_neg p s b (by rw [hb]; decide), List.prefix_rfl⟩
  | append_singleton r c ih =>
      rw [← List.cons_append, ← List.append_assoc]
      by_cases hc : p c = true
      · rw [List.rdropWhile_concat_pos p _ c hc]
        obtain ⟨r', hr', hprefix⟩ := ih
        exact ⟨r', hr', hprefix.trans (List.prefix_append r [c])⟩
      · rw [List.rdropWhile_concat_neg p _ c hc]
        exact ⟨r ++ [c], by simp, List.prefix_rfl⟩

theorem trimChars_map (p : Char → Bool) (f : Char → Char) (t : List Char) :
    trimChars p (t.map f) = (trimChars (p ∘ f) t).map f := by
  unfold trimChars
  rw [List.dropWhile_map, ← List.map_reverse, List.dropWhile_map, List.map_reverse]

end Trim

/-! ## What is stored -/

section Stored

variable {raw n : String}

theorem notMem_map_forward (t : List Char) : '\\' ∉ t.map forward := by
  intro h
  obtain ⟨c, _, hc⟩ := List.mem_map.mp h
  unfold forward at hc
  split_ifs at hc with hback
  · cases hc
  · exact hback hc

theorem map_forward_of_notMem {t : List Char} (h : '\\' ∉ t) : t.map forward = t :=
  OsPath.map_replace_of_notMem h

/-- A prefix that is stored: a text without backslashes and `..`, and without slashes at its ends. -/
structure Stored (n : List Char) : Prop where
  ne_nil : n ≠ []
  noBackslash : '\\' ∉ n
  noDots : ¬ ['.', '.'] <:+: n
  bare : Bare (· == '/') n

/-- The text of a raw prefix between its outer white space and its outer slashes. -/
def innerText (raw : String) : List Char :=
  trimChars (fun c => c == '/' || c == '\\') (trimChars isTrimmed raw.toList)

theorem slash_forward : ((· == '/') ∘ forward : Char → Bool) = fun c => c == '/' || c == '\\' := by
  funext c
  show (forward c == '/') = _
  unfold forward
  split_ifs with h
  · rw [h]
    rfl
  · rw [beq_eq_false_iff_ne.mpr h, Bool.or_false]

/-- What is stored of a raw prefix. -/
theorem of_normalizeIncludePrefix (h : normalizeIncludePrefix raw = .ok n) :
    n.toList = (innerText raw).map forward ∧ Stored n.toList := by
  unfold normalizeIncludePrefix at h
  dsimp only at h
  split_ifs at h with _ hdots hempty
  rw [← Except.ok.inj h, String.toList_ofList]
  refine ⟨?_, ?_, ?_, ?_, bare_trimChars _ _⟩
  · rw [trimChars_map, slash_forward]
    rfl
  · rwa [List.isEmpty_iff] at hempty
  · exact fun hmem => notMem_map_forward _ ((trimChars_isInfix _ _).subset hmem)
  · exact fun hin => hdots (hin.trans (trimChars_isInfix _ _))

/-- A stored prefix is stored as it is if no white space stands at its ends. -/
theorem normalizeIncludePrefix_stored (hn : Stored n.toList) :
    normalizeIncludePrefix n = .ok n ↔ Bare isTrimmed n.toList := by
  have hback : '\\' ∉ trimChars isTrimmed n.toList :=
    fun hmem => hn.noBackslash ((trimChars_isInfix _ _).subset hmem)
  constructor
  · intro h
    unfold normalizeIncludePrefix at h
    rw [map_forward_of_notMem hback] at h
    dsimp only at h
    split_ifs at h
    have htext := congrArg String.toList (Except.ok.inj h)
    rw [String.toList_ofList] at htext
    -- nothing can have been trimmed
    have hlength := length_trimChars_le (· == '/') (trimChars isTrimmed n.toList)
    rw [htext] at hlength
    rw [← trimChars_eq_self_iff]
    exact (trimChars_isInfix _ _).eq_of_length_le hlength
  · intro h
    unfold normalizeIncludePrefix
    rw [map_forward_of_notMem hback, trimChars_of_bare h]
    dsimp only
    rw [trimChars_of_bare hn.bare, if_neg (by rw [List.isEmpty_iff]; exact hn.ne_nil), if_neg hn.noDots,
      if_neg (by rw [List.isEmpty_iff]; exact hn.ne_nil), String.ofList_toList]

theorem isTrimmed_forward (c : Char) : isTrimmed (forward c) = isTrimmed c := by
  unfold forward
  split_ifs with h
  · rw [h]
    decide
  · rfl

theorem bare_map_forward {t : List Char} : Bare isTrimmed (t.map forward) ↔ Bare isTrimmed t := by
  unfold Bare
  simp only [List.head?_map, List.getLast?_map, Option.mem_map, forall_exists_index, and_imp,
    forall_apply_eq_imp_iff₂, isTrimmed_forward]

end Stored

/-! ## What is matched -/

section Matched

variable {relPath : String} {includes : List String} {path : Path}

/-- A prefix matches if it is a component-wise prefix of the path as it is read. -/
theorem pathMatchesIncludes_iff (hne : includes ≠ []) (hincludes : ∀ pre ∈ includes, pre.toList ≠ []) :
    pathMatchesIncludes relPath includes = true ↔
      ∃ pre ∈ includes, textComponents pre.toList <+: readComponents relPath := by
  have hread : trimChars (· == '/')
      ((trimChars isTrimmed relPath.toList).map fun c => if c = '\\' then '/' else c) =
        readPath relPath := rfl
  unfold pathMatchesIncludes
  rw [if_neg (by rw [List.isEmpty_iff]; exact hne)]
  dsimp only
  rw [hread]
  unfold readComponents
  split_ifs with hempty
  · constructor
    · nofun
    · rintro ⟨pre, _, hprefix⟩
      exact absurd (List.prefix_nil.mp hprefix) (OsPath.splitAt_ne_nil pre.toList)
  · rw [List.any_eq_true]
    constructor
    · rintro ⟨pre, hpre, hmatch⟩
      refine ⟨pre, hpre, OsPath.splitAt_prefix_iff.mpr ?_⟩
      have hpos : pre.toList.isEmpty = false := by
        rw [← Bool.not_eq_true, List.isEmpty_iff]
        exact hincludes pre hpre
      rw [hpos, Bool.or_false, Bool.or_eq_true, beq_iff_eq, List.isPrefixOf_iff_prefix] at hmatch
      exact hmatch
    · rintro ⟨pre, hpre, hprefix⟩
      refine ⟨pre, hpre, ?_⟩
      rw [Bool.or_eq_true, Bool.or_eq_true, beq_iff_eq, List.isPrefixOf_iff_prefix]
      exact Or.inl (OsPath.splitAt_prefix_iff.mp hprefix)

/-- A path that a scan can find: names from the root of the share on. -/
structure Scanned (path : Path) : Prop where
  ne_nil : path ≠ []
  ne_empty : ∀ c ∈ path, c ≠ ""
  noSlash : ∀ c ∈ path, '/' ∉ c.toList
  isNormal : ∀ c ∈ path, isNormal c = true

/-- Some prefix is a component-wise prefix of the path. -/
def Selected (includes : List String) (path : Path) : Prop :=
  ∃ pre ∈ includes, textComponents pre.toList <+: path.map String.toList

/-- No white space at the ends of the path, and no backslash in it. -/
def Clean (path : Path) : Prop :=
  Bare isTrimmed (pathString path).toList ∧ '\\' ∉ (pathString path).toList

/-- The path does not start with white space, and a prefix is one of its folders. -/
def InFolder (includes : List String) (path : Path) : Prop :=
  (∀ c ∈ (pathString path).toList.head?, isTrimmed c = false) ∧
    ∃ pre ∈ includes, textComponents pre.toList <+: path.dropLast.map String.toList

/-- The path has no `..` in it, which no prefix may have, and its last name is not made of white space
and backslashes alone. -/
structure Nameable (path : Path) : Prop where
  noDots : ¬ ['.', '.'] <:+: (pathString path).toList
  last : ∃ name ∈ path.getLast?, ∃ c ∈ name.toList, isTrimmed c = false ∧ c ≠ '\\'

/-- The prefixes have been accepted. -/
def Accepted (includes : List String) : Prop :=
  ∀ pre ∈ includes, ∃ raw, normalizeIncludePrefix raw = .ok pre

theorem toList_pathString (path : Path) :
    (pathString path).toList = ['/'].intercalate (path.map String.toList) := by
  unfold pathString
  rw [String.toList_intercalate]
  rfl

/-- The components of a path are the names it is made of. -/
theorem Scanned.textComponents (h : Scanned path) :
    textComponents (pathString path).toList = path.map String.toList := by
  rw [toList_pathString]
  apply OsPath.splitAt_intercalate
  · simpa using h.ne_nil
  · intro c hc
    obtain ⟨s, hs, rfl⟩ := List.mem_map.mp hc
    exact h.noSlash s hs

/-- No slash stands at an end of a path. -/
theorem Scanned.bare (h : Scanned path) : Bare (· == '/') (pathString path).toList := by
  have hempty : [] ∉ Core.textComponents (pathString path).toList := by
    rw [h.textComponents]
    intro hmem
    obtain ⟨c, hc, hnil⟩ := List.mem_map.mp hmem
    exact h.ne_empty c hc (String.toList_inj.mp hnil)
  constructor
  · intro c hc
    rw [beq_eq_false_iff_ne]
    rintro rfl
    obtain ⟨rest, hrest⟩ := List.head?_eq_some_iff.mp hc
    rw [hrest] at hempty
    exact hempty (by simp [Core.textComponents, OsPath.splitAt])
  · intro c hc
    rw [beq_eq_false_iff_ne]
    rintro rfl
    obtain ⟨start, hstart⟩ := List.getLast?_eq_some_iff.mp hc
    rw [hstart] at hempty
    exact hempty (by simp [Core.textComponents, OsPath.splitAt_append_sep, OsPath.splitAt])

theorem Scanned.toList_ne_nil (h : Scanned path) : (pathString path).toList ≠ [] := by
  intro hnil
  have hparts := h.textComponents
  rw [hnil] at hparts
  obtain ⟨c, rest, rfl⟩ := List.exists_cons_of_ne_nil h.ne_nil
  have hc : c = "" := String.toList_inj.mp (List.cons.inj hparts).1.symm
  exact h.ne_empty c List.mem_cons_self hc

/-- A clean path is read as it is. -/
theorem Scanned.readComponents_of_clean (h : Scanned path) (hclean : Clean path) :
    readComponents (pathString path) = path.map String.toList := by
  have hread : readPath (pathString path) = (pathString path).toList := by
    unfold readPath
    rw [trimChars_of_bare hclean.1, map_forward_of_notMem hclean.2, trimChars_of_bare h.bare]
  unfold readComponents
  rw [hread, if_neg (by rw [List.isEmpty_iff]; exact h.toList_ne_nil), h.textComponents]

/-- A text that starts with a folder is read as one that does. -/
theorem readPath_append {folder rest : List Char} {s : String} (hs : s.toList = folder ++ '/' :: rest)
    (hne : folder ≠ []) (hspace : ∀ c ∈ folder.head?, isTrimmed c = false)
    (hback : '\\' ∉ folder) (hbare : Bare (· == '/') folder) :
    ∃ r, readPath s = folder ∨ readPath s = folder ++ '/' :: r := by
  have hhead : ∀ {p : Char → Bool} {r : List Char}, (∀ c ∈ folder.head?, p c = false) →
      ∀ c ∈ (folder ++ r).head?, p c = false := by
    intro p r h c hc
    rw [List.head?_append_of_ne_nil _ hne] at hc
    exact h c hc
  obtain ⟨r, htrim, _⟩ := rdropWhile_append_cons (p := isTrimmed) (b := '/') (by decide) folder rest
  have htrimmed : trimChars isTrimmed s.toList = folder ++ '/' :: r := by
    rw [hs, trimChars_eq_rdropWhile, dropWhile_of_head? (hhead hspace), htrim]
  have hforward : (folder ++ '/' :: r).map forward = folder ++ '/' :: r.map forward := by
    rw [List.map_append, map_forward_of_notMem hback]
    rfl
  obtain ⟨start, last, rfl⟩ := List.eq_nil_or_concat' folder |>.resolve_left hne
  have hlast : (last == '/') = false := hbare.2 last (by simp)
  obtain ⟨r', hdrop, hprefix⟩ :=
    rdropWhile_append_cons (p := (· == '/')) hlast start ('/' :: r.map forward)
  have hread : readPath s = start ++ [last] ++ r' := by
    unfold readPath
    rw [htrimmed, hforward, trimChars_eq_rdropWhile, dropWhile_of_head? (hhead hbare.1),
      List.append_assoc, List.singleton_append, hdrop]
    simp
  rcases r' with _ | ⟨c, r'⟩
  · exact ⟨[], Or.inl (by rw [hread, List.append_nil])⟩
  · obtain rfl := (List.cons_prefix_cons.mp hprefix).1
    exact ⟨r', Or.inr hread⟩

theorem toList_pathString_append {folders rest : Path} (hne : folders ≠ []) (hrest : rest ≠ []) :
    (pathString (folders ++ rest)).toList =
      (pathString folders).toList ++ '/' :: (pathString rest).toList := by
  rw [toList_pathString, toList_pathString, toList_pathString, List.map_append,
    OsPath.intercalate_append (by simpa using hne) (by simpa using hrest)]

/-- A path in a folder is read as one. -/
theorem Scanned.prefix_readComponents {pre : String} (h : Scanned path) (hstored : Stored pre.toList)
    (hspace : ∀ c ∈ (pathString path).toList.head?, isTrimmed c = false)
    (hfolder : Core.textComponents pre.toList <+: path.dropLast.map String.toList) :
    Core.textComponents pre.toList <+: readComponents (pathString path) := by
  have htext : ∃ rest, (pathString path).toList = pre.toList ++ '/' :: rest := by
    have hprefix := hfolder.trans ((List.dropLast_prefix path).map String.toList)
    rw [← h.textComponents] at hprefix
    rcases OsPath.splitAt_prefix_iff.mp hprefix with hsame | ⟨rest, hrest⟩
    · -- the last name is no part of the folder
      have hlength := hfolder.length_le
      rw [← hsame, h.textComponents, List.length_map, List.length_map, List.length_dropLast] at hlength
      have := List.length_pos_iff.mpr h.ne_nil
      omega
    · exact ⟨rest, by rw [← hrest, List.append_assoc, List.singleton_append]⟩
  obtain ⟨rest, htext⟩ := htext
  have hstart : ∀ c ∈ pre.toList.head?, isTrimmed c = false := by
    intro c hc
    apply hspace c
    rw [htext, List.head?_append_of_ne_nil _ hstored.ne_nil]
    exact hc
  obtain ⟨r, hread⟩ := readPath_append htext hstored.ne_nil hstart hstored.noBackslash hstored.bare
  have hnonempty : ¬ (readPath (pathString path)).isEmpty = true := by
    rw [List.isEmpty_iff]
    rcases hread with hread | hread
    · rw [hread]
      exact hstored.ne_nil
    · rw [hread]
      exact List.append_ne_nil_of_right_ne_nil _ (List.cons_ne_nil _ _)
  unfold readComponents
  rw [if_neg hnonempty]
  exact OsPath.splitAt_prefix_iff.mpr (hread.imp id fun hread => ⟨r, by rw [hread]; simp⟩)

end Matched

/-! ## When prefixes match by component -/

section Law

variable {raw n : String} {includes : List String} {path : Path}

/-- No white space stands at the ends of the text between the outer white space and the outer slashes. -/
def Tidy (raw : String) : Prop := Bare isTrimmed (innerText raw)

theorem normalizeIncludePrefix_idempotent_iff (h : normalizeIncludePrefix raw = .ok n) :
    normalizeIncludePrefix n = .ok n ↔ Tidy raw := by
  obtain ⟨htext, hstored⟩ := of_normalizeIncludePrefix h
  rw [normalizeIncludePrefix_stored hstored, htext, bare_map_forward]
  rfl

/-- A clean path, or one in a folder of the list, is matched by component. -/
theorem matches_iff_of_clean_or_inFolder (hne : includes ≠ []) (hincludes : Accepted includes)
    (h : Scanned path) (hcond : Clean path ∨ InFolder includes path) :
    pathMatchesIncludes (pathString path) includes = true ↔ Selected includes path := by
  have hstored : ∀ pre ∈ includes, Stored pre.toList := by
    intro pre hpre
    obtain ⟨_, hraw⟩ := hincludes pre hpre
    exact (of_normalizeIncludePrefix hraw).2
  rw [pathMatchesIncludes_iff hne fun pre hpre => (hstored pre hpre).ne_nil]
  rcases hcond with hclean | ⟨hspace, pre, hpre, hfolder⟩
  · rw [h.readComponents_of_clean hclean]
    rfl
  · exact iff_of_true ⟨pre, hpre, h.prefix_readComponents (hstored pre hpre) hspace hfolder⟩
      ⟨pre, hpre, hfolder.trans ((List.dropLast_prefix path).map String.toList)⟩

end Law

/-! ## Paths that are not read as they are -/

section Misread

variable {path : Path}

/-- Characters that reading a path neither takes off nor changes. -/
def solid (c : Char) : Bool := !isTrimmed c && c != '\\' && c != '/'

theorem countP_trimChars {p q : Char → Bool} (h : ∀ c, p c = true → q c = false) (t : List Char) :
    (trimChars p t).countP q = t.countP q := by
  have hdrop : ∀ t : List Char, (t.dropWhile p).countP q = t.countP q := by
    intro t
    induction t with
    | nil => rfl
    | cons c t ih =>
        cases hc : p c with
        | false => rw [List.dropWhile_cons_of_neg (by rw [hc]; decide)]
        | true => rw [List.dropWhile_cons_of_pos hc, ih, List.countP_cons_of_neg (by rw [h c hc]; decide)]
  unfold trimChars
  rw [List.countP_reverse, hdrop, List.countP_reverse, hdrop]

/-- A path that is read has the solid characters of its text. -/
theorem countP_readPath (s : String) : (readPath s).countP solid = s.toList.countP solid := by
  have hforward : solid ∘ forward = solid := by
    funext c
    show solid (forward c) = solid c
    unfold forward
    split_ifs with h
    · rw [h]
      decide
    · rfl
  have hspace : ∀ c, isTrimmed c = true → solid c = false := by
    intro c hc
    unfold solid
    rw [hc]
    rfl
  have hslash : ∀ c, (c == '/') = true → solid c = false := by
    intro c hc
    rw [beq_iff_eq.mp hc]
    decide
  unfold readPath
  rw [countP_trimChars hslash, List.countP_map, hforward, countP_trimChars hspace]

/-- `..` is not made by reading a path. -/
theorem noDots_readPath {s : String} (h : ¬ ['.', '.'] <:+: s.toList) :
    ¬ ['.', '.'] <:+: readPath s := by
  intro hin
  have hdot : ∀ c, forward c = '.' → c = '.' := by
    intro c hc
    unfold forward at hc
    split_ifs at hc
    · exact absurd hc (by decide)
    · exact hc
  obtain ⟨start, rest, heq⟩ := hin.trans (trimChars_isInfix _ _)
  obtain ⟨t₁, t₂, ht, h₁, -⟩ := List.map_eq_append_iff.mp heq.symm
  obtain ⟨t₃, t₄, rfl, -, h₄⟩ := List.map_eq_append_iff.mp h₁
  obtain ⟨c, t₅, rfl, hc, h₅⟩ := List.map_eq_cons_iff.mp h₄
  obtain ⟨d, t₆, rfl, hd, h₆⟩ := List.map_eq_cons_iff.mp h₅
  rw [List.map_eq_nil_iff.mp h₆, hdot c hc, hdot d hd] at ht
  have hsub : ['.', '.'] <:+: trimChars isTrimmed s.toList := ⟨t₃, t₂, ht.symm⟩
  exact h (hsub.trans (trimChars_isInfix _ _))

/-- What is stored can be had, from the folder between slashes. -/
theorem exists_raw {n : String} (h : Stored n.toList) : ∃ raw, normalizeIncludePrefix raw = .ok n := by
  refine ⟨String.ofList ('/' :: n.toList ++ ['/']), ?_⟩
  have hbare : Bare isTrimmed ('/' :: n.toList ++ ['/']) := by
    constructor
    · intro c hc
      cases hc
      decide
    · intro c hc
      rw [List.getLast?_concat] at hc
      cases hc
      decide
  have hback : '\\' ∉ '/' :: n.toList ++ ['/'] := by simp [h.noBackslash]
  have hdots : ¬ ['.', '.'] <:+: '/' :: n.toList ++ ['/'] := by
    intro hin
    rcases List.infix_concat_iff.mp hin with hsuffix | hin
    · obtain ⟨start, hstart⟩ := hsuffix
      have hlast := congrArg List.getLast? hstart
      rw [List.getLast?_concat, List.getLast?_append_of_ne_nil _ (by simp)] at hlast
      exact absurd (Option.some.inj hlast) (by decide)
    · rcases List.infix_cons_iff.mp hin with hprefix | hin
      · exact absurd (List.cons_prefix_cons.mp hprefix).1 (by decide)
      · exact h.noDots hin
  have htrim : trimChars (· == '/') ('/' :: n.toList ++ ['/']) = n.toList := by
    have hdrop : ('/' :: n.toList ++ ['/']).dropWhile (· == '/') = n.toList ++ ['/'] := by
      rw [List.cons_append, List.dropWhile_cons_of_pos (by decide)]
      apply dropWhile_of_head?
      intro d hd
      rw [List.head?_append_of_ne_nil _ h.ne_nil] at hd
      exact h.bare.1 d hd
    have hself := trimChars_of_bare h.bare
    rw [trimChars_eq_rdropWhile, dropWhile_of_head? h.bare.1] at hself
    rw [trimChars_eq_rdropWhile, hdrop, List.rdropWhile_concat_pos _ _ _ (by decide), hself]
  unfold normalizeIncludePrefix
  rw [String.toList_ofList, trimChars_of_bare hbare, map_forward_of_notMem hback]
  dsimp only
  rw [htrim, if_neg (by simp), if_neg hdots, if_neg (by rw [List.isEmpty_iff]; exact h.ne_nil),
    String.ofList_toList]

/-- The last name has a solid character. -/
theorem Scanned.exists_solid (h : Scanned path) (hpath : Nameable path) :
    ∃ start name, path = start ++ [name] ∧ ∃ c ∈ name.toList, solid c = true := by
  obtain ⟨name, hname, c, hc, hspace, hback⟩ := hpath.last
  obtain ⟨start, rfl⟩ := List.getLast?_eq_some_iff.mp hname
  have hslash : c ≠ '/' := by
    rintro rfl
    exact h.noSlash name (by simp) hc
  refine ⟨start, name, rfl, c, hc, ?_⟩
  unfold solid
  rw [hspace, bne_iff_ne.mpr hback, bne_iff_ne.mpr hslash]
  rfl

theorem mem_pathString_concat {start : Path} {name : String} {c : Char} (hc : c ∈ name.toList) :
    c ∈ (pathString (start ++ [name])).toList := by
  have hlast : (pathString [name]).toList = name.toList := by
    rw [toList_pathString, List.map_singleton, List.intercalate_singleton]
  rcases eq_or_ne start [] with rfl | hstart
  · rw [List.nil_append, hlast]
    exact hc
  · rw [toList_pathString_append hstart (List.cons_ne_nil _ _), hlast]
    exact List.mem_append_right _ (List.mem_cons_of_mem _ hc)

/-- If a path is read as some of its folders, then these are all of it. -/
theorem Scanned.readPath_eq (h : Scanned path) (hpath : Nameable path)
    (hread : Core.textComponents (readPath (pathString path)) <+: path.map String.toList) :
    readPath (pathString path) = (pathString path).toList := by
  obtain ⟨rest, hrest⟩ := hread
  obtain ⟨folders, names, rfl, hfolders, rfl⟩ := List.map_eq_append_iff.mp hrest.symm
  have htext : (pathString folders).toList = readPath (pathString (folders ++ names)) := by
    rw [toList_pathString, hfolders]
    exact OsPath.intercalate_splitAt _
  rcases eq_or_ne names [] with rfl | hne
  · rw [← htext, List.append_nil]
  · exfalso
    have hfoldersNe : folders ≠ [] := by
      rintro rfl
      exact OsPath.splitAt_ne_nil _ hfolders.symm
    -- reading has lost no solid character, so there is none behind the folders
    have hcount := countP_readPath (pathString (folders ++ names))
    rw [← htext, toList_pathString_append hfoldersNe hne, List.countP_append,
      List.countP_cons_of_neg (by decide)] at hcount
    have hnone : (pathString names).toList.countP solid = 0 := by omega
    obtain ⟨start, name, heq, c, hc, hsolid⟩ := h.exists_solid hpath
    obtain ⟨start', rfl⟩ : ∃ start', names = start' ++ [name] := by
      apply List.getLast?_eq_some_iff.mp
      rw [← List.getLast?_append_of_ne_nil folders hne, heq, List.getLast?_concat]
    exact List.countP_eq_zero.mp hnone c (mem_pathString_concat hc) hsolid

/-- A path that is read as it is, is clean. -/
theorem clean_of_readPath_eq (h : readPath (pathString path) = (pathString path).toList) :
    Clean path := by
  refine ⟨?_, ?_⟩
  · have hlength := length_trimChars_le (· == '/')
      ((trimChars isTrimmed (pathString path).toList).map forward)
    rw [List.length_map] at hlength
    have hread := congrArg List.length h
    unfold readPath at hread
    rw [hread] at hlength
    exact trimChars_eq_self_iff.mp ((trimChars_isInfix _ _).eq_of_length_le hlength)
  · rw [← h]
    exact fun hmem => notMem_map_forward _ ((trimChars_isInfix _ _).subset hmem)

/-- **Only clean paths are matched by component, whatever the prefixes.** What an unclean path is read
as can be stored, and is taken for the path. -/
theorem forall_includes_iff_clean (h : Scanned path) (hpath : Nameable path) :
    (∀ includes ≠ [], Accepted includes →
      (pathMatchesIncludes (pathString path) includes = true ↔ Selected includes path)) ↔
        Clean path := by
  refine ⟨fun hall => ?_, fun hclean includes hne hincludes =>
    matches_iff_of_clean_or_inFolder hne hincludes h (Or.inl hclean)⟩
  have hne : readPath (pathString path) ≠ [] := by
    intro hnil
    obtain ⟨start, name, rfl, c, hc, hsolid⟩ := h.exists_solid hpath
    have hcount := countP_readPath (pathString (start ++ [name]))
    rw [hnil, List.countP_nil] at hcount
    exact List.countP_eq_zero.mp hcount.symm c (mem_pathString_concat hc) hsolid
  have hstored : Stored (String.ofList (readPath (pathString path))).toList := by
    rw [String.toList_ofList]
    exact ⟨hne, fun hmem => notMem_map_forward _ ((trimChars_isInfix _ _).subset hmem),
      noDots_readPath hpath.noDots, bare_trimChars _ _⟩
  have haccepted : Accepted [String.ofList (readPath (pathString path))] := by
    intro pre hpre
    rw [List.mem_singleton.mp hpre]
    exact exists_raw hstored
  have hmatch := hall _ (List.cons_ne_nil _ _) haccepted
  rw [pathMatchesIncludes_iff (List.cons_ne_nil _ _) (by simpa using hne)] at hmatch
  obtain ⟨pre, hpre, hprefix⟩ := hmatch.mp ⟨_, List.mem_singleton_self _, by
    rw [String.toList_ofList, readComponents, if_neg (by rw [List.isEmpty_iff]; exact hne)]⟩
  rw [List.mem_singleton.mp hpre, String.toList_ofList] at hprefix
  exact clean_of_readPath_eq (h.readPath_eq hpath hprefix)

end Misread

/-! ## The law -/

/-- **Prefixes match by component.** A prefix is normalized once and for all if and only if the ends of
the raw prefix are tidy. A path is matched by component if it is clean, or does not start with white space
and is in a folder of the list; and a path that can be named is so by every list if and only if it is
clean. -/
theorem includes_by_component (raw : String) (path : Path) :
    (∀ n, normalizeIncludePrefix raw = .ok n → (normalizeIncludePrefix n = .ok n ↔ Tidy raw)) ∧
      (Scanned path →
        (∀ includes ≠ [], Accepted includes →
          Clean path ∨ InFolder includes path →
            (pathMatchesIncludes (pathString path) includes = true ↔ Selected includes path)) ∧
        (Nameable path →
          ((∀ includes ≠ [], Accepted includes →
            (pathMatchesIncludes (pathString path) includes = true ↔ Selected includes path)) ↔
              Clean path))) := by
  refine ⟨fun _ => normalizeIncludePrefix_idempotent_iff, fun h => ⟨?_, ?_⟩⟩
  · intro includes hne hincludes hcond
    exact matches_iff_of_clean_or_inFolder hne hincludes h hcond
  · exact forall_includes_iff_clean h

/-- A folder `docs` and a file in it. -/
theorem includes_by_component_docs :
    (normalizeIncludePrefix "docs" = .ok "docs" ↔ Tidy "/docs/") ∧
      (pathMatchesIncludes (pathString ["docs", "a b"]) ["docs"] = true ↔
        Selected ["docs"] ["docs", "a b"]) ∧
      ((∀ includes ≠ [], Accepted includes →
        (pathMatchesIncludes (pathString ["docs", "a b "]) includes = true ↔
          Selected includes ["docs", "a b "])) ↔ Clean ["docs", "a b "]) := by
  have hdocs : normalizeIncludePrefix "/docs/" = .ok "docs" := by decide +kernel
  obtain ⟨hnormalize, hmatch⟩ := includes_by_component "/docs/" ["docs", "a b"]
  obtain ⟨-, hexact⟩ := includes_by_component "/docs/" ["docs", "a b "]
  refine ⟨hnormalize "docs" hdocs, ?_, ?_⟩
  · obtain ⟨henough, -⟩ := hmatch ⟨by simp, by decide, by decide +kernel, by decide +kernel⟩
    have hfirst : (pathString ["docs", "a b"]).toList.head? = some 'd' := by decide +kernel
    have hhead : ∀ c ∈ (pathString ["docs", "a b"]).toList.head?, isTrimmed c = false := by
      rintro c hc
      cases hfirst.symm.trans hc
      decide
    refine henough ["docs"] (by simp) ?_ (Or.inr ⟨hhead, "docs", by simp, by decide +kernel⟩)
    intro pre hpre
    exact ⟨"/docs/", by rw [hdocs, List.mem_singleton.mp hpre]⟩
  · obtain ⟨-, hiff⟩ := hexact ⟨by simp, by decide, by decide +kernel, by decide +kernel⟩
    exact hiff ⟨by decide +kernel, "a b ", rfl, 'b', by decide +kernel, by decide +kernel, by decide⟩

/-- White space behind the first slash is stored and then taken off; a file `docs ` is taken for the
folder `docs`, and a file `my\docs` for one in the folder `my`. -/
theorem not_by_component :
    (normalizeIncludePrefix "/ docs" = .ok " docs" ∧ normalizeIncludePrefix " docs" ≠ .ok " docs") ∧
      (pathMatchesIncludes (pathString ["docs "]) ["docs"] = true ∧ ¬ Selected ["docs"] ["docs "]) ∧
      (pathMatchesIncludes (pathString ["my\\docs"]) ["my"] = true ∧ ¬ Selected ["my"] ["my\\docs"]) := by
  have hnone : ∀ pre c : String, textComponents pre.toList = [pre.toList] → pre ≠ c →
      ¬ Selected [pre] [c] := by
    rintro pre c hpre hne ⟨pre', hpre', hprefix⟩
    rw [List.mem_singleton.mp hpre', hpre] at hprefix
    exact hne (String.toList_inj.mp (List.cons_prefix_cons.mp hprefix).1)
  refine ⟨⟨by decide +kernel, by decide +kernel⟩, ⟨by decide +kernel, ?_⟩, by decide +kernel, ?_⟩
  · exact hnone "docs" "docs " (by decide +kernel) (by decide +kernel)
  · exact hnone "my" "my\\docs" (by decide +kernel) (by decide +kernel)

end DiskArcana.Core
