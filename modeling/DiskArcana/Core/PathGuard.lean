import DiskArcana.Core.Filter
import DiskArcana.Lib.OsPath
import DiskArcana.Lib.Trace
import DiskArcana.Lib.UnixWalk

/-!
# The guard on paths

`disk-core/src/path_guard.rs`. A path is the list of the segments between its slashes; empty
segments and dots are no components, but at the end of a path they ask for a directory. `validate`
canonicalises the request, and where there is nothing to canonicalise it takes the nearest ancestor
that there is and puts the names after it.

The first of these names may be a link that canonicalisation could not pass: a dangling one, for
example. Then the path that is returned is below the root, and what is written at it is not
(`LinkOut`, `confined_iff`).
-/

namespace DiskArcana.Core.PathGuard

open DiskArcana.Lib DiskArcana.Lib.OsPath DiskArcana.Lib.UnixFs DiskArcana.Lib.UnixFs.FileSystem

/-- Source: `error.rs`, `PathGuardError` -/
inductive PathGuardError where
  | nullByte
  | invalidUtf8
  | relativeWithDotDot
  | outsideRoot
  | symlinkOutsideRoot
  | pathTooLong
  deriving DecidableEq

/-! ## Paths -/

/-- The segments of a path, with a `/` in front when it is absolute. -/
abbrev RawPath := List String

/-- A segment that is no component. -/
def isJunk (segment : String) : Bool := segment == "" || segment == "."

def segmentsOf (t : List Char) : RawPath :=
  let parts := (splitAt '/' t).map String.ofList
  if t.head? = some '/' then "/" :: parts else parts

/-- A path from its end, without what follows its last component. -/
def dropTail : List String → List String
  | [] => []
  | segment :: rest =>
    -- a relative path may be a dot alone
    if isJunk segment = true ∧ ¬ (segment = "." ∧ rest = []) then dropTail rest else segment :: rest

/-- A path without what follows its last component. -/
def trim (path : RawPath) : RawPath := (dropTail path.reverse).reverse

section

variable {α : Type} (fs : FileSystem α) (cwd : Location)

/-- `Path::canonicalize`. -/
def realpath (path : RawPath) : Option Location :=
  if path = [] ∨ path = [""] then none else canonicalize fs cwd path

/-- The loop over the ancestors of a path, from its end: the first ancestor that there is, and the
names after it. -/
def findAncestor : List String → List String → Option (Location × List String)
  | [], _ => none
  | segment :: rest, suffix =>
    if isJunk segment then findAncestor rest suffix
    else if IsEntryName segment then
      let parent := (dropTail rest).reverse
      if parent = [] then none
      else
        match realpath fs cwd parent with
        | some loc => some (loc, segment :: suffix)
        | none => findAncestor rest (segment :: suffix)
    else none

/-- The path that is looked at: an absolute request by itself, another one from the root. -/
def absoluteOf (root segments : RawPath) : RawPath :=
  if segments.head? = some "/" then segments else root ++ segments

/-- What the request is taken to mean. -/
def canonicalOf (path : RawPath) : Option Location :=
  match realpath fs cwd path with
  | some loc => some loc
  | none => (findAncestor fs cwd path.reverse []).map fun found => found.1 ++ found.2

/-- The length of the path of a location. -/
def pathLen (loc : Location) : ℕ := ("/" ++ pathString loc).utf8ByteSize

/-- Source: `path_guard.rs`, `path_max` -/
def pathMax : ℕ := 4096

/-- Source: `path_guard.rs`, `validate` -/
def validate (candidate : List UInt8) (root : RawPath) : Except PathGuardError Location :=
  if 0 ∈ candidate then .error .nullByte
  else
    match toStr candidate with
    | none => .error .invalidUtf8
    | some t =>
      if ".." ∈ segmentsOf t then .error .relativeWithDotDot
      else
        match realpath fs cwd root with
        | none => .error .outsideRoot
        | some canonicalRoot =>
          match canonicalOf fs cwd (absoluteOf root (segmentsOf t)) with
          | none => .error .outsideRoot
          | some canonical =>
            if ¬ canonicalRoot <+: canonical then .error .symlinkOutsideRoot
            else if pathMax < pathLen canonical then .error .pathTooLong
            else .ok canonical

/-! ## What a write touches -/

/-- The place that a file written at a path of names is put at. -/
def Touches (path loc : Location) : Prop :=
  locate fs maxLinks cwd (absolute path) = some loc ∧ canWrite fs loc = true

/-- A path below the root, where a write touches what is below the root. -/
def Confined (canonicalRoot path : Location) : Prop :=
  canonicalRoot <+: path ∧ ∀ loc, Touches fs cwd path loc → canonicalRoot <+: loc

/-- A path is cut at a name: before it, the path leads to a place, and up to any later name it leads
nowhere. -/
structure CutAt (front : RawPath) (name : String) (back : RawPath) (loc : Location) : Prop where
  isName : IsEntryName name
  later : ∀ s ∈ back, isJunk s = true ∨ IsEntryName s
  leads : realpath fs cwd (trim front) = some loc
  nowhere : ∀ pre s post, back = pre ++ s :: post → isJunk s = false →
    realpath fs cwd (trim (front ++ name :: pre)) = none

/-- The names in a part of a path. -/
def namesOf (path : RawPath) : List String := path.filter fun s => !isJunk s

/-- A request that the checks on its text let pass and that leads nowhere, where the first name it
does not get past is a link, and the link with the names after it leads out of the root to a place
that can be written at. -/
def LinkOut (candidate : List UInt8) (root : RawPath) : Prop :=
  ∃ t canonicalRoot front name back dir target loc,
    0 ∉ candidate ∧ toStr candidate = some t ∧ ".." ∉ segmentsOf t ∧
    realpath fs cwd root = some canonicalRoot ∧
    absoluteOf root (segmentsOf t) = front ++ name :: back ∧
    realpath fs cwd (front ++ name :: back) = none ∧ CutAt fs cwd front name back dir ∧
    canonicalRoot <+: dir ++ name :: namesOf back ∧ pathLen (dir ++ name :: namesOf back) ≤ pathMax ∧
    fs.lookup (dir ++ [name]) = some (.link target) ∧
    locate fs (maxLinks - 1) dir (target ++ namesOf back) = some loc ∧ canWrite fs loc = true ∧
    ¬ canonicalRoot <+: loc

end

/-! ## Cutting -/

variable {α : Type} {fs : FileSystem α} {cwd dir loc : Location} {front back path : RawPath}
  {name s : String} {suffix names : List String}

theorem isJunk_eq_false (h : IsEntryName s) : isJunk s = false := by
  simp [isJunk, h.2.1, h.2.2.1]

theorem dropTail_append_cons {js : List String} (hjs : ∀ s ∈ js, isJunk s = true)
    (hname : isJunk name = false) (rest : List String) :
    dropTail (js ++ name :: rest) = name :: rest := by
  induction js with
  | nil => simp [dropTail, hname]
  | cons j js ih =>
      have hj := hjs j List.mem_cons_self
      rw [List.cons_append, dropTail, if_pos ⟨hj, by simp⟩]
      exact ih fun s hs => hjs s (List.mem_cons_of_mem _ hs)

theorem trim_append_cons {js : List String} (hjs : ∀ s ∈ js, isJunk s = true)
    (hname : isJunk name = false) : trim (front ++ name :: js) = front ++ [name] := by
  have hreverse : (front ++ name :: js).reverse = js.reverse ++ name :: front.reverse := by simp
  rw [trim, hreverse, dropTail_append_cons (fun s hs => hjs s (List.mem_reverse.mp hs)) hname]
  simp

/-- What is dropped from the end of a path. -/
theorem exists_junk_of_dropTail (r : List String) :
    ∃ js, r = js ++ dropTail r ∧ ∀ s ∈ js, isJunk s = true := by
  induction r with
  | nil => exact ⟨[], rfl, by simp⟩
  | cons s rest ih =>
      rw [dropTail]
      split_ifs with h
      · obtain ⟨js, hrest, hjs⟩ := ih
        exact ⟨s :: js, by rw [List.cons_append, ← hrest], List.forall_mem_cons.mpr ⟨h.1, hjs⟩⟩
      · exact ⟨[], rfl, by simp⟩

theorem exists_junk_of_trim (path : RawPath) :
    ∃ js, path = trim path ++ js ∧ ∀ s ∈ js, isJunk s = true := by
  obtain ⟨js, hpath, hjs⟩ := exists_junk_of_dropTail path.reverse
  refine ⟨js.reverse, ?_, fun s hs => hjs s (List.mem_reverse.mp hs)⟩
  rw [trim, ← List.reverse_append, ← hpath, List.reverse_reverse]

theorem dropTail_ne_nil (h : ∃ s ∈ front, isJunk s = false) : dropTail front ≠ [] := by
  intro hnil
  obtain ⟨js, hfront, hjs⟩ := exists_junk_of_dropTail front
  rw [hnil, List.append_nil] at hfront
  obtain ⟨s, hs, hname⟩ := h
  rw [hjs s (hfront ▸ hs)] at hname
  cases hname

/-- Where a list that has one element more is cut. -/
theorem concat_eq_append_cons_iff {l : List String} {a : String} : l ++ [a] = front ++ name :: back ↔
    (back = [] ∧ front = l ∧ name = a) ∨ ∃ back', back = back' ++ [a] ∧ l = front ++ name :: back' := by
  constructor
  · intro h
    rcases List.eq_nil_or_concat' back with rfl | ⟨back', b, rfl⟩
    · obtain ⟨hl, ha⟩ := List.append_inj' h rfl
      exact Or.inl ⟨rfl, hl.symm, (List.singleton_inj.mp ha).symm⟩
    · have hsplit : l ++ [a] = (front ++ name :: back') ++ [b] := by simpa using h
      obtain ⟨hl, ha⟩ := List.append_inj' hsplit rfl
      exact Or.inr ⟨back', by rw [List.singleton_inj.mp ha], hl⟩
  · rintro (⟨rfl, rfl, rfl⟩ | ⟨back', rfl, rfl⟩)
    · rfl
    · simp

/-- The later cuts of a list that has one element more. -/
theorem forall_cut_concat {P : List String → String → Prop} {l : List String} {a : String} :
    (∀ pre s post, l ++ [a] = pre ++ s :: post → P pre s) ↔
      (∀ pre s post, l = pre ++ s :: post → P pre s) ∧ P l a := by
  constructor
  · intro h
    refine ⟨?_, h l a [] rfl⟩
    rintro pre s post rfl
    exact h pre s (post ++ [a]) (by simp)
  · rintro ⟨h, hlast⟩ pre s post hsplit
    rcases concat_eq_append_cons_iff.mp hsplit with ⟨-, rfl, rfl⟩ | ⟨post, -, hl⟩
    · exact hlast
    · exact h pre s post hl

/-- A path that has one segment more is cut at the same places. -/
theorem cutAt_concat_iff : CutAt fs cwd front name (back ++ [s]) loc ↔
    CutAt fs cwd front name back loc ∧ (isJunk s = true ∨
      IsEntryName s ∧ realpath fs cwd (trim (front ++ name :: back)) = none) := by
  constructor
  · rintro ⟨hname, hlater, hleads, hnowhere⟩
    obtain ⟨hnowhere, hlast⟩ := forall_cut_concat.mp hnowhere
    refine ⟨⟨hname, fun x hx => hlater x (List.mem_append_left _ hx), hleads, hnowhere⟩, ?_⟩
    rcases hlater s (by simp) with hjunk | hentry
    · exact Or.inl hjunk
    · exact Or.inr ⟨hentry, hlast (isJunk_eq_false hentry)⟩
  · rintro ⟨⟨hname, hlater, hleads, hnowhere⟩, hs⟩
    refine ⟨hname, ?_, hleads, forall_cut_concat.mpr ⟨hnowhere, ?_⟩⟩
    · simp only [List.mem_append, List.mem_singleton]
      rintro x (hx | rfl)
      · exact hlater x hx
      · exact hs.imp_right And.left
    · intro hclean
      rcases hs with hjunk | ⟨-, hnone⟩
      · rw [hjunk] at hclean
        cases hclean
      · exact hnone

theorem namesOf_concat_of_junk (h : isJunk s = true) : namesOf (back ++ [s]) = namesOf back := by
  simp [namesOf, h]

theorem namesOf_concat (h : isJunk s = false) : namesOf (back ++ [s]) = namesOf back ++ [s] := by
  simp [namesOf, h]

/-- The loop finds the place that the path is cut after. -/
theorem findAncestor_eq_some_iff {r : List String} : findAncestor fs cwd r suffix = some (loc, names) ↔
    ∃ front name back, r.reverse = front ++ name :: back ∧ CutAt fs cwd front name back loc ∧
      names = name :: (namesOf back ++ suffix) := by
  induction r generalizing suffix with
  | nil => simp [findAncestor]
  | cons s rest ih =>
      rw [List.reverse_cons, findAncestor]
      by_cases hjunk : isJunk s = true
      · rw [if_pos hjunk, ih]
        constructor
        · rintro ⟨front, name, back, hrest, hcut, rfl⟩
          exact ⟨front, name, back ++ [s], concat_eq_append_cons_iff.mpr (Or.inr ⟨back, rfl, hrest⟩),
            cutAt_concat_iff.mpr ⟨hcut, Or.inl hjunk⟩, by rw [namesOf_concat_of_junk hjunk]⟩
        · rintro ⟨front, name, back, hsplit, hcut, rfl⟩
          rcases concat_eq_append_cons_iff.mp hsplit with ⟨rfl, rfl, rfl⟩ | ⟨back, rfl, hrest⟩
          · rw [isJunk_eq_false hcut.isName] at hjunk
            cases hjunk
          · exact ⟨front, name, back, hrest, (cutAt_concat_iff.mp hcut).1,
              by rw [namesOf_concat_of_junk hjunk]⟩
      rw [if_neg hjunk]
      have hclean : isJunk s = false := by simpa using hjunk
      have hparent : (dropTail rest).reverse = trim rest.reverse := by rw [trim, List.reverse_reverse]
      by_cases hentry : IsEntryName s
      · rw [if_pos hentry, hparent]
        by_cases hempty : trim rest.reverse = []
        · rw [if_pos hempty]
          refine iff_of_false (by simp) ?_
          rintro ⟨front, name, back, hsplit, hcut, -⟩
          rcases concat_eq_append_cons_iff.mp hsplit with ⟨rfl, rfl, rfl⟩ | ⟨back, rfl, hrest⟩
          · have hleads := hcut.leads
            rw [hempty] at hleads
            simp [realpath] at hleads
          · have hmem : name ∈ rest := by
              rw [← List.mem_reverse, hrest]
              simp
            have hnil : dropTail rest = [] := by simpa [trim] using hempty
            exact dropTail_ne_nil ⟨name, hmem, isJunk_eq_false hcut.isName⟩ hnil
        rw [if_neg hempty]
        rcases hfound : realpath fs cwd (trim rest.reverse) with _ | found
        · rw [ih]
          constructor
          · rintro ⟨front, name, back, hrest, hcut, rfl⟩
            refine ⟨front, name, back ++ [s], concat_eq_append_cons_iff.mpr (Or.inr ⟨back, rfl, hrest⟩),
              cutAt_concat_iff.mpr ⟨hcut, Or.inr ⟨hentry, hrest ▸ hfound⟩⟩, ?_⟩
            rw [namesOf_concat hclean, List.append_assoc, List.singleton_append]
          · rintro ⟨front, name, back, hsplit, hcut, rfl⟩
            rcases concat_eq_append_cons_iff.mp hsplit with ⟨rfl, rfl, rfl⟩ | ⟨back, rfl, hrest⟩
            · rw [hcut.leads] at hfound
              cases hfound
            · refine ⟨front, name, back, hrest, (cutAt_concat_iff.mp hcut).1, ?_⟩
              rw [namesOf_concat hclean, List.append_assoc, List.singleton_append]
        · simp only [Option.some.injEq, Prod.mk.injEq]
          constructor
          · rintro ⟨rfl, rfl⟩
            exact ⟨rest.reverse, s, [], rfl, ⟨hentry, by simp, hfound, by simp⟩, rfl⟩
          · rintro ⟨front, name, back, hsplit, hcut, rfl⟩
            rcases concat_eq_append_cons_iff.mp hsplit with ⟨rfl, rfl, rfl⟩ | ⟨back, rfl, hrest⟩
            · exact ⟨Option.some.inj (hfound.symm.trans hcut.leads), rfl⟩
            · rcases (cutAt_concat_iff.mp hcut).2 with h | ⟨-, hnone⟩
              · exact absurd h hjunk
              · rw [← hrest, hfound] at hnone
                cases hnone
      · rw [if_neg hentry]
        refine iff_of_false (by simp) ?_
        rintro ⟨front, name, back, hsplit, hcut, -⟩
        rcases concat_eq_append_cons_iff.mp hsplit with ⟨rfl, rfl, rfl⟩ | ⟨back, rfl, hrest⟩
        · exact hentry hcut.isName
        · rcases (cutAt_concat_iff.mp hcut).2 with h | ⟨h, -⟩
          · exact hjunk h
          · exact hentry h

/-! ## What follows the cut -/

theorem realpath_eq_some_iff : realpath fs cwd path = some loc ↔
    path ≠ [] ∧ path ≠ [""] ∧ locate fs maxLinks cwd path = some loc ∧ isThere fs loc = true := by
  unfold realpath canonicalize
  split_ifs with h
  · refine iff_of_false (by simp) ?_
    rintro ⟨hne, hne', -⟩
    exact h.elim hne hne'
  · rw [not_or] at h
    rw [Option.filter_eq_some_iff]
    simp [h]

/-- Segments that are no components stay in a directory. -/
theorem locate_junk {links : ℕ} (hdir : isDir fs dir = true) {js : List String}
    (hjs : ∀ s ∈ js, isJunk s = true) (rest : List String) :
    locate fs links dir (js ++ rest) = locate fs links dir rest := by
  induction js with
  | nil => rfl
  | cons j js ih =>
      have hj : j = "" ∨ j = "." := by simpa [isJunk] using hjs j List.mem_cons_self
      have hstep : locate fs links dir (j :: (js ++ rest)) = locate fs links dir (js ++ rest) := by
        rcases links with _ | links
        · exact walk_stay hdir hj
        · exact walk_stay hdir hj
      rw [List.cons_append, hstep]
      exact ih fun s hs => hjs s (List.mem_cons_of_mem _ hs)

/-- The part of the path before the cut leads to the place, and goes on there. -/
theorem CutAt.locate_front (h : CutAt fs cwd front name back dir) (hdir : isDir fs dir = true) :
    ∃ left, ∀ rest, locate fs maxLinks cwd (front ++ rest) = locate fs left dir rest := by
  obtain ⟨-, -, hlocate, -⟩ := realpath_eq_some_iff.mp h.leads
  obtain ⟨js, hfront, hjs⟩ := exists_junk_of_trim front
  obtain ⟨left, -, hgo⟩ := locate_append hlocate hdir
  refine ⟨left, ?_⟩
  intro rest
  have hsplit : front ++ rest = trim front ++ (js ++ rest) := by rw [← List.append_assoc, ← hfront]
  rw [hsplit, ← locate_junk hdir hjs rest]
  exact hgo (js ++ rest)

/-- The name at the cut is no directory, because the path leads nowhere from there. -/
theorem CutAt.not_isDir (h : CutAt fs cwd front name back dir)
    (hnone : realpath fs cwd (front ++ name :: back) = none) (hdir : isDir fs dir = true) :
    isDir fs (dir ++ [name]) = false := by
  rw [Bool.eq_false_iff]
  intro hnext
  have hnode := isDir_concat_iff.mp hnext
  obtain ⟨left, hgo⟩ := h.locate_front hdir
  -- up to the next name there are only segments that stay in the directory
  have hthere : ∀ js, (∀ s ∈ js, isJunk s = true) → realpath fs cwd (front ++ name :: js) ≠ none := by
    intro js hjs
    have hname : locate fs left dir (name :: js) = some (dir ++ [name]) := by
      have hstep : locate fs left dir (name :: js) = locate fs left (dir ++ [name]) js := by
        rcases left with _ | left
        · exact walk_into hdir h.isName hnode (by simp)
        · exact walk_into hdir h.isName hnode (by simp)
      rw [hstep, ← List.append_nil js, locate_junk hnext hjs]
      rcases left with _ | left <;> rfl
    have hreal : realpath fs cwd (front ++ name :: js) = some (dir ++ [name]) := by
      refine realpath_eq_some_iff.mpr ⟨by simp, ?_, by rw [hgo, hname], by simp [isThere, hnode]⟩
      intro hsingle
      have hmem : name ∈ [""] := by
        rw [← hsingle]
        simp
      exact h.isName.2.1 (List.mem_singleton.mp hmem)
    rw [hreal]
    simp
  by_cases hback : ∃ s ∈ back, isJunk s = false
  · obtain ⟨pre, s, post, rfl, hs, hpre⟩ := Trace.exists_first hback
    have hjunk : ∀ x ∈ pre, isJunk x = true := fun x hx => by simpa using hpre x hx
    have hnowhere := h.nowhere pre s post rfl hs
    rw [trim_append_cons hjunk (isJunk_eq_false h.isName)] at hnowhere
    exact hthere [] (by simp) hnowhere
  · refine hthere back ?_ hnone
    intro s hs
    by_contra hclean
    exact hback ⟨s, hs, by simpa using hclean⟩

/-! ## What a write touches -/

/-- What a path leads to is there, and a write at its location touches nothing else. -/
theorem eq_of_touches_place (hfs : Upright fs) (hplace : Place fs path)
    (hthere : isThere fs path = true) (h : Touches fs cwd path loc) : loc = path := by
  obtain ⟨hlocate, hcan⟩ := h
  rcases hplace with hdir | ⟨dir, name, rfl, hdir, hname, hlink⟩
  · rw [← List.append_nil (absolute path), locate_absolute_append hfs hdir] at hlocate
    have hself : locate fs maxLinks path [] = some path := rfl
    exact (Option.some.inj (hself.symm.trans hlocate)).symm
  · have habsolute : absolute (dir ++ [name]) = absolute dir ++ [name] := rfl
    rw [habsolute, locate_absolute_append hfs hdir] at hlocate
    rcases hnode : fs.lookup (dir ++ [name]) with _ | node
    · simp [isThere, hnode] at hthere
    · have hinto : locate fs maxLinks dir [name] = some (dir ++ [name]) := by
        refine (walk_into hdir hname hnode ?_).trans rfl
        rintro target rfl
        exact hlink target hnode
      exact (Option.some.inj (hinto.symm.trans hlocate)).symm

/-- A write at the path that the cut gives touches this path, or what the link at the cut leads
to. -/
theorem CutAt.of_touches (h : CutAt fs cwd front name back dir) (hfs : Upright fs)
    (hcwd : isDir fs cwd = true) (hnone : realpath fs cwd (front ++ name :: back) = none)
    (hnames : "/" ∉ names) (htouch : Touches fs cwd (dir ++ name :: names) loc) :
    loc = dir ++ name :: names ∨ ∃ target, fs.lookup (dir ++ [name]) = some (.link target) ∧
      locate fs (maxLinks - 1) dir (target ++ names) = some loc := by
  obtain ⟨hlocate, -⟩ := htouch
  obtain ⟨-, -, hleads, hthere⟩ := realpath_eq_some_iff.mp h.leads
  have habsolute : ∀ (above below : List String), absolute (above ++ below) = absolute above ++ below :=
    fun _ _ => rfl
  rcases hdir : isDir fs dir with _ | _
  · -- the place is a file, and a file has no names below it
    rcases place_of_locate hfs hcwd hleads with hdir' | ⟨above, last, rfl, habove, hlast, hlink⟩
    · rw [hdir'] at hdir
      cases hdir
    · rw [List.append_assoc, habsolute, locate_absolute_append hfs habove] at hlocate
      rcases hnode : fs.lookup (above ++ [last]) with _ | node
      · simp [isThere, hnode] at hthere
      · have hinto : locate fs maxLinks above (last :: name :: names) = none := by
          refine (walk_into habove hlast hnode ?_).trans (walk_of_not_isDir hdir h.isName.1)
          rintro target rfl
          exact hlink target hnode
        rw [List.singleton_append, hinto] at hlocate
        cases hlocate
  rw [habsolute, locate_absolute_append hfs hdir] at hlocate
  rcases hnode : fs.lookup (dir ++ [name]) with _ | _ | content | target
  · left
    have hmissing : locate fs maxLinks dir (name :: names) =
        if names = [] then some (dir ++ [name]) else none := walk_missing hdir h.isName hnode
    rw [hmissing] at hlocate
    split_ifs at hlocate with hlast
    rw [← Option.some.inj hlocate, hlast]
  · have hnot := h.not_isDir hnone hdir
    rw [isDir_concat_iff.mpr hnode] at hnot
    cases hnot
  · left
    have hfile : locate fs maxLinks dir (name :: names) =
        walk fs (locate fs (maxLinks - 1)) (dir ++ [name]) names :=
      walk_into hdir h.isName hnode (by simp)
    have hnot : isDir fs (dir ++ [name]) = false := by
      rw [Bool.eq_false_iff, Ne, isDir_concat_iff, hnode]
      simp
    rw [hfile] at hlocate
    rcases names with _ | ⟨next, names⟩
    · exact (Option.some.inj hlocate).symm
    · rw [walk_of_not_isDir hnot (Ne.symm (List.ne_of_not_mem_cons hnames))] at hlocate
      cases hlocate
  · right
    exact ⟨target, rfl, (walk_link hdir h.isName hnode).symm.trans hlocate⟩

/-! ## The guard -/

variable {candidate : List UInt8} {root : RawPath}

theorem validate_eq_ok_iff : validate fs cwd candidate root = .ok loc ↔
    ∃ t canonicalRoot, 0 ∉ candidate ∧ toStr candidate = some t ∧ ".." ∉ segmentsOf t ∧
      realpath fs cwd root = some canonicalRoot ∧
      canonicalOf fs cwd (absoluteOf root (segmentsOf t)) = some loc ∧
      canonicalRoot <+: loc ∧ pathLen loc ≤ pathMax := by
  unfold validate
  by_cases hnul : 0 ∈ candidate
  · simp [hnul]
  rw [if_neg hnul]
  rcases ht : toStr candidate with _ | t
  · simp
  by_cases hup : ".." ∈ segmentsOf t
  · simp [hup]
  simp only [if_neg hup]
  rcases hroot : realpath fs cwd root with _ | canonicalRoot
  · simp
  rcases hcanonical : canonicalOf fs cwd (absoluteOf root (segmentsOf t)) with _ | canonical
  · simp [hcanonical]
  simp only
  constructor
  · intro h
    split_ifs at h with hpre hlen
    obtain rfl := Except.ok.inj h
    exact ⟨t, canonicalRoot, hnul, rfl, hup, rfl, hcanonical, by simpa using hpre, by omega⟩
  · rintro ⟨t', canonicalRoot', -, ht', -, hroot', hcanonical', hpre, hlen⟩
    obtain rfl := Option.some.inj ht'
    obtain rfl := Option.some.inj hroot'
    obtain rfl := Option.some.inj (hcanonical.symm.trans hcanonical')
    rw [if_neg (not_not.mpr hpre), if_neg (by omega)]

theorem slash_notMem_namesOf (h : CutAt fs cwd front name back dir) : "/" ∉ namesOf back := by
  intro hmem
  obtain ⟨hback, -⟩ := List.mem_filter.mp hmem
  rcases h.later "/" hback with hjunk | hentry
  · cases hjunk
  · exact hentry.1 rfl

/-- What the guard makes of a request that leads nowhere. -/
theorem canonicalOf_of_none (hnone : realpath fs cwd path = none) : canonicalOf fs cwd path = some loc ↔
    ∃ front name back dir, path = front ++ name :: back ∧ CutAt fs cwd front name back dir ∧
      loc = dir ++ name :: namesOf back := by
  unfold canonicalOf
  simp only [hnone, Option.map_eq_some_iff, Prod.exists, findAncestor_eq_some_iff, List.reverse_reverse,
    List.append_nil]
  constructor
  · rintro ⟨dir, names, ⟨front, name, back, hpath, hcut, rfl⟩, rfl⟩
    exact ⟨front, name, back, dir, hpath, hcut, rfl⟩
  · rintro ⟨front, name, back, dir, hpath, hcut, rfl⟩
    exact ⟨dir, _, ⟨front, name, back, hpath, hcut, rfl⟩, rfl⟩

theorem canonicalOf_of_some (hsome : realpath fs cwd path = some loc) :
    canonicalOf fs cwd path = some loc := by
  unfold canonicalOf
  rw [hsome]

/-- **The guard confines a request exactly when no link at the first name that it does not get past
leads out of the root.** -/
theorem confined_iff (hfs : Upright fs) (hcwd : isDir fs cwd = true) (candidate : List UInt8)
    (root : RawPath) :
    (∀ canonicalRoot path, realpath fs cwd root = some canonicalRoot →
      validate fs cwd candidate root = .ok path → Confined fs cwd canonicalRoot path) ↔
      ¬ LinkOut fs cwd candidate root := by
  constructor
  · rintro hconfined ⟨t, canonicalRoot, front, name, back, dir, target, loc, hnul, ht, hup, hroot,
      hpath, hnone, hcut, hpre, hlen, hnode, hlocate, hcan, hout⟩
    have hdir : isDir fs dir = true := hfs.parent dir name (by simp [hnode])
    have hvalidate : validate fs cwd candidate root = .ok (dir ++ name :: namesOf back) := by
      refine validate_eq_ok_iff.mpr ⟨t, canonicalRoot, hnul, ht, hup, hroot, ?_, hpre, hlen⟩
      rw [hpath]
      exact (canonicalOf_of_none hnone).mpr ⟨front, name, back, dir, rfl, hcut, rfl⟩
    refine hout ((hconfined canonicalRoot _ hroot hvalidate).2 loc ⟨?_, hcan⟩)
    have habsolute : absolute (dir ++ name :: namesOf back) = absolute dir ++ name :: namesOf back :=
      rfl
    rw [habsolute, locate_absolute_append hfs hdir]
    exact (walk_link hdir hcut.isName hnode).trans hlocate
  · intro hno canonicalRoot path hroot hvalidate
    obtain ⟨t, canonicalRoot', hnul, ht, hup, hroot', hcanonical, hpre, hlen⟩ :=
      validate_eq_ok_iff.mp hvalidate
    obtain rfl := Option.some.inj (hroot.symm.trans hroot')
    refine ⟨hpre, ?_⟩
    intro loc htouch
    rcases hreal : realpath fs cwd (absoluteOf root (segmentsOf t)) with _ | there
    · obtain ⟨front, name, back, dir, hpath, hcut, rfl⟩ := (canonicalOf_of_none hreal).mp hcanonical
      rw [hpath] at hreal
      rcases hcut.of_touches hfs hcwd hreal (slash_notMem_namesOf hcut) htouch with
        rfl | ⟨target, hnode, hlocate⟩
      · exact hpre
      · by_contra hout
        exact hno ⟨t, canonicalRoot, front, name, back, dir, target, loc, hnul, ht, hup, hroot, hpath,
          hreal, hcut, hpre, hlen, hnode, hlocate, htouch.2, hout⟩
    · obtain rfl := Option.some.inj ((canonicalOf_of_some hreal).symm.trans hcanonical)
      obtain ⟨-, -, hlocate, hthere⟩ := realpath_eq_some_iff.mp hreal
      rw [eq_of_touches_place hfs (place_of_locate hfs hcwd hlocate) hthere htouch]
      exact hpre

/-! ## A dangling link -/

/-- A vault with a link to a file that is not there, in a directory beside the vault. -/
def danglingFs : FileSystem Bytes :=
  ((((∅ : FileSystem Bytes).insert ["vault"] .dir).insert ["outside"] .dir).insert ["vault", "link"]
    (.link ["/", "", "outside", "missing"]))

theorem upright_danglingFs : Upright danglingFs := upright_of_entries (by decide)

def vaultRoot : RawPath := ["/", "", "vault"]

def linkRequest : List UInt8 := utf8 "link".toList

theorem confined_iff_link : Upright danglingFs ∧ isDir danglingFs [] = true ∧
    ((∀ canonicalRoot path, realpath danglingFs [] vaultRoot = some canonicalRoot →
      validate danglingFs [] linkRequest vaultRoot = .ok path →
        Confined danglingFs [] canonicalRoot path) ↔ ¬ LinkOut danglingFs [] linkRequest vaultRoot) :=
  ⟨upright_danglingFs, rfl, confined_iff upright_danglingFs rfl linkRequest vaultRoot⟩

/-- The request for the link is granted, and what is written there is written beside the vault. -/
theorem not_confined_link : Upright danglingFs ∧ realpath danglingFs [] vaultRoot = some ["vault"] ∧
    validate danglingFs [] linkRequest vaultRoot = .ok ["vault", "link"] ∧
    Touches danglingFs [] ["vault", "link"] ["outside", "missing"] ∧
    ¬ Confined danglingFs [] ["vault"] ["vault", "link"] := by
  have htouch : Touches danglingFs [] ["vault", "link"] ["outside", "missing"] := by
    unfold Touches
    decide
  refine ⟨upright_danglingFs, by decide, ?_, htouch, ?_⟩
  · refine validate_eq_ok_iff.mpr ⟨"link".toList, ["vault"], by decide, toStr_utf8 _, by decide,
      by decide, by decide, by decide, by decide⟩
  · intro hconfined
    have hout := hconfined.2 _ htouch
    revert hout
    decide

end DiskArcana.Core.PathGuard
