import DiskArcana.Core.Reconciler

/-!
# Renames between two scans

`disk-core/src/scanner/rename.rs`: a path that vanished and a path that appeared are a rename when
inode and content agree. The vanished files are looked up in a map that keeps the last file of each
key, the appeared ones are gone through one by one, and so a vanished path with two hard links among
the appeared ones is paired twice.
-/

namespace DiskArcana.Scanner

open DiskArcana.Core DiskArcana.Lib

/-- Source: `types.rs`, `RenamePair` -/
structure RenamePair where
  fromPath : Path
  toPath : Path
  inode : ℕ
  contentHash : Digest
  deriving DecidableEq

/-- The files of the old scan by inode and content. -/
def priorByKey (prior : List FileMeta) : Table RenameKey FileMeta :=
  prior.foldl
    (fun t f =>
      match f.inode with
      | some inode => t.insert (inode, f.contentHash) f
      | none => t) ∅

/-- The body of the loop over the new scan. -/
def renameOf (prior current : List FileMeta) (f : FileMeta) : Option RenamePair :=
  match f.inode with
  | none => none
  | some inode =>
    match (priorByKey prior).lookup (inode, f.contentHash) with
    | none => none
    | some prev =>
      if prev.path = f.path then none
      -- the prior path must have disappeared
      else if prev.path ∈ current.map FileMeta.path then none
      -- the current path must be new
      else if f.path ∈ prior.map FileMeta.path then none
      else some ⟨prev.path, f.path, inode, f.contentHash⟩

/-- Source: `rename.rs`, `detect_renames` -/
def detectRenames (prior current : List FileMeta) : List RenamePair :=
  current.filterMap (renameOf prior current)

/-- A scan: one entry for each file. -/
structure ScanSnapshot where
  files : List FileMeta
  distinct : (files.map FileMeta.path).Nodup

/-! ## What the renames are good for -/

/-- The contents a scan shows at the paths. -/
def contents (files : List FileMeta) : Table Path Digest :=
  Table.insertAll FileMeta.path FileMeta.contentHash ∅ files

/-- Move a file, if it is there. -/
def applyRename (t : Table Path Digest) (r : RenamePair) : Table Path Digest :=
  match t.lookup r.fromPath with
  | some content => (t.erase r.fromPath).insert r.toPath content
  | none => t

/-- Follow a list of renames from one scan towards another, then delete the vanished files that are
not renamed and write the files that are no target of a rename and not yet there with their
contents. -/
def follow (prior current : List FileMeta) (renames : List RenamePair) : Table Path Digest :=
  let renamed := renames.foldl applyRename (contents prior)
  let kept := renamed.eraseWhere fun path _ =>
    path ∈ prior.map FileMeta.path ∧ path ∉ current.map FileMeta.path ∧
      path ∉ renames.map RenamePair.fromPath
  let created := current.filter fun f =>
    f.path ∉ renames.map RenamePair.toPath ∧ (contents prior).lookup f.path ≠ some f.contentHash
  kept.insertAll FileMeta.path FileMeta.contentHash created

section

variable (prior current : ScanSnapshot)

/-- A file of the old scan whose path the new one does not have. -/
def Vanished (f : FileMeta) : Prop := f ∈ prior.files ∧ f.path ∉ current.files.map FileMeta.path

/-- A file of the new scan whose path the old one does not have. -/
def Appeared (f : FileMeta) : Prop := f ∈ current.files ∧ f.path ∉ prior.files.map FileMeta.path

/-- Each pair joins a vanished and an appeared file of the same inode and content. -/
def Joined (renames : List RenamePair) : Prop :=
  ∀ r ∈ renames, ∃ v a, Vanished prior current v ∧ Appeared prior current a ∧
    v.path = r.fromPath ∧ a.path = r.toPath ∧
    renameKey v = some (r.inode, r.contentHash) ∧ renameKey a = some (r.inode, r.contentHash)

/-- What is wanted of the renames between two scans. -/
structure RenameLaw (renames : List RenamePair) : Prop where
  joined : Joined prior current renames
  /-- No vanished path is renamed twice. -/
  nodup_from : (renames.map RenamePair.fromPath).Nodup
  /-- No appeared path is the target of two renames. -/
  nodup_to : (renames.map RenamePair.toPath).Nodup
  /-- The renames, and the deletes and creates that they leave, turn the old contents into the
  new. -/
  follows : ∀ path, (follow prior.files current.files renames).lookup path =
    (contents current.files).lookup path

/-- The last file of a list that has a key. -/
def lastWith (key : RenameKey) (files : List FileMeta) : Option FileMeta :=
  files.reverse.find? fun f => renameKey f = some key

/-- Of the appeared files, one at most has the inode and the content of a vanished one, where this
is the last of its scan to have them. -/
def OneEach : Prop :=
  ∀ key v a b, lastWith key prior.files = some v → Vanished prior current v →
    Appeared prior current a → Appeared prior current b → renameKey a = some key →
      renameKey b = some key → a = b

end

/-! ## The pairs -/

variable {prior current : ScanSnapshot} {r : RenamePair} {f v : FileMeta} {key : RenameKey}

theorem lookup_priorByKey (files : List FileMeta) (key : RenameKey) :
    (priorByKey files).lookup key = lastWith key files := by
  induction files using List.reverseRecOn with
  | nil => rfl
  | append_singleton files f ih =>
      rw [priorByKey, List.foldl_concat, ← priorByKey, lastWith, List.reverse_concat]
      rcases hinode : f.inode with _ | inode
      · have hkey : renameKey f ≠ some key := by simp [renameKey, hinode]
        rw [List.find?_cons_of_neg (by simpa using hkey)]
        exact ih
      · simp only [Table.lookup_insert_eq_ite]
        by_cases hkey : key = (inode, f.contentHash)
        · rw [if_pos hkey, List.find?_cons_of_pos]
          simp [renameKey, hinode, hkey]
        · rw [if_neg hkey, List.find?_cons_of_neg, ih]
          · rfl
          · simpa [renameKey, hinode] using Ne.symm hkey

theorem contentHash_of_renameKey (h : renameKey f = some key) : f.contentHash = key.2 := by
  obtain ⟨inode, -, rfl⟩ := Option.map_eq_some_iff.mp h
  rfl

theorem of_lastWith {files : List FileMeta} (h : lastWith key files = some v) :
    v ∈ files ∧ renameKey v = some key :=
  ⟨List.mem_reverse.mp (List.mem_of_find?_eq_some h), by simpa using List.find?_some h⟩

/-- When a file of the new scan makes a pair. -/
theorem renameOf_eq_some_iff (hf : f ∈ current.files) :
    renameOf prior.files current.files f = some r ↔
      ∃ key v, renameKey f = some key ∧ lastWith key prior.files = some v ∧
        Vanished prior current v ∧ Appeared prior current f ∧ r = ⟨v.path, f.path, key.1, key.2⟩ := by
  unfold renameOf
  rcases hinode : f.inode with _ | inode
  · simp [renameKey, hinode]
  have hkey : renameKey f = some (inode, f.contentHash) := by simp [renameKey, hinode]
  rcases hprev : lastWith (inode, f.contentHash) prior.files with _ | prev
  · simp [hkey, lookup_priorByKey, hprev]
  simp only [lookup_priorByKey, hprev]
  constructor
  · intro h
    split_ifs at h with h₁ h₂ h₃
    exact ⟨_, prev, hkey, hprev, ⟨(of_lastWith hprev).1, h₂⟩, ⟨hf, h₃⟩, (Option.some.inj h).symm⟩
  · rintro ⟨key, v, hkey', hv, ⟨-, hgone⟩, ⟨-, hnew⟩, rfl⟩
    obtain rfl := Option.some.inj (hkey.symm.trans hkey')
    obtain rfl := Option.some.inj (hprev.symm.trans hv)
    have hne : prev.path ≠ f.path := fun h => hgone (h ▸ List.mem_map_of_mem hf)
    rw [if_neg hne, if_neg hgone, if_neg hnew]

theorem mem_detectRenames_iff : r ∈ detectRenames prior.files current.files ↔
    ∃ key v a, lastWith key prior.files = some v ∧ Vanished prior current v ∧
      Appeared prior current a ∧ renameKey a = some key ∧ r = ⟨v.path, a.path, key.1, key.2⟩ := by
  rw [detectRenames, List.mem_filterMap]
  constructor
  · rintro ⟨a, ha, hr⟩
    obtain ⟨key, v, hkey, hv, hgone, hnew, rfl⟩ := (renameOf_eq_some_iff ha).mp hr
    exact ⟨key, v, a, hv, hgone, hnew, hkey, rfl⟩
  · rintro ⟨key, v, a, hv, hgone, hnew, hkey, rfl⟩
    exact ⟨a, hnew.1, (renameOf_eq_some_iff hnew.1).mpr ⟨key, v, hkey, hv, hgone, hnew, rfl⟩⟩

/-- A path the pairs of different files differ in is in one pair only. -/
theorem nodup_map_detectRenames {g : RenamePair → Path}
    (h : ∀ a ∈ current.files, ∀ b ∈ current.files, a ≠ b → ∀ r r',
      renameOf prior.files current.files a = some r → renameOf prior.files current.files b = some r' →
        g r ≠ g r') :
    ((detectRenames prior.files current.files).map g).Nodup := by
  rw [List.Nodup, List.pairwise_map, detectRenames, List.pairwise_filterMap]
  have hfiles : current.files.Nodup := current.distinct.of_map
  refine List.Pairwise.imp_of_mem ?_ hfiles
  intro a b ha hb hab r hr r' hr'
  exact h a ha b hb hab r r' hr hr'

theorem nodup_map_toPath : ((detectRenames prior.files current.files).map RenamePair.toPath).Nodup := by
  apply nodup_map_detectRenames
  intro a ha b hb hab r r' hr hr' hpath
  obtain ⟨_, _, -, -, -, -, rfl⟩ := (renameOf_eq_some_iff ha).mp hr
  obtain ⟨_, _, -, -, -, -, rfl⟩ := (renameOf_eq_some_iff hb).mp hr'
  exact hab (List.inj_on_of_nodup_map current.distinct ha hb hpath)

/-- A vanished path is renamed once, unless two appeared files share its inode and content. -/
theorem nodup_map_fromPath_iff :
    ((detectRenames prior.files current.files).map RenamePair.fromPath).Nodup ↔
      OneEach prior current := by
  constructor
  · intro hnodup key v a b hv hgone ha hb hkeya hkeyb
    have hpaira := mem_detectRenames_iff.mpr ⟨key, v, a, hv, hgone, ha, hkeya, rfl⟩
    have hpairb := mem_detectRenames_iff.mpr ⟨key, v, b, hv, hgone, hb, hkeyb, rfl⟩
    have hsame := List.inj_on_of_nodup_map hnodup hpaira hpairb rfl
    exact List.inj_on_of_nodup_map current.distinct ha.1 hb.1 (RenamePair.mk.inj hsame).2.1
  · intro hone
    apply nodup_map_detectRenames
    intro a ha b hb hab r r' hr hr' hpath
    obtain ⟨key, v, hkeya, hv, hgone, hnewa, rfl⟩ := (renameOf_eq_some_iff ha).mp hr
    obtain ⟨key', v', hkeyb, hv', hgone', hnewb, rfl⟩ := (renameOf_eq_some_iff hb).mp hr'
    obtain rfl := List.inj_on_of_nodup_map prior.distinct hgone.1 hgone'.1 hpath
    have hkey : key = key' := Option.some.inj ((of_lastWith hv).2.symm.trans (of_lastWith hv').2)
    subst hkey
    exact hab (hone key v a b hv hgone hnewa hnewb hkeya hkeyb)

/-! ## Following the pairs -/

theorem lookup_applyRename {t : Table Path Digest} {content : Digest}
    (hfrom : t.lookup r.fromPath = some content) (path : Path) :
    (applyRename t r).lookup path =
      if path = r.toPath then some content else if path = r.fromPath then none else t.lookup path := by
  simp only [applyRename, hfrom, Table.lookup_insert_eq_ite]
  by_cases h : path = r.fromPath
  · subst h
    simp
  · simp [h, AList.lookup_erase_ne h]

/-- Moves with sources of their own, targets of their own and no target that is a source, done in
any order: each target has the content of its source, the other sources are gone, nothing else
changes. -/
theorem lookup_applyRenames {renames : List RenamePair} {t : Table Path Digest}
    (hfrom : (renames.map RenamePair.fromPath).Nodup) (hto : (renames.map RenamePair.toPath).Nodup)
    (hapart : ∀ r ∈ renames, r.toPath ∉ renames.map RenamePair.fromPath)
    (hthere : ∀ r ∈ renames, t.lookup r.fromPath = some r.contentHash) (path : Path) :
    (renames.foldl applyRename t).lookup path =
      ((renames.find? fun r => r.toPath = path).map RenamePair.contentHash).or
        (if path ∈ renames.map RenamePair.fromPath then none else t.lookup path) := by
  induction renames generalizing t with
  | nil => simp
  | cons r renames ih =>
      simp only [List.map_cons, List.nodup_cons, List.mem_cons, forall_eq_or_imp, not_or] at *
      have hthere' : ∀ r' ∈ renames, (applyRename t r).lookup r'.fromPath = some r'.contentHash := by
        intro r' hr'
        have hne : r'.fromPath ≠ r.toPath := fun h => hapart.1.2 (h ▸ List.mem_map_of_mem hr')
        have hne' : r'.fromPath ≠ r.fromPath := fun h => hfrom.1 (h ▸ List.mem_map_of_mem hr')
        rw [lookup_applyRename hthere.1, if_neg hne, if_neg hne', hthere.2 r' hr']
      rw [List.foldl_cons, ih hfrom.2 hto.2 (fun r' hr' => (hapart.2 r' hr').2) hthere',
        lookup_applyRename hthere.1]
      by_cases htop : r.toPath = path
      · subst htop
        have hnone : (renames.find? fun r' => decide (r'.toPath = r.toPath)) = none := by
          rw [List.find?_eq_none]
          intro r' hr' htop
          have hsame : r'.toPath = r.toPath := by simpa using htop
          exact hto.1 (hsame ▸ List.mem_map_of_mem hr')
        simp [hnone, hapart.1.2]
      · rw [List.find?_cons_of_neg (by simpa using htop), if_neg (Ne.symm htop)]
        congr 1
        by_cases hpath : path = r.fromPath
        · simp [hpath]
        · simp [hpath]

section Follow

variable {renames : List RenamePair} {path : Path}

variable (hjoined : Joined prior current renames)
include hjoined

theorem Joined.fromPath_notMem (h : path ∈ renames.map RenamePair.fromPath) :
    path ∉ current.files.map FileMeta.path ∧ path ∈ prior.files.map FileMeta.path := by
  obtain ⟨r, hr, rfl⟩ := List.mem_map.mp h
  obtain ⟨v, a, hgone, -, hv, -⟩ := hjoined r hr
  exact ⟨hv ▸ hgone.2, hv ▸ List.mem_map_of_mem hgone.1⟩

theorem Joined.toPath_mem (h : path ∈ renames.map RenamePair.toPath) :
    path ∈ current.files.map FileMeta.path := by
  obtain ⟨r, hr, rfl⟩ := List.mem_map.mp h
  obtain ⟨v, a, -, hnew, -, ha, -⟩ := hjoined r hr
  exact ha ▸ List.mem_map_of_mem hnew.1

theorem Joined.lookup_renamed (hfrom : (renames.map RenamePair.fromPath).Nodup)
    (hto : (renames.map RenamePair.toPath).Nodup) (path : Path) :
    (renames.foldl applyRename (contents prior.files)).lookup path =
      ((renames.find? fun r => r.toPath = path).map RenamePair.contentHash).or
        (if path ∈ renames.map RenamePair.fromPath then none
          else (contents prior.files).lookup path) := by
  apply lookup_applyRenames hfrom hto
  · intro r hr hmem
    exact (hjoined.fromPath_notMem hmem).1 (hjoined.toPath_mem (List.mem_map_of_mem hr))
  · intro r hr
    obtain ⟨v, a, hgone, -, hv, -, hkey, -⟩ := hjoined r hr
    have hcontent : v.contentHash = r.contentHash := contentHash_of_renameKey hkey
    rw [← hv, ← hcontent]
    exact Table.lookup_insertAll_of_mem prior.distinct ∅ hgone.1

/-- After the renames a path of the new scan has its new content if it is a target, else its old
one. -/
theorem Joined.lookup_renamed_of_mem (hfrom : (renames.map RenamePair.fromPath).Nodup)
    (hto : (renames.map RenamePair.toPath).Nodup) (hf : f ∈ current.files) :
    (renames.foldl applyRename (contents prior.files)).lookup f.path =
      if f.path ∈ renames.map RenamePair.toPath then some f.contentHash
        else (contents prior.files).lookup f.path := by
  have hfrompath : f.path ∉ renames.map RenamePair.fromPath :=
    fun h => (hjoined.fromPath_notMem h).1 (List.mem_map_of_mem hf)
  rw [hjoined.lookup_renamed hfrom hto, if_neg hfrompath]
  rcases hfind : renames.find? (fun r => decide (r.toPath = f.path)) with _ | r
  · have hno : f.path ∉ renames.map RenamePair.toPath := by
      intro h
      obtain ⟨r, hr, htop⟩ := List.mem_map.mp h
      simpa [htop] using List.find?_eq_none.mp hfind r hr
    rw [if_neg hno, hfind]
    rfl
  · have hr := List.mem_of_find?_eq_some hfind
    have htop : r.toPath = f.path := by simpa using List.find?_some hfind
    obtain ⟨v, a, -, hnew, -, ha, -, hkey⟩ := hjoined r hr
    have hsame : a = f := List.inj_on_of_nodup_map current.distinct hnew.1 hf (ha.trans htop)
    have hcontent : f.contentHash = r.contentHash := by rw [← hsame, contentHash_of_renameKey hkey]
    rw [if_pos (List.mem_map.mpr ⟨r, hr, htop⟩), hfind, hcontent]
    rfl

/-- After the renames a path that is not in the new scan is gone if it is a source, else as it
was. -/
theorem Joined.lookup_renamed_of_notMem (hfrom : (renames.map RenamePair.fromPath).Nodup)
    (hto : (renames.map RenamePair.toPath).Nodup) (hpath : path ∉ current.files.map FileMeta.path) :
    (renames.foldl applyRename (contents prior.files)).lookup path =
      if path ∈ renames.map RenamePair.fromPath then none else (contents prior.files).lookup path := by
  have hfind : (renames.find? fun r => decide (r.toPath = path)) = none := by
    rw [List.find?_eq_none]
    intro r hr htop
    have hsame : r.toPath = path := by simpa using htop
    exact hpath (hsame ▸ hjoined.toPath_mem (List.mem_map_of_mem hr))
  rw [hjoined.lookup_renamed hfrom hto, hfind]
  rfl

/-- Renames that pair each path once, and what they leave, make the new contents. -/
theorem Joined.lookup_follow (hfrom : (renames.map RenamePair.fromPath).Nodup)
    (hto : (renames.map RenamePair.toPath).Nodup) (path : Path) :
    (follow prior.files current.files renames).lookup path = (contents current.files).lookup path := by
  simp only [follow]
  by_cases hpath : path ∈ current.files.map FileMeta.path
  · obtain ⟨f, hf, rfl⟩ := List.mem_map.mp hpath
    have hnew : (contents current.files).lookup f.path = some f.contentHash :=
      Table.lookup_insertAll_of_mem current.distinct ∅ hf
    rw [hnew]
    by_cases hcreated : f.path ∉ renames.map RenamePair.toPath ∧
        (contents prior.files).lookup f.path ≠ some f.contentHash
    · apply Table.lookup_insertAll_of_mem
      · exact List.Nodup.sublist (List.filter_sublist.map FileMeta.path) current.distinct
      · exact List.mem_filter.mpr ⟨hf, by simpa using hcreated⟩
    · rw [Table.lookup_insertAll_of_notMem, Table.lookup_eraseWhere,
        hjoined.lookup_renamed_of_mem hfrom hto hf]
      · by_cases htop : f.path ∈ renames.map RenamePair.toPath
        · rw [if_pos htop]
          simp [hpath]
        · have hold : (contents prior.files).lookup f.path = some f.contentHash := by
            by_contra h
            exact hcreated ⟨htop, h⟩
          rw [if_neg htop, hold]
          simp [hpath]
      · intro h
        obtain ⟨g, hg, hsame⟩ := List.mem_map.mp h
        obtain ⟨hg, hnot⟩ := List.mem_filter.mp hg
        obtain rfl := List.inj_on_of_nodup_map current.distinct hg hf hsame
        exact hcreated (by simpa using hnot)
  · have hnew : (contents current.files).lookup path = none := by
      rw [contents, Table.lookup_insertAll_of_notMem hpath]
      rfl
    rw [hnew, Table.lookup_insertAll_of_notMem, Table.lookup_eraseWhere,
      hjoined.lookup_renamed_of_notMem hfrom hto hpath]
    · by_cases hfrompath : path ∈ renames.map RenamePair.fromPath
      · rw [if_pos hfrompath]
        rfl
      · rw [if_neg hfrompath]
        by_cases hold : path ∈ prior.files.map FileMeta.path
        · rcases (contents prior.files).lookup path with _ | content
          · rfl
          · simp only [Option.filter, hold, hpath, hfrompath, not_false_eq_true, and_self, decide_true,
              Bool.not_true, Bool.false_eq_true, if_false]
        · rw [contents, Table.lookup_insertAll_of_notMem hold]
          rfl
    · intro h
      exact hpath ((List.filter_sublist.map FileMeta.path).subset h)

end Follow

theorem joined_detectRenames : Joined prior current (detectRenames prior.files current.files) := by
  intro r hr
  obtain ⟨key, v, a, hv, hgone, hnew, hkey, rfl⟩ := mem_detectRenames_iff.mp hr
  exact ⟨v, a, hgone, hnew, rfl, rfl, (of_lastWith hv).2, hkey⟩

/-- The renames of two scans are a partial matching that leads from the one to the other if and only
if no two appeared files share inode and content with one vanished file. -/
theorem renameLaw_iff_oneEach (prior current : ScanSnapshot) :
    RenameLaw prior current (detectRenames prior.files current.files) ↔ OneEach prior current := by
  constructor
  · intro hlaw
    exact nodup_map_fromPath_iff.mp hlaw.nodup_from
  · intro hone
    have hfrom := nodup_map_fromPath_iff.mpr hone
    exact ⟨joined_detectRenames, hfrom, nodup_map_toPath,
      joined_detectRenames.lookup_follow hfrom nodup_map_toPath⟩

/-! ## Two links to one file -/

/-- A file as the scanner reports it. -/
def scanned (path : Path) (inode : ℕ) (contentHash : Digest) : FileMeta where
  path := path
  contentHash := contentHash
  size := 1
  mtimeNs := 0
  inode := some inode
  vectorClock := .new
  deleted := false
  deletedAt := none
  nodeId := "n"
  encryptionNonce := none
  versionId := none
  parentVersionId := none

def aloneScan : ScanSnapshot := ⟨[scanned ["a.md"] 100 zeroDigest], by decide⟩

def linkedScan : ScanSnapshot :=
  ⟨[scanned ["b.md"] 100 zeroDigest, scanned ["c.md"] 100 zeroDigest], by decide⟩

/-- A file that is linked a second time and renamed has two targets. -/
theorem not_renameLaw_of_linked :
    ¬ RenameLaw aloneScan linkedScan (detectRenames aloneScan.files linkedScan.files) := by
  intro hlaw
  have htwice : (detectRenames aloneScan.files linkedScan.files).map RenamePair.fromPath =
      [["a.md"], ["a.md"]] := by decide
  have hnodup := hlaw.nodup_from
  rw [htwice] at hnodup
  simp at hnodup

end DiskArcana.Scanner
