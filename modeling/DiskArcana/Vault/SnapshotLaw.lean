import DiskArcana.Hosting.Basic
import DiskArcana.Vault.Rows

/-!
# Restoring a snapshot

The restore of a snapshot writes a row for each of its live files and touches no other row: what was
created since, or was deleted when the snapshot was taken, stays as it is. A restore without failures
has written all of them, each to the row that the guard leads it to (`restored_of_snapshot`).

Below an absolute root, in a vault without links, the guard leads each file to its own row, so every
file of the snapshot is back under its path (`restored_of_linkless`).
-/

namespace DiskArcana.Vault

open DiskArcana.Core DiskArcana.Lib DiskArcana.Lib.LexicalPath DiskArcana.Server
open DiskArcana.Lib.UnixFs DiskArcana.Lib.UnixFs.FileSystem
open DiskArcana.Hosting (Revision dbKey replaceBackslash snapshotFile)

/-! ## The files of a stored snapshot -/

/-- The snapshot was taken, and holds the files or is gone. -/
structure Captured (s : VaultState) (id : ℕ) (files : List SnapshotFile) : Prop where
  taken : id < s.nextSnapshot
  held : ∀ kept, s.snapshots.lookup id = some kept → kept = files

section

variable {blake3 : Bytes → Digest} {cfg : VaultConfig}

theorem Captured.of_same {s s' : VaultState} {id : ℕ} {files : List SnapshotFile}
    (h : Captured s id files)
    (hsame : s'.snapshots = s.snapshots ∧ s'.nextSnapshot = s.nextSnapshot) :
    Captured s' id files := by
  obtain ⟨hsnapshots, hnext⟩ := hsame
  refine ⟨?_, ?_⟩
  · rw [hnext]
    exact h.taken
  · rw [hsnapshots]
    exact h.held

/-- A snapshot captures the rows of the vault. -/
theorem captured_of_createSnapshot {s s' : VaultState} {admitted : Except String Unit}
    {kept : ℕ → Bool} {id : ℕ} (h : createSnapshot s admitted kept = (.ok id, s')) :
    Captured s' id (s.db.listFilesScoped.map snapshotFile) := by
  unfold createSnapshot at h
  rcases admitted with e | u
  · cases h
  dsimp only at h
  split_ifs at h
  · cases h
    refine ⟨Nat.lt_succ_self _, ?_⟩
    intro files hfiles
    dsimp only at hfiles
    rw [Table.lookup_eraseWhere, AList.lookup_insert] at hfiles
    obtain ⟨hfiles, -⟩ := Option.filter_eq_some_iff.mp hfiles
    exact (Option.some.inj hfiles).symm
  · cases h

theorem nodup_of_createSnapshot {s s' : VaultState} {admitted : Except String Unit}
    {kept : ℕ → Bool} {id : ℕ} (h : createSnapshot s admitted kept = (.ok id, s')) :
    ((s.db.listFilesScoped.map snapshotFile).map SnapshotFile.path).Nodup := by
  unfold createSnapshot at h
  rcases admitted with e | u
  · cases h
  dsimp only at h
  split_ifs at h with hnodup
  · exact hnodup
  · cases h

@[simp] theorem createSnapshot_fs (s : VaultState) (admitted : Except String Unit)
    (kept : ℕ → Bool) : (createSnapshot s admitted kept).2.fs = s.fs := by
  unfold createSnapshot
  rcases admitted with e | u
  · rfl
  dsimp only
  split_ifs <;> rfl

/-- Later snapshots have other ids. -/
theorem Captured.createSnapshot {s : VaultState} {id : ℕ} {files : List SnapshotFile}
    (h : Captured s id files) (admitted : Except String Unit) (kept : ℕ → Bool) :
    Captured (createSnapshot s admitted kept).2 id files := by
  unfold Vault.createSnapshot
  rcases admitted with e | u
  · exact h
  dsimp only
  split_ifs
  · refine ⟨Nat.lt_succ_of_lt h.taken, ?_⟩
    intro held hheld
    dsimp only at hheld
    rw [Table.lookup_eraseWhere, AList.lookup_insert_ne (Nat.ne_of_lt h.taken)] at hheld
    obtain ⟨hheld, -⟩ := Option.filter_eq_some_iff.mp hheld
    exact h.held held hheld
  · exact h

theorem restorePlanned_snapshots (s : VaultState) (r : RestoreRequest) (archives : Bool)
    (plan : Except String Revision) :
    (restorePlanned cfg s r archives plan).2.snapshots = s.snapshots ∧
      (restorePlanned cfg s r archives plan).2.nextSnapshot = s.nextSnapshot := by
  rcases plan with e | rev
  · exact ⟨rfl, rfl⟩
  · exact restoreFile_snapshots cfg s r (r.env 0) archives rev

theorem restoreTurn_snapshots (r : RestoreRequest) (l : SnapshotLoop) (entry : SnapshotFile) :
    (restoreTurn blake3 cfg r l entry).vault.snapshots = l.vault.snapshots ∧
      (restoreTurn blake3 cfg r l entry).vault.nextSnapshot = l.vault.nextSnapshot := by
  unfold restoreTurn
  split_ifs
  · exact ⟨rfl, rfl⟩
  rcases planSnapshotFile blake3 cfg l.vault entry with _ | rev
  · exact ⟨rfl, rfl⟩
  have hsame := restoreFile_snapshots cfg l.vault r (r.env l.position) true rev
  dsimp only
  rcases hres : restoreFile cfg l.vault r (r.env l.position) true rev with ⟨e | u, s'⟩
  · rw [hres] at hsame
    exact hsame
  · rw [hres] at hsame
    exact hsame

/-- Restoring keeps what a snapshot has, -/
theorem Captured.turns {l : SnapshotLoop} {id : ℕ} {files : List SnapshotFile}
    (h : Captured l.vault id files) (r : RestoreRequest) (entries : List SnapshotFile) :
    Captured (Trace.run (restoreTurn blake3 cfg r) l entries).vault id files := by
  induction entries generalizing l with
  | nil => exact h
  | cons entry entries ih => exact ih (h.of_same (restoreTurn_snapshots r l entry))

/-- **No event changes the files of a snapshot.** -/
theorem Captured.step {s : VaultState} {id : ℕ} {files : List SnapshotFile}
    (h : Captured s id files) (e : VaultEvent) : Captured (vaultStep blake3 cfg s e) id files := by
  cases e with
  | rows e => exact h.of_same ⟨rfl, rfl⟩
  | purge p => exact h.of_same ⟨rfl, rfl⟩
  | outside fs blobs => exact h.of_same ⟨rfl, rfl⟩
  | createSnapshot admitted kept => exact h.createSnapshot admitted kept
  | restoreVersion r path versionId => exact h.of_same (restorePlanned_snapshots s r true _)
  | restoreTrash r path => exact h.of_same (restorePlanned_snapshots s r false _)
  | restoreSnapshot r other =>
      show Captured (restoreSnapshot blake3 cfg s r other).2 id files
      rcases restoreSnapshot_cases blake3 cfg s r other with ⟨-, hstate, -⟩ |
        ⟨entries, -, -, l, rfl, hrestore⟩
      · rw [hstate]
        exact h
      · rw [hrestore]
        exact Captured.turns (l := loopStart s) h r _

/-- and so does every run. -/
theorem Captured.run {s : VaultState} {id : ℕ} {files : List SnapshotFile}
    (h : Captured s id files) (es : List VaultEvent) :
    Captured (Trace.run (vaultStep blake3 cfg) s es) id files := by
  induction es generalizing s with
  | nil => exact h
  | cons e es ih => exact ih (h.step e)

/-! ## The rows after the restore -/

/-- There is a row, it is live, and it has the hash and the size. -/
def LiveAs (hash : Digest) (size : ℕ) (row : Option FileRow) : Prop :=
  ∃ found, row = some found ∧ found.deleted = false ∧ found.contentHash = hash ∧ found.size = size

/-- What the turns of a restore have made of the rows. -/
structure Restored (cfg : VaultConfig) (turns : List (SnapshotLoop × SnapshotFile))
    (before after : MetaDb) : Prop where
  /-- Every live file is led to a row, which has its content unless a later file is led there. -/
  live : ∀ pre l entry post, turns = pre ++ (l, entry) :: post → entry.deleted = false →
    ∃ key, ledTo cfg l.vault entry = some key ∧
      ((∀ y ∈ post, ledTo cfg y.1.vault y.2 ≠ some key) →
        LiveAs entry.contentHash entry.size (after.files.lookup key))
  /-- A row to which no file is led stays as it was. -/
  rest : ∀ path, (∀ y ∈ turns, ledTo cfg y.1.vault y.2 ≠ some path) →
    after.files.lookup path = before.files.lookup path

/-- The failures of a restore are counted up. -/
theorem failed_le_run (r : RestoreRequest) (l : SnapshotLoop) (entries : List SnapshotFile) :
    l.failed ≤ (Trace.run (restoreTurn blake3 cfg r) l entries).failed := by
  induction entries generalizing l with
  | nil => exact le_rfl
  | cons entry entries ih =>
      apply le_trans ?_ (ih _)
      rcases restoreTurn_cases blake3 cfg r l entry with
        ⟨rev, target, -, hturn⟩ | ⟨-, -, ⟨-, hfailed⟩ | hfailed⟩
      · rw [hturn.failed]
      · rw [hfailed]
      · omega

theorem ledTo_of_deleted {s : VaultState} {entry : SnapshotFile} (h : entry.deleted = true) :
    ledTo cfg s entry = none := if_pos h

/-- **One turn more**: the row of a live file is written, over what a file before has put there. -/
theorem Restored.snoc {turns : List (SnapshotLoop × SnapshotFile)} {before : MetaDb}
    {r : RestoreRequest} {l : SnapshotLoop} {entry : SnapshotFile}
    (h : Restored cfg turns before l.vault.db)
    (hfailed : (restoreTurn blake3 cfg r l entry).failed = l.failed) :
    Restored cfg (turns ++ [(l, entry)]) before (restoreTurn blake3 cfg r l entry).vault.db := by
  rcases restoreTurn_cases blake3 cfg r l entry with
    ⟨rev, target, -, hturn⟩ | ⟨-, hdb, ⟨hdeleted, -⟩ | hcount⟩
  · generalize rowKey cfg target = written at hturn
    obtain ⟨row, hfiles, hrow⟩ := hturn.row
    refine ⟨?_, ?_⟩
    · intro pre l' entry' post hturns hlive
      rcases List.eq_nil_or_concat post with rfl | ⟨post, last, rfl⟩
      · obtain ⟨-, hlast⟩ := List.append_inj' hturns rfl
        cases hlast
        refine ⟨written, hturn.led, fun _ => ⟨row, ?_, hrow.1, hrow.2.1, hrow.2.2.1⟩⟩
        rw [hfiles, AList.lookup_insert]
      · rw [List.concat_eq_append, ← List.cons_append, ← List.append_assoc] at hturns
        obtain ⟨hinit, hlast⟩ := List.append_inj' hturns rfl
        cases hlast
        obtain ⟨key, hled, hkey⟩ := h.live pre l' entry' post hinit hlive
        refine ⟨key, hled, fun hpost => ?_⟩
        rw [List.concat_eq_append] at hpost
        have hne : key ≠ written := by
          rintro rfl
          exact hpost (l, entry) (List.mem_append_right _ (List.mem_singleton_self _)) hturn.led
        rw [hfiles, AList.lookup_insert_ne hne]
        exact hkey fun y hy => hpost y (List.mem_append_left _ hy)
    · intro path hpath
      have hne : path ≠ written := by
        rintro rfl
        exact hpath (l, entry) (List.mem_append_right _ (List.mem_singleton_self _)) hturn.led
      rw [hfiles, AList.lookup_insert_ne hne]
      exact h.rest path fun y hy => hpath y (List.mem_append_left _ hy)
  · rw [hdb]
    refine ⟨?_, fun path hpath => h.rest path fun y hy => hpath y (List.mem_append_left _ hy)⟩
    intro pre l' entry' post hturns hlive
    rcases List.eq_nil_or_concat post with rfl | ⟨post, last, rfl⟩
    · obtain ⟨-, hlast⟩ := List.append_inj' hturns rfl
      cases hlast
      rw [hdeleted] at hlive
      cases hlive
    · rw [List.concat_eq_append, ← List.cons_append, ← List.append_assoc] at hturns
      obtain ⟨hinit, -⟩ := List.append_inj' hturns rfl
      obtain ⟨key, hled, hkey⟩ := h.live pre l' entry' post hinit hlive
      refine ⟨key, hled, fun hpost => hkey fun y hy => ?_⟩
      rw [List.concat_eq_append] at hpost
      exact hpost y (List.mem_append_left _ hy)
  · omega

/-- **The turns of a restore that counts no failure.** -/
theorem restored_of_turns (r : RestoreRequest) {l : SnapshotLoop} {entries : List SnapshotFile}
    (h : (Trace.run (restoreTurn blake3 cfg r) l entries).failed = l.failed) :
    Restored cfg (Trace.history (restoreTurn blake3 cfg r) l entries) l.vault.db
      (Trace.run (restoreTurn blake3 cfg r) l entries).vault.db := by
  induction entries using List.reverseRecOn with
  | nil => exact ⟨fun pre l' entry post hturns => by simp at hturns, fun path _ => rfl⟩
  | append_singleton entries entry ih =>
      rw [Trace.run_snoc] at h
      have hinit : l.failed ≤ (Trace.run (restoreTurn blake3 cfg r) l entries).failed :=
        failed_le_run r l entries
      have hlast : _ ≤ (restoreTurn blake3 cfg r _ entry).failed :=
        failed_le_run r (Trace.run (restoreTurn blake3 cfg r) l entries) [entry]
      rw [Trace.history_snoc, Trace.run_snoc]
      exact (ih (by omega)).snoc (by omega)

/-- The turns of a restored snapshot, and what they have made of the rows. -/
theorem restored_of_restoreSnapshot {s s' : VaultState} {r : RestoreRequest} {id : ℕ}
    {resp : RestoreSnapshotResponse} (h : restoreSnapshot blake3 cfg s r id = (.ok resp, s'))
    (hfailed : resp.filesFailed = 0) :
    ∃ files, s.snapshots.lookup id = some files ∧
      turnsOf blake3 cfg s r id =
        Trace.history (restoreTurn blake3 cfg r) (loopStart s) (sortSnapshotFiles files) ∧
      Restored cfg (turnsOf blake3 cfg s r id) s.db s'.db := by
  rcases restoreSnapshot_cases blake3 cfg s r id with ⟨-, -, e, herror⟩ |
    ⟨files, hfiles, hturns, l, hl, hanswer⟩
  · rw [h] at herror
    cases herror
  rw [h] at hanswer
  obtain ⟨hresp, rfl⟩ := Prod.mk.inj hanswer
  obtain rfl := Except.ok.inj hresp
  refine ⟨files, hfiles, hturns, ?_⟩
  subst hl
  rw [hturns]
  exact restored_of_turns r hfailed

/-! ## Without links -/

theorem resolve_segments (base : List String) (s : String) :
    resolve base ((segments s).filter (· ≠ "")) = resolve base (components s) := by
  have hparts : ((splitSlash s.toList).map String.ofList).filter (· ≠ "") = parts s.toList := by
    unfold parts
    rw [List.filter_map]
    congr 1
    apply List.filter_congr
    intro part _
    simp [Function.comp, String.ext_iff]
  rw [resolve_components]
  unfold segments
  dsimp only
  split_ifs
  · rw [List.filter_cons_of_pos (by decide), hparts]
    rfl
  · rw [hparts]

/-- A joined path leads where its second part leads from where the first leads. -/
theorem resolve_joinPath (base : List String) (root path : String) :
    resolve base (components (joinPath root path)) =
      resolve (resolve base (components root)) (components path) := by
  unfold joinPath
  by_cases habsolute : path.toList.head? = some '/'
  · rw [if_pos habsolute, resolve_components base, resolve_components (resolve _ _),
      if_pos habsolute, if_pos habsolute]
  rw [if_neg habsolute, resolve_components (resolve _ _), if_neg habsolute,
    resolve_components base root, ← resolve_append, resolve_components]
  by_cases hempty : root.toList = []
  · rw [if_pos (Or.inl hempty), String.toList_append, hempty, List.nil_append, if_neg habsolute]
    rfl
  -- the joined string starts like the root
  have hhead : ∀ rest, (root.toList ++ rest).head? = root.toList.head? :=
    fun rest => List.head?_append_of_ne_nil _ hempty
  by_cases hlast : root.toList.getLast? = some '/'
  · obtain ⟨init, hinit⟩ := List.getLast?_eq_some_iff.mp hlast
    have hroot : parts root.toList = parts init := by
      rw [hinit, parts_append]
      exact List.append_nil _
    rw [if_pos (Or.inr hlast), String.toList_append, hhead, hroot, hinit, List.append_assoc]
    exact congrArg _ (parts_append _ _)
  · rw [if_neg (not_or.mpr ⟨hempty, hlast⟩), String.toList_append, String.toList_append,
      List.append_assoc, hhead]
    exact congrArg _ (parts_append _ _)

/-- What the guard lets pass is where it takes the path to lead. -/
theorem canonicalTarget_of_validate {fs : FileSystem Bytes} {candidate : String} {target : Location}
    (h : validate cfg fs candidate = .ok target) :
    canonicalTarget cfg fs (joinPath cfg.syncRoot candidate) = some target := by
  unfold validate at h
  split_ifs at h
  rcases hroot : canonicalizePath fs cfg.cwd cfg.syncRoot with _ | root
  · rw [hroot] at h
    cases h
  rw [hroot] at h
  dsimp only at h
  rcases hfound : canonicalTarget cfg fs (joinPath cfg.syncRoot candidate) with _ | canonical
  · rw [hfound] at h
    cases h
  · rw [hfound] at h
    dsimp only at h
    split_ifs at h
    rw [Except.ok.inj h]

theorem linkless_writeTarget {fs : FileSystem Bytes} (h : Linkless fs) (target : Location)
    (bytes : Bytes) (answer : WriteAnswer) : Linkless (writeTarget fs target bytes answer).1 := by
  have hwrite : ∀ content, Linkless ((writeFile fs [] (absolute target) content).getD fs) := by
    intro content
    rcases hfs : writeFile fs [] (absolute target) content with _ | fs'
    · exact h
    · exact h.writeFile hfs
  cases answer with
  | refused => exact h
  | cut n => exact hwrite (bytes.take n)
  | done =>
      have hdone := hwrite bytes
      unfold writeTarget
      rcases hfs : writeFile fs [] (absolute target) bytes with _ | fs'
      · exact h
      · rw [hfs] at hdone
        exact hdone

section

variable {s : VaultState} (hlinks : Linkless s.fs)

include hlinks

theorem attachToAncestor_of_linkless {rev suffix : List String} {loc : Location}
    (hrev : "" ∉ rev) (hsuffix : ∀ n ∈ suffix, IsName n)
    (h : attachToAncestor cfg s.fs rev suffix = some loc) :
    loc = resolve cfg.cwd (rev.reverse ++ suffix) := by
  induction rev generalizing suffix with
  | nil => cases h
  | cons name parents ih =>
      unfold attachToAncestor at h
      split_ifs at h with hstop
      have hname : IsName name := by
        simp only [not_or] at hstop
        exact ⟨hstop.1, hstop.2.1, hstop.2.2.1⟩
      have hnames : ∀ n ∈ name :: suffix, IsName n := List.forall_mem_cons.mpr ⟨hname, hsuffix⟩
      rw [List.mem_cons, not_or] at hrev
      rw [List.reverse_cons, List.append_assoc]
      rcases hfound : canonicalize s.fs cfg.cwd parents.reverse with _ | ancestor
      · rw [hfound] at h
        exact ih hrev.2 hnames h
      · rw [hfound] at h
        have hancestor := locate_of_linkless hlinks (Option.filter_eq_some_iff.mp hfound).1
        rw [List.filter_eq_self.mpr] at hancestor
        · rw [resolve_append, ← hancestor, List.singleton_append, resolve_of_isName _ hnames]
          exact (Option.some.inj h).symm
        · intro n hn
          simpa using fun heq : n = "" => hrev.2 (heq ▸ List.mem_reverse.mp hn)

/-- Without links the guard follows the names. -/
theorem canonicalTarget_of_linkless {path : String} {loc : Location}
    (h : canonicalTarget cfg s.fs path = some loc) : loc = resolve cfg.cwd (components path) := by
  rcases Option.or_eq_some_iff.mp h with hfound | ⟨-, hattached⟩
  · unfold canonicalizePath at hfound
    split_ifs at hfound
    rw [← resolve_segments]
    exact locate_of_linkless hlinks (Option.filter_eq_some_iff.mp hfound).1
  · have hempty : "" ∉ (components path).reverse := by
      intro hmem
      exact (of_mem_components (List.mem_reverse.mp hmem) (by decide)).1 rfl
    have hloc := attachToAncestor_of_linkless hlinks hempty (List.forall_mem_nil _) hattached
    rwa [List.reverse_reverse, List.append_nil] at hloc

/-- Restoring a file creates no links. -/
theorem linkless_restoreFile (r : RestoreRequest) (env : FileAnswers) (archives : Bool)
    (rev : Revision) : Linkless (restoreFile cfg s r env archives rev).2.fs := by
  unfold restoreFile
  rcases validate cfg s.fs rev.path with e | target
  · exact hlinks
  have hdirs : Linkless (makeParents s.fs target env.dirOk).1 := by
    unfold makeParents
    split_ifs
    · exact hlinks.createDirs _ _
    · exact hlinks
  dsimp only
  rcases (makeParents s.fs target env.dirOk).2 with _ | _
  · exact hdirs
  simp only [Bool.not_true, Bool.false_eq_true, if_false]
  have hwritten := linkless_writeTarget hdirs target rev.bytes env.write
  rcases (writeTarget (makeParents s.fs target env.dirOk).1 target rev.bytes env.write).2 with _ | _
  · exact hwritten
  simp only [Bool.not_true, Bool.false_eq_true, if_false]
  split <;> exact hwritten

end

theorem linkless_restoreTurn {r : RestoreRequest} {l : SnapshotLoop} (h : Linkless l.vault.fs)
    (entry : SnapshotFile) : Linkless (restoreTurn blake3 cfg r l entry).vault.fs := by
  unfold restoreTurn
  split_ifs
  · exact h
  rcases planSnapshotFile blake3 cfg l.vault entry with _ | rev
  · exact h
  have hnext : Linkless (restoreFile cfg l.vault r (r.env l.position) true rev).2.fs :=
    linkless_restoreFile h r (r.env l.position) true rev
  dsimp only
  rcases hres : restoreFile cfg l.vault r (r.env l.position) true rev with ⟨e | u, s'⟩
  · rw [hres] at hnext
    exact hnext
  · rw [hres] at hnext
    exact hnext

theorem linkless_of_mem_history {r : RestoreRequest} {l : SnapshotLoop} (h : Linkless l.vault.fs)
    {entries : List SnapshotFile} {x : SnapshotLoop × SnapshotFile}
    (hx : x ∈ Trace.history (restoreTurn blake3 cfg r) l entries) : Linkless x.1.vault.fs := by
  induction entries generalizing l with
  | nil => cases hx
  | cons entry entries ih =>
      rcases List.mem_cons.mp hx with rfl | hx
      · exact h
      · exact ih (linkless_restoreTurn h entry) hx

/-- A path of names, as rows have it. -/
def PlainPath (path : Path) : Prop := path ≠ [] ∧ ∀ n ∈ path, LexicalPath.Clean n ∧ '\\' ∉ n.toList

theorem dbKey_pathString {path : Path} (h : PlainPath path) : dbKey (pathString path) = path := by
  unfold dbKey pathString
  rw [splitSlash_intercalate h.1 fun n hn => (h.2 n hn).1.slash, List.map_map]
  simp [Function.comp_def]

/-- What is below the root has the row of its path. -/
theorem rowKey_of_plain {root : Location} (hroot : components cfg.syncRoot = absolute root)
    {path : Path} (h : PlainPath path) : rowKey cfg (root ++ path) = path := by
  have hpre : (absolute root).isPrefixOf (absolute (root ++ path)) = true := by
    simp [absolute]
  have hdrop : (absolute (root ++ path)).drop (absolute root).length = path := by
    simp [absolute]
  have hstring : componentsString path = pathString path := by
    obtain ⟨hne, hnames⟩ := h
    cases path with
    | nil => exact absurd rfl hne
    | cons name path =>
        have hslash := (hnames name List.mem_cons_self).1.isName.1
        unfold componentsString
        split
        · rename_i names heq
          exact absurd (List.cons.inj heq).1 hslash
        · rfl
  have hkey : dbKey (replaceBackslash (pathString path)) = dbKey (pathString path) :=
    Hosting.pathAsStr_eq fun n hn => (h.2 n hn).2
  unfold rowKey
  dsimp only
  rw [hroot, if_pos hpre, hdrop, hstring, hkey, dbKey_pathString h]

/-- **Below an absolute root, without links**, the guard leads a file to the row of its path. -/
theorem ledTo_of_linkless {s : VaultState} (hlinks : Linkless s.fs) {root : Location}
    (hroot : components cfg.syncRoot = absolute root) (hnames : ∀ n ∈ root, IsName n)
    {entry : SnapshotFile} (hplain : PlainPath entry.path) {key : Path}
    (h : ledTo cfg s entry = some key) : key = entry.path := by
  unfold ledTo at h
  split_ifs at h
  rcases hguard : validate cfg s.fs (pathString entry.path) with e | target
  · rw [hguard] at h
    cases h
  rw [hguard] at h
  have hcomponents : components (pathString entry.path) = entry.path :=
    components_intercalate fun n hn => (hplain.2 n hn).1
  have htarget := canonicalTarget_of_linkless hlinks (canonicalTarget_of_validate hguard)
  rw [resolve_joinPath, hcomponents, hroot, resolve_of_clean _ fun n hn => (hplain.2 n hn).1]
    at htarget
  have habsolute : resolve cfg.cwd (absolute root) = root := resolve_of_isName [] hnames
  rw [habsolute] at htarget
  rw [htarget] at h
  dsimp only at h
  rw [rowKey_of_plain hroot hplain] at h
  exact (Option.some.inj h).symm

/-- Every live row of a plain path is a file of the snapshot. -/
theorem mem_snapshotFiles {db : MetaDb} {path : Path} {row : FileRow}
    (h : db.files.lookup path = some row) :
    snapshotFile (rowToMeta path row) ∈ db.listFilesScoped.map snapshotFile := by
  apply List.mem_map_of_mem
  apply (db.lists_listFilesScoped.mem_iff _).mpr
  show (db.files.lookup path).map (rowToMeta path) = _
  rw [h]
  rfl

/-- A file of the snapshot is that of a row. -/
theorem exists_row_of_mem {db : MetaDb} {entry : SnapshotFile}
    (h : entry ∈ db.listFilesScoped.map snapshotFile) :
    ∃ path row, db.files.lookup path = some row ∧ entry = snapshotFile (rowToMeta path row) := by
  obtain ⟨m, hm, rfl⟩ := List.mem_map.mp h
  have hfound := (db.lists_listFilesScoped.mem_iff m).mp hm
  obtain ⟨row, hrow, hmeta⟩ := Option.map_eq_some_iff.mp hfound
  exact ⟨m.path, row, hrow, by rw [hmeta]⟩

theorem snapshotFile_path {path : Path} (h : PlainPath path) (row : FileRow) :
    (snapshotFile (rowToMeta path row)).path = path := by
  simp only [snapshotFile, rowToMeta]
  rw [Hosting.pathAsStr_eq fun n hn => (h.2 n hn).2]
  exact dbKey_pathString h

/-- The live rows of one state are back under their paths in another, and the rows of all other paths
are as they were. -/
structure BackInPlace (captured before after : MetaDb) : Prop where
  live : ∀ path row, captured.files.lookup path = some row → row.deleted = false →
    LiveAs row.contentHash row.size (after.files.lookup path)
  rest : ∀ path, (∀ row, captured.files.lookup path = some row → row.deleted = true) →
    after.files.lookup path = before.files.lookup path

/-- **Files that are led to their own rows are back in place.** -/
theorem Restored.backInPlace {turns : List (SnapshotLoop × SnapshotFile)}
    {captured before after : MetaDb} (h : Restored cfg turns before after)
    (hfiles : (turns.map Prod.snd).Perm (captured.listFilesScoped.map snapshotFile))
    (hnodup : ((captured.listFilesScoped.map snapshotFile).map SnapshotFile.path).Nodup)
    (hplain : ∀ path row, captured.files.lookup path = some row → row.deleted = false →
      PlainPath path)
    (hown : ∀ x ∈ turns, PlainPath x.2.path → ∀ key, ledTo cfg x.1.vault x.2 = some key →
      key = x.2.path) : BackInPlace captured before after := by
  -- a live file is of a row, and is led to it
  have hrow : ∀ x ∈ turns, ∀ key, ledTo cfg x.1.vault x.2 = some key → key = x.2.path ∧
      ∃ row, captured.files.lookup key = some row ∧ row.deleted = false := by
    intro x hx key hled
    obtain ⟨path, row, hlookup, hentry⟩ :=
      exists_row_of_mem (hfiles.mem_iff.mp (List.mem_map_of_mem hx))
    have hlive : row.deleted = false := by
      rcases hdeleted : row.deleted with _ | _
      · rfl
      · rw [ledTo_of_deleted (by rw [hentry]; exact hdeleted)] at hled
        cases hled
    have hpath : x.2.path = path := by
      rw [hentry]
      exact snapshotFile_path (hplain path row hlookup hlive) row
    have hkey := hown x hx (by rw [hpath]; exact hplain path row hlookup hlive) key hled
    exact ⟨hkey, row, by rw [hkey, hpath]; exact hlookup, hlive⟩
  constructor
  · intro path row hlookup hlive
    have hpath := snapshotFile_path (hplain path row hlookup hlive) row
    obtain ⟨⟨l, entry⟩, hx, hentry⟩ :=
      List.mem_map.mp (hfiles.mem_iff.mpr (mem_snapshotFiles hlookup))
    obtain ⟨pre, post, rfl⟩ := List.append_of_mem hx
    dsimp only at hentry
    obtain ⟨key, hled, hkey⟩ := h.live pre l entry post rfl (by rw [hentry]; exact hlive)
    have hown := (hrow (l, entry) hx key hled).1
    dsimp only at hown
    rw [hown, hentry, hpath] at hkey
    apply hkey
    intro y hy hyled
    -- two files of the snapshot would have one path
    have hsame := (hrow y (List.mem_append_right _ (List.mem_cons_of_mem _ hy)) _ hyled).1
    rw [← (hfiles.map SnapshotFile.path).nodup_iff, List.map_append, List.map_append] at hnodup
    have htail := (List.nodup_append.mp hnodup).2.1
    rw [List.map_cons, List.map_cons] at htail
    apply (List.nodup_cons.mp htail).1
    dsimp only
    rw [hentry, hpath, hsame]
    exact List.mem_map_of_mem (List.mem_map_of_mem hy)
  · intro path hpath
    apply h.rest path
    intro y hy hled
    obtain ⟨-, row, hlookup, hlive⟩ := hrow y hy path hled
    rw [hpath row hlookup] at hlive
    cases hlive

end

/-! ## The law -/

/-- **A snapshot that is restored without failures.** Every file that was live when it was taken has
been led to a row by the guard, and the row is live with the captured hash and size, unless a later
file of the snapshot has been led there; the other rows are what they were before the restore.
Where the root is spelled absolutely and there are no links, the rows are those of the files' own
paths. -/
theorem restored_of_snapshot (blake3 : Bytes → Digest) (cfg : VaultConfig) {s₀ s₁ s₂ s₃ : VaultState}
    {admitted : Except String Unit} {kept : ℕ → Bool} {id : ℕ} (es : List VaultEvent)
    {r : RestoreRequest} {resp : RestoreSnapshotResponse}
    (hcreate : createSnapshot s₀ admitted kept = (.ok id, s₁))
    (hlater : Trace.run (vaultStep blake3 cfg) s₁ es = s₂)
    (hrestore : restoreSnapshot blake3 cfg s₂ r id = (.ok resp, s₃)) (hfailed : resp.filesFailed = 0) :
    (turnsOf blake3 cfg s₂ r id).map Prod.snd =
        sortSnapshotFiles (s₀.db.listFilesScoped.map snapshotFile) ∧
      Restored cfg (turnsOf blake3 cfg s₂ r id) s₂.db s₃.db ∧
      ∀ root, components cfg.syncRoot = absolute root → (∀ n ∈ root, IsName n) → Linkless s₂.fs →
        (∀ path row, s₀.db.files.lookup path = some row → row.deleted = false → PlainPath path) →
          BackInPlace s₀.db s₂.db s₃.db := by
  have hcaptured : Captured s₂ id (s₀.db.listFilesScoped.map snapshotFile) := by
    rw [← hlater]
    exact (captured_of_createSnapshot hcreate).run es
  obtain ⟨files, hfiles, hturns, hrestored⟩ := restored_of_restoreSnapshot hrestore hfailed
  obtain rfl := hcaptured.held files hfiles
  have hmap : (turnsOf blake3 cfg s₂ r id).map Prod.snd =
      sortSnapshotFiles (s₀.db.listFilesScoped.map snapshotFile) := by
    rw [hturns, Trace.history_map_snd]
  refine ⟨hmap, hrestored, ?_⟩
  intro root hroot hnames hlinks hplain
  have hperm : ((turnsOf blake3 cfg s₂ r id).map Prod.snd).Perm
      (s₀.db.listFilesScoped.map snapshotFile) := by
    rw [hmap]
    exact List.perm_insertionSort _ _
  apply hrestored.backInPlace hperm (nodup_of_createSnapshot hcreate) hplain
  intro x hx hpath key hled
  apply ledTo_of_linkless ?_ hroot hnames hpath hled
  rw [hturns] at hx
  exact linkless_of_mem_history hlinks hx

/-! ## A file created since -/

/-- The upload of a file that is not encrypted. -/
def upload (path : Path) (bytes : Bytes) : VaultEvent :=
  .rows (.versioned (restoredMeta "laptop" path (smallHash bytes) bytes.length none 0)
    ⟨"usr", ⟨5, 604800⟩⟩ 0)

/-- A server below `/srv`. -/
def srvConfig : VaultConfig := ⟨"/srv", []⟩

/-- A vault with a note, the bytes of which are in the store. -/
def notedVault : VaultState :=
  vaultStep smallHash srvConfig
    (newVault (some "corp") ((∅ : FileSystem Bytes).insert ["srv"] .dir)
      ((∅ : Table Digest Bytes).insert (smallHash [0]) [0]))
    (upload ["note"] [0])

/-- A snapshot of it is taken, the note is changed, and a draft is created. -/
def draftedVault : VaultState :=
  Trace.run (vaultStep smallHash srvConfig)
    (createSnapshot notedVault (.ok ()) fun _ => true).2 [upload ["note"] [1], upload ["draft"] [2]]

/-- The snapshot is restored. -/
def restoredVault : VaultState := (restoreSnapshot smallHash srvConfig draftedVault .calm 1).2

/-- The law at work: a note and a draft. -/
theorem restored_of_drafted : BackInPlace notedVault.db draftedVault.db restoredVault.db := by
  have hid : (createSnapshot notedVault (.ok ()) fun _ => true).1 = .ok 1 := by decide +kernel
  have hcreate : createSnapshot notedVault (.ok ()) (fun _ => true) =
      (.ok 1, (createSnapshot notedVault (.ok ()) fun _ => true).2) := by rw [← hid]
  have hanswer : (restoreSnapshot smallHash srvConfig draftedVault .calm 1).1 =
      .ok ⟨1, 1, 0, 0⟩ := by decide +kernel
  have hrestore : restoreSnapshot smallHash srvConfig draftedVault .calm 1 =
      (.ok ⟨1, 1, 0, 0⟩, restoredVault) := by rw [← hanswer, restoredVault]
  have hlinks : Linkless draftedVault.fs := by
    show Linkless (createSnapshot notedVault (.ok ()) fun _ => true).2.fs
    rw [createSnapshot_fs]
    show Linkless ((∅ : FileSystem Bytes).insert ["srv"] .dir)
    have hempty : Linkless (∅ : FileSystem Bytes) := fun loc target hlink => by cases hlink
    exact hempty.insert ["srv"] fun target hlink => by cases hlink
  have hplain : PlainPath ["note"] := by
    refine ⟨List.cons_ne_nil _ _, ?_⟩
    intro n hn
    rw [List.mem_singleton.mp hn]
    exact ⟨⟨by decide, by decide, by decide, by decide⟩, by decide⟩
  obtain ⟨-, -, hback⟩ := restored_of_snapshot smallHash srvConfig
    [upload ["note"] [1], upload ["draft"] [2]] hcreate (by rw [draftedVault]) hrestore rfl
  refine hback ["srv"] (by decide +kernel) (by simp [IsName]) hlinks ?_
  intro path row hrow _
  have hmem : path ∈ notedVault.db.files := AList.lookup_isSome.mp (by rw [hrow]; rfl)
  have hkeys : notedVault.db.files.keys = [["note"]] := by decide +kernel
  rw [AList.mem_keys, hkeys] at hmem
  rw [List.mem_singleton.mp hmem]
  exact hplain

/-- The live rows of one state are those of another. -/
def SameLive (captured after : MetaDb) : Prop :=
  ∀ path, (∀ row, captured.files.lookup path = some row → row.deleted = false →
      LiveAs row.contentHash row.size (after.files.lookup path)) ∧
    ((∀ row, captured.files.lookup path = some row → row.deleted = true) →
      ∀ row, after.files.lookup path = some row → row.deleted = true)

/-- **A file created since a snapshot outlives its restore.** The draft is live after a restore that
counts no failure, and was not there when the snapshot was taken. -/
theorem not_sameLive_of_drafted :
    (createSnapshot notedVault (.ok ()) fun _ => true).1 = .ok 1 ∧
      (restoreSnapshot smallHash srvConfig draftedVault .calm 1).1 = .ok ⟨1, 1, 0, 0⟩ ∧
      ¬ SameLive notedVault.db restoredVault.db := by
  refine ⟨by decide +kernel, by decide +kernel, ?_⟩
  intro hsame
  have hnone : notedVault.db.files.lookup ["draft"] = none := by decide +kernel
  have hlive : ∃ row ∈ restoredVault.db.files.lookup ["draft"], row.deleted = false := by
    decide +kernel
  obtain ⟨row, hrow, hlive⟩ := hlive
  have hdeleted := (hsame ["draft"]).2 (by rw [hnone]; exact fun _ h => by cases h) row hrow
  rw [hlive] at hdeleted
  cases hdeleted

end DiskArcana.Vault
