import DiskArcana.Lib.FileOps
import DiskArcana.Lib.Trace
import DiskArcana.ShareIndex.Reconcile

/-!
# The watcher of a share

`translate_notify_event` turns the reports of a file watcher into index events, one a path, and
`run_index_loop` works them off against the disk as it is then. A run interleaves the two with
operations on the disk in any order: what is still on its way, in the watcher, the channel or a batch,
is one queue.

The watcher is not part of the program. What the index relies on is that it names the paths that an
operation names (`Reported`); it may report more, in any number. A rename of a directory is reported by
the two paths of the directory, and the index looks at nothing else, so the rows below the directory stay
where they were (`renamed_directory_left_behind`). In a run that renames no directory with files to
index in it every path is right or has an event coming that will put it right (`Tracks`), and when the
queue is empty a reconciliation would change no live row (`live_rows_agree`).

The share holds regular files and directories. Reading the disk for one event is one step, without the
retries of `resolve_existing_file`, and nothing fails on the way.
-/

namespace DiskArcana.ShareIndex

open DiskArcana.Core DiskArcana.Lib DiskArcana.Lib.DirTree DiskArcana.Lib.LexicalPath
open DiskArcana.Server DiskArcana.Hosting

/-! ## Events -/

/-- `notify::event::RemoveKind` -/
inductive RemoveKind where
  | any
  | file
  | folder
  | other

/-- `notify::event::RenameMode` -/
inductive RenameMode where
  | any
  | to_
  | from_
  | both
  | other

/-- `notify::event::ModifyKind` -/
inductive ModifyKind where
  | any
  | data
  | metadata
  | name (mode : RenameMode)
  | other

/-- `notify::EventKind` -/
inductive EventKind where
  | any
  | access
  | create
  | modify (kind : ModifyKind)
  | remove (kind : RemoveKind)
  | other

/-- `notify::Event`, with absolute paths. -/
structure NotifyEvent where
  kind : EventKind
  paths : List Path

/-- An event of the share that is watched.
Source: `share_index/mod.rs`, `IndexEvent` -/
structure IndexEvent where
  absPath : Path
  kind : IndexEventKind

/-- What an event means for its paths, renames apart.
Source: `share_index/mod.rs`, `translate_notify_event` (`kind`) -/
def indexEventKind : EventKind → Option IndexEventKind
  | .create => some .upsert
  | .modify _ => some .upsert
  | .remove .file => some .tombstone
  | .remove .folder => some .tombstone
  | .remove .other => some .tombstone
  | .remove .any => some .tombstone
  | .any => none
  | .access => none
  | .other => none

/-- What an event means for the path at an index.
Source: `share_index/mod.rs`, `translate_notify_event` (`per_path_kind`) -/
def perPathKind (kind : EventKind) (otherwise : IndexEventKind) (i : ℕ) : IndexEventKind :=
  match kind with
  | .modify (.name .from_) => .tombstone
  | .modify (.name .both) => if i = 0 then .tombstone else .upsert
  | _ => otherwise

/-- Source: `share_index/mod.rs`, `translate_notify_event` -/
def translateNotifyEvent (root : Path) (ev : NotifyEvent) : List IndexEvent :=
  match indexEventKind ev.kind with
  | none => []
  | some kind =>
      (ev.paths.zipIdx.filter fun x =>
        root.isPrefixOf x.1 && !isInternalPath (x.1.drop root.length)).map fun x =>
          ⟨x.1, perPathKind ev.kind kind x.2⟩

section

variable (blake3 : Bytes → Digest) (nodeId : NodeId) (root : Path)

/-- One event of a batch.
Source: `share_index/mod.rs`, `run_index_loop` -/
def indexEvent (tree : Tree) (stat : Path → FileStat) (now : ℤ) (db : MetaDb) (ev : IndexEvent) : MetaDb :=
  let rel := ev.absPath.drop root.length
  match ev.kind with
  | .upsert => upsertLocalFile blake3 nodeId tree stat true db rel
  | .tombstone =>
      match resolvePresentFile tree rel with
      | some (resolved, _) => upsertLocalFile blake3 nodeId tree stat true db resolved
      | none => tombstoneLocalFile nodeId now true db rel

/-! ## Runs -/

/-- A share and its index. -/
structure Watched where
  tree : Tree
  /-- The metadata of each file. -/
  stat : Path → FileStat
  /-- The events that have not been worked off. -/
  queue : List IndexEvent
  db : MetaDb

inductive Activity where
  /-- An operation on the disk, the metadata after it, and what the watcher reports of it. -/
  | fs (op : Op Bytes) (stat : Path → FileStat) (reported : List NotifyEvent)
  /-- The loop takes its next event. -/
  | index (now : ℤ)

def watchStep (w : Watched) : Activity → Watched
  | .fs op stat reported =>
      { w with
        tree := (w.tree.perform op).getD w.tree
        stat := stat
        queue := w.queue ++ reported.flatMap (translateNotifyEvent root) }
  | .index now =>
      match w.queue with
      | [] => w
      | ev :: queue =>
          { w with queue := queue, db := indexEvent blake3 nodeId root w.tree w.stat now w.db ev }

end

/-! ## What a watcher promises -/

/-- The event says that something is at the path. -/
def NotifyEvent.SaysPresent (ev : NotifyEvent) (path : Path) : Prop :=
  match ev.kind with
  | .create => path ∈ ev.paths
  | .modify (.name .to_) => path ∈ ev.paths
  | .modify (.name .both) => ∃ source, ev.paths = [source, path]
  | .modify (.name _) => False
  | .modify _ => path ∈ ev.paths
  | _ => False

/-- The event says that nothing is left at the path. -/
def NotifyEvent.SaysGone (ev : NotifyEvent) (path : Path) : Prop :=
  match ev.kind with
  | .remove _ => path ∈ ev.paths
  | .modify (.name .from_) => path ∈ ev.paths
  | .modify (.name .both) => ∃ target, ev.paths = [path, target]
  | _ => False

/-- The reports of an operation name what it names, and the files whose metadata it changes. -/
structure Reported (root : Path) (w : Watched) (op : Op Bytes) (stat : Path → FileStat)
    (reported : List NotifyEvent) : Prop where
  names : ∀ ev ∈ reported, ∀ path ∈ ev.paths, root <+: path →
    ∀ n ∈ path.drop root.length, FileName n
  shown : (w.tree.perform op).isSome → ∀ path ∈ op.shown, ∃ ev ∈ reported, ev.SaysPresent (root ++ path)
  gone : (w.tree.perform op).isSome → ∀ path ∈ op.gone, ∃ ev ∈ reported, ev.SaysGone (root ++ path)
  touched : ∀ path, (w.tree.file path).isSome → (((w.tree.perform op).getD w.tree).file path).isSome →
    stat path ≠ w.stat path → ∃ ev ∈ reported, ev.SaysPresent (root ++ path)

/-- Everything is reported. -/
def Delivered (root : Path) (w : Watched) : Activity → Prop
  | .fs op stat reported => Reported root w op stat reported
  | .index _ => True

/-- New names are ordinary, and no directory with a file to index in it, before or after, is renamed. -/
def Ordinary (w : Watched) : Activity → Prop
  | .fs op _ _ => (∀ path ∈ op.named, RelPath path) ∧
      ∀ path, op.Moves w.tree path → isInternalPath path = true
  | .index _ => True

/-! ## Translation -/

/-- The location of an event below the root. -/
def IndexEvent.rel (root : Path) (e : IndexEvent) : Path := e.absPath.drop root.length

theorem mem_translateNotifyEvent_iff {root : Path} {ev : NotifyEvent} {e : IndexEvent} :
    e ∈ translateNotifyEvent root ev ↔ ∃ kind i, indexEventKind ev.kind = some kind ∧
      ev.paths[i]? = some e.absPath ∧ root <+: e.absPath ∧ isInternalPath (e.rel root) = false ∧
      e.kind = perPathKind ev.kind kind i := by
  unfold translateNotifyEvent
  cases hkind : indexEventKind ev.kind with
  | none => simp
  | some kind =>
      simp only [List.mem_map, List.mem_filter, Bool.and_eq_true, List.isPrefixOf_iff_prefix,
        Bool.not_eq_true', Prod.exists, List.mem_zipIdx_iff_getElem?]
      constructor
      · rintro ⟨path, i, ⟨hpath, hroot, hint⟩, rfl⟩
        exact ⟨kind, i, rfl, hpath, hroot, hint, rfl⟩
      · rintro ⟨kind', i, hkind', hpath, hroot, hint, hper⟩
        cases hkind'
        refine ⟨e.absPath, i, ⟨hpath, hroot, hint⟩, ?_⟩
        rw [← hper]

/-- A path below the root that is named at some index has its event. -/
theorem exists_event_of_getElem? {root path : Path} (ev : NotifyEvent) {kind : IndexEventKind} {i : ℕ}
    (hkind : indexEventKind ev.kind = some kind) (hpath : ev.paths[i]? = some (root ++ path))
    (hint : isInternalPath path = false) : ∃ e ∈ translateNotifyEvent root ev,
      e.rel root = path ∧ e.kind = perPathKind ev.kind kind i := by
  have hrel : (root ++ path).drop root.length = path := List.drop_left
  refine ⟨⟨root ++ path, perPathKind ev.kind kind i⟩, ?_, hrel, rfl⟩
  apply mem_translateNotifyEvent_iff.mpr
  refine ⟨kind, i, hkind, hpath, List.prefix_append root path, ?_, rfl⟩
  rw [IndexEvent.rel, hrel]
  exact hint

theorem exists_event_of_saysPresent {root path : Path} {ev : NotifyEvent}
    (h : ev.SaysPresent (root ++ path)) (hint : isInternalPath path = false) :
    ∃ e ∈ translateNotifyEvent root ev, e.rel root = path := by
  obtain ⟨evKind, paths⟩ := ev
  have hnamed : indexEventKind evKind = some .upsert → root ++ path ∈ paths →
      ∃ e ∈ translateNotifyEvent root ⟨evKind, paths⟩, e.rel root = path := by
    intro hkind hmem
    obtain ⟨i, hi⟩ := List.mem_iff_getElem?.mp hmem
    obtain ⟨e, he, hrel, -⟩ := exists_event_of_getElem? ⟨_, paths⟩ hkind hi hint
    exact ⟨e, he, hrel⟩
  cases evKind with
  | create => exact hnamed rfl h
  | modify kind =>
      cases kind with
      | name mode =>
          cases mode with
          | to_ => exact hnamed rfl h
          | both =>
              obtain ⟨source, hpaths⟩ := h
              apply hnamed rfl
              rw [show paths = [source, root ++ path] from hpaths]
              exact List.mem_cons_of_mem source List.mem_cons_self
          | any => exact h.elim
          | from_ => exact h.elim
          | other => exact h.elim
      | any => exact hnamed rfl h
      | data => exact hnamed rfl h
      | metadata => exact hnamed rfl h
      | other => exact hnamed rfl h
  | any => exact h.elim
  | access => exact h.elim
  | remove kind => exact h.elim
  | other => exact h.elim

theorem exists_event_of_saysGone {root path : Path} {ev : NotifyEvent}
    (h : ev.SaysGone (root ++ path)) (hint : isInternalPath path = false) :
    ∃ e ∈ translateNotifyEvent root ev, e.rel root = path ∧ e.kind = .tombstone := by
  obtain ⟨evKind, paths⟩ := ev
  cases evKind with
  | remove kind =>
      obtain ⟨i, hi⟩ := List.mem_iff_getElem?.mp h
      have hkind : indexEventKind (.remove kind) = some .tombstone := by cases kind <;> rfl
      exact exists_event_of_getElem? ⟨_, paths⟩ hkind hi hint
  | modify kind =>
      cases kind with
      | name mode =>
          cases mode with
          | from_ =>
              obtain ⟨i, hi⟩ := List.mem_iff_getElem?.mp h
              exact exists_event_of_getElem? ⟨_, paths⟩ rfl hi hint
          | both =>
              obtain ⟨target, hpaths⟩ := h
              apply exists_event_of_getElem? ⟨_, paths⟩ rfl (i := 0) _ hint
              rw [show paths = [root ++ path, target] from hpaths]
              rfl
          | any => exact h.elim
          | to_ => exact h.elim
          | other => exact h.elim
      | any => exact h.elim
      | data => exact h.elim
      | metadata => exact h.elim
      | other => exact h.elim
  | create => exact h.elim
  | any => exact h.elim
  | access => exact h.elim
  | other => exact h.elim

/-! ## One event -/

/-- Among regular files and directories a path leads to the file that is there. -/
theorem resolvePresentFile_eq {tree : Tree} {ok : String → Prop} (h : tree.Proper ok Leaf.IsFile)
    (rel : Path) :
    resolvePresentFile tree rel = (tree.file rel).map fun bytes => (rel, bytes) := by
  cases hfile : tree.file rel with
  | some bytes => exact resolvePresentFile_of_file hfile
  | none =>
      unfold resolvePresentFile
      cases hget : tree.get rel with
      | none =>
          rw [h.lstat_eq_none (fun target hlink => hlink) maxLinks hget]
          rfl
      | some node =>
          rw [Listing.lstat_of_get maxLinks hget]
          split
          · rename_i canonical bytes heq
            cases heq
            rw [Listing.file_eq_some_iff.mpr hget] at hfile
            cases hfile
          · rfl

/-- What an event does to the rows: it indexes the file that is at its path, whatever it says; a removal
is believed where there is none; and nothing else is changed. -/
theorem indexEvent_cases (blake3 : Bytes → Digest) (nodeId : NodeId) {root : Path} {tree : Tree}
    (htree : tree.Proper FileName Leaf.IsFile) (stat : Path → FileStat) (now : ℤ) (db : MetaDb)
    {e : IndexEvent} (hnames : ∀ n ∈ e.rel root, FileName n) :
    (∃ bytes row, tree.file (e.rel root) = some bytes ∧ WrittenRow blake3 bytes (stat (e.rel root)) row ∧
      (indexEvent blake3 nodeId root tree stat now db e).files = db.files.insert (e.rel root) row) ∨
    (∃ row : FileRow, tree.file (e.rel root) = none ∧ row.deleted = true ∧
      (indexEvent blake3 nodeId root tree stat now db e).files = db.files.insert (e.rel root) row) ∨
    (tree.file (e.rel root) = none ∧ (e.kind = .upsert ∨ e.rel root = []) ∧
      indexEvent blake3 nodeId root tree stat now db e = db) := by
  have hresolve := resolvePresentFile_eq htree (e.rel root)
  unfold indexEvent
  rw [show e.absPath.drop root.length = e.rel root from rfl]
  dsimp only
  cases hfile : tree.file (e.rel root) with
  | some bytes =>
      left
      rw [hfile] at hresolve
      obtain ⟨row, hrow, hfiles⟩ := upsertLocalFile_files blake3 nodeId htree stat db hresolve
      refine ⟨bytes, row, rfl, hrow, ?_⟩
      cases e.kind with
      | upsert => exact hfiles
      | tombstone =>
          dsimp only
          rw [hresolve]
          exact hfiles
  | none =>
      right
      rw [hfile] at hresolve
      cases hkind : e.kind with
      | upsert => exact Or.inr ⟨rfl, Or.inl rfl, upsertLocalFile_eq_self (Or.inl hresolve)⟩
      | tombstone =>
          dsimp only
          rw [hresolve]
          by_cases hroot : e.rel root = []
          · right
            rw [hroot]
            exact ⟨rfl, Or.inr rfl, rfl⟩
          · obtain ⟨row, hrow, hfiles⟩ := tombstoneLocalFile_files nodeId now db ⟨hroot, hnames⟩
            exact Or.inl ⟨row, rfl, hrow, hfiles⟩

/-! ## Right, or put right later -/

/-- The row of a path is what the disk says. -/
structure Right (blake3 : Bytes → Digest) (w : Watched) (path : Path) : Prop where
  present : ∀ bytes, w.tree.file path = some bytes → isInternalPath path = false → ∃ row,
    w.db.files.lookup path = some row ∧ WrittenRow blake3 bytes (w.stat path) row
  absent : ∀ row, w.db.files.lookup path = some row → row.deleted = false →
    (∃ bytes, w.tree.file path = some bytes) ∧ isInternalPath path = false

/-- An event is coming that will put the path right. -/
def Coming (root : Path) (tree : Tree) (queue : List IndexEvent) (path : Path) : Prop :=
  path ≠ [] ∧ isInternalPath path = false ∧
    ∃ e ∈ queue, e.rel root = path ∧ (e.kind = .tombstone ∨ (tree.file path).isSome)

/-- The index follows the disk. -/
structure Tracks (blake3 : Bytes → Digest) (root : Path) (w : Watched) : Prop where
  proper : w.tree.Proper FileName Leaf.IsFile
  queue : ∀ e ∈ w.queue, (∀ n ∈ e.rel root, FileName n) ∧ isInternalPath (e.rel root) = false
  paths : ∀ path, Right blake3 w path ∨ Coming root w.tree w.queue path

section

variable {blake3 : Bytes → Digest} {nodeId : NodeId} {root : Path} {w w' : Watched} {path : Path}

/-- Whether a path is right depends on its file and its row only. -/
theorem Right.congr (h : Right blake3 w path) (hfile : w'.tree.file path = w.tree.file path)
    (hstat : w'.stat path = w.stat path ∨ w.tree.file path = none)
    (hrow : w'.db.files.lookup path = w.db.files.lookup path) : Right blake3 w' path := by
  refine ⟨?_, ?_⟩
  · rw [hfile, hrow]
    intro bytes hbytes
    rcases hstat with hstat | hnone
    · rw [hstat]
      exact h.present bytes hbytes
    · rw [hnone] at hbytes
      cases hbytes
  · rw [hfile, hrow]
    exact h.absent

theorem Right.of_written {bytes : Bytes} {row : FileRow} (hfile : w.tree.file path = some bytes)
    (hint : isInternalPath path = false) (hlookup : w.db.files.lookup path = some row)
    (hrow : WrittenRow blake3 bytes (w.stat path) row) : Right blake3 w path := by
  refine ⟨?_, fun _ _ _ => ⟨⟨bytes, hfile⟩, hint⟩⟩
  intro bytes' hbytes' _
  cases hfile.symm.trans hbytes'
  exact ⟨row, hlookup, hrow⟩

theorem Right.of_deleted {row : FileRow} (hfile : w.tree.file path = none)
    (hlookup : w.db.files.lookup path = some row) (hrow : row.deleted = true) : Right blake3 w path := by
  refine ⟨?_, ?_⟩
  · intro bytes hbytes _
    rw [hfile] at hbytes
    cases hbytes
  · intro row' hrow' hlive
    cases hlookup.symm.trans hrow'
    rw [hrow] at hlive
    cases hlive

/-- **One event**: the loop puts right the path of the event, or leaves it to a later one. -/
theorem Tracks.index (h : Tracks blake3 root w) (now : ℤ) :
    Tracks blake3 root (watchStep blake3 nodeId root w (.index now)) := by
  unfold watchStep
  cases hq : w.queue with
  | nil => exact h
  | cons e rest =>
      have hcons : ∀ e' ∈ w.queue, e' = e ∨ e' ∈ rest := by
        rw [hq]
        exact fun e' he' => List.mem_cons.mp he'
      have hsub : ∀ e' ∈ rest, e' ∈ w.queue := by
        rw [hq]
        exact fun e' he' => List.mem_cons_of_mem e he'
      obtain ⟨hnames, hint⟩ := h.queue e (by rw [hq]; exact List.mem_cons_self)
      refine ⟨h.proper, fun e' he' => h.queue e' (hsub e' he'), ?_⟩
      have hevent := indexEvent_cases blake3 nodeId h.proper w.stat now w.db hnames
      intro path
      dsimp only
      by_cases hpath : path = e.rel root
      · subst hpath
        have hwritten : ∀ {row : FileRow} {db : MetaDb}, db.files = w.db.files.insert (e.rel root) row →
            db.files.lookup (e.rel root) = some row := by
          intro row db hfiles
          rw [hfiles, AList.lookup_insert]
        rcases hevent with ⟨bytes, row, hfile, hrow, hfiles⟩ | ⟨row, hfile, hrow, hfiles⟩ |
          ⟨hfile, hquiet, hself⟩
        · exact Or.inl (.of_written hfile hint (hwritten hfiles) hrow)
        · exact Or.inl (.of_deleted hfile (hwritten hfiles) hrow)
        · -- there is no file and nothing was done: a removal of the path is still to come
          rw [hself]
          rcases h.paths (e.rel root) with hright | ⟨hne, hext, e', he', hrel, hfix⟩
          · exact Or.inl (hright.congr rfl (Or.inl rfl) rfl)
          · refine Or.inr ⟨hne, hext, e', ?_, hrel, hfix⟩
            apply (hcons e' he').resolve_left
            rintro rfl
            rcases hquiet with hupsert | hroot
            · rw [hupsert, hfile] at hfix
              rcases hfix with hfix | hfix
              · cases hfix
              · cases hfix
            · exact hne hroot
      · have hrow : (indexEvent blake3 nodeId root w.tree w.stat now w.db e).files.lookup path =
            w.db.files.lookup path := by
          rcases hevent with ⟨bytes, row, -, -, hfiles⟩ | ⟨row, -, -, hfiles⟩ | ⟨-, -, hself⟩
          · rw [hfiles, Table.lookup_insert_eq_ite, if_neg hpath]
          · rw [hfiles, Table.lookup_insert_eq_ite, if_neg hpath]
          · rw [hself]
        rcases h.paths path with hright | ⟨hne, hext, e', he', hrel, hfix⟩
        · exact Or.inl (hright.congr rfl (Or.inl rfl) hrow)
        · refine Or.inr ⟨hne, hext, e', ?_, hrel, hfix⟩
          apply (hcons e' he').resolve_left
          rintro rfl
          exact hpath hrel.symm

/-- Nothing live is at an internal path. -/
theorem Tracks.right_of_internal (h : Tracks blake3 root w) (hint : isInternalPath path = true) :
    Right blake3 w path := by
  rcases h.paths path with hright | ⟨-, hext, -⟩
  · exact hright
  · rw [hint] at hext
    cases hext

variable {op : Op Bytes} {stat : Path → FileStat} {reported : List NotifyEvent}

/-- What is reported of a file is coming. -/
theorem coming_of_saysPresent {tree : Tree} (hint : isInternalPath path = false)
    (hsome : (tree.file path).isSome) (h : ∃ ev ∈ reported, ev.SaysPresent (root ++ path)) :
    Coming root tree (reported.flatMap (translateNotifyEvent root)) path := by
  have hne : path ≠ [] := by
    rintro rfl
    cases hsome
  obtain ⟨ev, hev, hsays⟩ := h
  obtain ⟨e, he, hrel⟩ := exists_event_of_saysPresent hsays hint
  exact ⟨hne, hint, e, List.mem_flatMap.mpr ⟨ev, hev, he⟩, hrel, Or.inr hsome⟩

theorem coming_of_saysGone {tree : Tree} (hint : isInternalPath path = false) (hne : path ≠ [])
    (h : ∃ ev ∈ reported, ev.SaysGone (root ++ path)) :
    Coming root tree (reported.flatMap (translateNotifyEvent root)) path := by
  obtain ⟨ev, hev, hsays⟩ := h
  obtain ⟨e, he, hrel, hkind⟩ := exists_event_of_saysGone hsays hint
  exact ⟨hne, hint, e, List.mem_flatMap.mpr ⟨ev, hev, he⟩, hrel, Or.inl hkind⟩

/-- What becomes of a file in an ordinary operation, outside the internal directories: it is not
touched, or an event for it is coming. -/
theorem file_or_coming (hw : w.tree.Proper FileName Leaf.IsFile)
    (hreported : Reported root w op stat reported)
    (hmoves : ∀ path, op.Moves w.tree path → isInternalPath path = true)
    (hint : isInternalPath path = false) :
    (((w.tree.perform op).getD w.tree).file path = w.tree.file path ∧
      (stat path = w.stat path ∨ w.tree.file path = none)) ∨
    Coming root ((w.tree.perform op).getD w.tree) (reported.flatMap (translateNotifyEvent root))
      path := by
  obtain ⟨-, hshown, hgone, htouched⟩ := hreported
  rcases Listing.file_getD_perform hw op path with hsame | ⟨hop, hpath, hsome⟩ | ⟨hop, hpath, hne⟩ | hmoved
  · by_cases hstat : stat path = w.stat path
    · exact Or.inl ⟨hsame, Or.inl hstat⟩
    · cases hfile : w.tree.file path with
      | none => exact Or.inl ⟨hsame.trans hfile, Or.inr rfl⟩
      | some bytes =>
          have hbefore : (w.tree.file path).isSome := by rw [hfile]; rfl
          have hafter : (((w.tree.perform op).getD w.tree).file path).isSome := by
            rw [hsame]
            exact hbefore
          exact Or.inr (coming_of_saysPresent hint hafter (htouched path hbefore hafter hstat))
  · exact Or.inr (coming_of_saysPresent hint hsome (hshown hop path hpath))
  · exact Or.inr (coming_of_saysGone hint hne (hgone hop path hpath))
  · rw [hmoves path hmoved] at hint
    cases hint

/-- **One operation**: what it does to the files is on its way to the index. -/
theorem Tracks.fs (h : Tracks blake3 root w) (hreported : Reported root w op stat reported)
    (hnames : ∀ path ∈ op.named, RelPath path)
    (hmoves : ∀ path, op.Moves w.tree path → isInternalPath path = true) :
    Tracks blake3 root (watchStep blake3 nodeId root w (.fs op stat reported)) := by
  refine ⟨?_, ?_, ?_⟩
  · show ((w.tree.perform op).getD w.tree).Proper FileName Leaf.IsFile
    cases hop : w.tree.perform op with
    | none => exact h.proper
    | some tree => exact h.proper.perform hop fun path hpath => (hnames path hpath).names
  · intro e he
    rcases List.mem_append.mp he with hold | hnew
    · exact h.queue e hold
    · obtain ⟨ev, hev, he⟩ := List.mem_flatMap.mp hnew
      obtain ⟨kind, i, -, hpath, hroot, hint, -⟩ := mem_translateNotifyEvent_iff.mp he
      exact ⟨hreported.names ev hev e.absPath (List.mem_of_getElem? hpath) hroot, hint⟩
  · intro path
    cases hint : isInternalPath path with
    | true =>
        have hright := h.right_of_internal hint
        left
        refine ⟨?_, ?_⟩
        · intro bytes _ hext
          rw [hint] at hext
          cases hext
        · intro row hrow hlive
          have hext := (hright.absent row hrow hlive).2
          rw [hint] at hext
          cases hext
    | false =>
        rcases file_or_coming h.proper hreported hmoves hint with
          ⟨hfile, hstat⟩ | ⟨hne, hext, e, he, hrel, hfix⟩
        · rcases h.paths path with hright | ⟨hne, hext, e, he, hrel, hfix⟩
          · exact Or.inl (hright.congr hfile hstat rfl)
          · rw [← hfile] at hfix
            exact Or.inr ⟨hne, hext, e, List.mem_append_left _ he, hrel, hfix⟩
        · exact Or.inr ⟨hne, hint, e, List.mem_append_right _ he, hrel, hfix⟩

/-! ## Agreement with a reconciliation -/

/-- The index agrees with the disk, and nothing is on its way. -/
structure Synced (blake3 : Bytes → Digest) (w : Watched) : Prop where
  proper : w.tree.Proper FileName Leaf.IsFile
  idle : w.queue = []
  right : ∀ path, Right blake3 w path

theorem Synced.tracks (h : Synced blake3 w) (root : Path) : Tracks blake3 root w := by
  refine ⟨h.proper, ?_, fun path => Or.inl (h.right path)⟩
  rw [h.idle]
  exact nofun

theorem Tracks.synced (h : Tracks blake3 root w) (hidle : w.queue = []) : Synced blake3 w := by
  refine ⟨h.proper, hidle, ?_⟩
  intro path
  rcases h.paths path with hright | ⟨-, -, e, he, -⟩
  · exact hright
  · rw [hidle] at he
    cases he

/-- **Runs**: the index follows the disk through every run that renames no directory with files to
index in it. -/
theorem Tracks.run (h : Tracks blake3 root w) {es : List Activity}
    (hes : Trace.Always (watchStep blake3 nodeId root)
      (fun _ w e => Delivered root w e ∧ Ordinary w e) w es) :
    Tracks blake3 root (Trace.run (watchStep blake3 nodeId root) w es) := by
  apply (Trace.Always.of_invariant (φ := fun _ _ _ => True) (I := fun _ w => Tracks blake3 root w) h
    (fun _ _ _ _ => trivial) _ hes).2
  intro es e hw hstep
  cases e with
  | index now => exact hw.index now
  | fs op stat reported => exact hw.fs hstep.1 hstep.2.1 hstep.2.2

/-- The live row of a path. -/
def liveRow (db : MetaDb) (path : Path) : Option FileRow :=
  (db.files.lookup path).filter fun row => !row.deleted

theorem liveRow_eq_none_iff {db : MetaDb} : liveRow db path = none ↔
    ∀ row, db.files.lookup path = some row → row.deleted = true := by
  unfold liveRow
  rw [Option.filter_eq_none_iff]
  simp

/-- A reconciliation leaves the live rows of an index that agrees with the disk. -/
theorem Synced.liveRow_eq (h : Synced blake3 w) {env : IndexEnv} {vault : String}
    (hstat : env.stat vault = w.stat) {after : MetaDb}
    (hafter : Reconciled blake3 env vault w.tree w.db after) (path : Path) :
    liveRow after path = liveRow w.db path := by
  by_cases hfile : (∃ bytes, w.tree.file path = some bytes) ∧ isInternalPath path = false
  · obtain ⟨⟨bytes, hbytes⟩, hint⟩ := hfile
    obtain ⟨row, hrow, hwritten⟩ := (h.right path).present bytes hbytes hint
    unfold liveRow
    rw [hrow, hafter.unchanged path bytes row hbytes hint hrow (by rw [hstat]; exact hwritten)]
  · have hgone : ∀ row, w.db.files.lookup path = some row → row.deleted = true := by
      intro row hrow
      by_contra hlive
      exact hfile ((h.right path).absent row hrow (Bool.eq_false_iff.mpr hlive))
    rw [liveRow_eq_none_iff.mpr hgone, liveRow_eq_none_iff]
    intro row hrow
    by_contra hlive
    exact hlive (hgone row (hafter.left path row hrow (Bool.eq_false_iff.mpr hlive) hfile).1)

end

/-- **Live indexing**: in a run of which everything is reported and which renames no directory with
files to index in it, the live rows are, whenever all events are worked off, those that a reconciliation
would leave. -/
theorem live_rows_agree (blake3 : Bytes → Digest) (nodeId : NodeId) (root : Path) (w : Watched)
    (hw : Synced blake3 w) (es : List Activity)
    (hes : Trace.Always (watchStep blake3 nodeId root)
      (fun _ w e => Delivered root w e ∧ Ordinary w e) w es)
    (hidle : (Trace.run (watchStep blake3 nodeId root) w es).queue = [])
    (env : IndexEnv) (henv : env.Works) (roots : Roots) (vaults : Vaults) (vault : String)
    (hshare : (vault, (Trace.run (watchStep blake3 nodeId root) w es).tree) ∈ roots.shares)
    (hrows : vaults vault = (Trace.run (watchStep blake3 nodeId root) w es).db)
    (hstat : env.stat vault = (Trace.run (watchStep blake3 nodeId root) w es).stat) :
    ∃ count, (fullReconcile blake3 nodeId env roots.shares vaults).1 = .ok count ∧
      ∀ path, liveRow ((fullReconcile blake3 nodeId env roots.shares vaults).2 vault) path =
        liveRow (vaults vault) path := by
  have hsynced := ((hw.tracks root).run hes).synced hidle
  obtain ⟨count, hcount⟩ := exists_fullReconcile_eq_ok blake3 nodeId henv roots.shares vaults
  have hkeys : LiveKeys (vaults vault) := by
    intro path row hrow hlive
    rw [hrows] at hrow
    obtain ⟨⟨bytes, hbytes⟩, -⟩ := (hsynced.right path).absent row hrow hlive
    exact relPath_of_file hsynced.proper hbytes
  have hafter := reconciled_of_fullReconcile hcount hshare hkeys
  rw [hrows] at hafter ⊢
  exact ⟨count, hcount, hsynced.liveRow_eq hstat hafter⟩

/-! ## Small runs -/

/-- The notes, all indexed. -/
def syncedNotes : Watched where
  tree := notesTree
  stat := fun _ => ⟨none, 1⟩
  queue := []
  db := sampleVaults ((AList.insert ["a.md"] (sampleRow [97]) ∅).insert ["d", "b.md"] (sampleRow [98])) "kb"

theorem synced_syncedNotes : Synced System.sampleBlake3 syncedNotes := by
  refine ⟨?_, rfl, ?_⟩
  · exact ⟨by decide, trivial, by decide, by decide, ⟨by decide, trivial, by decide, trivial⟩, by decide,
      trivial⟩
  · intro path
    have hproper : notesTree.Proper FileName fun _ => True := notesRoots.proper _ List.mem_cons_self
    have hwalk : walkFiles (fun _ => none) notesTree = .ok [["a.md"], ["d", "b.md"]] := rfl
    refine ⟨?_, ?_⟩
    · intro bytes hbytes hint
      have hmem := (mem_walkFiles hproper hwalk path).mpr ⟨⟨bytes, hbytes⟩, hint⟩
      rcases List.mem_cons.mp hmem with rfl | hmem
      · cases hbytes
        exact ⟨sampleRow [97], rfl, ⟨⟨rfl, rfl, rfl⟩, rfl, rfl, rfl, rfl, rfl⟩⟩
      · cases List.mem_singleton.mp hmem
        cases hbytes
        exact ⟨sampleRow [98], rfl, ⟨⟨rfl, rfl, rfl⟩, rfl, rfl, rfl, rfl, rfl⟩⟩
    · intro row hrow _
      have hkeys : ∀ p ∈ syncedNotes.db.files.keys, p ∈ [["a.md"], ["d", "b.md"]] := by decide
      apply (mem_walkFiles hproper hwalk path).mp
      apply hkeys
      apply AList.lookup_isSome.mp
      rw [hrow]
      rfl

/-- Where the share is. -/
def notesRoot : Path := ["srv", "kb"]

/-- A note is renamed, and both events of the rename are worked off. -/
def renameNote : List Activity :=
  [.fs (.rename ["a.md"] ["c.md"]) (fun _ => ⟨none, 1⟩)
      [⟨.modify (.name .both), [notesRoot ++ ["a.md"], notesRoot ++ ["c.md"]]⟩],
    .index 5, .index 6]

/-- The share afterwards. -/
def renamedNotes : Watched :=
  Trace.run (watchStep System.sampleBlake3 "server" notesRoot) syncedNotes renameNote

def renamedRoots : Roots where
  shares := [("kb", renamedNotes.tree)]
  nodup := by decide
  proper := by
    intro share hshare
    cases List.mem_singleton.mp hshare
    exact ⟨by decide, trivial, by decide, by decide, ⟨by decide, trivial, by decide, trivial⟩, by decide,
      trivial⟩

theorem live_rows_agree_renameNote :
    liveRow renamedNotes.db ["c.md"] = some (sampleRow [97]) ∧
    ∃ count, (fullReconcile System.sampleBlake3 "server" quietEnv renamedRoots.shares
        (fun _ => renamedNotes.db)).1 = .ok count ∧
      ∀ path, liveRow ((fullReconcile System.sampleBlake3 "server" quietEnv renamedRoots.shares
        (fun _ => renamedNotes.db)).2 "kb") path = liveRow renamedNotes.db path := by
  refine ⟨rfl, live_rows_agree System.sampleBlake3 "server" notesRoot syncedNotes synced_syncedNotes
    renameNote ?_ rfl quietEnv ?_ renamedRoots _ "kb" List.mem_cons_self rfl rfl⟩
  · apply Trace.always_of_forall_mem (F := fun w e => Delivered notesRoot w e ∧ Ordinary w e)
    refine List.forall_mem_cons.mpr ⟨⟨?_, ?_⟩, ?_⟩
    · refine ⟨by decide, ?_, ?_, fun _ _ _ hstat => absurd rfl hstat⟩
      · intro _ path hpath
        cases List.mem_singleton.mp hpath
        exact ⟨_, List.mem_cons_self, _, rfl⟩
      · intro _ path hpath
        cases List.mem_singleton.mp hpath
        exact ⟨_, List.mem_cons_self, _, rfl⟩
    · refine ⟨by decide, ?_⟩
      rintro path ⟨children, below, hget, -⟩
      cases hget
    · refine List.forall_mem_cons.mpr ⟨⟨trivial, trivial⟩, ?_⟩
      exact List.forall_mem_singleton.mpr ⟨trivial, trivial⟩
  · exact ⟨fun _ _ => rfl, fun _ => rfl, fun _ => rfl, fun _ _ => rfl, fun _ _ => rfl, fun _ _ => rfl⟩

/-- The directory is renamed, and all events of the rename are worked off. -/
def renameDirectory : List Activity :=
  [.fs (.rename ["d"] ["e"]) (fun _ => ⟨none, 1⟩)
      [⟨.modify (.name .from_), [notesRoot ++ ["d"]]⟩, ⟨.modify (.name .to_), [notesRoot ++ ["e"]]⟩,
        ⟨.modify (.name .both), [notesRoot ++ ["d"], notesRoot ++ ["e"]]⟩],
    .index 5, .index 6, .index 7, .index 8]

/-- The share afterwards. -/
def movedNotes : Watched :=
  Trace.run (watchStep System.sampleBlake3 "server" notesRoot) syncedNotes renameDirectory

/-- The note in the directory is still listed where it was, and not where it is. -/
theorem renamed_directory_left_behind :
    Synced System.sampleBlake3 syncedNotes ∧
    Trace.Always (watchStep System.sampleBlake3 "server" notesRoot) (fun _ w e => Delivered notesRoot w e)
      syncedNotes renameDirectory ∧
    movedNotes.queue = [] ∧
    liveRow movedNotes.db ["d", "b.md"] = some (sampleRow [98]) ∧
    liveRow movedNotes.db ["e", "b.md"] = none ∧
    (fullReconcile System.sampleBlake3 "server" quietEnv [("kb", movedNotes.tree)]
      (fun _ => movedNotes.db)).1 = .ok 0 ∧
    liveRow ((fullReconcile System.sampleBlake3 "server" quietEnv [("kb", movedNotes.tree)]
      (fun _ => movedNotes.db)).2 "kb") ["d", "b.md"] = none ∧
    liveRow ((fullReconcile System.sampleBlake3 "server" quietEnv [("kb", movedNotes.tree)]
      (fun _ => movedNotes.db)).2 "kb") ["e", "b.md"] = some (sampleRow [98]) := by
  refine ⟨synced_syncedNotes, ?_, rfl, rfl, rfl, rfl, rfl, rfl⟩
  apply Trace.always_of_forall_mem (F := fun w e => Delivered notesRoot w e)
  refine List.forall_mem_cons.mpr ⟨⟨by decide, ?_, ?_, fun _ _ _ hstat => absurd rfl hstat⟩, ?_⟩
  · intro _ path hpath
    cases List.mem_singleton.mp hpath
    exact ⟨_, List.mem_cons_of_mem _ List.mem_cons_self, List.mem_singleton_self _⟩
  · intro _ path hpath
    cases List.mem_singleton.mp hpath
    exact ⟨_, List.mem_cons_self, List.mem_singleton_self _⟩
  · refine List.forall_mem_cons.mpr ⟨trivial, List.forall_mem_cons.mpr ⟨trivial, ?_⟩⟩
    exact List.forall_mem_cons.mpr ⟨trivial, List.forall_mem_singleton.mpr trivial⟩

end DiskArcana.ShareIndex
