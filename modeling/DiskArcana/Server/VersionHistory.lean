import DiskArcana.Lib.Trace
import DiskArcana.Server.Transfer

/-!
# What the version history remembers

The tables of one vault under any sequence of versioned and unversioned upserts, tombstones and
prunes. A versioned upsert that changes content takes the next version id and moves the content it
replaces into `file_versions`; an unversioned one replaces the content of the current version and
records nothing. So the ids of versioned content changes strictly increase, and a hash that was once
live is still the row's, is recorded, was pruned, or was replaced without a version
(`versioned_content_identified`).

One case is left out: a versioned upsert onto a tombstoned row does not count as a change, whatever
its content, and takes the id that the deleted content had.
-/

namespace DiskArcana.Server

open DiskArcana.Core DiskArcana.Lib

namespace MetaDb

/-! ## Runs of the tables -/

/-- The operations on the rows of a vault. -/
inductive HistoryEvent where
  /-- `upsert_file_scoped_versioned`. -/
  | versioned (m : FileMeta) (ctx : FileVersionUpsert) (now : ℤ)
  /-- `upsert_file_scoped`. -/
  | unversioned (m : FileMeta)
  /-- `tombstone_local_file`; `exchange_state` writes the same over a row. -/
  | tombstone (path : Path) (nodeId : NodeId) (now : ℤ)
  /-- `prune_file_versions`. -/
  | prune (path : Path) (retention : VersionRetention) (now : ℤ)

/-- The tables after an operation; a versioned upsert that fails changes nothing. -/
def historyStep (db : MetaDb) : HistoryEvent → MetaDb
  | .versioned m ctx now => (db.upsertFileScopedVersioned m ctx now).getD db
  | .unversioned m => db.upsertFileScoped m
  | .tombstone path nodeId now =>
    match db.getFileScoped path with
    | some row => db.upsertFileScoped (Server.tombstone now row)
    | none => db.upsertFileScoped (missingTombstone nodeId path now)
  | .prune path retention now =>
    { db with fileVersions := pruneFileVersions db.fileVersions path retention now }

/-- The tables of a new vault. -/
def emptyDb (tenantId : Option String) : MetaDb where
  tenantId := tenantId
  files := ∅
  nodeBaselines := ∅
  fileVersions := []
  conflicts := []

/-! ## Content writes and remembered content -/

/-- A versioned upsert that succeeds and changes the content of the path: the version id it is
recorded under, and the hash. -/
def contentWrite (path : Path) (x : MetaDb × HistoryEvent) : Option (ℕ × Digest) :=
  match x.2 with
  | .versioned m ctx now =>
    if m.path = path ∧ (x.1.files.lookup path).map FileRow.contentHash ≠ some m.contentHash then
      ((x.1.upsertFileScopedVersioned m ctx now).bind fun db => db.files.lookup path).bind fun row =>
        row.versionId.map fun id => (id, row.contentHash)
    else none
  | _ => none

/-- The content writes of a path, in order. -/
def contentWrites (path : Path) (hist : List (MetaDb × HistoryEvent)) : List (ℕ × Digest) :=
  hist.filterMap (contentWrite path)

/-- The row of the path is live and has the hash. -/
def LiveAt (db : MetaDb) (path : Path) (hash : Digest) : Prop :=
  ∃ row ∈ db.files.lookup path, row.deleted = false ∧ row.contentHash = hash

instance (db : MetaDb) (path : Path) (hash : Digest) : Decidable (LiveAt db path hash) :=
  inferInstanceAs (Decidable (∃ row ∈ db.files.lookup path, _ ∧ _))

/-- The hash was once that of the live row. -/
def WasLive (hist : List (MetaDb × HistoryEvent)) (path : Path) (hash : Digest) : Prop :=
  ∃ x ∈ hist, LiveAt x.1 path hash

instance (hist : List (MetaDb × HistoryEvent)) (path : Path) (hash : Digest) :
    Decidable (WasLive hist path hash) :=
  inferInstanceAs (Decidable (∃ x ∈ hist, _))

/-- What an operation hands to `prune_file_versions`: the history rows, the path, the limits and the
time. -/
def prunes (db : MetaDb) :
    HistoryEvent → Option (List FileVersionRow × Path × VersionRetention × ℤ)
  | .versioned m ctx now =>
    (recordHistory db (nextVersion (db.files.lookup m.path) m ctx.createdBy now).2.2).map fun db =>
      (db.fileVersions, m.path, ctx.retention, now)
  | .prune path retention now => some (db.fileVersions, path, retention, now)
  | _ => none

/-- The step has `prune_file_versions` remove a history row of the path with the hash. -/
def PrunedAt (path : Path) (hash : Digest) (x : MetaDb × HistoryEvent) : Prop :=
  ∃ versions retention now, prunes x.1 x.2 = some (versions, path, retention, now) ∧
    ∃ v ∈ versions, v.path = path ∧ v.contentHash = hash ∧
      v ∉ pruneFileVersions versions path retention now

/-- The step has an unversioned upsert replace the hash. -/
def OverwrittenAt (path : Path) (hash : Digest) (x : MetaDb × HistoryEvent) : Prop :=
  ∃ m, x.2 = .unversioned m ∧ m.path = path ∧ m.contentHash ≠ hash ∧
    ∃ row, x.1.files.lookup path = some row ∧ row.contentHash = hash

/-- The hash is the row's, is recorded, was pruned, or was replaced without a version. -/
def Accounted (hist : List (MetaDb × HistoryEvent)) (db : MetaDb) (path : Path) (hash : Digest) :
    Prop :=
  (∃ row, db.files.lookup path = some row ∧ row.contentHash = hash) ∨
    (∃ v ∈ db.fileVersions, v.path = path ∧ v.contentHash = hash) ∨
    ∃ x ∈ hist, PrunedAt path hash x ∨ OverwrittenAt path hash x

/-- A versioned upsert puts other content in place of a tombstone that stands for content: it has a
version id, or its hash was once live. -/
def Recreates (hist : List (MetaDb × HistoryEvent)) (db : MetaDb) : HistoryEvent → Prop
  | .versioned m _ _ => ∃ row ∈ db.files.lookup m.path, row.deleted = true ∧
      row.contentHash ≠ m.contentHash ∧
        (row.versionId.isSome = true ∨ WasLive hist m.path row.contentHash)
  | _ => False

instance (hist : List (MetaDb × HistoryEvent)) (db : MetaDb) (e : HistoryEvent) :
    Decidable (Recreates hist db e) :=
  match e with
  | .versioned m _ _ => inferInstanceAs (Decidable (∃ row ∈ db.files.lookup m.path, _ ∧ _ ∧ _))
  | .unversioned _ => inferInstanceAs (Decidable False)
  | .tombstone _ _ _ => inferInstanceAs (Decidable False)
  | .prune _ _ _ => inferInstanceAs (Decidable False)

/-! ## One operation -/

theorem historyStep_versioned (db : MetaDb) (m : FileMeta) (ctx : FileVersionUpsert) (now : ℤ) :
    historyStep db (.versioned m ctx now) = (db.upsertFileScopedVersioned m ctx now).getD db := rfl

/-- **What a versioned upsert does when it succeeds**: the row gets the entry and an id, the history
rows, with the replaced live content among them, are handed to the prune. The id is the next one
exactly when live content changes. -/
theorem versioned_cases {db db' : MetaDb} {m : FileMeta} {ctx : FileVersionUpsert} {now : ℤ}
    (h : db.upsertFileScopedVersioned m ctx now = some db') :
    ∃ versionId parentVersionId versions,
      db'.files = db.files.insert m.path (fileRowOfMeta m (some versionId) (some parentVersionId)) ∧
      prunes db (.versioned m ctx now) = some (versions, m.path, ctx.retention, now) ∧
      db'.fileVersions = pruneFileVersions versions m.path ctx.retention now ∧
      db.fileVersions ⊆ versions ∧
      (∀ row, db.files.lookup m.path = some row →
        if row.contentHash ≠ m.contentHash ∧ row.deleted = false then
          versionId = row.versionId.getD 1 + 1 ∧
            ∃ v ∈ versions, v.path = m.path ∧ v.contentHash = row.contentHash
        else versionId = row.versionId.getD 1) := by
  obtain ⟨db₁, h₁, rfl⟩ := Option.map_eq_some_iff.mp h
  have hkeep : db₁.files = db.files ∧ db₁.fileVersions = db.fileVersions ++
      (nextVersion (db.files.lookup m.path) m ctx.createdBy now).2.2.toList := by
    rcases hnext : (nextVersion (db.files.lookup m.path) m ctx.createdBy now).2.2 with _ | v
    · rw [hnext] at h₁
      cases h₁
      exact ⟨rfl, (List.append_nil _).symm⟩
    · rw [hnext] at h₁
      unfold recordHistory insertFileVersion at h₁
      dsimp only at h₁
      split_ifs at h₁
      cases h₁
      exact ⟨rfl, rfl⟩
  refine ⟨(nextVersion (db.files.lookup m.path) m ctx.createdBy now).1,
    (nextVersion (db.files.lookup m.path) m ctx.createdBy now).2.1, db₁.fileVersions,
    by rw [hkeep.1], ?_, rfl, ?_, ?_⟩
  · show (recordHistory db _).map _ = _
    rw [h₁]
    rfl
  · rw [hkeep.2]
    exact List.subset_append_left _ _
  · intro row hrow
    rw [hkeep.2, hrow]
    unfold nextVersion
    dsimp only
    split_ifs
    · refine ⟨rfl, _, List.mem_append_right _ (List.mem_singleton_self _), rfl, rfl⟩
    · rfl

/-- The history rows of other paths survive a prune. -/
theorem mem_pruneFileVersions_of_ne {versions : List FileVersionRow} {path : Path}
    {v : FileVersionRow} (hv : v ∈ versions) (hne : v.path ≠ path) (retention : VersionRetention)
    (now : ℤ) : v ∈ pruneFileVersions versions path retention now := by
  unfold pruneFileVersions
  rw [List.mem_filter]
  refine ⟨hv, ?_⟩
  simp [hne]

/-- What an operation does to the history rows: those it hands to the prune come back from it, and
without a prune nothing changes. -/
theorem historyStep_fileVersions (db : MetaDb) (e : HistoryEvent) :
    ((historyStep db e).fileVersions = db.fileVersions) ∨
      ∃ versions path retention now, prunes db e = some (versions, path, retention, now) ∧
        db.fileVersions ⊆ versions ∧
        (historyStep db e).fileVersions = pruneFileVersions versions path retention now := by
  cases e with
  | versioned m ctx now =>
      rcases hup : db.upsertFileScopedVersioned m ctx now with _ | db'
      · left
        rw [historyStep_versioned, hup]
        rfl
      · right
        obtain ⟨-, -, versions, -, hprunes, hversions, hsub, -⟩ := versioned_cases hup
        refine ⟨versions, m.path, ctx.retention, now, hprunes, hsub, ?_⟩
        rw [historyStep_versioned, hup]
        exact hversions
  | unversioned m => exact Or.inl rfl
  | tombstone path nodeId now =>
      left
      unfold historyStep
      dsimp only
      split <;> rfl
  | prune path retention now =>
      exact Or.inr ⟨db.fileVersions, path, retention, now, rfl, List.Subset.refl _, rfl⟩

/-- A recorded hash stays recorded or is pruned. -/
theorem recorded_or_prunedAt {db : MetaDb} {versions : List FileVersionRow} {v : FileVersionRow}
    {path : Path} {hash : Digest} {e : HistoryEvent} {pruned : Path} {retention : VersionRetention}
    {now : ℤ} (hprunes : prunes db e = some (versions, pruned, retention, now))
    (hversions : (historyStep db e).fileVersions = pruneFileVersions versions pruned retention now)
    (hv : v ∈ versions) (hpath : v.path = path) (hhash : v.contentHash = hash) :
    (∃ v ∈ (historyStep db e).fileVersions, v.path = path ∧ v.contentHash = hash) ∨
      PrunedAt path hash (db, e) := by
  by_cases hmem : v ∈ pruneFileVersions versions pruned retention now
  · left
    refine ⟨v, ?_, hpath, hhash⟩
    rw [hversions]
    exact hmem
  · right
    have hsame : pruned = path := by
      by_contra hne
      refine hmem (mem_pruneFileVersions_of_ne hv ?_ retention now)
      rw [hpath]
      exact fun heq => hne heq.symm
    subst hsame
    exact ⟨versions, retention, now, hprunes, v, hv, hpath, hhash, hmem⟩

/-- A tombstone is the unversioned upsert of a deleted entry with the row's content. -/
theorem historyStep_tombstone (db : MetaDb) (path : Path) (nodeId : NodeId) (now : ℤ) :
    ∃ m : FileMeta, historyStep db (.tombstone path nodeId now) = db.upsertFileScoped m ∧
      m.path = path ∧ m.deleted = true ∧
      ∀ old, db.files.lookup path = some old → m.contentHash = old.contentHash := by
  rcases hrow : db.files.lookup path with _ | row
  · refine ⟨missingTombstone nodeId path now, ?_, rfl, rfl, ?_⟩
    · simp [historyStep, getFileScoped, hrow]
    · intro old hold
      cases hold
  · refine ⟨Server.tombstone now (rowToMeta path row), ?_, rfl, rfl, ?_⟩
    · simp [historyStep, getFileScoped, hrow]
    · intro old hold
      cases hold
      rfl

/-- **What an operation does to the row of a path**: leaves it; gives it, by a versioned upsert, new
columns; or keeps its version columns, by an unversioned upsert or a tombstone. -/
theorem historyStep_lookup_cases (db : MetaDb) (e : HistoryEvent) (path : Path) :
    (historyStep db e).files.lookup path = db.files.lookup path ∨
      (∃ m ctx now db', e = .versioned m ctx now ∧ m.path = path ∧
        db.upsertFileScopedVersioned m ctx now = some db' ∧ historyStep db e = db') ∨
      (∃ m, e = .unversioned m ∧ m.path = path ∧
        (historyStep db e).files.lookup path = some (upsertRow (db.files.lookup path) m)) ∨
      (∃ nodeId now, e = .tombstone path nodeId now ∧ ∃ row,
        (historyStep db e).files.lookup path = some row ∧ row.deleted = true ∧
          ∀ old, db.files.lookup path = some old →
            row.contentHash = old.contentHash ∧ row.versionId = old.versionId) := by
  cases e with
  | versioned m ctx now =>
      rcases hup : db.upsertFileScopedVersioned m ctx now with _ | db'
      · left
        rw [historyStep_versioned, hup]
        rfl
      · have hstep : historyStep db (.versioned m ctx now) = db' := by
          rw [historyStep_versioned, hup]
          rfl
        by_cases hpath : m.path = path
        · exact Or.inr (Or.inl ⟨m, ctx, now, db', rfl, hpath, hup, hstep⟩)
        · left
          obtain ⟨_, _, _, hfiles, -⟩ := versioned_cases hup
          rw [hstep, hfiles, AList.lookup_insert_ne (Ne.symm hpath)]
  | unversioned m =>
      have hlookup := lookup_upsertFileScoped db m path
      split_ifs at hlookup with hpath
      · rw [← hpath] at hlookup
        exact Or.inr (Or.inr (Or.inl ⟨m, rfl, hpath.symm, hlookup⟩))
      · exact Or.inl hlookup
  | tombstone target nodeId now =>
      obtain ⟨m, hstep, rfl, hdeleted, hhash⟩ := historyStep_tombstone db target nodeId now
      have hlookup := lookup_upsertFileScoped db m path
      rw [← hstep] at hlookup
      split_ifs at hlookup with hpath
      · subst hpath
        refine Or.inr (Or.inr (Or.inr ⟨nodeId, now, rfl, _, hlookup, hdeleted, ?_⟩))
        intro old hold
        refine ⟨hhash old hold, ?_⟩
        show (db.files.lookup m.path).bind FileRow.versionId = _
        rw [hold]
        rfl
      · exact Or.inl hlookup
  | prune target retention now => exact Or.inl rfl

/-! ## What a run keeps -/

/-- The ids of the content writes of a path strictly increase, and the row has the last of them or a
later one. -/
structure IdsIncrease (hist : List (MetaDb × HistoryEvent)) (db : MetaDb) (path : Path) : Prop where
  pairwise : (contentWrites path hist).Pairwise fun w w' => w.1 < w'.1
  bound : ∀ w ∈ contentWrites path hist, ∃ row, db.files.lookup path = some row ∧
    ∃ id, row.versionId = some id ∧ w.1 ≤ id

/-- Only a versioned upsert of the path can be a content write. -/
theorem contentWrite_eq_none {path : Path} {db : MetaDb} {e : HistoryEvent}
    (h : ∀ m ctx now, e = .versioned m ctx now → m.path = path →
      (db.files.lookup path).map FileRow.contentHash = some m.contentHash ∨
        db.upsertFileScopedVersioned m ctx now = none) :
    contentWrite path (db, e) = none := by
  cases e with
  | versioned m ctx now =>
      unfold contentWrite
      dsimp only
      split_ifs with hwrite
      · rcases h m ctx now rfl hwrite.1 with hsame | hfail
        · exact absurd hsame hwrite.2
        · rw [hfail]
          rfl
      · rfl
  | unversioned m => rfl
  | tombstone path nodeId now => rfl
  | prune path retention now => rfl

theorem contentWrites_snoc (path : Path) (hist : List (MetaDb × HistoryEvent))
    (x : MetaDb × HistoryEvent) :
    contentWrites path (hist ++ [x]) = contentWrites path hist ++ (contentWrite path x).toList := by
  unfold contentWrites
  rw [List.filterMap_append]
  rcases h : contentWrite path x with _ | w
  · rw [List.filterMap_cons_none h]
    rfl
  · rw [List.filterMap_cons_some h]
    rfl

/-- A step without a content write that keeps a row's version id keeps the order of ids. -/
theorem IdsIncrease.of_kept {hist : List (MetaDb × HistoryEvent)} {db : MetaDb} {path : Path}
    {e : HistoryEvent} (hI : IdsIncrease hist db path) (hnone : contentWrite path (db, e) = none)
    (hrow : ∀ row id, db.files.lookup path = some row → row.versionId = some id →
      ∃ row', (historyStep db e).files.lookup path = some row' ∧ row'.versionId = some id) :
    IdsIncrease (hist ++ [(db, e)]) (historyStep db e) path := by
  have hsame : contentWrites path (hist ++ [(db, e)]) = contentWrites path hist := by
    rw [contentWrites_snoc, hnone]
    exact List.append_nil _
  refine ⟨by rw [hsame]; exact hI.pairwise, ?_⟩
  intro w hw
  rw [hsame] at hw
  obtain ⟨row, hlookup, id, hid, hle⟩ := hI.bound w hw
  obtain ⟨row', hlookup', hid'⟩ := hrow row id hlookup hid
  exact ⟨row', hlookup', id, hid', hle⟩

/-- A content write under an id past all earlier ones keeps the order of ids. -/
theorem IdsIncrease.of_written {hist : List (MetaDb × HistoryEvent)} {db : MetaDb} {path : Path}
    {e : HistoryEvent} (hI : IdsIncrease hist db path) {id : ℕ} {hash : Digest}
    (hwrite : contentWrite path (db, e) = some (id, hash))
    (hpast : ∀ w ∈ contentWrites path hist, w.1 < id) {row : FileRow}
    (hrow : (historyStep db e).files.lookup path = some row) (hid : row.versionId = some id) :
    IdsIncrease (hist ++ [(db, e)]) (historyStep db e) path := by
  have hnew : contentWrites path (hist ++ [(db, e)]) = contentWrites path hist ++ [(id, hash)] := by
    rw [contentWrites_snoc, hwrite]
    rfl
  refine ⟨?_, ?_⟩
  · rw [hnew, List.pairwise_append]
    refine ⟨hI.pairwise, List.pairwise_singleton _ _, ?_⟩
    intro w hw w' hw'
    rw [List.mem_singleton.mp hw']
    exact hpast w hw
  · intro w hw
    refine ⟨row, hrow, id, hid, ?_⟩
    rw [hnew, List.mem_append, List.mem_singleton] at hw
    rcases hw with hw | rfl
    · exact (hpast w hw).le
    · exact le_refl id

/-- **One operation** keeps the order of ids, unless it recreates a deleted file. -/
theorem IdsIncrease.step {hist : List (MetaDb × HistoryEvent)} {db : MetaDb} {path : Path}
    {e : HistoryEvent} (hI : IdsIncrease hist db path) (he : ¬ Recreates hist db e) :
    IdsIncrease (hist ++ [(db, e)]) (historyStep db e) path := by
  rcases historyStep_lookup_cases db e path with hsame | ⟨m, ctx, now, db', rfl, rfl, hup, hstep⟩ |
    ⟨m, rfl, rfl, hlookup⟩ | ⟨nodeId, now, rfl, row, hlookup, -, hkeep⟩
  · by_cases hwrite : contentWrite path (db, e) = none
    · refine hI.of_kept hwrite ?_
      intro row id hrow hid
      exact ⟨row, hsame.trans hrow, hid⟩
    · -- a content write changes the row
      exfalso
      apply hwrite
      apply contentWrite_eq_none
      rintro m ctx now rfl rfl
      rcases hup : db.upsertFileScopedVersioned m ctx now with _ | db'
      · exact Or.inr rfl
      · left
        obtain ⟨_, _, _, hfiles, -⟩ := versioned_cases hup
        rw [historyStep_versioned, hup, Option.getD_some, hfiles, AList.lookup_insert] at hsame
        rw [← hsame]
        rfl
  · obtain ⟨id, parent, versions, hfiles, -, -, -, hid⟩ := versioned_cases hup
    have hrow : (historyStep db (.versioned m ctx now)).files.lookup m.path =
        some (fileRowOfMeta m (some id) (some parent)) := by
      rw [hstep, hfiles, AList.lookup_insert]
    by_cases hchange : (db.files.lookup m.path).map FileRow.contentHash = some m.contentHash
    · refine hI.of_kept (contentWrite_eq_none ?_) ?_
      · intro m' ctx' now' heq _
        cases heq
        exact Or.inl hchange
      · intro row rid hlookup hrid
        obtain ⟨row', hrow', hhash⟩ := Option.map_eq_some_iff.mp hchange
        rw [hlookup] at hrow'
        cases hrow'
        have hold := hid row hlookup
        rw [if_neg (fun hdiff => hdiff.1 hhash), hrid] at hold
        exact ⟨_, hrow, congrArg some hold⟩
    · have hwrite : contentWrite m.path (db, .versioned m ctx now) = some (id, m.contentHash) := by
        unfold contentWrite
        dsimp only
        rw [if_pos ⟨rfl, hchange⟩, hup, Option.bind_some, hfiles, AList.lookup_insert]
        rfl
      -- the new id is past every old one: the row was live, or had no id at all
      have hpast : ∀ w ∈ contentWrites m.path hist, w.1 < id := by
        intro w hw
        obtain ⟨row, hlookup, rid, hrid, hle⟩ := hI.bound w hw
        have hdiff : row.contentHash ≠ m.contentHash := by
          intro heq
          apply hchange
          rw [hlookup, Option.map_some, heq]
        have hlive : row.deleted = false := by
          by_contra hdel
          refine he ⟨row, hlookup, by simpa using hdel, hdiff, Or.inl ?_⟩
          rw [hrid]
          rfl
        have hold := hid row hlookup
        rw [if_pos ⟨hdiff, hlive⟩, hrid, Option.getD_some] at hold
        omega
      exact hI.of_written hwrite hpast hrow rfl
  · refine hI.of_kept rfl ?_
    intro row id hrow hid
    refine ⟨_, hlookup, ?_⟩
    rw [hrow]
    exact hid
  · refine hI.of_kept rfl ?_
    intro old id hold hid
    exact ⟨row, hlookup, (hkeep old hold).2.trans hid⟩

/-- **One operation** keeps account of a hash that was live, unless it recreates a deleted file. -/
theorem Accounted.step {hist : List (MetaDb × HistoryEvent)} {db : MetaDb} {path : Path}
    {hash : Digest} {e : HistoryEvent} (hI : Accounted hist db path hash)
    (hlive : LiveAt db path hash ∨ WasLive hist path hash) (he : ¬ Recreates hist db e) :
    Accounted (hist ++ [(db, e)]) (historyStep db e) path hash := by
  have hlast : PrunedAt path hash (db, e) ∨ OverwrittenAt path hash (db, e) →
      Accounted (hist ++ [(db, e)]) (historyStep db e) path hash := by
    intro hlost
    exact Or.inr (Or.inr ⟨_, List.mem_append_right _ (List.mem_singleton_self _), hlost⟩)
  have hgone : ((∃ v ∈ (historyStep db e).fileVersions, v.path = path ∧ v.contentHash = hash) ∨
      PrunedAt path hash (db, e)) →
        Accounted (hist ++ [(db, e)]) (historyStep db e) path hash := by
    rintro (hrec | hpruned)
    · exact Or.inr (Or.inl hrec)
    · exact hlast (Or.inl hpruned)
  rcases hI with ⟨row, hlookup, rfl⟩ | ⟨v, hv, hpath, hhash⟩ | ⟨x, hx, hlost⟩
  · rcases historyStep_lookup_cases db e path with hsame |
      ⟨m, ctx, now, db', rfl, rfl, hup, hstep⟩ | ⟨m, rfl, rfl, hnew⟩ |
      ⟨nodeId, now, rfl, row', hnew, -, hkeep⟩
    · exact Or.inl ⟨row, hsame.trans hlookup, rfl⟩
    · obtain ⟨id, parent, versions, hfiles, hprunes, hversions, -, hid⟩ := versioned_cases hup
      rw [← hstep] at hfiles hversions
      by_cases hdiff : row.contentHash = m.contentHash
      · refine Or.inl ⟨fileRowOfMeta m (some id) (some parent), ?_, hdiff.symm⟩
        rw [hfiles, AList.lookup_insert]
      · have hdel : row.deleted = false := by
          by_contra hdel
          refine he ⟨row, hlookup, by simpa using hdel, hdiff, Or.inr ?_⟩
          rcases hlive with ⟨row', hrow', hnot, -⟩ | hwas
          · rw [Option.mem_def, hlookup] at hrow'
            cases hrow'
            exact absurd hnot hdel
          · exact hwas
        have hchange := hid row hlookup
        rw [if_pos ⟨hdiff, hdel⟩] at hchange
        obtain ⟨-, v, hv, hpath, hhash⟩ := hchange
        exact hgone (recorded_or_prunedAt hprunes hversions hv hpath hhash)
    · by_cases hdiff : m.contentHash = row.contentHash
      · exact Or.inl ⟨_, hnew, hdiff⟩
      · exact hlast (Or.inr ⟨m, rfl, rfl, hdiff, row, hlookup, rfl⟩)
    · exact Or.inl ⟨row', hnew, (hkeep row hlookup).1⟩
  · rcases historyStep_fileVersions db e with hsame |
      ⟨versions, pruned, retention, now, hprunes, hsub, hversions⟩
    · refine Or.inr (Or.inl ⟨v, ?_, hpath, hhash⟩)
      rw [hsame]
      exact hv
    · exact hgone (recorded_or_prunedAt hprunes hversions (hsub hv) hpath hhash)
  · exact Or.inr (Or.inr ⟨x, List.mem_append_left _ hx, hlost⟩)

/-- What holds after a run, for every path. -/
structure Remembers (hist : List (MetaDb × HistoryEvent)) (db : MetaDb) : Prop where
  ids : ∀ path, IdsIncrease hist db path
  accounted : ∀ path hash, LiveAt db path hash ∨ WasLive hist path hash →
    Accounted hist db path hash

theorem remembers_emptyDb (tenantId : Option String) : Remembers [] (emptyDb tenantId) := by
  refine ⟨fun path => ⟨List.Pairwise.nil, fun w hw => absurd hw List.not_mem_nil⟩, ?_⟩
  rintro path hash (⟨row, hrow, -⟩ | ⟨x, hx, -⟩)
  · cases hrow
  · exact absurd hx List.not_mem_nil

/-- **One operation**, unless it recreates a deleted file. -/
theorem Remembers.step {hist : List (MetaDb × HistoryEvent)} {db : MetaDb} {e : HistoryEvent}
    (hI : Remembers hist db) (he : ¬ Recreates hist db e) :
    Remembers (hist ++ [(db, e)]) (historyStep db e) := by
  refine ⟨fun path => (hI.ids path).step he, ?_⟩
  rintro path hash (⟨row, hrow, -, hhash⟩ | ⟨x, hx, hlive⟩)
  · exact Or.inl ⟨row, hrow, hhash⟩
  · have hbefore : LiveAt db path hash ∨ WasLive hist path hash := by
      rcases List.mem_append.mp hx with hx | hx
      · exact Or.inr ⟨x, hx, hlive⟩
      · rw [List.mem_singleton.mp hx] at hlive
        exact Or.inl hlive
    exact (hI.accounted path hash hbefore).step hbefore he

/-- Entries of a list with increasing ids and one id are one entry. -/
theorem eq_of_pairwise_lt {l : List (ℕ × Digest)} (h : l.Pairwise fun w w' => w.1 < w'.1)
    {w w' : ℕ × Digest} (hw : w ∈ l) (hw' : w' ∈ l) (hid : w.1 = w'.1) : w = w' := by
  induction l with
  | nil => exact absurd hw List.not_mem_nil
  | cons x l ih =>
      obtain ⟨hhead, htail⟩ := List.pairwise_cons.mp h
      rcases List.mem_cons.mp hw with rfl | hwl
      · rcases List.mem_cons.mp hw' with rfl | hwl'
        · rfl
        · have hlt := hhead w' hwl'
          omega
      · rcases List.mem_cons.mp hw' with rfl | hwl'
        · have hlt := hhead w hwl
          omega
        · exact ih htail hwl hwl'

/-- **Versioned content is identified by its version id.** Along every run of upserts, tombstones and
prunes from an empty vault in which no versioned upsert puts other content in place of a tombstone:
two versioned content writes of a path with different hashes have different ids, the ids strictly
increase, and every hash that was ever the live row's is the row's, is recorded, was removed by
`prune_file_versions`, or was replaced by an unversioned upsert.
Source: `meta_db/versions.rs`, `upsert_file_scoped_versioned` and `prune_file_versions`;
`meta_db/files.rs`, `upsert_file_scoped` -/
theorem versioned_content_identified (tenantId : Option String) (es : List HistoryEvent)
    (h : Trace.Always historyStep (fun hist db e => ¬ Recreates hist db e) (emptyDb tenantId) es)
    (path : Path) :
    (∀ w ∈ contentWrites path (Trace.history historyStep (emptyDb tenantId) es),
      ∀ w' ∈ contentWrites path (Trace.history historyStep (emptyDb tenantId) es),
        w.2 ≠ w'.2 → w.1 ≠ w'.1) ∧
    (contentWrites path (Trace.history historyStep (emptyDb tenantId) es)).Pairwise
      (fun w w' => w.1 < w'.1) ∧
    ∀ hash, LiveAt (Trace.run historyStep (emptyDb tenantId) es) path hash ∨
        WasLive (Trace.history historyStep (emptyDb tenantId) es) path hash →
      Accounted (Trace.history historyStep (emptyDb tenantId) es)
        (Trace.run historyStep (emptyDb tenantId) es) path hash := by
  have hI : Remembers (Trace.history historyStep (emptyDb tenantId) es)
      (Trace.run historyStep (emptyDb tenantId) es) :=
    (Trace.Always.of_invariant (φ := fun _ _ _ => True) (remembers_emptyDb tenantId)
      (fun _ _ _ _ => trivial) (fun _ _ hI he => hI.step he) h).2
  refine ⟨?_, (hI.ids path).pairwise, hI.accounted path⟩
  intro w hw w' hw' hne hid
  exact hne (congrArg Prod.snd (eq_of_pairwise_lt (hI.ids path).pairwise hw hw' hid))

/-! ## Runs -/

/-- A live file with a hash of equal bytes. -/
def sampleFile (path : Path) (byte : UInt8) : FileMeta :=
  uploadedMeta "server" path (List.Vector.replicate 32 byte) 10 1

/-- A versioned upsert of a file, kept for long. -/
def sampleUpsert (path : Path) (byte : UInt8) : HistoryEvent :=
  .versioned (sampleFile path byte) ⟨"server", ⟨10, 1000⟩⟩ 100

/-- A file is written, deleted, restored, edited behind the history's back, and written again. -/
def sampleEdits : List HistoryEvent :=
  [sampleUpsert ["f"] 1, .tombstone ["f"] "server" 100, sampleUpsert ["f"] 1,
    .unversioned (sampleFile ["f"] 2), sampleUpsert ["f"] 3, .prune ["f"] ⟨1, 1000⟩ 100]

/-- The theorem at work: two content writes, under the ids 1 and 2. -/
theorem versioned_content_identified_sampleEdits :
    contentWrites ["f"] (Trace.history historyStep (emptyDb (some "t1")) sampleEdits) =
      [(1, List.Vector.replicate 32 1), (2, List.Vector.replicate 32 3)] ∧
    (contentWrites ["f"] (Trace.history historyStep (emptyDb (some "t1")) sampleEdits)).Pairwise
      (fun w w' => w.1 < w'.1) := by
  refine ⟨by decide +kernel, ?_⟩
  exact (versioned_content_identified (some "t1") sampleEdits
    (Trace.always_of_check (by decide +kernel)) ["f"]).2.1

/-- **An unversioned upsert replaces content under its version id.** The second write puts another
hash into the row, which keeps the id 1; the first hash is not recorded, and nothing was pruned. -/
theorem unversioned_upsert_reuses_id :
    (((Trace.run historyStep (emptyDb (some "t1")) [sampleUpsert ["f"] 1]).files.lookup ["f"]).map
        fun row => (row.versionId, row.contentHash)) =
      some (some 1, List.Vector.replicate 32 1) ∧
    (((Trace.run historyStep (emptyDb (some "t1"))
        [sampleUpsert ["f"] 1, .unversioned (sampleFile ["f"] 2)]).files.lookup ["f"]).map
        fun row => (row.versionId, row.contentHash)) =
      some (some 1, List.Vector.replicate 32 2) ∧
    (Trace.run historyStep (emptyDb (some "t1"))
        [sampleUpsert ["f"] 1, .unversioned (sampleFile ["f"] 2)]).fileVersions = [] ∧
    ∀ hash, ∀ x ∈ Trace.history historyStep (emptyDb (some "t1"))
      [sampleUpsert ["f"] 1, .unversioned (sampleFile ["f"] 2)], ¬ PrunedAt ["f"] hash x := by
  refine ⟨by decide +kernel, by decide +kernel, by decide +kernel, ?_⟩
  rintro hash x hx ⟨versions, retention, now, hprunes, v, hv, -⟩
  rcases List.mem_pair.mp hx with rfl | rfl
  · -- the first upsert hands an empty history to the prune
    cases hprunes
    exact absurd hv List.not_mem_nil
  · cases hprunes

end MetaDb

end DiskArcana.Server
