import DiskArcana.System.CycleSteps

/-!
# Do merges use the true common ancestor?

A merge needs the content that the client's file and the server's row had when they last agreed. The
client looks it up under the hash in its own `node_baselines`, which it writes after downloads and
deletions but not after uploads, merges or exchanges that find both sides equal.

Contents are compared by their digests, as everywhere in the source. `lastAgreed` is read off the
history of a run; `TrueAncestor` says that a base handed to `apply_conflict` is that content, and
that a clean merge is a merge over it. It holds along the runs in which the two sides of a path come
to agree on a new content only by a download that is recorded (`Recorded`). An upload is the
shortest way out of that: the base of the next conflict is then stale.
-/

namespace DiskArcana.System

open DiskArcana.Core DiskArcana.Lib DiskArcana.Lib.Trace DiskArcana.Server DiskArcana.Client

section

variable (blake3 : Bytes → Digest) (diffy : String → String → String → Except String String)
  (cfg : ShareConfig)

/-! ## The last agreement -/

/-- The content that the client's file and the server's row of a path both have. -/
def agreed (s : Site) (path : Path) : Option Digest :=
  (s.disk.lookup path).bind fun bytes =>
    (liveHash (s.row path)).filter fun content => decide (content = blake3 bytes)

/-- The content they had when they last agreed. -/
def lastAgreed (hist : List (Site × SiteEvent)) (s : Site) (path : Path) : Option Digest :=
  (agreed blake3 s path).or (hist.reverse.findSome? fun x => agreed blake3 x.1 path)

/-- The two sides agree on the digest of the client's bytes. -/
theorem of_agreed {s : Site} {path : Path} {content : Digest}
    (h : agreed blake3 s path = some content) :
    ∃ bytes, s.disk.lookup path = some bytes ∧ content = blake3 bytes := by
  unfold agreed at h
  obtain ⟨bytes, hb, hrow⟩ := Option.bind_eq_some_iff.mp h
  exact ⟨bytes, hb, by simpa using (Option.filter_eq_some_iff.mp hrow).2⟩

/-- A step moves the last agreement only to a present one. -/
theorem lastAgreed_snoc (hist : List (Site × SiteEvent)) (s s' : Site) (e : SiteEvent)
    (path : Path) :
    lastAgreed blake3 (hist ++ [(s, e)]) s' path =
      (agreed blake3 s' path).or (lastAgreed blake3 hist s path) := by
  unfold lastAgreed
  rw [List.reverse_append, List.reverse_singleton, List.singleton_append, List.findSome?_cons]
  cases agreed blake3 s path <;> rfl

/-! ## The property and the condition -/

/-- What the next task hands to `apply_conflict`: the path, the base, and the bytes of the two
sides. -/
def Site.passed (s : Site) : Option (Path × Option Bytes × Bytes × Bytes) :=
  match s.phase with
  | .working c =>
    match c.tasks.head? with
    | some (.applyConflict conflict localBytes remotePlain) =>
      some (conflict.path, baseBytes s c conflict.path, localBytes, remotePlain)
    | _ => none
  | _ => none

theorem of_passed {s : Site} {path : Path} {base : Option Bytes} {localBytes remotePlain : Bytes}
    (h : s.passed = some (path, base, localBytes, remotePlain)) :
    ∃ c conflict, s.phase = .working c ∧
      s.nextTask = some (.applyConflict conflict localBytes remotePlain) ∧ conflict.path = path ∧
      base = baseBytes s c path := by
  unfold Site.passed at h
  unfold Site.nextTask
  rcases hp : s.phase with _ | ⟨baselines, files⟩ | c
  · rw [hp] at h
    cases h
  · rw [hp] at h
    cases h
  · rw [hp] at h
    dsimp only at h ⊢
    split at h
    · rename_i conflict localBytes' remotePlain' hhead
      cases h
      exact ⟨c, conflict, rfl, hhead, rfl, rfl⟩
    · cases h

/-- The step applies a conflict at the path, with this base and these bytes of the two sides. -/
def Applies (path : Path) (s : Site) (e : SiteEvent) (base : Option Bytes)
    (localBytes remotePlain : Bytes) : Prop :=
  cfg.receiveOnly = false ∧ (∃ o, e = .proceed o) ∧
    s.passed = some (path, base, localBytes, remotePlain)

/-- **The base of a conflict is the true ancestor**: it has the content that the two sides had when
they last agreed. So a clean merge is a merge over that content, in any sense of "merge" that the
merge function has. -/
structure TrueAncestor (Merge : String → String → String → String → Prop) (path : Path)
    (hist : List (Site × SiteEvent)) (s : Site) (e : SiteEvent) : Prop where
  base : ∀ bytes localBytes remotePlain,
    Applies cfg path s e (some bytes) localBytes remotePlain →
      lastAgreed blake3 hist s path = some (blake3 bytes)
  merge : ∀ base localBytes remotePlain merged,
    Applies cfg path s e base localBytes remotePlain →
      threeWayMerge diffy base localBytes remotePlain = .clean merged →
        ∃ ancestor ancestorText localText remoteText mergedText,
          lastAgreed blake3 hist s path = some (blake3 ancestor) ∧
          fromUtf8 ancestor = some ancestorText ∧ fromUtf8 localBytes = some localText ∧
          fromUtf8 remotePlain = some remoteText ∧ merged = intoBytes mergedText ∧
          Merge ancestorText localText remoteText mergedText

/-- The step writes a download of the path. -/
def writesDownload (path : Path) (s : Site) (e : SiteEvent) : Bool :=
  match e, s.nextTask with
  | .proceed o, some (.writeDownload entry _) => o.write.isDone && decide (entry.path = path)
  | _, _ => false

/-- The baselines that are still to be written. -/
def Site.downloaded (s : Site) : List FileMeta :=
  match s.phase with
  | .working c => c.downloaded
  | _ => []

/-- The step fails to record a download of the path. -/
def losesBaseline (path : Path) (s : Site) (e : SiteEvent) : Bool :=
  match e, s.nextTask with
  | .proceed o, some .saveDownloads => !o.dbOk && s.downloaded.any fun m => decide (m.path = path)
  | _, _ => false

/-- **Agreement is recorded**: the two sides of the path come to agree on a content other than the
last one only when the client downloads the path; a download leaves them in agreement; and its
baseline is written. -/
structure Recorded (path : Path) (hist : List (Site × SiteEvent)) (s : Site) (e : SiteEvent) :
    Prop where
  agreement : agreed blake3 (siteStep blake3 diffy cfg s e) path = none ∨
    agreed blake3 (siteStep blake3 diffy cfg s e) path = lastAgreed blake3 hist s path ∨
    writesDownload path s e = true
  download : writesDownload path s e = true →
    agreed blake3 (siteStep blake3 diffy cfg s e) path ≠ none
  baseline : losesBaseline path s e = false

instance (path : Path) (hist : List (Site × SiteEvent)) (s : Site) (e : SiteEvent) :
    Decidable (Recorded blake3 diffy cfg path hist s e) :=
  decidable_of_iff
    ((agreed blake3 (siteStep blake3 diffy cfg s e) path = none ∨
        agreed blake3 (siteStep blake3 diffy cfg s e) path = lastAgreed blake3 hist s path ∨
        writesDownload path s e = true) ∧
      (writesDownload path s e = true →
        agreed blake3 (siteStep blake3 diffy cfg s e) path ≠ none) ∧
      losesBaseline path s e = false)
    ⟨fun h => ⟨h.1, h.2.1, h.2.2⟩, fun h => ⟨h.agreement, h.download, h.baseline⟩⟩

/-- A step that downloads nothing leaves the last agreement alone. -/
theorem lastAgreed_step_of_not {hist : List (Site × SiteEvent)} {s : Site} {e : SiteEvent}
    {path : Path} (h : Recorded blake3 diffy cfg path hist s e)
    (hno : writesDownload path s e = false) :
    lastAgreed blake3 (hist ++ [(s, e)]) (siteStep blake3 diffy cfg s e) path =
      lastAgreed blake3 hist s path := by
  rw [lastAgreed_snoc]
  rcases h.agreement with hnone | hsame | hwrites
  · rw [hnone]
    rfl
  · rw [hsame, Option.or_self]
  · rw [hno] at hwrites
    cases hwrites

/-- A download moves the last agreement to the bytes it wrote. -/
theorem lastAgreed_step_of_download {hist : List (Site × SiteEvent)} {s : Site} {e : SiteEvent}
    {path : Path} {bytes : Bytes} (h : Recorded blake3 diffy cfg path hist s e)
    (hyes : writesDownload path s e = true)
    (hb : (siteStep blake3 diffy cfg s e).disk.lookup path = some bytes) :
    lastAgreed blake3 (hist ++ [(s, e)]) (siteStep blake3 diffy cfg s e) path =
      some (blake3 bytes) := by
  rw [lastAgreed_snoc]
  rcases ha : agreed blake3 (siteStep blake3 diffy cfg s e) path with _ | content
  · exact absurd ha (h.download hyes)
  · obtain ⟨bytes', hb', rfl⟩ := of_agreed blake3 ha
    rw [hb] at hb'
    cases hb'
    rfl

/-! ## Downloads come before their baselines -/

/-- The task is part of a download. -/
def Task.isDownload : Task → Bool
  | .download _ | .writeDownload _ _ => true
  | _ => false

/-- The task is part of a conflict. -/
def Task.isConflict : Task → Bool
  | .readConflict _ | .fetchConflict _ _ | .applyConflict _ _ _ => true
  | _ => false

/-- Every download is followed by the saving of the baselines, and none comes after it. -/
def DownloadsFirst : List Task → Prop
  | [] => True
  | .saveDownloads :: tasks => ∀ task ∈ tasks, task.isDownload = false
  | task :: tasks => (task.isDownload = true → .saveDownloads ∈ tasks) ∧ DownloadsFirst tasks

theorem downloadsFirst_cons {task : Task} {tasks : List Task} (h : task ≠ .saveDownloads) :
    DownloadsFirst (task :: tasks) ↔
      (task.isDownload = true → .saveDownloads ∈ tasks) ∧ DownloadsFirst tasks := by
  cases task with
  | saveDownloads => exact absurd rfl h
  | _ => exact Iff.rfl

theorem downloadsFirst_of_forall {tasks : List Task} (h : ∀ task ∈ tasks, task.isDownload = false) :
    DownloadsFirst tasks := by
  induction tasks with
  | nil => trivial
  | cons task tasks ih =>
      have htail : ∀ t ∈ tasks, t.isDownload = false := fun t ht => h t (List.mem_cons_of_mem _ ht)
      by_cases hsave : task = .saveDownloads
      · subst hsave
        exact htail
      · refine (downloadsFirst_cons hsave).mpr ⟨fun hd => ?_, ih htail⟩
        rw [h task List.mem_cons_self] at hd
        cases hd

/-- The order is kept when a task is done. -/
theorem DownloadsFirst.tail {task : Task} {tasks : List Task} (h : DownloadsFirst (task :: tasks)) :
    DownloadsFirst tasks := by
  by_cases hsave : task = .saveDownloads
  · subst hsave
    exact downloadsFirst_of_forall h
  · exact ((downloadsFirst_cons hsave).mp h).2

/-- Tasks that are no downloads may stand in front. -/
theorem DownloadsFirst.append {front tasks : List Task} (hfront : ∀ task ∈ front,
    task ≠ .saveDownloads ∧ (task.isDownload = true → .saveDownloads ∈ tasks))
    (h : DownloadsFirst tasks) : DownloadsFirst (front ++ tasks) := by
  induction front with
  | nil => exact h
  | cons task front ih =>
      obtain ⟨hne, hd⟩ := hfront task List.mem_cons_self
      refine (downloadsFirst_cons hne).mpr ⟨fun hdown => List.mem_append_right _ (hd hdown), ?_⟩
      exact ih fun t ht => hfront t (List.mem_cons_of_mem _ ht)

/-- The work of an answer is in this order. -/
theorem downloadsFirst_tasksOf (r : SyncStateResponse) : DownloadsFirst (tasksOf cfg r) := by
  have hrest : DownloadsFirst (.saveDownloads ::
      (r.conflicts.map .readConflict ++ (r.toDelete.map .delete ++ [.saveDeletes]))) := by
    intro task hmem
    rcases List.mem_append.mp hmem with hc | hd
    · obtain ⟨c, -, rfl⟩ := List.mem_map.mp hc
      rfl
    · rcases List.mem_append.mp hd with hd | hd
      · obtain ⟨m, -, rfl⟩ := List.mem_map.mp hd
        rfl
      · rw [List.mem_singleton.mp hd]
        rfl
  unfold tasksOf
  refine DownloadsFirst.append ?_ (DownloadsFirst.append ?_ hrest)
  · intro task hmem
    split_ifs at hmem
    · cases hmem
    · obtain ⟨m, -, rfl⟩ := List.mem_map.mp hmem
      exact ⟨by simp, by simp [Task.isDownload]⟩
  · intro task hmem
    obtain ⟨m, -, rfl⟩ := List.mem_map.mp hmem
    exact ⟨by simp, fun _ => List.mem_cons_self⟩

/-- A path is in conflict or downloaded, not both. -/
theorem not_download_of_conflict {vaultId : String} {db : MetaDb} {call : ExchangeCall}
    {t₁ t₂ : Task} {path : Path}
    (h₁ : t₁ ∈ tasksOf cfg (exchangeResponse vaultId db call))
    (h₂ : t₂ ∈ tasksOf cfg (exchangeResponse vaultId db call))
    (hc : t₁.isConflict = true) (hp₁ : t₁.path = some path) (hp₂ : t₂.path = some path) :
    t₂.isDownload = false := by
  rcases (mem_tasksOf cfg).mp h₁ with ⟨-, m, -, rfl⟩ | ⟨m, -, rfl⟩ | rfl | ⟨c, hmem, rfl⟩ |
    ⟨m, -, rfl⟩ | rfl
  case inr.inr.inr.inl =>
    cases hp₁
    have hrep := exists_mem_conflicts.mp ⟨c, hmem, rfl⟩
    rcases (mem_tasksOf cfg).mp h₂ with ⟨-, m, -, rfl⟩ | ⟨m, hm, rfl⟩ | rfl | ⟨c, -, rfl⟩ |
      ⟨m, -, rfl⟩ | rfl
    case inr.inl =>
      obtain ⟨-, f, hf, -⟩ := mem_toDownload.mp hm
      have hpath : m.path = c.path := Option.some.inj hp₂
      rw [hpath] at hf
      unfold downloadEntry at hf
      rw [hrep.2] at hf
      simp only [if_neg hrep.1] at hf
      cases hf
    all_goals rfl
  all_goals cases hc

/-! ## The invariant -/

/-- The tombstones that are still to be written. -/
def Site.removed (s : Site) : List FileMeta :=
  match s.phase with
  | .working c => c.removed
  | _ => []

/-- The ancestors of the cycle under way. -/
def Site.ancestors (s : Site) : PathMap BaselineRow :=
  match s.phase with
  | .idle => ∅
  | .scanned baselines _ => baselines
  | .working c => c.baselines

/-- The last of some baselines at a path. -/
def lastAt (metas : List FileMeta) (path : Path) : Option FileMeta :=
  metas.reverse.find? fun m => decide (m.path = path)

/-- The ancestor of the path may still be asked for in this cycle. -/
def Site.mayMerge (s : Site) (path : Path) : Prop :=
  (∃ baselines files, s.phase = .scanned baselines files) ∨
    ∃ task ∈ s.tasks, task.isConflict = true ∧ task.path = some path

/-- **The client's records point at the last agreement**, `last`: the stored baseline, unless a newer
one is about to be written; the newest one that is; and the ancestor loaded for this cycle, as
long as it may be used. -/
structure RecordsAgree (path : Path) (last : Option Digest) (s : Site) : Prop where
  cache : ∀ key bytes, s.blobCache.lookup key = some bytes → blake3 bytes = key
  stored : ∀ row, s.nodeBaselines.lookup path = some row → row.deleted = false →
    last = some row.contentHash ∨
      (.saveDownloads ∈ s.tasks ∧ ∃ m ∈ s.downloaded, m.path = path)
  pending : ∀ m, lastAt s.downloaded path = some m → last = some m.contentHash
  loaded : ∀ row, s.ancestors.lookup path = some row → s.mayMerge path →
    last = some row.contentHash
  order : DownloadsFirst s.tasks
  apart : ∀ t₁ ∈ s.tasks, ∀ t₂ ∈ s.tasks, t₁.isConflict = true → t₁.path = some path →
    t₂.path = some path → t₂.isDownload = false
  removed : ∀ m ∈ s.removed, m.deleted = true

/-- A task that stands in for another is of its kind. -/
theorem Follows.kind {s : Site} {o : Outcome} {task next : Task}
    (h : Follows blake3 cfg s o task next) :
    next.isConflict = task.isConflict ∧ next.isDownload = task.isDownload ∧
      task ≠ .saveDownloads ∧ next ≠ .saveDownloads := by
  cases h <;> exact ⟨rfl, rfl, by simp, by simp⟩

/-- Every task after a step of the client comes from one of its kind and path. -/
theorem origin_of_mem_tasks {s : Site} {task : Task} (o : Outcome)
    (h : task ∈ (siteStep blake3 diffy cfg s (.proceed o)).tasks) :
    ∃ old ∈ s.tasks, task.isConflict = old.isConflict ∧ task.isDownload = old.isDownload ∧
      task.path = old.path := by
  rcases of_mem_tasks_siteStep blake3 diffy cfg h with hold | ⟨o', done, hnext, hfollows⟩ |
    ⟨now, baselines, files, he, -⟩
  · exact ⟨task, hold, rfl, rfl, rfl⟩
  · obtain ⟨hc, hd, -, -⟩ := hfollows.kind
    exact ⟨done, mem_tasks_of_nextTask hnext, hc, hd, hfollows.path_eq⟩
  · cases he

/-- What a step of the client may be asked to merge, it could be asked before. -/
theorem mayMerge_of_proceed {s : Site} {task : Task} (hnext : s.nextTask = some task) {o : Outcome}
    {path : Path} (h : (siteStep blake3 diffy cfg s (.proceed o)).mayMerge path) :
    ∃ t ∈ s.tasks, t.isConflict = true ∧ t.path = some path := by
  obtain ⟨c, hp, -, hstep⟩ := siteStep_proceed blake3 diffy cfg hnext o
  rcases h with ⟨baselines, files, hscanned⟩ | ⟨t, ht, hc, hpath⟩
  · obtain ⟨c', hphase, -⟩ :=
      phase_doTask blake3 diffy cfg s { c with tasks := c.tasks.tail } o task
    rw [hstep, hphase] at hscanned
    cases hscanned
  · obtain ⟨old, hold, hc', -, hpath'⟩ := origin_of_mem_tasks blake3 diffy cfg o ht
    exact ⟨old, hold, by rw [← hc']; exact hc, by rw [← hpath']; exact hpath⟩

/-- The order of the work is kept. -/
theorem downloadsFirst_proceed {s : Site} {task : Task} (hnext : s.nextTask = some task)
    (o : Outcome) (h : DownloadsFirst s.tasks) :
    DownloadsFirst (siteStep blake3 diffy cfg s (.proceed o)).tasks := by
  obtain ⟨rest, hold, hnew | ⟨next, hfollows, hnew⟩⟩ := tasks_proceed blake3 diffy cfg hnext o
  · rw [hnew]
    rw [hold] at h
    exact h.tail
  · obtain ⟨-, hd, htask, hsave⟩ := hfollows.kind
    rw [hold] at h
    rw [hnew, downloadsFirst_cons hsave, hd]
    exact (downloadsFirst_cons htask).mp h

/-- A task other than the saving leaves the saving in place. -/
theorem saveDownloads_mem_proceed {s : Site} {task : Task} (hnext : s.nextTask = some task)
    (o : Outcome) (hne : task ≠ .saveDownloads) (h : .saveDownloads ∈ s.tasks) :
    .saveDownloads ∈ (siteStep blake3 diffy cfg s (.proceed o)).tasks := by
  obtain ⟨rest, hold, hnew⟩ := tasks_proceed blake3 diffy cfg hnext o
  rw [hold] at h
  have hrest : .saveDownloads ∈ rest := by
    rcases List.mem_cons.mp h with heq | hmem
    · exact absurd heq.symm hne
    · exact hmem
  rcases hnew with hnew | ⟨next, -, hnew⟩
  · rw [hnew]
    exact hrest
  · rw [hnew]
    exact List.mem_cons_of_mem _ hrest

/-- A path in conflict stays apart from the downloads. -/
theorem apart_proceed {s : Site} {path : Path} {last : Option Digest} (o : Outcome)
    (h : RecordsAgree blake3 path last s) :
    ∀ t₁ ∈ (siteStep blake3 diffy cfg s (.proceed o)).tasks,
    ∀ t₂ ∈ (siteStep blake3 diffy cfg s (.proceed o)).tasks, t₁.isConflict = true →
      t₁.path = some path → t₂.path = some path → t₂.isDownload = false := by
  intro t₁ h₁ t₂ h₂ hc hp₁ hp₂
  obtain ⟨old₁, ho₁, hc₁, -, hpath₁⟩ := origin_of_mem_tasks blake3 diffy cfg o h₁
  obtain ⟨old₂, ho₂, -, hd₂, hpath₂⟩ := origin_of_mem_tasks blake3 diffy cfg o h₂
  rw [hc₁] at hc
  rw [hpath₁] at hp₁
  rw [hpath₂] at hp₂
  rw [hd₂]
  exact h.apart old₁ ho₁ old₂ ho₂ hc hp₁ hp₂

/-- The ancestors of a cycle stay as they were loaded. -/
theorem ancestors_proceed {s : Site} {task : Task} (hnext : s.nextTask = some task) (o : Outcome) :
    (siteStep blake3 diffy cfg s (.proceed o)).ancestors = s.ancestors := by
  obtain ⟨c, hp, -, hstep⟩ := siteStep_proceed blake3 diffy cfg hnext o
  obtain ⟨c', hphase, -, hbase, -⟩ :=
    phase_doTask blake3 diffy cfg s { c with tasks := c.tasks.tail } o task
  unfold Site.ancestors
  rw [hstep, hphase, hp]
  exact hbase

/-- The last of some baselines and one more. -/
theorem lastAt_append_singleton (metas : List FileMeta) (m : FileMeta) (path : Path) :
    lastAt (metas ++ [m]) path = if m.path = path then some m else lastAt metas path := by
  unfold lastAt
  rw [List.reverse_append, List.reverse_singleton, List.singleton_append, List.find?_cons]
  by_cases hm : m.path = path
  · simp [hm]
  · simp [hm]

/-- The blob cache stays keyed by digest. -/
theorem of_lookup_cached {cache : Table Digest Bytes}
    (h : ∀ key bytes, cache.lookup key = some bytes → blake3 bytes = key) (ok : Bool)
    (content : Bytes) {key : Digest} {bytes : Bytes}
    (hl : (if ok then putBlob cache (blake3 content) content else cache).lookup key = some bytes) :
    blake3 bytes = key := by
  unfold putBlob at hl
  split at hl
  · split at hl
    · exact h key bytes hl
    · rw [Table.lookup_insert_eq_ite] at hl
      split_ifs at hl with hkey
      · cases hl
        exact hkey.symm
      · exact h key bytes hl
  · exact h key bytes hl

/-- The row that saving some baselines leaves at a path. -/
theorem lookup_upsertNodeBaselines (rows : PathMap BaselineRow) (metas : List FileMeta)
    (path : Path) :
    (upsertNodeBaselines rows metas).lookup path =
      ((lastAt metas path).map baselineRowOfMeta).or (rows.lookup path) :=
  Table.lookup_insertAll _ _ _ _ _

/-- The newest of some baselines at a path is one of them. -/
theorem of_lastAt {metas : List FileMeta} {path : Path} {m : FileMeta}
    (h : lastAt metas path = some m) : m ∈ metas ∧ m.path = path :=
  ⟨List.mem_reverse.mp (List.mem_of_find?_eq_some h), by simpa using List.find?_some h⟩

/-- Saving tombstones makes no live row. -/
theorem lookup_of_saved_tombstones {rows : PathMap BaselineRow} {metas : List FileMeta}
    (hmetas : ∀ m ∈ metas, m.deleted = true) {ok : Bool} {path : Path} {row : BaselineRow}
    (hrow : (if ok then upsertNodeBaselines rows metas else rows).lookup path = some row)
    (hlive : row.deleted = false) : rows.lookup path = some row := by
  split_ifs at hrow
  · rw [lookup_upsertNodeBaselines] at hrow
    rcases hm : lastAt metas path with _ | m
    · rw [hm] at hrow
      exact hrow
    · rw [hm] at hrow
      cases hrow
      change m.deleted = false at hlive
      rw [hmetas m (of_lastAt hm).1] at hlive
      cases hlive
  · exact hrow

/-- Saving the downloads stores the newest baseline of a path, or leaves the row that was there. -/
theorem contentHash_of_saved {rows : PathMap BaselineRow} {metas : List FileMeta} {path : Path}
    {last : Option Digest} (hpending : ∀ m, lastAt metas path = some m → last = some m.contentHash)
    (hstored : ∀ row, rows.lookup path = some row → row.deleted = false →
      last = some row.contentHash ∨ ∃ m ∈ metas, m.path = path)
    {ok : Bool} (hok : (!ok && metas.any fun m => decide (m.path = path)) = false)
    {row : BaselineRow}
    (hrow : (if ok then upsertNodeBaselines rows metas else rows).lookup path = some row)
    (hlive : row.deleted = false) : last = some row.contentHash := by
  rcases hm : lastAt metas path with _ | m
  · -- nothing of this path is saved
    have hnone : ∀ m ∈ metas, m.path ≠ path := by
      intro m hmem
      have hne := List.find?_eq_none.mp hm m (List.mem_reverse.mpr hmem)
      simpa using hne
    have hold : rows.lookup path = some row := by
      split_ifs at hrow
      · rw [lookup_upsertNodeBaselines, hm] at hrow
        exact hrow
      · exact hrow
    rcases hstored row hold hlive with hlast | ⟨m, hmem, hpath⟩
    · exact hlast
    · exact absurd hpath (hnone m hmem)
  · -- the newest download of this path is saved
    obtain ⟨hmem, hpath⟩ := of_lastAt hm
    have hsaved : ok = true := by
      by_contra hno
      rw [Bool.not_eq_true] at hno
      rw [hno, Bool.not_false, Bool.true_and, List.any_eq_false] at hok
      exact hok m hmem (by simp [hpath])
    rw [if_pos hsaved, lookup_upsertNodeBaselines, hm] at hrow
    cases hrow
    exact hpending m hm

/-- What a step that records nothing keeps. -/
theorem RecordsAgree.of_same {s s' : Site} {path : Path} {last : Option Digest}
    (h : RecordsAgree blake3 path last s) (hcache : s'.blobCache = s.blobCache)
    (hstored : s'.nodeBaselines = s.nodeBaselines) (hdown : s'.downloaded = s.downloaded)
    (hremoved : ∀ m ∈ s'.removed, m.deleted = true)
    (hload : ∀ row, s'.ancestors.lookup path = some row → s'.mayMerge path →
      last = some row.contentHash)
    (hsave : .saveDownloads ∈ s.tasks → .saveDownloads ∈ s'.tasks)
    (horder : DownloadsFirst s'.tasks)
    (hapart : ∀ t₁ ∈ s'.tasks, ∀ t₂ ∈ s'.tasks, t₁.isConflict = true → t₁.path = some path →
      t₂.path = some path → t₂.isDownload = false) : RecordsAgree blake3 path last s' where
  cache := by
    rw [hcache]
    exact h.cache
  stored := by
    rw [hstored, hdown]
    intro row hrow hlive
    exact (h.stored row hrow hlive).imp id fun hp => ⟨hsave hp.1, hp.2⟩
  pending := by
    rw [hdown]
    exact h.pending
  loaded := hload
  order := horder
  apart := hapart
  removed := hremoved

/-- What a step that records a download keeps: the last agreement is now the download, if it is of
this path. -/
theorem RecordsAgree.of_downloaded {s s' : Site} {path : Path} {last : Option Digest} {b : FileMeta}
    (h : RecordsAgree blake3 path last s)
    (hcache : ∀ key bytes, s'.blobCache.lookup key = some bytes → blake3 bytes = key)
    (hstored : s'.nodeBaselines = s.nodeBaselines) (hdown : s'.downloaded = s.downloaded ++ [b])
    (hremoved : ∀ m ∈ s'.removed, m.deleted = true)
    (hload : ∀ row, s'.ancestors.lookup path = some row → s'.mayMerge path →
      b.path ≠ path ∧ last = some row.contentHash)
    (hsave : .saveDownloads ∈ s'.tasks) (horder : DownloadsFirst s'.tasks)
    (hapart : ∀ t₁ ∈ s'.tasks, ∀ t₂ ∈ s'.tasks, t₁.isConflict = true → t₁.path = some path →
      t₂.path = some path → t₂.isDownload = false) :
    RecordsAgree blake3 path (if b.path = path then some b.contentHash else last) s' where
  cache := hcache
  stored row hrow hlive := by
    rw [hstored] at hrow
    rw [hdown]
    by_cases hpath : b.path = path
    · exact Or.inr ⟨hsave, b, List.mem_append_right _ (List.mem_singleton_self _), hpath⟩
    · rw [if_neg hpath]
      refine (h.stored row hrow hlive).imp id fun hpend => ⟨hsave, ?_⟩
      obtain ⟨-, m, hm, hmp⟩ := hpend
      exact ⟨m, List.mem_append_left _ hm, hmp⟩
  pending m hm := by
    rw [hdown, lastAt_append_singleton] at hm
    split_ifs at hm ⊢ with hpath
    · cases hm
      rfl
    · exact h.pending m hm
  loaded row hrow hmay := by
    obtain ⟨hpath, hlast⟩ := hload row hrow hmay
    rw [if_neg hpath]
    exact hlast
  order := horder
  apart := hapart
  removed := hremoved

/-! ## Every recorded step keeps the invariant -/

/-- A task that is not a successful write of the path is no download of it. -/
theorem writesDownload_eq_false {s : Site} {task : Task} {o : Outcome} {path : Path}
    (hnext : s.nextTask = some task)
    (h : ∀ entry plaintext, task = .writeDownload entry plaintext →
      o.write.isDone = false ∨ entry.path ≠ path) : writesDownload path s (.proceed o) = false := by
  unfold writesDownload
  rw [hnext]
  cases task with
  | writeDownload entry plaintext =>
      rcases h entry plaintext rfl with hio | hpath
      · simp [hio]
      · simp [hpath]
  | _ => rfl

/-- A download that is written moves the last agreement of its own path. -/
theorem lastAgreed_step_wrote {hist : List (Site × SiteEvent)} {s : Site} {o : Outcome}
    {path : Path} {entry : FileMetadata} {plaintext : Bytes}
    (hnext : s.nextTask = some (.writeDownload entry plaintext)) (hio : o.write.isDone = true)
    (hrec : Recorded blake3 diffy cfg path hist s (.proceed o))
    (hdisk : (siteStep blake3 diffy cfg s (.proceed o)).disk.lookup entry.path = some plaintext) :
    lastAgreed blake3 (hist ++ [(s, .proceed o)]) (siteStep blake3 diffy cfg s (.proceed o)) path =
      if entry.path = path then some (blake3 plaintext) else lastAgreed blake3 hist s path := by
  split_ifs with hpath
  · have hyes : writesDownload path s (.proceed o) = true := by
      unfold writesDownload
      rw [hnext]
      simp [hio, hpath]
    refine lastAgreed_step_of_download blake3 diffy cfg hrec hyes ?_
    rw [← hpath]
    exact hdisk
  · refine lastAgreed_step_of_not blake3 diffy cfg hrec (writesDownload_eq_false hnext ?_)
    intro entry' plaintext' ht
    cases ht
    exact Or.inr hpath

/-- A task of the client keeps the invariant. -/
theorem recordsAgree_task {hist : List (Site × SiteEvent)} {s : Site} {task : Task} {o : Outcome}
    {path : Path} (hnext : s.nextTask = some task)
    (h : RecordsAgree blake3 path (lastAgreed blake3 hist s path) s)
    (hrec : Recorded blake3 diffy cfg path hist s (.proceed o)) :
    RecordsAgree blake3 path
      (lastAgreed blake3 (hist ++ [(s, .proceed o)])
        (siteStep blake3 diffy cfg s (.proceed o)) path)
      (siteStep blake3 diffy cfg s (.proceed o)) := by
  obtain ⟨c, hp, htasks, hstep⟩ := siteStep_proceed blake3 diffy cfg hnext o
  have hdown : s.downloaded = c.downloaded := by
    unfold Site.downloaded
    rw [hp]
  have hremoved : ∀ m ∈ c.removed, m.deleted = true := by
    have hr := h.removed
    unfold Site.removed at hr
    rw [hp] at hr
    exact hr
  have horder := downloadsFirst_proceed blake3 diffy cfg hnext o h.order
  have hapart := apart_proceed blake3 diffy cfg o h
  have hanc := ancestors_proceed blake3 diffy cfg hnext o
  have hload : ∀ row, (siteStep blake3 diffy cfg s (.proceed o)).ancestors.lookup path = some row →
      (siteStep blake3 diffy cfg s (.proceed o)).mayMerge path →
        lastAgreed blake3 hist s path = some row.contentHash := by
    intro row hrow hmay
    rw [hanc] at hrow
    exact h.loaded row hrow (Or.inr (mayMerge_of_proceed blake3 diffy cfg hnext hmay))
  have hsave := saveDownloads_mem_proceed blake3 diffy cfg hnext o
  have hquiet := lastAgreed_step_of_not blake3 diffy cfg hrec
  have hwrote := @lastAgreed_step_wrote blake3 diffy cfg hist s o path
  have hmay := @mayMerge_of_proceed blake3 diffy cfg s task hnext o path
  have htask := taskStep_doTask blake3 diffy cfg s { c with tasks := c.tasks.tail } o task
  rw [← hstep] at htask
  generalize hs' : siteStep blake3 diffy cfg s (.proceed o) = s' at *
  cases htask with
  | skipped task hne hio =>
      rw [hquiet (writesDownload_eq_false hnext fun entry plaintext ht => Or.inl (hio _ _ ht))]
      exact h.of_same blake3 rfl rfl hdown.symm hremoved hload (hsave hne) horder hapart
  | brokenOff entry plaintext n hio =>
      rw [hquiet (writesDownload_eq_false hnext fun _ _ _ => Or.inl hio)]
      exact h.of_same blake3 rfl rfl hdown.symm hremoved hload (hsave (by simp)) horder hapart
  | followed task next hfollows =>
      have hno : ∀ entry plaintext, task = .writeDownload entry plaintext →
          o.write.isDone = false ∨ entry.path ≠ path := by
        rintro entry plaintext rfl
        cases hfollows
      rw [hquiet (writesDownload_eq_false hnext hno)]
      exact h.of_same blake3 rfl rfl hdown.symm hremoved hload (hsave hfollows.kind.2.2.1) horder
        hapart
  | sent entry bytes =>
      rw [hquiet (writesDownload_eq_false hnext (by simp))]
      exact h.of_same blake3 rfl rfl hdown.symm hremoved hload (hsave (by simp)) horder hapart
  | applied conflict localBytes remotePlain disk hwrite =>
      rw [hquiet (writesDownload_eq_false hnext (by simp))]
      exact h.of_same blake3 rfl rfl hdown.symm hremoved hload (hsave (by simp)) horder hapart
  | deleted entry =>
      rw [hquiet (writesDownload_eq_false hnext (by simp))]
      refine h.of_same blake3 rfl rfl hdown.symm ?_ hload (hsave (by simp)) horder hapart
      intro m hm
      rcases List.mem_append.mp hm with hm | hm
      · exact hremoved m hm
      · rw [List.mem_singleton.mp hm]
        rfl
  | savedDeletes =>
      rw [hquiet (writesDownload_eq_false hnext (by simp))]
      have hsame : RecordsAgree blake3 path (lastAgreed blake3 hist s path)
          { s with phase := .working { c with tasks := c.tasks.tail } } :=
        h.of_same blake3 rfl rfl hdown.symm hremoved hload (hsave (by simp)) horder hapart
      refine ⟨hsame.cache, ?_, hsame.pending, hsame.loaded, horder, hapart, hremoved⟩
      intro row hrow hlive
      exact hsame.stored row (lookup_of_saved_tombstones hremoved hrow hlive) hlive
  | savedDownloads =>
      rw [hquiet (writesDownload_eq_false hnext (by simp))]
      have hbaseline := hrec.baseline
      unfold losesBaseline at hbaseline
      rw [hnext] at hbaseline
      have hpending := h.pending
      have hstored := h.stored
      rw [hdown] at hpending hstored
      refine ⟨h.cache, fun row hrow hlive => Or.inl ?_, hpending, hload, horder, hapart, hremoved⟩
      refine contentHash_of_saved hpending (fun row hrow hlive => ?_) ?_ hrow hlive
      · exact (hstored row hrow hlive).imp id fun hp => hp.2
      · rw [← hdown]
        exact hbaseline
  | wrote entry plaintext hio =>
      have hqueued : .saveDownloads ∈ c.tasks.tail := by
        have ho := h.order
        unfold Site.tasks at ho
        rw [hp] at ho
        change DownloadsFirst c.tasks at ho
        rw [htasks] at ho
        exact ((downloadsFirst_cons (by simp)).mp ho).1 rfl
      rw [hwrote hnext hio hrec (AList.lookup_insert _)]
      refine RecordsAgree.of_downloaded blake3 (b := downloadedBaseline blake3 entry plaintext) h
        (fun key bytes hl => of_lookup_cached blake3 h.cache o.cacheOk plaintext hl) rfl
        (by rw [hdown]; rfl) hremoved (fun row hrow hm => ⟨fun hpath => ?_, hload row hrow hm⟩)
        hqueued horder hapart
      -- a path that is downloaded in this cycle is in no conflict
      obtain ⟨t, ht, hc, htp⟩ := hmay hm
      have hnot := h.apart t ht _ (mem_tasks_of_nextTask hnext) hc htp (congrArg some hpath)
      cases hnot

/-- A step that is not the client's keeps the invariant. -/
theorem RecordsAgree.of_phase {s s' : Site} {path : Path} {last : Option Digest}
    (h : RecordsAgree blake3 path last s) (hcache : s'.blobCache = s.blobCache)
    (hstored : s'.nodeBaselines = s.nodeBaselines) (hphase : s'.phase = s.phase) :
    RecordsAgree blake3 path last s' := by
  have htasks : s'.tasks = s.tasks := by
    unfold Site.tasks
    rw [hphase]
  have hdown : s'.downloaded = s.downloaded := by
    unfold Site.downloaded
    rw [hphase]
  have hremoved : s'.removed = s.removed := by
    unfold Site.removed
    rw [hphase]
  have hanc : s'.ancestors = s.ancestors := by
    unfold Site.ancestors
    rw [hphase]
  have hmay : s'.mayMerge path = s.mayMerge path := by
    unfold Site.mayMerge
    rw [hphase, htasks]
  refine h.of_same blake3 hcache hstored hdown ?_ ?_ ?_ ?_ ?_
  · rw [hremoved]
    exact h.removed
  · rw [hanc, hmay]
    exact h.loaded
  · rw [htasks]
    exact id
  · rw [htasks]
    exact h.order
  · rw [htasks]
    exact h.apart

/-- Between cycles, the stored baseline points at the last agreement. -/
theorem RecordsAgree.of_idle {s : Site} {path : Path} {last : Option Digest}
    (h : RecordsAgree blake3 path last s) (htasks : s.tasks = []) {row : BaselineRow}
    (hrow : s.nodeBaselines.lookup path = some row) (hlive : row.deleted = false) :
    last = some row.contentHash := by
  rcases h.stored row hrow hlive with hlast | ⟨hsave, -⟩
  · exact hlast
  · rw [htasks] at hsave
    cases hsave

/-- A client between cycles whose stored baselines point at the last agreement. -/
theorem recordsAgree_idle {s : Site} {path : Path} {last : Option Digest} (hp : s.phase = .idle)
    (hcache : ∀ key bytes, s.blobCache.lookup key = some bytes → blake3 bytes = key)
    (hstored : ∀ row, s.nodeBaselines.lookup path = some row → row.deleted = false →
      last = some row.contentHash) : RecordsAgree blake3 path last s where
  cache := hcache
  stored row hrow hlive := Or.inl (hstored row hrow hlive)
  pending m hm := by
    unfold Site.downloaded at hm
    rw [hp] at hm
    cases hm
  loaded row hrow _ := by
    unfold Site.ancestors at hrow
    rw [hp] at hrow
    cases hrow
  order := by
    unfold Site.tasks
    rw [hp]
    trivial
  apart t₁ h₁ := by
    unfold Site.tasks at h₁
    rw [hp] at h₁
    cases h₁
  removed m hm := by
    unfold Site.removed at hm
    rw [hp] at hm
    cases hm

/-- The start of a cycle loads ancestors that point at the last agreement. -/
theorem RecordsAgree.of_start {s : Site} {path : Path} {last : Option Digest}
    (h : RecordsAgree blake3 path last s) (htasks : s.tasks = []) (loadOk : Bool)
    (files : List FileMetadata) :
    RecordsAgree blake3 path last
      { s with phase := .scanned (loadBaselinesForShare s.nodeBaselines loadOk) files } where
  cache := h.cache
  stored row hrow hlive := Or.inl (h.of_idle blake3 htasks hrow hlive)
  pending m hm := by cases hm
  loaded row hrow _ := by
    change (loadBaselinesForShare s.nodeBaselines loadOk).lookup path = some row at hrow
    unfold loadBaselinesForShare at hrow
    split_ifs at hrow
    · rw [Table.lookup_eraseWhere] at hrow
      obtain ⟨hold, hlive⟩ := Option.filter_eq_some_iff.mp hrow
      exact h.of_idle blake3 htasks hold (by simpa using hlive)
    · cases hrow
  order := trivial
  apart t₁ h₁ := by cases h₁
  removed m hm := by cases hm

/-- An exchange that gets through queues work in order, and keeps the ancestors. -/
theorem RecordsAgree.of_exchange {s : Site} {path : Path} {last : Option Digest}
    {baselines : PathMap BaselineRow} {files : List FileMetadata}
    (h : RecordsAgree blake3 path last s) (hp : s.phase = .scanned baselines files) (now : ℤ) :
    RecordsAgree blake3 path last (siteStep blake3 diffy cfg s (.exchange true now)) := by
  have htasks : s.tasks = [] := by
    unfold Site.tasks
    rw [hp]
  rw [siteStep_exchange blake3 diffy cfg hp]
  refine ⟨h.cache, fun row hrow hlive => Or.inl (h.of_idle blake3 htasks hrow hlive), ?_, ?_,
    downloadsFirst_tasksOf cfg _, ?_, ?_⟩
  · intro m hm
    cases hm
  · intro row hrow _
    refine h.loaded row ?_ (Or.inl ⟨baselines, files, hp⟩)
    unfold Site.ancestors
    rw [hp]
    exact hrow
  · intro t₁ h₁ t₂ h₂ hc hp₁ hp₂
    exact not_download_of_conflict cfg h₁ h₂ hc hp₁ hp₂
  · intro m hm
    cases hm

/-- **Every recorded step keeps the invariant.** -/
theorem recordsAgree_step {hist : List (Site × SiteEvent)} {s : Site} {e : SiteEvent} {path : Path}
    (h : RecordsAgree blake3 path (lastAgreed blake3 hist s path) s)
    (hrec : Recorded blake3 diffy cfg path hist s e) :
    RecordsAgree blake3 path
      (lastAgreed blake3 (hist ++ [(s, e)]) (siteStep blake3 diffy cfg s e) path)
      (siteStep blake3 diffy cfg s e) := by
  have hends : s.tasks = [] → RecordsAgree blake3 path (lastAgreed blake3 hist s path)
      { s with phase := .idle } := fun htasks =>
    recordsAgree_idle blake3 rfl h.cache fun row hrow hlive => h.of_idle blake3 htasks hrow hlive
  cases e with
  | start loadOk scanOk stat =>
      rw [lastAgreed_step_of_not blake3 diffy cfg hrec rfl]
      rcases hp : s.phase with _ | ⟨baselines, files⟩ | c
      · simp only [siteStep, hp]
        exact h.of_start blake3 (by unfold Site.tasks; rw [hp]) loadOk _
      · simp only [siteStep, hp]
        exact h
      · simp only [siteStep, hp]
        exact h
  | exchange ok now =>
      rw [lastAgreed_step_of_not blake3 diffy cfg hrec rfl]
      rcases hp : s.phase with _ | ⟨baselines, files⟩ | c
      · simp only [siteStep, hp]
        exact h
      · cases ok with
        | false =>
            simp only [siteStep, hp, Bool.false_eq_true, if_false]
            exact hends (by unfold Site.tasks; rw [hp])
        | true => exact h.of_exchange blake3 diffy cfg hp now
      · simp only [siteStep, hp]
        exact h
  | proceed o =>
      rcases hnext : s.nextTask with _ | task
      · have hno : writesDownload path s (.proceed o) = false := by
          unfold writesDownload
          rw [hnext]
        rw [lastAgreed_step_of_not blake3 diffy cfg hrec hno]
        rcases siteStep_proceed_of_nextTask_none blake3 diffy cfg hnext o with hstep | hstep
        · rw [hstep]
          exact h
        · rw [hstep]
          exact hends (tasks_eq_nil_of_nextTask_none hnext)
      · exact recordsAgree_task blake3 diffy cfg hnext h hrec
  | edit q bytes =>
      rw [lastAgreed_step_of_not blake3 diffy cfg hrec rfl]
      exact h.of_phase blake3 rfl rfl rfl
  | remove q =>
      rw [lastAgreed_step_of_not blake3 diffy cfg hrec rfl]
      exact h.of_phase blake3 rfl rfl rfl
  | others e =>
      rw [lastAgreed_step_of_not blake3 diffy cfg hrec rfl]
      simp only [siteStep]
      split_ifs
      · exact h
      · exact h.of_phase blake3 rfl rfl rfl

/-- **The invariant gives the true ancestor.** -/
theorem trueAncestor_of_recordsAgree {Merge : String → String → String → String → Prop}
    (hdiffy : ∀ base localText remote merged, diffy base localText remote = .ok merged →
      Merge base localText remote merged)
    {hist : List (Site × SiteEvent)} {s : Site} {e : SiteEvent} {path : Path}
    (h : RecordsAgree blake3 path (lastAgreed blake3 hist s path) s) :
    TrueAncestor blake3 diffy cfg Merge path hist s e := by
  have hbase : ∀ bytes localBytes remotePlain,
      Applies cfg path s e (some bytes) localBytes remotePlain →
        lastAgreed blake3 hist s path = some (blake3 bytes) := by
    rintro bytes localBytes remotePlain ⟨-, -, hpassed⟩
    obtain ⟨c, conflict, hp, hnext, hpath, hb⟩ := of_passed hpassed
    unfold baseBytes at hb
    obtain ⟨row, hrow, hcached⟩ := Option.bind_eq_some_iff.mp hb.symm
    have hanc : s.ancestors.lookup path = some row := by
      unfold Site.ancestors
      rw [hp]
      exact hrow
    rw [h.loaded row hanc (Or.inr ⟨_, mem_tasks_of_nextTask hnext, rfl, congrArg some hpath⟩),
      h.cache _ _ hcached]
  refine ⟨hbase, fun base localBytes remotePlain merged happ hclean => ?_⟩
  obtain ⟨ancestor, baseStr, localStr, remoteStr, mergedStr, rfl, hb, hl, hr, hm, rfl⟩ :=
    of_threeWayMerge_clean diffy hclean
  exact ⟨ancestor, baseStr, localStr, remoteStr, mergedStr, hbase _ _ _ happ, hb, hl, hr, rfl,
    hdiffy _ _ _ _ hm⟩

/-- **Merges use the true common ancestor** in every run of a client that has never synced before,
its user and the server in which every agreement on the path is recorded. -/
theorem mergesUseTrueAncestor {Merge : String → String → String → String → Prop}
    (hdiffy : ∀ base localText remote merged, diffy base localText remote = .ok merged →
      Merge base localText remote merged)
    {s : Site} (hidle : s.phase = .idle) (hcache : s.blobCache = ∅) (hstored : s.nodeBaselines = ∅)
    {es : List SiteEvent} {path : Path}
    (h : Always (siteStep blake3 diffy cfg) (Recorded blake3 diffy cfg path) s es) :
    Always (siteStep blake3 diffy cfg) (TrueAncestor blake3 diffy cfg Merge path) s es := by
  refine (Always.of_invariant
    (I := fun hist s => RecordsAgree blake3 path (lastAgreed blake3 hist s path) s) ?_ ?_ ?_ h).1
  · refine recordsAgree_idle blake3 hidle ?_ ?_
    · intro key bytes hl
      rw [hcache] at hl
      cases hl
    · intro row hrow
      rw [hstored] at hrow
      cases hrow
  · intro es e hinv _
    exact trueAncestor_of_recordsAgree blake3 diffy cfg hdiffy hinv
  · intro es e hinv hrec
    exact recordsAgree_step blake3 diffy cfg hinv hrec

end

/-! ## A fresh ancestor, and a stale one -/

/-- The text of the runs below. -/
def textPath : Path := ["text.md"]

/-- The client downloads the text that the server has indexed. -/
def downloadText : List SiteEvent := indexed textPath [97] ++ oneTransfer

/-- The user and the server change the text, and the cycle gets as far as the conflict. -/
def bothChange (user server : Bytes) : List SiteEvent :=
  .edit textPath user :: indexed textPath server ++
    (startOk :: .exchange true 100 :: proceeds 3)

/-- A client that has never synced, and a server that has indexed the text. -/
def textSite : Site :=
  { emptySite with
    server := { emptySite.server with
      shareTree := AList.singleton textPath [97]
      db := { emptySite.server.db with
        files := AList.singleton textPath (fileRowOfMeta
          (indexedMeta sampleBlake3 "server" textPath [97] ⟨none, 1⟩) none none) } } }

/-- Both sides change a text that was downloaded: the ancestor is recorded, and the conflict gets
it. -/
theorem mergesUseTrueAncestor_downloaded :
    Always (siteStep sampleBlake3 sampleDiffy sampleShare)
      (TrueAncestor sampleBlake3 sampleDiffy sampleShare
        (fun base localText remote merged => sampleDiffy base localText remote = .ok merged) textPath)
      textSite (oneTransfer ++ bothChange [98] [99] ++ proceeds 1) :=
  mergesUseTrueAncestor sampleBlake3 sampleDiffy sampleShare (fun _ _ _ _ h => h) rfl rfl rfl
    (always_of_check (by decide +kernel))

/-- The text is downloaded, edited and uploaded; then both sides change it, the user back to what was
downloaded. -/
def uploadThenConflict : List SiteEvent :=
  downloadText ++ (.edit textPath [98] :: oneTransfer) ++ bothChange [97] [99]

/-- **A stale ancestor.** After the upload both sides have `b`, but the client's baseline is still
the `a` it once downloaded, and that is the base the next conflict gets. The user's change from `b`
back to `a` then looks like no change at all: the merge is clean, and the server's `c` replaces it
without a conflict copy. -/
theorem upload_leaves_stale_ancestor :
    ¬ Always (siteStep sampleBlake3 sampleDiffy sampleShare)
        (TrueAncestor sampleBlake3 sampleDiffy sampleShare
          (fun base localText remote merged => sampleDiffy base localText remote = .ok merged)
          textPath)
        emptySite (uploadThenConflict ++ [.proceed allOk]) ∧
      (run (siteStep sampleBlake3 sampleDiffy sampleShare) emptySite
        (uploadThenConflict ++ [.proceed allOk])).disk.entries = [⟨textPath, [99]⟩] := by
  refine ⟨fun h => ?_, by decide +kernel⟩
  have hlast := (h uploadThenConflict (.proceed allOk) [] rfl).base [97] [97] [99]
    ⟨rfl, ⟨allOk, rfl⟩, by decide +kernel⟩
  have hagreed : lastAgreed sampleBlake3
      (history (siteStep sampleBlake3 sampleDiffy sampleShare) emptySite uploadThenConflict)
      (run (siteStep sampleBlake3 sampleDiffy sampleShare) emptySite uploadThenConflict) textPath =
        some (sampleBlake3 [98]) := by
    decide +kernel
  rw [hagreed] at hlast
  exact absurd (Option.some.inj hlast) (by decide +kernel)

end DiskArcana.System
