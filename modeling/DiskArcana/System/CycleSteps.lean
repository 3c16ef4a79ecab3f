import DiskArcana.Lib.Trace
import DiskArcana.System.Cycle

/-!
# What a step of a site can do

Inversion of `siteStep` and `doTask`, once: what a task can do (`TaskStep`), which tasks an answer
stands for (`of_mem_tasksOf`), and where the snapshot of the cycle under way comes from
(`SentIsScan`). The results about runs of a site use these.
-/

namespace DiskArcana.System

open DiskArcana.Core DiskArcana.Lib DiskArcana.Lib.Trace DiskArcana.Server DiskArcana.Client

section

variable (blake3 : Bytes → Digest) (diffy : String → String → String → Except String String)
  (cfg : ShareConfig)

/-! ## What a task can do -/

/-- A task that has its bytes stands in for the one that waited for them. -/
inductive Follows (s : Site) (o : Outcome) : Task → Task → Prop where
  | upload (entry : FileMetadata) (bytes : Bytes) :
      Follows s o (.upload entry) (.sendUpload entry bytes)
  | download (entry : FileMetadata) (plaintext : Bytes)
      (h : fetchEntry blake3 cfg s.server o entry = some plaintext) :
      Follows s o (.download entry) (.writeDownload entry plaintext)
  | read (conflict : ConflictMessage) (localBytes : Bytes)
      (h : s.disk.lookup conflict.path = some localBytes) :
      Follows s o (.readConflict conflict) (.fetchConflict conflict localBytes)
  | fetch (conflict : ConflictMessage) (localBytes remotePlain : Bytes)
      (h : fetchRemote blake3 cfg s.server o conflict = some remotePlain) :
      Follows s o (.fetchConflict conflict localBytes)
        (.applyConflict conflict localBytes remotePlain)

/-- What applying a conflict can make of the directory. -/
inductive ConflictWrite (s : Site) (c : Cycle) (o : Outcome) (conflict : ConflictMessage)
    (localBytes remotePlain : Bytes) : PathMap Bytes → Prop where
  | kept : ConflictWrite s c o conflict localBytes remotePlain s.disk
  | served (h : cfg.receiveOnly = true) :
      ConflictWrite s c o conflict localBytes remotePlain
        (s.disk.insert conflict.path remotePlain)
  | brokenOff (n : ℕ) (h : cfg.receiveOnly = true) :
      ConflictWrite s c o conflict localBytes remotePlain
        (s.disk.insert conflict.path (remotePlain.take n))
  | merged (merged : Bytes)
      (h : threeWayMerge diffy (baseBytes s c conflict.path) localBytes remotePlain =
        .clean merged) :
      ConflictWrite s c o conflict localBytes remotePlain (s.disk.insert conflict.path merged)
  | forked (f : Path) (hf : f ∈ forkCandidates conflict.path cfg.nodeId o.now)
      (hfree : s.disk.lookup f = none) :
      ConflictWrite s c o conflict localBytes remotePlain (s.disk.insert f remotePlain)

theorem conflictWrite_conflictDisk (s : Site) (c : Cycle) (o : Outcome)
    (conflict : ConflictMessage) (localBytes remotePlain : Bytes) :
    ConflictWrite diffy cfg s c o conflict localBytes remotePlain
      (conflictDisk diffy cfg s c o conflict localBytes remotePlain) := by
  unfold conflictDisk
  split_ifs with hr
  · cases o.write with
    | refused => exact .kept
    | cut n => exact .brokenOff n hr
    | done => exact .served hr
  · split
    · rename_i outcome disk happly
      rcases applyConflict_cases diffy happly with ⟨-, merged, hclean, rfl⟩ | ⟨f, -, hf, hfree, rfl⟩
      · exact .merged merged hclean
      · exact .forked f hf hfree
    · exact .kept

/-- **What a task can do to a site.** Saving the downloads is the one task whose failure matters
later, so it is never counted as skipped; a download is written when the file system lets it, and
one that breaks off leaves a part of itself. -/
inductive TaskStep (s : Site) (c : Cycle) (o : Outcome) : Task → Site → Prop where
  | skipped (task : Task) (h : task ≠ .saveDownloads)
      (hio : ∀ entry plaintext, task = .writeDownload entry plaintext → o.write.isDone = false) :
      TaskStep s c o task (s.goOn c)
  | followed (task next : Task) (h : Follows blake3 cfg s o task next) :
      TaskStep s c o task (s.goOnWith c next)
  | sent (entry : FileMetadata) (bytes : Bytes) :
      TaskStep s c o (.sendUpload entry bytes)
        { s with
          server := serverStep blake3 s.server (.upload (uploadCall blake3 cfg entry.path bytes o))
          phase := .working c }
  | brokenOff (entry : FileMetadata) (plaintext : Bytes) (n : ℕ) (h : o.write.isDone = false) :
      TaskStep s c o (.writeDownload entry plaintext)
        { s with disk := s.disk.insert entry.path (plaintext.take n), phase := .working c }
  | wrote (entry : FileMetadata) (plaintext : Bytes) (h : o.write.isDone = true) :
      TaskStep s c o (.writeDownload entry plaintext)
        { s with
          disk := s.disk.insert entry.path plaintext
          blobCache :=
            if o.cacheOk then putBlob s.blobCache (blake3 plaintext) plaintext else s.blobCache
          phase := .working
            { c with downloaded := c.downloaded ++ [downloadedBaseline blake3 entry plaintext] } }
  | savedDownloads :
      TaskStep s c o .saveDownloads
        { s with
          nodeBaselines :=
            if o.dbOk then upsertNodeBaselines s.nodeBaselines c.downloaded else s.nodeBaselines
          phase := .working c }
  | applied (conflict : ConflictMessage) (localBytes remotePlain : Bytes) (disk : PathMap Bytes)
      (h : ConflictWrite diffy cfg s c o conflict localBytes remotePlain disk) :
      TaskStep s c o (.applyConflict conflict localBytes remotePlain)
        { s with disk := disk, phase := .working c }
  | deleted (entry : FileMetadata) :
      TaskStep s c o (.delete entry)
        { s with
          disk := s.disk.erase entry.path
          phase := .working
            { c with removed := c.removed ++ [removedBaseline cfg.nodeId entry.path o.now] } }
  | savedDeletes :
      TaskStep s c o .saveDeletes
        { s with
          nodeBaselines :=
            if o.dbOk then upsertNodeBaselines s.nodeBaselines c.removed else s.nodeBaselines
          phase := .working c }

theorem taskStep_doTask (s : Site) (c : Cycle) (o : Outcome) (task : Task) :
    TaskStep blake3 diffy cfg s c o task (doTask blake3 diffy cfg s c o task) := by
  cases task with
  | upload entry =>
      rw [doTask]
      split_ifs
      · exact .skipped _ (by simp) (by simp)
      · split
        · exact .followed _ _ (.upload entry _)
        · exact .skipped _ (by simp) (by simp)
  | sendUpload entry bytes =>
      rw [doTask]
      split_ifs
      · exact .sent entry bytes
      · exact .skipped _ (by simp) (by simp)
  | download entry =>
      rw [doTask]
      split
      · rename_i plaintext hfetch
        exact .followed _ _ (.download entry plaintext hfetch)
      · exact .skipped _ (by simp) (by simp)
  | writeDownload entry plaintext =>
      rcases hwrite : o.write with _ | n | _
      · have hno : o.write.isDone = false := by rw [hwrite]; rfl
        simp only [doTask, hwrite, WriteAnswer.writeTo, WriteAnswer.isDone, Bool.false_eq_true, if_false]
        exact .skipped _ (by simp) fun _ _ _ => hno
      · have hno : o.write.isDone = false := by rw [hwrite]; rfl
        simp only [doTask, hwrite, WriteAnswer.writeTo, WriteAnswer.isDone, Bool.false_eq_true, if_false]
        exact .brokenOff entry plaintext n hno
      · have hyes : o.write.isDone = true := by rw [hwrite]; rfl
        simp only [doTask, hwrite, WriteAnswer.writeTo, WriteAnswer.isDone, if_true]
        exact .wrote entry plaintext hyes
  | saveDownloads => exact .savedDownloads
  | readConflict conflict =>
      rw [doTask]
      split_ifs
      · exact .skipped _ (by simp) (by simp)
      · split
        · rename_i localBytes hread
          exact .followed _ _ (.read conflict localBytes hread)
        · exact .skipped _ (by simp) (by simp)
  | fetchConflict conflict localBytes =>
      rw [doTask]
      split
      · rename_i remotePlain hfetch
        exact .followed _ _ (.fetch conflict localBytes remotePlain hfetch)
      · exact .skipped _ (by simp) (by simp)
  | applyConflict conflict localBytes remotePlain =>
      exact .applied conflict localBytes remotePlain _ (conflictWrite_conflictDisk diffy cfg s c o _ _ _)
  | delete entry =>
      rw [doTask]
      split_ifs
      · exact .skipped _ (by simp) (by simp)
      · exact .deleted entry
  | saveDeletes => exact .savedDeletes

/-- The cycle goes on after a task: with the same snapshot and the same ancestors, and at most one
more task, which stands in for the one that was done. -/
theorem phase_doTask (s : Site) (c : Cycle) (o : Outcome) (task : Task) :
    ∃ c', (doTask blake3 diffy cfg s c o task).phase = .working c' ∧ c'.files = c.files ∧
      c'.baselines = c.baselines ∧
      (c'.tasks = c.tasks ∨
        ∃ next, Follows blake3 cfg s o task next ∧ c'.tasks = next :: c.tasks) := by
  have hstep := taskStep_doTask blake3 diffy cfg s c o task
  generalize doTask blake3 diffy cfg s c o task = s' at hstep
  cases hstep
  case followed next hnext => exact ⟨_, rfl, rfl, rfl, Or.inr ⟨next, hnext, rfl⟩⟩
  all_goals exact ⟨_, rfl, rfl, rfl, Or.inl rfl⟩

/-- The path a task is about. -/
def Task.path : Task → Option Path
  | .upload entry | .sendUpload entry _ | .download entry | .writeDownload entry _
  | .delete entry => some entry.path
  | .readConflict conflict | .fetchConflict conflict _ | .applyConflict conflict _ _ =>
    some conflict.path
  | .saveDownloads | .saveDeletes => none

theorem Follows.path_eq {s : Site} {o : Outcome} {task next : Task}
    (h : Follows blake3 cfg s o task next) :
    next.path = task.path := by
  cases h <;> rfl

/-- **A task touches its own path**, or creates a conflict copy of it. -/
theorem of_lookup_doTask_ne {s : Site} {c : Cycle} {o : Outcome} {task : Task} {path : Path}
    (h : (doTask blake3 diffy cfg s c o task).disk.lookup path ≠ s.disk.lookup path) :
    task.path = some path ∨
      ∃ q, task.path = some q ∧ path ∈ forkCandidates q cfg.nodeId o.now := by
  have hstep := taskStep_doTask blake3 diffy cfg s c o task
  generalize doTask blake3 diffy cfg s c o task = s' at hstep h
  have hinsert : ∀ (q : Path) (bytes : Bytes),
      (s.disk.insert q bytes).lookup path ≠ s.disk.lookup path → q = path := by
    intro q bytes hne
    by_contra hq
    exact hne (AList.lookup_insert_ne (Ne.symm hq))
  cases hstep with
  | brokenOff entry plaintext n hio => exact Or.inl (congrArg some (hinsert _ _ h))
  | wrote entry plaintext hio => exact Or.inl (congrArg some (hinsert _ _ h))
  | deleted entry =>
      by_cases hpath : entry.path = path
      · exact Or.inl (congrArg some hpath)
      · exact absurd (AList.lookup_erase_ne (Ne.symm hpath)) h
  | applied conflict localBytes remotePlain disk hwrite =>
      cases hwrite with
      | kept => exact absurd rfl h
      | served hr => exact Or.inl (congrArg some (hinsert _ _ h))
      | brokenOff n hr => exact Or.inl (congrArg some (hinsert _ _ h))
      | merged merged hclean => exact Or.inl (congrArg some (hinsert _ _ h))
      | forked f hf hfree =>
          have hpath : f = path := hinsert _ _ h
          subst hpath
          exact Or.inr ⟨conflict.path, rfl, hf⟩
  | skipped task hne hio => exact absurd rfl h
  | followed task next hfollows => exact absurd rfl h
  | sent entry bytes => exact absurd rfl h
  | savedDownloads => exact absurd rfl h
  | savedDeletes => exact absurd rfl h

/-! ## The work of an answer -/

theorem mem_tasksOf {r : SyncStateResponse} {task : Task} :
    task ∈ tasksOf cfg r ↔
      (cfg.receiveOnly = false ∧ ∃ m ∈ r.toUpload, task = .upload m) ∨
      (∃ m ∈ r.toDownload, task = .download m) ∨ task = .saveDownloads ∨
      (∃ c ∈ r.conflicts, task = .readConflict c) ∨ (∃ m ∈ r.toDelete, task = .delete m) ∨
      task = .saveDeletes := by
  unfold tasksOf
  rcases cfg.receiveOnly with _ | _ <;> simp [eq_comm]

/-- **Work is for paths that the server or the snapshot holds.** -/
theorem of_mem_tasksOf {vaultId : String} {db : MetaDb} {call : ExchangeCall} {task : Task}
    {path : Path} (h : task ∈ tasksOf cfg (exchangeResponse vaultId db call))
    (hp : task.path = some path) :
    serverAt db path ≠ none ∨ clientAt call.files path ≠ none := by
  by_contra hnone
  push Not at hnone
  have hskip : (exchangeVerdict db call path).1 = .skip := by
    unfold exchangeVerdict
    rw [hnone.1, hnone.2]
    rfl
  rcases (mem_tasksOf cfg).mp h with ⟨-, m, hm, rfl⟩ | ⟨m, hm, rfl⟩ | rfl | ⟨c, hc, rfl⟩ |
    ⟨m, hm, rfl⟩ | rfl
  · cases hp
    obtain ⟨-, -, f, hf, -⟩ := mem_toUpload.mp hm
    unfold uploadEntry at hf
    rw [hskip] at hf
    cases hf
  · cases hp
    obtain ⟨-, f, hf, -⟩ := mem_toDownload.mp hm
    unfold downloadEntry at hf
    rw [hskip] at hf
    cases hf
  · cases hp
  · cases hp
    have hrep := exists_mem_conflicts.mp ⟨c, hc, rfl⟩
    rw [hrep.2] at hskip
    cases hskip
  · cases hp
    obtain ⟨-, hdel⟩ := listed_toDelete.mp ⟨m, hm, rfl⟩
    rcases hdel with hdel | hdel
    · rw [hdel] at hskip
      cases hskip
    · rw [hdel] at hskip
      cases hskip
  · cases hp

/-! ## Steps of the client -/

/-- An exchange that gets through. -/
theorem siteStep_exchange {s : Site} {baselines : PathMap BaselineRow} {files : List FileMetadata}
    (hp : s.phase = .scanned baselines files) (now : ℤ) :
    siteStep blake3 diffy cfg s (.exchange true now) =
      { s with
        server := { s.server with
          db := exchangeDb s.server.vaultId s.server.db (exchangeCall cfg files now) }
        phase := .working
          { baselines := baselines
            files := files
            tasks := tasksOf cfg
              (exchangeResponse s.server.vaultId s.server.db (exchangeCall cfg files now))
            downloaded := []
            removed := [] } } := by
  simp only [siteStep, hp, if_true, exchangeSite, exchangeState_eq]

/-- The task that is next. -/
def Site.nextTask (s : Site) : Option Task :=
  match s.phase with
  | .working c => c.tasks.head?
  | _ => none

/-- A step that does no task ends the cycle, or does nothing. -/
theorem siteStep_proceed_of_nextTask_none {s : Site} (h : s.nextTask = none) (o : Outcome) :
    siteStep blake3 diffy cfg s (.proceed o) = s ∨
      siteStep blake3 diffy cfg s (.proceed o) = { s with phase := .idle } := by
  unfold Site.nextTask at h
  rcases hp : s.phase with _ | ⟨baselines, files⟩ | c
  · exact Or.inl (by simp only [siteStep, hp])
  · exact Or.inl (by simp only [siteStep, hp])
  · rw [hp] at h
    have ht : c.tasks = [] := List.head?_eq_none_iff.mp h
    exact Or.inr (by simp only [siteStep, hp, ht])

/-- A step that does no task leaves the server and the directory alone. -/
theorem frame_proceed_of_nextTask_none {s : Site} (h : s.nextTask = none) (o : Outcome) :
    (siteStep blake3 diffy cfg s (.proceed o)).server = s.server ∧
      (siteStep blake3 diffy cfg s (.proceed o)).disk = s.disk := by
  rcases siteStep_proceed_of_nextTask_none blake3 diffy cfg h o with hstep | hstep
  · rw [hstep]
    exact ⟨rfl, rfl⟩
  · rw [hstep]
    exact ⟨rfl, rfl⟩

/-- A step that does a task. -/
theorem siteStep_proceed {s : Site} {task : Task} (h : s.nextTask = some task) (o : Outcome) :
    ∃ c, s.phase = .working c ∧ c.tasks = task :: c.tasks.tail ∧
      siteStep blake3 diffy cfg s (.proceed o) =
        doTask blake3 diffy cfg s { c with tasks := c.tasks.tail } o task := by
  unfold Site.nextTask at h
  rcases hp : s.phase with _ | ⟨baselines, files⟩ | c
  · rw [hp] at h
    cases h
  · rw [hp] at h
    cases h
  · rw [hp] at h
    obtain ⟨tasks, ht⟩ := List.head?_eq_some_iff.mp h
    refine ⟨c, rfl, by rw [ht]; rfl, ?_⟩
    simp only [siteStep, hp, ht, List.tail_cons]

/-- The work that is left. -/
def Site.tasks (s : Site) : List Task :=
  match s.phase with
  | .working c => c.tasks
  | _ => []

theorem mem_tasks_of_nextTask {s : Site} {task : Task} (h : s.nextTask = some task) :
    task ∈ s.tasks := by
  unfold Site.nextTask at h
  unfold Site.tasks
  rcases hp : s.phase with _ | ⟨baselines, files⟩ | c
  · rw [hp] at h
    cases h
  · rw [hp] at h
    cases h
  · rw [hp] at h
    exact List.mem_of_mem_head? h

theorem tasks_eq_nil_of_nextTask_none {s : Site} (h : s.nextTask = none) : s.tasks = [] := by
  unfold Site.nextTask at h
  unfold Site.tasks
  rcases hp : s.phase with _ | ⟨baselines, files⟩ | c
  · rfl
  · rfl
  · rw [hp] at h
    exact List.head?_eq_none_iff.mp h

/-- The work left after a task. -/
theorem tasks_proceed {s : Site} {task : Task} (h : s.nextTask = some task) (o : Outcome) :
    ∃ rest, s.tasks = task :: rest ∧
      ((siteStep blake3 diffy cfg s (.proceed o)).tasks = rest ∨
        ∃ next, Follows blake3 cfg s o task next ∧
          (siteStep blake3 diffy cfg s (.proceed o)).tasks = next :: rest) := by
  obtain ⟨c, hp, htasks, hstep⟩ := siteStep_proceed blake3 diffy cfg h o
  obtain ⟨c', hphase, -, -, hc'⟩ :=
    phase_doTask blake3 diffy cfg s { c with tasks := c.tasks.tail } o task
  refine ⟨c.tasks.tail, ?_, ?_⟩
  · unfold Site.tasks
    rw [hp]
    exact htasks
  · unfold Site.tasks
    rw [hstep, hphase]
    exact hc'

/-- **Where work comes from**: it was there, or it stands in for the task just done, or it is in the
answer to this exchange. -/
theorem of_mem_tasks_siteStep {s : Site} {e : SiteEvent} {task : Task}
    (h : task ∈ (siteStep blake3 diffy cfg s e).tasks) :
    task ∈ s.tasks ∨ (∃ o done, s.nextTask = some done ∧ Follows blake3 cfg s o done task) ∨
      ∃ now baselines files, e = .exchange true now ∧ s.phase = .scanned baselines files ∧
        task ∈ tasksOf cfg
          (exchangeResponse s.server.vaultId s.server.db (exchangeCall cfg files now)) := by
  cases e with
  | start loadOk scanOk stat =>
      unfold Site.tasks at h
      rcases hp : s.phase with _ | ⟨baselines, files⟩ | c
      · simp only [siteStep, hp] at h
        cases h
      · simp only [siteStep, hp] at h
        cases h
      · simp only [siteStep, hp] at h
        exact Or.inl (by unfold Site.tasks; rw [hp]; exact h)
  | exchange ok now =>
      rcases hp : s.phase with _ | ⟨baselines, files⟩ | c
      · simp only [siteStep, hp] at h
        exact Or.inl h
      · cases ok with
        | false =>
            simp only [siteStep, hp, Bool.false_eq_true, if_false, Site.tasks] at h
            cases h
        | true =>
            rw [siteStep_exchange blake3 diffy cfg hp] at h
            exact Or.inr (Or.inr ⟨now, baselines, files, rfl, rfl, h⟩)
      · simp only [siteStep, hp] at h
        exact Or.inl h
  | proceed o =>
      rcases hn : s.nextTask with _ | done
      · rcases siteStep_proceed_of_nextTask_none blake3 diffy cfg hn o with hstep | hstep
        · rw [hstep] at h
          exact Or.inl h
        · rw [hstep] at h
          cases h
      · obtain ⟨rest, hold, hnew | ⟨next, hfollows, hnew⟩⟩ :=
          tasks_proceed blake3 diffy cfg hn o
        · rw [hnew] at h
          exact Or.inl (by rw [hold]; exact List.mem_cons_of_mem _ h)
        · rw [hnew] at h
          rcases List.mem_cons.mp h with rfl | h
          · exact Or.inr (Or.inl ⟨o, done, rfl, hfollows⟩)
          · exact Or.inl (by rw [hold]; exact List.mem_cons_of_mem _ h)
  | edit path bytes => exact Or.inl h
  | remove path => exact Or.inl h
  | others e =>
      refine Or.inl ?_
      simp only [siteStep] at h
      split_ifs at h
      · exact h
      · exact h

/-! ## The scan of the current cycle -/

/-- Whether the scan of the last cycle that started succeeded, and the directory it found. -/
def lastScan (hist : List (Site × SiteEvent)) : Option (Bool × PathMap Bytes) :=
  hist.reverse.findSome? fun x =>
    match x.1.phase, x.2 with
    | .idle, .start _ scanOk _ => some (scanOk, x.1.disk)
    | _, _ => none

/-- The snapshot of the cycle that is under way. -/
def Site.sent (s : Site) : Option (List FileMetadata) :=
  match s.phase with
  | .idle => none
  | .scanned _ files => some files
  | .working c => some c.files

/-- The snapshot under way is what the last scan made of the directory it found. -/
def SentIsScan (hist : List (Site × SiteEvent)) (s : Site) : Prop :=
  ∀ files, s.sent = some files → ∃ scanOk stat disk, lastScan hist = some (scanOk, disk) ∧
    files = scanFiles blake3 cfg.nodeId scanOk stat disk

/-- A step that starts no cycle leaves the last scan as it was. -/
theorem lastScan_snoc (hist : List (Site × SiteEvent)) (s : Site) (e : SiteEvent) :
    lastScan (hist ++ [(s, e)]) =
      (match s.phase, e with
        | .idle, .start _ scanOk _ => some (scanOk, s.disk)
        | _, _ => none).or (lastScan hist) := by
  unfold lastScan
  rw [List.reverse_append, List.reverse_singleton, List.singleton_append, List.findSome?_cons]
  split <;> simp_all

/-- What a step makes of the snapshot under way: a start scans, everything else keeps it or ends the
cycle. -/
theorem sent_siteStep (s : Site) (e : SiteEvent) :
    (∃ loadOk scanOk stat, s.phase = .idle ∧ e = .start loadOk scanOk stat ∧
      (siteStep blake3 diffy cfg s e).sent =
        some (scanFiles blake3 cfg.nodeId scanOk stat s.disk)) ∨
    ((∀ loadOk scanOk stat, s.phase = .idle → e ≠ .start loadOk scanOk stat) ∧
      ((siteStep blake3 diffy cfg s e).sent = s.sent ∨
        (siteStep blake3 diffy cfg s e).sent = none)) := by
  cases e with
  | start loadOk scanOk stat =>
      rcases hp : s.phase with _ | ⟨baselines, files⟩ | c
      · refine Or.inl ⟨loadOk, scanOk, stat, rfl, rfl, ?_⟩
        simp only [siteStep, hp, Site.sent]
      · exact Or.inr ⟨by simp, Or.inl (by simp only [siteStep, hp])⟩
      · exact Or.inr ⟨by simp, Or.inl (by simp only [siteStep, hp])⟩
  | exchange ok now =>
      refine Or.inr ⟨by simp, ?_⟩
      rcases hp : s.phase with _ | ⟨baselines, files⟩ | c
      · exact Or.inl (by simp only [siteStep, hp])
      · cases ok with
        | false => exact Or.inr (by simp [siteStep, hp, Site.sent])
        | true => exact Or.inl (by simp [siteStep, hp, Site.sent, exchangeSite, exchangeState_eq])
      · exact Or.inl (by simp only [siteStep, hp])
  | proceed o =>
      refine Or.inr ⟨by simp, ?_⟩
      rcases hp : s.phase with _ | ⟨baselines, files⟩ | c
      · exact Or.inl (by simp only [siteStep, hp])
      · exact Or.inl (by simp only [siteStep, hp])
      · rcases ht : c.tasks with _ | ⟨task, tasks⟩
        · exact Or.inr (by simp only [siteStep, hp, ht, Site.sent])
        · refine Or.inl ?_
          obtain ⟨c', hphase, hfiles, -, -⟩ :=
            phase_doTask blake3 diffy cfg s { c with tasks := tasks } o task
          simp only [siteStep, hp, ht, Site.sent, hphase, hfiles]
  | edit path bytes => exact Or.inr ⟨by simp, Or.inl rfl⟩
  | remove path => exact Or.inr ⟨by simp, Or.inl rfl⟩
  | others e =>
      refine Or.inr ⟨by simp, Or.inl ?_⟩
      simp only [siteStep]
      split_ifs <;> rfl

/-- Every step keeps the invariant. -/
theorem sentIsScan_step {hist : List (Site × SiteEvent)} {s : Site} (e : SiteEvent)
    (h : SentIsScan blake3 cfg hist s) :
    SentIsScan blake3 cfg (hist ++ [(s, e)]) (siteStep blake3 diffy cfg s e) := by
  intro files hfiles
  rcases sent_siteStep blake3 diffy cfg s e with
    ⟨loadOk, scanOk, stat, hp, rfl, hsent⟩ | ⟨hno, hsent | hsent⟩
  · rw [hsent] at hfiles
    cases hfiles
    refine ⟨scanOk, stat, s.disk, ?_, rfl⟩
    rw [lastScan_snoc, hp]
    rfl
  · rw [hsent] at hfiles
    obtain ⟨scanOk, stat, disk, hlast, hscan⟩ := h files hfiles
    refine ⟨scanOk, stat, disk, ?_, hscan⟩
    rw [lastScan_snoc, ← hlast]
    split
    · rename_i hp
      exact absurd rfl (hno _ _ _ hp)
    · rfl
  · rw [hsent] at hfiles
    cases hfiles

end

end DiskArcana.System
