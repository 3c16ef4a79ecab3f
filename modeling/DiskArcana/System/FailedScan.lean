import DiskArcana.System.CycleSteps

/-!
# Does a failed scan delete?

`execute` maps a scan error to an empty snapshot, and the exchange cannot tell an empty snapshot
from that of a user who deleted everything. The module follows one cycle whose scan fails, over every
answer of the environment: `FailedScanHarmless` says that no live row becomes a tombstone and that
every file keeps its bytes, and `failedScanHarmless_iff` says for which states that is so
(`NothingToLose`). A client that has just uploaded a file is not in such a state.
-/

namespace DiskArcana.System

open DiskArcana.Core DiskArcana.Lib DiskArcana.Lib.Trace DiskArcana.Server DiskArcana.Client

section

variable (blake3 : Bytes → Digest) (diffy : String → String → String → Except String String)
  (cfg : ShareConfig)

/-! ## The property and the condition -/

/-- A cycle whose scan fails: the exchange, and any number of its tasks. -/
def failedCycle (loadOk ok : Bool) (stat : Path → FileStat) (now : ℤ) (os : List Outcome) :
    List SiteEvent :=
  .start loadOk false stat :: .exchange ok now :: os.map .proceed

/-- Nothing is lost between two states: no live row has become a tombstone, and every file is still
there with its bytes. -/
structure NothingLost (s s' : Site) : Prop where
  rows : ∀ path, side (s.row path) = .live → side (s'.row path) ≠ .tomb
  files : ∀ path bytes, s.disk.lookup path = some bytes → s'.disk.lookup path = some bytes

/-- **A failed scan is harmless**: whatever the environment answers, nothing is lost at any moment of
the cycle. -/
def FailedScanHarmless (s : Site) : Prop :=
  ∀ loadOk ok stat now os,
    NothingLost s (run (siteStep blake3 diffy cfg) s (failedCycle loadOk ok stat now os))

/-- The path is served to the client. -/
def Served (path : Path) : Prop := pathMatchesIncludes (pathString path) cfg.includes = true

/-- **There is nothing to lose**: no live row has the content of the client's baseline; and where
the client has a file that it is served, a tombstone on the server is one that the client's baseline
knows, and a live row that the baseline does not know cannot be fetched, or is as empty as the file: a
download truncates the file before it writes. -/
structure NothingToLose (s : Site) : Prop where
  rows : ∀ path content, liveHash (serverAt s.server.db path) = some content →
    liveHash (baseAt s.server.db cfg.nodeId path) ≠ some content
  deleted : ∀ path bytes, s.disk.lookup path = some bytes → Served cfg path →
    side (serverAt s.server.db path) = .tomb → side (baseAt s.server.db cfg.nodeId path) = .tomb
  offered : ∀ path bytes, s.disk.lookup path = some bytes → Served cfg path →
    ∀ row, serverAt s.server.db path = some row → row.deleted = false →
      hashesEq (some row) (baseAt s.server.db cfg.nodeId path) = false →
        ∀ o plaintext, fetchEntry blake3 cfg s.server o (fileMetaToProto row) = some plaintext →
          plaintext = [] ∧ bytes = []

/-! ## The answer to an empty snapshot -/

/-- The call of a cycle whose scan failed. -/
def emptyCall (now : ℤ) : ExchangeCall := exchangeCall cfg [] now

theorem clientAt_nil (path : Path) : clientAt [] path = none := rfl

/-- An empty snapshot is asked for nothing. -/
theorem toUpload_emptyCall (vaultId : String) (db : MetaDb) (now : ℤ) :
    (exchangeResponse vaultId db (emptyCall cfg now)).toUpload = [] := by
  refine List.eq_nil_iff_forall_not_mem.mpr fun m hm => ?_
  obtain ⟨-, -, f, hf, -⟩ := mem_toUpload.mp hm
  unfold uploadEntry at hf
  split_ifs at hf
  cases hf

/-- An empty snapshot is in no conflict. -/
theorem conflicts_emptyCall (vaultId : String) (db : MetaDb) (now : ℤ) :
    (exchangeResponse vaultId db (emptyCall cfg now)).conflicts = [] := by
  refine List.eq_nil_iff_forall_not_mem.mpr fun c hc => ?_
  have hrep := exists_mem_conflicts.mp ⟨c, hc, rfl⟩
  have hlive := (of_verdict_conflict (Or.inl hrep.2)).2.2.1
  cases hlive

/-- **What the answer to an empty snapshot offers**: every live row that the baseline does not
know. -/
theorem downloadEntry_emptyCall {db : MetaDb} {now : ℤ} {path : Path} {f : FileMeta} :
    downloadEntry db (emptyCall cfg now) path = some f ↔
      serverAt db path = some f ∧ f.deleted = false ∧
        hashesEq (some f) (baseAt db cfg.nodeId path) = false := by
  have hverdict : exchangeVerdict db (emptyCall cfg now) path =
      verdict (serverAt db path) none (baseAt db cfg.nodeId path) := rfl
  have hup := @verdict_upload_iff_of_none (serverAt db path) (baseAt db cfg.nodeId path)
  constructor
  · intro h
    have hv : (exchangeVerdict db (emptyCall cfg now) path).1 = .upload := by
      unfold downloadEntry at h
      split at h
      · assumption
      · rename_i hv
        have hlive := (of_verdict_conflict (Or.inl hv)).2.2.1
        cases hlive
      · rename_i hv
        have hlive := (of_verdict_conflict (Or.inr hv)).2.2.1
        cases hlive
      · cases h
    have hrow : serverAt db path = some f := by
      unfold downloadEntry at h
      rw [hv] at h
      exact h
    rw [hverdict] at hv
    have hlive := of_verdict_upload hv
    refine ⟨hrow, ?_, ?_⟩
    · obtain ⟨m, hm, hd⟩ := side_eq_live_iff.mp hlive
      rw [hrow] at hm
      cases hm
      exact hd
    · rw [← hrow]
      exact (hup hlive).mp hv
  · rintro ⟨hrow, hd, hne⟩
    have hlive : side (serverAt db path) = .live := by
      rw [hrow]
      exact side_some_of_live hd
    have hv : (exchangeVerdict db (emptyCall cfg now) path).1 = .upload := by
      rw [hverdict]
      exact (hup hlive).mpr (by rw [hrow]; exact hne)
    unfold downloadEntry
    rw [hv]
    exact hrow

/-- **What an empty snapshot is told to delete**: what the server has a tombstone of that the
baseline does not know, and what it tombstones now. -/
theorem deletes_emptyCall {db : MetaDb} {now : ℤ} {path : Path} :
    Deletes db (emptyCall cfg now) path ↔
      (side (serverAt db path) = .tomb ∧ side (baseAt db cfg.nodeId path) ≠ .tomb) ∨
        Tombstones db (emptyCall cfg now) path := by
  unfold Deletes Tombstones
  have hverdict : exchangeVerdict db (emptyCall cfg now) path =
      verdict (serverAt db path) none (baseAt db cfg.nodeId path) := rfl
  rw [hverdict, verdict_deleteLocal_iff, verdict_deleteRemote_iff]
  rcases side (serverAt db path) with _ | _ | _ <;> simp

/-- An empty snapshot has the rows tombstoned that its baseline knows. -/
theorem tombstones_emptyCall {db : MetaDb} {now : ℤ} {path : Path} :
    Tombstones db (emptyCall cfg now) path ↔
      ∃ content, liveHash (serverAt db path) = some content ∧
        liveHash (baseAt db cfg.nodeId path) = some content := by
  rw [tombstones_iff]
  have hnone : side (clientAt (emptyCall cfg now).files path) ≠ .live := by
    show side (clientAt [] path) ≠ .live
    rw [clientAt_nil]
    simp
  exact ⟨fun h => h.2, fun h => ⟨hnone, h⟩⟩

/-! ## The cycle after the exchange -/

/-- The state after the exchange of a cycle whose scan failed. -/
def answered (s : Site) (loadOk : Bool) (now : ℤ) : Site :=
  { s with
    server := { s.server with
      db := exchangeDb s.server.vaultId s.server.db (emptyCall cfg now) }
    phase := .working
      { baselines := loadBaselinesForShare s.nodeBaselines loadOk
        files := []
        tasks := tasksOf cfg
          (exchangeResponse s.server.vaultId s.server.db (emptyCall cfg now))
        downloaded := []
        removed := [] } }

@[simp] theorem answered_disk (s : Site) (loadOk : Bool) (now : ℤ) :
    (answered cfg s loadOk now).disk = s.disk := by
  rw [answered]

@[simp] theorem answered_shareTree (s : Site) (loadOk : Bool) (now : ℤ) :
    (answered cfg s loadOk now).server.shareTree = s.server.shareTree := by
  rw [answered]

theorem run_failedCycle {s : Site} (hidle : s.phase = .idle) (loadOk : Bool)
    (stat : Path → FileStat) (now : ℤ) (os : List Outcome) :
    run (siteStep blake3 diffy cfg) s (failedCycle loadOk true stat now os) =
      run (siteStep blake3 diffy cfg) (answered cfg s loadOk now) (os.map .proceed) := by
  have hstart : siteStep blake3 diffy cfg s (.start loadOk false stat) =
      { s with phase := .scanned (loadBaselinesForShare s.nodeBaselines loadOk) [] } := by
    simp only [siteStep, hidle]
    rfl
  unfold failedCycle
  rw [run_cons, run_cons, hstart, siteStep_exchange blake3 diffy cfg rfl]
  rfl

/-- A row that is not tombstoned is as it was. -/
theorem row_answered {s : Site} {now : ℤ} {path : Path}
    (h : ¬ Tombstones s.server.db (emptyCall cfg now) path) (loadOk : Bool) :
    (answered cfg s loadOk now).row path = s.row path := by
  unfold Site.row MetaDb.getFileScoped
  show ((exchangeDb s.server.vaultId s.server.db (emptyCall cfg now)).files.lookup path).map _ = _
  rw [lookup_exchangeDb_files, if_neg h]

/-! ## Nothing to lose is enough -/

/-- The task does no harm to the files that were there when the cycle started. -/
def Harmless (s : Site) : Task → Prop
  | .download entry => ∀ bytes, s.disk.lookup entry.path = some bytes →
      ∀ o plaintext, fetchEntry blake3 cfg s.server o entry = some plaintext →
        plaintext = [] ∧ bytes = []
  | .writeDownload entry plaintext => ∀ bytes, s.disk.lookup entry.path = some bytes →
      plaintext = [] ∧ bytes = []
  | .delete entry => s.disk.lookup entry.path = none
  | .saveDownloads | .saveDeletes => True
  | _ => False

/-- With nothing to lose, the answer holds harmless tasks only. -/
theorem harmless_of_mem_tasks {s : Site} (h : NothingToLose blake3 cfg s) {now : ℤ} {task : Task}
    (hmem : task ∈ tasksOf cfg
      (exchangeResponse s.server.vaultId s.server.db (emptyCall cfg now))) :
    Harmless blake3 cfg s task := by
  rcases (mem_tasksOf cfg).mp hmem with ⟨-, m, hm, -⟩ | ⟨m, hm, rfl⟩ | rfl | ⟨c, hc, -⟩ |
    ⟨m, hm, rfl⟩ | rfl
  · rw [toUpload_emptyCall] at hm
    cases hm
  · obtain ⟨hserved, f, hf, hmf⟩ := mem_toDownload.mp hm
    obtain ⟨hrow, hd, hne⟩ := (downloadEntry_emptyCall cfg).mp hf
    intro bytes hb o plaintext hfetch
    refine h.offered m.path bytes hb hserved f hrow hd hne o plaintext ?_
    rw [← hmf]
    exact hfetch
  · trivial
  · rw [conflicts_emptyCall] at hc
    cases hc
  · obtain ⟨hserved, hdel⟩ := listed_toDelete.mp ⟨m, hm, rfl⟩
    rcases hb : s.disk.lookup m.path with _ | bytes
    · exact hb
    rcases (deletes_emptyCall cfg).mp hdel with ⟨htomb, hbase⟩ | htomb
    · exact absurd (h.deleted m.path bytes hb hserved htomb) hbase
    · obtain ⟨content, hl, hbase⟩ := (tombstones_emptyCall cfg).mp htomb
      exact absurd hbase (h.rows m.path content hl)
  · trivial

/-- What holds between the start of the cycle and any later moment. -/
structure Unharmed (s₀ : Site) (server : SyncServer) (s : Site) : Prop where
  server_eq : s.server = server
  tasks : ∀ task ∈ s.tasks, Harmless blake3 cfg s₀ task
  files : ∀ path bytes, s₀.disk.lookup path = some bytes → s.disk.lookup path = some bytes

/-- A harmless task harms nothing. -/
theorem unharmed_proceed {s₀ s : Site} {server : SyncServer}
    (htree : server.shareTree = s₀.server.shareTree)
    (h : Unharmed blake3 cfg s₀ server s) (o : Outcome) :
    Unharmed blake3 cfg s₀ server (siteStep blake3 diffy cfg s (.proceed o)) := by
  have hfetch : ∀ o entry, fetchEntry blake3 cfg s.server o entry =
      fetchEntry blake3 cfg s₀.server o entry := by
    intro o entry
    unfold fetchEntry downloadFile deltaDownload
    rw [h.server_eq, htree]
  have htasks : ∀ task ∈ (siteStep blake3 diffy cfg s (.proceed o)).tasks,
      Harmless blake3 cfg s₀ task := by
    intro task hmem
    rcases of_mem_tasks_siteStep blake3 diffy cfg hmem with hold | ⟨o', done, hnext, hfollows⟩ |
      ⟨now, baselines, files, he, -⟩
    · exact h.tasks task hold
    · have hdone := h.tasks done (mem_tasks_of_nextTask hnext)
      cases hfollows with
      | upload entry bytes => cases hdone
      | download entry plaintext hplain =>
          intro bytes hb
          exact hdone bytes hb o' plaintext (by rw [← hfetch]; exact hplain)
      | read conflict localBytes hread => cases hdone
      | fetch conflict localBytes remotePlain => cases hdone
    · cases he
  rcases hnext : s.nextTask with _ | task
  · obtain ⟨hserver, hdisk⟩ := frame_proceed_of_nextTask_none blake3 diffy cfg hnext o
    refine ⟨?_, htasks, by rw [hdisk]; exact h.files⟩
    rw [hserver]
    exact h.server_eq
  obtain ⟨c, -, -, hstep⟩ := siteStep_proceed blake3 diffy cfg hnext o
  have hharm := h.tasks task (mem_tasks_of_nextTask hnext)
  have htask := taskStep_doTask blake3 diffy cfg s { c with tasks := c.tasks.tail } o task
  rw [← hstep] at htask
  generalize siteStep blake3 diffy cfg s (.proceed o) = s' at htask htasks ⊢
  -- a file that a download is written over is empty, and stays so however much is written
  have hwritten : ∀ entry plaintext, Harmless blake3 cfg s₀ (.writeDownload entry plaintext) →
      ∀ n path bytes, s₀.disk.lookup path = some bytes →
        (s.disk.insert entry.path (plaintext.take n)).lookup path = some bytes := by
    intro entry plaintext hwrite n path bytes hb
    rw [Table.lookup_insert_eq_ite]
    split_ifs with hpath
    · subst hpath
      obtain ⟨rfl, rfl⟩ := hwrite bytes hb
      rw [List.take_nil]
    · exact h.files path bytes hb
  cases htask with
  | sent entry bytes => cases hharm
  | applied conflict localBytes remotePlain disk hwrite => cases hharm
  | brokenOff entry plaintext n hio =>
      exact ⟨h.server_eq, htasks, hwritten entry plaintext hharm n⟩
  | wrote entry plaintext hio =>
      have hwhole := hwritten entry plaintext hharm plaintext.length
      rw [List.take_length] at hwhole
      exact ⟨h.server_eq, htasks, hwhole⟩
  | deleted entry =>
      refine ⟨h.server_eq, htasks, fun path bytes hb => ?_⟩
      have hne : path ≠ entry.path := by
        rintro rfl
        have hgone : s₀.disk.lookup entry.path = none := hharm
        rw [hb] at hgone
        cases hgone
      exact (AList.lookup_erase_ne hne).trans (h.files path bytes hb)
  | skipped task hne hio => exact ⟨h.server_eq, htasks, h.files⟩
  | followed task next hfollows => exact ⟨h.server_eq, htasks, h.files⟩
  | savedDownloads => exact ⟨h.server_eq, htasks, h.files⟩
  | savedDeletes => exact ⟨h.server_eq, htasks, h.files⟩

/-- So do all of them. -/
theorem unharmed_run {s₀ s : Site} {server : SyncServer}
    (htree : server.shareTree = s₀.server.shareTree) (h : Unharmed blake3 cfg s₀ server s)
    (os : List Outcome) :
    Unharmed blake3 cfg s₀ server
      (run (siteStep blake3 diffy cfg) s (os.map .proceed)) := by
  induction os generalizing s with
  | nil => exact h
  | cons o os ih => exact ih (unharmed_proceed blake3 diffy cfg htree h o)

/-- A cycle that ends at its exchange does nothing. -/
theorem run_proceeds_of_idle {s : Site} (hidle : s.phase = .idle) (os : List Outcome) :
    run (siteStep blake3 diffy cfg) s (os.map .proceed) = s := by
  induction os with
  | nil => rfl
  | cons o os ih =>
      have hstep : siteStep blake3 diffy cfg s (.proceed o) = s := by
        simp only [siteStep, hidle]
      rw [List.map_cons, run_cons, hstep]
      exact ih

theorem failedScanHarmless_of_nothingToLose {s : Site} (hidle : s.phase = .idle)
    (h : NothingToLose blake3 cfg s) : FailedScanHarmless blake3 diffy cfg s := by
  intro loadOk ok stat now os
  cases ok with
  | false =>
      have hrun : run (siteStep blake3 diffy cfg) s (failedCycle loadOk false stat now os) =
          { s with phase := .idle } := by
        have htwo : siteStep blake3 diffy cfg
            (siteStep blake3 diffy cfg s (.start loadOk false stat)) (.exchange false now) =
              { s with phase := .idle } := by
          simp [siteStep, hidle]
        unfold failedCycle
        rw [run_cons, run_cons, htwo, run_proceeds_of_idle blake3 diffy cfg rfl]
      rw [hrun]
      refine ⟨fun path hl ht => ?_, fun path bytes hb => hb⟩
      change side (s.row path) = .tomb at ht
      rw [hl] at ht
      cases ht
  | true =>
      rw [run_failedCycle blake3 diffy cfg hidle]
      have hstart : Unharmed blake3 cfg s (answered cfg s loadOk now).server
          (answered cfg s loadOk now) := by
        refine ⟨rfl, fun task hmem => harmless_of_mem_tasks blake3 cfg h hmem, fun path bytes hb => ?_⟩
        rw [answered_disk]
        exact hb
      have hend := unharmed_run blake3 diffy cfg (answered_shareTree cfg s loadOk now) hstart os
      refine ⟨fun path hl ht => ?_, hend.files⟩
      have hkept : ¬ Tombstones s.server.db (emptyCall cfg now) path := by
        intro htomb
        obtain ⟨content, hrow, hbase⟩ := (tombstones_emptyCall cfg).mp htomb
        exact h.rows path content hrow hbase
      have hrow : (run (siteStep blake3 diffy cfg) (answered cfg s loadOk now)
          (os.map .proceed)).row path = s.row path := by
        rw [← row_answered cfg hkept loadOk]
        unfold Site.row
        rw [hend.server_eq]
      rw [hrow, hl] at ht
      cases ht

/-! ## Nothing to lose is needed -/

/-- Nothing works. -/
def allFail : Outcome where
  transferOk := false
  lan := none
  ioOk := false
  write := .refused
  cacheOk := false
  dbOk := false
  quotaOk := false
  retention := ⟨0, 0⟩
  mtimeNs := 0
  now := 0

/-- A task that fails is dropped, and nothing else happens. -/
theorem doTask_allFail (s : Site) (c : Cycle) (task : Task) :
    ∃ c', (doTask blake3 diffy cfg s c allFail task).phase = .working c' ∧ c'.tasks = c.tasks ∧
      (doTask blake3 diffy cfg s c allFail task).server = s.server := by
  have hfetch : ∀ entry, fetchEntry blake3 cfg s.server allFail entry = none := by
    intro entry
    unfold fetchEntry tryLanFetch downloadFile
    rcases cfg.lanFetch with _ | _ <;> simp [allFail]
  have hremote : ∀ conflict, fetchRemote blake3 cfg s.server allFail conflict = none := by
    intro conflict
    rfl
  cases task with
  | upload entry =>
      exact ⟨c, by simp [doTask, allFail, Site.goOn], rfl, by simp [doTask, allFail, Site.goOn]⟩
  | sendUpload entry bytes => exact ⟨c, rfl, rfl, rfl⟩
  | download entry =>
      rw [doTask, hfetch]
      exact ⟨c, rfl, rfl, rfl⟩
  | writeDownload entry plaintext => exact ⟨c, rfl, rfl, rfl⟩
  | saveDownloads => exact ⟨c, rfl, rfl, rfl⟩
  | readConflict conflict =>
      exact ⟨c, by simp [doTask, allFail, Site.goOn], rfl, by simp [doTask, allFail, Site.goOn]⟩
  | fetchConflict conflict localBytes =>
      rw [doTask, hremote]
      exact ⟨c, rfl, rfl, rfl⟩
  | applyConflict conflict localBytes remotePlain => exact ⟨c, rfl, rfl, rfl⟩
  | delete entry =>
      rw [doTask]
      split_ifs
      · exact ⟨c, rfl, rfl, rfl⟩
      · exact ⟨_, rfl, rfl, rfl⟩
  | saveDeletes => exact ⟨c, rfl, rfl, rfl⟩

/-- The environment can bring the cycle to any of its tasks. -/
theorem run_allFail {s : Site} {c : Cycle} {pre rest : List Task} (hp : s.phase = .working c)
    (ht : c.tasks = pre ++ rest) :
    ∃ c', (run (siteStep blake3 diffy cfg) s
        ((List.replicate pre.length allFail).map .proceed)).phase = .working c' ∧ c'.tasks = rest ∧
      (run (siteStep blake3 diffy cfg) s
        ((List.replicate pre.length allFail).map .proceed)).server = s.server := by
  induction pre generalizing s c with
  | nil => exact ⟨c, hp, ht, rfl⟩
  | cons task pre ih =>
      have hnext : s.nextTask = some task := by
        unfold Site.nextTask
        rw [hp]
        show c.tasks.head? = some task
        rw [ht]
        rfl
      obtain ⟨c₁, hp₁, -, hstep⟩ := siteStep_proceed blake3 diffy cfg hnext allFail
      rw [hp] at hp₁
      cases hp₁
      obtain ⟨c₂, hp₂, ht₂, hserver⟩ :=
        doTask_allFail blake3 diffy cfg s { c with tasks := c.tasks.tail } task
      rw [← hstep] at hp₂ hserver
      obtain ⟨c', hphase, htasks, hs⟩ := ih hp₂ (by rw [ht₂, ht]; rfl)
      exact ⟨c', hphase, htasks, hs.trans hserver⟩

/-- The cycle can be brought to any task of the answer, without a change on the server. -/
theorem exists_run_to {s : Site} (hidle : s.phase = .idle) {now : ℤ} {task : Task}
    (hmem : task ∈ tasksOf cfg
      (exchangeResponse s.server.vaultId s.server.db (emptyCall cfg now))) :
    ∃ os, ∀ stat more,
      ∃ s', s'.nextTask = some task ∧ s'.server.shareTree = s.server.shareTree ∧
        run (siteStep blake3 diffy cfg) s (failedCycle true true stat now (os ++ more)) =
          run (siteStep blake3 diffy cfg) s' (more.map .proceed) := by
  obtain ⟨pre, post, hsplit⟩ := List.append_of_mem hmem
  refine ⟨List.replicate pre.length allFail, fun stat more => ?_⟩
  obtain ⟨c', hphase, htasks, hserver⟩ :=
    run_allFail blake3 diffy cfg (s := answered cfg s true now) rfl hsplit
  refine ⟨run (siteStep blake3 diffy cfg) (answered cfg s true now)
    ((List.replicate pre.length allFail).map .proceed), ?_, ?_, ?_⟩
  · unfold Site.nextTask
    rw [hphase]
    show c'.tasks.head? = some task
    rw [htasks]
    rfl
  · rw [hserver]
    exact answered_shareTree cfg s true now
  · rw [run_failedCycle blake3 diffy cfg hidle, List.map_append, run_append]

theorem nothingToLose_of_failedScanHarmless {s : Site} (hidle : s.phase = .idle)
    (h : FailedScanHarmless blake3 diffy cfg s) : NothingToLose blake3 cfg s where
  rows path content hl hb := by
    have htomb : Tombstones s.server.db (emptyCall cfg 0) path :=
      (tombstones_emptyCall cfg).mpr ⟨content, hl, hb⟩
    have hlost := (h true true (fun _ => ⟨none, 0⟩) 0 []).rows path
    rw [run_failedCycle blake3 diffy cfg hidle] at hlost
    obtain ⟨m, hm, hd, -⟩ := liveHash_eq_some_iff.mp hl
    have hrow : s.row path = some m := by
      unfold serverAt visible at hm
      split_ifs at hm
      exact hm
    refine hlost ?_ ?_
    · rw [hrow]
      exact side_some_of_live hd
    · unfold Site.row MetaDb.getFileScoped at hrow ⊢
      obtain ⟨row, hrow, -⟩ := Option.map_eq_some_iff.mp hrow
      show side (((exchangeDb s.server.vaultId s.server.db (emptyCall cfg 0)).files.lookup
        path).map (rowToMeta path)) = .tomb
      rw [lookup_exchangeDb_files, if_pos htomb, hrow]
      rfl
  deleted path bytes hb hserved htomb := by
    by_contra hbase
    have hdel : Deletes s.server.db (emptyCall cfg 0) path :=
      (deletes_emptyCall cfg).mpr (Or.inl ⟨htomb, hbase⟩)
    have hlisted : Listed (exchangeResponse s.server.vaultId s.server.db (emptyCall cfg 0)).toDelete
        path := listed_toDelete.mpr ⟨hserved, hdel⟩
    obtain ⟨m, hm, rfl⟩ := hlisted
    have htask : Task.delete m ∈ tasksOf cfg
        (exchangeResponse s.server.vaultId s.server.db (emptyCall cfg 0)) :=
      (mem_tasksOf cfg).mpr (by simp [hm])
    obtain ⟨os, hos⟩ := exists_run_to blake3 diffy cfg hidle htask
    obtain ⟨s', hnext, -, hrun⟩ := hos (fun _ => ⟨none, 0⟩) [allOk]
    have hfile := (h true true (fun _ => ⟨none, 0⟩) 0 (os ++ [allOk])).files m.path bytes hb
    obtain ⟨c, -, -, hstep⟩ := siteStep_proceed blake3 diffy cfg hnext allOk
    rw [hrun, List.map_singleton, run_cons, run_nil, hstep] at hfile
    simp [doTask, allOk] at hfile
  offered path bytes hb hserved row hrow hd hne o plaintext hfetch := by
    have hpath : row.path = path := serverAt_path hrow
    have hentry : downloadEntry s.server.db (emptyCall cfg 0) path = some row :=
      (downloadEntry_emptyCall cfg).mpr ⟨hrow, hd, hne⟩
    have hm : fileMetaToProto row ∈
        (exchangeResponse s.server.vaultId s.server.db (emptyCall cfg 0)).toDownload := by
      refine mem_toDownload.mpr ?_
      rw [fileMetaToProto_path, hpath]
      exact ⟨hserved, row, hentry, rfl⟩
    have htask : Task.download (fileMetaToProto row) ∈ tasksOf cfg
        (exchangeResponse s.server.vaultId s.server.db (emptyCall cfg 0)) :=
      (mem_tasksOf cfg).mpr (by simp [hm])
    obtain ⟨os, hos⟩ := exists_run_to blake3 diffy cfg hidle htask
    -- the file stays, whether the write breaks off at once or is done
    have hwritten : ∀ write : WriteAnswer, ∃ disk : PathMap Bytes,
        (write.writeTo disk path plaintext).lookup path = some bytes := by
      intro write
      obtain ⟨s', hnext, htree, hrun⟩ := hos (fun _ => ⟨none, 0⟩) [o, { allOk with write := write }]
      have hfile := (h true true (fun _ => ⟨none, 0⟩) 0
        (os ++ [o, { allOk with write := write }])).files path bytes hb
      obtain ⟨c, -, -, hstep⟩ := siteStep_proceed blake3 diffy cfg hnext o
      have hfetch' : fetchEntry blake3 cfg s'.server o (fileMetaToProto row) = some plaintext := by
        rw [← hfetch]
        unfold fetchEntry downloadFile deltaDownload
        rw [htree]
      rw [hrun, List.map_cons, List.map_singleton, run_cons, run_cons, run_nil, hstep, doTask,
        hfetch'] at hfile
      refine ⟨s'.disk, ?_⟩
      cases write <;>
        simpa [siteStep, Site.goOnWith, Site.goOn, doTask, WriteAnswer.isDone, hpath] using hfile
    obtain ⟨disk, hcut⟩ := hwritten (.cut 0)
    obtain ⟨disk', hdone⟩ := hwritten .done
    change (disk.insert path []).lookup path = some bytes at hcut
    change (disk'.insert path plaintext).lookup path = some bytes at hdone
    rw [AList.lookup_insert] at hcut hdone
    obtain rfl : [] = bytes := Option.some.inj hcut
    exact ⟨Option.some.inj hdone, rfl⟩

/-- **When a failed scan is harmless**: exactly when there is nothing to lose. -/
theorem failedScanHarmless_iff {s : Site} (hidle : s.phase = .idle) :
    FailedScanHarmless blake3 diffy cfg s ↔ NothingToLose blake3 cfg s := by
  constructor
  · exact nothingToLose_of_failedScanHarmless blake3 diffy cfg hidle
  · exact failedScanHarmless_of_nothingToLose blake3 diffy cfg hidle

end

/-! ## A synced file -/

/-- The user has written a file that the client has never synced. -/
def unsyncedSite : Site := { emptySite with disk := AList.singleton ["note.md"] [97] }

/-- With an empty server a failed scan is harmless. -/
theorem failedScanHarmless_unsynced :
    FailedScanHarmless sampleBlake3 sampleDiffy sampleShare unsyncedSite := by
  have hserver : ∀ path, serverAt unsyncedSite.server.db path = none := by
    intro path
    unfold serverAt visible
    split_ifs <;> rfl
  refine (failedScanHarmless_iff sampleBlake3 sampleDiffy sampleShare rfl).mpr ⟨?_, ?_, ?_⟩
  · intro path content hl
    rw [hserver] at hl
    cases hl
  · intro path bytes _ _ htomb
    rw [hserver] at htomb
    cases htomb
  · intro path bytes _ _ row hrow
    rw [hserver] at hrow
    cases hrow

/-- The user has written a file and the client has uploaded it. -/
def syncedSite : Site :=
  run (siteStep sampleBlake3 sampleDiffy sampleShare) emptySite
    (.edit ["note.md"] [97] :: oneTransfer)

/-- **A failed scan deletes everything that is in sync.** The next scan of a synced client fails:
the exchange tombstones the row of the file, and the client removes the file. -/
theorem failed_scan_deletes_synced_file :
    ¬ FailedScanHarmless sampleBlake3 sampleDiffy sampleShare syncedSite ∧
      (run (siteStep sampleBlake3 sampleDiffy sampleShare) syncedSite
        (failedCycle true true (fun _ => ⟨none, 1⟩) 200 [allOk, allOk])).disk.lookup
          ["note.md"] = none := by
  refine ⟨fun h => ?_, by decide +kernel⟩
  have hlost := (h true true (fun _ => ⟨none, 1⟩) 200 []).rows ["note.md"] (by decide +kernel)
  exact hlost (by decide +kernel)

end DiskArcana.System
