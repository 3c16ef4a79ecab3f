import DiskArcana.System.CycleSteps

/-!
# Do excluded paths stay out of sync?

The client's scan leaves out the paths its filter excludes. The server's share index leaves out only
its own blobs, and the exchange only the ephemeral markers: a row at an excluded path looks to the
exchange like a file the client does not have. It is offered for download in one cycle, and in the
next, with the baseline now saying that the client has it, it is deleted on both sides.

`KeepsOut` is what should hold at every step. It holds along the runs in which every exchange of the
client carries a scan that succeeded and meets no row at a path the scan does not report
(`RowsScanned`).
-/

namespace DiskArcana.System

open DiskArcana.Core DiskArcana.Lib DiskArcana.Lib.Trace DiskArcana.Server DiskArcana.Client

section

variable (blake3 : Bytes → Digest) (diffy : String → String → String → Except String String)
  (cfg : ShareConfig)

/-! ## The property and the condition -/

/-- **A step keeps excluded paths out of sync**: no task of the client touches one; the client's
exchange tombstones no row of one, and tombstones a live row only if the scan of this cycle found
no file there. -/
structure KeepsOut (hist : List (Site × SiteEvent)) (s : Site) (e : SiteEvent) : Prop where
  disk : ∀ o, e = .proceed o → ∀ path, Filter.default.isExcluded path = true →
    (siteStep blake3 diffy cfg s e).disk.lookup path = s.disk.lookup path
  rows : ∀ ok now, e = .exchange ok now → ∀ path, side (s.row path) = .live →
    side ((siteStep blake3 diffy cfg s e).row path) = .tomb →
      Filter.default.isExcluded path = false ∧
        ∃ scan ∈ lastScan hist, scan.2.lookup path = none

/-- **Every row that takes part in the exchange is at a path the scan reports**: one that the walk
can reach and the filter lets through; and the scan has succeeded. -/
def RowsScanned (hist : List (Site × SiteEvent)) (s : Site) (e : SiteEvent) : Prop :=
  match e, s.phase with
  | .exchange true _, .scanned _ _ =>
    (∃ scan ∈ lastScan hist, scan.1 = true) ∧
      ∀ path ∈ s.server.db.files.keys, isSyncEphemeralMarker path = true ∨
        (isWalkPath path = true ∧ Filter.default.isExcluded path = false)
  | _, _ => True

instance (hist : List (Site × SiteEvent)) (s : Site) (e : SiteEvent) :
    Decidable (RowsScanned hist s e) := by
  unfold RowsScanned
  split <;> infer_instance

/-- No pending task is about an excluded path. -/
def TasksScanned (s : Site) : Prop :=
  ∀ task ∈ s.tasks, ∀ path, task.path = some path → Filter.default.isExcluded path = false

/-! ## What the condition gives -/

/-- A row that takes part stands at a path of the table that is no ephemeral marker. -/
theorem mem_keys_of_serverAt {db : MetaDb} {path : Path} (h : serverAt db path ≠ none) :
    path ∈ db.files.keys ∧ isSyncEphemeralMarker path = false := by
  unfold serverAt visible MetaDb.getFileScoped at h
  rcases he : isSyncEphemeralMarker path with _ | _
  · rw [he] at h
    refine ⟨?_, rfl⟩
    by_contra hk
    have hnone : db.files.lookup path = none := AList.lookup_eq_none.mpr fun hm => hk (AList.mem_keys.mp hm)
    rw [hnone] at h
    exact h rfl
  · rw [he] at h
    exact absurd rfl h

/-- At an exchange that meets the condition, the server holds a path that takes part only if the
scan reports it. -/
theorem scanned_of_serverAt {hist : List (Site × SiteEvent)} {s : Site} {now : ℤ}
    {baselines : PathMap BaselineRow} {files : List FileMetadata}
    (hp : s.phase = .scanned baselines files) (h : RowsScanned hist s (.exchange true now))
    {path : Path} (hs : serverAt s.server.db path ≠ none) :
    isWalkPath path = true ∧ Filter.default.isExcluded path = false := by
  unfold RowsScanned at h
  rw [hp] at h
  obtain ⟨hk, he⟩ := mem_keys_of_serverAt hs
  rcases h.2 path hk with hmarker | hscan
  · rw [he] at hmarker
    cases hmarker
  · exact hscan

/-- The snapshot of an exchange that meets the condition is that of the directory the scan found. -/
theorem files_of_rowsScanned {hist : List (Site × SiteEvent)} {s : Site} {now : ℤ}
    {baselines : PathMap BaselineRow} {files : List FileMetadata}
    (hp : s.phase = .scanned baselines files) (hinv : SentIsScan blake3 cfg hist s)
    (h : RowsScanned hist s (.exchange true now)) :
    ∃ stat disk, (∃ scan ∈ lastScan hist, scan.2 = disk) ∧
      files = snapshot blake3 .default cfg.nodeId ∅ stat disk := by
  have hsent : s.sent = some files := by
    unfold Site.sent
    rw [hp]
  obtain ⟨scanOk, stat, disk, hlast, hfiles⟩ := hinv files hsent
  unfold RowsScanned at h
  rw [hp] at h
  obtain ⟨⟨scan, hscan, hok⟩, -⟩ := h
  rw [hlast] at hscan
  cases hscan
  cases hok
  exact ⟨stat, disk, ⟨_, hlast, rfl⟩, hfiles⟩

/-- Tasks stay clear of excluded paths. -/
theorem tasksScanned_step {hist : List (Site × SiteEvent)} {s : Site} {e : SiteEvent}
    (hinv : SentIsScan blake3 cfg hist s) (htasks : TasksScanned s)
    (h : RowsScanned hist s e) : TasksScanned (siteStep blake3 diffy cfg s e) := by
  intro task hmem path hpath
  rcases of_mem_tasks_siteStep blake3 diffy cfg hmem with hold | ⟨o, done, hnext, hfollows⟩ |
    ⟨now, baselines, files, rfl, hp, hanswer⟩
  · exact htasks task hold path hpath
  · rw [hfollows.path_eq] at hpath
    exact htasks done (mem_tasks_of_nextTask hnext) path hpath
  · obtain ⟨stat, disk, -, hfiles⟩ := files_of_rowsScanned blake3 cfg hp hinv h
    rcases of_mem_tasksOf cfg hanswer hpath with hserver | hclient
    · exact (scanned_of_serverAt hp h hserver).2
    · by_contra hx
      rw [Bool.not_eq_false] at hx
      refine hclient ?_
      show clientAt files path = none
      rw [hfiles]
      exact clientAt_snapshot_of_excluded blake3 hx cfg.nodeId ∅ stat disk

/-- A task that is clear of excluded paths touches none. -/
theorem disk_proceed_of_excluded {s : Site} (htasks : TasksScanned s) (o : Outcome) {path : Path}
    (hx : Filter.default.isExcluded path = true) :
    (siteStep blake3 diffy cfg s (.proceed o)).disk.lookup path = s.disk.lookup path := by
  rcases hnext : s.nextTask with _ | task
  · rw [(frame_proceed_of_nextTask_none blake3 diffy cfg hnext o).2]
  obtain ⟨c, -, -, hstep⟩ := siteStep_proceed blake3 diffy cfg hnext o
  rw [hstep]
  by_contra hne
  have hclear := htasks task (mem_tasks_of_nextTask hnext)
  rcases of_lookup_doTask_ne blake3 diffy cfg hne with hpath | ⟨q, hq, hfork⟩
  · rw [hclear path hpath] at hx
    cases hx
  · rw [isExcluded_of_mem_forkCandidates hfork (hclear q hq)] at hx
    cases hx

/-- The rows an exchange of the client turns into tombstones. -/
theorem tombstones_of_exchange {s : Site} {ok : Bool} {now : ℤ} {path : Path}
    (hl : side (s.row path) = .live)
    (ht : side ((siteStep blake3 diffy cfg s (.exchange ok now)).row path) = .tomb) :
    ok = true ∧ ∃ baselines files, s.phase = .scanned baselines files ∧
      Tombstones s.server.db (exchangeCall cfg files now) path := by
  have hkept : ∀ s' : Site, s'.row path = s.row path → side (s'.row path) ≠ .tomb := by
    intro s' hrow htomb
    rw [hrow, hl] at htomb
    cases htomb
  rcases hp : s.phase with _ | ⟨baselines, files⟩ | c
  · exact absurd ht (hkept _ (by simp only [siteStep, hp]))
  · cases ok with
    | false => exact absurd ht (hkept _ (by simp [siteStep, hp, Site.row]))
    | true =>
        refine ⟨rfl, baselines, files, rfl, ?_⟩
        rw [siteStep_exchange blake3 diffy cfg hp] at ht
        by_contra hno
        refine hkept _ ?_ ht
        unfold Site.row MetaDb.getFileScoped
        rw [lookup_exchangeDb_files, if_neg hno]
  · exact absurd ht (hkept _ (by simp only [siteStep, hp]))

/-- **One step keeps excluded paths out.** -/
theorem keepsOut_of_rowsScanned {hist : List (Site × SiteEvent)} {s : Site} {e : SiteEvent}
    (hinv : SentIsScan blake3 cfg hist s) (htasks : TasksScanned s) (h : RowsScanned hist s e) :
    KeepsOut blake3 diffy cfg hist s e where
  disk := by
    rintro o rfl path hx
    exact disk_proceed_of_excluded blake3 diffy cfg htasks o hx
  rows := by
    rintro ok now rfl path hl ht
    obtain ⟨rfl, baselines, files, hp, htomb⟩ := tombstones_of_exchange blake3 diffy cfg hl ht
    obtain ⟨hclient, content, hserver, -⟩ := tombstones_iff.mp htomb
    have hrow : serverAt s.server.db path ≠ none := by
      intro hnone
      rw [hnone] at hserver
      cases hserver
    obtain ⟨hw, hx⟩ := scanned_of_serverAt hp h hrow
    obtain ⟨stat, disk, ⟨scan, hscan, rfl⟩, hfiles⟩ := files_of_rowsScanned blake3 cfg hp hinv h
    refine ⟨hx, scan, hscan, ?_⟩
    by_contra hfile
    rcases side_clientAt_snapshot blake3 .default cfg.nodeId ∅ stat scan.2 path with
      ⟨hlive, -⟩ | ⟨-, hno⟩
    · rw [← hfiles] at hlive
      exact hclient hlive
    · exact hno ⟨hw, hx, hfile⟩

end

/-! ## A repository below the share root -/

/-- A file of a repository that stands below the server's share root. -/
def gitPath : Path := [".git", "config"]

end DiskArcana.System
