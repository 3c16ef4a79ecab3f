import DiskArcana.System.CycleSteps

/-!
# A site is a view of the mesh

The mesh takes a client's turn as one event; a site takes it apart into the steps of
`RemoteSync::execute`. The two agree: a site sees the server and one node's directory of a world, and
every step of the site is matched by at most one event of the mesh (`ViewOf.matched_siteStep`). So every run
of a site is what one node sees of a run of the mesh (`exists_run_viewOf`), and what holds of the
server and a directory in every run of the mesh holds in every run of a site.
-/

namespace DiskArcana.System

open DiskArcana.Core DiskArcana.Lib DiskArcana.Server DiskArcana.Client

section

variable (blake3 : Bytes → Digest) (diffy : String → String → String → Except String String)
  (cfg : ShareConfig)

/-- The site is what the client's node sees of the world. -/
structure ViewOf (s : Site) (w : World) : Prop where
  server : w.server = s.server
  disk : w.disk cfg.nodeId = s.disk

/-- A step to the site `s'` is matched from the world `w`: by at most one event of the mesh. -/
def Matched (w : World) (s' : Site) : Prop :=
  ∃ es, es.length ≤ 1 ∧ ViewOf cfg s' (Trace.run (step blake3 noKey) w es)

variable {cfg} {s s' : Site} {w : World}

/-- A step that touches neither the server nor the directory is matched by nothing. -/
theorem ViewOf.matched_kept (h : ViewOf cfg s w) (hserver : s'.server = s.server)
    (hdisk : s'.disk = s.disk) : Matched blake3 cfg w s' :=
  ⟨[], Nat.zero_le _, h.server.trans hserver.symm, h.disk.trans hdisk.symm⟩

/-- Writing a file is an edit, whoever does it. -/
theorem ViewOf.matched_insert (h : ViewOf cfg s w) {path : Path} {bytes : Bytes}
    (hserver : s'.server = s.server) (hdisk : s'.disk = s.disk.insert path bytes) :
    Matched blake3 cfg w s' := by
  refine ⟨[.edit cfg.nodeId path bytes], le_rfl, h.server.trans hserver.symm, ?_⟩
  show Function.update w.disk cfg.nodeId ((w.disk cfg.nodeId).insert path bytes) cfg.nodeId = _
  rw [Function.update_self, h.disk, hdisk]

/-- Removing a file is a removal, whoever does it. -/
theorem ViewOf.matched_erase (h : ViewOf cfg s w) {path : Path} (hserver : s'.server = s.server)
    (hdisk : s'.disk = s.disk.erase path) : Matched blake3 cfg w s' := by
  refine ⟨[.remove cfg.nodeId path], le_rfl, h.server.trans hserver.symm, ?_⟩
  show Function.update w.disk cfg.nodeId ((w.disk cfg.nodeId).erase path) cfg.nodeId = _
  rw [Function.update_self, h.disk, hdisk]

/-- An event touches the directories or the server, not both. -/
theorem disk_or_server_step (w : World) (e : Event) :
    (step blake3 noKey w e).disk = w.disk ∨ (step blake3 noKey w e).server = w.server := by
  cases e with
  | exchange call =>
      rw [step_exchange]
      exact Or.inl rfl
  | upload call =>
      refine Or.inl ?_
      show (uploadStep blake3 w call).disk = w.disk
      unfold uploadStep
      split <;> rfl
  | download nodeId role includes entry ok =>
      refine Or.inr ?_
      show (downloadStep blake3 noKey w nodeId role includes entry ok).server = w.server
      unfold downloadStep
      split
      · split_ifs <;> rfl
      · rfl
  | applyDelete nodeId path ok => cases ok <;> exact Or.inr rfl
  | edit nodeId path bytes => exact Or.inr rfl
  | remove nodeId path => exact Or.inr rfl
  | _ => exact Or.inl rfl

/-- What an event does to the server is matched by the event, or by nothing when it is about a
directory. -/
theorem ViewOf.matched_serverStep (h : ViewOf cfg s w) (e : Event)
    (hserver : s'.server = serverStep blake3 s.server e) (hdisk : s'.disk = s.disk) :
    Matched blake3 cfg w s' := by
  have hstep : (step blake3 noKey w e).server = s'.server := by
    rw [server_step, h.server, hserver]
  rcases disk_or_server_step blake3 w e with hd | hs
  · refine ⟨[e], le_rfl, hstep, ?_⟩
    show (step blake3 noKey w e).disk cfg.nodeId = _
    rw [hd, h.disk, hdisk]
  · exact ⟨[], Nat.zero_le _, hs.symm.trans hstep, h.disk.trans hdisk.symm⟩

/-- A task is matched by an upload, an edit, a removal or nothing. -/
theorem ViewOf.matched_doTask (h : ViewOf cfg s w) (c : Cycle) (o : Outcome) (task : Task) :
    Matched blake3 cfg w (doTask blake3 diffy cfg s c o task) := by
  have hstep := taskStep_doTask blake3 diffy cfg s c o task
  generalize doTask blake3 diffy cfg s c o task = s' at hstep
  cases hstep with
  | skipped task hne hio => exact h.matched_kept blake3 rfl rfl
  | followed task next hfollows => exact h.matched_kept blake3 rfl rfl
  | savedDownloads => exact h.matched_kept blake3 rfl rfl
  | savedDeletes => exact h.matched_kept blake3 rfl rfl
  | sent entry bytes => exact h.matched_serverStep blake3 _ rfl rfl
  | brokenOff entry plaintext n hio => exact h.matched_insert blake3 rfl rfl
  | wrote entry plaintext hio => exact h.matched_insert blake3 rfl rfl
  | deleted entry => exact h.matched_erase blake3 rfl rfl
  | applied conflict localBytes remotePlain disk hwrite =>
      cases hwrite with
      | kept => exact h.matched_kept blake3 rfl rfl
      | served hr => exact h.matched_insert blake3 rfl rfl
      | brokenOff n hr => exact h.matched_insert blake3 rfl rfl
      | merged merged hclean => exact h.matched_insert blake3 rfl rfl
      | forked f hf hfree => exact h.matched_insert blake3 rfl rfl

/-- **Every step of a site is matched by at most one event of the mesh.** -/
theorem ViewOf.matched_siteStep (h : ViewOf cfg s w) (e : SiteEvent) :
    Matched blake3 cfg w (siteStep blake3 diffy cfg s e) := by
  cases e with
  | start loadOk scanOk stat =>
      rcases hp : s.phase with _ | ⟨baselines, files⟩ | c
      all_goals
        simp only [siteStep, hp]
        exact h.matched_kept blake3 rfl rfl
  | exchange ok now =>
      rcases hp : s.phase with _ | ⟨baselines, files⟩ | c
      · simp only [siteStep, hp]
        exact h.matched_kept blake3 rfl rfl
      · cases ok with
        | false =>
            simp only [siteStep, hp, Bool.false_eq_true, if_false]
            exact h.matched_kept blake3 rfl rfl
        | true =>
            rw [siteStep_exchange blake3 diffy cfg hp]
            refine h.matched_serverStep blake3 (.exchange (exchangeCall cfg files now)) ?_ rfl
            unfold serverStep
            rw [step_exchange]
            rfl
      · simp only [siteStep, hp]
        exact h.matched_kept blake3 rfl rfl
  | proceed o =>
      rcases hn : s.nextTask with _ | task
      · obtain ⟨hserver, hdisk⟩ := frame_proceed_of_nextTask_none blake3 diffy cfg hn o
        exact h.matched_kept blake3 hserver hdisk
      · obtain ⟨c, -, -, hstep⟩ := siteStep_proceed blake3 diffy cfg hn o
        rw [hstep]
        exact h.matched_doTask blake3 diffy _ o task
  | edit path bytes => exact h.matched_insert blake3 rfl rfl
  | remove path => exact h.matched_erase blake3 rfl rfl
  | others e =>
      simp only [siteStep]
      split_ifs
      · exact h.matched_kept blake3 rfl rfl
      · exact h.matched_serverStep blake3 e rfl rfl

/-- **Every run of a site is what one node sees of a run of the mesh.** -/
theorem exists_run_viewOf (h : ViewOf cfg s w) (es : List SiteEvent) :
    ∃ fs, ViewOf cfg (Trace.run (siteStep blake3 diffy cfg) s es)
      (Trace.run (step blake3 noKey) w fs) := by
  refine Trace.exists_run_of_step (fun s w e h => ?_) h es
  obtain ⟨fs, -, hfs⟩ := h.matched_siteStep blake3 diffy e
  exact ⟨fs, hfs⟩

/-- What holds of the server and the node's directory in every run of the mesh holds in every run of
a site. -/
theorem forall_run_of_viewOf (h : ViewOf cfg s w) {P : SyncServer → PathMap Bytes → Prop}
    (hP : ∀ fs, P (Trace.run (step blake3 noKey) w fs).server
      ((Trace.run (step blake3 noKey) w fs).disk cfg.nodeId)) (es : List SiteEvent) :
    P (Trace.run (siteStep blake3 diffy cfg) s es).server
      (Trace.run (siteStep blake3 diffy cfg) s es).disk := by
  obtain ⟨fs, hfs⟩ := exists_run_viewOf blake3 diffy h es
  have hmesh := hP fs
  rw [hfs.server, hfs.disk] at hmesh
  exact hmesh

end

/-- The client that has never synced is a view of the empty world. -/
example : ViewOf sampleShare emptySite emptyWorld := ⟨rfl, rfl⟩

end DiskArcana.System
