import DiskArcana.System.CycleSteps

/-!
# Conflict copies and conflict reports

A conflict leaves no baseline behind, so the next exchange finds it again, reports it again, and the
client writes one more conflict copy of the same content (`conflict_forked_again`). What holds is
that a copy is paid for by a report: along any run of a client, the conflict copies of a path with a
given content are at most the exchanges that reported that conflict (`forks_le_reports`).

The balance is the number of reports still in the queue of the cycle under way.
-/

namespace DiskArcana.System

open DiskArcana.Core DiskArcana.Lib DiskArcana.Lib.Trace DiskArcana.Server DiskArcana.Client

/-! ## Reports -/

/-- A conflict message is about a path whose server content has a given hash. The all-zero hash
stands for any content, since the client checks nothing against it. -/
def reportsFor (path : Path) (hash : Digest) (c : ConflictMessage) : Bool :=
  decide (c.path = path) && c.remoteFile.any fun entry =>
    decide (digestOfBytes entry.contentHash = hash) ||
      decide (digestOfBytes entry.contentHash = zeroDigest)

/-- The conflicts of an answer are about different paths. -/
theorem conflicts_nodup (vaultId : String) (db : MetaDb) (call : ExchangeCall) :
    ((exchangeResponse vaultId db call).conflicts.map ConflictMessage.path).Nodup := by
  have hplan : ∀ a : SyncAction,
      ((planAction vaultId call (serverFiles db) (clientFiles call.files) a).conflicts.map
        ConflictMessage.path).Sublist [a.path] := by
    intro a
    unfold planAction
    by_cases he : isSyncEphemeralMarker a.path = true
    · rw [if_pos he]
      exact List.nil_sublist _
    · rw [if_neg he]
      by_cases hr : call.role = some .receiveOnly
      · cases a.action <;> simp [hr]
      · cases a.action <;> simp [hr]
  have hsub : ∀ actions : List SyncAction,
      (((actions.map (planAction vaultId call (serverFiles db) (clientFiles call.files))).flatMap
        Plan.conflicts).map ConflictMessage.path).Sublist (actions.map SyncAction.path) := by
    intro actions
    induction actions with
    | nil => exact List.Sublist.refl _
    | cons a actions ih =>
        rw [List.map_cons, List.flatMap_cons, List.map_append, List.map_cons]
        exact (hplan a).append ih
  exact (exchangeActions_nodup db call).sublist (hsub (exchangeActions db call))

/-- An answer reports a conflict at most once. -/
theorem countP_reportsFor_le_one (vaultId : String) (db : MetaDb) (call : ExchangeCall)
    (path : Path) (hash : Digest) :
    (exchangeResponse vaultId db call).conflicts.countP (reportsFor path hash) ≤ 1 := by
  have hone := List.nodup_iff_count_le_one.mp (conflicts_nodup vaultId db call) path
  rw [List.count, List.countP_map] at hone
  refine le_trans (List.countP_mono_left ?_) hone
  intro c _ hc
  unfold reportsFor at hc
  simpa using (Bool.and_eq_true_iff.mp hc).1

section

variable (blake3 : Bytes → Digest) (diffy : String → String → String → Except String String)
  (cfg : ShareConfig) (path : Path) (hash : Digest)

/-! ## The balance -/

/-- The step is an exchange of the client whose answer reports the conflict. -/
def reportsConflict (x : Site × SiteEvent) : Bool :=
  match x.1.phase, x.2 with
  | .scanned _ files, .exchange true now =>
    (exchangeResponse x.1.server.vaultId x.1.server.db (exchangeCall cfg files now)).conflicts.any
      (reportsFor path hash)
  | _, _ => false

/-- The step writes a conflict copy of the path with the given content.
Source: `sync_loop/wire.rs`, `execute` (conflict phase) -/
def writesFork (x : Site × SiteEvent) : Bool :=
  match x.1.phase, x.2 with
  | .working c, .proceed o =>
    match c.tasks with
    | .applyConflict conflict localBytes remotePlain :: _ =>
      !cfg.receiveOnly && decide (conflict.path = path) && decide (blake3 remotePlain = hash) &&
        match applyConflict diffy x.1.disk conflict.path (baseBytes x.1 c conflict.path) localBytes
            remotePlain cfg.nodeId o.now o.ioOk with
        | .ok (.forked _, _) => true
        | _ => false
    | _ => false
  | _, _ => false

/-- The task may still end in a conflict copy of the path with the given content. -/
def mayFork : Task → Bool
  | .readConflict conflict | .fetchConflict conflict _ => reportsFor path hash conflict
  | .applyConflict conflict _ remotePlain =>
    decide (conflict.path = path) && decide (blake3 remotePlain = hash)
  | _ => false

/-- The reports that are still to be worked off. -/
def openReports (s : Site) : ℕ := s.tasks.countP (mayFork blake3 path hash)

/-- What the client fetches for a conflict has the hash of the server's entry, unless that is
all-zero. -/
theorem of_fetchRemote {server : SyncServer} {o : Outcome} {conflict : ConflictMessage}
    {remotePlain : Bytes} (h : fetchRemote blake3 cfg server o conflict = some remotePlain) :
    ∃ entry, conflict.remoteFile = some entry ∧
      (digestOfBytes entry.contentHash = zeroDigest ∨
        digestOfBytes entry.contentHash = blake3 remotePlain) := by
  unfold fetchRemote at h
  obtain ⟨wire, -, hrest⟩ := Option.bind_eq_some_iff.mp h
  obtain ⟨entry, hentry, hplain⟩ := Option.bind_eq_some_iff.mp hrest
  refine ⟨entry, hentry, ?_⟩
  by_cases hzero : digestOfBytes entry.contentHash = zeroDigest
  · exact Or.inl hzero
  · refine Or.inr ?_
    unfold materializeDownloadedBytes at hplain
    rcases hn : entry.encryptionNonce with _ | ⟨b, nonce⟩
    · rw [hn] at hplain
      exact (of_fromWireBytes blake3 hzero hplain).symm
    · -- without a key nothing is decrypted
      rw [hn] at hplain
      unfold fromWireBytes noKey at hplain
      simp at hplain

/-- A task that takes over from another can do no more than it. -/
theorem mayFork_of_follows {s : Site} {o : Outcome} {task next : Task}
    (h : Follows blake3 cfg s o task next) (hn : mayFork blake3 path hash next = true) :
    mayFork blake3 path hash task = true := by
  cases h with
  | upload entry bytes => cases hn
  | download entry plaintext hfetch => cases hn
  | read conflict localBytes hread => exact hn
  | fetch conflict localBytes remotePlain hfetch =>
      obtain ⟨entry, hentry, hcontent⟩ := of_fetchRemote blake3 cfg hfetch
      simp only [mayFork, Bool.and_eq_true, decide_eq_true_eq] at hn
      obtain ⟨hpath, hhash⟩ := hn
      show reportsFor path hash conflict = true
      unfold reportsFor
      rw [hentry, Option.any_some]
      rcases hcontent with hcontent | hcontent <;> simp [hpath, hcontent, hhash]

/-- A conflict copy is written for a task that may write it. -/
theorem mayFork_of_writesFork {s : Site} {e : SiteEvent}
    (h : writesFork blake3 diffy cfg path hash (s, e) = true) :
    ∃ o task, e = .proceed o ∧ s.nextTask = some task ∧ mayFork blake3 path hash task = true ∧
      ∀ next, ¬ Follows blake3 cfg s o task next := by
  unfold writesFork at h
  split at h
  · rename_i c o hp he
    split at h
    · rename_i conflict localBytes remotePlain tasks ht
      simp only [Bool.and_eq_true] at h
      have hnext : s.nextTask = some (.applyConflict conflict localBytes remotePlain) := by
        change s.phase = .working c at hp
        unfold Site.nextTask
        rw [hp]
        show c.tasks.head? = _
        rw [ht]
        rfl
      refine ⟨o, _, he, hnext, ?_, ?_⟩
      · unfold mayFork
        rw [Bool.and_eq_true]
        exact ⟨h.1.1.2, h.1.2⟩
      · intro next hfollows
        cases hfollows
    · cases h
  · cases h

/-- An answer puts at most one report of a conflict into the queue, when it reports it. -/
theorem countP_tasksOf_le (vaultId : String) (db : MetaDb) (call : ExchangeCall) :
    (tasksOf cfg (exchangeResponse vaultId db call)).countP (mayFork blake3 path hash) ≤
      ((exchangeResponse vaultId db call).conflicts.any (reportsFor path hash)).toNat := by
  have hcount : (tasksOf cfg (exchangeResponse vaultId db call)).countP
      (mayFork blake3 path hash) =
      (exchangeResponse vaultId db call).conflicts.countP (reportsFor path hash) := by
    have hnone : ∀ {β : Type} (l : List β) (f : β → Task),
        (∀ b, mayFork blake3 path hash (f b) = false) →
          (l.map f).countP (mayFork blake3 path hash) = 0 := by
      intro β l f hf
      rw [List.countP_map, List.countP_eq_zero]
      intro b _
      simp [hf b]
    unfold tasksOf
    rw [List.countP_append, List.countP_append, List.countP_cons, List.countP_append,
      List.countP_append, hnone _ Task.download fun _ => rfl, hnone _ Task.delete fun _ => rfl,
      List.countP_map]
    have huploads : (if cfg.receiveOnly = true then []
        else List.map Task.upload (exchangeResponse vaultId db call).toUpload).countP
          (mayFork blake3 path hash) = 0 := by
      split_ifs
      · rfl
      · exact hnone _ _ fun _ => rfl
    rw [huploads]
    simp [mayFork, Function.comp_def]
  rw [hcount]
  rcases hany : (exchangeResponse vaultId db call).conflicts.any (reportsFor path hash) with _ | _
  · rw [List.any_eq_false] at hany
    exact le_of_eq (List.countP_eq_zero.mpr hany)
  · exact countP_reportsFor_le_one vaultId db call path hash

/-- Without a task there is no conflict copy. -/
theorem writesFork_eq_false {s : Site} {e : SiteEvent}
    (h : ∀ o task, e = .proceed o → s.nextTask ≠ some task) :
    writesFork blake3 diffy cfg path hash (s, e) = false := by
  by_contra hw
  rw [Bool.not_eq_false] at hw
  obtain ⟨o, task, he, hn, -⟩ := mayFork_of_writesFork blake3 diffy cfg path hash hw
  exact h o task he hn

/-- A step that leaves the queue alone, or empties it, and writes no conflict copy keeps the
balance. -/
theorem openReports_le_of_tasks {s s' : Site} (h : s'.tasks = s.tasks ∨ s'.tasks = []) :
    openReports blake3 path hash s' ≤ openReports blake3 path hash s := by
  unfold openReports
  rcases h with h | h
  · rw [h]
  · rw [h]
    exact Nat.zero_le _

theorem countP_mayFork_cons (task : Task) (rest : List Task) :
    (task :: rest).countP (mayFork blake3 path hash) =
      rest.countP (mayFork blake3 path hash) + (mayFork blake3 path hash task).toNat := by
  rw [List.countP_cons]
  cases mayFork blake3 path hash task <;> rfl

/-- A task that is done is worth one report exactly when it may end in a conflict copy; what follows
it is worth no more. -/
theorem openReports_proceed {s : Site} {task : Task} (hn : s.nextTask = some task) (o : Outcome) :
    (writesFork blake3 diffy cfg path hash (s, .proceed o)).toNat +
        openReports blake3 path hash (siteStep blake3 diffy cfg s (.proceed o)) ≤
      openReports blake3 path hash s := by
  obtain ⟨rest, hold, hnew⟩ := tasks_proceed blake3 diffy cfg hn o
  unfold openReports
  rw [hold, countP_mayFork_cons]
  rcases hw : writesFork blake3 diffy cfg path hash (s, .proceed o) with _ | _
  · rcases hnew with hnew | ⟨next, hfollows, hnew⟩
    · rw [hnew, Bool.toNat_false]
      omega
    · have hle : (mayFork blake3 path hash next).toNat ≤ (mayFork blake3 path hash task).toNat := by
        rcases hnext : mayFork blake3 path hash next with _ | _
        · exact Nat.zero_le _
        · rw [mayFork_of_follows blake3 cfg path hash hfollows hnext]
      rw [hnew, countP_mayFork_cons, Bool.toNat_false]
      omega
  · obtain ⟨o', task', he, hn', hmay, hlast⟩ := mayFork_of_writesFork blake3 diffy cfg path hash hw
    cases he
    rw [hn] at hn'
    cases hn'
    rcases hnew with hnew | ⟨next, hfollows, -⟩
    · rw [hnew, hmay]
      omega
    · exact absurd hfollows (hlast next)

/-- **A step keeps the balance**: a conflict copy takes one report off the queue, and only an
exchange that reports the conflict puts one there. -/
theorem openReports_step (s : Site) (e : SiteEvent) :
    (writesFork blake3 diffy cfg path hash (s, e)).toNat +
        openReports blake3 path hash (siteStep blake3 diffy cfg s e) ≤
      openReports blake3 path hash s + (reportsConflict cfg path hash (s, e)).toNat := by
  have hkept : ∀ s' : Site, (s'.tasks = s.tasks ∨ s'.tasks = []) →
      (∀ o task, e = .proceed o → s.nextTask ≠ some task) →
        (writesFork blake3 diffy cfg path hash (s, e)).toNat + openReports blake3 path hash s' ≤
          openReports blake3 path hash s + (reportsConflict cfg path hash (s, e)).toNat := by
    intro s' htasks hno
    rw [writesFork_eq_false blake3 diffy cfg path hash hno, Bool.toNat_false, Nat.zero_add]
    exact Nat.le_add_right_of_le (openReports_le_of_tasks blake3 path hash htasks)
  cases e with
  | start loadOk scanOk stat =>
      apply hkept _ _ (by intro o task he; cases he)
      rcases hp : s.phase with _ | ⟨baselines, files⟩ | c
      · exact Or.inr (by simp only [siteStep, hp, Site.tasks])
      · exact Or.inl (by simp only [siteStep, hp])
      · exact Or.inl (by simp only [siteStep, hp])
  | exchange ok now =>
      rcases hp : s.phase with _ | ⟨baselines, files⟩ | c
      · exact hkept _ (Or.inl (by simp only [siteStep, hp])) (by intro o task he; cases he)
      · cases ok with
        | false =>
            apply hkept _ _ (by intro o task he; cases he)
            exact Or.inr (by simp [siteStep, hp, Site.tasks])
        | true =>
            rw [writesFork_eq_false blake3 diffy cfg path hash (by intro o task he; cases he),
              siteStep_exchange blake3 diffy cfg hp, Bool.toNat_false, Nat.zero_add]
            have hearned := countP_tasksOf_le blake3 cfg path hash s.server.vaultId s.server.db
              (exchangeCall cfg files now)
            have hreport : reportsConflict cfg path hash (s, .exchange true now) =
                (exchangeResponse s.server.vaultId s.server.db
                  (exchangeCall cfg files now)).conflicts.any (reportsFor path hash) := by
              unfold reportsConflict
              rw [hp]
            rw [hreport]
            exact le_trans hearned (Nat.le_add_left _ _)
      · exact hkept _ (Or.inl (by simp only [siteStep, hp])) (by intro o task he; cases he)
  | proceed o =>
      rcases hn : s.nextTask with _ | task
      · apply hkept _ _ (by intro o task _; rw [hn]; simp)
        rcases siteStep_proceed_of_nextTask_none blake3 diffy cfg hn o with hstep | hstep
        · exact Or.inl (by rw [hstep])
        · exact Or.inr (by rw [hstep]; rfl)
      · exact Nat.le_add_right_of_le (openReports_proceed blake3 diffy cfg path hash hn o)
  | edit q bytes => exact hkept _ (Or.inl rfl) (by intro o task he; cases he)
  | remove q => exact hkept _ (Or.inl rfl) (by intro o task he; cases he)
  | others e =>
      refine hkept _ (Or.inl ?_) (by intro o task he; cases he)
      simp only [siteStep]
      split_ifs <;> rfl

/-! ## Runs -/

theorem openReports_of_tasks_nil {s : Site} (h : s.tasks = []) :
    openReports blake3 path hash s = 0 := by
  unfold openReports
  rw [h]
  rfl

/-- An exchange starts with an empty queue. -/
theorem openReports_of_reportsConflict {s : Site} {e : SiteEvent}
    (h : reportsConflict cfg path hash (s, e) = true) : openReports blake3 path hash s = 0 := by
  apply openReports_of_tasks_nil
  unfold reportsConflict at h
  unfold Site.tasks
  split at h
  · rename_i baselines files now hp _
    change s.phase = .scanned baselines files at hp
    rw [hp]
  · cases h

/-- No more than one report of a conflict is open at a time. -/
theorem openReports_run_le_one {s : Site} (h : openReports blake3 path hash s ≤ 1)
    (es : List SiteEvent) :
    openReports blake3 path hash (run (siteStep blake3 diffy cfg) s es) ≤ 1 := by
  induction es generalizing s with
  | nil => exact h
  | cons e es ih =>
      apply ih
      have hstep := openReports_step blake3 diffy cfg path hash s e
      rcases hr : reportsConflict cfg path hash (s, e) with _ | _
      · rw [hr, Bool.toNat_false] at hstep
        omega
      · rw [hr, Bool.toNat_true, openReports_of_reportsConflict blake3 cfg path hash hr] at hstep
        omega

/-- **What a conflict copy is**: one new file, under a conflict name that was free, with the content
in question. Nothing else in the directory changes. -/
theorem of_writesFork {s : Site} {e : SiteEvent}
    (h : writesFork blake3 diffy cfg path hash (s, e) = true) :
    ∃ o f bytes, e = .proceed o ∧ f ∈ forkCandidates path cfg.nodeId o.now ∧
      s.disk.lookup f = none ∧ blake3 bytes = hash ∧
      (siteStep blake3 diffy cfg s e).disk = s.disk.insert f bytes := by
  unfold writesFork at h
  split at h
  · rename_i c o hp he
    change s.phase = .working c at hp
    change e = .proceed o at he
    split at h
    · rename_i conflict localBytes remotePlain tasks ht
      simp only [Bool.and_eq_true, Bool.not_eq_true', decide_eq_true_eq] at h
      obtain ⟨⟨⟨hr, hpath⟩, hhash⟩, hout⟩ := h
      split at hout
      · rename_i f disk happly
        rcases applyConflict_cases diffy happly with ⟨hmerged, -⟩ | ⟨f', -, hf, hfree, hdisk⟩
        · cases hmerged
        · rw [hpath] at hf
          refine ⟨o, f', remotePlain, he, hf, hfree, hhash, ?_⟩
          rw [he, ← hdisk]
          simp only [siteStep, hp, ht, doTask, conflictDisk, hr, Bool.false_eq_true, if_false]
          have hbase : baseBytes s { c with tasks := tasks } conflict.path =
              baseBytes s c conflict.path := rfl
          rw [hbase, happly]
      · cases hout
    · cases h
  · cases h

/-- **A further conflict copy needs a further report.** Once a client has written a conflict copy of
a path with some content, any later run writes at most as many copies of it as there are exchanges
in that run that report the conflict again; each is a new file under a conflict name that was free,
and leaves the rest of the directory alone.
Source: `sync_loop/wire.rs`, `execute` (conflict phase), `conflict_writer.rs`, `write_fork` -/
theorem forks_le_reports (s : Site) (hs : s.phase = .idle) (pre post : List SiteEvent)
    (e : SiteEvent)
    (hfork : writesFork blake3 diffy cfg path hash
      (run (siteStep blake3 diffy cfg) s pre, e) = true) :
    (history (siteStep blake3 diffy cfg) (run (siteStep blake3 diffy cfg) s (pre ++ [e])) post).countP
        (writesFork blake3 diffy cfg path hash) ≤
      (history (siteStep blake3 diffy cfg) (run (siteStep blake3 diffy cfg) s (pre ++ [e]))
        post).countP (reportsConflict cfg path hash) ∧
    ∀ x ∈ history (siteStep blake3 diffy cfg) (run (siteStep blake3 diffy cfg) s (pre ++ [e])) post,
      writesFork blake3 diffy cfg path hash x = true →
        ∃ o f bytes, x.2 = .proceed o ∧ f ∈ forkCandidates path cfg.nodeId o.now ∧
          x.1.disk.lookup f = none ∧ blake3 bytes = hash ∧
          (siteStep blake3 diffy cfg x.1 x.2).disk = x.1.disk.insert f bytes := by
  refine ⟨?_, fun x _ hx => of_writesFork blake3 diffy cfg path hash hx⟩
  have hone : openReports blake3 path hash (run (siteStep blake3 diffy cfg) s pre) ≤ 1 := by
    apply openReports_run_le_one
    rw [openReports_of_tasks_nil]
    · exact Nat.zero_le _
    · unfold Site.tasks
      rw [hs]
  have hnone : openReports blake3 path hash (run (siteStep blake3 diffy cfg) s (pre ++ [e])) = 0 := by
    obtain ⟨o, -, -, he, -⟩ := of_writesFork blake3 diffy cfg path hash hfork
    have hstep := openReports_step blake3 diffy cfg path hash
      (run (siteStep blake3 diffy cfg) s pre) e
    have hquiet : reportsConflict cfg path hash (run (siteStep blake3 diffy cfg) s pre, e) =
        false := by
      unfold reportsConflict
      rw [he]
      split
      · rename_i hx
        cases hx
      · rfl
    rw [hfork, hquiet, Bool.toNat_true, Bool.toNat_false] at hstep
    rw [run_snoc]
    omega
  have hbalance := countP_history_le (openReports_step blake3 diffy cfg path hash)
    (run (siteStep blake3 diffy cfg) s (pre ++ [e])) post
  rw [hnone] at hbalance
  omega

end

/-! ## One conflict, two copies -/

/-- The client writes `a` where the server has `b`, and its first cycle goes as far as the conflict
copy. -/
def firstFork : List SiteEvent :=
  indexed ["f"] [98] ++ .edit ["f"] [97] :: startOk :: .exchange true 100 :: proceeds 3

/-- The rest of the first cycle, and a second one. -/
def secondCycle : List SiteEvent := proceeds 2 ++ startOk :: .exchange true 200 :: proceeds 8

/-- The bound at the first two cycles. -/
theorem forks_le_reports_second_cycle :
    emptySite.phase = .idle ∧
      writesFork sampleBlake3 sampleDiffy sampleShare ["f"] (sampleBlake3 [98])
        (run (siteStep sampleBlake3 sampleDiffy sampleShare) emptySite firstFork,
          .proceed allOk) = true ∧
      (history (siteStep sampleBlake3 sampleDiffy sampleShare)
          (run (siteStep sampleBlake3 sampleDiffy sampleShare) emptySite
            (firstFork ++ [.proceed allOk])) secondCycle).countP
        (writesFork sampleBlake3 sampleDiffy sampleShare ["f"] (sampleBlake3 [98])) ≤
      (history (siteStep sampleBlake3 sampleDiffy sampleShare)
          (run (siteStep sampleBlake3 sampleDiffy sampleShare) emptySite
            (firstFork ++ [.proceed allOk])) secondCycle).countP
        (reportsConflict sampleShare ["f"] (sampleBlake3 [98])) := by
  have hfork : writesFork sampleBlake3 sampleDiffy sampleShare ["f"] (sampleBlake3 [98])
      (run (siteStep sampleBlake3 sampleDiffy sampleShare) emptySite firstFork, .proceed allOk) =
        true := by decide +kernel
  exact ⟨rfl, hfork, (forks_le_reports sampleBlake3 sampleDiffy sampleShare ["f"]
    (sampleBlake3 [98]) emptySite rfl firstFork secondCycle (.proceed allOk) hfork).1⟩

/-- **The same conflict is forked again**: after the first conflict copy of `f`, a second cycle, with
no edit by anyone in between, writes a second copy with the same content. -/
theorem conflict_forked_again :
    writesFork sampleBlake3 sampleDiffy sampleShare ["f"] (sampleBlake3 [98])
        (run (siteStep sampleBlake3 sampleDiffy sampleShare) emptySite firstFork,
          .proceed allOk) = true ∧
      (∀ e ∈ secondCycle, (∃ o, e = .proceed o) ∨ (∃ now, e = .exchange true now) ∨
        e = startOk) ∧
      (history (siteStep sampleBlake3 sampleDiffy sampleShare)
          (run (siteStep sampleBlake3 sampleDiffy sampleShare) emptySite
            (firstFork ++ [.proceed allOk])) secondCycle).countP
        (writesFork sampleBlake3 sampleDiffy sampleShare ["f"] (sampleBlake3 [98])) = 1 := by
  refine ⟨by decide +kernel, ?_, by decide +kernel⟩
  intro e he
  unfold secondCycle proceeds at he
  simp only [List.mem_append, List.mem_cons, List.mem_replicate] at he
  rcases he with ⟨-, rfl⟩ | rfl | rfl | ⟨-, rfl⟩
  · exact Or.inl ⟨allOk, rfl⟩
  · exact Or.inr (Or.inr rfl)
  · exact Or.inr (Or.inl ⟨200, rfl⟩)
  · exact Or.inl ⟨allOk, rfl⟩

end DiskArcana.System
