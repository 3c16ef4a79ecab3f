import DiskArcana.Client.Config
import DiskArcana.Client.SyncLoop
import DiskArcana.Lib.Table
import DiskArcana.Lib.Trace

/-!
# Reloading the configuration of a running daemon

Three copies of the shares: the active configuration, which a reload swaps; the list that `/status`
shows, which a consumer rebuilds after a swap; and what each share's task took out of the configuration
when the daemon started. A reload changes the first two only, so what runs and what is shown stay
together as long as reloads leave the shares as they were (`reload_law`).

`parse` is `toml::from_str`.
-/

namespace DiskArcana.Client.Reload

open DiskArcana.Lib

/-- The name, the path and the direction of a share. -/
structure Descriptor where
  name : List Char
  path : List Char
  direction : Direction
  deriving DecidableEq

/-- What `/status` shows of a share.
Source: `rest_api/mod.rs`, `ShareSnapshot` -/
structure ShareSnapshot where
  share : Descriptor
  state : LoopState
  lastSuccessAt : Option ℤ
  lastError : Option (List Char)
  bytesSentSession : ℕ
  bytesReceivedSession : ℕ
  pendingLocalChanges : ℕ

/-- An iteration that is under way: its scan root, its direction and its tenant.
Source: `daemon.rs`, `build_remote_sync_for_share` -/
structure Iteration where
  path : List Char
  direction : Direction
  tenantId : Option (List Char)

/-- The task of a share.
Source: `daemon.rs`, `run_start` (per-share tasks) -/
structure ShareTask where
  share : Descriptor
  lastSuccessAt : Option ℤ
  running : Option Iteration

/-- Source: `config/reload.rs`, `apply_reload` -/
inductive ReloadError where
  | read
  | parse
  | validation (error : ValidationError)

structure Daemon where
  /-- The contents of `disk.toml`; `none` when it cannot be read. -/
  file : Option (List Char)
  /-- Source: `config/reload.rs`, `ConfigSnapshot` -/
  config : DiskConfig
  /-- Source: `config/reload.rs`, `ReloadStatus` -/
  reloadStatus : Option ReloadError
  /-- The consumer of swaps waits for them. -/
  subscribed : Bool
  /-- There has been a swap that the consumer has not seen. -/
  changed : Bool
  shares : List ShareSnapshot
  tasks : List ShareTask

/-- What happens to the daemon. -/
inductive Event where
  /-- Someone writes or removes `disk.toml`. -/
  | write (contents : Option (List Char))
  /-- The watcher sees a change of the file, or `POST /config/reload`. -/
  | applyReload
  /-- The consumer starts. -/
  | subscribe
  /-- The consumer wakes. -/
  | reconcile
  /-- A call of `update_share`. -/
  | updateShare (name : List Char) (snapshot : ShareSnapshot)
  /-- A task cannot reach the server. -/
  | unreachable (task : ℕ) (error : List Char)
  /-- A task begins an iteration. -/
  | begin_ (task : ℕ)
  /-- It ends: the outcome, and what the loop says then. -/
  | finish (task : ℕ) (outcome : Option (Except LoopError Unit)) (now : ℤ) (state : LoopState)
    (lastError : Option (List Char))

/-! ## Shares -/

/-- The share as it is configured.
Source: `daemon.rs`, `run_start` and `build_share_snapshots` -/
def descriptor (cfg : DiskConfig) (share : ShareSection) : Descriptor where
  name := share.name
  path := share.path
  direction := (share.effectiveDirection cfg.node.intendedDirection).getD .bidirectional

/-- The shares of a configuration. -/
def descriptors (cfg : DiskConfig) : List Descriptor := cfg.shares.map (descriptor cfg)

/-- Source: `daemon.rs`, `build_live_snapshot` -/
def buildLiveSnapshot (share : Descriptor) (state : LoopState) (lastSuccessAt : Option ℤ)
    (lastError : Option (List Char)) : ShareSnapshot :=
  ⟨share, state, lastSuccessAt, lastError, 0, 0, 0⟩

/-- Source: `daemon.rs`, `build_share_snapshots` -/
def buildShareSnapshots (cfg : DiskConfig) : List ShareSnapshot :=
  (descriptors cfg).map fun share => buildLiveSnapshot share .idle none none

/-- The snapshot with the live fields of another. -/
def ShareSnapshot.withLive (s live : ShareSnapshot) : ShareSnapshot := { live with share := s.share }

/-- The first share of the name gets the live fields.
Source: `rest_api/mod.rs`, `update_share` -/
def updateShare (name : List Char) (snapshot : ShareSnapshot) : List ShareSnapshot → List ShareSnapshot
  | [] => []
  | s :: shares =>
    if s.share.name = name then s.withLive snapshot :: shares
    else s :: updateShare name snapshot shares

/-- Source: `rest_api/mod.rs`, `reconcile_shares` -/
def reconcileShares (current newShares : List ShareSnapshot) : List ShareSnapshot :=
  let live := Table.collect (fun s => s.share.name) current
  newShares.map fun s =>
    match live.lookup s.share.name with
    | some old => s.withLive old
    | none => s

/-! ## Steps -/

/-- The daemon that starts with a configuration.
Source: `daemon.rs`, `run_start` -/
def Daemon.start (file : Option (List Char)) (cfg : DiskConfig) : Daemon where
  file := file
  config := cfg
  reloadStatus := none
  subscribed := false
  changed := false
  shares := buildShareSnapshots cfg
  tasks := (descriptors cfg).map fun share => ⟨share, none, none⟩

section

variable (parse : List Char → Option DiskConfig)

/-- What a reload finds.
Source: `config/reload.rs`, `apply_reload` -/
def loaded (file : Option (List Char)) : Except ReloadError DiskConfig :=
  match file with
  | none => .error .read
  | some raw =>
    match parse raw with
    | none => .error .parse
    | some cfg =>
      match validate cfg with
      | .error e => .error (.validation e)
      | .ok () => .ok cfg

/-- Source: `config/reload.rs`, `apply_reload` and `swap` -/
def Daemon.applyReload (d : Daemon) : Daemon :=
  match loaded parse d.file with
  | .error e => { d with reloadStatus := some e }
  | .ok cfg => { d with config := cfg, changed := true, reloadStatus := none }

/-- Source: `daemon.rs`, `run_start` (reload consumer) -/
def Daemon.reconcile (d : Daemon) : Daemon :=
  if d.subscribed && d.changed then
    { d with shares := reconcileShares d.shares (buildShareSnapshots d.config), changed := false }
  else d

/-- A task begins an iteration: `/status` says so, and the iteration takes the tenant of the active
configuration.
Source: `daemon.rs`, `run_start` (per-share tasks) -/
def Daemon.begin_ (d : Daemon) (i : ℕ) : Daemon :=
  match d.tasks[i]? with
  | none => d
  | some task =>
    if task.running.isSome then d
    else
      { d with
        shares := updateShare task.share.name
          (buildLiveSnapshot task.share .syncing task.lastSuccessAt none) d.shares
        tasks := d.tasks.set i { task with
          running := some ⟨task.share.path, task.share.direction, d.config.node.tenantId⟩ } }

/-- Source: `daemon.rs`, `run_start` (per-share tasks) -/
def Daemon.finish (d : Daemon) (i : ℕ) (outcome : Option (Except LoopError Unit)) (now : ℤ)
    (state : LoopState) (lastError : Option (List Char)) : Daemon :=
  match d.tasks[i]? with
  | none => d
  | some task =>
    if task.running.isNone then d
    else
      let lastSuccessAt := match outcome with
        | some (.ok ()) => some now
        | _ => task.lastSuccessAt
      { d with
        shares := updateShare task.share.name
          (buildLiveSnapshot task.share state lastSuccessAt lastError) d.shares
        tasks := d.tasks.set i { task with lastSuccessAt, running := none } }

/-- Source: `daemon.rs`, `run_start` (connect retry) -/
def Daemon.unreachable (d : Daemon) (i : ℕ) (error : List Char) : Daemon :=
  match d.tasks[i]? with
  | none => d
  | some task =>
    { d with
      shares := updateShare task.share.name
        (buildLiveSnapshot task.share .serverUnreachable none (some error)) d.shares }

/-- One event. -/
def step (d : Daemon) : Event → Daemon
  | .write contents => { d with file := contents }
  | .applyReload => d.applyReload parse
  | .subscribe => if d.subscribed then d else { d with subscribed := true, changed := false }
  | .reconcile => d.reconcile
  | .updateShare name snapshot => { d with shares := updateShare name snapshot d.shares }
  | .unreachable i error => d.unreachable i error
  | .begin_ i => d.begin_ i
  | .finish i outcome now state lastError => d.finish i outcome now state lastError


/-! ## The law -/

/-- The shares that `/status` shows. -/
def Daemon.shown (d : Daemon) : List Descriptor := d.shares.map ShareSnapshot.share

/-- An iteration of a task is under way on this path and in this direction. -/
def Runs (d : Daemon) (i : ℕ) (share : Descriptor) : Prop :=
  ∃ task iteration, d.tasks[i]? = some task ∧ task.running = some iteration ∧
    share = ⟨task.share.name, iteration.path, iteration.direction⟩

/-- What `/status` shows is what runs, now or from the task's next iteration on. -/
structure Agrees (d : Daemon) : Prop where
  running : ∀ i share, Runs d i share → share ∈ d.shown
  shown : ∀ share ∈ d.shown, ∃ i, Runs (d.begin_ i) i share

/-- What one event does to the three copies. -/
structure StepLaw (d : Daemon) (e : Event) : Prop where
  /-- An invalid file leaves the active configuration as it was. -/
  invalid : e = .applyReload → ∀ err, loaded parse d.file = .error err →
    (step parse d e).config = d.config
  /-- An iteration that starts is one of the active configuration. -/
  started : ∀ i share, e = .begin_ i → (∀ share', ¬ Runs d i share') →
    Runs (step parse d e) i share → share ∈ descriptors d.config
  /-- A share that survives the reload keeps its last success and its last error. -/
  kept : e = .reconcile → ∀ s ∈ d.shares, ∀ s' ∈ (step parse d e).shares,
    s'.share.name = s.share.name → s'.lastSuccessAt = s.lastSuccessAt ∧ s'.lastError = s.lastError
  agrees : Agrees (step parse d e)

/-- Status, configuration and running loops agree along a run. -/
def Law (d : Daemon) (es : List Event) : Prop :=
  Agrees d ∧ Trace.Always (step parse) (fun _ d e => StepLaw parse d e) d es

/-- Two configurations have the same shares, on the same paths and in the same directions. -/
def SameShares (cfg cfg' : DiskConfig) : Prop :=
  ∀ share, share ∈ descriptors cfg ↔ share ∈ descriptors cfg'

/-- A reload, when it succeeds, finds the shares that the daemon started with. -/
def KeepsShares (cfg₀ : DiskConfig) (d : Daemon) (e : Event) : Prop :=
  e = .applyReload → ∀ cfg, loaded parse d.file = .ok cfg → SameShares cfg cfg₀

end

/-! ## What each operation changes -/

@[simp] theorem buildLiveSnapshot_share (share : Descriptor) (state : LoopState)
    (lastSuccessAt : Option ℤ) (lastError : Option (List Char)) :
    (buildLiveSnapshot share state lastSuccessAt lastError).share = share := rfl

@[simp] theorem map_share_buildShareSnapshots (cfg : DiskConfig) :
    (buildShareSnapshots cfg).map ShareSnapshot.share = descriptors cfg := by
  simp [buildShareSnapshots, Function.comp_def]

@[simp] theorem map_share_updateShare (name : List Char) (snapshot : ShareSnapshot)
    (shares : List ShareSnapshot) :
    (updateShare name snapshot shares).map ShareSnapshot.share = shares.map ShareSnapshot.share := by
  induction shares with
  | nil => rfl
  | cons s shares ih =>
      unfold updateShare
      split_ifs
      · rfl
      · rw [List.map_cons, List.map_cons, ih]

@[simp] theorem map_share_reconcileShares (current newShares : List ShareSnapshot) :
    (reconcileShares current newShares).map ShareSnapshot.share =
      newShares.map ShareSnapshot.share := by
  unfold reconcileShares
  rw [List.map_map]
  apply List.map_congr_left
  intro s _
  show ShareSnapshot.share (match _ with | some old => s.withLive old | none => s) = _
  split <;> rfl

/-- A share of a list whose names differ keeps its live fields in a reconciled list. -/
theorem live_of_mem_reconcileShares {current newShares : List ShareSnapshot}
    (hnodup : (current.map fun s => s.share.name).Nodup) {s s' : ShareSnapshot} (hs : s ∈ current)
    (hs' : s' ∈ reconcileShares current newShares) (hname : s'.share.name = s.share.name) :
    s'.lastSuccessAt = s.lastSuccessAt ∧ s'.lastError = s.lastError := by
  obtain ⟨new, -, rfl⟩ := List.mem_map.mp hs'
  have hnew : new.share.name = s.share.name := by
    rw [← hname]
    split <;> rfl
  have hlive : (Table.collect (fun s => s.share.name) current).lookup new.share.name = some s := by
    rcases hlookup : (Table.collect (fun s => s.share.name) current).lookup new.share.name with _ | old
    · exact absurd hnew.symm (Table.lookup_collect_eq_none.mp hlookup s hs)
    · obtain ⟨hold, hkey⟩ := Table.of_lookup_collect hlookup
      rw [hlookup, List.inj_on_of_nodup_map hnodup hold hs (hkey.trans hnew)]
  rw [hlive]
  exact ⟨rfl, rfl⟩

theorem of_loaded {parse : List Char → Option DiskConfig} {file : Option (List Char)}
    {cfg : DiskConfig} (h : loaded parse file = .ok cfg) : validate cfg = .ok () := by
  unfold loaded at h
  split at h
  · cases h
  · split at h
    · cases h
    · split at h
      · cases h
      · cases h
        assumption

/-! ## What an event changes -/

section

variable {parse : List Char → Option DiskConfig} {cfg₀ : DiskConfig} {d : Daemon}

variable (parse d) in
/-- Only a reload that finds a valid file changes the configuration. -/
theorem config_step (e : Event) :
    (step parse d e).config = d.config ∨
      e = .applyReload ∧ loaded parse d.file = .ok (step parse d e).config := by
  cases e with
  | applyReload =>
      rcases hloaded : loaded parse d.file with err | cfg
      · exact .inl (by simp [step, Daemon.applyReload, hloaded])
      · have hconfig : (step parse d .applyReload).config = cfg := by
          simp [step, Daemon.applyReload, hloaded]
        exact .inr ⟨rfl, by rw [hconfig]⟩
  | write contents => exact .inl rfl
  | subscribe => exact .inl (by simp only [step]; split <;> rfl)
  | reconcile => exact .inl (by simp only [step, Daemon.reconcile]; split <;> rfl)
  | updateShare name snapshot => exact .inl rfl
  | unreachable i error => exact .inl (by simp only [step, Daemon.unreachable]; split <;> rfl)
  | begin_ i => exact .inl (by simp only [step, Daemon.begin_]; split <;> [rfl; (split <;> rfl)])
  | finish i outcome now state lastError =>
      exact .inl (by simp only [step, Daemon.finish]; split <;> [rfl; (split <;> rfl)])

variable (parse d) in
/-- Only the consumer changes which shares are shown. -/
theorem shown_step (e : Event) :
    (step parse d e).shown = d.shown ∨
      e = .reconcile ∧ (step parse d e).shown = descriptors d.config := by
  cases e with
  | reconcile =>
      simp only [step, Daemon.reconcile]
      split
      · right
        simp [Daemon.shown]
      · exact .inl rfl
  | write contents => exact .inl rfl
  | applyReload => exact .inl (by simp only [step, Daemon.applyReload]; split <;> rfl)
  | subscribe => exact .inl (by simp only [step]; split <;> rfl)
  | updateShare name snapshot => exact .inl (map_share_updateShare ..)
  | unreachable i error =>
      simp only [step, Daemon.unreachable]
      split
      · exact .inl rfl
      · exact .inl (map_share_updateShare ..)
  | begin_ i =>
      simp only [step, Daemon.begin_]
      split
      · exact .inl rfl
      · split
        · exact .inl rfl
        · exact .inl (map_share_updateShare ..)
  | finish i outcome now state lastError =>
      simp only [step, Daemon.finish]
      split
      · exact .inl rfl
      · split
        · exact .inl rfl
        · exact .inl (map_share_updateShare ..)

/-- A task keeps what it took out of the configuration, and an iteration of it runs on that. -/
def Captured (tasks tasks' : List ShareTask) : Prop :=
  tasks'.length = tasks.length ∧ ∀ (i : ℕ) (task' : ShareTask), tasks'[i]? = some task' →
    ∃ task, tasks[i]? = some task ∧ task'.share = task.share ∧
      ∀ iteration, task'.running = some iteration → task.running = some iteration ∨
        iteration.path = task.share.path ∧ iteration.direction = task.share.direction

theorem Captured.refl (tasks : List ShareTask) : Captured tasks tasks :=
  ⟨rfl, fun _ task h => ⟨task, h, rfl, fun _ h => .inl h⟩⟩

theorem Captured.set {tasks : List ShareTask} {i : ℕ} {task task' : ShareTask}
    (htask : tasks[i]? = some task) (hshare : task'.share = task.share)
    (hrunning : ∀ iteration, task'.running = some iteration →
      iteration.path = task.share.path ∧ iteration.direction = task.share.direction) :
    Captured tasks (tasks.set i task') := by
  refine ⟨List.length_set, fun j other hj => ?_⟩
  by_cases hij : i = j
  · subst hij
    rw [List.getElem?_set_self (List.getElem?_eq_some_iff.mp htask).1] at hj
    cases hj
    exact ⟨task, htask, hshare, fun iteration h => .inr (hrunning iteration h)⟩
  · rw [List.getElem?_set_ne hij] at hj
    exact ⟨other, hj, rfl, fun _ h => .inl h⟩

theorem captured_begin_ (i : ℕ) : Captured d.tasks (d.begin_ i).tasks := by
  unfold Daemon.begin_
  rcases htask : d.tasks[i]? with _ | task
  · exact Captured.refl _
  · dsimp only
    split_ifs
    · exact Captured.refl _
    · refine Captured.set htask rfl ?_
      rintro iteration ⟨⟩
      exact ⟨rfl, rfl⟩

/-- No step changes what a task took out of the configuration. -/
theorem captured_step (e : Event) : Captured d.tasks (step parse d e).tasks := by
  cases e with
  | begin_ i => exact captured_begin_ i
  | finish i outcome now state lastError =>
      simp only [step, Daemon.finish]
      rcases htask : d.tasks[i]? with _ | task
      · exact Captured.refl _
      · dsimp only
        split_ifs
        · exact Captured.refl _
        · refine Captured.set htask rfl ?_
          rintro iteration ⟨⟩
  | write contents => exact Captured.refl _
  | applyReload => simp only [step, Daemon.applyReload]; split <;> exact Captured.refl _
  | subscribe => simp only [step]; split <;> exact Captured.refl _
  | reconcile => simp only [step, Daemon.reconcile]; split <;> exact Captured.refl _
  | updateShare name snapshot => exact Captured.refl _
  | unreachable i error => simp only [step, Daemon.unreachable]; split <;> exact Captured.refl _

theorem Captured.map_share {tasks tasks' : List ShareTask} (h : Captured tasks tasks') :
    tasks'.map ShareTask.share = tasks.map ShareTask.share := by
  apply List.ext_getElem?
  intro i
  rw [List.getElem?_map, List.getElem?_map]
  rcases htask' : tasks'[i]? with _ | task'
  · rw [List.getElem?_eq_none_iff, h.1, ← List.getElem?_eq_none_iff] at htask'
    rw [htask']
  · obtain ⟨task, htask, hshare, -⟩ := h.2 i task' htask'
    rw [htask]
    exact congrArg some hshare

/-! ## What holds along every run -/

/-- What holds of a daemon that was started with `cfg₀`, whatever was reloaded since. -/
structure Started (cfg₀ : DiskConfig) (d : Daemon) : Prop where
  tasks : d.tasks.map ShareTask.share = descriptors cfg₀
  running : ∀ task ∈ d.tasks, ∀ iteration, task.running = some iteration →
    iteration.path = task.share.path ∧ iteration.direction = task.share.direction
  valid : validate d.config = .ok ()
  names : (d.shown.map Descriptor.name).Nodup

/-- Shares of a valid configuration have names of their own. -/
theorem nodup_descriptors {cfg : DiskConfig} (h : validate cfg = .ok ()) :
    ((descriptors cfg).map Descriptor.name).Nodup := by
  rw [descriptors, List.map_map]
  exact nodup_of_validate h

theorem started_start (file : Option (List Char)) (hvalid : validate cfg₀ = .ok ()) :
    Started cfg₀ (Daemon.start file cfg₀) where
  tasks := by simp [Daemon.start, Function.comp_def]
  running := by simp [Daemon.start]
  valid := hvalid
  names := by
    rw [Daemon.shown, Daemon.start, map_share_buildShareSnapshots]
    exact nodup_descriptors hvalid

variable (parse) in
theorem Started.step (h : Started cfg₀ d) (e : Event) : Started cfg₀ (step parse d e) where
  tasks := by rw [(captured_step e).map_share, h.tasks]
  running := by
    intro task' htask' iteration hrunning
    obtain ⟨i, hi⟩ := List.mem_iff_getElem?.mp htask'
    obtain ⟨task, htask, hshare, hcaptured⟩ := (captured_step e).2 i task' hi
    rw [hshare]
    rcases hcaptured iteration hrunning with hbefore | hnow
    · exact h.running task (List.mem_of_getElem? htask) iteration hbefore
    · exact hnow
  valid := by
    rcases config_step parse d e with hsame | ⟨-, hloaded⟩
    · rw [hsame]
      exact h.valid
    · exact of_loaded hloaded
  names := by
    rcases shown_step parse d e with hsame | ⟨-, hshown⟩
    · rw [hsame]
      exact h.names
    · rw [hshown]
      exact nodup_descriptors h.valid

variable (parse) in
/-- Along a run the tasks are those of the start. -/
theorem started_run (file : Option (List Char)) (hvalid : validate cfg₀ = .ok ())
    (es : List Event) :
    Started cfg₀ (Trace.run (Reload.step parse) (Daemon.start file cfg₀) es) :=
  Trace.invariant_history (I := fun _ d => Started cfg₀ d) (started_start file hvalid)
    (fun _ _ e h => h.step parse e) es

/-- An iteration runs on what its task took out of the configuration at the start. -/
theorem Started.mem_of_runs (h : Started cfg₀ d) {i : ℕ} {share : Descriptor}
    (hruns : Runs d i share) : share ∈ descriptors cfg₀ := by
  obtain ⟨task, iteration, htask, hrunning, rfl⟩ := hruns
  have hmem := List.mem_of_getElem? htask
  obtain ⟨hpath, hdirection⟩ := h.running task hmem iteration hrunning
  rw [← h.tasks, hpath, hdirection]
  exact List.mem_map_of_mem hmem

/-- The task of a share runs on it from its next iteration on. -/
theorem Started.exists_runs_begin_ (h : Started cfg₀ d) {share : Descriptor}
    (hshare : share ∈ descriptors cfg₀) : ∃ i, Runs (d.begin_ i) i share := by
  rw [← h.tasks] at hshare
  obtain ⟨task, hmem, rfl⟩ := List.mem_map.mp hshare
  obtain ⟨i, htask⟩ := List.mem_iff_getElem?.mp hmem
  refine ⟨i, ?_⟩
  unfold Daemon.begin_
  rw [htask]
  dsimp only
  rcases hrunning : task.running with _ | iteration
  · rw [if_neg (by simp)]
    exact ⟨_, _, List.getElem?_set_self (List.getElem?_eq_some_iff.mp htask).1, rfl, rfl⟩
  · rw [if_pos (by simp)]
    obtain ⟨hpath, hdirection⟩ := h.running task hmem iteration hrunning
    refine ⟨task, iteration, htask, hrunning, ?_⟩
    rw [hpath, hdirection]

/-- The active configuration and `/status` have the shares that the daemon started with. -/
structure Keeps (cfg₀ : DiskConfig) (d : Daemon) : Prop where
  config : SameShares d.config cfg₀
  shown : ∀ share, share ∈ d.shown ↔ share ∈ descriptors cfg₀

theorem keeps_start (file : Option (List Char)) : Keeps cfg₀ (Daemon.start file cfg₀) where
  config _ := Iff.rfl
  shown share := by rw [Daemon.shown, Daemon.start, map_share_buildShareSnapshots]

/-- A step under the condition keeps the shares. -/
theorem Keeps.step {e : Event} (h : Keeps cfg₀ d) (hcond : KeepsShares parse cfg₀ d e) :
    Keeps cfg₀ (step parse d e) where
  config := by
    rcases config_step parse d e with hsame | ⟨he, hloaded⟩
    · rw [hsame]
      exact h.config
    · exact hcond he _ hloaded
  shown share := by
    rcases shown_step parse d e with hsame | ⟨-, hshown⟩
    · rw [hsame]
      exact h.shown share
    · rw [hshown]
      exact h.config share

/-- Then status, configuration and loops agree. -/
theorem Keeps.agrees (h : Keeps cfg₀ d) (hd : Started cfg₀ d) : Agrees d where
  running _ share hruns := (h.shown share).mpr (hd.mem_of_runs hruns)
  shown share hshare := hd.exists_runs_begin_ ((h.shown share).mp hshare)

/-- Where shares are kept, an event does to the copies what it should. -/
theorem Keeps.stepLaw {e : Event} (h : Keeps cfg₀ d) (hd : Started cfg₀ d)
    (hcond : KeepsShares parse cfg₀ d e) : StepLaw parse d e where
  invalid he err herr := by
    rcases config_step parse d e with hsame | ⟨-, hloaded⟩
    · exact hsame
    · rw [herr] at hloaded
      cases hloaded
  started i share he hidle hruns := (h.config share).mpr ((hd.step parse e).mem_of_runs hruns)
  kept he s hs s' hs' hname := by
    have hnames : (d.shares.map fun s => s.share.name).Nodup := by
      have hnames := hd.names
      rwa [Daemon.shown, List.map_map] at hnames
    subst he
    simp only [Reload.step, Daemon.reconcile] at hs'
    split_ifs at hs'
    · exact live_of_mem_reconcileShares hnames hs hs' hname
    · rw [List.inj_on_of_nodup_map hnames hs' hs hname]
      exact ⟨rfl, rfl⟩
  agrees := (h.step hcond).agrees (hd.step parse e)

/-! ## Reloads that change the shares -/

/-- After a reload that changes the shares, and the consumer's wake, either something is shown or runs
that should not, or the next iteration of some task is not one of the active configuration. -/
theorem not_law_of_not_sameShares {file : Option (List Char)} {pre : List Event} {cfg : DiskConfig}
    (hvalid : validate cfg₀ = .ok ())
    (hsub : (Trace.run (step parse) (Daemon.start file cfg₀) pre).subscribed = true)
    (hloaded : loaded parse (Trace.run (step parse) (Daemon.start file cfg₀) pre).file = .ok cfg)
    (hdiffers : ¬ SameShares cfg cfg₀) :
    ∃ i, ¬ Law parse (Daemon.start file cfg₀) (pre ++ [.applyReload, .reconcile, .begin_ i]) := by
  by_contra hall
  push Not at hall
  have hstarted := started_run parse file hvalid (pre ++ [.applyReload, .reconcile])
  set d := Trace.run (step parse) (Daemon.start file cfg₀) (pre ++ [.applyReload, .reconcile])
    with hd
  rw [Trace.run_append] at hd
  have hafter : d.config = cfg ∧ d.shown = descriptors cfg := by
    rw [hd]
    generalize Trace.run (step parse) (Daemon.start file cfg₀) pre = d₀ at hsub hloaded
    simp [step, Daemon.applyReload, hloaded, Daemon.reconcile, hsub, Daemon.shown]
  obtain ⟨hconfig, hshown⟩ := hafter
  have hagrees : Agrees d := by
    have hlast := (hall 0).2 (pre ++ [.applyReload]) .reconcile [.begin_ 0] (by simp)
    rw [hd]
    rw [Trace.run_snoc] at hlast
    exact hlast.agrees
  have hstep : ∀ i, StepLaw parse d (.begin_ i) := by
    intro i
    exact (hall i).2 (pre ++ [.applyReload, .reconcile]) (.begin_ i) [] (by simp)
  refine hdiffers fun share => ⟨fun hshare => ?_, fun hshare => ?_⟩
  · obtain ⟨i, hruns⟩ := hagrees.shown share (hshown ▸ hshare)
    exact (hstarted.step parse (.begin_ i)).mem_of_runs hruns
  · obtain ⟨i, hruns⟩ := hstarted.exists_runs_begin_ hshare
    rw [← hconfig]
    by_cases hidle : ∀ share', ¬ Runs d i share'
    · exact (hstep i).started i share rfl hidle hruns
    · push Not at hidle
      obtain ⟨share', hbefore⟩ := hidle
      have hsame : d.begin_ i = d := by
        obtain ⟨task, iteration, htask, hrunning, -⟩ := hbefore
        simp [Daemon.begin_, htask, hrunning]
      rw [hsame] at hruns
      rw [hconfig, ← hshown]
      exact hagrees.running i share hruns

/-- **What a reload keeps together**: where every reload that succeeds finds the shares that the daemon
started with, status, configuration and running loops agree; where one does not, while the consumer
listens, they come apart at the next wake and the next iteration. -/
theorem reload_law (file : Option (List Char)) (hvalid : validate cfg₀ = .ok ())
    (es : List Event) :
    (Trace.Always (step parse) (fun _ d e => KeepsShares parse cfg₀ d e)
        (Daemon.start file cfg₀) es → Law parse (Daemon.start file cfg₀) es) ∧
      ((Trace.run (step parse) (Daemon.start file cfg₀) es).subscribed = true →
        ¬ KeepsShares parse cfg₀ (Trace.run (step parse) (Daemon.start file cfg₀) es) .applyReload →
        ∃ i, ¬ Law parse (Daemon.start file cfg₀) (es ++ [.applyReload, .reconcile, .begin_ i])) := by
  constructor
  · intro h
    refine ⟨(keeps_start file).agrees (started_start file hvalid), ?_⟩
    refine (Trace.Always.of_invariant (I := fun _ d => Keeps cfg₀ d ∧ Started cfg₀ d)
      (φ := fun _ d e => StepLaw parse d e) ⟨keeps_start file, started_start file hvalid⟩ ?_ ?_ h).1
    · intro _ e hinv hcond
      exact hinv.1.stepLaw hinv.2 hcond
    · intro _ e hinv hcond
      exact ⟨hinv.1.step hcond, hinv.2.step parse e⟩
  · intro hsub hbreaks
    unfold KeepsShares at hbreaks
    push Not at hbreaks
    obtain ⟨-, cfg, hloaded, hdiffers⟩ := hbreaks
    exact not_law_of_not_sameShares hvalid hsub hloaded hdiffers

end

/-! ## A share that moves -/

/-- A client with one share. -/
def sampleConfig (path : String) : DiskConfig where
  node := ⟨"laptop".toList, none, none⟩
  serverAddress := "sync.example:8443".toList
  shares := [⟨"wiki".toList, path.toList, some .bidirectional, none, none⟩]
  lanSync := ⟨false, 7879⟩
  embeddings := ⟨false, "minilm".toList, 384⟩

/-- A parser that reads the path of that share. -/
def sampleParse (raw : List Char) : Option DiskConfig := some (sampleConfig (String.ofList raw))

theorem validate_sampleConfig : validate (sampleConfig "/data/wiki") = .ok () := by decide +kernel

/-- A reload of the same file, a wake of its consumer, and an iteration. -/
theorem law_of_same_file :
    Law sampleParse (Daemon.start (some "/data/wiki".toList) (sampleConfig "/data/wiki"))
      [.subscribe, .applyReload, .reconcile, .begin_ 0] := by
  refine (reload_law (some "/data/wiki".toList) validate_sampleConfig _).1 ?_
  have hnone : ∀ d : Daemon, KeepsShares sampleParse (sampleConfig "/data/wiki") d .subscribe ∧
      KeepsShares sampleParse (sampleConfig "/data/wiki") d .reconcile ∧
      KeepsShares sampleParse (sampleConfig "/data/wiki") d (.begin_ 0) :=
    fun _ => ⟨fun h => (by cases h), fun h => (by cases h), fun h => (by cases h)⟩
  apply Trace.always_of_forall_mem
  intro x hx
  rcases List.mem_cons.mp hx with rfl | hx
  · exact (hnone _).1
  rcases List.mem_cons.mp hx with rfl | hx
  · intro _ cfg hloaded
    have hsame : loaded sampleParse (some "/data/wiki".toList) = .ok (sampleConfig "/data/wiki") := by
      simp [loaded, sampleParse, validate_sampleConfig]
    cases hsame.symm.trans hloaded
    exact fun _ => Iff.rfl
  rcases List.mem_cons.mp hx with rfl | hx
  · exact (hnone _).2.1
  · rw [List.mem_singleton.mp hx]
    exact (hnone _).2.2

/-- The share moves, the file is valid, and the next iteration still scans the old path. -/
theorem not_law_of_moved_share :
    ¬ Law sampleParse (Daemon.start (some "/data/wiki".toList) (sampleConfig "/data/wiki"))
      [.write (some "/data/wiki2".toList), .applyReload, .begin_ 0] := by
  intro h
  have hlast := h.2 [.write (some "/data/wiki2".toList), .applyReload] (.begin_ 0) [] rfl
  have hmem := hlast.started 0 ⟨"wiki".toList, "/data/wiki".toList, .bidirectional⟩ rfl
    (by rintro _ ⟨task, iteration, htask, hrunning, -⟩; cases htask; cases hrunning)
    ⟨_, _, rfl, rfl, rfl⟩
  revert hmem
  decide +kernel

end DiskArcana.Client.Reload
