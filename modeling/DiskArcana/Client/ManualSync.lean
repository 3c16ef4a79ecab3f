import DiskArcana.Lib.EndlessRun
import Mathlib.Data.List.Nodup

/-!
# Manual sync requests

`POST /sync` puts a signal into a channel of eight places. The tasks of the shares wait for signals, each
in a `select!` between its timer and its turn at the one receiver, which is behind a mutex: a task that
holds the mutex takes the next signal or waits for it, the others queue for the mutex; a task whose
timer wins drops its place.

A signal that one task takes is gone for the others. So a task that comes to the receiver again and
again gets every request only if no other task ever takes one (`reachesEvery_iff`).
-/

namespace DiskArcana.Client.ManualSync

open DiskArcana.Lib

variable {shares : ℕ}

/-- The capacity of the channel.
Source: `rest_api/mod.rs`, `DaemonState::new` -/
def capacity : ℕ := 8

/-- The channel and the mutex around its receiver. Requests are numbered as they come. -/
structure Channel (shares : ℕ) where
  /-- The signals in the channel, each the number of its request. -/
  queue : List ℕ
  /-- How many requests there have been. -/
  posted : ℕ
  /-- The task that holds the mutex. -/
  holder : Option (Fin shares)
  /-- The tasks that queue for it. -/
  waiters : List (Fin shares)
  /-- The receiver is there. -/
  isOpen : Bool

/-- Source: `rest_api/mod.rs`, `DaemonState::new` -/
def Channel.new : Channel shares := ⟨[], 0, none, [], true⟩

/-- What happens at the channel. -/
inductive Event (shares : ℕ) where
  /-- `POST /sync`. -/
  | post
  /-- The `select!` of a task polls its second branch. -/
  | poll (task : Fin shares)
  /-- The timer of a task wins: the second branch is dropped. -/
  | tick (task : Fin shares)
  /-- The daemon stops: the tasks are aborted, and the receiver goes. -/
  | shutdown

namespace Channel

variable (c : Channel shares)

/-- The answer to a request: the signal is in the channel.
Source: `rest_api/sync.rs`, `enqueue_signal` -/
def queued : Bool := c.isOpen && decide (c.queue.length < capacity)

/-- Source: `rest_api/sync.rs`, `post_sync` and `enqueue_signal` -/
def postSync : Channel shares :=
  { c with
    queue := if c.queued then c.queue ++ [c.posted] else c.queue
    posted := c.posted + 1 }

/-- The mutex is released; the task that has waited longest has it next. -/
def release : Channel shares :=
  { c with holder := c.waiters.head?, waiters := c.waiters.tail }

/-- The task has the mutex, or gets it when it asks. -/
def AtReceiver (task : Fin shares) : Prop :=
  c.isOpen = true ∧ (c.holder = some task ∨ c.holder = none)

instance (task : Fin shares) : Decidable (c.AtReceiver task) := inferInstanceAs (Decidable (_ ∧ _))

/-- The signal that a poll takes. -/
def taken (task : Fin shares) : Option ℕ := if c.AtReceiver task then c.queue.head? else none

/-- At the receiver, a task takes the next signal and releases the mutex, or keeps it and waits;
elsewhere it queues for the mutex.
Source: `daemon.rs`, `run_start` (`manual_sync_rx.lock().await` and `recv().await`) -/
def poll (task : Fin shares) : Channel shares :=
  if c.AtReceiver task then
    match c.queue with
    | [] => { c with holder := some task }
    | _ :: rest => { c with queue := rest }.release
  else if c.isOpen && !c.waiters.contains task then { c with waiters := c.waiters ++ [task] }
  else c

/-- A task leaves its place.
Source: `daemon.rs`, `run_start` (`interval.tick()` in `tokio::select!`) -/
def tick (task : Fin shares) : Channel shares :=
  if c.holder = some task then c.release else { c with waiters := c.waiters.erase task }

/-- One event. -/
def step : Event shares → Channel shares
  | .post => c.postSync
  | .poll task => c.poll task
  | .tick task => c.tick task
  | .shutdown => { c with holder := none, waiters := [], isOpen := false }

end Channel

/-! ## What a run does -/

/-- The channel at a moment of a run. -/
def channelAt (es : ℕ → Event shares) (n : ℕ) : Channel shares := EndlessRun.state Channel.step .new es n

/-- A request that is answered with `queued: true`. -/
def Accepted (es : ℕ → Event shares) (request : ℕ) : Prop :=
  ∃ n, es n = .post ∧ (channelAt es n).queued = true ∧ (channelAt es n).posted = request

/-- A request that is answered with `queued: false`. -/
def Refused (es : ℕ → Event shares) (request : ℕ) : Prop :=
  ∃ n, es n = .post ∧ (channelAt es n).queued = false ∧ (channelAt es n).posted = request

/-- A task receives a request at a moment. -/
def ReceivesAt (es : ℕ → Event shares) (n : ℕ) (task : Fin shares) (request : ℕ) : Prop :=
  es n = .poll task ∧ (channelAt es n).taken task = some request

/-- The task comes to the receiver again and again. -/
def KeepsPolling (es : ℕ → Event shares) (task : Fin shares) : Prop :=
  EndlessRun.Recurs fun n => es n = .poll task ∧ (channelAt es n).AtReceiver task

/-- Every accepted request reaches every task that keeps polling, once, and a refused one reaches
none. -/
def ReachesEvery (es : ℕ → Event shares) : Prop :=
  (∀ task, KeepsPolling es task → ∀ request, Accepted es request →
    ∃! n, ReceivesAt es n task request) ∧
  ∀ request, Refused es request → ∀ n task, ¬ ReceivesAt es n task request

/-! ## Requests in the channel -/

/-- The numbers in the channel are those of earlier requests, each once. -/
structure Numbered (c : Channel shares) : Prop where
  lt : ∀ request ∈ c.queue, request < c.posted
  nodup : c.queue.Nodup

theorem numbered_new : Numbered (.new : Channel shares) where
  lt _ h := nomatch h
  nodup := List.nodup_nil

/-- What a step does to the queue: it stays, the next number comes in at the end, or the first goes. -/
theorem queue_step (c : Channel shares) (e : Event shares) :
    (e = .post ∧ (c.step e).posted = c.posted + 1 ∧
        (c.step e).queue = if c.queued then c.queue ++ [c.posted] else c.queue) ∨
      ((c.step e).posted = c.posted ∧ (c.step e).queue = c.queue ∧
        ∀ task, e = .poll task → c.taken task = none) ∨
      ∃ task first, e = .poll task ∧ c.AtReceiver task ∧ c.taken task = some first ∧
        c.queue = first :: (c.step e).queue ∧ (c.step e).posted = c.posted := by
  cases e with
  | post => exact .inl ⟨rfl, rfl, rfl⟩
  | poll task =>
      right
      simp only [Channel.step, Channel.poll, Channel.taken]
      split_ifs with hat hwait
      · rcases hqueue : c.queue with _ | ⟨first, rest⟩
        · left
          refine ⟨rfl, rfl, fun task' h => ?_⟩
          cases h
          simp
        · right
          refine ⟨task, first, rfl, hat, ?_, rfl, rfl⟩
          simp [hat]
      · left
        refine ⟨rfl, rfl, fun task' h => ?_⟩
        cases h
        simp [hat]
      · left
        refine ⟨rfl, rfl, fun task' h => ?_⟩
        cases h
        simp [hat]
  | tick task =>
      refine .inr (.inl ?_)
      simp only [Channel.step, Channel.tick]
      split_ifs <;> exact ⟨rfl, rfl, fun _ h => nomatch h⟩
  | shutdown => exact .inr (.inl ⟨rfl, rfl, fun _ h => nomatch h⟩)

theorem Numbered.step {c : Channel shares} (h : Numbered c) (e : Event shares) :
    Numbered (c.step e) := by
  rcases queue_step c e with ⟨-, hposted, hqueue⟩ | ⟨hposted, hqueue, -⟩ |
    ⟨task, first, -, -, -, hqueue, hposted⟩
  · constructor
    · intro request hmem
      rw [hposted]
      rw [hqueue] at hmem
      split_ifs at hmem
      · rcases List.mem_append.mp hmem with hold | hnew
        · exact Nat.lt_succ_of_lt (h.lt request hold)
        · rw [List.mem_singleton.mp hnew]
          exact Nat.lt_succ_self _
      · exact Nat.lt_succ_of_lt (h.lt request hmem)
    · rw [hqueue]
      split_ifs
      · apply List.Nodup.append h.nodup (List.nodup_singleton _)
        intro request hold hnew
        rw [List.mem_singleton.mp hnew] at hold
        exact Nat.lt_irrefl _ (h.lt _ hold)
      · exact h.nodup
  · exact ⟨by rw [hposted, hqueue]; exact h.lt, by rw [hqueue]; exact h.nodup⟩
  · have hnodup := h.nodup
    rw [hqueue] at hnodup
    refine ⟨fun request hmem => ?_, (List.nodup_cons.mp hnodup).2⟩
    rw [hposted]
    apply h.lt
    rw [hqueue]
    exact List.mem_cons_of_mem first hmem

theorem numbered_channelAt (es : ℕ → Event shares) (n : ℕ) : Numbered (channelAt es n) :=
  EndlessRun.invariant numbered_new (fun _ e h => h.step e) n

variable {es : ℕ → Event shares} {n : ℕ} {task : Fin shares} {request : ℕ}

theorem channelAt_succ (es : ℕ → Event shares) (n : ℕ) :
    channelAt es (n + 1) = (channelAt es n).step (es n) := rfl

theorem posted_mono {m : ℕ} (hn : m ≤ n) : (channelAt es m).posted ≤ (channelAt es n).posted := by
  refine EndlessRun.invariant_from (I := fun c : Channel shares => (channelAt es m).posted ≤ c.posted)
    (Nat.le_refl _) (fun k _ hk => ?_) hn
  rcases queue_step (EndlessRun.state Channel.step .new es k) (es k) with
    ⟨-, hnext, -⟩ | ⟨hnext, -, -⟩ | ⟨-, -, -, -, -, -, hnext⟩
  · omega
  · omega
  · omega

/-- A number that has been given out and is not in the channel does not come back. -/
theorem notMem_of_gone {m : ℕ} (hgone : request ∉ (channelAt es m).queue)
    (hposted : request < (channelAt es m).posted) (hn : m ≤ n) :
    request ∉ (channelAt es n).queue := by
  refine (EndlessRun.invariant_from
    (I := fun c : Channel shares => request ∉ c.queue ∧ request < c.posted) ⟨hgone, hposted⟩
    (fun k _ hk => ?_) hn).1
  rcases queue_step (EndlessRun.state Channel.step .new es k) (es k) with
    ⟨-, hnext, hqueue⟩ | ⟨hnext, hqueue, -⟩ | ⟨task, first, -, -, -, hqueue, hnext⟩
  · rw [hqueue, hnext]
    refine ⟨?_, Nat.lt_succ_of_lt hk.2⟩
    split_ifs
    · rw [List.mem_append, List.mem_singleton, not_or]
      exact ⟨hk.1, Nat.ne_of_lt hk.2⟩
    · exact hk.1
  · rw [hqueue, hnext]
    exact hk
  · rw [hnext]
    have hnotMem := hk.1
    rw [hqueue, List.mem_cons, not_or] at hnotMem
    exact ⟨hnotMem.2, hk.2⟩

/-- What is received was first in the channel, and is gone then. -/
theorem ReceivesAt.queue (h : ReceivesAt es n task request) :
    (channelAt es n).AtReceiver task ∧
      (channelAt es n).queue = request :: (channelAt es (n + 1)).queue := by
  obtain ⟨hpoll, htaken⟩ := h
  rcases queue_step (channelAt es n) (es n) with ⟨hpost, -, -⟩ | ⟨-, -, hnone⟩ |
    ⟨task', first, hpoll', hat, htaken', hqueue, -⟩
  · rw [hpoll] at hpost
    cases hpost
  · rw [hnone task hpoll] at htaken
    cases htaken
  · rw [hpoll] at hpoll'
    cases hpoll'
    rw [htaken] at htaken'
    cases htaken'
    exact ⟨hat, hqueue⟩

theorem ReceivesAt.mem_queue (h : ReceivesAt es n task request) :
    request ∈ (channelAt es n).queue := by
  rw [h.queue.2]
  exact List.mem_cons_self

/-- After it is received, a request is not in the channel. -/
theorem ReceivesAt.gone (h : ReceivesAt es n task request) {m : ℕ} (hm : n < m) :
    request ∉ (channelAt es m).queue := by
  have hnumbered := numbered_channelAt es n
  have hnodup := hnumbered.nodup
  rw [h.queue.2] at hnodup
  apply notMem_of_gone (List.nodup_cons.mp hnodup).1 ?_ hm
  exact Nat.lt_of_lt_of_le (hnumbered.lt request h.mem_queue) (posted_mono (Nat.le_succ n))

/-- **A request is received once**, by one task. -/
theorem ReceivesAt.unique {n' : ℕ} {task' : Fin shares} (h : ReceivesAt es n task request)
    (h' : ReceivesAt es n' task' request) : n = n' ∧ task = task' := by
  rcases Nat.lt_trichotomy n n' with hlt | rfl | hlt
  · exact absurd h'.mem_queue (h.gone hlt)
  · have hpoll := h.1.symm.trans h'.1
    cases hpoll
    exact ⟨rfl, rfl⟩
  · exact absurd h.mem_queue (h'.gone hlt)

/-- An accepted request is in the channel. -/
theorem Accepted.exists_mem (h : Accepted es request) : ∃ n, request ∈ (channelAt es n).queue := by
  obtain ⟨n, hpost, hqueued, rfl⟩ := h
  refine ⟨n + 1, ?_⟩
  rw [channelAt_succ, hpost]
  show _ ∈ (channelAt es n).postSync.queue
  rw [Channel.postSync, if_pos hqueued]
  exact List.mem_append_right _ List.mem_cons_self

/-- A request in the channel has been accepted. -/
theorem accepted_of_mem (h : request ∈ (channelAt es n).queue) : Accepted es request := by
  induction n with
  | zero => cases h
  | succ n ih =>
      rcases queue_step (channelAt es n) (es n) with ⟨hpost, -, hqueue⟩ | ⟨-, hqueue, -⟩ |
        ⟨task, first, -, -, -, hqueue, -⟩
      · rw [channelAt_succ, hqueue] at h
        split_ifs at h with hqueued
        · rcases List.mem_append.mp h with hold | hnew
          · exact ih hold
          · exact ⟨n, hpost, hqueued, (List.mem_singleton.mp hnew).symm⟩
        · exact ih h
      · rw [channelAt_succ, hqueue] at h
        exact ih h
      · apply ih
        rw [hqueue]
        exact List.mem_cons_of_mem first h

/-- A refused request never is. -/
theorem Refused.not_receivesAt (h : Refused es request) : ¬ ReceivesAt es n task request := by
  intro hreceives
  obtain ⟨m, hpost, hqueued, rfl⟩ := h
  have hstep : channelAt es (m + 1) = (channelAt es m).postSync := by
    rw [channelAt_succ, hpost]
    rfl
  rcases Nat.lt_or_ge m n with hlt | hge
  · refine notMem_of_gone ?_ ?_ hlt hreceives.mem_queue
    · rw [hstep, Channel.postSync, hqueued, if_neg Bool.false_ne_true]
      intro hmem
      exact Nat.lt_irrefl _ ((numbered_channelAt es m).lt _ hmem)
    · rw [hstep]
      exact Nat.lt_succ_self _
  · have hlt := (numbered_channelAt es n).lt _ hreceives.mem_queue
    exact absurd (posted_mono hge) (Nat.not_le_of_lt hlt)

/-! ## Who gets a request -/

/-- Where no other task takes a request, one that keeps polling gets every request in the channel. -/
theorem KeepsPolling.exists_receivesAt (h : KeepsPolling es task)
    (halone : ∀ n other request, ReceivesAt es n other request → other = task)
    (hmem : request ∈ (channelAt es n).queue) : ∃ m, ReceivesAt es m task request := by
  have hstep : ∀ m, request ∈ (channelAt es m).queue → ¬ ReceivesAt es m task request →
      request ∈ (channelAt es (m + 1)).queue ∧
        (channelAt es (m + 1)).queue.idxOf request ≤ (channelAt es m).queue.idxOf request ∧
          (∀ other, es m = .poll other → (channelAt es m).AtReceiver other →
            (channelAt es (m + 1)).queue.idxOf request < (channelAt es m).queue.idxOf request) := by
    intro m hmem hnot
    rcases queue_step (channelAt es m) (es m) with ⟨hpost, -, hqueue⟩ | ⟨-, hqueue, hnone⟩ |
      ⟨other, first, hpoll, hat, htaken, hqueue, -⟩
    · have hsame : request ∈ (channelAt es (m + 1)).queue ∧
          (channelAt es (m + 1)).queue.idxOf request = (channelAt es m).queue.idxOf request := by
        rw [channelAt_succ, hqueue]
        split_ifs
        · exact ⟨List.mem_append_left _ hmem, List.idxOf_append_of_mem hmem⟩
        · exact ⟨hmem, rfl⟩
      refine ⟨hsame.1, Nat.le_of_eq hsame.2, fun other hpoll => ?_⟩
      rw [hpost] at hpoll
      cases hpoll
    · rw [channelAt_succ, hqueue]
      refine ⟨hmem, Nat.le_refl _, fun other hpoll hat => ?_⟩
      have htaken := hnone other hpoll
      rw [Channel.taken, if_pos hat, List.head?_eq_none_iff] at htaken
      rw [htaken] at hmem
      cases hmem
    · have hne : first ≠ request := by
        rintro rfl
        cases halone m other first ⟨hpoll, htaken⟩
        exact hnot ⟨hpoll, htaken⟩
      rw [← channelAt_succ] at hqueue
      rw [hqueue] at hmem
      rw [hqueue, List.idxOf_cons_ne _ hne]
      exact ⟨(List.mem_cons.mp hmem).resolve_left hne.symm, Nat.le_succ _,
        fun _ _ _ => Nat.lt_succ_self _⟩
  obtain ⟨m, -, hm⟩ := EndlessRun.exists_of_decrease (fun m => ReceivesAt es m task request)
    (fun m => request ∈ (channelAt es m).queue) (fun m => (channelAt es m).queue.idxOf request) hmem
    (fun m hm hnot => (hstep m hm hnot).1)
    (fun m hm hnot => (hstep m hm hnot).2.1) (fun m => by
      obtain ⟨k, hk, hpoll, hat⟩ := h m
      exact ⟨k, hk, fun hm hnot => (hstep k hm hnot).2.2 task hpoll hat⟩)
  exact ⟨m, hm⟩

/-- **When a request reaches every task that keeps polling**: when no other task than one that keeps
polling ever takes one. -/
theorem reachesEvery_iff {shares : ℕ} (es : ℕ → Event shares) :
    ReachesEvery es ↔ ∀ task, KeepsPolling es task →
      ∀ n other request, ReceivesAt es n other request → other = task := by
  constructor
  · intro h task hpolling n other request hreceives
    obtain ⟨m, hm, -⟩ := h.1 task hpolling request (accepted_of_mem hreceives.mem_queue)
    exact (hreceives.unique hm).2
  · intro h
    refine ⟨fun task hpolling request haccepted => ?_,
      fun request hrefused n task => hrefused.not_receivesAt⟩
    obtain ⟨n, hmem⟩ := haccepted.exists_mem
    obtain ⟨m, hm⟩ := hpolling.exists_receivesAt (h task hpolling) hmem
    exact ⟨m, hm, fun m' hm' => (hm'.unique hm).1⟩

/-! ## Two shares -/

/-- One request, and two tasks that take turns at the receiver. -/
def takingTurns : ℕ → Event 2
  | 0 => .post
  | n + 1 =>
    match n % 4 with
    | 0 => .poll 0
    | 1 => .tick 0
    | 2 => .poll 1
    | _ => .tick 1

/-- Nobody is at the receiver. -/
def Free (c : Channel shares) : Prop := c.isOpen = true ∧ c.holder = none ∧ c.waiters = []

/-- A task that comes to a free receiver and goes leaves it free. -/
theorem Free.poll_tick {c : Channel shares} (h : Free c) (task : Fin shares) :
    Free ((c.poll task).tick task) := by
  obtain ⟨hopen, hholder, hwaiters⟩ := h
  have hat : c.AtReceiver task := ⟨hopen, .inr hholder⟩
  unfold Channel.poll
  rw [if_pos hat]
  rcases c.queue with _ | ⟨first, rest⟩
  · simp [Free, Channel.tick, Channel.release, hwaiters, hopen]
  · simp [Free, Channel.tick, Channel.release, hwaiters, hopen]

theorem free_takingTurns (k : ℕ) : Free (channelAt takingTurns (4 * k + 1)) := by
  induction k with
  | zero => exact ⟨rfl, rfl, rfl⟩
  | succ k ih =>
      have hevents : takingTurns (4 * k + 1) = .poll 0 ∧ takingTurns (4 * k + 2) = .tick 0 ∧
          takingTurns (4 * k + 3) = .poll 1 ∧ takingTurns (4 * k + 4) = .tick 1 := by
        simp [takingTurns, Nat.add_mod]
      have hturn := (ih.poll_tick 0).poll_tick 1
      obtain ⟨h₁, h₂, h₃, h₄⟩ := hevents
      rw [show 4 * (k + 1) + 1 = 4 * k + 1 + 1 + 1 + 1 + 1 by omega]
      rw [channelAt_succ, channelAt_succ, channelAt_succ, channelAt_succ, h₁, h₂, h₃, h₄]
      exact hturn

/-- The first task takes the request, and the second never gets it. -/
theorem not_reachesEvery_takingTurns : ¬ ReachesEvery takingTurns := by
  intro h
  have hfirst : ReceivesAt takingTurns 1 0 0 := ⟨rfl, rfl⟩
  have hpolling : KeepsPolling takingTurns 1 := by
    intro m
    refine ⟨4 * m + 3, by omega, by simp [takingTurns, Nat.add_mod], ?_⟩
    have hevents : takingTurns (4 * m + 1) = .poll 0 ∧ takingTurns (4 * m + 2) = .tick 0 := by
      simp [takingTurns, Nat.add_mod]
    have hfree := (free_takingTurns m).poll_tick 0
    rw [channelAt_succ, channelAt_succ, hevents.1, hevents.2]
    exact ⟨hfree.1, .inr hfree.2.1⟩
  obtain ⟨n, hsecond, -⟩ := h.1 1 hpolling 0 ⟨0, rfl, rfl, rfl⟩
  exact absurd (hfirst.unique hsecond).2 (by decide)

end DiskArcana.Client.ManualSync
