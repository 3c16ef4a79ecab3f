import Mathlib.Algebra.Order.Ring.Nat
import Mathlib.Data.List.Count

/-!
# A bounded queue and a worker that tries again

Jobs are offered to a queue of bounded length; a job that finds it full is dropped and counted. One worker
takes the jobs in turn. A job stands for any number of deliveries, and the worker tries each of them until
an attempt succeeds or as many as it has have failed.

`Accounts` says what such a system has done: the jobs that were taken and those in the queue are the jobs
that were accepted, in their order, and the attempts are those of the deliveries that are over (`Over`),
one after another, and then those at the delivery that the worker is at. Every step keeps the accounts
(`Accounts.offer`, `Accounts.work`), and the worker gets through what there is in a bounded number of steps
(`load_work_lt`).
-/

namespace DiskArcana.Lib

/-- The queue, and what the worker is at: the first of the pending deliveries. -/
structure Outbox (J D : Type) where
  queue : List J
  pending : List D
  failed : ℕ
  dropped : ℕ
  givenUp : ℕ

namespace Outbox

variable {J D : Type}

def empty : Outbox J D := ⟨[], [], 0, 0, 0⟩

/-- A job for the queue, which takes so many. -/
def offer (cap : ℕ) (j : J) (o : Outbox J D) : Outbox J D :=
  if o.queue.length < cap then { o with queue := o.queue ++ [j] } else { o with dropped := o.dropped + 1 }

/-- The next step of the worker, which has so many tries: it takes a job when no delivery is pending, and
else makes an attempt. -/
def work (tries : ℕ) (deliveries : J → List D) (success : Bool) (o : Outbox J D) : Outbox J D :=
  match o.pending, o.queue with
  | [], [] => o
  | [], j :: queue => { o with queue := queue, pending := deliveries j }
  | _ :: pending, _ =>
    if success then { o with pending := pending, failed := 0 }
    else if o.failed + 1 < tries then { o with failed := o.failed + 1 }
    else { o with pending := pending, failed := 0, givenUp := o.givenUp + 1 }

variable {tries : ℕ} {deliveries : J → List D} {success : Bool} {o : Outbox J D}

theorem work_idle (hpending : o.pending = []) (hqueue : o.queue = []) :
    o.work tries deliveries success = o := by
  simp only [work, hpending, hqueue]

theorem work_take {j : J} {queue : List J} (hpending : o.pending = []) (hqueue : o.queue = j :: queue) :
    o.work tries deliveries success = { o with queue := queue, pending := deliveries j } := by
  simp only [work, hpending, hqueue]

theorem work_attempt {d : D} {pending : List D} (hpending : o.pending = d :: pending) :
    o.work tries deliveries success =
      if success then { o with pending := pending, failed := 0 }
      else if o.failed + 1 < tries then { o with failed := o.failed + 1 }
      else { o with pending := pending, failed := 0, givenUp := o.givenUp + 1 } := by
  simp only [work, hpending]

/-! ## What steps do -/

/-- The job is accepted when it is offered. -/
def accepted (cap : ℕ) (j : J) (o : Outbox J D) : Option J := if o.queue.length < cap then some j else none

/-- The job that the next step of the worker takes. -/
def taken (o : Outbox J D) : Option J := if o.pending.isEmpty then o.queue.head? else none

/-- The attempt that the next step of the worker makes. -/
def sent (success : Bool) (o : Outbox J D) : Option (D × Bool) := o.pending.head?.map fun d => (d, success)

/-- A delivery with the attempts at it. -/
structure Tried (D : Type) where
  target : D
  fails : ℕ
  success : Bool

namespace Tried

def attempts (t : Tried D) : List (D × Bool) :=
  List.replicate t.fails (t.target, false) ++ if t.success then [(t.target, true)] else []

/-- No further attempt is made: one succeeded, or all there are have failed. -/
def Over (tries : ℕ) (t : Tried D) : Prop := if t.success then t.fails < tries else t.fails = tries

end Tried

/-- The attempts at the delivery that the worker is at. -/
def unfinished (o : Outbox J D) : List (D × Bool) :=
  o.pending.head?.toList.flatMap fun d => List.replicate o.failed (d, false)

/-- What an outbox has done: the jobs it was offered, those it accepted and those the worker took, the
deliveries these stood for, and the attempts that were made. -/
structure Accounts (cap tries : ℕ) (offers acceptances takings : List J) (due : List D)
    (sends : List (D × Bool)) (done : List (Tried D)) (o : Outbox J D) : Prop where
  queue : acceptances = takings ++ o.queue
  room : o.queue.length ≤ cap
  offers : offers.length = acceptances.length + o.dropped
  ended : ∀ t ∈ done, t.Over tries
  due : due = done.map Tried.target ++ o.pending
  sends : sends = done.flatMap Tried.attempts ++ o.unfinished
  givenUp : o.givenUp = done.countP fun t => !t.success
  failed : o.failed < tries
  fresh : o.pending = [] → o.failed = 0

variable {cap : ℕ} {offers acceptances takings : List J} {due : List D} {sends : List (D × Bool)}
  {done : List (Tried D)}

theorem accounts_empty (htries : 0 < tries) :
    Accounts cap tries ([] : List J) [] [] ([] : List D) [] [] empty where
  queue := rfl
  room := Nat.zero_le _
  offers := rfl
  ended := by simp
  due := rfl
  sends := rfl
  givenUp := rfl
  failed := htries
  fresh _ := rfl

/-- A job that is offered is accepted or counted as dropped. -/
theorem Accounts.offer (h : Accounts cap tries offers acceptances takings due sends done o) (j : J) :
    Accounts cap tries (offers ++ [j]) (acceptances ++ (accepted cap j o).toList) takings due sends done
      (o.offer cap j) := by
  have hlength : (offers ++ [j]).length = acceptances.length + o.dropped + 1 := by
    rw [List.length_append, h.offers, List.length_singleton]
  unfold Outbox.offer accepted
  split_ifs with hroom
  · refine ⟨?_, ?_, ?_, h.ended, h.due, h.sends, h.givenUp, h.failed, h.fresh⟩
    · rw [h.queue, List.append_assoc]
      rfl
    · rw [List.length_append, List.length_singleton]
      exact hroom
    · rw [hlength, List.length_append, Nat.add_right_comm]
      rfl
  · refine ⟨?_, h.room, ?_, h.ended, h.due, h.sends, h.givenUp, h.failed, h.fresh⟩
    · rw [Option.toList_none, List.append_nil]
      exact h.queue
    · rw [hlength, Option.toList_none, List.append_nil, Nat.add_assoc]

/-- The worker takes a job. -/
theorem Accounts.take {j : J} {queue : List J}
    (h : Accounts cap tries offers acceptances takings due sends done o) (hpending : o.pending = [])
    (hqueue : o.queue = j :: queue) (deliveries : List D) :
    Accounts cap tries offers acceptances (takings ++ [j]) (due ++ deliveries) sends done
      { o with queue := queue, pending := deliveries } where
  queue := by rw [h.queue, hqueue, List.append_assoc, List.singleton_append]
  room := by
    have hroom := h.room
    rw [hqueue, List.length_cons] at hroom
    exact (Nat.le_succ _).trans hroom
  offers := h.offers
  ended := h.ended
  due := by rw [h.due, hpending, List.append_nil]
  sends := by
    have hsends := h.sends
    rw [unfinished, hpending] at hsends
    rw [hsends, unfinished, h.fresh hpending]
    cases deliveries <;> rfl
  givenUp := h.givenUp
  failed := h.failed
  fresh _ := h.fresh hpending

/-- One more attempt fails, and it is not the last. -/
theorem Accounts.fail {d : D} {pending : List D}
    (h : Accounts cap tries offers acceptances takings due sends done o) (hpending : o.pending = d :: pending)
    (hmore : o.failed + 1 < tries) :
    Accounts cap tries offers acceptances takings due (sends ++ [(d, false)]) done
      { o with failed := o.failed + 1 } where
  queue := h.queue
  room := h.room
  offers := h.offers
  ended := h.ended
  due := h.due
  sends := by
    rw [h.sends, unfinished, unfinished, hpending, List.append_assoc]
    simp [List.replicate_succ']
  givenUp := h.givenUp
  failed := hmore
  fresh hnil := by
    rw [hpending] at hnil
    cases hnil

/-- The delivery that the worker is at is over. -/
theorem Accounts.finish {d : D} {pending : List D} {t : Tried D} {givenUp : ℕ}
    (h : Accounts cap tries offers acceptances takings due sends done o) (hpending : o.pending = d :: pending)
    (hover : t.Over tries) (htarget : t.target = d)
    (hattempts : t.attempts = List.replicate o.failed (d, false) ++ [(d, t.success)])
    (hgivenUp : givenUp = o.givenUp + (!t.success).toNat) :
    Accounts cap tries offers acceptances takings due (sends ++ [(d, t.success)]) (done ++ [t])
      { o with pending := pending, failed := 0, givenUp := givenUp } where
  queue := h.queue
  room := h.room
  offers := h.offers
  ended := by
    intro t' ht'
    rcases List.mem_append.mp ht' with ht' | ht'
    · exact h.ended t' ht'
    · rw [List.mem_singleton.mp ht']
      exact hover
  due := by rw [h.due, hpending, List.map_append, List.map_singleton, htarget, List.append_assoc,
    List.singleton_append]
  sends := by
    have hnone : unfinished { o with pending := pending, failed := 0, givenUp := givenUp } = [] := by
      cases pending <;> rfl
    rw [h.sends, unfinished, hpending, hnone, List.append_nil, List.flatMap_append, List.append_assoc]
    simp [hattempts]
  givenUp := by
    show givenUp = _
    rw [hgivenUp, h.givenUp, List.countP_append, List.countP_singleton]
    cases t.success <;> rfl
  failed := (Nat.zero_le _).trans_lt h.failed
  fresh _ := rfl

/-- **A step of the worker** takes a job or makes an attempt. -/
theorem Accounts.work (h : Accounts cap tries offers acceptances takings due sends done o)
    (deliveries : J → List D) (success : Bool) :
    ∃ done', Accounts cap tries offers acceptances (takings ++ o.taken.toList)
      (due ++ o.taken.toList.flatMap deliveries) (sends ++ (o.sent success).toList) done'
      (o.work tries deliveries success) := by
  rcases hpending : o.pending with _ | ⟨d, pending⟩
  · have hsent : o.sent success = none := by rw [sent, hpending]; rfl
    have htaken : o.taken = o.queue.head? := by rw [taken, hpending]; rfl
    rw [hsent, htaken, Option.toList_none, List.append_nil]
    rcases hqueue : o.queue with _ | ⟨j, queue⟩
    · refine ⟨done, ?_⟩
      rw [work_idle hpending hqueue]
      simpa using h
    · refine ⟨done, ?_⟩
      rw [work_take hpending hqueue]
      simpa using h.take hpending hqueue (deliveries j)
  · have hsent : o.sent success = some (d, success) := by rw [sent, hpending]; rfl
    have htaken : o.taken = none := by rw [taken, hpending]; rfl
    rw [hsent, htaken, Option.toList_none, List.append_nil, List.flatMap_nil, List.append_nil,
      work_attempt hpending]
    rcases success with _ | _
    · rw [if_neg Bool.false_ne_true]
      split_ifs with hmore
      · exact ⟨done, h.fail hpending hmore⟩
      · have hlast : o.failed + 1 = tries := le_antisymm h.failed (not_lt.mp hmore)
        have hover : (⟨d, o.failed + 1, false⟩ : Tried D).Over tries := hlast
        have hattempts : (⟨d, o.failed + 1, false⟩ : Tried D).attempts =
            List.replicate o.failed (d, false) ++ [(d, false)] := by
          simp [Tried.attempts, List.replicate_succ']
        exact ⟨_, h.finish hpending hover rfl hattempts rfl⟩
    · rw [if_pos rfl]
      have hover : (⟨d, o.failed, true⟩ : Tried D).Over tries := h.failed
      exact ⟨_, h.finish hpending hover rfl rfl rfl⟩

/-- Attempts are made at deliveries that are due. -/
theorem Accounts.mem_due (h : Accounts cap tries offers acceptances takings due sends done o) {d : D}
    (hsend : (d, success) ∈ sends) : d ∈ due := by
  rw [h.sends] at hsend
  rw [h.due]
  rcases List.mem_append.mp hsend with hdone | hat
  · obtain ⟨t, ht, hattempt⟩ := List.mem_flatMap.mp hdone
    refine List.mem_append_left _ (List.mem_map.mpr ⟨t, ht, ?_⟩)
    rw [Tried.attempts] at hattempt
    rcases List.mem_append.mp hattempt with hfail | hlast
    · exact (congrArg Prod.fst (List.eq_of_mem_replicate hfail)).symm
    · split_ifs at hlast with hsuccess
      · exact (congrArg Prod.fst (List.mem_singleton.mp hlast)).symm
      · cases hlast
  · refine List.mem_append_right _ ?_
    obtain ⟨d', hd', hfail⟩ := List.mem_flatMap.mp hat
    obtain rfl : d = d' := congrArg Prod.fst (List.eq_of_mem_replicate hfail)
    exact List.mem_of_mem_head? (Option.mem_toList.mp hd')

/-! ## Getting through -/

/-- The steps that the worker has to make at most, for jobs of at most so many deliveries. -/
def load (tries most : ℕ) (o : Outbox J D) : ℕ :=
  o.queue.length * (1 + tries * most) + (o.pending.length * tries - o.failed)

theorem load_eq_zero_iff {most : ℕ} (hfailed : o.failed < tries) :
    load tries most o = 0 ↔ o.queue = [] ∧ o.pending = [] := by
  unfold load
  rw [Nat.add_eq_zero_iff, Nat.mul_eq_zero, List.length_eq_zero_iff]
  constructor
  · rintro ⟨hqueue, hpending⟩
    refine ⟨hqueue.resolve_right (by omega), ?_⟩
    rcases hp : o.pending with _ | ⟨d, pending⟩
    · rfl
    · rw [hp, List.length_cons, Nat.add_one_mul] at hpending
      omega
  · rintro ⟨hqueue, hpending⟩
    rw [hpending]
    exact ⟨Or.inl hqueue, by simp⟩

/-- **The worker gets on** as long as there is something to do. -/
theorem load_work_lt {most : ℕ} (hfailed : o.failed < tries) (hfresh : o.pending = [] → o.failed = 0)
    (hmost : ∀ j, (deliveries j).length ≤ most) (hbusy : load tries most o ≠ 0) :
    load tries most (o.work tries deliveries success) < load tries most o := by
  rcases hpending : o.pending with _ | ⟨d, pending⟩
  · rcases hqueue : o.queue with _ | ⟨j, queue⟩
    · exact absurd ((load_eq_zero_iff hfailed).mpr ⟨hqueue, hpending⟩) hbusy
    · have hnew : (deliveries j).length * tries ≤ tries * most := by
        rw [Nat.mul_comm]
        exact Nat.mul_le_mul_left tries (hmost j)
      rw [work_take hpending hqueue]
      simp only [load, hqueue, hpending, List.length_cons, List.length_nil, hfresh hpending]
      rw [Nat.add_one_mul]
      omega
  · have hlast : (pending.length + 1) * tries = pending.length * tries + tries := Nat.add_one_mul _ _
    rw [work_attempt hpending]
    split_ifs with hsuccess hmore
    · simp only [load, hpending, List.length_cons]
      omega
    · simp only [load, hpending, List.length_cons]
      omega
    · simp only [load, hpending, List.length_cons]
      omega

end Outbox

end DiskArcana.Lib
