import DiskArcana.Nodes.Model

/-!
# Registration under concurrent calls

A node is meant to be registered once: one call gets a key for it, the key is good from then on, with
the tenant of that call and across restarts, and a call that fails leaves nothing behind. But a call
that has found no node puts its own into the map without looking again, a failed statement leaves the
map as it is, and an update does not clear `revoked`.

The promise is kept along every run in which no call is overtaken between its look and its entry, the
statements run, no revoked row is updated, and the table can be read at every start
(`registration_law`).
-/

namespace DiskArcana.Nodes

open DiskArcana.Core DiskArcana.Lib
open DiskArcana.Accounts hiding Bytes

/-! ## The service and its calls -/

/-- The nodes, whether the server runs, and all calls so far. -/
structure Registry where
  server : Server
  running : Bool
  calls : List RegisterCall

inductive Event where
  | arrive (request : RegisterRequest)
  | proceed (call : ℕ) (answer : StepAnswer)
  /-- The server stops, and starts again if it can read the table. -/
  | restart

/-- A call that was under way when the server stopped. -/
def RegisterCall.drop (call : RegisterCall) : RegisterCall :=
  match call.phase with
  | .returned _ => call
  | _ => { call with phase := .dropped }

/-- The server stops and starts. -/
def Registry.restart (s : Registry) : Registry where
  server := { s.server with store := (hydrate s.server.nodes).getD ∅ }
  running := (hydrate s.server.nodes).isSome
  calls := s.calls.map RegisterCall.drop

/-- The server that starts on a table. -/
def Registry.start (nodes : Table Text NodeRow) : Registry := Registry.restart ⟨⟨∅, nodes⟩, false, []⟩

section

variable (blake3 : Bytes → Digest) (svc : AuthService)

/-- One event. -/
def step (s : Registry) : Event → Registry
  | .arrive request =>
    if s.running then { s with calls := s.calls ++ [⟨request, .arrived⟩] } else s
  | .proceed i a =>
    match s.calls[i]? with
    | none => s
    | some call =>
      let after := stepCall blake3 svc s.server a call
      { s with server := after.1, calls := s.calls.set i after.2 }
  | .restart => s.restart

/-! ## The law -/

/-- A call that is still under way. -/
def RegisterPhase.isOpen : RegisterPhase → Bool
  | .returned _ | .dropped => false
  | _ => true

/-- In this step a call returns. -/
def Returns (x : Registry × Event) (i : ℕ) (req : RegisterRequest)
    (result : Except RegisterError Text) : Prop :=
  ∃ a call, x.2 = .proceed i a ∧ x.1.calls[i]? = some call ∧ call.request = req ∧
    call.phase.isOpen = true ∧
      (stepPhase blake3 svc x.1.server a req call.phase).2 = .returned result

/-- The server runs, and the key is that of the node, which is bound to the tenant of the request. -/
structure Authenticates (s : Registry) (req : RegisterRequest) (key : Text) : Prop where
  running : s.running = true
  authed : s.server.store.authed blake3 req.node key = true
  tenant : s.server.store.nodeTenant req.node = req.tenant

/-- A step leaves what is known of a node as it was. -/
structure Leaves (n : Text) (s s' : Server) : Prop where
  store : s'.store.lookup n = s.store.lookup n
  row : s'.nodes.lookup n = s.nodes.lookup n

structure RegistrationLaw (hist : List (Registry × Event)) (s : Registry) (e : Event) : Prop where
  /-- At most one call gets a key for a node. -/
  once : ∀ i req key, Returns blake3 svc (s, e) i req (.ok key) →
    ∀ x ∈ hist, ∀ i' req' key', Returns blake3 svc x i' req' (.ok key') → req'.node ≠ req.node
  /-- A key that was returned is good from then on. -/
  good : ∀ x ∈ hist ++ [(s, e)], ∀ i req key, Returns blake3 svc x i req (.ok key) →
    Authenticates blake3 (step blake3 svc s e) req key
  /-- A call that returns an error has left the node as it was. -/
  untouched : ∀ i req err, Returns blake3 svc (s, e) i req (.error err) →
    ∀ x ∈ hist ++ [(s, e)], ∀ a, x.2 = .proceed i a →
      Leaves req.node x.1.server (step blake3 svc x.1 x.2).server

/-- What keeps a call's step from going wrong. -/
def RegisterCall.Undisturbed (s : Server) (a : StepAnswer) (call : RegisterCall) : Prop :=
  match call.phase with
  | .absent => s.store.lookup call.request.node = none
  | .inserted _ => a.update = .ok () ∧
      ∀ row, s.nodes.lookup call.request.node = some row → row.revoked = false
  | .notUpdated _ => a.insert = .ok ()
  | _ => True

/-- What keeps an event from going wrong. -/
def Undisturbed (s : Registry) : Event → Prop
  | .arrive _ => True
  | .proceed i a => ∀ call, s.calls[i]? = some call → call.Undisturbed s.server a
  | .restart => (hydrate s.server.nodes).isSome = true

end

/-! ## Phases -/

/-- Nothing has been written for the call. -/
def RegisterPhase.isEarly : RegisterPhase → Bool
  | .arrived | .admitted | .absent => true
  | _ => false

/-- The key of a call that has put its node into the map and has not returned. -/
def RegisterPhase.key : RegisterPhase → Option Text
  | .inserted key | .notUpdated key => some key
  | _ => none

theorem isOpen_of_isEarly {phase : RegisterPhase} (h : phase.isEarly = true) :
    phase.isOpen = true := by
  cases phase <;> first | rfl | cases h

theorem key_of_isEarly {phase : RegisterPhase} (h : phase.isEarly = true) : phase.key = none := by
  cases phase <;> first | rfl | cases h

variable {blake3 : Bytes → Digest} {svc : AuthService} {s : Registry} {hist : List (Registry × Event)}

/-- The row has the key and the tenant of a request, and is not revoked. -/
structure NodeRow.IsOf (blake3 : Bytes → Digest) (req : RegisterRequest) (key : Text) (row : NodeRow) :
    Prop where
  active : row.revoked = false
  hash : row.apiKeyHash = (keyHash blake3 key).toList
  tenant : row.tenantId = req.tenant

/-- Everything that a step of an undisturbed call can do, from a phase to the next. -/
inductive Advance (blake3 : Bytes → Digest) (srv : Server) (req : RegisterRequest) :
    RegisterPhase → Server → RegisterPhase → Prop
  | refuse {phase : RegisterPhase} (early : phase.isEarly = true) (err : RegisterError) :
      Advance blake3 srv req phase srv (.returned (.error err))
  | pass {phase next : RegisterPhase} (early : phase.isEarly = true) (still : next.isEarly = true) :
      Advance blake3 srv req phase srv next
  | enter (new : srv.store.lookup req.node = none) (key : Text) (now : ℤ) :
      Advance blake3 srv req .absent
        { srv with store := srv.store.insert req.node (req.entry blake3 key now) } (.inserted key)
  | wait (key : Text) (noRow : srv.nodes.lookup req.node = none) :
      Advance blake3 srv req (.inserted key) srv (.notUpdated key)
  | persist {phase : RegisterPhase} {key : Text} (entered : phase.key = some key) (row : NodeRow)
      (isOf : row.IsOf blake3 req key) :
      Advance blake3 srv req phase { srv with nodes := srv.nodes.insert req.node row }
        (.returned (.ok key))
  | stay {phase : RegisterPhase} (closed : phase.isOpen = false) :
      Advance blake3 srv req phase srv phase

theorem RegisterCall.Undisturbed.advance {srv : Server} {a : StepAnswer} {call : RegisterCall}
    (h : call.Undisturbed srv a)
    (hrow : ∀ key, call.phase = .notUpdated key → srv.nodes.lookup call.request.node = none) :
    Advance blake3 srv call.request call.phase
      (stepPhase blake3 svc srv a call.request call.phase).1
      (stepPhase blake3 svc srv a call.request call.phase).2 := by
  obtain ⟨req, phase⟩ := call
  cases phase with
  | arrived =>
      simp only [stepPhase]
      rcases admission svc srv a req with err | _
      · exact .refuse rfl err
      · exact .pass rfl rfl
  | admitted =>
      simp only [stepPhase]
      split_ifs
      · exact .refuse rfl _
      · exact .pass rfl rfl
  | absent => exact .enter h a.key a.now
  | inserted key =>
      obtain ⟨hupdate, hactive⟩ := h
      simp only [stepPhase, hupdate]
      rcases hlookup : srv.nodes.lookup req.node with _ | row
      · exact .wait key hlookup
      · exact .persist rfl _ ⟨hactive row hlookup, rfl, rfl⟩
  | notUpdated key =>
      have hinsert : a.insert = .ok () := h
      simp only [stepPhase, hinsert, hrow key rfl]
      exact .persist rfl _ ⟨rfl, rfl, rfl⟩
  | returned result => exact .stay rfl
  | dropped => exact .stay rfl

/-- A step that returns a key is that of a call that has put its node into the map. -/
theorem Advance.key_of_returned {srv srv' : Server} {req : RegisterRequest}
    {phase next : RegisterPhase} {key : Text} (h : Advance blake3 srv req phase srv' next)
    (hopen : phase.isOpen = true) (hnext : next = .returned (.ok key)) : phase.key = some key := by
  cases h with
  | refuse early err => cases hnext
  | pass early still =>
      rw [hnext] at still
      cases still
  | enter new key now => cases hnext
  | wait key noRow => cases hnext
  | persist entered row isOf =>
      cases hnext
      exact entered
  | stay closed =>
      rw [closed] at hopen
      cases hopen

/-- A step that returns an error is that of an early call, and changes nothing. -/
theorem Advance.early_of_returned {srv srv' : Server} {req : RegisterRequest}
    {phase next : RegisterPhase} {err : RegisterError} (h : Advance blake3 srv req phase srv' next)
    (hopen : phase.isOpen = true) (hnext : next = .returned (.error err)) :
    phase.isEarly = true ∧ srv' = srv := by
  cases h with
  | refuse early err => exact ⟨early, rfl⟩
  | pass early still =>
      rw [hnext] at still
      cases still
  | enter new key now => cases hnext
  | wait key noRow => cases hnext
  | persist entered row isOf => cases hnext
  | stay closed =>
      rw [closed] at hopen
      cases hopen

/-! ## What holds along an undisturbed run -/

/-- The map has the node with the key and the tenant of a request. -/
def Entered (blake3 : Bytes → Digest) (store : AuthStore) (req : RegisterRequest) (key : Text) :
    Prop :=
  ∃ entry, store.lookup req.node = some entry ∧ entry.apiKeyHash = keyHash blake3 key ∧
    entry.tenantId = req.tenant

/-- A call that has put its node into the map and has not returned. -/
def Holds (calls : List RegisterCall) (i : ℕ) (req : RegisterRequest) (key : Text) : Prop :=
  ∃ call, calls[i]? = some call ∧ call.request = req ∧ call.phase.key = some key

/-- What is known of the calls and the nodes. -/
structure Inv (blake3 : Bytes → Digest) (svc : AuthService) (hist : List (Registry × Event))
    (s : Registry) : Prop where
  /-- A call in an early phase has changed nothing. -/
  early : ∀ i, (∀ call, s.calls[i]? = some call → call.phase.isEarly = true) →
    ∀ x ∈ hist, ∀ a, x.2 = .proceed i a → (step blake3 svc x.1 x.2).server = x.1.server
  /-- Only a server that runs has calls under way. -/
  running : ∀ (i : ℕ) (call : RegisterCall), s.calls[i]? = some call → call.phase.isOpen = true →
    s.running = true
  /-- A call that is past them has its node in the map, -/
  entered : ∀ i req key, Holds s.calls i req key → Entered blake3 s.server.store req key
  /-- alone, -/
  alone : ∀ i req key j req' key', Holds s.calls i req key → Holds s.calls j req' key' →
    req'.node = req.node → j = i
  /-- with no row yet where the update found none, -/
  noRow : ∀ (i : ℕ) (call : RegisterCall) (key : Text), s.calls[i]? = some call →
    call.phase = .notUpdated key → s.server.nodes.lookup call.request.node = none
  /-- and no other call has returned a key for it. -/
  first : ∀ i req key, Holds s.calls i req key →
    ∀ x ∈ hist, ∀ i' req' key', Returns blake3 svc x i' req' (.ok key') → req'.node ≠ req.node
  /-- A key that was returned is in the map and in the table. -/
  kept : ∀ x ∈ hist, ∀ i req key, Returns blake3 svc x i req (.ok key) →
    s.running = true ∧ Entered blake3 s.server.store req key ∧
      ∃ row, s.server.nodes.lookup req.node = some row ∧ row.IsOf blake3 req key

/-! ## A step of a call -/

/-- The registry after a step of a call. -/
def Registry.after (s : Registry) (i : ℕ) (call : RegisterCall) (srv : Server)
    (next : RegisterPhase) : Registry :=
  { s with server := srv, calls := s.calls.set i { call with phase := next } }

theorem step_proceed {i : ℕ} {a : StepAnswer} {call : RegisterCall} (hcall : s.calls[i]? = some call) :
    step blake3 svc s (.proceed i a) =
      s.after i call (stepPhase blake3 svc s.server a call.request call.phase).1
        (stepPhase blake3 svc s.server a call.request call.phase).2 := by
  simp only [step, hcall, stepCall, Registry.after]

theorem returns_proceed {i j : ℕ} {a : StepAnswer} {call : RegisterCall} {req : RegisterRequest}
    {result : Except RegisterError Text} (hcall : s.calls[i]? = some call)
    (h : Returns blake3 svc (s, .proceed i a) j req result) :
    j = i ∧ req = call.request ∧ call.phase.isOpen = true ∧
      (stepPhase blake3 svc s.server a call.request call.phase).2 = .returned result := by
  obtain ⟨a', call', he, hcall', rfl, hopen, hresult⟩ := h
  cases he
  cases hcall.symm.trans hcall'
  exact ⟨rfl, rfl, hopen, hresult⟩

/-- Where a step returns no key, the keys that were returned were returned before it. -/
theorem mem_of_returns (hist : List (Registry × Event)) {e : Event}
    (hnone : ∀ j req key, ¬ Returns blake3 svc (s, e) j req (.ok key)) :
    ∀ x ∈ hist ++ [(s, e)], ∀ j req key, Returns blake3 svc x j req (.ok key) → x ∈ hist := by
  intro x hx j req key hret
  rcases List.mem_append.mp hx with hold | hnew
  · exact hold
  · cases List.mem_singleton.mp hnew
    exact absurd hret (hnone j req key)

theorem getElem?_after {i j : ℕ} {call call' : RegisterCall} {srv : Server} {next : RegisterPhase}
    (hcall : s.calls[i]? = some call) (h : (s.after i call srv next).calls[j]? = some call') :
    (j = i ∧ call' = { call with phase := next }) ∨ (j ≠ i ∧ s.calls[j]? = some call') := by
  unfold Registry.after at h
  by_cases hj : i = j
  · subst hj
    rw [List.getElem?_set_self (List.getElem?_eq_some_iff.mp hcall).1] at h
    exact .inl ⟨rfl, (Option.some.inj h).symm⟩
  · rw [List.getElem?_set_ne hj] at h
    exact .inr ⟨Ne.symm hj, h⟩

theorem holds_after {i j : ℕ} {call : RegisterCall} {srv : Server} {next : RegisterPhase}
    {req : RegisterRequest} {key : Text} (hcall : s.calls[i]? = some call)
    (h : Holds (s.after i call srv next).calls j req key) :
    (j = i ∧ req = call.request ∧ next.key = some key) ∨ (j ≠ i ∧ Holds s.calls j req key) := by
  obtain ⟨call', hcall', hreq, hkey⟩ := h
  rcases getElem?_after hcall hcall' with ⟨hj, rfl⟩ | ⟨hj, hbefore⟩
  · exact .inl ⟨hj, hreq.symm, hkey⟩
  · exact .inr ⟨hj, call', hbefore, hreq, hkey⟩

section

variable {i : ℕ} {a : StepAnswer} {call : RegisterCall} {srv : Server} {next : RegisterPhase}

/-- A call that stays early has changed nothing in this step either. -/
theorem Inv.early_after (h : Inv blake3 svc hist s) (hcall : s.calls[i]? = some call)
    (hstep : step blake3 svc s (.proceed i a) = s.after i call srv next)
    (hearly : next.isEarly = true → call.phase.isEarly = true ∧ srv = s.server) (j : ℕ)
    (hphase : ∀ call', (s.after i call srv next).calls[j]? = some call' → call'.phase.isEarly = true)
    (x : Registry × Event) (hx : x ∈ hist ++ [(s, .proceed i a)]) (a' : StepAnswer)
    (he : x.2 = .proceed j a') : (step blake3 svc x.1 x.2).server = x.1.server := by
  by_cases hj : j = i
  · subst hj
    have hnext : next.isEarly = true :=
      hphase { call with phase := next }
        (List.getElem?_set_self (List.getElem?_eq_some_iff.mp hcall).1)
    obtain ⟨hbefore, hsrv⟩ := hearly hnext
    rcases List.mem_append.mp hx with hold | hnew
    · refine h.early j (fun call' hcall' => ?_) x hold a' he
      cases hcall.symm.trans hcall'
      exact hbefore
    · cases List.mem_singleton.mp hnew
      rw [hstep]
      exact hsrv
  · rcases List.mem_append.mp hx with hold | hnew
    · refine h.early j (fun call' hcall' => hphase call' ?_) x hold a' he
      unfold Registry.after
      rw [List.getElem?_set_ne (Ne.symm hj)]
      exact hcall'
    · cases List.mem_singleton.mp hnew
      cases he
      exact absurd rfl hj

theorem Inv.running_after (h : Inv blake3 svc hist s) (hcall : s.calls[i]? = some call)
    (hopen : next.isOpen = true → call.phase.isOpen = true) (j : ℕ) (call' : RegisterCall)
    (hcall' : (s.after i call srv next).calls[j]? = some call') (hphase : call'.phase.isOpen = true) :
    s.running = true := by
  rcases getElem?_after hcall hcall' with ⟨rfl, rfl⟩ | ⟨-, hbefore⟩
  · exact h.running j call hcall (hopen hphase)
  · exact h.running j call' hbefore hphase

/-- A step that changes no node and returns no key. -/
theorem Inv.quiet (h : Inv blake3 svc hist s) (hcall : s.calls[i]? = some call)
    (hstep : step blake3 svc s (.proceed i a) = s.after i call s.server next)
    (hearly : next.isEarly = true → call.phase.isEarly = true)
    (hkey : ∀ key, next.key = some key → call.phase.key = some key)
    (hrow : ∀ key, next = .notUpdated key → s.server.nodes.lookup call.request.node = none)
    (hopen : next.isOpen = true → call.phase.isOpen = true)
    (hreturns : ∀ j req key, ¬ Returns blake3 svc (s, .proceed i a) j req (.ok key)) :
    Inv blake3 svc (hist ++ [(s, .proceed i a)]) (s.after i call s.server next) := by
  have hholds : ∀ j req key, Holds (s.after i call s.server next).calls j req key →
      Holds s.calls j req key := by
    intro j req key hj
    rcases holds_after hcall hj with ⟨rfl, rfl, hnext⟩ | ⟨-, hbefore⟩
    · exact ⟨call, hcall, rfl, hkey key hnext⟩
    · exact hbefore
  have hmem := mem_of_returns hist hreturns
  constructor
  · exact h.early_after hcall hstep fun hnext => ⟨hearly hnext, rfl⟩
  · exact h.running_after hcall hopen
  · exact fun j req key hj => h.entered j req key (hholds j req key hj)
  · exact fun j req key k req' key' hj hk => h.alone j req key k req' key' (hholds _ _ _ hj) (hholds _ _ _ hk)
  · intro j call' key hcall' hphase
    rcases getElem?_after hcall hcall' with ⟨rfl, rfl⟩ | ⟨-, hbefore⟩
    · exact hrow key hphase
    · exact h.noRow j call' key hbefore hphase
  · exact fun j req key hj x hx j' req' key' hret =>
      h.first j req key (hholds _ _ _ hj) x (hmem x hx j' req' key' hret) j' req' key' hret
  · exact fun x hx j req key hret => h.kept x (hmem x hx j req key hret) j req key hret

theorem Entered.insert {store : AuthStore} {req : RegisterRequest} {key n : Text}
    (h : Entered blake3 store req key) (hne : req.node ≠ n) (entry : NodeEntry) :
    Entered blake3 (store.insert n entry) req key := by
  obtain ⟨entry', hlookup, hentry⟩ := h
  exact ⟨entry', by rw [AList.lookup_insert_ne hne]; exact hlookup, hentry⟩

theorem Entered.ne {store : AuthStore} {req : RegisterRequest} {key n : Text}
    (h : Entered blake3 store req key) (hnew : store.lookup n = none) : req.node ≠ n := by
  rintro rfl
  obtain ⟨entry, hlookup, -⟩ := h
  rw [hnew] at hlookup
  cases hlookup

/-- A step that puts the node of a call into the map, where it was not. -/
theorem Inv.enter {key : Text} {now : ℤ} (h : Inv blake3 svc hist s)
    (hcall : s.calls[i]? = some call) (hphase : call.phase = .absent)
    (hnew : s.server.store.lookup call.request.node = none)
    (hsrv : srv = { s.server with
      store := s.server.store.insert call.request.node (call.request.entry blake3 key now) })
    (hstep : step blake3 svc s (.proceed i a) = s.after i call srv (.inserted key))
    (hreturns : ∀ j req key, ¬ Returns blake3 svc (s, .proceed i a) j req (.ok key)) :
    Inv blake3 svc (hist ++ [(s, .proceed i a)]) (s.after i call srv (.inserted key)) := by
  have hmem := mem_of_returns hist hreturns
  have hstore : srv.store =
      s.server.store.insert call.request.node (call.request.entry blake3 key now) := by rw [hsrv]
  have hnodes : srv.nodes = s.server.nodes := by rw [hsrv]
  constructor
  · exact h.early_after hcall hstep fun hnext => nomatch hnext
  · exact h.running_after hcall fun _ => by rw [hphase]; rfl
  · intro j req key' hj
    show Entered blake3 srv.store req key'
    rw [hstore]
    rcases holds_after hcall hj with ⟨-, rfl, hkey⟩ | ⟨-, hbefore⟩
    · cases hkey
      exact ⟨_, AList.lookup_insert _, rfl, rfl⟩
    · have hentered := h.entered j req key' hbefore
      exact hentered.insert (hentered.ne hnew) _
  · intro j req key' k req' key'' hj hk hnode
    rcases holds_after hcall hj with ⟨hji, rfl, -⟩ | ⟨-, hj⟩
    · rcases holds_after hcall hk with ⟨hki, -, -⟩ | ⟨-, hk⟩
      · rw [hki, hji]
      · exact absurd hnode ((h.entered k req' key'' hk).ne hnew)
    · rcases holds_after hcall hk with ⟨-, rfl, -⟩ | ⟨-, hk⟩
      · exact absurd hnode.symm ((h.entered j req key' hj).ne hnew)
      · exact h.alone j req key' k req' key'' hj hk hnode
  · intro j call' key' hcall' hphase'
    show srv.nodes.lookup _ = none
    rw [hnodes]
    rcases getElem?_after hcall hcall' with ⟨rfl, rfl⟩ | ⟨-, hbefore⟩
    · cases hphase'
    · exact h.noRow j call' key' hbefore hphase'
  · intro j req key' hj x hx j' req' key'' hret
    have hold := hmem x hx j' req' key'' hret
    rcases holds_after hcall hj with ⟨-, rfl, -⟩ | ⟨-, hj⟩
    · exact (h.kept x hold j' req' key'' hret).2.1.ne hnew
    · exact h.first j req key' hj x hold j' req' key'' hret
  · intro x hx j req key' hret
    obtain ⟨hrunning, hentered, hrow⟩ := h.kept x (hmem x hx j req key' hret) j req key' hret
    refine ⟨hrunning, ?_, ?_⟩
    · show Entered blake3 srv.store req key'
      rw [hstore]
      exact hentered.insert (hentered.ne hnew) _
    · show ∃ row, srv.nodes.lookup req.node = some row ∧ _
      rw [hnodes]
      exact hrow

/-- A step that writes the row of a node and returns its key. -/
theorem Inv.persist {key : Text} {row : NodeRow} (h : Inv blake3 svc hist s)
    (hcall : s.calls[i]? = some call) (hkey : call.phase.key = some key)
    (hrow : row.IsOf blake3 call.request key)
    (hsrv : srv = { s.server with nodes := s.server.nodes.insert call.request.node row })
    (hstep : step blake3 svc s (.proceed i a) = s.after i call srv (.returned (.ok key)))
    (hreturns : ∀ j req key', Returns blake3 svc (s, .proceed i a) j req (.ok key') →
      req = call.request ∧ key' = key) :
    Inv blake3 svc (hist ++ [(s, .proceed i a)]) (s.after i call srv (.returned (.ok key))) := by
  have hholder : Holds s.calls i call.request key := ⟨call, hcall, rfl, hkey⟩
  have hopen : call.phase.isOpen = true := by
    rcases hphase : call.phase with _ | _ | _ | _ | _ | _ | _ <;> rw [hphase] at hkey
    all_goals first | rfl | cases hkey
  have hstore : srv.store = s.server.store := by rw [hsrv]
  have hnodes : srv.nodes = s.server.nodes.insert call.request.node row := by rw [hsrv]
  have hholds : ∀ j req key', Holds (s.after i call srv (.returned (.ok key))).calls j req key' →
      j ≠ i ∧ Holds s.calls j req key' := by
    intro j req key' hj
    rcases holds_after hcall hj with ⟨-, -, hnext⟩ | hbefore
    · cases hnext
    · exact hbefore
  constructor
  · exact h.early_after hcall hstep fun hnext => nomatch hnext
  · exact h.running_after hcall fun _ => hopen
  · intro j req key' hj
    show Entered blake3 srv.store req key'
    rw [hstore]
    exact h.entered j req key' (hholds j req key' hj).2
  · exact fun j req key' k req' key'' hj hk =>
      h.alone j req key' k req' key'' (hholds _ _ _ hj).2 (hholds _ _ _ hk).2
  · intro j call' key' hcall' hphase
    show srv.nodes.lookup _ = none
    rcases getElem?_after hcall hcall' with ⟨rfl, rfl⟩ | ⟨hj, hbefore⟩
    · cases hphase
    · have hne : call'.request.node ≠ call.request.node := fun hnode =>
        hj (h.alone i call.request key j call'.request key' hholder
          ⟨call', hbefore, rfl, by rw [hphase]; rfl⟩ hnode)
      rw [hnodes, AList.lookup_insert_ne hne]
      exact h.noRow j call' key' hbefore hphase
  · intro j req key' hj x hx j' req' key'' hret
    obtain ⟨hne, hj⟩ := hholds j req key' hj
    rcases List.mem_append.mp hx with hold | hnew
    · exact h.first j req key' hj x hold j' req' key'' hret
    · cases List.mem_singleton.mp hnew
      obtain ⟨rfl, -⟩ := hreturns j' req' key'' hret
      exact fun hnode => hne (h.alone i call.request key j req key' hholder hj hnode.symm)
  · intro x hx j req key' hret
    show s.running = true ∧ Entered blake3 srv.store req key' ∧
      ∃ row, srv.nodes.lookup req.node = some row ∧ row.IsOf blake3 req key'
    rw [hstore, hnodes]
    rcases List.mem_append.mp hx with hold | hnew
    · obtain ⟨hrunning, hentered, hkept⟩ := h.kept x hold j req key' hret
      refine ⟨hrunning, hentered, ?_⟩
      rw [AList.lookup_insert_ne (h.first i call.request key hholder x hold j req key' hret)]
      exact hkept
    · cases List.mem_singleton.mp hnew
      obtain ⟨rfl, rfl⟩ := hreturns j req key' hret
      exact ⟨h.running i call hcall hopen, h.entered i call.request key' hholder, row,
        AList.lookup_insert _, hrow⟩

end

/-! ## The other events -/

/-- A call arrives. -/
theorem Inv.arrive (h : Inv blake3 svc hist s) (req : RegisterRequest) :
    Inv blake3 svc (hist ++ [(s, .arrive req)]) (step blake3 svc s (.arrive req)) := by
  have hnone : ∀ j req' key, ¬ Returns blake3 svc (s, .arrive req) j req' (.ok key) :=
    fun _ _ _ ⟨_, _, he, _⟩ => nomatch he
  have hmem := mem_of_returns hist hnone
  have hstep : (step blake3 svc s (.arrive req)).server = s.server ∧
      (step blake3 svc s (.arrive req)).running = s.running := by
    simp only [step]
    split_ifs <;> exact ⟨rfl, rfl⟩
  have hcalls : ∀ (j : ℕ) (call : RegisterCall),
      (step blake3 svc s (.arrive req)).calls[j]? = some call →
        s.calls[j]? = some call ∨ (s.running = true ∧ call.phase = .arrived) := by
    intro j call hcall
    simp only [step] at hcall
    split_ifs at hcall with hrunning
    · rcases Nat.lt_or_ge j s.calls.length with hj | hj
      · rw [List.getElem?_append_left hj] at hcall
        exact .inl hcall
      · rw [List.getElem?_append_right hj] at hcall
        rw [List.mem_singleton.mp (List.mem_of_getElem? hcall)]
        exact .inr ⟨hrunning, rfl⟩
    · exact .inl hcall
  have hgrow : ∀ (j : ℕ) (call : RegisterCall), s.calls[j]? = some call →
      (step blake3 svc s (.arrive req)).calls[j]? = some call := by
    intro j call hcall
    simp only [step]
    split_ifs
    · exact List.getElem?_append_left (List.getElem?_eq_some_iff.mp hcall).1 ▸ hcall
    · exact hcall
  have hholds : ∀ j req' key, Holds (step blake3 svc s (.arrive req)).calls j req' key →
      Holds s.calls j req' key := by
    rintro j req' key ⟨call, hcall, hreq, hkey⟩
    rcases hcalls j call hcall with hbefore | ⟨-, hphase⟩
    · exact ⟨call, hbefore, hreq, hkey⟩
    · rw [hphase] at hkey
      cases hkey
  constructor
  · intro j hphase x hx a he
    rcases List.mem_append.mp hx with hold | hnew
    · exact h.early j (fun call hcall => hphase call (hgrow j call hcall)) x hold a he
    · cases List.mem_singleton.mp hnew
      cases he
  · intro j call hcall hopen
    rw [hstep.2]
    rcases hcalls j call hcall with hbefore | ⟨hrunning, -⟩
    · exact h.running j call hbefore hopen
    · exact hrunning
  · intro j req' key hj
    rw [hstep.1]
    exact h.entered j req' key (hholds j req' key hj)
  · exact fun j req' key k req'' key' hj hk =>
      h.alone j req' key k req'' key' (hholds _ _ _ hj) (hholds _ _ _ hk)
  · intro j call key hcall hphase
    rw [hstep.1]
    rcases hcalls j call hcall with hbefore | ⟨-, harrived⟩
    · exact h.noRow j call key hbefore hphase
    · rw [harrived] at hphase
      cases hphase
  · exact fun j req' key hj x hx j' req'' key' hret =>
      h.first j req' key (hholds _ _ _ hj) x (hmem x hx j' req'' key' hret) j' req'' key' hret
  · intro x hx j req' key hret
    rw [hstep.1, hstep.2]
    exact h.kept x (hmem x hx j req' key hret) j req' key hret

theorem RegisterCall.drop_phase (call : RegisterCall) :
    call.drop.phase.isOpen = false ∧ call.drop.phase.isEarly = false ∧ call.drop.phase.key = none := by
  obtain ⟨req, phase⟩ := call
  cases phase <;> exact ⟨rfl, rfl, rfl⟩

/-- A row of a node that has registered is read back as it was written. -/
theorem entered_hydrate {nodes : Table Text NodeRow} {store : AuthStore} {req : RegisterRequest}
    {key : Text} {row : NodeRow} (hhydrate : hydrate nodes = some store)
    (hlookup : nodes.lookup req.node = some row) (hrow : row.IsOf blake3 req key) :
    Entered blake3 store req key := by
  have hlength : row.apiKeyHash.length = 32 := by
    rw [hrow.hash]
    exact (keyHash blake3 key).2
  have hentry := lookup_hydrate hhydrate req.node
  rw [hlookup, Option.filter_some_pos (by rw [hrow.active]; rfl), Option.bind_some, NodeRow.toEntry,
    dif_pos hlength] at hentry
  refine ⟨_, hentry, ?_, ?_⟩
  · exact Subtype.ext hrow.hash
  · show (row.tenantId.filter fun t => !t.isEmpty) = req.tenant
    rw [hrow.tenant, filter_tenant]

/-- The server stops and starts. -/
theorem Inv.restart (h : Inv blake3 svc hist s) (hhydrate : (hydrate s.server.nodes).isSome = true) :
    Inv blake3 svc (hist ++ [(s, .restart)]) s.restart := by
  obtain ⟨store, hstore⟩ := Option.isSome_iff_exists.mp hhydrate
  have hnone : ∀ j req key, ¬ Returns blake3 svc (s, .restart) j req (.ok key) :=
    fun _ _ _ ⟨_, _, he, _⟩ => nomatch he
  have hmem := mem_of_returns hist hnone
  have hcalls : ∀ (j : ℕ) (call : RegisterCall), s.restart.calls[j]? = some call →
      call.phase.isOpen = false ∧ call.phase.isEarly = false ∧ call.phase.key = none := by
    intro j call hcall
    obtain ⟨before, -, rfl⟩ := List.mem_map.mp (List.mem_of_getElem? hcall)
    exact before.drop_phase
  constructor
  · intro j hphase x hx a he
    rcases List.mem_append.mp hx with hold | hnew
    · refine h.early j (fun call hcall => ?_) x hold a he
      have hdropped : s.restart.calls[j]? = some call.drop := by
        rw [Registry.restart, List.getElem?_map, hcall]
        rfl
      have hearly := hphase call.drop hdropped
      rw [(hcalls j call.drop hdropped).2.1] at hearly
      cases hearly
    · cases List.mem_singleton.mp hnew
      cases he
  · intro j call hcall hopen
    rw [(hcalls j call hcall).1] at hopen
    cases hopen
  · rintro j req key ⟨call, hcall, -, hkey⟩
    rw [(hcalls j call hcall).2.2] at hkey
    cases hkey
  · rintro j req key k req' key' ⟨call, hcall, -, hkey⟩
    rw [(hcalls j call hcall).2.2] at hkey
    cases hkey
  · intro j call key hcall hphase
    have hkey := (hcalls j call hcall).2.2
    rw [hphase] at hkey
    cases hkey
  · rintro j req key ⟨call, hcall, -, hkey⟩
    rw [(hcalls j call hcall).2.2] at hkey
    cases hkey
  · intro x hx j req key hret
    obtain ⟨-, -, row, hlookup, hrow⟩ := h.kept x (hmem x hx j req key hret) j req key hret
    refine ⟨hhydrate, ?_, row, hlookup, hrow⟩
    show Entered blake3 ((hydrate s.server.nodes).getD ∅) req key
    rw [hstore, Option.getD_some]
    exact entered_hydrate hstore hlookup hrow

/-- Nothing happens. -/
theorem Inv.nothing {i : ℕ} {a : StepAnswer} (h : Inv blake3 svc hist s) (hcall : s.calls[i]? = none) :
    Inv blake3 svc (hist ++ [(s, .proceed i a)]) s := by
  have hstep : step blake3 svc s (.proceed i a) = s := by simp only [step, hcall]
  have hnone : ∀ j req key, ¬ Returns blake3 svc (s, .proceed i a) j req (.ok key) := by
    rintro j req key ⟨a', call, he, hcall', -⟩
    cases he
    rw [hcall] at hcall'
    cases hcall'
  have hmem := mem_of_returns hist hnone
  refine ⟨fun j hphase x hx a' he => ?_, h.running, h.entered, h.alone, h.noRow, ?_, ?_⟩
  · rcases List.mem_append.mp hx with hold | hnew
    · exact h.early j hphase x hold a' he
    · cases List.mem_singleton.mp hnew
      rw [hstep]
  · exact fun j req key hj x hx j' req' key' hret =>
      h.first j req key hj x (hmem x hx j' req' key' hret) j' req' key' hret
  · exact fun x hx j req key hret => h.kept x (hmem x hx j req key hret) j req key hret

/-! ## Every undisturbed run -/

/-- What an undisturbed step of a call does. -/
theorem Inv.advance {i : ℕ} {a : StepAnswer} {call : RegisterCall} (h : Inv blake3 svc hist s)
    (hcall : s.calls[i]? = some call) (hcond : Undisturbed s (.proceed i a)) :
    Advance blake3 s.server call.request call.phase
      (stepPhase blake3 svc s.server a call.request call.phase).1
      (stepPhase blake3 svc s.server a call.request call.phase).2 :=
  (hcond call hcall).advance fun key hphase => h.noRow i call key hcall hphase

theorem Inv.step {e : Event} (h : Inv blake3 svc hist s) (hcond : Undisturbed s e) :
    Inv blake3 svc (hist ++ [(s, e)]) (step blake3 svc s e) := by
  cases e with
  | arrive req => exact h.arrive req
  | restart => exact h.restart hcond
  | proceed i a =>
      rcases hcall : s.calls[i]? with _ | call
      · rw [show Nodes.step blake3 svc s (.proceed i a) = s by simp only [Nodes.step, hcall]]
        exact h.nothing hcall
      · have hadvance := h.advance hcall hcond
        have hstep : Nodes.step blake3 svc s (.proceed i a) = s.after i call
            (stepPhase blake3 svc s.server a call.request call.phase).1
            (stepPhase blake3 svc s.server a call.request call.phase).2 := step_proceed hcall
        have hreturns : ∀ j req key, Returns blake3 svc (s, .proceed i a) j req (.ok key) → _ :=
          fun j req key => returns_proceed hcall
        rw [hstep]
        generalize (stepPhase blake3 svc s.server a call.request call.phase).1 = srv at hadvance hstep
        generalize (stepPhase blake3 svc s.server a call.request call.phase).2 = next
          at hadvance hstep hreturns
        generalize hphase : call.phase = phase at hadvance
        cases hadvance with
        | refuse early err =>
            exact h.quiet hcall hstep (fun hnext => nomatch hnext) (fun _ hnext => nomatch hnext)
              (fun _ hnext => nomatch hnext) (fun hnext => nomatch hnext)
              fun j req key hret => nomatch (hreturns j req key hret).2.2.2
        | pass early still =>
            have hopen : call.phase.isOpen = true := by
              rw [hphase]
              exact isOpen_of_isEarly early
            have hkey : next.key = none := key_of_isEarly still
            refine h.quiet hcall hstep (fun _ => by rw [hphase]; exact early) (fun key hnext => ?_)
              (fun key hnext => ?_) (fun _ => hopen) fun j req key hret => ?_
            · rw [hkey] at hnext
              cases hnext
            · rw [hnext] at still
              cases still
            · rw [(hreturns j req key hret).2.2.2] at still
              cases still
        | enter new key now =>
            exact h.enter hcall hphase new rfl hstep
              fun j req key' hret => nomatch (hreturns j req key' hret).2.2.2
        | wait key noRow =>
            exact h.quiet hcall hstep (fun hnext => nomatch hnext)
              (fun key' hnext => by rw [hphase]; exact hnext) (fun _ _ => noRow)
              (fun _ => by rw [hphase]; rfl)
              fun j req key' hret => nomatch (hreturns j req key' hret).2.2.2
        | persist entered row isOf =>
            refine h.persist hcall (hphase ▸ entered) isOf rfl hstep fun j req key' hret => ?_
            obtain ⟨-, hreq, -, hresult⟩ := hreturns j req key' hret
            cases hresult
            exact ⟨hreq, rfl⟩
        | stay closed =>
            refine h.quiet hcall hstep (fun hnext => by rw [hphase]; exact hnext)
              (fun _ hnext => by rw [hphase]; exact hnext) (fun key hnext => ?_)
              (fun hnext => by rw [hphase]; exact hnext) fun j req key hret => ?_
            · rw [hnext] at closed
              cases closed
            · have hopen := (hreturns j req key hret).2.2.1
              rw [hphase, closed] at hopen
              cases hopen

/-- Under the invariant, an undisturbed step does what the law says. -/
theorem Inv.law {e : Event} (h : Inv blake3 svc hist s) (hcond : Undisturbed s e) :
    RegistrationLaw blake3 svc hist s e := by
  have hafter := h.step hcond
  constructor
  · rintro i req key ⟨a, call, he, hcall, rfl, hopen, hresult⟩ x hx i' req' key' hret
    cases he
    have hadvance := h.advance hcall hcond
    refine h.first i call.request key ⟨call, hcall, rfl, ?_⟩ x hx i' req' key' hret
    exact hadvance.key_of_returned hopen hresult
  · intro x hx i req key hret
    obtain ⟨hrunning, ⟨entry, hlookup, hhash, htenant⟩, -⟩ := hafter.kept x hx i req key hret
    refine ⟨hrunning, ?_, ?_⟩
    · simp [AuthStore.authed, hlookup, hhash]
    · simp [AuthStore.nodeTenant, hlookup, htenant]
  · rintro i req err ⟨a, call, he, hcall, rfl, hopen, hresult⟩ x hx a' he'
    cases he
    obtain ⟨hearly, hsame⟩ := (h.advance hcall hcond).early_of_returned hopen hresult
    have hserver : (Nodes.step blake3 svc x.1 x.2).server = x.1.server := by
      rcases List.mem_append.mp hx with hold | hnew
      · refine h.early i (fun call' hcall' => ?_) x hold a' he'
        cases hcall.symm.trans hcall'
        exact hearly
      · cases List.mem_singleton.mp hnew
        rw [step_proceed hcall]
        exact hsame
    rw [hserver]
    exact ⟨rfl, rfl⟩

theorem inv_start (nodes : Table Text NodeRow) : Inv blake3 svc [] (Registry.start nodes) where
  early _ _ _ hx := nomatch hx
  running _ _ hcall := nomatch hcall
  entered _ _ _ := fun ⟨_, hcall, _⟩ => nomatch hcall
  alone _ _ _ _ _ _ := fun ⟨_, hcall, _⟩ => nomatch hcall
  noRow _ _ _ hcall := nomatch hcall
  first _ _ _ _ _ hx := nomatch hx
  kept _ hx := nomatch hx

/-- **When nodes are registered once and for all**: along every run in which no call is overtaken
between its look and its entry, the statements run, no revoked row is updated, and the table can be
read at every start. -/
theorem registration_law (nodes : Table Text NodeRow) (es : List Event)
    (h : Trace.Always (step blake3 svc) (fun _ s e => Undisturbed s e) (Registry.start nodes) es) :
    Trace.Always (step blake3 svc) (fun hist s e => RegistrationLaw blake3 svc hist s e)
      (Registry.start nodes) es :=
  (Trace.Always.of_invariant (I := fun hist s => Inv blake3 svc hist s)
    (φ := fun hist s e => RegistrationLaw blake3 svc hist s e) (inv_start nodes)
    (fun _ _ hinv hcond => hinv.law hcond) (fun _ _ hinv hcond => hinv.step hcond) h).1

/-! ## Two calls for one node -/

instance (srv : Server) (a : StepAnswer) (call : RegisterCall) : Decidable (call.Undisturbed srv a) :=
  match hphase : call.phase with
  | .absent => decidable_of_iff ((srv.store.lookup call.request.node).isNone = true) <| by
      simp [RegisterCall.Undisturbed, hphase]
  | .inserted _ => decidable_of_iff
      (a.update = .ok () ∧ ((srv.nodes.lookup call.request.node).all fun row => !row.revoked) = true) <| by
      simp [RegisterCall.Undisturbed, hphase, Option.all_eq_true]
  | .notUpdated _ => decidable_of_iff (a.insert = .ok ()) <| by
      simp [RegisterCall.Undisturbed, hphase]
  | .arrived | .admitted | .returned _ | .dropped => isTrue <| by
      simp [RegisterCall.Undisturbed, hphase]

instance (s : Registry) (e : Event) : Decidable (Undisturbed s e) :=
  match e with
  | .arrive _ => isTrue trivial
  | .proceed i a => decidable_of_iff
      (∀ call ∈ s.calls[i]?.toList, call.Undisturbed s.server a) <| by simp [Undisturbed]
  | .restart => inferInstanceAs (Decidable (_ = true))

/-- Everyone may register, without a quota. -/
def plainService : AuthService := ⟨.open_, true, none, none⟩

/-- Two nodes register, step by step in turn, and the server restarts. -/
def registerAndRestart : List Event :=
  .arrive (sampleRequest "n1" "a") :: .arrive (sampleRequest "n2" "b") ::
    (List.replicate 5 [Event.proceed 0 (sampleAnswer "k1"), .proceed 1 (sampleAnswer "k2")]).flatten ++
    [.restart]

theorem law_registerAndRestart :
    Trace.Always (step sampleHash plainService)
      (fun hist s e => RegistrationLaw sampleHash plainService hist s e) (Registry.start ∅)
      registerAndRestart :=
  registration_law ∅ registerAndRestart (Trace.always_of_check (by decide +kernel))

/-- Two calls for one node, of two tenants: both look, both enter, and both return a key. -/
def twoCalls : List Event :=
  [.arrive (sampleRequest "n1" "a"), .arrive (sampleRequest "n1" "b"),
    .proceed 0 (sampleAnswer "k1"), .proceed 0 (sampleAnswer "k1"),
    .proceed 1 (sampleAnswer "k2"), .proceed 1 (sampleAnswer "k2"),
    .proceed 0 (sampleAnswer "k1"), .proceed 1 (sampleAnswer "k2"),
    .proceed 0 (sampleAnswer "k1"), .proceed 0 (sampleAnswer "k1")]

/-- The first key is no good when it is returned: the second call has put its own into the map. -/
theorem not_law_twoCalls :
    ¬ Trace.Always (step sampleHash plainService)
      (fun hist s e => RegistrationLaw sampleHash plainService hist s e) (Registry.start ∅)
      twoCalls := by
  intro h
  have hlast := h (twoCalls.take 9) (.proceed 0 (sampleAnswer "k1")) [] rfl
  have hgood := hlast.good _ (List.mem_append_right _ List.mem_cons_self) 0 (sampleRequest "n1" "a")
    (sampleAnswer "k1").key ⟨_, _, rfl, rfl, rfl, rfl, rfl⟩
  have hauthed := hgood.authed
  revert hauthed
  decide +kernel

end DiskArcana.Nodes
