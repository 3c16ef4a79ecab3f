import DiskArcana.Lib.Trace
import DiskArcana.Tenancy.Trash

/-!
# One database or many

With a directory for tenants, the data of each tenant is in a database file of its own, under a key
that is the tenant's id where the id is accepted as a file name, and the rest stays in the control
database. Without, everything is in the control database.

For the calls that go through the router it makes no difference, whatever their order
(`routerLaw`): two tenants may share a file, but no statement sees rows of another tenant. The hourly
removal of expired trash does not go through the router as a whole. It asks the control database whose
trash there is (`scheduleStep`), and so does the share index, which writes its rows there.
-/

namespace DiskArcana.Tenancy

open DiskArcana.Core DiskArcana.Lib DiskArcana.Lib.Trace DiskArcana.Server
open DiskArcana.Accounts (PlanTier VaultShareRole)

/-! ## Where the rows are -/

/-- Source: `disk-core/src/tenant_db.rs`, `sanitize_tenant_id` -/
def sanitizeTenantId (tenantId : String) : Except String String :=
  if 64 < tenantId.utf8ByteSize then .error "tenant_id exceeds 64 characters"
  else if tenantId.toList.all fun c => c.isAlphanum || c == '-' || c == '_' then .ok tenantId
  else .error "tenant_id contains invalid characters"

/-- Source: `disk-core/src/tenant_db.rs`, `tenant_shard_key` -/
def tenantShardKey (tenantId : Option String) : Except String String :=
  match tenantId.filter fun t => t != "" with
  | none => .ok "_legacy"
  | some t => sanitizeTenantId t

/-- A database file. -/
inductive Database where
  | control
  | shard (key : String)
  deriving DecidableEq

/-- Source: `disk-core/src/tenant_db.rs`, `TenantMetaRouter::tenant_data` -/
def tenantData (split : Bool) (tenantId : Option String) : Except String Database :=
  if split then (tenantShardKey tenantId).map .shard else .ok .control

/-- The database with the rows of an owner. -/
def locate (split : Bool) : Owner → Except String Database
  | .control => .ok .control
  | .tenant tenantId => tenantData split tenantId

/-! ## The hourly removal of expired trash -/

/-- What `prune_all_tenants` does next. -/
inductive SchedulePhase where
  | start
  | plan (tenants : List (Option String)) (total : ℕ)
  | vaults (tenantId : Option String) (tier : PlanTier) (rest : List (Option String)) (total : ℕ)
  | prune (tenantId : Option String) (tier : PlanTier) (vaults : List String) (rest : List (Option String))
      (total : ℕ)
  | done (answer : Except String ℕ)
  deriving DecidableEq

/-- Source: `trash/scheduler.rs`, `prune_all_tenants` -/
def scheduleStep (split : Bool) (plans : Option String → PlanTier) (now : ℤ) (dbs : Database → Tables) :
    SchedulePhase → (Database → Tables) × SchedulePhase
  | .start => (dbs, .plan (dbs .control).listTrashTenantIds 0)
  | .plan [] total => (dbs, .done (.ok total))
  | .plan (tenantId :: rest) total => (dbs, .vaults tenantId (plans tenantId) rest total)
  | .vaults tenantId tier rest total =>
      match tenantData split tenantId with
      | .error e => (dbs, .done (.error e))
      | .ok db => (dbs, .prune tenantId tier ((dbs db).listVaultsWithTrash tenantId) rest total)
  | .prune _ _ [] rest total => (dbs, .plan rest total)
  | .prune tenantId tier (vaultId :: vaults) rest total =>
      match tenantData split tenantId with
      | .error e => (dbs, .done (.error e))
      | .ok db =>
          let (t, pruned) := (dbs db).pruneExpiredTrash (tenantId, vaultId) (trashRetention tier) now
          (Function.update dbs db t, .prune tenantId tier vaults rest (min (total + pruned) (2 ^ 32 - 1)))
  | .done answer => (dbs, .done answer)

/-! ## The server -/

/-- A request for the data of a tenant, or for what is kept about the tenants. -/
inductive Request where
  | upsertFileScoped (scope : VaultKey) (m : FileMeta)
  | upsertFileScopedVersioned (scope : VaultKey) (m : FileMeta) (ctx : MetaDb.FileVersionUpsert)
  | registerTenantVault (k : VaultKey)
  | upsertVaultMember (k : MemberKey) (role : VaultShareRole) (grantedBy : String)
  | bumpAgentWriteRevision (k : PathKey) (expected : ℕ) (contentHash : Digest) (updatedBy : String)
  | listTrash (scope : VaultKey) (limit offset : ℕ)
  | deleteTrash (scope : VaultKey) (path : Path)
  | emptyTrash (scope : VaultKey)

/-- The call that a request starts. -/
def Request.call : Request → DataCall
  | .upsertFileScoped scope m => .writer (.file scope m .update)
  | .upsertFileScopedVersioned scope m ctx => .writer (.versioned scope m ctx .read)
  | .registerTenantVault k => .writer (.vault k false)
  | .upsertVaultMember k role grantedBy => .writer (.member k role grantedBy none)
  | .bumpAgentWriteRevision k expected contentHash updatedBy =>
      .writer (.revision k expected contentHash updatedBy .read)
  | .listTrash scope limit offset => .listTrash scope limit offset .plan
  | .deleteTrash scope path => .deleteTrash scope path none
  | .emptyTrash scope => .emptyTrash scope none

/-- A call that is under way. The share index stores its files without a tenant. -/
inductive Call where
  | data (c : DataCall)
  | index (vaultId : String) (m : FileMeta) (phase : FilePhase)
  | schedule (phase : SchedulePhase)
  | failed

structure Server where
  databases : Database → Tables
  plans : Option String → PlanTier
  calls : Table ℕ Call

/-- A server with empty databases. -/
def Server.new (plans : Option String → PlanTier) : Server := ⟨fun _ => .empty, plans, ∅⟩

inductive ServerEvent where
  /-- Calls come in. -/
  | request (id : ℕ) (r : Request)
  | index (id : ℕ) (vaultId : String) (m : FileMeta)
  | schedule (id : ℕ)
  /-- A call takes its next statement, at some time, or that statement fails. -/
  | proceed (id : ℕ) (now : ℤ)
  | fail (id : ℕ)
  /-- A tenant gets a plan. -/
  | setPlan (tenantId : Option String) (tier : PlanTier)

/-- A call that comes in under an identifier that is taken is not a call. -/
def Server.arrive (s : Server) (id : ℕ) (c : Call) : Server :=
  if (s.calls.lookup id).isSome then s else { s with calls := s.calls.insert id c }

variable (accounts : List String) (contains : Digest → Bool) (split : Bool)

/-- The next statement of a call. -/
def Server.statement (s : Server) (now : ℤ) : Call → (Database → Tables) × Call
  | .data c =>
      match locate split c.owner with
      | .error _ => (s.databases, .failed)
      | .ok db =>
          let (t, c) := dataStep ⟨accounts, s.plans, contains⟩ now (s.databases db) c
          (Function.update s.databases db t, .data c)
  | .index vaultId m phase =>
      let (t, phase) := fileStep (s.databases .control) (none, vaultId) m phase
      (Function.update s.databases .control t, .index vaultId m phase)
  | .schedule phase =>
      let (dbs, phase) := scheduleStep split s.plans now s.databases phase
      (dbs, .schedule phase)
  | .failed => (s.databases, .failed)

/-- A request for a tenant without a database is answered with an error. -/
def serverStep (s : Server) : ServerEvent → Server
  | .request id r =>
      match locate split r.call.owner with
      | .error _ => s
      | .ok _ => s.arrive id (.data r.call)
  | .index id vaultId m => s.arrive id (.index vaultId m .update)
  | .schedule id => s.arrive id (.schedule .start)
  | .proceed id now =>
      match s.calls.lookup id with
      | none => s
      | some c =>
          let (databases, c) := s.statement accounts contains split now c
          { s with databases, calls := s.calls.insert id c }
  | .fail id => if (s.calls.lookup id).isSome then { s with calls := s.calls.insert id .failed } else s
  | .setPlan tenantId tier => { s with plans := Function.update s.plans tenantId tier }

/-! ## Through the router -/

/-- Calls that go through the router. -/
def Routed : ServerEvent → Prop
  | .index _ _ _ => False
  | .schedule _ => False
  | _ => True

/-- The id of the tenant is accepted, if the event is a request. -/
def Accepted : ServerEvent → Bool
  | .request _ r => (locate true r.call.owner).isOk
  | _ => true

/-- What many databases owe to one. -/
structure RouterLaw (accounts : List String) (contains : Digest → Bool) (many one : Server) : Prop where
  /-- Every call is as far, with the same answer. -/
  calls : many.calls = one.calls
  /-- An owner has the same rows. -/
  rows : ∀ o db, locate true o = .ok db → ownRows o (many.databases db) = ownRows o (one.databases .control)
  /-- A database has no rows of others. -/
  apart : ∀ o db, locate true o ≠ .ok db → ownRows o (many.databases db) = .empty
  /-- The next statement of a call goes by the rows of its owner alone, whoever shares the database. -/
  unseen : ∀ now db t c, ownRows c.owner t = ownRows c.owner (many.databases db) →
    (dataStep ⟨accounts, many.plans, contains⟩ now t c).2 =
      (dataStep ⟨accounts, many.plans, contains⟩ now (many.databases db) c).2
  /-- It leaves the rows of the others alone. -/
  untouched : ∀ now db c o, o ≠ c.owner →
    ownRows o (dataStep ⟨accounts, many.plans, contains⟩ now (many.databases db) c).1 =
      ownRows o (many.databases db)

theorem locate_false (o : Owner) : locate false o = .ok .control := by
  cases o <;> rfl

/-- A call keeps its owner. -/
theorem dataStep_owner (env : Surroundings) (now : ℤ) (t : Tables) (c : DataCall) :
    (dataStep env now t c).2.owner = c.owner := by
  rcases c with (w | ⟨scope, limit, offset, phase⟩ | ⟨scope, path, _ | deleted⟩ | ⟨scope, _ | rows⟩)
  · rcases w with ⟨scope, m, phase⟩ | ⟨scope, m, ctx, phase⟩ | ⟨k, _ | _⟩ |
      ⟨k, role, grantedBy, _ | answer⟩ | ⟨k, expected, contentHash, updatedBy, phase⟩ <;> rfl
  all_goals rfl

/-- The database of an owner that has one. -/
def databaseOf (o : Owner) : Database := (locate true o).toOption.getD .control

theorem databaseOf_eq {o : Owner} {db : Database} (h : locate true o = .ok db) : databaseOf o = db := by
  unfold databaseOf
  rw [h]
  rfl

/-- The relation between the two that every step keeps. -/
structure Agree (many one : Server) : Prop where
  calls : many.calls = one.calls
  plans : many.plans = one.plans
  located : ∀ id c, many.calls.lookup id = some c →
    c = .failed ∨ ∃ d db, c = .data d ∧ locate true d.owner = .ok db
  parts : SameParts ownRows databaseOf (one.databases .control) many.databases
  apart : ∀ o db, locate true o ≠ .ok db → ownRows o (many.databases db) = .empty

theorem ownRows_empty (o : Owner) : ownRows o .empty = .empty := by
  cases o <;> rfl

theorem agree_new (plans : Option String → PlanTier) : Agree (Server.new plans) (Server.new plans) where
  calls := rfl
  plans := rfl
  located id c h := by cases h
  parts _ := rfl
  apart o _ _ := ownRows_empty o

section

variable {accounts contains} {many one : Server}

/-- The calls change alike, and the databases do not. -/
theorem Agree.setCall (h : Agree many one) (id : ℕ) {c : Call}
    (hc : c = .failed ∨ ∃ d db, c = .data d ∧ locate true d.owner = .ok db) :
    Agree { many with calls := many.calls.insert id c } { one with calls := one.calls.insert id c } where
  calls := by rw [h.calls]
  plans := h.plans
  located id' c' hlookup := by
    by_cases hid : id' = id
    · rw [hid, AList.lookup_insert, Option.some.injEq] at hlookup
      exact hlookup ▸ hc
    · rw [AList.lookup_insert_ne hid] at hlookup
      exact h.located id' c' hlookup
  parts := h.parts
  apart := h.apart

theorem Agree.arrive (h : Agree many one) (id : ℕ) {c : Call}
    (hc : c = .failed ∨ ∃ d db, c = .data d ∧ locate true d.owner = .ok db) :
    Agree (many.arrive id c) (one.arrive id c) := by
  unfold Server.arrive
  rw [h.calls]
  split_ifs
  · exact h
  · rw [← h.calls]
    have hset := h.setCall id hc
    rw [← h.calls] at hset
    exact hset

/-- Replace a database. -/
def Server.setDatabase (s : Server) (db : Database) (t : Tables) : Server :=
  { s with databases := Function.update s.databases db t }

variable (accounts contains) in
/-- A statement on the database of its owner. -/
theorem Agree.statement (h : Agree many one) (now : ℤ) {d : DataCall} {db : Database}
    (hlocate : locate true d.owner = .ok db) :
    (dataStep ⟨accounts, many.plans, contains⟩ now (many.databases db) d).2 =
        (dataStep ⟨accounts, one.plans, contains⟩ now (one.databases .control) d).2 ∧
      Agree (many.setDatabase db (dataStep ⟨accounts, many.plans, contains⟩ now (many.databases db) d).1)
        (one.setDatabase .control
          (dataStep ⟨accounts, one.plans, contains⟩ now (one.databases .control) d).1) := by
  obtain ⟨hanswer, hparts⟩ := (dataLocal ⟨accounts, one.plans, contains⟩ now).sharded h.parts d
  rw [databaseOf_eq hlocate] at hanswer hparts
  rw [h.plans]
  refine ⟨hanswer, h.calls, h.plans, h.located, ?_, fun o db' hother => ?_⟩
  · unfold Server.setDatabase
    dsimp only
    rw [Function.update_self]
    exact hparts
  · unfold Server.setDatabase
    dsimp only
    by_cases hdb : db' = db
    · rw [hdb, Function.update_self, (dataLocal ⟨accounts, one.plans, contains⟩ now).others ?_]
      · exact h.apart o db (hdb ▸ hother)
      · rintro rfl
        exact hother (hdb ▸ hlocate)
    · rw [Function.update_of_ne hdb]
      exact h.apart o db' hother

/-- A refused request changes nothing. -/
theorem serverStep_of_not_accepted {e : ServerEvent} (he : Accepted e = false) :
    serverStep accounts contains true many e = many := by
  cases e with
  | request id r =>
      rcases hlocate : locate true r.call.owner with error | db
      · rw [serverStep, hlocate]
      · rw [Accepted, hlocate] at he
        cases he
  | index id vaultId m => cases he
  | schedule id => cases he
  | proceed id now => cases he
  | fail id => cases he
  | setPlan tenantId tier => cases he

theorem Agree.step (h : Agree many one) {e : ServerEvent} (he : Routed e) (haccepted : Accepted e = true) :
    Agree (serverStep accounts contains true many e) (serverStep accounts contains false one e) := by
  cases e with
  | request id r =>
      rcases hlocate : locate true r.call.owner with error | db
      · rw [Accepted, hlocate] at haccepted
        cases haccepted
      · rw [serverStep, serverStep, hlocate, locate_false]
        exact h.arrive id (.inr ⟨r.call, db, rfl, hlocate⟩)
  | index id vaultId m => cases he
  | schedule id => cases he
  | proceed id now =>
      rcases hcall : many.calls.lookup id with _ | c
      · have hone : one.calls.lookup id = none := h.calls ▸ hcall
        rw [serverStep, serverStep, hcall, hone]
        exact h
      · have hone : one.calls.lookup id = some c := h.calls ▸ hcall
        rw [serverStep, serverStep, hcall, hone]
        rcases h.located id c hcall with rfl | ⟨d, db, rfl, hlocate⟩
        · exact h.setCall id (.inl rfl)
        · obtain ⟨hanswer, hagree⟩ := h.statement accounts contains now hlocate
          have hset := hagree.setCall id (c := .data (dataStep ⟨accounts, many.plans, contains⟩ now
            (many.databases db) d).2) (.inr ⟨_, db, rfl, by rw [dataStep_owner]; exact hlocate⟩)
          simp only [Server.statement, hlocate, locate_false, ← hanswer]
          exact hset
  | fail id =>
      rw [serverStep, serverStep, h.calls]
      split_ifs
      · have hset := h.setCall id (c := .failed) (.inl rfl)
        rwa [h.calls] at hset
      · exact h
  | setPlan tenantId tier =>
      exact ⟨h.calls, by rw [serverStep, serverStep, h.plans], h.located, h.parts, h.apart⟩

variable (accounts contains) in
theorem Agree.run (h : Agree many one) {es : List ServerEvent} (hes : ∀ e ∈ es, Routed e) :
    Agree (run (serverStep accounts contains true) many es)
      (run (serverStep accounts contains false) one (es.filter Accepted)) := by
  induction es generalizing many one with
  | nil => exact h
  | cons e es ih =>
      have htail : ∀ e' ∈ es, Routed e' := fun e' he' => hes e' (List.mem_cons_of_mem e he')
      rw [run_cons, List.filter_cons]
      rcases haccepted : Accepted e with _ | _
      · rw [if_neg Bool.false_ne_true, serverStep_of_not_accepted haccepted]
        exact ih h htail
      · rw [if_pos rfl, run_cons]
        exact ih (h.step (hes e List.mem_cons_self) haccepted) htail

end

/-- **Many databases are as good as one** for the calls that go through the router. -/
theorem routerLaw (plans : Option String → PlanTier) {es : List ServerEvent} (hes : ∀ e ∈ es, Routed e) :
    RouterLaw accounts contains (run (serverStep accounts contains true) (.new plans) es)
      (run (serverStep accounts contains false) (.new plans) (es.filter Accepted)) := by
  obtain ⟨hcalls, -, -, hparts, hapart⟩ := (agree_new plans).run accounts contains hes
  refine ⟨hcalls, fun o db hlocate => ?_, hapart, ?_, ?_⟩
  · rw [← databaseOf_eq hlocate]
    exact hparts o
  · exact fun now db t c hown => (dataLocal _ now).answer_eq hown
  · exact fun now db c o hother => (dataLocal _ now).others hother

/-- A file of one tenant, a listing for another, and a request of a third that cannot have a database. -/
def sampleRequests : List ServerEvent :=
  [.request 0 (.upsertFileScoped (some "acme", "wiki")
      ⟨["a.md"], List.Vector.replicate 32 0, 4, 1, none, .new, false, none, "n", none, none, none⟩),
    .proceed 0 1, .proceed 0 1, .request 1 (.listTrash (some "beta", "wiki") 20 0), .proceed 1 2,
    .request 2 (.emptyTrash (some "../acme", "wiki"))]

theorem routerLaw_sample : RouterLaw [] (fun _ => false)
      (run (serverStep [] (fun _ => false) true) (.new fun _ => .free) sampleRequests)
      (run (serverStep [] (fun _ => false) false) (.new fun _ => .free) (sampleRequests.filter Accepted)) ∧
    sampleRequests.map Accepted = [true, true, true, true, true, false] :=
  ⟨routerLaw [] (fun _ => false) (fun _ => .free) (by simp [sampleRequests, Routed]), by decide +kernel⟩

end DiskArcana.Tenancy
