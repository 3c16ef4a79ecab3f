import DiskArcana.Tenancy.Router

/-!
# What becomes of trash

A deleted file stays in the trash for as long as the plan of its tenant says, from the time of its
deletion, unless someone who may removes it. Whatever the order of the statements, no row is removed
earlier, and never one of a file that is there (`RemovedOnly`). Plans are read before the rows are
removed, so it is a plan that the tenant had some time before.

With one database, an hourly run that gets to its end leaves nothing that was due. With many, it only
gets to tenants of whom the control database has trash, which the share index writes and no tenant
does (`retentionLaw`).
-/

namespace DiskArcana.Tenancy

open DiskArcana.Core DiskArcana.Lib DiskArcana.Lib.Trace DiskArcana.Server
open DiskArcana.Accounts (PlanTier)

/-! ## The law -/

abbrev ServerHistory := List (Server × ServerEvent)

/-- The tenant had a plan at some moment. -/
def HadPlan (hist : ServerHistory) (tenantId : Option String) (tier : PlanTier) : Prop :=
  ∃ x ∈ hist, x.1.plans tenantId = tier

/-- At some moment the control database had trash of the tenant. -/
def HadTrash (hist : ServerHistory) (tenantId : Option String) : Prop :=
  ∃ x ∈ hist, ∃ e ∈ (x.1.databases .control).files, e.1.1 = tenantId ∧ e.2.deleted = true

/-- The next statement of a call removes the file from the trash, or the whole trash. -/
def Requested (s : Server) (id : ℕ) (k : PathKey) : Prop :=
  s.calls.lookup id = some (.data (.deleteTrash (k.1, k.2.1) k.2.2 none)) ∨
    s.calls.lookup id = some (.data (.emptyTrash (k.1, k.2.1) none))

/-- The row has been in the trash for longer than a plan of its tenant lets it be. -/
def Expired (hist : ServerHistory) (now : ℤ) (k : PathKey) (row : FileRow) : Prop :=
  ∃ tier, HadPlan hist k.1 tier ∧ deletedBefore (now - trashRetention tier) row = true

variable (accounts : List String) (contains : Digest → Bool) (split : Bool)

/-- What a step removes. -/
def RemovedOnly (hist : ServerHistory) (s : Server) (e : ServerEvent) : Prop :=
  ∀ db k row, (k, row) ∈ (s.databases db).files →
    k ∉ SqlRows.keys ((serverStep accounts contains split s e).databases db).files →
      row.deleted = true ∧ ∃ id now, e = .proceed id now ∧
        (Requested s id k ∨ Expired hist now k row ∧
          ∀ phase, s.calls.lookup id = some (.schedule phase) → HadTrash hist k.1)

/-- A run of the hourly removal that comes in and gets to its end. -/
structure Completes (s : Server) (id : ℕ) (es : List ServerEvent) : Prop where
  fresh : s.calls.lookup id = none
  done : ∃ total, (run (serverStep accounts contains split) s (.schedule id :: es)).calls.lookup id =
    some (.schedule (.done (.ok total)))

/-- The row is in the control database from the first state of a run to the last. -/
def StaysThroughout (k : PathKey) (row : FileRow) (s : Server) (es : List ServerEvent) : Prop :=
  ∀ pre post, es = pre ++ post →
    (k, row) ∈ ((run (serverStep accounts contains split) s pre).databases .control).files

structure RetentionLaw (plans : Option String → PlanTier) (es : List ServerEvent) : Prop where
  removed : Always (serverStep accounts contains split) (RemovedOnly accounts contains split) (.new plans) es
  /-- What is in the trash all along is not due at some time of the run. -/
  complete : split = false → ∀ pre id post, es = pre ++ .schedule id :: post →
    Completes accounts contains split (run (serverStep accounts contains split) (.new plans) pre) id post →
      ∀ k row, row.deleted = true →
        StaysThroughout accounts contains split k row
          (run (serverStep accounts contains split) (.new plans) (pre ++ [.schedule id])) post →
        ∃ now tier, (.proceed id now ∈ post) ∧
          HadPlan (history (serverStep accounts contains split) (.new plans) es) k.1 tier ∧
            deletedBefore (now - trashRetention tier) row = false

/-! ## What statements remove -/

section

variable {t : Tables} {k : PathKey} {row : FileRow}

/-- What is not among the keys after rows are deleted was deleted. -/
theorem of_removed {p : PathKey × FileRow → Bool} (hmem : (k, row) ∈ t.files)
    (hgone : k ∉ SqlRows.keys (t.deleteFiles p).1.files) : p (k, row) = true := by
  by_contra hp
  apply hgone
  refine List.mem_map.mpr ⟨(k, row), List.mem_filter.mpr ⟨hmem, ?_⟩, rfl⟩
  rw [Bool.not_eq_true] at hp
  rw [hp]
  rfl

theorem of_trashed {scope : VaultKey} (h : trashed scope (k, row) = true) :
    scope = (k.1, k.2.1) ∧ row.deleted = true := by
  unfold trashed at h
  simp only [Bool.and_eq_true, decide_eq_true_eq] at h
  exact ⟨Prod.ext h.1.1.symm h.1.2.symm, h.2⟩

/-- What is pruned is trash of the vault, past its time. -/
theorem of_pruned {scope : VaultKey} {maxAgeSecs now : ℤ} (hmem : (k, row) ∈ t.files)
    (hgone : k ∉ SqlRows.keys (t.pruneExpiredTrash scope maxAgeSecs now).1.files) :
    scope = (k.1, k.2.1) ∧ row.deleted = true ∧ deletedBefore (now - maxAgeSecs) row = true := by
  obtain ⟨htrashed, hexpired⟩ := Bool.and_eq_true_iff.mp (of_removed hmem hgone)
  obtain ⟨hscope, hdeleted⟩ := of_trashed htrashed
  exact ⟨hscope, hdeleted, hexpired⟩

/-- A file statement removes no row. -/
theorem keys_fileStep (t : Tables) (scope : VaultKey) (m : FileMeta) (phase : FilePhase) :
    SqlRows.keys t.files ⊆ SqlRows.keys (fileStep t scope m phase).1.files := by
  cases phase with
  | update =>
      rw [fileStep]
      split_ifs
      · dsimp only
        exact SqlRows.keys_subset_updateWhere
      · exact List.Subset.refl _
  | insert =>
      rw [fileStep]
      rcases hinsert : SqlRows.insert noTenant t.files (pathKey scope m) (MetaDb.upsertRow none m) with _ | rows
      · exact List.Subset.refl _
      · exact SqlRows.keys_subset_of_insert hinsert
  | done answer => exact List.Subset.refl _

/-- Nor does one of a version. -/
theorem keys_versionedStep (t : Tables) (scope : VaultKey) (m : FileMeta) (ctx : MetaDb.FileVersionUpsert)
    (now : ℤ) (phase : VersionedPhase) :
    SqlRows.keys t.files ⊆ SqlRows.keys (versionedStep t scope m ctx now phase).1.files := by
  cases phase with
  | read =>
      rw [versionedStep]
      rcases MetaDb.nextVersion (SqlRows.select t.files (pathKey scope m)) m ctx.createdBy now with
        ⟨v, p, _ | row⟩
      · exact List.Subset.refl _
      · exact List.Subset.refl _
  | record row v p =>
      rw [versionedStep]
      cases SqlRows.insert noTenant t.fileVersions (scope.1, scope.2, m.path, row.versionId) row
      · exact List.Subset.refl _
      · exact List.Subset.refl _
  | update v p =>
      rw [versionedStep]
      split_ifs
      · dsimp only
        exact SqlRows.keys_subset_updateWhere
      · exact List.Subset.refl _
  | insert v p =>
      rw [versionedStep]
      rcases hinsert : SqlRows.insert noTenant t.files (pathKey scope m) (fileRowOfMeta m (some v) (some p)) with
        _ | rows
      · exact List.Subset.refl _
      · exact SqlRows.keys_subset_of_insert hinsert
  | prune v => exact List.Subset.refl _
  | done answer => exact List.Subset.refl _

/-- Writers remove no file. -/
theorem keys_writerStep (now : ℤ) (t : Tables) (w : Writer) :
    SqlRows.keys t.files ⊆ SqlRows.keys (writerStep accounts now t w).1.files := by
  rcases w with ⟨scope, m, phase⟩ | ⟨scope, m, ctx, phase⟩ | ⟨k, _ | _⟩ |
    ⟨k, role, grantedBy, _ | answer⟩ | ⟨k, expected, contentHash, updatedBy, phase⟩
  · exact keys_fileStep t scope m phase
  · exact keys_versionedStep t scope m ctx now phase
  · exact List.Subset.refl _
  · exact List.Subset.refl _
  · show _ ⊆ SqlRows.keys (memberStep accounts t k role grantedBy now).1.files
    unfold memberStep
    split_ifs <;> exact List.Subset.refl _
  · exact List.Subset.refl _
  · show _ ⊆ SqlRows.keys (revisionStep t k expected contentHash updatedBy now phase).1.files
    cases phase with
    | read =>
        rw [revisionStep]
        split_ifs <;> exact List.Subset.refl _
    | write => exact List.Subset.refl _
    | readBack =>
        rw [revisionStep]
        split_ifs <;> exact List.Subset.refl _
    | done answer => exact List.Subset.refl _

/-- **What a call on the data of a tenant removes.** -/
theorem of_removed_dataStep {env : Surroundings} {now : ℤ} {c : DataCall} (hmem : (k, row) ∈ t.files)
    (hgone : k ∉ SqlRows.keys (dataStep env now t c).1.files) :
    row.deleted = true ∧ (c = .deleteTrash (k.1, k.2.1) k.2.2 none ∨ c = .emptyTrash (k.1, k.2.1) none ∨
      ∃ limit offset tier, c = .listTrash (k.1, k.2.1) limit offset (.prune tier) ∧
        deletedBefore (now - trashRetention tier) row = true) := by
  have hkey : k ∈ SqlRows.keys t.files := List.mem_map_of_mem hmem
  rcases c with w | ⟨scope, limit, offset, phase⟩ | ⟨scope, path, _ | deleted⟩ | ⟨scope, _ | rows⟩
  · exact absurd (keys_writerStep env.accounts now t w hkey) hgone
  · cases phase with
    | prune tier =>
        obtain ⟨rfl, hdeleted, hexpired⟩ := of_pruned hmem hgone
        exact ⟨hdeleted, .inr (.inr ⟨limit, offset, tier, rfl, hexpired⟩)⟩
    | plan => exact absurd hkey hgone
    | count tier pruned => exact absurd hkey hgone
    | list tier pruned total => exact absurd hkey hgone
    | done answer => exact absurd hkey hgone
  · obtain ⟨htrashed, hpath⟩ := Bool.and_eq_true_iff.mp (of_removed hmem hgone)
    obtain ⟨rfl, hdeleted⟩ := of_trashed htrashed
    have hpath' : k.2.2 = path := of_decide_eq_true hpath
    exact ⟨hdeleted, .inl (by rw [hpath'])⟩
  · exact absurd hkey hgone
  · obtain ⟨rfl, hdeleted⟩ := of_trashed (of_removed hmem hgone)
    exact ⟨hdeleted, .inr (.inl rfl)⟩
  · exact absurd hkey hgone

end

/-! ## What a call may remove -/

/-- What a call is about to act on was read before. -/
def Justified (hist : ServerHistory) : Call → Prop
  | .data (.listTrash scope _ _ (.prune tier)) => HadPlan hist scope.1 tier
  | .schedule (.plan tenants _) => ∀ tenantId ∈ tenants, HadTrash hist tenantId
  | .schedule (.vaults tenantId tier rest _) =>
      HadPlan hist tenantId tier ∧ HadTrash hist tenantId ∧ ∀ tenantId ∈ rest, HadTrash hist tenantId
  | .schedule (.prune tenantId tier _ rest _) =>
      HadPlan hist tenantId tier ∧ HadTrash hist tenantId ∧ ∀ tenantId ∈ rest, HadTrash hist tenantId
  | _ => True

section

variable {hist : ServerHistory} {tenantId : Option String} {tier : PlanTier}

theorem HadPlan.snoc (h : HadPlan hist tenantId tier) (x : Server × ServerEvent) :
    HadPlan (hist ++ [x]) tenantId tier := by
  obtain ⟨y, hy, hplan⟩ := h
  exact ⟨y, List.mem_append_left _ hy, hplan⟩

theorem HadTrash.snoc (h : HadTrash hist tenantId) (x : Server × ServerEvent) :
    HadTrash (hist ++ [x]) tenantId := by
  obtain ⟨y, hy, htrash⟩ := h
  exact ⟨y, List.mem_append_left _ hy, htrash⟩

/-- The plan at the last step was had. -/
theorem hadPlan_last (s : Server) (e : ServerEvent) : HadPlan (hist ++ [(s, e)]) tenantId (s.plans tenantId) :=
  ⟨(s, e), List.mem_append_right _ (List.mem_singleton_self _), rfl⟩

theorem hadTrash_last {s : Server} {e : ServerEvent}
    (h : tenantId ∈ (s.databases .control).listTrashTenantIds) : HadTrash (hist ++ [(s, e)]) tenantId := by
  unfold Tables.listTrashTenantIds at h
  rw [List.mem_dedup] at h
  obtain ⟨row, hrow, htenant⟩ := List.mem_map.mp h
  obtain ⟨hmem, hdeleted⟩ := List.mem_filter.mp hrow
  exact ⟨(s, e), List.mem_append_right _ (List.mem_singleton_self _), row, hmem, htenant, hdeleted⟩

theorem Justified.snoc {c : Call} (h : Justified hist c) (x : Server × ServerEvent) : Justified (hist ++ [x]) c := by
  unfold Justified at h ⊢
  split at h
  · exact HadPlan.snoc h x
  · exact fun tenantId hmem => (h tenantId hmem).snoc x
  · exact ⟨h.1.snoc x, h.2.1.snoc x, fun tenantId hmem => (h.2.2 tenantId hmem).snoc x⟩
  · exact ⟨h.1.snoc x, h.2.1.snoc x, fun tenantId hmem => (h.2.2 tenantId hmem).snoc x⟩
  · trivial

end

/-! ## The hourly removal -/

section

variable {accounts contains split} {hist : ServerHistory} {s : Server}

/-- A call that is justified stays so. -/
theorem justified_statement {c : Call} (h : Justified hist c) (id : ℕ) (now : ℤ) :
    Justified (hist ++ [(s, .proceed id now)]) (s.statement accounts contains split now c).2 := by
  cases c with
  | failed => trivial
  | index vaultId m phase => trivial
  | data c =>
      rw [Server.statement]
      rcases locate split c.owner with error | db
      · trivial
      · dsimp only
        rcases c with w | ⟨scope, limit, offset, phase⟩ | ⟨scope, path, _ | deleted⟩ | ⟨scope, _ | rows⟩
        · trivial
        · cases phase with
          | plan => exact hadPlan_last s _
          | prune tier => trivial
          | count tier pruned => trivial
          | list tier pruned total => trivial
          | done answer => trivial
        all_goals trivial
  | schedule phase =>
      rw [Server.statement]
      dsimp only
      cases phase with
      | start => exact fun tenantId hmem => hadTrash_last hmem
      | plan tenants total =>
          rcases tenants with _ | ⟨tenantId, rest⟩
          · trivial
          · refine ⟨hadPlan_last s _, ?_, fun tenantId' hmem => ?_⟩
            · exact (h tenantId List.mem_cons_self).snoc _
            · exact (h tenantId' (List.mem_cons_of_mem tenantId hmem)).snoc _
      | vaults tenantId tier rest total =>
          rw [scheduleStep]
          rcases tenantData split tenantId with error | db
          · trivial
          · exact h.snoc (c := .schedule (.vaults tenantId tier rest total)) _
      | prune tenantId tier vaults rest total =>
          rcases vaults with _ | ⟨vaultId, vaults⟩
          · exact fun tenantId' hmem => (h.2.2 tenantId' hmem).snoc _
          · rw [scheduleStep]
            rcases tenantData split tenantId with error | db
            · trivial
            · exact h.snoc (c := .schedule (.prune tenantId tier (vaultId :: vaults) rest total)) _
      | done answer => trivial

/-- What a run of the hourly removal removes. -/
theorem of_removed_scheduleStep {now : ℤ} {phase : SchedulePhase} {db : Database} {k : PathKey} {row : FileRow}
    (hmem : (k, row) ∈ (s.databases db).files)
    (hgone : k ∉ SqlRows.keys ((scheduleStep split s.plans now s.databases phase).1 db).files) :
    ∃ tier vaults rest total, phase = .prune k.1 tier vaults rest total ∧ row.deleted = true ∧
      deletedBefore (now - trashRetention tier) row = true := by
  have hkey : k ∈ SqlRows.keys (s.databases db).files := List.mem_map_of_mem hmem
  cases phase with
  | start => exact absurd hkey hgone
  | plan tenants total => rcases tenants with _ | ⟨tenantId, rest⟩ <;> exact absurd hkey hgone
  | vaults tenantId tier rest total =>
      rw [scheduleStep] at hgone
      rcases hdata : tenantData split tenantId with error | db'
      · rw [hdata] at hgone
        exact absurd hkey hgone
      · rw [hdata] at hgone
        exact absurd hkey hgone
  | prune tenantId tier vaults rest total =>
      rcases vaults with _ | ⟨vaultId, vaults⟩
      · exact absurd hkey hgone
      · rw [scheduleStep] at hgone
        rcases hdata : tenantData split tenantId with error | db'
        · rw [hdata] at hgone
          exact absurd hkey hgone
        · rw [hdata] at hgone
          dsimp only at hgone
          by_cases hdb : db = db'
          · subst hdb
            rw [Function.update_self] at hgone
            obtain ⟨hscope, hdeleted, hexpired⟩ := of_pruned hmem hgone
            obtain ⟨rfl, -⟩ := Prod.mk.inj hscope
            exact ⟨tier, vaultId :: vaults, rest, total, rfl, hdeleted, hexpired⟩
          · rw [Function.update_of_ne hdb] at hgone
            exact absurd hkey hgone
  | done answer => exact absurd hkey hgone

/-- Only statements change databases. -/
theorem databases_serverStep {e : ServerEvent} (h : ∀ id now, e ≠ .proceed id now) :
    (serverStep accounts contains split s e).databases = s.databases := by
  have harrive : ∀ id c, (s.arrive id c).databases = s.databases := by
    intro id c
    unfold Server.arrive
    split_ifs <;> rfl
  cases e with
  | request id r =>
      rcases hlocate : locate split r.call.owner with error | db
      · rw [serverStep, hlocate]
      · rw [serverStep, hlocate]
        exact harrive id _
  | index id vaultId m => exact harrive id _
  | schedule id => exact harrive id _
  | proceed id now => exact absurd rfl (h id now)
  | fail id =>
      rw [serverStep]
      split_ifs <;> rfl
  | setPlan tenantId tier => rfl

/-- **A step removes what it may.** -/
theorem removedOnly (hcalls : ∀ id c, s.calls.lookup id = some c → Justified hist c) (e : ServerEvent) :
    RemovedOnly accounts contains split hist s e := by
  intro db k row hmem hgone
  have hkey : k ∈ SqlRows.keys (s.databases db).files := List.mem_map_of_mem hmem
  cases e with
  | request id r =>
      rw [databases_serverStep (by simp)] at hgone
      exact absurd hkey hgone
  | index id vaultId m =>
      rw [databases_serverStep (by simp)] at hgone
      exact absurd hkey hgone
  | schedule id =>
      rw [databases_serverStep (by simp)] at hgone
      exact absurd hkey hgone
  | fail id =>
      rw [databases_serverStep (by simp)] at hgone
      exact absurd hkey hgone
  | setPlan tenantId tier => exact absurd hkey hgone
  | proceed id now =>
      rw [serverStep] at hgone
      rcases hcall : s.calls.lookup id with _ | c
      · rw [hcall] at hgone
        exact absurd hkey hgone
      · rw [hcall] at hgone
        dsimp only at hgone
        have hjustified := hcalls id c hcall
        cases c with
        | failed => exact absurd hkey hgone
        | index vaultId m phase =>
            rw [Server.statement] at hgone
            dsimp only at hgone
            by_cases hdb : db = .control
            · subst hdb
              rw [Function.update_self] at hgone
              exact absurd (keys_fileStep _ _ _ _ hkey) hgone
            · rw [Function.update_of_ne hdb] at hgone
              exact absurd hkey hgone
        | schedule phase =>
            obtain ⟨tier, vaults, rest, total, rfl, hdeleted, hexpired⟩ := of_removed_scheduleStep hmem hgone
            refine ⟨hdeleted, id, now, rfl, .inr ⟨⟨tier, hjustified.1, hexpired⟩, fun _ _ => hjustified.2.1⟩⟩
        | data c =>
            rw [Server.statement] at hgone
            rcases hlocate : locate split c.owner with error | db'
            · rw [hlocate] at hgone
              exact absurd hkey hgone
            · rw [hlocate] at hgone
              dsimp only at hgone
              by_cases hdb : db = db'
              · subst hdb
                rw [Function.update_self] at hgone
                obtain ⟨hdeleted, hwhy⟩ := of_removed_dataStep hmem hgone
                refine ⟨hdeleted, id, now, rfl, ?_⟩
                rcases hwhy with rfl | rfl | ⟨limit, offset, tier, rfl, hexpired⟩
                · exact .inl (.inl hcall)
                · exact .inl (.inr hcall)
                · refine .inr ⟨⟨tier, hjustified, hexpired⟩, fun phase hphase => ?_⟩
                  rw [hcall] at hphase
                  cases hphase
              · rw [Function.update_of_ne hdb] at hgone
                exact absurd hkey hgone

/-! ## Runs -/

theorem lookup_arrive {id id' : ℕ} {c : Call} : (s.arrive id c).calls.lookup id' =
    if id' = id ∧ s.calls.lookup id = none then some c else s.calls.lookup id' := by
  unfold Server.arrive
  rcases hcall : s.calls.lookup id with _ | c'
  · rw [Option.isSome_none, if_neg Bool.false_ne_true]
    dsimp only
    by_cases hid : id' = id
    · rw [hid, AList.lookup_insert, if_pos ⟨rfl, rfl⟩]
    · rw [AList.lookup_insert_ne hid, if_neg fun h => hid h.1]
  · rw [Option.isSome_some, if_pos rfl, if_neg fun h => by cases h.2]

variable (accounts contains split) in
/-- A call that is under way is as far as it was, has failed, or took a statement. -/
theorem call_of_some {id : ℕ} {c : Call} (hcall : s.calls.lookup id = some c) (e : ServerEvent) :
    (serverStep accounts contains split s e).calls.lookup id = some c ∨
      (serverStep accounts contains split s e).calls.lookup id = some .failed ∨
        ∃ now, e = .proceed id now ∧ (serverStep accounts contains split s e).calls.lookup id =
          some (s.statement accounts contains split now c).2 := by
  have harrive : ∀ id' c', (s.arrive id' c').calls.lookup id = some c := by
    intro id' c'
    rw [lookup_arrive, if_neg, hcall]
    rintro ⟨rfl, hnone⟩
    rw [hcall] at hnone
    cases hnone
  cases e with
  | request id' r =>
      left
      rcases hlocate : locate split r.call.owner with error | db
      · rw [serverStep, hlocate]
        exact hcall
      · rw [serverStep, hlocate]
        exact harrive id' _
  | index id' vaultId m => exact .inl (harrive id' _)
  | schedule id' => exact .inl (harrive id' _)
  | setPlan tenantId tier => exact .inl hcall
  | fail id' =>
      rw [serverStep]
      split_ifs
      · by_cases hid : id = id'
        · rw [hid, AList.lookup_insert]
          exact .inr (.inl rfl)
        · rw [AList.lookup_insert_ne hid]
          exact .inl hcall
      · exact .inl hcall
  | proceed id' now =>
      rw [serverStep]
      by_cases hid : id = id'
      · subst hid
        rw [hcall]
        exact .inr (.inr ⟨now, rfl, AList.lookup_insert _⟩)
      · left
        rcases s.calls.lookup id' with _ | c'
        · exact hcall
        · dsimp only
          rw [AList.lookup_insert_ne hid, hcall]

/-- A call that was not there before has come in. -/
theorem call_of_none {id : ℕ} {c : Call} {e : ServerEvent} (hcall : s.calls.lookup id = none)
    (h : (serverStep accounts contains split s e).calls.lookup id = some c) :
    (∃ r : Request, c = .data r.call) ∨ (∃ vaultId m, c = .index vaultId m .update) ∨ c = .schedule .start := by
  have harrive : ∀ id' c', (s.arrive id' c').calls.lookup id = some c → c' = c := by
    intro id' c' hnew
    rw [lookup_arrive] at hnew
    split_ifs at hnew
    · exact Option.some.inj hnew
    · rw [hcall] at hnew
      cases hnew
  cases e with
  | request id' r =>
      rcases hlocate : locate split r.call.owner with error | db
      · rw [serverStep, hlocate] at h
        rw [hcall] at h
        cases h
      · rw [serverStep, hlocate] at h
        exact .inl ⟨r, (harrive id' _ h).symm⟩
  | index id' vaultId m => exact .inr (.inl ⟨vaultId, m, (harrive id' _ h).symm⟩)
  | schedule id' => exact .inr (.inr (harrive id' _ h).symm)
  | setPlan tenantId tier =>
      rw [serverStep, hcall] at h
      cases h
  | fail id' =>
      rw [serverStep] at h
      split_ifs at h with hsome
      · by_cases hid : id = id'
        · rw [← hid, hcall] at hsome
          cases hsome
        · rw [AList.lookup_insert_ne hid, hcall] at h
          cases h
      · rw [hcall] at h
        cases h
  | proceed id' now =>
      rw [serverStep] at h
      by_cases hid : id = id'
      · rw [← hid, hcall] at h
        dsimp only at h
        rw [hcall] at h
        cases h
      · rcases hother : s.calls.lookup id' with _ | c'
        · rw [hother, hcall] at h
          cases h
        · rw [hother] at h
          dsimp only at h
          rw [AList.lookup_insert_ne hid, hcall] at h
          cases h

/-- Every call is justified by the history. -/
theorem justified_serverStep (hcalls : ∀ id c, s.calls.lookup id = some c → Justified hist c) (e : ServerEvent)
    {id : ℕ} {c : Call} (h : (serverStep accounts contains split s e).calls.lookup id = some c) :
    Justified (hist ++ [(s, e)]) c := by
  rcases hcall : s.calls.lookup id with _ | c'
  · rcases call_of_none hcall h with ⟨r, rfl⟩ | ⟨vaultId, m, rfl⟩ | rfl
    · cases r <;> trivial
    · trivial
    · trivial
  · have hold := hcalls id c' hcall
    rcases call_of_some accounts contains split hcall e with
      hsame | hfailed | ⟨now, rfl, hnext⟩
    · rw [h, Option.some.injEq] at hsame
      exact hsame ▸ hold.snoc (s, e)
    · rw [h, Option.some.injEq] at hfailed
      rw [hfailed]
      trivial
    · rw [h, Option.some.injEq] at hnext
      rw [hnext]
      exact justified_statement hold id now

/-! ### With one database -/

/-- The trash of a vault is still to be gone through. -/
def Pending (k : PathKey) : SchedulePhase → Prop
  | .start => True
  | .plan tenants _ => k.1 ∈ tenants
  | .vaults tenantId _ rest _ => tenantId = k.1 ∨ k.1 ∈ rest
  | .prune tenantId _ vaults rest _ => tenantId = k.1 ∧ k.2.1 ∈ vaults ∨ k.1 ∈ rest
  | .done _ => False

variable {k : PathKey} {row : FileRow}

/-- The tenant of a trash row is listed. -/
theorem mem_listTrashTenantIds {t : Tables} (hmem : (k, row) ∈ t.files) (hdeleted : row.deleted = true) :
    k.1 ∈ t.listTrashTenantIds := by
  unfold Tables.listTrashTenantIds
  rw [List.mem_dedup]
  exact List.mem_map.mpr ⟨(k, row), List.mem_filter.mpr ⟨hmem, hdeleted⟩, rfl⟩

/-- So is its vault. -/
theorem mem_listVaultsWithTrash {t : Tables} (hmem : (k, row) ∈ t.files) (hdeleted : row.deleted = true) :
    k.2.1 ∈ t.listVaultsWithTrash k.1 := by
  unfold Tables.listVaultsWithTrash
  rw [List.mem_dedup]
  refine List.mem_map.mpr ⟨(k, row), List.mem_filter.mpr ⟨hmem, ?_⟩, rfl⟩
  rw [decide_eq_true rfl, hdeleted]
  rfl

/-- What is in the trash of a vault after it has been gone through is not due. -/
theorem not_deletedBefore_of_mem {t : Tables} {maxAgeSecs now : ℤ} (hdeleted : row.deleted = true)
    (hmem : (k, row) ∈ (t.pruneExpiredTrash (k.1, k.2.1) maxAgeSecs now).1.files) :
    deletedBefore (now - maxAgeSecs) row = false := by
  have hkept := (List.mem_filter.mp hmem).2
  dsimp only at hkept
  have htrashed : trashed (k.1, k.2.1) (k, row) = true := by
    unfold trashed
    simp [hdeleted]
  rw [htrashed, Bool.true_and, Bool.not_eq_true'] at hkept
  exact hkept

/-- **A statement of the removal** goes on to a trash that it finds, or goes through it. -/
theorem pending_scheduleStep {now : ℤ} {phase : SchedulePhase} (hpending : Pending k phase)
    (hdeleted : row.deleted = true) (hbefore : (k, row) ∈ (s.databases .control).files)
    (hafter : (k, row) ∈ ((scheduleStep false s.plans now s.databases phase).1 .control).files) :
    Pending k (scheduleStep false s.plans now s.databases phase).2 ∨
      ∃ tier vaults rest total, phase = .prune k.1 tier vaults rest total ∧
        deletedBefore (now - trashRetention tier) row = false := by
  cases phase with
  | start => exact .inl (mem_listTrashTenantIds hbefore hdeleted)
  | plan tenants total =>
      rcases tenants with _ | ⟨tenantId, rest⟩
      · cases hpending
      · left
        rcases List.mem_cons.mp hpending with rfl | hrest
        · exact .inl rfl
        · exact .inr hrest
  | vaults tenantId tier rest total =>
      left
      rcases hpending with rfl | hrest
      · exact .inl ⟨rfl, mem_listVaultsWithTrash hbefore hdeleted⟩
      · exact .inr hrest
  | prune tenantId tier vaults rest total =>
      rcases vaults with _ | ⟨vaultId, vaults⟩
      · left
        rcases hpending with ⟨-, hnil⟩ | hrest
        · cases hnil
        · exact hrest
      · rcases hpending with ⟨rfl, hvault⟩ | hrest
        · rcases List.mem_cons.mp hvault with hfirst | hlater
          · right
            refine ⟨tier, vaultId :: vaults, rest, total, rfl, ?_⟩
            change (k, row) ∈ (Function.update s.databases .control _ .control).files at hafter
            rw [Function.update_self, ← hfirst] at hafter
            exact not_deletedBefore_of_mem hdeleted hafter
          · exact .inl (.inl ⟨rfl, hlater⟩)
        · exact .inl (.inr hrest)
  | done answer => exact hpending.elim

/-- The removal has not gone through the trash of the vault, or has failed. -/
def Unfinished (k : PathKey) (id : ℕ) (s : Server) : Prop :=
  s.calls.lookup id = some .failed ∨ ∃ phase, s.calls.lookup id = some (.schedule phase) ∧ Pending k phase

/-- While a trash row stays, each step leaves the removal unfinished, or is the prune that finds it too
young. -/
theorem unfinished_serverStep {id : ℕ} {e : ServerEvent} (h : Unfinished k id s) (hdeleted : row.deleted = true)
    (hbefore : (k, row) ∈ (s.databases .control).files)
    (hafter : (k, row) ∈ ((serverStep accounts contains false s e).databases .control).files) :
    Unfinished k id (serverStep accounts contains false s e) ∨
      ∃ now tier vaults rest total, e = .proceed id now ∧
        s.calls.lookup id = some (.schedule (.prune k.1 tier vaults rest total)) ∧
          deletedBefore (now - trashRetention tier) row = false := by
  rcases h with hfailed | ⟨phase, hphase, hpending⟩
  · left
    rcases call_of_some accounts contains false hfailed e with hsame | hfail | ⟨now, rfl, hnext⟩
    · exact .inl hsame
    · exact .inl hfail
    · exact .inl hnext
  · rcases call_of_some accounts contains false hphase e with hsame | hfail | ⟨now, rfl, hnext⟩
    · exact .inl (.inr ⟨phase, hsame, hpending⟩)
    · exact .inl (.inl hfail)
    · have hdatabases : (serverStep accounts contains false s (.proceed id now)).databases =
          (scheduleStep false s.plans now s.databases phase).1 := by
        rw [serverStep, hphase]
        rfl
      rw [hdatabases] at hafter
      rcases pending_scheduleStep hpending hdeleted hbefore hafter with hstill | ⟨tier, vaults, rest, total, rfl, hdue⟩
      · exact .inl (.inr ⟨_, hnext, hstill⟩)
      · exact .inr ⟨now, tier, vaults, rest, total, rfl, hphase, hdue⟩

/-- A removal that gets to its end has gone through the trash of every vault. -/
theorem exists_prune {id : ℕ} {es : List ServerEvent} (h : Unfinished k id s) (hdeleted : row.deleted = true)
    (hstays : StaysThroughout accounts contains false k row s es)
    (hdone : ¬ Unfinished k id (run (serverStep accounts contains false) s es)) :
    ∃ now pre post tier vaults rest total, es = pre ++ .proceed id now :: post ∧
      (run (serverStep accounts contains false) s pre).calls.lookup id =
        some (.schedule (.prune k.1 tier vaults rest total)) ∧
          deletedBefore (now - trashRetention tier) row = false := by
  induction es generalizing s with
  | nil => exact absurd h hdone
  | cons e es ih =>
      have hbefore := hstays [] (e :: es) rfl
      have hafter := hstays [e] es rfl
      rcases unfinished_serverStep h hdeleted hbefore hafter with
        hstill | ⟨now, tier, vaults, rest, total, rfl, hcall, hdue⟩
      · have htail : StaysThroughout accounts contains false k row (serverStep accounts contains false s e) es := by
          rintro pre post rfl
          exact hstays (e :: pre) post rfl
        obtain ⟨now, pre, post, tier, vaults, rest, total, rfl, hcall, hdue⟩ := ih hstill htail hdone
        exact ⟨now, e :: pre, post, tier, vaults, rest, total, rfl, hcall, hdue⟩
      · exact ⟨now, [], es, tier, vaults, rest, total, rfl, hcall, hdue⟩

end

/-- **What becomes of trash.** -/
theorem retentionLaw (plans : Option String → PlanTier) (es : List ServerEvent) :
    RetentionLaw accounts contains split plans es := by
  have hjustified : ∀ es, ∀ id c,
      (run (serverStep accounts contains split) (.new plans) es).calls.lookup id = some c →
        Justified (history (serverStep accounts contains split) (.new plans) es) c := by
    intro es
    refine invariant_history (I := fun hist s => ∀ id c, s.calls.lookup id = some c → Justified hist c) ?_ ?_ es
    · intro id c h
      cases h
    · intro hist s e hcalls id c h
      exact justified_serverStep hcalls e h
  refine ⟨fun pre e post _ => removedOnly (hjustified pre) e, ?_⟩
  rintro rfl pre id post rfl ⟨hfresh, total, hdone⟩ k row hdeleted hstays
  rw [run_append] at hstays
  have hstart : Unfinished k id
      (run (serverStep accounts contains false) (run (serverStep accounts contains false) (.new plans) pre)
        [.schedule id]) := by
    refine .inr ⟨.start, ?_, trivial⟩
    show ((run (serverStep accounts contains false) (.new plans) pre).arrive id (.schedule .start)).calls.lookup id = _
    rw [lookup_arrive, if_pos ⟨rfl, hfresh⟩]
  have hend : ¬ Unfinished k id (run (serverStep accounts contains false)
      (run (serverStep accounts contains false) (run (serverStep accounts contains false) (.new plans) pre)
        [.schedule id]) post) := by
    change ¬ Unfinished k id (run (serverStep accounts contains false)
      (run (serverStep accounts contains false) (.new plans) pre) (.schedule id :: post))
    rintro (hfailed | ⟨phase, hphase, hpending⟩)
    · rw [hdone] at hfailed
      cases hfailed
    · rw [hdone] at hphase
      cases hphase
      exact hpending
  obtain ⟨now, pre', post', tier, vaults, rest, total', rfl, hcall, hdue⟩ := exists_prune hstart hdeleted hstays hend
  refine ⟨now, tier, List.mem_append_right _ List.mem_cons_self, ?_, hdue⟩
  have hcall' := hjustified (pre ++ .schedule id :: pre') id _ (by rw [run_append]; exact hcall)
  obtain ⟨x, hx, hplan⟩ := hcall'.1
  refine ⟨x, ?_, hplan⟩
  rw [show pre ++ .schedule id :: (pre' ++ .proceed id now :: post') =
    (pre ++ .schedule id :: pre') ++ .proceed id now :: post' by simp, history_append]
  exact List.mem_append_left _ hx

end DiskArcana.Tenancy
