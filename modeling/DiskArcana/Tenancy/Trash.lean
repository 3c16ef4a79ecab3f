import DiskArcana.Lib.Sharding
import DiskArcana.Tenancy.Writers

/-!
# Trash

Rows of `files` that are deleted stay in the table as the trash of their vault, until a listing of the
trash or the hourly run finds them older than the plan of the tenant lets them be, or an owner of the
vault empties it. The calls go statement by statement, as the writers do.

Statements on behalf of a tenant see the rows of that tenant and no others (`dataLocal`).
-/

namespace DiskArcana.Tenancy

open DiskArcana.Core DiskArcana.Lib DiskArcana.Server
open DiskArcana.Accounts (PlanTier VaultShareRole)

/-! ## Statements -/

/-- How long trash stays.
Source: `disk-core/src/billing/tier.rs`, `trash_retention` -/
def trashRetention : PlanTier → ℤ
  | .free => 7 * 24 * 3600
  | .pro => 90 * 24 * 3600
  | .team => 365 * 24 * 3600

/-- A row count as the code keeps it. -/
def asU32 (n : ℕ) : ℕ := n % 2 ^ 32

/-- The row is in the trash of a vault. -/
def trashed (scope : VaultKey) (e : PathKey × FileRow) : Bool :=
  decide (e.1.1 = scope.1) && decide (e.1.2.1 = scope.2) && e.2.deleted

/-- The row was deleted before a time. -/
def deletedBefore (cutoff : ℤ) (row : FileRow) : Bool := row.deletedAt.any fun t => decide (t < cutoff)

/-- `ORDER BY deleted_at DESC, path ASC`; NULL comes last. -/
def newestFirst (a b : PathKey × FileRow) : Bool :=
  match a.2.deletedAt, b.2.deletedAt with
  | some x, some y => decide (y < x) ||
      decide (x = y) && decide ((pathString a.1.2.2).toList ≤ (pathString b.1.2.2).toList)
  | some _, none => true
  | none, some _ => false
  | none, none => decide ((pathString a.1.2.2).toList ≤ (pathString b.1.2.2).toList)

/-- Source: `meta_db/trash.rs`, `TrashRow` -/
structure TrashRow where
  path : String
  contentHash : Digest
  size : ℕ
  deletedAt : ℤ
  versionId : Option ℕ
  deriving DecidableEq

/-- A row without a time of deletion is not read.
Source: `meta_db/trash.rs`, `row_to_trash` -/
def rowToTrash (e : PathKey × FileRow) : Option TrashRow :=
  e.2.deletedAt.map fun deletedAt =>
    ⟨pathString e.1.2.2, e.2.contentHash, e.2.size, deletedAt, e.2.versionId⟩

namespace Tables

variable (t : Tables)

/-- Source: `meta_db/trash.rs`, `list_trash` -/
def listTrash (scope : VaultKey) (limit offset : ℕ) : Option (List TrashRow) :=
  ((((t.files.filter (trashed scope)).insertionSort fun a b => newestFirst a b = true).drop offset).take
    limit).mapM rowToTrash

/-- Source: `meta_db/trash.rs`, `count_trash` -/
def countTrash (scope : VaultKey) : ℕ := asU32 (t.files.filter (trashed scope)).length

/-- `DELETE FROM files WHERE …`, and how many rows are gone. -/
def deleteFiles (p : PathKey × FileRow → Bool) : Tables × ℕ :=
  ({ t with files := t.files.filter fun e => !p e }, asU32 (t.files.filter p).length)

/-- Source: `meta_db/trash.rs`, `prune_expired_trash` -/
def pruneExpiredTrash (scope : VaultKey) (maxAgeSecs now : ℤ) : Tables × ℕ :=
  t.deleteFiles fun e => trashed scope e && deletedBefore (now - maxAgeSecs) e.2

/-- Source: `meta_db/trash.rs`, `delete_trash_item` -/
def deleteTrashItem (scope : VaultKey) (path : Path) : Tables × Bool :=
  let (t, rows) := t.deleteFiles fun e => trashed scope e && decide (e.1.2.2 = path)
  (t, decide (0 < rows))

/-- Source: `meta_db/trash.rs`, `empty_trash` -/
def emptyTrash (scope : VaultKey) : Tables × ℕ := t.deleteFiles (trashed scope)

/-- Source: `meta_db/trash.rs`, `list_trash_tenant_ids` -/
def listTrashTenantIds : List (Option String) :=
  ((t.files.filter fun e => e.2.deleted).map fun e => e.1.1).dedup

/-- Source: `meta_db/trash.rs`, `list_vaults_with_trash` -/
def listVaultsWithTrash (tenantId : Option String) : List String :=
  ((t.files.filter fun e => decide (e.1.1 = tenantId) && e.2.deleted).map fun e => e.1.2.1).dedup

end Tables

/-! ## Calls on the data of a tenant -/

/-- Source: `trash/routes.rs`, `TrashEntry` -/
structure TrashEntry where
  row : TrashRow
  blobAvailable : Bool
  expiresAt : ℤ
  deriving DecidableEq

/-- Source: `trash/routes.rs`, `TrashListResponse`, `TrashPagination`, `TrashRetentionInfo` -/
structure TrashListResponse where
  vaultId : String
  planTier : PlanTier
  maxAgeSecs : ℤ
  maxAgeDays : ℤ
  limit : ℕ
  offset : ℕ
  total : ℕ
  hasMore : Bool
  prunedExpired : ℕ
  items : List TrashEntry
  deriving DecidableEq

/-- What `list_trash_inner` does next. -/
inductive ListPhase where
  | plan
  | prune (tier : PlanTier)
  | count (tier : PlanTier) (pruned : ℕ)
  | list (tier : PlanTier) (pruned total : ℕ)
  | done (answer : Except Unit TrashListResponse)

/-- A call on the data of a tenant that is under way. -/
inductive DataCall where
  | writer (w : Writer)
  | listTrash (scope : VaultKey) (limit offset : ℕ) (phase : ListPhase)
  | deleteTrash (scope : VaultKey) (path : Path) (answer : Option Bool)
  | emptyTrash (scope : VaultKey) (answer : Option ℕ)

/-- Whose rows a statement works on: those in the control database of every server, or a tenant's. -/
inductive Owner where
  | control
  | tenant (tenantId : Option String)
  deriving DecidableEq

/-- The revisions of agents, files and versions are data of a tenant, vaults and members are not.
Source: `tenant_db.rs`; `agents/routes.rs`, `services/sync.rs`, `billing/enforcer.rs`, `sharing/routes.rs` -/
def Writer.owner : Writer → Owner
  | .file scope _ _ => .tenant scope.1
  | .versioned scope _ _ _ => .tenant scope.1
  | .vault _ _ => .control
  | .member _ _ _ _ => .control
  | .revision k _ _ _ _ => .tenant k.1

def DataCall.owner : DataCall → Owner
  | .writer w => w.owner
  | .listTrash scope _ _ _ => .tenant scope.1
  | .deleteTrash scope _ _ => .tenant scope.1
  | .emptyTrash scope _ => .tenant scope.1

/-- What a statement finds around the tables: the users, the plan of each tenant, the stored blobs. -/
structure Surroundings where
  accounts : List String
  plans : Option String → PlanTier
  contains : Digest → Bool

/-- Source: `trash/routes.rs`, `trash_entry` -/
def trashEntry (contains : Digest → Bool) (maxAgeSecs : ℤ) (row : TrashRow) : TrashEntry :=
  ⟨row, contains row.contentHash, min (row.deletedAt + maxAgeSecs) (2 ^ 63 - 1)⟩

/-- The answer with a page of rows. -/
def trashPage (contains : Digest → Bool) (vaultId : String) (tier : PlanTier) (limit offset total pruned : ℕ)
    (rows : List TrashRow) : TrashListResponse where
  vaultId := vaultId
  planTier := tier
  maxAgeSecs := trashRetention tier
  maxAgeDays := trashRetention tier / 86400
  limit := limit
  offset := offset
  total := total
  hasMore := decide (offset + limit < total)
  prunedExpired := pruned
  items := rows.map (trashEntry contains (trashRetention tier))

/-- Source: `trash/routes.rs`, `list_trash_inner`, behind the checks of access -/
def listTrashStep (env : Surroundings) (now : ℤ) (t : Tables) (scope : VaultKey) (limit offset : ℕ) :
    ListPhase → Tables × ListPhase
  | .plan => (t, .prune (env.plans scope.1))
  | .prune tier =>
      let (t, pruned) := t.pruneExpiredTrash scope (trashRetention tier) now
      (t, .count tier pruned)
  | .count tier pruned => (t, .list tier pruned (t.countTrash scope))
  | .list tier pruned total =>
      let limit := max 1 (min limit 200)
      let offset := min offset 10000
      let page := (t.listTrash scope limit offset).map (trashPage env.contains scope.2 tier limit offset total pruned)
      (t, .done (page.elim (.error ()) .ok))
  | .done answer => (t, .done answer)

/-- The next statement of a call. -/
def dataStep (env : Surroundings) (now : ℤ) (t : Tables) : DataCall → Tables × DataCall
  | .writer w =>
      let (t, w) := writerStep env.accounts now t w
      (t, .writer w)
  | .listTrash scope limit offset phase =>
      let (t, phase) := listTrashStep env now t scope limit offset phase
      (t, .listTrash scope limit offset phase)
  | .deleteTrash scope path none =>
      let (t, deleted) := t.deleteTrashItem scope path
      (t, .deleteTrash scope path (some deleted))
  | .deleteTrash scope path (some deleted) => (t, .deleteTrash scope path (some deleted))
  | .emptyTrash scope none =>
      let (t, rows) := t.emptyTrash scope
      (t, .emptyTrash scope (some rows))
  | .emptyTrash scope (some rows) => (t, .emptyTrash scope (some rows))

/-! ## The rows of an owner -/

/-- The key belongs to a tenant. -/
def ofTenant {α : Type} (tenantId : Option String) (k : Option String × α) : Bool := decide (k.1 = tenantId)

/-- The rows that statements of an owner see. -/
def ownRows : Owner → Tables → Tables
  | .control, t => { Tables.empty with tenantVaults := t.tenantVaults, vaultMembers := t.vaultMembers }
  | .tenant tenantId, t => { Tables.empty with
      files := SqlRows.rowsOf (ofTenant tenantId) t.files
      fileVersions := SqlRows.rowsOf (ofTenant tenantId) t.fileVersions
      agentWriteRevisions := SqlRows.rowsOf (ofTenant tenantId) t.agentWriteRevisions }

/-- A statement of an owner acts on the owner's rows as on all rows, and leaves the others' alone. -/
structure Within {β : Type} (o : Owner) (f : Tables → Tables × β) : Prop where
  own : ∀ t, f (ownRows o t) = (ownRows o (f t).1, (f t).2)
  others : ∀ t o', o' ≠ o → ownRows o' (f t).1 = ownRows o' t

namespace Within

variable {β γ : Type} {o : Owner} {f : Tables → Tables × β}

/-- Only the answer is handed on. -/
theorem map (h : Within o f) (g : β → γ) : Within o fun t => ((f t).1, g (f t).2) where
  own t := by rw [h.own]
  others t o' ho := h.others t o' ho

/-- A statement that reads. -/
theorem of_read {g : Tables → β} (h : ∀ t, g (ownRows o t) = g t) : Within o fun t => (t, g t) where
  own t := by rw [h]
  others t o' ho := rfl

/-- A statement that writes what it finds there, or finds nothing to write. -/
theorem ite {p : Tables → Prop} [DecidablePred p] {g : Tables → Tables × β}
    (hp : ∀ t, p (ownRows o t) ↔ p t) (hf : Within o f) (hg : Within o g) : Within o fun t => if p t then f t else g t where
  own t := by
    simp only [hp]
    split_ifs
    · exact hf.own t
    · exact hg.own t
  others t o' ho := by
    split_ifs
    · exact hf.others t o' ho
    · exact hg.others t o' ho

end Within

/-! ### Statements on one table -/

section

variable {α ρ β : Type} {tenantId tenantId' : Option String}

theorem ofTenant_self (k : Option String × α) : ofTenant k.1 k = true := decide_eq_true rfl

/-- A key of one tenant is no other's. -/
theorem ofTenant_eq_false {k : Option String × α} (h : tenantId' ≠ k.1) : ofTenant tenantId' k = false :=
  decide_eq_false (Ne.symm h)

/-- A statement on rows that are kept by tenant acts on those of one. -/
structure Confined (tenantId : Option String)
    (g : SqlRows (Option String × α) ρ → SqlRows (Option String × α) ρ × β) : Prop where
  own : ∀ rows, g (SqlRows.rowsOf (ofTenant tenantId) rows) =
    (SqlRows.rowsOf (ofTenant tenantId) (g rows).1, (g rows).2)
  others : ∀ rows tenantId', tenantId' ≠ tenantId →
    SqlRows.rowsOf (ofTenant tenantId') (g rows).1 = SqlRows.rowsOf (ofTenant tenantId') rows

/-- Rows of a tenant are deleted, by what is seen of the tenant's rows. -/
theorem Confined.filter (p : SqlRows (Option String × α) ρ → (Option String × α) × ρ → Bool)
    (answer : SqlRows (Option String × α) ρ → β)
    (hseen : ∀ rows, p (SqlRows.rowsOf (ofTenant tenantId) rows) = p rows)
    (hanswer : ∀ rows, answer (SqlRows.rowsOf (ofTenant tenantId) rows) = answer rows)
    (hkeep : ∀ rows e, e.1.1 ≠ tenantId → p rows e = true) :
    Confined tenantId fun rows => (rows.filter (p rows), answer rows) where
  own rows := by rw [hseen, hanswer, SqlRows.rowsOf_filter]
  others rows tenantId' hne := by
    apply SqlRows.rowsOf_filter_of_forall
    intro e _ he
    apply hkeep
    rw [of_decide_eq_true he]
    exact hne

variable [DecidableEq α] (k : Option String × α)

theorem Confined.updateWhere (f : ρ → ρ) (b : β) :
    Confined k.1 fun rows => (SqlRows.updateWhere rows k f, b) where
  own rows := by rw [SqlRows.rowsOf_updateWhere]
  others rows tenantId' hne := SqlRows.rowsOf_updateWhere_of_not_mine (ofTenant_eq_false hne)

theorem Confined.upsert (r : ρ) (f : ρ → ρ) (b : β) :
    Confined k.1 fun rows => (SqlRows.upsert noTenant rows k r f, b) where
  own rows := by rw [SqlRows.rowsOf_upsert noTenant (ofTenant_self k)]
  others rows tenantId' hne := SqlRows.rowsOf_upsert_of_not_mine noTenant (ofTenant_eq_false hne)

end

/-- A table that holds data of tenants. -/
structure TenantTable (α ρ : Type) where
  get : Tables → SqlRows (Option String × α) ρ
  set : Tables → SqlRows (Option String × α) ρ → Tables
  get_ownRows : ∀ tenantId t, get (ownRows (.tenant tenantId) t) = SqlRows.rowsOf (ofTenant tenantId) (get t)
  set_ownRows : ∀ tenantId t rows, set (ownRows (.tenant tenantId) t) (SqlRows.rowsOf (ofTenant tenantId) rows) =
    ownRows (.tenant tenantId) (set t rows)
  set_frame : ∀ o t rows, (∀ tenantId, o = .tenant tenantId →
    SqlRows.rowsOf (ofTenant tenantId) rows = SqlRows.rowsOf (ofTenant tenantId) (get t)) →
      ownRows o (set t rows) = ownRows o t

namespace TenantTable

def files : TenantTable (String × Path) FileRow where
  get := Tables.files
  set t rows := { t with files := rows }
  get_ownRows _ _ := rfl
  set_ownRows _ _ _ := rfl
  set_frame o t rows h := by
    cases o with
    | control => rfl
    | tenant tenantId =>
        unfold ownRows
        dsimp only
        rw [h tenantId rfl]

def fileVersions : TenantTable (String × Path × ℕ) FileVersionRow where
  get := Tables.fileVersions
  set t rows := { t with fileVersions := rows }
  get_ownRows _ _ := rfl
  set_ownRows _ _ _ := rfl
  set_frame o t rows h := by
    cases o with
    | control => rfl
    | tenant tenantId =>
        unfold ownRows
        dsimp only
        rw [h tenantId rfl]

def agentWriteRevisions : TenantTable (String × Path) RevisionRow where
  get := Tables.agentWriteRevisions
  set t rows := { t with agentWriteRevisions := rows }
  get_ownRows _ _ := rfl
  set_ownRows _ _ _ := rfl
  set_frame o t rows h := by
    cases o with
    | control => rfl
    | tenant tenantId =>
        unfold ownRows
        dsimp only
        rw [h tenantId rfl]

variable {α ρ β : Type} (T : TenantTable α ρ) {tenantId : Option String}
  {g : SqlRows (Option String × α) ρ → SqlRows (Option String × α) ρ × β}

theorem within (hg : Confined tenantId g) :
    Within (.tenant tenantId) fun t => (T.set t (g (T.get t)).1, (g (T.get t)).2) where
  own t := by
    rw [T.get_ownRows, hg.own, T.set_ownRows]
  others t o' ho := by
    apply T.set_frame
    rintro tenantId' rfl
    apply hg.others
    rintro rfl
    exact ho rfl

/-- A row of a tenant is added, or the statement is refused. -/
theorem within_insert [DecidableEq α] (k : Option String × α) (r : ρ) (b b' : β) : Within (.tenant k.1) fun t =>
    (SqlRows.insert noTenant (T.get t) k r).elim (t, b') fun rows => (T.set t rows, b) where
  own t := by
    rw [T.get_ownRows, SqlRows.insert_rowsOf noTenant (ofTenant_self k)]
    rcases SqlRows.insert noTenant (T.get t) k r with _ | rows
    · rfl
    · exact congrArg (·, b) (T.set_ownRows k.1 t rows)
  others t o' ho := by
    rcases hinsert : SqlRows.insert noTenant (T.get t) k r with _ | rows
    · rfl
    · apply T.set_frame
      rintro tenantId' rfl
      refine SqlRows.rowsOf_insert_of_not_mine noTenant (ofTenant_eq_false ?_) hinsert
      rintro rfl
      exact ho rfl

end TenantTable

/-! ### Trash -/

section

variable {tenantId : Option String} {p : PathKey × FileRow → Bool}

/-- Deleting files of a tenant. -/
theorem within_deleteFiles (hp : ∀ e, p e = true → e.1.1 = tenantId) :
    Within (.tenant tenantId) fun t => t.deleteFiles p := by
  refine TenantTable.files.within (Confined.filter (fun _ e => !p e)
    (fun rows => asU32 (rows.filter p).length) (fun _ => rfl) (fun rows => ?_) fun _ e hne => ?_)
  · rw [SqlRows.filter_rowsOf_of_forall]
    exact fun e _ he => decide_eq_true (hp e he)
  · rcases hpe : p e with _ | _
    · rfl
    · exact absurd (hp e hpe) hne

end

theorem trashed_tenant {scope : VaultKey} {e : PathKey × FileRow} (h : trashed scope e = true) :
    e.1.1 = scope.1 := by
  unfold trashed at h
  simp only [Bool.and_eq_true, decide_eq_true_eq] at h
  exact h.1.1

/-- Pruning stays within the tenant. -/
theorem within_prune (scope : VaultKey) (maxAgeSecs now : ℤ) :
    Within (.tenant scope.1) fun t => t.pruneExpiredTrash scope maxAgeSecs now := by
  apply within_deleteFiles
  intro e he
  exact trashed_tenant (Bool.and_eq_true_iff.mp he).1

/-- So does deleting an item of the trash. -/
theorem within_deleteTrashItem (scope : VaultKey) (path : Path) :
    Within (.tenant scope.1) fun t => t.deleteTrashItem scope path := by
  have hdelete : Within (.tenant scope.1) fun t : Tables =>
      t.deleteFiles fun e => trashed scope e && decide (e.1.2.2 = path) := by
    apply within_deleteFiles
    intro e he
    exact trashed_tenant (Bool.and_eq_true_iff.mp he).1
  exact hdelete.map fun rows => decide (0 < rows)

/-- So does emptying it. -/
theorem within_emptyTrash (scope : VaultKey) : Within (.tenant scope.1) fun t => t.emptyTrash scope :=
  within_deleteFiles fun _ he => trashed_tenant he

/-- The trash of a vault is among the rows of the tenant. -/
theorem filter_trashed_ownRows (scope : VaultKey) (t : Tables) :
    (ownRows (.tenant scope.1) t).files.filter (trashed scope) = t.files.filter (trashed scope) := by
  apply SqlRows.filter_rowsOf_of_forall
  intro e _ he
  exact decide_eq_true (trashed_tenant he)

/-- So does listing it. -/
theorem within_listTrashStep (env : Surroundings) (now : ℤ) (scope : VaultKey) (limit offset : ℕ)
    (phase : ListPhase) : Within (.tenant scope.1) fun t => listTrashStep env now t scope limit offset phase := by
  cases phase with
  | plan => exact Within.of_read fun _ => rfl
  | prune tier => exact (within_prune scope (trashRetention tier) now).map _
  | count tier pruned =>
      apply Within.of_read
      intro t
      unfold Tables.countTrash
      rw [filter_trashed_ownRows]
  | list tier pruned total =>
      apply Within.of_read
      intro t
      unfold Tables.listTrash
      rw [filter_trashed_ownRows]
  | done answer => exact Within.of_read fun _ => rfl

/-! ### Writers -/

/-- So do the statements of files, -/
theorem within_fileStep (scope : VaultKey) (m : FileMeta) (phase : FilePhase) :
    Within (.tenant scope.1) fun t => fileStep t scope m phase := by
  cases phase with
  | update =>
      have hupdate := TenantTable.files.within (Confined.updateWhere (pathKey scope m)
        (fun row => MetaDb.upsertRow (some row) m) (FilePhase.done (.ok ())))
      exact Within.ite (fun t => SqlRows.mem_keys_rowsOf (ofTenant_self (pathKey scope m))) hupdate
        (Within.of_read fun _ => rfl)
  | insert =>
      have hinsert : (fun t => fileStep t scope m .insert) = fun t =>
          (SqlRows.insert noTenant t.files (pathKey scope m) (MetaDb.upsertRow none m)).elim
            (t, .done (.error .uniqueViolation)) fun rows =>
            ({ t with files := rows }, .done (.ok ())) := by
        funext t
        rw [fileStep]
        cases SqlRows.insert noTenant t.files (pathKey scope m) (MetaDb.upsertRow none m) <;> rfl
      rw [hinsert]
      exact TenantTable.files.within_insert (pathKey scope m) _ _ _
  | done answer => exact Within.of_read fun _ => rfl

/-- of versions, -/
theorem within_versionedStep (scope : VaultKey) (m : FileMeta) (ctx : MetaDb.FileVersionUpsert) (now : ℤ)
    (phase : VersionedPhase) : Within (.tenant scope.1) fun t => versionedStep t scope m ctx now phase := by
  cases phase with
  | read =>
      have hread : (fun t => versionedStep t scope m ctx now .read) = fun t =>
          (t, (versionedStep t scope m ctx now .read).2) := by
        funext t
        unfold versionedStep
        rcases MetaDb.nextVersion (SqlRows.select t.files (pathKey scope m)) m ctx.createdBy now with
          ⟨v, p, _ | row⟩ <;> rfl
      rw [hread]
      apply Within.of_read
      intro t
      have hselect : SqlRows.select (ownRows (.tenant scope.1) t).files (pathKey scope m) =
          SqlRows.select t.files (pathKey scope m) :=
        SqlRows.select_rowsOf (ofTenant_self (pathKey scope m))
      unfold versionedStep
      rw [hselect]
      rcases MetaDb.nextVersion (SqlRows.select t.files (pathKey scope m)) m ctx.createdBy now with
        ⟨v, p, _ | row⟩ <;> rfl
  | record row v p =>
      have hinsert : (fun t => versionedStep t scope m ctx now (.record row v p)) = fun t =>
          (SqlRows.insert noTenant t.fileVersions (scope.1, scope.2, m.path, row.versionId) row).elim
            (t, .done (.error .uniqueViolation)) fun rows =>
            ({ t with fileVersions := rows }, .update v p) := by
        funext t
        rw [versionedStep]
        cases SqlRows.insert noTenant t.fileVersions (scope.1, scope.2, m.path, row.versionId) row <;> rfl
      rw [hinsert]
      exact TenantTable.fileVersions.within_insert (scope.1, scope.2, m.path, row.versionId) _ _ _
  | update v p =>
      have hupdate := TenantTable.files.within (Confined.updateWhere (pathKey scope m)
        (fun _ => fileRowOfMeta m (some v) (some p)) (VersionedPhase.prune v))
      exact Within.ite (fun t => SqlRows.mem_keys_rowsOf (ofTenant_self (pathKey scope m))) hupdate
        (Within.of_read fun _ => rfl)
  | insert v p =>
      have hinsert : (fun t => versionedStep t scope m ctx now (.insert v p)) = fun t =>
          (SqlRows.insert noTenant t.files (pathKey scope m) (fileRowOfMeta m (some v) (some p))).elim
            (t, .done (.error .uniqueViolation)) fun rows =>
            ({ t with files := rows }, .prune v) := by
        funext t
        rw [versionedStep]
        cases SqlRows.insert noTenant t.files (pathKey scope m) (fileRowOfMeta m (some v) (some p)) <;> rfl
      rw [hinsert]
      exact TenantTable.files.within_insert (pathKey scope m) _ _ _
  | prune v =>
      refine TenantTable.fileVersions.within (Confined.filter
        (fun rows e => decide (¬ (e.1.1 = scope.1 ∧ e.1.2.1 = scope.2) ∨
          e.2 ∈ MetaDb.pruneFileVersions ((rows.filter fun e => e.1.1 = scope.1 ∧ e.1.2.1 = scope.2).map Prod.snd)
            m.path ctx.retention now))
        (fun _ => VersionedPhase.done (.ok v)) (fun rows => ?_) (fun _ => rfl) fun rows e hne => ?_)
      · have hmine : (SqlRows.rowsOf (ofTenant scope.1) rows).filter
            (fun e => decide (e.1.1 = scope.1 ∧ e.1.2.1 = scope.2)) =
              rows.filter fun e => decide (e.1.1 = scope.1 ∧ e.1.2.1 = scope.2) := by
          apply SqlRows.filter_rowsOf_of_forall
          intro e _ he
          exact decide_eq_true (of_decide_eq_true he).1
        rw [hmine]
      · exact decide_eq_true (.inl fun hmine => hne hmine.1)
  | done answer => exact Within.of_read fun _ => rfl

/-- and of revisions. -/
theorem within_revisionStep (k : PathKey) (expected : ℕ) (contentHash : Digest) (updatedBy : String) (now : ℤ)
    (phase : RevisionPhase) :
    Within (.tenant k.1) fun t => revisionStep t k expected contentHash updatedBy now phase := by
  have hcurrent : ∀ t : Tables, (ownRows (.tenant k.1) t).currentRevision k = t.currentRevision k := by
    intro t
    unfold Tables.currentRevision Tables.getAgentWriteRevision
    rw [show SqlRows.select (ownRows (.tenant k.1) t).agentWriteRevisions k =
      SqlRows.select t.agentWriteRevisions k from SqlRows.select_rowsOf (ofTenant_self k)]
  cases phase with
  | read =>
      refine Within.ite (fun t => by rw [hcurrent]) (Within.of_read fun t => ?_) (Within.of_read fun _ => rfl)
      rw [hcurrent]
  | write => exact TenantTable.agentWriteRevisions.within (Confined.upsert k _ _ _)
  | readBack =>
      refine Within.ite (fun t => by rw [hcurrent]) (Within.of_read fun t => ?_) (Within.of_read fun t => ?_)
      · rw [hcurrent]
      · rw [hcurrent]
  | done answer => exact Within.of_read fun _ => rfl

/-- Vaults are registered in the control database. -/
theorem within_vaultStep (k : VaultKey) (now : ℤ) : Within .control fun t => (vaultStep t k now, ()) where
  own _ := rfl
  others t o' ho := by
    cases o' with
    | control => exact absurd rfl ho
    | tenant tenantId => rfl

/-- So are members. -/
theorem within_memberStep (accounts : List String) (k : MemberKey) (role : VaultShareRole) (grantedBy : String)
    (now : ℤ) : Within .control fun t => memberStep accounts t k role grantedBy now where
  own t := by
    unfold memberStep
    split_ifs <;> rfl
  others t o' ho := by
    unfold memberStep
    cases o' with
    | control => exact absurd rfl ho
    | tenant tenantId => split_ifs <;> rfl

/-- **Every writer** stays within its owner. -/
theorem within_writerStep (accounts : List String) (now : ℤ) (w : Writer) :
    Within w.owner fun t => writerStep accounts now t w := by
  rcases w with ⟨scope, m, phase⟩ | ⟨scope, m, ctx, phase⟩ | ⟨k, _ | _⟩ |
    ⟨k, role, grantedBy, _ | answer⟩ | ⟨k, expected, contentHash, updatedBy, phase⟩
  · exact (within_fileStep scope m phase).map (Writer.file scope m)
  · exact (within_versionedStep scope m ctx now phase).map (Writer.versioned scope m ctx)
  · exact (within_vaultStep k now).map fun _ => Writer.vault k true
  · exact Within.of_read fun _ => rfl
  · exact (within_memberStep accounts k role grantedBy now).map fun answer =>
      Writer.member k role grantedBy (some answer)
  · exact Within.of_read fun _ => rfl
  · exact (within_revisionStep k expected contentHash updatedBy now phase).map
      (Writer.revision k expected contentHash updatedBy)

/-! ### Calls -/

/-- **Every data call** stays within its owner. -/
theorem within_dataStep (env : Surroundings) (now : ℤ) (c : DataCall) :
    Within c.owner fun t => dataStep env now t c := by
  rcases c with w | ⟨scope, limit, offset, phase⟩ | ⟨scope, path, _ | deleted⟩ | ⟨scope, _ | rows⟩
  · exact (within_writerStep env.accounts now w).map DataCall.writer
  · exact (within_listTrashStep env now scope limit offset phase).map (DataCall.listTrash scope limit offset)
  · exact (within_deleteTrashItem scope path).map fun deleted => DataCall.deleteTrash scope path (some deleted)
  · exact Within.of_read fun _ => rfl
  · exact (within_emptyTrash scope).map fun rows => DataCall.emptyTrash scope (some rows)
  · exact Within.of_read fun _ => rfl

/-- **Statements of an owner see the rows of the owner**, and change no others. -/
theorem dataLocal (env : Surroundings) (now : ℤ) : OwnerLocal DataCall.owner ownRows
    (fun t c => (dataStep env now t c).1) (fun t c => (dataStep env now t c).2) where
  answer_eq {t t' c} h := by
    have ht := (within_dataStep env now c).own t
    have ht' := (within_dataStep env now c).own t'
    rw [h] at ht
    exact (Prod.mk.inj (ht.symm.trans ht')).2
  own {t t' c} h := by
    have ht := (within_dataStep env now c).own t
    have ht' := (within_dataStep env now c).own t'
    rw [h] at ht
    exact (Prod.mk.inj (ht.symm.trans ht')).1
  others {t c o} h := (within_dataStep env now c).others t o h

end DiskArcana.Tenancy
