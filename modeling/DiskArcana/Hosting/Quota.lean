import DiskArcana.Lib.Total
import DiskArcana.Lib.Trace
import DiskArcana.Hosting.Stream

/-!
# The storage quota of a tenant

The gate of `billing/enforcer.rs` in front of the commit: what the live rows of the tenant add up to,
less the size of the row under the requested path, plus the size of the upload, must stay within the
limit. The row that is subtracted is found under the path as the request spells it, and counts whether
it is live or a tombstone; the row that the upload writes is the one under the normalised path.

The total stays within the limit along every run of uploads and deletes in which the size that is
subtracted never exceeds the live size of the row that is replaced (`usage_le_limit`). Sizes are below
`2^63`, so that no cast or saturating sum of the source rounds.
-/

namespace DiskArcana.Hosting

open DiskArcana.Core DiskArcana.Lib DiskArcana.Server

/-! ## The plan -/

/-- Source: `billing/mod.rs`, `QuotaLimits` -/
structure QuotaLimits where
  maxStorageBytes : ℕ
  maxNodes : ℕ
  maxVaults : ℕ

/-- Source: `billing/quota.rs`, `QuotaError` -/
inductive QuotaError where
  | storageExceeded (usedBytes : ℕ) (deltaBytes : ℤ) (limitBytes : ℕ)
  | nodesExceeded (activeNodes limitNodes : ℕ)
  | vaultsExceeded (knownVaults limitVaults : ℕ)

/-- Source: `billing/quota.rs`, `QuotaError` -/
def QuotaError.toText : QuotaError → String
  | .storageExceeded used delta limit =>
      s!"storage quota exceeded: used {used} + delta {delta} > limit {limit}"
  | .nodesExceeded active limit =>
      s!"node quota exceeded: active {active} >= limit {limit}"
  | .vaultsExceeded known limit => s!"vault quota exceeded: known {known} >= limit {limit}"

/-- Source: `billing/quota.rs`, `check_storage_delta` -/
def checkStorageDelta (usedBytes : ℕ) (deltaBytes : ℤ) (limits : QuotaLimits) :
    Except QuotaError Unit :=
  let projected :=
    if 0 ≤ deltaBytes then usedBytes + deltaBytes.toNat else usedBytes - (-deltaBytes).toNat
  if limits.maxStorageBytes < projected then
    .error (.storageExceeded usedBytes deltaBytes limits.maxStorageBytes)
  else .ok ()

/-- Source: `billing/quota.rs`, `check_node_capacity` -/
def checkNodeCapacity (activeNodes : ℕ) (limits : QuotaLimits) : Except QuotaError Unit :=
  if limits.maxNodes ≤ activeNodes then .error (.nodesExceeded activeNodes limits.maxNodes) else .ok ()

/-- Source: `billing/quota.rs`, `check_vault_capacity` -/
def checkVaultCapacity (knownVaults : ℕ) (vaultAlreadyKnown : Bool) (limits : QuotaLimits) :
    Except QuotaError Unit :=
  if vaultAlreadyKnown then .ok ()
  else if limits.maxVaults ≤ knownVaults then .error (.vaultsExceeded knownVaults limits.maxVaults)
  else .ok ()

/-! ## A tenant -/

/-- What a row counts for. -/
def liveSize (row : FileRow) : ℕ := if row.deleted then 0 else row.size

/-- A server as one tenant sees it: its plan, the vaults registered for it, and the vaults in which it
has rows. -/
structure Metered where
  host : Host
  tenant : Option String
  limits : QuotaLimits
  /-- `tenant_vaults` -/
  registered : Finset String
  vaults : Finset String
  complete : ∀ v, v ∉ vaults → (host.db (tenant, v)).files = ∅

namespace Metered

/-- Source: `meta_db/billing.rs`, `sum_storage_bytes` -/
def sumStorageBytes (m : Metered) : ℕ :=
  ∑ v ∈ m.vaults, Table.total liveSize (m.host.db (m.tenant, v)).files

/-- The host after a request that touches the rows of one vault. -/
def withHost (m : Metered) (h : Host) (share : String)
    (hother : ∀ v, v ≠ share → h.db (m.tenant, v) = m.host.db (m.tenant, v)) : Metered :=
  { m with
    host := h
    vaults := insert share m.vaults
    complete := by
      intro v hv
      rw [Finset.mem_insert, not_or] at hv
      rw [hother v hv.1]
      exact m.complete v hv.2 }

end Metered

/-- Which of the lookups of `check_upload` succeed. -/
structure QuotaEnv where
  billing : Except String Unit
  vaultCount : Except String Unit
  vaultLookup : Except String Unit
  storageSum : Except String Unit
  fileLookup : Except String Unit

/-- The size of the row under a path as it is spelled, live or not. -/
def foundSize (m : Metered) (share path : String) : ℕ :=
  (((m.host.db (m.tenant, share)).getFileScoped (dbKey path)).map FileMeta.size).getD 0

/-- The gate, with billing active.
Source: `billing/enforcer.rs`, `check_upload` -/
def checkUpload (m : Metered) (env : QuotaEnv) (share path : String) (newSize : ℕ) :
    Except String Unit := do
  env.billing.mapError fun e => s!"billing lookup: {e}"
  env.vaultCount.mapError fun e => s!"vault count: {e}"
  env.vaultLookup.mapError fun e => s!"vault lookup: {e}"
  (checkVaultCapacity m.registered.card (share ∈ m.registered) m.limits).mapError fun e =>
    "vault quota: " ++ e.toText
  env.storageSum.mapError fun e => s!"storage sum: {e}"
  env.fileLookup.mapError fun e => s!"file lookup: {e}"
  let delta := (newSize : ℤ) - (foundSize m share path : ℤ)
  (checkStorageDelta m.sumStorageBytes delta m.limits).mapError fun e => "storage quota: " ++ e.toText

/-- A check that went through leaves the rest of the gate. -/
theorem of_mapError_bind {ε β : Type} {x : Except ε Unit} {g : ε → String}
    {f : Unit → Except String β} {b : β} (h : (x.mapError g >>= f) = .ok b) : f () = .ok b := by
  cases x with
  | error e => exact nomatch h
  | ok u => exact h

/-- An upload that the gate accepts adds at most what is left, on its own count. -/
theorem of_checkUpload {m : Metered} {env : QuotaEnv} {share path : String} {newSize : ℕ} {u : Unit}
    (h : checkUpload m env share path newSize = .ok u) :
    m.sumStorageBytes + newSize ≤ m.limits.maxStorageBytes + foundSize m share path := by
  unfold checkUpload at h
  iterate 6 replace h := of_mapError_bind h
  dsimp only at h
  have hdelta : checkStorageDelta m.sumStorageBytes
      ((newSize : ℤ) - (foundSize m share path : ℤ)) m.limits = .ok () := by
    cases hd : checkStorageDelta m.sumStorageBytes
        ((newSize : ℤ) - (foundSize m share path : ℤ)) m.limits with
    | error e =>
        rw [hd] at h
        exact nomatch h
    | ok v => rfl
  unfold checkStorageDelta at hdelta
  dsimp only at hdelta
  split_ifs at hdelta with hpos hover hover
  · omega
  · omega

section

variable (blake3 : Bytes → Digest) (cfg : HostConfig)

/-! ## Uploads and deletes -/

/-- An upload of the tenant, with the verdict of the gate.
Source: `services/sync.rs`, `delta_upload` (storage quota gate) -/
def meteredRequest (m : Metered) (r : UploadRequest) (env : QuotaEnv) : UploadRequest :=
  { r with
    tenant := m.tenant
    quota :=
      match gateInput blake3 cfg { r with tenant := m.tenant } with
      | some (a, spool) => checkUpload m env r.share a.path (spool.getD []).length
      | none => .ok () }

/-- The tables after the share index has seen a file disappear.
Source: `share_index/mod.rs`, `tombstone_local_file` -/
def tombstoneRow (db : MetaDb) (path : Path) (now : ℤ) : MetaDb :=
  match db.getFileScoped path with
  | some row => db.upsertFileScoped (tombstone now row)
  | none => db.upsertFileScoped (missingTombstone cfg.serverNodeId path now)

/-- What a tenant does: upload, exchange its state, which may delete, and delete on the server. -/
inductive TenantEvent where
  | upload (r : UploadRequest) (env : QuotaEnv)
  | exchange (share : String) (call : ExchangeCall)
  | remove (share : String) (path : Path) (now : ℤ)

theorem deltaUpload_db_other (m : Metered) (r : UploadRequest) (env : QuotaEnv) (v : String)
    (hv : v ≠ r.share) :
    (deltaUpload blake3 cfg m.host (meteredRequest blake3 cfg m r env)).2.db (m.tenant, v) =
      m.host.db (m.tenant, v) := by
  apply deltaUpload_db_of_ne
  intro heq
  exact hv (congrArg Prod.snd heq)

theorem setDb_db_other (m : Metered) (share : String) (db : MetaDb) (v : String) (hv : v ≠ share) :
    (m.host.setDb (m.tenant, share) db).db (m.tenant, v) = m.host.db (m.tenant, v) := by
  apply Host.setDb_db_of_ne
  intro heq
  exact hv (congrArg Prod.snd heq)

/-- One step of the tenant. A successful upload registers its vault.
Source: `billing/enforcer.rs`, `record_vault_usage` -/
def tenantStep (m : Metered) : TenantEvent → Metered
  | .upload r env =>
      let out := deltaUpload blake3 cfg m.host (meteredRequest blake3 cfg m r env)
      { m.withHost out.2 r.share (deltaUpload_db_other blake3 cfg m r env) with
        registered := if out.1.isOk then insert r.share m.registered else m.registered }
  | .exchange share call =>
      m.withHost (m.host.setDb (m.tenant, share)
        (exchangeDb share (m.host.db (m.tenant, share)) call)) share (setDb_db_other m share _)
  | .remove share path now =>
      m.withHost (m.host.setDb (m.tenant, share)
        (tombstoneRow cfg (m.host.db (m.tenant, share)) path now)) share (setDb_db_other m share _)

@[simp] theorem tenantStep_limits (m : Metered) (e : TenantEvent) :
    (tenantStep blake3 cfg m e).limits = m.limits := by
  cases e <;> rfl

/-- The live size of the row that an upload to this location replaces. -/
def replacedSize (m : Metered) (share : String) (target : List String) : ℕ :=
  Table.weight liveSize (m.host.db (m.tenant, share)).files
    (pathAsStr (target.drop (cfg.rootFor share).length))

/-- The size that the gate will subtract for an upload is not more than the live size of the row that
the upload will replace. -/
def CountsRight (m : Metered) : TenantEvent → Prop
  | .upload r _ => ∀ msg rest target, r.stream = .ok msg :: rest →
      pathGuard (cfg.rootFor r.share) msg.path = .ok target →
        foundSize m r.share msg.path ≤ replacedSize cfg m r.share target
  | _ => True

/-! ## What one step adds -/

variable {blake3 cfg}

/-- How the total moves with the rows of one vault. -/
theorem sumStorageBytes_withHost (m : Metered) {h : Host} {share : String}
    (hother : ∀ v, v ≠ share → h.db (m.tenant, v) = m.host.db (m.tenant, v)) :
    (m.withHost h share hother).sumStorageBytes +
        Table.total liveSize (m.host.db (m.tenant, share)).files =
      m.sumStorageBytes + Table.total liveSize (h.db (m.tenant, share)).files := by
  apply sum_replace
  · intro v hv
    show Table.total liveSize (h.db (m.tenant, v)).files = _
    rw [hother v hv]
  · intro hnew
    rw [m.complete share hnew]
    rfl

/-- The first message of a stream that is read to its end announced the path. -/
theorem exists_first_of_receiveStream {r : UploadRequest} {a : Announced} {spool : Option Bytes}
    {stream : List (Except String StreamMessage)}
    (h : receiveStream blake3 cfg r none none stream = .ok (some a, spool)) :
    ∃ msg rest, stream = .ok msg :: rest ∧ a.path = msg.path := by
  have hkept : ∀ (rest : List (Except String StreamMessage)) (b : Announced) (spool₁ : Option Bytes),
      receiveStream blake3 cfg r (some b) spool₁ rest = .ok (some a, spool) → b = a := by
    intro rest
    induction rest with
    | nil =>
        intro b spool₁ hrest
        cases hrest
        rfl
    | cons m rest ih =>
        intro b spool₁ hrest
        cases m with
        | error e => cases hrest
        | ok m =>
            simp only [receiveStream] at hrest
            split at hrest
            · cases hrest
            · exact ih b _ hrest
  cases stream with
  | nil => cases h
  | cons m rest =>
      cases m with
      | error e => cases h
      | ok m =>
          simp only [receiveStream] at h
          split at h
          · cases h
          · rename_i b hb
            split at h
            · cases h
            · have hba := hkept rest b _ h
              subst hba
              refine ⟨m, rest, rfl, ?_⟩
              unfold announce at hb
              split at hb
              · cases hb
              · split at hb
                · cases hb
                · cases hb
                  rfl

/-- The rows after the upsert of an upload. -/
theorem files_recordRow (h : Host) (r : UploadRequest) (target : List String) (bytes : Bytes) :
    ((recordRow blake3 cfg h r target bytes).db r.scope).files = (h.db r.scope).files ∨
      ∃ row, liveSize row = bytes.length ∧
        ((recordRow blake3 cfg h r target bytes).db r.scope).files = (h.db r.scope).files.insert
          (pathAsStr (target.drop (cfg.rootFor r.share).length)) row := by
  by_cases hup : r.upsertOk = true
  · cases hupsert : (h.db r.scope).upsertFileScopedVersioned (rowMeta blake3 cfg r target bytes)
        ⟨cfg.serverNodeId, r.retention⟩ r.now with
    | none => exact Or.inl (by simp [recordRow, hup, hupsert, Host.setDb])
    | some db' =>
        obtain ⟨⟨versionId, parentVersionId, hfiles⟩, -⟩ :=
          MetaDb.of_upsertFileScopedVersioned hupsert
        refine Or.inr ⟨fileRowOfMeta (rowMeta blake3 cfg r target bytes) (some versionId)
          (some parentVersionId), rfl, ?_⟩
        simp only [recordRow, hup, if_true, hupsert, Host.setDb, Function.update_self,
          Option.getD_some]
        rw [hfiles, rowMeta_path]
  · rw [recordRow, if_neg hup]
    exact Or.inl rfl

/-- The rows of the vault after an upload: as they were, or with the uploaded file in place. -/
theorem files_deltaUpload (h : Host) (r : UploadRequest) :
    ((deltaUpload blake3 cfg h r).2.db r.scope).files = (h.db r.scope).files ∨
      ∃ a spool target row, Commits blake3 cfg r a spool target ∧
        liveSize row = (spool.getD []).length ∧
        ((deltaUpload blake3 cfg h r).2.db r.scope).files = (h.db r.scope).files.insert
          (pathAsStr (target.drop (cfg.rootFor r.share).length)) row := by
  obtain ⟨o, hreached, hends⟩ := exists_outcome blake3 cfg r
  rw [(hends h).db]
  cases o with
  | recorded a spool target =>
      rcases files_recordRow h r target (spool.getD []) with hsame | ⟨row, hsize, hrow⟩
      · exact Or.inl hsame
      · exact Or.inr ⟨a, spool, target, row, hreached, hsize, hrow⟩
  | nothing => exact Or.inl rfl
  | quarantined a spool => exact Or.inl rfl
  | archived a spool target => exact Or.inl rfl
  | unrecorded a spool target => exact Or.inl rfl

/-- What the gate has counted for an upload that commits. -/
theorem sumStorageBytes_add_le {m : Metered} {r : UploadRequest} {env : QuotaEnv} {a : Announced}
    {spool : Option Bytes} {target : List String}
    (hc : Commits blake3 cfg (meteredRequest blake3 cfg m r env) a spool target) :
    m.sumStorageBytes + (spool.getD []).length ≤
      m.limits.maxStorageBytes + foundSize m r.share a.path := by
  have hsame : SameStream { r with tenant := m.tenant } (meteredRequest blake3 cfg m r env) :=
    ⟨rfl, rfl, rfl, rfl, rfl, rfl, rfl⟩
  obtain ⟨u, hquota⟩ := hc.quota
  simp only [meteredRequest, (gateInput_eq_some_iff hsame).mpr hc.toReceived] at hquota
  exact of_checkUpload hquota

/-- An upload whose size is counted right keeps the total within the limit. -/
theorem sumStorageBytes_upload (m : Metered) {r : UploadRequest} {env : QuotaEnv}
    (hm : m.sumStorageBytes ≤ m.limits.maxStorageBytes) (hcount : CountsRight cfg m (.upload r env)) :
    (tenantStep blake3 cfg m (.upload r env)).sumStorageBytes ≤ m.limits.maxStorageBytes := by
  have htotal := sumStorageBytes_withHost m (deltaUpload_db_other blake3 cfg m r env)
  change (tenantStep blake3 cfg m (.upload r env)).sumStorageBytes + _ = _ at htotal
  obtain hsame | ⟨a, spool, target, row, hc, hsize, hrow⟩ :=
    @files_deltaUpload blake3 cfg m.host (meteredRequest blake3 cfg m r env)
  · change ((deltaUpload blake3 cfg m.host (meteredRequest blake3 cfg m r env)).2.db
      (m.tenant, r.share)).files = (m.host.db (m.tenant, r.share)).files at hsame
    rw [hsame] at htotal
    omega
  · change ((deltaUpload blake3 cfg m.host (meteredRequest blake3 cfg m r env)).2.db
      (m.tenant, r.share)).files = (m.host.db (m.tenant, r.share)).files.insert
        (pathAsStr (target.drop (cfg.rootFor r.share).length)) row at hrow
    rw [hrow] at htotal
    have hinsert := Table.total_insert liveSize (m.host.db (m.tenant, r.share)).files
      (pathAsStr (target.drop (cfg.rootFor r.share).length)) row
    have hgate := sumStorageBytes_add_le hc
    obtain ⟨msg, rest, hstream, hpath⟩ := exists_first_of_receiveStream hc.stream
    have hguard := hc.guard
    rw [hpath] at hgate hguard
    have hright : foundSize m r.share msg.path ≤ Table.weight liveSize
        (m.host.db (m.tenant, r.share)).files
          (pathAsStr (target.drop (cfg.rootFor r.share).length)) :=
      hcount msg rest target hstream hguard
    omega

/-- Deleting rows only lowers the total. -/
theorem sumStorageBytes_setDb_le (m : Metered) {share : String} {db : MetaDb}
    (hle : ∀ path, Table.weight liveSize db.files path ≤
      Table.weight liveSize (m.host.db (m.tenant, share)).files path) :
    (m.withHost (m.host.setDb (m.tenant, share) db) share
      (setDb_db_other m share db)).sumStorageBytes ≤ m.sumStorageBytes := by
  have htotal := sumStorageBytes_withHost m (setDb_db_other m share db)
  have hdb : (m.host.setDb (m.tenant, share) db).db (m.tenant, share) = db := by
    simp [Host.setDb]
  rw [hdb] at htotal
  have hlower := Table.total_le_of_weight_le hle
  omega

/-- An exchange deletes rows, and writes nothing else. -/
theorem weight_exchangeDb_le (vaultId : String) (db : MetaDb) (call : ExchangeCall) (path : Path) :
    Table.weight liveSize (exchangeDb vaultId db call).files path ≤
      Table.weight liveSize db.files path := by
  unfold Table.weight
  rw [lookup_exchangeDb_files]
  split
  · cases db.files.lookup path <;> simp [liveSize]
  · exact le_rfl

theorem weight_tombstoneRow_le (db : MetaDb) (path : Path) (now : ℤ) (path' : Path) :
    Table.weight liveSize (tombstoneRow cfg db path now).files path' ≤
      Table.weight liveSize db.files path' := by
  unfold tombstoneRow
  have hinsert : ∀ row : FileMeta, row.deleted = true → row.path = path →
      Table.weight liveSize (db.upsertFileScoped row).files path' ≤
        Table.weight liveSize db.files path' := by
    intro row hdeleted hpath
    unfold Table.weight MetaDb.upsertFileScoped
    dsimp only
    rw [Table.lookup_insert_eq_ite]
    split
    · simp [liveSize, MetaDb.upsertRow, fileRowOfMeta, hdeleted]
    · exact le_rfl
  split
  · rename_i row hrow
    apply hinsert _ rfl
    obtain ⟨r, -, rfl⟩ := Option.map_eq_some_iff.mp hrow
    rfl
  · exact hinsert _ rfl rfl

/-- One step of the tenant keeps the total within the limit. -/
theorem sumStorageBytes_tenantStep (m : Metered) {e : TenantEvent}
    (hm : m.sumStorageBytes ≤ m.limits.maxStorageBytes) (hcount : CountsRight cfg m e) :
    (tenantStep blake3 cfg m e).sumStorageBytes ≤ m.limits.maxStorageBytes := by
  cases e with
  | upload r env => exact sumStorageBytes_upload m hm hcount
  | exchange share call =>
      exact (sumStorageBytes_setDb_le m (weight_exchangeDb_le share _ call)).trans hm
  | remove share path now =>
      exact (sumStorageBytes_setDb_le m (weight_tombstoneRow_le _ path now)).trans hm

end

/-- **The quota along a run.** From a total within the limit, every sequence of uploads, exchanges and
deletes keeps it there, as long as the gate never subtracts more for an upload than the live size of
the row it replaces. -/
theorem usage_le_limit (blake3 : Bytes → Digest) (cfg : HostConfig) (m : Metered)
    (events : List TenantEvent) (hm : m.sumStorageBytes ≤ m.limits.maxStorageBytes)
    (hcount : Trace.Always (tenantStep blake3 cfg) (fun _ m e => CountsRight cfg m e) m events) :
    Trace.Always (tenantStep blake3 cfg)
      (fun _ m e => (tenantStep blake3 cfg m e).sumStorageBytes ≤ m.limits.maxStorageBytes)
      m events := by
  refine (Trace.Always.of_invariant (I := fun _ m => m.sumStorageBytes ≤ m.limits.maxStorageBytes)
    hm ?_ ?_ hcount).1
  · intro es e hinv hright
    exact sumStorageBytes_tenantStep _ hinv hright
  · intro es e hinv hright
    rw [tenantStep_limits]
    exact sumStorageBytes_tenantStep _ hinv hright

/-! ## A tenant that fills its plan, and one that leaves it -/

/-- A tenant without files. -/
def newTenant (limits : QuotaLimits) : Metered where
  host := Host.empty
  tenant := some "acme"
  limits := limits
  registered := ∅
  vaults := ∅
  complete := fun _ _ => rfl

/-- The gate with every lookup working. -/
def allLookups : QuotaEnv := ⟨.ok (), .ok (), .ok (), .ok (), .ok ()⟩

/-- An upload of the tenant to one of its vaults. -/
def tenantUpload (path : String) (bytes : Bytes) : TenantEvent :=
  .upload (sampleUpload (some "acme") "docs" path bytes) allLookups

/-- A file is written, and written again with more bytes. -/
def grow : List TenantEvent := [tenantUpload "a" [1], tenantUpload "a" [1, 2]]

theorem countsRight_of_guard {cfg : HostConfig} {m : Metered} {path : String} {bytes : Bytes}
    {target : List String} (hguard : pathGuard (cfg.rootFor "docs") path = .ok target)
    (hle : foundSize m "docs" path ≤ replacedSize cfg m "docs" target) :
    CountsRight cfg m (tenantUpload path bytes) := by
  intro msg rest target' hstream hguard'
  cases hstream
  cases hguard.symm.trans hguard'
  exact hle

/-- The theorem at work: the second upload fills the plan to its last byte. -/
theorem usage_le_limit_grow :
    (Trace.run (tenantStep System.sampleBlake3 smallConfig) (newTenant ⟨2, 1, 1⟩) grow).sumStorageBytes
        = 2 ∧
      Trace.Always (tenantStep System.sampleBlake3 smallConfig)
        (fun _ m e => (tenantStep System.sampleBlake3 smallConfig m e).sumStorageBytes ≤
          m.limits.maxStorageBytes) (newTenant ⟨2, 1, 1⟩) grow := by
  refine ⟨by decide +kernel, usage_le_limit System.sampleBlake3 smallConfig _ grow (by decide) ?_⟩
  apply Trace.always_of_forall_mem
  intro x hx
  rcases List.mem_pair.mp hx with rfl | rfl
  · exact @countsRight_of_guard _ _ _ _ ["srv", "sync", "a"] (by decide +kernel) (by decide +kernel)
  · exact @countsRight_of_guard _ _ _ _ ["srv", "sync", "a"] (by decide +kernel) (by decide +kernel)

/-- A file is written and deleted, another takes its place, and the first is created again. -/
def recreate : List TenantEvent :=
  [tenantUpload "a" [1], .remove "docs" ["a"] 7, tenantUpload "b" [2], tenantUpload "a" [3]]

/-- **A tombstone is paid back twice.** The size of the deleted row is no longer in the sum, and is
subtracted once more when the file is created again: one byte is allowed, two are stored. -/
theorem recreate_exceeds_limit :
    ¬ Trace.Always (tenantStep System.sampleBlake3 smallConfig)
      (fun _ m e => (tenantStep System.sampleBlake3 smallConfig m e).sumStorageBytes ≤
        m.limits.maxStorageBytes) (newTenant ⟨1, 1, 1⟩) recreate := by
  intro h
  have hlast := h [tenantUpload "a" [1], .remove "docs" ["a"] 7, tenantUpload "b" [2]]
    (tenantUpload "a" [3]) [] rfl
  exact absurd hlast (by decide +kernel)

end DiskArcana.Hosting
