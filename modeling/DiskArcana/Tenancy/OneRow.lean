import DiskArcana.Tenancy.Writers

/-!
# One row a key, with a tenant or without

The tables are meant to hold one row a key, whether the tenant is there or NULL, and everything that
reads by key rests on it (`TenantLaw`). The constraints leave keys without a tenant out, so the law
holds along a run exactly when no statement inserts a row of such a key where there is one already
(`tenantLaw_iff`). Registering a vault twice without a tenant is enough to break it, and so are two
interleaved upserts of one file (`not_tenantLaw_of_runs`).
-/

namespace DiskArcana.Tenancy

open DiskArcana.Core DiskArcana.Lib DiskArcana.Server

/-! ## What has been written -/

/-- A file that a statement stores, with the version columns if the statement sets them. -/
abbrev FileWrite := FileMeta × Option (ℕ × ℕ)

variable (accounts : List String) (now : ℤ) (t : Tables)

/-- The file that the next statement of a call stores. -/
def Writer.fileWrite : Writer → Option (PathKey × FileWrite)
  | .file scope m .update =>
      if pathKey scope m ∈ SqlRows.keys t.files then some (pathKey scope m, m, none) else none
  | .file scope m .insert =>
      if SqlRows.clashes noTenant t.files (pathKey scope m) then none
      else some (pathKey scope m, m, none)
  | .versioned scope m _ (.update v p) =>
      if pathKey scope m ∈ SqlRows.keys t.files then some (pathKey scope m, m, some (v, p)) else none
  | .versioned scope m _ (.insert v p) =>
      if SqlRows.clashes noTenant t.files (pathKey scope m) then none
      else some (pathKey scope m, m, some (v, p))
  | _ => none

/-- The vault that it registers. -/
def Writer.vaultWrite : Writer → Option VaultKey
  | .vault k false => some k
  | _ => none

/-- The revision that it stores. -/
def Writer.revisionWrite : Writer → Option (PathKey × RevisionRow)
  | .revision k expected contentHash updatedBy .write =>
      if SqlRows.clashes noTenant t.agentWriteRevisions k ∧ t.currentRevision k ≠ expected then none
      else some (k, bumpRow expected contentHash updatedBy now)
  | _ => none

/-- What a step of a run writes. -/
def written {β : Type} (f : Tables → ℤ → Writer → Option β) (x : WriterState × WriterEvent) :
    Option β :=
  match x.2 with
  | .proceed id now => (x.1.writers.lookup id).bind (f x.1.tables now)
  | _ => none

abbrev History := List (WriterState × WriterEvent)

/-- The last write to a key. -/
def lastWrite {κ β : Type} [DecidableEq κ] (f : Tables → ℤ → Writer → Option (κ × β))
    (hist : History) (k : κ) : Option β :=
  ((hist.filterMap (written f)).reverse.find? fun e => e.1 = k).map Prod.snd

def lastFile (hist : History) (k : PathKey) : Option FileWrite :=
  lastWrite (fun t _ w => w.fileWrite t) hist k

def lastRevision (hist : History) (k : PathKey) : Option RevisionRow :=
  lastWrite (fun t now w => w.revisionWrite now t) hist k

/-- The vaults that have been registered, as often as they were. -/
def registered (hist : History) : List VaultKey := hist.filterMap (written fun _ _ w => w.vaultWrite)

/-! ## The law -/

/-- Each table has one row a key. -/
structure OneRows : Prop where
  files : SqlRows.OneRow t.files
  tenantVaults : SqlRows.OneRow t.tenantVaults
  vaultMembers : SqlRows.OneRow t.vaultMembers
  agentWriteRevisions : SqlRows.OneRow t.agentWriteRevisions

/-- A file that is read is what the last write stored. A write that does not set the version columns
leaves them as they are. -/
def ReadsAs (found : Option FileMeta) : Option FileWrite → Prop
  | none => found = none
  | some (m, versions) => ∃ v p, found =
      some { m with nodeId := "", versionId := v, parentVersionId := p } ∧
        ∀ q ∈ versions, v = some q.1 ∧ p = some q.2

/-- What the tables owe after a step of a run. -/
structure TenantLaw (hist : History) (s : WriterState) (e : WriterEvent) : Prop where
  oneRow : OneRows (runStep accounts s e).tables
  /-- Registering a registered vault changes nothing. -/
  idempotent : ∀ k, written (fun _ _ w => w.vaultWrite) (s, e) = some k → k ∈ registered hist →
    (runStep accounts s e).tables.tenantVaults = s.tables.tenantVaults
  /-- The vaults of a tenant are counted once each. -/
  count : ∀ tenantId, (runStep accounts s e).tables.countTenantVaults tenantId =
    ((registered (hist ++ [(s, e)])).filter fun k => k.1 = tenantId).dedup.length
  file : ∀ k, ReadsAs ((runStep accounts s e).tables.getFileScoped k) (lastFile (hist ++ [(s, e)]) k)
  revision : ∀ k, (runStep accounts s e).tables.getAgentWriteRevision k =
    lastRevision (hist ++ [(s, e)]) k

/-! ## The condition -/

/-- The next statement of a call inserts a row of a key without a tenant that has one. -/
def Writer.Repeats : Writer → Prop
  | .file scope m .insert => SqlRows.Repeats noTenant t.files (pathKey scope m)
  | .versioned scope m _ (.insert _ _) => SqlRows.Repeats noTenant t.files (pathKey scope m)
  | .vault k false => SqlRows.Repeats noTenant t.tenantVaults k
  | .member k _ grantedBy none => (k.2.2 ∈ accounts ∧ grantedBy ∈ accounts) ∧
      SqlRows.Repeats noTenant t.vaultMembers k
  | .revision k _ _ _ .write => SqlRows.Repeats noTenant t.agentWriteRevisions k
  | _ => False

def StepRepeats (s : WriterState) : WriterEvent → Prop
  | .proceed id _ => ∃ w ∈ s.writers.lookup id, w.Repeats accounts s.tables
  | _ => False

/-! ## One statement -/

variable {accounts now t} {w : Writer}

section

variable {P : Prop}

theorem oneRows_files {files : SqlRows PathKey FileRow}
    (h : SqlRows.OneRow files ↔ SqlRows.OneRow t.files ∧ ¬ P) :
    OneRows { t with files } ↔ OneRows t ∧ ¬ P := by
  constructor
  · rintro ⟨hf, hv, hm, hr⟩
    exact ⟨⟨(h.mp hf).1, hv, hm, hr⟩, (h.mp hf).2⟩
  · rintro ⟨⟨hf, hv, hm, hr⟩, hP⟩
    exact ⟨h.mpr ⟨hf, hP⟩, hv, hm, hr⟩

theorem oneRows_tenantVaults {tenantVaults : SqlRows VaultKey ℤ}
    (h : SqlRows.OneRow tenantVaults ↔ SqlRows.OneRow t.tenantVaults ∧ ¬ P) :
    OneRows { t with tenantVaults } ↔ OneRows t ∧ ¬ P := by
  constructor
  · rintro ⟨hf, hv, hm, hr⟩
    exact ⟨⟨hf, (h.mp hv).1, hm, hr⟩, (h.mp hv).2⟩
  · rintro ⟨⟨hf, hv, hm, hr⟩, hP⟩
    exact ⟨hf, h.mpr ⟨hv, hP⟩, hm, hr⟩

theorem oneRows_vaultMembers {vaultMembers : SqlRows MemberKey MemberRow}
    (h : SqlRows.OneRow vaultMembers ↔ SqlRows.OneRow t.vaultMembers ∧ ¬ P) :
    OneRows { t with vaultMembers } ↔ OneRows t ∧ ¬ P := by
  constructor
  · rintro ⟨hf, hv, hm, hr⟩
    exact ⟨⟨hf, hv, (h.mp hm).1, hr⟩, (h.mp hm).2⟩
  · rintro ⟨⟨hf, hv, hm, hr⟩, hP⟩
    exact ⟨hf, hv, h.mpr ⟨hm, hP⟩, hr⟩

theorem oneRows_agentWriteRevisions {agentWriteRevisions : SqlRows PathKey RevisionRow}
    (h : SqlRows.OneRow agentWriteRevisions ↔ SqlRows.OneRow t.agentWriteRevisions ∧ ¬ P) :
    OneRows { t with agentWriteRevisions } ↔ OneRows t ∧ ¬ P := by
  constructor
  · rintro ⟨hf, hv, hm, hr⟩
    exact ⟨⟨hf, hv, hm, (h.mp hr).1⟩, (h.mp hr).2⟩
  · rintro ⟨⟨hf, hv, hm, hr⟩, hP⟩
    exact ⟨hf, hv, hm, h.mpr ⟨hr, hP⟩⟩

theorem oneRows_fileVersions
    {fileVersions : SqlRows (Option String × String × Path × ℕ) FileVersionRow} (h : ¬ P) :
    OneRows { t with fileVersions } ↔ OneRows t ∧ ¬ P := by
  constructor
  · rintro ⟨hf, hv, hm, hr⟩
    exact ⟨⟨hf, hv, hm, hr⟩, h⟩
  · rintro ⟨⟨hf, hv, hm, hr⟩, -⟩
    exact ⟨hf, hv, hm, hr⟩

theorem oneRows_of_not (h : ¬ P) : OneRows t ↔ OneRows t ∧ ¬ P := (and_iff_left h).symm

end

/-- **One row a key.** A statement keeps it exactly when it does not repeat a key. -/
theorem oneRows_step : OneRows (writerStep accounts now t w).1 ↔
    OneRows t ∧ ¬ w.Repeats accounts t := by
  rcases w with ⟨scope, m, phase⟩ | ⟨scope, m, ctx, phase⟩ | ⟨k, done⟩ | ⟨k, role, grantedBy, answer⟩ |
    ⟨k, expected, contentHash, updatedBy, phase⟩
  · cases phase with
    | update =>
        simp only [writerStep, fileStep]
        split_ifs
        · exact oneRows_files (by simp [Writer.Repeats])
        · exact oneRows_of_not not_false
    | insert =>
        rcases hinsert : SqlRows.insert noTenant t.files (pathKey scope m)
          (MetaDb.upsertRow none m) with _ | files <;> simp only [writerStep, fileStep, hinsert]
        · exact oneRows_of_not (SqlRows.not_repeats_of_clashes (SqlRows.clashes_of_insert hinsert))
        · exact oneRows_files (SqlRows.oneRow_insert hinsert)
    | done answer => exact oneRows_of_not not_false
  · cases phase with
    | read =>
        rcases hnext : MetaDb.nextVersion (SqlRows.select t.files (pathKey scope m)) m ctx.createdBy
          now with ⟨v, p, _ | row⟩ <;> simp only [writerStep, versionedStep, hnext]
        · exact oneRows_of_not not_false
        · exact oneRows_of_not not_false
    | record row v p =>
        rcases hinsert : SqlRows.insert noTenant t.fileVersions
          (scope.1, scope.2, m.path, row.versionId) row with _ | fileVersions <;>
          simp only [writerStep, versionedStep, hinsert]
        · exact oneRows_of_not not_false
        · exact oneRows_fileVersions not_false
    | update v p =>
        simp only [writerStep, versionedStep]
        split_ifs
        · exact oneRows_files (by simp [Writer.Repeats])
        · exact oneRows_of_not not_false
    | insert v p =>
        rcases hinsert : SqlRows.insert noTenant t.files (pathKey scope m)
          (fileRowOfMeta m (some v) (some p)) with _ | files <;>
          simp only [writerStep, versionedStep, hinsert]
        · exact oneRows_of_not (SqlRows.not_repeats_of_clashes (SqlRows.clashes_of_insert hinsert))
        · exact oneRows_files (SqlRows.oneRow_insert hinsert)
    | prune v => exact oneRows_fileVersions not_false
    | done answer => exact oneRows_of_not not_false
  · cases done with
    | false => exact oneRows_tenantVaults SqlRows.oneRow_insertOrIgnore
    | true => exact oneRows_of_not not_false
  · cases answer with
    | none =>
        simp only [writerStep, memberStep]
        split_ifs with haccounts
        · refine oneRows_vaultMembers (SqlRows.oneRow_upsert.trans (and_congr_right fun _ => ?_))
          simp [Writer.Repeats, haccounts]
        · exact oneRows_of_not fun h => haccounts h.1
    | some answer => exact oneRows_of_not not_false
  · cases phase with
    | read =>
        simp only [writerStep, revisionStep]
        split_ifs
        · exact oneRows_of_not not_false
        · exact oneRows_of_not not_false
    | write => exact oneRows_agentWriteRevisions SqlRows.oneRow_upsert
    | readBack =>
        simp only [writerStep, revisionStep]
        split_ifs
        · exact oneRows_of_not not_false
        · exact oneRows_of_not not_false
    | done answer => exact oneRows_of_not not_false

theorem files_of_no_write (h : w.fileWrite t = none) :
    (writerStep accounts now t w).1.files = t.files := by
  rcases w with ⟨scope, m, phase⟩ | ⟨scope, m, ctx, phase⟩ | ⟨k, _ | _⟩ | ⟨k, role, grantedBy, _ | _⟩ |
    ⟨k, expected, contentHash, updatedBy, phase⟩
  · cases phase with
    | update =>
        simp only [Writer.fileWrite] at h
        split_ifs at h with hk
        simp [writerStep, fileStep, hk]
    | insert =>
        simp only [Writer.fileWrite] at h
        split_ifs at h with hclash
        simp [writerStep, fileStep, SqlRows.insert, hclash]
    | done answer => rfl
  · cases phase with
    | read =>
        simp only [writerStep, versionedStep]
        split <;> rfl
    | record row v p =>
        simp only [writerStep, versionedStep]
        split <;> rfl
    | update v p =>
        simp only [Writer.fileWrite] at h
        split_ifs at h with hk
        simp [writerStep, versionedStep, hk]
    | insert v p =>
        simp only [Writer.fileWrite] at h
        split_ifs at h with hclash
        simp [writerStep, versionedStep, SqlRows.insert, hclash]
    | prune v => rfl
    | done answer => rfl
  · rfl
  · rfl
  · simp only [writerStep, memberStep]
    split_ifs <;> rfl
  · rfl
  · cases phase with
    | read =>
        simp only [writerStep, revisionStep]
        split_ifs <;> rfl
    | readBack =>
        simp only [writerStep, revisionStep]
        split_ifs <;> rfl
    | _ => rfl

/-- The row that a statement stores in `files`. -/
theorem files_of_write {k : PathKey} {m : FileMeta} {versions : Option (ℕ × ℕ)}
    (h : w.fileWrite t = some (k, m, versions)) (hrep : ¬ w.Repeats accounts t) :
    k.2.2 = m.path ∧ ∃ v p, (∀ q ∈ versions, v = some q.1 ∧ p = some q.2) ∧
      ∀ k', SqlRows.select (writerStep accounts now t w).1.files k' =
        if k' = k then some (fileRowOfMeta m v p) else SqlRows.select t.files k' := by
  rcases w with ⟨scope, m, phase⟩ | ⟨scope, m, ctx, phase⟩ | ⟨k, done⟩ | ⟨k, role, grantedBy, answer⟩ |
    ⟨k, expected, contentHash, updatedBy, phase⟩
  · cases phase with
    | update =>
        simp only [Writer.fileWrite] at h
        split_ifs at h with hk
        cases h
        obtain ⟨old, hold⟩ := SqlRows.mem_keys_iff.mp hk
        refine ⟨rfl, old.versionId, old.parentVersionId, nofun, fun k' => ?_⟩
        simp only [writerStep, fileStep, if_pos hk]
        rw [SqlRows.select_updateWhere, hold]
        rfl
    | insert =>
        simp only [Writer.fileWrite] at h
        split_ifs at h with hclash
        cases h
        have hinsert : SqlRows.insert noTenant t.files (pathKey scope m) (MetaDb.upsertRow none m) =
            some (t.files ++ [(pathKey scope m, MetaDb.upsertRow none m)]) := if_neg hclash
        refine ⟨rfl, none, none, nofun, fun k' => ?_⟩
        simp only [writerStep, fileStep, hinsert]
        exact SqlRows.select_insert hinsert hrep
    | done answer => cases h
  · cases phase with
    | update v p =>
        simp only [Writer.fileWrite] at h
        split_ifs at h with hk
        cases h
        obtain ⟨old, hold⟩ := SqlRows.mem_keys_iff.mp hk
        refine ⟨rfl, some v, some p, ?_, fun k' => ?_⟩
        · rintro q ⟨⟩
          exact ⟨rfl, rfl⟩
        · simp only [writerStep, versionedStep, if_pos hk]
          rw [SqlRows.select_updateWhere, hold]
          rfl
    | insert v p =>
        simp only [Writer.fileWrite] at h
        split_ifs at h with hclash
        cases h
        have hinsert : SqlRows.insert noTenant t.files (pathKey scope m)
            (fileRowOfMeta m (some v) (some p)) =
              some (t.files ++ [(pathKey scope m, fileRowOfMeta m (some v) (some p))]) :=
          if_neg hclash
        refine ⟨rfl, some v, some p, ?_, fun k' => ?_⟩
        · rintro q ⟨⟩
          exact ⟨rfl, rfl⟩
        · simp only [writerStep, versionedStep, hinsert]
          exact SqlRows.select_insert hinsert hrep
    | _ => cases h
  · cases h
  · cases h
  · cases h

theorem tenantVaults_step : (writerStep accounts now t w).1.tenantVaults =
    match w.vaultWrite with
    | some k => SqlRows.insertOrIgnore noTenant t.tenantVaults k now
    | none => t.tenantVaults := by
  rcases w with ⟨scope, m, phase⟩ | ⟨scope, m, ctx, phase⟩ | ⟨k, _ | _⟩ | ⟨k, role, grantedBy, _ | _⟩ |
    ⟨k, expected, contentHash, updatedBy, phase⟩
  · cases phase with
    | done answer => rfl
    | _ =>
        simp only [writerStep, fileStep, Writer.vaultWrite]
        split <;> rfl
  · cases phase with
    | prune v => rfl
    | done answer => rfl
    | _ =>
        simp only [writerStep, versionedStep, Writer.vaultWrite]
        split <;> rfl
  · rfl
  · rfl
  · simp only [writerStep, memberStep]
    split_ifs <;> rfl
  · rfl
  · cases phase with
    | read =>
        simp only [writerStep, revisionStep]
        split_ifs <;> rfl
    | readBack =>
        simp only [writerStep, revisionStep]
        split_ifs <;> rfl
    | _ => rfl

/-- The revision that a statement stores. -/
theorem select_revisions_step (hrep : ¬ w.Repeats accounts t) (k' : PathKey) :
    (writerStep accounts now t w).1.getAgentWriteRevision k' =
      match w.revisionWrite now t with
      | some (k, row) => if k' = k then some row else t.getAgentWriteRevision k'
      | none => t.getAgentWriteRevision k' := by
  rcases w with ⟨scope, m, phase⟩ | ⟨scope, m, ctx, phase⟩ | ⟨k, _ | _⟩ | ⟨k, role, grantedBy, _ | _⟩ |
    ⟨k, expected, contentHash, updatedBy, phase⟩
  · cases phase with
    | done answer => rfl
    | _ =>
        simp only [writerStep, fileStep, Writer.revisionWrite]
        split <;> rfl
  · cases phase with
    | prune v => rfl
    | done answer => rfl
    | _ =>
        simp only [writerStep, versionedStep, Writer.revisionWrite]
        split <;> rfl
  · rfl
  · rfl
  · simp only [writerStep, memberStep, Writer.revisionWrite]
    split_ifs <;> rfl
  · rfl
  · cases phase with
    | read =>
        simp only [writerStep, revisionStep, Writer.revisionWrite]
        split_ifs <;> rfl
    | readBack =>
        simp only [writerStep, revisionStep, Writer.revisionWrite]
        split_ifs <;> rfl
    | write =>
        have hselect : (writerStep accounts now t
            (.revision k expected contentHash updatedBy .write)).1.getAgentWriteRevision k' = _ :=
          SqlRows.select_upsert hrep
        rw [hselect, Writer.revisionWrite]
        by_cases hclash : SqlRows.clashes noTenant t.agentWriteRevisions k = true
        · obtain ⟨old, hold⟩ := SqlRows.mem_keys_iff.mp (SqlRows.of_clashes hclash).2
          have hcurrent : t.currentRevision k = old.revision := by
            simp [Tables.currentRevision, Tables.getAgentWriteRevision, hold]
          by_cases hexpected : old.revision = expected
          · simp [hold, hcurrent, hexpected, Tables.getAgentWriteRevision]
          · -- the row has another revision and stays
            by_cases hk : k' = k
            · simp [hold, hcurrent, hexpected, hclash, hk, Tables.getAgentWriteRevision]
            · simp [hcurrent, hexpected, hclash, hk, Tables.getAgentWriteRevision]
        · have hnew := SqlRows.select_eq_none.mpr (SqlRows.notMem_keys hclash hrep)
          simp [hclash, hnew, Tables.getAgentWriteRevision]
    | done answer => rfl

/-! ## Runs -/

section LastWrite

variable {κ β : Type} [DecidableEq κ] {f : Tables → ℤ → Writer → Option (κ × β)} {hist : History}
  {s : WriterState} {e : WriterEvent}

theorem lastWrite_snoc (k' : κ) : lastWrite f (hist ++ [(s, e)]) k' =
    match written f (s, e) with
    | some (k, b) => if k' = k then some b else lastWrite f hist k'
    | none => lastWrite f hist k' := by
  unfold lastWrite
  rw [List.filterMap_append, List.reverse_append]
  rcases hw : written f (s, e) with _ | ⟨k, b⟩
  · simp [hw]
  · by_cases hk : k' = k
    · simp [hw, hk]
    · simp [hw, hk, Ne.symm hk]

end LastWrite

/-- What the tables hold after a run. -/
structure Kept (hist : History) (t : Tables) : Prop where
  oneRow : OneRows t
  vault : ∀ k, k ∈ SqlRows.keys t.tenantVaults ↔ k ∈ registered hist
  file : ∀ k, ReadsAs (t.getFileScoped k) (lastFile hist k)
  revision : ∀ k, t.getAgentWriteRevision k = lastRevision hist k

theorem kept_new : Kept [] WriterState.new.tables where
  oneRow := ⟨List.nodup_nil, List.nodup_nil, List.nodup_nil, List.nodup_nil⟩
  vault _ := Iff.rfl
  file _ := rfl
  revision _ := rfl

/-- The registered vaults of a tenant are counted once each. -/
theorem Kept.count {hist : History} (h : Kept hist t) (tenantId : Option String) :
    t.countTenantVaults tenantId =
      ((registered hist).filter fun k => k.1 = tenantId).dedup.length := by
  have hcount : t.countTenantVaults tenantId =
      ((SqlRows.keys t.tenantVaults).filter fun k => k.1 = tenantId).length := by
    unfold Tables.countTenantVaults SqlRows.keys
    rw [List.countP_eq_length_filter, List.filter_map, List.length_map]
    rfl
  rw [hcount]
  apply List.Perm.length_eq
  rw [List.perm_ext_iff_of_nodup (h.oneRow.tenantVaults.filter _) (List.nodup_dedup _)]
  intro k
  rw [List.mem_dedup, List.mem_filter, List.mem_filter, h.vault]

/-- A statement that does not repeat a key. -/
theorem Kept.step {hist : History} {s : WriterState} {e : WriterEvent} (h : Kept hist s.tables)
    (hrep : ¬ StepRepeats accounts s e) :
    Kept (hist ++ [(s, e)]) (runStep accounts s e).tables := by
  have hidle : (∀ {β : Type} (f : Tables → ℤ → Writer → Option β), written f (s, e) = none) →
      (runStep accounts s e).tables = s.tables →
        Kept (hist ++ [(s, e)]) (runStep accounts s e).tables := by
    intro hnone hsame
    rw [hsame]
    refine ⟨h.oneRow, fun k => ?_, fun k => ?_, fun k => ?_⟩
    · rw [h.vault, registered, registered, List.filterMap_append, List.mem_append]
      simp [hnone]
    · rw [lastFile, lastWrite_snoc, hnone]
      exact h.file k
    · rw [lastRevision, lastWrite_snoc, hnone]
      exact h.revision k
  have harrive : ∀ id w, (s.arrive id w).tables = s.tables := by
    intro id w
    unfold WriterState.arrive
    split_ifs <;> rfl
  cases e with
  | proceed id now =>
      rcases hw : s.writers.lookup id with _ | w
      · refine hidle (fun f => ?_) ?_
        · simp [written, hw]
        · simp [runStep, hw]
      · have hwritten : ∀ {β : Type} (f : Tables → ℤ → Writer → Option β),
            written f (s, .proceed id now) = f s.tables now w := by
          intro β f
          simp [written, hw]
        have hnext : (runStep accounts s (.proceed id now)).tables =
            (writerStep accounts now s.tables w).1 := by
          simp [runStep, hw]
        have hw' : ¬ w.Repeats accounts s.tables := fun h => hrep ⟨w, hw, h⟩
        rw [hnext]
        refine ⟨oneRows_step.mpr ⟨h.oneRow, hw'⟩, fun k => ?_, fun k => ?_, fun k => ?_⟩
        · rw [tenantVaults_step, registered, List.filterMap_append, List.mem_append, ← registered,
            ← h.vault]
          rcases hv : w.vaultWrite with _ | k'
          · simp [hwritten, hv]
          · simp [hwritten, hv, SqlRows.mem_keys_insertOrIgnore, or_comm]
        · rw [lastFile, lastWrite_snoc, hwritten]
          rcases hf : w.fileWrite s.tables with _ | ⟨k', m, versions⟩
          · rw [Tables.getFileScoped, files_of_no_write hf]
            exact h.file k
          · obtain ⟨hpath, v, p, hversions, hselect⟩ := files_of_write hf hw'
            rw [Tables.getFileScoped, hselect]
            by_cases hk : k = k'
            · simp only [if_pos hk]
              refine ⟨v, p, ?_, hversions⟩
              rw [hk, hpath]
              rfl
            · simp only [if_neg hk]
              exact h.file k
        · rw [select_revisions_step hw', lastRevision, lastWrite_snoc, hwritten, ← lastRevision,
            ← h.revision]
          rcases w.revisionWrite now s.tables with _ | ⟨k', row⟩
          · rfl
          · rfl
  | upsertFileScoped id scope m => exact hidle (fun _ => rfl) (harrive id _)
  | upsertFileScopedVersioned id scope m ctx => exact hidle (fun _ => rfl) (harrive id _)
  | registerTenantVault id k => exact hidle (fun _ => rfl) (harrive id _)
  | upsertVaultMember id k role grantedBy => exact hidle (fun _ => rfl) (harrive id _)
  | bumpAgentWriteRevision id k expected contentHash updatedBy =>
      exact hidle (fun _ => rfl) (harrive id _)

/-- The law at one step. -/
theorem Kept.tenantLaw_step_iff {hist : History} {s : WriterState} {e : WriterEvent}
    (h : Kept hist s.tables) : TenantLaw accounts hist s e ↔ ¬ StepRepeats accounts s e := by
  constructor
  · intro hlaw hrep
    cases e with
    | proceed id now =>
        obtain ⟨w, hw, hw'⟩ := hrep
        have hnext : (runStep accounts s (.proceed id now)).tables =
            (writerStep accounts now s.tables w).1 := by
          simp [runStep, Option.mem_def.mp hw]
        have hone := hlaw.oneRow
        rw [hnext, oneRows_step] at hone
        exact hone.2 hw'
    | _ => exact hrep
  · intro hrep
    have hnext := h.step hrep
    refine ⟨hnext.oneRow, ?_, hnext.count, hnext.file, hnext.revision⟩
    intro k hk hregistered
    cases e with
    | proceed id now =>
        obtain ⟨w, hw, hvault⟩ := Option.bind_eq_some_iff.mp hk
        have hw' : ¬ w.Repeats accounts s.tables := fun h => hrep ⟨w, hw, h⟩
        rcases w with _ | _ | ⟨k', _ | _⟩ | _ | _ <;> cases hvault
        simp only [runStep, hw, writerStep, vaultStep]
        exact SqlRows.insertOrIgnore_of_mem ((h.vault k).mpr hregistered) hw'
    | _ => cases hk

/-- **One row a key.** Along a run from empty tables the law holds at every step exactly when no
statement inserts a row of a key without a tenant that has one. -/
theorem tenantLaw_iff (accounts : List String) (events : List WriterEvent) :
    Trace.Always (runStep accounts) (TenantLaw accounts) .new events ↔
      Trace.Always (runStep accounts) (fun _ s e => ¬ StepRepeats accounts s e) .new events := by
  refine Trace.always_iff_of_invariant (I := fun hist s => Kept hist s.tables) kept_new ?_ ?_
  · intro es e h
    exact h.tenantLaw_step_iff
  · intro es e h hlaw
    exact h.step (h.tenantLaw_step_iff.mp hlaw)

/-! ## Runs -/

def sampleMeta (byte : UInt8) : FileMeta where
  path := ["a"]
  contentHash := List.Vector.replicate 32 byte
  size := 1
  mtimeNs := 1
  inode := none
  vectorClock := .new
  deleted := false
  deletedAt := none
  nodeId := ""
  encryptionNonce := none
  versionId := none
  parentVersionId := none

/-- One vault is registered twice, without a tenant. -/
def registerTwice : List WriterEvent :=
  [.registerTenantVault 1 (none, "notes"), .proceed 1 1, .registerTenantVault 2 (none, "notes"),
    .proceed 2 2]

/-- Two uploads of one file, each with its `UPDATE` before the `INSERT` of the other. -/
def interleavedUpserts : List WriterEvent :=
  [.upsertFileScoped 1 (none, "notes") (sampleMeta 1),
    .upsertFileScoped 2 (none, "notes") (sampleMeta 2), .proceed 1 1, .proceed 2 1, .proceed 1 2,
    .proceed 2 2]

/-- Without a tenant, registering a vault again adds a row, and so do interleaved upserts of a file;
the last write is then not what is read. -/
theorem not_tenantLaw_of_runs :
    ¬ Trace.Always (runStep []) (TenantLaw []) .new registerTwice ∧
      ¬ Trace.Always (runStep []) (TenantLaw []) .new interleavedUpserts := by
  constructor
  · intro h
    have hlast := h (registerTwice.take 3) (.proceed 2 2) [] rfl
    exact absurd hlast.oneRow.tenantVaults (by decide +kernel)
  · intro h
    have hlast := h (interleavedUpserts.take 5) (.proceed 2 2) [] rfl
    exact absurd hlast.oneRow.files (by decide +kernel)

end DiskArcana.Tenancy
