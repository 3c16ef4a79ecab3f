import DiskArcana.Lib.OptimisticLock
import DiskArcana.Lib.Trace
import DiskArcana.Vault.AgentWrite

/-!
# Agent writes as an optimistic lock

What `if_match_revision` is meant to give: of the calls that expect one revision at most one succeeds,
the revisions of the successful calls follow each other, the file and its row are those of the last of
them, and a call that is told of a conflict has changed nothing (`LockLaw`).

The revision is compared before the file is written and bumped after it, and that the bump went
through is read off the revision that is there afterwards, whoever put it there. So the law holds
along a run whose writers do not overlap between their write and their row (`Unraced`), by the moves of
an optimistic lock (`lockLaw_of_unraced`), and two calls that do overlap can both succeed with one
revision (`not_lockLaw_of_race`).
-/

namespace DiskArcana.Vault

open DiskArcana.Core DiskArcana.Lib DiskArcana.Lib.OptimisticLock DiskArcana.Server
open DiskArcana.Lib.UnixFs DiskArcana.Lib.UnixFs.FileSystem
open DiskArcana.Hosting (dbKey)

/-! ## The law -/

/-- A call has succeeded. -/
def Answered (s : AgentState) (id : ℕ) (call : AgentCall) (target : Location) (revision : ℕ) : Prop :=
  s.calls.lookup id = some call ∧ call.phase = .answered target revision

/-- No call is under way. -/
def Finished (s : AgentState) : Prop :=
  ∀ id call, s.calls.lookup id = some call →
    (∃ target revision, call.phase = .answered target revision) ∨
      ∃ status message, call.phase = .failed status message

/-- The files read as before, and the rows are the same. -/
structure LeavesFound (s s' : AgentState) : Prop where
  files : ∀ target, readFile s'.vault.fs [] (absolute target) =
    readFile s.vault.fs [] (absolute target)
  rows : s'.vault.db = s.vault.db
  revisions : s'.revisions = s.revisions

section

variable (decodeBase64 : String → Option Bytes) (blake3 : Bytes → Digest) (cfg : VaultConfig)
  (path : String)

/-- What the lock owes after a run that began at a revision. -/
structure LockLaw (first : ℕ) (hist : List (AgentState × AgentEvent)) (s : AgentState) : Prop where
  /-- Successful calls have revisions of their own. -/
  distinct : ∀ id id' call call' target target' revision revision',
    Answered s id call target revision → Answered s id' call' target' revision' → id ≠ id' →
      revision ≠ revision'
  /-- They increase by one, from the first on. -/
  consecutive : Finished s → ∀ id call target revision, Answered s id call target revision →
    first < revision ∧ ∀ k, first < k → k < revision →
      ∃ id' call' target', Answered s id' call' target' k
  /-- At most one call with an expected revision succeeds. -/
  single : ∀ id id' call call' target target' revision revision',
    Answered s id call target revision → Answered s id' call' target' revision' → id ≠ id' →
      call.expected ≠ call'.expected
  /-- The file and its row are those of the last successful call. -/
  last : Finished s → ∀ id call target revision, Answered s id call target revision →
    (∀ id' call' target' revision', Answered s id' call' target' revision' →
      revision' ≤ revision) →
    readFile s.vault.fs [] (absolute target) = some call.bytes ∧
      ∃ row, s.vault.db.files.lookup (dbKey path) = some row ∧ row.deleted = false ∧
        row.contentHash = blake3 call.bytes
  /-- A call that is told of a conflict has changed nothing. -/
  conflict : ∀ id call, s.calls.lookup id = some call → call.phase = .revisionConflict →
    ∀ x ∈ hist, (∃ a, x.2 = .proceed id a) →
      LeavesFound x.1 (agentStep decodeBase64 blake3 cfg path x.1 x.2)

/-! ## The condition -/

/-- What a call is doing to the file, once it has written it. -/
def AgentPhase.stage : AgentPhase → Option (Location × Stage)
  | .written target | .bumping target => some (target, .writing)
  | .bumped target | .revised target _ | .planned target _ _ => some (target, .advanced)
  | .upserted target _ | .answered target _ => some (target, .won)
  | _ => none

/-- The call has written the file and not yet its row. -/
def AgentPhase.inFlight (phase : AgentPhase) : Bool :=
  phase.stage.any fun p => decide (p.2 ≠ .won)

/-- The write opens the file, and so empties it. -/
def Opens (s : AgentState) (a : AgentAnswers) (bytes : Bytes) (target : Location) : Prop :=
  a.write ≠ .refused ∧ (writeFile s.vault.fs [] (absolute target) bytes).isSome = true

/-- The next step of a call is not raced. When it writes the file, the revision is still the one it
expects, no other call is between its write and its row, and the write ends well. From there to its
row no statement fails, the vault has a tenant or the path no revision yet, and the row is that of the
path. -/
def CallUnraced (s : AgentState) (a : AgentAnswers) (call : AgentCall) : Prop :=
  match call.phase with
  | .archived target => Opens s a call.bytes target →
      a.write = .done ∧ currentRevision s.revisions = call.expected ∧
        ∀ e ∈ s.calls.entries, e.2.phase.inFlight = false
  | .written _ | .bumped _ | .revised _ _ => a.dbOk = true
  | .bumping _ => a.dbOk = true ∧ (s.vault.db.tenantId.isSome = true ∨ s.revisions.length = 0)
  | .planned target _ retention =>
      a.upsertOk = true ∧ rowKey cfg target = dbKey path ∧
        (s.vault.db.upsertFileScopedVersioned (agentMeta blake3 cfg call target a)
          ⟨call.user, retention⟩ a.now).isSome = true
  | _ => True

/-- The step of the run is not raced. -/
def Unraced (s : AgentState) : AgentEvent → Prop
  | .arrive _ _ => True
  | .proceed id a => ∀ call ∈ s.calls.lookup id, CallUnraced blake3 cfg path s a call

/-! ## The lock behind the calls -/

/-- The ticket of a call that has written. -/
def AgentCall.ticket (call : AgentCall) : Option (Ticket (Location × Bytes)) :=
  call.phase.stage.map fun p => ⟨(p.1, call.bytes), call.expected, p.2⟩

/-- The calls that have written, the revision, the file and the row of the path. -/
def lockOf (s : AgentState) : Lock ℕ (Location × Bytes) where
  tickets id := (s.calls.lookup id).bind AgentCall.ticket
  revision := currentRevision s.revisions
  holds v := readFile s.vault.fs [] (absolute v.1) = some v.2
  recorded v := ∃ row, s.vault.db.files.lookup (dbKey path) = some row ∧ row.deleted = false ∧
    row.contentHash = blake3 v.2

/-- The revision that a call will answer with. -/
def AgentPhase.revision : AgentPhase → Option ℕ
  | .revised _ revision | .planned _ revision _ | .upserted _ revision | .answered _ revision =>
      some revision
  | _ => none

/-- Every call that has a revision has the one after the one it expected. -/
def Numbered (s : AgentState) : Prop :=
  ∀ id call revision, s.calls.lookup id = some call → call.phase.revision = some revision →
    revision = call.expected + 1

/-- The call can still be told of a conflict by its first comparison, or has been told. -/
def AgentPhase.early : AgentPhase → Bool
  | .admitted | .looked _ => true
  | .failed status message => decide (status = 409) && decide (message = "revision_conflict")
  | _ => false

/-- Calls that can still be told, or have been, have changed nothing. -/
def Clean (hist : List (AgentState × AgentEvent)) (s : AgentState) : Prop :=
  ∀ id, (∀ call, s.calls.lookup id = some call → call.phase.early = true) →
    ∀ x ∈ hist, (∃ a, x.2 = .proceed id a) →
      LeavesFound x.1 (agentStep decodeBase64 blake3 cfg path x.1 x.2)

/-! ## One step -/

/-- What a step that is not raced can be: it leaves what matters to the lock as it is, or it writes the
file, or it bumps the revision, or it writes the row. -/
inductive StepKind (s : AgentState) (call : AgentCall)
    (next : VaultState × List RevisionRow × AgentPhase) : Prop
  | same (hstage : next.2.2.stage = call.phase.stage)
      (hfiles : ∀ target content, readFile s.vault.fs [] (absolute target) = some content →
        readFile next.1.fs [] (absolute target) = some content)
      (hrows : next.1.db = s.vault.db) (hrevisions : next.2.1 = s.revisions)
      (hearly : next.2.2.early = true → call.phase.early = true ∧ next.1.fs = s.vault.fs)
  | write (target : Location) (hstage : call.phase.stage = none)
      (hstage' : next.2.2.stage = some (target, .writing))
      (hcurrent : currentRevision s.revisions = call.expected)
      (halone : ∀ e ∈ s.calls.entries, e.2.phase.inFlight = false)
      (hread : readFile next.1.fs [] (absolute target) = some call.bytes)
      (hrevisions : next.2.1 = s.revisions) (hlate : next.2.2.early = false)
  | advance (target : Location) (hstage : call.phase.stage = some (target, .writing))
      (hstage' : next.2.2.stage = some (target, .advanced)) (hfiles : next.1.fs = s.vault.fs)
      (hrevision : currentRevision next.2.1 = call.expected + 1) (hlate : next.2.2.early = false)
  | record (target : Location) (hstage : call.phase.stage = some (target, .advanced))
      (hstage' : next.2.2.stage = some (target, .won)) (hfiles : next.1.fs = s.vault.fs)
      (hrow : ∃ row, next.1.db.files.lookup (dbKey path) = some row ∧ row.deleted = false ∧
        row.contentHash = blake3 call.bytes)
      (hrevisions : next.2.1 = s.revisions) (hlate : next.2.2.early = false)

variable {decodeBase64 blake3 cfg path}

theorem LeavesFound.refl (s : AgentState) : LeavesFound s s := ⟨fun _ => rfl, rfl, rfl⟩

/-- The state after a step of a call. -/
theorem agentStep_proceed {s : AgentState} {id : ℕ} {call : AgentCall}
    (hcall : s.calls.lookup id = some call) (a : AgentAnswers) :
    agentStep decodeBase64 blake3 cfg path s (.proceed id a) =
      { vault := (stepAgent blake3 cfg path s a call).1
        revisions := (stepAgent blake3 cfg path s a call).2.1
        calls := s.calls.insert id { call with phase := (stepAgent blake3 cfg path s a call).2.2 } } := by
  unfold agentStep
  simp only [hcall]

/-- The tickets after a call has changed its phase. -/
theorem tickets_insert (s s' : AgentState) {id : ℕ} {call : AgentCall}
    (hcalls : s'.calls = s.calls.insert id call) :
    (lockOf blake3 path s').tickets =
      Function.update (lockOf blake3 path s).tickets id call.ticket := by
  funext j
  unfold lockOf
  simp only [hcalls]
  by_cases hj : j = id
  · subst hj
    rw [AList.lookup_insert, Function.update_self, Option.bind_some]
  · rw [AList.lookup_insert_ne hj, Function.update_of_ne hj]

/-- A step that leaves the ticket of its call, the revision and the row as they are, and every file
readable, is a move. -/
theorem move_of_same {s s' : AgentState} {id : ℕ} {call' : AgentCall}
    (hcall : (s.calls.lookup id).bind AgentCall.ticket = call'.ticket)
    (hcalls : s'.calls = s.calls.insert id call')
    (hfiles : ∀ target content, readFile s.vault.fs [] (absolute target) = some content →
      readFile s'.vault.fs [] (absolute target) = some content)
    (hrows : s'.vault.db = s.vault.db) (hrevisions : s'.revisions = s.revisions) :
    Move (lockOf blake3 path s) (lockOf blake3 path s') := by
  refine Move.keep ?_ ?_ ?_ ?_
  · rw [tickets_insert s s' hcalls, ← hcall]
    exact Function.update_eq_self id _
  · unfold lockOf
    rw [hrevisions]
  · exact fun v hv => hfiles v.1 v.2 hv
  · intro v hv
    unfold lockOf at hv ⊢
    rw [hrows]
    exact hv

/-- A step that changes nothing but the phase. -/
theorem StepKind.of_phase {s : AgentState} {call : AgentCall} {phase : AgentPhase}
    (hstage : phase.stage = call.phase.stage)
    (hearly : phase.early = true → call.phase.early = true) :
    StepKind blake3 path s call (s.vault, s.revisions, phase) :=
  .same hstage (fun _ _ h => h) rfl rfl fun h => ⟨hearly h, rfl⟩

/-- Directories that are created leave every file readable. -/
theorem readFile_makeParents {fs : FileSystem Bytes} {parent : Location} (ok : Bool)
    {target : Location} {content : Bytes} (h : readFile fs [] (absolute target) = some content) :
    readFile (makeParents fs parent ok).1 [] (absolute target) = some content := by
  unfold makeParents
  split_ifs
  · exact readFile_of_extends (fun _ _ hnode => createDirs_extends fs [] _ hnode) h
  · exact h

/-- Whether a file can be written does not depend on the bytes. -/
theorem writeFile_eq_none {fs : FileSystem Bytes} {cwd : Location} {p : List String}
    {bytes : Bytes} (h : writeFile fs cwd p bytes = none) (bytes' : Bytes) :
    writeFile fs cwd p bytes' = none := by
  unfold writeFile at h ⊢
  rcases hloc : locate fs maxLinks cwd p with _ | loc
  · rfl
  · rw [hloc, Option.bind_some] at h
    rw [Option.bind_some]
    split_ifs at h ⊢
    rfl

/-- A write that does not open the file leaves the files as they are, and fails. -/
theorem writeTarget_of_not_opens {s : AgentState} {a : AgentAnswers} {bytes : Bytes}
    {target : Location} (h : ¬ Opens s a bytes target) :
    writeTarget s.vault.fs target bytes a.write = (s.vault.fs, false) := by
  unfold Opens at h
  cases hwrite : a.write with
  | refused => rfl
  | cut n =>
      have hnone : writeFile s.vault.fs [] (absolute target) bytes = none := by
        rw [hwrite] at h
        simpa using h
      unfold writeTarget
      simp only [writeFile_eq_none hnone, Option.getD_none]
  | done =>
      have hnone : writeFile s.vault.fs [] (absolute target) bytes = none := by
        rw [hwrite] at h
        simpa using h
      unfold writeTarget
      simp only [hnone]

/-- The revision after a bump that expects the current one. -/
theorem currentRevision_upsertRevision {tenantId : Option String} {revisions : List RevisionRow}
    {row : RevisionRow} {expected : ℕ} (hcurrent : currentRevision revisions = expected)
    (h : tenantId.isSome = true ∨ revisions.length = 0) :
    currentRevision (upsertRevision tenantId revisions expected row) = row.revision := by
  rcases revisions with _ | ⟨current, rest⟩
  · unfold upsertRevision
    cases tenantId <;> rfl
  · rcases tenantId with _ | tenant
    · simp at h
    · have hsame : current.revision = expected := hcurrent
      unfold upsertRevision
      simp only [if_pos hsame]
      rfl

/-- The row after the upsert of a written file. -/
theorem row_of_upsert {db db' : MetaDb} {call : AgentCall} {target : Location} {a : AgentAnswers}
    {ctx : MetaDb.FileVersionUpsert}
    (h : db.upsertFileScopedVersioned (agentMeta blake3 cfg call target a) ctx a.now = some db')
    (hkey : rowKey cfg target = dbKey path) :
    ∃ row, db'.files.lookup (dbKey path) = some row ∧ row.deleted = false ∧
      row.contentHash = blake3 call.bytes := by
  obtain ⟨⟨versionId, parentVersionId, hfiles⟩, -⟩ := MetaDb.of_upsertFileScopedVersioned h
  have hpath : (agentMeta blake3 cfg call target a).path = dbKey path := by
    unfold agentMeta
    rw [restoredMeta_path]
    exact hkey
  refine ⟨fileRowOfMeta (agentMeta blake3 cfg call target a) (some versionId)
    (some parentVersionId), ?_, rfl, rfl⟩
  rw [hfiles, hpath, AList.lookup_insert]

/-- **The write.** The file is written when the revision is the expected one and no call is in flight,
or it is left as it is. -/
theorem stepKind_write {s : AgentState} {a : AgentAnswers} {call : AgentCall} {target : Location}
    (hphase : call.phase = .archived target) (h : CallUnraced blake3 cfg path s a call) :
    StepKind blake3 path s call (stepAgent blake3 cfg path s a call) := by
  unfold CallUnraced at h
  unfold stepAgent
  rw [hphase] at h ⊢
  by_cases hopens : Opens s a call.bytes target
  · obtain ⟨hdone, hcurrent, halone⟩ := h hopens
    obtain ⟨fs', hfs'⟩ := Option.isSome_iff_exists.mp hopens.2
    have hwritten : writeTarget s.vault.fs target call.bytes a.write = (fs', true) := by
      rw [hdone]
      unfold writeTarget
      simp only [hfs']
    refine .write target ?_ ?_ hcurrent halone ?_ rfl ?_
    · rw [hphase]
      rfl
    · simp only [hwritten, if_true]
      rfl
    · simp only [hwritten]
      exact readFile_of_writeFile hfs'
    · simp only [hwritten, if_true]
      rfl
  · have hwritten := writeTarget_of_not_opens hopens
    refine .same ?_ ?_ rfl rfl fun hearly => ?_
    · rw [hphase]
      simp only [hwritten]
      rfl
    · simp only [hwritten]
      exact fun _ _ hread => hread
    · simp [hwritten, AgentPhase.early] at hearly

/-- **The advance.** The revision is still the expected one, and it is bumped. -/
theorem stepKind_advance {s : AgentState} {a : AgentAnswers} {call : AgentCall} {target : Location}
    (hcurrent : currentRevision s.revisions = call.expected)
    (hphase : call.phase = .written target ∨ call.phase = .bumping target)
    (h : CallUnraced blake3 cfg path s a call) :
    StepKind blake3 path s call (stepAgent blake3 cfg path s a call) := by
  unfold CallUnraced at h
  unfold stepAgent
  rcases hphase with hphase | hphase
  · rw [hphase] at h ⊢
    have hnext : (if !a.dbOk then AgentPhase.failed 500 "database error"
        else if currentRevision s.revisions ≠ call.expected then .revisionConflict
        else .bumping target) = .bumping target := by
      simp [hcurrent, show a.dbOk = true from h]
    dsimp only
    rw [hnext]
    refine StepKind.of_phase ?_ fun hearly => ?_
    · rw [hphase]
      rfl
    · simp [AgentPhase.early] at hearly
  · rw [hphase] at h ⊢
    obtain ⟨hdb, hscoped⟩ := h
    simp only [hdb, if_true]
    refine .advance target ?_ rfl rfl ?_ rfl
    · rw [hphase]
      rfl
    · exact currentRevision_upsertRevision hcurrent hscoped

/-- **The record.** The revision is the bumped one, the retention is looked up, and the row is
written. -/
theorem stepKind_record {s : AgentState} {a : AgentAnswers} {call : AgentCall} {target : Location}
    (hcurrent : currentRevision s.revisions = call.expected + 1)
    (hphase : call.phase = .bumped target ∨ (∃ revision, call.phase = .revised target revision) ∨
      ∃ revision retention, call.phase = .planned target revision retention)
    (h : CallUnraced blake3 cfg path s a call) :
    StepKind blake3 path s call (stepAgent blake3 cfg path s a call) := by
  unfold CallUnraced at h
  unfold stepAgent
  rcases hphase with hphase | ⟨revision, hphase⟩ | ⟨revision, retention, hphase⟩
  · rw [hphase] at h ⊢
    have hnext : (if !a.dbOk then AgentPhase.failed 500 "database error"
        else if currentRevision s.revisions = call.expected + 1 then
          .revised target (call.expected + 1)
        else .revisionConflict) = .revised target (call.expected + 1) := by
      simp [hcurrent, show a.dbOk = true from h]
    dsimp only
    rw [hnext]
    refine StepKind.of_phase ?_ fun hearly => ?_
    · rw [hphase]
      rfl
    · simp [AgentPhase.early] at hearly
  · rw [hphase] at h ⊢
    have hdb : a.dbOk = true := h
    simp only [hdb, if_true]
    refine StepKind.of_phase ?_ fun hearly => ?_
    · rw [hphase]
      rfl
    · simp [AgentPhase.early] at hearly
  · rw [hphase] at h ⊢
    obtain ⟨hok, hkey, hsome⟩ := h
    obtain ⟨db, hdb⟩ := Option.isSome_iff_exists.mp hsome
    simp only [hdb, hok]
    refine .record target ?_ rfl rfl (row_of_upsert hdb hkey) rfl rfl
    rw [hphase]
    rfl

/-- **What one step does**, when it is not raced and the lock is in order. -/
theorem stepKind_of_unraced {s : AgentState} {a : AgentAnswers} {call : AgentCall}
    (hwriting : ∀ target, call.phase.stage = some (target, .writing) →
      currentRevision s.revisions = call.expected)
    (hadvanced : ∀ target, call.phase.stage = some (target, .advanced) →
      currentRevision s.revisions = call.expected + 1)
    (h : CallUnraced blake3 cfg path s a call) :
    StepKind blake3 path s call (stepAgent blake3 cfg path s a call) := by
  cases hphase : call.phase with
  | archived target => exact stepKind_write hphase h
  | written target => exact stepKind_advance (hwriting target (by rw [hphase]; rfl)) (.inl hphase) h
  | bumping target => exact stepKind_advance (hwriting target (by rw [hphase]; rfl)) (.inr hphase) h
  | bumped target => exact stepKind_record (hadvanced target (by rw [hphase]; rfl)) (.inl hphase) h
  | revised target revision =>
      exact stepKind_record (hadvanced target (by rw [hphase]; rfl)) (.inr (.inl ⟨revision, hphase⟩)) h
  | planned target revision retention =>
      exact stepKind_record (hadvanced target (by rw [hphase]; rfl))
        (.inr (.inr ⟨revision, retention, hphase⟩)) h
  | admitted | looked current =>
      unfold stepAgent
      rw [hphase]
      dsimp only
      refine StepKind.of_phase ?_ fun _ => by rw [hphase]; rfl
      rw [hphase]
      split_ifs <;> rfl
  | compared =>
      unfold stepAgent
      rw [hphase]
      refine StepKind.of_phase ?_ fun hearly => ?_
      · rw [hphase]
        split <;> rfl
      · exfalso
        split at hearly <;> simp [AgentPhase.early] at hearly
  | guarded target =>
      unfold stepAgent
      rw [hphase]
      refine .same ?_ (fun _ _ hread => readFile_makeParents a.dirOk hread) rfl rfl fun hearly => ?_
      · rw [hphase]
        dsimp only
        split_ifs <;> rfl
      · exfalso
        dsimp only at hearly
        split_ifs at hearly <;> simp [AgentPhase.early] at hearly
  | prepared target | upserted target revision =>
      unfold stepAgent
      rw [hphase]
      refine .same ?_ (fun _ _ hread => hread) rfl rfl fun hearly => ?_
      · rw [hphase]
        rfl
      · simp [AgentPhase.early] at hearly
  | answered target revision =>
      unfold stepAgent
      rw [hphase]
      refine StepKind.of_phase ?_ fun hearly => ?_
      · rw [hphase]
      · simp [AgentPhase.early] at hearly
  | failed status message =>
      unfold stepAgent
      rw [hphase]
      refine StepKind.of_phase ?_ fun hearly => ?_
      · rw [hphase]
      · rw [hphase]
        exact hearly

/-- A phase with a ticket that has not won is in flight. -/
theorem inFlight_of_ticket {call : AgentCall} {t : Ticket (Location × Bytes)}
    (ht : call.ticket = some t) (hstage : t.stage ≠ .won) : call.phase.inFlight = true := by
  obtain ⟨p, hp, rfl⟩ := Option.map_eq_some_iff.mp ht
  unfold AgentPhase.inFlight
  rw [hp]
  simpa using hstage

variable (decodeBase64) in
/-- **An unraced step of a call is a move of the lock.** -/
theorem move_of_proceed {first : ℕ} {s : AgentState} {id : ℕ} {a : AgentAnswers} {call : AgentCall}
    (hinv : Inv first (lockOf blake3 path s)) (hcall : s.calls.lookup id = some call)
    (h : CallUnraced blake3 cfg path s a call) :
    StepKind blake3 path s call (stepAgent blake3 cfg path s a call) ∧
      Move (lockOf blake3 path s)
        (lockOf blake3 path (agentStep decodeBase64 blake3 cfg path s (.proceed id a))) := by
  have hticket : ∀ target stage, call.phase.stage = some (target, stage) →
      (lockOf blake3 path s).tickets id = some ⟨(target, call.bytes), call.expected, stage⟩ := by
    intro target stage hstage
    show (s.calls.lookup id).bind AgentCall.ticket = _
    rw [hcall, Option.bind_some]
    unfold AgentCall.ticket
    rw [hstage]
    rfl
  have hkind := stepKind_of_unraced
    (fun target hstage => hinv.writing id _ (hticket target _ hstage) rfl)
    (fun target hstage => hinv.advanced id _ (hticket target _ hstage) rfl) h
  refine ⟨hkind, ?_⟩
  rw [agentStep_proceed hcall]
  have hold : (s.calls.lookup id).bind AgentCall.ticket = call.ticket := by
    rw [hcall, Option.bind_some]
  cases hkind with
  | same hstage hfiles hrows hrevisions hearly =>
      refine move_of_same ?_ rfl hfiles hrows hrevisions
      rw [hold]
      unfold AgentCall.ticket
      rw [hstage]
  | write target hstage hstage' hcurrent halone hread hrevisions hlate =>
      refine Move.write id (target, call.bytes) ?_ ?_ ?_ ?_ hread
      · intro j t ht
        obtain ⟨other, hother, hothert⟩ := Option.bind_eq_some_iff.mp ht
        by_contra hnot
        have hflight := inFlight_of_ticket hothert hnot
        rw [halone ⟨j, other⟩ (Table.mem_entries_iff.mpr hother)] at hflight
        cases hflight
      · show (s.calls.lookup id).bind AgentCall.ticket = none
        rw [hold]
        unfold AgentCall.ticket
        rw [hstage]
        rfl
      · have hrevision : (lockOf blake3 path s).revision = call.expected := hcurrent
        rw [tickets_insert s _ rfl, hrevision]
        unfold AgentCall.ticket
        rw [hstage']
        rfl
      · show currentRevision _ = currentRevision _
        rw [hrevisions]
  | advance target hstage hstage' hfiles hrevision hlate =>
      refine Move.advance id _ (hticket target _ hstage) rfl ?_ hrevision ?_
      · rw [tickets_insert s _ rfl]
        unfold AgentCall.ticket
        rw [hstage']
        rfl
      · intro v hv
        show readFile (stepAgent blake3 cfg path s a call).1.fs [] _ = _
        rw [hfiles]
        exact hv
  | record target hstage hstage' hfiles hrow hrevisions hlate =>
      refine Move.record id _ (hticket target _ hstage) rfl ?_ ?_ ?_ hrow
      · rw [tickets_insert s _ rfl]
        unfold AgentCall.ticket
        rw [hstage']
        rfl
      · show currentRevision _ = currentRevision _
        rw [hrevisions]
      · intro v hv
        show readFile (stepAgent blake3 cfg path s a call).1.fs [] _ = _
        rw [hfiles]
        exact hv

/-- A call that has just arrived has no ticket. -/
theorem stage_of_admitCall {req : AgentWriteRequest} {call : AgentCall}
    (h : admitCall decodeBase64 path req = some call) :
    call.phase.stage = none ∧ call.phase.revision = none := by
  unfold admitCall at h
  dsimp only at h
  split at h
  · cases h
    exact ⟨rfl, rfl⟩
  · split_ifs at h
    split at h
    · cases h
      exact ⟨rfl, rfl⟩
    · split at h
      · cases h
        exact ⟨rfl, rfl⟩
      · cases h
        exact ⟨rfl, rfl⟩

/-- The state after an arrival: a new call, or the same state. -/
theorem agentStep_arrive (s : AgentState) (id : ℕ) (req : AgentWriteRequest) :
    agentStep decodeBase64 blake3 cfg path s (.arrive id req) = s ∨
      ∃ call, s.calls.lookup id = none ∧ admitCall decodeBase64 path req = some call ∧
        agentStep decodeBase64 blake3 cfg path s (.arrive id req) =
          { s with calls := s.calls.insert id call } := by
  unfold agentStep
  dsimp only
  split
  · rename_i call hnone hcall
    exact Or.inr ⟨call, hnone, hcall, rfl⟩
  · exact Or.inl rfl

/-- A step of a call that is not there does nothing. -/
theorem agentStep_of_none {s : AgentState} {id : ℕ} (h : s.calls.lookup id = none)
    (a : AgentAnswers) : agentStep decodeBase64 blake3 cfg path s (.proceed id a) = s := by
  unfold agentStep
  simp only [h]

/-- **Every unraced step is a move of the lock.** -/
theorem move_of_unraced {first : ℕ} {s : AgentState} {e : AgentEvent}
    (hinv : Inv first (lockOf blake3 path s)) (h : Unraced blake3 cfg path s e) :
    Move (lockOf blake3 path s)
      (lockOf blake3 path (agentStep decodeBase64 blake3 cfg path s e)) := by
  have hstay : Move (lockOf blake3 path s) (lockOf blake3 path s) :=
    Move.keep rfl rfl (fun _ hv => hv) fun _ hv => hv
  cases e with
  | arrive id req =>
      rcases agentStep_arrive s id req with hsame | ⟨call, hnone, hadmit, hnew⟩
      · rw [hsame]
        exact hstay
      · rw [hnew]
        refine move_of_same ?_ rfl (fun _ _ hread => hread) rfl rfl
        rw [hnone]
        unfold AgentCall.ticket
        rw [(stage_of_admitCall hadmit).1]
        rfl
  | proceed id a =>
      rcases hcall : s.calls.lookup id with _ | call
      · rw [agentStep_of_none hcall]
        exact hstay
      · exact (move_of_proceed decodeBase64 hinv hcall (h call hcall)).2

/-- A revision is handed to a call as the one after the one it expected, and then kept. -/
theorem revision_of_stepAgent {s : AgentState} {a : AgentAnswers} {call : AgentCall} {revision : ℕ}
    (h : (stepAgent blake3 cfg path s a call).2.2.revision = some revision) :
    revision = call.expected + 1 ∨ call.phase.revision = some revision := by
  unfold stepAgent at h
  cases hphase : call.phase with
  | bumped target =>
      rw [hphase] at h
      dsimp only at h
      split_ifs at h
      · cases h
      · exact Or.inl (Option.some.inj h).symm
      · cases h
  | revised target r =>
      rw [hphase] at h
      dsimp only at h
      split_ifs at h
      · exact Or.inr h
      · cases h
  | planned target r retention =>
      rw [hphase] at h
      dsimp only at h
      split at h
      · exact Or.inr h
      · cases h
  | upserted target r =>
      rw [hphase] at h
      exact Or.inr h
  | answered target r =>
      rw [hphase] at h
      exact Or.inr h
  | bumping target =>
      rw [hphase] at h
      dsimp only at h
      split_ifs at h <;> cases h
  | _ =>
      rw [hphase] at h
      dsimp only at h
      first
        | cases h
        | (split_ifs at h <;> cases h)
        | (split at h <;> cases h)

/-- The calls after a step: the one that made it, in its next phase, and the others. -/
theorem of_lookup_proceed {s : AgentState} {id id' : ℕ} {a : AgentAnswers} {call call' : AgentCall}
    (hcall : s.calls.lookup id = some call)
    (h : (agentStep decodeBase64 blake3 cfg path s (.proceed id a)).calls.lookup id' = some call') :
    (id' = id ∧ call' = { call with phase := (stepAgent blake3 cfg path s a call).2.2 }) ∨
      (id' ≠ id ∧ s.calls.lookup id' = some call') := by
  rw [agentStep_proceed hcall] at h
  dsimp only at h
  rw [Table.lookup_insert_eq_ite] at h
  split_ifs at h with hid
  · exact Or.inl ⟨hid, (Option.some.inj h).symm⟩
  · exact Or.inr ⟨hid, h⟩

theorem numbered_step {s : AgentState} (h : Numbered s) (e : AgentEvent) :
    Numbered (agentStep decodeBase64 blake3 cfg path s e) := by
  intro id' call' revision hcall' hrevision
  cases e with
  | arrive id req =>
      rcases agentStep_arrive s id req with hsame | ⟨call, -, hadmit, hnew⟩
      · rw [hsame] at hcall'
        exact h id' call' revision hcall' hrevision
      · rw [hnew] at hcall'
        dsimp only at hcall'
        rw [Table.lookup_insert_eq_ite] at hcall'
        split_ifs at hcall' with hid
        · obtain rfl := Option.some.inj hcall'
          rw [(stage_of_admitCall hadmit).2] at hrevision
          cases hrevision
        · exact h id' call' revision hcall' hrevision
  | proceed id a =>
      rcases hcall : s.calls.lookup id with _ | call
      · rw [agentStep_of_none hcall] at hcall'
        exact h id' call' revision hcall' hrevision
      · rcases of_lookup_proceed hcall hcall' with ⟨-, rfl⟩ | ⟨-, hold⟩
        · rcases revision_of_stepAgent hrevision with hnew | hkept
          · exact hnew
          · exact h id call revision hcall hkept
        · exact h id' call' revision hold hrevision

/-- Calls that have changed nothing stay clean as long as they can be told of a conflict. -/
theorem clean_step {first : ℕ} {hist : List (AgentState × AgentEvent)} {s : AgentState}
    {e : AgentEvent} (hinv : Inv first (lockOf blake3 path s)) (hunraced : Unraced blake3 cfg path s e)
    (h : Clean decodeBase64 blake3 cfg path hist s) :
    Clean decodeBase64 blake3 cfg path (hist ++ [(s, e)])
      (agentStep decodeBase64 blake3 cfg path s e) := by
  intro id hearly x hx hstep
  -- the call was early before the step, and the step, if it is its own, has changed nothing
  have hbefore : (∀ call, s.calls.lookup id = some call → call.phase.early = true) ∧
      ((∃ a, e = .proceed id a) →
        LeavesFound s (agentStep decodeBase64 blake3 cfg path s e)) := by
    cases e with
    | arrive id' req =>
        refine ⟨fun call hcall => hearly call ?_, fun ⟨a, ha⟩ => nomatch ha⟩
        rcases agentStep_arrive s id' req with hsame | ⟨call', hnone, -, hnew⟩
        · rw [hsame]
          exact hcall
        · have hne : id ≠ id' := by
            rintro rfl
            rw [hnone] at hcall
            cases hcall
          rw [hnew]
          dsimp only
          rw [AList.lookup_insert_ne hne]
          exact hcall
    | proceed id' a =>
        rcases hcall' : s.calls.lookup id' with _ | call'
        · rw [agentStep_of_none hcall'] at hearly ⊢
          exact ⟨hearly, fun _ => LeavesFound.refl s⟩
        by_cases hid : id' = id
        · subst hid
          have hkind := (move_of_proceed decodeBase64 hinv hcall'
            (hunraced call' hcall')).1
          have hnext := hearly { call' with phase := (stepAgent blake3 cfg path s a call').2.2 } (by
            rw [agentStep_proceed hcall']
            exact AList.lookup_insert _)
          cases hkind with
          | same hstage hfiles hrows hrevisions hwas =>
              obtain ⟨hphase, hfs⟩ := hwas hnext
              refine ⟨fun call hcall => ?_, fun _ => ?_⟩
              · rw [hcall'] at hcall
                obtain rfl := Option.some.inj hcall
                exact hphase
              · rw [agentStep_proceed hcall']
                refine ⟨fun target => ?_, hrows, hrevisions⟩
                dsimp only
                rw [hfs]
          | write target hstage hstage' hcurrent halone hread hrevisions hlate =>
              rw [hlate] at hnext
              cases hnext
          | advance target hstage hstage' hfiles hrevision hlate =>
              rw [hlate] at hnext
              cases hnext
          | record target hstage hstage' hfiles hrow hrevisions hlate =>
              rw [hlate] at hnext
              cases hnext
        · refine ⟨fun call hcall => hearly call ?_, fun ⟨b, hb⟩ => ?_⟩
          · rw [agentStep_proceed hcall']
            dsimp only
            rw [AList.lookup_insert_ne fun heq => hid heq.symm]
            exact hcall
          · cases hb
            exact absurd rfl hid
  rcases List.mem_append.mp hx with hold | hlast
  · exact h id hbefore.1 x hold hstep
  · obtain rfl := List.mem_singleton.mp hlast
    exact hbefore.2 hstep

/-! ## The law from the invariant -/

/-- The ticket of a call that has succeeded. -/
theorem ticket_of_answered {s : AgentState} {id : ℕ} {call : AgentCall} {target : Location}
    {revision : ℕ} (h : Answered s id call target revision) :
    (lockOf blake3 path s).tickets id = some ⟨(target, call.bytes), call.expected, .won⟩ := by
  show (s.calls.lookup id).bind AgentCall.ticket = _
  rw [h.1, Option.bind_some]
  unfold AgentCall.ticket
  rw [h.2]
  rfl

/-- The revision of a call that has succeeded. -/
theorem Numbered.answered {s : AgentState} (h : Numbered s) {id : ℕ} {call : AgentCall}
    {target : Location} {revision : ℕ} (ha : Answered s id call target revision) :
    revision = call.expected + 1 := by
  apply h id call revision ha.1
  rw [ha.2]
  rfl

/-- When no call is under way, the tickets are those of the calls that have succeeded. -/
theorem answered_of_ticket {s : AgentState} (hfinished : Finished s) (hnum : Numbered s) {id : ℕ}
    {t : Ticket (Location × Bytes)} (ht : (lockOf blake3 path s).tickets id = some t) :
    t.stage = .won ∧ ∃ call target, Answered s id call target (t.expected + 1) := by
  obtain ⟨call, hcall, hticket⟩ := Option.bind_eq_some_iff.mp ht
  unfold AgentCall.ticket at hticket
  rcases hfinished id call hcall with ⟨target, revision, hphase⟩ | ⟨status, message, hphase⟩
  · have ha : Answered s id call target revision := ⟨hcall, hphase⟩
    rw [hphase] at hticket
    obtain rfl := Option.some.inj hticket
    refine ⟨rfl, call, target, ?_⟩
    rw [← hnum.answered ha]
    exact ha
  · rw [hphase] at hticket
    cases hticket

/-- A lock in order owes nothing. -/
theorem lockLaw_of_inv {first : ℕ} {hist : List (AgentState × AgentEvent)} {s : AgentState}
    (hinv : Inv first (lockOf blake3 path s)) (hnum : Numbered s)
    (hclean : Clean decodeBase64 blake3 cfg path hist s) :
    LockLaw decodeBase64 blake3 cfg path first hist s := by
  have hwon : ∀ {id call target revision}, Answered s id call target revision →
      call.expected < currentRevision s.revisions ∧ first ≤ call.expected := by
    intro id call target revision ha
    have ht : (lockOf blake3 path s).tickets id = _ := ticket_of_answered ha
    exact ⟨hinv.won id _ ht rfl, hinv.base id _ ht⟩
  -- a revision that was reached is that of a call that has succeeded
  have hreached : Finished s → ∀ k, first < k → k ≤ currentRevision s.revisions →
      ∃ id call target, Answered s id call target k := by
    intro hfinished k hfirst hk
    obtain ⟨id, t, ht, -, hexpected⟩ := hinv.gapless (k - 1) (by omega) (by
      show k - 1 < currentRevision s.revisions
      omega)
    obtain ⟨-, call, target, ha⟩ := answered_of_ticket hfinished hnum ht
    refine ⟨id, call, target, ?_⟩
    rwa [hexpected, Nat.sub_add_cancel (by omega)] at ha
  have hsingle : ∀ id id' call call' target target' revision revision',
      Answered s id call target revision → Answered s id' call' target' revision' → id ≠ id' →
        call.expected ≠ call'.expected := by
    intro id id' call call' target target' revision revision' ha ha' hne heq
    refine hne (hinv.distinct id id' _ _ (ticket_of_answered ha) ?_ (ticket_of_answered ha') ?_ heq)
    · exact fun hs => nomatch hs
    · exact fun hs => nomatch hs
  refine
    { distinct := ?_
      consecutive := ?_
      single := hsingle
      last := ?_
      conflict := ?_ }
  · intro id id' call call' target target' revision revision' ha ha' hne heq
    rw [hnum.answered ha, hnum.answered ha'] at heq
    exact hsingle id id' call call' target target' revision revision' ha ha' hne (by omega)
  · intro hfinished id call target revision ha
    have hrevision := hnum.answered ha
    obtain ⟨hlt, hbase⟩ := hwon ha
    refine ⟨by omega, fun k hfirst hk => hreached hfinished k hfirst (by omega)⟩
  · intro hfinished id call target revision ha hmax
    have hrevision := hnum.answered ha
    obtain ⟨hlt, hbase⟩ := hwon ha
    -- the highest revision of a successful call is the revision of the path
    obtain ⟨id', call', target', ha'⟩ := hreached hfinished (currentRevision s.revisions)
      (by omega) (Nat.le_refl _)
    have hle := hmax id' call' target' _ ha'
    refine hinv.latest ?_ id _ (ticket_of_answered ha) ?_
    · exact fun j t ht => (answered_of_ticket hfinished hnum ht).1
    · show call.expected + 1 = currentRevision s.revisions
      omega
  · intro id call hcall hphase
    refine hclean id fun call' hcall' => ?_
    rw [hcall] at hcall'
    obtain rfl := Option.some.inj hcall'
    rw [hphase]
    rfl

variable (decodeBase64 blake3 cfg path)

/-- **Agent writes that do not race are locked.** In every run from any vault, any revisions and no
call, whose steps are not raced, the lock owes nothing in any state reached. -/
theorem lockLaw_of_unraced (v : VaultState) (revisions : List RevisionRow) (es : List AgentEvent)
    (h : Trace.Always (agentStep decodeBase64 blake3 cfg path)
      (fun _ s e => Unraced blake3 cfg path s e) (noAgents v revisions) es) :
    LockLaw decodeBase64 blake3 cfg path (currentRevision revisions)
      (Trace.history (agentStep decodeBase64 blake3 cfg path) (noAgents v revisions) es)
      (Trace.run (agentStep decodeBase64 blake3 cfg path) (noAgents v revisions) es) := by
  have hstart : Inv (currentRevision revisions) (lockOf blake3 path (noAgents v revisions)) :=
    inv_of_no_tickets (l := lockOf blake3 path (noAgents v revisions)) fun _ => rfl
  have hall := Trace.Always.of_invariant (φ := fun _ _ _ => True)
    (I := fun hist s => Inv (currentRevision revisions) (lockOf blake3 path s) ∧ Numbered s ∧
      Clean decodeBase64 blake3 cfg path hist s)
    ⟨hstart, fun id call revision hcall => (nomatch hcall), fun _ _ x hx => (nomatch hx)⟩
    (fun _ _ _ _ => trivial)
    (fun es e ⟨hinv, hnum, hclean⟩ hunraced =>
      ⟨hinv.move (move_of_unraced hinv hunraced), numbered_step hnum e,
        clean_step hinv hunraced hclean⟩) h
  exact lockLaw_of_inv hall.2.1 hall.2.2.1 hall.2.2.2

/-! ## Runs -/

instance (s : AgentState) (a : AgentAnswers) (bytes : Bytes) (target : Location) :
    Decidable (Opens s a bytes target) :=
  match hwrite : a.write with
  | .refused => isFalse fun h => h.1 hwrite
  | .cut n => decidable_of_iff
      ((writeFile s.vault.fs [] (absolute target) bytes).isSome = true) (by
        unfold Opens
        rw [hwrite]
        exact ⟨fun h => ⟨fun heq => (nomatch heq), h⟩, fun h => h.2⟩)
  | .done => decidable_of_iff
      ((writeFile s.vault.fs [] (absolute target) bytes).isSome = true) (by
        unfold Opens
        rw [hwrite]
        exact ⟨fun h => ⟨fun heq => (nomatch heq), h⟩, fun h => h.2⟩)

instance (a : WriteAnswer) : Decidable (a = .done) :=
  match a with
  | .refused => isFalse fun h => nomatch h
  | .cut _ => isFalse fun h => nomatch h
  | .done => isTrue rfl

instance (s : AgentState) (a : AgentAnswers) (call : AgentCall) :
    Decidable (CallUnraced blake3 cfg path s a call) := by
  unfold CallUnraced
  split <;> infer_instance

instance (s : AgentState) (e : AgentEvent) : Decidable (Unraced blake3 cfg path s e) :=
  match e with
  | .arrive _ _ => inferInstanceAs (Decidable True)
  | .proceed id a =>
      inferInstanceAs (Decidable (∀ call ∈ s.calls.lookup id, CallUnraced blake3 cfg path s a call))

/-- The revision that a call has answered with. -/
def answer (s : AgentState) (id : ℕ) : Option ℕ :=
  (s.calls.lookup id).bind fun call =>
    match call.phase with
    | .answered _ revision => some revision
    | _ => none

theorem answered_of_answer {s : AgentState} {id revision : ℕ} (h : answer s id = some revision) :
    ∃ call target, Answered s id call target revision := by
  obtain ⟨call, hcall, hphase⟩ := Option.bind_eq_some_iff.mp h
  split at hphase
  · rename_i target r hanswered
    obtain rfl := Option.some.inj hphase
    exact ⟨call, target, hcall, hanswered⟩
  · cases hphase

/-- A vault with a tenant, and nothing below `/srv`. -/
def smallVault : VaultState :=
  newVault (some "corp") ((∅ : FileSystem Bytes).insert ["srv"] .dir) ∅

/-- Two texts, decoded. -/
def smallBase64 (s : String) : Option Bytes :=
  if s = "AA==" then some [0] else if s = "AQ==" then some [1] else none

/-- An environment in which nothing fails. -/
def calm : AgentAnswers := { FileAnswers.calm with dbOk := true, retention := ⟨5, 604800⟩ }

/-- A write of a text to the note, expecting a revision. -/
def noteWrite (text : String) (expected : ℕ) : AgentWriteRequest :=
  ⟨"note", text, some expected, none, .ok "usr"⟩

/-- Two calls that expect revision 0, step by step in turn. -/
def raceEvents : List AgentEvent :=
  .arrive 0 (noteWrite "AA==" 0) :: .arrive 1 (noteWrite "AQ==" 0) ::
    (List.replicate 12 [AgentEvent.proceed 0 calm, AgentEvent.proceed 1 calm]).flatten

/-- The second call looks the revision up before the first call begins, and goes on after it. -/
def lateEvents : List AgentEvent :=
  .arrive 1 (noteWrite "AQ==" 0) :: .proceed 1 calm :: .arrive 0 (noteWrite "AA==" 0) ::
    List.replicate 12 (AgentEvent.proceed 0 calm) ++ List.replicate 6 (AgentEvent.proceed 1 calm)

/-- Two calls, the second expecting what the first makes: it looks the revision up when the first has
bumped it, they go on in turn, and the second writes when the first has its row. -/
def queuedEvents : List AgentEvent :=
  .arrive 0 (noteWrite "AA==" 0) :: .arrive 1 (noteWrite "AQ==" 1) ::
    List.replicate 9 (AgentEvent.proceed 0 calm) ++
    (List.replicate 3 [AgentEvent.proceed 1 calm, AgentEvent.proceed 0 calm]).flatten ++
    List.replicate 9 (AgentEvent.proceed 1 calm)

/-- Two calls in turn do not race when the second writes after the first has won. -/
theorem lockLaw_of_queued :
    Trace.Always (agentStep smallBase64 smallHash ⟨"/srv", []⟩ "note")
        (fun _ s e => Unraced smallHash ⟨"/srv", []⟩ "note" s e) (noAgents smallVault [])
        queuedEvents ∧
      answer (Trace.run (agentStep smallBase64 smallHash ⟨"/srv", []⟩ "note")
        (noAgents smallVault []) queuedEvents) 1 = some 2 ∧
      LockLaw smallBase64 smallHash ⟨"/srv", []⟩ "note" 0
        (Trace.history (agentStep smallBase64 smallHash ⟨"/srv", []⟩ "note")
          (noAgents smallVault []) queuedEvents)
        (Trace.run (agentStep smallBase64 smallHash ⟨"/srv", []⟩ "note")
          (noAgents smallVault []) queuedEvents) := by
  have hunraced : Trace.Always (agentStep smallBase64 smallHash ⟨"/srv", []⟩ "note")
      (fun _ s e => Unraced smallHash ⟨"/srv", []⟩ "note" s e) (noAgents smallVault [])
      queuedEvents := by
    apply Trace.always_of_check
    decide +kernel
  refine ⟨hunraced, ?_, lockLaw_of_unraced smallBase64 smallHash ⟨"/srv", []⟩ "note" smallVault []
    queuedEvents hunraced⟩
  decide +kernel

/-- **Two calls that race.** Both compare revision 0, both write the file, the first bump goes through,
and the second, which changes nothing, finds the revision it wanted: both answer with revision 1. -/
theorem not_lockLaw_of_race :
    ¬ LockLaw smallBase64 smallHash ⟨"/srv", []⟩ "note" 0
      (Trace.history (agentStep smallBase64 smallHash ⟨"/srv", []⟩ "note")
        (noAgents smallVault []) raceEvents)
      (Trace.run (agentStep smallBase64 smallHash ⟨"/srv", []⟩ "note")
        (noAgents smallVault []) raceEvents) := by
  intro hlaw
  have hfirst : answer (Trace.run (agentStep smallBase64 smallHash ⟨"/srv", []⟩ "note")
      (noAgents smallVault []) raceEvents) 0 = some 1 := by decide +kernel
  have hsecond : answer (Trace.run (agentStep smallBase64 smallHash ⟨"/srv", []⟩ "note")
      (noAgents smallVault []) raceEvents) 1 = some 1 := by decide +kernel
  obtain ⟨call, target, ha⟩ := answered_of_answer hfirst
  obtain ⟨call', target', ha'⟩ := answered_of_answer hsecond
  exact hlaw.distinct 0 1 call call' target target' 1 1 ha ha' (by decide) rfl

/-- A call that loses late has overwritten the file of the call that won. -/
example :
    let s := Trace.run (agentStep smallBase64 smallHash ⟨"/srv", []⟩ "note")
      (noAgents smallVault []) lateEvents
    answer s 0 = some 1 ∧ answer s 1 = none ∧
      readFile s.vault.fs [] (absolute ["srv", "note"]) = some [1] := by decide +kernel

end

end DiskArcana.Vault
