import DiskArcana.Hosting.Basic
import DiskArcana.System.Mesh

/-!
# What a failed upload leaves behind

An upload that is answered with an error should leave the share as it was: its files, its rows and
its version rows, and no temporary file. It does so while the stream is read and on a hash mismatch,
where the spool is removed. Every later exit forgets the spool, and the exits of the commit come
after bytes have been archived or put into place (`errorKeepsShare_iff`).
-/

namespace DiskArcana.Hosting

open DiskArcana.Core DiskArcana.Lib DiskArcana.Lib.LexicalPath DiskArcana.Server DiskArcana.System

/-! ## The share before and after -/

/-- The files below a root, the temporary files and the rows are as they were. -/
structure SameShare (root : List String) (h h' : Host) : Prop where
  files : ∀ loc, root <+: loc → h'.files.lookup loc = h.files.lookup loc
  temps : h'.temps = h.temps
  rows : ∀ scope key, (h'.db scope).files.lookup key = (h.db scope).files.lookup key
  versions : ∀ scope, (h'.db scope).fileVersions = (h.db scope).fileVersions

theorem SameShare.refl (root : List String) (h : Host) : SameShare root h h :=
  ⟨fun _ _ => rfl, rfl, fun _ _ => rfl, fun _ => rfl⟩

/-- A share with one more temporary file is not the same. -/
theorem not_sameShare_of_temps {root : List String} {h h' : Host} {x : List String × Bytes}
    (ht : h'.temps = x :: h.temps) : ¬ SameShare root h h' := by
  intro hs
  have hcons := ht.symm.trans hs.temps
  exact List.cons_ne_self _ _ hcons

/-- The same share, but for one file that is written. -/
theorem sameShare_write_iff {root : List String} {h : Host} {loc : List String} {bytes : Bytes} :
    SameShare root h (h.write loc bytes) ↔ (root <+: loc → h.files.lookup loc = some bytes) := by
  constructor
  · intro hs hpre
    have hfile := hs.files loc hpre
    rw [Host.write_files, AList.lookup_insert] at hfile
    exact hfile.symm
  · intro hkeep
    refine ⟨?_, rfl, fun _ _ => rfl, fun _ => rfl⟩
    intro l hpre
    rw [Host.write_files]
    by_cases heq : l = loc
    · subst heq
      rw [AList.lookup_insert, hkeep hpre]
    · exact AList.lookup_insert_ne heq

section

variable (blake3 : Bytes → Digest) (cfg : HostConfig)

/-! ## When an exit is harmless -/

/-- The commit archives old bytes into the share itself. -/
def ArchivesInto (h : Host) (r : UploadRequest) (path : String) (target : List String) : Prop :=
  ∃ hash old, Archives cfg h r.scope (dbKey path) target r.archiveOk hash old ∧
    cfg.rootFor r.share <+: blobLoc cfg hash

/-- Writing the row changes no row and no version row. -/
def RowKeeps (h : Host) (r : UploadRequest) (target : List String) (bytes : Bytes) : Prop :=
  r.upsertOk = true → ∀ db, (h.db r.scope).upsertFileScopedVersioned (rowMeta blake3 cfg r target bytes)
    ⟨cfg.serverNodeId, r.retention⟩ r.now = some db →
      (∀ key, db.files.lookup key = (h.db r.scope).files.lookup key) ∧
        db.fileVersions = (h.db r.scope).fileVersions

/-- The commit, as far as it gets, leaves the share as it was: nothing is archived into it, and
either no temporary file is staged, or the bytes put into place were there already and so was their
row. -/
def CommitKeeps (h : Host) (r : UploadRequest) (path : String) (target : List String)
    (spool : Option Bytes) : Prop :=
  ¬ ArchivesInto cfg h r path target ∧
    if r.dirOk = false then spool = none
    else if spool = none ∧ r.stageOk = false then True
    else if spool = none ∧ r.stageSyncOk = false ∨ r.renameOk = false then False
    else h.files.lookup target = some (spool.getD []) ∧
      (r.dbOk = true → RowKeeps blake3 cfg h r target (spool.getD []))

/-- The gates and the commit, as far as they get, leave the share as it was: a spool is forgotten by
every exit but a hash mismatch. -/
def GatesKeep (h : Host) (r : UploadRequest) (a : Announced) (spool : Option Bytes) : Prop :=
  if a.contentHash ≠ [] ∧ a.contentHash.length ≠ 32 then spool = none
  else if a.contentHash ≠ [] ∧ a.contentHash ≠ (blake3 (spool.getD [])).toList then
    spool = none ∨ r.removeOk = true
  else match r.publisher, r.quota with
    | .error _, _ =>
      spool = none ∧ (r.quarantineOk = true →
        cfg.rootFor r.share <+: quarantineLoc cfg r a.path →
          h.files.lookup (quarantineLoc cfg r a.path) = some [])
    | .ok _, .error _ => spool = none
    | .ok _, .ok _ => ∀ target, pathGuard (cfg.rootFor r.share) a.path = .ok target →
        CommitKeeps blake3 cfg h r a.path target spool

/-- The upload, as far as it gets, leaves the share as it was. -/
def UploadKeeps (h : Host) (r : UploadRequest) : Prop :=
  match r.admitted with
  | .error _ => True
  | .ok _ =>
    match receiveStream blake3 cfg r none none r.stream with
    | .error (_, spool) => spool = none ∨ r.removeOk = true
    | .ok (announced, spool) =>
      if spool ≠ none ∧ r.fsyncOk = false then r.removeOk = true
      else match announced with
        | none => spool = none
        | some a => GatesKeep blake3 cfg h r a spool

/-! ## The phases -/

/-- The host once the stream is read: the spool lies among the temporary files. -/
def staged (h : Host) (r : UploadRequest) (spool : Option Bytes) : Host :=
  { h with temps := (spool.map fun bytes => (cfg.rootFor r.share, bytes)).toList ++ h.temps }

/-- Dropping the spool leaves the share as it was when there is none or it is removed. -/
theorem sameShare_dropSpool_iff (h : Host) (r : UploadRequest) (spool : Option Bytes) :
    SameShare (cfg.rootFor r.share) h (dropSpool cfg h r spool) ↔
      spool = none ∨ r.removeOk = true := by
  rcases spool with _ | bytes
  · exact iff_of_true (SameShare.refl _ h) (Or.inl rfl)
  · rcases hr : r.removeOk with _ | _
    · refine iff_of_false ?_ (by simp)
      unfold dropSpool
      rw [hr]
      exact not_sameShare_of_temps rfl
    · refine iff_of_true ?_ (Or.inr rfl)
      unfold dropSpool
      rw [hr]
      exact SameShare.refl _ h

/-- A forgotten spool changes the share. -/
theorem sameShare_staged_iff (h : Host) (r : UploadRequest) (spool : Option Bytes) :
    SameShare (cfg.rootFor r.share) h (staged cfg h r spool) ↔ spool = none := by
  rcases spool with _ | bytes
  · exact iff_of_true (SameShare.refl _ h) rfl
  · exact iff_of_false (not_sameShare_of_temps rfl) (by simp)

/-- Archiving leaves the share as it was unless it stores into it. -/
theorem sameShare_archive_iff (h : Host) (r : UploadRequest) (path : String)
    (target : List String) :
    SameShare (cfg.rootFor r.share) h
        (archive cfg h r.scope (dbKey path) target r.archiveOk) ↔
      ¬ ArchivesInto cfg h r path target := by
  unfold ArchivesInto
  rcases archive_cases h r.scope (dbKey path) target r.archiveOk with
    ⟨heq, hno⟩ | ⟨hash, old, harch, heq⟩
  · rw [heq]
    refine iff_of_true (SameShare.refl _ h) ?_
    rintro ⟨hash, old, harch, -⟩
    exact hno hash old harch
  · rw [heq, sameShare_write_iff]
    have hnone : h.files.lookup (blobLoc cfg hash) = none := harch.2.2.1
    constructor
    · rintro hkeep ⟨hash', old', harch', hpre⟩
      obtain ⟨-, ⟨m, hm, rfl⟩, -⟩ := harch
      obtain ⟨-, ⟨m', hm', rfl⟩, -⟩ := harch'
      rw [hm] at hm'
      cases hm'
      have hsome := hkeep hpre
      rw [hnone] at hsome
      cases hsome
    · intro hno hpre
      exact absurd ⟨hash, old, harch, hpre⟩ hno

/-- The spool does not take part in archiving. -/
theorem archive_staged (h : Host) (r : UploadRequest) (spool : Option Bytes) (scope : Scope)
    (key : Path) (target : List String) (ok : Bool) :
    archive cfg (staged cfg h r spool) scope key target ok =
      staged cfg (archive cfg h scope key target ok) r spool := by
  have hput : ∀ hash old, putBlob cfg (staged cfg h r spool) hash old ok =
      staged cfg (putBlob cfg h hash old ok) r spool := by
    intro hash old
    unfold putBlob
    show (if (getBlob cfg h hash).isSome || !ok then _ else _) = _
    split_ifs <;> rfl
  have hfiles : (staged cfg h r spool).files = h.files := rfl
  have hdb : (staged cfg h r spool).db scope = h.db scope := rfl
  unfold archive
  rw [hfiles, hdb]
  rcases h.files.lookup target with _ | old
  · rfl
  · rcases (h.db scope).getFileScoped key with _ | m
    · rfl
    · exact hput m.contentHash old

/-- A forgotten spool after archiving. -/
theorem sameShare_staged_archive_iff (h : Host) (r : UploadRequest) (path : String)
    (target : List String) (spool : Option Bytes) :
    SameShare (cfg.rootFor r.share) h
        (staged cfg (archive cfg h r.scope (dbKey path) target r.archiveOk) r spool) ↔
      ¬ ArchivesInto cfg h r path target ∧ spool = none := by
  rcases spool with _ | bytes
  · rw [← sameShare_archive_iff, and_iff_left rfl]
    rfl
  · have htemps : (staged cfg (archive cfg h r.scope (dbKey path) target r.archiveOk) r
        (some bytes)).temps = (cfg.rootFor r.share, bytes) :: h.temps := by
      show (cfg.rootFor r.share, bytes) :: (archive cfg h _ _ _ _).temps = _
      rw [archive_temps]
    exact iff_of_false (not_sameShare_of_temps htemps) (by simp)

/-- The files of a share after a commit are those before it when nothing was archived into it and
the bytes put into place were there already. -/
theorem filesSame_put_iff (h : Host) (r : UploadRequest) (path : String) {target : List String}
    (hpre : cfg.rootFor r.share <+: target) (bytes : Bytes) :
    (∀ loc, cfg.rootFor r.share <+: loc →
      ((archive cfg h r.scope (dbKey path) target r.archiveOk).files.insert target bytes).lookup loc =
        h.files.lookup loc) ↔
      ¬ ArchivesInto cfg h r path target ∧ h.files.lookup target = some bytes := by
  have harchive := sameShare_archive_iff cfg h r path target
  constructor
  · intro hsame
    have htarget := hsame target hpre
    rw [AList.lookup_insert] at htarget
    refine ⟨?_, htarget.symm⟩
    rintro ⟨hash, old, harch, hinto⟩
    have hne : blobLoc cfg hash ≠ target := by
      rintro rfl
      have hnone : h.files.lookup (blobLoc cfg hash) = none := harch.2.2.1
      rw [hnone] at htarget
      cases htarget
    have hblob := hsame _ hinto
    rw [AList.lookup_insert_ne hne] at hblob
    rcases archive_cases h r.scope (dbKey path) target r.archiveOk with
      ⟨-, hno⟩ | ⟨hash', old', harch', heq⟩
    · exact hno hash old harch
    · obtain ⟨-, ⟨m, hm, rfl⟩, hnone, -⟩ := harch
      obtain ⟨-, ⟨m', hm', rfl⟩, -⟩ := harch'
      rw [hm] at hm'
      cases hm'
      have hnone : h.files.lookup (blobLoc cfg m.contentHash) = none := hnone
      rw [heq, Host.write_files, AList.lookup_insert, hnone] at hblob
      cases hblob
  · rintro ⟨hno, hfile⟩ loc hloc
    by_cases heq : loc = target
    · rw [heq, AList.lookup_insert, hfile]
    · rw [AList.lookup_insert_ne heq]
      exact (harchive.mpr hno).files loc hloc

/-- Writing the row leaves the tables as they were exactly when it changes no row. -/
theorem tablesSame_recordRow_iff (h h₁ : Host) (hdb : h₁.db = h.db) (r : UploadRequest)
    (target : List String) (bytes : Bytes) :
    ((∀ scope key, ((recordRow blake3 cfg h₁ r target bytes).db scope).files.lookup key =
        (h.db scope).files.lookup key) ∧
      ∀ scope, ((recordRow blake3 cfg h₁ r target bytes).db scope).fileVersions =
        (h.db scope).fileVersions) ↔
      RowKeeps blake3 cfg h r target bytes := by
  unfold recordRow RowKeeps
  rcases hok : r.upsertOk with _ | _
  · rw [if_neg Bool.false_ne_true, hdb]
    simp
  · rw [if_pos rfl, hdb]
    rcases hup : (h.db r.scope).upsertFileScopedVersioned (rowMeta blake3 cfg r target bytes)
      ⟨cfg.serverNodeId, r.retention⟩ r.now with _ | db
    · have hkept : h₁.setDb r.scope ((none : Option MetaDb).getD (h.db r.scope)) = h₁ := by
        unfold Host.setDb
        rw [Option.getD_none, ← hdb, Function.update_eq_self]
      rw [hkept, hdb]
      simp
    · rw [Option.getD_some]
      constructor
      · rintro ⟨hrows, hversions⟩ - db' hdb'
        cases hdb'
        refine ⟨fun key => ?_, ?_⟩
        · have hrow := hrows r.scope key
          rwa [Host.setDb_db_self] at hrow
        · have hversion := hversions r.scope
          rwa [Host.setDb_db_self] at hversion
      · intro hkeep
        obtain ⟨hrows, hversions⟩ := hkeep rfl db rfl
        refine ⟨fun scope key => ?_, fun scope => ?_⟩
        · by_cases hscope : scope = r.scope
          · rw [hscope, Host.setDb_db_self, hrows]
          · rw [Host.setDb_db_of_ne _ hscope, hdb]
        · by_cases hscope : scope = r.scope
          · rw [hscope, Host.setDb_db_self, hversions]
          · rw [Host.setDb_db_of_ne _ hscope, hdb]

/-- The end of the commit, from a state that still has its temporary file. -/
theorem sameShare_put_iff (h h₁ : Host) (r : UploadRequest) (path : String) {target : List String}
    (hpre : cfg.rootFor r.share <+: target) (bytes : Bytes)
    (hfiles : h₁.files = (archive cfg h r.scope (dbKey path) target r.archiveOk).files)
    (hdb : h₁.db = h.db) (htemps : h₁.temps.tail = h.temps) :
    SameShare (cfg.rootFor r.share) h
        (if r.dbOk then
          recordRow blake3 cfg ({ h₁ with temps := h₁.temps.tail }.write target bytes) r target bytes
        else { h₁ with temps := h₁.temps.tail }.write target bytes) ↔
      ¬ ArchivesInto cfg h r path target ∧ h.files.lookup target = some bytes ∧
        (r.dbOk = true → RowKeeps blake3 cfg h r target bytes) := by
  have hput := filesSame_put_iff cfg h r path hpre bytes
  rw [← hfiles] at hput
  have hframe : (recordRow blake3 cfg ({ h₁ with temps := h₁.temps.tail }.write target bytes) r
        target bytes).files = h₁.files.insert target bytes ∧
      (recordRow blake3 cfg ({ h₁ with temps := h₁.temps.tail }.write target bytes) r
        target bytes).temps = h₁.temps.tail := by
    unfold recordRow
    split_ifs <;> exact ⟨rfl, rfl⟩
  rcases hok : r.dbOk with _ | _
  · rw [if_neg Bool.false_ne_true]
    constructor
    · intro hsame
      obtain ⟨hno, hfile⟩ := hput.mp hsame.files
      exact ⟨hno, hfile, fun h => absurd h Bool.false_ne_true⟩
    · rintro ⟨hno, hfile, -⟩
      refine ⟨hput.mpr ⟨hno, hfile⟩, htemps, fun scope key => ?_, fun scope => ?_⟩
      · rw [Host.write_db, hdb]
      · rw [Host.write_db, hdb]
  · rw [if_pos rfl]
    have htables := tablesSame_recordRow_iff blake3 cfg h
      ({ h₁ with temps := h₁.temps.tail }.write target bytes) hdb r target bytes
    constructor
    · intro hsame
      have hfilesSame := hsame.files
      rw [hframe.1] at hfilesSame
      obtain ⟨hno, hfile⟩ := hput.mp hfilesSame
      exact ⟨hno, hfile, fun _ => htables.mp ⟨hsame.rows, hsame.versions⟩⟩
    · rintro ⟨hno, hfile, hkeep⟩
      obtain ⟨hrows, hversions⟩ := htables.mpr (hkeep rfl)
      refine ⟨?_, ?_, hrows, hversions⟩
      · rw [hframe.1]
        exact hput.mpr ⟨hno, hfile⟩
      · rw [hframe.2, htemps]

/-- **The commit**, whether it succeeds or not. -/
theorem sameShare_commit_iff (h : Host) (r : UploadRequest) (a : Announced) {target : List String}
    (hguard : pathGuard (cfg.rootFor r.share) a.path = .ok target) (spool : Option Bytes) :
    SameShare (cfg.rootFor r.share) h
        (commit blake3 cfg (staged cfg h r spool) r (some a) spool).2 ↔
      CommitKeeps blake3 cfg h r a.path target spool := by
  have hpre : cfg.rootFor r.share <+: target := (of_pathGuard hguard).2.1
  have hend : ∀ h₁ : Host,
      h₁.files = (archive cfg h r.scope (dbKey a.path) target r.archiveOk).files →
      h₁.db = h.db → h₁.temps.tail = h.temps →
      (SameShare (cfg.rootFor r.share) h
        (if r.dbOk then ((.ok () : Except String Unit), recordRow blake3 cfg
            ({ h₁ with temps := h₁.temps.tail }.write target (spool.getD [])) r target (spool.getD []))
          else (.error "tenant meta db",
            { h₁ with temps := h₁.temps.tail }.write target (spool.getD []))).2 ↔
        ¬ ArchivesInto cfg h r a.path target ∧ h.files.lookup target = some (spool.getD []) ∧
          (r.dbOk = true → RowKeeps blake3 cfg h r target (spool.getD []))) := by
    intro h₁ hfiles hdb htemps
    rw [apply_ite Prod.snd]
    exact sameShare_put_iff blake3 cfg h h₁ r a.path hpre (spool.getD []) hfiles hdb htemps
  have hleft : ∀ (h₁ : Host) (x : List String × Bytes), h₁.temps = x :: h.temps →
      (SameShare (cfg.rootFor r.share) h h₁ ↔ False) := by
    intro h₁ x hx
    exact iff_of_false (not_sameShare_of_temps hx) id
  unfold commit CommitKeeps
  simp only [hguard, archive_staged]
  rcases hdir : r.dirOk with _ | _
  · simp only [Bool.not_false, if_true]
    exact sameShare_staged_archive_iff cfg h r a.path target spool
  rcases spool with _ | bytes
  · rcases hstage : r.stageOk with _ | _
    · simp only [stageEmpty, hstage, Bool.not_true, Bool.not_false, Bool.false_eq_true, if_false,
        if_true, Bool.true_eq_false, and_self]
      rw [and_true]
      exact sameShare_archive_iff cfg h r a.path target
    · rcases hsync : r.stageSyncOk with _ | _
      · simp only [stageEmpty, hstage, hsync, Bool.not_true, Bool.false_eq_true, if_false,
          Bool.true_eq_false, and_false, and_self, true_or, if_true]
        refine hleft _ (cfg.rootFor r.share, []) ?_
        show (cfg.rootFor r.share, []) :: (archive cfg h _ _ _ _).temps = _
        rw [archive_temps]
      · rcases hrename : r.renameOk with _ | _
        · simp only [stageEmpty, hstage, hsync, Bool.not_true, Bool.not_false, Bool.false_eq_true,
            if_false, Bool.true_eq_false, and_false, or_true, if_true]
          refine hleft _ (cfg.rootFor r.share, []) ?_
          show (cfg.rootFor r.share, []) :: (archive cfg h _ _ _ _).temps = _
          rw [archive_temps]
        · simp only [stageEmpty, hstage, hsync, Bool.not_true, Bool.false_eq_true, if_false,
            Bool.true_eq_false, and_false, or_self, if_true]
          exact hend { archive cfg h r.scope (dbKey a.path) target r.archiveOk with
              temps := (cfg.rootFor r.share, []) ::
                (archive cfg h r.scope (dbKey a.path) target r.archiveOk).temps } rfl
            (archive_db h _ _ _ _) (archive_temps h _ _ _ _)
  · rcases hrename : r.renameOk with _ | _
    · simp only [stageEmpty, Bool.not_true, Bool.not_false, Bool.false_eq_true, if_false,
        Bool.true_eq_false, reduceCtorEq, false_and, or_true, if_true, and_false]
      refine hleft _ (cfg.rootFor r.share, bytes) ?_
      show (cfg.rootFor r.share, bytes) :: (archive cfg h _ _ _ _).temps = _
      rw [archive_temps]
    · simp only [stageEmpty, Bool.not_true, Bool.false_eq_true, if_false,
        Bool.true_eq_false, reduceCtorEq, false_and, or_self]
      exact hend (staged cfg (archive cfg h r.scope (dbKey a.path) target r.archiveOk) r
          (some bytes)) rfl (archive_db h _ _ _ _) (archive_temps h _ _ _ _)

/-- **The gates**, when one of them is closed. -/
theorem sameShare_verify_iff (h : Host) (r : UploadRequest) (a : Announced) (spool : Option Bytes)
    {e : String}
    (herr : (verify blake3 cfg (staged cfg h r spool) r (some a) spool).1 = .error e) :
    SameShare (cfg.rootFor r.share) h
        (verify blake3 cfg (staged cfg h r spool) r (some a) spool).2 ↔
      GatesKeep blake3 cfg h r a spool := by
  unfold verify at herr ⊢
  unfold GatesKeep
  simp only [Option.map_some, Option.getD_some, Bool.and_eq_true, Bool.not_eq_true',
    List.isEmpty_eq_false_iff, bne_iff_ne] at herr ⊢
  by_cases hlen : a.contentHash ≠ [] ∧ a.contentHash.length ≠ 32
  · rw [if_pos hlen, if_pos hlen]
    exact sameShare_staged_iff cfg h r spool
  rw [if_neg hlen] at herr ⊢
  rw [if_neg hlen]
  by_cases hmis : a.contentHash ≠ [] ∧ a.contentHash ≠ (blake3 (spool.getD [])).toList
  · rw [if_pos hmis, if_pos hmis]
    rcases spool with _ | bytes
    · exact iff_of_true (SameShare.refl _ h) (Or.inl rfl)
    · rcases hr : r.removeOk with _ | _
      · exact iff_of_false (not_sameShare_of_temps rfl) (by simp)
      · exact iff_of_true (SameShare.refl _ h) (Or.inr rfl)
  rw [if_neg hmis] at herr ⊢
  rw [if_neg hmis]
  rcases hp : r.publisher with e' | _
  · rcases hq : r.quarantineOk with _ | _
    · simp only [Bool.false_eq_true, if_false, false_imp_iff, and_true]
      exact sameShare_staged_iff cfg h r spool
    · simp only [if_true, true_imp_iff]
      rcases spool with _ | bytes
      · rw [and_iff_right rfl]
        exact sameShare_write_iff
      · exact iff_of_false (not_sameShare_of_temps rfl) (by simp)
  · rcases hq : r.quota with e' | _
    · exact sameShare_staged_iff cfg h r spool
    · rw [hp, hq] at herr
      cases herr

/-- A stream that is read to its end has announced a path that passes the guard. -/
theorem pathGuard_of_receiveStream {r : UploadRequest} {announced : Option Announced}
    {spool : Option Bytes} {stream : List (Except String StreamMessage)} {a : Announced}
    {spool' : Option Bytes}
    (hannounced : ∀ b, announced = some b →
      ∃ target, pathGuard (cfg.rootFor r.share) b.path = .ok target)
    (h : receiveStream blake3 cfg r announced spool stream = .ok (some a, spool')) :
    ∃ target, pathGuard (cfg.rootFor r.share) a.path = .ok target := by
  induction stream generalizing announced spool with
  | nil =>
      rw [receiveStream] at h
      cases h
      exact hannounced a rfl
  | cons msg stream ih =>
      rcases msg with e | msg
      · simp only [receiveStream] at h
        cases h
      · simp only [receiveStream] at h
        split at h
        · cases h
        · rename_i b hb
          have hfirst : ∃ target, pathGuard (cfg.rootFor r.share) b.path = .ok target := by
            rcases announced with _ | c
            · unfold announce at hb
              dsimp only at hb
              split_ifs at hb
              rcases hguard : pathGuard (cfg.rootFor r.share) msg.path with e | target
              · rw [hguard] at hb
                cases hb
              · rw [hguard] at hb
                cases hb
                exact ⟨target, hguard⟩
            · cases hb
              exact hannounced _ rfl
          split at h
          · cases h
          · refine ih ?_ h
            intro c hc
            cases hc
            exact hfirst

/-- Gates that are all open change nothing, and leave it to the commit. -/
theorem of_verify_ok {h : Host} {r : UploadRequest} {a : Announced} {spool : Option Bytes}
    (hok : (verify blake3 cfg (staged cfg h r spool) r (some a) spool).1 = .ok ()) :
    (verify blake3 cfg (staged cfg h r spool) r (some a) spool).2 = staged cfg h r spool ∧
      (GatesKeep blake3 cfg h r a spool ↔
        ∀ target, pathGuard (cfg.rootFor r.share) a.path = .ok target →
          CommitKeeps blake3 cfg h r a.path target spool) := by
  unfold verify at hok ⊢
  unfold GatesKeep
  simp only [Option.map_some, Option.getD_some, Bool.and_eq_true, Bool.not_eq_true',
    List.isEmpty_eq_false_iff, bne_iff_ne] at hok ⊢
  by_cases hlen : a.contentHash ≠ [] ∧ a.contentHash.length ≠ 32
  · rw [if_pos hlen] at hok
    cases hok
  rw [if_neg hlen] at hok ⊢
  rw [if_neg hlen]
  by_cases hmis : a.contentHash ≠ [] ∧ a.contentHash ≠ (blake3 (spool.getD [])).toList
  · rw [if_pos hmis] at hok
    cases hok
  rw [if_neg hmis] at hok ⊢
  rw [if_neg hmis]
  rcases hp : r.publisher with e' | _
  · rw [hp] at hok
    cases hok
  · rcases hq : r.quota with e' | _
    · rw [hp, hq] at hok
      cases hok
    · exact ⟨rfl, Iff.rfl⟩

/-- The state after the stream. -/
theorem receive_eq {h : Host} {r : UploadRequest} {u : Unit} (hadm : r.admitted = .ok u) :
    receive blake3 cfg h r =
      match receiveStream blake3 cfg r none none r.stream with
      | .error (e, spool) => (.error e, dropSpool cfg h r spool)
      | .ok (announced, spool) =>
        if spool ≠ none ∧ r.fsyncOk = false then (.error "spool fsync", dropSpool cfg h r spool)
        else (.ok (announced, spool), staged cfg h r spool) := by
  unfold receive
  rw [hadm]
  dsimp only
  rcases receiveStream blake3 cfg r none none r.stream with ⟨e, spool⟩ | ⟨announced, spool⟩
  · rfl
  · rcases spool with _ | bytes
    · simp [staged]
    · rcases r.fsyncOk with _ | _ <;> simp [staged]

/-- **An upload leaves the share as it was** exactly when it ends where nothing is left. -/
theorem sameShare_deltaUpload_iff (h : Host) (r : UploadRequest) :
    SameShare (cfg.rootFor r.share) h (deltaUpload blake3 cfg h r).2 ↔
      UploadKeeps blake3 cfg h r := by
  unfold UploadKeeps
  rcases hadm : r.admitted with e' | u
  · have hsame : (deltaUpload blake3 cfg h r).2 = h := by
      unfold deltaUpload receive
      rw [hadm]
    rw [hsame]
    exact iff_of_true (SameShare.refl _ h) trivial
  unfold deltaUpload
  rw [receive_eq blake3 cfg hadm]
  dsimp only
  rcases hstream : receiveStream blake3 cfg r none none r.stream with ⟨e', spool⟩ |
    ⟨announced, spool⟩
  · exact sameShare_dropSpool_iff cfg h r spool
  dsimp only
  by_cases hsync : spool ≠ none ∧ r.fsyncOk = false
  · rw [if_pos hsync, if_pos hsync, sameShare_dropSpool_iff]
    exact or_iff_right hsync.1
  rw [if_neg hsync, if_neg hsync]
  dsimp only
  rcases announced with _ | a
  · have hnone : verify blake3 cfg (staged cfg h r spool) r none spool =
        (.ok (), staged cfg h r spool) := by
      simp [verify]
    rw [hnone]
    dsimp only [commit]
    rcases r.usage with e' | _
    · exact sameShare_staged_iff cfg h r spool
    · exact sameShare_staged_iff cfg h r spool
  obtain ⟨target, hguard⟩ := pathGuard_of_receiveStream blake3 cfg (by intro b hb; cases hb) hstream
  rcases hverify : verify blake3 cfg (staged cfg h r spool) r (some a) spool with ⟨res, h₁⟩
  rcases res with e' | _
  · have hclosed : (verify blake3 cfg (staged cfg h r spool) r (some a) spool).1 = .error e' := by
      rw [hverify]
    have hgate := sameShare_verify_iff blake3 cfg h r a spool hclosed
    rw [hverify] at hgate
    exact hgate
  · have hopen : (verify blake3 cfg (staged cfg h r spool) r (some a) spool).1 = .ok () := by
      rw [hverify]
    obtain ⟨hstate, hgates⟩ := of_verify_ok blake3 cfg hopen
    rw [hverify] at hstate
    change h₁ = staged cfg h r spool at hstate
    have hkeeps : GatesKeep blake3 cfg h r a spool ↔ CommitKeeps blake3 cfg h r a.path target spool := by
      rw [hgates]
      constructor
      · intro hall
        exact hall target hguard
      · intro hkeep target' htarget'
        rw [hguard] at htarget'
        cases htarget'
        exact hkeep
    dsimp only
    rw [hstate, hkeeps, ← sameShare_commit_iff blake3 cfg h r a hguard spool]
    rcases commit blake3 cfg (staged cfg h r spool) r (some a) spool with ⟨res, h₂⟩
    rcases res with e' | _
    · exact Iff.rfl
    · rcases r.usage with e' | _
      · exact Iff.rfl
      · exact Iff.rfl

end

end DiskArcana.Hosting
