import DiskArcana.Lib.Trace
import DiskArcana.Vault.Rows

/-!
# Nonces follow content

Content that was encrypted can be read only with the nonce it was uploaded with, which is a column of
the file's row. The version history and the snapshots do not keep it: restoring from them writes a row
without a nonce, while the trash, which is the row itself, keeps it.

So every live row pairs its content with a nonce of an upload of its path (`NonceLaw`) exactly as
long as whatever is restored had been uploaded for the row that the restore writes with the nonce that
it writes: none, from a version or a snapshot (`nonceLaw_iff`).
-/

namespace DiskArcana.Vault

open DiskArcana.Core DiskArcana.Lib DiskArcana.Server
open DiskArcana.Lib.UnixFs DiskArcana.Lib.UnixFs.FileSystem
open DiskArcana.Hosting (Revision dbKey)

/-! ## The law -/

/-- The step uploads the content for the path: an upsert of a live entry that goes through. -/
def Uploads (path : Path) (hash : Digest) (nonce : Option Bytes) (x : VaultState × VaultEvent) :
    Prop :=
  match x.2 with
  | .rows (.versioned m ctx now) =>
      m.deleted = false ∧ m.path = path ∧ m.contentHash = hash ∧ m.encryptionNonce = nonce ∧
        (x.1.db.upsertFileScopedVersioned m ctx now).isSome = true
  | .rows (.unversioned m) =>
      m.deleted = false ∧ m.path = path ∧ m.contentHash = hash ∧ m.encryptionNonce = nonce
  | _ => False

/-- The content was uploaded for the path with the nonce. -/
def Uploaded (hist : List (VaultState × VaultEvent)) (path : Path) (hash : Digest)
    (nonce : Option Bytes) : Prop :=
  ∃ x ∈ hist, Uploads path hash nonce x

/-- Every live row has a nonce that its content was uploaded with. -/
def NoncesFollow (hist : List (VaultState × VaultEvent)) (s : VaultState) : Prop :=
  ∀ path row, s.db.files.lookup path = some row → row.deleted = false →
    Uploaded hist path row.contentHash row.encryptionNonce

section

variable (blake3 : Bytes → Digest) (cfg : VaultConfig)

/-- The states that an event passes through before the last: those between the turns of a restored
snapshot. -/
def passes (s : VaultState) : VaultEvent → List VaultState
  | .restoreSnapshot r id =>
      (turnsOf blake3 cfg s r id).map fun x => (restoreTurn blake3 cfg r x.1 x.2).vault
  | _ => []

/-- Nonces follow content in every state that a step reaches. -/
structure NonceLaw (hist : List (VaultState × VaultEvent)) (s : VaultState) (e : VaultEvent) :
    Prop where
  between : ∀ t ∈ passes blake3 cfg s e, NoncesFollow (hist ++ [(s, e)]) t
  after : NoncesFollow (hist ++ [(s, e)]) (vaultStep blake3 cfg s e)

/-- What a restore finds, and can write, had been uploaded for the row that it writes, with the
nonce that it writes: none from a version or a snapshot, that of the trashed row from the trash. -/
def RestoresUploaded (hist : List (VaultState × VaultEvent)) (s : VaultState) : VaultEvent → Prop
  | .restoreVersion r path versionId =>
      ∀ rev target, planVersion s r path versionId = .ok rev →
        Admits cfg s r (r.env 0) rev target → Uploaded hist (rowKey cfg target) rev.contentHash none
  | .restoreTrash r path =>
      ∀ rev target, planTrash blake3 cfg s r path = .ok rev →
        Admits cfg s r (r.env 0) rev target →
          Uploaded hist (rowKey cfg target) rev.contentHash rev.nonce
  | .restoreSnapshot r id =>
      ∀ x ∈ turnsOf blake3 cfg s r id, ∀ rev target, TurnAdmits blake3 cfg r x.1 x.2 rev target →
        Uploaded hist (rowKey cfg target) x.2.contentHash none
  | _ => True

/-! ## Uploads -/

variable {blake3 cfg}

theorem Uploaded.append {hist : List (VaultState × VaultEvent)} {path : Path} {hash : Digest}
    {nonce : Option Bytes} (h : Uploaded hist path hash nonce) (x : VaultState × VaultEvent) :
    Uploaded (hist ++ [x]) path hash nonce := by
  obtain ⟨y, hy, hup⟩ := h
  exact ⟨y, List.mem_append_left _ hy, hup⟩

/-- What a step that uploads nothing finds uploaded was uploaded before. -/
theorem Uploaded.of_append {hist : List (VaultState × VaultEvent)} {path : Path} {hash : Digest}
    {nonce : Option Bytes} {x : VaultState × VaultEvent} (h : Uploaded (hist ++ [x]) path hash nonce)
    (hx : ¬ Uploads path hash nonce x) : Uploaded hist path hash nonce := by
  obtain ⟨y, hy, hup⟩ := h
  rcases List.mem_append.mp hy with hold | hlast
  · exact ⟨y, hold, hup⟩
  · rw [List.mem_singleton.mp hlast] at hup
    exact absurd hup hx

theorem NoncesFollow.append {hist : List (VaultState × VaultEvent)} {s : VaultState}
    (h : NoncesFollow hist s) (x : VaultState × VaultEvent) : NoncesFollow (hist ++ [x]) s :=
  fun path row hrow hlive => (h path row hrow hlive).append x

theorem NoncesFollow.of_files {hist : List (VaultState × VaultEvent)} {s s' : VaultState}
    (h : NoncesFollow hist s) (hfiles : s'.db.files = s.db.files) : NoncesFollow hist s' := by
  intro path row hrow
  rw [hfiles] at hrow
  exact h path row hrow

/-- A row of uploaded content keeps the law. -/
theorem NoncesFollow.of_insert {hist : List (VaultState × VaultEvent)} {s s' : VaultState}
    (h : NoncesFollow hist s) {key : Path} {row : FileRow}
    (hfiles : s'.db.files = s.db.files.insert key row)
    (hup : Uploaded hist key row.contentHash row.encryptionNonce) : NoncesFollow hist s' := by
  intro path row' hrow' hlive
  rw [hfiles, Table.lookup_insert_eq_ite] at hrow'
  split_ifs at hrow' with hpath
  · obtain rfl := Option.some.inj hrow'
    rw [hpath]
    exact hup
  · exact h path row' hrow' hlive

/-- A live row that was written has its content uploaded, if nonces follow content. -/
theorem NoncesFollow.written {hist : List (VaultState × VaultEvent)} {s s' : VaultState} {key : Path}
    {row : FileRow} (h : NoncesFollow hist s') (hfiles : s'.db.files = s.db.files.insert key row)
    (hlive : row.deleted = false) : Uploaded hist key row.contentHash row.encryptionNonce := by
  apply h key row ?_ hlive
  rw [hfiles, AList.lookup_insert]

/-! ## Steps -/

/-- Upserts, tombstones and prunes: a live row is an old one, or what was just uploaded. -/
theorem noncesFollow_rows {hist : List (VaultState × VaultEvent)} {s : VaultState}
    (h : NoncesFollow hist s) (e : MetaDb.HistoryEvent) :
    NoncesFollow (hist ++ [(s, .rows e)]) (vaultStep blake3 cfg s (.rows e)) := by
  intro path row hrow hlive
  change (MetaDb.historyStep s.db e).files.lookup path = some row at hrow
  rcases MetaDb.historyStep_lookup_cases s.db e path with hsame |
    ⟨m, ctx, now, db', rfl, rfl, hup, hstep⟩ | ⟨m, rfl, rfl, hlookup⟩ |
    ⟨nodeId, now, rfl, row', hlookup, hdeleted, -⟩
  · rw [hsame] at hrow
    exact (h path row hrow hlive).append _
  · obtain ⟨⟨versionId, parentVersionId, hfiles⟩, -⟩ := MetaDb.of_upsertFileScopedVersioned hup
    rw [hstep, hfiles, AList.lookup_insert] at hrow
    obtain rfl := Option.some.inj hrow
    refine ⟨_, List.mem_append_right _ (List.mem_singleton_self _), hlive, rfl, rfl, rfl, ?_⟩
    rw [hup]
    rfl
  · rw [hlookup] at hrow
    obtain rfl := Option.some.inj hrow
    exact ⟨_, List.mem_append_right _ (List.mem_singleton_self _), hlive, rfl, rfl, rfl⟩
  · rw [hlookup] at hrow
    obtain rfl := Option.some.inj hrow
    rw [hdeleted] at hlive
    cases hlive

/-- Deleting rows keeps the law. -/
theorem noncesFollow_purge {hist : List (VaultState × VaultEvent)} {s : VaultState}
    (h : NoncesFollow hist s) (p : Path → FileRow → Bool) :
    NoncesFollow hist (vaultStep blake3 cfg s (.purge p)) := by
  intro path row hrow hlive
  change (s.db.deleteFilesWhere _).files.lookup path = some row at hrow
  rw [lookup_deleteFilesWhere] at hrow
  exact h path row (Option.filter_eq_some_iff.mp hrow).1 hlive

/-- **The restore of one file** keeps the law exactly when what it puts back was uploaded. -/
theorem noncesFollow_restoreFile_iff {hist : List (VaultState × VaultEvent)} {s : VaultState}
    (h : NoncesFollow hist s) (r : RestoreRequest) (env : FileAnswers) (archives : Bool)
    (rev : Revision) :
    NoncesFollow hist (restoreFile cfg s r env archives rev).2 ↔
      ∀ target, Admits cfg s r env rev target →
        Uploaded hist (rowKey cfg target) rev.contentHash rev.nonce := by
  rcases restoreFile_cases cfg s r env archives rev with
    ⟨target, row, hadmits, -, hfiles, hrow⟩ | ⟨hnone, -, -, hdb⟩
  · constructor
    · intro hafter target' hadmits'
      obtain rfl := hadmits'.target_eq hadmits
      have hup := hafter.written hfiles hrow.live
      rwa [hrow.contentHash, hrow.nonce] at hup
    · intro hup
      refine h.of_insert hfiles ?_
      rw [hrow.contentHash, hrow.nonce]
      exact hup target hadmits
  · constructor
    · exact fun _ target hadmits => absurd hadmits (hnone target)
    · exact fun _ => h.of_files (by rw [hdb])

/-- The same for a plan that was made or has failed. -/
theorem noncesFollow_restorePlanned_iff {hist : List (VaultState × VaultEvent)} {s : VaultState}
    (h : NoncesFollow hist s) (r : RestoreRequest) (archives : Bool) (plan : Except String Revision) :
    NoncesFollow hist (restorePlanned cfg s r archives plan).2 ↔
      ∀ rev target, plan = .ok rev → Admits cfg s r (r.env 0) rev target →
        Uploaded hist (rowKey cfg target) rev.contentHash rev.nonce := by
  rcases plan with e | rev
  · constructor
    · intro _ rev target hplan
      cases hplan
    · exact fun _ => h
  · refine (noncesFollow_restoreFile_iff h r (r.env 0) archives rev).trans ?_
    constructor
    · intro hup rev' target hplan hadmits
      obtain rfl := Except.ok.inj hplan
      exact hup target hadmits
    · exact fun hup target hadmits => hup rev target rfl hadmits

/-- **The turns of a restored snapshot** keep the law exactly when each file that they restore was
uploaded without a nonce. -/
theorem noncesFollow_turns_iff {hist : List (VaultState × VaultEvent)} (r : RestoreRequest)
    (files : List SnapshotFile) {l : SnapshotLoop} (h : NoncesFollow hist l.vault) :
    (∀ x ∈ Trace.history (restoreTurn blake3 cfg r) l files,
      NoncesFollow hist (restoreTurn blake3 cfg r x.1 x.2).vault) ↔
    ∀ x ∈ Trace.history (restoreTurn blake3 cfg r) l files, ∀ rev target,
      TurnAdmits blake3 cfg r x.1 x.2 rev target →
        Uploaded hist (rowKey cfg target) x.2.contentHash none := by
  induction files generalizing l with
  | nil => simp
  | cons entry files ih =>
      have hturn : NoncesFollow hist (restoreTurn blake3 cfg r l entry).vault ↔
          ∀ rev target, TurnAdmits blake3 cfg r l entry rev target →
            Uploaded hist (rowKey cfg target) entry.contentHash none := by
        rcases restoreTurn_cases blake3 cfg r l entry with
          ⟨rev, target, hadmits, hturn⟩ | ⟨hnone, hdb, -⟩
        · obtain ⟨row, hfiles, hlive, hhash, -, hnonce⟩ := hturn.row
          constructor
          · intro hafter rev' target' hadmits'
            obtain rfl := hadmits'.target_eq hadmits
            have hup := hafter.written hfiles hlive
            rwa [hhash, hnonce] at hup
          · intro hup
            refine h.of_insert hfiles ?_
            rw [hhash, hnonce]
            exact hup rev target hadmits
        · constructor
          · exact fun _ rev target hadmits => absurd hadmits (hnone rev target)
          · exact fun _ => h.of_files (by rw [hdb])
      show (∀ x ∈ (l, entry) :: Trace.history _ _ files, _) ↔
        ∀ x ∈ (l, entry) :: Trace.history _ _ files, _
      rw [List.forall_mem_cons, List.forall_mem_cons]
      constructor
      · rintro ⟨hhead, htail⟩
        exact ⟨hturn.mp hhead, (ih hhead).mp htail⟩
      · rintro ⟨hhead, htail⟩
        have hnext := hturn.mpr hhead
        exact ⟨hnext, (ih hnext).mpr htail⟩

/-- What holds after every turn holds at the end of the loop. -/
theorem noncesFollow_run {hist : List (VaultState × VaultEvent)} (r : RestoreRequest)
    (files : List SnapshotFile) {l : SnapshotLoop} (h : NoncesFollow hist l.vault)
    (hturns : ∀ x ∈ Trace.history (restoreTurn blake3 cfg r) l files,
      NoncesFollow hist (restoreTurn blake3 cfg r x.1 x.2).vault) :
    NoncesFollow hist (Trace.run (restoreTurn blake3 cfg r) l files).vault := by
  induction files generalizing l with
  | nil => exact h
  | cons entry files ih =>
      obtain ⟨hhead, htail⟩ := List.forall_mem_cons.mp hturns
      exact ih hhead htail

/-- A step that uploads nothing is judged by the uploads before it. -/
theorem noncesFollow_append_iff {hist : List (VaultState × VaultEvent)}
    {x : VaultState × VaultEvent} (hx : ∀ path hash nonce, ¬ Uploads path hash nonce x)
    (t : VaultState) : NoncesFollow (hist ++ [x]) t ↔ NoncesFollow hist t := by
  constructor
  · exact fun ht path row hrow hlive => (ht path row hrow hlive).of_append (hx _ _ _)
  · exact fun ht => ht.append x

theorem nonceLaw_restoreSnapshot_iff {hist : List (VaultState × VaultEvent)} {s : VaultState}
    (h : NoncesFollow hist s) (r : RestoreRequest) (id : ℕ) :
    NonceLaw blake3 cfg hist s (.restoreSnapshot r id) ↔
      RestoresUploaded blake3 cfg hist s (.restoreSnapshot r id) := by
  have hjudged : ∀ t, NoncesFollow (hist ++ [(s, .restoreSnapshot r id)]) t ↔ NoncesFollow hist t :=
    noncesFollow_append_iff fun _ _ _ hup => hup
  -- what passes are the states after the turns
  have hpasses : (∀ t ∈ passes blake3 cfg s (.restoreSnapshot r id),
        NoncesFollow (hist ++ [(s, .restoreSnapshot r id)]) t) ↔
      ∀ x ∈ turnsOf blake3 cfg s r id,
        NoncesFollow hist (restoreTurn blake3 cfg r x.1 x.2).vault := by
    constructor
    · intro hall x hx
      rw [← hjudged]
      exact hall _ (List.mem_map_of_mem hx)
    · intro hall t ht
      obtain ⟨x, hx, rfl⟩ := List.mem_map.mp ht
      rw [hjudged]
      exact hall x hx
  have hend : (∀ x ∈ turnsOf blake3 cfg s r id,
        NoncesFollow hist (restoreTurn blake3 cfg r x.1 x.2).vault) →
      NoncesFollow hist (restoreSnapshot blake3 cfg s r id).2 := by
    intro hall
    rcases restoreSnapshot_cases blake3 cfg s r id with ⟨-, hstate, -⟩ |
      ⟨files, -, hturns, l, rfl, hrestore⟩
    · rw [hstate]
      exact h
    · rw [hturns] at hall
      rw [hrestore]
      exact noncesFollow_run r _ h hall
  have hturns : (∀ x ∈ turnsOf blake3 cfg s r id,
        NoncesFollow hist (restoreTurn blake3 cfg r x.1 x.2).vault) ↔
      RestoresUploaded blake3 cfg hist s (.restoreSnapshot r id) := by
    show _ ↔ ∀ x ∈ turnsOf blake3 cfg s r id, _
    rcases restoreSnapshot_cases blake3 cfg s r id with ⟨hnone, -, -⟩ | ⟨files, -, hturns, -⟩
    · rw [hnone]
      exact iff_of_true (fun x hx => nomatch hx) fun x hx => nomatch hx
    · rw [hturns]
      exact noncesFollow_turns_iff r _ h
  constructor
  · intro hlaw
    exact hturns.mp (hpasses.mp hlaw.between)
  · intro hup
    have hall := hturns.mpr hup
    exact ⟨hpasses.mpr hall, (hjudged _).mpr (hend hall)⟩

/-- **One step** keeps the law exactly when what it restores was uploaded. -/
theorem nonceLaw_step_iff {hist : List (VaultState × VaultEvent)} {s : VaultState}
    (h : NoncesFollow hist s) (e : VaultEvent) :
    NonceLaw blake3 cfg hist s e ↔ RestoresUploaded blake3 cfg hist s e := by
  -- outside the restore of a snapshot nothing is passed through
  have hno : ∀ {P : Prop}, (∀ t ∈ passes blake3 cfg s e, NoncesFollow (hist ++ [(s, e)]) t) →
      (NoncesFollow (hist ++ [(s, e)]) (vaultStep blake3 cfg s e) ↔ P) →
        (NonceLaw blake3 cfg hist s e ↔ P) :=
    fun hbetween hiff => ⟨fun hlaw => hiff.mp hlaw.after, fun hP => ⟨hbetween, hiff.mpr hP⟩⟩
  cases e with
  | rows e => exact hno (fun _ ht => nomatch ht) (iff_true_intro (noncesFollow_rows h e))
  | purge p =>
      exact hno (fun _ ht => nomatch ht) (iff_true_intro ((noncesFollow_purge h p).append _))
  | outside fs blobs =>
      exact hno (fun _ ht => nomatch ht) (iff_true_intro ((h.of_files rfl).append _))
  | createSnapshot admitted kept =>
      refine hno (fun _ ht => nomatch ht) (iff_true_intro ((h.of_files ?_).append _))
      show (createSnapshot s admitted kept).2.db.files = _
      unfold createSnapshot
      split
      · rfl
      · dsimp only
        split_ifs <;> rfl
  | restoreVersion r path versionId =>
      refine hno (fun _ ht => nomatch ht) ?_
      have hjudged : ∀ t, NoncesFollow (hist ++ [(s, .restoreVersion r path versionId)]) t ↔
          NoncesFollow hist t := noncesFollow_append_iff fun _ _ _ hup => hup
      refine (hjudged _).trans ?_
      refine (noncesFollow_restorePlanned_iff h r true _).trans ?_
      constructor
      · intro hup rev target hplan hadmits
        obtain ⟨-, -, -, -, hnonce⟩ := of_planVersion hplan
        rw [← hnonce]
        exact hup rev target hplan hadmits
      · intro hup rev target hplan hadmits
        obtain ⟨-, -, -, -, hnonce⟩ := of_planVersion hplan
        rw [hnonce]
        exact hup rev target hplan hadmits
  | restoreTrash r path =>
      refine hno (fun _ ht => nomatch ht) ?_
      have hjudged : ∀ t, NoncesFollow (hist ++ [(s, .restoreTrash r path)]) t ↔
          NoncesFollow hist t := noncesFollow_append_iff fun _ _ _ hup => hup
      refine (hjudged _).trans ?_
      exact noncesFollow_restorePlanned_iff h r false _
  | restoreSnapshot r id =>
      exact nonceLaw_restoreSnapshot_iff h r id

/-- **Nonces follow content as long as restores put back uploaded content.** In a run of a new vault,
over any files and stored bytes, every live row pairs its content with a nonce of an upload of its
path, in every state reached and between the files of a restored snapshot, if and only if whatever a
step restores had been uploaded, for the row it writes, with the nonce it writes. -/
theorem nonceLaw_iff (blake3 : Bytes → Digest) (cfg : VaultConfig) (tenantId : Option String)
    (fs : FileSystem Bytes) (blobs : Table Digest Bytes) (es : List VaultEvent) :
    Trace.Always (vaultStep blake3 cfg) (NonceLaw blake3 cfg) (newVault tenantId fs blobs) es ↔
      Trace.Always (vaultStep blake3 cfg) (RestoresUploaded blake3 cfg)
        (newVault tenantId fs blobs) es := by
  refine Trace.always_iff_of_invariant (I := NoncesFollow) ?_ ?_ ?_
  · intro path row hrow
    cases hrow
  · exact fun es e hfollow => nonceLaw_step_iff hfollow e
  · exact fun es e _ hlaw => hlaw.after

end

/-! ## A restored version -/

instance (path : Path) (hash : Digest) (nonce : Option Bytes) (x : VaultState × VaultEvent) :
    Decidable (Uploads path hash nonce x) :=
  match x with
  | (_, .rows (.versioned _ _ _)) => inferInstanceAs (Decidable (_ ∧ _ ∧ _ ∧ _ ∧ _))
  | (_, .rows (.unversioned _)) => inferInstanceAs (Decidable (_ ∧ _ ∧ _ ∧ _))
  | (_, .rows (.tombstone _ _ _)) => inferInstanceAs (Decidable False)
  | (_, .rows (.prune _ _ _)) => inferInstanceAs (Decidable False)
  | (_, .purge _) => inferInstanceAs (Decidable False)
  | (_, .outside _ _) => inferInstanceAs (Decidable False)
  | (_, .createSnapshot _ _) => inferInstanceAs (Decidable False)
  | (_, .restoreVersion _ _ _) => inferInstanceAs (Decidable False)
  | (_, .restoreTrash _ _) => inferInstanceAs (Decidable False)
  | (_, .restoreSnapshot _ _) => inferInstanceAs (Decidable False)

instance (hist : List (VaultState × VaultEvent)) (path : Path) (hash : Digest)
    (nonce : Option Bytes) : Decidable (Uploaded hist path hash nonce) :=
  inferInstanceAs (Decidable (∃ x ∈ hist, _))

/-- The upload of an encrypted note. -/
def encryptedNote (bytes nonce : Bytes) : VaultEvent :=
  .rows (.versioned (restoredMeta "laptop" ["note"] (smallHash bytes) bytes.length (some nonce) 0)
    ⟨"usr", ⟨5, 604800⟩⟩ 0)

/-- A vault below `/srv` whose store has the bytes of the first version. -/
def storedVault : VaultState :=
  newVault (some "corp") ((∅ : FileSystem Bytes).insert ["srv"] .dir)
    ((∅ : Table Digest Bytes).insert (smallHash [0]) [0])

/-- Two encrypted versions are uploaded. -/
def versionEvents : List VaultEvent := [encryptedNote [0] [7], encryptedNote [1] [8]]

/-- The first of them is restored. -/
def restoreFirst : VaultEvent := .restoreVersion .calm "note" 1

/-- **A restored version loses its nonce.** The note is live with the content of its first version,
which was never uploaded without a nonce, and has none. -/
theorem not_nonceLaw_of_restored_version :
    ¬ Trace.Always (vaultStep smallHash ⟨"/srv", []⟩) (NonceLaw smallHash ⟨"/srv", []⟩)
      storedVault (versionEvents ++ [restoreFirst]) := by
  intro hlaw
  have hafter := (Trace.always_snoc.mp hlaw).2.after
  rw [← Trace.history_snoc, ← Trace.run_snoc (vaultStep smallHash ⟨"/srv", []⟩)] at hafter
  have hrow : ∃ row ∈ (Trace.run (vaultStep smallHash ⟨"/srv", []⟩) storedVault
      (versionEvents ++ [restoreFirst])).db.files.lookup ["note"],
      row.deleted = false ∧ row.contentHash = smallHash [0] ∧ row.encryptionNonce = none := by
    decide +kernel
  obtain ⟨row, hlookup, hlive, hhash, hnonce⟩ := hrow
  have hup := hafter ["note"] row hlookup hlive
  rw [hhash, hnonce] at hup
  have hnever : ¬ Uploaded (Trace.history (vaultStep smallHash ⟨"/srv", []⟩) storedVault
      (versionEvents ++ [restoreFirst])) ["note"] (smallHash [0]) none := by decide +kernel
  exact hnever hup

end DiskArcana.Vault
