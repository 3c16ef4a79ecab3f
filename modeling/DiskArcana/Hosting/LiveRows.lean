import DiskArcana.Hosting.Serving

/-!
# Which rows can become live

Every operation of the server on its tables, by the paths that may have a live row after it and had none
before: an upsert of its path, a reconciliation of the files that the walk may list, an exchange of none,
a request of the places that it writes to. `Gains` composes, so that each handler is the composition of
its statements.
-/

namespace DiskArcana.Hosting

open DiskArcana.Core DiskArcana.Lib DiskArcana.Lib.DirTree DiskArcana.Lib.LexicalPath
open DiskArcana.Server DiskArcana.ShareIndex

/-! ## Tables -/

/-- A path has a live row. -/
def LiveRow (db : MetaDb) (path : Path) : Prop :=
  ∃ row, db.files.lookup path = some row ∧ row.deleted = false

/-- Every live row of the second tables is live in the first, or at a path of `N`. -/
def Gains (N : Path → Prop) (db db' : MetaDb) : Prop :=
  ∀ path, LiveRow db' path → LiveRow db path ∨ N path

section

variable {N N' : Path → Prop} {db db' db'' : MetaDb}

theorem Gains.refl (N : Path → Prop) (db : MetaDb) : Gains N db db := fun _ => Or.inl

theorem Gains.trans (h : Gains N db db') (h' : Gains N db' db'') : Gains N db db'' := by
  intro path hlive
  rcases h' path hlive with hlive' | hnew
  · exact h path hlive'
  · exact Or.inr hnew

theorem Gains.mono (h : Gains N db db') (hN : ∀ path, N path → N' path) : Gains N' db db' :=
  fun path hlive => (h path hlive).imp_right (hN path)

theorem gains_foldl {α : Type} {step : MetaDb → α → MetaDb} {l : List α}
    (h : ∀ db, ∀ a ∈ l, Gains N db (step db a)) (db : MetaDb) : Gains N db (l.foldl step db) := by
  induction l generalizing db with
  | nil => exact .refl N db
  | cons a l ih =>
      exact (h db a List.mem_cons_self).trans
        (ih (fun db b hb => h db b (List.mem_cons_of_mem a hb)) (step db a))

theorem gains_insert {m : FileMeta} {v p : Option ℕ}
    (hfiles : db'.files = db.files.insert m.path (fileRowOfMeta m v p))
    (h : m.deleted = false → N m.path) : Gains N db db' := by
  rintro path ⟨row, hrow, hlive⟩
  rw [hfiles, Table.lookup_insert_eq_ite] at hrow
  split_ifs at hrow with hpath
  · subst hpath
    cases hrow
    exact Or.inr (h hlive)
  · exact Or.inl ⟨row, hrow, hlive⟩

theorem gains_upsertFileScoped (db : MetaDb) {m : FileMeta} (h : m.deleted = false → N m.path) :
    Gains N db (db.upsertFileScoped m) :=
  gains_insert rfl h

theorem gains_upsertFileScopedVersioned {m : FileMeta} {ctx : MetaDb.FileVersionUpsert} {now : ℤ}
    (hupsert : db.upsertFileScopedVersioned m ctx now = some db') (h : m.deleted = false → N m.path) :
    Gains N db db' := by
  obtain ⟨⟨v, p, hfiles⟩, -⟩ := MetaDb.of_upsertFileScopedVersioned hupsert
  exact gains_insert hfiles h

theorem gains_deleteFileScoped (db : MetaDb) (path : Path) :
    Gains N db (db.deleteFileScoped path) := by
  rintro other ⟨row, hrow, hlive⟩
  exact Or.inl ⟨row, Table.of_lookup_erase hrow |>.2, hlive⟩

/-- **An exchange** makes no row live. -/
theorem gains_exchangeDb (vaultId : String) (db : MetaDb) (call : ExchangeCall) :
    Gains N db (exchangeDb vaultId db call) := by
  rintro path ⟨row, hrow, hlive⟩
  rw [lookup_exchangeDb_files] at hrow
  split_ifs at hrow
  · obtain ⟨old, -, rfl⟩ := Option.map_eq_some_iff.mp hrow
    cases hlive
  · exact Or.inl ⟨row, hrow, hlive⟩

/-- What an exchange hands out for download has a live row. -/
theorem liveRow_of_mem_toDownload {vaultId : String} {call : ExchangeCall} {m : FileMetadata}
    (h : m ∈ (exchangeResponse vaultId db call).toDownload) : LiveRow db m.path := by
  obtain ⟨-, f, hf, -⟩ := mem_toDownload.mp h
  have hside : side (serverAt db m.path) = .live := by
    unfold downloadEntry exchangeVerdict at hf
    split at hf
    · rename_i hup
      exact of_verdict_upload hup
    · rename_i hfork
      exact (of_verdict_conflict (Or.inl hfork)).2.1
    · rename_i hmerge
      exact (of_verdict_conflict (Or.inr hmerge)).2.1
    · cases hf
  obtain ⟨entry, hentry, hlive⟩ := side_eq_live_iff.mp hside
  unfold serverAt visible at hentry
  split_ifs at hentry
  obtain ⟨row, hrow, rfl⟩ := Option.map_eq_some_iff.mp hentry
  exact ⟨row, hrow, hlive⟩

end

/-! ## The index -/

section

variable {blake3 : Bytes → Digest} {nodeId : NodeId} {N : Path → Prop} {okName : String → Prop}

/-- Indexing a file makes the row of its path live. -/
theorem gains_upsertLocalFile {root : Tree} (hroot : root.Proper okName Leaf.IsFile)
    (stat : Path → FileStat) {ok : Bool} (db : MetaDb) {rel : Path}
    (h : ∀ bytes, root.file rel = some bytes → ok = true → N (pathAsStr rel)) :
    Gains N db (upsertLocalFile blake3 nodeId root stat ok db rel) := by
  unfold ShareIndex.upsertLocalFile
  rw [resolvePresentFile_eq hroot]
  cases hfile : root.file rel with
  | none => exact .refl N db
  | some bytes =>
      dsimp only [Option.map_some]
      split_ifs with hskip
      · exact .refl N db
      · rw [Bool.or_eq_true, not_or, Bool.not_eq_true, Bool.not_eq_true', Bool.not_eq_false] at hskip
        apply gains_upsertFileScoped
        intro _
        dsimp only
        exact h bytes hfile hskip.2

/-- A tombstone makes no row live. -/
theorem gains_tombstoneLocalFile (now : ℤ) (ok : Bool) (db : MetaDb) (rel : Path) :
    Gains N db (tombstoneLocalFile nodeId now ok db rel) := by
  unfold ShareIndex.tombstoneLocalFile
  split_ifs
  · exact .refl N db
  · split
    · exact gains_upsertFileScoped db fun hlive => by cases hlive
    · exact gains_upsertFileScoped db fun hlive => by cases hlive

/-- **An event** makes the row of its path live, if there is a file. -/
theorem gains_indexEvent {root : Path} {tree : Tree} (htree : tree.Proper okName Leaf.IsFile)
    (stat : Path → FileStat) (now : ℤ) (db : MetaDb) {ev : IndexEvent}
    (h : ∀ bytes, tree.file (ev.absPath.drop root.length) = some bytes →
      N (pathAsStr (ev.absPath.drop root.length))) :
    Gains N db (indexEvent blake3 nodeId root tree stat now db ev) := by
  unfold ShareIndex.indexEvent
  dsimp only
  cases ev.kind with
  | upsert => exact gains_upsertLocalFile htree stat db fun bytes hfile _ => h bytes hfile
  | tombstone =>
      dsimp only
      rw [resolvePresentFile_eq htree]
      cases hfile : tree.file (ev.absPath.drop root.length) with
      | none => exact gains_tombstoneLocalFile now true db _
      | some bytes => exact gains_upsertLocalFile htree stat db fun bytes hfile _ => h bytes hfile

/-- What the second phase makes live in one share: paths that the walk has listed. -/
theorem gains_reconcileRows {env : IndexEnv} {g : Gathered} (hroot : g.root.Proper okName Leaf.IsFile)
    (h : ∀ rel ∈ g.files, env.upsertOk g.vault rel = true → N (pathAsStr rel)) (db : MetaDb) :
    Gains N db (reconcileRows blake3 nodeId env g db) := by
  have hindex : Gains N db (indexFiles blake3 nodeId env g db) := by
    apply gains_foldl
    intro db rel hrel
    exact gains_upsertLocalFile hroot _ db fun _ _ hok => h rel hrel hok
  unfold reconcileRows tombstoneGone
  refine hindex.trans ?_
  apply gains_foldl
  intro db row _
  exact gains_tombstoneLocalFile env.now _ db row.path

/-- The sweep makes no row live. -/
theorem gains_sweepShadowedDefaultRows {env : IndexEnv} {shares : List String} {db swept : Vaults}
    (h : sweepShadowedDefaultRows env shares db = .ok swept) (vault : String) :
    Gains N (db vault) (swept vault) := by
  unfold sweepShadowedDefaultRows at h
  split_ifs at h
  · cases h
    exact .refl N _
  · obtain ⟨legacyRows, -, h⟩ := of_bind_eq_ok h
    split_ifs at h
    · cases h
      exact .refl N _
    · obtain ⟨claimed, -, h⟩ := of_bind_eq_ok h
      cases h
      by_cases hvault : vault = legacyVault
      · subst hvault
        rw [Function.update_self]
        apply gains_foldl
        intro db row _
        exact gains_deleteFileScoped db row.path
      · rw [Function.update_of_ne hvault]
        exact .refl N _

variable (okName) in
/-- **A full reconciliation** makes paths live of files that the walk may list. -/
theorem gains_fullReconcile {env : IndexEnv} {shares : List (String × Tree)}
    (hshares : ∀ share ∈ shares, share.2.Proper okName Leaf.IsFile) {N : String → Path → Prop}
    (h : ∀ vault tree, (vault, tree) ∈ shares → ∀ rel bytes, tree.file rel = some bytes →
      isInternalPath rel = false → env.upsertOk vault rel = true → N vault (pathAsStr rel))
    (db : Vaults) (vault : String) :
    Gains (N vault) (db vault) ((fullReconcile blake3 nodeId env shares db).2 vault) := by
  rcases fullReconcile_cases blake3 nodeId env shares db with
    ⟨e, heq⟩ | ⟨gathered, swept, hgather, hsweep, heq⟩
  · rw [heq]
    exact .refl _ _
  rw [heq]
  obtain ⟨hmap, hwalks⟩ := of_gather_eq_ok hgather
  refine (gains_sweepShadowedDefaultRows hsweep vault).trans ?_
  have hstep : ∀ g ∈ gathered, ∀ db : MetaDb,
      Gains (N g.vault) db (reconcileRows blake3 nodeId env g db) := by
    intro g hg db
    have hmem : (g.vault, g.root) ∈ shares := hmap ▸ List.mem_map_of_mem hg
    apply gains_reconcileRows (hshares _ hmem)
    intro rel hrel hok
    obtain ⟨⟨bytes, hfile⟩, hint⟩ := (mem_walkFiles (hshares _ hmem) (hwalks g hg).1 rel).mp hrel
    exact h g.vault g.root hmem rel bytes hfile hint hok
  clear hmap hwalks heq hgather hsweep
  induction gathered generalizing swept with
  | nil => exact .refl _ _
  | cons g gathered ih =>
      rw [List.foldl_cons]
      refine Gains.trans ?_ (ih _ fun g' hg' => hstep g' (List.mem_cons_of_mem g hg'))
      by_cases hvault : vault = g.vault
      · subst hvault
        rw [Function.update_self]
        exact hstep g List.mem_cons_self _
      · rw [Function.update_of_ne hvault]
        exact .refl _ _

end

/-! ## Requests -/

/-- The same for all tables of a host. -/
def HostGains (N : Scope → Path → Prop) (h h' : Host) : Prop :=
  ∀ scope, Gains (N scope) (h.db scope) (h'.db scope)

section

variable {blake3 : Bytes → Digest} {cfg : HostConfig} {N : Scope → Path → Prop} {h h' h'' : Host}

theorem HostGains.refl (N : Scope → Path → Prop) (h : Host) : HostGains N h h := fun _ => .refl _ _

theorem HostGains.trans (hg : HostGains N h h') (hg' : HostGains N h' h'') : HostGains N h h'' :=
  fun scope => (hg scope).trans (hg' scope)

theorem HostGains.mono {N' : Scope → Path → Prop} (hg : HostGains N h h')
    (hN : ∀ scope path, N scope path → N' scope path) : HostGains N' h h' :=
  fun scope => (hg scope).mono (hN scope)

theorem hostGains_of_db_eq (heq : h'.db = h.db) : HostGains N h h' := by
  intro scope
  rw [heq]
  exact .refl _ _

theorem HostGains.setDb (hg : HostGains N h h') {scope : Scope} {db : MetaDb}
    (hdb : Gains (N scope) (h'.db scope) db) : HostGains N h (h'.setDb scope db) := by
  intro other
  by_cases hother : other = scope
  · subst hother
    rw [Host.setDb_db_self]
    exact (hg other).trans hdb
  · rw [Host.setDb_db_of_ne _ hother]
    exact hg other

/-- An upload makes the row of its target live. -/
theorem hostGains_recordRow {r : UploadRequest} {target : List String} (bytes : Bytes)
    (hN : N r.scope (pathAsStr (target.drop (cfg.rootFor r.share).length))) :
    HostGains N h (recordRow blake3 cfg h r target bytes) := by
  unfold recordRow
  split_ifs
  · apply (HostGains.refl N h).setDb
    rcases hupsert : (h.db r.scope).upsertFileScopedVersioned (rowMeta blake3 cfg r target bytes)
      ⟨cfg.serverNodeId, r.retention⟩ r.now with _ | db
    · exact .refl _ _
    · apply gains_upsertFileScopedVersioned hupsert
      intro _
      rw [rowMeta_path]
      exact hN
  · exact .refl N h

/-- The restore of a file makes the row of its target live, a path below `sync_root`. -/
theorem hostGains_restoreFile {r : RestoreRequest} (env : RestoreEnv) (archives : Bool) {rev : Revision}
    (hN : ∀ target, pathGuard cfg.syncRoot rev.path = .ok target →
      N r.scope (pathAsStr (target.drop cfg.syncRoot.length))) :
    HostGains N h (restoreFile cfg h r env archives rev).2 := by
  rcases restoreFile_cases cfg h r env archives rev with ⟨e, heq⟩ | ⟨target, hguard, hcase⟩
  · rw [heq]
    exact .refl N h
  have hkept := preserved_db cfg h r env archives rev target
  rcases hcase with ⟨e, heq⟩ | ⟨content, -, -, e, heq⟩ | ⟨db, -, hupsert, heq⟩
  · rw [heq]
    exact hostGains_of_db_eq hkept
  · rw [heq]
    exact hostGains_of_db_eq ((Host.write_db _ _ _).trans hkept)
  · rw [heq]
    have hset : HostGains N h
        (((preserved cfg h r env archives rev target).write target rev.bytes).setDb r.scope db) := by
      apply HostGains.setDb (hostGains_of_db_eq ((Host.write_db _ _ _).trans hkept))
      rw [Host.write_db, hkept]
      have hpath : (restoredRow cfg env rev target).path =
          pathAsStr (target.drop cfg.syncRoot.length) := by
        rw [restoredRow, restoredMeta]
      apply gains_upsertFileScopedVersioned hupsert
      intro _
      rw [hpath]
      exact hN target hguard
    rcases putBlob_cases (((preserved cfg h r env archives rev target).write target
      rev.bytes).setDb r.scope db) rev.contentHash rev.bytes env.blobOk with ⟨hput, -⟩ | ⟨hput, -, -⟩
    · rw [hput]
      exact hset
    · rw [hput]
      exact hset.trans (hostGains_of_db_eq (Host.write_db _ _ _))

theorem deleted_of_planSnapshotFile {r : RestoreRequest} {entry : SnapshotFile} {rev : Revision}
    (hplan : planSnapshotFile blake3 cfg h r entry = some rev) : entry.deleted = false := by
  unfold planSnapshotFile at hplan
  obtain ⟨hskip, -⟩ := Option.ite_none_left_eq_some.mp hplan
  rw [Bool.or_eq_true, Bool.or_eq_true, not_or, not_or, Bool.not_eq_true] at hskip
  exact hskip.1.1

/-- The loop over a snapshot makes rows of its files live. -/
theorem hostGains_restoreSnapshotFiles {r : RestoreRequest} {files : List SnapshotFile}
    (hN : ∀ entry ∈ files, entry.deleted = false → ∀ target,
      pathGuard cfg.syncRoot (pathString entry.path) = .ok target →
        N r.scope (pathAsStr (target.drop cfg.syncRoot.length))) (h : Host) (i : ℕ) :
    HostGains N h (restoreSnapshotFiles blake3 cfg h r i files) := by
  induction files generalizing h i with
  | nil => exact .refl N h
  | cons entry rest ih =>
      have hfirst : HostGains N h (restoreSnapshotFile blake3 cfg h r (r.env i) entry) := by
        unfold restoreSnapshotFile
        rcases hplan : planSnapshotFile blake3 cfg h r entry with _ | rev
        · exact .refl N h
        · apply hostGains_restoreFile
          obtain ⟨-, hpath, -, -⟩ := of_planSnapshotFile blake3 cfg hplan
          rw [hpath]
          apply hN entry List.mem_cons_self
          exact deleted_of_planSnapshotFile hplan
      exact hfirst.trans (ih (fun entry' hentry => hN entry' (List.mem_cons_of_mem entry hentry)) _ _)

variable (cfg) in
/-- The restore of a path may make this row live. -/
def RestoreGains (r : RestoreRequest) (path : String) (scope : Scope) (key : Path) : Prop :=
  scope = r.scope ∧ ∃ target, pathGuard cfg.syncRoot path = .ok target ∧
    key = pathAsStr (target.drop cfg.syncRoot.length)

variable (cfg) in
/-- A request that is no upload may make this row live. -/
def RequestGains (h : Host) (req : Request) (scope : Scope) (key : Path) : Prop :=
  match req with
  | .restoreVersion r path _ =>
    ∃ rel, normalizeRelPath path = .ok rel ∧ RestoreGains cfg r rel scope key
  | .restoreTrash r path => ∃ rel, normalizeRelPath path = .ok rel ∧ RestoreGains cfg r rel scope key
  | .restoreSnapshot r id => ∃ files, h.snapshots.lookup id = some (r.scope, files) ∧
      ∃ entry ∈ files, entry.deleted = false ∧ RestoreGains cfg r (pathString entry.path) scope key
  | _ => False

/-- **A request** makes rows live only where it restores. -/
theorem hostGains_serve {req : Request} (hreq : req.isUpload = false) (h : Host) :
    HostGains (RequestGains cfg h req) h (serve blake3 cfg h req) := by
  cases req with
  | upload r => cases hreq
  | download r => exact .refl _ h
  | exchange r =>
      show HostGains _ h (exchange h r).2
      unfold exchange
      rcases r.admitted with e | _
      · exact .refl _ h
      · dsimp only
        rw [exchangeState_eq]
        exact (HostGains.refl _ h).setDb (gains_exchangeDb _ _ _)
  | restoreVersion r path versionId =>
      show HostGains _ h (restorePlanned cfg h r true _).2
      rcases hplan : planVersion cfg h r path versionId with e | rev
      · exact .refl _ h
      · obtain ⟨v, hpath, -⟩ := of_planVersion cfg hplan
        apply hostGains_restoreFile
        intro target hguard
        exact ⟨rev.path, hpath, rfl, target, hguard, rfl⟩
  | restoreTrash r path =>
      show HostGains _ h (restorePlanned cfg h r false _).2
      rcases hplan : planTrash blake3 cfg h r path with e | rev
      · exact .refl _ h
      · obtain ⟨m, hpath, -⟩ := of_planTrash blake3 cfg hplan
        apply hostGains_restoreFile
        intro target hguard
        exact ⟨rev.path, hpath, rfl, target, hguard, rfl⟩
  | createSnapshot scope admitted kept =>
      show HostGains _ h (createSnapshot h scope admitted kept).2
      unfold createSnapshot
      rcases admitted with e | _
      · exact .refl _ h
      · exact hostGains_of_db_eq rfl
  | restoreSnapshot r id =>
      show HostGains _ h (restoreSnapshot blake3 cfg h r id).2
      unfold restoreSnapshot
      rcases r.admitted with e | u
      · exact .refl _ h
      · rcases hsnap : h.snapshots.lookup id with _ | ⟨scope, files⟩
        · exact .refl _ h
        · dsimp only
          split_ifs with hscope
          · subst hscope
            apply hostGains_restoreSnapshotFiles
            intro entry hentry hlive target hguard
            exact ⟨files, hsnap, entry, hentry, hlive, rfl, target, hguard, rfl⟩
          · exact .refl _ h

end

end DiskArcana.Hosting
