import DiskArcana.System.Mesh

/-!
# What a step can do

Inversion of `step`, once for each part of a world: the row of a path (`row_step`), a file of a node
(`disk_step`), the answer a node works on (`answer_step`). The baselines are in `Mesh`
(`baseAt_step`). The results about runs use these and never unfold `step`.
-/

namespace DiskArcana.System

open DiskArcana.Core DiskArcana.Lib DiskArcana.Server DiskArcana.Client

section

variable (blake3 : Bytes → Digest) (decrypt : Bytes → Bytes → Option Bytes)

/-! ## Rows -/

/-- The step restores a path. -/
def Restores (e : Event) (path : Path) : Prop :=
  match e with
  | .restoreTrash source _ | .restoreVersion source _ _ => validatePath source = .ok path
  | .restoreSnapshot files _ => ∃ entry ∈ files, validatePath entry.path = .ok path
  | _ => False

/-- The step is a turn of the share indexer. -/
def isIndexer (e : Event) : Bool :=
  match e with
  | .indexEvent _ _ _ _ | .fullReconcile _ _ => true
  | _ => false

/-- **What a step can do to the row of a path.** -/
inductive RowChange (w : World) (e : Event) (path : Path) : Prop where
  | kept (h : (step blake3 decrypt w e).row path = w.row path)
  | tombstoned (call : ExchangeCall) (he : e = .exchange call)
      (ht : Tombstones w.server.db call path)
      (h : (step blake3 decrypt w e).row path = (w.row path).map (tombstone call.now))
  | uploaded (call : UploadCall) (he : e = .upload call) (row : FileRow)
      (hrow : UploadedRow blake3 w.server.serverNodeId call path row)
      (h : (step blake3 decrypt w e).row path = some (rowToMeta path row))
  | restored (hr : Restores e path) (h : side ((step blake3 decrypt w e).row path) = .live)
  | purged (ht : side (w.row path) = .tomb) (h : (step blake3 decrypt w e).row path = none)
  | indexed (hi : isIndexer e = true)

theorem rowChange_purge {w : World} {e : Event} {path : Path} {p : Path → FileRow → Bool}
    (hp : ∀ path row, p path row = true → row.deleted = true)
    (hs : step blake3 decrypt w e = w.withDb (w.server.db.deleteFilesWhere p)) :
    RowChange blake3 decrypt w e path := by
  have hrow : (step blake3 decrypt w e).row path =
      ((w.server.db.files.lookup path).filter fun row => !p path row).map (rowToMeta path) := by
    rw [hs, ← lookup_deleteFilesWhere]
    rfl
  rcases hl : w.server.db.files.lookup path with _ | row
  · refine .kept ?_
    rw [hrow, hl]
    unfold World.row MetaDb.getFileScoped
    rw [hl]
    rfl
  · have hold : w.row path = some (rowToMeta path row) := by
      unfold World.row MetaDb.getFileScoped
      rw [hl]
      rfl
    rcases hpr : p path row with _ | _
    · refine .kept ?_
      rw [hrow, hold, hl]
      simp [hpr]
    · refine .purged ?_ ?_
      · rw [hold]
        exact side_some_of_tomb (hp path row hpr)
      · rw [hrow, hl]
        simp [hpr]

theorem rowChange_restore {w : World} {e : Event} {path : Path} {P : Path → FileRow → Prop}
    (hw : RowsWritten P w.server (step blake3 decrypt w e).server)
    (hP : ∀ row, P path row → Restores e path ∧ row.deleted = false) :
    RowChange blake3 decrypt w e path := by
  rcases row_of_rowsWritten hw path with h | ⟨row, h, hrow⟩
  · exact .kept h
  · obtain ⟨hr, hd⟩ := hP row hrow
    refine .restored hr ?_
    rw [h]
    exact side_some_of_live hd

theorem row_step (w : World) (e : Event) (path : Path) : RowChange blake3 decrypt w e path := by
  cases e with
  | exchange call =>
      have hrow := row_step_exchange blake3 decrypt w call path
      by_cases ht : Tombstones w.server.db call path
      · rw [if_pos ht] at hrow
        exact .tombstoned call rfl ht hrow
      · rw [if_neg ht] at hrow
        exact .kept hrow
  | upload call =>
      rcases hu : deltaUpload blake3 w.server call with err | server
      · refine .kept ?_
        show (uploadStep blake3 w call).row path = _
        unfold uploadStep
        rw [hu]
      · have hs : step blake3 decrypt w (.upload call) = { w with server := server } := by
          show uploadStep blake3 w call = _
          unfold uploadStep
          rw [hu]
        have hw : RowsWritten (UploadedRow blake3 w.server.serverNodeId call) w.server
            (step blake3 decrypt w (.upload call)).server := by
          rw [hs]
          exact deltaUpload_rows blake3 hu
        rcases row_of_rowsWritten hw path with h | ⟨row, h, hrow⟩
        · exact .kept h
        · exact .uploaded call rfl row hrow h
  | download nodeId role includes entry ok =>
      refine .kept ?_
      show (downloadStep blake3 decrypt w nodeId role includes entry ok).row path = _
      unfold downloadStep
      split
      · split_ifs <;> rfl
      · rfl
  | applyDelete nodeId q ok => cases ok <;> exact .kept rfl
  | edit nodeId q bytes => exact .kept rfl
  | remove nodeId q => exact .kept rfl
  | restoreTrash q c =>
      exact rowChange_restore blake3 decrypt (restoreTrash_rows blake3 w.server q c) fun _ h => h
  | restoreVersion q versionId c =>
      exact rowChange_restore blake3 decrypt (restoreVersion_rows w.server q versionId c)
        fun _ h => h
  | restoreSnapshot files c =>
      refine rowChange_restore blake3 decrypt (restoreSnapshot_rows blake3 w.server files c) ?_
      rintro row ⟨entry, hentry, hv, hd⟩
      exact ⟨⟨entry, hentry, hv⟩, hd⟩
  | pruneExpiredTrash maxAgeSecs now =>
      refine rowChange_purge blake3 decrypt (fun q row h => ?_) rfl
      simp only [Bool.and_eq_true] at h
      exact h.1
  | deleteTrashItem q =>
      refine rowChange_purge blake3 decrypt (fun q row h => ?_) rfl
      simp only [Bool.and_eq_true] at h
      exact h.2
  | emptyTrash => exact rowChange_purge blake3 decrypt (fun q row h => h) rfl
  | serverEdit q bytes => exact .kept rfl
  | serverRemove q => exact .kept rfl
  | indexEvent kind q stat now => exact .indexed rfl
  | fullReconcile stat now => exact .indexed rfl

/-- A live row stays live unless an exchange tombstones it or the indexer is at work. -/
theorem live_step {w : World} {e : Event} {path : Path} (hlive : side (w.row path) = .live)
    (ht : ¬ TurnsToTombstone blake3 decrypt w e path)
    (hi : isIndexer e = true → side ((step blake3 decrypt w e).row path) = .live) :
    side ((step blake3 decrypt w e).row path) = .live := by
  cases row_step blake3 decrypt w e path with
  | kept h => rwa [h]
  | tombstoned call he htomb h =>
      subst he
      exact absurd ((turnsToTombstone_exchange blake3 decrypt).mpr htomb) ht
  | uploaded call he row hrow h =>
      rw [h]
      exact side_some_of_live hrow.2.1
  | restored hr h => exact h
  | purged htomb h =>
      rw [hlive] at htomb
      cases htomb
  | indexed hidx => exact hi hidx

/-! ## Files of a node -/

/-- **What a step can do to a file of a node.** -/
inductive DiskChange (w : World) (e : Event) (nodeId : NodeId) (path : Path) : Prop where
  | kept (h : ((step blake3 decrypt w e).disk nodeId).lookup path = (w.disk nodeId).lookup path)
  | downloaded (role : Option EnforcedRole) (includes : List String) (entry : FileMetadata)
      (bytes : Bytes) (he : e = .download nodeId role includes entry true) (hp : entry.path = path)
      (hf : fetch blake3 decrypt w.server role includes entry = some bytes)
      (h : ((step blake3 decrypt w e).disk nodeId).lookup path = some bytes)
  | deleted (he : e = .applyDelete nodeId path true)
      (h : ((step blake3 decrypt w e).disk nodeId).lookup path = none)
  | edited (bytes : Bytes) (he : e = .edit nodeId path bytes)
      (h : ((step blake3 decrypt w e).disk nodeId).lookup path = some bytes)
  | removed (he : e = .remove nodeId path)
      (h : ((step blake3 decrypt w e).disk nodeId).lookup path = none)

/-- Writing a file of a node. -/
theorem lookup_withDisk_insert (w : World) (n nodeId : NodeId) (q path : Path) (bytes : Bytes) :
    ((w.withDisk n ((w.disk n).insert q bytes)).disk nodeId).lookup path =
      if nodeId = n ∧ path = q then some bytes else (w.disk nodeId).lookup path := by
  show (Function.update w.disk n ((w.disk n).insert q bytes) nodeId).lookup path = _
  by_cases hn : nodeId = n
  · subst hn
    rw [Function.update_self, Table.lookup_insert_eq_ite]
    simp
  · rw [Function.update_of_ne hn]
    simp [hn]

/-- Removing a file of a node. -/
theorem lookup_withDisk_erase (w : World) (n nodeId : NodeId) (q path : Path) :
    ((w.withDisk n ((w.disk n).erase q)).disk nodeId).lookup path =
      if nodeId = n ∧ path = q then none else (w.disk nodeId).lookup path := by
  show (Function.update w.disk n ((w.disk n).erase q) nodeId).lookup path = _
  by_cases hn : nodeId = n
  · subst hn
    rw [Function.update_self]
    by_cases hp : path = q
    · subst hp
      simp
    · rw [AList.lookup_erase_ne hp]
      simp [hp]
  · rw [Function.update_of_ne hn]
    simp [hn]

theorem disk_step (w : World) (e : Event) (nodeId : NodeId) (path : Path) :
    DiskChange blake3 decrypt w e nodeId path := by
  cases e with
  | exchange call =>
      refine .kept ?_
      rw [step_exchange]
      rfl
  | upload call =>
      refine .kept ?_
      show ((uploadStep blake3 w call).disk nodeId).lookup path = _
      unfold uploadStep
      split <;> rfl
  | download n role includes entry ok =>
      have hs : step blake3 decrypt w (.download n role includes entry ok) =
        downloadStep blake3 decrypt w n role includes entry ok := rfl
      unfold downloadStep at hs
      rcases hf : fetch blake3 decrypt w.server role includes entry with _ | bytes
      · rw [hf] at hs
        exact .kept (by rw [hs])
      · rw [hf] at hs
        cases ok with
        | false => exact .kept (by rw [hs]; rfl)
        | true =>
            simp only [if_true] at hs
            have hl := lookup_withDisk_insert w n nodeId entry.path path bytes
            rw [← hs] at hl
            by_cases hnp : nodeId = n ∧ path = entry.path
            · obtain ⟨rfl, rfl⟩ := hnp
              exact .downloaded role includes entry bytes rfl rfl hf (by simpa using hl)
            · rw [if_neg hnp] at hl
              exact .kept hl
  | applyDelete n q ok =>
      cases ok with
      | false => exact .kept rfl
      | true =>
          have hl := lookup_withDisk_erase w n nodeId q path
          by_cases hnp : nodeId = n ∧ path = q
          · obtain ⟨rfl, rfl⟩ := hnp
            rw [if_pos ⟨rfl, rfl⟩] at hl
            exact .deleted rfl hl
          · rw [if_neg hnp] at hl
            exact .kept hl
  | edit n q bytes =>
      have hl := lookup_withDisk_insert w n nodeId q path bytes
      by_cases hnp : nodeId = n ∧ path = q
      · obtain ⟨rfl, rfl⟩ := hnp
        rw [if_pos ⟨rfl, rfl⟩] at hl
        exact .edited bytes rfl hl
      · rw [if_neg hnp] at hl
        exact .kept hl
  | remove n q =>
      have hl := lookup_withDisk_erase w n nodeId q path
      by_cases hnp : nodeId = n ∧ path = q
      · obtain ⟨rfl, rfl⟩ := hnp
        rw [if_pos ⟨rfl, rfl⟩] at hl
        exact .removed rfl hl
      · rw [if_neg hnp] at hl
        exact .kept hl
  | _ => exact .kept rfl

/-! ## Answers -/

/-- The answer a node works on: the one its last exchange gave. -/
theorem answer_step (w : World) (e : Event) (nodeId : NodeId) :
    (∃ call, e = .exchange call ∧ call.nodeId = nodeId ∧
      (step blake3 decrypt w e).answer nodeId =
        exchangeResponse w.server.vaultId w.server.db call) ∨
      (∀ call, e = .exchange call → call.nodeId ≠ nodeId) ∧
        (step blake3 decrypt w e).answer nodeId = w.answer nodeId := by
  cases e with
  | exchange call =>
      by_cases hn : call.nodeId = nodeId
      · subst hn
        exact Or.inl ⟨call, rfl, rfl, answer_step_exchange blake3 decrypt w call⟩
      · refine Or.inr ⟨?_, ?_⟩
        · rintro c hc
          cases hc
          exact hn
        · rw [step_exchange]
          exact Function.update_of_ne (Ne.symm hn) _ _
  | upload call =>
      refine Or.inr ⟨by simp, ?_⟩
      show (uploadStep blake3 w call).answer nodeId = _
      unfold uploadStep
      split <;> rfl
  | download n role includes entry ok =>
      refine Or.inr ⟨by simp, ?_⟩
      show (downloadStep blake3 decrypt w n role includes entry ok).answer nodeId = _
      unfold downloadStep
      split
      · split_ifs <;> rfl
      · rfl
  | applyDelete n q ok => cases ok <;> exact Or.inr ⟨by simp, rfl⟩
  | _ => exact Or.inr ⟨by simp, rfl⟩

/-! ## What faithful clients are asked for -/

/-- An entry that is asked for is not offered as well. -/
theorem of_listed_toUpload {vaultId : String} {db : MetaDb} {call : ExchangeCall} {path : Path}
    (h : Listed (exchangeResponse vaultId db call).toUpload path) :
    call.role ≠ some .receiveOnly ∧ Included call path ∧
      (exchangeVerdict db call path).1 = .download ∧ clientAt call.files path ≠ none ∧
      ¬ Listed (exchangeResponse vaultId db call).toDownload path := by
  obtain ⟨m, hm, rfl⟩ := h
  obtain ⟨hrole, hinc, f, hf, -⟩ := mem_toUpload.mp hm
  unfold uploadEntry at hf
  split_ifs at hf with hv
  refine ⟨hrole, hinc, hv, by simp [hf], ?_⟩
  rintro ⟨m', hm', hp⟩
  obtain ⟨-, f', hf', -⟩ := mem_toDownload.mp hm'
  rw [hp] at hf'
  unfold downloadEntry at hf'
  rw [hv] at hf'
  cases hf'

/-- A path with a live row is not listed for deletion to a node that reports it. -/
theorem not_listed_toDelete {w : World} {call : ExchangeCall} {path : Path}
    (hrow : side (w.row path) = .live) (hc : side (clientAt call.files path) = .live) :
    ¬ Listed (exchangeResponse w.server.vaultId w.server.db call).toDelete path := by
  rw [listed_toDelete]
  rintro ⟨-, hd | hd⟩
  · obtain ⟨-, ht⟩ | ⟨-, hn, -⟩ := verdict_deleteLocal_iff.mp hd
    · rw [hc] at ht
      cases ht
    · exact hn hc
  · obtain ⟨m, hm, -⟩ := side_eq_live_iff.mp hc
    unfold exchangeVerdict at hd
    rw [verdict_deleteRemote_iff, serverAt_eq_row (of_clientAt hm).2.1, hrow, hc] at hd
    simp at hd

/-- What a faithful upload writes into a row: the file that the last answer asks for. -/
theorem of_uploadedRow (filter : Filter) {w : World} {call : UploadCall} {path : Path} {row : FileRow}
    (hI : ∀ q, Listed (w.answer call.nodeId).toUpload q → isWalkPath q = true)
    (hf : Faithful blake3 filter w (.upload call))
    (hrow : UploadedRow blake3 w.server.serverNodeId call path row) :
    Listed (w.answer call.nodeId).toUpload path ∧
      (w.disk call.nodeId).lookup path = some (uploadBytes call) ∧
      liveHash (some (rowToMeta path row)) = some (blake3 (uploadBytes call)) := by
  obtain ⟨⟨first, hfirst, hv⟩, hd, hhash, -⟩ := hrow
  obtain ⟨q, hl, hdisk, hq⟩ := hf
  rw [hq first hfirst] at hv
  obtain rfl := eq_of_validatePath (hI q hl) hv
  refine ⟨hl, hdisk, liveHash_eq_some_iff.mpr ⟨_, rfl, hd, hhash⟩⟩

end

end DiskArcana.System
