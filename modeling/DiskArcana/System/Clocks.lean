import DiskArcana.Lib.Trace
import DiskArcana.System.Mesh

/-!
# The clocks of the rows

Four writers put a clock into a row, each in its own way: `delta_upload` starts a fresh clock and ticks
it once for the server, the share index writes the empty clock when it finds a file and keeps the clock
of a row when the file is gone, and `exchange_state` keeps the clock of the row that it tombstones.

So the content of a row can change while its clock stands still, or goes back (`rowClocks`).
-/

namespace DiskArcana.System

open DiskArcana.Core DiskArcana.Lib DiskArcana.Server

/-! ## Writers -/

/-- What writes rows, and what happens to the files in between. -/
inductive RowEvent where
  | upload (c : UploadCall)
  | indexUpsert (rel : Path) (stat : FileStat)
  | indexTombstone (rel : Path) (now : ℤ)
  | exchange (call : ExchangeCall)
  | disk (tree : PathMap Bytes)

/-- What a row says about its file: the content, and whether it is deleted. -/
def contentState (row : FileRow) : Digest × Bool := (row.contentHash, row.deleted)

/-- The row of a path goes from one content state to another. -/
structure Moves (s s' : SyncServer) (path : Path) (old new : FileRow) : Prop where
  before : s.db.files.lookup path = some old
  after : s'.db.files.lookup path = some new
  differs : contentState old ≠ contentState new

/-- A clock that counts nothing. -/
def CountsNothing (c : VectorClock) : Prop := ∀ n, c.get n = 0

section

variable (blake3 : Bytes → Digest)

/-- One step of the server; a refused upload changes nothing. -/
def rowStep (s : SyncServer) : RowEvent → SyncServer
  | .upload c => (deltaUpload blake3 s c).toOption.getD s
  | .indexUpsert rel stat => upsertLocalFile blake3 s rel stat
  | .indexTombstone rel now => tombstoneLocalFile s rel now
  | .exchange call => { s with db := exchangeDb s.vaultId s.db call }
  | .disk tree => { s with shareTree := tree }

/-- Clocks grow: a row that changes its content state has a clock after the old one. -/
def ClocksGrow (s : SyncServer) (e : RowEvent) : Prop :=
  ∀ path old new, Moves s (rowStep blake3 s e) path old new →
    new.vectorClock.compare old.vectorClock = .after

/-- How the clock of a row moves with its content, for each writer. Of an upload over a row whose clock
counts already, this says nothing. -/
def ClockMoves (old new : FileRow) : RowEvent → Prop
  | .upload _ => CountsNothing old.vectorClock →
      new.vectorClock.compare old.vectorClock = .after
  | .indexUpsert _ _ => new.deleted = false ∧ new.vectorClock = .new ∧
      (CountsNothing old.vectorClock → new.vectorClock.compare old.vectorClock = .equal) ∧
      (¬ CountsNothing old.vectorClock → new.vectorClock.compare old.vectorClock = .before)
  | .indexTombstone _ _ => new.deleted = true ∧ new.vectorClock = old.vectorClock ∧
      new.vectorClock.compare old.vectorClock = .equal
  | .exchange _ => new.deleted = true ∧ new.vectorClock = old.vectorClock ∧
      new.vectorClock.compare old.vectorClock = .equal
  | .disk _ => False

variable {blake3}

/-! ## What each writer leaves -/

/-- A row that is found on disk is live and its clock is empty. -/
theorem upsertLocalFile_clock (s : SyncServer) (rel : Path) (stat : FileStat) :
    RowsWritten (fun _ row => row.deleted = false ∧ row.vectorClock = .new) s
      (upsertLocalFile blake3 s rel stat) := by
  unfold upsertLocalFile
  split
  · exact RowsWritten.refl s
  split_ifs
  · exact RowsWritten.refl s
  · exact RowsWritten.of_insert rfl ⟨rfl, rfl⟩ rfl

/-- A tombstone of the share index keeps the clock of the row, if there is one. -/
theorem tombstoneLocalFile_clock (s : SyncServer) (rel : Path) (now : ℤ) :
    RowsWritten (fun path row => row.deleted = true ∧
        row.vectorClock = ((s.db.files.lookup path).map FileRow.vectorClock).getD .new) s
      (tombstoneLocalFile s rel now) := by
  unfold tombstoneLocalFile
  split_ifs
  · exact RowsWritten.refl s
  split
  · rename_i row hrow
    obtain ⟨r, hr, rfl⟩ := Option.map_eq_some_iff.mp hrow
    refine RowsWritten.of_insert rfl ⟨rfl, ?_⟩ rfl
    show r.vectorClock = ((s.db.files.lookup rel).map FileRow.vectorClock).getD .new
    rw [hr]
    rfl
  · rename_i hrow
    refine RowsWritten.of_insert rfl ⟨rfl, ?_⟩ rfl
    show VectorClock.new = ((s.db.files.lookup rel).map FileRow.vectorClock).getD .new
    rw [Option.map_eq_none_iff.mp hrow]
    rfl

/-- An exchange keeps the clocks. -/
theorem exchangeDb_clock {vaultId : String} {db : MetaDb} {call : ExchangeCall} {path : Path}
    {new : FileRow} (hnew : (exchangeDb vaultId db call).files.lookup path = some new) :
    ∃ old, db.files.lookup path = some old ∧ new.vectorClock = old.vectorClock ∧
      new.contentHash = old.contentHash ∧ (new.deleted = old.deleted ∨ new.deleted = true) := by
  rw [lookup_exchangeDb_files] at hnew
  split_ifs at hnew
  · obtain ⟨old, hold, rfl⟩ := Option.map_eq_some_iff.mp hnew
    exact ⟨old, hold, rfl, rfl, Or.inr rfl⟩
  · exact ⟨new, hnew, rfl, rfl, Or.inl rfl⟩

/-- The rows after an upload that may have been refused. -/
theorem rowStep_upload_rows (s : SyncServer) (c : UploadCall) :
    RowsWritten (UploadedRow blake3 s.serverNodeId c) s (rowStep blake3 s (.upload c)) := by
  show RowsWritten _ s ((deltaUpload blake3 s c).toOption.getD s)
  cases hup : deltaUpload blake3 s c with
  | error e => exact RowsWritten.refl s
  | ok s' => exact deltaUpload_rows blake3 hup

/-- A row that moves is one that was written. -/
theorem of_moves {P : Path → FileRow → Prop} {s s' : SyncServer} {path : Path}
    {old new : FileRow} (h : RowsWritten P s s') (hmove : Moves s s' path old new) : P path new := by
  rcases h.rows path with hsame | ⟨row, hrow, hP⟩
  · rw [hmove.before, hmove.after] at hsame
    cases hsame
    exact absurd rfl hmove.differs
  · rw [hmove.after] at hrow
    cases hrow
    exact hP

/-- **One step and the clocks.** -/
theorem clockMoves_step (s : SyncServer) (e : RowEvent) {path : Path} {old new : FileRow}
    (hmove : Moves s (rowStep blake3 s e) path old new) : ClockMoves old new e := by
  cases e with
  | upload c =>
      obtain ⟨-, -, -, hclock⟩ := of_moves (rowStep_upload_rows s c) hmove
      intro hzero
      rw [hclock]
      exact VectorClock.compare_advance_of_zero s.serverNodeId hzero
  | indexUpsert rel stat =>
      obtain ⟨hlive, hclock⟩ := of_moves (upsertLocalFile_clock s rel stat) hmove
      rw [ClockMoves, hclock]
      exact ⟨hlive, rfl, VectorClock.compare_new_of_zero, VectorClock.compare_new_of_not_zero⟩
  | indexTombstone rel now =>
      obtain ⟨hdeleted, hclock⟩ := of_moves (tombstoneLocalFile_clock s rel now) hmove
      have hkept : new.vectorClock = old.vectorClock := by
        rw [hclock, hmove.before]
        rfl
      refine ⟨hdeleted, hkept, ?_⟩
      rw [hkept]
      exact VectorClock.compare_self _
  | exchange call =>
      obtain ⟨row, hrow, hclock, hhash, hdeleted⟩ := exchangeDb_clock hmove.after
      cases hmove.before.symm.trans hrow
      refine ⟨?_, hclock, ?_⟩
      · rcases hdeleted with hsame | hdeleted
        · exact absurd (by rw [contentState, contentState, hhash, hsame]) hmove.differs
        · exact hdeleted
      · rw [hclock]
        exact VectorClock.compare_self _
  | disk tree =>
      cases hmove.before.symm.trans hmove.after
      exact hmove.differs rfl

end

/-- **The clocks along a run.** Whatever the order of the writers on a path: a tombstone, of a client or
of the share index, keeps the clock of the row; a file that the share index finds gets the empty clock,
which is not after the old one; and an upload over a row that counts nothing gets a clock after it. -/
theorem rowClocks (blake3 : Bytes → Digest) (s : SyncServer) (events : List RowEvent) :
    Trace.Always (rowStep blake3)
      (fun _ s e => ∀ path old new, Moves s (rowStep blake3 s e) path old new → ClockMoves old new e)
      s events := by
  intro pre e post _ path old new hmove
  exact clockMoves_step _ e hmove

/-! ## A deletion without a tick -/

/-- An upload of a one-byte file in one chunk. -/
def smallUpload (path : Path) (byte : UInt8) : UploadCall where
  nodeId := "laptop"
  role := none
  includes := []
  stream := [⟨path, [], [⟨[byte], []⟩]⟩]
  quotaOk := true
  retention := ⟨10, 1000⟩
  mtimeNs := 1
  now := 100

/-- An exchange of the laptop. -/
def smallExchange (files : List FileMetadata) : ExchangeCall := ⟨"laptop", none, [], files, 200⟩

/-- A file is uploaded, is known to be on both sides, and is gone from the snapshot. -/
def deleteByExchange : List RowEvent :=
  [.upload (smallUpload ["f"] 97), .exchange (smallExchange [sampleFile ["f"] [97]]),
    .exchange (smallExchange [])]

/-- The row of the uploaded file. -/
def liveRow : FileRow :=
  fileRowOfMeta (uploadedMeta "server" ["f"] (sampleBlake3 [97]) 1 1) (some 1) (some 0)

/-- **A deletion keeps the clock.** The row of the deleted file turns into a tombstone under the clock
of the live row. -/
theorem deletion_keeps_clock :
    ¬ Trace.Always (rowStep sampleBlake3) (fun _ s e => ClocksGrow sampleBlake3 s e)
      emptyWorld.server deleteByExchange := by
  intro h
  have hlast := h [.upload (smallUpload ["f"] 97), .exchange (smallExchange [sampleFile ["f"] [97]])]
    (.exchange (smallExchange [])) [] rfl
  have hmove := hlast ["f"] liveRow { liveRow with deleted := true, deletedAt := some 200 }
    ⟨by decide +kernel, by decide +kernel, by decide⟩
  exact absurd hmove (by decide +kernel)

end DiskArcana.System
