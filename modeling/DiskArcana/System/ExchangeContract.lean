import DiskArcana.System.Mesh

/-!
# What an answer promises, and what a role forbids

Three contracts of `exchange_state`:

* every entry of `to_download` names the content that the server holds. It does not: an upload
  action carries the *remote* entry, so a caller that reported a path itself gets its own entry
  back (`downloadsNameServerContent_iff`);
* a receive-only caller leaves the rows alone. It does not: the tombstones of delete-local actions
  are written whatever the role (`receiveOnlyKeepsRows_iff`);
* a caller with a selective-sync list neither sees nor touches a path outside it. It does: conflicts
  are reported, and rows tombstoned, before the list is looked at (`selectiveSyncAirtight_iff`).
-/

namespace DiskArcana.System

open DiskArcana.Core DiskArcana.Lib DiskArcana.Server

/-! ## The download list -/

/-- The entry has the content hash and the size of the live row at its path. -/
def NamesServerContent (db : MetaDb) (m : FileMetadata) : Prop :=
  ∃ row, db.files.lookup m.path = some row ∧ row.deleted = false ∧
    m.contentHash = row.contentHash.toList ∧ m.size = row.size

/-- The server is ahead of an entry that the caller reports: the entry is a tombstone, and the
baseline is not the row; or row and entry are live over a live baseline from which the row departed,
while the entry did not, or is a third content with an older clock. -/
def ServerAhead (row entry : FileMeta) (base : Option FileMeta) : Prop :=
  (entry.deleted = true ∧ liveHash base ≠ some row.contentHash) ∨
    (entry.deleted = false ∧ ∃ b, base = some b ∧ b.deleted = false ∧
      row.contentHash ≠ b.contentHash ∧
      (entry.contentHash = b.contentHash ∨
        (entry.contentHash ≠ row.contentHash ∧
          row.vectorClock.compare entry.vectorClock = .after)))

/-- The caller reports an entry of its own, with another hash or size, at a live row that is ahead
of it. -/
def Eclipsed (db : MetaDb) (call : ExchangeCall) (path : Path) : Prop :=
  ∃ row entry, serverAt db path = some row ∧ row.deleted = false ∧
    clientAt call.files path = some entry ∧
    (entry.contentHash ≠ row.contentHash ∨ entry.size ≠ row.size) ∧
    ServerAhead row entry (baseAt db call.nodeId path)

/-- A live row is handed out for download over a reported entry exactly when it is ahead of it. -/
theorem verdict_upload_iff_serverAhead {row entry : FileMeta} {base : Option FileMeta}
    (hrow : row.deleted = false) :
    (verdict (some row) (some entry) base).1 = .upload ↔ ServerAhead row entry base := by
  unfold ServerAhead
  rcases hentry : entry.deleted with _ | _ <;>
    rcases side_cases base with rfl | ⟨b, rfl, hb⟩ | ⟨b, rfl, hb⟩ <;>
    simp only [verdict, side, hashesEq, liveHash, clockCompare, *, beq_iff_eq]
  all_goals grind

/-- The row behind an entry of the server. -/
theorem exists_row_of_serverAt {db : MetaDb} {path : Path} {m : FileMeta}
    (h : serverAt db path = some m) :
    ∃ row, db.files.lookup path = some row ∧ m = rowToMeta path row := by
  unfold serverAt visible at h
  split_ifs at h
  obtain ⟨row, hrow, rfl⟩ := Option.map_eq_some_iff.mp h
  exact ⟨row, hrow, rfl⟩

/-- The server's own entry names the server's content. -/
theorem namesServerContent_of_serverAt {db : MetaDb} {path : Path} {m : FileMeta}
    (h : serverAt db path = some m) (hlive : m.deleted = false) :
    NamesServerContent db (fileMetaToProto m) := by
  obtain ⟨row, hrow, rfl⟩ := exists_row_of_serverAt h
  exact ⟨row, hrow, hlive, rfl, rfl⟩

/-- An entry names the server's content exactly when it agrees with the row. -/
theorem namesServerContent_iff {db : MetaDb} {path : Path} {m entry : FileMeta}
    (h : serverAt db path = some m) (hlive : m.deleted = false) (hp : entry.path = path) :
    NamesServerContent db (fileMetaToProto entry) ↔
      entry.contentHash = m.contentHash ∧ entry.size = m.size := by
  obtain ⟨row, hrow, rfl⟩ := exists_row_of_serverAt h
  subst hp
  constructor
  · rintro ⟨row', hrow', -, hhash, hsize⟩
    rw [fileMetaToProto_path, hrow] at hrow'
    cases hrow'
    exact ⟨List.Vector.toList_injective hhash, hsize⟩
  · rintro ⟨hhash, hsize⟩
    exact ⟨row, hrow, hlive, congrArg List.Vector.toList hhash, hsize⟩

/-- What is handed out for download, when the caller's own entries are in front of no row. -/
theorem namesServerContent_of_downloadEntry {db : MetaDb} {call : ExchangeCall} {path : Path}
    {f : FileMeta} (hne : ¬ Eclipsed db call path) (h : downloadEntry db call path = some f) :
    NamesServerContent db (fileMetaToProto f) := by
  unfold downloadEntry at h
  have hconflict : ∀ hv : (exchangeVerdict db call path).1 = .conflictFork ∨
      (exchangeVerdict db call path).1 = .conflictMerge, serverAt db path = some f →
      NamesServerContent db (fileMetaToProto f) := by
    intro hv hf
    obtain ⟨-, hlive, -, -⟩ := of_verdict_conflict hv
    obtain ⟨m, hm, hd⟩ := side_eq_live_iff.mp hlive
    rw [hf] at hm
    cases hm
    exact namesServerContent_of_serverAt hf hd
  split at h
  · rename_i hv
    obtain ⟨row, hrow, hlive⟩ := side_eq_live_iff.mp (of_verdict_upload hv)
    rcases hc : clientAt call.files path with _ | entry
    · rw [hc] at h
      rw [Option.none_or, hrow] at h
      cases h
      exact namesServerContent_of_serverAt hrow hlive
    · rw [hc, Option.some_or] at h
      cases h
      have hahead : ServerAhead row f (baseAt db call.nodeId path) := by
        unfold exchangeVerdict at hv
        rw [hrow, hc] at hv
        exact (verdict_upload_iff_serverAhead hlive).mp hv
      rw [namesServerContent_iff hrow hlive (of_clientAt hc).1]
      by_contra hdiff
      rw [not_and_or] at hdiff
      exact hne ⟨row, f, hrow, hlive, hc, hdiff, hahead⟩
  · rename_i hv
    split_ifs at h
    exact hconflict (Or.inl hv) h
  · rename_i hv
    split_ifs at h
    exact hconflict (Or.inr hv) h
  · cases h

/-- An entry of the caller that is in front of a row is handed out instead of the row. -/
theorem Eclipsed.downloadEntry {db : MetaDb} {call : ExchangeCall} {path : Path}
    (h : Eclipsed db call path) :
    ∃ row entry, serverAt db path = some row ∧ row.deleted = false ∧ entry.path = path ∧
      downloadEntry db call path = some entry ∧
      (entry.contentHash ≠ row.contentHash ∨ entry.size ≠ row.size) := by
  obtain ⟨row, entry, hrow, hlive, hc, hdiff, hahead⟩ := h
  have hv : (exchangeVerdict db call path).1 = .upload := by
    unfold exchangeVerdict
    rw [hrow, hc]
    exact (verdict_upload_iff_serverAhead hlive).mpr hahead
  refine ⟨row, entry, hrow, hlive, (of_clientAt hc).1, ?_, hdiff⟩
  unfold Server.downloadEntry
  rw [hv, hc]
  rfl

/-- **The download list names the server's content exactly when no entry of the caller is in front
of a row.** An exchange always answers, and every entry of its `to_download` has the hash and the
size of the live row at its path if and only if the caller reports no entry of its own, with
another hash or size, at an included path whose live row is ahead of it.
Source: `services/sync.rs`, `exchange_state` -/
theorem downloadsNameServerContent_iff (vaultId : String) (db : MetaDb) (call : ExchangeCall) :
    ∃ response db', exchangeState vaultId db call = .ok (response, db') ∧
      ((∀ m ∈ response.toDownload, NamesServerContent db m) ↔
        ∀ path, pathMatchesIncludes (pathString path) call.includes = true →
          ¬ Eclipsed db call path) := by
  refine ⟨_, _, exchangeState_eq vaultId db call, ?_⟩
  constructor
  · intro hall path hinc hecl
    obtain ⟨row, entry, hrow, hlive, hp, hentry, hdiff⟩ := hecl.downloadEntry
    have hmem : fileMetaToProto entry ∈ (exchangeResponse vaultId db call).toDownload := by
      refine mem_toDownload.mpr ⟨?_, entry, ?_, rfl⟩
      · rw [fileMetaToProto_path, hp]
        exact hinc
      · rw [fileMetaToProto_path, hp]
        exact hentry
    obtain ⟨hhash, hsize⟩ := (namesServerContent_iff hrow hlive hp).mp (hall _ hmem)
    rcases hdiff with hdiff | hdiff
    · exact hdiff hhash
    · exact hdiff hsize
  · intro hnone m hm
    obtain ⟨hinc, f, hf, rfl⟩ := mem_toDownload.mp hm
    exact namesServerContent_of_downloadEntry (hnone _ hinc) hf

/-- A server that holds the second revision of a file, and remembers that `b2` holds the first. -/
def revisedDb : MetaDb where
  tenantId := none
  files := (∅ : PathMap FileRow).insert ["f"]
    { contentHash := sampleBlake3 [98], size := 1, mtimeNs := 1, inode := none,
      vectorClock := VectorClock.new.advance "server", deleted := false, deletedAt := none,
      encryptionNonce := none, versionId := some 2, parentVersionId := some 1 }
  nodeBaselines := (∅ : Table (NodeId × Path) BaselineRow).insert ("b2", ["f"])
    { contentHash := sampleBlake3 [97], size := 1, mtimeNs := 1,
      vectorClock := VectorClock.new.advance "server", deleted := false, deletedAt := none,
      nodeIdWriter := "server" }
  fileVersions := []
  conflicts := []

/-- The exchange of `b2` with the files it holds. -/
def revisedCall (role : Option EnforcedRole) (files : List FileMetadata) : ExchangeCall :=
  { nodeId := "b2", role := role, includes := [], files := files, now := 100 }

/-- **A node that holds the first revision is sent its own entry**: the answer lists the file for
download with the hash of the revision the node already has. -/
theorem revised_file_offered_with_old_hash :
    ∃ response db', exchangeState "vault" revisedDb (revisedCall none [sampleFile ["f"] [97]]) =
        .ok (response, db') ∧
      ∃ m ∈ response.toDownload, m.contentHash = (sampleBlake3 [97]).toList ∧
        ¬ NamesServerContent revisedDb m := by
  refine ⟨_, _, exchangeState_eq _ _ _, sampleFile ["f"] [97], by decide +kernel, rfl, ?_⟩
  rintro ⟨row, hrow, -, hhash, -⟩
  have hfound : revisedDb.files.lookup ["f"] = some row := hrow
  cases hfound
  exact absurd hhash (by decide)

/-! ## Receive-only callers -/

/-- A row that is tombstoned is changed. -/
theorem lookup_exchangeDb_ne_of_tombstones {vaultId : String} {db : MetaDb} {call : ExchangeCall}
    {path : Path} (ht : Tombstones db call path) :
    (exchangeDb vaultId db call).files.lookup path ≠ db.files.lookup path := by
  intro hrow
  rw [lookup_exchangeDb_files, if_pos ht] at hrow
  obtain ⟨m, hm, hlive⟩ := side_eq_live_iff.mp ht.1
  obtain ⟨row, hlookup, rfl⟩ := exists_row_of_serverAt hm
  rw [hlookup, Option.map_some, Option.some.injEq] at hrow
  have hdeleted : row.deleted = true := by rw [← hrow]
  have hlive' : row.deleted = false := hlive
  rw [hlive'] at hdeleted
  cases hdeleted

/-- **A receive-only caller leaves the rows alone exactly when it reports what it is believed to
hold.** The exchange of a receive-only caller keeps every row if and only if the caller reports
live every path whose live row has the content of the caller's live baseline.
Source: `services/sync.rs`, `exchange_state` -/
theorem receiveOnlyKeepsRows_iff (vaultId : String) (db : MetaDb) (call : ExchangeCall)
    (hrole : call.role = some .receiveOnly) :
    ∃ response db', exchangeState vaultId db call = .ok (response, db') ∧ response.toUpload = [] ∧
      ((∀ path, db'.files.lookup path = db.files.lookup path) ↔
        ∀ path content, liveHash (serverAt db path) = some content →
          liveHash (baseAt db call.nodeId path) = some content →
            side (clientAt call.files path) = .live) := by
  refine ⟨_, _, exchangeState_eq vaultId db call, ?_, ?_⟩
  · rw [List.eq_nil_iff_forall_not_mem]
    intro m hm
    exact (mem_toUpload.mp hm).1 hrole
  constructor
  · intro hkeep path content hs hb
    by_contra hc
    have ht : Tombstones db call path := tombstones_iff.mpr ⟨hc, content, hs, hb⟩
    exact lookup_exchangeDb_ne_of_tombstones ht (hkeep path)
  · intro hlive path
    rw [lookup_exchangeDb_files, if_neg]
    intro ht
    obtain ⟨hc, content, hs, hb⟩ := tombstones_iff.mp ht
    exact hc (hlive path content hs hb)

/-- The equivalence at a caller that reports nothing to a server without baselines. -/
theorem receiveOnlyKeepsRows_new_node :
    (revisedCall (some .receiveOnly) []).role = some .receiveOnly ∧
      ∃ response db', exchangeState "vault" { revisedDb with nodeBaselines := ∅ }
          (revisedCall (some .receiveOnly) []) = .ok (response, db') ∧ response.toUpload = [] ∧
        ((∀ path, db'.files.lookup path = revisedDb.files.lookup path) ↔
          ∀ path content, liveHash (serverAt { revisedDb with nodeBaselines := ∅ } path) =
              some content →
            liveHash (baseAt { revisedDb with nodeBaselines := ∅ } "b2" path) = some content →
              side (clientAt [] path) = .live) :=
  ⟨rfl, receiveOnlyKeepsRows_iff "vault" { revisedDb with nodeBaselines := ∅ }
    (revisedCall (some .receiveOnly) []) rfl⟩

/-- A server whose receive-only node `b2` holds the current revision of a file. -/
def followedDb : MetaDb :=
  { revisedDb with
    nodeBaselines := (∅ : Table (NodeId × Path) BaselineRow).insert ("b2", ["f"])
      { contentHash := sampleBlake3 [98], size := 1, mtimeNs := 1,
        vectorClock := VectorClock.new.advance "server", deleted := false, deletedAt := none,
        nodeIdWriter := "server" } }

/-- **A receive-only node deletes a file for everyone**: it removes its copy, and its next exchange
turns the server's row into a tombstone. -/
theorem receive_only_node_tombstones_row :
    ∃ response db', exchangeState "vault" followedDb (revisedCall (some .receiveOnly) []) =
        .ok (response, db') ∧
      (followedDb.files.lookup ["f"]).map FileRow.deleted = some false ∧
      (db'.files.lookup ["f"]).map FileRow.deleted = some true :=
  ⟨_, _, exchangeState_eq _ _ _, by decide +kernel, by decide +kernel⟩

/-! ## Selective sync -/

/-- A row and an entry of the caller are two contents that nothing orders: neither has the content of
the other, and there is no baseline, or a live one from which both departed, with clocks of which
neither is ahead. -/
def Diverges (row entry : FileMeta) (base : Option FileMeta) : Prop :=
  entry.deleted = false ∧ row.contentHash ≠ entry.contentHash ∧
    (base = none ∨ ∃ b, base = some b ∧ b.deleted = false ∧ row.contentHash ≠ b.contentHash ∧
      entry.contentHash ≠ b.contentHash ∧ row.vectorClock.compare entry.vectorClock ≠ .before ∧
      row.vectorClock.compare entry.vectorClock ≠ .after)

/-- A live row and an entry are a conflict exactly when they diverge. -/
theorem verdict_conflictFork_iff_diverges {row entry : FileMeta} {base : Option FileMeta}
    (hrow : row.deleted = false) :
    (verdict (some row) (some entry) base).1 = .conflictFork ↔ Diverges row entry base := by
  unfold Diverges
  rcases hentry : entry.deleted with _ | _ <;>
    rcases side_cases base with rfl | ⟨b, rfl, hb⟩ | ⟨b, rfl, hb⟩ <;>
    simp only [verdict, side, hashesEq, clockCompare, *, beq_iff_eq]
  all_goals grind

/-- What the caller reports of a path, and what is stored of it, makes no conflict and no deletion. -/
structure Untouched (db : MetaDb) (call : ExchangeCall) (path : Path) : Prop where
  agreed : call.role ≠ some .receiveOnly → ∀ row entry, serverAt db path = some row →
    row.deleted = false → clientAt call.files path = some entry →
      ¬ Diverges row entry (baseAt db call.nodeId path)
  held : ∀ content, liveHash (serverAt db path) = some content →
    liveHash (baseAt db call.nodeId path) = some content → side (clientAt call.files path) = .live

/-- A path is untouched when the exchange neither reports a conflict nor writes a tombstone there. -/
theorem untouched_iff {db : MetaDb} {call : ExchangeCall} {path : Path} :
    Untouched db call path ↔ ¬ ReportsConflict db call path ∧ ¬ Tombstones db call path := by
  constructor
  · intro h
    refine ⟨?_, ?_⟩
    · rintro ⟨hrole, hv⟩
      obtain ⟨-, hl, hr, -⟩ := of_verdict_conflict (Or.inl hv)
      obtain ⟨row, hrow, hlive⟩ := side_eq_live_iff.mp hl
      obtain ⟨entry, hentry, -⟩ := side_eq_live_iff.mp hr
      apply h.agreed hrole row entry hrow hlive hentry
      unfold exchangeVerdict at hv
      rw [hrow, hentry] at hv
      exact (verdict_conflictFork_iff_diverges hlive).mp hv
    · intro ht
      obtain ⟨hc, content, hs, hb⟩ := tombstones_iff.mp ht
      exact hc (h.held content hs hb)
  · rintro ⟨hconflict, htomb⟩
    refine ⟨?_, ?_⟩
    · intro hrole row entry hrow hlive hentry hdiv
      refine hconflict ⟨hrole, ?_⟩
      unfold exchangeVerdict
      rw [hrow, hentry]
      exact (verdict_conflictFork_iff_diverges hlive).mpr hdiv
    · intro content hs hb
      by_contra hc
      exact htomb (tombstones_iff.mpr ⟨hc, content, hs, hb⟩)

/-- Every list of an answer keeps to the caller's selective-sync list, and so do the rows that the
exchange changes. -/
structure Airtight (db : MetaDb) (call : ExchangeCall) (response : SyncStateResponse)
    (db' : MetaDb) : Prop where
  toUpload : ∀ m ∈ response.toUpload, Included call m.path
  toDownload : ∀ m ∈ response.toDownload, Included call m.path
  toDelete : ∀ m ∈ response.toDelete, Included call m.path
  conflicts : ∀ c ∈ response.conflicts, Included call c.path
  rows : ∀ path, ¬ Included call path → db'.files.lookup path = db.files.lookup path

/-- **Selective sync is airtight exactly when nothing outside the list is touched.** The three work
lists always keep to the caller's list; conflicts and rows do if and only if, at every path outside
it, the caller's entry does not diverge from a live row (unless the caller is receive-only), and a
live row with the content of the caller's live baseline is reported live.
Source: `services/sync.rs`, `exchange_state` and `filter_proto_paths` -/
theorem selectiveSyncAirtight_iff (vaultId : String) (db : MetaDb) (call : ExchangeCall) :
    ∃ response db', exchangeState vaultId db call = .ok (response, db') ∧
      (Airtight db call response db' ↔
        ∀ path, ¬ Included call path → Untouched db call path) := by
  refine ⟨_, _, exchangeState_eq vaultId db call, ?_⟩
  constructor
  · intro h path hout
    rw [untouched_iff]
    refine ⟨?_, ?_⟩
    · intro hconflict
      obtain ⟨c, hc, hpath⟩ := (@exists_mem_conflicts vaultId _ _ _).mpr hconflict
      have hin := h.conflicts c hc
      rw [hpath] at hin
      exact hout hin
    · intro ht
      exact lookup_exchangeDb_ne_of_tombstones ht (h.rows path hout)
  · intro h
    refine ⟨?_, ?_, ?_, ?_, ?_⟩
    · exact fun m hm => (mem_toUpload.mp hm).2.1
    · exact fun m hm => (mem_toDownload.mp hm).1
    · exact fun m hm => (listed_toDelete.mp ⟨m, hm, rfl⟩).1
    · intro c hc
      by_contra hout
      have hconflict := exists_mem_conflicts.mp ⟨c, hc, rfl⟩
      exact (untouched_iff.mp (h c.path hout)).1 hconflict
    · intro path hout
      rw [lookup_exchangeDb_files, if_neg (untouched_iff.mp (h path hout)).2]

/-- **A node that syncs one folder deletes what lies outside it**: the row of a file that the node
does not hold, and by its list never will, becomes a tombstone. -/
theorem selective_node_tombstones_row :
    ∃ response db', exchangeState "vault" followedDb
        { revisedCall none [] with includes := ["docs"] } = .ok (response, db') ∧
      ¬ Airtight followedDb { revisedCall none [] with includes := ["docs"] } response db' := by
  refine ⟨_, _, exchangeState_eq _ _ _, fun h => ?_⟩
  have hrow := h.rows ["f"] (by unfold Included; decide +kernel)
  exact absurd (congrArg (fun o => Option.map FileRow.deleted o) hrow) (by decide +kernel)

end DiskArcana.System
