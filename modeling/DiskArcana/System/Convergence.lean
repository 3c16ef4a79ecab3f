import DiskArcana.System.ExchangeContract

/-!
# Convergence

One exchange without conflicts, all of whose work is then done, leaves a path with the same live
content on both sides, and the next exchange has no work for it (`converges_where_takesPart`). This
holds at the paths that take part: within the caller's includes, not waiting for an upload that a
receive-only caller may not make, not recovered over a tombstone baseline, and not handed out for
download under the caller's own entry.

The work is described by its effect on entries (`Applied`): whoever does it, an entry of a list that
is done leaves its content on the other side.
-/

namespace DiskArcana.System

open DiskArcana.Core DiskArcana.Lib DiskArcana.Server

/-! ## Cells that need no work -/

/-- The cells that ask for nothing. -/
theorem verdict_skip_cases {l r i : Option FileMeta} (h : (verdict l r i).1 = .skip) :
    (side l = .live ∧ side r = .live ∧ liveHash l = liveHash r) ∨
      (side l = .live ∧ r = none ∧ side i = .tomb ∧ hashesEq l i = true) ∨
      (l = none ∧ r = none) ∨ (side l = .tomb ∧ side r = .tomb) ∨
      (side l = .tomb ∧ r = none ∧ side i = .tomb) := by
  by_cases hlive : side l = .live ∧ side r = .live
  · refine Or.inl ⟨hlive.1, hlive.2, ?_⟩
    rw [← hashesEq_eq_true_iff_of_live hlive.1 hlive.2]
    by_contra hne
    rw [Bool.not_eq_true] at hne
    exact verdict_ne_skip hlive.1 hlive.2 hne h
  · revert h
    rcases side_cases l with rfl | ⟨l, rfl, hl⟩ | ⟨l, rfl, hl⟩ <;>
      rcases side_cases r with rfl | ⟨r, rfl, hr⟩ | ⟨r, rfl, hr⟩ <;>
      rcases side_cases i with rfl | ⟨i, rfl, hi⟩ | ⟨i, rfl, hi⟩ <;>
      simp_all [verdict, side] <;> split_ifs <;> simp_all

/-- Two live sides with one content need nothing, whatever the base. -/
theorem verdict_skip_of_same {l r : Option FileMeta} (hl : side l = .live)
    (h : liveHash l = liveHash r) (i : Option FileMeta) : (verdict l r i).1 = .skip := by
  obtain ⟨ml, rfl, hml⟩ := side_eq_live_iff.mp hl
  have hr : liveHash r = some ml.contentHash := by
    rw [← h]
    simp [liveHash, hml]
  obtain ⟨mr, rfl, hmr, heq⟩ := liveHash_eq_some_iff.mp hr
  rcases side_cases i with rfl | ⟨i, rfl, hi⟩ | ⟨i, rfl, hi⟩ <;>
    simp only [verdict, side, hashesEq, *] <;> grind

/-- A tombstone that the other side says nothing about needs nothing over a tombstone. -/
theorem verdict_skip_of_tomb {l i : Option FileMeta} (hl : side l = .tomb) (hi : side i = .tomb) :
    (verdict l none i).1 = .skip := by
  unfold verdict
  rw [hl, hi]
  rfl

/-- An answer has nothing to do at a path. -/
structure Unlisted (r : SyncStateResponse) (path : Path) : Prop where
  upload : ¬ Listed r.toUpload path
  download : ¬ Listed r.toDownload path
  delete : ¬ Listed r.toDelete path
  conflict : ¬ ∃ c ∈ r.conflicts, c.path = path

/-- A path whose verdict is to skip is in no list. -/
theorem unlisted_of_skip {vaultId : String} {db : MetaDb} {call : ExchangeCall} {path : Path}
    (h : (exchangeVerdict db call path).1 = .skip) :
    Unlisted (exchangeResponse vaultId db call) path where
  upload := by
    rintro ⟨m, hm, rfl⟩
    obtain ⟨-, -, f, hf, -⟩ := mem_toUpload.mp hm
    unfold uploadEntry at hf
    rw [h] at hf
    cases hf
  download := by
    rintro ⟨m, hm, rfl⟩
    obtain ⟨-, f, hf, -⟩ := mem_toDownload.mp hm
    unfold downloadEntry at hf
    rw [h] at hf
    cases hf
  delete := by
    intro hl
    obtain ⟨-, hd⟩ := listed_toDelete.mp hl
    unfold Deletes at hd
    rw [h] at hd
    rcases hd with hd | hd <;> cases hd
  conflict := by
    intro hc
    have hv := (exists_mem_conflicts.mp hc).2
    rw [h] at hv
    cases hv

/-! ## Doing the work of an answer -/

/-- **All the work of an answer is done, and nothing else happens**: an uploaded entry has left a
live row with its content, a downloaded one a live file with its content, a deleted path no file;
every other row and file, and the baselines, are as the exchange left them. -/
structure Applied (vaultId : String) (db : MetaDb) (call : ExchangeCall) (db' : MetaDb)
    (files' : List FileMetadata) : Prop where
  uploaded : ∀ m ∈ (exchangeResponse vaultId db call).toUpload,
    liveHash (db'.getFileScoped m.path) = some (digestOfBytes m.contentHash)
  otherRows : ∀ path, ¬ Listed (exchangeResponse vaultId db call).toUpload path →
    db'.files.lookup path = (exchangeDb vaultId db call).files.lookup path
  baselines : db'.nodeBaselines = (exchangeDb vaultId db call).nodeBaselines
  downloaded : ∀ m ∈ (exchangeResponse vaultId db call).toDownload,
    liveHash (clientAt files' m.path) = some (digestOfBytes m.contentHash)
  deleted : ∀ path, Listed (exchangeResponse vaultId db call).toDelete path →
    clientAt files' path = none
  otherFiles : ∀ path, ¬ Listed (exchangeResponse vaultId db call).toDownload path →
    ¬ Listed (exchangeResponse vaultId db call).toDelete path →
      clientAt files' path = clientAt call.files path

/-- The path takes part in the exchange with both its sides. -/
structure TakesPart (db : MetaDb) (call : ExchangeCall) (path : Path) : Prop where
  /-- It is within the caller's selective-sync list. -/
  included : Included call path
  /-- A receive-only caller is not asked to upload it. -/
  mayUpload : call.role = some .receiveOnly → (exchangeVerdict db call path).1 ≠ .download
  /-- The row does not repeat the content of a tombstone baseline while the caller has no entry. -/
  notRecovered : ¬ (side (serverAt db path) = .live ∧ clientAt call.files path = none ∧
    side (baseAt db call.nodeId path) = .tomb ∧
    hashesEq (serverAt db path) (baseAt db call.nodeId path) = true)
  /-- An entry of the caller at a row that is handed out for download has the row's content. -/
  notEclipsed : ∀ row entry, serverAt db path = some row → clientAt call.files path = some entry →
    ServerAhead row entry (baseAt db call.nodeId path) → entry.contentHash = row.contentHash

section

variable {vaultId : String} {db db' : MetaDb} {call : ExchangeCall} {files' : List FileMetadata}
  {path : Path}

/-- The baseline after the work. -/
theorem Applied.baseAt_eq (h : Applied vaultId db call db' files') :
    baseAt db' call.nodeId path =
      ((nextBaseline db call path).map (asBaseline path)).or (baseAt db call.nodeId path) := by
  rw [← baseAt_exchangeDb vaultId]
  unfold baseAt visible MetaDb.baselineAt
  rw [h.baselines]

/-- The row after the work, where nothing is uploaded. -/
theorem Applied.serverAt_eq (h : Applied vaultId db call db' files')
    (hv : (exchangeVerdict db call path).1 ≠ .download) :
    serverAt db' path =
      if Tombstones db call path then (serverAt db path).map (tombstone call.now)
      else serverAt db path := by
  have hun : ¬ Listed (exchangeResponse vaultId db call).toUpload path := by
    rintro ⟨m, hm, rfl⟩
    obtain ⟨-, -, f, hf, -⟩ := mem_toUpload.mp hm
    unfold uploadEntry at hf
    rw [if_neg hv] at hf
    cases hf
  unfold serverAt visible MetaDb.getFileScoped
  rw [h.otherRows path hun, lookup_exchangeDb_files]
  by_cases ht : Tombstones db call path
  · rw [if_pos ht, if_pos ht]
    split_ifs
    · rw [Option.map_map, Option.map_map]
      rfl
    · rfl
  · rw [if_neg ht, if_neg ht]

/-- The row of an uploaded path. -/
theorem Applied.serverAt_of_download (h : Applied vaultId db call db' files')
    (hp : TakesPart db call path) (hv : (exchangeVerdict db call path).1 = .download) :
    ∃ entry, clientAt call.files path = some entry ∧ entry.deleted = false ∧
      liveHash (serverAt db' path) = some entry.contentHash := by
  obtain ⟨entry, hentry, hlive⟩ := side_eq_live_iff.mp (of_verdict_download hv)
  have hpath : entry.path = path := (of_clientAt hentry).1
  have hmem : fileMetaToProto entry ∈ (exchangeResponse vaultId db call).toUpload := by
    refine mem_toUpload.mpr ⟨fun hr => hp.mayUpload hr hv, ?_, entry, ?_, rfl⟩
    · rw [fileMetaToProto_path, hpath]
      exact hp.included
    · rw [fileMetaToProto_path, hpath]
      unfold uploadEntry
      rw [if_pos hv, hentry]
  refine ⟨entry, hentry, hlive, ?_⟩
  have hrow := h.uploaded _ hmem
  rw [fileMetaToProto_path, hpath] at hrow
  unfold serverAt visible
  rw [(of_clientAt hentry).2.1]
  simpa [fileMetaToProto] using hrow

/-- The file of a path that is handed out for download. -/
theorem Applied.clientAt_of_downloadEntry (h : Applied vaultId db call db' files')
    (hp : TakesPart db call path) {f : FileMeta} (hf : downloadEntry db call path = some f) :
    liveHash (clientAt files' path) = some f.contentHash := by
  have hpath : f.path = path := downloadEntry_path hf
  have hmem : fileMetaToProto f ∈ (exchangeResponse vaultId db call).toDownload := by
    refine mem_toDownload.mpr ⟨?_, f, ?_, rfl⟩
    · rw [fileMetaToProto_path, hpath]
      exact hp.included
    · rw [fileMetaToProto_path, hpath]
      exact hf
  have hfile := h.downloaded _ hmem
  rw [fileMetaToProto_path, hpath] at hfile
  simpa [fileMetaToProto] using hfile

/-- The file of a path that is neither downloaded nor deleted. -/
theorem Applied.clientAt_eq (h : Applied vaultId db call db' files')
    (hd : downloadEntry db call path = none) (hdel : ¬ Deletes db call path) :
    clientAt files' path = clientAt call.files path := by
  refine h.otherFiles path ?_ fun hl => hdel (listed_toDelete.mp hl).2
  rintro ⟨m, hm, rfl⟩
  obtain ⟨-, f, hf, -⟩ := mem_toDownload.mp hm
  rw [hd] at hf
  cases hf

/-- What is handed out for download at a path that takes part has the row's content. -/
theorem TakesPart.contentHash_downloadEntry (hp : TakesPart db call path)
    (hnc : ¬ ReportsConflict db call path)
    (hv : (exchangeVerdict db call path).1 = .upload ∨
      (exchangeVerdict db call path).1 = .conflictFork) :
    ∃ row f, serverAt db path = some row ∧ row.deleted = false ∧
      downloadEntry db call path = some f ∧ f.contentHash = row.contentHash := by
  rcases hv with hv | hv
  · obtain ⟨row, hrow, hlive⟩ := side_eq_live_iff.mp (of_verdict_upload hv)
    rcases hc : clientAt call.files path with _ | entry
    · refine ⟨row, row, hrow, hlive, ?_, rfl⟩
      unfold downloadEntry
      rw [hv, hc, hrow]
      rfl
    · refine ⟨row, entry, hrow, hlive, ?_, hp.notEclipsed row entry hrow hc ?_⟩
      · unfold downloadEntry
        rw [hv, hc]
        rfl
      · unfold exchangeVerdict at hv
        rw [hrow, hc] at hv
        exact (verdict_upload_iff_serverAhead hlive).mp hv
  · obtain ⟨-, hl, -, -⟩ := of_verdict_conflict (Or.inl hv)
    obtain ⟨row, hrow, hlive⟩ := side_eq_live_iff.mp hl
    have hrole : call.role = some .receiveOnly := by
      by_contra hr
      exact hnc ⟨hr, hv⟩
    refine ⟨row, row, hrow, hlive, ?_, rfl⟩
    unfold downloadEntry
    rw [hv, if_pos hrole]
    exact hrow

/-- Only delete-local verdicts tombstone a row. -/
theorem not_tombstones_of_ne (hv : (exchangeVerdict db call path).1 ≠ .deleteLocal) :
    ¬ Tombstones db call path := fun ht => hv ht.2

/-- The two sides of a path hold the same live content, and the next exchange will skip it. -/
def AtRest (server client base : Option FileMeta) : Prop :=
  liveHash client = liveHash server ∧ (verdict server client base).1 = .skip

/-- A path where both sides come to hold one live content. -/
theorem atRest_of_same {s c : Option FileMeta} {content : Digest} (hs : liveHash s = some content)
    (hc : liveHash c = some content) (base : Option FileMeta) : AtRest s c base :=
  ⟨hc.trans hs.symm,
    verdict_skip_of_same (side_eq_live_iff_liveHash.mpr ⟨content, hs⟩) (hs.trans hc.symm) base⟩

/-- A path whose row is handed out for download. -/
theorem Applied.atRest_of_served (h : Applied vaultId db call db' files')
    (hp : TakesPart db call path) (hnc : ¬ ReportsConflict db call path)
    (hv : (exchangeVerdict db call path).1 = .upload ∨
      (exchangeVerdict db call path).1 = .conflictFork) :
    AtRest (serverAt db' path) (clientAt files' path) (baseAt db' call.nodeId path) := by
  obtain ⟨row, f, hrow, hlive, hf, hhash⟩ := hp.contentHash_downloadEntry hnc hv
  have hkept : serverAt db' path = some row := by
    rw [h.serverAt_eq (by rcases hv with hv | hv <;> rw [hv] <;> decide),
      if_neg (not_tombstones_of_ne (by rcases hv with hv | hv <;> rw [hv] <;> decide)), hrow]
  have hcontent : liveHash (serverAt db' path) = some row.contentHash := by
    rw [hkept]
    simp [liveHash, hlive]
  apply atRest_of_same hcontent
  rw [h.clientAt_of_downloadEntry hp hf, hhash]

/-- A path that the caller uploads. -/
theorem Applied.atRest_of_download (h : Applied vaultId db call db' files')
    (hp : TakesPart db call path) (hv : (exchangeVerdict db call path).1 = .download) :
    AtRest (serverAt db' path) (clientAt files' path) (baseAt db' call.nodeId path) := by
  obtain ⟨entry, hentry, hlive, hrow⟩ := h.serverAt_of_download hp hv
  apply atRest_of_same hrow
  rw [h.clientAt_eq (by unfold downloadEntry; rw [hv]) (by unfold Deletes; rw [hv]; decide), hentry]
  simp [liveHash, hlive]

/-- A path that is left alone. -/
theorem Applied.atRest_of_skip (h : Applied vaultId db call db' files')
    (hp : TakesPart db call path) (hv : (exchangeVerdict db call path).1 = .skip) :
    AtRest (serverAt db' path) (clientAt files' path) (baseAt db' call.nodeId path) := by
  have hc : clientAt files' path = clientAt call.files path :=
    h.clientAt_eq (by unfold downloadEntry; rw [hv]) (by unfold Deletes; rw [hv]; decide)
  have hs : serverAt db' path = serverAt db path := by
    rw [h.serverAt_eq (by rw [hv]; decide), if_neg (not_tombstones_of_ne (by rw [hv]; decide))]
  have hnext : nextBaseline db call path = serverAt db path := by
    unfold nextBaseline
    rw [hv]
  rw [hc, hs, h.baseAt_eq, hnext]
  rcases verdict_skip_cases hv with ⟨hl, -, heq⟩ | ⟨hl, hr, hi, heq⟩ | ⟨hl, hr⟩ | ⟨hl, hr⟩ |
    ⟨hl, hr, hi⟩
  · exact ⟨heq.symm, verdict_skip_of_same hl heq _⟩
  · exact absurd ⟨hl, hr, hi, heq⟩ hp.notRecovered
  · rw [hl, hr]
    exact ⟨rfl, rfl⟩
  · refine ⟨?_, ?_⟩
    · rw [liveHash_eq_none_of_tomb hl, liveHash_eq_none_of_tomb hr]
    · unfold verdict
      rw [hl, hr]
  · rw [hr]
    refine ⟨(liveHash_eq_none_of_tomb hl).symm, verdict_skip_of_tomb hl ?_⟩
    obtain ⟨row, hrow, -⟩ := side_eq_tomb_iff.mp hl
    rw [hrow, Option.map_some, Option.some_or]
    rw [hrow] at hl
    exact hl

/-- A path that is deleted on both sides: no live row is left, and the baseline of the caller is a
tombstone. -/
theorem Applied.atRest_of_deletes (h : Applied vaultId db call db' files')
    (hp : TakesPart db call path) (hd : Deletes db call path) :
    AtRest (serverAt db' path) (clientAt files' path) (baseAt db' call.nodeId path) := by
  rw [h.deleted path (listed_toDelete.mpr ⟨hp.included, hd⟩), h.baseAt_eq]
  have hnext : nextBaseline db call path = (serverAt db path).map (tombstone call.now) := by
    unfold nextBaseline
    rcases hd with hv | hv <;> rw [hv]
  rw [hnext]
  rcases hd with hv | hv
  · rw [h.serverAt_eq (by rw [hv]; decide)]
    rcases verdict_deleteLocal_iff.mp hv with ⟨hl, -⟩ | ⟨hl, -⟩
    · rw [side_eq_absent_iff.mp hl]
      split_ifs <;> exact ⟨rfl, rfl⟩
    · obtain ⟨row, hrow, hlive⟩ := side_eq_live_iff.mp hl
      rw [if_pos ⟨hl, hv⟩, hrow]
      exact ⟨rfl, rfl⟩
  · rw [h.serverAt_eq (by rw [hv]; decide), if_neg (not_tombstones_of_ne (by rw [hv]; decide))]
    have hnl : side (serverAt db path) ≠ .live := by
      rcases verdict_deleteRemote_iff.mp hv with ⟨hl, -⟩ | ⟨hl, -⟩
      · rw [hl]
        decide
      · exact hl
    rcases side_cases (serverAt db path) with hnone | ⟨row, hrow, hd⟩ | ⟨row, hrow, hd⟩
    · rw [hnone]
      exact ⟨rfl, rfl⟩
    · rw [hrow]
      refine ⟨(liveHash_eq_none_of_tomb (side_some_of_tomb hd)).symm,
        verdict_skip_of_tomb (side_some_of_tomb hd) rfl⟩
    · rw [hrow, side_some_of_live hd] at hnl
      exact absurd rfl hnl

/-- **A path that takes part is settled by the work of its answer.** -/
theorem Applied.settled (h : Applied vaultId db call db' files') (hp : TakesPart db call path)
    (hnc : ¬ ReportsConflict db call path) :
    AtRest (serverAt db' path) (clientAt files' path) (baseAt db' call.nodeId path) := by
  rcases hv : (exchangeVerdict db call path).1 with _ | _ | _ | _ | _ | _ | _ | _ | _
  case upload => exact h.atRest_of_served hp hnc (Or.inl hv)
  case conflictFork => exact h.atRest_of_served hp hnc (Or.inr hv)
  case conflictMerge =>
    have hfork := (of_verdict_conflict (Or.inr hv)).1
    exact h.atRest_of_served hp hnc (Or.inr hfork)
  case renameRemote => exact absurd hv (verdict_ne_rename _ _ _).2
  case renameLocal => exact absurd hv (verdict_ne_rename _ _ _).1
  case download => exact h.atRest_of_download hp hv
  case skip => exact h.atRest_of_skip hp hv
  case deleteLocal => exact h.atRest_of_deletes hp (Or.inl hv)
  case deleteRemote => exact h.atRest_of_deletes hp (Or.inr hv)

/-- The next exchange has no work at a path that takes part. -/
theorem Applied.unlisted (h : Applied vaultId db call db' files') (hp : TakesPart db call path)
    (hnc : ¬ ReportsConflict db call path) (now' : Nat) :
    Unlisted (exchangeResponse vaultId db' { call with files := files', now := now' }) path :=
  unlisted_of_skip (h.settled hp hnc).2

/-- An answer that asks for no transfer and no deletion is done by doing nothing. -/
theorem Applied.of_idle (hu : (exchangeResponse vaultId db call).toUpload = [])
    (hd : (exchangeResponse vaultId db call).toDownload = [])
    (hx : (exchangeResponse vaultId db call).toDelete = []) :
    Applied vaultId db call (exchangeDb vaultId db call) call.files where
  uploaded := by
    rw [hu]
    exact fun m hm => absurd hm List.not_mem_nil
  otherRows := fun _ _ => rfl
  baselines := rfl
  downloaded := by
    rw [hd]
    exact fun m hm => absurd hm List.not_mem_nil
  deleted := by
    rw [hx]
    rintro path ⟨m, hm, -⟩
    exact absurd hm List.not_mem_nil
  otherFiles := fun _ _ _ => rfl

end

/-- An answer has nothing to do at all. -/
def Idle (r : SyncStateResponse) : Prop :=
  r.toUpload = [] ∧ r.toDownload = [] ∧ r.toDelete = [] ∧ r.conflicts = []

instance (r : SyncStateResponse) : Decidable (Idle r) :=
  inferInstanceAs (Decidable (_ ∧ _))

/-- An answer that lists no path is idle. -/
theorem idle_of_unlisted {r : SyncStateResponse} (h : ∀ path, Unlisted r path) : Idle r := by
  refine ⟨?_, ?_, ?_, ?_⟩ <;> rw [List.eq_nil_iff_forall_not_mem]
  · exact fun m hm => (h m.path).upload ⟨m, hm, rfl⟩
  · exact fun m hm => (h m.path).download ⟨m, hm, rfl⟩
  · exact fun m hm => (h m.path).delete ⟨m, hm, rfl⟩
  · exact fun c hc => (h c.path).conflict ⟨c, hc, rfl⟩

/-- An exchange without conflicts, once all its work is done, leaves both sides with the same live
content everywhere and the next exchange with nothing to do. -/
def Converges (vaultId : String) (db : MetaDb) (call : ExchangeCall) : Prop :=
  ∀ db' files' now', (exchangeResponse vaultId db call).conflicts = [] →
    Applied vaultId db call db' files' →
      (∀ path, liveHash (clientAt files' path) = liveHash (db'.getFileScoped path)) ∧
        Idle (exchangeResponse vaultId db' { call with files := files', now := now' })

/-- **The paths that take part converge.** When an exchange reports no conflict and all its work is
done, every path that takes part, sync markers aside, has the same live content on both sides; the
node's next exchange, whenever it comes, answers with nothing to do there; and it has nothing to do
at all when every path takes part.
Source: `services/sync.rs`, `exchange_state` and `build_post_sync_baseline` -/
theorem converges_where_takesPart (vaultId : String) (db db' : MetaDb) (call : ExchangeCall)
    (files' : List FileMetadata) (now' : Nat)
    (hnc : (exchangeResponse vaultId db call).conflicts = [])
    (h : Applied vaultId db call db' files') :
    (∀ path, TakesPart db call path → isSyncEphemeralMarker path = false →
      liveHash (clientAt files' path) = liveHash (db'.getFileScoped path)) ∧
    ∃ response db'', exchangeState vaultId db' { call with files := files', now := now' } =
        .ok (response, db'') ∧
      (∀ path, TakesPart db call path → Unlisted response path) ∧
      ((∀ path, TakesPart db call path) → Idle response) := by
  have hquiet : ∀ path, ¬ ReportsConflict db call path := by
    intro path hrep
    have hreported : ∃ c ∈ (exchangeResponse vaultId db call).conflicts, c.path = path :=
      exists_mem_conflicts.mpr hrep
    rw [hnc] at hreported
    obtain ⟨c, hc, -⟩ := hreported
    exact absurd hc List.not_mem_nil
  have hlists : ∀ path, TakesPart db call path →
      Unlisted (exchangeResponse vaultId db' { call with files := files', now := now' }) path :=
    fun path hp => h.unlisted hp (hquiet path) now'
  refine ⟨?_, _, _, exchangeState_eq _ _ _, hlists, ?_⟩
  · intro path hp hm
    have hsame := (h.settled hp (hquiet path)).1
    unfold serverAt visible at hsame
    rwa [hm] at hsame
  · exact fun hall => idle_of_unlisted fun path => hlists path (hall path)

/-- A server with one file that no node has exchanged yet. -/
def unseenDb : MetaDb := { revisedDb with nodeBaselines := ∅ }

/-- The work for a new node at that server: it fetches the file. -/
theorem applied_unseenDb :
    Applied "vault" unseenDb (revisedCall none []) (exchangeDb "vault" unseenDb (revisedCall none []))
      [sampleFile ["f"] [98]] where
  uploaded := by decide +kernel
  otherRows := fun _ _ => rfl
  baselines := rfl
  downloaded := by decide +kernel
  deleted := by
    rintro path ⟨m, hm, -⟩
    have hnone : (exchangeResponse "vault" unseenDb (revisedCall none [])).toDelete = [] := by
      decide +kernel
    rw [hnone] at hm
    exact absurd hm List.not_mem_nil
  otherFiles := by
    intro path hd _
    rcases hc : clientAt [sampleFile ["f"] [98]] path with _ | m
    · rfl
    · obtain ⟨rfl, -, f, hf, rfl⟩ := of_clientAt hc
      rw [List.mem_singleton.mp hf] at hd
      have hfetched : ∃ g ∈ (exchangeResponse "vault" unseenDb (revisedCall none [])).toDownload,
          g.path = ["f"] := by decide +kernel
      exact absurd hfetched hd

/-- The convergence at a node that fetches its first file. -/
theorem converges_where_takesPart_new_node :
    (exchangeResponse "vault" unseenDb (revisedCall none [])).conflicts = [] ∧
      Applied "vault" unseenDb (revisedCall none [])
        (exchangeDb "vault" unseenDb (revisedCall none [])) [sampleFile ["f"] [98]] ∧
      TakesPart unseenDb (revisedCall none []) ["f"] ∧
      liveHash (clientAt [sampleFile ["f"] [98]] ["f"]) =
        liveHash ((exchangeDb "vault" unseenDb (revisedCall none [])).getFileScoped ["f"]) := by
  have hpart : TakesPart unseenDb (revisedCall none []) ["f"] :=
    { included := by
        unfold Included
        decide +kernel
      mayUpload := by decide +kernel
      notRecovered := by decide +kernel
      notEclipsed := by
        intro row entry _ hentry
        have hnone : clientAt [] ["f"] = none := by decide +kernel
        exact absurd (hnone.symm.trans hentry) (by simp) }
  have hnc : (exchangeResponse "vault" unseenDb (revisedCall none [])).conflicts = [] := by
    decide +kernel
  exact ⟨hnc, applied_unseenDb, hpart,
    (converges_where_takesPart "vault" unseenDb _ _ _ 200 hnc applied_unseenDb).1 ["f"] hpart
      (by decide +kernel)⟩

/-- A server whose node `b2` deleted a file that was then uploaded again. -/
def recoveredDb : MetaDb :=
  { revisedDb with
    nodeBaselines := (∅ : Table (NodeId × Path) BaselineRow).insert ("b2", ["f"])
      { contentHash := sampleBlake3 [98], size := 1, mtimeNs := 1,
        vectorClock := VectorClock.new.advance "server", deleted := true, deletedAt := some 1,
        nodeIdWriter := "server" } }

/-- **Some paths stay apart.** By design, a receive-only node keeps a file of its own that it is not
asked to upload, and a node that syncs only `g` keeps a file `f` away from the server. Beyond that, a row
that repeats the content of a deleted file is taken for recovered: it is not sent, and the next exchange
deletes it. -/
theorem converges_exceptions :
    ¬ Converges "vault" { revisedDb with files := ∅, nodeBaselines := ∅ }
        (revisedCall (some .receiveOnly) [sampleFile ["f"] [97]]) ∧
      ¬ Converges "vault" { revisedDb with files := ∅, nodeBaselines := ∅ }
        { revisedCall none [sampleFile ["f"] [97]] with includes := ["g"] } ∧
      ¬ Converges "vault" recoveredDb (revisedCall none []) ∧
      ¬ Idle (exchangeResponse "vault" (exchangeDb "vault" recoveredDb (revisedCall none []))
        { revisedCall none [] with now := 200 }) := by
  refine ⟨?_, ?_, ?_, by decide +kernel⟩
  · intro h
    have hsame := (h _ _ 200 (by decide +kernel)
      (Applied.of_idle (by decide +kernel) (by decide +kernel) (by decide +kernel))).1 ["f"]
    exact absurd hsame (by decide +kernel)
  · intro h
    have hsame := (h _ _ 200 (by decide +kernel)
      (Applied.of_idle (by decide +kernel) (by decide +kernel) (by decide +kernel))).1 ["f"]
    exact absurd hsame (by decide +kernel)
  · intro h
    have hsame := (h _ _ 200 (by decide +kernel)
      (Applied.of_idle (by decide +kernel) (by decide +kernel) (by decide +kernel))).1 ["f"]
    exact absurd hsame (by decide +kernel)

end DiskArcana.System
