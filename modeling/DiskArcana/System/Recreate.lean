import DiskArcana.System.Steps

/-!
# A file that is live again

What happens to a row that is live, and in particular to one that was a tombstone and became live
again through an upload, a restore or the share index, while no user deletes the file: it should
stay live, and every node that does not have it should be offered it until it has.

Both fail when the node's stored baseline already carries the content of the row. A baseline
tombstone keeps the hash of what was deleted, and a re-created file with that content is skipped
without being offered; the skip then records the row as live in the baseline, and the node's next
exchange deletes it. `staysOffered_iff` states that this is the only way.
-/

namespace DiskArcana.System

open DiskArcana.Core DiskArcana.Lib DiskArcana.Server DiskArcana.Client

section

variable (blake3 : Bytes → Digest) (decrypt : Bytes → Bytes → Option Bytes) (filter : Filter)

/-- The step is an exchange in which the node reports the path live. -/
def Reports (nodeId : NodeId) (path : Path) (x : World × Event) : Prop :=
  ∃ call, x.2 = .exchange call ∧ call.nodeId = nodeId ∧ side (clientAt call.files path) = .live

/-- No user deletes the path: none on a node, none below the share root, and the share indexer does
not take the row for deleted. -/
def NoUserDelete (path : Path) (w : World) (e : Event) : Prop :=
  (∀ nodeId, e ≠ .remove nodeId path) ∧ e ≠ .serverRemove path ∧
    (isIndexer e = true → side (w.row path) = .live → side ((step blake3 decrypt w e).row path) = .live)

/-- The exchange does not tombstone the path, and offers it to a node that is not send-only, may see
it, does not report it and has not reported it before. -/
def StaysOffered (path : Path) (hist : List (World × Event)) (w : World) (e : Event) : Prop :=
  ∀ call, e = .exchange call →
    ¬ TurnsToTombstone blake3 decrypt w e path ∧
    (call.role ≠ some .sendOnly → Included call path → side (clientAt call.files path) ≠ .live →
      (∀ x ∈ hist, ¬ Reports call.nodeId path x) →
      Listed ((step blake3 decrypt w e).answer call.nodeId).toDownload path)

/-- An exchange of a node that neither reports the path nor has reported it finds a baseline of the
node that is not live with the row's content and, if the node is to be offered the path, that
does not carry the row's content at all. -/
def BaselineElsewhere (path : Path) (hist : List (World × Event)) (w : World) (e : Event) : Prop :=
  ∀ call, e = .exchange call → (∀ x ∈ hist, ¬ Reports call.nodeId path x) →
    side (clientAt call.files path) ≠ .live →
    (∀ h, liveHash (serverAt w.server.db path) = some h →
      liveHash (baseAt w.server.db call.nodeId path) ≠ some h) ∧
    (call.role ≠ some .sendOnly → Included call path → isSyncEphemeralMarker path = false ∧
      (baseAt w.server.db call.nodeId path).map FileMeta.contentHash ≠
        (w.row path).map FileMeta.contentHash)

/-- The invariant: the row is live, and a node that has reported the path has the file, lets it
through its filter and is not about to delete it. -/
structure Alive (path : Path) (hist : List (World × Event)) (w : World) : Prop where
  row : side (w.row path) = .live
  holders : ∀ x ∈ hist, ∀ nodeId, Reports nodeId path x →
    isWalkPath path = true ∧ filter.isExcluded path = false ∧
      (w.disk nodeId).lookup path ≠ none ∧ ¬ Listed (w.answer nodeId).toDelete path

/-- Content equality with a live entry, through the hashes. -/
theorem hashesEq_eq_false_iff {x y : Option FileMeta} (hx : side x = .live) :
    hashesEq x y = false ↔ y.map FileMeta.contentHash ≠ x.map FileMeta.contentHash := by
  obtain ⟨m, rfl, -⟩ := side_eq_live_iff.mp hx
  rcases y with _ | n
  · simp [hashesEq]
  · simp only [hashesEq, beq_eq_false_iff_ne, Option.map_some, ne_eq, Option.some.injEq]
    exact not_congr eq_comm

/-- **When a live row is offered to a node that does not report it**: the path takes part and the
node's baseline does not carry the row's content. -/
theorem listed_toDownload_iff {w : World} {call : ExchangeCall} {path : Path}
    (hrow : side (w.row path) = .live) (hc : clientAt call.files path = none) :
    Listed ((step blake3 decrypt w (.exchange call)).answer call.nodeId).toDownload path ↔
      Included call path ∧ isSyncEphemeralMarker path = false ∧
        (baseAt w.server.db call.nodeId path).map FileMeta.contentHash ≠
          (w.row path).map FileMeta.contentHash := by
  rw [answer_step_exchange]
  unfold Listed
  rcases he : isSyncEphemeralMarker path with _ | _
  · have hserver : serverAt w.server.db path = w.row path := serverAt_eq_row he
    have hverdict : (exchangeVerdict w.server.db call path).1 = .upload ↔
        (baseAt w.server.db call.nodeId path).map FileMeta.contentHash ≠
          (w.row path).map FileMeta.contentHash := by
      unfold exchangeVerdict
      rw [hserver, hc, verdict_upload_iff_of_none hrow, hashesEq_eq_false_iff hrow]
    rw [← hverdict]
    constructor
    · rintro ⟨m, hm, rfl⟩
      obtain ⟨hinc, f, hf, -⟩ := mem_toDownload.mp hm
      refine ⟨hinc, rfl, ?_⟩
      -- a conflict verdict needs a live report, so the entry comes from an upload verdict
      have hne : ¬ ((exchangeVerdict w.server.db call m.path).1 = .conflictFork ∨
          (exchangeVerdict w.server.db call m.path).1 = .conflictMerge) := by
        intro hv
        have hlive := (of_verdict_conflict hv).2.2.1
        rw [hc] at hlive
        cases hlive
      unfold downloadEntry at hf
      generalize (exchangeVerdict w.server.db call m.path).1 = action at hf hne ⊢
      cases action <;> simp_all
    · rintro ⟨hinc, -, hv⟩
      obtain ⟨m, hm, -⟩ := side_eq_live_iff.mp hrow
      have hentry : downloadEntry w.server.db call path = some m := by
        unfold downloadEntry
        rw [hv, hc, hserver, hm]
        rfl
      have hpath : m.path = path := downloadEntry_path hentry
      refine ⟨fileMetaToProto m, mem_toDownload.mpr ?_, by rw [fileMetaToProto_path, hpath]⟩
      rw [fileMetaToProto_path, hpath]
      exact ⟨hinc, m, hentry, rfl⟩
  · constructor
    · rintro ⟨m, hm, rfl⟩
      obtain ⟨-, f, hf, -⟩ := mem_toDownload.mp hm
      unfold downloadEntry at hf
      rw [exchangeVerdict_of_ephemeral he] at hf
      cases hf
    · rintro ⟨-, hcon, -⟩
      cases hcon

/-- A faithful exchange of a node that has reported the path reports it again. -/
theorem Alive.reports {path : Path} {hist : List (World × Event)} {w : World}
    (hI : Alive filter path hist w) {call : ExchangeCall}
    (hf : Faithful blake3 filter w (.exchange call)) {x : World × Event} (hx : x ∈ hist)
    (hr : Reports call.nodeId path x) : side (clientAt call.files path) = .live := by
  obtain ⟨hw, hfil, hdisk, -⟩ := hI.holders x hx call.nodeId hr
  rcases hf.clientAt blake3 path with ⟨hlive, -⟩ | ⟨-, hnot⟩
  · exact hlive
  · exact absurd ⟨hw, hfil, hdisk⟩ hnot

/-- At each step the property and the condition agree. -/
theorem staysOffered_iff_baselineElsewhere {path : Path} {hist : List (World × Event)} {w : World}
    {e : Event} (hI : Alive filter path hist w) (hf : Faithful blake3 filter w e) :
    StaysOffered blake3 decrypt path hist w e ↔ BaselineElsewhere path hist w e := by
  constructor
  · intro hs call he hnew hc
    obtain ⟨hkeep, hoffer⟩ := hs call he
    subst he
    rw [turnsToTombstone_exchange, tombstones_iff] at hkeep
    have hnone : clientAt call.files path = none :=
      ((hf.clientAt blake3 path).resolve_left fun hl => hc hl.1).1
    refine ⟨fun h hl hb => hkeep ⟨hc, h, hl, hb⟩, fun hrole hinc => ?_⟩
    exact ((listed_toDownload_iff blake3 decrypt hI.row hnone).mp (hoffer hrole hinc hc hnew)).2
  · intro hb call he
    subst he
    by_cases hnew : ∀ x ∈ hist, ¬ Reports call.nodeId path x
    · by_cases hc : side (clientAt call.files path) = .live
      · refine ⟨?_, fun _ _ hn => absurd hc hn⟩
        rw [turnsToTombstone_exchange, tombstones_iff]
        exact fun ht => ht.1 hc
      · obtain ⟨hlive, hoffer⟩ := hb call rfl hnew hc
        refine ⟨?_, fun hrole hinc _ _ => ?_⟩
        · rw [turnsToTombstone_exchange, tombstones_iff]
          rintro ⟨-, h, hl, hbl⟩
          exact hlive h hl hbl
        · have hnone : clientAt call.files path = none :=
            ((hf.clientAt blake3 path).resolve_left fun hl => hc hl.1).1
          exact (listed_toDownload_iff blake3 decrypt hI.row hnone).mpr ⟨hinc, hoffer hrole hinc⟩
    · push Not at hnew
      obtain ⟨x, hx, hr⟩ := hnew
      have hc : side (clientAt call.files path) = .live := hI.reports blake3 filter hf hx hr
      refine ⟨?_, fun _ _ hn => absurd hc hn⟩
      rw [turnsToTombstone_exchange, tombstones_iff]
      exact fun ht => ht.1 hc

/-- A step that keeps the property keeps the invariant. -/
theorem Alive.step {path : Path} {hist : List (World × Event)} {w : World} {e : Event}
    (hI : Alive filter path hist w) (hf : Faithful blake3 filter w e)
    (hn : NoUserDelete blake3 decrypt path w e) (hs : StaysOffered blake3 decrypt path hist w e) :
    Alive filter path (hist ++ [(w, e)]) (step blake3 decrypt w e) := by
  have hturn : ¬ TurnsToTombstone blake3 decrypt w e path := by
    by_cases he : ∃ call, e = .exchange call
    · obtain ⟨call, he⟩ := he
      exact (hs call he).1
    · rintro ⟨hlive, ht⟩
      cases row_step blake3 decrypt w e path with
      | kept h =>
          rw [h, hlive] at ht
          cases ht
      | tombstoned call hcall htomb h => exact he ⟨call, hcall⟩
      | uploaded call hcall row hrow h =>
          rw [h, side_some_of_live hrow.2.1] at ht
          cases ht
      | restored hr h =>
          rw [h] at ht
          cases ht
      | purged htomb h =>
          rw [hlive] at htomb
          cases htomb
      | indexed hidx =>
          rw [hn.2.2 hidx hlive] at ht
          cases ht
  refine ⟨live_step blake3 decrypt hI.row hturn fun hidx => hn.2.2 hidx hI.row, ?_⟩
  intro x hx nodeId hr
  -- before the step, or by this very exchange, the node has the file
  have hheld : isWalkPath path = true ∧ filter.isExcluded path = false ∧
      (w.disk nodeId).lookup path ≠ none ∧
      ((∀ call, e = .exchange call → call.nodeId ≠ nodeId) →
        ¬ Listed (w.answer nodeId).toDelete path) := by
    rcases List.mem_append.mp hx with hx | hx
    · obtain ⟨hw, hfil, hdisk, hdel⟩ := hI.holders x hx nodeId hr
      exact ⟨hw, hfil, hdisk, fun _ => hdel⟩
    · obtain ⟨call, he, hid, hc⟩ := hr
      rw [List.mem_singleton.mp hx] at he
      cases he
      rcases hf.clientAt blake3 path with ⟨-, hw, hfil, hdisk⟩ | ⟨hnone, -⟩
      · rw [hid] at hdisk
        exact ⟨hw, hfil, hdisk, fun hother => absurd hid (hother call rfl)⟩
      · rw [hnone] at hc
        cases hc
  obtain ⟨hw, hfil, hdisk, hdel⟩ := hheld
  refine ⟨hw, hfil, ?_, ?_⟩
  · cases disk_step blake3 decrypt w e nodeId path with
    | kept h => rwa [h]
    | downloaded role includes entry bytes he hp hfetch h =>
        rw [h]
        simp
    | deleted he h =>
        subst he
        exact absurd hf (hdel (by simp))
    | edited bytes he h =>
        rw [h]
        simp
    | removed he h => exact absurd he (hn.1 nodeId)
  · rcases answer_step blake3 decrypt w e nodeId with ⟨call, he, hid, hans⟩ | ⟨hother, hans⟩
    · rw [hans]
      refine not_listed_toDelete hI.row ?_
      subst he
      rcases hf.clientAt blake3 path with ⟨hlive, -⟩ | ⟨-, hnot⟩
      · exact hlive
      · rw [hid] at hnot
        exact absurd ⟨hw, hfil, hdisk⟩ hnot
    · rw [hans]
      exact hdel hother

/-- **A live file stays and reaches everybody, exactly.** Take a run of faithful clients from a world
in which the row of the path is live, in particular from the moment at which a deleted file is live
again, in which no user deletes the path. No exchange tombstones the row, and every exchange
offers the path to a node that does not have it until the node reports it, if and only if at every
such exchange the node's stored baseline is not live with the row's content and, where the node is
to be offered the path, does not carry the row's content as a tombstone either.
Source: `reconciler/tree.rs`, `resolve_one`; `services/sync.rs`, `build_post_sync_baseline` -/
theorem staysOffered_iff (path : Path) (w₀ : World) (hlive : side (w₀.row path) = .live)
    (es : List Event)
    (hf : Trace.Always (step blake3 decrypt) (fun _ w e => Faithful blake3 filter w e ∧
      NoUserDelete blake3 decrypt path w e) w₀ es) :
    Trace.Always (step blake3 decrypt) (StaysOffered blake3 decrypt path) w₀ es ↔
      Trace.Always (step blake3 decrypt) (BaselineElsewhere path) w₀ es := by
  refine Trace.always_iff_along (I := Alive filter path) hf ⟨hlive, by simp⟩ ?_ ?_
  · intro es e hI hfe
    exact staysOffered_iff_baselineElsewhere blake3 decrypt filter hI hfe.1
  · intro es e hI hfe hs
    exact hI.step blake3 decrypt filter hfe.1 hfe.2 hs

end

/-- Node `a1` creates a file that reaches `b2`; `a1` deletes it and `b2` follows; then `a1` creates
it again with the same content. -/
def recreatingRun : List Event :=
  play emptyWorld
    [fun _ => .edit "a1" ["f"] [97], sync "a1", push "a1" ["f"], sync "b2", pull "b2" ["f"] true,
      fun _ => .remove "a1" ["f"], sync "a1", sync "b2", fun _ => .applyDelete "b2" ["f"] true,
      fun _ => .edit "a1" ["f"] [97], sync "a1", push "a1" ["f"]]

/-- The world in which the file is live again. -/
def recreatedWorld : World := Trace.run (step sampleBlake3 noKey) emptyWorld recreatingRun

/-- An exchange deletes nothing on behalf of a user. -/
theorem noUserDelete_exchange {blake3 : Bytes → Digest} {decrypt : Bytes → Bytes → Option Bytes}
    {path : Path} {w : World} {call : ExchangeCall} :
    NoUserDelete blake3 decrypt path w (.exchange call) :=
  ⟨by simp, by simp, fun hi => absurd hi (by simp [isIndexer])⟩

/-- Two exchanges of `b2`, which does not have the file. -/
theorem faithful_recreated :
    Trace.Always (step sampleBlake3 noKey) (fun _ w e => Faithful sampleBlake3 .default w e ∧
      NoUserDelete sampleBlake3 noKey ["f"] w e) recreatedWorld
      (play recreatedWorld [sync "b2", sync "b2"]) := by
  refine Trace.always_of_forall_mem fun x hx => ?_
  simp only [play, Trace.history, List.mem_cons, List.not_mem_nil, or_false] at hx
  rcases hx with rfl | rfl
  · exact ⟨faithful_of_check (by decide +kernel), noUserDelete_exchange⟩
  · exact ⟨faithful_of_check (by decide +kernel), noUserDelete_exchange⟩

/-- **A re-created file is not offered, and then deleted for everyone**: it was a tombstone and is
live again, nobody deletes it, and two exchanges of `b2` turn it into a tombstone. -/
theorem recreated_file_deleted :
    (∃ x ∈ Trace.history (step sampleBlake3 noKey) emptyWorld recreatingRun,
        side (x.1.row ["f"]) = .tomb) ∧
      side (recreatedWorld.row ["f"]) = .live ∧
      Trace.Always (step sampleBlake3 noKey) (fun _ w e => Faithful sampleBlake3 .default w e ∧
        NoUserDelete sampleBlake3 noKey ["f"] w e) recreatedWorld
        (play recreatedWorld [sync "b2", sync "b2"]) ∧
      ¬ Trace.Always (step sampleBlake3 noKey) (StaysOffered sampleBlake3 noKey ["f"]) recreatedWorld
        (play recreatedWorld [sync "b2", sync "b2"]) := by
  refine ⟨by decide +kernel, by decide +kernel, faithful_recreated, fun h => ?_⟩
  have hlast := h (play recreatedWorld [sync "b2"]) _ [] rfl _ rfl
  exact hlast.1 ⟨by decide +kernel, by decide +kernel⟩

/-- The equivalence at the run after the file is live again. -/
theorem staysOffered_iff_recreated :
    side (recreatedWorld.row ["f"]) = .live ∧
      (Trace.Always (step sampleBlake3 noKey) (StaysOffered sampleBlake3 noKey ["f"]) recreatedWorld
          (play recreatedWorld [sync "b2", sync "b2"]) ↔
        Trace.Always (step sampleBlake3 noKey) (BaselineElsewhere ["f"]) recreatedWorld
          (play recreatedWorld [sync "b2", sync "b2"])) := by
  have hlive : side (recreatedWorld.row ["f"]) = .live := by decide +kernel
  exact ⟨hlive, staysOffered_iff sampleBlake3 noKey .default ["f"] recreatedWorld hlive _
    faithful_recreated⟩

end DiskArcana.System
