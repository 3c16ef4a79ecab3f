import DiskArcana.System.Mesh

/-!
# When an exchange deletes on the client

An exchange tells a node to delete a file it reports live when the row is gone and the node's stored
baseline is live with the reported content. That is meant to read "the server deleted what the node
had synced". But the baseline is written when the exchange *decides to take* the node's content, even
where the answer then leaves the upload out (a receive-only node, a path that is not included). So a
file whose upload never arrived is on record as synced, and its absence on the server reads as a
deletion.

The live baselines of a node are of two kinds (`Backed`): contents that the server once held in a
live row, and contents of uploads that are still outstanding. So "no spurious client delete" is
equivalent to: no exchange reports, at a path without a live row, a content whose upload is
outstanding and which the server never committed (`clientDeleteExplained_iff`).
-/

namespace DiskArcana.System

open DiskArcana.Core DiskArcana.Lib DiskArcana.Server DiskArcana.Client

section

variable (blake3 : Bytes → Digest) (decrypt : Bytes → Bytes → Option Bytes)

/-- The server had a live row of the path with the content at some earlier point. -/
def Committed (path : Path) (h : Digest) (hist : List (World × Event)) : Prop :=
  ∃ x ∈ hist, liveHash (x.1.row path) = some h

/-- The server had a live row of the path with the content, and that step or a later one turned the
live row into a tombstone or removed it. -/
def CommittedThenDeleted (path : Path) (h : Digest) (hist : List (World × Event)) : Prop :=
  ∃ pre x post, hist = pre ++ x :: post ∧ liveHash (x.1.row path) = some h ∧
    ∃ y ∈ x :: post, side (y.1.row path) = .live ∧
      side ((step blake3 decrypt y.1 y.2).row path) ≠ .live

/-- An exchange that tells its node to delete a file the node reports live does so only when the
server once committed that content and then deleted it. -/
def ClientDeleteExplained (hist : List (World × Event)) (w : World) (e : Event) : Prop :=
  ∀ call path h, e = .exchange call →
    Listed ((step blake3 decrypt w e).answer call.nodeId).toDelete path →
    liveHash (clientAt call.files path) = some h → CommittedThenDeleted blake3 decrypt path h hist

/-- What is outstanding at a path after an exchange of the node: the reported content if the exchange
decides to take it, nothing if the exchange settles on the row it found. -/
def outstandingAfter (pending : Option Digest) (db : MetaDb) (call : ExchangeCall) (path : Path) :
    Option Digest :=
  match (exchangeVerdict db call path).1 with
  | .download => liveHash (clientAt call.files path)
  | .upload | .skip | .deleteLocal | .deleteRemote => if serverAt db path = none then pending else none
  | .conflictFork | .conflictMerge | .renameRemote | .renameLocal => pending

/-- What is still missing once the row of a world is seen. -/
def stillMissing (pending : Option Digest) (w : World) (path : Path) : Option Digest :=
  pending.filter fun h => decide (liveHash (w.row path) ≠ some h)

/-- The content that the node's exchanges last decided to take from it at a path, unless a live row has
carried it since or a later exchange of the node settled on a row. -/
def outstanding (nodeId : NodeId) (path : Path) (hist : List (World × Event)) : Option Digest :=
  hist.foldl (fun pending x =>
    match x.2 with
    | .exchange call =>
      if call.nodeId = nodeId then
        outstandingAfter (stillMissing pending x.1 path) x.1.server.db call path
      else stillMissing pending x.1 path
    | _ => stillMissing pending x.1 path) none

/-- No exchange reports, at an included path without a live row, a content that was to be taken, is
still outstanding and never was in a live row. -/
def ReportedCommittedOrNew (hist : List (World × Event)) (w : World) (e : Event) : Prop :=
  ∀ call path h, e = .exchange call → Included call path → side (w.row path) ≠ .live →
    liveHash (clientAt call.files path) = some h →
    Committed path h hist ∨ outstanding call.nodeId path hist ≠ some h

/-- The invariant: a live baseline is backed by a commit or by an outstanding upload, and an
outstanding upload is on record. -/
structure Backed (hist : List (World × Event)) (w : World) : Prop where
  live : ∀ nodeId path h, liveHash (baseAt w.server.db nodeId path) = some h →
    Committed path h hist ∨ outstanding nodeId path hist = some h
  pending : ∀ nodeId path h, outstanding nodeId path hist = some h →
    liveHash (baseAt w.server.db nodeId path) = some h

theorem outstanding_snoc (nodeId : NodeId) (path : Path) (hist : List (World × Event)) (w : World)
    (e : Event) :
    outstanding nodeId path (hist ++ [(w, e)]) =
      match e with
      | .exchange call =>
        if call.nodeId = nodeId then
          outstandingAfter (stillMissing (outstanding nodeId path hist) w path) w.server.db call path
        else stillMissing (outstanding nodeId path hist) w path
      | _ => stillMissing (outstanding nodeId path hist) w path := by
  unfold outstanding
  rw [List.foldl_append]
  rfl

theorem Committed.append {path : Path} {h : Digest} {hist : List (World × Event)}
    (hc : Committed path h hist) (x : World × Event) : Committed path h (hist ++ [x]) := by
  obtain ⟨y, hy, hlive⟩ := hc
  exact ⟨y, List.mem_append_left _ hy, hlive⟩

theorem committed_last {path : Path} {h : Digest} {hist : List (World × Event)} {w : World}
    {e : Event} (hlive : liveHash (serverAt w.server.db path) = some h) :
    Committed path h (hist ++ [(w, e)]) := by
  exact ⟨(w, e), by simp, liveHash_row_of_serverAt hlive⟩

/-- A committed content whose row is no longer live was deleted. -/
theorem Committed.deleted {w₀ : World} {es : List Event} {path : Path} {h : Digest}
    (hc : Committed path h (Trace.history (step blake3 decrypt) w₀ es))
    (hgone : side ((Trace.run (step blake3 decrypt) w₀ es).row path) ≠ .live) :
    CommittedThenDeleted blake3 decrypt path h (Trace.history (step blake3 decrypt) w₀ es) := by
  obtain ⟨x, hx, hlive⟩ := hc
  obtain ⟨pre, post, hsplit⟩ := List.append_of_mem hx
  have hxlive : side (x.1.row path) = .live := side_eq_live_iff_liveHash.mpr ⟨h, hlive⟩
  exact ⟨pre, x, post, hsplit, hlive,
    Trace.exists_change (Q := fun w => side (w.row path) = .live) hsplit hxlive hgone⟩

/-- A path with a listed deletion takes part, so its row is the server's entry. -/
theorem listed_toDelete_iff {w : World} {call : ExchangeCall} {path : Path} {h : Digest}
    (hc : liveHash (clientAt call.files path) = some h) :
    Listed ((step blake3 decrypt w (.exchange call)).answer call.nodeId).toDelete path ↔
      Included call path ∧ side (w.row path) ≠ .live ∧
        liveHash (baseAt w.server.db call.nodeId path) = some h := by
  have hlive : side (clientAt call.files path) = .live := side_eq_live_iff_liveHash.mpr ⟨h, hc⟩
  obtain ⟨m, hm, -⟩ := side_eq_live_iff.mp hlive
  rw [answer_step_exchange, listed_toDelete, ← serverAt_eq_row (of_clientAt hm).2.1]
  unfold Deletes exchangeVerdict
  rw [verdict_deleteLocal_iff, verdict_deleteRemote_iff]
  constructor
  · rintro ⟨hinc, (⟨-, ht⟩ | ⟨-, hn, -⟩) | (⟨-, ha, -⟩ | ⟨hs, -, hb, heq⟩)⟩
    · rw [hlive] at ht
      cases ht
    · exact absurd hlive hn
    · rw [hlive] at ha
      cases ha
    · refine ⟨hinc, hs, ?_⟩
      rw [← (hashesEq_eq_true_iff_of_live hlive hb).mp heq]
      exact hc
  · rintro ⟨hinc, hs, hb⟩
    have hbl : side (baseAt w.server.db call.nodeId path) = .live :=
      side_eq_live_iff_liveHash.mpr ⟨h, hb⟩
    have heq := (hashesEq_eq_true_iff_of_live hlive hbl).mpr (hc.trans hb.symm)
    exact ⟨hinc, Or.inr (Or.inr ⟨hs, hlive, hbl, heq⟩)⟩

/-- What is missing was pending, and what was pending is missing or in the live row. -/
theorem stillMissing_eq_some_iff {pending : Option Digest} {w : World} {path : Path} {h : Digest} :
    stillMissing pending w path = some h ↔ pending = some h ∧ liveHash (w.row path) ≠ some h := by
  unfold stillMissing
  rw [Option.filter_eq_some_iff]
  simp

/-- What a step does to a baseline and to what is outstanding at its path: nothing to either but to
note what the row carries, or the baseline becomes what is outstanding, or nothing is outstanding
and the baseline becomes the row. -/
theorem outstanding_step (hist : List (World × Event)) (w : World) (e : Event) (nodeId : NodeId)
    (path : Path) :
    (liveHash (baseAt (step blake3 decrypt w e).server.db nodeId path) =
        liveHash (baseAt w.server.db nodeId path) ∧
      outstanding nodeId path (hist ++ [(w, e)]) =
        stillMissing (outstanding nodeId path hist) w path) ∨
    liveHash (baseAt (step blake3 decrypt w e).server.db nodeId path) =
      outstanding nodeId path (hist ++ [(w, e)]) ∨
    (outstanding nodeId path (hist ++ [(w, e)]) = none ∧
      liveHash (baseAt (step blake3 decrypt w e).server.db nodeId path) =
        liveHash (serverAt w.server.db path)) := by
  rcases baseAt_step blake3 decrypt w e nodeId path with ⟨call, rfl, rfl, -⟩ | ⟨hother, hkeep⟩
  · rw [outstanding_snoc, baseAt_step_exchange, liveHash_baseAt_exchangeDb]
    simp only [if_true]
    unfold outstandingAfter
    by_cases hs : serverAt w.server.db path = none <;>
      rcases (exchangeVerdict w.server.db call path).1 with _ | _ | _ | _ | _ | _ | _ | _ | _ <;>
      simp [hs]
  · refine Or.inl ⟨by rw [hkeep], ?_⟩
    rw [outstanding_snoc]
    cases e with
    | exchange call => simp [hother call rfl]
    | _ => rfl

/-- Every step keeps the baselines backed. -/
theorem Backed.step {hist : List (World × Event)} {w : World} {e : Event} (hI : Backed hist w) :
    Backed (hist ++ [(w, e)]) (step blake3 decrypt w e) := by
  constructor
  · intro nodeId path h hb
    rcases outstanding_step blake3 decrypt hist w e nodeId path with ⟨hbase, hout⟩ | hbase | ⟨-, hbase⟩
    · rw [hbase] at hb
      rcases hI.live nodeId path h hb with hc | hpend
      · exact Or.inl (hc.append _)
      · by_cases hrow : liveHash (w.row path) = some h
        · exact Or.inl ⟨(w, e), by simp, hrow⟩
        · refine Or.inr ?_
          rw [hout, stillMissing_eq_some_iff]
          exact ⟨hpend, hrow⟩
    · exact Or.inr (hbase.symm.trans hb)
    · rw [hbase] at hb
      exact Or.inl (committed_last hb)
  · intro nodeId path h hout
    rcases outstanding_step blake3 decrypt hist w e nodeId path with ⟨hbase, hkeep⟩ | hbase | ⟨hnone, -⟩
    · rw [hbase]
      rw [hkeep, stillMissing_eq_some_iff] at hout
      exact hI.pending nodeId path h hout.1
    · exact hbase.trans hout
    · rw [hnone] at hout
      cases hout

/-- **No spurious client delete, exactly.** In a run from a server without baselines, every file that
a node reports and is told to delete was committed by the server and then deleted if and only if
no exchange reports, at a path without a live row, a content whose upload is outstanding and
which the server never committed.
Source: `services/sync.rs`, `exchange_state`, `build_post_sync_baseline` -/
theorem clientDeleteExplained_iff (w₀ : World) (h₀ : w₀.server.db.nodeBaselines = ∅)
    (es : List Event) :
    Trace.Always (step blake3 decrypt) (ClientDeleteExplained blake3 decrypt) w₀ es ↔
      Trace.Always (step blake3 decrypt) ReportedCommittedOrNew w₀ es := by
  refine Trace.always_iff_of_invariant (I := Backed) ?_ ?_ ?_
  · constructor
    · intro nodeId path h hb
      unfold baseAt visible MetaDb.baselineAt at hb
      rw [h₀] at hb
      split_ifs at hb <;> cases hb
    · intro nodeId path h hout
      cases hout
  · intro es e hI
    constructor
    · intro hx call path h he hinc hgone hc
      by_contra hcon
      rw [not_or, not_not] at hcon
      have hbase := hI.pending _ _ _ hcon.2
      subst he
      obtain ⟨pre, x, post, hsplit, hlive, -⟩ :=
        hx call path h rfl ((listed_toDelete_iff blake3 decrypt hc).mpr ⟨hinc, hgone, hbase⟩) hc
      exact hcon.1 ⟨x, by rw [hsplit]; simp, hlive⟩
    · intro hr call path h he hlisted hc
      subst he
      obtain ⟨hinc, hgone, hbase⟩ := (listed_toDelete_iff blake3 decrypt hc).mp hlisted
      have hcommitted : Committed path h (Trace.history (step blake3 decrypt) w₀ es) := by
        rcases hI.live _ _ _ hbase with hcom | hout
        · exact hcom
        · exact (hr call path h rfl hinc hgone hc).resolve_right (fun hne => hne hout)
      exact hcommitted.deleted blake3 decrypt hgone
  · intro es e hI _
    exact hI.step blake3 decrypt

end

/-- A node asks to upload a file, the upload is refused, and the node exchanges again. -/
def refusedUpload : Event :=
  .upload
    { nodeId := "a1"
      role := none
      includes := []
      stream := [⟨["f"], (sampleBlake3 [97]).toList, [⟨[97], (sampleBlake3 [97]).toList⟩]⟩]
      quotaOk := false
      retention := ⟨10, 1000⟩
      mtimeNs := 1
      now := 100 }

/-- The steps before the second exchange. -/
def refusedRun : List Event := [sampleExchange "a1" [sampleFile ["f"] [97]], refusedUpload]

/-- **A node is told to delete a file that only it ever had**: after an upload that did not arrive,
the next exchange lists the file for deletion. -/
theorem refused_file_deleted :
    emptyWorld.server.db.nodeBaselines = ∅ ∧
      ¬ Trace.Always (step sampleBlake3 noKey) (ClientDeleteExplained sampleBlake3 noKey) emptyWorld
        (refusedRun ++ [sampleExchange "a1" [sampleFile ["f"] [97]]]) := by
  refine ⟨rfl, fun h => ?_⟩
  obtain ⟨pre, x, post, hsplit, hlive, -⟩ :=
    h refusedRun (sampleExchange "a1" [sampleFile ["f"] [97]]) [] rfl _ ["f"] (sampleBlake3 [97])
      rfl ⟨{ path := ["f"] }, by decide +kernel, rfl⟩ (by decide +kernel)
  have hx : x ∈ Trace.history (step sampleBlake3 noKey) emptyWorld refusedRun := by
    rw [hsplit]
    simp
  simp only [refusedRun, Trace.history, List.mem_cons, List.not_mem_nil, or_false] at hx
  rcases hx with rfl | rfl
  · exact absurd hlive (by decide +kernel)
  · exact absurd hlive (by decide +kernel)

/-- The equivalence at a run that meets its condition: the file is reported once. -/
theorem clientDeleteExplained_iff_reported_once :
    emptyWorld.server.db.nodeBaselines = ∅ ∧
      (Trace.Always (step sampleBlake3 noKey) (ClientDeleteExplained sampleBlake3 noKey) emptyWorld
          refusedRun ↔
        Trace.Always (step sampleBlake3 noKey) ReportedCommittedOrNew emptyWorld refusedRun) :=
  ⟨rfl, clientDeleteExplained_iff sampleBlake3 noKey emptyWorld rfl refusedRun⟩

end DiskArcana.System
