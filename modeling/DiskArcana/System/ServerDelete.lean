import DiskArcana.System.Mesh

/-!
# When an exchange deletes on the server

An exchange of a node tombstones a live row when the node's stored baseline is live with the row's
content and the snapshot does not report the path. The baseline is written when the exchange plans
the work, before any transfer: a node that was only *offered* a file is on record as holding it, and
its next exchange without the file reads as a deletion.

For a node that has never held a path, the baseline is what its last exchange found there
(`Record`). So over whole runs "no spurious server delete" is equivalent to a condition on what
the node's exchanges find: no exchange finds a live row, of a path the node never held, with the
content that the node's last exchange already found (`deleteJustified_iff`).
-/

namespace DiskArcana.System

open DiskArcana.Core DiskArcana.Lib DiskArcana.Server DiskArcana.Client

section

variable (blake3 : Bytes → Digest) (decrypt : Bytes → Bytes → Option Bytes)

/-- The step shows that a node has a path live on its disk: it reports it, uploads it, or completes
a download of it. -/
def ShowsHeld (nodeId : NodeId) (path : Path) (x : World × Event) : Prop :=
  match x.2 with
  | .exchange call => call.nodeId = nodeId ∧ side (clientAt call.files path) = .live
  | .upload call => call.nodeId = nodeId ∧ (deltaUpload blake3 x.1.server call).isOk = true ∧
      ∃ first ∈ call.stream.head?, validatePath first.path = .ok path
  | .download m role includes entry ok => m = nodeId ∧ entry.path = path ∧ ok = true ∧
      (fetch blake3 decrypt x.1.server role includes entry).isSome = true
  | _ => False

/-- The node has held the path at some earlier point. -/
def Held (nodeId : NodeId) (path : Path) (hist : List (World × Event)) : Prop :=
  ∃ x ∈ hist, ShowsHeld blake3 decrypt nodeId path x

/-- An exchange that turns a live row into a tombstone comes from a node that held the path before
and does not report it live now. -/
def DeleteJustified (hist : List (World × Event)) (w : World) (e : Event) : Prop :=
  ∀ call path, e = .exchange call → TurnsToTombstone blake3 decrypt w e path →
    Held blake3 decrypt call.nodeId path hist ∧ side (clientAt call.files path) ≠ .live

/-- The live content that the last exchange of a node to find a row at the path found there. -/
def lastFound (nodeId : NodeId) (path : Path) (hist : List (World × Event)) : Option Digest :=
  hist.foldl (fun found x =>
    match x.2 with
    | .exchange call =>
      if call.nodeId = nodeId ∧ serverAt x.1.server.db path ≠ none then
        liveHash (serverAt x.1.server.db path)
      else found
    | _ => found) none

/-- An exchange does not find, live and unreported, the content that the node's last exchange found
at the path, unless the node has held the path. -/
def FoundHeldOrNew (hist : List (World × Event)) (w : World) (e : Event) : Prop :=
  ∀ call path h, e = .exchange call → liveHash (serverAt w.server.db path) = some h →
    side (clientAt call.files path) ≠ .live →
    Held blake3 decrypt call.nodeId path hist ∨ lastFound call.nodeId path hist ≠ some h

/-- The invariant: the baseline of a path that a node never held is live with what the node's last
exchange found there. -/
def Record (hist : List (World × Event)) (w : World) : Prop :=
  ∀ nodeId path, ¬ Held blake3 decrypt nodeId path hist →
    liveHash (baseAt w.server.db nodeId path) = lastFound nodeId path hist

theorem lastFound_snoc (nodeId : NodeId) (path : Path) (hist : List (World × Event)) (w : World)
    (e : Event) :
    lastFound nodeId path (hist ++ [(w, e)]) =
      match e with
      | .exchange call =>
        if call.nodeId = nodeId ∧ serverAt w.server.db path ≠ none then
          liveHash (serverAt w.server.db path)
        else lastFound nodeId path hist
      | _ => lastFound nodeId path hist := by
  unfold lastFound
  rw [List.foldl_append]
  rfl

theorem held_snoc {nodeId : NodeId} {path : Path} {hist : List (World × Event)} {x : World × Event} :
    Held blake3 decrypt nodeId path (hist ++ [x]) ↔
      Held blake3 decrypt nodeId path hist ∨ ShowsHeld blake3 decrypt nodeId path x := by
  unfold Held
  simp [or_and_right, exists_or]

/-- Under the record, the property and the condition agree at each step. -/
theorem deleteJustified_iff_foundHeldOrNew {hist : List (World × Event)} {w : World} {e : Event}
    (hrec : Record blake3 decrypt hist w) :
    DeleteJustified blake3 decrypt hist w e ↔ FoundHeldOrNew blake3 decrypt hist w e := by
  constructor
  · intro hd call path h he hs hc
    by_contra hcon
    rw [not_or, not_not] at hcon
    refine hcon.1 (hd call path he ?_).1
    rw [he, turnsToTombstone_exchange, tombstones_iff]
    exact ⟨hc, h, hs, (hrec _ _ hcon.1).trans hcon.2⟩
  · intro hf call path he ht
    rw [he, turnsToTombstone_exchange, tombstones_iff] at ht
    obtain ⟨hc, h, hs, hb⟩ := ht
    refine ⟨?_, hc⟩
    by_contra hheld
    rcases hf call path h he hs hc with hh | hne
    · exact hheld hh
    · exact hne ((hrec _ _ hheld).symm.trans hb)

/-- A justified step keeps the record. -/
theorem Record.step {hist : List (World × Event)} {w : World} {e : Event}
    (hrec : Record blake3 decrypt hist w) (hd : DeleteJustified blake3 decrypt hist w e) :
    Record blake3 decrypt (hist ++ [(w, e)]) (step blake3 decrypt w e) := by
  intro nodeId path hheld
  rw [held_snoc, not_or] at hheld
  obtain ⟨hbefore, hnow⟩ := hheld
  rcases baseAt_step blake3 decrypt w e nodeId path with ⟨call, rfl, hn, -⟩ | ⟨hother, hkeep⟩
  · -- the node's own exchange: it does not report the path, and by `hd` it does not delete it
    subst hn
    have hc : side (clientAt call.files path) ≠ .live := fun hc => hnow ⟨rfl, hc⟩
    have ht : ¬ Tombstones w.server.db call path := fun ht =>
      hbefore (hd call path rfl ((turnsToTombstone_exchange blake3 decrypt).mpr ht)).1
    rw [baseAt_step_exchange, lastFound_snoc, liveHash_baseAt_exchangeDb_of_not_live hc ht,
      ← hrec call.nodeId path hbefore]
    by_cases hs : serverAt w.server.db path = none
    · simp [hs]
    · simp [hs]
  · rw [hkeep, hrec nodeId path hbefore, lastFound_snoc]
    cases e with
    | exchange call => simp [hother call rfl]
    | _ => rfl

/-- **No spurious server delete, exactly.** In a run from a server without baselines, every exchange
that turns a live row into a tombstone comes from a node that held the path before if and only if
no exchange finds, live and unreported, a path its node never held with the content the node's
last exchange found there.
Source: `services/sync.rs`, `exchange_state`, `build_post_sync_baseline` -/
theorem deleteJustified_iff (w₀ : World) (h₀ : w₀.server.db.nodeBaselines = ∅) (es : List Event) :
    Trace.Always (step blake3 decrypt) (DeleteJustified blake3 decrypt) w₀ es ↔
      Trace.Always (step blake3 decrypt) (FoundHeldOrNew blake3 decrypt) w₀ es := by
  refine Trace.always_iff_of_invariant (I := Record blake3 decrypt) ?_
    (fun _ _ hrec => deleteJustified_iff_foundHeldOrNew blake3 decrypt hrec)
    (fun _ _ hrec hd => Record.step blake3 decrypt hrec hd)
  intro nodeId path _
  unfold baseAt visible MetaDb.baselineAt
  rw [h₀]
  split_ifs <;> rfl

end

/-- Node `a1` uploads a file, node `b2` is offered it, its download fails, and it exchanges again. -/
def offeredRun : List Event :=
  [sampleUpload "a1" ["f"] [97], sampleExchange "b2" [],
    .download "b2" none [] (sampleFile ["f"] [97]) false]

/-- **A node that never held a file deletes it for everyone**: the second exchange of `b2` turns the
row into a tombstone. -/
theorem offered_file_deleted :
    emptyWorld.server.db.nodeBaselines = ∅ ∧
      ¬ Trace.Always (step sampleBlake3 noKey) (DeleteJustified sampleBlake3 noKey) emptyWorld
        (offeredRun ++ [sampleExchange "b2" []]) := by
  refine ⟨rfl, fun h => ?_⟩
  have hstep := h offeredRun (sampleExchange "b2" []) [] rfl _ ["f"] rfl
    ⟨by decide +kernel, by decide +kernel⟩
  obtain ⟨x, hx, hheld⟩ := hstep.1
  simp only [offeredRun, Trace.history, List.mem_cons, List.not_mem_nil, or_false] at hx
  rcases hx with rfl | rfl | rfl
  · exact absurd hheld.1 (by decide)
  · exact absurd hheld.2 (by decide +kernel)
  · exact absurd hheld.2.2.1 (by decide)

/-- The equivalence at a run that meets its condition: `b2` is offered the file once. -/
theorem deleteJustified_iff_offered_once :
    emptyWorld.server.db.nodeBaselines = ∅ ∧
      (Trace.Always (step sampleBlake3 noKey) (DeleteJustified sampleBlake3 noKey) emptyWorld
          offeredRun ↔
        Trace.Always (step sampleBlake3 noKey) (FoundHeldOrNew sampleBlake3 noKey) emptyWorld
          offeredRun) :=
  ⟨rfl, deleteJustified_iff sampleBlake3 noKey emptyWorld rfl offeredRun⟩

end DiskArcana.System
