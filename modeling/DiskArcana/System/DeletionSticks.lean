import DiskArcana.System.Steps
import DiskArcana.System.ClientDelete

/-!
# A deletion sticks, and is applied once

The server records a deletion in a node's baseline when it *tells* the node, not when the node has
done it. That goes wrong in two ways.

* A node that was told, and still has its copy, reports it over a baseline tombstone. The server
  takes that for a new file and asks for it, and the deleted content is live again although no
  user wrote it.
* When the row has been purged, there is nothing to make a baseline tombstone of, and the baseline
  stays live. A file that the user creates later with the same content is taken for the old copy,
  and the node is told to delete it.

`deletionSticks` states that runs in which these cells, and uploads that cross a deletion or never
arrive, do not occur have both properties at every step.
-/

namespace DiskArcana.System

open DiskArcana.Core DiskArcana.Lib DiskArcana.Server DiskArcana.Client

section

variable (blake3 : Bytes → Digest) (decrypt : Bytes → Bytes → Option Bytes) (filter : Filter)

/-- The step deletes the row of the path: it was live with the content and is not live after. -/
def DeletesRow (path : Path) (h : Digest) (x : World × Event) : Prop :=
  liveHash (x.1.row path) = some h ∧ side ((step blake3 decrypt x.1 x.2).row path) ≠ .live

/-- A user writes or restores the path. -/
def UserWrites (path : Path) (e : Event) : Prop :=
  (∃ nodeId bytes, e = .edit nodeId path bytes) ∨ Restores e path

/-- The row of the path was deleted with the content, and no user has written or restored the path
since. -/
def Stale (path : Path) (h : Digest) (hist : List (World × Event)) : Prop :=
  ∃ pre x post, hist = pre ++ x :: post ∧ DeletesRow blake3 decrypt path h x ∧
    ∀ y ∈ post, ¬ UserWrites path y.2

/-- The step is an exchange that tells the node to delete the path. -/
def Tells (nodeId : NodeId) (path : Path) (x : World × Event) : Prop :=
  ∃ call, x.2 = .exchange call ∧ call.nodeId = nodeId ∧
    Listed ((step blake3 decrypt x.1 x.2).answer nodeId).toDelete path

/-- The node's client removes the path, and later the node's user creates it. -/
def RemovedThenCreated (nodeId : NodeId) (path : Path) (hist : List (World × Event)) : Prop :=
  ∃ pre x post, hist = pre ++ x :: post ∧ x.2 = .applyDelete nodeId path true ∧
    ∃ y ∈ post, ∃ bytes, y.2 = .edit nodeId path bytes

/-- **The two halves at one step.** -/
structure DeletionSticks (hist : List (World × Event)) (w : World) (e : Event) : Prop where
  /-- A deleted content becomes live again only after a user wrote or restored the path. -/
  sticks : ∀ path h, liveHash (w.row path) ≠ some h →
    liveHash ((step blake3 decrypt w e).row path) = some h →
    Stale blake3 decrypt path h hist → UserWrites path e
  /-- A file created after the node removed the path as told is listed for deletion only after
  another deletion on the server. -/
  once : ∀ call path, e = .exchange call → side (clientAt call.files path) = .live →
    Listed ((step blake3 decrypt w e).answer call.nodeId).toDelete path →
    ∀ pre x post, hist = pre ++ x :: post → Tells blake3 decrypt call.nodeId path x →
      RemovedThenCreated call.nodeId path post → ∃ y ∈ post, ∃ h, DeletesRow blake3 decrypt path h y

/-- **The condition at one step.** -/
structure DeletionSettled (hist : List (World × Event)) (w : World) (e : Event) : Prop where
  /-- A node that reports a stale content at a path whose row is not live has it on record as
  synced: it has not been told to delete it yet. -/
  untold : ∀ call path h, e = .exchange call → call.role ≠ some .receiveOnly → Included call path →
    liveHash (clientAt call.files path) = some h → Stale blake3 decrypt path h hist →
    side (w.row path) ≠ .live → liveHash (baseAt w.server.db call.nodeId path) = some h
  /-- A node that reports a stale content over a live row with another content does so over a
  baseline that is neither a tombstone nor that row. -/
  diverged : ∀ call path h h', e = .exchange call → call.role ≠ some .receiveOnly →
    Included call path → liveHash (clientAt call.files path) = some h →
    Stale blake3 decrypt path h hist → liveHash (w.row path) = some h' → h' ≠ h →
    side (baseAt w.server.db call.nodeId path) ≠ .tomb ∧
      liveHash (baseAt w.server.db call.nodeId path) ≠ some h'
  /-- What a node uploads did not become stale since the node's last exchange. -/
  uncrossed : ∀ call path, e = .upload call →
    Listed (w.answer call.nodeId).toUpload path →
    ∀ pre x post, hist = pre ++ x :: post →
      (∃ c, x.2 = .exchange c ∧ c.nodeId = call.nodeId) →
      (∀ y ∈ post, ∀ c, y.2 = .exchange c → c.nodeId ≠ call.nodeId) →
      ¬ Stale blake3 decrypt path (blake3 (uploadBytes call)) post
  /-- An exchange that tells a node to delete what it reports finds the tombstone: the row has not
  been purged. -/
  unpurged : ∀ call path h, e = .exchange call → Included call path →
    liveHash (clientAt call.files path) = some h →
    liveHash (baseAt w.server.db call.nodeId path) = some h → w.row path ≠ none
  /-- No exchange reports, at a path without a live row, a content whose upload is outstanding. -/
  arrived : ∀ call path h, e = .exchange call → Included call path →
    liveHash (clientAt call.files path) = some h → side (w.row path) ≠ .live →
    outstanding call.nodeId path hist ≠ some h

/-! ## Deleted contents -/

theorem stale_append_iff {path : Path} {h : Digest} {hist post : List (World × Event)} :
    Stale blake3 decrypt path h (hist ++ post) ↔
      Stale blake3 decrypt path h post ∨
        Stale blake3 decrypt path h hist ∧ ∀ y ∈ post, ¬ UserWrites path y.2 := by
  constructor
  · rintro ⟨pre, x, rest, hsplit, hdel, hno⟩
    rcases List.append_eq_append_iff.mp hsplit with ⟨mid, hpre, hpost⟩ | ⟨mid, hhist, hrest⟩
    · exact Or.inl ⟨mid, x, rest, hpost, hdel, hno⟩
    · rcases mid with _ | ⟨y, mid⟩
      · rw [List.nil_append] at hrest
        exact Or.inl ⟨[], x, rest, hrest.symm, hdel, hno⟩
      · rw [List.cons_append, List.cons.injEq] at hrest
        obtain ⟨rfl, rfl⟩ := hrest
        refine Or.inr ⟨⟨pre, x, mid, hhist, hdel, fun z hz => hno z ?_⟩, fun z hz => hno z ?_⟩
        · exact List.mem_append_left _ hz
        · exact List.mem_append_right _ hz
  · rintro (⟨pre, x, rest, rfl, hdel, hno⟩ | ⟨⟨pre, x, rest, rfl, hdel, hno⟩, hpost⟩)
    · exact ⟨hist ++ pre, x, rest, by simp, hdel, hno⟩
    · refine ⟨pre, x, rest ++ post, by simp, hdel, fun y hy => ?_⟩
      rcases List.mem_append.mp hy with hy | hy
      · exact hno y hy
      · exact hpost y hy

/-! ## The invariant -/

/-- What is on the way to the server, and what the nodes were told. -/
structure Settled (hist : List (World × Event)) (w : World) : Prop where
  /-- A file the last answer asks for is still the one that was reported, which was not stale then,
  unless a user has written the path since. -/
  asked : ∀ nodeId path, Listed (w.answer nodeId).toUpload path →
    isWalkPath path = true ∧ ¬ Listed (w.answer nodeId).toDownload path ∧
      ∃ pre x post, hist = pre ++ x :: post ∧ (∃ c, x.2 = .exchange c ∧ c.nodeId = nodeId) ∧
        (∀ y ∈ post, ∀ c, y.2 = .exchange c → c.nodeId ≠ nodeId) ∧
        ∀ bytes, (w.disk nodeId).lookup path = some bytes → (∃ y ∈ post, UserWrites path y.2) ∨
          ¬ Stale blake3 decrypt path (blake3 bytes) (pre ++ [x])
  /-- Since a node was told to delete a path, the row was deleted again, or it is live, or every live
  baseline of the node is an outstanding upload. -/
  told : ∀ nodeId path pre x post, hist = pre ++ x :: post → Tells blake3 decrypt nodeId path x →
    (∃ y ∈ post, ∃ h, DeletesRow blake3 decrypt path h y) ∨ side (w.row path) = .live ∨
      ∀ h, liveHash (baseAt w.server.db nodeId path) = some h → outstanding nodeId path hist = some h

/-- What a settled exchange asks for is not stale. -/
theorem not_stale_of_asked {hist : List (World × Event)} {w : World} {call : ExchangeCall}
    (hf : Faithful blake3 filter w (.exchange call))
    (hψ : DeletionSettled blake3 decrypt hist w (.exchange call)) {path : Path}
    (hl : Listed (exchangeResponse w.server.vaultId w.server.db call).toUpload path) {bytes : Bytes}
    (hb : (w.disk call.nodeId).lookup path = some bytes) :
    ¬ Stale blake3 decrypt path (blake3 bytes) (hist ++ [(w, .exchange call)]) := by
  obtain ⟨hrole, hinc, hv, hsome, -⟩ := of_listed_toUpload hl
  obtain ⟨m, hm⟩ := Option.ne_none_iff_exists'.mp hsome
  obtain ⟨hclock, hd, -, -, hhash⟩ := hf.of_clientAt blake3 hm
  have hlive : liveHash (clientAt call.files path) = some (blake3 bytes) := by
    rw [hm, liveHash_eq_some_iff]
    exact ⟨m, rfl, hd, hhash bytes hb⟩
  have hrow : serverAt w.server.db path = w.row path := serverAt_eq_row (of_clientAt hm).2.1
  have hcell := of_verdict_download_of_new (l := w.row path)
    (i := baseAt w.server.db call.nodeId path) hclock (by
      unfold exchangeVerdict at hv
      rwa [hrow, hm] at hv)
  rw [hm] at hlive
  rw [stale_append_iff]
  rintro (⟨pre, x, post, hsplit, hdel, -⟩ | ⟨hstale, -⟩)
  · -- the exchange itself deletes nothing at a path it asks for
    obtain ⟨rfl, rfl, rfl⟩ : pre = [] ∧ x = (w, .exchange call) ∧ post = [] := by
      rcases pre with _ | ⟨y, pre⟩
      · simp only [List.nil_append, List.cons.injEq] at hsplit
        exact ⟨rfl, hsplit.1.symm, hsplit.2.symm⟩
      · simp at hsplit
    have ht : ¬ Tombstones w.server.db call path := fun ht => by
      have := ht.2
      rw [hv] at this
      cases this
    obtain ⟨hbefore, hafter⟩ := hdel
    rw [row_step_exchange, if_neg ht] at hafter
    exact hafter (side_eq_live_iff_liveHash.mpr ⟨_, hbefore⟩)
  · rw [← hm] at hlive
    rcases hcell with ⟨hgone, hbase⟩ | ⟨hlrow, hne, hbase⟩
    · rw [← hm, hlive] at hbase
      exact hbase (hψ.untold call path _ rfl hrole hinc hlive hstale hgone)
    · obtain ⟨h', hrl⟩ := side_eq_live_iff_liveHash.mp hlrow
      rw [← hm, hlive, hrl] at hne
      obtain ⟨htomb, hother⟩ := hψ.diverged call path _ h' rfl hrole hinc hlive hstale hrl
        (fun heq => hne (by rw [heq]))
      rcases hbase with hbase | hbase
      · exact htomb hbase
      · exact hother (hbase.trans hrl)

/-- A settled step keeps what is known about uploads on the way. -/
theorem Settled.asked_step {hist : List (World × Event)} {w : World} {e : Event}
    (hI : Settled blake3 decrypt hist w) (hf : Faithful blake3 filter w e)
    (hψ : DeletionSettled blake3 decrypt hist w e) (nodeId : NodeId) (path : Path)
    (hl : Listed ((step blake3 decrypt w e).answer nodeId).toUpload path) :
    isWalkPath path = true ∧ ¬ Listed ((step blake3 decrypt w e).answer nodeId).toDownload path ∧
      ∃ pre x post, hist ++ [(w, e)] = pre ++ x :: post ∧
        (∃ c, x.2 = .exchange c ∧ c.nodeId = nodeId) ∧
        (∀ y ∈ post, ∀ c, y.2 = .exchange c → c.nodeId ≠ nodeId) ∧
        ∀ bytes, ((step blake3 decrypt w e).disk nodeId).lookup path = some bytes →
          (∃ y ∈ post, UserWrites path y.2) ∨
            ¬ Stale blake3 decrypt path (blake3 bytes) (pre ++ [x]) := by
  rcases answer_step blake3 decrypt w e nodeId with ⟨call, rfl, rfl, hans⟩ | ⟨hother, hans⟩
  · rw [hans] at hl ⊢
    obtain ⟨-, -, -, hsome, hdown⟩ := of_listed_toUpload hl
    obtain ⟨-, hw, -⟩ := (hf.clientAt blake3 path).resolve_right fun hn => hsome hn.1
    refine ⟨hw, hdown, hist, _, [], rfl, ⟨call, rfl, rfl⟩, by simp, fun bytes hb => Or.inr ?_⟩
    have hdisk : (step blake3 decrypt w (.exchange call)).disk = w.disk := by
      rw [step_exchange]
      rfl
    rw [hdisk] at hb
    exact not_stale_of_asked blake3 decrypt filter hf hψ hl hb
  · rw [hans] at hl ⊢
    obtain ⟨hw, hdown, pre, x, post, rfl, hx, hlast, hkeep⟩ := hI.asked nodeId path hl
    refine ⟨hw, hdown, pre, x, post ++ [(w, e)], by simp, hx, ?_, fun bytes hb => ?_⟩
    · intro y hy c hc
      rcases List.mem_append.mp hy with hy | hy
      · exact hlast y hy c hc
      · rw [List.mem_singleton.mp hy] at hc
        exact hother c hc
    · cases disk_step blake3 decrypt w e nodeId path with
      | kept h =>
          rw [h] at hb
          rcases hkeep bytes hb with ⟨y, hy, hwrite⟩ | hns
          · exact Or.inl ⟨y, List.mem_append_left _ hy, hwrite⟩
          · exact Or.inr hns
      | downloaded role includes entry other he hp hfetch h =>
          subst he
          exact absurd ⟨entry, hf, hp⟩ hdown
      | deleted he h =>
          rw [h] at hb
          cases hb
      | edited other he h => exact Or.inl ⟨(w, e), by simp, Or.inl ⟨nodeId, other, he⟩⟩
      | removed he h =>
          rw [h] at hb
          cases hb

/-- Telling a node to delete a path leaves no live baseline. -/
theorem liveHash_baseAt_of_tells {hist : List (World × Event)} {w : World} {call : ExchangeCall}
    (hf : Faithful blake3 filter w (.exchange call))
    (hψ : DeletionSettled blake3 decrypt hist w (.exchange call)) {path : Path}
    (ht : Tells blake3 decrypt call.nodeId path (w, .exchange call)) :
    liveHash (baseAt (step blake3 decrypt w (.exchange call)).server.db call.nodeId path) = none := by
  obtain ⟨c, hc, -, hl⟩ := ht
  cases hc
  rw [answer_step_exchange, listed_toDelete] at hl
  obtain ⟨hinc, hdel⟩ := hl
  have hbase : liveHash (baseAt (step blake3 decrypt w (.exchange call)).server.db call.nodeId path) =
      if serverAt w.server.db path = none then liveHash (baseAt w.server.db call.nodeId path)
      else none := by
    rw [baseAt_step_exchange, liveHash_baseAt_exchangeDb]
    rcases hdel with hv | hv <;> rw [hv]
  rw [hbase]
  split_ifs with hnone
  · -- without a row the only deletion is of a reported file, and then the row is there
    unfold Deletes exchangeVerdict at hdel
    rw [verdict_deleteLocal_iff, verdict_deleteRemote_iff, hnone] at hdel
    rcases hf.clientAt blake3 path with ⟨hlive, -⟩ | ⟨habsent, -⟩
    · obtain ⟨m, hm, hmd⟩ := side_eq_live_iff.mp hlive
      have hlh : liveHash (clientAt call.files path) = some m.contentHash :=
        liveHash_eq_some_iff.mpr ⟨m, hm, hmd, rfl⟩
      have hrow : w.row path = none := by
        rw [← serverAt_eq_row (of_clientAt hm).2.1, hnone]
      rcases hb : liveHash (baseAt w.server.db call.nodeId path) with _ | h
      · rfl
      · exfalso
        rw [hlive] at hdel
        simp only [side_none, ne_eq, reduceCtorEq, not_false_eq_true, true_and, false_and, and_false,
          or_false, false_or] at hdel
        have heq := (hashesEq_eq_true_iff_of_live hlive hdel.1).mp hdel.2
        exact hψ.unpurged call path _ rfl hinc hlh (heq.symm.trans hlh) hrow
    · rw [habsent] at hdel
      simp at hdel
  · rfl

/-- A settled step keeps what is known about the deletions nodes were told. -/
theorem Settled.told_step {hist : List (World × Event)} {w : World} {e : Event}
    (hI : Settled blake3 decrypt hist w) (hf : Faithful blake3 filter w e)
    (hψ : DeletionSettled blake3 decrypt hist w e) (nodeId : NodeId) (path : Path)
    (pre : List (World × Event)) (x : World × Event) (post : List (World × Event))
    (hsplit : hist ++ [(w, e)] = pre ++ x :: post) (ht : Tells blake3 decrypt nodeId path x) :
    (∃ y ∈ post, ∃ h, DeletesRow blake3 decrypt path h y) ∨
      side ((step blake3 decrypt w e).row path) = .live ∨
      ∀ h, liveHash (baseAt (step blake3 decrypt w e).server.db nodeId path) = some h →
        outstanding nodeId path (hist ++ [(w, e)]) = some h := by
  rcases List.eq_nil_or_concat post with rfl | ⟨post, z, rfl⟩
  · -- the node is told by this very step
    obtain ⟨rfl, hx⟩ := List.append_inj' hsplit rfl
    cases hx
    refine Or.inr (Or.inr fun h hb => ?_)
    obtain ⟨call, he, hid, -⟩ := id ht
    cases he
    subst hid
    rw [liveHash_baseAt_of_tells blake3 decrypt filter hf hψ ht] at hb
    cases hb
  · rw [List.concat_eq_append, ← List.cons_append, ← List.append_assoc] at hsplit
    obtain ⟨hhist, hz⟩ := List.append_inj' hsplit rfl
    cases hz
    rw [List.concat_eq_append]
    by_cases hrow : side (w.row path) = .live
    · by_cases hafter : side ((step blake3 decrypt w e).row path) = .live
      · exact Or.inr (Or.inl hafter)
      · obtain ⟨h, hrl⟩ := side_eq_live_iff_liveHash.mp hrow
        exact Or.inl ⟨(w, e), by simp, h, hrl, hafter⟩
    · rcases hI.told nodeId path pre x post hhist ht with ⟨y, hy, hdel⟩ | hlive | hout
      · exact Or.inl ⟨y, List.mem_append_left _ hy, hdel⟩
      · exact absurd hlive hrow
      · refine Or.inr (Or.inr fun h hb => ?_)
        have hnot : ∀ h, liveHash (w.row path) ≠ some h := fun h hlive =>
          hrow (side_eq_live_iff_liveHash.mpr ⟨h, hlive⟩)
        rcases outstanding_step blake3 decrypt hist w e nodeId path with
          ⟨hbase, hkeep⟩ | hbase | ⟨-, hbase⟩
        · rw [hbase] at hb
          rw [hkeep, stillMissing_eq_some_iff]
          exact ⟨hout h hb, hnot h⟩
        · exact hbase.symm.trans hb
        · rw [hbase] at hb
          exact absurd (liveHash_row_of_serverAt hb) (hnot h)

/-! ## The theorem -/

/-- Under the invariant a settled step has both properties. -/
theorem Settled.sticks {hist : List (World × Event)} {w : World} {e : Event}
    (hI : Settled blake3 decrypt hist w) (hf : Faithful blake3 filter w e) (hi : isIndexer e = false)
    (hψ : DeletionSettled blake3 decrypt hist w e) : DeletionSticks blake3 decrypt hist w e := by
  constructor
  · intro path h hbefore hafter hstale
    cases row_step blake3 decrypt w e path with
    | kept hkept =>
        rw [hkept] at hafter
        exact absurd hafter hbefore
    | tombstoned call he ht hrow =>
        rw [hrow] at hafter
        obtain ⟨m, hm, hd, -⟩ := liveHash_eq_some_iff.mp hafter
        obtain ⟨r, -, rfl⟩ := Option.map_eq_some_iff.mp hm
        cases hd
    | uploaded call he row hrow hup =>
        subst he
        obtain ⟨hl, hdisk, hlive⟩ := of_uploadedRow blake3 filter
          (fun q hq => (hI.asked call.nodeId q hq).1) hf hrow
        rw [hup, hlive, Option.some.injEq] at hafter
        subst hafter
        obtain ⟨-, -, pre, x, post, rfl, hx, hlast, hkeep⟩ := hI.asked call.nodeId path hl
        have hcross := hψ.uncrossed call path rfl hl pre x post rfl hx hlast
        -- the deletion lies before the exchange that asked, and no user wrote since
        rw [List.append_cons, stale_append_iff] at hstale
        rcases hstale with hpost | ⟨hpre, hno⟩
        · exact absurd hpost hcross
        · rcases hkeep _ hdisk with ⟨y, hy, hwrite⟩ | hns
          · exact absurd hwrite (hno y hy)
          · exact absurd hpre hns
    | restored hr hlive => exact Or.inr hr
    | purged ht hnone =>
        rw [hnone] at hafter
        cases hafter
    | indexed hidx =>
        rw [hi] at hidx
        cases hidx
  · intro call path he hc hl pre x post hsplit ht _
    subst he
    obtain ⟨h, hlive⟩ := side_eq_live_iff_liveHash.mp hc
    obtain ⟨hinc, hgone, hbase⟩ := (listed_toDelete_iff blake3 decrypt hlive).mp hl
    rcases hI.told call.nodeId path pre x post hsplit ht with hdel | hrow | hout
    · exact hdel
    · exact absurd hrow hgone
    · exact absurd (hout h hbase) (hψ.arrived call path h rfl hinc hlive hgone)

/-- **A deletion sticks, and is applied once.** In every run of faithful clients, from a world in
which no node has work to do and without the share indexer, whose steps all meet
`DeletionSettled`: a deleted content is live again only after a user wrote or restored the path,
and a file created after its predecessor was removed as told is listed for deletion only after
another deletion on the server.
Source: `services/sync.rs`, `exchange_state`, `build_post_sync_baseline` -/
theorem deletionSticks (w₀ : World) (h₀ : ∀ nodeId, w₀.answer nodeId = emptyAnswer)
    (es : List Event)
    (hf : Trace.Always (step blake3 decrypt) (fun _ w e => Faithful blake3 filter w e ∧
      isIndexer e = false) w₀ es)
    (hψ : Trace.Always (step blake3 decrypt) (DeletionSettled blake3 decrypt) w₀ es) :
    Trace.Always (step blake3 decrypt) (DeletionSticks blake3 decrypt) w₀ es := by
  refine (Trace.Always.of_invariant (I := Settled blake3 decrypt) ?_ ?_ ?_
    (Trace.always_and.mpr ⟨hf, hψ⟩)).1
  · constructor
    · intro nodeId path hl
      rw [h₀] at hl
      obtain ⟨m, hm, -⟩ := hl
      cases hm
    · intro nodeId path pre x post hsplit
      simp at hsplit
  · rintro es e hI ⟨⟨hfe, hi⟩, hψe⟩
    exact hI.sticks blake3 decrypt filter hfe hi hψe
  · rintro es e hI ⟨⟨hfe, -⟩, hψe⟩
    exact ⟨hI.asked_step blake3 decrypt filter hfe hψe, hI.told_step blake3 decrypt filter hfe hψe⟩

end

/-- Node `a1` creates a file that reaches `b2`, and deletes it again. -/
def sharedRun : List Event :=
  play emptyWorld
    [fun _ => .edit "a1" ["f"] [97], sync "a1", push "a1" ["f"], sync "b2", pull "b2" ["f"] true,
      fun _ => .remove "a1" ["f"]]

/-- The world before the server learns of the deletion. -/
def sharedWorld : World := Trace.run (step sampleBlake3 noKey) emptyWorld sharedRun

/-- The world after the server has learnt of it. -/
def deletedWorld : World := step sampleBlake3 noKey sharedWorld (sync "a1" sharedWorld)

/-- `b2` is told, fails to remove its copy, and exchanges again. -/
def keptCopyRun : List Event :=
  play deletedWorld [sync "b2", fun _ => .applyDelete "b2" ["f"] false, sync "b2"]

/-- The steps up to the upload of the copy that `b2` kept. -/
def revivingRun : List Event := sharedRun ++ sync "a1" sharedWorld :: keptCopyRun

/-- The upload. -/
def revival : Event := push "b2" ["f"] (Trace.run (step sampleBlake3 noKey) emptyWorld revivingRun)

/-- A run of the small mesh is faithful and free of the indexer when each step checks. -/
theorem faithful_of_forall_check {w : World} {es : List Event}
    (h : ∀ x ∈ Trace.history (step sampleBlake3 noKey) w es,
      checkFaithful x.1 x.2 = true ∧ isIndexer x.2 = false) :
    Trace.Always (step sampleBlake3 noKey) (fun _ w e => Faithful sampleBlake3 .default w e ∧
      isIndexer e = false) w es :=
  Trace.always_of_forall_mem fun x hx => ⟨faithful_of_check (h x hx).1, (h x hx).2⟩

/-- The world in which the trash was emptied before `b2` is told. -/
def purgedWorld : World :=
  Trace.run (step sampleBlake3 noKey) emptyWorld (sharedRun ++ [sync "a1" sharedWorld, .emptyTrash])

/-- `b2` is told, removes its copy, and its user creates the file again. -/
def createdAnewRun : List Event :=
  sharedRun ++ [sync "a1" sharedWorld, .emptyTrash] ++
    sync "b2" purgedWorld :: [.applyDelete "b2" ["f"] true, .edit "b2" ["f"] [97]]

/-- The exchange after that. -/
def secondTelling : Event :=
  sync "b2" (Trace.run (step sampleBlake3 noKey) emptyWorld createdAnewRun)

/-- **A deletion is undone, or applied twice.** `a1` deletes a file, `b2` is told but fails to remove
its copy, and its next cycle uploads it: the file is back although no user wrote it. Or the trash
is emptied before `b2` is told, `b2` removes its copy, and the file its user creates there later is
listed for deletion although nothing was deleted on the server since. -/
theorem deletion_undone_or_repeated :
    (∀ nodeId, emptyWorld.answer nodeId = emptyAnswer) ∧
      (Trace.Always (step sampleBlake3 noKey) (fun _ w e => Faithful sampleBlake3 .default w e ∧
          isIndexer e = false) emptyWorld (revivingRun ++ [revival]) ∧
        ¬ Trace.Always (step sampleBlake3 noKey) (DeletionSticks sampleBlake3 noKey) emptyWorld
          (revivingRun ++ [revival])) ∧
      Trace.Always (step sampleBlake3 noKey) (fun _ w e => Faithful sampleBlake3 .default w e ∧
          isIndexer e = false) emptyWorld (createdAnewRun ++ [secondTelling]) ∧
        ¬ Trace.Always (step sampleBlake3 noKey) (DeletionSticks sampleBlake3 noKey) emptyWorld
          (createdAnewRun ++ [secondTelling]) := by
  refine ⟨fun _ => rfl, ⟨faithful_of_forall_check (by decide +kernel), fun h => ?_⟩,
    faithful_of_forall_check (by decide +kernel), fun h => ?_⟩
  · have hstale : Stale sampleBlake3 noKey ["f"] (sampleBlake3 [97])
        (Trace.history (step sampleBlake3 noKey) emptyWorld revivingRun) := by
      refine ⟨_, _, _, Trace.history_append_cons _ _ sharedRun keptCopyRun (sync "a1" sharedWorld),
        ⟨by decide +kernel, by decide +kernel⟩, fun y hy => ?_⟩
      simp only [keptCopyRun, play, Trace.history, List.mem_cons, List.not_mem_nil, or_false] at hy
      rcases hy with rfl | rfl | rfl
      all_goals
        rintro (⟨_, _, he⟩ | hr)
        · cases he
        · exact hr
    rcases (h revivingRun revival [] rfl).sticks ["f"] (sampleBlake3 [97]) (by decide +kernel)
      (by decide +kernel) hstale with ⟨_, _, he⟩ | hr
    · cases he
    · exact hr
  · obtain ⟨y, hy, d, hdel, -⟩ := (h createdAnewRun secondTelling [] rfl).once _ ["f"] rfl
      (by decide +kernel) (by decide +kernel) _ _ _
      (Trace.history_append_cons _ _ _ _ (sync "b2" purgedWorld))
      ⟨_, rfl, rfl, by decide +kernel⟩
      ⟨[], _, _, rfl, rfl, _, List.mem_singleton_self _, [97], rfl⟩
    have hgone : ∀ y ∈ Trace.history (step sampleBlake3 noKey)
        (step sampleBlake3 noKey purgedWorld (sync "b2" purgedWorld))
        [.applyDelete "b2" ["f"] true, .edit "b2" ["f"] [97]],
        liveHash (y.1.row ["f"]) = none := by decide +kernel
    rw [hgone y hy] at hdel
    cases hdel

/-! ## A file that is created anew -/

/-- The event is an edit of the path. -/
def isEdit (path : Path) : Event → Bool
  | .edit _ p _ => decide (p = path)
  | _ => false

instance (path : Path) (h : Digest) (x : World × Event) :
    Decidable (DeletesRow sampleBlake3 noKey path h x) :=
  inferInstanceAs (Decidable (_ ∧ _))

/-- Whether a content may be stale: a deletion makes it so, and an edit ends it. -/
def mayBeStale (path : Path) (h : Digest) (hist : List (World × Event)) : Bool :=
  hist.foldl (fun stale x => decide (DeletesRow sampleBlake3 noKey path h x) ||
    (stale && !isEdit path x.2)) false

theorem mayBeStale_of_stale {path : Path} {h : Digest} {hist : List (World × Event)}
    (hs : Stale sampleBlake3 noKey path h hist) : mayBeStale path h hist = true := by
  induction hist using List.reverseRecOn with
  | nil =>
      obtain ⟨pre, x, post, hsplit, -⟩ := hs
      simp at hsplit
  | append_singleton l x ih =>
      unfold mayBeStale at ih ⊢
      rw [List.foldl_append, List.foldl_cons, List.foldl_nil, Bool.or_eq_true]
      rcases (stale_append_iff sampleBlake3 noKey).mp hs with ⟨pre, y, post, hsplit, hdel, -⟩ | ⟨hold, hno⟩
      · have hy : y ∈ [x] := by
          rw [hsplit]
          simp
        rw [List.mem_singleton.mp hy] at hdel
        exact Or.inl (decide_eq_true hdel)
      · refine Or.inr (Bool.and_eq_true_iff.mpr ⟨ih hold, ?_⟩)
        have hkept := hno x (List.mem_singleton_self x)
        cases he : x.2 with
        | edit nodeId p bytes =>
            by_cases hp : p = path
            · exact absurd (Or.inl ⟨nodeId, bytes, by rw [he, hp]⟩) hkept
            · simp [isEdit, hp]
        | _ => rfl

/-- A check for settled steps: of every file that an exchange reports, and of every file that an
upload may bring. -/
def checkSettled (hist : List (World × Event)) (w : World) : Event → Bool
  | .exchange call => call.files.all fun f =>
      let base := baseAt w.server.db call.nodeId f.path
      match liveHash (clientAt call.files f.path) with
      | none => true
      | some h =>
        (!mayBeStale f.path h hist ||
            decide (side (w.row f.path) ≠ .live) && decide (liveHash base = some h)) &&
          (decide (liveHash base ≠ some h) || (w.row f.path).isSome) &&
          (decide (side (w.row f.path) = .live) ||
            decide (outstanding call.nodeId f.path hist ≠ some h))
  | .upload call => (w.answer call.nodeId).toUpload.all fun m =>
      !mayBeStale m.path (sampleBlake3 (uploadBytes call)) hist
  | _ => true

theorem deletionSettled_of_check {hist : List (World × Event)} {w : World} {e : Event}
    (h : checkSettled hist w e = true) : DeletionSettled sampleBlake3 noKey hist w e := by
  have hfile : ∀ call path d, e = .exchange call → liveHash (clientAt call.files path) = some d →
      (Stale sampleBlake3 noKey path d hist → side (w.row path) ≠ .live ∧
          liveHash (baseAt w.server.db call.nodeId path) = some d) ∧
        (liveHash (baseAt w.server.db call.nodeId path) = some d → w.row path ≠ none) ∧
        (side (w.row path) ≠ .live → outstanding call.nodeId path hist ≠ some d) := by
    rintro call path d rfl hd
    obtain ⟨m, hm, -⟩ := liveHash_eq_some_iff.mp hd
    obtain ⟨hpath, -, f, hf, rfl⟩ := of_clientAt hm
    change f.path = path at hpath
    subst hpath
    have hall := List.all_eq_true.mp h f hf
    simp only [hd, Bool.and_eq_true, Bool.or_eq_true, Bool.not_eq_true', decide_eq_true_eq] at hall
    obtain ⟨⟨hstale, hrow⟩, hout⟩ := hall
    refine ⟨fun hs => ?_, fun hb => ?_, fun hgone => hout.resolve_left hgone⟩
    · exact hstale.resolve_left fun hno => by simp [mayBeStale_of_stale hs] at hno
    · exact Option.isSome_iff_ne_none.mp (hrow.resolve_left fun hno => hno hb)
  refine ⟨?_, ?_, ?_, ?_, ?_⟩
  · intro call path d he _ _ hd hs _
    exact ((hfile call path d he hd).1 hs).2
  · intro call path d d' he _ _ hd hs hlive _
    exact absurd (side_eq_live_iff_liveHash.mpr ⟨d', hlive⟩) ((hfile call path d he hd).1 hs).1
  · rintro call path rfl ⟨m, hm, rfl⟩ pre x post hsplit - - hs
    have hno := List.all_eq_true.mp h m hm
    have hall : Stale sampleBlake3 noKey m.path (sampleBlake3 (uploadBytes call)) hist := by
      rw [hsplit, List.append_cons]
      exact (stale_append_iff sampleBlake3 noKey).mpr (Or.inl hs)
    simp [mayBeStale_of_stale hall] at hno
  · intro call path d he _ hd hb
    exact (hfile call path d he hd).2.1 hb
  · intro call path d he _ hd hgone
    exact (hfile call path d he hd).2.2 hgone

/-- `b2` is told to delete the file, removes its copy, and its user creates the file again; `b2`
reports it and uploads it. -/
def recreatedRun : List Event :=
  play emptyWorld
    [fun _ => .edit "a1" ["f"] [97], sync "a1", push "a1" ["f"], sync "b2", pull "b2" ["f"] true,
      fun _ => .remove "a1" ["f"], sync "a1", sync "b2", fun _ => .applyDelete "b2" ["f"] true,
      fun _ => .edit "b2" ["f"] [97], sync "b2", push "b2" ["f"], sync "b2"]

/-- The theorem at a run with a deletion that is told and done, after which the file is created again
and uploaded. -/
theorem deletionSticks_recreated :
    Trace.Always (step sampleBlake3 noKey) (DeletionSticks sampleBlake3 noKey) emptyWorld recreatedRun ∧
      Tells sampleBlake3 noKey "b2" ["f"]
        (deletedWorld, sync "b2" deletedWorld) ∧
      liveHash ((Trace.run (step sampleBlake3 noKey) emptyWorld recreatedRun).row ["f"]) =
        some (sampleBlake3 [97]) := by
  refine ⟨deletionSticks sampleBlake3 noKey .default emptyWorld (fun _ => rfl) _
    (faithful_of_forall_check (by decide +kernel)) ?_, ⟨_, rfl, rfl, by decide +kernel⟩,
    by decide +kernel⟩
  intro pre e post hes
  have hcheck : Trace.checkAlong (step sampleBlake3 noKey) checkSettled [] emptyWorld recreatedRun =
      true := by decide +kernel
  exact deletionSettled_of_check (Trace.of_checkAlong hcheck hes)

end DiskArcana.System
