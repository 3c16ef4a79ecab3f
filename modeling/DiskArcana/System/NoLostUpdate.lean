import DiskArcana.System.Steps

/-!
# No lost update

Several nodes have synced a path, then each writes a content of its own, and their exchanges,
uploads and downloads interleave in any order. No content is lost, and no node's file is overwritten
with another's.

Every upload stores the clock `{server: 1}`, which dominates the empty clock of a scan, so no fork
is ever seen: once someone has uploaded, the others are told to *download*. What they are given
is their own entry, whose hash the server's bytes do not have, so the download is refused and
the file stays; the exchange has meanwhile moved the node's baseline to the row, and the next one
asks for the node's content. The invariant (`Kept`) is that every writer's file keeps its hash.
-/

namespace DiskArcana.System

open DiskArcana.Core DiskArcana.Lib DiskArcana.Server DiskArcana.Client

section

variable (blake3 : Bytes → Digest) (decrypt : Bytes → Bytes → Option Bytes) (filter : Filter)

/-- The file of a node at a path has the content. -/
def OnDisk (w : World) (nodeId : NodeId) (path : Path) (h : Digest) : Prop :=
  ∃ bytes, (w.disk nodeId).lookup path = some bytes ∧ blake3 bytes = h

/-- The content is in the live row of the path, among the archived versions, or on some node's
disk at the path. -/
def Stored (w : World) (path : Path) (h : Digest) : Prop :=
  liveHash (w.row path) = some h ∨ w.server.versionBlobs.lookup h ≠ none ∨
    ∃ nodeId, OnDisk blake3 w nodeId path h

/-- Some exchange reported a conflict on the path. -/
def ConflictReported (path : Path) (hist : List (World × Event)) : Prop :=
  ∃ x ∈ hist, ∃ call, x.2 = .exchange call ∧
    ∃ c ∈ ((step blake3 decrypt x.1 x.2).answer call.nodeId).conflicts, c.path = path

/-- The step is one of the given nodes' protocol steps, or an edit of another path. -/
def IsTurnOf (writers : NodeId → Prop) (path : Path) (e : Event) : Prop :=
  match e with
  | .exchange call => writers call.nodeId
  | .upload call => writers call.nodeId
  | .download nodeId _ _ _ _ => writers nodeId
  | .applyDelete nodeId _ _ => writers nodeId
  | .edit _ q _ | .remove _ q => q ≠ path
  | _ => False

/-- The writers have synced `h₀` at the path, each has written its own content since, and none has
work left from an earlier answer. -/
structure Diverged (writers : NodeId → Prop) (content : NodeId → Digest) (path : Path) (h₀ : Digest)
    (w : World) : Prop where
  row : liveHash (w.row path) = some h₀
  base : ∀ n, writers n → liveHash (baseAt w.server.db n path) = some h₀
  disk : ∀ n, writers n → OnDisk blake3 w n path (content n)
  idle : ∀ n, writers n →
    (w.answer n).toUpload = [] ∧ (w.answer n).toDownload = [] ∧ (w.answer n).toDelete = []

/-- The invariant: every writer's file keeps its content. The row is an uploaded one, or it is still
`h₀` and every writer's baseline is `h₀` or the writer's own content. What a writer is offered at
the path is its own entry. -/
structure Kept (writers : NodeId → Prop) (content : NodeId → Digest) (path : Path) (h₀ : Digest)
    (w : World) : Prop where
  row : ∃ m, w.row path = some m ∧ m.deleted = false ∧
    ((∃ s, m.vectorClock = VectorClock.new.advance s) ∨ m.contentHash = h₀ ∧
      ∀ n, writers n → liveHash (baseAt w.server.db n path) = some h₀ ∨
        liveHash (baseAt w.server.db n path) = some (content n))
  base : ∀ n, writers n → side (baseAt w.server.db n path) = .live
  disk : ∀ n, writers n → OnDisk blake3 w n path (content n)
  uploads : ∀ n, writers n → ∀ q, Listed (w.answer n).toUpload q → isWalkPath q = true
  downloads : ∀ n, writers n → ∀ entry ∈ (w.answer n).toDownload, entry.path = path →
    entry.contentHash = (content n).toList ∧ entry.encryptionNonce = []
  deletes : ∀ n, writers n → ¬ Listed (w.answer n).toDelete path

variable {writers : NodeId → Prop} {content : NodeId → Digest} {path : Path} {h₀ : Digest}

theorem Diverged.kept {w : World} (h : Diverged blake3 writers content path h₀ w) :
    Kept blake3 writers content path h₀ w where
  row := by
    obtain ⟨m, hm, hd, hh⟩ := liveHash_eq_some_iff.mp h.row
    exact ⟨m, hm, hd, Or.inr ⟨hh, fun n hn => Or.inl (h.base n hn)⟩⟩
  base n hn := side_eq_live_iff_liveHash.mpr ⟨h₀, h.base n hn⟩
  disk := h.disk
  uploads n hn q hq := by
    rw [(h.idle n hn).1] at hq
    obtain ⟨m, hm, -⟩ := hq
    cases hm
  downloads n hn entry hentry := by
    rw [(h.idle n hn).2.1] at hentry
    cases hentry
  deletes n hn hq := by
    rw [(h.idle n hn).2.2] at hq
    obtain ⟨m, hm, -⟩ := hq
    cases hm

/-- Three live sides where the local clock dominates, or the base has the content of one side, are
never a conflict. -/
theorem verdict_of_live {l r i : Option FileMeta} (hl : side l = .live) (hr : side r = .live)
    (hi : side i = .live)
    (h : clockCompare l r = .after ∨ liveHash i = liveHash l ∨ liveHash i = liveHash r) :
    (verdict l r i).1 = .skip ∨ (verdict l r i).1 = .upload ∨ (verdict l r i).1 = .download := by
  have hli := hashesEq_eq_true_iff_of_live hl hi
  have hri := hashesEq_eq_true_iff_of_live hr hi
  unfold verdict
  rw [hl, hr, hi]
  simp only
  by_cases h₁ : hashesEq l i = true
  · by_cases h₂ : hashesEq r i = true <;> simp [h₁, h₂]
  · by_cases h₂ : hashesEq r i = true
    · simp [h₁, h₂]
    · rcases h with hc | hb | hb
      · by_cases h₃ : hashesEq l r = true <;> simp [h₁, h₂, h₃, hc]
      · exact absurd (hli.mpr hb.symm) h₁
      · exact absurd (hri.mpr hb.symm) h₂

/-- What a writer's exchange finds at the path: the live row, the writer's own content under the empty
clock, and no reason for a conflict or a deletion. -/
theorem Kept.exchange {w : World} (hI : Kept blake3 writers content path h₀ w) {call : ExchangeCall}
    (hf : Faithful blake3 filter w (.exchange call)) (hw : isWalkPath path = true)
    (hx : filter.isExcluded path = false) (hn : writers call.nodeId) :
    serverAt w.server.db path = w.row path ∧
      (∃ c, clientAt call.files path = some c ∧ c.contentHash = content call.nodeId ∧
        c.encryptionNonce = none) ∧
      liveHash (clientAt call.files path) = some (content call.nodeId) ∧
      ((exchangeVerdict w.server.db call path).1 = .skip ∨
        (exchangeVerdict w.server.db call path).1 = .upload ∨
        (exchangeVerdict w.server.db call path).1 = .download) := by
  obtain ⟨bytes, hbytes, hhash⟩ := hI.disk call.nodeId hn
  have hlive : side (clientAt call.files path) = .live :=
    ((hf.clientAt blake3 path).resolve_right fun hno => hno.2 ⟨hw, hx, by simp [hbytes]⟩).1
  obtain ⟨c, hc, hcd⟩ := side_eq_live_iff.mp hlive
  obtain ⟨hclock, -, hnonce, -, hcontent⟩ := hf.of_clientAt blake3 hc
  have hch : c.contentHash = content call.nodeId := (hcontent bytes hbytes).trans hhash
  have hclient : liveHash (clientAt call.files path) = some (content call.nodeId) :=
    liveHash_eq_some_iff.mpr ⟨c, hc, hcd, hch⟩
  have hserver : serverAt w.server.db path = w.row path := serverAt_eq_row (of_clientAt hc).2.1
  refine ⟨hserver, ⟨c, hc, hch, hnonce⟩, hclient, ?_⟩
  obtain ⟨m, hm, hd, hrow⟩ := hI.row
  have hml : side (w.row path) = .live := side_eq_live_iff.mpr ⟨m, hm, hd⟩
  have hmh : liveHash (w.row path) = some m.contentHash := liveHash_eq_some_iff.mpr ⟨m, hm, hd, rfl⟩
  unfold exchangeVerdict
  rw [hserver]
  refine verdict_of_live hml hlive (hI.base _ hn) ?_
  rcases hrow with ⟨s, hs⟩ | ⟨hm₀, hbase⟩
  · refine Or.inl ?_
    rw [hm, hc]
    show m.vectorClock.compare c.vectorClock = .after
    rw [hs, hclock]
    exact VectorClock.compare_advance_new s
  · rcases hbase _ hn with hb | hb
    · exact Or.inr (Or.inl (by rw [hb, hmh, hm₀]))
    · exact Or.inr (Or.inr (by rw [hb, hclient]))

/-- A writer's baseline after a step: the old one, the row's content, or the writer's own. -/
theorem Kept.base_step {w : World} (hI : Kept blake3 writers content path h₀ w) {e : Event}
    (hf : Faithful blake3 filter w e) (hw : isWalkPath path = true)
    (hx : filter.isExcluded path = false) {n : NodeId} (hn : writers n) :
    liveHash (baseAt (step blake3 decrypt w e).server.db n path) =
        liveHash (baseAt w.server.db n path) ∨
      liveHash (baseAt (step blake3 decrypt w e).server.db n path) = liveHash (w.row path) ∨
      liveHash (baseAt (step blake3 decrypt w e).server.db n path) = some (content n) := by
  rcases baseAt_step blake3 decrypt w e n path with ⟨call, rfl, rfl, -⟩ | ⟨-, hkeep⟩
  · obtain ⟨hserver, -, hclient, hv⟩ := hI.exchange blake3 filter hf hw hx hn
    obtain ⟨m, hm, -⟩ := hI.row
    rw [baseAt_step_exchange, liveHash_baseAt_exchangeDb, hserver]
    rcases hv with hv | hv | hv
    all_goals
      rw [hv]
      simp [hm, hclient]
  · exact Or.inl (by rw [hkeep])

/-- The row after a turn of the writers: the old one, or an uploaded one. -/
theorem Kept.row_step {w : World} (hI : Kept blake3 writers content path h₀ w) {e : Event}
    (hf : Faithful blake3 filter w e) (ht : IsTurnOf writers path e) (hw : isWalkPath path = true)
    (hx : filter.isExcluded path = false) :
    (step blake3 decrypt w e).row path = w.row path ∨
      ∃ m, (step blake3 decrypt w e).row path = some m ∧ m.deleted = false ∧
        ∃ s, m.vectorClock = VectorClock.new.advance s := by
  obtain ⟨m, hm, hd, -⟩ := hI.row
  cases System.row_step blake3 decrypt w e path with
  | kept h => exact Or.inl h
  | tombstoned call he htomb h =>
      subst he
      obtain ⟨-, -, -, hv⟩ := hI.exchange blake3 filter hf hw hx ht
      have hdel := htomb.2
      rcases hv with hv | hv | hv <;> rw [hv] at hdel <;> cases hdel
  | uploaded call he row hrow h =>
      exact Or.inr ⟨_, h, hrow.2.1, w.server.serverNodeId, hrow.2.2.2⟩
  | restored hr h => cases e <;> first | exact hr.elim | exact ht.elim
  | purged htomb h =>
      rw [hm, side_some_of_live hd] at htomb
      cases htomb
  | indexed hi => cases e <;> first | exact ht.elim | cases hi

/-- The file of a writer after a turn: its own content. -/
theorem Kept.disk_step {w : World} (hI : Kept blake3 writers content path h₀ w) {e : Event}
    (hf : Faithful blake3 filter w e) (ht : IsTurnOf writers path e)
    (hzero : ∀ n, writers n → content n ≠ zeroDigest) {n : NodeId} (hn : writers n) :
    OnDisk blake3 (step blake3 decrypt w e) n path (content n) := by
  obtain ⟨bytes, hbytes, hhash⟩ := hI.disk n hn
  cases System.disk_step blake3 decrypt w e n path with
  | kept h => exact ⟨bytes, h.trans hbytes, hhash⟩
  | downloaded role includes entry other he hp hfetch h =>
      -- the entry on offer is the writer's own, so only bytes with its hash get through
      subst he
      obtain ⟨hcontent, hnonce⟩ := hI.downloads n hn entry hf hp
      obtain ⟨wire, -, hwire⟩ := Option.bind_eq_some_iff.mp hfetch
      exact ⟨other, h, of_materialize blake3 hnonce (hzero n hn) hcontent hwire⟩
  | deleted he h =>
      subst he
      exact absurd hf (hI.deletes n hn)
  | edited other he h =>
      subst he
      exact absurd rfl ht
  | removed he h =>
      subst he
      exact absurd rfl ht

/-- What a writer is offered after a turn: its own content, as plaintext. -/
theorem Kept.downloads_step {w : World} (hI : Kept blake3 writers content path h₀ w) {e : Event}
    (hf : Faithful blake3 filter w e) (hw : isWalkPath path = true)
    (hx : filter.isExcluded path = false) {n : NodeId} (hn : writers n) {entry : FileMetadata}
    (hentry : entry ∈ ((step blake3 decrypt w e).answer n).toDownload) (hp : entry.path = path) :
    entry.contentHash = (content n).toList ∧ entry.encryptionNonce = [] := by
  rcases answer_step blake3 decrypt w e n with ⟨call, rfl, rfl, hans⟩ | ⟨-, hans⟩
  · rw [hans] at hentry
    obtain ⟨-, f, hentryOf, hproto⟩ := mem_toDownload.mp hentry
    obtain ⟨-, ⟨c, hc, hch, hnonce⟩, -, hv⟩ := hI.exchange blake3 filter hf hw hx hn
    rw [hp] at hentryOf
    unfold downloadEntry at hentryOf
    rcases hv with hv | hv | hv
    · rw [hv] at hentryOf
      cases hentryOf
    · rw [hv, hc] at hentryOf
      obtain rfl : c = f := by simpa using hentryOf
      subst hproto
      refine ⟨by rw [← hch]; rfl, ?_⟩
      show c.encryptionNonce.getD [] = []
      rw [hnonce]
      rfl
    · rw [hv] at hentryOf
      cases hentryOf
  · rw [hans] at hentry
    exact hI.downloads n hn entry hentry hp

/-- **A turn of the writers keeps every writer's content.** -/
theorem Kept.step {w : World} (hI : Kept blake3 writers content path h₀ w) {e : Event}
    (hf : Faithful blake3 filter w e) (ht : IsTurnOf writers path e) (hw : isWalkPath path = true)
    (hx : filter.isExcluded path = false)
    (hzero : ∀ n, writers n → content n ≠ zeroDigest) :
    Kept blake3 writers content path h₀ (step blake3 decrypt w e) := by
  obtain ⟨m, hm, hd, hrow⟩ := hI.row
  have hmh : liveHash (w.row path) = some m.contentHash := liveHash_eq_some_iff.mpr ⟨m, hm, hd, rfl⟩
  have hml : side (w.row path) = .live := side_eq_live_iff_liveHash.mpr ⟨_, hmh⟩
  constructor
  case row =>
    rcases hI.row_step blake3 decrypt filter hf ht hw hx with h | ⟨m', h, hd', hs⟩
    · refine ⟨m, h.trans hm, hd, hrow.imp_right ?_⟩
      rintro ⟨hm₀, hbase⟩
      refine ⟨hm₀, fun n hn => ?_⟩
      rcases hI.base_step blake3 decrypt filter hf hw hx hn with hb | hb | hb
      · rw [hb]
        exact hbase n hn
      · exact Or.inl (by rw [hb, hmh, hm₀])
      · exact Or.inr hb
    · exact ⟨m', h, hd', Or.inl hs⟩
  case base =>
    intro n hn
    rw [side_eq_live_iff_liveHash]
    rcases hI.base_step blake3 decrypt filter hf hw hx hn with hb | hb | hb
    · rw [hb]
      exact side_eq_live_iff_liveHash.mp (hI.base n hn)
    · exact ⟨_, hb.trans hmh⟩
    · exact ⟨_, hb⟩
  case disk =>
    exact fun n hn => hI.disk_step blake3 decrypt filter hf ht hzero hn
  case uploads =>
    intro n hn q hq
    rcases answer_step blake3 decrypt w e n with ⟨call, rfl, rfl, hans⟩ | ⟨-, hans⟩
    · rw [hans] at hq
      obtain ⟨-, -, -, hsome, -⟩ := of_listed_toUpload hq
      exact ((hf.clientAt blake3 q).resolve_right fun hno => hsome hno.1).2.1
    · rw [hans] at hq
      exact hI.uploads n hn q hq
  case downloads =>
    exact fun n hn entry hentry hp => hI.downloads_step blake3 decrypt filter hf hw hx hn hentry hp
  case deletes =>
    intro n hn
    rcases answer_step blake3 decrypt w e n with ⟨call, rfl, rfl, hans⟩ | ⟨-, hans⟩
    · rw [hans]
      obtain ⟨-, -, hclient, -⟩ := hI.exchange blake3 filter hf hw hx hn
      exact not_listed_toDelete hml (side_eq_live_iff_liveHash.mpr ⟨_, hclient⟩)
    · rw [hans]
      exact hI.deletes n hn

/-- No update is lost by a step: a conflict was reported, or both contents are stored somewhere; and
without a conflict neither node's file has become the other's. -/
structure NoLostUpdate (a b : NodeId) (path : Path) (hA hB : Digest) (hist : List (World × Event))
    (w : World) (e : Event) : Prop where
  stored : ConflictReported blake3 decrypt path (hist ++ [(w, e)]) ∨
    Stored blake3 (System.step blake3 decrypt w e) path hA ∧
      Stored blake3 (System.step blake3 decrypt w e) path hB
  notOverwritten : ConflictReported blake3 decrypt path (hist ++ [(w, e)]) ∨
    ¬ OnDisk blake3 (System.step blake3 decrypt w e) a path hB ∧
      ¬ OnDisk blake3 (System.step blake3 decrypt w e) b path hA

/-- A file has one content. -/
theorem OnDisk.unique {w : World} {n : NodeId} {h h' : Digest} (hd : OnDisk blake3 w n path h)
    (hd' : OnDisk blake3 w n path h') : h = h' := by
  obtain ⟨bytes, hbytes, rfl⟩ := hd
  obtain ⟨other, hother, rfl⟩ := hd'
  rw [hbytes] at hother
  cases hother
  rfl

/-- **No lost update.** Two nodes have synced a path that their scans report, and write different
contents there. In every interleaving of their exchanges, uploads, downloads and deletions, after
every step a conflict was reported or both contents are stored, and neither node's file has become
the other's without a conflict. (An all-zero hash is the wire's placeholder for an unknown one and
turns the check of a download off, so the contents must not hash to it.)
Source: `services/sync.rs`, `exchange_state`, `delta_upload`; `reconciler/tree.rs`, `resolve_one` -/
theorem noLostUpdate {a b : NodeId} (hab : a ≠ b) {hA hB : Digest} (hne : hA ≠ hB)
    (hzeroA : hA ≠ zeroDigest) (hzeroB : hB ≠ zeroDigest) (hw : isWalkPath path = true)
    (hx : filter.isExcluded path = false) (w₀ : World) (h₀ : Digest)
    (hdiv : Diverged blake3 (fun n => n = a ∨ n = b) (fun n => if n = a then hA else hB) path h₀ w₀)
    (es : List Event)
    (hf : Trace.Always (System.step blake3 decrypt) (fun _ w e => Faithful blake3 filter w e ∧
      IsTurnOf (fun n => n = a ∨ n = b) path e) w₀ es) :
    Trace.Always (System.step blake3 decrypt) (NoLostUpdate blake3 decrypt a b path hA hB) w₀ es := by
  have hzero : ∀ n, (n = a ∨ n = b) → (if n = a then hA else hB) ≠ zeroDigest := by
    intro n _
    split_ifs
    · exact hzeroA
    · exact hzeroB
  refine (Trace.Always.of_invariant (I := fun _ w => Kept blake3 (fun n => n = a ∨ n = b)
    (fun n => if n = a then hA else hB) path h₀ w) hdiv.kept ?_ ?_ hf).1
  · rintro es e hI ⟨hfe, hte⟩
    have hnext := hI.step blake3 decrypt filter hfe hte hw hx hzero
    have hdiskA := hnext.disk a (Or.inl rfl)
    have hdiskB := hnext.disk b (Or.inr rfl)
    rw [if_pos rfl] at hdiskA
    rw [if_neg hab.symm] at hdiskB
    refine ⟨Or.inr ⟨Or.inr (Or.inr ⟨a, hdiskA⟩), Or.inr (Or.inr ⟨b, hdiskB⟩)⟩, Or.inr ⟨?_, ?_⟩⟩
    · exact fun h => hne (hdiskA.unique blake3 h)
    · exact fun h => hne (h.unique blake3 hdiskB)
  · rintro es e hI ⟨hfe, hte⟩
    exact hI.step blake3 decrypt filter hfe hte hw hx hzero

end

/-- Two nodes have synced a file with content `c`; then `a1` writes `a` and `b2` writes `b`. -/
def divergedWorld : World :=
  Trace.run (step sampleBlake3 noKey) emptyWorld
    (play emptyWorld
      [fun _ => .edit "a1" ["f"] [99], sync "a1", push "a1" ["f"], sync "b2", pull "b2" ["f"] true,
        sync "a1", sync "b2", fun _ => .edit "a1" ["f"] [97], fun _ => .edit "b2" ["f"] [98]])

/-- The theorem at an interleaving: both are asked for their content, both upload, and `a1` is then
offered its own entry, which the server no longer has. -/
theorem noLostUpdate_both_upload :
    Trace.Always (step sampleBlake3 noKey)
      (NoLostUpdate sampleBlake3 noKey "a1" "b2" ["f"] (sampleBlake3 [97]) (sampleBlake3 [98]))
      divergedWorld (play divergedWorld
        [sync "a1", sync "b2", push "a1" ["f"], push "b2" ["f"], sync "a1", pull "a1" ["f"] true]) := by
  refine noLostUpdate sampleBlake3 noKey .default (by decide) (by decide) (by decide) (by decide)
    (by decide) (by decide) divergedWorld (sampleBlake3 [99]) ⟨by decide +kernel, ?_, ?_, ?_⟩ _
    (Trace.always_of_forall_mem fun x hx => ?_)
  · rintro n (rfl | rfl) <;> decide +kernel
  · rintro n (rfl | rfl)
    · exact ⟨[97], by decide +kernel, rfl⟩
    · exact ⟨[98], by decide +kernel, rfl⟩
  · rintro n (rfl | rfl) <;> decide +kernel
  · simp only [play, Trace.history, List.mem_cons, List.not_mem_nil, or_false] at hx
    rcases hx with rfl | rfl | rfl | rfl | rfl | rfl
    all_goals
      refine ⟨faithful_of_check (by decide +kernel), ?_⟩
      first
      | exact Or.inl rfl
      | exact Or.inr rfl

end DiskArcana.System
