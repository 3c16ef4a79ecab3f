import DiskArcana.Core.Reconciler

/-!
# No silent loss in one reconciliation

What an action of `reconcile` may do to a live side, for every cell of the table and after the
rename pass.

* A live side is deleted or renamed away only over a live base with the same content, so a side
  that changed since the last sync is never the victim.
* Two live sides with different content are never skipped.
* Two live sides that both moved away from the base without either clock dominating become a
  conflict fork that names both versions, **unless the base is a tombstone**: over a tombstone
  the remote version is taken (`.download`), with a report that names both versions.
-/

namespace DiskArcana.Core

/-- What may justify dropping the live side `victim`: it has the content of the base, or the other
side is a tombstone whose clock strictly dominates. -/
def DropJustified (victim other base : Option FileMeta) : Prop :=
  hashesEq victim base = true ∨ (side other = .tomb ∧ clockCompare other victim = .after)

/-- Both sides are live with different content, neither is the live base's content, and neither
clock strictly dominates the other. -/
structure ConcurrentEdits (l r base : Option FileMeta) : Prop where
  liveLocal : side l = .live
  liveRemote : side r = .live
  differ : hashesEq l r = false
  localChanged : liveHash l ≠ liveHash base
  remoteChanged : liveHash r ≠ liveHash base
  notBefore : clockCompare l r ≠ .before
  notAfter : clockCompare l r ≠ .after

/-- The action's conflict report is of a kind and names the content of both versions, and the action
carries the remote one. -/
def NamesBoth (a : SyncAction) (kind : ConflictKind) (l r : Option FileMeta) : Prop :=
  a.serverVersion = r ∧
    ∃ report, a.conflict = some report ∧ report.kind = kind ∧ report.localHash = liveHash l ∧
      report.remoteHash = liveHash r

/-- **No silent loss** at the path of an action, given the three entries of that path.
`onConcurrent` says which action and which kind of report concurrent edits over a given base must
get. -/
structure NoSilentLoss (onConcurrent : Option FileMeta → ActionType → ConflictKind → Prop)
    (l r base : Option FileMeta) (a : SyncAction) : Prop where
  /-- A live local side is deleted or renamed away only with a justification. -/
  dropLocal : side l = .live → (a.action = .deleteLocal ∨ a.action = .renameLocal) →
    DropJustified l r base
  /-- A live remote side is deleted or renamed away only with a justification. -/
  dropRemote : side r = .live → (a.action = .deleteRemote ∨ a.action = .renameRemote) →
    DropJustified r l base
  /-- Concurrent edits get the required action and report, which names both versions. -/
  concurrent : ConcurrentEdits l r base →
    ∃ kind, onConcurrent base a.action kind ∧ NamesBoth a kind l r
  /-- Two live sides with different content are never skipped. -/
  noSkip : side l = .live → side r = .live → hashesEq l r = false → a.action ≠ .skip

/-! ## The cells of the table -/

/-- Content equality of two live entries, through their live hashes. -/
theorem hashesEq_eq_true_iff_of_live {x y : Option FileMeta} (hx : side x = .live)
    (hy : side y = .live) : hashesEq x y = true ↔ liveHash x = liveHash y := by
  obtain ⟨mx, rfl, hmx⟩ := side_eq_live_iff.mp hx
  obtain ⟨my, rfl, hmy⟩ := side_eq_live_iff.mp hy
  simp [hashesEq, liveHash, hmx, hmy]

/-- The cells that delete on the local side. -/
theorem verdict_deleteLocal_iff {l r i : Option FileMeta} :
    (verdict l r i).1 = .deleteLocal ↔
      (side l = .absent ∧ side r = .tomb) ∨
        (side l = .live ∧ side r ≠ .live ∧ side i = .live ∧ hashesEq l i = true) := by
  unfold verdict
  rcases side l with _ | _ | _ <;> rcases side r with _ | _ | _ <;>
    rcases side i with _ | _ | _ <;> simp only <;> (try split_ifs) <;> (try split) <;> simp_all

/-- The cells that delete on the remote side. -/
theorem verdict_deleteRemote_iff {l r i : Option FileMeta} :
    (verdict l r i).1 = .deleteRemote ↔
      (side l = .tomb ∧ side r = .absent ∧ side i ≠ .tomb) ∨
        (side l ≠ .live ∧ side r = .live ∧ side i = .live ∧ hashesEq r i = true) := by
  unfold verdict
  rcases side l with _ | _ | _ <;> rcases side r with _ | _ | _ <;>
    rcases side i with _ | _ | _ <;> simp only <;> (try split_ifs) <;> (try split) <;> simp_all

/-- The table downloads only what is live on the remote side. -/
theorem of_verdict_download {l r i : Option FileMeta} (h : (verdict l r i).1 = .download) :
    side r = .live := by
  revert h
  unfold verdict
  rcases side l with _ | _ | _ <;> rcases side r with _ | _ | _ <;>
    rcases side i with _ | _ | _ <;> simp only <;> (try split_ifs) <;> (try split) <;> simp_all

/-- When the table downloads an entry with the empty clock: the local side is not live and the base
is not live with the entry's content, or the local side is live with another content over a
tombstone or over a base with the local content. -/
theorem of_verdict_download_of_new {l i : Option FileMeta} {r : FileMeta}
    (hr : r.vectorClock = .new) (h : (verdict l (some r) i).1 = .download) :
    (side l ≠ .live ∧ liveHash i ≠ liveHash (some r)) ∨
      (side l = .live ∧ liveHash l ≠ liveHash (some r) ∧
        (side i = .tomb ∨ liveHash i = liveHash l)) := by
  have hrl : side (some r) = .live := of_verdict_download h
  have hclock : clockCompare l (some r) ≠ .before := by
    rcases l with _ | m
    · simp [clockCompare]
    · show m.vectorClock.compare r.vectorClock ≠ .before
      rw [hr]
      exact VectorClock.compare_new_ne_before _
  have hrd : r.deleted = false := by
    obtain ⟨m, hm, hd⟩ := side_eq_live_iff.mp hrl
    cases hm
    exact hd
  revert h
  rcases side_cases l with rfl | ⟨l, rfl, hl⟩ | ⟨l, rfl, hl⟩ <;>
    rcases side_cases i with rfl | ⟨i, rfl, hi⟩ | ⟨i, rfl, hi⟩ <;>
    simp only [verdict, side, liveHash, hashesEq, *] <;> simp_all
  all_goals grind

/-- The table uploads only what is live on the local side. -/
theorem of_verdict_upload {l r i : Option FileMeta} (h : (verdict l r i).1 = .upload) :
    side l = .live := by
  revert h
  unfold verdict
  rcases side l with _ | _ | _ <;> rcases side r with _ | _ | _ <;>
    rcases side i with _ | _ | _ <;> simp only <;> (try split_ifs) <;> (try split) <;> simp_all

/-- The table uploads over a live side only what has another content. -/
theorem contentHash_ne_of_verdict_upload {l r : FileMeta} {i : Option FileMeta}
    (hl : l.deleted = false) (hr : r.deleted = false)
    (h : (verdict (some l) (some r) i).1 = .upload) : r.contentHash ≠ l.contentHash := by
  intro heq
  revert h
  rcases side_cases i with rfl | ⟨i, rfl, hi⟩ | ⟨i, rfl, hi⟩ <;>
    simp only [verdict, side, hashesEq, *] <;> simp_all

/-- A live side that the other side says nothing about is uploaded, unless the base has its
content. -/
theorem verdict_upload_iff_of_none {l i : Option FileMeta} (hl : side l = .live) :
    (verdict l none i).1 = .upload ↔ hashesEq l i = false := by
  unfold verdict
  rw [hl]
  rcases hi : side i with _ | _ | _
  · rw [side_eq_absent_iff.mp hi]
    rcases l with _ | m <;> simp [hashesEq]
  all_goals
    simp only [side_none]
    rcases hashesEq l i with _ | _ <;> simp

/-- The table forks only two live sides with different content, and merges nothing. -/
theorem of_verdict_conflict {l r i : Option FileMeta}
    (h : (verdict l r i).1 = .conflictFork ∨ (verdict l r i).1 = .conflictMerge) :
    (verdict l r i).1 = .conflictFork ∧ side l = .live ∧ side r = .live ∧ hashesEq l r = false := by
  revert h
  unfold verdict
  rcases side l with _ | _ | _ <;> rcases side r with _ | _ | _ <;>
    rcases side i with _ | _ | _ <;> simp only <;> (try split_ifs) <;> (try split) <;> simp_all

/-- The table itself renames nothing. -/
theorem verdict_ne_rename (l r i : Option FileMeta) :
    (verdict l r i).1 ≠ .renameLocal ∧ (verdict l r i).1 ≠ .renameRemote := by
  unfold verdict
  rcases side l with _ | _ | _ <;> rcases side r with _ | _ | _ <;>
    rcases side i with _ | _ | _ <;> simp only <;> (try split_ifs) <;> (try split) <;> simp_all

/-- The table never skips two live sides with different content. -/
theorem verdict_ne_skip {l r i : Option FileMeta} (hl : side l = .live) (hr : side r = .live)
    (hne : hashesEq l r = false) : (verdict l r i).1 ≠ .skip := by
  have htrans : hashesEq l i = true → hashesEq r i = true → hashesEq l r = true := by
    obtain ⟨ml, rfl, -⟩ := side_eq_live_iff.mp hl
    obtain ⟨mr, rfl, -⟩ := side_eq_live_iff.mp hr
    rcases i with _ | mi
    · simp [hashesEq]
    · simp only [hashesEq, beq_iff_eq]
      exact fun h₁ h₂ => h₁.trans h₂.symm
  unfold verdict
  rw [hl, hr]
  rcases side i with _ | _ | _ <;> simp only
  · simp [hne]
  · by_cases h₁ : hashesEq l i = true
    · by_cases h₂ : hashesEq r i = true
      · rw [htrans h₁ h₂] at hne
        cases hne
      · simp [h₁, h₂]
    · by_cases h₂ : hashesEq r i = true
      · simp [h₁, h₂]
      · rcases clockCompare l r with _ | _ | _ | _ <;> simp [h₁, h₂, hne]
  · simp [hne]

/-- The answer to concurrent edits: a fork, or the remote version over a tombstone base. -/
def concurrentVerdict (base : Option FileMeta) : ActionType × ConflictKind :=
  if side base = .tomb then (.download, .modifiedDeleted) else (.conflictFork, .concurrent)

/-- An action and a kind of report are the answer to concurrent edits. -/
def AnswersConcurrent (base : Option FileMeta) (action : ActionType) (kind : ConflictKind) : Prop :=
  concurrentVerdict base = (action, kind)

/-- The table's cell of concurrent edits. -/
theorem verdict_of_concurrentEdits {l r i : Option FileMeta} (h : ConcurrentEdits l r i) :
    verdict l r i = ((concurrentVerdict i).1, some (concurrentVerdict i).2) := by
  have hli : side i = .live → hashesEq l i = false := fun hi => by
    have := h.localChanged
    rwa [Ne, ← hashesEq_eq_true_iff_of_live h.liveLocal hi, Bool.not_eq_true] at this
  have hri : side i = .live → hashesEq r i = false := fun hi => by
    have := h.remoteChanged
    rwa [Ne, ← hashesEq_eq_true_iff_of_live h.liveRemote hi, Bool.not_eq_true] at this
  unfold verdict concurrentVerdict
  rw [h.liveLocal, h.liveRemote]
  rcases hi : side i with _ | _ | _ <;> simp only
  · simp [h.differ]
  · have hb := h.notBefore
    have ha := h.notAfter
    rcases hc : clockCompare l r with _ | _ | _ | _
    · simp [hli hi, hri hi, h.differ]
    · exact absurd hc hb
    · exact absurd hc ha
    · simp [hli hi, hri hi, h.differ]
  · simp [h.differ]

/-- A verdict with a conflict kind becomes an action that names both versions. -/
theorem namesBoth_actionOf {path : Path} {l r i : Option FileMeta} (hl : side l = .live)
    (hr : side r = .live) {action : ActionType} {kind : ConflictKind}
    (h : verdict l r i = (action, some kind)) : NamesBoth (actionOf path l r i) kind l r := by
  obtain ⟨ml, rfl, hml⟩ := side_eq_live_iff.mp hl
  obtain ⟨mr, rfl, hmr⟩ := side_eq_live_iff.mp hr
  refine ⟨actionOf_serverVersion _ _ _ _, ?_⟩
  unfold actionOf
  rw [h]
  exact ⟨_, rfl, rfl, by simp [liveHash, hml], by simp [liveHash, hmr]⟩

/-- Every cell of the table loses nothing silently. -/
theorem noSilentLoss_actionOf (path : Path) (l r i : Option FileMeta) :
    NoSilentLoss AnswersConcurrent l r i (actionOf path l r i) where
  dropLocal := by
    intro hl ha
    rw [actionOf_action] at ha
    rcases ha with ha | ha
    · rcases verdict_deleteLocal_iff.mp ha with ⟨h, -⟩ | ⟨-, -, -, h⟩
      · rw [hl] at h
        cases h
      · exact Or.inl h
    · exact absurd ha (verdict_ne_rename l r i).1
  dropRemote := by
    intro hr ha
    rw [actionOf_action] at ha
    rcases ha with ha | ha
    · rcases verdict_deleteRemote_iff.mp ha with ⟨-, h, -⟩ | ⟨-, -, -, h⟩
      · rw [hr] at h
        cases h
      · exact Or.inl h
    · exact absurd ha (verdict_ne_rename l r i).2
  concurrent := by
    intro h
    have hk := verdict_of_concurrentEdits h
    refine ⟨(concurrentVerdict i).2, ?_, namesBoth_actionOf h.liveLocal h.liveRemote hk⟩
    rw [actionOf_action, hk]
    rfl
  noSkip := by
    intro hl hr hne
    rw [actionOf_action]
    exact verdict_ne_skip hl hr hne

/-! ## The whole reconciliation -/

/-- Whatever the rename pass puts at the path of a delete-remote loses nothing silently: the local
side is gone there, and the remote side has the content of the base. -/
theorem noSilentLoss_of_deleteRemote {l r i : Option FileMeta}
    (hv : (verdict l r i).1 = .deleteRemote) (a : SyncAction) :
    NoSilentLoss AnswersConcurrent l r i a := by
  have hl : side l ≠ .live := by
    rcases verdict_deleteRemote_iff.mp hv with ⟨h, -⟩ | ⟨h, -⟩
    · rw [h]
      simp
    · exact h
  refine ⟨fun h => absurd h hl, fun hr _ => ?_, fun h => absurd h.liveLocal hl,
    fun h => absurd h hl⟩
  rcases verdict_deleteRemote_iff.mp hv with ⟨-, h, -⟩ | ⟨-, -, -, h⟩
  · rw [hr] at h
    cases h
  · exact Or.inl h

/-- **No silent loss in one reconciliation.** For any three snapshots the engine returns actions,
each of which drops a live side only if it is unchanged since the base, never skips two differing
live sides, and answers concurrent edits with a fork (over a tombstone base: with the remote
version, as a modified-deleted conflict) under a report that names both versions. No path with concurrent edits goes without an
action.
Source: `reconciler/tree.rs`, `reconcile`, `detect_remote_renames`, `resolve_one` -/
theorem reconcile_noSilentLoss (localFiles remoteFiles baseFiles : List FileMeta) :
    ∃ actions, reconcile localFiles remoteFiles baseFiles = .ok actions ∧
      (∀ a ∈ actions, NoSilentLoss AnswersConcurrent ((indexByPath localFiles).lookup a.path)
        ((indexByPath remoteFiles).lookup a.path) ((indexByPath baseFiles).lookup a.path) a) ∧
      ∀ path, ConcurrentEdits ((indexByPath localFiles).lookup path)
          ((indexByPath remoteFiles).lookup path) ((indexByPath baseFiles).lookup path) →
        ∃ a ∈ actions, a.path = path := by
  refine ⟨_, reconcile_eq _ _ _, fun a ha => ?_, fun path h => ?_⟩
  · obtain ⟨o, ho, hrw⟩ := of_mem_detectRemoteRenames ha
    rcases hrw with rfl | ⟨-, -, del, hdel, hdelAct, hpath⟩ | ⟨hoAct, -, hpath⟩
    · obtain ⟨-, hao⟩ := mem_plainActions.mp ho
      have := noSilentLoss_actionOf a.path ((indexByPath localFiles).lookup a.path)
        ((indexByPath remoteFiles).lookup a.path) ((indexByPath baseFiles).lookup a.path)
      rwa [← hao] at this
    · obtain ⟨-, hdo⟩ := mem_plainActions.mp hdel
      rw [hdo, actionOf_action] at hdelAct
      rw [hpath]
      exact noSilentLoss_of_deleteRemote hdelAct a
    · obtain ⟨-, hoo⟩ := mem_plainActions.mp ho
      rw [hoo, actionOf_action] at hoAct
      rw [hpath]
      exact noSilentLoss_of_deleteRemote hoAct a
  · have hmem : path ∈ unionPaths (indexByPath localFiles) (indexByPath remoteFiles)
        (indexByPath baseFiles) := by
      refine mem_unionPaths.mpr (Or.inl fun hn => ?_)
      have := h.liveLocal
      rw [hn] at this
      cases this
    have hplain := List.mem_map_of_mem (f := fun path => actionOf path
      ((indexByPath localFiles).lookup path) ((indexByPath remoteFiles).lookup path)
      ((indexByPath baseFiles).lookup path)) hmem
    refine ⟨_, mem_detectRemoteRenames_of_mem hplain ?_ ?_, actionOf_path _ _ _ _⟩
    all_goals
      rw [actionOf_action, verdict_of_concurrentEdits h]
      unfold concurrentVerdict
      split_ifs <;> simp

/-- A one-file snapshot entry with the scanner's default clock. -/
def plainMeta (path : Path) (hash : Digest) (deleted : Bool) : FileMeta where
  path := path
  contentHash := hash
  size := 0
  mtimeNs := 0
  inode := none
  vectorClock := .new
  deleted := deleted
  deletedAt := if deleted then some 0 else none
  nodeId := ""
  encryptionNonce := none
  versionId := none
  parentVersionId := none

/-- A fork is not guaranteed over every base: both sides recreate a deleted path with different
content, and the engine takes the remote version.
Source: `tests/reconciler_matrix.rs`, `scenario_35` -/
theorem reconcile_download_over_tombstone :
    ¬ ∀ (localFiles remoteFiles baseFiles : List FileMeta) (actions : List SyncAction),
      reconcile localFiles remoteFiles baseFiles = .ok actions → ∀ a ∈ actions,
        NoSilentLoss (fun _ action _ => action = .conflictFork) ((indexByPath localFiles).lookup a.path)
          ((indexByPath remoteFiles).lookup a.path) ((indexByPath baseFiles).lookup a.path) a := by
  intro h
  have hloss := h [plainMeta ["f.md"] (List.Vector.replicate 32 0xCC) false]
    [plainMeta ["f.md"] (List.Vector.replicate 32 0x99) false]
    [plainMeta ["f.md"] (List.Vector.replicate 32 0x01) true] _ (reconcile_eq _ _ _)
    (actionOf ["f.md"] (some (plainMeta ["f.md"] (List.Vector.replicate 32 0xCC) false))
      (some (plainMeta ["f.md"] (List.Vector.replicate 32 0x99) false))
      (some (plainMeta ["f.md"] (List.Vector.replicate 32 0x01) true))) (by decide +kernel)
  obtain ⟨kind, hact, -⟩ := hloss.concurrent ⟨by decide, by decide, by decide, by decide, by decide,
    by decide, by decide⟩
  revert hact
  decide

end DiskArcana.Core
