import DiskArcana.Core.Renames

/-!
# Renames against plain decisions

What the returned actions mean for the remote side is a map from paths to contents, with a file's
content named by its hash: an upload writes the local content, a delete-remote removes the path, a
rename moves what the remote has. Each action touches its own paths only and no two of a list touch
a common one, so the map after the list is read off path by path.

The rename pass never looks at the remote snapshot. Where it pairs an upload with a delete of
a path that the remote does not have, the rename moves nothing and the uploaded content is lost;
`reconcile_renames_preserve_iff` says that this is the only way the meaning changes.
-/

namespace DiskArcana.Core

open DiskArcana.Lib

/-! ## What the actions do to the remote side -/

/-- The live contents of one side, by hash. -/
def liveContents (idx : PathMap FileMeta) (path : Path) : Option Digest :=
  liveHash (idx.lookup path)

/-- The remote contents after one action. A rename moves what is at its path, if anything is. -/
def applyRemote (l : PathMap FileMeta) (m : Path → Option Digest) (a : SyncAction) :
    Path → Option Digest :=
  match a.action with
  | .upload => Function.update m a.path (liveContents l a.path)
  | .deleteRemote => Function.update m a.path none
  | .renameRemote =>
    match a.renameTo, m a.path with
    | some target, some content =>
      Function.update (Function.update m a.path none) target (some content)
    | _, _ => m
  | .skip | .download | .deleteLocal | .conflictFork | .conflictMerge | .renameLocal => m

/-- The remote contents after a list of actions. -/
def applyActions (l : PathMap FileMeta) (m : Path → Option Digest) (actions : List SyncAction) :
    Path → Option Digest :=
  actions.foldl (applyRemote l) m

/-- An action names its path, and a rename its new name too. -/
def Names (a : SyncAction) (path : Path) : Prop := a.path = path ∨ a.renameTo = some path

instance (a : SyncAction) (path : Path) : Decidable (Names a path) := by
  unfold Names
  infer_instance

/-- The paths whose remote content an action reads or writes. -/
def remoteCells (a : SyncAction) : Set Path :=
  match a.action with
  | .upload | .deleteRemote => {a.path}
  | .renameRemote => {path | Names a path}
  | .skip | .download | .deleteLocal | .conflictFork | .conflictMerge | .renameLocal => ∅

/-- An action reads and writes the paths it names. -/
theorem applyRemote_local (l : PathMap FileMeta) :
    Local (fun (m : Path → Option Digest) path => m path) (applyRemote l) remoteCells where
  frame m a path hpath := by
    unfold remoteCells at hpath
    unfold applyRemote
    cases hact : a.action <;> simp only [hact] at hpath ⊢
    case upload | deleteRemote => exact Function.update_of_ne hpath _ _
    case renameRemote =>
      obtain ⟨hp, ht⟩ : a.path ≠ path ∧ a.renameTo ≠ some path := not_or.mp hpath
      rcases htarget : a.renameTo with _ | target
      · rfl
      rcases m a.path with _ | content
      · rfl
      · rw [htarget] at ht
        show Function.update (Function.update m a.path none) target (some content) path = m path
        have hne : path ≠ target := fun h => ht (congrArg some h.symm)
        rw [Function.update_of_ne hne, Function.update_of_ne hp.symm]
  congr m m' a heq path hpath := by
    have hself := heq path hpath
    unfold remoteCells at heq
    unfold applyRemote
    cases hact : a.action <;> simp only [hact] at heq ⊢
    case upload | deleteRemote => simp only [Function.update_apply, hself]
    case renameRemote =>
      rw [heq a.path (Or.inl rfl)]
      rcases a.renameTo with _ | target
      · exact hself
      rcases m' a.path with _ | content
      · exact hself
      · simp only [Function.update_apply, hself]
    all_goals exact hself

/-! ## The remote side after the plain decisions -/

section Plain

variable {l r i : PathMap FileMeta} {a b path : Path}

theorem decision_of_notMem (h : path ∉ unionPaths l r i) : decision l r i path = .skip := by
  rw [mem_unionPaths, not_or, not_or, not_not, not_not, not_not] at h
  unfold decision
  rw [h.1, h.2.1, h.2.2]
  rfl

theorem remoteCells_plainAction_subset (l r i : PathMap FileMeta) (path : Path) :
    remoteCells (plainAction l r i path) ⊆ {path} := by
  unfold remoteCells
  rw [plainAction_action, plainAction_path]
  have hne := decision_ne_renameRemote l r i path
  cases hd : decision l r i path <;> simp_all

/-- What the plain decision leaves at a path. -/
def plainContent (l r i : PathMap FileMeta) (m : Path → Option Digest) (path : Path) :
    Option Digest :=
  match decision l r i path with
  | .upload => liveContents l path
  | .deleteRemote => none
  | _ => m path

theorem applyRemote_plainAction (l r i : PathMap FileMeta) (m : Path → Option Digest)
    (path : Path) :
    applyRemote l m (plainAction l r i path) path = plainContent l r i m path := by
  unfold applyRemote plainContent
  rw [plainAction_action, plainAction_path]
  have hne := decision_ne_renameRemote l r i path
  cases hd : decision l r i path <;> simp_all

/-- Where the plain action has no cell, the content stays. -/
theorem plainContent_of_notMem (m : Path → Option Digest)
    (h : path ∉ remoteCells (plainAction l r i path)) : plainContent l r i m path = m path := by
  rw [← applyRemote_plainAction]
  exact (applyRemote_local l).frame m _ path h

theorem plainContent_of_notMem_unionPaths (m : Path → Option Digest)
    (h : path ∉ unionPaths l r i) : plainContent l r i m path = m path := by
  unfold plainContent
  rw [decision_of_notMem h]

/-- **The plain decisions, path by path.** -/
theorem applyActions_plainActions (l r i : PathMap FileMeta) (m : Path → Option Digest) :
    applyActions l m (plainActions l r i) = plainContent l r i m := by
  funext path
  have hdisj : (plainActions l r i).Pairwise fun x y =>
      Disjoint (remoteCells x) (remoteCells y) := by
    rw [plainActions_eq_map, List.pairwise_map]
    refine (unionPaths_nodup l r i).imp fun {p q} hne => ?_
    apply Set.disjoint_of_subset (remoteCells_plainAction_subset l r i p)
      (remoteCells_plainAction_subset l r i q)
    simpa using hne
  by_cases hcell : ∃ o ∈ plainActions l r i, path ∈ remoteCells o
  · obtain ⟨o, ho, hpath⟩ := hcell
    obtain ⟨p, hp, rfl⟩ := List.mem_map.mp ho
    obtain rfl := remoteCells_plainAction_subset l r i p hpath
    rw [← applyRemote_plainAction]
    exact (applyRemote_local l).get_foldl_of_mem hdisj m ho hpath
  · push Not at hcell
    have hkeep : applyActions l m (plainActions l r i) path = m path :=
      (applyRemote_local l).get_foldl_of_forall_notMem m hcell
    rw [hkeep]
    by_cases hmem : path ∈ unionPaths l r i
    · exact (plainContent_of_notMem m (hcell _ (List.mem_map_of_mem hmem))).symm
    · exact (plainContent_of_notMem_unionPaths m hmem).symm

end Plain

/-! ## The remote side after the rename pass -/

section Lists

variable {α β : Type} {R : α → β → Prop} {us : List α} {xs : List β}

theorem exists_of_forall₂_left (h : List.Forall₂ R us xs) {u : α} (hu : u ∈ us) :
    ∃ x ∈ xs, R u x := by
  obtain ⟨hlen, hget⟩ := List.forall₂_iff_get.mp h
  obtain ⟨j, hj, rfl⟩ := List.getElem_of_mem hu
  exact ⟨_, List.getElem_mem (hlen ▸ hj), hget j hj (hlen ▸ hj)⟩

theorem exists_of_forall₂_right (h : List.Forall₂ R us xs) {x : β} (hx : x ∈ xs) :
    ∃ u ∈ us, R u x := exists_of_forall₂_left h.flip hx

/-- A relation between the elements of one list goes over to a list related to it. -/
theorem pairwise_of_forall₂ {S : α → α → Prop} {T : β → β → Prop} (h : List.Forall₂ R us xs)
    (hT : ∀ {u v x y}, S u v → R u x → R v y → T x y) (hus : us.Pairwise S) : xs.Pairwise T := by
  obtain ⟨hlen, hget⟩ := List.forall₂_iff_get.mp h
  rw [List.pairwise_iff_getElem] at hus ⊢
  intro j j' hj hj' hlt
  have hj₁ : j < us.length := hlen ▸ hj
  have hj₂ : j' < us.length := hlen ▸ hj'
  exact hT (hus j j' hj₁ hj₂ hlt) (hget j hj₁ hj) (hget j' hj₂ hj')

end Lists

section Renamed

variable {l r i : PathMap FileMeta} {a b path p q : Path} {x y : SyncAction}

/-- Which path an action's cell belongs to: its own, when that is no rename's source, or the source
of its rename. -/
theorem Rewritten.of_mem_remoteCells (h : Rewritten l r i p x) (hq : q ∈ remoteCells x) :
    (q = p ∧ ∀ a, ¬ RenamePair l r i a p) ∨ RenamePair l r i p q := by
  cases h with
  | @renamed b hb =>
      rcases hq with rfl | htarget
      · exact Or.inr hb
      · obtain rfl : p = q := Option.some.inj htarget
        exact Or.inl ⟨rfl, fun a ha => hb.left_ne_right ha rfl⟩
  | skipped ha => exact absurd hq (Set.notMem_empty q)
  | plain hl hr => exact Or.inl ⟨remoteCells_plainAction_subset l r i p hq, hr⟩

/-- The actions of two paths have no cell in common. -/
theorem Rewritten.disjoint (hne : p ≠ q) (hx : Rewritten l r i p x) (hy : Rewritten l r i q y) :
    Disjoint (remoteCells x) (remoteCells y) := by
  rw [Set.disjoint_left]
  intro c hcx hcy
  rcases hx.of_mem_remoteCells hcx with ⟨rfl, hc⟩ | hp <;>
    rcases hy.of_mem_remoteCells hcy with ⟨rfl, hc'⟩ | hq
  · exact hne rfl
  · exact hc q hq
  · exact hc' p hp
  · exact hne (hp.left_unique hq)

/-- After the pass a cell holds what its own action makes of the remote contents. -/
theorem applyActions_eq (hx : x ∈ detectRemoteRenames l i (plainActions l r i))
    (hpath : path ∈ remoteCells x) (m : Path → Option Digest) :
    applyActions l m (detectRemoteRenames l i (plainActions l r i)) path =
      applyRemote l m x path := by
  have hdisj : (detectRemoteRenames l i (plainActions l r i)).Pairwise fun x y =>
      Disjoint (remoteCells x) (remoteCells y) :=
    pairwise_of_forall₂ (forall₂_rewritten l r i) Rewritten.disjoint (unionPaths_nodup l r i)
  exact (applyRemote_local l).get_foldl_of_mem hdisj m hx hpath

/-- The rename of a pair is among the actions. -/
theorem renameAction_mem (hab : RenamePair l r i a b) :
    renameAction l r i a b ∈ detectRemoteRenames l i (plainActions l r i) := by
  obtain ⟨x, hx, hrw⟩ := exists_of_forall₂_left (forall₂_rewritten l r i) hab.mem_left
  cases hrw with
  | renamed hab' =>
      rw [hab.right_unique hab']
      exact hx
  | skipped h => exact absurd rfl (hab.left_ne_right h)
  | plain h _ => exact absurd hab (h b)

/-- **The paths of a pair after the pass.** The target holds what the remote has at the source, and
keeps its own content where the remote has nothing there. The source is gone. -/
theorem applyActions_of_pair (hab : RenamePair l r i a b) (m : Path → Option Digest) :
    applyActions l m (detectRemoteRenames l i (plainActions l r i)) a = (m b).or (m a) ∧
      applyActions l m (detectRemoteRenames l i (plainActions l r i)) b = none := by
  have hne : a ≠ b := hab.left_ne_right hab
  have hmem := renameAction_mem hab
  have ha : a ∈ remoteCells (renameAction l r i a b) := Or.inr rfl
  have hb : b ∈ remoteCells (renameAction l r i a b) := Or.inl rfl
  rw [applyActions_eq hmem ha, applyActions_eq hmem hb]
  unfold applyRemote renameAction
  rcases hsource : m b with _ | content
  · simp [hsource]
  · simp [Function.update_of_ne hne.symm]

/-- **A path of no pair** ends as the plain decision leaves it. -/
theorem applyActions_of_not_pair (hl : ∀ b, ¬ RenamePair l r i path b)
    (hr : ∀ a, ¬ RenamePair l r i a path) (m : Path → Option Digest) :
    applyActions l m (detectRemoteRenames l i (plainActions l r i)) path =
      plainContent l r i m path := by
  -- only the plain action of the path itself could touch it
  have hown : ∀ x ∈ detectRemoteRenames l i (plainActions l r i), path ∈ remoteCells x →
      x = plainAction l r i path := by
    intro x hx hpath
    obtain ⟨p, -, hrw⟩ := exists_of_forall₂_right (forall₂_rewritten l r i) hx
    rcases hrw.of_mem_remoteCells hpath with ⟨rfl, -⟩ | hpair
    · cases hrw with
      | renamed h => exact absurd h (hl _)
      | skipped h => exact absurd h (hr _)
      | plain _ _ => rfl
    · exact absurd hpair (hr p)
  by_cases hcell : ∃ x ∈ detectRemoteRenames l i (plainActions l r i), path ∈ remoteCells x
  · obtain ⟨x, hx, hpath⟩ := hcell
    rw [applyActions_eq hx hpath, hown x hx hpath, applyRemote_plainAction]
  · push Not at hcell
    have hkeep : applyActions l m (detectRemoteRenames l i (plainActions l r i)) path = m path :=
      (applyRemote_local l).get_foldl_of_forall_notMem m hcell
    rw [hkeep]
    by_cases hmem : path ∈ unionPaths l r i
    · obtain ⟨x, hx, hrw⟩ := exists_of_forall₂_left (forall₂_rewritten l r i) hmem
      cases hrw with
      | renamed h => exact absurd h (hl _)
      | skipped h => exact absurd h (hr _)
      | plain _ _ => exact (plainContent_of_notMem m (hcell _ hx)).symm
    · exact (plainContent_of_notMem_unionPaths m hmem).symm

/-! ## When the renames preserve the meaning -/

/-- The content a pair is about: the local one of its target is the base's of its source. -/
theorem RenamePair.exists_hash (hab : RenamePair l r i a b) :
    ∃ ml mi, l.lookup a = some ml ∧ i.lookup b = some mi ∧ ml.deleted = false ∧
      ml.contentHash = mi.contentHash := by
  obtain ⟨k, ha, hb⟩ := hab
  obtain ⟨hd, ml, hml, hkl⟩ := of_uploadKey ha.1
  obtain ⟨-, mi, hmi, hki⟩ := of_deleteKey hb.1
  obtain ⟨m, hm, hlive⟩ := side_eq_live_iff.mp (of_verdict_upload hd)
  obtain rfl : ml = m := Option.some.inj (hml.symm.trans hm)
  obtain ⟨nl, -, rfl⟩ := Option.map_eq_some_iff.mp hkl
  obtain ⟨ni, -, hk⟩ := Option.map_eq_some_iff.mp hki
  exact ⟨ml, mi, hml, hmi, hlive, (congrArg Prod.snd hk).symm⟩

/-- A live source on the remote holds the target's content. -/
theorem RenamePair.source_eq (hab : RenamePair l r i a b) (hlive : side (r.lookup b) = .live) :
    liveContents r b = liveContents l a ∧ ∃ h, liveContents l a = some h := by
  obtain ⟨ml, mi, hml, hmi, hdel, hhash⟩ := hab.exists_hash
  rcases verdict_deleteRemote_iff.mp hab.decision_right with ⟨-, habsent, -⟩ | ⟨-, -, -, heq⟩
  · rw [hlive] at habsent
    cases habsent
  · obtain ⟨mr, hmr, hrdel⟩ := side_eq_live_iff.mp hlive
    rw [hmr, hmi] at heq
    have hri : mr.contentHash = mi.contentHash := by simpa [hashesEq] using heq
    have hl : liveContents l a = some ml.contentHash := by simp [liveContents, liveHash, hml, hdel]
    refine ⟨?_, _, hl⟩
    rw [hl, hhash, ← hri]
    simp [liveContents, liveHash, hmr, hrdel]

/-- Where the remote has nothing at the source, the uploaded content does not arrive. -/
theorem RenamePair.target_ne (hab : RenamePair l r i a b) (hlive : side (r.lookup b) ≠ .live) :
    (liveContents r b).or (liveContents r a) ≠ liveContents l a := by
  obtain ⟨ml, mi, hml, -, hdel, -⟩ := hab.exists_hash
  have hnone : liveContents r b = none := by
    rcases h : liveContents r b with _ | c
    · rfl
    · exact absurd (side_eq_live_iff_liveHash.mpr ⟨c, h⟩) hlive
  have hl : liveContents l a = some ml.contentHash := by simp [liveContents, liveHash, hml, hdel]
  rw [hnone, hl, Option.none_or]
  intro heq
  obtain ⟨mr, hmr, hrdel, hhash⟩ := liveHash_eq_some_iff.mp heq
  have hup : (verdict (l.lookup a) (r.lookup a) (i.lookup a)).1 = .upload := hab.decision_left
  rw [hml, hmr] at hup
  exact contentHash_ne_of_verdict_upload hdel hrdel hup hhash

/-- With every source live on the remote, each path ends as the plain decisions leave it. -/
theorem applyActions_eq_plain
    (hlive : ∀ a b, RenamePair l r i a b → side (r.lookup b) = .live) :
    applyActions l (liveContents r) (detectRemoteRenames l i (plainActions l r i)) =
      applyActions l (liveContents r) (plainActions l r i) := by
  rw [applyActions_plainActions]
  funext path
  by_cases hl : ∃ b, RenamePair l r i path b
  · obtain ⟨b, hab⟩ := hl
    obtain ⟨heq, h, hh⟩ := hab.source_eq (hlive path b hab)
    rw [(applyActions_of_pair hab _).1, heq, hh, Option.some_or, ← hh]
    unfold plainContent
    rw [hab.decision_left]
  by_cases hr : ∃ a, RenamePair l r i a path
  · obtain ⟨a, hab⟩ := hr
    rw [(applyActions_of_pair hab _).2]
    unfold plainContent
    rw [hab.decision_right]
  · push Not at hl hr
    exact applyActions_of_not_pair hl hr _

/-- A rename of the returned list comes from a pair. -/
theorem of_mem_renameRemote (hx : x ∈ detectRemoteRenames l i (plainActions l r i))
    (hact : x.action = .renameRemote) : ∃ a, RenamePair l r i a x.path ∧ x.renameTo = some a := by
  obtain ⟨p, -, hrw⟩ := exists_of_forall₂_right (forall₂_rewritten l r i) hx
  cases hrw with
  | renamed h => exact ⟨p, h, rfl⟩
  | skipped _ => cases hact
  | plain _ _ =>
      rw [plainAction_action] at hact
      exact absurd hact (decision_ne_renameRemote l r i p)

end Renamed

/-- Reconciliation's actions make of the remote contents what the plain decisions make of them, and
the source of every rename is a live remote file with the target's content. -/
def RenamesPreserve (localFiles remoteFiles indexedFiles : List FileMeta) : Prop :=
  ∃ actions plain,
    reconcile localFiles remoteFiles indexedFiles = .ok actions ∧
    ((unionPaths (indexByPath localFiles) (indexByPath remoteFiles)
      (indexByPath indexedFiles)).mapM fun path =>
        resolveOne path ((indexByPath localFiles).lookup path)
          ((indexByPath remoteFiles).lookup path) ((indexByPath indexedFiles).lookup path)) =
      .ok plain ∧
    applyActions (indexByPath localFiles) (liveContents (indexByPath remoteFiles)) actions =
      applyActions (indexByPath localFiles) (liveContents (indexByPath remoteFiles)) plain ∧
    ∀ a ∈ actions, a.action = .renameRemote → ∃ target h, a.renameTo = some target ∧
      liveContents (indexByPath remoteFiles) a.path = some h ∧
      liveContents (indexByPath localFiles) target = some h

/-- **When renames preserve the meaning**: exactly when every delete-remote that is paired with an
upload is of a path that is live on the remote. -/
theorem renamesPreserve_iff (localFiles remoteFiles indexedFiles : List FileMeta) :
    RenamesPreserve localFiles remoteFiles indexedFiles ↔
      ∀ a b, RenamePair (indexByPath localFiles) (indexByPath remoteFiles)
        (indexByPath indexedFiles) a b → side ((indexByPath remoteFiles).lookup b) = .live := by
  unfold RenamesPreserve
  rw [reconcile_eq, mapM_resolveOne]
  constructor
  · rintro ⟨actions, plain, hactions, hplain, heq, -⟩ a b hab
    cases hactions
    cases hplain
    by_contra hlive
    apply hab.target_ne hlive
    rw [← (applyActions_of_pair hab _).1, heq]
    change applyActions _ _ (plainActions _ _ _) a = _
    rw [applyActions_plainActions]
    unfold plainContent
    rw [hab.decision_left]
  · intro hlive
    refine ⟨_, _, rfl, rfl, applyActions_eq_plain hlive, fun x hx hact => ?_⟩
    obtain ⟨a, hab, hto⟩ := of_mem_renameRemote hx hact
    obtain ⟨heq, h, hh⟩ := hab.source_eq (hlive a x.path hab)
    exact ⟨a, h, hto, heq.trans hh, hh⟩

/-- A scanned file with an inode. -/
def inodeMeta (path : Path) (hash : Digest) (deleted : Bool) (inode : ℕ) : FileMeta :=
  { plainMeta path hash deleted with inode := some inode }

/-- A file moved from `b.md` to `a.md` whose upload never reached the remote: the remote is asked to
rename a file it does not have. -/
theorem not_renamesPreserve_of_absent_source :
    ¬ RenamesPreserve
      [inodeMeta ["a.md"] (List.Vector.replicate 32 1) false 42,
        inodeMeta ["b.md"] (List.Vector.replicate 32 1) true 42] []
      [inodeMeta ["b.md"] (List.Vector.replicate 32 1) false 42] := by
  rintro ⟨actions, plain, hactions, hplain, heq, -⟩
  rw [reconcile_eq] at hactions
  rw [mapM_resolveOne] at hplain
  cases hactions
  cases hplain
  have ha := congrFun heq ["a.md"]
  revert ha
  decide +kernel

/-! ## Every path once and in order -/

/-- Every path of `paths` is named by one action, no action names another path, and the actions are
sorted by path. -/
structure CoversOnce (paths : List Path) (actions : List SyncAction) : Prop where
  once : ∀ path ∈ paths, ∃! j : ℕ, ∃ a, actions[j]? = some a ∧ Names a path
  no_other : ∀ a ∈ actions, ∀ path, Names a path → path ∈ paths
  sorted : actions.Pairwise fun a b => a.path ≤ b.path

/-- The union holds the paths of the three snapshots. -/
theorem mem_unionPaths_indexByPath (localFiles remoteFiles indexedFiles : List FileMeta)
    (path : Path) :
    path ∈ unionPaths (indexByPath localFiles) (indexByPath remoteFiles)
        (indexByPath indexedFiles) ↔
      path ∈ (localFiles ++ remoteFiles ++ indexedFiles).map FileMeta.path := by
  have hidx : ∀ files : List FileMeta,
      (indexByPath files).lookup path ≠ none ↔ path ∈ files.map FileMeta.path := by
    intro files
    rw [indexByPath, Ne, Table.lookup_collect_eq_none, List.mem_map]
    push Not
    rfl
  rw [mem_unionPaths, hidx, hidx, hidx]
  simp only [List.map_append, List.mem_append, or_assoc]

section Covers

variable {l r i : PathMap FileMeta} {a b path : Path}

/-- The plain decisions name every path once and in order. -/
theorem coversOnce_plainActions (l r i : PathMap FileMeta) :
    CoversOnce (unionPaths l r i) (plainActions l r i) := by
  have hget : ∀ {j : ℕ} {p : Path}, (∃ o, (plainActions l r i)[j]? = some o ∧ Names o p) ↔
      (unionPaths l r i)[j]? = some p := by
    intro j p
    rw [plainActions_eq_map, List.getElem?_map]
    rcases (unionPaths l r i)[j]? with _ | q
    · simp
    · simp [Names, plainAction_renameTo]
  refine ⟨fun path hpath => ?_, fun o ho path hname => ?_, ?_⟩
  · obtain ⟨j, hj⟩ := List.getElem?_of_mem hpath
    exact ⟨j, hget.mpr hj, fun j' hj' => index_inj (hget.mp hj') hj⟩
  · obtain ⟨j, hj⟩ := List.getElem?_of_mem ho
    exact List.mem_of_getElem? (hget.mp ⟨o, hj, hname⟩)
  · rw [plainActions_eq_map, List.pairwise_map]
    simpa using unionPaths_pairwise l r i

/-- A pair leaves two actions that name its source: the rename and what is left of the delete. -/
theorem RenamePair.not_coversOnce (hab : RenamePair l r i a b) {paths : List Path}
    (hb : b ∈ paths) : ¬ CoversOnce paths (detectRemoteRenames l i (plainActions l r i)) := by
  intro h
  obtain ⟨ja, hja⟩ := List.getElem?_of_mem hab.mem_left
  obtain ⟨jb, hjb⟩ := List.getElem?_of_mem hab.mem_right
  have hrename : ∃ o, (detectRemoteRenames l i (plainActions l r i))[ja]? = some o ∧ Names o b := by
    obtain ⟨o, ho, hrw⟩ := getElem?_detectRemoteRenames hja
    refine ⟨o, ho, ?_⟩
    cases hrw with
    | renamed h => exact Or.inl (h.right_unique hab)
    | skipped h => exact absurd rfl (hab.left_ne_right h)
    | plain h _ => exact absurd hab (h b)
  have hskip : ∃ o, (detectRemoteRenames l i (plainActions l r i))[jb]? = some o ∧ Names o b := by
    obtain ⟨o, ho, hrw⟩ := getElem?_detectRemoteRenames hjb
    refine ⟨o, ho, ?_⟩
    cases hrw with
    | renamed h => exact absurd rfl (h.left_ne_right hab)
    | skipped _ => exact Or.inl (plainAction_path l r i b)
    | plain _ h => exact absurd hab (h a)
  obtain rfl := (h.once b hb).unique hrename hskip
  exact hab.left_ne_right hab (Option.some.inj (hja.symm.trans hjb))

/-- Without a pair the pass changes nothing. -/
theorem detectRemoteRenames_eq_self (h : ∀ a b, ¬ RenamePair l r i a b) :
    detectRemoteRenames l i (plainActions l r i) = plainActions l r i := by
  have hnil : renamePairs l i (plainActions l r i) = [] := by
    apply List.eq_nil_iff_forall_not_mem.mpr
    intro pair hpair
    obtain ⟨a, b, -, -, hab⟩ := mem_renamePairs.mp hpair
    exact h a b hab
  unfold detectRemoteRenames
  rw [hnil]
  rfl

end Covers

/-- **When reconciliation names every path once and in order**: exactly when no uploaded path has
the rename key of a path that is deleted on the remote. -/
theorem reconcile_coversOnce_iff (localFiles remoteFiles indexedFiles : List FileMeta) :
    (∃ actions, reconcile localFiles remoteFiles indexedFiles = .ok actions ∧
      CoversOnce ((localFiles ++ remoteFiles ++ indexedFiles).map FileMeta.path) actions) ↔
    ∀ a b k, uploadKey (indexByPath localFiles) (indexByPath remoteFiles)
        (indexByPath indexedFiles) a = some k →
      deleteKey (indexByPath localFiles) (indexByPath remoteFiles)
        (indexByPath indexedFiles) b ≠ some k := by
  have hmem := mem_unionPaths_indexByPath localFiles remoteFiles indexedFiles
  rw [reconcile_eq]
  constructor
  · rintro ⟨actions, hactions, hcovers⟩ a b k ha hb
    cases hactions
    obtain ⟨a', b', hab⟩ := exists_renamePair ha hb
    exact hab.not_coversOnce ((hmem b').mp hab.mem_right) hcovers
  · intro h
    have hpairs : ∀ a b, ¬ RenamePair (indexByPath localFiles) (indexByPath remoteFiles)
        (indexByPath indexedFiles) a b := by
      rintro a b ⟨k, ha, hb⟩
      exact h a b k ha.1 hb.1
    rw [detectRemoteRenames_eq_self hpairs]
    have hplain := coversOnce_plainActions (indexByPath localFiles) (indexByPath remoteFiles)
      (indexByPath indexedFiles)
    exact ⟨_, rfl, fun p hp => hplain.once p ((hmem p).mpr hp),
      fun o ho p hname => (hmem p).mp (hplain.no_other o ho p hname), hplain.sorted⟩

/-- A moved file with another path between its two names: the rename stands first under the old
name `c.md`, which the skipped delete names again at the end.
Source: `tests/reconciler_matrix.rs`, `scenario_14` -/
theorem not_coversOnce_of_rename :
    ¬ ∃ actions, reconcile
        [inodeMeta ["a.md"] (List.Vector.replicate 32 1) false 42,
          plainMeta ["b.md"] (List.Vector.replicate 32 2) false]
        [inodeMeta ["c.md"] (List.Vector.replicate 32 1) false 42]
        [inodeMeta ["c.md"] (List.Vector.replicate 32 1) false 42] = .ok actions ∧
      CoversOnce [["a.md"], ["b.md"], ["c.md"], ["c.md"]] actions := by
  rintro ⟨actions, hactions, hcovers⟩
  rw [reconcile_eq] at hactions
  cases hactions
  have hsorted := hcovers.sorted
  revert hsorted
  decide +kernel

end DiskArcana.Core
