import DiskArcana.Lib.Footprint
import DiskArcana.Core.ReconcilerLaws

/-!
# What the rename pass makes of a reconciliation

The second pass of `reconcile` pairs the last upload and the last delete-remote of each key (inode
and content hash). Here the pass is read off the three snapshots: `RenamePair` says which uploaded
path is paired with which deleted one, no path is in two pairs, and `forall₂_rewritten` gives the
action that every path of the union ends with.

Two questions are settled over that description. Do the actions mean the same for the remote side
as the plain decisions of `resolveOne` (`applyActions`)? And does the returned list name every path
once and in order?
-/

namespace DiskArcana.Core

open DiskArcana.Lib

/-! ## The keys of a path -/

section Keys

variable (l r i : PathMap FileMeta)

/-- The plain action of a path. -/
def plainAction (path : Path) : SyncAction :=
  actionOf path (l.lookup path) (r.lookup path) (i.lookup path)

/-- The decision on a path. -/
def decision (path : Path) : ActionType :=
  (verdict (l.lookup path) (r.lookup path) (i.lookup path)).1

/-- The rename key of a path that is uploaded: inode and hash of its local entry. -/
def uploadKey (path : Path) : Option RenameKey :=
  if decision l r i path = .upload then (l.lookup path).bind renameKey else none

/-- The rename key of a path that is deleted on the remote: inode and hash of its base entry. -/
def deleteKey (path : Path) : Option RenameKey :=
  if decision l r i path = .deleteRemote then (i.lookup path).bind renameKey else none

/-- The last path that has the key. -/
def LastWith (key : Path → Option RenameKey) (k : RenameKey) (path : Path) : Prop :=
  key path = some k ∧ ∀ q, key q = some k → q ≤ path

/-- The rename pass pairs the upload at `a` with the delete-remote at `b`. -/
def RenamePair (a b : Path) : Prop :=
  ∃ k, LastWith (uploadKey l r i) k a ∧ LastWith (deleteKey l r i) k b

end Keys

variable {l r i : PathMap FileMeta} {a b a' b' path : Path} {k : RenameKey}

@[simp] theorem plainAction_path (l r i : PathMap FileMeta) (path : Path) :
    (plainAction l r i path).path = path := actionOf_path _ _ _ _

@[simp] theorem plainAction_action (l r i : PathMap FileMeta) (path : Path) :
    (plainAction l r i path).action = decision l r i path := actionOf_action _ _ _ _

theorem plainActions_eq_map (l r i : PathMap FileMeta) :
    plainActions l r i = (unionPaths l r i).map (plainAction l r i) := rfl

theorem plainAction_renameTo (l r i : PathMap FileMeta) (path : Path) :
    (plainAction l r i path).renameTo = none := by
  unfold plainAction actionOf
  rcases verdict (l.lookup path) (r.lookup path) (i.lookup path) with ⟨action, _ | kind⟩ <;> rfl

theorem decision_ne_renameRemote (l r i : PathMap FileMeta) (path : Path) :
    decision l r i path ≠ .renameRemote := (verdict_ne_rename _ _ _).2

theorem of_uploadKey (h : uploadKey l r i path = some k) :
    decision l r i path = .upload ∧ ∃ m, l.lookup path = some m ∧ renameKey m = some k := by
  unfold uploadKey at h
  split_ifs at h with hd
  exact ⟨hd, Option.bind_eq_some_iff.mp h⟩

theorem of_deleteKey (h : deleteKey l r i path = some k) :
    decision l r i path = .deleteRemote ∧ ∃ m, i.lookup path = some m ∧ renameKey m = some k := by
  unfold deleteKey at h
  split_ifs at h with hd
  exact ⟨hd, Option.bind_eq_some_iff.mp h⟩

theorem mem_unionPaths_of_uploadKey (h : uploadKey l r i path = some k) :
    path ∈ unionPaths l r i := by
  obtain ⟨-, m, hm, -⟩ := of_uploadKey h
  apply mem_unionPaths.mpr
  simp [hm]

theorem mem_unionPaths_of_deleteKey (h : deleteKey l r i path = some k) :
    path ∈ unionPaths l r i := by
  obtain ⟨-, m, hm, -⟩ := of_deleteKey h
  apply mem_unionPaths.mpr
  simp [hm]

theorem LastWith.eq {key : Path → Option RenameKey} (h : LastWith key k a) (h' : LastWith key k b) :
    a = b := Std.le_antisymm (h'.2 a h.1) (h.2 b h'.1)

/-- Among the paths of a list with a property one is the greatest. -/
theorem exists_greatest {P : Path → Prop} {ps : List Path} (h : ∃ q ∈ ps, P q) :
    ∃ q ∈ ps, P q ∧ ∀ q' ∈ ps, P q' → q' ≤ q := by
  induction ps with
  | nil => simp at h
  | cons p ps ih =>
      by_cases hps : ∃ q ∈ ps, P q
      · obtain ⟨q, hq, hPq, hmax⟩ := ih hps
        by_cases hp : P p ∧ q ≤ p
        · refine ⟨p, List.mem_cons_self, hp.1, fun q' hq' hPq' => ?_⟩
          rcases List.mem_cons.mp hq' with rfl | hq'
          · exact Std.le_refl _
          · exact Std.le_trans (hmax q' hq' hPq') hp.2
        · refine ⟨q, List.mem_cons_of_mem _ hq, hPq, fun q' hq' hPq' => ?_⟩
          rcases List.mem_cons.mp hq' with rfl | hq'
          · rcases Std.le_total (a := q') (b := q) with hle | hle
            · exact hle
            · exact absurd ⟨hPq', hle⟩ hp
          · exact hmax q' hq' hPq'
      · obtain ⟨q, hq, hPq⟩ := h
        rcases List.mem_cons.mp hq with rfl | hq
        · refine ⟨q, List.mem_cons_self, hPq, fun q' hq' hPq' => ?_⟩
          rcases List.mem_cons.mp hq' with rfl | hq'
          · exact Std.le_refl _
          · exact absurd ⟨q', hq', hPq'⟩ hps
        · exact absurd ⟨q, hq, hPq⟩ hps

/-- A key that some path of a list has is the key of a last path. -/
theorem exists_lastWith {key : Path → Option RenameKey} {ps : List Path}
    (hps : ∀ q, key q = some k → q ∈ ps) (h : key path = some k) : ∃ q, LastWith key k q := by
  obtain ⟨q, -, hq, hmax⟩ := exists_greatest (P := fun q => key q = some k) ⟨path, hps path h, h⟩
  exact ⟨q, hq, fun q' hq' => hmax q' (hps q' hq') hq'⟩

namespace RenamePair

theorem decision_left (h : RenamePair l r i a b) : decision l r i a = .upload := by
  obtain ⟨k, ha, -⟩ := h
  exact (of_uploadKey ha.1).1

theorem decision_right (h : RenamePair l r i a b) : decision l r i b = .deleteRemote := by
  obtain ⟨k, -, hb⟩ := h
  exact (of_deleteKey hb.1).1

theorem mem_left (h : RenamePair l r i a b) : a ∈ unionPaths l r i := by
  obtain ⟨k, ha, -⟩ := h
  exact mem_unionPaths_of_uploadKey ha.1

theorem mem_right (h : RenamePair l r i a b) : b ∈ unionPaths l r i := by
  obtain ⟨k, -, hb⟩ := h
  exact mem_unionPaths_of_deleteKey hb.1

/-- An upload is paired with one delete. -/
theorem right_unique (h : RenamePair l r i a b) (h' : RenamePair l r i a b') : b = b' := by
  obtain ⟨k, ha, hb⟩ := h
  obtain ⟨k', ha', hb'⟩ := h'
  have hk : k = k' := Option.some.inj (ha.1.symm.trans ha'.1)
  subst hk
  exact hb.eq hb'

/-- A delete is paired with one upload. -/
theorem left_unique (h : RenamePair l r i a b) (h' : RenamePair l r i a' b) : a = a' := by
  obtain ⟨k, ha, hb⟩ := h
  obtain ⟨k', ha', hb'⟩ := h'
  have hk : k = k' := Option.some.inj (hb.1.symm.trans hb'.1)
  subst hk
  exact ha.eq ha'

/-- The target of one pair is never the source of another. -/
theorem left_ne_right (h : RenamePair l r i a b) (h' : RenamePair l r i a' b') : a ≠ b' := by
  rintro rfl
  have := h.decision_left.symm.trans h'.decision_right
  cases this

end RenamePair

/-- A key shared by an upload and a delete gives a pair. -/
theorem exists_renamePair (ha : uploadKey l r i a = some k) (hb : deleteKey l r i b = some k) :
    ∃ a' b', RenamePair l r i a' b' := by
  obtain ⟨a', ha'⟩ := exists_lastWith (fun _ => mem_unionPaths_of_uploadKey) ha
  obtain ⟨b', hb'⟩ := exists_lastWith (fun _ => mem_unionPaths_of_deleteKey) hb
  exact ⟨a', b', k, ha', hb'⟩

/-! ## The pairs of the pass -/

theorem unionPaths_pairwise (l r i : PathMap FileMeta) :
    (unionPaths l r i).Pairwise (· ≤ ·) := List.pairwise_insertionSort _ _

/-- Positions of the union are ordered as their paths. -/
theorem index_le_iff {j j' : ℕ} (hj : (unionPaths l r i)[j]? = some a)
    (hj' : (unionPaths l r i)[j']? = some b) : j ≤ j' ↔ a ≤ b := by
  obtain ⟨hlt, rfl⟩ := List.getElem?_eq_some_iff.mp hj
  obtain ⟨hlt', rfl⟩ := List.getElem?_eq_some_iff.mp hj'
  have hmono := List.pairwise_iff_getElem.mp (unionPaths_pairwise l r i)
  have hinj : (unionPaths l r i)[j] = (unionPaths l r i)[j'] ↔ j = j' :=
    (unionPaths_nodup l r i).getElem_inj_iff
  rcases Nat.lt_trichotomy j j' with h | rfl | h
  · exact iff_of_true (Nat.le_of_lt h) (hmono j j' hlt hlt' h)
  · exact iff_of_true (Nat.le_refl _) (Std.le_refl _)
  · refine iff_of_false (by omega) fun hle => ?_
    have := hinj.mp (Std.le_antisymm hle (hmono j' j hlt' hlt h))
    omega

theorem index_inj {j j' : ℕ} (hj : (unionPaths l r i)[j]? = some a)
    (hj' : (unionPaths l r i)[j']? = some a) : j = j' := by
  have h := (index_le_iff hj hj').mpr (Std.le_refl _)
  have h' := (index_le_iff hj' hj).mpr (Std.le_refl _)
  omega

/-- The last action of a key is the action of the last path of the key. -/
theorem lookup_lastIdx_plainActions {key : Path → Option RenameKey}
    {keyOf : SyncAction → Option RenameKey} (hkey : ∀ p, keyOf (plainAction l r i p) = key p)
    (hmem : ∀ p, key p = some k → p ∈ unionPaths l r i) {j : ℕ} :
    (Table.lastIdx keyOf (plainActions l r i)).lookup k = some j ↔
      ∃ p, (unionPaths l r i)[j]? = some p ∧ LastWith key k p := by
  have hget : ∀ {j : ℕ} {o : SyncAction}, (plainActions l r i)[j]? = some o ↔
      ∃ p, (unionPaths l r i)[j]? = some p ∧ plainAction l r i p = o := by
    intro j o
    rw [plainActions_eq_map, List.getElem?_map, Option.map_eq_some_iff]
  rw [Table.lookup_lastIdx]
  constructor
  · rintro ⟨⟨o, ho, hk⟩, hlast⟩
    obtain ⟨p, hp, rfl⟩ := hget.mp ho
    rw [hkey] at hk
    refine ⟨p, hp, hk, fun q hq => ?_⟩
    obtain ⟨j', hj'⟩ := List.getElem?_of_mem (hmem q hq)
    apply (index_le_iff hj' hp).mp
    exact hlast j' _ (hget.mpr ⟨q, hj', rfl⟩) (by rw [hkey, hq])
  · rintro ⟨p, hp, hk, hlast⟩
    refine ⟨⟨_, hget.mpr ⟨p, hp, rfl⟩, by rw [hkey, hk]⟩, fun j' o ho hok => ?_⟩
    obtain ⟨q, hq, rfl⟩ := hget.mp ho
    apply (index_le_iff hq hp).mpr
    exact hlast q (by rw [← hkey, hok])

theorem uploadIdx_eq (l : PathMap FileMeta) (actions : List SyncAction) :
    uploadIdx l actions = Table.lastIdx (fun o =>
      if o.action = .upload then (l.lookup o.path).bind renameKey else none) actions := by
  unfold uploadIdx Table.lastIdx
  congr 1
  apply List.filterMap_congr
  rintro ⟨o, j⟩ -
  by_cases h : o.action = .upload <;> simp [h]

theorem deleteRemoteIdx_eq (i : PathMap FileMeta) (actions : List SyncAction) :
    deleteRemoteIdx i actions = Table.lastIdx (fun o =>
      if o.action = .deleteRemote then (i.lookup o.path).bind renameKey else none) actions := by
  unfold deleteRemoteIdx Table.lastIdx
  congr 1
  apply List.filterMap_congr
  rintro ⟨o, j⟩ -
  by_cases h : o.action = .deleteRemote <;> simp [h]

theorem lookup_uploadIdx {j : ℕ} :
    (uploadIdx l (plainActions l r i)).lookup k = some j ↔
      ∃ p, (unionPaths l r i)[j]? = some p ∧ LastWith (uploadKey l r i) k p := by
  rw [uploadIdx_eq]
  apply lookup_lastIdx_plainActions
  · intro p
    rw [plainAction_action, plainAction_path]
    rfl
  · exact fun p hp => mem_unionPaths_of_uploadKey hp

theorem lookup_deleteRemoteIdx {j : ℕ} :
    (deleteRemoteIdx i (plainActions l r i)).lookup k = some j ↔
      ∃ p, (unionPaths l r i)[j]? = some p ∧ LastWith (deleteKey l r i) k p := by
  rw [deleteRemoteIdx_eq]
  apply lookup_lastIdx_plainActions
  · intro p
    rw [plainAction_action, plainAction_path]
    rfl
  · exact fun p hp => mem_unionPaths_of_deleteKey hp

/-- A key of the upload table gives the pair of positions of the last upload and the last delete. -/
theorem of_entry_pair {e : Sigma fun _ : RenameKey => ℕ} {pair : ℕ × ℕ}
    (he : e ∈ (uploadIdx l (plainActions l r i)).entries)
    (hpair : ((deleteRemoteIdx i (plainActions l r i)).lookup e.1).map (fun del => (e.2, del)) =
      some pair) :
    ∃ a b, (unionPaths l r i)[pair.1]? = some a ∧ (unionPaths l r i)[pair.2]? = some b ∧
      LastWith (uploadKey l r i) e.1 a ∧ LastWith (deleteKey l r i) e.1 b := by
  obtain ⟨d, hd, rfl⟩ := Option.map_eq_some_iff.mp hpair
  obtain ⟨a, ha, hak⟩ := lookup_uploadIdx.mp (Table.mem_entries_iff.mp he)
  obtain ⟨b, hb, hbk⟩ := lookup_deleteRemoteIdx.mp hd
  exact ⟨a, b, ha, hb, hak, hbk⟩

/-- The positions that the pass pairs are those of the paired paths. -/
theorem mem_renamePairs {pair : ℕ × ℕ} :
    pair ∈ renamePairs l i (plainActions l r i) ↔
      ∃ a b, (unionPaths l r i)[pair.1]? = some a ∧ (unionPaths l r i)[pair.2]? = some b ∧
        RenamePair l r i a b := by
  unfold renamePairs
  rw [List.mem_filterMap]
  constructor
  · rintro ⟨e, he, hpair⟩
    obtain ⟨a, b, ha, hb, hak, hbk⟩ := of_entry_pair he hpair
    exact ⟨a, b, ha, hb, e.1, hak, hbk⟩
  · rintro ⟨a, b, ha, hb, k, hak, hbk⟩
    refine ⟨⟨k, pair.1⟩, Table.mem_entries_iff.mpr (lookup_uploadIdx.mpr ⟨a, ha, hak⟩), ?_⟩
    rw [lookup_deleteRemoteIdx.mpr ⟨b, hb, hbk⟩]
    rfl

/-! ## The action of every path after the pass -/

/-- The positions that a rewrite changes. -/
def pairCells (pair : ℕ × ℕ) : Set ℕ := {pair.1, pair.2}

/-- One rewrite reads and writes the two positions of its pair. -/
theorem applyRename_local :
    Local (fun (actions : List SyncAction) j => actions[j]?) applyRename pairCells where
  frame actions pair j hj := by
    obtain ⟨h₁, h₂⟩ : j ≠ pair.1 ∧ j ≠ pair.2 := by simpa [pairCells] using hj
    unfold applyRename
    split
    · rw [List.getElem?_set_ne h₂.symm, List.getElem?_set_ne h₁.symm]
    · rfl
  congr actions actions' pair heq j hj := by
    have h₁ : actions[pair.1]? = actions'[pair.1]? := heq _ (Or.inl rfl)
    have h₂ : actions[pair.2]? = actions'[pair.2]? := heq _ (Or.inr rfl)
    have hj' : actions[j]? = actions'[j]? := heq j hj
    unfold applyRename
    rw [h₁, h₂]
    split
    · simp only [List.getElem?_set', hj']
    · exact hj'

/-- The pairs of the pass are disjoint: two pairs have different keys, and a position has one. -/
theorem renamePairs_disjoint (l r i : PathMap FileMeta) :
    (renamePairs l i (plainActions l r i)).Pairwise fun p q =>
      Disjoint (pairCells p) (pairCells q) := by
  unfold renamePairs
  rw [List.pairwise_filterMap]
  have hkeys := List.nodupKeys_iff_pairwise.mp (uploadIdx l (plainActions l r i)).nodupKeys
  refine hkeys.imp_of_mem fun {e e'} he he' hne p hp q hq => ?_
  obtain ⟨a, b, ha, hb, hak, hbk⟩ := of_entry_pair he hp
  obtain ⟨a', b', ha', hb', hak', hbk'⟩ := of_entry_pair he' hq
  have hpair : RenamePair l r i a b := ⟨e.1, hak, hbk⟩
  have hpair' : RenamePair l r i a' b' := ⟨e'.1, hak', hbk'⟩
  have huniq : ∀ {j : ℕ} {x y : Path}, (unionPaths l r i)[j]? = some x →
      (unionPaths l r i)[j]? = some y → x = y :=
    fun hx hy => Option.some.inj (hx.symm.trans hy)
  rw [Set.disjoint_left]
  rintro j (rfl | rfl) (h | h)
  · obtain rfl := huniq ha (h ▸ ha')
    exact hne (Option.some.inj (hak.1.symm.trans hak'.1))
  · exact hpair.left_ne_right hpair' (huniq ha (h ▸ hb'))
  · exact hpair'.left_ne_right hpair (huniq (h ▸ ha') hb)
  · obtain rfl := huniq hb (h ▸ hb')
    exact hne (Option.some.inj (hbk.1.symm.trans hbk'.1))

/-- The rename of `b` to `a`: the plain action of `a` with its path replaced. -/
def renameAction (l r i : PathMap FileMeta) (a b : Path) : SyncAction :=
  { plainAction l r i a with action := .renameRemote, renameTo := some a, path := b }

/-- What is left of the delete at `b`. -/
def skippedAction (l r i : PathMap FileMeta) (b : Path) : SyncAction :=
  { plainAction l r i b with action := .skip, renameTo := none }

/-- The action that a path of the union ends with. -/
inductive Rewritten (l r i : PathMap FileMeta) (path : Path) : SyncAction → Prop
  | renamed {b : Path} : RenamePair l r i path b → Rewritten l r i path (renameAction l r i path b)
  | skipped {a : Path} : RenamePair l r i a path → Rewritten l r i path (skippedAction l r i path)
  | plain : (∀ b, ¬ RenamePair l r i path b) → (∀ a, ¬ RenamePair l r i a path) →
      Rewritten l r i path (plainAction l r i path)

/-- One rewrite at its two positions. -/
theorem getElem?_applyRename {actions : List SyncAction} {pair : ℕ × ℕ} {up del : SyncAction}
    (hne : pair.1 ≠ pair.2) (hup : actions[pair.1]? = some up) (hdel : actions[pair.2]? = some del) :
    (applyRename actions pair)[pair.1]? =
        some { up with action := .renameRemote, renameTo := some up.path, path := del.path } ∧
      (applyRename actions pair)[pair.2]? = some { del with action := .skip, renameTo := none } := by
  have h₁ := (List.getElem?_eq_some_iff.mp hup).1
  have h₂ := (List.getElem?_eq_some_iff.mp hdel).1
  unfold applyRename
  rw [hup, hdel]
  constructor
  · rw [List.getElem?_set_ne hne.symm, List.getElem?_set_self h₁]
  · rw [List.getElem?_set_self (by simpa using h₂)]

/-- **The rename pass, path by path.** -/
theorem getElem?_detectRemoteRenames {j : ℕ} (hj : (unionPaths l r i)[j]? = some path) :
    ∃ out, (detectRemoteRenames l i (plainActions l r i))[j]? = some out ∧
      Rewritten l r i path out := by
  have hplain : ∀ {j : ℕ} {p : Path}, (unionPaths l r i)[j]? = some p →
      (plainActions l r i)[j]? = some (plainAction l r i p) := by
    intro j p hp
    rw [plainActions_eq_map, List.getElem?_map, hp]
    rfl
  have hfold : ∀ pair ∈ renamePairs l i (plainActions l r i), j ∈ pairCells pair →
      (detectRemoteRenames l i (plainActions l r i))[j]? =
        (applyRename (plainActions l r i) pair)[j]? :=
    fun pair hpair hcell =>
      applyRename_local.get_foldl_of_mem (renamePairs_disjoint l r i) _ hpair hcell
  by_cases hcell : ∃ pair ∈ renamePairs l i (plainActions l r i), j ∈ pairCells pair
  · obtain ⟨pair, hpair, hjp⟩ := hcell
    obtain ⟨a, b, ha, hb, hab⟩ := mem_renamePairs.mp hpair
    have hne : pair.1 ≠ pair.2 := by
      intro heq
      rw [heq, hb] at ha
      exact hab.left_ne_right hab (Option.some.inj ha).symm
    obtain ⟨h₁, h₂⟩ := getElem?_applyRename hne (hplain ha) (hplain hb)
    rw [hfold pair hpair hjp]
    rcases hjp with rfl | rfl
    · obtain rfl : a = path := Option.some.inj (ha.symm.trans hj)
      refine ⟨renameAction l r i a b, ?_, .renamed hab⟩
      rw [h₁, plainAction_path, plainAction_path]
      rfl
    · obtain rfl : b = path := Option.some.inj (hb.symm.trans hj)
      exact ⟨skippedAction l r i b, h₂, .skipped hab⟩
  · push Not at hcell
    refine ⟨plainAction l r i path, ?_, .plain (fun b hab => ?_) fun a hab => ?_⟩
    · rw [← hplain hj]
      exact applyRename_local.get_foldl_of_forall_notMem _ hcell
    · obtain ⟨j', hj'⟩ := List.getElem?_of_mem hab.mem_right
      exact hcell (j, j') (mem_renamePairs.mpr ⟨path, b, hj, hj', hab⟩) (Or.inl rfl)
    · obtain ⟨j', hj'⟩ := List.getElem?_of_mem hab.mem_left
      exact hcell (j', j) (mem_renamePairs.mpr ⟨a, path, hj', hj, hab⟩) (Or.inr rfl)

/-- The same for the whole list. -/
theorem forall₂_rewritten (l r i : PathMap FileMeta) :
    List.Forall₂ (Rewritten l r i) (unionPaths l r i)
      (detectRemoteRenames l i (plainActions l r i)) := by
  apply List.forall₂_iff_get.mpr
  constructor
  · rw [(detectRemoteRenames_rewrites l i (plainActions l r i)).length_eq, plainActions_eq_map,
      List.length_map]
  · intro j h₁ h₂
    obtain ⟨out, hout, hrw⟩ := getElem?_detectRemoteRenames (List.getElem?_eq_getElem h₁)
    obtain ⟨hlt, rfl⟩ := List.getElem?_eq_some_iff.mp hout
    exact hrw

end DiskArcana.Core
