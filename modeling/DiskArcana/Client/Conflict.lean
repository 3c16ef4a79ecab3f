import DiskArcana.Core.Fork
import DiskArcana.Core.Types

/-!
# Applying a conflict on the client

`conflict_writer.rs` and `conflict/merge.rs`: a conflict on a text file with a known ancestor is
merged into the live path when the merge is clean; in every other case the server's bytes are
written to a conflict copy and the live path is left alone.

`diffy base local remote` is `MergeOptions::new().merge` of the `diffy` crate: `ok` for a clean
merge, `error` with conflict markers otherwise. A vault directory is a table of regular files;
`ioOk` says whether the file system lets the write through.
-/

namespace DiskArcana.Client

open DiskArcana.Core DiskArcana.Lib

/-! ## Three-way merge -/

/-- Maximum length of a merge input.
Source: `conflict/merge.rs`, `SIZE_CAP` -/
def sizeCap : ℕ := 10 * 1024 * 1024

/-- Bytes that are scanned for NUL.
Source: `conflict/merge.rs`, `BINARY_SCAN_LEN` -/
def binaryScanLen : ℕ := 1024

/-- Source: `conflict/merge.rs`, `has_nul` -/
def hasNul (data : Bytes) : Bool := (data.take binaryScanLen).contains 0

/-- Why a merge was refused.
Source: `conflict/merge.rs`, `RefuseReason` -/
inductive RefuseReason where
  | noBase
  | tooLarge
  | binary
  | notText
  deriving DecidableEq, Repr

/-- Source: `conflict/merge.rs`, `MergeOutput` -/
inductive MergeOutput where
  | clean (merged : Bytes)
  | conflicted (marked : Bytes)
  | refused (reason : RefuseReason)
  deriving DecidableEq

/-- `std::str::from_utf8`. -/
def fromUtf8 (data : Bytes) : Option String := String.fromUTF8? ⟨data.toArray⟩

/-- `String::into_bytes`. -/
def intoBytes (s : String) : Bytes := s.toUTF8.data.toList

section

variable (diffy : String → String → String → Except String String)

/-- Merge two versions over their common ancestor; the guards come in this order: no base, too
large, binary, not text.
Source: `conflict/merge.rs`, `three_way_merge` -/
def threeWayMerge (base : Option Bytes) (localBytes remote : Bytes) : MergeOutput :=
  match base with
  | none => .refused .noBase
  | some base =>
    if sizeCap < base.length || sizeCap < localBytes.length || sizeCap < remote.length then
      .refused .tooLarge
    else if hasNul base || hasNul localBytes || hasNul remote then .refused .binary
    else match fromUtf8 base, fromUtf8 localBytes, fromUtf8 remote with
      | some baseStr, some localStr, some remoteStr =>
        match diffy baseStr localStr remoteStr with
        | .ok merged => .clean (intoBytes merged)
        | .error conflicted => .conflicted (intoBytes conflicted)
      | _, _, _ => .refused .notText

/-- **A clean merge is diffy's**, of the ancestor it was given and the two versions. -/
theorem of_threeWayMerge_clean {base : Option Bytes} {localBytes remote merged : Bytes}
    (h : threeWayMerge diffy base localBytes remote = .clean merged) :
    ∃ ancestor baseStr localStr remoteStr mergedStr, base = some ancestor ∧
      fromUtf8 ancestor = some baseStr ∧ fromUtf8 localBytes = some localStr ∧
      fromUtf8 remote = some remoteStr ∧ diffy baseStr localStr remoteStr = .ok mergedStr ∧
      merged = intoBytes mergedStr := by
  unfold threeWayMerge at h
  rcases base with _ | ancestor
  · cases h
  · dsimp only at h
    split_ifs at h
    split at h
    · rename_i baseStr localStr remoteStr hbase hlocal hremote
      split at h
      · rename_i mergedStr hdiffy
        cases h
        exact ⟨ancestor, baseStr, localStr, remoteStr, mergedStr, rfl, hbase, hlocal, hremote,
          hdiffy, rfl⟩
      · cases h
    · cases h

/-! ## Conflict copies -/

/-- Source: `conflict_writer.rs`, `ForkWriteError` -/
inductive ForkWriteError where
  | io (message : String)
  | pathTraversal
  deriving DecidableEq

/-- Source: `conflict_writer.rs`, `MAX_COLLISION_ATTEMPTS` -/
def maxCollisionAttempts : ℕ := 100

/-- Source: `conflict_writer.rs`, `MERGE_ELIGIBLE_EXTENSIONS` -/
def mergeEligibleExtensions : List String := ["md", "txt"]

/-- The extension, in any letter case, is one that is merged as text.
Source: `conflict_writer.rs`, `is_merge_eligible` -/
def isMergeEligible (relPath : Path) : Bool :=
  (pathExtension relPath).any fun e =>
    mergeEligibleExtensions.contains (String.ofList (e.toList.map Char.toLower))

/-- A name with a counter in front of its last dot.
Source: `conflict_writer.rs`, `with_collision_suffix` -/
def suffixedName (name : String) (counter : ℕ) : String :=
  let cs := name.toList
  let ext := cs.reverse.takeWhile (· != '.')
  if ext.length = cs.length then name ++ "-" ++ toString counter
  else
    let dot := cs.length - ext.length - 1
    String.ofList (cs.take dot) ++ "-" ++ toString counter ++ String.ofList (cs.drop dot)

/-- Source: `conflict_writer.rs`, `with_collision_suffix` -/
def withCollisionSuffix (path : Path) (counter : ℕ) : Path :=
  path.dropLast ++ [suffixedName ((fileName path).getD "") counter]

/-- The fork path must stay inside the root.
Source: `conflict_writer.rs`, `validate_no_traversal` -/
def validateNoTraversal (rel : Path) : Bool :=
  !(rel.any fun c => c.toList.contains '\x00') && !rel.contains ".." && !rel.contains "/"

/-- The paths that are tried for a conflict copy, in order.
Source: `conflict_writer.rs`, `write_fork` -/
def forkCandidates (relPath : Path) (nodeId : NodeId) (ts : ℤ) : List Path :=
  let forkRel := forkFilename relPath nodeId ts
  (List.range maxCollisionAttempts).map fun attempt =>
    if attempt = 0 then forkRel else withCollisionSuffix forkRel attempt

/-- Write a conflict copy at the first candidate that is free.
Source: `conflict_writer.rs`, `write_fork` -/
def writeFork (disk : PathMap Bytes) (relPath : Path) (contents : Bytes) (nodeId : NodeId) (ts : ℤ)
    (ioOk : Bool) : Except ForkWriteError (Path × PathMap Bytes) :=
  if !validateNoTraversal (forkFilename relPath nodeId ts) then .error .pathTraversal
  else match (forkCandidates relPath nodeId ts).find? fun c => (disk.lookup c).isNone with
    | none => .error (.io "exceeded collision counter limit")
    | some candidate =>
      if ioOk then .ok (candidate, disk.insert candidate contents) else .error (.io "")

/-- What became of a conflict.
Source: `conflict_writer.rs`, `ConflictApplyOutcome` -/
inductive ConflictApplyOutcome where
  | merged
  | forked (path : Path)
  deriving DecidableEq

/-- Apply a conflict to the vault directory. A failed write of a clean merge is an error: there is
no second attempt as a fork.
Source: `conflict_writer.rs`, `apply_conflict` -/
def applyConflict (disk : PathMap Bytes) (relPath : Path) (base : Option Bytes)
    (localBytes remote : Bytes) (nodeId : NodeId) (ts : ℤ) (ioOk : Bool) :
    Except ForkWriteError (ConflictApplyOutcome × PathMap Bytes) :=
  match isMergeEligible relPath, threeWayMerge diffy base localBytes remote with
  | true, .clean merged =>
    if ioOk then .ok (.merged, disk.insert relPath merged) else .error (.io "")
  | _, _ => (writeFork disk relPath remote nodeId ts ioOk).map fun (f, disk) => (.forked f, disk)

/-- A conflict copy is written to one of its names, where nothing stood. -/
theorem of_writeFork {disk disk' : PathMap Bytes} {relPath f : Path} {contents : Bytes}
    {nodeId : NodeId} {ts : ℤ} {ioOk : Bool}
    (h : writeFork disk relPath contents nodeId ts ioOk = .ok (f, disk')) :
    f ∈ forkCandidates relPath nodeId ts ∧ disk.lookup f = none ∧
      disk' = disk.insert f contents := by
  unfold writeFork at h
  rcases hv : validateNoTraversal (forkFilename relPath nodeId ts) with _ | _
  · rw [hv] at h
    cases h
  rcases hfind : (forkCandidates relPath nodeId ts).find? fun c => (disk.lookup c).isNone with
    _ | candidate
  · rw [hv, hfind] at h
    cases h
  · rw [hv, hfind] at h
    cases ioOk with
    | false => cases h
    | true =>
        cases h
        exact ⟨List.mem_of_find?_eq_some hfind, by simpa using List.find?_some hfind, rfl⟩

/-- **What applying a conflict does to the directory**: a clean merge replaces the live path, or a
conflict copy appears where nothing stood. -/
theorem applyConflict_cases {disk disk' : PathMap Bytes} {relPath : Path} {base : Option Bytes}
    {localBytes remote : Bytes} {nodeId : NodeId} {ts : ℤ} {ioOk : Bool}
    {outcome : ConflictApplyOutcome}
    (h : applyConflict diffy disk relPath base localBytes remote nodeId ts ioOk =
      .ok (outcome, disk')) :
    (outcome = .merged ∧ ∃ merged, threeWayMerge diffy base localBytes remote = .clean merged ∧
      disk' = disk.insert relPath merged) ∨
    (∃ f, outcome = .forked f ∧ f ∈ forkCandidates relPath nodeId ts ∧ disk.lookup f = none ∧
      disk' = disk.insert f remote) := by
  unfold applyConflict at h
  split at h
  · rename_i merged _ hclean
    split_ifs at h
    cases h
    exact Or.inl ⟨rfl, merged, hclean, rfl⟩
  · refine Or.inr ?_
    rcases hf : writeFork disk relPath remote nodeId ts ioOk with err | ⟨f, d⟩
    · rw [hf] at h
      cases h
    · rw [hf] at h
      cases h
      obtain ⟨hmem, hfree, rfl⟩ := of_writeFork hf
      exact ⟨f, rfl, hmem, hfree, rfl⟩

end

/-! ## Conflict copies are scanned

A conflict copy stands beside its original under a name of more than fourteen characters, longer
than any name that the default filter excludes. -/

/-- Names that agree up to letter case are of one length. -/
theorem length_of_eqIgnoreAsciiCase {s t : String} (h : eqIgnoreAsciiCase s t = true) :
    s.toList.length = t.toList.length := by
  unfold eqIgnoreAsciiCase at h
  have hmap := congrArg List.length (beq_iff_eq.mp h)
  simpa using hmap

/-- A suffixed name is longer than the name. -/
theorem length_suffixedName (name : String) (counter : ℕ) :
    name.toList.length ≤ (suffixedName name counter).toList.length := by
  unfold suffixedName
  dsimp only
  split_ifs
  · simp
  · have hlen := (name.toList).take_append_drop
      (name.toList.length - (name.toList.reverse.takeWhile (· != '.')).length - 1)
    have hsum := congrArg List.length hlen
    simp only [List.length_append] at hsum
    simp only [String.toList_append, String.toList_ofList, List.length_append]
    omega

/-- A long name is a normal component. -/
theorem isNormal_of_length {name : String} (h : 2 < name.toList.length) : isNormal name = true := by
  unfold isNormal
  have hne : ∀ s : String, s.toList.length ≤ 2 → name ≠ s := by
    intro s hs heq
    rw [heq] at h
    omega
  have h₁ := hne "/" (by decide)
  have h₂ := hne "." (by decide)
  have h₃ := hne ".." (by decide)
  simp [h₁, h₂, h₃]

/-- A conflict copy stands beside its original, under a long name. -/
theorem of_mem_forkCandidates {relPath f : Path} {nodeId : NodeId} {ts : ℤ}
    (h : f ∈ forkCandidates relPath nodeId ts) :
    ∃ name : String, f = relPath.dropLast ++ [name] ∧ 14 < name.toList.length := by
  obtain ⟨first, hfirst, hlong⟩ : ∃ name : String,
      forkFilename relPath nodeId ts = relPath.dropLast ++ [name] ∧ 14 < name.toList.length := by
    unfold forkFilename
    rcases splitStemExt ((fileName relPath).getD "") with ⟨stem, ext⟩
    refine ⟨_, rfl, ?_⟩
    have hmark : "sync-conflict-".toList.length = 14 := by decide
    have hdot : ".".toList.length = 1 := by decide
    split_ifs <;> simp only [String.toList_append, List.length_append] <;> omega
  unfold forkCandidates at h
  obtain ⟨attempt, -, rfl⟩ := List.mem_map.mp h
  split_ifs
  · exact ⟨first, hfirst, hlong⟩
  · refine ⟨suffixedName first attempt, ?_, lt_of_lt_of_le hlong (length_suffixedName _ _)⟩
    have hnormal : isNormal first = true := isNormal_of_length (by omega)
    unfold withCollisionSuffix fileName
    rw [hfirst, List.getLast?_concat, Option.filter_some, if_pos hnormal, List.dropLast_concat]
    rfl

/-- **A conflict copy of a path that is scanned is scanned.** -/
theorem isExcluded_of_mem_forkCandidates {relPath f : Path} {nodeId : NodeId} {ts : ℤ}
    (h : f ∈ forkCandidates relPath nodeId ts) (hx : Filter.default.isExcluded relPath = false) :
    Filter.default.isExcluded f = false := by
  obtain ⟨name, rfl, hlong⟩ := of_mem_forkCandidates h
  have hshort : ∀ s : String, s.toList.length ≤ 14 → eqIgnoreAsciiCase name s = false := by
    intro s hs
    by_contra heq
    have hlen := length_of_eqIgnoreAsciiCase (by simpa using heq)
    omega
  have hmarker : eqIgnoreAsciiCase name ".kb-last-push" = false := hshort _ (by decide)
  have hgit : eqIgnoreAsciiCase name ".git" = false := hshort _ (by decide)
  have harchive : eqIgnoreAsciiCase name ".disk-archive" = false := hshort _ (by decide)
  have hdreamer : eqIgnoreAsciiCase name ".dreamer" = false := hshort _ (by decide)
  have hnormal : isNormal name = true := isNormal_of_length (by omega)
  have hseg : ∀ segment ∈ relPath.dropLast, isNormal segment = true →
      ∀ deny ∈ hardcodedDenySegments, eqIgnoreAsciiCase segment deny = false := by
    intro segment hmem hn deny hdeny
    by_contra heq
    have := Filter.default.isExcluded_of_segment (List.dropLast_subset _ hmem) hn hdeny
      (by simpa using heq)
    rw [hx] at this
    cases this
  unfold Filter.isExcluded isSyncEphemeralMarker fileName
  simp [Filter.default, syncEphemeralMarkerBasenames, hardcodedDenySegments, hnormal, hmarker, hgit,
    harchive, hdreamer] at hseg ⊢
  exact hseg

end DiskArcana.Client
