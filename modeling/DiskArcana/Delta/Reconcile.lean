import DiskArcana.Delta.Chunker
import DiskArcana.Lib.Table
import DiskArcana.System.Mesh

/-!
# Delta plans

`disk-core/src/delta/reconcile.rs`: a plan says for each chunk of the client where its bytes stand
in the base (a hit), or carries them (a miss). Chunks of the base are looked up by weak checksum and
strong hash; of equal ones the last counts. Offsets and lengths are natural numbers; a sum that
overflows in the source is past the end of every base.

Applying the plan to the base gives the client's bytes, as long as the strong hash does not take a
chunk of the client for another one of the base (`applyPlan_buildPlanWithData`).
-/

namespace DiskArcana.Delta

open DiskArcana.Core DiskArcana.Lib
open DiskArcana.System (sampleBlake3)

/-- Source: `delta/reconcile.rs`, `ChunkSig` -/
structure ChunkSig where
  offset : ℕ
  weak : UInt32
  strong : Digest
  deriving DecidableEq

/-- Source: `delta/reconcile.rs`, `From<&Chunk> for ChunkSig` -/
def Chunk.sig (c : Chunk) : ChunkSig := ⟨c.offset, c.weak, c.strong⟩

/-- Source: `delta/reconcile.rs`, `DeltaEntry` -/
inductive DeltaEntry where
  | hit (serverOffset len : ℕ)
  | miss (data : Bytes)
  deriving DecidableEq

/-- Source: `delta/reconcile.rs`, `DeltaPlan` -/
structure DeltaPlan where
  entries : List DeltaEntry
  deriving DecidableEq

/-- What chunks are looked up by. -/
abbrev ChunkKey := UInt32 × Digest

def Chunk.key (c : Chunk) : ChunkKey := (c.weak, c.strong)

def ChunkSig.key (s : ChunkSig) : ChunkKey := (s.weak, s.strong)

section

variable (blake3 : Bytes → Digest)

/-- The offsets of the base's chunks by key; of chunks with one key the last counts. -/
def baseIndex (baseChunks : List Chunk) : Table ChunkKey ℕ :=
  Table.insertAll Chunk.key Chunk.offset ∅ baseChunks

/-- The length of the chunk at an offset. -/
def lengthAt (baseChunks : List Chunk) (offset : ℕ) : Option ℕ :=
  (baseChunks.find? fun c => c.offset = offset).map fun c => c.data.length

/-- Source: `delta/reconcile.rs`, `build_plan` -/
def buildPlan (clientSigs : List ChunkSig) (base : Bytes) : DeltaPlan :=
  let baseChunks := chunks blake3 base
  ⟨clientSigs.map fun sig =>
    match (baseIndex baseChunks).lookup sig.key with
    | some serverOffset => .hit serverOffset ((lengthAt baseChunks serverOffset).getD blockSize)
    | none => .miss []⟩

/-- Source: `delta/reconcile.rs`, `build_plan_with_data` -/
def buildPlanWithData (clientChunks : List Chunk) (base : Bytes) : DeltaPlan :=
  let baseChunks := chunks blake3 base
  ⟨clientChunks.map fun chunk =>
    match (baseIndex baseChunks).lookup chunk.key with
    | some serverOffset =>
      .hit serverOffset ((lengthAt baseChunks serverOffset).getD chunk.data.length)
    | none => .miss chunk.data⟩

end

/-- What an entry of a plan adds to the output. -/
def applyEntry (base : Bytes) : DeltaEntry → Except String Bytes
  | .hit serverOffset len =>
    if serverOffset + len ≤ base.length then .ok ((base.drop serverOffset).take len)
    else .error ("Hit out of bounds: offset=" ++ toString serverOffset ++ " len=" ++ toString len ++
      " base_len=" ++ toString base.length)
  | .miss data =>
    if data = [] then .error "Miss entry has no data (use build_plan_with_data)" else .ok data

/-- The loop of `apply_plan`, with the output so far. -/
def applyEntries (base : Bytes) : Bytes → List DeltaEntry → Except String Bytes
  | out, [] => .ok out
  | out, entry :: entries => do
    let bytes ← applyEntry base entry
    applyEntries base (out ++ bytes) entries

/-- Source: `delta/reconcile.rs`, `apply_plan` -/
def applyPlan (base : Bytes) (plan : DeltaPlan) : Except String Bytes :=
  applyEntries base [] plan.entries

/-! ## Lookups -/

variable {blake3 : Bytes → Digest}

/-- Chunks that follow each other have different offsets. -/
theorem Contiguous.le_offset {offset : ℕ} {cs : List Chunk} {c : Chunk} (h : Contiguous offset cs)
    (hc : c ∈ cs) : offset ≤ c.offset := by
  induction cs generalizing offset with
  | nil => exact absurd hc List.not_mem_nil
  | cons d cs ih =>
      rcases List.mem_cons.mp hc with rfl | hc
      · exact le_of_eq h.1.symm
      · exact le_trans (Nat.le_add_right _ _) (ih h.2 hc)

theorem Contiguous.eq_of_offset {offset : ℕ} {cs : List Chunk} {c d : Chunk} (h : Contiguous offset cs)
    (hne : ∀ c ∈ cs, c.data ≠ []) (hc : c ∈ cs) (hd : d ∈ cs) (heq : c.offset = d.offset) : c = d := by
  induction cs generalizing offset with
  | nil => exact absurd hc List.not_mem_nil
  | cons e cs ih =>
      obtain ⟨hoffset, hrest⟩ := h
      have hpos : 0 < e.data.length := List.length_pos_of_ne_nil (hne e List.mem_cons_self)
      have hlater : ∀ x ∈ cs, e.offset < x.offset := by
        intro x hx
        have hle := hrest.le_offset hx
        omega
      rcases List.mem_cons.mp hc with hce | hc <;> rcases List.mem_cons.mp hd with hde | hd
      · rw [hce, hde]
      · exact absurd (hce ▸ heq) (ne_of_lt (hlater d hd))
      · exact absurd (hde ▸ heq) (ne_of_gt (hlater c hc))
      · exact ih hrest (fun x hx => hne x (List.mem_cons_of_mem _ hx)) hc hd

theorem lengthAt_eq_some {base : Bytes} {c : Chunk} (h : c ∈ chunks blake3 base) :
    lengthAt (chunks blake3 base) c.offset = some c.data.length := by
  have hfind : (chunks blake3 base).find? (fun d => d.offset = c.offset) = some c := by
    rcases hd : (chunks blake3 base).find? (fun d => d.offset = c.offset) with _ | d
    · have hnone := List.find?_eq_none.mp hd c h
      simp at hnone
    · have heq : d.offset = c.offset := by simpa using List.find?_some hd
      have hsame := (chunks_contiguous base).eq_of_offset (fun _ hx => (of_mem_chunks hx).1)
        (List.mem_of_find?_eq_some hd) h heq
      exact hd.trans (congrArg some hsame)
  rw [lengthAt, hfind]
  rfl

/-- What is found in the base is a chunk of the base with the same checksums. -/
theorem of_lookup_baseIndex {base : Bytes} {key : ChunkKey} {serverOffset : ℕ}
    (h : (baseIndex (chunks blake3 base)).lookup key = some serverOffset) :
    ∃ c ∈ chunks blake3 base, c.key = key ∧ c.offset = serverOffset :=
  Table.of_lookup_insertAll_empty h

/-! ## Plans without data -/

/-- An entry without the data of a miss. -/
def DeltaEntry.withoutData : DeltaEntry → DeltaEntry
  | .hit serverOffset len => .hit serverOffset len
  | .miss _ => .miss []

/-- A plan that is built from signatures is the one that is built from the chunks, without the
data. -/
theorem buildPlan_sigs (clientChunks : List Chunk) (base : Bytes) :
    (buildPlan blake3 (clientChunks.map Chunk.sig) base).entries =
      (buildPlanWithData blake3 clientChunks base).entries.map DeltaEntry.withoutData := by
  simp only [buildPlan, buildPlanWithData, List.map_map]
  apply List.map_congr_left
  intro c _
  have hsig : (baseIndex (chunks blake3 base)).lookup c.sig.key =
      (baseIndex (chunks blake3 base)).lookup c.key := rfl
  rcases h : (baseIndex (chunks blake3 base)).lookup c.key with _ | serverOffset
  · simp only [Function.comp_apply, hsig, h, DeltaEntry.withoutData]
  · obtain ⟨d, hd, -, rfl⟩ := of_lookup_baseIndex h
    simp only [Function.comp_apply, hsig, h, lengthAt_eq_some hd, Option.getD_some,
      DeltaEntry.withoutData]

/-! ## The round trip -/

/-- The strong hash takes no chunk of the client for another one of the base. -/
def TellsApart (blake3 : Bytes → Digest) (client base : Bytes) : Prop :=
  ∀ c ∈ chunks blake3 client, ∀ d ∈ chunks blake3 base, blake3 c.data = blake3 d.data → c.data = d.data

/-- Copying a chunk of the base at its offset gives its bytes. -/
theorem applyEntry_hit {base : Bytes} {d : Chunk} (h : d ∈ chunks blake3 base) :
    applyEntry base (.hit d.offset d.data.length) = .ok d.data := by
  have hfirst : Contiguous ([] : Bytes).length (chunks blake3 base) := chunks_contiguous base
  have hat := hfirst.data_at h
  rw [List.nil_append, flatMap_chunks] at hat
  rw [applyEntry, if_pos hat.1, hat.2]

theorem applyEntries_map {base : Bytes} {entryOf : Chunk → DeltaEntry} {cs : List Chunk}
    (h : ∀ c ∈ cs, applyEntry base (entryOf c) = .ok c.data) (out : Bytes) :
    applyEntries base out (cs.map entryOf) = .ok (out ++ cs.flatMap Chunk.data) := by
  induction cs generalizing out with
  | nil => simp [applyEntries]
  | cons c cs ih =>
      have hrest := ih (fun x hx => h x (List.mem_cons_of_mem _ hx)) (out ++ c.data)
      rw [List.map_cons, applyEntries, h c List.mem_cons_self, List.flatMap_cons, ← List.append_assoc]
      exact hrest

/-- **Applying the plan to the base gives the client's bytes**, and chunks cover their bytes. -/
theorem applyPlan_buildPlanWithData (client base : Bytes) (hhash : TellsApart blake3 client base) :
    applyPlan base (buildPlanWithData blake3 (chunks blake3 client) base) = .ok client ∧
      ∀ bytes, Contiguous 0 (chunks blake3 bytes) ∧ (∀ c ∈ chunks blake3 bytes, c.data ≠ []) ∧
        (chunks blake3 bytes).flatMap Chunk.data = bytes := by
  refine ⟨?_, fun bytes => ⟨chunks_contiguous bytes, fun _ hc => (of_mem_chunks hc).1,
    flatMap_chunks bytes⟩⟩
  rw [applyPlan, buildPlanWithData, applyEntries_map, List.nil_append, flatMap_chunks]
  intro c hc
  rcases h : (baseIndex (chunks blake3 base)).lookup c.key with _ | serverOffset
  · simp only [applyEntry]
    rw [if_neg (of_mem_chunks hc).1]
  · obtain ⟨d, hd, hkey, rfl⟩ := of_lookup_baseIndex h
    have hstrong : blake3 c.data = blake3 d.data := by
      have hcs := congrArg Chunk.strong (of_mem_chunks hc).2
      have hds := congrArg Chunk.strong (of_mem_chunks hd).2
      exact hcs.symm.trans ((congrArg Prod.snd hkey).symm.trans hds)
    simp only [lengthAt_eq_some hd, Option.getD_some]
    rw [applyEntry_hit hd, hhash c hc d hd hstrong]

/-- A block of zeros. -/
def zeros : Bytes := List.replicate blockSize 0

/-- Its blake3 digest. -/
def zerosHash : Digest :=
  ⟨[182, 251, 115, 252, 70, 147, 140, 152, 30, 43, 11, 75, 30, 242, 130, 173, 207, 200, 152, 84, 208,
    27, 254, 57, 114, 253, 196, 120, 91, 65, 178, 199], rfl⟩

/-- The digests of the block and of single bytes. -/
def blockBlake3 (bytes : Bytes) : Digest := if bytes = zeros then zerosHash else sampleBlake3 bytes

/-- The last byte is put in place of another: the block before it is a hit, and the plan carries the
byte. -/
theorem applyPlan_of_one_byte : TellsApart blockBlake3 (zeros ++ [98]) (zeros ++ [97]) ∧
    (buildPlanWithData blockBlake3 (chunks blockBlake3 (zeros ++ [98])) (zeros ++ [97])).entries =
      [.hit 0 blockSize, .miss [98]] ∧
    applyPlan (zeros ++ [97]) (buildPlanWithData blockBlake3 (chunks blockBlake3 (zeros ++ [98]))
      (zeros ++ [97])) = .ok (zeros ++ [98]) := by
  have hzeros : zeros.length = blockSize := List.length_replicate
  have hchunks : ∀ b, chunks blockBlake3 (zeros ++ [b]) =
      [chunkAt blockBlake3 0 zeros, chunkAt blockBlake3 blockSize [b]] := fun b =>
    chunks_block_append hzeros (List.cons_ne_nil b []) (by unfold blockSize; simp)
  have hhash : ∀ b, blockBlake3 [b] = sampleBlake3 [b] := fun b => if_neg fun h => by
    have hlength := congrArg List.length h
    rw [hzeros, List.length_singleton] at hlength
    revert hlength
    decide
  have hblock : blockBlake3 zeros = zerosHash := if_pos rfl
  have h97 : blockBlake3 zeros ≠ blockBlake3 [97] := by
    rw [hblock, hhash]
    decide +kernel
  have h98 : blockBlake3 [98] ≠ blockBlake3 zeros := by
    rw [hblock, hhash]
    decide +kernel
  have hbytes : blockBlake3 [98] ≠ blockBlake3 [97] := by
    rw [hhash, hhash]
    decide +kernel
  have hapart : TellsApart blockBlake3 (zeros ++ [98]) (zeros ++ [97]) := by
    unfold TellsApart
    rw [hchunks, hchunks]
    intro c hc d hd hsame
    rcases List.mem_pair.mp hc with rfl | rfl <;> rcases List.mem_pair.mp hd with rfl | rfl
    · rfl
    · exact absurd hsame h97
    · exact absurd hsame h98
    · exact absurd hsame hbytes
  have hkey : ∀ {m n : ℕ} {x y : Bytes}, blockBlake3 x ≠ blockBlake3 y →
      (chunkAt blockBlake3 m x).key ≠ (chunkAt blockBlake3 n y).key := fun h hkeys =>
    h (congrArg Prod.snd hkeys)
  have hindex : ∀ key, (baseIndex (chunks blockBlake3 (zeros ++ [97]))).lookup key =
      if key = (chunkAt blockBlake3 blockSize [97]).key then some blockSize
      else if key = (chunkAt blockBlake3 0 zeros).key then some 0 else none := by
    intro key
    rw [hchunks, baseIndex, Table.insertAll_cons, Table.insertAll_cons, Table.insertAll_nil,
      Table.lookup_insert_eq_ite, Table.lookup_insert_eq_ite]
    rfl
  refine ⟨hapart, ?_, (applyPlan_buildPlanWithData _ _ hapart).1⟩
  have hhit : (baseIndex (chunks blockBlake3 (zeros ++ [97]))).lookup
      (chunkAt blockBlake3 0 zeros).key = some 0 := by
    rw [hindex, if_neg (hkey h97), if_pos rfl]
  have hmiss : (baseIndex (chunks blockBlake3 (zeros ++ [97]))).lookup
      (chunkAt blockBlake3 blockSize [98]).key = none := by
    rw [hindex, if_neg (hkey hbytes), if_neg (hkey h98)]
  have hmem : chunkAt blockBlake3 0 zeros ∈ chunks blockBlake3 (zeros ++ [97]) := by
    rw [hchunks]
    exact List.mem_cons_self
  have hlength : lengthAt (chunks blockBlake3 (zeros ++ [97])) 0 = some blockSize :=
    (lengthAt_eq_some hmem).trans (congrArg some hzeros)
  simp only [buildPlanWithData, hchunks 98, List.map_cons, List.map_nil, hhit, hmiss, hlength,
    Option.getD_some]
  rfl

/-- A plan that is built the other way round, for the chunks of the base, gives back the base. -/
theorem base_of_swapped_plan : TellsApart sampleBlake3 [97] [98] ∧
    applyPlan [97] (buildPlanWithData sampleBlake3 (chunks sampleBlake3 [97]) [98]) ≠ .ok [98] := by
  have hplan : applyPlan [97] (buildPlanWithData sampleBlake3 (chunks sampleBlake3 [97]) [98]) =
      .ok [97] := by
    decide +kernel
  refine ⟨by unfold TellsApart; decide +kernel, ?_⟩
  rw [hplan]
  simp

end DiskArcana.Delta
