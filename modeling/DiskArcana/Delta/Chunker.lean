import DiskArcana.Delta.Rolling

/-!
# Chunks

`disk-core/src/delta/chunker.rs`: the bytes of a reader in blocks of 4 KiB, the last of which may be
shorter. Each chunk carries its offset, the weak checksum, the strong hash and its bytes; the strong
hash is that of the `blake3` crate, a parameter. The reader is the one of a byte slice.

The chunks of a byte string stand one after the other from offset 0, none of them is empty, and
together they are the byte string (`chunks_contiguous`, `of_mem_chunks`, `flatMap_chunks`).
-/

namespace DiskArcana.Delta

open DiskArcana.Core DiskArcana.Lib

/-- Source: `delta/chunker.rs`, `BLOCK_SIZE` -/
def blockSize : ℕ := 4096

/-- Source: `delta/chunker.rs`, `Chunk` -/
structure Chunk where
  offset : ℕ
  weak : UInt32
  strong : Digest
  data : Bytes
  deriving DecidableEq

/-- `Read` for a byte slice: as many bytes as fit, and the slice that is left. -/
def readSlice (rest : Bytes) (size : ℕ) : Bytes × Bytes := (rest.take size, rest.drop size)

/-- The loop that fills the buffer: it ends when the buffer is full or nothing is read. -/
def fillBuf : ℕ → Bytes → Bytes → Bytes × Bytes
  | 0, buf, rest => (buf, rest)
  | turns + 1, buf, rest =>
    let (read, rest) := readSlice rest (blockSize - buf.length)
    if read = [] then (buf, rest)
    else if (buf ++ read).length = blockSize then (buf ++ read, rest)
    else fillBuf turns (buf ++ read) rest

section

variable (blake3 : Bytes → Digest)

/-- A chunk with its checksums. -/
def chunkAt (offset : ℕ) (data : Bytes) : Chunk := ⟨offset, adler32Full data, blake3 data, data⟩

/-- The iterator, from an offset on; a turn reads a byte at least, or is the last. -/
def chunksFrom : ℕ → ℕ → Bytes → List Chunk
  | 0, _, _ => []
  | turns + 1, offset, rest =>
    let (data, rest) := fillBuf blockSize [] rest
    if data = [] then []
    else chunkAt blake3 offset data :: chunksFrom turns (offset + data.length) rest

/-- Source: `delta/chunker.rs`, `chunks` -/
def chunks (bytes : Bytes) : List Chunk := chunksFrom blake3 (bytes.length + 1) 0 bytes

end

/-! ## What the chunks are -/

variable {blake3 : Bytes → Digest}

theorem fillBuf_succ (turns : ℕ) (buf rest : Bytes) :
    fillBuf (turns + 1) buf rest =
      let read := rest.take (blockSize - buf.length)
      let left := rest.drop (blockSize - buf.length)
      if read = [] then (buf, left)
      else if (buf ++ read).length = blockSize then (buf ++ read, left)
      else fillBuf turns (buf ++ read) left := rfl

/-- Two reads are enough for a slice: the second one fills nothing. -/
theorem fillBuf_of_two (turns : ℕ) (rest : Bytes) :
    fillBuf (turns + 2) [] rest = (rest.take blockSize, rest.drop blockSize) := by
  rw [fillBuf_succ]
  simp only [List.length_nil, Nat.sub_zero, List.nil_append]
  by_cases hempty : rest.take blockSize = []
  · rw [if_pos hempty, hempty]
  · rw [if_neg hempty]
    by_cases hfull : (rest.take blockSize).length = blockSize
    · rw [if_pos hfull]
    · -- the slice is used up
      have hlength : rest.length ≤ blockSize := by
        rw [List.length_take] at hfull
        omega
      have hdrop : rest.drop blockSize = [] := List.drop_of_length_le hlength
      rw [if_neg hfull, hdrop, fillBuf_succ]
      simp

/-- The buffer takes the next block, or what is left. -/
theorem fillBuf_nil (rest : Bytes) :
    fillBuf blockSize [] rest = (rest.take blockSize, rest.drop blockSize) :=
  fillBuf_of_two 4094 rest

theorem chunksFrom_succ (turns offset : ℕ) (rest : Bytes) :
    chunksFrom blake3 (turns + 1) offset rest =
      if rest.take blockSize = [] then []
      else chunkAt blake3 offset (rest.take blockSize) ::
        chunksFrom blake3 turns (offset + (rest.take blockSize).length) (rest.drop blockSize) := by
  rw [chunksFrom, fillBuf_nil]

/-- Chunks that follow each other from an offset on. -/
def Contiguous : ℕ → List Chunk → Prop
  | _, [] => True
  | offset, c :: cs => c.offset = offset ∧ Contiguous (offset + c.data.length) cs

theorem contiguous_chunksFrom (turns offset : ℕ) (rest : Bytes) :
    Contiguous offset (chunksFrom blake3 turns offset rest) := by
  induction turns generalizing offset rest with
  | zero => trivial
  | succ turns ih =>
      rw [chunksFrom_succ]
      split_ifs with hempty
      · trivial
      · exact ⟨rfl, ih _ _⟩

/-- A chunk is a piece of the bytes with its checksums. -/
theorem of_mem_chunksFrom {turns offset : ℕ} {rest : Bytes} {c : Chunk}
    (h : c ∈ chunksFrom blake3 turns offset rest) :
    c.data ≠ [] ∧ c = chunkAt blake3 c.offset c.data := by
  induction turns generalizing offset rest with
  | zero => exact absurd h List.not_mem_nil
  | succ turns ih =>
      rw [chunksFrom_succ] at h
      split_ifs at h with hempty
      · exact absurd h List.not_mem_nil
      · rcases List.mem_cons.mp h with rfl | h
        · exact ⟨hempty, rfl⟩
        · exact ih h

theorem flatMap_chunksFrom {turns offset : ℕ} {rest : Bytes} (h : rest.length < turns) :
    (chunksFrom blake3 turns offset rest).flatMap Chunk.data = rest := by
  induction turns generalizing offset rest with
  | zero => omega
  | succ turns ih =>
      rw [chunksFrom_succ]
      split_ifs with hempty
      · rcases List.take_eq_nil_iff.mp hempty with hzero | hrest
        · exact absurd hzero (by decide)
        · rw [hrest]
          rfl
      · have hpos : 0 < rest.length := by
          apply List.length_pos_of_ne_nil
          rintro rfl
          exact hempty rfl
        have hdrop : (rest.drop blockSize).length < turns := by
          rw [List.length_drop]
          unfold blockSize
          omega
        rw [List.flatMap_cons, ih hdrop]
        exact List.take_append_drop _ _

/-- A block and what is left after it, at most a block, are two chunks. -/
theorem chunks_block_append {block rest : Bytes} (hblock : block.length = blockSize) (hne : rest ≠ [])
    (hrest : rest.length ≤ blockSize) :
    chunks blake3 (block ++ rest) = [chunkAt blake3 0 block, chunkAt blake3 blockSize rest] := by
  have hblock' : block ≠ [] := by
    rintro rfl
    revert hblock
    decide
  obtain ⟨turns, hturns⟩ : ∃ turns, (block ++ rest).length + 1 = turns + 3 :=
    ⟨(block ++ rest).length - 2, by
      have hpos := List.length_pos_of_ne_nil hne
      have hpos' := List.length_pos_of_ne_nil hblock'
      rw [List.length_append]
      omega⟩
  rw [chunks, hturns, chunksFrom_succ, List.take_left' hblock, List.drop_left' hblock, if_neg hblock',
    chunksFrom_succ, List.take_of_length_le hrest, List.drop_of_length_le hrest, if_neg hne,
    chunksFrom_succ, List.take_nil, if_pos rfl, hblock, Nat.zero_add]

/-- The chunks stand one after the other from offset 0. -/
theorem chunks_contiguous (bytes : Bytes) : Contiguous 0 (chunks blake3 bytes) :=
  contiguous_chunksFrom _ _ _

/-- No chunk is empty, and each carries the checksums of its bytes. -/
theorem of_mem_chunks {bytes : Bytes} {c : Chunk} (h : c ∈ chunks blake3 bytes) :
    c.data ≠ [] ∧ c = chunkAt blake3 c.offset c.data :=
  of_mem_chunksFrom h

/-- Together the chunks are the bytes. -/
theorem flatMap_chunks (bytes : Bytes) : (chunks blake3 bytes).flatMap Chunk.data = bytes :=
  flatMap_chunksFrom (Nat.lt_succ_self _)

/-- The bytes of a chunk stand at its offset. -/
theorem Contiguous.data_at {cs : List Chunk} {c : Chunk} {before : Bytes}
    (h : Contiguous before.length cs) (hc : c ∈ cs) :
    c.offset + c.data.length ≤ (before ++ cs.flatMap Chunk.data).length ∧
      ((before ++ cs.flatMap Chunk.data).drop c.offset).take c.data.length = c.data := by
  induction cs generalizing before with
  | nil => exact absurd hc List.not_mem_nil
  | cons d cs ih =>
      obtain ⟨hoffset, hrest⟩ := h
      rw [List.flatMap_cons, ← List.append_assoc]
      rcases List.mem_cons.mp hc with rfl | hc
      · rw [hoffset]
        refine ⟨?_, ?_⟩
        · simp only [List.length_append]
          omega
        · rw [List.append_assoc, List.drop_left, List.take_left]
      · rw [← List.length_append] at hrest
        exact ih hrest hc

end DiskArcana.Delta
