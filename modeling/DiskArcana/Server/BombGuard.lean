import Mathlib.Data.Nat.Notation
import DiskArcana.Core.Types

/-!
# The decompression guard

`disk-server/src/middleware/bomb_guard.rs`. The decoder is a library: `Zstd` is what the guard calls
of it, `Zstd.Reads` what a decoder gives out block by block until it stops, and `Zstd.Decodes` what
is documented of it for whole streams, for streams that end too early and for data that is no
stream.

The loop comes to an end whatever the decoder does, because the caps bound what it takes
(`readAll`), and its answer depends on the blocks through their concatenation alone
(`readAll_of_reads`).
-/

namespace DiskArcana.Server.BombGuard

open DiskArcana.Core

/-- Source: `bomb_guard.rs`, `MAX_COMPRESSED_BYTES` -/
def maxCompressedBytes : ℕ := 4 * 1024 * 1024

/-- Source: `bomb_guard.rs`, `MAX_DECOMPRESSED_BYTES` -/
def maxDecompressedBytes : ℕ := 16 * 1024 * 1024

/-- Source: `bomb_guard.rs`, `MAX_STREAM_DECOMPRESSED` -/
def maxStreamDecompressed : ℕ := 256 * 1024 * 1024

/-- Source: `bomb_guard.rs`, `BombError` -/
inductive BombError where
  | compressedCapExceeded
  | decompressedCapExceeded
  | streamCapExceeded
  deriving DecidableEq

/-- The kinds of `io::Error` that the loop tells apart. -/
inductive ErrorKind where
  | unexpectedEof
  | other
  deriving DecidableEq

/-- A `zstd::Decoder`: `read` fills a buffer of a length as far as it can, and gives out nothing at
the end. -/
structure Zstd where
  State : Type
  new : Bytes → Option State
  read : ℕ → State → Except ErrorKind Bytes × State

/-- The length of the buffer. -/
def bufLen : ℕ := 16384

/-- The output may overshoot by one byte. -/
def cap : ℕ := maxDecompressedBytes + 1

variable (zstd : Zstd)

/-- The loop over the decoder. -/
def readAll (decoder : zstd.State) (out : Bytes) : Except BombError Bytes :=
  match zstd.read bufLen decoder with
  | (.ok [], _) => .ok out
  | (.ok (b :: bs), decoder') =>
    if cap < out.length + (b :: bs).length then .error .decompressedCapExceeded
    else readAll decoder' (out ++ b :: bs)
  | (.error .unexpectedEof, _) => .ok out
  | (.error .other, _) => .error .decompressedCapExceeded
termination_by cap - out.length
decreasing_by
  simp only [List.length_append, List.length_cons] at *
  omega

/-- The bytes a stream has been decompressed to so far. The count starts at 0. -/
structure StreamTotal where
  bytes : ℕ
  le : bytes ≤ maxStreamDecompressed

/-- Source: `bomb_guard.rs`, `decompress_guarded` -/
def decompressGuarded (compressed : Bytes) (streamDecompressedSoFar : StreamTotal) :
    Except BombError Bytes × StreamTotal :=
  if maxCompressedBytes < compressed.length then
    (.error .compressedCapExceeded, streamDecompressedSoFar)
  else
    match zstd.new compressed with
    | none => (.error .decompressedCapExceeded, streamDecompressedSoFar)
    | some decoder =>
      match readAll zstd decoder [] with
      | .error e => (.error e, streamDecompressedSoFar)
      | .ok out =>
        if maxDecompressedBytes < out.length then
          (.error .decompressedCapExceeded, streamDecompressedSoFar)
        else if h : maxStreamDecompressed < streamDecompressedSoFar.bytes + out.length then
          (.error .streamCapExceeded, streamDecompressedSoFar)
        else (.ok out, ⟨streamDecompressedSoFar.bytes + out.length, Nat.not_lt.mp h⟩)

/-! ## Decoders -/

/-- How a decoder stops. -/
inductive Ending where
  | finished
  | failed (kind : ErrorKind)
  deriving DecidableEq

/-- What a decoder gives out until it stops, in blocks of any lengths. -/
inductive Zstd.Reads : zstd.State → Bytes → Ending → Prop where
  | finished {s s' : zstd.State} (h : zstd.read bufLen s = (.ok [], s')) : Zstd.Reads s [] .finished
  | failed {s s' : zstd.State} {kind : ErrorKind} (h : zstd.read bufLen s = (.error kind, s')) :
      Zstd.Reads s [] (.failed kind)
  | block {s s' : zstd.State} {b : UInt8} {bs rest : Bytes} {ending : Ending}
      (h : zstd.read bufLen s = (.ok (b :: bs), s')) (hrest : Zstd.Reads s' rest ending) :
      Zstd.Reads s (b :: bs ++ rest) ending

/-- What a byte string is to the zstd format. -/
inductive Stream where
  /-- Whole frames, and the data they stand for. -/
  | complete (data : Bytes)
  /-- A stream that ends before its last frame does. -/
  | truncated
  | malformed
  deriving DecidableEq

/-- What is documented of a decoder. -/
structure Zstd.Decodes (format : Bytes → Stream) : Prop where
  complete : ∀ compressed data, format compressed = .complete data →
    ∃ s, zstd.new compressed = some s ∧ zstd.Reads s data .finished
  truncated : ∀ compressed, format compressed = .truncated →
    ∃ s data, zstd.new compressed = some s ∧ zstd.Reads s data (.failed .unexpectedEof)
  malformed : ∀ compressed, format compressed = .malformed →
    ∀ s, zstd.new compressed = some s → ∃ data, zstd.Reads s data (.failed .other)

/-! ## The loop -/

variable {zstd} {s : zstd.State} {data out compressed : Bytes} {ending : Ending} {total : StreamTotal}

/-- The answer of the loop to everything a decoder gives out. -/
theorem readAll_of_reads (h : zstd.Reads s data ending) (hout : out.length ≤ cap) :
    readAll zstd s out =
      if cap < out.length + data.length then .error .decompressedCapExceeded
      else if ending = .failed .other then .error .decompressedCapExceeded
      else .ok (out ++ data) := by
  induction h generalizing out with
  | finished h =>
      rw [readAll, h]
      simp [hout]
  | @failed s s' kind h =>
      rw [readAll, h]
      rcases kind with _ | _ <;> simp [hout]
  | @block s s' b bs rest ending h hrest ih =>
      rw [readAll, h]
      by_cases hcap : cap < out.length + (b :: bs).length
      · have htoo : cap < out.length + (b :: bs ++ rest).length := by
          rw [List.length_append]
          omega
        simp only [hcap, htoo, if_true]
      · simp only [hcap, if_false]
        have hout' : (out ++ b :: bs).length ≤ cap := by
          rw [List.length_append]
          omega
        rw [ih hout', List.append_assoc, List.length_append, List.length_append, Nat.add_assoc]

/-! ## The guard -/

/-- The caps of a call. -/
def WithinCaps (compressed : Bytes) (total : StreamTotal) (data : Bytes) : Prop :=
  compressed.length ≤ maxCompressedBytes ∧ data.length ≤ maxDecompressedBytes ∧
    total.bytes + data.length ≤ maxStreamDecompressed

/-- When the guard answers with bytes. -/
theorem decompressGuarded_eq_ok_iff : (decompressGuarded zstd compressed total).1 = .ok out ↔
    WithinCaps compressed total out ∧
      ∃ s, zstd.new compressed = some s ∧ readAll zstd s [] = .ok out := by
  unfold decompressGuarded WithinCaps
  by_cases hcompressed : maxCompressedBytes < compressed.length
  · rw [if_pos hcompressed]
    simp [Nat.not_le.mpr hcompressed]
  rw [if_neg hcompressed]
  rcases hnew : zstd.new compressed with _ | s
  · simp
  rcases hread : readAll zstd s [] with e | data
  · simp [hread]
  simp only [hread]
  by_cases hdata : maxDecompressedBytes < data.length
  · simp only [hdata, if_true, reduceCtorEq, false_iff]
    rintro ⟨⟨-, hle, -⟩, s', hs', hread'⟩
    obtain rfl := Option.some.inj hs'
    obtain rfl := Except.ok.inj (hread.symm.trans hread')
    omega
  · by_cases htotal : maxStreamDecompressed < total.bytes + data.length
    · simp only [hdata, htotal, if_false, dif_pos, reduceCtorEq, false_iff]
      rintro ⟨⟨-, -, hle⟩, s', hs', hread'⟩
      obtain rfl := Option.some.inj hs'
      obtain rfl := Except.ok.inj (hread.symm.trans hread')
      omega
    · simp only [hdata, htotal, if_false, dif_neg, not_false_eq_true, Except.ok.injEq]
      constructor
      · rintro rfl
        exact ⟨⟨by omega, by omega, by omega⟩, s, rfl, hread⟩
      · rintro ⟨-, s', hs', hread'⟩
        obtain rfl := Option.some.inj hs'
        exact Except.ok.inj (hread.symm.trans hread')

/-- What a call does to the count of its stream. -/
theorem decompressGuarded_snd : (decompressGuarded zstd compressed total).2.bytes =
    match (decompressGuarded zstd compressed total).1 with
    | .ok out => total.bytes + out.length
    | .error _ => total.bytes := by
  unfold decompressGuarded
  split
  · rfl
  · split
    · rfl
    · split
      · rfl
      · split
        · rfl
        · split <;> rfl

/-- What the guard promises for a decoder and the format it decodes. -/
structure GuardLaw (zstd : Zstd) (format : Bytes → Stream) (compressed : Bytes) (total : StreamTotal) :
    Prop where
  /-- What comes back is within the caps, and counted. -/
  caps : ∀ out, (decompressGuarded zstd compressed total).1 = .ok out →
    WithinCaps compressed total out ∧
      (decompressGuarded zstd compressed total).2.bytes = total.bytes + out.length
  /-- A refusal counts nothing. -/
  refused : ∀ e, (decompressGuarded zstd compressed total).1 = .error e →
    (decompressGuarded zstd compressed total).2.bytes = total.bytes
  /-- A whole stream within the caps is given back whole, and otherwise refused. -/
  complete : ∀ data, format compressed = .complete data →
    ∀ out, (decompressGuarded zstd compressed total).1 = .ok out ↔
      out = data ∧ WithinCaps compressed total data
  malformed : format compressed = .malformed →
    ∃ e, (decompressGuarded zstd compressed total).1 = .error e

theorem guardLaw {format : Bytes → Stream} (hzstd : zstd.Decodes format) (compressed : Bytes)
    (total : StreamTotal) : GuardLaw zstd format compressed total where
  caps out h := by
    refine ⟨(decompressGuarded_eq_ok_iff.mp h).1, ?_⟩
    rw [decompressGuarded_snd, h]
  refused e h := by rw [decompressGuarded_snd, h]
  complete data hformat out := by
    obtain ⟨s, hs, hreads⟩ := hzstd.complete compressed data hformat
    have hread : readAll zstd s [] = _ := readAll_of_reads hreads (Nat.zero_le _)
    simp only [List.length_nil, Nat.zero_add, reduceCtorEq, if_false, List.nil_append] at hread
    rw [decompressGuarded_eq_ok_iff]
    constructor
    · rintro ⟨hcaps, s', hs', hread'⟩
      obtain rfl := Option.some.inj (hs.symm.trans hs')
      rw [hread] at hread'
      split at hread'
      · cases hread'
      · obtain rfl := Except.ok.inj hread'
        exact ⟨rfl, hcaps⟩
    · rintro ⟨rfl, hcaps⟩
      have hle : ¬ cap < out.length := by
        have := hcaps.2.1
        unfold cap
        omega
      exact ⟨hcaps, s, hs, by rw [hread, if_neg hle]⟩
  malformed hformat := by
    rcases hresult : (decompressGuarded zstd compressed total).1 with e | out
    · exact ⟨e, rfl⟩
    · obtain ⟨-, s, hs, hread⟩ := decompressGuarded_eq_ok_iff.mp hresult
      obtain ⟨data, hreads⟩ := hzstd.malformed compressed hformat s hs
      rw [readAll_of_reads hreads (Nat.zero_le _)] at hread
      simp at hread

/-- Of a stream that ends too early the guard keeps what the decoder gave out before. -/
theorem decompressGuarded_of_truncated (hs : zstd.new compressed = some s)
    (hreads : zstd.Reads s data (.failed .unexpectedEof)) (hcaps : WithinCaps compressed total data) :
    (decompressGuarded zstd compressed total).1 = .ok data := by
  have hle : ¬ cap < ([] : Bytes).length + data.length := by
    have := hcaps.2.1
    simp only [List.length_nil, cap]
    omega
  refine decompressGuarded_eq_ok_iff.mpr ⟨hcaps, s, hs, ?_⟩
  rw [readAll_of_reads hreads (Nat.zero_le _), if_neg hle]
  simp

/-! ## A frame of zeros -/

/-- A frame with one block that repeats a zero byte a hundred times. -/
def zerosFrame : Bytes := [0x28, 0xB5, 0x2F, 0xFD, 0x20, 0x64, 0x23, 0x03, 0x00, 0x00]

/-- The magic number of a frame, and nothing more. -/
def magicOnly : Bytes := [0x28, 0xB5, 0x2F, 0xFD]

/-- What the two are to the format; nothing else is looked at. -/
def sampleFormat (compressed : Bytes) : Stream :=
  if compressed = zerosFrame then .complete (List.replicate 100 0)
  else if compressed = magicOnly then .truncated
  else .malformed

/-- A decoder of the two: its state is what it is still to give out. -/
def sampleZstd : Zstd where
  State := List (Except ErrorKind Bytes)
  new compressed := some <|
    if compressed = zerosFrame then [.ok (List.replicate 100 0)]
    else if compressed = magicOnly then [.error .unexpectedEof]
    else [.error .other]
  read _ s := (s.headD (.ok []), s.tail)

theorem sampleZstd_reads :
    sampleZstd.Reads [.ok (List.replicate 100 0)] (List.replicate 100 0) .finished :=
  @Zstd.Reads.block sampleZstd _ _ 0 (List.replicate 99 0) [] _ rfl (.finished rfl)

theorem sampleZstd_decodes : sampleZstd.Decodes sampleFormat where
  complete compressed data h := by
    unfold sampleFormat at h
    split_ifs at h with hframe
    obtain rfl := Stream.complete.inj h
    refine ⟨_, rfl, ?_⟩
    rw [if_pos hframe]
    exact sampleZstd_reads
  truncated compressed h := by
    unfold sampleFormat at h
    split_ifs at h with hframe hmagic
    refine ⟨_, [], rfl, ?_⟩
    rw [if_neg hframe, if_pos hmagic]
    exact .failed rfl
  malformed compressed h s hs := by
    unfold sampleFormat at h
    split_ifs at h with hframe hmagic
    obtain rfl := Option.some.inj hs
    rw [if_neg hframe, if_neg hmagic]
    exact ⟨[], .failed rfl⟩

def noBytes : StreamTotal := ⟨0, Nat.zero_le _⟩

theorem guardLaw_zerosFrame : sampleFormat zerosFrame = .complete (List.replicate 100 0) ∧
    GuardLaw sampleZstd sampleFormat zerosFrame noBytes :=
  ⟨by decide, guardLaw sampleZstd_decodes zerosFrame noBytes⟩

/-- There is no cap on the ratio: ten bytes become a hundred. And a stream of which there is the
magic number alone is not refused. -/
theorem not_ratio_capped :
    (∃ out, (decompressGuarded sampleZstd zerosFrame noBytes).1 = .ok out ∧
      9 * zerosFrame.length < out.length) ∧
    sampleFormat magicOnly = .truncated ∧
    (decompressGuarded sampleZstd magicOnly noBytes).1 = .ok [] := by
  refine ⟨⟨List.replicate 100 0, ?_, by decide⟩, by decide, ?_⟩
  · refine decompressGuarded_eq_ok_iff.mpr ⟨⟨by decide, by decide, by decide⟩, _, rfl, ?_⟩
    exact (readAll_of_reads sampleZstd_reads (Nat.zero_le _)).trans (by decide)
  · exact decompressGuarded_of_truncated rfl (.failed rfl) ⟨by decide, by decide, by decide⟩

end DiskArcana.Server.BombGuard
