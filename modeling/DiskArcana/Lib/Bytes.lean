import Mathlib.Data.List.Basic

/-!
# Fields in a sequence of bytes

A record is written as bytes by putting its fields after each other. A field is read back when a
separator follows that it does not hold (`append_cons_inj`); for texts in UTF-8 a zero byte is one, as
long as there is no NUL in the text (`zero_notMem_toUTF8`).
-/

namespace DiskArcana.Lib.Bytes

/-- Two lists that are cut at the first separator have the same parts when they are the same. -/
theorem append_cons_inj {α : Type} {sep : α} {a a' b b' : List α} (ha : sep ∉ a) (ha' : sep ∉ a')
    (h : a ++ sep :: b = a' ++ sep :: b') : a = a' ∧ b = b' := by
  induction a generalizing a' with
  | nil =>
      cases a' with
      | nil => exact ⟨rfl, (List.cons.inj h).2⟩
      | cons c cs => exact absurd ((List.cons.inj h).1 ▸ List.mem_cons_self) ha'
  | cons c cs ih =>
      cases a' with
      | nil => exact absurd ((List.cons.inj h).1 ▸ List.mem_cons_self) ha
      | cons d ds =>
          obtain ⟨hcd, htail⟩ := List.cons.inj h
          obtain ⟨hcs, hb⟩ := ih (fun hmem => ha (List.mem_cons_of_mem _ hmem))
            (fun hmem => ha' (List.mem_cons_of_mem _ hmem)) htail
          exact ⟨by rw [hcd, hcs], hb⟩

/-! ## UTF-8 -/

theorem toList_loop (bytes : ByteArray) (i : ℕ) (r : List UInt8) :
    ByteArray.toList.loop bytes i r = r.reverse ++ bytes.data.toList.drop i := by
  induction hn : bytes.size - i generalizing i r with
  | zero =>
      rw [ByteArray.toList.loop, if_neg (by omega), List.drop_eq_nil_of_le, List.append_nil]
      rw [Array.length_toList]
      exact Nat.le_of_sub_eq_zero hn
  | succ n ih =>
      have hi : i < bytes.size := by omega
      have hlength : i < bytes.data.toList.length := hi
      have hget : bytes.get! i = bytes.data.toList[i] := by
        rw [Array.getElem_toList]
        exact getElem!_pos bytes.data i hi
      rw [ByteArray.toList.loop, if_pos hi, ih (i + 1) _ (by omega), List.drop_eq_getElem_cons hlength,
        List.reverse_cons, List.append_assoc, hget]
      rfl

theorem toList_eq (bytes : ByteArray) : bytes.toList = bytes.data.toList := by
  rw [ByteArray.toList, toList_loop]
  rfl

theorem toUTF8_injective : Function.Injective fun s : String => s.toUTF8.toList := by
  intro s t h
  simp only [toList_eq, String.toUTF8_eq_toByteArray] at h
  exact String.toByteArray_inj.mp (ByteArray.ext (Array.toList_inj.mp h))

theorem le_or_right (x y : UInt8) : y ≤ x ||| y := by
  rw [UInt8.le_iff_toNat_le, UInt8.toNat_or]
  exact Nat.right_le_or

/-- A byte below 128 stands for the character of its number and occurs in no other. -/
theorem ascii_notMem_utf8EncodeChar {c : Char} {x : UInt8} (hx : x < 0x80)
    (hc : c.val.toNat ≠ x.toNat) : x ∉ String.utf8EncodeChar c := by
  rw [String.utf8EncodeChar_eq_utf8EncodeCharFast]
  unfold String.utf8EncodeCharFast
  dsimp only
  have hhigh : ∀ y : UInt8, ∀ high : UInt8, 0x80 ≤ high → x ≠ y ||| high := by
    rintro y high hle rfl
    have := UInt8.lt_of_le_of_lt (UInt8.le_trans hle (le_or_right y high)) hx
    simp at this
  split_ifs with h
  · rw [List.mem_singleton]
    rintro rfl
    apply hc
    have hlow : c.val.toNat ≤ 127 := UInt32.le_iff_toNat_le.mp h
    have hbyte : c.val.toUInt8.toNat = c.val.toNat % 256 := UInt32.toNat_toUInt8 ..
    omega
  -- a byte of a longer character has its highest bit set
  · simp only [List.mem_cons, List.not_mem_nil, or_false, not_or]
    exact ⟨hhigh _ _ (by decide), hhigh _ _ (by decide)⟩
  · simp only [List.mem_cons, List.not_mem_nil, or_false, not_or]
    exact ⟨hhigh _ _ (by decide), hhigh _ _ (by decide), hhigh _ _ (by decide)⟩
  · simp only [List.mem_cons, List.not_mem_nil, or_false, not_or]
    exact ⟨hhigh _ _ (by decide), hhigh _ _ (by decide), hhigh _ _ (by decide), hhigh _ _ (by decide)⟩

/-- No character but NUL has a zero byte. -/
theorem zero_notMem_utf8EncodeChar {c : Char} (hc : c ≠ Char.ofNat 0) :
    (0 : UInt8) ∉ String.utf8EncodeChar c := by
  apply ascii_notMem_utf8EncodeChar (by decide)
  intro hzero
  apply hc
  apply Char.ext
  apply UInt32.toNat_inj.mp
  exact hzero

/-- A text without NUL has no zero byte. -/
theorem zero_notMem_toUTF8 {s : String} (h : Char.ofNat 0 ∉ s.toList) :
    (0 : UInt8) ∉ s.toUTF8.toList := by
  obtain ⟨l, rfl⟩ : ∃ l, s = String.ofList l := ⟨s.toList, String.ofList_toList.symm⟩
  rw [String.toList_ofList] at h
  rw [toList_eq, String.toUTF8_eq_toByteArray]
  show 0 ∉ l.utf8Encode.data.toList
  rw [List.utf8Encode, List.toList_data_toByteArray, List.mem_flatMap]
  rintro ⟨c, hc, hzero⟩
  exact zero_notMem_utf8EncodeChar (fun heq => h (heq ▸ hc)) hzero

end DiskArcana.Lib.Bytes
