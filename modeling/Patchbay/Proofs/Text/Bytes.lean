import Mathlib.Data.List.Basic
import Patchbay.Text.Blank

/-! # Bytes of texts

A text is cut by bytes only where a character ends.  A last byte below 0x80 is a character of its
own, so it can be cut off. -/

namespace Patchbay.Text

/-- The first bytes of a text; nothing if they end inside of a character. -/
def sliceTo (s : String) (n : ℕ) : Option String := String.fromUTF8? (s.toByteArray.extract 0 n)

theorem bytes_concat (cs : List Char) (c : Char) :
    (String.ofList (cs ++ [c])).toByteArray =
      (String.ofList cs).toByteArray ++ (String.utf8EncodeChar c).toByteArray := by
  rw [String.toByteArray_ofList, List.utf8Encode_append, List.utf8Encode_singleton,
    String.toByteArray_ofList]

theorem utf8EncodeChar_of_lt {c : Char} (h : c.toNat < 0x80) :
    String.utf8EncodeChar c = [c.toUInt8] := by
  refine String.utf8EncodeChar_eq_singleton (Char.utf8Size_eq_one_iff.mpr ?_)
  exact UInt32.le_iff_toNat_le.mpr (Nat.le_of_lt_succ h)

/-- The last of several bytes of a character is not below 0x80. -/
theorem getLast?_utf8EncodeChar {c : Char} (h : 0x80 ≤ c.toNat) :
    ∃ b, (String.utf8EncodeChar c).getLast? = some b ∧ 0x80 ≤ b.toNat := by
  refine ⟨UInt8.ofNat (c.val.toNat % 64 + 128), ?_, ?_⟩
  · rw [String.utf8EncodeChar.eq_1, if_neg (show ¬ c.val.toNat ≤ 127 from Nat.not_le.mpr h)]
    split
    · rfl
    · split <;> rfl
  · rw [UInt8.toNat_ofNat']
    omega

/-- Nor is the first. -/
theorem exists_utf8EncodeChar_eq_cons {c : Char} (h : 0x80 ≤ c.toNat) :
    ∃ b more, String.utf8EncodeChar c = b :: more ∧ 0x80 ≤ b.toNat := by
  rw [String.utf8EncodeChar.eq_1, if_neg (show ¬ c.val.toNat ≤ 127 from Nat.not_le.mpr h)]
  split
  · refine ⟨_, _, rfl, ?_⟩
    rw [UInt8.toNat_ofNat']
    omega
  · split
    · refine ⟨_, _, rfl, ?_⟩
      rw [UInt8.toNat_ofNat']
      omega
    · refine ⟨_, _, rfl, ?_⟩
      rw [UInt8.toNat_ofNat']
      omega

theorem toNat_toUInt8 {c : Char} (h : c.toNat < 0x80) : c.toUInt8.toNat = c.toNat := by
  have hval : c.toUInt8.toNat = c.toNat % 256 := UInt32.toNat_toUInt8 c.val
  omega

theorem toUInt8_inj {c d : Char} (hc : c.toNat < 0x80) (hd : d.toNat < 0x80) :
    c.toUInt8 = d.toUInt8 ↔ c = d := by
  rw [← UInt8.toNat_inj, toNat_toUInt8 hc, toNat_toUInt8 hd, Char.toNat_inj]

theorem ofUInt8_toUInt8 {c : Char} (h : c.toNat < 0x80) : Char.ofUInt8 c.toUInt8 = c :=
  Char.toNat_inj.mp ((UInt8.toNat_toUInt32 _).trans (toNat_toUInt8 h))

theorem sliceTo_concat (cs : List Char) {c : Char} (h : c.toNat < 0x80) :
    sliceTo (.ofList (cs ++ [c])) ((String.ofList (cs ++ [c])).utf8ByteSize - 1) =
      some (.ofList cs) := by
  unfold sliceTo
  rw [← String.size_toByteArray, bytes_concat, utf8EncodeChar_of_lt h, ByteArray.size_append,
    ByteArray.extract_append_eq_left (by rfl)]
  exact dif_pos (String.isValidUTF8 _)

theorem back?_bytes (cs : List Char) {c : Char} {b : UInt8}
    (h : (String.utf8EncodeChar c).getLast? = some b) :
    (String.ofList (cs ++ [c])).toByteArray.data.back? = some b := by
  rw [bytes_concat, ByteArray.data_append, List.data_toByteArray, Array.back?_append,
    List.back?_toArray, h, Option.some_or]

/-! ## Slices -/

/-- The bytes of a text between two places; nothing if a place is inside of a character or behind
the text, or if the second comes before the first. -/
def slice (s : String) (start stop : ℕ) : Option String :=
  if String.Pos.Raw.isValid s ⟨start⟩ ∧ String.Pos.Raw.isValid s ⟨stop⟩ ∧ start ≤ stop then
    String.fromUTF8? (s.toByteArray.extract start stop)
  else none

theorem isValid_append (front rest : String) :
    String.Pos.Raw.isValid (front ++ rest) ⟨front.utf8ByteSize⟩ :=
  String.Pos.Raw.isValid_eq_true_iff.mpr
    (String.Pos.Raw.isValid_iff_exists_append.mpr ⟨front, rest, rfl, rfl⟩)

theorem slice_append (front piece rest : String) :
    slice (front ++ piece ++ rest) front.utf8ByteSize (front ++ piece).utf8ByteSize =
      some piece := by
  have hstart : String.Pos.Raw.isValid (front ++ piece ++ rest) ⟨front.utf8ByteSize⟩ := by
    rw [String.append_assoc]
    exact isValid_append front (piece ++ rest)
  have hstop := isValid_append (front ++ piece) rest
  have hle : front.utf8ByteSize ≤ (front ++ piece).utf8ByteSize := by
    rw [String.utf8ByteSize_append]
    exact Nat.le_add_right _ _
  have hbytes : (front ++ piece ++ rest).toByteArray.extract front.utf8ByteSize
      (front ++ piece).utf8ByteSize = piece.toByteArray :=
    calc
      _ = (front.toByteArray ++ (piece ++ rest).toByteArray).extract (front.toByteArray.size + 0)
          (front.toByteArray.size + piece.utf8ByteSize) := by
        rw [String.append_assoc, String.toByteArray_append, String.utf8ByteSize_append]
        rfl
      _ = (piece.toByteArray ++ rest.toByteArray).extract 0 piece.utf8ByteSize := by
        rw [ByteArray.extract_append_size_add, String.toByteArray_append]
      _ = piece.toByteArray := ByteArray.extract_append_eq_left String.size_toByteArray.symm
  rw [slice, if_pos ⟨hstart, hstop, hle⟩, hbytes]
  exact dif_pos (String.isValidUTF8 _)

/-- A text of which each character is a byte. -/
theorem utf8ByteSize_ofList {cs : List Char} (h : ∀ c ∈ cs, c.toNat < 0x80) :
    (String.ofList cs).utf8ByteSize = cs.length := by
  rw [← String.size_toByteArray, String.toByteArray_ofList]
  induction cs with
  | nil => rfl
  | cons c cs ih =>
      obtain ⟨hc, hcs⟩ := List.forall_mem_cons.mp h
      rw [List.utf8Encode_cons, ByteArray.size_append, ih hcs, List.utf8Encode_singleton,
        utf8EncodeChar_of_lt hc, List.length_cons, Nat.add_comm]
      rfl

end Patchbay.Text
