import Mathlib.Data.String.Basic
import Mathlib.Tactic.SplitIfs

namespace Sift.Text

/-! Texts are in the order of their bytes. -/

def bytes (text : String) : List UInt8 :=
  text.toByteArray.data.toList

theorem bytes_eq_flatMap (text : String) :
    bytes text = text.toList.flatMap String.utf8EncodeChar := by
  rw [bytes, ← String.utf8Encode_toList, List.utf8Encode]
  simp

section Byte

variable {first second : Nat} (hfirst : first < 256) (hsecond : second < 256)

include hfirst hsecond

theorem ofNat_lt_ofNat_iff : UInt8.ofNat first < UInt8.ofNat second ↔ first < second := by
  rw [UInt8.lt_iff_toNat_lt, UInt8.toNat_ofNat_of_lt' hfirst,
    UInt8.toNat_ofNat_of_lt' hsecond]

theorem ofNat_eq_ofNat_iff : UInt8.ofNat first = UInt8.ofNat second ↔ first = second := by
  rw [← UInt8.toNat_inj, UInt8.toNat_ofNat_of_lt' hfirst,
    UInt8.toNat_ofNat_of_lt' hsecond]

end Byte

/-- The encodings of two characters differ, and first at a byte that is less in the
encoding of the lesser one. -/
theorem utf8EncodeChar_append_lt {first second : Char} (h : first < second)
    (left right : List UInt8) :
    String.utf8EncodeChar first ++ left < String.utf8EncodeChar second ++ right := by
  have hlt : first.val.toNat < second.val.toNat := h
  have hbound : second.val.toNat < 1114112 := by
    have hvalid := second.valid
    simp only [UInt32.isValidChar, Nat.isValidChar] at hvalid
    omega
  simp only [String.utf8EncodeChar]
  generalize first.val.toNat = low at hlt
  generalize second.val.toNat = high at hlt hbound
  -- The digits to base 64 that the encodings are made of, one from the other.
  have hdigits : ∀ code < 1114112, code / 64 / 64 = code / 4096 ∧
      code / 4096 / 64 = code / 262144 ∧ code / 262144 / 8 = 0 := by
    omega
  have hlow := hdigits low (hlt.trans hbound)
  have hhigh := hdigits high hbound
  split_ifs <;>
    simp (disch := omega) only [List.cons_append, List.nil_append,
      List.cons_lt_cons_iff, ofNat_lt_ofNat_iff, ofNat_eq_ofNat_iff] <;>
    omega

theorem utf8EncodeChar_eq_cons (c : Char) :
    ∃ byte others, String.utf8EncodeChar c = byte :: others := by
  simp only [String.utf8EncodeChar]
  split_ifs <;> exact ⟨_, _, rfl⟩

theorem flatMap_utf8EncodeChar_lt {first second : List Char} (h : first < second) :
    first.flatMap String.utf8EncodeChar < second.flatMap String.utf8EncodeChar := by
  induction h with
  | @nil c cs =>
      obtain ⟨byte, others, hbyte⟩ := utf8EncodeChar_eq_cons c
      rw [List.flatMap_nil, List.flatMap_cons, hbyte]
      exact List.nil_lt_cons _ _
  | cons _ ih => exact List.append_left_lt ih
  | rel hlt => exact utf8EncodeChar_append_lt hlt _ _

theorem bytes_lt_bytes {first second : String} (h : first < second) :
    bytes first < bytes second := by
  rw [bytes_eq_flatMap, bytes_eq_flatMap]
  exact flatMap_utf8EncodeChar_lt (String.lt_iff_toList_lt.mp h)

end Sift.Text
