import Sift.Text.Caseless
import Sift.Token.Lexeme

namespace Sift.Lexeme

/-! The characters of words, told apart by their codes. -/

variable {c : Char}

theorem isUpper_iff : c.isUpper = true ↔ 65 ≤ c.toNat ∧ c.toNat ≤ 90 :=
  decide_eq_true_iff

theorem isLower_iff : c.isLower = true ↔ 97 ≤ c.toNat ∧ c.toNat ≤ 122 :=
  Bool.and_eq_true_iff.trans (and_congr decide_eq_true_iff decide_eq_true_iff)

theorem isAlpha_iff :
    c.isAlpha = true ↔
      (65 ≤ c.toNat ∧ c.toNat ≤ 90) ∨ (97 ≤ c.toNat ∧ c.toNat ≤ 122) :=
  Bool.or_eq_true_iff.trans (or_congr isUpper_iff isLower_iff)

theorem isDigit_iff : c.isDigit = true ↔ 48 ≤ c.toNat ∧ c.toNat ≤ 57 :=
  Char.isDigit_iff_toNat

theorem isWordStart_iff : isWordStart c = true ↔ c.isAlpha = true ∨ c.toNat = 95 := by
  have hscore : c = '_' ↔ c.toNat = 95 := Char.toNat_inj.symm
  simp [isWordStart, hscore]

theorem isWordChar_iff :
    isWordChar c = true ↔ isWordStart c = true ∨ c.isDigit = true := by
  simp [isWordChar, isWordStart, Char.isAlphanum, or_right_comm]

theorem isBlank_of_bounds (hlow : 32 < c.toNat) (hhigh : c.toNat < 133) :
    Text.isBlank c = false := by
  cases hblank : Text.isBlank c with
  | false => rfl
  | true =>
      simp [Text.isBlank, Text.blankRanges] at hblank
      omega

theorem isBlank_of_isDigit (h : c.isDigit = true) : Text.isBlank c = false := by
  rw [isDigit_iff] at h
  exact isBlank_of_bounds (by omega) (by omega)

theorem isBlank_of_isWordStart (h : isWordStart c = true) : Text.isBlank c = false := by
  rw [isWordStart_iff, isAlpha_iff] at h
  exact isBlank_of_bounds (by omega) (by omega)

theorem isDigit_of_isWordStart (h : isWordStart c = true) : c.isDigit = false := by
  rw [isWordStart_iff, isAlpha_iff] at h
  cases hdigit : c.isDigit with
  | false => rfl
  | true =>
      rw [isDigit_iff] at hdigit
      omega

/-- A word begins with a letter or an underscore, and digits may follow. -/
def IsWord : List Char → Prop
  | c :: cs => isWordStart c = true ∧ cs.all isWordChar = true
  | [] => False

instance : DecidablePred IsWord
  | _ :: _ => inferInstanceAs (Decidable (_ ∧ _))
  | [] => inferInstanceAs (Decidable False)

theorem IsWord.isWordChar_of_mem {word : List Char} (h : IsWord word) (hc : c ∈ word) :
    isWordChar c = true := by
  cases word with
  | nil => cases hc
  | cons first others =>
      rcases List.mem_cons.mp hc with rfl | hc
      · exact isWordChar_iff.mpr (.inl h.1)
      · exact List.all_eq_true.mp h.2 c hc

/-! Case makes no difference. -/

theorem toNat_toLower (c : Char) :
    c.toLower.toNat = if 65 ≤ c.toNat ∧ c.toNat ≤ 90 then c.toNat + 32 else c.toNat := by
  by_cases hupper : 65 ≤ c.toNat ∧ c.toNat ≤ 90
  · have hlower : c.toLower = Char.mk (c.val + 32) _ := dif_pos hupper
    rw [if_pos hupper, hlower]
    change (c.toNat + 32) % 4294967296 = c.toNat + 32
    omega
  · have hlower : c.toLower = c := dif_neg hupper
    rw [if_neg hupper, hlower]

theorem isAlpha_toLower (c : Char) : c.toLower.isAlpha = c.isAlpha := by
  rw [Bool.eq_iff_iff, isAlpha_iff, isAlpha_iff, toNat_toLower]
  split <;> omega

theorem isWordStart_toLower (c : Char) : isWordStart c.toLower = isWordStart c := by
  rw [Bool.eq_iff_iff, isWordStart_iff, isWordStart_iff, isAlpha_toLower, isAlpha_iff,
    toNat_toLower]
  split <;> omega

theorem isWordChar_toLower (c : Char) : isWordChar c.toLower = isWordChar c := by
  rw [Bool.eq_iff_iff, isWordChar_iff, isWordChar_iff, isWordStart_toLower, isDigit_iff,
    isDigit_iff, toNat_toLower, isWordStart_iff, isAlpha_iff]
  split <;> omega

theorem isWord_toLower (word : List Char) :
    IsWord (word.map Char.toLower) ↔ IsWord word := by
  cases word with
  | nil => rfl
  | cons first others =>
      simp [IsWord, isWordStart_toLower, isWordChar_toLower]

theorem isWord_of_sameName {first second : String} (h : Text.SameName first second)
    (hfirst : IsWord first.toList) : IsWord second.toList := by
  have hfold : first.toList.map Char.toLower = second.toList.map Char.toLower :=
    String.ofList_injective h
  rw [← isWord_toLower] at hfirst ⊢
  rwa [← hfold]

end Sift.Lexeme
