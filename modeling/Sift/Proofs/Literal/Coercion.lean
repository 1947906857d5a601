import Sift.Literal.Coercion

namespace Sift.Literal

/-! What coercion makes of a literal. -/

def isNull : Literal → Bool
  | null _ => true
  | _ => false

/-- The timestamp of the literal, if it has one, has been read from a text. -/
def Read (literal : Literal) : Prop :=
  ∀ value, literal = timestamp value → ∃ text, Timestamp.parse text = .ok value

theorem readAs_eq_ok {text : String} {target : ValueType} {read : Option Literal}
    {literal : Literal} (h : readAs text target read = .ok literal) :
    read = some literal := by
  cases read with
  | none => cases h
  | some found =>
      cases h
      rfl

theorem readNumber?_eq_some {text : String} {literal : Literal}
    (h : readNumber? text = some literal) : ∃ value, literal = number value := by
  unfold readNumber? at h
  split at h
  · cases h
    exact ⟨_, rfl⟩
  · cases h

theorem readBool?_eq_some {text : String} {literal : Literal}
    (h : readBool? text = some literal) : ∃ value, literal = bool value := by
  unfold readBool? at h
  simp only at h
  split at h
  · cases h
    exact ⟨_, rfl⟩
  split at h
  · cases h
    exact ⟨_, rfl⟩
  · cases h

theorem readTimestamp?_eq_some {text : String} {literal : Literal}
    (h : readTimestamp? text = some literal) :
    ∃ value written, literal = timestamp value ∧
      Timestamp.parse written = .ok value := by
  unfold readTimestamp? at h
  split at h
  · split at h
    · split at h
      · cases h
        exact ⟨_, _, rfl, ‹_›⟩
      · cases h
    · cases h
  · cases h

/-- Coercion keeps the literal beside a bare `null`. Otherwise it gives a null that the
target type accepts, or a constant of that type. -/
theorem coerce_cases {literal coerced : Literal} {target : StaticType}
    (h : literal.coerce target = .ok coerced) :
    (target.value = .null ∧ coerced = literal) ∨
      (target.value ≠ .null ∧ target.acceptsNull = true ∧ coerced = null target) ∨
      (coerced.type.value = target.value ∧ coerced.isNull = false ∧
        (literal.Read → coerced.Read)) := by
  unfold coerce at h
  split at h
  · rename_i hvalue
    cases h
    exact .inl ⟨hvalue, rfl⟩
  · rename_i hvalue
    split at h
    · rename_i haccepts
      cases h
      exact .inr (.inl ⟨hvalue, haccepts, rfl⟩)
    · cases h
  iterate 4
    rename_i hvalue
    cases h
    exact .inr (.inr ⟨hvalue.symm, rfl, id⟩)
  · rename_i hvalue
    obtain ⟨value, rfl⟩ := readNumber?_eq_some (readAs_eq_ok h)
    exact .inr (.inr ⟨hvalue.symm, rfl, fun _ _ heq => nomatch heq⟩)
  · rename_i hvalue
    obtain ⟨value, rfl⟩ := readBool?_eq_some (readAs_eq_ok h)
    exact .inr (.inr ⟨hvalue.symm, rfl, fun _ _ heq => nomatch heq⟩)
  · rename_i hvalue
    obtain ⟨value, written, rfl, hread⟩ := readTimestamp?_eq_some (readAs_eq_ok h)
    refine .inr (.inr ⟨hvalue.symm, rfl, fun _ other heq => ?_⟩)
    cases heq
    exact ⟨written, hread⟩
  · cases h

theorem Read.coerce {literal coerced : Literal} {target : StaticType}
    (hread : literal.Read) (h : literal.coerce target = .ok coerced) : coerced.Read := by
  rcases coerce_cases h with ⟨-, rfl⟩ | ⟨-, -, rfl⟩ | ⟨-, -, hcoerced⟩
  · exact hread
  · intro value heq
    cases heq
  · exact hcoerced hread

theorem coerce_null {type target : StaticType} (hvalue : target.value ≠ .null)
    (haccepts : target.acceptsNull = true) :
    (null type).coerce target = .ok (null target) := by
  unfold coerce
  cases htarget : target.value with
  | null => exact (hvalue htarget).elim
  | _ => simp [haccepts]

theorem coerce_of_type_eq {literal : Literal} {target : StaticType}
    (htype : literal.type.value = target.value) (hnull : literal.isNull = false) :
    literal.coerce target = .ok literal := by
  unfold coerce
  cases literal with
  | null type => cases hnull
  | _ => simp [← htype, type, StaticType.of]

/-- The literal as it is written, where a null has no type. -/
def untyped : Literal → Literal
  | null _ => null .null
  | literal => literal

theorem untyped_of_isNull {literal : Literal} (h : literal.isNull = false) :
    literal.untyped = literal := by
  cases literal with
  | null type => cases h
  | _ => rfl

theorem coerce_untyped {literal coerced : Literal} {target : StaticType}
    (hliteral : literal.untyped = literal) (h : literal.coerce target = .ok coerced) :
    coerced.untyped.coerce target = .ok coerced := by
  rcases coerce_cases h with ⟨-, rfl⟩ | ⟨hvalue, haccepts, rfl⟩ | ⟨htype, hnull, -⟩
  · rw [hliteral, h]
  · exact coerce_null hvalue haccepts
  · rw [untyped_of_isNull hnull]
    exact coerce_of_type_eq htype hnull

end Sift.Literal
