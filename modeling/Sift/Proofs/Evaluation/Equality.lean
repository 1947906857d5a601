import Sift.Proofs.Evaluation.Correspondence

namespace Sift

/-! Equal filters answer alike. -/

variable {ω : Type}

theorem Value.Alike.refl (value : Value ω) : value.Alike Eq value := by
  cases value with
  | null => exact .null
  | bool value => exact .bool value
  | string value => exact .string value
  | number value => exact .number (Decimal.sameValue_iff.mpr rfl)
  | timestamp value => exact .timestamp (Timestamp.sameInstant_iff.mpr ⟨rfl, rfl⟩)
  | object object => exact .object rfl

variable [HostObject ω]

theorem Correspondence.refl (registry : Registry ω) : Correspondence registry Eq where
  type_eq h := congrArg HostObject.type h
  same_eq h hother := congrArg₂ HostObject.same h hother
  alike h member _ := h ▸ .refl (member.read _)

/-- Filters of one registry that are equal up to how numbers and timestamps are written
and how members are read accept the same objects, and fail on the same objects in the same
way. -/
theorem test_eq_of_beq {registry : Registry ω} {root : HostType}
    {firstText secondText : String} {first second : Filter ω}
    (hfirst : Filter.compile registry root firstText = .ok first)
    (hsecond : Filter.compile registry root secondText = .ok second)
    (hequal : (first.body == second.body) = true) (object : ω) :
    first.test object = second.test object := by
  have hsame := Expr.beq_iff.mp hequal
  have hfollow := hsame.follow_agree (Correspondence.refl registry) (Eq.refl object)
    (Filter.registered_of_compile hfirst) (Filter.registered_of_compile hsecond)
  rw [Filter.test_eq_follow, Filter.test_eq_follow]
  refine Agree.eq (hfollow.bind fun hchain => ?_)
  exact .of_eq (hchain.toValue.truth_eq (Correspondence.refl registry))

namespace Sample

/-- The filter `(low < high and Urgent)`. -/
def urgentBetween (low high : Decimal) : Filter Item where
  root := orderType
  body :=
    .connect .and (.compare .lt (.literal (.number low)) (.literal (.number high)))
      (.member (.root orderType) urgentMember false)

def oneAndHalf : Decimal := ⟨15, 1, by decide, by decide⟩

def oneAndHalfInHundredths : Decimal := ⟨150, 2, by decide, by decide⟩

def two : Decimal := ⟨2, 0, by decide, by decide⟩

def twoInTenths : Decimal := ⟨20, 1, by decide, by decide⟩

theorem compile_urgentBetween :
    Filter.compile orders orderType "1.50 < 2 and urgent" =
      .ok (urgentBetween oneAndHalfInHundredths two) := by
  have htokens : tokenize "1.50 < 2 and urgent" =
      [⟨.number, "1.50", 0⟩, ⟨.blank, " ", 4⟩, ⟨.operator, "<", 5⟩, ⟨.blank, " ", 6⟩,
        ⟨.number, "2", 7⟩, ⟨.blank, " ", 8⟩, ⟨.operator, "and", 9⟩, ⟨.blank, " ", 12⟩,
        ⟨.identifier, "urgent", 13⟩, ⟨.finish, "", 19⟩] := by
    decide +kernel
  rw [Filter.compile, Registry.parse, htokens]
  rfl

theorem compile_urgentBetween_again :
    Filter.compile orders orderType "1.5 < 2.0;URGENT" =
      .ok (urgentBetween oneAndHalf twoInTenths) := by
  have htokens : tokenize "1.5 < 2.0;URGENT" =
      [⟨.number, "1.5", 0⟩, ⟨.blank, " ", 3⟩, ⟨.operator, "<", 4⟩, ⟨.blank, " ", 5⟩,
        ⟨.number, "2.0", 6⟩, ⟨.operator, ";", 9⟩, ⟨.identifier, "URGENT", 10⟩,
        ⟨.finish, "", 16⟩] := by
    decide +kernel
  rw [Filter.compile, Registry.parse, htokens]
  rfl

end Sample

theorem test_eq_of_beq_urgentBetween :
    (Filter.compile Sample.orders Sample.orderType "1.50 < 2 and urgent" =
        .ok (Sample.urgentBetween Sample.oneAndHalfInHundredths Sample.two) ∧
      Filter.compile Sample.orders Sample.orderType "1.5 < 2.0;URGENT" =
        .ok (Sample.urgentBetween Sample.oneAndHalf Sample.twoInTenths) ∧
      ((Sample.urgentBetween Sample.oneAndHalfInHundredths Sample.two).body ==
        (Sample.urgentBetween Sample.oneAndHalf Sample.twoInTenths).body) = true) ∧
    (Sample.urgentBetween Sample.oneAndHalfInHundredths Sample.two).test
        (.order true none) =
      (Sample.urgentBetween Sample.oneAndHalf Sample.twoInTenths).test
        (.order true none) := by
  have hequal : ((Sample.urgentBetween Sample.oneAndHalfInHundredths Sample.two).body ==
      (Sample.urgentBetween Sample.oneAndHalf Sample.twoInTenths).body) = true := by
    decide
  exact ⟨⟨Sample.compile_urgentBetween, Sample.compile_urgentBetween_again, hequal⟩,
    test_eq_of_beq Sample.compile_urgentBetween Sample.compile_urgentBetween_again hequal _⟩

end Sift
