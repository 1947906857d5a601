import Sift.Proofs.Evaluation.Correspondence
import Sift.Proofs.Expr.RoundTrip
import Sift.Proofs.Grammar.NullSafe

namespace Sift

open Grammar (parse_eq_ok_iff)

/-! A null-safe dot saves a filter from reading a member of null, and does nothing else. -/

variable {ω : Type}

theorem Filter.exists_safer_of_compile {registry : Registry ω} {root : HostType}
    {text : String} {filter : Filter ω} (h : compile registry root text = .ok filter)
    (chosen : Token → Bool) :
    ∃ other, compile registry root (nullSafe chosen text) = .ok other ∧
      filter.body.Safer other.body := by
  obtain ⟨hroot, hparse⟩ := compile_eq_ok.mp h
  obtain ⟨hbool, depth, hdepth, hderives⟩ := parse_eq_ok_iff.mp hparse
  have hsymbols := symbols_nullSafe chosen fun symbol hsymbol =>
    ⟨(hderives.used symbol hsymbol).kind_ne_malformed,
      (hderives.used symbol hsymbol).ne_minus⟩
  obtain ⟨body, hbody, hsafer⟩ := hderives.exists_safer hsymbols
  refine ⟨⟨root, body⟩, compile_eq_ok.mpr ⟨rfl, parse_eq_ok_iff.mpr ?_⟩, hsafer⟩
  exact ⟨hsafer.type.value_eq.trans hbool, depth, hdepth, hbody⟩

/-- A member has been read of null. -/
def EvalError.ReadsNull (error : EvalError) : Prop :=
  ∃ name, error = .nullReference name

variable [HostObject ω]

theorem Chain.step_persists (chain : Chain ω) (read : Member ω)
    {nullSafe otherSafe : Bool} (hsafe : nullSafe = true → otherSafe = true) :
    Persists EvalError.ReadsNull (chain.step read nullSafe)
      (chain.step read otherSafe) := by
  cases nullSafe with
  | true => rw [hsafe rfl]; exact .same _
  | false =>
      unfold step
      split
      · exact .same _
      · exact .same _
      · exact .excused ⟨read.name, rfl⟩ _
      · exact .same _

theorem Expr.Safer.follow_persists {expr other : Expr ω} (h : expr.Safer other)
    (object : ω) :
    Persists EvalError.ReadsNull (expr.follow object) (other.follow object) := by
  induction h with
  | literal h =>
      cases h with
      | same => exact .same _
      | null => exact .same _
  | root => exact .same _
  | member read _ hsafe ih =>
      exact ih.bind fun chain => chain.step_persists read hsafe
  | compare comparison _ _ ihleft ihright =>
      refine ihleft.bind fun left => ?_
      exact ihright.bind fun right => .same _
  | connect connective _ _ ihleft ihright =>
      refine ihleft.bind fun left => ?_
      refine Persists.bind (.same left.toValue.truth) fun decided => ?_
      split
      · exact .same _
      · exact .same _
      · exact ihright.bind fun right => .same _
  | not _ ih => exact ih.bind fun operand => .same _

theorem Filter.test_persists {filter other : Filter ω} (h : filter.body.Safer other.body)
    (object : ω) :
    Persists EvalError.ReadsNull (filter.test object) (other.test object) := by
  rw [test_eq_follow, test_eq_follow]
  exact (h.follow_persists object).bind fun chain => .same _

/-- Null-safe dots in place of others leave a filter as it was, but that it no longer fails
where it read a member of null. -/
theorem test_eq_of_nullSafe {registry : Registry ω} {root : HostType} {text : String}
    {filter : Filter ω} (hcompile : Filter.compile registry root text = .ok filter)
    (chosen : Token → Bool) :
    ∃ other, Filter.compile registry root (nullSafe chosen text) = .ok other ∧
      filter.body.Safer other.body ∧
        ∀ object, (∀ name, filter.test object ≠ .error (.nullReference name)) →
          other.test object = filter.test object := by
  obtain ⟨other, hother, hsafer⟩ := Filter.exists_safer_of_compile hcompile chosen
  refine ⟨other, hother, hsafer, fun object hobject => ?_⟩
  apply (Filter.test_persists hsafer object).eq
  rintro error herror ⟨name, rfl⟩
  exact hobject name herror

namespace Sample

/-- The filter `(Customer.Name = null or Urgent)`. -/
def unnamed : Filter Item where
  root := orderType
  body :=
    .connect .or
      (.compare .eq
        (.member (.member (.root orderType) customerMember false) nameMember false)
        (.literal (.null (.of .string))))
      (.member (.root orderType) urgentMember false)

theorem compile_unnamed :
    Filter.compile orders orderType "customer.name = null or urgent" = .ok unnamed := by
  have htokens : tokenize "customer.name = null or urgent" =
      [⟨.identifier, "customer", 0⟩, ⟨.operator, ".", 8⟩, ⟨.identifier, "name", 9⟩,
        ⟨.blank, " ", 13⟩, ⟨.operator, "=", 14⟩, ⟨.blank, " ", 15⟩, ⟨.null, "null", 16⟩,
        ⟨.blank, " ", 20⟩, ⟨.operator, "or", 21⟩, ⟨.blank, " ", 23⟩,
        ⟨.identifier, "urgent", 24⟩, ⟨.finish, "", 30⟩] := by
    decide +kernel
  rw [Filter.compile, Registry.parse, htokens]
  rfl

theorem nullSafe_unnamed :
    nullSafe (fun _ => true) "customer.name = null or urgent" =
      "customer?.name = null or urgent" := by
  decide +kernel

theorem test_unnamed : unnamed.test (.order true (some "Ann")) = .ok true := rfl

end Sample

theorem test_eq_of_nullSafe_unnamed :
    (Filter.compile Sample.orders Sample.orderType "customer.name = null or urgent" =
        .ok Sample.unnamed ∧
      ∀ name, Sample.unnamed.test (.order true (some "Ann")) ≠
        .error (.nullReference name)) ∧
    ∃ other, Filter.compile Sample.orders Sample.orderType
          "customer?.name = null or urgent" = .ok other ∧
      Sample.unnamed.body.Safer other.body ∧
        other.test (.order true (some "Ann")) =
          Sample.unnamed.test (.order true (some "Ann")) := by
  have hobject : ∀ name, Sample.unnamed.test (.order true (some "Ann")) ≠
      .error (.nullReference name) := by
    intro name h
    cases Sample.test_unnamed.symm.trans h
  obtain ⟨other, hother, hsafer, htest⟩ :=
    test_eq_of_nullSafe Sample.compile_unnamed fun _ => true
  rw [Sample.nullSafe_unnamed] at hother
  exact ⟨⟨Sample.compile_unnamed, hobject⟩, other, hother, hsafer, htest _ hobject⟩

end Sift
