import Sift.Filter
import Sift.Proofs.Evaluation.Equations
import Sift.Proofs.Sample

namespace Sift

/-! Connections and negations obey the laws of boolean algebra, whatever their operands
come to: true, false, null or an error. -/

abbrev Outcome : Type :=
  Except EvalError Bool

namespace Connective

def dual : Connective → Connective
  | and => or
  | or => and

/-- What a connection comes to when none of its operands decides it. -/
def neutral : Connective → Bool
  | and => true
  | or => false

/-- The operands to the right of such an outcome are not looked at. -/
def settles (connective : Connective) : Outcome → Bool
  | .error _ => true
  | .ok holds => connective.decides holds

def first (connective : Connective) (outcomes : List Outcome) : Outcome :=
  (outcomes.find? connective.settles).getD (.ok connective.neutral)

def join (connective : Connective) (left right : Outcome) : Outcome :=
  if connective.settles left then left else right

variable {connective : Connective} {left right : Outcome}

@[simp] theorem neutral_dual : connective.dual.neutral = !connective.neutral := by
  cases connective <;> rfl

@[simp] theorem dual_dual : connective.dual.dual = connective := by
  cases connective <;> rfl

@[simp] theorem settles_neutral : connective.settles (.ok connective.neutral) = false := by
  cases connective <;> rfl

@[simp] theorem settles_not_neutral :
    connective.settles (.ok !connective.neutral) = true := by
  cases connective <;> rfl

/-- An operand fails, leaves the connection to the others, or decides it. -/
theorem outcome_cases (connective : Connective) (outcome : Outcome) :
    (∃ error, outcome = .error error) ∨ outcome = .ok connective.neutral ∨
      outcome = .ok !connective.neutral := by
  cases outcome with
  | error error => exact .inl ⟨error, rfl⟩
  | ok holds => cases connective <;> cases holds <;> simp [neutral]

@[simp] theorem join_of_settles (h : connective.settles left = true) :
    connective.join left right = left :=
  if_pos h

@[simp] theorem join_error (error : EvalError) :
    connective.join (.error error) right = .error error := rfl

@[simp] theorem join_neutral : connective.join (.ok connective.neutral) right = right := by
  simp [join]

@[simp] theorem join_dual_neutral :
    connective.dual.join (.ok connective.neutral) right = .ok connective.neutral := by
  cases connective <;> rfl

@[simp] theorem join_dual_not_neutral :
    connective.dual.join (.ok !connective.neutral) right = right := by
  rw [← neutral_dual, join_neutral]

theorem join_assoc (first second third : Outcome) :
    connective.join (connective.join first second) third =
      connective.join first (connective.join second third) := by
  rcases connective.outcome_cases first with ⟨error, rfl⟩ | rfl | rfl <;> simp

theorem map_not_join (left right : Outcome) :
    (connective.join left right).map (!·) =
      connective.dual.join (left.map (!·)) (right.map (!·)) := by
  rcases connective.outcome_cases left with ⟨error, rfl⟩ | rfl | rfl <;> simp [Except.map]

theorem join_distrib (left first second : Outcome) :
    connective.join left (connective.dual.join first second) =
      connective.dual.join (connective.join left first) (connective.join left second) := by
  rcases connective.outcome_cases left with ⟨error, rfl⟩ | rfl | rfl <;> simp

theorem join_absorb (left right : Outcome) :
    connective.join left (connective.dual.join left right) = left := by
  rcases connective.outcome_cases left with ⟨error, rfl⟩ | rfl | rfl <;> simp

theorem first_append (front back : List Outcome) :
    connective.first (front ++ back) =
      connective.join (connective.first front) (connective.first back) := by
  unfold first
  rw [List.find?_append]
  cases hfront : front.find? connective.settles with
  | none => simp
  | some outcome => simp [List.find?_some hfront]

theorem first_singleton (outcome : Outcome) : connective.first [outcome] = outcome := by
  rcases connective.outcome_cases outcome with ⟨error, rfl⟩ | rfl | rfl
  · rfl
  · simp [first]
  · simp [first]

end Connective

/-! Filters by the outcomes of their parts. -/

variable {ω : Type} [HostObject ω]

namespace Filter

variable {root : HostType} {object : ω}

theorem bind_truth_bool (outcome : Outcome) :
    (outcome >>= fun holds => pure (Value.bool holds)).bind (Value.truth (ω := ω)) =
      outcome := by
  cases outcome <;> rfl

theorem test_connect (connective : Connective) (left right : Expr ω) :
    test ⟨root, .connect connective left right⟩ object =
      connective.join (test ⟨root, left⟩ object) (test ⟨root, right⟩ object) := by
  simp only [test, Expr.evaluate_connect]
  cases left.evaluate object with
  | error error => rfl
  | ok value =>
      simp only [bind, Except.bind]
      cases value.truth with
      | error error => rfl
      | ok decided =>
          by_cases hdecides : connective.decides decided = true
          · have hsettles : connective.settles (.ok decided) = true := hdecides
            rw [Connective.join_of_settles hsettles]
            simp only [if_pos hdecides]
            rfl
          · have hopen : ¬connective.settles (.ok decided) = true := hdecides
            rw [Connective.join, if_neg hopen]
            simp only [if_neg hdecides]
            cases right.evaluate object with
            | error error => rfl
            | ok value => exact bind_truth_bool value.truth

theorem test_not (operand : Expr ω) :
    test ⟨root, .not operand⟩ object = (test ⟨root, operand⟩ object).map (!·) := by
  simp only [test, Expr.evaluate_not]
  cases operand.evaluate object with
  | error error => rfl
  | ok value =>
      simp only [bind, Except.bind]
      cases value.truth <;> rfl

end Filter

/-- Operands of a connective, put in parentheses two by two in any way. -/
inductive Grouping (ω : Type) where
  | operand (expr : Expr ω)
  | pair (left right : Grouping ω)

namespace Grouping

def operands : Grouping ω → List (Expr ω)
  | operand expr => [expr]
  | pair left right => left.operands ++ right.operands

def expr (connective : Connective) : Grouping ω → Expr ω
  | operand expr => expr
  | pair left right => .connect connective (left.expr connective) (right.expr connective)

theorem test_expr (grouping : Grouping ω) (connective : Connective) (root : HostType)
    (object : ω) :
    Filter.test ⟨root, grouping.expr connective⟩ object =
      connective.first
        (grouping.operands.map fun operand => Filter.test ⟨root, operand⟩ object) := by
  induction grouping with
  | operand expr => exact (Connective.first_singleton _).symm
  | pair left right ihleft ihright =>
      rw [expr, Filter.test_connect, ihleft, ihright, operands, List.map_append,
        Connective.first_append]

end Grouping

/-- Filters with the two bodies come to the same on every object. -/
def Expr.Equivalent (first second : Expr ω) : Prop :=
  ∀ root object, Filter.test ⟨root, first⟩ object = Filter.test ⟨root, second⟩ object

/-- The laws of boolean algebra for filters. An equivalence holds of the errors as well. -/
structure BooleanLaws (ω : Type) [HostObject ω] : Prop where
  assoc (connective : Connective) (a b c : Expr ω) :
    (Expr.connect connective (.connect connective a b) c).Equivalent
      (.connect connective a (.connect connective b c))
  /-- However the operands of a connective are grouped, the first one from the left that
  decides or fails gives the outcome. -/
  grouped (connective : Connective) (grouping : Grouping ω) (root : HostType) (object : ω) :
    Filter.test ⟨root, grouping.expr connective⟩ object =
      connective.first
        (grouping.operands.map fun operand => Filter.test ⟨root, operand⟩ object)
  not_connect (connective : Connective) (a b : Expr ω) :
    (Expr.not (.connect connective a b)).Equivalent
      (.connect connective.dual (.not a) (.not b))
  distrib (connective : Connective) (a b c : Expr ω) :
    (Expr.connect connective a (.connect connective.dual b c)).Equivalent
      (.connect connective.dual (.connect connective a b) (.connect connective a c))
  absorb (connective : Connective) (a b : Expr ω) :
    (Expr.connect connective a (.connect connective.dual a b)).Equivalent a
  not_not (a : Expr ω) : (Expr.not (.not a)).Equivalent a
  /-- What is null on an object counts as false there, by itself and as an operand. -/
  null (a b : Expr ω) (connective : Connective) (root : HostType) (object : ω) :
    a.evaluate object = .ok .null →
      Filter.test ⟨root, a⟩ object = .ok false ∧
      Filter.test ⟨root, .not a⟩ object = .ok true ∧
      Filter.test ⟨root, .connect connective a b⟩ object =
        Filter.test ⟨root, .connect connective (.literal (.bool false)) b⟩ object ∧
      Filter.test ⟨root, .connect connective b a⟩ object =
        Filter.test ⟨root, .connect connective b (.literal (.bool false))⟩ object

theorem booleanLaws (ω : Type) [HostObject ω] : BooleanLaws ω where
  assoc connective a b c root object := by
    simp only [Filter.test_connect, Connective.join_assoc]
  grouped connective grouping := grouping.test_expr connective
  not_connect connective a b root object := by
    simp only [Filter.test_connect, Filter.test_not, Connective.map_not_join]
  distrib connective a b c root object := by
    simp only [Filter.test_connect]
    exact Connective.join_distrib _ _ _
  absorb connective a b root object := by
    simp only [Filter.test_connect]
    exact Connective.join_absorb _ _
  not_not a root object := by
    simp only [Filter.test_not]
    cases Filter.test ⟨root, a⟩ object <;> simp [Except.map]
  null a b connective root object hnull := by
    have htest : Filter.test ⟨root, a⟩ object = .ok false := by
      rw [Filter.test, hnull]
      rfl
    have hfalse : Filter.test ⟨root, .literal (.bool false)⟩ object = .ok false := rfl
    refine ⟨htest, ?_, ?_, ?_⟩
    · rw [Filter.test_not, htest]
      rfl
    · rw [Filter.test_connect, Filter.test_connect, htest, hfalse]
    · rw [Filter.test_connect, Filter.test_connect, htest, hfalse]

/-- On an urgent order without a customer, the customer as an operand is false. -/
theorem booleanLaws_sample :
    (Expr.member (.root Sample.orderType) Sample.customerMember false).evaluate
        (.order true none) = .ok .null ∧
      Filter.test ⟨Sample.orderType, .connect .or
        (.member (.root Sample.orderType) Sample.urgentMember false)
        (.member (.root Sample.orderType) Sample.customerMember false)⟩
          (.order true none) =
      Filter.test ⟨Sample.orderType, .connect .or
        (.member (.root Sample.orderType) Sample.urgentMember false)
        (.literal (.bool false))⟩ (.order true none) :=
  ⟨rfl, ((booleanLaws Sample.Item).null _ _ .or Sample.orderType _ rfl).2.2.2⟩

end Sift
