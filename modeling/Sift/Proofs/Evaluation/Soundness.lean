import Sift.Filter
import Sift.Proofs.Evaluation.Equations
import Sift.Proofs.Expr.Typed
import Sift.Proofs.Grammar.Acceptance
import Sift.Proofs.Literal.Coercion
import Sift.Proofs.Sample

namespace Sift

/-! Filters evaluate to values of their types, or fail at few kinds of places, on every
object whose registered members read what their types declare. -/

open Grammar

variable {ω : Type}

namespace Expr

/-- The expression and what it is made of, down to its constants and its root. -/
def parts : Expr ω → List (Expr ω)
  | literal value => [literal value]
  | root host => [root host]
  | member base read nullSafe => member base read nullSafe :: base.parts
  | compare comparison left right =>
      compare comparison left right :: (left.parts ++ right.parts)
  | connect connective left right =>
      connect connective left right :: (left.parts ++ right.parts)
  | not operand => not operand :: operand.parts

theorem mem_parts_self (expr : Expr ω) : expr ∈ expr.parts := by
  cases expr <;> simp [parts]

def operands : Expr ω → List (Expr ω)
  | literal _ | root _ => []
  | member base _ _ => [base]
  | compare _ left right | connect _ left right => [left, right]
  | not operand => [operand]

theorem parts_subset {operand expr : Expr ω} (h : operand ∈ expr.operands) :
    operand.parts ⊆ expr.parts := by
  cases expr with
  | literal | root => cases h
  | member base read nullSafe =>
      obtain rfl := List.mem_singleton.mp h
      exact List.subset_cons_self _ _
  | compare comparison left right | connect connective left right =>
      simp only [operands, List.mem_cons, List.not_mem_nil, or_false] at h
      rcases h with rfl | rfl
      · exact fun part hpart => List.mem_cons_of_mem _ (List.mem_append_left _ hpart)
      · exact fun part hpart => List.mem_cons_of_mem _ (List.mem_append_right _ hpart)
  | not inner =>
      obtain rfl := List.mem_singleton.mp h
      exact List.subset_cons_self _ _

def isMember : Expr ω → Bool
  | member .. => true
  | _ => false

theorem nullable_type_member {base : Expr ω} {read : Member ω} {nullSafe : Bool}
    (h : read.type.nullable = true ∨
      (member base read nullSafe).inNullSafeChain = true) :
    (member base read nullSafe).type.nullable = true := by
  simp only [type]
  split
  · rfl
  · rename_i hchain
    exact h.resolve_right hchain

end Expr

theorem StaticType.acceptsNull_of_nullable {type : StaticType}
    (h : type.nullable = true) : type.acceptsNull = true := by
  simp [StaticType.acceptsNull, h]

/-- What coercion has to bring about for a constant on the right. -/
def Comparable (left right : Expr ω) : Prop :=
  ∀ value, right = .literal value →
    left.type.value = .null ∨ value.isNull = true ∨
      value.type.value = left.type.value

theorem Grammar.Coerced.comparable {left read right : Expr ω}
    (h : Coerced left.type read right) : Comparable left right := by
  rintro value rfl
  cases h with
  | literal hcoerce =>
      rcases Literal.coerce_cases hcoerce with ⟨hnull, -⟩ | ⟨-, -, rfl⟩ | ⟨htype, -, -⟩
      · exact .inl hnull
      · exact .inr (.inl rfl)
      · exact .inr (.inr htype)
  | other hother => exact (hother value rfl).elim

variable [HostObject ω]

/-! Objects that keep to the declared types. -/

/-- A value as a member of the type may read it. -/
def Value.Fits (type : StaticType) : Value ω → Prop
  | null => type.nullable = true
  | value => value.type = type.value

/-- The objects that registered members lead to. -/
inductive Reaches (registry : Registry ω) (start : ω) : ω → Prop
  | start : Reaches registry start start
  | read {object next : ω} {member : Member ω}
      (hobject : Reaches registry start object)
      (hmember : member ∈ registry.members (HostObject.type object))
      (hread : member.read object = .object next) : Reaches registry start next

def Conforming (registry : Registry ω) (start : ω) : Prop :=
  ∀ object, Reaches registry start object →
    ∀ member ∈ registry.members (HostObject.type object),
      (member.read object).Fits member.type

namespace Expr

/-- A value as the expression may have it. Null is a value of a constant whose type
accepts null, and of a member whose type is nullable. -/
structure Admits (expr : Expr ω) (value : Value ω) : Prop where
  type_eq : value ≠ .null → value.type = expr.type.value
  acceptsNull : value = .null → expr.type.acceptsNull = true
  nullable : value = .null → expr.isMember = true → expr.type.nullable = true

def MayFail (expr : Expr ω) : EvalError → Prop
  | .nullReference name =>
      ∃ base inner innerSafe read,
        expr = member (member base inner innerSafe) read false ∧
          name = read.name ∧ inner.type.nullable = true
  | .typeMismatch comparison _ _ =>
      ∃ left right, expr = compare comparison left right ∧
        ∀ value, right ≠ literal value
  | .unordered comparison _ =>
      ∃ left right, expr = compare comparison left right ∧
        comparison.isOrdering = true ∧
          (left.type.value = .bool ∨ left.type.value = .string ∨
            ∃ host, left.type.value = .object host)
  | .notAnObject .. | .notBoolean _ => False

/-- The error is raised at a part of the expression, whose own operands have values. -/
def FailsWithin (object : ω) (expr : Expr ω) (error : EvalError) : Prop :=
  ∃ place ∈ expr.parts, place.evaluate object = .error error ∧
    (∀ operand ∈ place.operands, ∃ value, operand.evaluate object = .ok value) ∧
      place.MayFail error

/-- What is true of every part of a filter: it has a value that its type admits, or it
fails in one of the ways and at one of the places at which evaluation may fail. -/
def Sound (object : ω) (expr : Expr ω) : Prop :=
  match expr.evaluate object with
  | .ok value => expr.Admits value
  | .error error => expr.FailsWithin object error

variable {object : ω} {expr : Expr ω}

theorem Sound.of_ok {value : Value ω} (heval : expr.evaluate object = .ok value)
    (hadmits : expr.Admits value) : expr.Sound object := by
  rw [Sound, heval]
  exact hadmits

theorem Sound.of_error {error : EvalError} (heval : expr.evaluate object = .error error)
    (hfails : expr.FailsWithin object error) : expr.Sound object := by
  rw [Sound, heval]
  exact hfails

theorem Sound.admits {value : Value ω} (h : expr.Sound object)
    (heval : expr.evaluate object = .ok value) : expr.Admits value := by
  rwa [Sound, heval] at h

theorem Sound.failsWithin {error : EvalError} (h : expr.Sound object)
    (heval : expr.evaluate object = .error error) : expr.FailsWithin object error := by
  rwa [Sound, heval] at h

theorem FailsWithin.of_operand {operand : Expr ω} {error : EvalError}
    (hoperand : operand ∈ expr.operands) (h : operand.FailsWithin object error) :
    expr.FailsWithin object error := by
  obtain ⟨place, hplace, hfails⟩ := h
  exact ⟨place, parts_subset hoperand hplace, hfails⟩

/-- An error of an operand is one of the expression if it is passed on. -/
theorem Sound.of_operand {operand : Expr ω} {error : EvalError}
    (hsound : operand.Sound object) (hoperand : operand ∈ expr.operands)
    (hfails : operand.evaluate object = .error error)
    (heval : expr.evaluate object = .error error) : expr.Sound object :=
  .of_error heval ((hsound.failsWithin hfails).of_operand hoperand)

theorem FailsWithin.here {error : EvalError}
    (heval : expr.evaluate object = .error error)
    (hoperands : ∀ operand ∈ expr.operands,
      ∃ value, operand.evaluate object = .ok value)
    (hfails : expr.MayFail error) : expr.FailsWithin object error :=
  ⟨expr, mem_parts_self expr, heval, hoperands, hfails⟩

end Expr

/-- What following a path comes to: a value that its last member read, its end at a
null, or an error. -/
inductive Followed (registry : Registry ω) (object : ω) (expr : Expr ω)
    (read : Member ω) : Prop
  | value {value : Value ω} (hfollow : expr.follow object = .ok (.value value))
      (hfits : value.Fits read.type)
      (hreaches : ∀ next, value = .object next → Reaches registry object next)
  | ended (hfollow : expr.follow object = .ok .ended)
      (hchain : expr.inNullSafeChain = true)
  | failed {error : EvalError} (hfollow : expr.follow object = .error error)
      (hfails : expr.FailsWithin object error)

variable {registry : Registry ω} {root : HostType} {object : ω}

theorem followed_read {base : Expr ω} {read : Member ω} {nullSafe : Bool} {owner : ω}
    (hconforming : Conforming registry object)
    (hbase : base.follow object = .ok (.value (.object owner)))
    (hreaches : Reaches registry object owner)
    (hmember : read ∈ registry.members (HostObject.type owner))
    (howner : read.owner = HostObject.type owner) :
    Followed registry object (.member base read nullSafe) read := by
  have hfollow : (Expr.member base read nullSafe).follow object =
      .ok (.value (read.read owner)) := by
    rw [Expr.follow_member_of_ok object hbase]
    simp [Chain.step, howner]
  exact .value hfollow (hconforming owner hreaches read hmember)
    fun next hnext => .read hreaches hmember hnext

theorem followed_null {before : Expr ω} {inner read : Member ω}
    {innerSafe nullSafe : Bool}
    (hbase : (Expr.member before inner innerSafe).follow object =
      .ok (.value .null))
    (hnullable : inner.type.nullable = true) :
    Followed registry object
      (.member (.member before inner innerSafe) read nullSafe) read := by
  have hfollow :
      (Expr.member (.member before inner innerSafe) read nullSafe).follow object =
        (Chain.value .null).step read nullSafe :=
    Expr.follow_member_of_ok object hbase
  cases nullSafe with
  | true => exact .ended hfollow rfl
  | false =>
      refine .failed hfollow (.here ?_ ?_ ?_)
      · exact (Expr.evaluate_eq_error object).mpr hfollow
      · intro operand hoperand
        rw [List.mem_singleton.mp hoperand]
        exact ⟨.null, (Expr.evaluate_eq_ok object).mpr ⟨_, hbase, rfl⟩⟩
      · exact ⟨before, inner, innerSafe, read, rfl, rfl, hnullable⟩

theorem Grammar.Path.followed {symbols : List Symbol} {expr : Expr ω}
    (h : Path registry root symbols expr) (hobject : HostObject.type object = root)
    (hconforming : Conforming registry object) :
    ∃ base read nullSafe, expr = .member base read nullSafe ∧
      Followed registry object expr read := by
  induction h with
  | first hmember =>
      subst hobject
      exact ⟨_, _, _, rfl, followed_read hconforming rfl .start
        (Registry.mem_members_of_lookup? hmember) (Registry.owner_of_lookup? hmember)⟩
  | next hpath hseparator howner hmember ih =>
      refine ⟨_, _, _, rfl, ?_⟩
      obtain ⟨before, inner, innerSafe, rfl, hfollowed⟩ := ih
      rw [Expr.type_value_member] at howner
      cases hfollowed with
      | @value value hfollow hfits hreaches =>
          cases value with
          | object found =>
              have htype : HostObject.type found = _ :=
                ValueType.object.inj (hfits.trans howner)
              subst htype
              exact followed_read hconforming hfollow (hreaches found rfl)
                (Registry.mem_members_of_lookup? hmember)
                (Registry.owner_of_lookup? hmember)
          | null => exact followed_null hfollow hfits
          | _ => cases hfits.trans howner
      | ended hfollow hchain =>
          refine .ended (Expr.follow_member_of_ok object hfollow) ?_
          rw [Expr.inNullSafeChain, hchain, Bool.or_true]
      | failed hfollow hfails =>
          exact .failed (Expr.follow_member_of_error object hfollow)
            (hfails.of_operand List.mem_cons_self)

theorem Expr.Admits.null {expr : Expr ω} (h : expr.type.nullable = true) :
    expr.Admits .null where
  type_eq := fun hne => (hne rfl).elim
  acceptsNull := fun _ => StaticType.acceptsNull_of_nullable h
  nullable := fun _ _ => h

theorem Followed.sound {base : Expr ω} {read : Member ω} {nullSafe : Bool}
    (h : Followed registry object (.member base read nullSafe) read) :
    (Expr.member base read nullSafe).Sound object := by
  cases h with
  | @value value hfollow hfits hreaches =>
      refine .of_ok ((Expr.evaluate_eq_ok object).mpr ⟨_, hfollow, rfl⟩) ?_
      change (Expr.member base read nullSafe).Admits value
      by_cases hnull : value = .null
      · subst hnull
        exact .null (Expr.nullable_type_member (.inl hfits))
      · have htype : value.type = read.type.value := by
          cases value with
          | null => exact (hnull rfl).elim
          | _ => exact hfits
        refine ⟨fun _ => ?_, fun heq => (hnull heq).elim, fun heq => (hnull heq).elim⟩
        rw [Expr.type_value_member, htype]
  | ended hfollow hchain =>
      refine .of_ok ((Expr.evaluate_eq_ok object).mpr ⟨_, hfollow, rfl⟩) ?_
      exact .null (Expr.nullable_type_member (.inr hchain))
  | failed hfollow hfails =>
      exact .of_error ((Expr.evaluate_eq_error object).mpr hfollow) hfails

/-! Constants. -/

def Literal.Proper (literal : Literal) : Prop :=
  literal.isNull = true → literal.type.acceptsNull = true

theorem Symbol.Denotes.proper {symbol : Symbol} {literal : Literal}
    (h : symbol.Denotes literal) : literal.Proper := by
  intro hnull
  cases h with
  | null => rfl
  | _ => cases hnull

theorem Literal.Proper.coerce {literal coerced : Literal} {target : StaticType}
    (hproper : literal.Proper) (h : literal.coerce target = .ok coerced) :
    coerced.Proper := by
  rcases Literal.coerce_cases h with ⟨-, rfl⟩ | ⟨-, haccepts, rfl⟩ | ⟨-, hnull, -⟩
  · exact hproper
  · exact fun _ => haccepts
  · intro h
    cases hnull.symm.trans h

theorem Literal.Proper.sound {literal : Literal} (hproper : literal.Proper) :
    (Expr.literal literal : Expr ω).Sound object := by
  refine .of_ok (Expr.evaluate_literal object literal) ⟨?_, ?_, ?_⟩
  · intro hnull
    cases literal with
    | null type => exact (hnull rfl).elim
    | _ => rfl
  · intro hnull
    cases literal with
    | null type => exact hproper rfl
    | _ => cases hnull
  · intro _ hmember
    cases hmember

/-! Operators. -/

theorem Value.truth_eq_ok {value : Value ω} {type : ValueType}
    (hbool : type = .bool) (htype : value ≠ .null → value.type = type) :
    ∃ holds, value.truth = .ok holds := by
  cases value with
  | null => exact ⟨false, rfl⟩
  | bool value => exact ⟨value, rfl⟩
  | _ => cases (htype (by simp)).trans hbool

theorem Value.compareEquality_eq_error {comparison : Comparison} {type : ValueType}
    {equal : Bool} {error : EvalError}
    (h : compareEquality comparison type equal = .error error) :
    error = .unordered comparison type ∧ comparison.isOrdering = true := by
  cases comparison <;> cases h <;> exact ⟨rfl, rfl⟩

theorem Value.compare_of_type_ne {comparison : Comparison} {left right : Value ω}
    (hleft : left ≠ .null) (hright : right ≠ .null) (htype : left.type ≠ right.type) :
    compare comparison left right =
      .error (.typeMismatch comparison left.type right.type) := by
  cases left with
  | null => exact (hleft rfl).elim
  | object first =>
      cases right with
      | null => exact (hright rfl).elim
      | object second => exact if_neg fun heq => htype (congrArg ValueType.object heq)
      | _ => rfl
  | _ =>
      cases right with
      | null => exact (hright rfl).elim
      | _ => first | rfl | exact (htype rfl).elim

theorem Value.compare_of_type_eq {comparison : Comparison} {left right : Value ω}
    {error : EvalError} (h : compare comparison left right = .error error)
    (hleft : left ≠ .null) (htype : left.type = right.type) :
    error = .unordered comparison left.type ∧ comparison.isOrdering = true ∧
      (left.type = .bool ∨ left.type = .string ∨
        ∃ host, left.type = .object host) := by
  cases left with
  | null => exact (hleft rfl).elim
  | bool first =>
      cases right with
      | bool second =>
          obtain ⟨rfl, hordering⟩ := compareEquality_eq_error h
          exact ⟨rfl, hordering, .inl rfl⟩
      | _ => cases htype
  | string first =>
      cases right with
      | string second =>
          obtain ⟨rfl, hordering⟩ := compareEquality_eq_error h
          exact ⟨rfl, hordering, .inr (.inl rfl)⟩
      | _ => cases htype
  | object first =>
      cases right with
      | object second =>
          have hsame := ValueType.object.inj htype
          rw [compare, if_pos hsame] at h
          obtain ⟨rfl, hordering⟩ := compareEquality_eq_error h
          exact ⟨rfl, hordering, .inr (.inr ⟨_, rfl⟩)⟩
      | _ => cases htype
  | number first =>
      cases right with
      | number second => cases h
      | _ => cases htype
  | timestamp first =>
      cases right with
      | timestamp second => cases h
      | _ => cases htype

/-- Only two values fail to compare: values of two types, or values of one type without
an order. -/
theorem Value.compare_eq_error {comparison : Comparison} {left right : Value ω}
    {error : EvalError} (h : compare comparison left right = .error error) :
    left ≠ .null ∧ right ≠ .null ∧
      ((error = .typeMismatch comparison left.type right.type ∧
          left.type ≠ right.type) ∨
        (error = .unordered comparison left.type ∧ comparison.isOrdering = true ∧
          (left.type = .bool ∨ left.type = .string ∨
            ∃ host, left.type = .object host))) := by
  have hleft : left ≠ .null := by
    rintro rfl
    cases h
  have hright : right ≠ .null := by
    rintro rfl
    cases left <;> cases h
  refine ⟨hleft, hright, ?_⟩
  by_cases htype : left.type = right.type
  · exact .inr (compare_of_type_eq h hleft htype)
  · rw [compare_of_type_ne hleft hright htype] at h
    cases h
    exact .inl ⟨rfl, htype⟩

theorem Expr.Admits.bool {expr : Expr ω} (htype : expr.type = .bool) (value : Bool) :
    expr.Admits (.bool value) where
  type_eq := fun _ => by rw [htype]; rfl
  acceptsNull := fun heq => nomatch heq
  nullable := fun heq => nomatch heq

theorem Value.eq_null_of_type_eq {value : Value ω} (h : value.type = .null) :
    value = .null := by
  cases value with
  | null => rfl
  | _ => cases h

theorem Comparable.not_literal {left right : Expr ω} {leftValue rightValue : Value ω}
    (h : Comparable left right) (hleft : left.Admits leftValue)
    (hright : right.evaluate object = .ok rightValue) (hleftNull : leftValue ≠ .null)
    (hrightNull : rightValue ≠ .null) (htype : leftValue.type ≠ rightValue.type)
    (value : Literal) : right ≠ .literal value := by
  rintro rfl
  cases hright
  have hleftType := hleft.type_eq hleftNull
  rcases h value rfl with hnull | hnull | hsame
  · exact hleftNull (Value.eq_null_of_type_eq (hleftType.trans hnull))
  · cases value with
    | null type => exact hrightNull rfl
    | _ => cases hnull
  · rw [← hsame] at hleftType
    cases value with
    | null type => exact hrightNull rfl
    | _ => exact htype hleftType

theorem compare_sound {comparison : Comparison} {left right : Expr ω}
    (hleft : left.Sound object) (hright : right.Sound object)
    (hcomparable : Comparable left right) :
    (Expr.compare comparison left right).Sound object := by
  have heval := Expr.evaluate_compare object comparison left right
  cases hl : left.evaluate object with
  | error error =>
      rw [hl] at heval
      exact hleft.of_operand List.mem_cons_self hl heval
  | ok leftValue =>
      cases hr : right.evaluate object with
      | error error =>
          rw [hl, hr] at heval
          exact hright.of_operand (List.mem_cons_of_mem _ List.mem_cons_self) hr heval
      | ok rightValue =>
          cases hc : Value.compare comparison leftValue rightValue with
          | ok holds =>
              rw [hl, hr] at heval
              simp only [bind, Except.bind, hc] at heval
              exact .of_ok heval (.bool rfl holds)
          | error error =>
              rw [hl, hr] at heval
              simp only [bind, Except.bind, hc] at heval
              refine .of_error heval (.here heval ?_ ?_)
              · intro operand hoperand
                simp only [Expr.operands, List.mem_cons, List.not_mem_nil,
                  or_false] at hoperand
                rcases hoperand with rfl | rfl
                · exact ⟨_, hl⟩
                · exact ⟨_, hr⟩
              · have hadmits := hleft.admits hl
                obtain ⟨hleftNull, hrightNull, hcause⟩ := Value.compare_eq_error hc
                rcases hcause with ⟨rfl, htype⟩ | ⟨rfl, hordering, htype⟩
                · exact ⟨left, right, rfl, hcomparable.not_literal hadmits hr hleftNull
                    hrightNull htype⟩
                · rw [hadmits.type_eq hleftNull] at htype
                  exact ⟨left, right, rfl, hordering, htype⟩

theorem not_sound {operand : Expr ω} (hoperand : operand.Sound object)
    (hbool : operand.type.value = .bool) : (Expr.not operand).Sound object := by
  have heval := Expr.evaluate_not object operand
  cases ho : operand.evaluate object with
  | error error =>
      rw [ho] at heval
      exact hoperand.of_operand List.mem_cons_self ho heval
  | ok value =>
      obtain ⟨holds, htruth⟩ := Value.truth_eq_ok hbool (hoperand.admits ho).type_eq
      rw [ho] at heval
      simp only [bind, Except.bind, htruth] at heval
      exact .of_ok heval (.bool rfl _)

theorem connect_sound {connective : Connective} {left right : Expr ω}
    (hleft : left.Sound object) (hleftBool : left.type.value = .bool)
    (hright : right.Sound object) (hrightBool : right.type.value = .bool) :
    (Expr.connect connective left right).Sound object := by
  have heval := Expr.evaluate_connect object connective left right
  cases hl : left.evaluate object with
  | error error =>
      rw [hl] at heval
      exact hleft.of_operand List.mem_cons_self hl heval
  | ok leftValue =>
      obtain ⟨decided, hdecided⟩ :=
        Value.truth_eq_ok hleftBool (hleft.admits hl).type_eq
      rw [hl] at heval
      simp only [bind, Except.bind, hdecided] at heval
      split at heval
      · exact .of_ok heval (.bool rfl decided)
      cases hr : right.evaluate object with
      | error error =>
          rw [hr] at heval
          exact hright.of_operand (List.mem_cons_of_mem _ List.mem_cons_self) hr heval
      | ok rightValue =>
          obtain ⟨holds, hholds⟩ :=
            Value.truth_eq_ok hrightBool (hright.admits hr).type_eq
          simp only [hr, hholds] at heval
          exact .of_ok heval (.bool rfl holds)

/-! Every part of a filter. -/

theorem root_sound (hobject : HostObject.type object = root) :
    (Expr.root root).Sound object := by
  refine .of_ok (Expr.evaluate_root object root) ⟨fun _ => ?_, nofun, nofun⟩
  simp [Value.type, Expr.type, StaticType.of, hobject]

theorem Grammar.Path.parts_sound {symbols : List Symbol} {expr : Expr ω}
    (h : Path registry root symbols expr) (hobject : HostObject.type object = root)
    (hconforming : Conforming registry object) :
    ∀ part ∈ expr.parts, part.Sound object := by
  have hsound : ∀ {symbols expr}, Path registry root symbols expr →
      expr.Sound object := by
    intro symbols expr hpath
    obtain ⟨base, read, nullSafe, rfl, hfollowed⟩ := hpath.followed hobject hconforming
    exact hfollowed.sound
  induction h with
  | first hmember =>
      exact List.forall_mem_cons.mpr ⟨hsound (.first hmember),
        List.forall_mem_singleton.mpr (root_sound hobject)⟩
  | next hbase hseparator howner hmember ih =>
      exact List.forall_mem_cons.mpr
        ⟨hsound (.next hbase hseparator howner hmember), ih⟩

theorem Expr.Typed.parts_sound {expr : Expr ω} (h : expr.Typed registry root)
    (hobject : HostObject.type object = root)
    (hconforming : Conforming registry object) :
    ∀ part ∈ expr.parts, part.Sound object := by
  induction h with
  | literal hliteral => exact List.forall_mem_singleton.mpr hliteral.proper.sound
  | path hpath => exact hpath.parts_sound hobject hconforming
  | @compare comparison left read right hcomparison hleft hread hcoerced ihleft ihread =>
      have hright : ∀ part ∈ right.parts, part.Sound object := by
        cases hcoerced with
        | literal hcoerce =>
            obtain ⟨symbol, hliteral⟩ := hread.exists_denotes
            exact List.forall_mem_singleton.mpr (hliteral.proper.coerce hcoerce).sound
        | other => exact ihread
      refine List.forall_mem_cons.mpr ⟨?_, List.forall_mem_append.mpr ⟨ihleft, hright⟩⟩
      exact compare_sound (ihleft left left.mem_parts_self)
        (hright right right.mem_parts_self) hcoerced.comparable
  | @connect connective left right hleft hleftBool hright hrightBool ihleft ihright =>
      refine List.forall_mem_cons.mpr
        ⟨?_, List.forall_mem_append.mpr ⟨ihleft, ihright⟩⟩
      exact connect_sound (ihleft left left.mem_parts_self) hleftBool
        (ihright right right.mem_parts_self) hrightBool
  | @not operand hoperand hbool ih =>
      refine List.forall_mem_cons.mpr ⟨?_, ih⟩
      exact not_sound (ih operand operand.mem_parts_self) hbool

theorem Filter.test_eq_error {filter : Filter ω} {error : EvalError}
    (h : filter.test object = .error error) :
    filter.body.evaluate object = .error error ∨
      ∃ value, filter.body.evaluate object = .ok value ∧ value.truth = .error error := by
  unfold Filter.test at h
  cases heval : filter.body.evaluate object with
  | error fault =>
      rw [heval] at h
      cases h
      exact .inl rfl
  | ok value =>
      rw [heval] at h
      exact .inr ⟨value, rfl, h⟩

namespace Sample

theorem conforming (item : Item) : Conforming orders item := by
  intro object _ member hmember
  obtain ⟨hentry, howner⟩ := List.mem_filter.mp hmember
  rw [decide_eq_true_eq] at howner
  rw [Member.read_of_owner howner.symm]
  rcases mem_orders hentry with rfl | rfl | rfl
  · cases object with
    | customer name => rfl
    | order urgent customer => cases howner
  · cases object with
    | customer name => cases howner
    | order urgent customer => cases customer <;> rfl
  · cases object with
    | customer name => cases howner
    | order urgent customer => rfl

end Sample

/-- Every part of a filter is sound, and testing a filter never meets a value that is no
object where members are read, or no truth value where one is needed. -/
theorem evaluate_part_of_parse {text : String} {expr : Expr ω}
    (hparse : registry.parse root text = .ok expr)
    (hobject : HostObject.type object = root)
    (hconforming : Conforming registry object) :
    (∀ part ∈ expr.parts, part.Sound object) ∧
    (∀ name found, (Filter.mk root expr).test object ≠
      .error (.notAnObject name found)) ∧
    (∀ found, (Filter.mk root expr).test object ≠ .error (.notBoolean found)) := by
  obtain ⟨hbool, depth, -, hderives⟩ := parse_eq_ok_iff.mp hparse
  have hparts := hderives.typed.parts_sound hobject hconforming
  have hsound := hparts expr expr.mem_parts_self
  have htest : ∀ {error}, (Filter.mk root expr).test object = .error error →
      ∃ place : Expr ω, place.MayFail error := by
    intro error h
    rcases Filter.test_eq_error h with heval | ⟨value, heval, htruth⟩
    · obtain ⟨place, -, -, -, hplace⟩ := hsound.failsWithin heval
      exact ⟨place, hplace⟩
    · obtain ⟨holds, hholds⟩ := Value.truth_eq_ok hbool (hsound.admits heval).type_eq
      cases hholds.symm.trans htruth
  refine ⟨hparts, fun name found h => ?_, fun found h => ?_⟩
  · obtain ⟨place, hplace⟩ := htest h
    exact hplace
  · obtain ⟨place, hplace⟩ := htest h
    exact hplace

theorem evaluate_part_of_parse_sample :
    (Sample.orders.parse Sample.orderType "customer?.NAME = 'Ann' or !Urgent" =
        .ok Sample.filter ∧
      HostObject.type (Sample.Item.order true none) = Sample.orderType ∧
        Conforming Sample.orders (Sample.Item.order true none)) ∧
    ∀ part ∈ Sample.filter.parts, part.Sound (Sample.Item.order true none) := by
  have htype : HostObject.type (Sample.Item.order true none) = Sample.orderType := rfl
  have hconforming := Sample.conforming (.order true none)
  obtain ⟨hparts, -⟩ := evaluate_part_of_parse Sample.parse_filter htype hconforming
  exact ⟨⟨Sample.parse_filter, htype, hconforming⟩, hparts⟩

end Sift
