import Sift.Proofs.Evaluation.Equations
import Sift.Proofs.Sample

namespace Sift

/-! Following a path of members, from its last member inwards, comes to walking it from
its first member onwards. -/

/-- A member of a path, and how it is joined to what stands before it. -/
structure Segment (ω : Type) where
  member : Member ω
  nullSafe : Bool

variable {ω : Type}

namespace Expr

def base : Expr ω → Expr ω
  | member inner _ _ => inner.base
  | expr => expr

def segments : Expr ω → List (Segment ω)
  | member inner read nullSafe => inner.segments ++ [⟨read, nullSafe⟩]
  | _ => []

def extend (start : Expr ω) (path : List (Segment ω)) : Expr ω :=
  path.foldl (fun base segment => .member base segment.member segment.nullSafe) start

theorem extend_append (start : Expr ω) (first second : List (Segment ω)) :
    start.extend (first ++ second) = (start.extend first).extend second :=
  List.foldl_append

theorem base_extend (start : Expr ω) (path : List (Segment ω)) :
    (start.extend path).base = start.base := by
  induction path generalizing start with
  | nil => rfl
  | cons segment path ih => exact ih (start.member segment.member segment.nullSafe)

theorem segments_extend (start : Expr ω) (path : List (Segment ω)) :
    (start.extend path).segments = start.segments ++ path := by
  induction path generalizing start with
  | nil => exact (List.append_nil _).symm
  | cons segment path ih =>
      have hrest := ih (start.member segment.member segment.nullSafe)
      rw [segments, List.append_assoc] at hrest
      exact hrest

theorem base_extend_segments (expr : Expr ω) : expr.base.extend expr.segments = expr := by
  induction expr with
  | member inner read nullSafe ih =>
      rw [base, segments, extend_append, ih]
      rfl
  | _ => rfl

theorem segments_base (expr : Expr ω) : expr.base.segments = [] := by
  induction expr with
  | member inner read nullSafe ih => exact ih
  | _ => rfl

/-! The type of a path. -/

theorem inNullSafeChain_eq_any (expr : Expr ω) :
    expr.inNullSafeChain = expr.segments.any Segment.nullSafe := by
  induction expr with
  | member inner read nullSafe ih =>
      rw [inNullSafeChain, segments, List.any_append, ← ih, Bool.or_comm,
        List.any_cons, List.any_nil, Bool.or_false]
  | _ => rfl

theorem type_of_getLast? {expr : Expr ω} {last : Segment ω}
    (h : expr.segments.getLast? = some last) :
    expr.type =
      { last.member.type with
        nullable := last.member.type.nullable || expr.segments.any Segment.nullSafe } := by
  cases expr with
  | member inner read nullSafe =>
      rw [segments, List.getLast?_concat, Option.some.injEq] at h
      subst h
      rw [← inNullSafeChain_eq_any, type, ← inNullSafeChain.eq_1]
      cases (member inner read nullSafe).inNullSafeChain with
      | true => rw [if_pos rfl, Bool.or_true, StaticType.toNullable]
      | false => rw [if_neg (by decide), Bool.or_false]
  | _ => cases h

end Expr

variable [HostObject ω]

/-- The value that the members of a path lead to, read one after another. A null before
`?.` is where the walk stops, whatever comes after. -/
def Value.walk : Value ω → List (Segment ω) → Except EvalError (Value ω)
  | value, [] => .ok value
  | object found, segment :: path =>
      if HostObject.type found = segment.member.owner then
        (segment.member.accessor found).walk path
      else
        .error (.notAnObject segment.member.name (.object (HostObject.type found)))
  | null, segment :: _ =>
      if segment.nullSafe then .ok .null
      else .error (.nullReference segment.member.name)
  | value, segment :: _ => .error (.notAnObject segment.member.name value.type)

namespace Expr

variable {object : ω} {expr : Expr ω}

/-! Once a path has failed or ended, its further members change nothing. -/

theorem follow_extend_of_error {error : EvalError}
    (h : expr.follow object = .error error) (path : List (Segment ω)) :
    (expr.extend path).follow object = .error error := by
  induction path generalizing expr with
  | nil => exact h
  | cons segment path ih => exact ih (follow_member_of_error object h)

theorem follow_extend_of_ended (h : expr.follow object = .ok .ended)
    (path : List (Segment ω)) : (expr.extend path).follow object = .ok .ended := by
  induction path generalizing expr with
  | nil => exact h
  | cons segment path ih => exact ih (follow_member_of_ok object h)

theorem evaluate_extend_of_value {value : Value ω}
    (h : expr.follow object = .ok (.value value)) (path : List (Segment ω)) :
    (expr.extend path).evaluate object = value.walk path := by
  induction path generalizing expr value with
  | nil => exact (evaluate_eq_ok object).mpr ⟨_, h, rfl⟩
  | cons segment path ih =>
      have hstep : (member expr segment.member segment.nullSafe).follow object =
          (Chain.value value).step segment.member segment.nullSafe :=
        follow_member_of_ok object h
      change ((member expr segment.member segment.nullSafe).extend path).evaluate object = _
      cases value with
      | object found =>
          simp only [Chain.step] at hstep
          rw [Value.walk]
          split at hstep
          · rename_i howner
            rw [Member.read_of_owner howner] at hstep
            rw [if_pos howner]
            exact ih hstep
          · rw [if_neg ‹_›]
            exact (evaluate_eq_error object).mpr (follow_extend_of_error hstep path)
      | null =>
          simp only [Chain.step] at hstep
          rw [Value.walk]
          split at hstep
          · rw [if_pos ‹_›]
            exact (evaluate_eq_ok object).mpr
              ⟨_, follow_extend_of_ended hstep path, rfl⟩
          · rw [if_neg ‹_›]
            exact (evaluate_eq_error object).mpr (follow_extend_of_error hstep path)
      | _ => exact (evaluate_eq_error object).mpr (follow_extend_of_error hstep path)

/-! Only a path ends early. -/

theorem follow_of_segments_eq_nil (hbase : expr.segments = []) {chain : Chain ω}
    (h : expr.follow object = .ok chain) : ∃ value, chain = .value value := by
  cases expr with
  | literal value | root host =>
      cases h
      exact ⟨_, rfl⟩
  | member inner read nullSafe =>
      cases List.append_ne_nil_of_right_ne_nil _ (List.cons_ne_nil _ _) hbase
  | compare comparison left right =>
      obtain ⟨leftChain, -, h⟩ := bind_eq_ok.mp h
      obtain ⟨rightChain, -, h⟩ := bind_eq_ok.mp h
      obtain ⟨holds, -, h⟩ := bind_eq_ok.mp h
      cases h
      exact ⟨_, rfl⟩
  | connect connective left right =>
      obtain ⟨leftChain, -, h⟩ := bind_eq_ok.mp h
      obtain ⟨decided, -, h⟩ := bind_eq_ok.mp h
      split at h
      · cases h
        exact ⟨_, rfl⟩
      · cases h
        exact ⟨_, rfl⟩
      · obtain ⟨rightChain, -, h⟩ := bind_eq_ok.mp h
        obtain ⟨holds, -, h⟩ := bind_eq_ok.mp h
        cases h
        exact ⟨_, rfl⟩
  | not operand =>
      obtain ⟨chain, -, h⟩ := bind_eq_ok.mp h
      obtain ⟨holds, -, h⟩ := bind_eq_ok.mp h
      cases h
      exact ⟨_, rfl⟩

theorem evaluate_eq_walk (expr : Expr ω) (object : ω) :
    expr.evaluate object =
      (expr.base.evaluate object >>= fun value => value.walk expr.segments) := by
  have hpath := expr.base_extend_segments
  cases hfollow : expr.base.follow object with
  | error error =>
      have hexpr := follow_extend_of_error hfollow expr.segments
      rw [hpath] at hexpr
      rw [(evaluate_eq_error object).mpr hfollow, (evaluate_eq_error object).mpr hexpr]
      rfl
  | ok chain =>
      obtain ⟨value, rfl⟩ := follow_of_segments_eq_nil expr.segments_base hfollow
      have hexpr := evaluate_extend_of_value hfollow expr.segments
      rw [hpath] at hexpr
      rw [hexpr, (evaluate_eq_ok object).mpr ⟨_, hfollow, rfl⟩]
      rfl

end Expr

def Sample.customerName : List (Segment Sample.Item) :=
  [⟨Sample.customerMember, false⟩, ⟨Sample.nameMember, true⟩]

/-- A path over an expression has the value to which its members lead, one after another,
from the value of the expression. Where the expression ends in a path of its own, the
members of that come first. The type is that of the last member, nullable also where
some member is joined by `?.`. -/
theorem evaluate_extend (start : Expr ω) (path : List (Segment ω)) (object : ω) :
    (start.extend path).evaluate object =
      (start.base.evaluate object >>= fun value =>
        value.walk (start.segments ++ path)) ∧
    ∀ last ∈ path.getLast?,
      (start.extend path).type.value = last.member.type.value ∧
        ((start.extend path).type.nullable = true ↔
          last.member.type.nullable = true ∨
            ∃ segment ∈ start.segments ++ path, segment.nullSafe = true) := by
  have hsegments := start.segments_extend path
  constructor
  · rw [Expr.evaluate_eq_walk, Expr.base_extend, hsegments]
  · intro last hlast
    have hgetLast : (start.extend path).segments.getLast? = some last := by
      rw [hsegments, List.getLast?_append, Option.mem_def.mp hlast, Option.some_or]
    rw [Expr.type_of_getLast? hgetLast, hsegments]
    exact ⟨rfl, by rw [Bool.or_eq_true, List.any_eq_true]⟩

theorem evaluate_extend_customerName :
    Sample.customerName.getLast? = some ⟨Sample.nameMember, true⟩ ∧
      ((Expr.root Sample.orderType).extend Sample.customerName).evaluate
          (Sample.Item.order true none) = .ok .null ∧
        ((Expr.root Sample.orderType).extend Sample.customerName).type.nullable =
          true := by
  obtain ⟨heval, htype⟩ := evaluate_extend (Expr.root Sample.orderType)
    Sample.customerName (Sample.Item.order true none)
  have hlast := (htype ⟨Sample.nameMember, true⟩ rfl).2
  exact ⟨rfl, heval, hlast.mpr (.inr ⟨_, List.mem_cons_of_mem _ List.mem_cons_self, rfl⟩)⟩

end Sift
