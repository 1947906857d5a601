import Mathlib.Data.List.Nodup
import Sift.Proofs.Evaluation.Soundness
import Sift.Proofs.Expr.Equality
import Sift.Proofs.Value.Order

namespace Sift

open Grammar (parse_eq_ok_iff)

/-! What a filter answers depends on what registered members read of an object, and on
nothing else of it. -/

variable {ω : Type} {registry : Registry ω}

namespace Value

/-- Equal values, or objects that are related. -/
inductive Alike (related : ω → ω → Prop) : Value ω → Value ω → Prop
  | null : Alike related null null
  | bool (value : Bool) : Alike related (bool value) (bool value)
  | number {first second : Decimal} (h : first.sameValue second = true) :
      Alike related (number first) (number second)
  | string (value : String) : Alike related (string value) (string value)
  | timestamp {first second : Timestamp} (h : first.sameInstant second = true) :
      Alike related (timestamp first) (timestamp second)
  | object {first second : ω} (h : related first second) :
      Alike related (object first) (object second)

variable {related : ω → ω → Prop}

theorem alike_of_literal {first second : Literal} (h : (first == second) = true) :
    Alike related first.value second.value := by
  cases first with
  | null type =>
      cases second with
      | null => exact .null
      | _ => cases h
  | bool value =>
      cases second with
      | bool => exact eq_of_beq (α := Bool) h ▸ .bool value
      | _ => cases h
  | string value =>
      cases second with
      | string => exact eq_of_beq (α := String) h ▸ .string value
      | _ => cases h
  | number value =>
      cases second with
      | number => exact .number h
      | _ => cases h
  | timestamp value =>
      cases second with
      | timestamp => exact .timestamp h
      | _ => cases h

theorem Alike.eq_null_iff {first second : Value ω} (h : first.Alike related second) :
    first = .null ↔ second = .null := by
  cases h <;> simp

end Value

namespace Chain

inductive Alike (related : ω → ω → Prop) : Chain ω → Chain ω → Prop
  | value {first second : Value ω} (h : first.Alike related second) :
      Alike related (.value first) (.value second)
  | ended : Alike related .ended .ended

variable {first second : Chain ω}

theorem Alike.toValue (h : first.Alike related second) :
    first.toValue.Alike related second.toValue := by
  cases h with
  | value hvalue => exact hvalue
  | ended => exact .null

end Chain

/-! The members that a filter reads are registered. -/

/-- Registered members that are equal are one, since they share a slot. -/
theorem Registry.eq_of_beq {first second : Member ω} (hfirst : first ∈ registry.entries)
    (hsecond : second ∈ registry.entries) (h : (first == second) = true) :
    first = second := by
  obtain ⟨howner, hname, -⟩ := Member.beq_iff.mp h
  apply List.inj_on_of_nodup_map registry.nodup_slots hfirst hsecond
  rw [Member.slot, Member.slot, howner, hname]

def Expr.Registered (registry : Registry ω) (expr : Expr ω) : Prop :=
  ∀ access ∈ expr.accesses, access.2 ∈ registry.entries

theorem Filter.compile_eq_ok {root : HostType} {text : String} {filter : Filter ω} :
    compile registry root text = .ok filter ↔
      filter.root = root ∧ registry.parse root text = .ok filter.body := by
  rcases filter with ⟨host, body⟩
  unfold compile
  cases registry.parse root text with
  | error fault => simp [Except.map]
  | ok found => simp [Except.map, eq_comm]

theorem Filter.registered_of_compile {root : HostType} {text : String}
    {filter : Filter ω} (h : Filter.compile registry root text = .ok filter) :
    filter.body.Registered registry := by
  obtain ⟨-, depth, -, hderives⟩ := parse_eq_ok_iff.mp (Filter.compile_eq_ok.mp h).2
  intro access haccess
  obtain ⟨owner, -, hlookup, -⟩ := hderives.typed.resolves access haccess
  exact registry.mem_of_lookup? hlookup

variable [HostObject ω]

/-- A one-to-one correspondence between objects of one type, of which registered members
read alike. Nothing is asked of members that are not registered. -/
structure Correspondence (registry : Registry ω) (related : ω → ω → Prop) : Prop where
  type_eq {first second : ω} :
    related first second → HostObject.type first = HostObject.type second
  same_eq {first second other partner : ω} :
    related first second → related other partner →
      HostObject.same first other = HostObject.same second partner
  alike {first second : ω} : related first second →
    ∀ member ∈ registry.members (HostObject.type first),
      (member.read first).Alike related (member.read second)

variable {related : ω → ω → Prop}

/-! Values that are alike behave alike. -/

namespace Value

variable {first second left right : Value ω}

theorem Alike.type_eq (h : first.Alike related second)
    (hobjects : Correspondence registry related) : first.type = second.type := by
  cases h with
  | object hrelated => exact congrArg ValueType.object (hobjects.type_eq hrelated)
  | _ => rfl

theorem Alike.truth_eq (h : first.Alike related second)
    (hobjects : Correspondence registry related) : first.truth = second.truth := by
  have htype := h.type_eq hobjects
  cases h with
  | null | bool => rfl
  | _ => exact congrArg (Except.error ∘ EvalError.notBoolean) htype

theorem compare_of_alike_of_type_eq (hobjects : Correspondence registry related)
    (comparison : Comparison) (hleft : left.Alike related first)
    (hright : right.Alike related second) (htype : left.type = right.type) :
    compare comparison left right = compare comparison first second := by
  cases hleft with
  | null =>
      cases hright with
      | null => rfl
      | _ => cases htype
  | bool value =>
      cases hright with
      | bool other => rfl
      | _ => cases htype
  | string value =>
      cases hright with
      | string other => rfl
      | _ => cases htype
  | number hvalue =>
      cases hright with
      | number hother =>
          simp only [compare, Decimal.compare_eq_compare_value]
          rw [Decimal.sameValue_iff.mp hvalue, Decimal.sameValue_iff.mp hother]
      | _ => cases htype
  | timestamp hvalue =>
      cases hright with
      | timestamp hother =>
          obtain ⟨hseconds, hnanoseconds⟩ := Timestamp.sameInstant_iff.mp hvalue
          obtain ⟨hotherSeconds, hotherNanoseconds⟩ := Timestamp.sameInstant_iff.mp hother
          simp only [compare, Timestamp.compare]
          rw [hseconds, hnanoseconds, hotherSeconds, hotherNanoseconds]
      | _ => cases htype
  | object hrelated =>
      cases hright with
      | object hother =>
          have hsame := hobjects.same_eq hrelated hother
          simp only [compare, type, hobjects.type_eq hrelated, hobjects.type_eq hother,
            hsame]
      | _ => cases htype

theorem compare_of_alike (hobjects : Correspondence registry related)
    (comparison : Comparison) (hleft : left.Alike related first)
    (hright : right.Alike related second) :
    compare comparison left right = compare comparison first second := by
  by_cases htype : left.type = right.type
  · exact compare_of_alike_of_type_eq hobjects comparison hleft hright htype
  by_cases hleftNull : left = null
  · obtain rfl := hleftNull
    cases hleft
    cases hright <;> rfl
  by_cases hrightNull : right = null
  · obtain rfl := hrightNull
    cases hright
    cases hleft <;> rfl
  · have hfirst := hleft.type_eq hobjects
    have hsecond := hright.type_eq hobjects
    rw [compare_of_type_ne hleftNull hrightNull htype,
      compare_of_type_ne (mt hleft.eq_null_iff.mpr hleftNull)
        (mt hright.eq_null_iff.mpr hrightNull) (hfirst ▸ hsecond ▸ htype),
      hfirst, hsecond]

end Value

namespace Chain

variable {first second : Chain ω}

/-- A member is read only of an object of its owner, so a registered one reads alike. -/
theorem step_agree (hobjects : Correspondence registry related) {read : Member ω}
    (hread : read ∈ registry.entries) (nullSafe : Bool)
    (h : first.Alike related second) :
    Agree (Alike related) (first.step read nullSafe) (second.step read nullSafe) := by
  cases h with
  | ended => exact .ok .ended
  | value hvalue =>
      cases hvalue with
      | null =>
          cases nullSafe with
          | true => exact .ok .ended
          | false => exact .error _
      | object hrelated =>
          simp only [step, ← hobjects.type_eq hrelated]
          split
          · rename_i howner
            have hmember : read ∈ registry.members _ :=
              List.mem_filter.mpr ⟨hread, decide_eq_true howner.symm⟩
            exact .ok (.value (hobjects.alike hrelated read hmember))
          · exact .error _
      | _ => exact .error _

end Chain

/-! Two evaluations side by side. -/

theorem Expr.Same.follow_agree (hobjects : Correspondence registry related)
    {first second : ω} (hrelated : related first second) {expr other : Expr ω}
    (hsame : expr.Same other) (hregistered : expr.Registered registry)
    (hother : other.Registered registry) :
    Agree (Chain.Alike related) (expr.follow first) (other.follow second) := by
  have htruth : ∀ {left right : Chain ω}, left.Alike related right →
      Agree Eq left.toValue.truth right.toValue.truth :=
    fun h => .of_eq (h.toValue.truth_eq hobjects)
  induction hsame with
  | literal h => exact .ok (.value (Value.alike_of_literal h))
  | root host => exact .ok (.value (.object hrelated))
  | member nullSafe _ h ih =>
      obtain ⟨hbase, hread⟩ := List.forall_mem_append.mp hregistered
      obtain ⟨hotherBase, hotherRead⟩ := List.forall_mem_append.mp hother
      have hentry := hread _ List.mem_cons_self
      obtain rfl := Registry.eq_of_beq hentry (hotherRead _ List.mem_cons_self) h
      refine (ih hbase hotherBase).bind fun hchain => ?_
      exact Chain.step_agree hobjects hentry nullSafe hchain
  | compare comparison _ _ ihleft ihright =>
      obtain ⟨hleft, hright⟩ := List.forall_mem_append.mp hregistered
      obtain ⟨hotherLeft, hotherRight⟩ := List.forall_mem_append.mp hother
      refine (ihleft hleft hotherLeft).bind fun hleftChain => ?_
      refine (ihright hright hotherRight).bind fun hrightChain => ?_
      have hcompare := Value.compare_of_alike hobjects comparison hleftChain.toValue
        hrightChain.toValue
      refine (Agree.of_eq hcompare).bind ?_
      rintro holds _ rfl
      exact .ok (.value (.bool holds))
  | connect connective _ _ ihleft ihright =>
      obtain ⟨hleft, hright⟩ := List.forall_mem_append.mp hregistered
      obtain ⟨hotherLeft, hotherRight⟩ := List.forall_mem_append.mp hother
      refine (ihleft hleft hotherLeft).bind fun hleftChain => ?_
      refine (htruth hleftChain).bind ?_
      rintro decided _ rfl
      split
      · exact .ok (.value (.bool false))
      · exact .ok (.value (.bool true))
      · refine (ihright hright hotherRight).bind fun hrightChain => ?_
        refine (htruth hrightChain).bind ?_
        rintro holds _ rfl
        exact .ok (.value (.bool holds))
  | not _ ih =>
      refine (ih hregistered hother).bind fun hchain => ?_
      refine (htruth hchain).bind ?_
      rintro holds _ rfl
      exact .ok (.value (.bool !holds))

theorem Expr.follow_agree (hobjects : Correspondence registry related) {first second : ω}
    (hrelated : related first second) {expr : Expr ω}
    (hregistered : expr.Registered registry) :
    Agree (Chain.Alike related) (expr.follow first) (expr.follow second) :=
  (Expr.Same.refl expr).follow_agree hobjects hrelated hregistered hregistered

theorem Filter.test_eq_follow (filter : Filter ω) (object : ω) :
    filter.test object =
      (filter.body.follow object >>= fun chain => chain.toValue.truth) := by
  rw [test, Expr.evaluate]
  cases filter.body.follow object <;> rfl

/-! Orders that only tell whether they are urgent and have a customer. -/

namespace Sample

def reserved : Registry Item :=
  Registry.empty.registerAll [customerMember, urgentMember]

/-- The filter `(!Urgent and !(Customer = null))`. -/
def assigned : Filter Item where
  root := orderType
  body :=
    .connect .and (.not (.member (.root orderType) urgentMember false))
      (.not (.compare .eq (.member (.root orderType) customerMember false)
        (.literal (.null customerMember.type))))

theorem compile_assigned :
    Filter.compile reserved orderType "!urgent and customer != null" = .ok assigned := by
  have htokens : tokenize "!urgent and customer != null" =
      [⟨.operator, "!", 0⟩, ⟨.identifier, "urgent", 1⟩, ⟨.blank, " ", 7⟩,
        ⟨.operator, "and", 8⟩, ⟨.blank, " ", 11⟩, ⟨.identifier, "customer", 12⟩,
        ⟨.blank, " ", 20⟩, ⟨.operator, "!=", 21⟩, ⟨.blank, " ", 23⟩, ⟨.null, "null", 24⟩,
        ⟨.finish, "", 28⟩] := by
    decide +kernel
  rw [Filter.compile, Registry.parse, htokens]
  rfl

/-- Items that differ in the names of customers at most. -/
inductive Renamed : Item → Item → Prop
  | customer (first second : String) : Renamed (.customer first) (.customer second)
  | unassigned (urgent : Bool) : Renamed (.order urgent none) (.order urgent none)
  | assigned (urgent : Bool) (first second : String) :
      Renamed (.order urgent (some first)) (.order urgent (some second))

theorem correspondence_renamed : Correspondence reserved Renamed where
  type_eq h := by cases h <;> rfl
  same_eq h hother := by cases h <;> cases hother <;> rfl
  alike h member hmember := by
    have hentry := (List.mem_filter.mp hmember).1
    have hmem := (Registry.mem_of_mem_registerAll hentry).resolve_left List.not_mem_nil
    simp only [List.mem_cons, List.not_mem_nil, or_false] at hmem
    rcases hmem with rfl | rfl
    · cases h with
      | customer | unassigned => exact .null
      | assigned urgent first second => exact .object (.customer first second)
    · cases h with
      | customer => exact .null
      | unassigned urgent | assigned urgent => exact .bool urgent

end Sample

/-- A filter gives the same answer, or fails in the same way, on any two objects that
correspond. -/
theorem test_eq_of_correspondence {root : HostType} {text : String} {filter : Filter ω}
    (hcompile : Filter.compile registry root text = .ok filter)
    (hobjects : Correspondence registry related) {first second : ω}
    (hrelated : related first second) : filter.test first = filter.test second := by
  rw [Filter.test_eq_follow, Filter.test_eq_follow]
  refine Agree.eq (Agree.bind (Expr.follow_agree hobjects hrelated ?_) fun hchain => ?_)
  · exact Filter.registered_of_compile hcompile
  · exact .of_eq (hchain.toValue.truth_eq hobjects)

theorem test_eq_of_correspondence_assigned :
    (Filter.compile Sample.reserved Sample.orderType "!urgent and customer != null" =
        .ok Sample.assigned ∧
      Correspondence Sample.reserved Sample.Renamed ∧
        Sample.Renamed (.order false (some "Ann")) (.order false (some "Bob"))) ∧
    Sample.assigned.test (.order false (some "Ann")) =
      Sample.assigned.test (.order false (some "Bob")) := by
  have hrelated := Sample.Renamed.assigned false "Ann" "Bob"
  exact ⟨⟨Sample.compile_assigned, Sample.correspondence_renamed, hrelated⟩,
    test_eq_of_correspondence Sample.compile_assigned Sample.correspondence_renamed
      hrelated⟩

end Sift
