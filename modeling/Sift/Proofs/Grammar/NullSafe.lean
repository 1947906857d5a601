import Sift.Proofs.Expr.Typed
import Sift.Proofs.Literal.Coercion
import Sift.Proofs.Token.NullSafe

namespace Sift

/-! Null-safe dots in place of others make the types of paths nullable, and change nothing
else of what a text is read as. -/

/-- The same type, or the same type made nullable. -/
structure StaticType.Widens (type wider : StaticType) : Prop where
  value_eq : wider.value = type.value
  nullable : type.nullable = true → wider.nullable = true

namespace StaticType.Widens

variable {type wider : StaticType}

theorem refl (type : StaticType) : type.Widens type :=
  ⟨rfl, id⟩

theorem acceptsNull (h : type.Widens wider) (haccepts : type.acceptsNull = true) :
    wider.acceptsNull = true := by
  unfold StaticType.acceptsNull at *
  rw [h.value_eq]
  rw [Bool.or_eq_true] at haccepts ⊢
  exact haccepts.imp_left h.nullable

end StaticType.Widens

namespace Literal

/-- The same constant, or a null of a wider type for a null. -/
inductive Widens : Literal → Literal → Prop
  | same (literal : Literal) : Widens literal literal
  | null {type wider : StaticType} (h : type.Widens wider) : Widens (null type) (null wider)

variable {literal other coerced : Literal} {target wider : StaticType}

theorem Widens.type (h : literal.Widens other) : literal.type.Widens other.type := by
  cases h with
  | same => exact .refl _
  | null h => exact h

/-- Coercing a constant other than null is a matter of the type of values alone. -/
theorem coerce_of_value_eq (hnull : literal.isNull = false)
    (hvalue : wider.value = target.value) (h : literal.coerce target = .ok coerced) :
    literal.coerce wider = .ok coerced := by
  unfold coerce at *
  rw [hvalue]
  split at h <;> simp_all [isNull]

theorem coerce_null_eq_ok {type : StaticType} (hvalue : target.value ≠ .null)
    (h : (null type).coerce target = .ok coerced) :
    target.acceptsNull = true ∧ coerced = null target := by
  unfold coerce at h
  cases htarget : target.value with
  | null => exact (hvalue htarget).elim
  | _ =>
      simp only [htarget] at h
      split at h
      · cases h
        exact ⟨‹_›, rfl⟩
      · cases h

theorem exists_coerce_null {type wideType : StaticType} (htype : type.Widens wideType)
    (htarget : target.Widens wider) (h : (null type).coerce target = .ok coerced) :
    ∃ widened, (null wideType).coerce wider = .ok widened ∧ coerced.Widens widened := by
  by_cases hvalue : target.value = .null
  · have hwider : wider.value = .null := htarget.value_eq.trans hvalue
    simp only [coerce, hvalue] at h
    cases h
    exact ⟨null wideType, by simp only [coerce, hwider], .null htype⟩
  · have hwider : wider.value ≠ .null := htarget.value_eq ▸ hvalue
    obtain ⟨haccepts, rfl⟩ := coerce_null_eq_ok hvalue h
    exact ⟨null wider, coerce_null hwider (htarget.acceptsNull haccepts), .null htarget⟩

theorem Widens.exists_coerce (hliteral : literal.Widens other)
    (htarget : target.Widens wider) (h : literal.coerce target = .ok coerced) :
    ∃ widened, other.coerce wider = .ok widened ∧ coerced.Widens widened := by
  cases hliteral with
  | null htype => exact exists_coerce_null htype htarget h
  | same =>
      cases literal with
      | null type => exact exists_coerce_null (.refl type) htarget h
      | _ => exact ⟨coerced, coerce_of_value_eq rfl htarget.value_eq h, .same coerced⟩

end Literal

variable {ω : Type}

namespace Expr

/-- The same expression, but that more of its dots may be null-safe and the types of its
nulls wider. -/
inductive Safer : Expr ω → Expr ω → Prop
  | literal {literal other : Literal} (h : literal.Widens other) :
      Safer (.literal literal) (.literal other)
  | root (type : HostType) : Safer (.root type) (.root type)
  | member {base otherBase : Expr ω} {nullSafe otherSafe : Bool} (read : Member ω)
      (hbase : Safer base otherBase) (hsafe : nullSafe = true → otherSafe = true) :
      Safer (.member base read nullSafe) (.member otherBase read otherSafe)
  | compare {left right otherLeft otherRight : Expr ω} (comparison : Comparison)
      (hleft : Safer left otherLeft) (hright : Safer right otherRight) :
      Safer (.compare comparison left right) (.compare comparison otherLeft otherRight)
  | connect {left right otherLeft otherRight : Expr ω} (connective : Connective)
      (hleft : Safer left otherLeft) (hright : Safer right otherRight) :
      Safer (.connect connective left right) (.connect connective otherLeft otherRight)
  | not {operand other : Expr ω} (h : Safer operand other) :
      Safer (.not operand) (.not other)

variable {expr other : Expr ω}

theorem Safer.inNullSafeChain (h : expr.Safer other)
    (hchain : expr.inNullSafeChain = true) : other.inNullSafeChain = true := by
  induction h with
  | member read hbase hsafe ih =>
      rw [Expr.inNullSafeChain, Bool.or_eq_true] at hchain ⊢
      exact hchain.imp hsafe ih
  | _ => cases hchain

theorem nullable_member (base : Expr ω) (read : Member ω) (nullSafe : Bool) :
    (member base read nullSafe).type.nullable = true ↔
      (member base read nullSafe).inNullSafeChain = true ∨ read.type.nullable = true := by
  simp only [type, inNullSafeChain]
  split
  · simp [StaticType.toNullable, *]
  · simp [*]

theorem Safer.type (h : expr.Safer other) : expr.type.Widens other.type := by
  cases h with
  | literal hliteral => exact hliteral.type
  | member read hbase hsafe =>
      refine ⟨by rw [type_value_member, type_value_member], fun hnullable => ?_⟩
      rw [nullable_member] at hnullable ⊢
      exact hnullable.imp_left (Safer.member read hbase hsafe).inNullSafeChain
  | _ => exact .refl _

theorem Safer.eq_literal (h : expr.Safer other) {value : Literal}
    (hother : other = .literal value) : ∃ literal, expr = .literal literal := by
  cases h with
  | literal => exact ⟨_, rfl⟩
  | _ => cases hother

end Expr

theorem Symbol.Safer.eq_of_ne_dot {symbol other : Symbol} (h : symbol.Safer other)
    (hdot : symbol ≠ .operator ".") : other = symbol := by
  cases h with
  | same => rfl
  | dot => exact (hdot rfl).elim

namespace Grammar

open Sift.Symbol (operator identifier)

variable {registry : Registry ω} {root : HostType} {expr : Expr ω}
  {symbols others : List Symbol} {depth : Nat}

theorem Coerced.safer {target wider : StaticType} {read right other : Expr ω}
    (hread : read.Safer other) (htarget : target.Widens wider)
    (h : Coerced target read right) :
    ∃ widened, Coerced wider other widened ∧ right.Safer widened := by
  cases h with
  | literal hcoerce =>
      cases hread with
      | literal hliteral =>
          obtain ⟨widened, hwidened, hsafer⟩ := hliteral.exists_coerce htarget hcoerce
          exact ⟨.literal widened, .literal hwidened, .literal hsafer⟩
  | other hother =>
      refine ⟨other, .other fun value hvalue => ?_, hread⟩
      obtain ⟨literal, hliteral⟩ := hread.eq_literal hvalue
      exact hother literal hliteral

/-! Symbols side by side. -/

theorem forall₂_append_left {first second others : List Symbol}
    (h : List.Forall₂ Symbol.Safer (first ++ second) others) :
    ∃ front back, others = front ++ back ∧ List.Forall₂ Symbol.Safer first front ∧
      List.Forall₂ Symbol.Safer second back := by
  refine ⟨others.take first.length, others.drop first.length,
    (List.take_append_drop _ _).symm, ?_, ?_⟩
  · have hfront := List.forall₂_take first.length h
    rwa [List.take_left] at hfront
  · have hback := List.forall₂_drop first.length h
    rwa [List.drop_left] at hback

theorem exists_safer_cons {second others : List Symbol} {symbol : Symbol}
    (hdot : symbol ≠ operator ".")
    (h : List.Forall₂ Symbol.Safer (symbol :: second) others) :
    ∃ back, others = symbol :: back ∧ List.Forall₂ Symbol.Safer second back := by
  obtain ⟨other, back, hother, hback, rfl⟩ := List.forall₂_cons_left_iff.mp h
  exact ⟨back, by rw [hother.eq_of_ne_dot hdot], hback⟩

theorem operator_ne_dot {text : String} (htext : text ≠ ".") :
    operator text ≠ operator "." :=
  fun heq => htext (congrArg Symbol.text heq)

theorem exists_safer_infix {first second others : List Symbol} {text : String}
    (htext : text ≠ ".")
    (h : List.Forall₂ Symbol.Safer (first ++ operator text :: second) others) :
    ∃ front back, others = front ++ operator text :: back ∧
      List.Forall₂ Symbol.Safer first front ∧ List.Forall₂ Symbol.Safer second back := by
  obtain ⟨front, rest, rfl, hfront, hrest⟩ := forall₂_append_left h
  obtain ⟨back, rfl, hback⟩ := exists_safer_cons (operator_ne_dot htext) hrest
  exact ⟨front, back, rfl, hfront, hback⟩

theorem eq_of_forall₂_singleton {symbol : Symbol}
    (h : List.Forall₂ Symbol.Safer [symbol] others) (hdot : symbol ≠ .operator ".") :
    others = [symbol] := by
  obtain ⟨back, rfl, hback⟩ := exists_safer_cons hdot h
  rw [List.forall₂_nil_left_iff.mp hback]

theorem Path.exists_safer (h : Path registry root symbols expr)
    (hsymbols : List.Forall₂ Symbol.Safer symbols others) :
    ∃ other, Path registry root others other ∧ expr.Safer other := by
  induction h generalizing others with
  | first hmember =>
      obtain rfl := eq_of_forall₂_singleton hsymbols (by simp [identifier, operator])
      exact ⟨_, .first hmember, .member _ (.root root) id⟩
  | next hbase hseparator howner hmember ih =>
      obtain ⟨front, back, rfl, hfront, hback⟩ := forall₂_append_left hsymbols
      obtain ⟨base, hpath, hsafer⟩ := ih hfront
      obtain ⟨separator, rest, hdot, hrest, rfl⟩ := List.forall₂_cons_left_iff.mp hback
      obtain rfl := eq_of_forall₂_singleton hrest (by simp [identifier, operator])
      have hvalue := hsafer.type.value_eq.trans howner
      cases hdot with
      | same =>
          exact ⟨_, .next hpath hseparator hvalue hmember, .member _ hsafer id⟩
      | dot =>
          exact ⟨_, .next hpath (.inr rfl) hvalue hmember,
            .member _ hsafer fun _ => decide_eq_true rfl⟩

theorem safer_equality (text : String) {left right otherLeft otherRight : Expr ω}
    (hleft : left.Safer otherLeft) (hright : right.Safer otherRight) :
    (equality text left right).Safer (equality text otherLeft otherRight) := by
  unfold equality
  split
  · exact .compare .eq hleft hright
  · exact .not (.compare .eq hleft hright)

theorem Derives.exists_safer {level : Level}
    (h : Derives registry root level symbols expr depth)
    (hsymbols : List.Forall₂ Symbol.Safer symbols others) :
    ∃ other, Derives registry root level others other depth ∧ expr.Safer other := by
  induction h generalizing others with
  | literal hliteral =>
      obtain rfl := eq_of_forall₂_singleton hsymbols (by rintro rfl; cases hliteral)
      exact ⟨_, .literal hliteral, .literal (.same _)⟩
  | path hpath =>
      obtain ⟨other, hother, hsafer⟩ := hpath.exists_safer hsymbols
      exact ⟨other, .path hother, hsafer⟩
  | group hinner ih =>
      obtain ⟨rest, rfl, hrest⟩ := exists_safer_cons (by decide) hsymbols
      obtain ⟨front, back, rfl, hfront, hback⟩ := exists_safer_infix (by decide) hrest
      obtain rfl := List.forall₂_nil_left_iff.mp hback
      obtain ⟨other, hother, hsafer⟩ := ih hfront
      exact ⟨other, .group hother, hsafer⟩
  | operand _ ih =>
      obtain ⟨other, hother, hsafer⟩ := ih hsymbols
      exact ⟨other, .operand hother, hsafer⟩
  | not _ hbool ih =>
      obtain ⟨back, rfl, hback⟩ := exists_safer_cons (by decide) hsymbols
      obtain ⟨other, hother, hsafer⟩ := ih hback
      exact ⟨_, .not hother (hsafer.type.value_eq.trans hbool), .not hsafer⟩
  | negation _ ih =>
      obtain ⟨other, hother, hsafer⟩ := ih hsymbols
      exact ⟨other, .negation hother, hsafer⟩
  | ordering _ horders _ hcoerced ihleft ihright =>
      obtain ⟨front, back, rfl, hfront, hback⟩ :=
        exists_safer_infix (by cases horders <;> decide) hsymbols
      obtain ⟨left, hleft, hleftSafer⟩ := ihleft hfront
      obtain ⟨read, hread, hreadSafer⟩ := ihright hback
      obtain ⟨right, hright, hrightSafer⟩ := hcoerced.safer hreadSafer hleftSafer.type
      exact ⟨_, .ordering hleft horders hread hright,
        .compare _ hleftSafer hrightSafer⟩
  | comparison _ ih =>
      obtain ⟨other, hother, hsafer⟩ := ih hsymbols
      exact ⟨other, .comparison hother, hsafer⟩
  | equal _ htext _ hcoerced ihleft ihright =>
      obtain ⟨front, back, rfl, hfront, hback⟩ :=
        exists_safer_infix (ne_of_mem_of_not_mem htext (by decide)) hsymbols
      obtain ⟨left, hleft, hleftSafer⟩ := ihleft hfront
      obtain ⟨read, hread, hreadSafer⟩ := ihright hback
      obtain ⟨right, hright, hrightSafer⟩ := hcoerced.safer hreadSafer hleftSafer.type
      exact ⟨_, .equal hleft htext hread hright, safer_equality _ hleftSafer hrightSafer⟩
  | equality _ ih =>
      obtain ⟨other, hother, hsafer⟩ := ih hsymbols
      exact ⟨other, .equality hother, hsafer⟩
  | and _ hleftBool htext _ hrightBool ihleft ihright =>
      obtain ⟨front, back, rfl, hfront, hback⟩ :=
        exists_safer_infix (ne_of_mem_of_not_mem htext (by decide)) hsymbols
      obtain ⟨left, hleft, hleftSafer⟩ := ihleft hfront
      obtain ⟨right, hright, hrightSafer⟩ := ihright hback
      exact ⟨_, .and hleft (hleftSafer.type.value_eq.trans hleftBool) htext hright
        (hrightSafer.type.value_eq.trans hrightBool), .connect _ hleftSafer hrightSafer⟩
  | conjunction _ ih =>
      obtain ⟨other, hother, hsafer⟩ := ih hsymbols
      exact ⟨other, .conjunction hother, hsafer⟩
  | or _ hleftBool htext _ hrightBool ihleft ihright =>
      obtain ⟨front, back, rfl, hfront, hback⟩ :=
        exists_safer_infix (ne_of_mem_of_not_mem htext (by decide)) hsymbols
      obtain ⟨left, hleft, hleftSafer⟩ := ihleft hfront
      obtain ⟨right, hright, hrightSafer⟩ := ihright hback
      exact ⟨_, .or hleft (hleftSafer.type.value_eq.trans hleftBool) htext hright
        (hrightSafer.type.value_eq.trans hrightBool), .connect _ hleftSafer hrightSafer⟩

end Grammar

end Sift
