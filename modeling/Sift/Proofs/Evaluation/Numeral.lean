import Sift.Proofs.Decimal.Numeral
import Sift.Proofs.Evaluation.Correspondence
import Sift.Proofs.Grammar.Quoted
import Sift.Proofs.Value.Comparison

namespace Sift

/-! Filters that compare two numerals. -/

/-- The text of a number token. -/
def IsNumeral (text : String) : Prop :=
  ∃ source offset, ⟨.number, text, offset⟩ ∈ tokenize source

theorem IsNumeral.exists_digits {text : String} (h : IsNumeral text) :
    ∃ whole fraction, text.toList = Decimal.numeral whole fraction ∧
      Decimal.Digits whole ∧ whole ≠ [] ∧ Decimal.Digits fraction := by
  obtain ⟨source, offset, htoken⟩ := h
  exact numeral_of_mem_tokenize htoken rfl

theorem IsNumeral.beginsApart {text : String} (h : IsNumeral text) :
    Lexeme.BeginsApart text.toList := by
  obtain ⟨source, offset, htoken⟩ := h
  exact (Quotable.number htoken).loneLiteral.apart

theorem isNumeral_of_head {text : String}
    (h : (tokenize text).head? = some ⟨.number, text, 0⟩) : IsNumeral text :=
  ⟨text, 0, List.mem_of_mem_head? h⟩

namespace Decimal

variable {text : String}

def Decodes (text : String) : Prop :=
  ∃ number, parse text.toList = .ok number

theorem reading_of_isNumeral (h : IsNumeral text) :
    Reading (Text.digitsValue (wholeDigits text.toList)) (exactValue text.toList)
      (parse text.toList) := by
  obtain ⟨whole, fraction, htext, hwhole, hne, hfraction⟩ := h.exists_digits
  rw [htext, wholeDigits_numeral hwhole]
  exact reading_numeral hwhole hne hfraction

theorem exists_parse_of_isNumeral (h : IsNumeral text) (hfits : Fits text.toList) :
    ∃ number, parse text.toList = .ok number ∧ number.value = exactValue text.toList := by
  obtain ⟨whole, fraction, htext, hwhole, hne, hfraction⟩ := h.exists_digits
  rw [htext] at hfits ⊢
  exact exists_parse_of_fits hwhole hne hfraction hfits

end Decimal

/-! The symbols of such a text. -/

namespace Lexeme

open Grammar (comparisonOperators)

variable {front rest : List Char} {holds : Char → Prop}

theorem head_append_of (hfront : ∀ c ∈ front, holds c) (hrest : ∀ c ∈ rest.head?, holds c) :
    ∀ c ∈ (front ++ rest).head?, holds c := by
  cases front with
  | nil => exact hrest
  | cons first others =>
      rintro c ⟨rfl⟩
      exact hfront _ List.mem_cons_self

theorem ends_of_isBlank {c : Char} (h : Text.isBlank c = true) :
    c ≠ '-' ∧ c ≠ '.' ∧ c.isDigit = false ∧ c ≠ '=' ∧ c ≠ '>' := by
  have hjoins := not_joins_of_isBlank h
  refine ⟨?_, ?_, isDigit_of_not_joins hjoins, ?_, ?_⟩ <;>
  · rintro rfl
    exact hjoins (.inr (by decide))

theorem endsNumeral_of_comparison {operator : String}
    (hmem : operator ∈ comparisonOperators) : EndsNumeral operator.toList := by
  simp only [comparisonOperators, List.mem_cons, List.not_mem_nil, or_false] at hmem
  rcases hmem with rfl | rfl | rfl | rfl | rfl | rfl | rfl <;>
  · rintro c ⟨rfl⟩
    decide

end Lexeme

open Grammar (comparisonOperators)

theorem lexed_numeral {text : String} (h : IsNumeral text) {rest : List Char}
    (hrest : Lexeme.EndsNumeral rest) :
    lexed (text.toList ++ rest) = ⟨.number, text⟩ :: lexed rest := by
  obtain ⟨whole, fraction, htext, hwhole, hne, hfraction⟩ := h.exists_digits
  have hscan := Lexeme.scan_numeral hwhole hne hfraction hrest
  have hfront : Decimal.numeral whole fraction ≠ [] :=
    List.append_ne_nil_of_left_ne_nil hne _
  have happend := lexed_append hfront hscan (by decide)
  rw [← htext, String.ofList_toList] at happend
  exact happend

section Comparison

variable {first second before after operator : String}

theorem symbols_comparison (hfirst : IsNumeral first) (hsecond : IsNumeral second)
    (hmem : operator ∈ comparisonOperators)
    (hbefore : ∀ c ∈ before.toList, Text.isBlank c = true)
    (hafter : ∀ c ∈ after.toList, Text.isBlank c = true) :
    Grammar.symbols (first ++ before ++ operator ++ after ++ second) =
      [⟨.number, first⟩, .operator operator, ⟨.number, second⟩] := by
  have hsymbolic := Grammar.mem_symbolicOperators_of_comparison operator hmem
  have hoperator := (Lexeme.mem_symbolicOperators.mp hsymbolic).1
  have hends : Lexeme.EndsNumeral
      (before.toList ++ (operator.toList ++ (after.toList ++ second.toList))) := by
    apply Lexeme.head_append_of
    · intro c hc
      obtain ⟨hhyphen, hpoint, hdigit, -⟩ := Lexeme.ends_of_isBlank (hbefore c hc)
      exact ⟨hhyphen, hpoint, hdigit⟩
    · rw [List.head?_append_of_ne_nil _ (Lexeme.operators_chars operator hoperator).1]
      exact Lexeme.endsNumeral_of_comparison hmem
  have happart : ∀ c ∈ (after.toList ++ second.toList).head?, c ≠ '=' ∧ c ≠ '>' := by
    apply Lexeme.head_append_of
    · exact fun c hc => (Lexeme.ends_of_isBlank (hafter c hc)).2.2.2
    · exact fun c hc => (hsecond.beginsApart c hc).2
  have hlast := lexed_numeral hsecond (nofun : Lexeme.EndsNumeral [])
  rw [List.append_nil, lexed_nil] at hlast
  rw [symbols_eq_lexed]
  simp only [String.toList_append, List.append_assoc]
  rw [lexed_numeral hfirst hends, lexed_blanks hbefore,
    lexed_operator hoperator (Lexeme.isOperator_of_symbolic hsymbolic _)
      (Lexeme.longest_of_head hoperator happart), lexed_blanks hafter, hlast]

end Comparison

/-! What a comparison of two constants is read as. -/

inductive Grammar.Compares : String → Comparison → Prop
  | eq : Compares "=" .eq
  | ne {operator : String} (hmem : operator ∈ ["<>", "!="]) : Compares operator .ne
  | ordering {operator : String} {comparison : Comparison}
      (horders : Orders operator comparison) : Compares operator comparison

open Grammar (Compares Derives)

theorem Grammar.Compares.mem {operator : String} {comparison : Comparison}
    (h : Compares operator comparison) : operator ∈ comparisonOperators := by
  cases h with
  | eq => decide
  | ne hmem =>
      simp only [List.mem_cons, List.not_mem_nil, or_false] at hmem
      rcases hmem with rfl | rfl <;> decide
  | ordering horders => cases horders <;> decide

section Constant

variable {ω : Type} [HostObject ω] {operator : String} {comparison : Comparison}
  {first second : Symbol} {left right coerced : Literal} {holds : Bool}

theorem evaluate_constant {object : ω}
    (hholds : Value.compare comparison (left.value : Value ω) right.value = .ok holds) :
    (Expr.compare comparison (.literal left) (.literal right)).evaluate object =
      .ok (.bool holds) := by
  rw [Expr.evaluate_compare]
  simp only [Expr.evaluate_literal, bind, Except.bind, hholds]
  rfl

/-- Of two constants the comparison is derived, and holds as that of their values does. -/
theorem exists_constant (registry : Registry ω) (root : HostType)
    (hcompares : Compares operator comparison) (hfirst : first.Denotes left)
    (hsecond : second.Denotes right) (hcoerce : right.coerce left.type = .ok coerced)
    (hholds : Value.compare comparison (left.value : Value ω) coerced.value = .ok holds) :
    ∃ expr : Expr ω, expr.type.value = .bool ∧
      (∃ depth ≤ Grammar.maxDepth, Derives registry root .disjunction
        [first, .operator operator, second] expr depth) ∧
      ∀ object, expr.evaluate object = .ok (.bool holds) := by
  have hleft : Derives registry root .negation [first] (.literal left) 0 :=
    .operand (.literal hfirst)
  have hright : Derives registry root .comparison [second] (.literal right) 0 :=
    .negation (.operand (.literal hsecond))
  have hequal (htext : operator ∈ ["=", "<>", "!="]) :
      Derives registry root .disjunction [first, .operator operator, second]
        (Grammar.equality operator (.literal left) (.literal coerced)) (max 0 0) :=
    .conjunction (.equality (.equal (.negation hleft) htext hright (.literal hcoerce)))
  cases hcompares with
  | eq =>
      refine ⟨_, rfl, ⟨_, Nat.zero_le _, hequal (by decide)⟩, fun object => ?_⟩
      exact evaluate_constant hholds
  | ne hmem =>
      have hne : operator ≠ "=" := by
        rintro rfl
        revert hmem
        decide
      have heq := Value.compare_ne_eq_ok_iff.mp hholds
      refine ⟨_, ?_, ⟨_, Nat.zero_le _, hequal (List.mem_cons_of_mem _ hmem)⟩,
        fun object => ?_⟩
      · rw [Grammar.equality, if_neg hne]
        rfl
      · rw [Grammar.equality, if_neg hne, Expr.evaluate_not, evaluate_constant heq]
        simp only [bind, Except.bind, Value.truth, Bool.not_not]
        rfl
  | ordering horders =>
      refine ⟨_, rfl, ⟨_, ?_, .conjunction (.equality (.comparison
        (.ordering hleft horders hright (.literal hcoerce))))⟩, fun object => ?_⟩
      · decide
      · exact evaluate_constant hholds

end Constant

/-! The filters. -/

/-- Under every registry and root the text is a filter that answers every object alike. -/
def Answers (ω : Type) [HostObject ω] (text : String) (holds : Bool) : Prop :=
  ∀ (registry : Registry ω) (root : HostType), ∃ filter,
    Filter.compile registry root text = .ok filter ∧
      ∀ object, filter.body.evaluate object = .ok (.bool holds) ∧
        filter.test object = .ok holds

/-- The texts that compare two numerals, with blanks around the operator or without. -/
inductive NumeralComparison (comparison : Comparison) (first second : String) :
    String → Prop
  | blanks {before operator after : String} (hfirst : IsNumeral first)
      (hoperator : Compares operator comparison) (hsecond : IsNumeral second)
      (hbefore : ∀ c ∈ before.toList, Text.isBlank c = true)
      (hafter : ∀ c ∈ after.toList, Text.isBlank c = true) :
      NumeralComparison comparison first second
        (first ++ before ++ operator ++ after ++ second)

theorem Grammar.Used.decodes {text : String} (h : Used ⟨.number, text⟩) :
    Decimal.Decodes text := by
  cases h with
  | literal hliteral =>
      obtain ⟨number, hread, -⟩ := Symbol.denotes_number_iff.mp hliteral
      exact ⟨number, hread⟩

namespace NumeralComparison

variable {comparison : Comparison} {first second text : String}

theorem isNumeral (h : NumeralComparison comparison first second text) :
    IsNumeral first ∧ IsNumeral second := by
  cases h with
  | blanks hfirst _ hsecond => exact ⟨hfirst, hsecond⟩

theorem exists_symbols (h : NumeralComparison comparison first second text) :
    ∃ operator, Compares operator comparison ∧ Grammar.symbols text =
      [⟨.number, first⟩, .operator operator, ⟨.number, second⟩] := by
  cases h with
  | blanks hfirst hoperator hsecond hbefore hafter =>
      exact ⟨_, hoperator,
        symbols_comparison hfirst hsecond hoperator.mem hbefore hafter⟩

variable {ω : Type} [HostObject ω]

/-- Such a filter compares what the numerals are read as. -/
theorem exists_answer (h : NumeralComparison comparison first second text)
    {left right : Decimal} (hleft : Decimal.parse first.toList = .ok left)
    (hright : Decimal.parse second.toList = .ok right) :
    ∃ holds, Answers ω text holds ∧
      (holds = true ↔ comparison.Between left.value right.value) := by
  obtain ⟨operator, hcompares, hsymbols⟩ := h.exists_symbols
  refine ⟨comparison.holds (left.compare right), fun registry root => ?_, ?_⟩
  · obtain ⟨expr, hbool, hderives, hvalue⟩ := exists_constant registry root hcompares
      (.number hleft) (.number hright) (Literal.coerce_of_type_eq rfl rfl) rfl
    rw [← hsymbols] at hderives
    refine ⟨⟨root, expr⟩, ?_, fun object => ⟨hvalue object, ?_⟩⟩
    · exact Filter.compile_eq_ok.mpr ⟨rfl, Grammar.parse_eq_ok_iff.mpr ⟨hbool, hderives⟩⟩
    · rw [Filter.test, hvalue]
      rfl
  · rw [left.compare_eq_compare_value, Comparison.holds_compare_iff]

/-- It is accepted where both numerals are read. -/
theorem accepted_iff (h : NumeralComparison comparison first second text)
    (registry : Registry ω) (root : HostType) :
    (∃ filter, Filter.compile registry root text = .ok filter) ↔
      Decimal.Decodes first ∧ Decimal.Decodes second := by
  obtain ⟨operator, hcompares, hsymbols⟩ := h.exists_symbols
  constructor
  · rintro ⟨filter, hfilter⟩
    obtain ⟨-, depth, -, hderives⟩ :=
      Grammar.parse_eq_ok_iff.mp (Filter.compile_eq_ok.mp hfilter).2
    have hused := hderives.used
    rw [hsymbols] at hused
    exact ⟨(hused _ (by simp)).decodes, (hused _ (by simp)).decodes⟩
  · rintro ⟨⟨left, hleft⟩, right, hright⟩
    obtain ⟨holds, hanswers, -⟩ : ∃ holds, Answers ω text holds ∧ _ :=
      h.exists_answer hleft hright
    obtain ⟨filter, hfilter, -⟩ := hanswers registry root
    exact ⟨filter, hfilter⟩

end NumeralComparison

/-- The laws of filters that compare two numerals. -/
structure NumeralLaws (ω : Type) [HostObject ω] : Prop where
  /-- Where no digit is left out the rationals are compared that are written. -/
  fits (comparison : Comparison) (first second text : String) :
    NumeralComparison comparison first second text → Decimal.Fits first.toList →
      Decimal.Fits second.toList →
        ∃ holds, Answers ω text holds ∧
          (holds = true ↔ comparison.Between (Decimal.exactValue first.toList)
            (Decimal.exactValue second.toList))
  /-- Rounding does not reverse the order. -/
  le (first second text : String) :
    NumeralComparison .le first second text → Decimal.Decodes first → Decimal.Decodes second →
      Decimal.exactValue first.toList ≤ Decimal.exactValue second.toList →
        Answers ω text true
  accepted (comparison : Comparison) (first second text : String) (registry : Registry ω)
      (root : HostType) :
    NumeralComparison comparison first second text →
      ((∃ filter, Filter.compile registry root text = .ok filter) ↔
        Decimal.Decodes first ∧ Decimal.Decodes second)
  tooManyDigits (text : String) :
    IsNumeral text → (Decimal.parse text.toList = .error .tooManyDigits ↔
      Decimal.maxCoefficient < Text.digitsValue (Decimal.wholeDigits text.toList))
  roundingOverflow (text : String) :
    IsNumeral text → (Decimal.parse text.toList = .error .roundingOverflow ↔
      Text.digitsValue (Decimal.wholeDigits text.toList) ≤ Decimal.maxCoefficient ∧
        Decimal.maxCoefficient < round (Decimal.exactValue text.toList))
  undecoded (text : String) :
    IsNumeral text → (¬ Decimal.Decodes text ↔
      Decimal.maxCoefficient < Text.digitsValue (Decimal.wholeDigits text.toList) ∨
        Decimal.maxCoefficient < round (Decimal.exactValue text.toList))

theorem numeralLaws (ω : Type) [HostObject ω] : NumeralLaws ω where
  fits comparison first second text h hfirst hsecond := by
    obtain ⟨left, hleft, hleftValue⟩ :=
      Decimal.exists_parse_of_isNumeral h.isNumeral.1 hfirst
    obtain ⟨right, hright, hrightValue⟩ :=
      Decimal.exists_parse_of_isNumeral h.isNumeral.2 hsecond
    rw [← hleftValue, ← hrightValue]
    exact h.exists_answer hleft hright
  le first second text h hfirst hsecond hle := by
    obtain ⟨left, hleft⟩ := hfirst
    obtain ⟨right, hright⟩ := hsecond
    have hfirstReading := Decimal.reading_of_isNumeral h.isNumeral.1
    have hsecondReading := Decimal.reading_of_isNumeral h.isNumeral.2
    rw [hleft] at hfirstReading
    rw [hright] at hsecondReading
    obtain ⟨holds, hanswers, hholds⟩ : ∃ holds, Answers ω text holds ∧ _ :=
      h.exists_answer hleft hright
    rwa [hholds.mpr (hfirstReading.rounded_of_ok.mono hsecondReading.rounded_of_ok hle)]
      at hanswers
  accepted comparison first second text registry root h := h.accepted_iff registry root
  tooManyDigits text h := (Decimal.reading_of_isNumeral h).eq_tooManyDigits_iff
  roundingOverflow text h := (Decimal.reading_of_isNumeral h).eq_roundingOverflow_iff
  undecoded text h := by
    rw [Decimal.Decodes, (Decimal.reading_of_isNumeral h).exists_ok_iff, not_and_or, not_le,
      not_le]

/-- Zeros in front and at the end, numerals that are rounded, and one past the bound. -/
theorem numeralLaws_sample :
    Answers Sample.Item "007.50= 7.5" true ∧
      Answers Sample.Item
        "0.33333333333333333333333333333<=0.33333333333333333333333333334" true ∧
      ¬ Decimal.Decodes "79228162514264337593543950335.5" := by
  have laws := numeralLaws Sample.Item
  have hblank : ∀ c ∈ " ".toList, Text.isBlank c = true :=
    List.all_eq_true.mp (by decide)
  have hzeros : NumeralComparison .eq "007.50" "7.5" ("007.50" ++ "" ++ "=" ++ " " ++ "7.5") :=
    .blanks (isNumeral_of_head (by decide +kernel)) .eq
      (isNumeral_of_head (by decide +kernel)) nofun hblank
  have hthirds : NumeralComparison .le "0.33333333333333333333333333333"
      "0.33333333333333333333333333334" ("0.33333333333333333333333333333" ++ "" ++ "<=" ++
        "" ++ "0.33333333333333333333333333334") :=
    .blanks (isNumeral_of_head (by decide +kernel)) (.ordering .le)
      (isNumeral_of_head (by decide +kernel)) nofun nofun
  refine ⟨?_, ?_, ?_⟩
  · obtain ⟨holds, hanswers, hholds⟩ := laws.fits _ _ _ _ hzeros
      ⟨by decide +kernel, by decide +kernel⟩ ⟨by decide +kernel, by decide +kernel⟩
    have hequal : Decimal.exactValue "007.50".toList = Decimal.exactValue "7.5".toList := by
      decide +kernel
    rwa [hholds.mpr hequal] at hanswers
  · exact laws.le _ _ _ hthirds ⟨_, rfl⟩ ⟨_, rfl⟩ (by decide +kernel)
  · exact (laws.undecoded _ (isNumeral_of_head (by decide +kernel))).mpr
      (.inr (by decide +kernel))

end Sift
