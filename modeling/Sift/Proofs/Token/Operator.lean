import Sift.Proofs.Token.Lookahead

namespace Sift.Lexeme

/-! The operator that a text begins with is the longest one. The run of operator characters
may be as long as it likes: what is past the length of an operator makes no difference. -/

/-- The longest of the prefixes up to a length that is an operator, tried from the
longest. -/
def cutBack? (cs : List Char) : Nat → Option Nat
  | 0 => none
  | length + 1 =>
      if isOperator (cs.take (length + 1)) cs[length + 1]? then some (length + 1)
      else cutBack? cs length

/-- All leading operator characters, cut back to an operator. -/
def unboundedOperator? (cs : List Char) : Option Lexeme :=
  (cutBack? cs (cs.takeWhile operatorChars.contains).length).map
    fun length => ⟨.operator, length⟩

variable {cs : List Char}

theorem find?_eq_cutBack? (cs : List Char) (bound : Nat) :
    ((List.range' 1 bound).reverse.find? fun length =>
      isOperator (cs.take length) cs[length]?) = cutBack? cs bound := by
  induction bound with
  | zero => rfl
  | succ bound ih =>
      rw [List.range'_1_concat, List.reverse_concat, List.find?_cons, Nat.add_comm 1, ih,
        cutBack?]
      split <;> simp [*]

theorem operator?_eq_cutBack? (cs : List Char) :
    operator? cs = (cutBack? cs (operatorRun cs).length).map
      fun length => ⟨.operator, length⟩ := by
  rw [operator?_eq, find?_eq_cutBack?]

theorem length_le_of_isOperator {length : Nat} {next : Option Char}
    (hlength : length ≤ cs.length) (h : isOperator (cs.take length) next = true) :
    length ≤ longestOperator := by
  obtain ⟨operator, hmem, -, rfl, -⟩ := exists_operator_of_isOperator hlength h
  exact (operators_chars operator hmem).2.1

theorem cutBack?_min {bound : Nat} (hbound : bound ≤ cs.length) :
    cutBack? cs bound = cutBack? cs (min longestOperator bound) := by
  induction bound with
  | zero => rfl
  | succ bound ih =>
      by_cases hwithin : bound + 1 ≤ longestOperator
      · rw [Nat.min_eq_right hwithin]
      · have hnone : ¬ isOperator (cs.take (bound + 1)) cs[bound + 1]? = true :=
          fun h => hwithin (length_le_of_isOperator hbound h)
        rw [cutBack?, if_neg hnone, ih (by omega), Nat.min_eq_left (by omega),
          Nat.min_eq_left (by omega)]

theorem takeWhile_take (holds : Char → Bool) (cs : List Char) (length : Nat) :
    (cs.take length).takeWhile holds = (cs.takeWhile holds).take length := by
  induction cs generalizing length with
  | nil => simp
  | cons c cs ih =>
      cases length with
      | zero => simp
      | succ length =>
          by_cases hc : holds c = true
          · simp [hc, ih]
          · simp [hc]

theorem length_operatorRun (cs : List Char) :
    (operatorRun cs).length =
      min longestOperator (cs.takeWhile operatorChars.contains).length := by
  rw [operatorRun, takeWhile_take, List.length_take]

theorem operator?_eq_unboundedOperator? (cs : List Char) :
    operator? cs = unboundedOperator? cs := by
  have hrun := (List.takeWhile_sublist (l := cs) operatorChars.contains).length_le
  rw [operator?_eq_cutBack?, unboundedOperator?, cutBack?_min hrun, length_operatorRun]

/-! Symbols, which are operators without letters. -/

def symbolicOperators : List String :=
  operators.filter fun operator => !operator.toList.any Char.isAlpha

theorem mem_symbolicOperators {operator : String} :
    operator ∈ symbolicOperators ↔
      operator ∈ operators ∧ operator.toList.any Char.isAlpha = false := by
  simp [symbolicOperators]

theorem isOperator_of_symbolic {operator : String} (h : operator ∈ symbolicOperators)
    (next : Option Char) : isOperator operator.toList next = true := by
  obtain ⟨hmem, halpha⟩ := mem_symbolicOperators.mp h
  have hlast : operator.toList.getLast?.any Char.isAlpha = false := by
    rw [Option.any_eq_false]
    intro c hc
    simpa using List.any_eq_false.mp halpha c (List.mem_of_getLast? hc)
  simp [isOperator, hlast, hmem]

theorem any_isAlpha_of_head :
    ∀ operator ∈ operators, operator.toList.head?.any Char.isAlpha = false →
      operator.toList.any Char.isAlpha = false := by
  decide

/-- A character that no rule but that of the operators reads, and that is an operator by
itself unless it is a question mark. -/
def IsSymbolChar (c : Char) : Prop :=
  Text.isBlank c = false ∧ c.isDigit = false ∧ isWordStart c = false ∧
    Text.Quoted.isQuote c = false ∧ (c = '?' ∨ String.ofList [c] ∈ operators)

instance : DecidablePred IsSymbolChar :=
  fun _ => inferInstanceAs (Decidable (_ ∧ _ ∧ _ ∧ _ ∧ _))

theorem isSymbolChar_of_mem {c : Char} (hmem : c ∈ operatorChars)
    (halpha : c.isAlpha = false) : IsSymbolChar c := by
  have hall :
      (operatorChars.all fun c => c.isAlpha = true ∨ IsSymbolChar c) = true := by
    decide +kernel
  exact (of_decide_eq_true (List.all_eq_true.mp hall c hmem)).resolve_left (by simp [halpha])

section Symbol

variable {c : Char} (hmem : c ∈ operatorChars) (halpha : c.isAlpha = false)

include hmem halpha

theorem scan_symbol (cs : List Char) :
    scan (c :: cs) = (operator? (c :: cs)).getD ⟨.malformed, 1⟩ := by
  obtain ⟨hblank, hdigit, hstart, hquote, -⟩ := isSymbolChar_of_mem hmem halpha
  have hquoted : quoted? (c :: cs) = none := by simp [quoted?, hquote]
  rw [scan_eq, blanks?_eq_none hblank, dateTime?_eq_none hdigit, number?_eq_none hdigit,
    word?_eq_none hstart, hquoted]
  simp

theorem lone_of_no_symbol {cs : List Char}
    (hnone : ∀ operator ∈ symbolicOperators, ¬ operator.toList <+: c :: cs) :
    c = '?' ∧ cs.head? ≠ some '.' := by
  have hc : c = '?' := by
    obtain ⟨-, -, -, -, hc | hoperator⟩ := isSymbolChar_of_mem hmem halpha
    · exact hc
    · have hsymbolic : String.ofList [c] ∈ symbolicOperators :=
        mem_symbolicOperators.mpr ⟨hoperator, by simpa using halpha⟩
      exact (hnone _ hsymbolic ⟨cs, by rw [String.toList_ofList]; rfl⟩).elim
  refine ⟨hc, fun hhead => ?_⟩
  obtain ⟨others, rfl⟩ := List.head?_eq_some_iff.mp hhead
  exact hnone "?." (by decide) ⟨others, by rw [hc]; rfl⟩

end Symbol

theorem no_symbol_of_operator? (h : operator? cs = none) :
    ∀ operator ∈ symbolicOperators, ¬ operator.toList <+: cs := by
  rintro operator hsymbolic ⟨rest, rfl⟩
  obtain ⟨hmem, -⟩ := mem_symbolicOperators.mp hsymbolic
  have hpos := List.length_pos_iff.mpr (operators_chars operator hmem).1
  have hwithin := le_length_operatorRun hmem rest
  rw [operator?_eq, Option.map_eq_none_iff, List.find?_eq_none] at h
  apply h operator.toList.length
  · rw [List.mem_reverse, List.mem_range'_1]
    omega
  · rw [List.take_left]
    exact isOperator_of_symbolic hsymbolic _

end Sift.Lexeme
