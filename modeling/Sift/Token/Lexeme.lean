import Sift.Text.Blank
import Sift.Text.Quoted
import Sift.Timestamp.Written
import Sift.Token

namespace Sift

/-! The lexeme at the front of a text: its kind and its length in characters. -/

structure Lexeme where
  kind : TokenKind
  length : Nat
deriving DecidableEq

namespace Lexeme

def blanks? (cs : List Char) : Option Lexeme :=
  let length := (cs.takeWhile Text.isBlank).length
  if length = 0 then none else some ⟨.blank, length⟩

def dateTime? (cs : List Char) : Option Lexeme :=
  (Timestamp.Written.read? cs).map fun (_, length) => ⟨.dateTime, length⟩

/-- Digits with an optional fraction. A point without a digit after it spoils the
numeral. -/
def number? (cs : List Char) : Option Lexeme :=
  let whole := (cs.takeWhile Char.isDigit).length
  if whole = 0 then none
  else
    match cs.drop whole with
    | '.' :: fraction =>
        let places := (fraction.takeWhile Char.isDigit).length
        if places = 0 then some ⟨.malformed, whole + 1⟩
        else some ⟨.number, whole + 1 + places⟩
    | _ => some ⟨.number, whole⟩

def isWordStart (c : Char) : Bool :=
  c.isAlpha || c = '_'

def isWordChar (c : Char) : Bool :=
  c.isAlphanum || c = '_'

def operators : List String :=
  ["=", "!=", "<>", ">", "<", ">=", "<=", "in", "!", "and", "or", "(", ")", ".",
    "?.", ",", ";", "-"]

def operatorChars : List Char :=
  ['=', '!', '<', '>', 'i', 'n', 'a', 'd', 'o', 'r', '(', ')', '.', '?', ',', ';', '-']

def longestOperator : Nat := 3

/-- An operator that ends in a letter counts only where the word ends with it. -/
def isOperator (candidate : List Char) (next : Option Char) : Bool :=
  operators.contains (String.ofList candidate) &&
    !(candidate.getLast?.any Char.isAlpha && next.any isWordChar)

/-- The longest operator among the prefixes of the leading operator characters, of
which no more than the length of an operator are looked at. -/
def operator? (cs : List Char) : Option Lexeme :=
  let run := (cs.take longestOperator).takeWhile operatorChars.contains
  let lengths := (List.range' 1 run.length).reverse
  (lengths.find? fun length => isOperator (cs.take length) cs[length]?).map
    fun length => ⟨.operator, length⟩

def wordKind (word : List Char) : TokenKind :=
  if word = "true".toList then .true
  else if word = "false".toList then .false
  else if word = "null".toList then .null
  else .identifier

def word? : List Char → Option Lexeme
  | c :: cs =>
      if isWordStart c then
        let word := c :: cs.takeWhile isWordChar
        some ⟨wordKind word, word.length⟩
      else none
  | [] => none

/-- Quoted text. When it is not closed the whole rest of the text is spoiled. -/
def quoted? : List Char → Option Lexeme
  | c :: cs =>
      if Text.Quoted.isQuote c then
        match Text.Quoted.closing? c cs with
        | some length => some ⟨.string, length + 1⟩
        | none => some ⟨.malformed, cs.length + 1⟩
      else none
  | [] => none

/-- The rules in the order in which they are tried. -/
def rules : List (List Char → Option Lexeme) :=
  [blanks?, dateTime?, number?, operator?, word?, quoted?]

/-- The first rule that applies decides. Where none does, one character is
malformed. -/
def scan (cs : List Char) : Lexeme :=
  (rules.findSome? fun rule => rule cs).getD ⟨.malformed, 1⟩

/-! A lexeme has at least one character. -/

theorem length_pos_of_blanks? {cs : List Char} {lexeme : Lexeme}
    (h : blanks? cs = some lexeme) : 0 < lexeme.length := by
  simp only [blanks?] at h
  split at h <;> cases h
  exact Nat.pos_of_ne_zero ‹_›

theorem length_pos_of_dateTime? {cs : List Char} {lexeme : Lexeme}
    (h : dateTime? cs = some lexeme) : 0 < lexeme.length := by
  simp only [dateTime?, Option.map_eq_some_iff] at h
  obtain ⟨⟨written, length⟩, hread, rfl⟩ := h
  exact Timestamp.Written.length_pos_of_read? hread

theorem length_pos_of_number? {cs : List Char} {lexeme : Lexeme}
    (h : number? cs = some lexeme) : 0 < lexeme.length := by
  simp only [number?] at h
  split at h
  · cases h
  · rename_i hwhole
    split at h
    · split at h <;> cases h <;> simp only <;> omega
    · cases h
      exact Nat.pos_of_ne_zero hwhole

theorem length_pos_of_operator? {cs : List Char} {lexeme : Lexeme}
    (h : operator? cs = some lexeme) : 0 < lexeme.length := by
  simp only [operator?, Option.map_eq_some_iff] at h
  obtain ⟨length, hfound, rfl⟩ := h
  have hmem := List.mem_of_find?_eq_some hfound
  simp only [List.mem_reverse, List.mem_range'_1] at hmem
  exact hmem.1

theorem length_pos_of_word? {cs : List Char} {lexeme : Lexeme}
    (h : word? cs = some lexeme) : 0 < lexeme.length := by
  unfold word? at h
  split at h
  · split at h <;> cases h
    simp
  · cases h

theorem length_pos_of_quoted? {cs : List Char} {lexeme : Lexeme}
    (h : quoted? cs = some lexeme) : 0 < lexeme.length := by
  unfold quoted? at h
  split at h
  · split at h
    · split at h <;> cases h <;> simp
    · cases h
  · cases h

theorem scan_length_pos (cs : List Char) : 0 < (scan cs).length := by
  unfold scan
  cases hfound : rules.findSome? (fun rule => rule cs) with
  | none => simp
  | some lexeme =>
      obtain ⟨rule, hrule, hlexeme⟩ := List.exists_of_findSome?_eq_some hfound
      simp only [rules, List.mem_cons, List.not_mem_nil, or_false] at hrule
      rcases hrule with rfl | rfl | rfl | rfl | rfl | rfl
      · exact length_pos_of_blanks? hlexeme
      · exact length_pos_of_dateTime? hlexeme
      · exact length_pos_of_number? hlexeme
      · exact length_pos_of_operator? hlexeme
      · exact length_pos_of_word? hlexeme
      · exact length_pos_of_quoted? hlexeme

end Lexeme

end Sift
