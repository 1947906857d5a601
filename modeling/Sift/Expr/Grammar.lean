import Sift.Expr
import Sift.ParseError
import Sift.Registry

namespace Sift

/-! The grammar of filters, loosest rule first:

    disjunction = conjunction (("or" | ",") disjunction)?
    conjunction = equality (("and" | ";") conjunction)?
    equality    = comparison (("=" | "<>" | "!=") comparison)?
    comparison  = negation ((">" | "<" | ">=" | "<=") comparison)?
    negation    = "!" negation | operand
    operand     = literal | "(" disjunction ")" | path
    path        = identifier (("." | "?.") identifier)*

Expressions are typed as they are read. -/

namespace Grammar

structure Scope (ω : Type) where
  registry : Registry ω
  root : HostType
  finish : Nat

abbrev Reader (ω : Type) :=
  List Token → Except ParseError (Expr ω × List Token)

/-- The rules that contain themselves, directly or through parentheses. -/
inductive Rule where
  | disjunction
  | conjunction
  | comparison
  | negation
deriving DecidableEq

abbrev NestedReader (ω : Type) :=
  Rule → Nat → Reader ω

def fault {α : Type} (offset : Nat) (cause : ParseError.Cause) :
    Except ParseError α :=
  .error ⟨offset, cause⟩

variable {ω : Type}

def Scope.offset (scope : Scope ω) : List Token → Nat
  | token :: _ => token.offset
  | [] => scope.finish

def operator? (operators : List String) : List Token → Option (Token × List Token)
  | token :: rest =>
      if operators.any token.isOperator then some (token, rest) else none
  | [] => none

def ordering? : List Token → Option (Comparison × List Token)
  | token :: rest =>
      if token.isOperator ">" then some (.gt, rest)
      else if token.isOperator "<" then some (.lt, rest)
      else if token.isOperator ">=" then some (.ge, rest)
      else if token.isOperator "<=" then some (.le, rest)
      else none
  | [] => none

def expectBool (expr : Expr ω) (offset : Nat) : Except ParseError (Expr ω) :=
  if expr.type.value = .bool then .ok expr
  else fault offset (.operandNotBool expr.type)

/-- A literal on the right takes the type of the left operand. -/
def coerceRight (right : Expr ω) (target : StaticType) (offset : Nat) :
    Except ParseError (Expr ω) :=
  match right with
  | .literal literal =>
      match literal.coerce target with
      | .ok literal => .ok (.literal literal)
      | .error cause => fault offset (.coercion cause)
  | right => .ok right

namespace Scope

def resolve (scope : Scope ω) (base : Expr ω) (identifier : Token)
    (nullSafe : Bool) : Except ParseError (Expr ω) :=
  let found := do
    let owner ← base.type.object?
    scope.registry.lookup? owner identifier.text
  match found with
  | some member => .ok (.member base member nullSafe)
  | none =>
      fault identifier.offset
        (.unrecognizedMember identifier.text base.type.value)

def path (scope : Scope ω) (base : Expr ω) : Reader ω
  | separator :: identifier :: rest =>
      if separator.isOperator "." || separator.isOperator "?." then
        if identifier.kind = .identifier then do
          let base ← scope.resolve base identifier (separator.text = "?.")
          scope.path base rest
        else fault identifier.offset .expectedIdentifier
      else .ok (base, separator :: identifier :: rest)
  | [separator] =>
      if separator.isOperator "." || separator.isOperator "?." then
        fault scope.finish .expectedIdentifier
      else .ok (base, [separator])
  | [] => .ok (base, [])

def operand (scope : Scope ω) (nested : NestedReader ω) : Reader ω
  | [] => fault scope.finish .expectedIdentifier
  | token :: rest =>
      match token.kind with
      | .number =>
          match Decimal.parse token.text.toList with
          | .ok number => .ok (.literal (.number number), rest)
          | .error cause => fault token.offset (.number token.text cause)
      | .true => .ok (.literal (.bool true), rest)
      | .false => .ok (.literal (.bool false), rest)
      | .null => .ok (.literal (.null .null), rest)
      | .string =>
          let text := Text.Quoted.decode token.text.toList
          .ok (.literal (.string (String.ofList text)), rest)
      | .dateTime =>
          match Timestamp.parse token.text.toList with
          | .ok timestamp => .ok (.literal (.timestamp timestamp), rest)
          | .error cause => fault token.offset (.timestamp token.text cause)
      | .identifier => do
          let first ← scope.resolve (.root scope.root) token false
          scope.path first rest
      | .operator =>
          if token.text = "(" then do
            let (inner, rest) ← nested .disjunction token.offset rest
            match operator? [")"] rest with
            | some (_, rest) => .ok (inner, rest)
            | none => fault (scope.offset rest) .expectedClosing
          else fault token.offset .expectedIdentifier
      | .malformed | .blank | .finish => fault token.offset .expectedIdentifier

def negation (scope : Scope ω) (nested : NestedReader ω) : Reader ω := fun tokens =>
  match operator? ["!"] tokens with
  | none => scope.operand nested tokens
  | some (_, tokens) => do
      let start := scope.offset tokens
      let (operand, tokens) ← nested .negation start tokens
      let operand ← expectBool operand start
      return (.not operand, tokens)

def comparison (scope : Scope ω) (nested : NestedReader ω) : Reader ω :=
  fun tokens => do
    let (left, tokens) ← scope.negation nested tokens
    match ordering? tokens with
    | none => return (left, tokens)
    | some (comparison, tokens) =>
        let start := scope.offset tokens
        let (right, tokens) ← nested .comparison start tokens
        let right ← coerceRight right left.type start
        return (.compare comparison left right, tokens)

def equality (scope : Scope ω) (nested : NestedReader ω) : Reader ω :=
  fun tokens => do
    let (left, tokens) ← scope.comparison nested tokens
    match operator? ["=", "<>", "!="] tokens with
    | none => return (left, tokens)
    | some (operator, tokens) =>
        let start := scope.offset tokens
        let (right, tokens) ← scope.comparison nested tokens
        let right ← coerceRight right left.type start
        let equal := Expr.compare .eq left right
        return (if operator.text = "=" then equal else .not equal, tokens)

/-- A chain of one connective, read to the right. -/
def connection (scope : Scope ω) (connective : Connective) (operators : List String)
    (inner : Reader ω) (outer : Nat → Reader ω) : Reader ω :=
  fun tokens => do
    let start := scope.offset tokens
    let (left, tokens) ← inner tokens
    match operator? operators tokens with
    | none => return (left, tokens)
    | some (_, tokens) =>
        let left ← expectBool left start
        let start := scope.offset tokens
        let (right, tokens) ← outer start tokens
        let right ← expectBool right start
        return (.connect connective left right, tokens)

def conjunction (scope : Scope ω) (nested : NestedReader ω) : Reader ω :=
  scope.connection .and ["and", ";"] (scope.equality nested) (nested .conjunction)

def disjunction (scope : Scope ω) (nested : NestedReader ω) : Reader ω :=
  scope.connection .or ["or", ","] (scope.conjunction nested) (nested .disjunction)

def rule (scope : Scope ω) (nested : NestedReader ω) : Rule → Reader ω
  | .disjunction => scope.disjunction nested
  | .conjunction => scope.conjunction nested
  | .comparison => scope.comparison nested
  | .negation => scope.negation nested

/-- Reads expressions nested at most `depth` deep. -/
def nested (scope : Scope ω) : Nat → NestedReader ω
  | 0 => fun _ offset _ => fault offset .nestedTooDeeply
  | depth + 1 => fun rule _ => scope.rule (scope.nested depth) rule

end Scope

/-- The greatest depth to which groups, negations and chains of operators nest. -/
def maxDepth : Nat := 256

def parseTokens (scope : Scope ω) (tokens : List Token) :
    Except ParseError (Expr ω) := do
  let (expr, rest) ← scope.disjunction (scope.nested maxDepth) tokens
  match rest with
  | token :: _ => fault token.offset .expectedFinish
  | [] =>
      if expr.type.value = .bool then .ok expr
      else fault 0 (.filterNotBool expr.type)

/-- The tokens that the grammar is about: neither blanks nor the end. -/
def significant (tokens : List Token) : List Token :=
  tokens.filter fun token => token.kind ≠ .blank ∧ token.kind ≠ .finish

end Grammar

namespace Registry

variable {ω : Type}

open Grammar

def parse (registry : Registry ω) (root : HostType) (text : String) :
    Except ParseError (Expr ω) :=
  let tokens := tokenize text
  match tokens.find? fun token => token.kind = .malformed with
  | some token => fault token.offset (.malformed token.text)
  | none =>
      parseTokens { registry := registry, root := root, finish := text.utf8ByteSize }
        (significant tokens)

end Registry

end Sift
