import Sift.Expr.Grammar

namespace Sift

/-! Derivations of the grammar. They are about symbols: tokens without the places at
which they stand. -/

structure Symbol where
  kind : TokenKind
  text : String
deriving DecidableEq

def Token.symbol (token : Token) : Symbol :=
  ⟨token.kind, token.text⟩

namespace Symbol

def operator (text : String) : Symbol :=
  ⟨.operator, text⟩

def identifier (name : String) : Symbol :=
  ⟨.identifier, name⟩

theorem isOperator_iff {token : Token} {text : String} :
    token.isOperator text = true ↔ token.symbol = operator text := by
  simp [Token.isOperator, Token.symbol, operator]

theorem isIdentifier_iff {token : Token} :
    token.kind = .identifier ↔ token.symbol = identifier token.text := by
  simp [Token.symbol, identifier]

inductive Denotes : Symbol → Literal → Prop
  | number {text : String} {number : Decimal}
      (hread : Decimal.parse text.toList = .ok number) :
      Denotes ⟨.number, text⟩ (.number number)
  | true {text : String} : Denotes ⟨.true, text⟩ (.bool true)
  | false {text : String} : Denotes ⟨.false, text⟩ (.bool false)
  | null {text : String} : Denotes ⟨.null, text⟩ (.null .null)
  | string {text : String} :
      Denotes ⟨.string, text⟩
        (.string (String.ofList (Text.Quoted.decode text.toList)))
  | dateTime {text : String} {timestamp : Timestamp}
      (hread : Timestamp.parse text.toList = .ok timestamp) :
      Denotes ⟨.dateTime, text⟩ (.timestamp timestamp)

end Symbol

namespace Grammar

open Sift.Symbol (operator identifier)

variable {ω : Type} (registry : Registry ω) (root : HostType)

/-- A path of members. Each name is looked up among the members of the type that the
path before it has. -/
inductive Path : List Symbol → Expr ω → Prop
  | first {name : String} {member : Member ω}
      (hmember : registry.lookup? root name = some member) :
      Path [identifier name] (.member (.root root) member false)
  | next {symbols : List Symbol} {base : Expr ω} {separator name : String}
      {owner : HostType} {member : Member ω}
      (hbase : Path symbols base)
      (hseparator : separator = "." ∨ separator = "?.")
      (howner : base.type.value = .object owner)
      (hmember : registry.lookup? owner name = some member) :
      Path (symbols ++ [operator separator, identifier name])
        (.member base member (separator = "?."))

/-- The right operand of a comparison as it was read, and as it is compared. -/
inductive Coerced (target : StaticType) : Expr ω → Expr ω → Prop
  | literal {literal coerced : Literal}
      (hcoerce : literal.coerce target = .ok coerced) :
      Coerced target (.literal literal) (.literal coerced)
  | other {expr : Expr ω} (hother : ∀ literal, expr ≠ .literal literal) :
      Coerced target expr expr

inductive Level where
  | disjunction
  | conjunction
  | equality
  | comparison
  | negation
  | operand
deriving DecidableEq

inductive Orders : String → Comparison → Prop
  | gt : Orders ">" .gt
  | lt : Orders "<" .lt
  | ge : Orders ">=" .ge
  | le : Orders "<=" .le

def equality (text : String) (left right : Expr ω) : Expr ω :=
  if text = "=" then .compare .eq left right else .not (.compare .eq left right)

/-- The symbols form the expression by the rule, nested as deep as the number tells.
Groups, negations and right operands count, but for the right operand of an
equality. -/
inductive Derives : Level → List Symbol → Expr ω → Nat → Prop
  | literal {symbol : Symbol} {literal : Literal}
      (hliteral : symbol.Denotes literal) :
      Derives .operand [symbol] (.literal literal) 0
  | path {symbols : List Symbol} {expr : Expr ω}
      (hpath : Path registry root symbols expr) :
      Derives .operand symbols expr 0
  | group {symbols : List Symbol} {expr : Expr ω} {depth : Nat}
      (hinner : Derives .disjunction symbols expr depth) :
      Derives .operand (operator "(" :: symbols ++ [operator ")"]) expr (depth + 1)
  | operand {symbols : List Symbol} {expr : Expr ω} {depth : Nat}
      (hoperand : Derives .operand symbols expr depth) :
      Derives .negation symbols expr depth
  | not {symbols : List Symbol} {operand : Expr ω} {depth : Nat}
      (hoperand : Derives .negation symbols operand depth)
      (hbool : operand.type.value = .bool) :
      Derives .negation (operator "!" :: symbols) (.not operand) (depth + 1)
  | negation {symbols : List Symbol} {expr : Expr ω} {depth : Nat}
      (hnegation : Derives .negation symbols expr depth) :
      Derives .comparison symbols expr depth
  | ordering {first second : List Symbol} {left read right : Expr ω}
      {text : String} {comparison : Comparison} {leftDepth rightDepth : Nat}
      (hleft : Derives .negation first left leftDepth)
      (hoperator : Orders text comparison)
      (hright : Derives .comparison second read rightDepth)
      (hcoerced : Coerced left.type read right) :
      Derives .comparison (first ++ operator text :: second)
        (.compare comparison left right) (max leftDepth (rightDepth + 1))
  | comparison {symbols : List Symbol} {expr : Expr ω} {depth : Nat}
      (hcomparison : Derives .comparison symbols expr depth) :
      Derives .equality symbols expr depth
  | equal {first second : List Symbol} {left read right : Expr ω} {text : String}
      {leftDepth rightDepth : Nat}
      (hleft : Derives .comparison first left leftDepth)
      (hoperator : text ∈ ["=", "<>", "!="])
      (hright : Derives .comparison second read rightDepth)
      (hcoerced : Coerced left.type read right) :
      Derives .equality (first ++ operator text :: second)
        (equality text left right) (max leftDepth rightDepth)
  | equality {symbols : List Symbol} {expr : Expr ω} {depth : Nat}
      (hequality : Derives .equality symbols expr depth) :
      Derives .conjunction symbols expr depth
  | and {first second : List Symbol} {left right : Expr ω} {text : String}
      {leftDepth rightDepth : Nat}
      (hleft : Derives .equality first left leftDepth)
      (hleftBool : left.type.value = .bool)
      (hoperator : text ∈ ["and", ";"])
      (hright : Derives .conjunction second right rightDepth)
      (hrightBool : right.type.value = .bool) :
      Derives .conjunction (first ++ operator text :: second)
        (.connect .and left right) (max leftDepth (rightDepth + 1))
  | conjunction {symbols : List Symbol} {expr : Expr ω} {depth : Nat}
      (hconjunction : Derives .conjunction symbols expr depth) :
      Derives .disjunction symbols expr depth
  | or {first second : List Symbol} {left right : Expr ω} {text : String}
      {leftDepth rightDepth : Nat}
      (hleft : Derives .conjunction first left leftDepth)
      (hleftBool : left.type.value = .bool)
      (hoperator : text ∈ ["or", ","])
      (hright : Derives .disjunction second right rightDepth)
      (hrightBool : right.type.value = .bool) :
      Derives .disjunction (first ++ operator text :: second)
        (.connect .or left right) (max leftDepth (rightDepth + 1))

def symbols (text : String) : List Symbol :=
  (significant (tokenize text)).map Token.symbol

end Grammar

end Sift
