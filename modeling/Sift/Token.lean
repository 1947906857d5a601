namespace Sift

/-! Tokens of a filter text. -/

inductive TokenKind where
  /-- A run of characters that begin no other token. -/
  | malformed
  | blank
  | identifier
  | number
  | operator
  | true
  | false
  | null
  | string
  | dateTime
  | finish
deriving DecidableEq, Repr

structure Token where
  kind : TokenKind
  text : String
  /-- Bytes of the source before the token. -/
  offset : Nat
deriving DecidableEq

namespace Token

/-- Tokens are equal when they are spelled alike, wherever they stand. -/
instance : BEq Token where
  beq first second := first.text == second.text

instance : Hashable Token where
  hash token := hash token.text

def length (token : Token) : Nat :=
  token.text.utf8ByteSize

def isEmpty (token : Token) : Bool :=
  token.text.isEmpty

def isOperator (token : Token) (text : String) : Bool :=
  token.kind = .operator && token.text = text

theorem hash_eq_of_beq {first second : Token} (h : first == second) :
    hash first = hash second := by
  have htext : first.text = second.text := beq_iff_eq.mp h
  change hash first.text = hash second.text
  rw [htext]

end Token

end Sift
