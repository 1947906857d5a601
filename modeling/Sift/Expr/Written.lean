import Sift.Expr

namespace Sift.Expr

/-! The written form of an expression. Every comparison and connection stands in
parentheses. -/

variable {ω : Type}

def writtenInfix (left : List Char) (operator : String) (right : List Char) :
    List Char :=
  '(' :: left ++ ' ' :: operator.toList ++ ' ' :: right ++ [')']

def written : Expr ω → List Char
  | literal value => value.written
  | root _ => []
  | member (root _) read _ => read.name.toList
  | member base read nullSafe =>
      base.written ++ (if nullSafe then "?." else ".").toList ++ read.name.toList
  | compare comparison left right =>
      writtenInfix left.written comparison.text right.written
  | connect connective left right =>
      writtenInfix left.written connective.text right.written
  | not operand => '!' :: operand.written

def text (expr : Expr ω) : String :=
  String.ofList expr.written

end Sift.Expr
