import Sift.Literal
import Sift.Member

namespace Sift

/-! Filter expressions. -/

inductive Comparison where
  | eq
  | ne
  | lt
  | le
  | gt
  | ge
deriving DecidableEq

namespace Comparison

def text : Comparison → String
  | eq => "="
  | ne => "!="
  | lt => "<"
  | le => "<="
  | gt => ">"
  | ge => ">="

def isOrdering : Comparison → Bool
  | eq | ne => false
  | lt | le | gt | ge => true

def holds : Comparison → Ordering → Bool
  | eq, ordering => ordering = .eq
  | ne, ordering => ordering ≠ .eq
  | lt, ordering => ordering = .lt
  | le, ordering => ordering ≠ .gt
  | gt, ordering => ordering = .gt
  | ge, ordering => ordering ≠ .lt

end Comparison

inductive Connective where
  | and
  | or
deriving DecidableEq

def Connective.text : Connective → String
  | and => "and"
  | or => "or"

inductive Expr (ω : Type) where
  | literal (literal : Literal)
  | root (type : HostType)
  /-- A member of an object. With `nullSafe` a null in place of the object ends the
  whole chain of members with null. -/
  | member (base : Expr ω) (member : Member ω) (nullSafe : Bool)
  | compare (comparison : Comparison) (left right : Expr ω)
  | connect (connective : Connective) (left right : Expr ω)
  | not (operand : Expr ω)

namespace Expr

variable {ω : Type}

/-- A null may end the chain of members early. -/
def inNullSafeChain : Expr ω → Bool
  | member base _ nullSafe => nullSafe || base.inNullSafeChain
  | _ => false

-- The type of a path is not kept with its last member. It is told each time by that member
-- and by whether a null may end the path, and a path does not change once it is built.
def type : Expr ω → StaticType
  | literal value => value.type
  | root host => .of (.object host)
  | member base read nullSafe =>
      if nullSafe || base.inNullSafeChain then read.type.toNullable else read.type
  | compare .. | connect .. | not _ => .bool

def same [HostObject ω] : Expr ω → Expr ω → Bool
  | literal first, literal second => first == second
  | root first, root second => first = second
  | member firstBase first firstSafe, member secondBase second secondSafe =>
      firstBase.same secondBase && first == second && firstSafe == secondSafe
  | compare first firstLeft firstRight, compare second secondLeft secondRight =>
      first = second && firstLeft.same secondLeft && firstRight.same secondRight
  | connect first firstLeft firstRight, connect second secondLeft secondRight =>
      first = second && firstLeft.same secondLeft && firstRight.same secondRight
  | not first, not second => first.same second
  | _, _ => false

instance [HostObject ω] : BEq (Expr ω) where
  beq := same

end Expr

end Sift
