import Sift.Expr.Evaluation
import Sift.Expr.Grammar
import Sift.Expr.Written

namespace Sift

/-! Filters over the objects of one host type. -/

structure Filter (ω : Type) where
  root : HostType
  body : Expr ω

namespace Filter

variable {ω : Type}

def compile (registry : Registry ω) (root : HostType) (text : String) :
    Except ParseError (Filter ω) :=
  (registry.parse root text).map fun body => ⟨root, body⟩

def text (filter : Filter ω) : String :=
  filter.body.text

/-- Whether the filter accepts an object. Null counts as false. -/
def test [HostObject ω] (filter : Filter ω) (object : ω) : Except EvalError Bool :=
  (filter.body.evaluate object).bind Value.truth

end Filter

end Sift
