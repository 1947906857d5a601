import Sift.Decimal.Reading
import Sift.Literal.Coercion
import Sift.StaticType
import Sift.Timestamp.Decoding

namespace Sift

/-! Why a text is not a filter, and where. -/

namespace ParseError

inductive Cause where
  | malformed (text : String)
  | expectedIdentifier
  | expectedClosing
  | expectedFinish
  | nestedTooDeeply
  | unrecognizedMember (member : String) (owner : ValueType)
  | number (text : String) (fault : Decimal.Fault)
  | timestamp (text : String) (fault : Timestamp.Fault)
  | operandNotBool (found : StaticType)
  | filterNotBool (found : StaticType)
  | coercion (fault : Literal.CoercionFault)
deriving DecidableEq

/-- The rule that a text breaks. -/
inductive Kind where
  | lexical
  | grammar
  | resolution
  | literal
  | typing
deriving DecidableEq

namespace Cause

def kind : Cause → Kind
  | malformed _ => .lexical
  | expectedIdentifier | expectedClosing | expectedFinish | nestedTooDeeply => .grammar
  | unrecognizedMember .. => .resolution
  | number .. | timestamp .. => .literal
  | operandNotBool _ | filterNotBool _ | coercion _ => .typing

def message : Cause → String
  | malformed text => "Invalid character sequence '" ++ text ++ "'"
  | expectedIdentifier => "Expected identifier"
  | expectedClosing => "Expected ')'"
  | expectedFinish => "Expected end of statement"
  | nestedTooDeeply => "Expression nested too deeply"
  | unrecognizedMember member owner =>
      "Unrecognized member '" ++ member ++ "' of '" ++ owner.text ++ "'"
  | number text fault => "Invalid number '" ++ text ++ "': " ++ fault.message
  | timestamp text .malformed => "Malformed timestamp '" ++ text ++ "'"
  | timestamp text (.outOfRange component) =>
      "Invalid timestamp '" ++ text ++ "': " ++ component.name ++ " was not in range"
  | operandNotBool found => "Expected a Bool operand, found " ++ found.text
  | filterNotBool found => "Filter must be a Bool expression, found " ++ found.text
  | coercion fault => fault.message

end Cause

end ParseError

structure ParseError where
  /-- Bytes of the filter text before the fault. -/
  offset : Nat
  cause : ParseError.Cause
deriving DecidableEq

def ParseError.message (error : ParseError) : String :=
  toString error.offset ++ ": " ++ error.cause.message

end Sift
