import Sift.Decimal.Reading
import Sift.Literal
import Sift.Text.Blank
import Sift.Text.Caseless
import Sift.Timestamp.Decoding
import Sift.Token.Cursor

namespace Sift.Literal

/-! A literal on the right of a comparison takes the type of the left operand. -/

inductive CoercionFault where
  | nullForNonNullable (target : StaticType)
  | unreadable (text : String) (target : ValueType)
  | incompatible (literal target : StaticType)
deriving DecidableEq

def CoercionFault.message : CoercionFault → String
  | .nullForNonNullable target =>
      "Cannot compare non-nullable " ++ target.text ++ " with null"
  | .unreadable text target => "Cannot convert '" ++ text ++ "' to " ++ target.text
  | .incompatible literal target =>
      "Cannot convert " ++ literal.text ++ " literal to " ++ target.text

def readNumber? (text : String) : Option Literal :=
  match Decimal.parse (Text.trim text.toList) with
  | .ok result => some (.number result)
  | .error _ => none

def readBool? (text : String) : Option Literal :=
  let word := (Text.trim text.toList).map Char.toLower
  if word = "true".toList then some (.bool true)
  else if word = "false".toList then some (.bool false)
  else none

/-- The text must be a single date-time token. -/
def readTimestamp? (text : String) : Option Literal :=
  match tokenize (String.ofList (Text.trim text.toList)) with
  | [token, _] =>
      if token.kind = .dateTime then
        match Timestamp.parse token.text.toList with
        | .ok result => some (.timestamp result)
        | .error _ => none
      else none
  | _ => none

def readAs (text : String) (target : ValueType) (read : Option Literal) :
    Except CoercionFault Literal :=
  match read with
  | some literal => .ok literal
  | none => .error (.unreadable text target)

/-- The literal as a constant of the target type. Nothing is asked of a literal that
is compared with a bare `null`. -/
def coerce (literal : Literal) (target : StaticType) :
    Except CoercionFault Literal :=
  match literal, target.value with
  | literal, .null => .ok literal
  | .null _, _ =>
      if target.acceptsNull then .ok (.null target)
      else .error (.nullForNonNullable target)
  | .bool value, .bool => .ok (.bool value)
  | .number value, .number => .ok (.number value)
  | .string value, .string => .ok (.string value)
  | .timestamp value, .timestamp => .ok (.timestamp value)
  | .string text, .number => readAs text .number (readNumber? text)
  | .string text, .bool => readAs text .bool (readBool? text)
  | .string text, .timestamp => readAs text .timestamp (readTimestamp? text)
  | literal, _ => .error (.incompatible literal.type target)

end Sift.Literal
