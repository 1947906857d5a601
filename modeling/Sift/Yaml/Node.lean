namespace Sift.Yaml

/-! The contents of a YAML document: scalars, lists, and maps with scalar keys. -/

inductive Scalar where
  | null
  | bool (value : Bool)
  | integer (value : Int)
  /-- A number with a fraction or an exponent, or out of the range of integers. -/
  | real (written : List Char)
  | text (text : String)
deriving DecidableEq

inductive Node where
  | scalar (value : Scalar)
  | list (items : List Node)
  | map (entries : List (Scalar × Node))

namespace Scalar

/-! A scalar without quotes is a number, a truth value or null if it is written like
one, and text otherwise. -/

def digit? (base : Nat) (c : Char) : Option Nat :=
  let value :=
    if c.isDigit then c.toNat - '0'.toNat
    else if c.isAlpha then c.toLower.toNat - 'a'.toNat + 10
    else base
  if value < base then some value else none

def natural? (base : Nat) (cs : List Char) : Option Nat := do
  let digits ← cs.mapM (digit? base)
  if digits.isEmpty then none
  else some (digits.foldl (fun value digit => base * value + digit) 0)

def signed? (base : Nat) (cs : List Char) : Option Int := do
  let value : Int ←
    match cs with
    | '-' :: digits => (natural? base digits).map fun value => -value
    | '+' :: digits => (natural? base digits).map fun value => value
    | digits => (natural? base digits).map fun value => value
  if -9223372036854775808 ≤ value ∧ value ≤ 9223372036854775807 then some value
  else none

def integer? : List Char → Option Int
  | '0' :: 'x' :: cs => signed? 16 cs
  | '0' :: 'o' :: cs => signed? 8 cs
  | '+' :: cs => signed? 10 cs
  | cs => signed? 10 cs

def dropSign : List Char → List Char
  | '+' :: cs => cs
  | '-' :: cs => cs
  | cs => cs

def isExponent : List Char → Bool
  | [] => true
  | mark :: cs =>
      (mark = 'e' || mark = 'E') && dropSign cs ≠ [] && (dropSign cs).all Char.isDigit

def isReal (cs : List Char) : Bool :=
  let whole := (dropSign cs).takeWhile Char.isDigit
  match (dropSign cs).dropWhile Char.isDigit with
  | '.' :: cs =>
      (whole ++ cs.takeWhile Char.isDigit) ≠ [] && isExponent (cs.dropWhile Char.isDigit)
  | cs => whole ≠ [] && isExponent cs

def specials : List String :=
  [".inf", ".Inf", ".INF", "+.inf", "+.Inf", "+.INF", "-.inf", "-.Inf", "-.INF",
    ".nan", ".NaN", ".NAN"]

def ofPlain (cs : List Char) : Scalar :=
  let word := String.ofList cs
  if word = "~" ∨ word = "null" then .null
  else if word = "true" ∨ word = "True" ∨ word = "TRUE" then .bool true
  else if word = "false" ∨ word = "False" ∨ word = "FALSE" then .bool false
  else
    match integer? cs with
    | some value => .integer value
    | none =>
        if isReal cs ∨ specials.contains word then .real cs else .text word

end Scalar

end Sift.Yaml
