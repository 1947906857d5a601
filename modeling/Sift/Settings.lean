import Sift.Yaml.Document

namespace Sift

/-! Settings: texts under names, in lists and in tables. -/

inductive Setting where
  | null
  | text (value : String)
  | other
  | list (items : List Setting)
  | table (entries : List (String × Setting))

namespace Setting

def lookup (entries : List (String × Setting)) (name : String) : Option Setting :=
  (entries.find? (·.1 = name)).map Prod.snd

def put (entries : List (String × Setting)) (name : String) (value : Setting) :
    List (String × Setting) :=
  entries.filter (·.1 ≠ name) ++ [(name, value)]

/-! The settings of a document. Keys are no lists, maps or nulls, and numbers are
finite. -/

def ofScalar? : Yaml.Scalar → Option Setting
  | .null => some .null
  | .bool _ => some .other
  | .integer _ => some .other
  | .real written => if Yaml.Scalar.isReal written then some .other else none
  | .text value => some (.text value)

def keyText? : Yaml.Scalar → Option String
  | .null => none
  | .bool value => some (if value then "true" else "false")
  | .integer value => some (toString value)
  | .real written => some (String.ofList written)
  | .text value => some value

mutual

def ofNode? : Yaml.Node → Option Setting
  | .scalar value => ofScalar? value
  | .list items => (ofNodes? items).map list
  | .map entries => (ofEntries? [] entries).map table

def ofNodes? : List Yaml.Node → Option (List Setting)
  | [] => some []
  | node :: nodes => do
      let setting ← ofNode? node
      let settings ← ofNodes? nodes
      some (setting :: settings)

def ofEntries? (settings : List (String × Setting)) :
    List (Yaml.Scalar × Yaml.Node) → Option (List (String × Setting))
  | [] => some settings
  | (key, node) :: entries => do
      let name ← keyText? key
      let setting ← ofNode? node
      ofEntries? (put settings name setting) entries

end

/-! A name at the top that is a path stands for a place in nested tables and lists.
Tables given for one place are merged. -/

mutual

def merge (old : Setting) : Setting → Setting
  | table entries =>
      match old with
      | table settings => table (mergeAll settings entries)
      | _ => table (mergeAll [] entries)
  | value => value

def mergeAll (settings : List (String × Setting)) :
    List (String × Setting) → List (String × Setting)
  | [] => settings
  | (name, value) :: entries =>
      let old := (lookup settings name).getD null
      mergeAll (put settings name (merge old value)) entries

end

inductive PathStep where
  | name (name : String)
  /-- A place in a list, counted from its end when negative. -/
  | position (position : Int)

def isPathChar (c : Char) : Bool :=
  c.isAlphanum || c = '_' || c = '-'

def position? (cs : List Char) : Option (Int × List Char) :=
  let cs := cs.dropWhile Yaml.isSpace
  let body := if cs.head? = some '-' then cs.tail else cs
  let digits := body.takeWhile Char.isDigit
  match Yaml.Scalar.signed? 10 (cs.take (cs.length - body.length) ++ digits),
      (body.drop digits.length).dropWhile Yaml.isSpace with
  | some position, ']' :: rest => some (position, rest)
  | _, _ => none

/-- Each name follows a dot. Each step takes at least one character. -/
def pathFrom? : Nat → List Char → Option (List PathStep)
  | 0, _ => none
  | _, [] => some []
  | bound + 1, '.' :: cs => do
      let word := cs.takeWhile isPathChar
      if word = [] then none
      else
        let steps ← pathFrom? bound (cs.drop word.length)
        some (.name (String.ofList word) :: steps)
  | bound + 1, '[' :: cs => do
      let (position, cs) ← position? cs
      let steps ← pathFrom? bound cs
      some (.position position :: steps)
  | _, _ => none

def path (name : String) : List PathStep :=
  (pathFrom? (name.length + 2) ('.' :: name.toList)).getD [.name name]

/-- Where the list does not reach the position, nulls are put in. -/
def changeAt (items : List Setting) (position : Int) (change : Setting → Setting) :
    List Setting :=
  if 0 ≤ position then
    let index := position.toNat
    (items ++ List.replicate (index + 1 - items.length) null).modify index change
  else
    let fromEnd := position.natAbs
    (List.replicate (fromEnd - items.length) null ++ items).modify
      (items.length - fromEnd) change

def give (value : Setting) : List PathStep → Setting → Setting
  | [], old => merge old value
  | .name name :: steps, old =>
      let settings := match old with
        | table settings => settings
        | _ => []
      table (put settings name (give value steps ((lookup settings name).getD null)))
  | .position position :: steps, old =>
      let items := match old with
        | list items => items
        | _ => []
      list (changeAt items position (give value steps))

def read? (text : String) : Option Setting := do
  match ← Yaml.read? text with
  | none => some (table [])
  | some node =>
      match ← ofNode? node with
      | table entries =>
          some (entries.foldl
            (fun settings entry => give entry.2 (path entry.1) settings) (table []))
      | _ => none

end Setting

end Sift
