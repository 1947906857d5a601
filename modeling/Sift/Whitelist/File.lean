import Sift.Settings
import Sift.Whitelist

namespace Sift

/-! Whitelist files, such as `types: {Critter: [Dwelling, Name], House: all}`. -/

def Setting.text? : Setting → Option String
  | text value => some value
  | _ => none

namespace Selection

/-- The word `all` may also be written as a key without a value. -/
def ofSetting? : Setting → Option Selection
  | .text "all" => some .all
  | .table [("all", .null)] => some .all
  | .list items => (items.mapM Setting.text?).map members
  | _ => none

end Selection

namespace Whitelist

def ofEntries? (whitelist : Whitelist) :
    List (String × Setting) → Option Whitelist
  | [] => some whitelist
  | (name, setting) :: entries => do
      let selection ← Selection.ofSetting? setting
      ofEntries? (whitelist.insert name selection) entries

/-- Settings other than `types` are left alone. -/
def ofSettings? : Setting → Option Whitelist
  | .table settings =>
      match Setting.lookup settings "types" with
      | none => some empty
      | some (.table entries) => ofEntries? empty entries
      | some _ => none
  | _ => none

def ofYaml? (text : String) : Option Whitelist := do
  ofSettings? (← Setting.read? text)

def withoutMark (text : String) : String :=
  match text.toList with
  | '\ufeff' :: cs => String.ofList cs
  | _ => text

def ofFile? (text : String) : Option Whitelist :=
  ofYaml? (withoutMark text)

end Whitelist

end Sift
