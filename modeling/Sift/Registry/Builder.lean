import Sift.Registry
import Sift.Whitelist

namespace Sift

/-! Building a registry step by step. A step that names something unknown does not
stop the others, but no registry is built then. -/

inductive BuildError where
  | unknownMember (type member : String)
  | unknownType (type : String)
deriving DecidableEq

def BuildError.message : BuildError → String
  | unknownMember type member =>
      "type '" ++ type ++ "' declares no member named '" ++ member ++ "'"
  | unknownType type => "type '" ++ type ++ "' has not been declared"

structure Builder (ω : Type) where
  registry : Registry ω := .empty
  /-- The records that a whitelist file can name. -/
  declared : List (Record ω) := []
  /-- In the order of the steps that caused them. -/
  errors : List BuildError := []

namespace Builder

variable {ω : Type}

def empty : Builder ω := {}

def register (builder : Builder ω) (member : Member ω) : Builder ω :=
  { builder with registry := builder.registry.register member }

def registerAll (builder : Builder ω) (members : List (Member ω)) : Builder ω :=
  { builder with registry := builder.registry.registerAll members }

def fail (builder : Builder ω) (error : BuildError) : Builder ω :=
  { builder with errors := builder.errors ++ [error] }

/-- Makes a record known by its type name, in place of any record of that name. -/
def declare (builder : Builder ω) (record : Record ω) : Builder ω :=
  { builder with
    declared := record :: builder.declared.filter fun other =>
      ¬ Text.SameName other.type.name record.type.name }

def declared? (builder : Builder ω) (name : String) : Option (Record ω) :=
  builder.declared.find? fun record => Text.SameName record.type.name name

def whitelist (builder : Builder ω) (record : Record ω) (name : String) :
    Builder ω :=
  match record.find? name with
  | some member => builder.register member
  | none => builder.fail (.unknownMember record.type.name name)

def whitelistAll (builder : Builder ω) (record : Record ω) : Builder ω :=
  builder.registerAll record.members

def select (record : Record ω) : Selection → List (Member ω) × List BuildError
  | .all => (record.members, [])
  | .members names =>
      (names.filterMap record.find?,
        (names.filter fun name => (record.find? name).isNone).map
          (.unknownMember record.type.name))

/-- One entry of a whitelist file. What is known is registered even when other names
of the entry are not. -/
def applyEntry (builder : Builder ω) (entry : String × Selection) : Builder ω :=
  match builder.declared? entry.1 with
  | none => builder.fail (.unknownType entry.1)
  | some record =>
      let (members, errors) := select record entry.2
      errors.foldl fail (builder.registerAll members)

def apply (builder : Builder ω) (whitelist : Whitelist) : Builder ω :=
  whitelist.sorted.foldl applyEntry builder

def build (builder : Builder ω) : Except BuildError (Registry ω) :=
  match builder.errors with
  | error :: _ => .error error
  | [] => .ok builder.registry

end Builder

inductive BuildStep (ω : Type) where
  | declare (record : Record ω)
  | whitelist (record : Record ω) (name : String)
  | whitelistAll (record : Record ω)
  | register (member : Member ω)
  | apply (whitelist : Whitelist)

namespace Builder

variable {ω : Type}

def step (builder : Builder ω) : BuildStep ω → Builder ω
  | .declare record => builder.declare record
  | .whitelist record name => builder.whitelist record name
  | .whitelistAll record => builder.whitelistAll record
  | .register member => builder.register member
  | .apply whitelist => builder.apply whitelist

def run (steps : List (BuildStep ω)) : Builder ω :=
  steps.foldl step empty

end Builder

end Sift
