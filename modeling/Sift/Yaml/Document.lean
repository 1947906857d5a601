import Sift.Yaml.Outline

namespace Sift.Yaml

/-! The nodes that tokens form, and the documents of a text. The depth of recursion is
bounded by the first argument of each reader; a bound of three for each token is never
reached. What a list or a map holds so far is given last first. -/

def nullNode : Node := .scalar .null

/-- Adds an entry to a map, unless its key is there already or is no scalar. -/
def addPair? (entries : List (Scalar × Node)) (key value : Node) :
    Option (List (Scalar × Node)) :=
  match key with
  | .scalar key =>
      if entries.any (·.1 = key) then none else some ((key, value) :: entries)
  | _ => none

def endsEntry (token : Token) : Bool :=
  token = .entry || token = .blockEnd

def endsBlockValue (token : Token) : Bool :=
  token = .key || token = .value || token = .blockEnd

def endsFlowListValue (token : Token) : Bool :=
  token = .value || token = .comma || token = .flowListEnd

def endsFlowMapValue (token : Token) : Bool :=
  token = .value || token = .comma || token = .flowMapEnd

/-- The blocks that may be read as a node: none inside brackets, and in a map also lists
that stand at its own column. -/
inductive Blocks where
  | none
  | indented
  | all
deriving DecidableEq

mutual

def node : Nat → Blocks → List Token → Option (Node × List Token)
  | 0, _, _ => none
  | bound + 1, blocks, tokens =>
      match tokens with
      | .scalar value :: rest => some (.scalar value, rest)
      | .flowList :: rest => flowList bound [] rest
      | .flowMap :: rest => flowMap bound [] rest
      | .blockList :: rest =>
          if blocks = .none then none else blockList bound [] rest
      | .blockMap :: rest =>
          if blocks = .none then none else blockMap bound [] rest
      | .entry :: _ => if blocks = .all then flatList bound [] tokens else none
      | _ => none

/-- A node, or null where it is left out. -/
def nodeUnless : Nat → (Token → Bool) → Blocks → List Token →
    Option (Node × List Token)
  | 0, _, _, _ => none
  | bound + 1, isEnd, blocks, tokens =>
      if tokens.head?.any isEnd then some (nullNode, tokens) else node bound blocks tokens

def valueUnless : Nat → (Token → Bool) → Blocks → List Token →
    Option (Node × List Token)
  | 0, _, _, _ => none
  | bound + 1, isEnd, blocks, tokens =>
      match tokens with
      | .value :: rest => nodeUnless bound isEnd blocks rest
      | _ => some (nullNode, tokens)

def blockList : Nat → List Node → List Token → Option (Node × List Token)
  | 0, _, _ => none
  | bound + 1, items, tokens =>
      match tokens with
      | .blockEnd :: rest => some (.list items.reverse, rest)
      | .entry :: rest => do
          let (item, rest) ← nodeUnless bound endsEntry .indented rest
          blockList bound (item :: items) rest
      | _ => none

/-- A list at the column of the map that it stands in. It ends without a token. -/
def flatList : Nat → List Node → List Token → Option (Node × List Token)
  | 0, _, _ => none
  | bound + 1, items, tokens =>
      match tokens with
      | .entry :: rest => do
          let isEnd := fun token => endsEntry token || endsBlockValue token
          let (item, rest) ← nodeUnless bound isEnd .indented rest
          flatList bound (item :: items) rest
      | _ => some (.list items.reverse, tokens)

def blockMap : Nat → List (Scalar × Node) → List Token →
    Option (Node × List Token)
  | 0, _, _ => none
  | bound + 1, entries, tokens =>
      match tokens with
      | .blockEnd :: rest => some (.map entries.reverse, rest)
      | .key :: rest => do
          let (key, rest) ← nodeUnless bound endsBlockValue .all rest
          let (value, rest) ← valueUnless bound endsBlockValue .all rest
          blockMap bound (← addPair? entries key value) rest
      | .value :: _ => do
          let (value, rest) ← valueUnless bound endsBlockValue .all tokens
          blockMap bound (← addPair? entries nullNode value) rest
      | _ => none

def flowList : Nat → List Node → List Token → Option (Node × List Token)
  | 0, _, _ => none
  | bound + 1, items, tokens =>
      match tokens with
      | .flowListEnd :: rest => some (.list items.reverse, rest)
      | _ => do
          let (item, rest) ← flowItem bound tokens
          match rest with
          | .comma :: rest => flowList bound (item :: items) rest
          | .flowListEnd :: rest => some (.list (item :: items).reverse, rest)
          | _ => none

/-- An entry of a list in brackets; a pair is a map of one entry. -/
def flowItem : Nat → List Token → Option (Node × List Token)
  | 0, _ => none
  | bound + 1, tokens =>
      match tokens with
      | .key :: rest => do
          let (key, rest) ← nodeUnless bound endsFlowListValue .none rest
          let (value, rest) ← valueUnless bound endsFlowListValue .none rest
          some (.map (← addPair? [] key value), rest)
      | _ => node bound .none tokens

def flowMap : Nat → List (Scalar × Node) → List Token →
    Option (Node × List Token)
  | 0, _, _ => none
  | bound + 1, entries, tokens =>
      match tokens with
      | .flowMapEnd :: rest => some (.map entries.reverse, rest)
      | _ => do
          let (key, value, rest) ← flowEntry bound tokens
          let entries ← addPair? entries key value
          match rest with
          | .comma :: rest => flowMap bound entries rest
          | .flowMapEnd :: rest => some (.map entries.reverse, rest)
          | _ => none

def flowEntry : Nat → List Token → Option (Node × Node × List Token)
  | 0, _ => none
  | bound + 1, tokens =>
      match tokens with
      | .key :: rest => do
          let (key, rest) ← nodeUnless bound endsFlowMapValue .none rest
          let (value, rest) ← valueUnless bound endsFlowMapValue .none rest
          some (key, value, rest)
      | .value :: _ => do
          let (value, rest) ← valueUnless bound endsFlowMapValue .none tokens
          some (nullNode, value, rest)
      | _ => do
          let (key, rest) ← node bound .none tokens
          some (key, nullNode, rest)

end

def content? (tokens : List Token) : Option (Node × List Token) :=
  match tokens with
  | [] | .documentStart :: _ | .documentEnd :: _ => some (nullNode, tokens)
  | _ => node (3 * tokens.length + 3) .indented tokens

/-- The documents that tokens form. Without a marker a document begins only at the start
of the text and after the end of another one. -/
def documents? : Nat → Bool → List Token → Option (List Node)
  | 0, _, _ => none
  | bound + 1, mayBegin, tokens =>
      match tokens with
      | [] => some []
      | .documentEnd :: rest => documents? bound true rest
      | .documentStart :: rest => do
          let (document, rest) ← content? rest
          return document :: (← documents? bound false rest)
      | tokens =>
          if mayBegin then do
            let (document, rest) ← content? tokens
            return document :: (← documents? bound false rest)
          else none

/-- The single document of a text; no document when nothing is written. -/
def read? (text : String) : Option (Option Node) := do
  let tokens ← tokens? text
  match ← documents? (tokens.length + 1) true tokens with
  | [] => some none
  | [document] => some (some document)
  | _ => none

end Sift.Yaml
