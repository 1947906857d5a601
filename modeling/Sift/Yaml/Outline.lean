import Sift.Yaml.Token
import Sift.Yaml.Written

namespace Sift.Yaml

/-! From characters to tokens. That a scalar or a pair of brackets is a key shows only
at the colon after it, and that a block has ended only at a line further left. -/

structure KeyStart where
  number : Nat
  place : Placed
  required : Bool

structure Level where
  outer : Nat
  /-- It is a block, and not only the value of a key. -/
  isBlock : Bool

structure Outline where
  tokens : Array Token
  margin : Nat
  levels : List Level
  keyStart : Option KeyStart
  outerKeyStarts : List (Option KeyStart)
  keyAllowed : Bool
  /-- For each open list in brackets, whether a pair is open in it. -/
  pairs : List Bool
  /-- A map in braces or a key with a mark was opened after the last pair ended. -/
  mapOpened : Bool
  /-- Where a colon may follow a scalar in quotes or brackets without a space. -/
  closedAt : Option Nat

namespace Outline

def start : Outline where
  tokens := #[]
  margin := 0
  levels := []
  keyStart := none
  outerKeyStarts := []
  keyAllowed := true
  pairs := []
  mapOpened := false
  closedAt := none

def inFlow (outline : Outline) : Bool :=
  !outline.outerKeyStarts.isEmpty

def push (outline : Outline) (token : Token) : Outline :=
  { outline with tokens := outline.tokens.push token }

def insert (outline : Outline) (number : Nat) (token : Token) : Outline :=
  { outline with tokens := outline.tokens.insertIdxIfInBounds number token }

/-! Levels. Inside brackets indentation opens and closes nothing. -/

/-- The token of a block is put in before the key that begins it. -/
def openBlock (outline : Outline) (column : Nat) (number : Nat) (token : Token) :
    Outline :=
  if outline.inFlow then outline
  else
    let outline :=
      match outline.levels with
      | ⟨outer, false⟩ :: levels =>
          if outline.margin ≤ column + 1 then
            { outline with margin := outer, levels := levels }
          else outline
      | _ => outline
    if outline.margin ≤ column then
      { outline.insert number token with
        margin := column + 1
        levels := ⟨outline.margin, true⟩ :: outline.levels }
    else outline

/-- What stands in a block, other than a block, is nested one column further. -/
def openValue (outline : Outline) : Outline :=
  if !outline.inFlow && outline.levels.head?.any Level.isBlock then
    { outline with
      margin := outline.margin + 1
      levels := ⟨outline.margin, false⟩ :: outline.levels }
  else outline

def closeValue (outline : Outline) : Outline :=
  match outline.levels with
  | ⟨outer, false⟩ :: levels => { outline with margin := outer, levels := levels }
  | _ => outline

def closeLevels (margin : Nat) (outline : Outline) : List Level → Outline
  | [] => { outline with levels := [] }
  | level :: levels =>
      if margin < outline.margin then
        let outline := if level.isBlock then outline.push .blockEnd else outline
        closeLevels margin { outline with margin := level.outer } levels
      else { outline with levels := level :: levels }

def closeTo (outline : Outline) (margin : Nat) : Outline :=
  if outline.inFlow then outline else closeLevels margin outline outline.levels

def startKey (outline : Outline) (place : Placed) : Outline :=
  if outline.keyAllowed then
    let required :=
      !outline.inFlow && outline.margin = place.column + 1 &&
        outline.levels.head?.any Level.isBlock
    { outline with keyStart := some ⟨outline.tokens.size, place, required⟩ }
  else outline

def dropKey? (outline : Outline) : Option Outline :=
  if outline.keyStart.any KeyStart.required then none
  else some { outline with keyStart := none }

/-- The most characters from the start of a key to its colon. -/
def maxKeyLength : Nat := 1024

def isStale (start : KeyStart) (place : Placed) : Bool :=
  start.place.line < place.line || start.place.index + maxKeyLength < place.index

def arrive? (outline : Outline) (place : Placed) : Option Outline := do
  let outline ←
    if !outline.inFlow && outline.keyStart.any (isStale · place) then outline.dropKey?
    else some outline
  let outline := outline.closeTo (place.column + 1)
  if place.isLeftOf outline.margin then none else some outline

abbrev Step := Outline × List Placed

def finish? (outline : Outline) : Option (List Token) := do
  let outline ← outline.dropKey?
  some (outline.closeTo 0).tokens.toList

def documentMarker? (outline : Outline) (token : Token) (rest : List Placed) :
    Option Step := do
  let outline ← (outline.closeTo 0).dropKey?
  some ({ outline with keyAllowed := false }.push token, rest)

/-- Nothing but a comment follows the end of a document on its line. -/
def documentEnd? (outline : Outline) (rest : List Placed) : Option Step := do
  let lineEnd ← lineEnd? rest
  if lineEnd.rest.head?.all (·.char = '\n') then
    outline.documentMarker? .documentEnd lineEnd.rest
  else none

def maxFlowDepth : Nat := 255

def openFlow? (outline : Outline) (token : Token) (place : Placed)
    (rest : List Placed) : Option Step := do
  let outline := (outline.startKey place).openValue
  if outline.outerKeyStarts.length = maxFlowDepth then none
  else
    let lineEnd ← lineEnd? rest
    let outline :=
      { outline with
        outerKeyStarts := outline.keyStart :: outline.outerKeyStarts
        keyStart := none
        keyAllowed := true }
    let outline :=
      if token = .flowMap then { outline with mapOpened := true }
      else { outline with pairs := false :: outline.pairs }
    some (outline.push token, lineEnd.rest)

def endPair (outline : Outline) : Outline :=
  match outline.pairs with
  | true :: pairs =>
      { outline with mapOpened := false, pairs := false :: pairs }.push .flowMapEnd
  | _ => outline

def closeFlow? (outline : Outline) (token : Token) (rest : List Placed) :
    Option Step := do
  let outline ← outline.dropKey?
  let outline := { outline with keyAllowed := false }
  let outline :=
    match outline.outerKeyStarts with
    | keyStart :: outer => { outline with keyStart := keyStart, outerKeyStarts := outer }
    | [] => outline
  let outline :=
    if token = .flowListEnd then
      let outline := outline.endPair
      { outline with pairs := outline.pairs.tail }
    else outline
  let lineEnd ← lineEnd? rest
  let closedAt :=
    if outline.inFlow then lineEnd.rest.head?.map Placed.index else outline.closedAt
  some ({ outline with closedAt := closedAt }.push token, lineEnd.rest)

def comma? (outline : Outline) (rest : List Placed) : Option Step := do
  let outline ← outline.dropKey?
  let lineEnd ← lineEnd? rest
  some ({ outline with keyAllowed := true }.endPair.push .comma, lineEnd.rest)

def entry? (outline : Outline) (place : Placed) (rest : List Placed) : Option Step := do
  if outline.inFlow || !outline.keyAllowed then none
  else
    let lineEnd ← lineEnd? rest
    let outline := outline.openBlock place.column outline.tokens.size .blockList
    match lineEnd.rest with
    | [] =>
        let outline ← outline.dropKey?
        some ({ outline with keyAllowed := true }.push .entry, [])
    | next :: rest =>
        -- Another dash must not be set off by a tab.
        if next.char = '-' && endsWord rest && lineEnd.spaces.contains '\t' then none
        else
          let outline :=
            if next.char = '\n' || isFlowIndicator next.char then outline.openValue
            else outline
          let outline ← outline.dropKey?
          some ({ outline with keyAllowed := true }.push .entry, next :: rest)

def keyGapFrom (inComment : Bool) : List Placed → Option (List Placed)
  | [] => some []
  | next :: rest =>
      if next.char = '\n' then keyGapFrom false rest
      else if inComment || next.char = ' ' then keyGapFrom inComment rest
      else if next.char = '#' then keyGapFrom true rest
      else if next.char = '\t' then none
      else some (next :: rest)

def key? (outline : Outline) (place : Placed) (rest : List Placed) : Option Step := do
  let outline ←
    if outline.inFlow then some { outline with mapOpened := true }
    else if outline.keyAllowed then
      some (outline.openBlock place.column outline.tokens.size .blockMap)
    else none
  let outline ← outline.dropKey?
  if rest.isEmpty then none
  else
    let rest ← keyGapFrom false rest
    some ({ outline with keyAllowed := !outline.inFlow }.push .key, rest)

def isWordChar (c : Char) : Bool :=
  c.isAlphanum || c = '_' || c = '-'

/-- A word must not be set off from a colon by tabs alone. -/
def valueGap? : List Placed → Option (List Placed)
  | [] => some []
  | next :: rest =>
      if next.char = '\t' then do
        let lineEnd ← lineEnd? (next :: rest)
        let isWord := lineEnd.rest.head?.any (isWordChar ·.char)
        if isWord && !lineEnd.spaces.contains ' ' then none else some lineEnd.rest
      else some (next :: rest)

/-- In a list in brackets a colon makes a pair, which is a map of one entry. -/
def value? (outline : Outline) (place : Placed) (rest : List Placed) : Option Step := do
  let isPair := !outline.pairs.isEmpty && !outline.mapOpened
  let outline :=
    if isPair then { outline with pairs := true :: outline.pairs.tail } else outline
  let rest ← valueGap? rest
  match outline.keyStart with
  | some start => do
      let outline := outline.insert start.number .key
      let outline ←
        if isPair then
          if start.place.line < place.line then none
          else some (outline.insert start.number .flowMap)
        else some outline
      let outline :=
        (outline.openBlock start.place.column start.number .blockMap).openValue
      some ({ outline with keyStart := none, keyAllowed := false }.push .value, rest)
  | none => do
      let outline := if isPair then outline.push .flowMap else outline
      if outline.inFlow then
        some ({ outline with keyAllowed := false }.push .value, rest)
      else if outline.keyAllowed then
        let outline :=
          (outline.openBlock place.column outline.tokens.size .blockMap).openValue
        some ({ outline with keyAllowed := true }.push .value, rest)
      else none

def quoted? (outline : Outline) (place : Placed) (cs : List Placed) : Option Step := do
  let outline := outline.startKey place
  let (text, rest) ← Yaml.quoted? outline.inFlow outline.margin cs
  let gap ← gap? outline.margin rest
  let outline :=
    { outline with
      keyAllowed := gap.crossed && !outline.inFlow
      closedAt := gap.rest.head?.map Placed.index }
  some (outline.push (.scalar (.text (String.ofList text))), gap.rest)

def plain? (outline : Outline) (place : Placed) (cs : List Placed) : Option Step := do
  let outline := (outline.startKey place).closeValue
  let read ← Yaml.plain? outline.inFlow outline.margin cs
  some
    ({ outline with keyAllowed := read.crossed }.push (.scalar (.ofPlain read.text)),
      read.rest)

def isValueMark (outline : Outline) (place : Placed) (rest : List Placed) : Bool :=
  endsWord rest ||
    (outline.inFlow && (meetsFlow rest || outline.closedAt = some place.index))

/-- Anchors, tags, literal blocks and directives are refused. -/
def token? (outline : Outline) : List Placed → Option Step
  | [] => none
  | cs@(place :: rest) =>
      if isMarker "---" cs then outline.documentMarker? .documentStart (cs.drop 3)
      else if isMarker "..." cs then outline.documentEnd? (cs.drop 3)
      else
        match place.char with
        | '[' => outline.openFlow? .flowList place rest
        | '{' => outline.openFlow? .flowMap place rest
        | ']' => outline.closeFlow? .flowListEnd rest
        | '}' => outline.closeFlow? .flowMapEnd rest
        | ',' => outline.comma? rest
        | '-' =>
            if endsWord rest then outline.entry? place rest else outline.plain? place cs
        | '?' =>
            if endsWord rest then outline.key? place rest else outline.plain? place cs
        | ':' =>
            if outline.isValueMark place rest then outline.value? place rest
            else outline.plain? place cs
        | '\'' | '"' => outline.quoted? place cs
        | '|' | '>' => if outline.inFlow then outline.plain? place cs else none
        | '*' | '&' | '!' | '%' | '@' | '\x60' => none
        | _ => outline.plain? place cs

/-- The tokens of a text, each of which takes at least one character. -/
def tokensFrom? : Nat → Outline → List Placed → Option (List Token)
  | 0, _, _ => none
  | bound + 1, outline, cs => do
      let gap ← gap? outline.margin cs
      let outline :=
        if gap.crossed && !outline.inFlow then { outline with keyAllowed := true }
        else outline
      match gap.rest with
      | [] => outline.finish?
      | place :: rest =>
          let outline ← outline.arrive? place
          let (outline, rest) ← outline.token? (place :: rest)
          tokensFrom? bound outline rest

end Outline

def tokens? (text : String) : Option (List Token) :=
  let cs := place text
  Outline.tokensFrom? (cs.length + 1) .start cs

end Sift.Yaml
