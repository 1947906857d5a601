namespace Sift.Yaml

/-! Characters with their places in a text, and the gaps between what they write. -/

structure Placed where
  char : Char
  index : Nat
  line : Nat
  column : Nat
  /-- Nothing but spaces and tabs stands before it on its line. -/
  indenting : Bool
deriving DecidableEq

def isSpace (c : Char) : Bool :=
  c = ' ' || c = '\t'

def unifyBreaks : List Char → List Char
  | '\r' :: '\n' :: cs => '\n' :: unifyBreaks cs
  | '\r' :: cs => '\n' :: unifyBreaks cs
  | c :: cs => c :: unifyBreaks cs
  | [] => []

def placeFrom (index line column : Nat) (indenting : Bool) :
    List Char → List Placed
  | [] => []
  | c :: cs =>
      ⟨c, index, line, column, indenting⟩ ::
        if c = '\n' then placeFrom (index + 1) (line + 1) 0 true cs
        else placeFrom (index + 1) line (column + 1) (indenting && isSpace c) cs

/-- The characters of a text. A null character ends it. -/
def place (text : String) : List Placed :=
  placeFrom 0 0 0 true (unifyBreaks (text.toList.takeWhile (· ≠ '\x00')))

def endsWord : List Placed → Bool
  | [] => true
  | next :: _ => isSpace next.char || next.char = '\n'

def isFlowIndicator (c : Char) : Bool :=
  c = ',' || c = '[' || c = ']' || c = '{' || c = '}'

def meetsFlow (cs : List Placed) : Bool :=
  cs.head?.any (isFlowIndicator ·.char)

def isMarker (marker : String) : List Placed → Bool
  | [] => false
  | cs@(first :: _) =>
      first.column = 0 && (cs.take 3).map Placed.char = marker.toList &&
        endsWord (cs.drop 3)

def isDocumentMarker (cs : List Placed) : Bool :=
  isMarker "---" cs || isMarker "..." cs

/-! The margin of a block is one more than the column at which it stands, and 0 outside
of all blocks. What is nested in the block stands at the margin or further right. -/

def Placed.isLeftOf (next : Placed) (margin : Nat) : Bool :=
  next.column + 1 < margin

/-! A gap holds spaces, tabs, line breaks and comments. Tabs must not indent what stands
on a line of a block. -/

structure Gap where
  crossed : Bool
  rest : List Placed

structure GapState where
  margin : Nat
  crossed : Bool
  tabbed : Bool
  inComment : Bool

def gapFrom (state : GapState) : List Placed → Option Gap
  | [] => some ⟨state.crossed, []⟩
  | next :: rest =>
      if next.char = '\n' then
        gapFrom ⟨state.margin, true, false, false⟩ rest
      else if state.inComment then gapFrom state rest
      else if next.char = ' ' then gapFrom state rest
      else if next.char = '\t' then
        let indents := next.indenting && next.isLeftOf state.margin
        gapFrom { state with tabbed := state.tabbed || indents } rest
      else if next.char = '#' then gapFrom { state with inComment := true } rest
      else if state.tabbed then none
      else some ⟨state.crossed, next :: rest⟩

def gap? (margin : Nat) (cs : List Placed) : Option Gap :=
  gapFrom ⟨margin, false, false, false⟩ cs

structure LineEnd where
  spaces : List Char
  rest : List Placed

/-- A comment does not begin right after another token. -/
def lineEnd? (cs : List Placed) : Option LineEnd :=
  let spaces := (cs.takeWhile (isSpace ·.char)).map Placed.char
  match cs.dropWhile (isSpace ·.char) with
  | [] => some ⟨spaces, []⟩
  | next :: rest =>
      if next.char = '#' then
        if spaces = [] then none
        else some ⟨spaces, rest.dropWhile (·.char ≠ '\n')⟩
      else some ⟨spaces, next :: rest⟩

end Sift.Yaml
