import Sift.Yaml.Layout
import Sift.Yaml.Node

namespace Sift.Yaml

/-! Scalars as written, plain or between quotes, the breaks between their lines folded.
What has been read is kept with its last character first. -/

/-- Spaces and line breaks that belong to a scalar only if it goes on after them. -/
structure Fold where
  spaces : List Char
  breaks : Nat
  joined : Bool

namespace Fold

def empty : Fold := ⟨[], 0, false⟩

def isEmpty (fold : Fold) : Bool :=
  fold.spaces.isEmpty && fold.breaks = 0 && !fold.joined

def crossed (fold : Fold) : Bool :=
  fold.breaks ≠ 0 || fold.joined

def addSpace (fold : Fold) (c : Char) : Fold :=
  if fold.crossed then fold else { fold with spaces := c :: fold.spaces }

def addBreak (fold : Fold) : Fold :=
  { fold with spaces := [], breaks := fold.breaks + 1 }

/-- One break is a space; of more breaks the first is dropped. -/
def text (fold : Fold) : List Char :=
  if fold.joined then List.replicate fold.breaks '\n'
  else if fold.breaks = 0 then fold.spaces
  else if fold.breaks = 1 then [' ']
  else List.replicate (fold.breaks - 1) '\n'

end Fold

structure PlainState where
  inFlow : Bool
  margin : Nat
  text : List Char
  fold : Fold
  tabbed : Bool
  inComment : Bool

namespace PlainState

def atWord (state : PlainState) : Bool :=
  state.text.isEmpty || !state.fold.isEmpty

/-- At a colon that ends a key, at a flow indicator inside brackets, and between words also
at a comment, at a marker, or where a line of a block is not indented. -/
def endsAt (state : PlainState) (next : Placed) (rest : List Placed) : Bool :=
  (next.char = ':' && (endsWord rest || (state.inFlow && meetsFlow rest))) ||
    (state.inFlow && isFlowIndicator next.char) ||
    (state.atWord && (next.char = '#' || isDocumentMarker (next :: rest))) ||
    (!state.inFlow && state.fold.crossed && next.column < state.margin)

/-- Inside brackets a dash alone is no word. -/
def refuses (state : PlainState) (next : Placed) (rest : List Placed) : Bool :=
  state.inFlow && state.atWord && next.char = '-' && meetsFlow rest

def addSpace (state : PlainState) (next : Placed) : PlainState :=
  let indents := state.fold.crossed && next.char = '\t' && next.column < state.margin
  { state with
    fold := state.fold.addSpace next.char
    tabbed := state.tabbed || indents }

def addBreak (state : PlainState) : PlainState :=
  { state with fold := state.fold.addBreak, tabbed := false, inComment := false }

def addChar (state : PlainState) (c : Char) : PlainState :=
  { state with text := c :: (state.fold.text ++ state.text), fold := .empty }

end PlainState

structure PlainRead where
  text : List Char
  crossed : Bool
  rest : List Placed

def plainFrom (state : PlainState) : List Placed → Option PlainRead
  | [] => some ⟨state.text.reverse, state.fold.crossed, []⟩
  | next :: rest =>
      if next.char = '\n' then plainFrom state.addBreak rest
      else if state.inComment then plainFrom state rest
      else if isSpace next.char then plainFrom (state.addSpace next) rest
      else if state.tabbed then
        if next.char = '#' then plainFrom { state with inComment := true } rest else none
      else if state.endsAt next rest then
        some ⟨state.text.reverse, state.fold.crossed, next :: rest⟩
      else if state.refuses next rest then none
      else plainFrom (state.addChar next.char) rest

/-- Inside brackets a plain scalar must begin at the margin or further right. -/
def plain? (inFlow : Bool) (margin : Nat) (cs : List Placed) : Option PlainRead :=
  if inFlow && cs.head?.any (·.column < margin) then none
  else plainFrom ⟨inFlow, margin, [], .empty, false, false⟩ cs

structure QuotedState where
  margin : Nat
  text : List Char
  fold : Fold
  justJoined : Bool

namespace QuotedState

def start (margin : Nat) : QuotedState :=
  ⟨margin, [], .empty, false⟩

/-- After spaces and line breaks the scalar must not go on left of the block. -/
def admits (state : QuotedState) (cs : List Placed) : Bool :=
  state.fold.isEmpty ||
    !(cs.head?.any (·.isLeftOf state.margin) || isDocumentMarker cs)

def push? (state : QuotedState) (cs : List Placed) (text : List Char) :
    Option QuotedState :=
  if state.admits cs then
    some
      { state with
        text := text.reverse ++ (state.fold.text ++ state.text)
        fold := .empty
        justJoined := false }
  else none

def pushBlank? (state : QuotedState) (next : Placed) : Option QuotedState :=
  if next.char = '\n' then
    some { state with fold := state.fold.addBreak, justJoined := false }
  -- A tab must not indent a line of a block.
  else if next.char = '\t' && state.fold.crossed && next.isLeftOf state.margin then none
  else some { state with fold := state.fold.addSpace next.char, justJoined := false }

def join? (state : QuotedState) (cs : List Placed) : Option QuotedState :=
  (state.push? cs []).map fun state =>
    { state with fold := ⟨[], 0, true⟩, justJoined := true }

def finish? (state : QuotedState) (cs : List Placed) : Option (List Char) :=
  if state.justJoined then some state.text.reverse
  else (state.push? cs []).map fun state => state.text.reverse

end QuotedState

def singleQuotedFrom (state : QuotedState) :
    List Placed → Option (List Char × List Placed)
  | [] => none
  | next :: rest =>
      if next.char = '\'' then
        match rest with
        | again :: after =>
            if again.char = '\'' then do
              singleQuotedFrom (← state.push? (next :: rest) ['\'']) after
            else do
              some (← state.finish? (next :: rest), rest)
        | [] => do
            some (← state.finish? (next :: rest), rest)
      else if isSpace next.char || next.char = '\n' then do
        singleQuotedFrom (← state.pushBlank? next) rest
      else do
        singleQuotedFrom (← state.push? (next :: rest) [next.char]) rest

def escape? : Char → Option Char
  | '0' => some '\x00'
  | 'a' => some '\x07'
  | 'b' => some '\x08'
  | 't' => some '\t'
  | '\t' => some '\t'
  | 'n' => some '\n'
  | 'v' => some '\x0b'
  | 'f' => some '\x0c'
  | 'r' => some '\r'
  | 'e' => some '\x1b'
  | ' ' => some ' '
  | '"' => some '"'
  | '/' => some '/'
  | '\\' => some '\\'
  | 'N' => some '\u0085'
  | '_' => some '\u00a0'
  | 'L' => some '\u2028'
  | 'P' => some '\u2029'
  | _ => none

def codeLength? : Char → Option Nat
  | 'x' => some 2
  | 'u' => some 4
  | 'U' => some 8
  | _ => none

def coded? (digits : List Char) : Option Char := do
  let code ← Scalar.natural? 16 digits
  if code.isValidChar then some (Char.ofNat code) else none

def escaped? : List Placed → Option (Char × Nat)
  | [] => none
  | mark :: rest =>
      match codeLength? mark.char with
      | some length =>
          let digits := (rest.take length).map Placed.char
          if digits.length = length then (coded? digits).map (·, length + 1) else none
      | none => (escape? mark.char).map (·, 1)

/-- The first `skipped` characters have been read as part of an escape. -/
def doubleQuotedFrom (state : QuotedState) (skipped : Nat) :
    List Placed → Option (List Char × List Placed)
  | [] => none
  | next :: rest =>
      match skipped with
      | skipped + 1 => doubleQuotedFrom state skipped rest
      | 0 =>
          if next.char = '"' then do
            some (← state.finish? (next :: rest), rest)
          else if next.char = '\\' then
            if rest.head?.any (·.char = '\n') then do
              doubleQuotedFrom (← state.join? (next :: rest)) 1 rest
            else do
              let (c, length) ← escaped? rest
              doubleQuotedFrom (← state.push? (next :: rest) [c]) length rest
          else if isSpace next.char || next.char = '\n' then do
            doubleQuotedFrom (← state.pushBlank? next) 0 rest
          else do
            doubleQuotedFrom (← state.push? (next :: rest) [next.char]) 0 rest

/-- What may follow a quoted scalar. Outside of brackets a key takes one line. -/
def endsQuoted (inFlow : Bool) (line : Nat) : List Placed → Bool
  | [] => true
  | next :: _ =>
      next.char = '\n' || (next.char = ':' && (inFlow || next.line = line)) ||
        (inFlow && (next.char = ',' || next.char = ']' || next.char = '}'))

def quoted? (inFlow : Bool) (margin : Nat) :
    List Placed → Option (List Char × List Placed)
  | [] => none
  | quote :: rest => do
      let state := QuotedState.start margin
      let (text, rest) ←
        if quote.char = '"' then doubleQuotedFrom state 0 rest
        else singleQuotedFrom state rest
      let lineEnd ← lineEnd? rest
      if endsQuoted inFlow quote.line lineEnd.rest then some (text, lineEnd.rest)
      else none

end Sift.Yaml
