namespace Sift.Text.Quoted

/-! Quoted text. A backslash takes the character after it along: the two stand for
one character, or for themselves when the pair has no meaning. -/

def isQuote (c : Char) : Bool :=
  c = '\'' || c = '"'

/-- The number of characters up to and with the quote that closes the text. -/
def closing? (quote : Char) : List Char → Option Nat
  | '\\' :: _ :: cs => (closing? quote cs).map (· + 2)
  | c :: cs => if c = quote then some 1 else (closing? quote cs).map (· + 1)
  | [] => none

def escaped (quote : Char) : Char → List Char
  | '\\' => ['\\']
  | 'n' => ['\n']
  | 'r' => ['\r']
  | 'b' => ['\x08']
  | 't' => ['\t']
  | 'v' => ['\x0b']
  | c => if c = quote then [c] else ['\\', c]

def unescape (quote : Char) : List Char → List Char
  | '\\' :: c :: cs => escaped quote c ++ unescape quote cs
  | ['\\'] => []
  | c :: cs => c :: unescape quote cs
  | [] => []

def decode : List Char → List Char
  | quote :: cs => unescape quote cs.dropLast
  | [] => []

def encodeChar : Char → List Char
  | '\'' => ['\\', '\'']
  | '\\' => ['\\', '\\']
  | '\n' => ['\\', 'n']
  | '\r' => ['\\', 'r']
  | '\t' => ['\\', 't']
  | '\x08' => ['\\', 'b']
  | '\x0b' => ['\\', 'v']
  | c => [c]

def encode (text : List Char) : List Char :=
  '\'' :: text.flatMap encodeChar ++ ['\'']

end Sift.Text.Quoted
