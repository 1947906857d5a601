import Sift.Text.Bytes
import Sift.Token.Lexeme

namespace Sift

/-! Reading a filter text token by token. -/

namespace Lexeme

def malformedRun (cs : List Char) : Nat :=
  if cs = [] then 0
  else
    let lexeme := scan cs
    if lexeme.kind = .malformed then
      lexeme.length + malformedRun (cs.drop lexeme.length)
    else 0
termination_by cs.length
decreasing_by
  have hpos := scan_length_pos cs
  have hlength := List.length_pos_iff.mpr ‹cs ≠ []›
  simp only [List.length_drop]
  omega

/-- The lexeme at the front of a text, where adjacent malformed lexemes are one. -/
def front (cs : List Char) : Lexeme :=
  let lexeme := scan cs
  if lexeme.kind = .malformed then ⟨.malformed, malformedRun cs⟩ else lexeme

theorem malformedRun_pos {cs : List Char} (hne : cs ≠ [])
    (hkind : (scan cs).kind = .malformed) : 0 < malformedRun cs := by
  have hpos := scan_length_pos cs
  rw [malformedRun, if_neg hne]
  simp only [hkind, if_true]
  omega

theorem front_length_pos {cs : List Char} (hne : cs ≠ []) :
    0 < (front cs).length := by
  simp only [front]
  split
  · exact malformedRun_pos hne ‹_›
  · exact scan_length_pos cs

end Lexeme

/-- A place in a text between two tokens. The text is finished once its end has been
read as a token of its own. -/
structure Cursor where
  rest : List Char
  offset : Nat
  finished : Bool

namespace Cursor

def ofText (text : String) : Cursor :=
  { rest := text.toList, offset := 0, finished := false }

def next (cursor : Cursor) : Option Token × Cursor :=
  if cursor.finished then (none, cursor)
  else if cursor.rest = [] then
    (some ⟨.finish, "", cursor.offset⟩, { cursor with finished := true })
  else
    let lexeme := Lexeme.front cursor.rest
    let text := cursor.rest.take lexeme.length
    (some ⟨lexeme.kind, String.ofList text, cursor.offset⟩,
      { cursor with
        rest := cursor.rest.drop lexeme.length
        offset := cursor.offset + Text.byteLength text })

/-- A bound on the number of tokens to come. -/
def remaining (cursor : Cursor) : Nat :=
  if cursor.finished then 0 else cursor.rest.length + 1

theorem remaining_next_lt {cursor after : Cursor} {token : Token}
    (h : cursor.next = (some token, after)) : after.remaining < cursor.remaining := by
  simp only [next] at h
  split at h
  · cases h
  · rename_i hfinished
    split at h
    · cases h
      simp [remaining, hfinished]
    · rename_i hrest
      cases h
      have hpos := Lexeme.front_length_pos hrest
      have hlength := List.length_pos_iff.mpr hrest
      simp only [remaining, hfinished, List.length_drop, Bool.false_eq_true, if_false]
      omega

def toList (cursor : Cursor) : List Token :=
  match _ : cursor.next with
  | (some token, after) => token :: after.toList
  | (none, _) => []
termination_by cursor.remaining
decreasing_by exact remaining_next_lt ‹_›

end Cursor

def tokenize (text : String) : List Token :=
  (Cursor.ofText text).toList

end Sift
