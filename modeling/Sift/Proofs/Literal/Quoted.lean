import Sift.Proofs.Literal.Coercion
import Sift.Proofs.Timestamp.Decoding
import Sift.Proofs.Token.Quoted
import Sift.Proofs.Token.RightOperand
import Sift.Proofs.Token.Spacing

namespace Sift

/-! Between quotes, and with blanks around it, a literal is read as it is without them
where its type is known. -/

/-- The bare literals of a type, each with a text that stands for it between quotes. -/
inductive Quotable : ValueType → Symbol → String → Prop
  | number {source text : String} {offset : Nat}
      (htoken : ⟨.number, text, offset⟩ ∈ tokenize source) :
      Quotable .number ⟨.number, text⟩ text
  | timestamp {source text : String} {offset : Nat}
      (htoken : ⟨.dateTime, text, offset⟩ ∈ tokenize source) :
      Quotable .timestamp ⟨.dateTime, text⟩ text
  | boolTrue {text : String} (htext : Text.SameName text "true") :
      Quotable .bool ⟨.true, "true"⟩ text
  | boolFalse {text : String} (htext : Text.SameName text "false") :
      Quotable .bool ⟨.false, "false"⟩ text

namespace Text

theorem dropWhile_blanks {front rest : List Char} (hfront : ∀ c ∈ front, isBlank c = true)
    (hrest : ∀ c ∈ rest.head?, isBlank c = false) :
    (front ++ rest).dropWhile isBlank = rest := by
  rw [List.dropWhile_append_of_pos hfront]
  cases rest with
  | nil => rfl
  | cons c rest => rw [List.dropWhile_cons_of_neg (by simp [hrest c rfl])]

/-- Of a text without blanks only the blanks around it are trimmed. -/
theorem trim_append {before text after : List Char}
    (hbefore : ∀ c ∈ before, isBlank c = true) (hne : text ≠ [])
    (htext : ∀ c ∈ text, isBlank c = false) (hafter : ∀ c ∈ after, isBlank c = true) :
    trim (before ++ text ++ after) = text := by
  have hhead : ∀ c ∈ (text ++ after).head?, isBlank c = false := by
    obtain ⟨c, others, rfl⟩ := List.exists_cons_of_ne_nil hne
    rintro head ⟨rfl⟩
    exact htext c List.mem_cons_self
  have hlast : ∀ c ∈ text.reverse.head?, isBlank c = false :=
    fun c hc => htext c (List.mem_reverse.mp (List.mem_of_mem_head? hc))
  have hback : ∀ c ∈ after.reverse, isBlank c = true :=
    fun c hc => hafter c (List.mem_reverse.mp hc)
  rw [trim, List.append_assoc, dropWhile_blanks hbefore hhead, List.reverse_append,
    dropWhile_blanks hback hlast, List.reverse_reverse]

namespace Quoted

/-- Characters that are no quote and no backslash stand for themselves. -/
theorem exists_plain_pieces {quote : Char} {text : List Char}
    (htext : ∀ c ∈ text, c ≠ quote ∧ c ≠ '\\') :
    ∃ pieces : List (Piece quote), pieces.flatMap Piece.written = text ∧
      pieces.flatMap Piece.value = text := by
  induction text with
  | nil => exact ⟨[], rfl, rfl⟩
  | cons c text ih =>
      obtain ⟨⟨hquote, hbackslash⟩, hrest⟩ := List.forall_mem_cons.mp htext
      obtain ⟨pieces, hwritten, hvalue⟩ := ih hrest
      refine ⟨.plain c hquote hbackslash :: pieces, ?_, ?_⟩
      · rw [List.flatMap_cons, hwritten]
        rfl
      · rw [List.flatMap_cons, hvalue]
        rfl

end Quoted

end Text

namespace Lexeme

theorem beginsApart_of_isDigit {c : Char} (h : c.isDigit = true) (cs : List Char) :
    BeginsApart (c :: cs) := by
  rintro head ⟨rfl⟩
  refine ⟨isBlank_of_isDigit h, ?_, ?_⟩
  · rintro rfl
    cases h
  · rintro rfl
    cases h

theorem joins_of_numeral {whole fraction : List Char} (hwhole : Decimal.Digits whole)
    (hfraction : Decimal.Digits fraction) :
    ∀ c ∈ Decimal.numeral whole fraction, Joins c := by
  have hdigits : ∀ {digits}, Decimal.Digits digits → ∀ c ∈ digits, Joins c :=
    fun h c hc => .inl (isWordChar_iff.mpr (.inr (h c hc)))
  rw [Decimal.numeral, List.forall_mem_append]
  refine ⟨hdigits hwhole, ?_⟩
  split
  · exact List.forall_mem_nil _
  · exact List.forall_mem_cons.mpr ⟨by decide, hdigits hfraction⟩

theorem joins_of_sameName {text word : String} (h : Text.SameName text word)
    (hword : IsWord word.toList) : text ≠ "" ∧ ∀ c ∈ text.toList, Joins c := by
  have htext := isWord_of_sameName h.symm hword
  refine ⟨?_, fun c hc => .inl (htext.isWordChar_of_mem hc)⟩
  rintro rfl
  exact htext

theorem Joins.not_isBlank {c : Char} (h : Joins c) : Text.isBlank c = false := by
  by_contra hblank
  exact not_joins_of_isBlank (Bool.of_not_eq_false hblank) h

theorem isQuote_cases {quote : Char} (h : Text.Quoted.isQuote quote = true) :
    quote = '\'' ∨ quote = '"' :=
  (Bool.or_eq_true_iff.mp h).imp of_decide_eq_true of_decide_eq_true

/-- Such characters, and blanks, stand between quotes for themselves. -/
theorem plain_of_joins_or_blank {quote c : Char} (hquote : Text.Quoted.isQuote quote = true)
    (h : Joins c ∨ Text.isBlank c = true) : c ≠ quote ∧ c ≠ '\\' := by
  constructor
  · rintro rfl
    revert h
    rcases isQuote_cases hquote with rfl | rfl <;> decide
  · rintro rfl
    revert h
    decide

end Lexeme

theorem Lexeme.number?_of_scan {cs : List Char} (h : (scan cs).kind = .number) :
    number? cs = some (scan cs) := by
  have hwell : (scan cs).kind ≠ .malformed := by simp [h]
  rcases exists_rule hwell with
    ⟨-, hkind⟩ | ⟨-, hkind⟩ | ⟨hrule, -⟩ | ⟨-, hkind⟩ | ⟨-, word, hkind⟩ | ⟨-, hkind⟩
  · cases hkind.symm.trans h
  · cases hkind.symm.trans h
  · exact hrule
  · cases hkind.symm.trans h
  · rcases wordKind_cases word with hword | hword | hword | hword <;>
      cases (hkind.trans hword).symm.trans h
  · cases hkind.symm.trans h

/-- The text of a number token is a numeral from end to end. -/
theorem numeral_of_mem_tokenize {source : String} {token : Token}
    (h : token ∈ tokenize source) (hkind : token.kind = .number) :
    ∃ whole fraction, token.text.toList = Decimal.numeral whole fraction ∧
      Decimal.Digits whole ∧ whole ≠ [] ∧ Decimal.Digits fraction := by
  obtain ⟨rest, hscan, htext⟩ :=
    exists_scan_of_mem_tokenize h (by simp [hkind]) (by simp [hkind])
  have hnumber := Lexeme.number?_of_scan (hscan.trans hkind)
  rcases hlexeme : Lexeme.scan rest with ⟨kind, length⟩
  rw [hlexeme] at hscan hnumber htext
  obtain rfl : kind = .number := hscan.trans hkind
  obtain ⟨whole, fraction, back, rfl, rfl, hwhole, hne, hfraction, -⟩ :=
    Lexeme.number?_eq_some hnumber
  refine ⟨whole, fraction, ?_, hwhole, hne, hfraction⟩
  rw [htext, List.take_left]

/-- The symbol is a literal, and is read as one lexeme where nothing else follows. -/
structure Symbol.LoneLiteral (symbol : Symbol) : Prop where
  kind_mem : symbol.kind ∈ [.number, .true, .false, .string, .dateTime]
  scan_eq : Lexeme.scan symbol.text.toList = ⟨symbol.kind, symbol.text.toList.length⟩
  apart : Lexeme.BeginsApart symbol.text.toList

theorem Symbol.LoneLiteral.kind_ne {symbol : Symbol} (h : symbol.LoneLiteral) :
    symbol.kind ≠ .malformed ∧ symbol.kind ≠ .blank ∧ symbol.kind ≠ .finish := by
  have hmem := h.kind_mem
  simp only [List.mem_cons, List.not_mem_nil, or_false] at hmem
  rcases hmem with hkind | hkind | hkind | hkind | hkind <;> simp [hkind]

theorem Symbol.LoneLiteral.tokenize_eq {symbol : Symbol} (h : symbol.LoneLiteral) :
    tokenize symbol.text = [⟨symbol.kind, symbol.text, 0⟩,
      ⟨.finish, "", symbol.text.utf8ByteSize⟩] := by
  have hpos := Lexeme.scan_length_pos symbol.text.toList
  rw [h.scan_eq] at hpos
  have hscan : Lexeme.scan (symbol.text.toList ++ "".toList) = _ :=
    (congrArg Lexeme.scan (List.append_nil _)).trans h.scan_eq
  have htokens := tokenize_append (List.length_pos_iff.mp hpos) hscan h.kind_ne.1
  rw [String.append_empty] at htokens
  rw [htokens, tokenize, Cursor.ofText, String.toList_empty, Cursor.toList_nil,
    List.map_singleton, Token.shift, Nat.add_zero]

/-- The text between two quotes. -/
def Symbol.quoted (quote : Char) (text : String) : Symbol :=
  ⟨.string, String.ofList (quote :: text.toList ++ [quote])⟩

/-- Without quotes and backslashes in it the text is what the symbol stands for. -/
theorem denotes_quoted {quote : Char} {text : String}
    (hquote : Text.Quoted.isQuote quote = true)
    (htext : ∀ c ∈ text.toList, c ≠ quote ∧ c ≠ '\\') :
    (Symbol.quoted quote text).LoneLiteral ∧
      (Symbol.quoted quote text).Denotes (.string text) := by
  obtain ⟨pieces, hwritten, hvalue⟩ := Text.Quoted.exists_plain_pieces htext
  have henclosed : Text.Quoted.enclosed pieces = quote :: text.toList ++ [quote] := by
    rw [Text.Quoted.enclosed, hwritten]
  have hchars : (Symbol.quoted quote text).text.toList = quote :: text.toList ++ [quote] :=
    String.toList_ofList
  have hscan := Lexeme.scan_enclosed hquote pieces []
  have hdecode := Text.Quoted.decode_enclosed hquote pieces
  rw [List.append_nil, henclosed] at hscan
  rw [henclosed, hvalue, ← hchars] at hdecode
  refine ⟨⟨by simp [Symbol.quoted], ?_, ?_⟩, ?_⟩
  · rw [hchars]
    exact hscan
  · rw [hchars]
    rintro head ⟨rfl⟩
    rcases Lexeme.isQuote_cases hquote with rfl | rfl <;> decide
  · have hstring : (Symbol.quoted quote text).Denotes (.string (String.ofList
        (Text.Quoted.decode (Symbol.quoted quote text).text.toList))) := .string
    rwa [hdecode, String.ofList_toList] at hstring

theorem Text.SameName.map_toLower {first second : String} (h : Text.SameName first second) :
    first.toList.map Char.toLower = second.toList.map Char.toLower :=
  String.ofList_injective h

/-! Bare and between quotes, the same two readers tell the constant. -/

namespace Symbol

variable {text : String} {value : Literal}

theorem denotes_number_iff : Denotes ⟨.number, text⟩ value ↔
    ∃ number, Decimal.parse text.toList = .ok number ∧ value = .number number := by
  constructor
  · intro h
    cases h with
    | number hread => exact ⟨_, hread, rfl⟩
  · rintro ⟨number, hread, rfl⟩
    exact .number hread

theorem denotes_dateTime_iff : Denotes ⟨.dateTime, text⟩ value ↔
    ∃ timestamp, Timestamp.parse text.toList = .ok timestamp ∧
      value = .timestamp timestamp := by
  constructor
  · intro h
    cases h with
    | dateTime hread => exact ⟨_, hread, rfl⟩
  · rintro ⟨timestamp, hread, rfl⟩
    exact .dateTime hread

theorem denotes_true_iff : Denotes ⟨.true, text⟩ value ↔ value = .bool true := by
  constructor
  · rintro ⟨⟩
    rfl
  · rintro rfl
    exact .true

theorem denotes_false_iff : Denotes ⟨.false, text⟩ value ↔ value = .bool false := by
  constructor
  · rintro ⟨⟩
    rfl
  · rintro rfl
    exact .false

end Symbol

namespace Literal

variable {text : String} {value : Literal}

theorem readNumber?_eq_some_iff : readNumber? text = some value ↔
    ∃ number, Decimal.parse (Text.trim text.toList) = .ok number ∧
      value = .number number := by
  unfold readNumber?
  cases Decimal.parse (Text.trim text.toList) with
  | ok number =>
      simp only [Option.some_inj, Except.ok.injEq, exists_eq_left']
      exact eq_comm
  | error fault => simp

theorem readTimestamp?_eq_some_iff {inner : String} {length : Nat}
    (htokens : tokenize (String.ofList (Text.trim text.toList)) =
      [⟨.dateTime, inner, 0⟩, ⟨.finish, "", length⟩]) :
    readTimestamp? text = some value ↔
      ∃ timestamp, Timestamp.parse inner.toList = .ok timestamp ∧
        value = .timestamp timestamp := by
  simp only [readTimestamp?, htokens, if_true]
  cases Timestamp.parse inner.toList with
  | ok timestamp =>
      simp only [Option.some_inj, Except.ok.injEq, exists_eq_left']
      exact eq_comm
  | error fault => simp

theorem readBool?_true
    (h : (Text.trim text.toList).map Char.toLower = "true".toList) :
    readBool? text = some (.bool true) := by
  simp only [readBool?, h, if_true]

theorem readBool?_false
    (h : (Text.trim text.toList).map Char.toLower = "false".toList) :
    readBool? text = some (.bool false) := by
  simp only [readBool?, h, if_true]
  rfl

end Literal

namespace Quotable

variable {target : ValueType} {bare : Symbol} {inner : String}

theorem loneLiteral (h : Quotable target bare inner) : bare.LoneLiteral := by
  cases h with
  | number htoken =>
      obtain ⟨whole, fraction, htext, hwhole, hne, hfraction⟩ :=
        numeral_of_mem_tokenize htoken rfl
      have hscan : Lexeme.scan (Decimal.numeral whole fraction ++ []) = _ :=
        Lexeme.scan_numeral hwhole hne hfraction nofun
      rw [List.append_nil, ← htext] at hscan
      refine ⟨by simp, hscan, ?_⟩
      obtain ⟨c, others, rfl⟩ := List.exists_cons_of_ne_nil hne
      change inner.toList = c :: _ at htext
      change Lexeme.BeginsApart inner.toList
      rw [htext]
      exact Lexeme.beginsApart_of_isDigit (hwhole c List.mem_cons_self) _
  | timestamp htoken =>
      obtain ⟨written, hread⟩ := read?_of_mem_tokenize htoken rfl
      have hscan : Lexeme.scan (inner.toList ++ []) = _ :=
        Lexeme.scan_dateTime (by rwa [List.append_nil])
      rw [List.append_nil] at hscan
      refine ⟨by simp, hscan, ?_⟩
      rintro c hc
      obtain ⟨others, hothers⟩ := List.head?_eq_some_iff.mp hc
      rw [hothers] at hread
      exact Lexeme.beginsApart_of_isDigit (Lexeme.isDigit_of_read? hread) others c rfl
  | boolTrue htext =>
      refine ⟨by simp, by decide, ?_⟩
      rintro c ⟨rfl⟩
      decide
  | boolFalse htext =>
      refine ⟨by simp, by decide, ?_⟩
      rintro c ⟨rfl⟩
      decide

/-- What stands between the quotes stands there as it is, apart from the blanks. -/
theorem joins_inner (h : Quotable target bare inner) :
    inner ≠ "" ∧ ∀ c ∈ inner.toList, Lexeme.Joins c := by
  cases h with
  | number htoken =>
      obtain ⟨whole, fraction, htext, hwhole, hne, hfraction⟩ :=
        numeral_of_mem_tokenize htoken rfl
      change inner.toList = _ at htext
      rw [htext]
      refine ⟨?_, Lexeme.joins_of_numeral hwhole hfraction⟩
      rintro rfl
      obtain ⟨c, others, rfl⟩ := List.exists_cons_of_ne_nil hne
      cases htext
  | timestamp htoken =>
      obtain ⟨written, hread⟩ := read?_of_mem_tokenize htoken rfl
      refine ⟨?_, Timestamp.Written.joins_of_read? hread⟩
      rintro rfl
      cases Timestamp.Written.length_pos_of_read? hread
  | boolTrue htext => exact Lexeme.joins_of_sameName htext (by decide)
  | boolFalse htext => exact Lexeme.joins_of_sameName htext (by decide)

section Blanks

variable {before after : String} (hbefore : ∀ c ∈ before.toList, Text.isBlank c = true)
  (hafter : ∀ c ∈ after.toList, Text.isBlank c = true)

include hbefore hafter

theorem denotes (h : Quotable target bare inner) {quote : Char}
    (hquote : Text.Quoted.isQuote quote = true) :
    (Symbol.quoted quote (before ++ inner ++ after)).LoneLiteral ∧
      (Symbol.quoted quote (before ++ inner ++ after)).Denotes
        (.string (before ++ inner ++ after)) := by
  apply denotes_quoted hquote
  rw [String.toList_append, String.toList_append, List.forall_mem_append,
    List.forall_mem_append]
  refine ⟨⟨fun c hc => ?_, fun c hc => ?_⟩, fun c hc => ?_⟩
  · exact Lexeme.plain_of_joins_or_blank hquote (.inr (hbefore c hc))
  · exact Lexeme.plain_of_joins_or_blank hquote (.inl (h.joins_inner.2 c hc))
  · exact Lexeme.plain_of_joins_or_blank hquote (.inr (hafter c hc))

theorem trim_eq (h : Quotable target bare inner) :
    Text.trim (before ++ inner ++ after).toList = inner.toList := by
  obtain ⟨hne, hjoins⟩ := h.joins_inner
  rw [String.toList_append, String.toList_append]
  exact Text.trim_append hbefore (fun hnil => hne (String.toList_eq_nil_iff.mp hnil))
    (fun c hc => (hjoins c hc).not_isBlank) hafter

end Blanks

variable {type : StaticType} (htype : type.value = target)

include htype

theorem coerce_bare (h : Quotable target bare inner) {value : Literal}
    (hvalue : bare.Denotes value) : value.coerce type = .ok value := by
  cases h with
  | number | timestamp | boolTrue | boolFalse =>
      cases hvalue
      exact Literal.coerce_of_type_eq htype.symm rfl

/-- Read as a constant of the type, the text is what the bare literal is, if anything. -/
theorem exists_read (h : Quotable target bare inner) {text : String}
    (htrim : Text.trim text.toList = inner.toList) :
    ∃ read, (Literal.string text).coerce type = Literal.readAs text target read ∧
      ∀ value, read = some value ↔ bare.Denotes value := by
  have hlone := h.loneLiteral
  cases h with
  | number htoken =>
      refine ⟨Literal.readNumber? text, by simp only [Literal.coerce, htype],
        fun value => ?_⟩
      rw [Literal.readNumber?_eq_some_iff, htrim, Symbol.denotes_number_iff]
  | timestamp htoken =>
      refine ⟨Literal.readTimestamp? text, by simp only [Literal.coerce, htype],
        fun value => ?_⟩
      have htokens := hlone.tokenize_eq
      change tokenize inner = _ at htokens
      rw [← String.ofList_toList (s := inner), ← htrim] at htokens
      rw [Literal.readTimestamp?_eq_some_iff htokens, htrim, String.ofList_toList,
        Symbol.denotes_dateTime_iff]
  | boolTrue htext =>
      refine ⟨Literal.readBool? text, by simp only [Literal.coerce, htype],
        fun value => ?_⟩
      rw [Literal.readBool?_true (htrim ▸ htext.map_toLower), Symbol.denotes_true_iff,
        Option.some_inj, eq_comm]
  | boolFalse htext =>
      refine ⟨Literal.readBool? text, by simp only [Literal.coerce, htype],
        fun value => ?_⟩
      rw [Literal.readBool?_false (htrim ▸ htext.map_toLower), Symbol.denotes_false_iff,
        Option.some_inj, eq_comm]

end Quotable

end Sift
