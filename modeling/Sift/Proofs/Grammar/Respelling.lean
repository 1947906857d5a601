import Sift.Proofs.Grammar.Lockstep

namespace Sift

/-! What a text is refused for is decided by its tokens up to the one that it is refused
at, and not by how they are spelled. -/

/-- The tokens of a text that are not blank. The last one is its end. -/
def visible (text : String) : List Token :=
  (tokenize text).filter fun token => token.kind ≠ .blank

namespace Cursor

theorem offset_le_of_mem {cs : List Char} {offset : Nat} {token : Token}
    (h : token ∈ (Cursor.mk cs offset false).toList) : offset ≤ token.offset := by
  obtain ⟨before, after, htokens⟩ := List.append_of_mem h
  obtain ⟨front, -, -, hoffset, -⟩ := exists_append_of_toList_eq htokens
  omega

theorem pairwise_toList (cs : List Char) (offset : Nat) :
    (Cursor.mk cs offset false).toList.Pairwise fun first second =>
      first.offset < second.offset := by
  induction cs using Lexeme.front_induction generalizing offset with
  | finish =>
      rw [toList_nil]
      exact List.pairwise_singleton _ _
  | lexeme cs hne ih =>
      rw [toList_of_ne_nil hne, List.pairwise_cons]
      refine ⟨fun token htoken => ?_, ih _⟩
      have hle := offset_le_of_mem htoken
      have hpos : 0 < Text.byteLength (cs.take (Lexeme.front cs).length) := by
        apply Nat.pos_of_ne_zero
        rw [ne_eq, Text.byteLength_eq_zero, List.take_eq_nil_iff]
        have hlength := Lexeme.front_length_pos hne
        rintro (hzero | hnil)
        · omega
        · exact hne hnil
      dsimp only
      omega

end Cursor

theorem pairwise_visible (text : String) :
    (visible text).Pairwise fun first second => first.offset < second.offset :=
  (Cursor.pairwise_toList text.toList 0).filter _

theorem place_unique {text : String} {place other : Nat} {token partner : Token}
    (htoken : (visible text)[place]? = some token)
    (hpartner : (visible text)[other]? = some partner)
    (hoffset : token.offset = partner.offset) : place = other := by
  have hnodup : ((visible text).map Token.offset).Nodup :=
    List.pairwise_map.mpr ((pairwise_visible text).imp Nat.ne_of_lt)
  have hplace : place < (visible text).length :=
    (List.getElem?_eq_some_iff.mp htoken).1
  refine (List.getElem?_inj (by rwa [List.length_map]) hnodup).mp ?_
  rw [List.getElem?_map, List.getElem?_map, htoken, hpartner]
  exact congrArg some hoffset

namespace Grammar

theorem visible_eq (text : String) :
    visible text = significant (tokenize text) ++ [⟨.finish, "", text.utf8ByteSize⟩] := by
  obtain ⟨pieces, hpieces, hproper⟩ := (tiling_tokenize text).finish
  have hkeep : ∀ token ∈ pieces, decide (token.kind ≠ .blank) =
      decide (token.kind ≠ .blank ∧ token.kind ≠ .finish) := by
    intro token htoken
    simp [(hproper token htoken).1]
  rw [visible, significant, hpieces, List.filter_append, List.filter_append,
    List.filter_congr hkeep, List.append_assoc]
  rfl

theorem getElem?_visible {text : String} {place : Nat} {token : Token}
    (h : (significant (tokenize text))[place]? = some token) :
    (visible text)[place]? = some token := by
  obtain ⟨hplace, -⟩ := List.getElem?_eq_some_iff.mp h
  rwa [visible_eq, List.getElem?_append_left hplace]

/-- The next token of the grammar, or else the end of the text, is visible. -/
theorem exists_visible {ω : Type} {scope : Scope ω} {text : String}
    (hfinish : scope.finish = text.utf8ByteSize) {place : Nat}
    (hplace : place ≤ (significant (tokenize text)).length) :
    ∃ token, (visible text)[place]? = some token ∧
      token.offset = scope.offset ((significant (tokenize text)).drop place) := by
  cases htokens : (significant (tokenize text)).drop place with
  | nil =>
      have hlast := le_antisymm hplace (List.drop_eq_nil_iff.mp htokens)
      refine ⟨⟨.finish, "", text.utf8ByteSize⟩, ?_, hfinish.symm⟩
      rw [visible_eq, hlast]
      exact List.getElem?_concat_length
  | cons token rest =>
      exact ⟨token, getElem?_visible (Pair.getElem?_of_drop htokens), rfl⟩

/-- The tokens of the grammar are the visible ones, but for the end. -/
theorem getElem?_significant (text : String) (place : Nat) :
    (significant (tokenize text))[place]? =
      (visible text)[place]?.filter fun token => token.kind ≠ .finish := by
  rw [visible_eq, List.getElem?_append]
  split
  · rename_i hplace
    have hmem := List.getElem_mem hplace
    obtain ⟨-, -, hkind⟩ := mem_significant.mp hmem
    rw [List.getElem?_eq_getElem hplace, Option.filter_some, if_pos (by simpa using hkind)]
  · rename_i hplace
    rw [List.getElem?_eq_none (by omega), List.getElem?_singleton]
    split <;> rfl

/-- Two texts whose first visible tokens are the same but for their spelling. -/
def Pair.ofTexts {ω : Type} (registry : Registry ω) (root : HostType)
    (first second : String) (count : Nat)
    (hshared : ∀ place < count,
      Option.Rel (fun token other => Symbol.Respelled token.symbol other.symbol)
        (visible first)[place]? (visible second)[place]?) : Pair ω where
  scope := ⟨registry, root, first.utf8ByteSize⟩
  tokens := significant (tokenize first)
  others := significant (tokenize second)
  finish := second.utf8ByteSize
  count := count
  shared place hplace := by
    have hrel := hshared place hplace
    rw [getElem?_significant, getElem?_significant]
    generalize (visible first)[place]? = token at hrel
    generalize (visible second)[place]? = other at hrel
    cases hrel with
    | none => exact .none
    | @some token other hrespelled =>
        have hkind : token.kind = other.kind := hrespelled.kind_eq
        rw [Option.filter_some, Option.filter_some, hkind]
        split
        · exact .some hrespelled
        · exact .none

variable {ω : Type} {registry : Registry ω} {root : HostType} {text : String}

theorem parse_eq_parseTokens (hwell : ∀ token ∈ tokenize text, token.kind ≠ .malformed) :
    registry.parse root text =
      parseTokens ⟨registry, root, text.utf8ByteSize⟩ (significant (tokenize text)) := by
  have hfind : (tokenize text).find? (fun token => token.kind = .malformed) = none := by
    rw [List.find?_eq_none]
    intro token htoken
    simpa using hwell token htoken
  rw [Registry.parse, hfind]

theorem well_of_parse_error {error : ParseError}
    (herror : registry.parse root text = .error error)
    (hkind : error.cause.kind ≠ .lexical) :
    ∀ token ∈ tokenize text, token.kind ≠ .malformed := by
  unfold Registry.parse at herror
  dsimp only at herror
  split at herror
  · cases herror
    exact (hkind rfl).elim
  · rename_i hnone
    simpa using List.find?_eq_none.mp hnone

end Grammar

/-- The error is at the visible token at a place of the text. -/
def ParseError.At (error : ParseError) (text : String) (place : Nat) : Prop :=
  ∃ token, (visible text)[place]? = some token ∧ token.offset = error.offset

open Grammar (Pair)

variable {ω : Type}

/-- What is found in two texts that are the same but for their spelling. -/
inductive Parallel (first second : String) :
    Except ParseError (Expr ω) → Except ParseError (Expr ω) → Prop
  | ok (expr : Expr ω) : Parallel first second (.ok expr) (.ok expr)
  | error {place : Nat} {error other : ParseError} (hplace : error.At first place)
      (hother : other.At second place)
      (hcause : Pair.Recast (visible first)[place]? (visible second)[place]?
        error.cause other.cause) :
      Parallel first second (.error error) (.error other)
  | filter (found : StaticType) :
      Parallel first second (.error ⟨0, .filterNotBool found⟩)
        (.error ⟨0, .filterNotBool found⟩)

namespace Grammar

theorem Pair.Recast.visible {first second : String} {place : Nat}
    {cause other : ParseError.Cause}
    (h : Recast (significant (tokenize first))[place]?
      (significant (tokenize second))[place]? cause other) :
    Recast (visible first)[place]? (visible second)[place]? cause other := by
  generalize hfirst : (significant (tokenize first))[place]? = token at h
  generalize hsecond : (significant (tokenize second))[place]? = partner at h
  cases h with
  | same => exact .same _
  | member owner =>
      rw [getElem?_visible hfirst, getElem?_visible hsecond]
      exact .member owner

theorem length_visible (text : String) :
    (visible text).length = (significant (tokenize text)).length + 1 := by
  rw [visible_eq, List.length_append]
  rfl

theorem at_offset {scope : Scope ω} {text : String} {cause : ParseError.Cause}
    (hfinish : scope.finish = text.utf8ByteSize) {place : Nat}
    (hplace : place ≤ (significant (tokenize text)).length) :
    ParseError.At ⟨scope.offset ((significant (tokenize text)).drop place), cause⟩ text
      place :=
  exists_visible hfinish hplace

section Texts

variable {first second : String} {count : Nat}
  (hfirst : ∀ token ∈ tokenize first, token.kind ≠ .malformed)
  (hsecond : ∀ token ∈ tokenize second, token.kind ≠ .malformed)
  (hshared : ∀ place < count,
    Option.Rel (fun token other => Symbol.Respelled token.symbol other.symbol)
      (visible first)[place]? (visible second)[place]?)

include hshared

theorem length_le_of_shared {place : Nat}
    (hplace : place ≤ (significant (tokenize first)).length) (hcount : place < count) :
    place ≤ (significant (tokenize second)).length := by
  have hrel := hshared place hcount
  have hfirst := length_visible first
  have hsecond := length_visible second
  rw [List.getElem?_eq_getElem (by omega)] at hrel
  generalize hother : (visible second)[place]? = found at hrel
  cases hrel with
  | some =>
      have hlt := (List.getElem?_eq_some_iff.mp hother).1
      omega

include hfirst hsecond

theorem parse_decides (registry : Registry ω) (root : HostType) :
    (Pair.ofTexts registry root first second count hshared).Decides
      (registry.parse root first) (registry.parse root second) := by
  rw [parse_eq_parseTokens hfirst, parse_eq_parseTokens hsecond]
  exact Pair.parseTokens_decides _

/-- Texts that share their first tokens are refused alike where they share the token that
the one is refused at. -/
theorem parse_error_of_shared {registry : Registry ω} {root : HostType}
    {error : ParseError} (herror : registry.parse root first = .error error)
    (hkind : error.cause.kind ≠ .typing) :
    ∃ place, error.At first place ∧
      (place < count → ∃ other : ParseError, registry.parse root second = .error other ∧
        other.At second place ∧
          Pair.Recast (visible first)[place]? (visible second)[place]? error.cause
            other.cause) := by
  have hdecides := parse_decides hfirst hsecond hshared registry root
  rw [herror] at hdecides
  cases hdecides with
  | filter => exact (hkind rfl).elim
  | error hlast hplace htyping h =>
      obtain rfl := htyping hkind
      refine ⟨_, at_offset rfl hlast, fun hcount => ?_⟩
      obtain ⟨cause, hparse, hrecast⟩ := h hcount
      have hlength := length_le_of_shared hshared hlast hcount
      exact ⟨_, hparse, at_offset rfl hlength, hrecast.visible⟩

theorem parse_parallel (registry : Registry ω) (root : HostType)
    (hcount : (visible first).length ≤ count) :
    Parallel first second (registry.parse root first) (registry.parse root second) := by
  have hdecides := parse_decides hfirst hsecond hshared registry root
  have hlength := length_visible first
  generalize registry.parse root first = left at hdecides
  generalize registry.parse root second = right at hdecides
  cases hdecides with
  | ok h =>
      rw [h (show (significant (tokenize first)).length < count by omega)]
      exact .ok _
  | filter h =>
      rw [h (show (significant (tokenize first)).length < count by omega)]
      exact .filter _
  | @error place last cause _ hlast hplace htyping h =>
      have hwithin : last ≤ (significant (tokenize first)).length := hlast
      obtain ⟨other, rfl, hrecast⟩ := h (show last < count by omega)
      have hother := length_le_of_shared hshared (hplace.trans hlast) (by omega)
      exact .error (at_offset rfl (hplace.trans hlast)) (at_offset rfl hother)
        hrecast.visible

end Texts

theorem getElem?_map_of_take {first second : String} {count place : Nat}
    (htake : ((visible second).take count).map Token.symbol =
      ((visible first).take count).map Token.symbol) (hplace : place < count) :
    (visible second)[place]?.map Token.symbol =
      (visible first)[place]?.map Token.symbol := by
  have hget := congrArg (fun symbols => symbols[place]?) htake
  simpa only [List.getElem?_map, List.getElem?_take, if_pos hplace] using hget

section Symbols

variable {first second : Option Token}
  (hsymbol : second.map Token.symbol = first.map Token.symbol)

include hsymbol

theorem rel_of_map_eq :
    Option.Rel (fun token other => Symbol.Respelled token.symbol other.symbol) first
      second := by
  cases first with
  | none =>
      rw [Option.map_eq_none_iff.mp hsymbol]
      exact .none
  | some token =>
      obtain ⟨other, rfl, hother⟩ := Option.map_eq_some_iff.mp hsymbol
      exact .some (hother ▸ .same _)

theorem Pair.Recast.eq {cause other : ParseError.Cause}
    (h : Recast first second cause other) : other = cause := by
  cases h with
  | same => rfl
  | member owner =>
      have htext := congrArg Symbol.text (Option.some.inj hsymbol)
      exact congrArg (ParseError.Cause.unrecognizedMember · owner) htext

end Symbols

end Grammar

open Grammar (getElem?_map_of_take parse_error_of_shared parse_parallel rel_of_map_eq
  well_of_parse_error)

/-- A refusal that is not about types is decided by the tokens up to the one that it is at.
Every text that begins with these tokens is refused there for the same cause. -/
theorem parse_eq_error_of_take (registry : Registry ω) (root : HostType) (text : String)
    {error : ParseError} (herror : registry.parse root text = .error error)
    (hkind : error.cause.kind = .grammar ∨ error.cause.kind = .resolution ∨
      error.cause.kind = .literal) :
    (∃ place, error.At text place) ∧
    ∀ place, error.At text place → ∀ other,
      (∀ token ∈ tokenize other, token.kind ≠ .malformed) →
      ((visible other).take (place + 1)).map Token.symbol =
          ((visible text).take (place + 1)).map Token.symbol →
        ∃ moved : ParseError, registry.parse root other = .error moved ∧
          moved.At other place ∧ moved.cause = error.cause := by
  have hlexical : error.cause.kind ≠ .lexical := by
    rcases hkind with hkind | hkind | hkind <;> simp [hkind]
  have htyping : error.cause.kind ≠ .typing := by
    rcases hkind with hkind | hkind | hkind <;> simp [hkind]
  have hwell := well_of_parse_error herror hlexical
  constructor
  · have hnone : ∀ place < 0,
        Option.Rel (fun token other => Symbol.Respelled token.symbol other.symbol)
          (visible text)[place]? (visible text)[place]? := nofun
    obtain ⟨place, hplace, -⟩ := parse_error_of_shared hwell hwell hnone herror htyping
    exact ⟨place, hplace⟩
  intro place hplace other hother htake
  have hshared : ∀ index < place + 1,
      Option.Rel (fun token other => Symbol.Respelled token.symbol other.symbol)
        (visible text)[index]? (visible other)[index]? :=
    fun index hindex => rel_of_map_eq (getElem?_map_of_take htake hindex)
  obtain ⟨found, hfound, hmoved⟩ :=
    parse_error_of_shared hwell hother hshared herror htyping
  obtain rfl : place = found := by
    obtain ⟨token, htoken, hoffset⟩ := hplace
    obtain ⟨partner, hpartner, hsame⟩ := hfound
    exact place_unique htoken hpartner (hoffset.trans hsame.symm)
  obtain ⟨moved, hparse, hat, hrecast⟩ := hmoved (Nat.lt_succ_self place)
  have hsymbol := getElem?_map_of_take htake (Nat.lt_succ_self place)
  exact ⟨moved, hparse, hat, hrecast.eq hsymbol⟩

namespace Sample

theorem tokenize_unknown :
    tokenize "urgent or customer.nme = 1" =
      [⟨.identifier, "urgent", 0⟩, ⟨.blank, " ", 6⟩, ⟨.operator, "or", 7⟩,
        ⟨.blank, " ", 9⟩, ⟨.identifier, "customer", 10⟩, ⟨.operator, ".", 18⟩,
        ⟨.identifier, "nme", 19⟩, ⟨.blank, " ", 22⟩, ⟨.operator, "=", 23⟩,
        ⟨.blank, " ", 24⟩, ⟨.number, "1", 25⟩, ⟨.finish, "", 26⟩] := by
  decide +kernel

theorem parse_unknown :
    orders.parse orderType "urgent or customer.nme = 1" =
      .error ⟨19, .unrecognizedMember "nme" (.object customerType)⟩ := by
  rw [Registry.parse, tokenize_unknown]
  rfl

theorem visible_unknown :
    visible "urgent or customer.nme = 1" =
      [⟨.identifier, "urgent", 0⟩, ⟨.operator, "or", 7⟩, ⟨.identifier, "customer", 10⟩,
        ⟨.operator, ".", 18⟩, ⟨.identifier, "nme", 19⟩, ⟨.operator, "=", 23⟩,
        ⟨.number, "1", 25⟩, ⟨.finish, "", 26⟩] := by
  rw [visible, tokenize_unknown]
  rfl

theorem tokenize_unknown_again :
    tokenize "urgent or customer . nme)(" =
      [⟨.identifier, "urgent", 0⟩, ⟨.blank, " ", 6⟩, ⟨.operator, "or", 7⟩,
        ⟨.blank, " ", 9⟩, ⟨.identifier, "customer", 10⟩, ⟨.blank, " ", 18⟩,
        ⟨.operator, ".", 19⟩, ⟨.blank, " ", 20⟩, ⟨.identifier, "nme", 21⟩,
        ⟨.operator, ")", 24⟩, ⟨.operator, "(", 25⟩, ⟨.finish, "", 26⟩] := by
  decide +kernel

end Sample

theorem parse_eq_error_of_take_unknown :
    (Sample.orders.parse Sample.orderType "urgent or customer.nme = 1" =
        .error ⟨19, .unrecognizedMember "nme" (.object Sample.customerType)⟩ ∧
      ParseError.At ⟨19, .unrecognizedMember "nme" (.object Sample.customerType)⟩
        "urgent or customer.nme = 1" 4 ∧
      (∀ token ∈ tokenize "urgent or customer . nme)(", token.kind ≠ .malformed) ∧
      ((visible "urgent or customer . nme)(").take 5).map Token.symbol =
        ((visible "urgent or customer.nme = 1").take 5).map Token.symbol) ∧
    ∃ moved : ParseError,
      Sample.orders.parse Sample.orderType "urgent or customer . nme)(" = .error moved ∧
        moved.At "urgent or customer . nme)(" 4 ∧
          moved.cause = .unrecognizedMember "nme" (.object Sample.customerType) := by
  have hat : ParseError.At ⟨19, .unrecognizedMember "nme" (.object Sample.customerType)⟩
      "urgent or customer.nme = 1" 4 := by
    rw [ParseError.At, Sample.visible_unknown]
    exact ⟨⟨.identifier, "nme", 19⟩, rfl, rfl⟩
  have hwell : ∀ token ∈ tokenize "urgent or customer . nme)(",
      token.kind ≠ .malformed := by
    rw [Sample.tokenize_unknown_again]
    decide
  have htake : ((visible "urgent or customer . nme)(").take 5).map Token.symbol =
      ((visible "urgent or customer.nme = 1").take 5).map Token.symbol := by
    rw [Sample.visible_unknown, visible, Sample.tokenize_unknown_again]
    rfl
  obtain ⟨-, hmoved⟩ := parse_eq_error_of_take Sample.orders Sample.orderType
    "urgent or customer.nme = 1" Sample.parse_unknown (.inr (.inl rfl))
  exact ⟨⟨Sample.parse_unknown, hat, hwell, htake⟩, hmoved 4 hat _ hwell htake⟩

/-- How names and operators are spelled changes neither what a text means nor what it is
refused for. -/
theorem parse_parallel_of_respelled (registry : Registry ω) (root : HostType)
    {first second : String} (hfirst : ∀ token ∈ tokenize first, token.kind ≠ .malformed)
    (hsecond : ∀ token ∈ tokenize second, token.kind ≠ .malformed)
    (hrespelled : List.Forall₂ Symbol.Respelled ((visible first).map Token.symbol)
      ((visible second).map Token.symbol)) :
    Parallel first second (registry.parse root first) (registry.parse root second) := by
  rw [List.forall₂_map_left_iff, List.forall₂_map_right_iff] at hrespelled
  have hshared : ∀ place < (visible first).length,
      Option.Rel (fun token other => Symbol.Respelled token.symbol other.symbol)
        (visible first)[place]? (visible second)[place]? := by
    intro place hplace
    have hother := hrespelled.length_eq ▸ hplace
    rw [List.getElem?_eq_getElem hplace, List.getElem?_eq_getElem hother]
    exact .some (hrespelled.get hplace hother)
  exact parse_parallel hfirst hsecond hshared registry root (le_refl _)

namespace Sample

theorem tokenize_respelled :
    tokenize "URGENT;Customer.NME<>1" =
      [⟨.identifier, "URGENT", 0⟩, ⟨.operator, ";", 6⟩, ⟨.identifier, "Customer", 7⟩,
        ⟨.operator, ".", 15⟩, ⟨.identifier, "NME", 16⟩, ⟨.operator, "<>", 19⟩,
        ⟨.number, "1", 21⟩, ⟨.finish, "", 22⟩] := by
  decide +kernel

theorem tokenize_spelled :
    tokenize "urgent and customer.nme != 1" =
      [⟨.identifier, "urgent", 0⟩, ⟨.blank, " ", 6⟩, ⟨.operator, "and", 7⟩,
        ⟨.blank, " ", 10⟩, ⟨.identifier, "customer", 11⟩, ⟨.operator, ".", 19⟩,
        ⟨.identifier, "nme", 20⟩, ⟨.blank, " ", 23⟩, ⟨.operator, "!=", 24⟩,
        ⟨.blank, " ", 26⟩, ⟨.number, "1", 27⟩, ⟨.finish, "", 28⟩] := by
  decide +kernel

theorem respelled_names :
    List.Forall₂ Symbol.Respelled
      ((visible "urgent and customer.nme != 1").map Token.symbol)
      ((visible "URGENT;Customer.NME<>1").map Token.symbol) := by
  have hurgent : Symbol.Respelled ⟨.identifier, "urgent"⟩ ⟨.identifier, "URGENT"⟩ :=
    .name (by decide)
  have hcustomer : Symbol.Respelled ⟨.identifier, "customer"⟩ ⟨.identifier, "Customer"⟩ :=
    .name (by decide)
  have hname : Symbol.Respelled ⟨.identifier, "nme"⟩ ⟨.identifier, "NME"⟩ :=
    .name (by decide)
  have hand : Symbol.Respelled ⟨.operator, "and"⟩ ⟨.operator, ";"⟩ :=
    .operator (show ["and", ";"] ∈ Symbol.synonyms by decide) (by decide) (by decide)
  have hne : Symbol.Respelled ⟨.operator, "!="⟩ ⟨.operator, "<>"⟩ :=
    .operator (show ["!=", "<>"] ∈ Symbol.synonyms by decide) (by decide) (by decide)
  rw [visible, visible, tokenize_spelled, tokenize_respelled]
  exact .cons hurgent (.cons hand (.cons hcustomer (.cons (.same _) (.cons hname
    (.cons hne (.cons (.same _) (.cons (.same _) .nil)))))))

end Sample

theorem parse_parallel_of_respelled_names :
    ((∀ token ∈ tokenize "urgent and customer.nme != 1", token.kind ≠ .malformed) ∧
      (∀ token ∈ tokenize "URGENT;Customer.NME<>1", token.kind ≠ .malformed) ∧
      List.Forall₂ Symbol.Respelled
        ((visible "urgent and customer.nme != 1").map Token.symbol)
        ((visible "URGENT;Customer.NME<>1").map Token.symbol)) ∧
    Parallel "urgent and customer.nme != 1" "URGENT;Customer.NME<>1"
      (Sample.orders.parse Sample.orderType "urgent and customer.nme != 1")
      (Sample.orders.parse Sample.orderType "URGENT;Customer.NME<>1") := by
  have hfirst : ∀ token ∈ tokenize "urgent and customer.nme != 1",
      token.kind ≠ .malformed := by
    rw [Sample.tokenize_spelled]
    decide
  have hsecond : ∀ token ∈ tokenize "URGENT;Customer.NME<>1",
      token.kind ≠ .malformed := by
    rw [Sample.tokenize_respelled]
    decide
  exact ⟨⟨hfirst, hsecond, Sample.respelled_names⟩,
    parse_parallel_of_respelled Sample.orders Sample.orderType hfirst hsecond
      Sample.respelled_names⟩

end Sift
