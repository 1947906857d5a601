import Sift.Proofs.Grammar.Soundness
import Sift.Proofs.Sample
import Sift.Proofs.Token.Tiling

namespace Sift

/-! Every error of the grammar is at the token that causes it. -/

namespace Grammar

variable {ω : Type}

/-- The start of one of the tokens, or the end of the text. -/
def Place (finish : Nat) (tokens : List Token) (offset : Nat) : Prop :=
  offset = finish ∨ ∃ token ∈ tokens, offset = token.offset

/-- What an error of each kind may be blamed on. -/
inductive Blames (finish : Nat) (tokens : List Token) : ParseError → Prop
  | grammar {offset : Nat} {cause : ParseError.Cause}
      (hplace : Place finish tokens offset) (hcause : cause.kind = .grammar) :
      Blames finish tokens ⟨offset, cause⟩
  | member {token : Token} (owner : ValueType) (htoken : token ∈ tokens)
      (hkind : token.kind = .identifier) :
      Blames finish tokens ⟨token.offset, .unrecognizedMember token.text owner⟩
  | number {token : Token} (fault : Decimal.Fault) (htoken : token ∈ tokens)
      (hkind : token.kind = .number) :
      Blames finish tokens ⟨token.offset, .number token.text fault⟩
  | timestamp {token : Token} (fault : Timestamp.Fault) (htoken : token ∈ tokens)
      (hkind : token.kind = .dateTime) :
      Blames finish tokens ⟨token.offset, .timestamp token.text fault⟩
  | operand {token : Token} {cause : ParseError.Cause} (htoken : token ∈ tokens)
      (hcause : cause.kind = .typing) :
      Blames finish tokens ⟨token.offset, cause⟩
  | filter {cause : ParseError.Cause} (hcause : cause.kind = .typing) :
      Blames finish tokens ⟨0, cause⟩

/-- A reader at some of the tokens either takes one at least, or blames one. -/
inductive Reads (finish : Nat) (all : List Token) :
    List Token → Except ParseError (Expr ω × List Token) → Prop
  | ok {token : Token} {tokens rest : List Token} {expr : Expr ω}
      (hrest : rest <:+ tokens) : Reads finish all (token :: tokens) (.ok (expr, rest))
  | error {tokens : List Token} {error : ParseError}
      (hblames : Blames finish all error) : Reads finish all tokens (.error error)

variable {finish : Nat} {all tokens : List Token}

theorem Reads.bind {result : Except ParseError (Expr ω × List Token)}
    {next : Expr ω × List Token → Except ParseError (Expr ω × List Token)}
    (h : Reads finish all tokens result)
    (hnext : ∀ token others rest expr, tokens = token :: others → rest <:+ others →
      Reads finish all tokens (next (expr, rest))) :
    Reads finish all tokens (result >>= next) := by
  cases h with
  | ok hrest => exact hnext _ _ _ _ rfl hrest
  | error hblames => exact .error hblames

/-- What is read from a token on has been read from an earlier one on. -/
theorem Reads.earlier {token : Token} {others rest : List Token}
    {result : Except ParseError (Expr ω × List Token)}
    (h : Reads finish all rest result) (hrest : rest <:+ others) :
    Reads finish all (token :: others) result := by
  cases h with
  | ok hafter => exact .ok (hafter.trans ((List.suffix_cons _ _).trans hrest))
  | error hblames => exact .error hblames

theorem Reads.check {token : Token} {others : List Token}
    {check : Except ParseError (Expr ω)}
    {next : Expr ω → Except ParseError (Expr ω × List Token)} (htoken : token ∈ all)
    (hcheck : ∀ error, check = .error error →
      error.offset = token.offset ∧ error.cause.kind = .typing)
    (hnext : ∀ expr, Reads finish all (token :: others) (next expr)) :
    Reads finish all (token :: others) (check >>= next) := by
  cases hresult : check with
  | ok expr => exact hnext expr
  | error error =>
      obtain ⟨hoffset, hcause⟩ := hcheck error hresult
      rcases error with ⟨offset, cause⟩
      obtain rfl := hoffset
      exact .error (.operand htoken hcause)

/-! The checks on operands, and the single tokens. -/

variable {scope : Scope ω}

theorem Scope.place_offset (h : tokens <:+ all) :
    Place scope.finish all (scope.offset tokens) := by
  cases tokens with
  | nil => exact .inl rfl
  | cons token tokens => exact .inr ⟨token, h.mem List.mem_cons_self, rfl⟩

theorem expectBool_eq_error {expr : Expr ω} {offset : Nat} {error : ParseError}
    (h : expectBool expr offset = .error error) :
    error.offset = offset ∧ error.cause.kind = .typing := by
  unfold expectBool at h
  split at h
  · cases h
  · cases h
    exact ⟨rfl, rfl⟩

theorem coerceRight_eq_error {right : Expr ω} {target : StaticType} {offset : Nat}
    {error : ParseError} (h : coerceRight right target offset = .error error) :
    error.offset = offset ∧ error.cause.kind = .typing := by
  unfold coerceRight at h
  split at h
  · split at h
    · cases h
    · cases h
      exact ⟨rfl, rfl⟩
  · cases h

theorem resolve_eq_error {base : Expr ω} {identifier : Token} {nullSafe : Bool}
    {error : ParseError} (h : scope.resolve base identifier nullSafe = .error error) :
    error = ⟨identifier.offset, .unrecognizedMember identifier.text base.type.value⟩ := by
  unfold Scope.resolve at h
  dsimp only at h
  split at h
  · cases h
  · cases h
    rfl

theorem Reads.resolve {base : Expr ω} {identifier : Token} {nullSafe : Bool}
    {next : Expr ω → Except ParseError (Expr ω × List Token)}
    (hidentifier : identifier ∈ all) (hkind : identifier.kind = .identifier)
    (hnext : ∀ expr, Reads finish all tokens (next expr)) :
    Reads finish all tokens (scope.resolve base identifier nullSafe >>= next) := by
  cases hresult : scope.resolve base identifier nullSafe with
  | ok expr => exact hnext expr
  | error error =>
      rw [resolve_eq_error hresult]
      exact .error (.member _ hidentifier hkind)

/-- An operand is read after the first token, and its type is checked where it starts. -/
theorem Reads.operand {token : Token} {others after : List Token}
    {read : Except ParseError (Expr ω × List Token)}
    (check : Expr ω → Except ParseError (Expr ω)) (make : Expr ω → Expr ω)
    (hread : Reads scope.finish all after read) (hafter : after <:+ others)
    (hall : after <:+ all)
    (hcheck : ∀ expr error, check expr = .error error →
      error.offset = scope.offset after ∧ error.cause.kind = .typing) :
    Reads scope.finish all (token :: others)
      (read >>= fun found => check found.1 >>= fun operand =>
        pure (make operand, found.2)) := by
  apply Reads.earlier _ hafter
  apply hread.bind
  rintro first seconds rest expr rfl hrest
  apply Reads.check (hall.mem List.mem_cons_self) (hcheck expr)
  exact fun _ => .ok hrest

/-! The rules. -/

/-- At any of the tokens, the reader takes one at least, or blames one. -/
def Points (finish : Nat) (all : List Token) (reader : Reader ω) : Prop :=
  ∀ ⦃tokens⦄, tokens <:+ all → Reads finish all tokens (reader tokens)

theorem path_reads (base : Expr ω) {token : Token} (h : token :: tokens <:+ all) :
    Reads scope.finish all (token :: tokens) (scope.path base tokens) := by
  fun_induction Scope.path scope base tokens generalizing token with
  | case1 base separator identifier rest hseparator hidentifier ih =>
      have hinner : separator :: identifier :: rest <:+ all :=
        (List.suffix_cons _ _).trans h
      have hlast : identifier :: rest <:+ all := (List.suffix_cons _ _).trans hinner
      apply Reads.resolve (hlast.mem List.mem_cons_self) hidentifier
      intro next
      exact (ih next hlast).earlier (List.suffix_cons _ _)
  | case2 base separator identifier rest hseparator hidentifier =>
      have hmem : identifier ∈ all := h.mem (by simp)
      exact .error (.grammar (.inr ⟨identifier, hmem, rfl⟩) rfl)
  | case3 base separator identifier rest hseparator => exact .ok (List.suffix_refl _)
  | case4 base separator hseparator => exact .error (.grammar (.inl rfl) rfl)
  | case5 base separator hseparator => exact .ok (List.suffix_refl _)
  | case6 base => exact .ok (List.suffix_refl _)

section Rules

variable {nested : NestedReader ω}
  (hnested : ∀ rule offset, Place scope.finish all offset →
    Points scope.finish all (nested rule offset))

include hnested

theorem operand_points : Points scope.finish all (scope.operand nested) := by
  intro tokens h
  cases tokens with
  | nil => exact .error (.grammar (.inl rfl) rfl)
  | cons token tokens =>
      have htoken : token ∈ all := h.mem List.mem_cons_self
      have hplace : Place scope.finish all token.offset := .inr ⟨token, htoken, rfl⟩
      have hrest : tokens <:+ all := (List.suffix_cons _ _).trans h
      rcases token with ⟨kind, text, offset⟩
      cases kind with
      | number =>
          simp only [Scope.operand]
          split
          · exact .ok (List.suffix_refl _)
          · exact .error (.number _ htoken rfl)
      | dateTime =>
          simp only [Scope.operand]
          split
          · exact .ok (List.suffix_refl _)
          · exact .error (.timestamp _ htoken rfl)
      | identifier =>
          apply Reads.resolve htoken rfl
          exact fun first => path_reads first h
      | operator =>
          simp only [Scope.operand]
          split
          · apply Reads.earlier _ (List.suffix_refl tokens)
            apply (hnested .disjunction offset hplace hrest).bind
            rintro first others rest expr rfl hothers
            dsimp only
            split
            · rename_i closing after hclosing
              obtain ⟨rfl, -, -⟩ := operator?_eq_some hclosing
              exact .ok ((List.suffix_cons _ _).trans hothers)
            · have hafter : rest <:+ all :=
                hothers.trans ((List.suffix_cons _ _).trans hrest)
              exact .error (.grammar (Scope.place_offset hafter) rfl)
          · exact .error (.grammar hplace rfl)
      | true | false | null | string => exact .ok (List.suffix_refl _)
      | malformed | blank | finish => exact .error (.grammar hplace rfl)

theorem negation_points : Points scope.finish all (scope.negation nested) := by
  intro tokens h
  unfold Scope.negation
  split
  · exact operand_points hnested h
  · rename_i token rest hoperator
    obtain ⟨rfl, -, -⟩ := operator?_eq_some hoperator
    have hrest : rest <:+ all := (List.suffix_cons _ _).trans h
    have hread := hnested .negation _ (Scope.place_offset hrest) hrest
    exact hread.operand (expectBool · (scope.offset rest)) Expr.not
      (List.suffix_refl rest) hrest fun _ _ => expectBool_eq_error

theorem comparison_points : Points scope.finish all (scope.comparison nested) := by
  intro tokens h
  apply (negation_points hnested h).bind
  rintro token others rest left rfl hothers
  dsimp only
  split
  · exact .ok hothers
  · rename_i comparison after hoperator
    obtain ⟨operator, text, rfl, -, -⟩ := ordering?_eq_some hoperator
    have hwithin : after <:+ others := (List.suffix_cons _ _).trans hothers
    have hafter : after <:+ all := hwithin.trans ((List.suffix_cons _ _).trans h)
    have hread := hnested .comparison _ (Scope.place_offset hafter) hafter
    exact hread.operand (coerceRight · left.type (scope.offset after))
      (.compare comparison left) hwithin hafter fun _ _ => coerceRight_eq_error

theorem equality_points : Points scope.finish all (scope.equality nested) := by
  intro tokens h
  apply (comparison_points hnested h).bind
  rintro token others rest left rfl hothers
  dsimp only
  split
  · exact .ok hothers
  · rename_i operator after hoperator
    obtain ⟨rfl, -, -⟩ := operator?_eq_some hoperator
    have hwithin : after <:+ others := (List.suffix_cons _ _).trans hothers
    have hafter : after <:+ all := hwithin.trans ((List.suffix_cons _ _).trans h)
    exact (comparison_points hnested hafter).operand
      (coerceRight · left.type (scope.offset after)) (equality operator.text left) hwithin
      hafter fun _ _ => coerceRight_eq_error

omit hnested in
theorem connection_points {connective : Connective} {operators : List String}
    {inner : Reader ω} {outer : Nat → Reader ω} (hinner : Points scope.finish all inner)
    (houter : ∀ offset, Place scope.finish all offset →
      Points scope.finish all (outer offset)) :
    Points scope.finish all (scope.connection connective operators inner outer) := by
  intro tokens h
  apply (hinner h).bind
  rintro token others rest left rfl hothers
  dsimp only
  split
  · exact .ok hothers
  · rename_i operator after hoperator
    obtain ⟨rfl, -, -⟩ := operator?_eq_some hoperator
    have hwithin : after <:+ others := (List.suffix_cons _ _).trans hothers
    have hafter : after <:+ all := hwithin.trans ((List.suffix_cons _ _).trans h)
    apply Reads.check (h.mem List.mem_cons_self) fun _ => expectBool_eq_error
    intro left
    have hread := houter _ (Scope.place_offset hafter) hafter
    exact hread.operand (expectBool · (scope.offset after)) (.connect connective left)
      hwithin hafter fun _ _ => expectBool_eq_error

theorem rule_points (rule : Rule) : Points scope.finish all (scope.rule nested rule) := by
  have hconjunction : Points scope.finish all (scope.conjunction nested) :=
    connection_points (equality_points hnested) (hnested .conjunction)
  cases rule with
  | disjunction => exact connection_points hconjunction (hnested .disjunction)
  | conjunction => exact hconjunction
  | comparison => exact comparison_points hnested
  | negation => exact negation_points hnested

end Rules

theorem nested_points (depth : Nat) (rule : Rule) (offset : Nat)
    (hplace : Place scope.finish all offset) :
    Points scope.finish all (scope.nested depth rule offset) := by
  induction depth generalizing rule offset with
  -- Too deep a nesting is blamed on the offset that the caller gives.
  | zero => exact fun tokens h => .error (.grammar hplace rfl)
  | succ depth ih => exact rule_points ih rule

theorem parseTokens_eq_error {error : ParseError}
    (h : parseTokens scope tokens = .error error) : Blames scope.finish tokens error := by
  have hread : Reads scope.finish tokens tokens
      (scope.disjunction (scope.nested maxDepth) tokens) :=
    rule_points (nested_points maxDepth) .disjunction (List.suffix_refl tokens)
  unfold parseTokens at h
  cases hresult : scope.disjunction (scope.nested maxDepth) tokens with
  | error fault =>
      rw [hresult] at h hread
      cases h
      cases hread with
      | error hblames => exact hblames
  | ok result =>
      rw [hresult] at h hread
      cases hread with
      | @ok token others rest expr hrest =>
          cases rest with
          | cons next rest =>
              cases h
              have hnext : next ∈ token :: others :=
                List.mem_cons_of_mem _ (hrest.mem List.mem_cons_self)
              exact .grammar (.inr ⟨next, hnext, rfl⟩) rfl
          | nil =>
              change (if expr.type.value = .bool then .ok expr
                else fault 0 (.filterNotBool expr.type)) = _ at h
              split at h
              · cases h
              · cases h
                exact .filter rfl

/-! What is blamed, by the kind of the error. -/

section Blames

variable {error : ParseError} (h : Blames finish tokens error)

include h

theorem Blames.kind_ne_lexical : error.cause.kind ≠ .lexical := by
  cases h with
  | grammar _ hcause | operand _ hcause | filter hcause =>
      rw [hcause]
      decide
  | member | number | timestamp => nofun

theorem Blames.of_literal (hkind : error.cause.kind = .literal) :
    ∃ token ∈ tokens, (token.kind = .number ∨ token.kind = .dateTime) ∧
      error.offset = token.offset := by
  cases h with
  | number fault htoken hnumber => exact ⟨_, htoken, .inl hnumber, rfl⟩
  | timestamp fault htoken hdateTime => exact ⟨_, htoken, .inr hdateTime, rfl⟩
  | grammar _ hcause | operand _ hcause | filter hcause =>
      cases hcause.symm.trans hkind
  | member => cases hkind

theorem Blames.of_resolution (hkind : error.cause.kind = .resolution) :
    ∃ token ∈ tokens, token.kind = .identifier ∧ error.offset = token.offset ∧
      ∃ owner, error.cause = .unrecognizedMember token.text owner := by
  cases h with
  | member owner htoken hidentifier => exact ⟨_, htoken, hidentifier, rfl, owner, rfl⟩
  | grammar _ hcause | operand _ hcause | filter hcause =>
      cases hcause.symm.trans hkind
  | number | timestamp => cases hkind

theorem Blames.of_grammar (hkind : error.cause.kind = .grammar) :
    Place finish tokens error.offset := by
  cases h with
  | grammar hplace => exact hplace
  | operand _ hcause | filter hcause => cases hcause.symm.trans hkind
  | member | number | timestamp => cases hkind

theorem Blames.of_typing (hkind : error.cause.kind = .typing) :
    error.offset = 0 ∨ ∃ token ∈ tokens, error.offset = token.offset := by
  cases h with
  | operand htoken => exact .inr ⟨_, htoken, rfl⟩
  | filter => exact .inl rfl
  | grammar _ hcause => cases hcause.symm.trans hkind
  | member | number | timestamp => cases hkind

theorem Blames.place : error.offset = 0 ∨ Place finish tokens error.offset := by
  cases h with
  | grammar hplace => exact .inr hplace
  | member _ htoken | number _ htoken | timestamp _ htoken | operand htoken =>
      exact .inr (.inr ⟨_, htoken, rfl⟩)
  | filter => exact .inl rfl

end Blames

theorem mem_significant {token : Token} :
    token ∈ significant tokens ↔
      token ∈ tokens ∧ token.kind ≠ .blank ∧ token.kind ≠ .finish := by
  simp [significant]

end Grammar

/-! Places in the text. -/

/-- The offset is one between two characters of the text, or at an end of it. -/
def Text.Boundary (text : String) (offset : Nat) : Prop :=
  ∃ front back, text = front ++ back ∧ front.utf8ByteSize = offset

theorem Text.Boundary.le {text : String} {offset : Nat} (h : Text.Boundary text offset) :
    offset ≤ text.utf8ByteSize := by
  obtain ⟨front, back, rfl, rfl⟩ := h
  rw [String.utf8ByteSize_append]
  exact Nat.le_add_right _ _

theorem boundary_of_mem_tokenize {text : String} {token : Token}
    (h : token ∈ tokenize text) : Text.Boundary text token.offset := by
  obtain ⟨before, after, htokens⟩ := List.append_of_mem h
  obtain ⟨-, front, back, htext, hfront⟩ := (tiling_tokenize text).placed htokens
  rw [String.append_assoc] at htext
  exact ⟨front, token.text ++ back, htext, hfront⟩

theorem finish_mem_tokenize (text : String) :
    ⟨.finish, "", text.utf8ByteSize⟩ ∈ tokenize text := by
  obtain ⟨pieces, hpieces, -⟩ := (tiling_tokenize text).finish
  rw [hpieces]
  exact List.mem_append_right _ (List.mem_singleton_self _)

/-- An error stands at what it is about. -/
structure ParseError.Located (text : String) (error : ParseError) : Prop where
  lexical : error.cause.kind = .lexical ↔ ∃ token ∈ tokenize text, token.kind = .malformed
  literal : error.cause.kind = .literal → ∃ token ∈ tokenize text,
    (token.kind = .number ∨ token.kind = .dateTime) ∧ error.offset = token.offset
  resolution : error.cause.kind = .resolution → ∃ token ∈ tokenize text,
    token.kind = .identifier ∧ error.offset = token.offset ∧
      ∃ owner, error.cause = .unrecognizedMember token.text owner
  grammar : error.cause.kind = .grammar → ∃ token ∈ tokenize text,
    token.kind ≠ .blank ∧ error.offset = token.offset
  typing : error.cause.kind = .typing → error.offset = 0 ∨ ∃ token ∈ tokenize text,
    token.kind ≠ .blank ∧ token.kind ≠ .finish ∧ error.offset = token.offset
  boundary : Text.Boundary text error.offset

open Grammar (Blames Place mem_significant parseTokens_eq_error significant)

theorem boundary_of_place {text : String} {offset : Nat}
    (h : Place text.utf8ByteSize (significant (tokenize text)) offset) :
    Text.Boundary text offset := by
  rcases h with rfl | ⟨token, htoken, rfl⟩
  · exact boundary_of_mem_tokenize (finish_mem_tokenize text)
  · exact boundary_of_mem_tokenize (mem_significant.mp htoken).1

theorem located_of_malformed {text : String} {token : Token}
    (htoken : token ∈ tokenize text) (hkind : token.kind = .malformed) :
    ParseError.Located text ⟨token.offset, .malformed token.text⟩ where
  lexical := iff_of_true rfl ⟨token, htoken, hkind⟩
  literal := nofun
  resolution := nofun
  grammar := nofun
  typing := nofun
  boundary := boundary_of_mem_tokenize htoken

theorem located_of_blames {text : String} {error : ParseError}
    (h : Blames text.utf8ByteSize (significant (tokenize text)) error)
    (hwell : ∀ token ∈ tokenize text, token.kind ≠ .malformed) :
    error.Located text where
  lexical := iff_of_false h.kind_ne_lexical fun ⟨token, htoken, hkind⟩ =>
    hwell token htoken hkind
  literal hkind := by
    obtain ⟨token, htoken, hplace⟩ := h.of_literal hkind
    exact ⟨token, (mem_significant.mp htoken).1, hplace⟩
  resolution hkind := by
    obtain ⟨token, htoken, hplace⟩ := h.of_resolution hkind
    exact ⟨token, (mem_significant.mp htoken).1, hplace⟩
  grammar hkind := by
    rcases h.of_grammar hkind with hfinish | ⟨token, htoken, hoffset⟩
    · exact ⟨_, finish_mem_tokenize text, nofun, hfinish⟩
    · obtain ⟨hmem, hblank, -⟩ := mem_significant.mp htoken
      exact ⟨token, hmem, hblank, hoffset⟩
  typing hkind := by
    rcases h.of_typing hkind with hzero | ⟨token, htoken, hoffset⟩
    · exact .inl hzero
    · obtain ⟨hmem, hblank, hfinish⟩ := mem_significant.mp htoken
      exact .inr ⟨token, hmem, hblank, hfinish, hoffset⟩
  boundary := by
    rcases h.place with hzero | hplace
    · exact ⟨"", text, rfl, hzero.symm⟩
    · exact boundary_of_place hplace

variable {ω : Type}

/-- A text with a malformed token is refused for the first of these. Every error stands
at a token that is of the kind it is about, or at the start of the text, and so between two
of its characters. -/
theorem located_of_parse_error (registry : Registry ω) (root : HostType) (text : String) :
    (∀ before token after, tokenize text = before ++ token :: after →
      token.kind = .malformed → (∀ earlier ∈ before, earlier.kind ≠ .malformed) →
        registry.parse root text = .error ⟨token.offset, .malformed token.text⟩) ∧
    ∀ error, registry.parse root text = .error error →
      error.Located text ∧ error.offset ≤ text.utf8ByteSize := by
  have hfirst : ∀ before token after, tokenize text = before ++ token :: after →
      token.kind = .malformed → (∀ earlier ∈ before, earlier.kind ≠ .malformed) →
        registry.parse root text = .error ⟨token.offset, .malformed token.text⟩ := by
    intro before token after htokens hkind hbefore
    have hfind : (tokenize text).find? (fun token => token.kind = .malformed) =
        some token :=
      List.find?_eq_some_iff_append.mpr
        ⟨decide_eq_true hkind, before, after, htokens, by simpa using hbefore⟩
    simp only [Registry.parse, hfind]
    rfl
  refine ⟨hfirst, fun error herror => ?_⟩
  have hlocated : error.Located text := by
    unfold Registry.parse at herror
    dsimp only at herror
    split at herror
    · rename_i token hfind
      cases herror
      exact located_of_malformed (List.mem_of_find?_eq_some hfind)
        (by simpa using List.find?_some hfind)
    · rename_i hnone
      exact located_of_blames (parseTokens_eq_error herror)
        (by simpa using List.find?_eq_none.mp hnone)
  exact ⟨hlocated, hlocated.boundary.le⟩

namespace Sample

theorem parse_accent_name :
    orders.parse orderType "'é' = name" =
      .error ⟨7, .unrecognizedMember "name" (.object orderType)⟩ := by
  have htokens : tokenize "'é' = name" =
      [⟨.string, "'é'", 0⟩, ⟨.blank, " ", 4⟩, ⟨.operator, "=", 5⟩, ⟨.blank, " ", 6⟩,
        ⟨.identifier, "name", 7⟩, ⟨.finish, "", 11⟩] := by
    decide +kernel
  rw [Registry.parse, htokens]
  rfl

theorem tokenize_accent :
    tokenize "a é" = [⟨.identifier, "a", 0⟩, ⟨.blank, " ", 1⟩] ++
      ⟨.malformed, "é", 2⟩ :: [⟨.finish, "", 4⟩] := by
  decide +kernel

end Sample

theorem located_of_parse_error_accent :
    ((Sample.orders.parse Sample.orderType "'é' = name" =
        .error ⟨7, .unrecognizedMember "name" (.object Sample.orderType)⟩) ∧
      tokenize "a é" = [⟨.identifier, "a", 0⟩, ⟨.blank, " ", 1⟩] ++
        ⟨.malformed, "é", 2⟩ :: [⟨.finish, "", 4⟩]) ∧
    (ParseError.Located "'é' = name"
        ⟨7, .unrecognizedMember "name" (.object Sample.orderType)⟩ ∧
      7 ≤ "'é' = name".utf8ByteSize) ∧
    Sample.orders.parse Sample.orderType "a é" = .error ⟨2, .malformed "é"⟩ := by
  obtain ⟨-, hlocated⟩ := located_of_parse_error Sample.orders Sample.orderType "'é' = name"
  obtain ⟨hfirst, -⟩ := located_of_parse_error Sample.orders Sample.orderType "a é"
  exact ⟨⟨Sample.parse_accent_name, Sample.tokenize_accent⟩,
    hlocated _ Sample.parse_accent_name,
    hfirst _ _ _ Sample.tokenize_accent rfl (by decide)⟩

end Sift
