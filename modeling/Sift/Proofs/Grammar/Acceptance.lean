import Sift.Proofs.Grammar.Completeness

namespace Sift.Grammar

/-! The texts that are filters: those whose symbols derive a boolean expression that
nests no deeper than the grammar allows. -/

variable {ω : Type} {registry : Registry ω} {root : HostType}

/-! A derivation is determined by its symbols. -/

theorem exists_tokens (symbols : List Symbol) :
    ∃ tokens : List Token, tokens.map Token.symbol = symbols := by
  refine ⟨symbols.map fun symbol => ⟨symbol.kind, symbol.text, 0⟩, ?_⟩
  simp [Function.comp_def, Token.symbol]

theorem Derives.unique {level : Level} {symbols : List Symbol} {first second : Expr ω}
    {firstDepth secondDepth : Nat}
    (hfirst : Derives registry root level symbols first firstDepth)
    (hsecond : Derives registry root level symbols second secondDepth) :
    first = second ∧ firstDepth = secondDepth := by
  obtain ⟨tokens, htokens⟩ := exists_tokens symbols
  let scope : Scope ω := { registry := registry, root := root, finish := 0 }
  have hread := fun {expr depth}
      (h : Derives scope.registry scope.root level symbols expr depth) =>
    read_yields h htokens [] Avoids.nil
  -- Both are read where the depth covers both, and each needs just its own depth.
  have hexpr : first = second := by
    have hone := (hread hfirst (max firstDepth secondDepth)).eq_ok (by omega)
    have htwo := (hread hsecond (max firstDepth secondDepth)).eq_ok (by omega)
    rw [hone] at htwo
    cases htwo
    rfl
  have hle := (hread hsecond firstDepth).cost_le
    ((hread hfirst firstDepth).eq_ok (Nat.le_refl _))
  have hge := (hread hfirst secondDepth).cost_le
    ((hread hsecond secondDepth).eq_ok (Nat.le_refl _))
  exact ⟨hexpr, by omega⟩

/-! The symbols that take part in a derivation. -/

def operators : List String :=
  ["(", ")", "!", ".", "?.", ">", "<", ">=", "<=", "=", "<>", "!=", "and", ";", "or",
    ","]

inductive Used : Symbol → Prop
  | literal {symbol : Symbol} {literal : Literal} (h : symbol.Denotes literal) :
      Used symbol
  | identifier {name : String} : Used (.identifier name)
  | operator {text : String} (h : text ∈ operators) : Used (.operator text)

theorem Path.used {symbols : List Symbol} {expr : Expr ω}
    (h : Path registry root symbols expr) : ∀ symbol ∈ symbols, Used symbol := by
  induction h with
  | first =>
      intro symbol hsymbol
      rw [List.mem_singleton.mp hsymbol]
      exact .identifier
  | next hbase hseparator howner hmember ih =>
      intro symbol hsymbol
      simp only [List.mem_append, List.mem_cons, List.not_mem_nil, or_false] at hsymbol
      rcases hsymbol with hsymbol | rfl | rfl
      · exact ih symbol hsymbol
      · exact .operator (by rcases hseparator with rfl | rfl <;> decide)
      · exact .identifier

theorem used_infix {first second : List Symbol} (text : String)
    (hfirst : ∀ symbol ∈ first, Used symbol) (htext : text ∈ operators)
    (hsecond : ∀ symbol ∈ second, Used symbol) :
    ∀ symbol ∈ first ++ .operator text :: second, Used symbol := by
  intro symbol hsymbol
  rcases List.mem_append.mp hsymbol with hsymbol | hsymbol
  · exact hfirst symbol hsymbol
  rcases List.mem_cons.mp hsymbol with rfl | hsymbol
  · exact .operator htext
  · exact hsecond symbol hsymbol

theorem Derives.used {level : Level} {symbols : List Symbol} {expr : Expr ω}
    {depth : Nat} (h : Derives registry root level symbols expr depth) :
    ∀ symbol ∈ symbols, Used symbol := by
  induction h with
  | literal hliteral =>
      intro symbol hsymbol
      rw [List.mem_singleton.mp hsymbol]
      exact .literal hliteral
  | path hpath => exact hpath.used
  | group _ ih =>
      have hclosed := used_infix ")" ih (by decide) (List.forall_mem_nil Used)
      exact used_infix "(" (List.forall_mem_nil Used) (by decide) hclosed
  | operand _ ih | negation _ ih | comparison _ ih | equality _ ih | conjunction _ ih =>
      exact ih
  | not _ _ ih =>
      exact used_infix "!" (List.forall_mem_nil Used) (by decide) ih
  | ordering _ horders _ _ ihleft ihright =>
      exact used_infix _ ihleft (by cases horders <;> decide) ihright
  | equal _ htext _ _ ihleft ihright
  | and _ _ htext _ _ ihleft ihright
  | or _ _ htext _ _ ihleft ihright =>
      exact used_infix _ ihleft (List.subset_def.mp (by decide) htext) ihright

theorem Used.kind_ne_malformed {symbol : Symbol} (h : Used symbol) :
    symbol.kind ≠ .malformed := by
  cases h with
  | literal hliteral => cases hliteral <;> simp
  | identifier => simp [Symbol.identifier]
  | operator => simp [Symbol.operator]

/-! Acceptance. -/

theorem parseTokens_eq_ok_iff {scope : Scope ω} {tokens : List Token} {expr : Expr ω} :
    parseTokens scope tokens = .ok expr ↔
      expr.type.value = .bool ∧ ∃ depth ≤ maxDepth,
        Derives scope.registry scope.root .disjunction (tokens.map Token.symbol) expr
          depth := by
  constructor
  · intro h
    obtain ⟨⟨found, rest⟩, hread, h⟩ := bind_eq_ok.mp h
    cases rest with
    | cons token rest => cases h
    | nil =>
        dsimp only at h
        split at h
        · rename_i hbool
          cases h
          obtain ⟨symbols, depth, htokens, hderives, hdepth⟩ :=
            disjunction_sound (nested_sound scope maxDepth) hread
          rw [List.map_nil, List.append_nil] at htokens
          exact ⟨hbool, depth, hdepth, htokens ▸ hderives⟩
        · cases h
  · rintro ⟨hbool, depth, hdepth, hderives⟩
    have hread := (read_yields hderives rfl [] Avoids.nil maxDepth).eq_ok hdepth
    rw [List.append_nil] at hread
    change scope.disjunction _ tokens = _ at hread
    simp [parseTokens, hread, hbool, bind, Except.bind]

theorem parse_eq_ok_iff {text : String} {expr : Expr ω} :
    registry.parse root text = .ok expr ↔
      expr.type.value = .bool ∧ ∃ depth ≤ maxDepth,
        Derives registry root .disjunction (symbols text) expr depth := by
  unfold Registry.parse
  cases hfind : (tokenize text).find? fun token => token.kind = .malformed with
  | none =>
      simp only [hfind]
      exact parseTokens_eq_ok_iff
  | some token =>
      simp only [hfind, fault]
      -- A malformed token is among the symbols, and no derivation uses it.
      constructor
      · intro h
        cases h
      · rintro ⟨-, depth, -, hderives⟩
        have hkind : token.kind = .malformed := by simpa using List.find?_some hfind
        have hmem : token.symbol ∈ symbols text := by
          refine List.mem_map_of_mem (List.mem_filter.mpr ⟨?_, ?_⟩)
          · exact List.mem_of_find?_eq_some hfind
          · simp [hkind]
        exact ((hderives.used _ hmem).kind_ne_malformed hkind).elim

/-- A text is read as a filter exactly if its symbols derive it within the greatest
depth, and no other expression is derived from them. -/
theorem parse_iff_derives (registry : Registry ω) (root : HostType) (text : String) :
    (∀ expr, registry.parse root text = .ok expr ↔
      expr.type.value = .bool ∧ ∃ depth ≤ maxDepth,
        Derives registry root .disjunction (symbols text) expr depth) ∧
    (∀ first second firstDepth secondDepth,
      Derives registry root .disjunction (symbols text) first firstDepth →
        Derives registry root .disjunction (symbols text) second secondDepth →
          first = second ∧ firstDepth = secondDepth) := by
  refine ⟨fun expr => parse_eq_ok_iff, ?_⟩
  intro first second firstDepth secondDepth hfirst hsecond
  exact hfirst.unique hsecond

end Sift.Grammar
