import Mathlib.Data.List.Chain
import Sift.Proofs.Expr.RoundTrip
import Sift.Registry.Builder

namespace Sift

/-! What a written filter means when it is read again. -/

open Grammar

variable {ω : Type}

namespace Symbol

def separators : List Symbol := [operator ".", operator "?."]

def openings : List Symbol := [operator "(", operator "!"]

def BeginsOperand (symbol : Symbol) : Prop :=
  symbol.kind ≠ .operator ∨ symbol ∈ openings

def EndsOperand (symbol : Symbol) : Prop :=
  symbol.kind ≠ .operator ∨ symbol = operator ")"

/-- Which symbol the grammar lets stand next to which. -/
inductive Follows : Symbol → Symbol → Prop
  | separator {first second : Symbol} (hfirst : first ∈ separators)
      (hsecond : second.kind = .identifier) : Follows first second
  | name {first second : Symbol} (hfirst : first.kind = .identifier) :
      Follows first second
  | begins {first second : Symbol} (hfirst : first ∉ separators)
      (hsecond : second.BeginsOperand) : Follows first second
  | ends {first second : Symbol} (hfirst : first.EndsOperand)
      (hsecond : second ∉ separators) : Follows first second

theorem kind_of_mem_separators {symbol : Symbol} (h : symbol ∈ separators) :
    symbol.kind = .operator := by
  revert symbol
  decide

theorem Follows.kind_second {first second : Symbol} (h : Follows first second)
    (hfirst : first ∈ separators) : second.kind = .identifier := by
  have hkind := kind_of_mem_separators hfirst
  cases h with
  | separator _ hsecond => exact hsecond
  | name hname =>
      rw [hkind] at hname
      cases hname
  | begins hnot => exact (hnot hfirst).elim
  | ends hends =>
      rcases hends with hends | rfl
      · exact (hends hkind).elim
      · exact absurd hfirst (by decide)

theorem Follows.kind_first {first second : Symbol} (h : Follows first second)
    (hsecond : second ∈ separators) : first.kind = .identifier := by
  have hkind := kind_of_mem_separators hsecond
  cases h with
  | separator _ hname =>
      rw [hkind] at hname
      cases hname
  | name hname => exact hname
  | begins _ hbegins =>
      have hdisjoint : ∀ opening ∈ openings, opening ∉ separators := by decide
      rcases hbegins with hbegins | hbegins
      · exact (hbegins hkind).elim
      · exact (hdisjoint _ hbegins hsecond).elim
  | ends _ hnot => exact (hnot hsecond).elim

/-- What stands after an opening parenthesis or an infix operator. -/
theorem Follows.beginsOperand {text : String} {second : Symbol}
    (h : Follows (operator text) second)
    (htext : operator text ∉ operator ")" :: separators) : second.BeginsOperand := by
  rw [List.mem_cons, not_or] at htext
  cases h with
  | separator hfirst => exact (htext.2 hfirst).elim
  | name hname => cases hname
  | begins _ hbegins => exact hbegins
  | ends hends =>
      rcases hends with hends | hends
      · exact (hends rfl).elim
      · exact (htext.1 hends).elim

theorem Denotes.kind_ne_operator {symbol : Symbol} {literal : Literal}
    (h : symbol.Denotes literal) : symbol.kind ≠ .operator := by
  cases h <;> exact nofun

end Symbol

open Sift.Symbol (operator identifier separators Follows)

variable {registry : Registry ω} {root : HostType}

/-! The symbols of a derivation, between those around it. -/

section Derivation

variable {before after : Symbol}

theorem Grammar.Path.isChain_follows {symbols : List Symbol} {expr : Expr ω}
    (h : Path registry root symbols expr) (hbefore : before ∉ separators) :
    (before :: symbols ++ [after]).IsChain Follows := by
  induction h generalizing after with
  | first =>
      exact .cons_cons (.begins hbefore (.inl nofun))
        (.cons_cons (.name rfl) (.singleton _))
  | @next symbols base separator name owner member _ hseparator _ _ ih =>
      have hmem : operator separator ∈ separators := by
        rcases hseparator with rfl | rfl <;> decide
      have hlast : [operator separator, identifier name, after].IsChain Follows :=
        .cons_cons (.separator hmem rfl) (.cons_cons (.name rfl) (.singleton _))
      have hsplit : before :: (symbols ++ [operator separator, identifier name]) ++
          [after] =
            (before :: symbols) ++ operator separator :: [identifier name, after] := by
        simp
      rw [hsplit, List.isChain_split]
      exact ⟨ih, hlast⟩

theorem isChain_follows_infix {first second : List Symbol} {text : String}
    (hfirst : (before :: first ++ [operator text]).IsChain Follows)
    (hsecond : (operator text :: second ++ [after]).IsChain Follows) :
    (before :: (first ++ operator text :: second) ++ [after]).IsChain Follows := by
  have hsplit : before :: (first ++ operator text :: second) ++ [after] =
      (before :: first) ++ operator text :: (second ++ [after]) := by
    simp
  rw [hsplit, List.isChain_split]
  exact ⟨hfirst, hsecond⟩

theorem Grammar.Orders.not_mem_separators {text : String} {comparison : Comparison}
    (h : Orders text comparison) : operator text ∉ separators := by
  cases h <;> decide

/-- A derivation begins and ends with an operand, and every separator in it stands
between names. -/
theorem Grammar.Derives.isChain_follows {level : Level} {symbols : List Symbol}
    {expr : Expr ω} {depth : Nat} (h : Derives registry root level symbols expr depth)
    (hbefore : before ∉ separators) (hafter : after ∉ separators) :
    (before :: symbols ++ [after]).IsChain Follows := by
  induction h generalizing before after with
  | literal hliteral =>
      have hkind := hliteral.kind_ne_operator
      exact .cons_cons (.begins hbefore (.inl hkind))
        (.cons_cons (.ends (.inl hkind) hafter) (.singleton _))
  | path hpath => exact hpath.isChain_follows hbefore
  | @group symbols expr depth _ ih =>
      have hinner : (operator "(" :: symbols ++ [operator ")"]).IsChain Follows :=
        ih (by decide) (by decide)
      have hsplit : before :: (operator "(" :: symbols ++ [operator ")"]) ++ [after] =
          (before :: operator "(" :: symbols) ++ operator ")" :: [after] := by
        simp
      rw [hsplit, List.isChain_split]
      exact ⟨.cons_cons (.begins hbefore (.inr (by decide))) hinner,
        .cons_cons (.ends (.inr rfl) hafter) (.singleton _)⟩
  | operand _ ih | negation _ ih | comparison _ ih | equality _ ih | conjunction _ ih =>
      exact ih hbefore hafter
  | not _ _ ih =>
      exact .cons_cons (.begins hbefore (.inr (by decide))) (ih (by decide) hafter)
  | ordering _ horders _ _ ihleft ihright =>
      have hoperator := horders.not_mem_separators
      exact isChain_follows_infix (ihleft hbefore hoperator) (ihright hoperator hafter)
  | equal _ hmem _ _ ihleft ihright =>
      have hoperator : ∀ text ∈ ["=", "<>", "!="], operator text ∉ separators := by decide
      exact isChain_follows_infix (ihleft hbefore (hoperator _ hmem))
        (ihright (hoperator _ hmem) hafter)
  | and _ _ hmem _ _ ihleft ihright =>
      have hoperator : ∀ text ∈ ["and", ";"], operator text ∉ separators := by decide
      exact isChain_follows_infix (ihleft hbefore (hoperator _ hmem))
        (ihright (hoperator _ hmem) hafter)
  | or _ _ hmem _ _ ihleft ihright =>
      have hoperator : ∀ text ∈ ["or", ","], operator text ∉ separators := by decide
      exact isChain_follows_infix (ihleft hbefore (hoperator _ hmem))
        (ihright (hoperator _ hmem) hafter)

end Derivation

/-! The names that an expression is written with, if its symbols are those of a
derivation. -/

namespace Expr

/-- The constants and the whole paths, from left to right. -/
def leaves : Expr ω → List (Expr ω)
  | literal value => [literal value]
  | .root host => [.root host]
  | member base read nullSafe => [member base read nullSafe]
  | compare _ left right | connect _ left right => left.leaves ++ right.leaves
  | not operand => operand.leaves

/-- No path that is a single member is written like a constant. -/
def AvoidsConstants (leaves : List (Expr ω)) : Prop :=
  ∀ host read nullSafe, member (.root host) read nullSafe ∈ leaves →
    read.name ∉ ["true", "false", "null"]

theorem avoidsConstants_append {left right : List (Expr ω)}
    (h : AvoidsConstants (left ++ right)) :
    AvoidsConstants left ∧ AvoidsConstants right :=
  ⟨fun host read nullSafe hmem => h host read nullSafe (List.mem_append_left _ hmem),
    fun host read nullSafe hmem => h host read nullSafe (List.mem_append_right _ hmem)⟩

end Expr

/-- A word operator begins no operand. -/
theorem Symbol.BeginsOperand.not_mem_keywords {name : String}
    (h : (Symbol.word name).BeginsOperand) (hname : name ∉ ["true", "false", "null"]) :
    name ∉ keywords := by
  have hword : ∀ word ∈ ["in", "and", "or"], ¬ (Symbol.word word).BeginsOperand := by
    unfold BeginsOperand
    decide +kernel
  intro hmem
  rcases List.mem_append.mp (show name ∈ ["true", "false", "null"] ++ _ from hmem) with
    hconstant | hoperator
  · exact hname hconstant
  · exact hword name hoperator h

theorem Expr.avoidsKeywords_member {base : Expr ω} {read : Member ω} {nullSafe : Bool}
    (hbase : ∀ host, base ≠ .root host)
    (hinner : ∀ separator ∈ separators,
      (base.symbols ++ [separator]).IsChain Follows → base.AvoidsKeywords)
    (hchain : (member base read nullSafe).symbols.IsChain Follows) :
    (member base read nullSafe).AvoidsKeywords := by
  have hseparator : operator (if nullSafe then "?." else ".") ∈ separators := by
    cases nullSafe <;> decide
  rw [Expr.symbols_member _ _ hbase, List.isChain_split, List.isChain_pair] at hchain
  obtain ⟨hbefore, hfollows⟩ := hchain
  have hname := hfollows.kind_second hseparator
  rw [Symbol.kind_word_eq_identifier_iff] at hname
  exact List.forall_mem_append.mpr
    ⟨hinner _ hseparator hbefore, List.forall_mem_singleton.mpr hname⟩

/-- The names of a path are read as names where the path goes on after it. -/
theorem Grammar.Path.avoidsKeywords_of_isChain {symbols : List Symbol}
    {expr : Expr ω} (h : Path registry root symbols expr) :
    ∀ separator ∈ separators,
      (expr.symbols ++ [separator]).IsChain Follows → expr.AvoidsKeywords := by
  induction h with
  | first =>
      intro separator hseparator hchain
      have hname := (List.isChain_pair.mp hchain).kind_first hseparator
      rw [Symbol.kind_word_eq_identifier_iff] at hname
      exact List.forall_mem_singleton.mpr hname
  | next hbase _ _ _ ih =>
      intro separator _ hchain
      exact Expr.avoidsKeywords_member hbase.ne_root ih hchain.left_of_append

theorem isChain_follows_of_infix {left right : List Symbol} {before after : Symbol}
    {text : String}
    (h : (before :: infixSymbols left text right ++ [after]).IsChain Follows) :
    (operator "(" :: left ++ [operator text]).IsChain Follows ∧
      (operator text :: right ++ [operator ")"]).IsChain Follows := by
  have hinner : (operator "(" :: left ++ operator text :: (right ++ [operator ")"])).IsChain
      Follows :=
    h.infix ⟨[before], [after], by simp [infixSymbols]⟩
  exact List.isChain_split.mp hinner

theorem Expr.Typed.avoidsKeywords_of_isChain {expr : Expr ω}
    (h : expr.Typed registry root) {text : String} {after : Symbol}
    (htext : operator text ∉ operator ")" :: separators)
    (hchain : (operator text :: expr.symbols ++ [after]).IsChain Follows)
    (hconstants : Expr.AvoidsConstants expr.leaves) : expr.AvoidsKeywords := by
  -- Nothing is known yet of what the symbols are read as, so the induction is on the
  -- expression that wrote them, and each part of it is told by its neighbours.
  induction h generalizing text after with
  | literal => exact List.forall_mem_nil _
  | path hpath =>
      cases hpath with
      | first =>
          -- Read as a word operator, the name could not stand where an operand begins.
          have hconstant := hconstants _ _ _ (List.mem_singleton_self _)
          have hbegins := (List.isChain_cons_cons.mp hchain).1.beginsOperand htext
          exact List.forall_mem_singleton.mpr (hbegins.not_mem_keywords hconstant)
      | next hbase =>
          have hpath : (Expr.symbols _).IsChain Follows :=
            hchain.infix ⟨[_], [_], rfl⟩
          exact Expr.avoidsKeywords_member hbase.ne_root hbase.avoidsKeywords_of_isChain
            hpath
  | @compare comparison left read right _ _ _ hcoerced ihleft ihread =>
      obtain ⟨hleft, hright⟩ := isChain_follows_of_infix hchain
      obtain ⟨hleftConstants, hrightConstants⟩ := Expr.avoidsConstants_append hconstants
      have hcomparison : operator comparison.text ∉ operator ")" :: separators := by
        cases comparison <;> decide
      refine List.forall_mem_append.mpr ⟨ihleft (by decide) hleft hleftConstants, ?_⟩
      cases hcoerced with
      | literal => exact List.forall_mem_nil _
      | other => exact ihread hcomparison hright hrightConstants
  | @connect connective _ _ _ _ _ _ ihleft ihright =>
      obtain ⟨hleft, hright⟩ := isChain_follows_of_infix hchain
      obtain ⟨hleftConstants, hrightConstants⟩ := Expr.avoidsConstants_append hconstants
      have hconnective : operator connective.text ∉ operator ")" :: separators := by
        cases connective <;> decide
      exact List.forall_mem_append.mpr ⟨ihleft (by decide) hleft hleftConstants,
        ihright hconnective hright hrightConstants⟩
  | not _ _ ih => exact ih (by decide) hchain.tail hconstants

/-! Reading again. -/

theorem Grammar.Derives.avoidsKeywords {expr again : Expr ω} {depth : Nat}
    (h : Derives registry root .disjunction expr.symbols again depth)
    (htyped : expr.Typed registry root) (hconstants : Expr.AvoidsConstants expr.leaves) :
    expr.AvoidsKeywords := by
  have hopening : operator "(" ∉ separators := by decide
  have hclosing : operator ")" ∉ separators := by decide
  exact htyped.avoidsKeywords_of_isChain (by decide)
    (h.isChain_follows hopening hclosing) hconstants

theorem avoidsConstants_of_avoidsKeywords {expr : Expr ω} (h : expr.AvoidsKeywords) :
    Expr.AvoidsConstants expr.leaves := by
  intro host read nullSafe hmem
  have haccess : (.root host, read) ∈ expr.accesses := by
    induction expr with
    | literal value => simp [Expr.leaves] at hmem
    | root host => simp [Expr.leaves] at hmem
    | member base read nullSafe ih =>
        cases List.mem_singleton.mp hmem
        exact List.mem_singleton_self _
    | compare _ _ _ ihleft ihright | connect _ _ _ ihleft ihright =>
        obtain ⟨hleft, hright⟩ := List.forall_mem_append.mp h
        exact List.mem_append.mpr
          ((List.mem_append.mp hmem).imp (ihleft hleft) (ihright hright))
    | not operand ih => exact ih h hmem
  have hname := h _ haccess
  simp [keywords] at hname ⊢
  tauto

/-- A filter that is read again from what it writes is the same filter, unless one of
its paths is a single member that is written `true`, `false` or `null`: then it is
another. -/
theorem reread_eq_iff [HostObject ω] {text : String} {expr again : Expr ω}
    (h : registry.parse root text = .ok expr)
    (hagain : registry.parse root expr.text = .ok again) :
    (again = expr ↔ ∀ host read nullSafe,
      .member (.root host) read nullSafe ∈ expr.leaves →
        read.name ∉ ["true", "false", "null"]) ∧
      ((again == expr) = true ↔ again = expr) := by
  obtain ⟨-, firstDepth, -, hfirst⟩ := parse_eq_ok_iff.mp h
  obtain ⟨-, depth, -, hderives⟩ := parse_eq_ok_iff.mp hagain
  rw [symbols_text h] at hderives
  have hsame : expr.AvoidsKeywords → again = expr := by
    intro hnames
    have hwritten := hfirst.typed.derives (nonNegative_of_used hderives.used) hnames
    exact (hderives.unique hwritten.toDisjunction).1
  have hnames : (again == expr) = true → expr.AvoidsKeywords := fun hequal =>
    Expr.avoidsKeywords_of_length
      (hderives.names.length_eq.trans (Expr.length_accesses_of_beq hequal))
  have hconstants : again = expr → Expr.AvoidsConstants expr.leaves := by
    intro heq
    apply avoidsConstants_of_avoidsKeywords
    apply hnames
    rw [heq]
    exact expr.beq_self
  refine ⟨⟨hconstants, fun h => hsame (hderives.avoidsKeywords hfirst.typed h)⟩,
    fun hequal => hsame (hnames hequal), fun heq => ?_⟩
  rw [heq]
  exact expr.beq_self

namespace Sample

/-- The filter `!Urgent`. -/
def notUrgent : Expr Item :=
  .not (.member (.root orderType) urgentMember false)

theorem parse_notUrgent : orders.parse orderType "!urgent" = .ok notUrgent := by
  have htokens : tokenize "!urgent" =
      [⟨.operator, "!", 0⟩, ⟨.identifier, "urgent", 1⟩, ⟨.finish, "", 7⟩] := by
    decide +kernel
  rw [Registry.parse, htokens]
  rfl

theorem parse_notUrgent_text : orders.parse orderType "!Urgent" = .ok notUrgent := by
  have htokens : tokenize "!Urgent" =
      [⟨.operator, "!", 0⟩, ⟨.identifier, "Urgent", 1⟩, ⟨.finish, "", 7⟩] := by
    decide +kernel
  rw [Registry.parse, htokens]
  rfl

def trueMember : Member Item :=
  { urgentMember with name := "true" }

def switches : Registry Item :=
  Registry.empty.registerAll [trueMember]

theorem build_switches : (Builder.run [.register trueMember]).build = .ok switches :=
  rfl

theorem parse_capital_true :
    switches.parse orderType "TRUE" = .ok (.member (.root orderType) trueMember false) := by
  have htokens : tokenize "TRUE" = [⟨.identifier, "TRUE", 0⟩, ⟨.finish, "", 4⟩] := by
    decide +kernel
  rw [Registry.parse, htokens]
  rfl

theorem parse_true : switches.parse orderType "true" = .ok (.literal (.bool true)) := by
  have htokens : tokenize "true" = [⟨.true, "true", 0⟩, ⟨.finish, "", 4⟩] := by
    decide +kernel
  rw [Registry.parse, htokens]
  rfl

end Sample

theorem reread_eq_iff_sample :
    Sample.orders.parse Sample.orderType "!urgent" = .ok Sample.notUrgent ∧
      Sample.orders.parse Sample.orderType Sample.notUrgent.text =
        .ok Sample.notUrgent ∧
      ∀ host read nullSafe,
        .member (.root host) read nullSafe ∈ Sample.notUrgent.leaves →
          read.name ∉ ["true", "false", "null"] := by
  have hagain : Sample.orders.parse Sample.orderType Sample.notUrgent.text =
      .ok Sample.notUrgent :=
    Sample.parse_notUrgent_text
  exact ⟨Sample.parse_notUrgent, hagain,
    (reread_eq_iff Sample.parse_notUrgent hagain).1.mp rfl⟩

/-- What is printed for a member registered as `true` is read again as the constant. -/
theorem not_forall_reread_eq :
    ¬ ∀ (steps : List (BuildStep Sample.Item)) (registry : Registry Sample.Item)
        (root : HostType) (text : String) (expr again : Expr Sample.Item),
      (Builder.run steps).build = .ok registry →
        registry.parse root text = .ok expr →
          registry.parse root expr.text = .ok again → (again == expr) = true := by
  intro h
  have hequal := h _ _ _ _ _ _ Sample.build_switches Sample.parse_capital_true
    Sample.parse_true
  cases hequal

end Sift
