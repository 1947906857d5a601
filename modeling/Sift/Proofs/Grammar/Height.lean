import Sift.Proofs.Evaluation.Walk
import Sift.Proofs.Expr.RoundTrip

namespace Sift

/-! How high a filter is. The depth to which it nests bounds all of its height but that of
its paths. -/

open Grammar

variable {ω : Type}

namespace Expr

/-- The number of expressions one within the other. -/
def height : Expr ω → Nat
  | literal _ | root _ => 1
  | member base _ _ => base.height + 1
  | compare _ left right | connect _ left right => max left.height right.height + 1
  | not operand => operand.height + 1

/-- The number of members in the longest path. -/
def longestPath : Expr ω → Nat
  | literal _ | root _ => 0
  | member base _ _ => base.longestPath + 1
  | compare _ left right | connect _ left right => max left.longestPath right.longestPath
  | not operand => operand.longestPath

theorem longestPath_lt_height (expr : Expr ω) : expr.longestPath < expr.height := by
  induction expr with
  | literal | root => exact Nat.zero_lt_one
  | member base read nullSafe ih => exact Nat.succ_lt_succ ih
  | compare comparison left right ihleft ihright
  | connect connective left right ihleft ihright =>
      simp only [longestPath, height]
      omega
  | not operand ih =>
      simp only [longestPath, height]
      omega

theorem height_extend (start : Expr ω) (path : List (Segment ω)) :
    (start.extend path).height = start.height + path.length := by
  induction path generalizing start with
  | nil => rfl
  | cons segment path ih =>
      have hrest := ih (start.member segment.member segment.nullSafe)
      rw [height, Nat.add_right_comm] at hrest
      exact hrest

theorem exists_of_mem_accesses_extend {start : Expr ω} {path : List (Segment ω)}
    {access : Expr ω × Member ω} (h : access ∈ (start.extend path).accesses) :
    access ∈ start.accesses ∨ ∃ segment ∈ path, access.2 = segment.member := by
  induction path generalizing start with
  | nil => exact .inl h
  | cons segment path ih =>
      rcases ih h with hstart | ⟨other, hother, hmember⟩
      · rcases List.mem_append.mp hstart with hbase | hlast
        · exact .inl hbase
        · obtain rfl := List.mem_singleton.mp hlast
          exact .inr ⟨segment, List.mem_cons_self, rfl⟩
      · exact .inr ⟨other, List.mem_cons_of_mem _ hother, hmember⟩

end Expr

variable {registry : Registry ω} {root : HostType}

namespace Grammar

/-- What a rule adds to the height of the expressions nested in it. -/
def Level.slack : Level → Nat
  | .operand | .negation => 0
  | .comparison => 1
  | .equality => 3
  | .conjunction => 4
  | .disjunction => 5

theorem Path.height_eq {symbols : List Symbol} {expr : Expr ω}
    (h : Path registry root symbols expr) : expr.height = expr.longestPath + 1 := by
  induction h with
  | first => rfl
  | next _ _ _ _ ih => exact congrArg (· + 1) ih

theorem Coerced.height_eq {target : StaticType} {read right : Expr ω}
    (h : Coerced target read right) : right.height = read.height := by
  cases h <;> rfl

theorem Coerced.longestPath_eq {target : StaticType} {read right : Expr ω}
    (h : Coerced target read right) : right.longestPath = read.longestPath := by
  cases h <;> rfl

theorem height_equality_le (text : String) (left right : Expr ω) :
    (equality text left right).height ≤ max left.height right.height + 2 := by
  unfold equality
  split <;> simp only [Expr.height] <;> omega

theorem longestPath_equality (text : String) (left right : Expr ω) :
    (equality text left right).longestPath = max left.longestPath right.longestPath := by
  unfold equality
  split <;> rfl

theorem Derives.height_le {level : Level} {symbols : List Symbol} {expr : Expr ω}
    {depth : Nat} (h : Derives registry root level symbols expr depth) :
    expr.height ≤ 5 * depth + level.slack + expr.longestPath + 1 := by
  induction h with
  | literal => exact Nat.le_refl _
  | path hpath =>
      rw [hpath.height_eq]
      omega
  | group _ ih | operand _ ih | negation _ ih | comparison _ ih | equality _ ih
  | conjunction _ ih =>
      simp only [Level.slack] at ih ⊢
      omega
  | not _ _ ih =>
      simp only [Level.slack, Expr.height, Expr.longestPath] at ih ⊢
      omega
  | ordering _ _ _ hcoerced ihleft ihright =>
      simp only [Level.slack, Expr.height, Expr.longestPath, hcoerced.height_eq,
        hcoerced.longestPath_eq] at ihleft ihright ⊢
      omega
  | @equal first second left read right text _ _ _ _ _ hcoerced ihleft ihright =>
      have hequality := height_equality_le text left right
      simp only [Level.slack, longestPath_equality, hcoerced.height_eq,
        hcoerced.longestPath_eq] at hequality ihleft ihright ⊢
      omega
  | and _ _ _ _ _ ihleft ihright | or _ _ _ _ _ ihleft ihright =>
      simp only [Level.slack, Expr.height, Expr.longestPath] at ihleft ihright ⊢
      omega

end Grammar

/-! Where no object leads back to its own type, the longest path is bounded too. -/

/-- Members that are objects are of a lower rank than their owners. -/
def Registry.Ranked (registry : Registry ω) (rank : HostType → Nat) : Prop :=
  ∀ member ∈ registry.entries, ∀ inner, member.type.value = .object inner →
    rank inner < rank member.owner

section Ranked

variable {rank : HostType → Nat} (hranked : registry.Ranked rank)

include hranked

theorem Registry.Ranked.lt_of_lookup? {owner inner : HostType} {name : String}
    {member : Member ω} (hmember : registry.lookup? owner name = some member)
    (hinner : member.type.value = .object inner) : rank inner < rank owner := by
  have howner : member.owner = owner :=
    congrArg Prod.fst (Registry.slot_of_lookup? hmember)
  rw [← howner]
  exact hranked member (Registry.mem_of_lookup? hmember) inner hinner

/-- Each member of a path costs rank, and only an object can be gone on from. -/
theorem Grammar.Path.longestPath_le {symbols : List Symbol} {expr : Expr ω}
    (h : Path registry root symbols expr) :
    expr.longestPath ≤ rank root + 1 ∧
      ∀ owner, expr.type.value = .object owner →
        rank owner + expr.longestPath ≤ rank root := by
  induction h with
  | first hmember =>
      refine ⟨Nat.le_add_left _ _, fun owner howner => ?_⟩
      rw [Expr.type_value_member] at howner
      exact hranked.lt_of_lookup? hmember howner
  | @next symbols base separator name owner member hbase _ howner hmember ih =>
      have hroom := ih.2 owner howner
      rw [Expr.longestPath]
      refine ⟨by omega, fun inner hinner => ?_⟩
      rw [Expr.type_value_member] at hinner
      have hlower := hranked.lt_of_lookup? hmember hinner
      omega

theorem Expr.Typed.longestPath_le {expr : Expr ω} (h : expr.Typed registry root) :
    expr.longestPath ≤ rank root + 1 := by
  induction h with
  | literal => exact Nat.zero_le _
  | path hpath => exact (hpath.longestPath_le hranked).1
  | compare _ _ _ hcoerced ihleft ihread =>
      rw [Expr.longestPath, hcoerced.longestPath_eq]
      exact Nat.max_le.mpr ⟨ihleft, ihread⟩
  | connect _ _ _ _ ihleft ihright => exact Nat.max_le.mpr ⟨ihleft, ihright⟩
  | not _ _ ih => exact ih

end Ranked

theorem Sample.ranked_orders : Sample.orders.Ranked HostType.identifier := by
  intro member hmember inner hinner
  rcases Sample.mem_orders hmember with rfl | rfl | rfl
  · cases hinner
  · cases hinner
    decide
  · cases hinner

/-- The height of a filter is bounded but for the members of its longest path, and
altogether where no object leads back to its own type. -/
theorem height_of_parse {text : String} {expr : Expr ω}
    (h : registry.parse root text = .ok expr) :
    expr.longestPath < expr.height ∧
      expr.height ≤ 5 * maxDepth + 6 + expr.longestPath ∧
        ∀ rank, registry.Ranked rank → expr.height ≤ 5 * maxDepth + 7 + rank root := by
  obtain ⟨-, depth, hdepth, hderives⟩ := parse_eq_ok_iff.mp h
  have hheight := hderives.height_le
  rw [Level.slack] at hheight
  refine ⟨expr.longestPath_lt_height, by omega, fun rank hranked => ?_⟩
  have hpath := hderives.typed.longestPath_le hranked
  omega

theorem height_of_parse_sample :
    (Sample.orders.parse Sample.orderType "customer?.NAME = 'Ann' or !Urgent" =
        .ok Sample.filter ∧
      Sample.orders.Ranked HostType.identifier) ∧
    Sample.filter.longestPath < Sample.filter.height ∧
      Sample.filter.height ≤ 5 * maxDepth + 6 + Sample.filter.longestPath ∧
        Sample.filter.height ≤ 5 * maxDepth + 7 + Sample.orderType.identifier := by
  obtain ⟨hlower, hupper, hranked⟩ := height_of_parse Sample.parse_filter
  exact ⟨⟨Sample.parse_filter, Sample.ranked_orders⟩, hlower, hupper,
    hranked _ Sample.ranked_orders⟩

/-! A member of the type that owns it may be gone through again and again. -/

theorem Grammar.Path.parse_text {symbols : List Symbol} {expr : Expr ω}
    (h : Path registry root symbols expr) (hbool : expr.type.value = .bool)
    (hwords : expr.NamesWords) (hnames : expr.AvoidsKeywords) :
    registry.parse root expr.text = .ok expr := by
  have hend : Lexeme.EndsWord [] := nofun
  have hlexed := h.lexed_written hwords hend
  rw [lexed_nil, List.append_nil, List.append_nil] at hlexed
  have hderives : Derives registry root .negation expr.symbols expr 0 :=
    .operand (.path (h.derives_symbols hnames))
  refine parse_eq_ok_iff.mpr ⟨hbool, 0, Nat.zero_le _, ?_⟩
  rw [symbols_eq_lexed, Expr.text, String.toList_ofList, hlexed]
  exact hderives.toDisjunction

section Again

variable {again last : Member ω}
  (hagain : registry.lookup? root again.name = some again)
  (hagainType : again.type.value = .object root)

include hagain hagainType

theorem exists_path_again (count : Nat) :
    let path := (Expr.root root).extend (List.replicate (count + 1) ⟨again, false⟩)
    (∃ symbols, Path registry root symbols path) ∧ path.type.value = .object root := by
  induction count with
  | zero => exact ⟨⟨_, .first hagain⟩, (Expr.type_value_member _ _ _).trans hagainType⟩
  | succ count ih =>
      obtain ⟨⟨symbols, hpath⟩, howner⟩ := ih
      rw [List.replicate_succ', Expr.extend_append]
      exact ⟨⟨_, .next hpath (.inl rfl) howner hagain⟩,
        (Expr.type_value_member _ _ _).trans hagainType⟩

theorem exists_parse_again (hlast : registry.lookup? root last.name = some last)
    (hlastType : last.type.value = .bool)
    (hnames : ∀ read ∈ [again, last],
      Lexeme.IsWord read.name.toList ∧ read.name ∉ keywords) (count : Nat) :
    ∃ text expr, registry.parse root text = .ok expr ∧ expr.height = count + 3 := by
  obtain ⟨⟨symbols, hagainPath⟩, howner⟩ := exists_path_again hagain hagainType count
  let path : List (Segment ω) :=
    List.replicate (count + 1) ⟨again, false⟩ ++ [⟨last, false⟩]
  obtain ⟨whole, hpath⟩ :
      ∃ whole, Path registry root whole ((Expr.root root).extend path) := by
    rw [Expr.extend_append]
    exact ⟨_, .next hagainPath (.inl rfl) howner hlast⟩
  have hbool : ((Expr.root root).extend path).type.value = .bool := by
    rw [Expr.extend_append]
    exact (Expr.type_value_member _ _ _).trans hlastType
  have hmember : ∀ access ∈ ((Expr.root root).extend path).accesses,
      access.2 ∈ [again, last] := by
    intro access haccess
    obtain hroot | ⟨segment, hsegment, heq⟩ := Expr.exists_of_mem_accesses_extend haccess
    · cases hroot
    rw [heq]
    rcases List.mem_append.mp hsegment with hfront | hback
    · rw [List.eq_of_mem_replicate hfront]
      exact List.mem_cons_self
    · rw [List.mem_singleton.mp hback]
      exact List.mem_cons_of_mem _ List.mem_cons_self
  refine ⟨_, _, hpath.parse_text hbool (fun access haccess => ?_)
    (fun access haccess => ?_), ?_⟩
  · exact (hnames _ (hmember access haccess)).1
  · exact (hnames _ (hmember access haccess)).2
  · rw [Expr.height_extend, List.length_append, List.length_replicate]
    simp only [Expr.height, List.length_singleton]
    omega

end Again

/-! Customers and their friends. -/

namespace Sample

def friendMember : Member Item where
  name := "Friend"
  owner := customerType
  type := ⟨.object customerType, true⟩
  accessor _ := .null

def knownMember : Member Item where
  name := "Known"
  owner := customerType
  type := .bool
  accessor
    | .customer name => .bool (name ≠ "")
    | .order .. => .null

def friends : Registry Item :=
  Registry.empty.registerAll [friendMember, knownMember]

theorem lookup?_friend :
    friends.lookup? customerType friendMember.name = some friendMember :=
  rfl

theorem lookup?_known :
    friends.lookup? customerType knownMember.name = some knownMember :=
  rfl

theorem isWord_friend : Lexeme.IsWord friendMember.name.toList := by
  decide +kernel

theorem isWord_known : Lexeme.IsWord knownMember.name.toList := by
  decide +kernel

end Sample

/-- No bound on the height holds for all registries. -/
theorem not_exists_height_bound :
    ¬ ∃ bound, ∀ (ω : Type) (registry : Registry ω) (root : HostType) (text : String)
      (expr : Expr ω), registry.parse root text = .ok expr → expr.height ≤ bound := by
  rintro ⟨bound, hbound⟩
  have hnames : ∀ read ∈ [Sample.friendMember, Sample.knownMember],
      Lexeme.IsWord read.name.toList ∧ read.name ∉ keywords :=
    List.forall_mem_cons.mpr ⟨⟨Sample.isWord_friend, by decide⟩,
      List.forall_mem_singleton.mpr ⟨Sample.isWord_known, by decide⟩⟩
  obtain ⟨text, expr, hparse, hheight⟩ := exists_parse_again Sample.lookup?_friend rfl
    Sample.lookup?_known rfl hnames bound
  have hle := hbound _ _ _ _ _ hparse
  omega

end Sift
