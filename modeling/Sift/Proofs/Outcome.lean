namespace Sift

/-! Results that may be errors, taken apart and put together. -/

variable {ε α β : Type}

theorem bind_eq_ok {result : Except ε α} {next : α → Except ε β} {value : β} :
    (result >>= next) = .ok value ↔
      ∃ middle, result = .ok middle ∧ next middle = .ok value := by
  cases result with
  | error fault => simp [bind, Except.bind]
  | ok middle => simp [bind, Except.bind]

/-! Two computations side by side. -/

/-- The same error, or related values. -/
inductive Agree (related : α → β → Prop) : Except ε α → Except ε β → Prop
  | ok {first : α} {second : β} (h : related first second) :
      Agree related (.ok first) (.ok second)
  | error (error : ε) : Agree related (.error error) (.error error)

namespace Agree

variable {γ δ : Type}

theorem bind {related : α → β → Prop} {nextRelated : γ → δ → Prop}
    {first : Except ε α} {second : Except ε β} {firstNext : α → Except ε γ}
    {secondNext : β → Except ε δ} (h : Agree related first second)
    (hnext : ∀ {left right}, related left right →
      Agree nextRelated (firstNext left) (secondNext right)) :
    Agree nextRelated (first >>= firstNext) (second >>= secondNext) := by
  cases h with
  | ok hrelated => exact hnext hrelated
  | error error => exact .error error

theorem of_eq {first second : Except ε α} (h : first = second) :
    Agree Eq first second := by
  subst h
  cases first with
  | ok value => exact .ok rfl
  | error error => exact .error error

theorem eq {first second : Except ε α} (h : Agree Eq first second) :
    first = second := by
  cases h with
  | ok h => rw [h]
  | error => rfl

end Agree

/-- The second result is the first, or the first is an error that is excused. -/
inductive Persists (excused : ε → Prop) : Except ε α → Except ε α → Prop
  | same (result : Except ε α) : Persists excused result result
  | excused {error : ε} (herror : excused error) (result : Except ε α) :
      Persists excused (.error error) result

namespace Persists

variable {excused : ε → Prop}

theorem bind {first second : Except ε α} {firstNext secondNext : α → Except ε β}
    (h : Persists excused first second)
    (hnext : ∀ value, Persists excused (firstNext value) (secondNext value)) :
    Persists excused (first >>= firstNext) (second >>= secondNext) := by
  cases h with
  | same =>
      cases first with
      | error error => exact .same _
      | ok value => exact hnext value
  | excused herror => exact .excused herror _

theorem eq {first second : Except ε α} (h : Persists excused first second)
    (hfirst : ∀ error, first = .error error → ¬ excused error) : second = first := by
  cases h with
  | same => rfl
  | excused herror => exact (hfirst _ rfl herror).elim

end Persists

/-- There is a result exactly where the bound covers the cost, and it is the value. -/
def Yields (bound cost : Nat) (result : Except ε α) (value : α) : Prop :=
  result.toOption = if cost ≤ bound then some value else none

namespace Yields

variable {bound cost : Nat}

theorem ok (value : α) : Yields bound 0 (.ok value : Except ε α) value := by
  simp [Yields, Except.toOption]

theorem bind {result : Except ε α} {next : α → Except ε β} {middle : α} {value : β}
    {nextCost : Nat} (hresult : Yields bound cost result middle)
    (hnext : Yields bound nextCost (next middle) value) :
    Yields bound (max cost nextCost) (result >>= next) value := by
  unfold Yields at *
  cases result with
  | error fault =>
      have hcost : ¬ cost ≤ bound := fun hle => by simp [Except.toOption, hle] at hresult
      rw [if_neg (by omega)]
      rfl
  | ok found =>
      by_cases hcost : cost ≤ bound
      · have hfound : found = middle := by simpa [Except.toOption, hcost] using hresult
        subst hfound
        change (next found).toOption = _
        have hmax : max cost nextCost ≤ bound ↔ nextCost ≤ bound := by omega
        simp only [hnext, hmax]
      · simp [Except.toOption, hcost] at hresult

/-- A step that cannot fail does not change the cost. -/
theorem bind_ok {result : Except ε α} {next : α → Except ε β} {middle : α} {value : β}
    (hresult : Yields bound cost result middle)
    (hnext : next middle = .ok value) : Yields bound cost (result >>= next) value := by
  have hvalue := hresult.bind (hnext ▸ ok value)
  rwa [Nat.max_zero] at hvalue

theorem eq_ok {result : Except ε α} {value : α} (h : Yields bound cost result value)
    (hcost : cost ≤ bound) : result = .ok value := by
  cases result with
  | error fault => simp [Yields, Except.toOption, hcost] at h
  | ok found => simpa [Yields, Except.toOption, hcost] using h

theorem cost_le {result : Except ε α} {value found : α}
    (h : Yields bound cost result value) (hfound : result = .ok found) :
    cost ≤ bound := by
  by_cases hcost : cost ≤ bound
  · exact hcost
  · simp [Yields, Except.toOption, hcost, hfound] at h

end Yields

end Sift
