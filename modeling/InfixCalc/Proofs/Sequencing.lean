/-!
# Sequencing

A sequence of two computations goes on after a value and stops at an error,
for plain results as well as for computations with a state.
-/

namespace InfixCalc

section Results

variable {ε α β : Type}

@[simp] theorem ok_bind
    (value : α) (next : α → Except ε β) :
    (Except.ok value >>= next) = next value := by
  rfl

@[simp] theorem error_bind
    (error : ε) (next : α → Except ε β) :
    (Except.error error >>= next) = .error error := by
  rfl

theorem bind_eq_ok
    {first : Except ε α} {next : α → Except ε β} {found : β} :
    (first >>= next) = .ok found ↔
      ∃ value, first = .ok value ∧ next value = .ok found := by
  cases first with
  | ok value =>
      simp
  | error error =>
      simp

theorem bind_eq_error
    {first : Except ε α} {next : α → Except ε β} {error : ε} :
    (first >>= next) = .error error ↔
      first = .error error ∨ ∃ value, first = .ok value ∧ next value = .error error := by
  cases first with
  | ok value =>
      simp
  | error found =>
      simp

theorem map_eq_ok
    {outcome : Except ε α} {wrap : α → β} {found : β} :
    outcome.map wrap = .ok found ↔ ∃ value, outcome = .ok value ∧ wrap value = found := by
  cases outcome with
  | ok value =>
      simp [Except.map]
  | error error =>
      simp [Except.map]

/-- A sequence of computations fails where the first of them fails. -/
theorem mapM_eq_error
    {step : α → Except ε β} {items : List α} {error : ε} :
    items.mapM step = .error error ↔
      ∃ before item after,
        items = before ++ item :: after ∧
        (∀ other ∈ before, ∃ value, step other = .ok value) ∧
        step item = .error error := by
  constructor
  · intro hitems
    induction items with
    | nil =>
        cases hitems
    | cons item items ih =>
        rw [List.mapM_cons, bind_eq_error] at hitems
        rcases hitems with hitem | ⟨value, hitem, hitems⟩
        · exact ⟨[], item, items, rfl, List.forall_mem_nil _, hitem⟩
        · rcases bind_eq_error.mp hitems with hlater | ⟨values, -, hnever⟩
          · obtain ⟨before, failed, after, rfl, hbefore, hfailed⟩ := ih hlater
            exact ⟨item :: before, failed, after, rfl,
              List.forall_mem_cons.mpr ⟨⟨value, hitem⟩, hbefore⟩, hfailed⟩
          · cases hnever
  · rintro ⟨before, item, after, rfl, hbefore, hitem⟩
    induction before with
    | nil =>
        rw [List.nil_append, List.mapM_cons, hitem, error_bind]
    | cons other before ih =>
        obtain ⟨⟨value, hother⟩, hbefore⟩ := List.forall_mem_cons.mp hbefore
        rw [List.cons_append, List.mapM_cons, hother, ok_bind, ih hbefore, error_bind]

end Results

section States

variable {ε σ α β : Type}

theorem run_bind_of_ok
    {first : EStateM ε σ α} {before after : σ} {value : α}
    (hfirst : first before = .ok value after)
    (next : α → EStateM ε σ β) :
    (first >>= next) before = next value after := by
  change (match first before with
    | .ok value after => next value after
    | .error error after => .error error after) = _
  rw [hfirst]

theorem run_bind_of_error
    {first : EStateM ε σ α} {before after : σ} {error : ε}
    (hfirst : first before = .error error after)
    (next : α → EStateM ε σ β) :
    (first >>= next) before = .error error after := by
  change (match first before with
    | .ok value after => next value after
    | .error error after => .error error after) = _
  rw [hfirst]

theorem run_bind_eq_ok
    {first : EStateM ε σ α} {next : α → EStateM ε σ β} {before after : σ} {found : β} :
    (first >>= next) before = .ok found after ↔
      ∃ value between,
        first before = .ok value between ∧ next value between = .ok found after := by
  constructor
  · intro hbind
    cases hfirst : first before with
    | ok value between =>
        rw [run_bind_of_ok hfirst] at hbind
        exact ⟨value, between, rfl, hbind⟩
    | error error between =>
        rw [run_bind_of_error hfirst] at hbind
        cases hbind
  · rintro ⟨value, between, hfirst, hnext⟩
    rw [run_bind_of_ok hfirst, hnext]

end States
end InfixCalc
