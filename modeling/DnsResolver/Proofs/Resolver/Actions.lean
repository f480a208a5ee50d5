import DnsResolver.Resolver.Run

/-!
# What actions ensure

`Ensures` says what one action makes of the states it may start in, and `Paired` what two actions
make of related states; `PairedUntil` gives up on them once the first one comes to some kind of
state.  All of them follow the way in which an action is put together from others.
-/

namespace DnsResolver
namespace Resolver

variable {σ τ : Type} {α β γ δ : Type}

/-! ## One action -/

/-- From every state with `before`, the action gives a value and leaves a state with `after`. -/
def Ensures (before : State σ → Prop) (action : Action σ α) (after : α → State σ → Prop) : Prop :=
  ∀ state, before state → after (action state).1 (action state).2

section Ensures

variable {before : State σ → Prop} {between : α → State σ → Prop}
  {after : β → State σ → Prop}

theorem ensures_pure {a : β} (h : ∀ state, before state → after a state) :
    Ensures before (pure a) after :=
  h

theorem Ensures.bind {first : Action σ α} {next : α → Action σ β}
    (hfirst : Ensures before first between) (hnext : ∀ a, Ensures (between a) (next a) after) :
    Ensures before (first >>= next) after :=
  fun state hstate => hnext _ _ (hfirst state hstate)

theorem Ensures.mono {action : Action σ β} {weaker : β → State σ → Prop}
    (h : Ensures before action after) (hweaker : ∀ b state, after b state → weaker b state) :
    Ensures before action weaker :=
  fun state hstate => hweaker _ _ (h state hstate)

/-- A fact that is not about states may be assumed throughout. -/
theorem Ensures.assuming {action : Action σ β} {fact : Prop}
    (h : fact → Ensures before action after) :
    Ensures (fun state => before state ∧ fact) action after :=
  fun state hstate => h hstate.2 state hstate.1

end Ensures

/-! ## Two actions side by side -/

/-- From states that `related` relates, the actions give values that `agree` relates, and leave
related states. -/
def Paired (related : State σ → State τ → Prop) (first : Action σ α) (second : Action τ β)
    (agree : α → β → Prop) : Prop :=
  ∀ s t, related s t → agree (first s).1 (second t).1 ∧ related (first s).2 (second t).2

theorem paired_pure {related : State σ → State τ → Prop} {agree : α → β → Prop} {a : α} {b : β}
    (h : agree a b) :
    Paired related (pure a) (pure b) agree :=
  fun _ _ hrelated => ⟨h, hrelated⟩

theorem Paired.bind {related : State σ → State τ → Prop} {first : Action σ α} {second : Action τ β}
    {agree : α → β → Prop} {afterFirst : α → Action σ γ} {afterSecond : β → Action τ δ}
    {agreeAfter : γ → δ → Prop} (h : Paired related first second agree)
    (hafter : ∀ a b, agree a b → Paired related (afterFirst a) (afterSecond b) agreeAfter) :
    Paired related (first >>= afterFirst) (second >>= afterSecond) agreeAfter := by
  intro s t hrelated
  obtain ⟨hagree, hbetween⟩ := h s t hrelated
  exact hafter _ _ hagree _ _ hbetween

theorem Paired.bind_eq {related : State σ → State τ → Prop} {first : Action σ α}
    {second : Action τ α} {afterFirst : α → Action σ γ} {afterSecond : α → Action τ δ}
    {agreeAfter : γ → δ → Prop} (h : Paired related first second Eq)
    (hafter : ∀ a, Paired related (afterFirst a) (afterSecond a) agreeAfter) :
    Paired related (first >>= afterFirst) (second >>= afterSecond) agreeAfter := by
  refine h.bind ?_
  rintro a _ rfl
  exact hafter a

/-! ## Two actions side by side until something happens -/

/-- From related states, the actions give the same value and leave related states, unless the first
one comes to a state with `stop`, which it then does not leave any more. -/
structure PairedUntil (stop : State σ → Prop) (related : State σ → State τ → Prop)
    (first : Action σ α) (second : Action τ α) : Prop where
  stays : ∀ s, stop s → stop (first s).2
  agrees : ∀ s t, related s t →
    stop (first s).2 ∨ (first s).1 = (second t).1 ∧ related (first s).2 (second t).2

section PairedUntil

variable {stop : State σ → Prop} {related : State σ → State τ → Prop}

/-- Actions that agree for good are those that agree until the impossible happens. -/
theorem paired_eq_iff_pairedUntil {first : Action σ α} {second : Action τ α} :
    Paired related first second Eq ↔ PairedUntil (fun _ => False) related first second := by
  constructor
  · intro h
    exact ⟨fun _ => id, fun s t hrelated => .inr (h s t hrelated)⟩
  · intro h s t hrelated
    exact (h.agrees s t hrelated).resolve_left id

theorem pairedUntil_pure (a : α) : PairedUntil stop related (pure a) (pure a) where
  stays _ hstop := hstop
  agrees _ _ hrelated := .inr ⟨rfl, hrelated⟩

theorem PairedUntil.bind {first : Action σ α} {second : Action τ α} {afterFirst : α → Action σ β}
    {afterSecond : α → Action τ β} (h : PairedUntil stop related first second)
    (hafter : ∀ a, PairedUntil stop related (afterFirst a) (afterSecond a)) :
    PairedUntil stop related (first >>= afterFirst) (second >>= afterSecond) := by
  constructor
  · intro s hstop
    exact (hafter _).stays _ (h.stays s hstop)
  · intro s t hrelated
    rcases h.agrees s t hrelated with hstop | ⟨hvalue, hbetween⟩
    · exact .inl ((hafter _).stays _ hstop)
    · rw [bind_apply, bind_apply, ← hvalue]
      exact (hafter _).agrees _ _ hbetween

end PairedUntil

end Resolver
end DnsResolver
