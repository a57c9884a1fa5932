import FastCrawl.Library.Transition

/-! Simulations between transition systems.  A step of the concrete system is silent,
or it performs one step of the abstract system; what holds of every run of the
abstract one then holds of the concrete runs, as far as related states show it. -/

universe u v w x

namespace Transition

variable {σ : Type u} {α : Type v} {τ : Type w} {β : Type x}

/-- `Performs` tells which abstract action a concrete one may be. -/
structure Simulation (concrete : Transition σ α) (abstract : Transition τ β)
    (Performs : σ → α → β → Prop) (Related : σ → τ → Prop) : Prop where
  step : ∀ {state shadow action}, Related state shadow → concrete.Enabled state action →
    Related (concrete.effect state action) shadow ∨
      ∃ answer, Performs state action answer ∧ abstract.Enabled shadow answer ∧
        Related (concrete.effect state action) (abstract.effect shadow answer)

theorem Reachable.leads {system : Transition σ α} {Start : σ → Prop} {state later : σ}
    (reachable : system.Reachable Start state) (led : system.Leads state later) :
    system.Reachable Start later := by
  induction led with
  | start same => exact same ▸ reachable
  | step _ action allowed enabled ih => exact .step ih action allowed enabled

namespace Simulation

variable {concrete : Transition σ α} {abstract : Transition τ β} {Performs : σ → α → β → Prop}
  {Related : σ → τ → Prop} {Start Allowed} {Start' Allowed'} {state : σ} {shadow : τ}

/-- The abstract run takes allowed steps only, if allowed concrete steps perform such. -/
theorem reaches (simulation : Simulation concrete abstract Performs Related)
    (starts : ∀ state, Start state → ∃ shadow, Start' shadow ∧ Related state shadow)
    (allows : ∀ state shadow action answer, Related state shadow → Allowed state action →
      Performs state action answer → Allowed' shadow answer)
    (reached : concrete.Reaches Start Allowed state) :
    ∃ shadow, abstract.Reaches Start' Allowed' shadow ∧ Related state shadow := by
  induction reached with
  | start started =>
      obtain ⟨shadow, started', related⟩ := starts _ started
      exact ⟨shadow, .start started', related⟩
  | step _ action allowed enabled ih =>
      obtain ⟨shadow, reached', related⟩ := ih
      rcases simulation.step related enabled with silent | ⟨answer, performs, enabled', follows⟩
      · exact ⟨shadow, reached', silent⟩
      · have allowed' := allows _ shadow action answer related allowed performs
        exact ⟨_, .step reached' answer allowed' enabled', follows⟩

theorem leads (simulation : Simulation concrete abstract Performs Related)
    (related : Related state shadow) {later : σ} (led : concrete.Leads state later) :
    ∃ shadow', abstract.Leads shadow shadow' ∧ Related later shadow' := by
  refine simulation.reaches ?_ (fun _ _ _ _ _ _ _ => trivial) led
  intro started same
  exact ⟨shadow, rfl, same ▸ related⟩

end Simulation

end Transition
