import Mathlib.Data.List.Basic

/-! Runs with a label on every step, and what is left of a run when somebody else's
steps are taken out of it. -/
namespace RDrive

inductive Traced {σ ε : Type} (step : σ → ε → σ → Prop) : σ → List ε → σ → Prop where
  | none (s : σ) : Traced step s [] s
  | more {s e t rest u} (taken : step s e t) (later : Traced step t rest u) :
      Traced step s (e :: rest) u

namespace Traced
variable {σ ε : Type} {step : σ → ε → σ → Prop}

theorem append {s t u : σ} {before after : List ε} (first : Traced step s before t)
    (later : Traced step t after u) : Traced step s (before ++ after) u := by
  induction first with
  | none s => exact later
  | more taken _ ih => exact .more taken (ih later)

def Guarded (guard : σ → ε → Prop) (step : σ → ε → σ → Prop) (s : σ) (e : ε) (t : σ) : Prop :=
  guard s e ∧ step s e t

theorem unguarded {guard : σ → ε → Prop} {s t : σ} {events : List ε}
    (ran : Traced (Guarded guard step) s events t) : Traced step s events t := by
  induction ran with
  | none s => exact .none s
  | more taken later ih => exact .more taken.2 ih

end Traced

/- Two systems that look alike to an observer: his own steps go the same way in both, and
nobody else's step changes what he sees. -/
structure Unwinding {σ τ ε : Type} (step : σ → ε → σ → Prop) (alone : τ → ε → τ → Prop)
    (own : ε → Bool) (alike : σ → τ → Prop) : Prop where
  matched : ∀ {s e t v}, step s e t → own e = true → alike s v → ∃ w, alone v e w ∧ alike t w
  unseen : ∀ {s e t v}, step s e t → own e = false → alike s v → alike t v

theorem Unwinding.ownRun {σ τ ε : Type} {step : σ → ε → σ → Prop} {alone : τ → ε → τ → Prop}
    {own : ε → Bool} {alike : σ → τ → Prop} (unwinding : Unwinding step alone own alike) {s t : σ} {v : τ}
    {events : List ε} (ran : Traced step s events t) (start : alike s v) :
    ∃ w, Traced alone v (events.filter own) w ∧ alike t w := by
  induction ran generalizing v with
  | none s => exact ⟨v,.none v,start⟩
  | @more s e t rest u taken later ih =>
    cases mine : own e with
    | false =>
      rw [List.filter_cons_of_neg (by simp [mine])]
      exact ih (unwinding.unseen taken mine start)
    | true =>
      rw [List.filter_cons_of_pos mine]
      obtain ⟨w,first,alike⟩ := unwinding.matched taken mine start
      obtain ⟨last,rest,same⟩ := ih alike
      exact ⟨last,.more first rest,same⟩

end RDrive
