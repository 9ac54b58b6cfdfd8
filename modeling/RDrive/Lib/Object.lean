import RDrive.Lib.Unwinding

/-! Objects that are asked one thing after the other: what they answer and what they become,
and what they are meant to be asked. What agrees with an object in every step agrees with it
in every run. -/
namespace RDrive

structure Object (σ ρ α : Type) where
  meant : σ → ρ → Prop
  answer : σ → ρ → α
  next : σ → ρ → σ

namespace Object
variable {σ τ ρ α : Type} (O : Object σ ρ α)

def after : σ → List ρ → σ
  | s, [] => s
  | s, r :: rest => after (O.next s r) rest

def answers : σ → List ρ → List α
  | _, [] => []
  | s, r :: rest => O.answer s r :: answers (O.next s r) rest

def Orderly : σ → List ρ → Prop
  | _, [] => True
  | s, r :: rest => O.meant s r ∧ Orderly (O.next s r) rest

theorem afterAppend (s : σ) (before later : List ρ) :
    O.after s (before ++ later) = O.after (O.after s before) later := by
  induction before generalizing s with
  | nil => rfl
  | cons r rest ih => exact ih _

theorem orderlyAppend {s : σ} {before later : List ρ} :
    O.Orderly s (before ++ later) ↔ O.Orderly s before ∧ O.Orderly (O.after s before) later := by
  induction before generalizing s with
  | nil => simp [Orderly,after]
  | cons r rest ih => simp only [List.cons_append,Orderly,after,ih,and_assoc]

theorem answersAppend (s : σ) (before later : List ρ) :
    O.answers s (before ++ later) = O.answers s before ++ O.answers (O.after s before) later := by
  induction before generalizing s with
  | nil => rfl
  | cons r rest ih => simp only [List.cons_append,answers,after,ih]

/- A system that answers each meant request as the object does, and stays related to it. -/
def Implements (step : τ → ρ × α → τ → Prop) (related : σ → τ → Prop) : Prop :=
  ∀ {s t r a u}, related s t → O.meant s r → step t (r,a) u →
    a = O.answer s r ∧ related (O.next s r) u

theorem implementsRun {step : τ → ρ × α → τ → Prop} {related : σ → τ → Prop}
    (implements : O.Implements step related) {t u : τ} {events : List (ρ × α)}
    (ran : Traced step t events u) {s : σ} (start : related s t)
    (orderly : O.Orderly s (events.map Prod.fst)) :
    events.map Prod.snd = O.answers s (events.map Prod.fst) ∧
      related (O.after s (events.map Prod.fst)) u := by
  induction ran generalizing s with
  | none t => exact ⟨rfl,start⟩
  | @more t event v rest u taken later ih =>
    obtain ⟨r,a⟩ := event
    obtain ⟨agrees,kept⟩ := implements start orderly.1 taken
    obtain ⟨others,last⟩ := ih kept orderly.2
    refine ⟨?_,last⟩
    rw [List.map_cons,others,agrees]
    rfl

end Object
end RDrive
