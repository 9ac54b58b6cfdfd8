import RDrive.Lib.Program
import Mathlib.Logic.Relation

/-! Any number of programs over one shared state: one call of one of them at a time, in
any order, and newcomers at any moment. What each program keeps on its own, granted
that between its calls the shared state only grows, all of them keep together. -/
namespace RDrive
open Program

structure Member (S : Signature) (α γ : Type) where
  program : Program S α
  notes : γ

structure Crew (S : Signature) (α σ γ : Type) where
  shared : σ
  members : List (Member S α γ)

namespace Crew
variable {S : Signature} {α β σ γ : Type}

inductive Step (env : Env S (σ × γ)) (joins : Member S α γ → Prop) :
    Crew S α σ γ → Crew S α σ γ → Prop where
  | join {s members} (m : Member S α γ) (admitted : joins m) :
      Step env joins ⟨s,members⟩ ⟨s,m :: members⟩
  | move {before after c next g s r t h} (answered : env (s,g) c r (t,h)) :
      Step env joins ⟨s,before ++ ⟨.call c next,g⟩ :: after⟩ ⟨t,before ++ ⟨next r,h⟩ :: after⟩

abbrev Run (env : Env S (σ × γ)) (joins : Member S α γ → Prop) :=
  Relation.ReflTransGen (Step env joins)

structure Turn (σ γ : Type) where
  shared : σ
  notes : γ
  before : σ

def Turn.start (s : σ) (g : γ) : Turn σ γ := ⟨s,g,s⟩

theorem soloRuns {env : Env S (σ × γ)} {joins : Member S α γ → Prop} {before after : List (Member S α γ)}
    {p q : Program S α} {s t : σ × γ} (reached : Reaches env p s q t) :
    Run env joins ⟨s.1,before ++ ⟨p,s.2⟩ :: after⟩ ⟨t.1,before ++ ⟨q,t.2⟩ :: after⟩ := by
  induction reached with
  | here p s => exact .refl
  | answer answered later ih => exact .head (.move answered) ih

section
variable (env : Env S (σ × γ)) (grows : σ → σ → Prop) (valid : σ → Prop) (point : γ → σ → Prop)

/- Between two calls of a member the others may have done anything that grows. -/
def disturbed : Env S (Turn σ γ) := fun u c r v =>
  grows u.shared v.before ∧ valid v.before ∧ env (v.before,u.notes) c r (v.shared,v.notes)

structure Decent (u : Turn σ γ) : Prop where
  grown : grows u.before u.shared
  valid : valid u.shared
  point : point u.notes u.shared

def Stable : Prop := ∀ g s t, grows s t → valid t → point g s → point g t

end

variable {env : Env S (σ × γ)} {grows : σ → σ → Prop} {valid : σ → Prop} {point : γ → σ → Prop}
  {post : Outcome α → Turn σ γ → Prop} {joins : Member S α γ → Prop}

def Stands (env : Env S (σ × γ)) (grows : σ → σ → Prop) (valid : σ → Prop) (point : γ → σ → Prop)
    (post : Outcome α → Turn σ γ → Prop) (m : Member S α γ) (s : σ) : Prop :=
  ∃ u : Turn σ γ, u.notes = m.notes ∧ grows u.shared s ∧
    Safe (disturbed env grows valid) (Decent grows valid point) post m.program u

theorem standsLater (trans_ : ∀ a b c, grows a b → grows b c → grows a c) {m : Member S α γ} {s t : σ}
    (stands : Stands env grows valid point post m s) (grown : grows s t) :
    Stands env grows valid point post m t := by
  obtain ⟨u,same,since,safe⟩ := stands
  exact ⟨u,same,trans_ _ _ _ since grown,safe⟩

theorem stepKeeps (refl_ : ∀ s, grows s s) (trans_ : ∀ a b c, grows a b → grows b c → grows a c)
    (starts : ∀ m s, joins m → valid s → Safe (disturbed env grows valid) (Decent grows valid point)
      post m.program (Turn.start s m.notes))
    {first second : Crew S α σ γ} (step : Step env joins first second) (held : valid first.shared)
    (each : ∀ m ∈ first.members, Stands env grows valid point post m first.shared) :
    valid second.shared ∧ ∀ m ∈ second.members, Stands env grows valid point post m second.shared := by
  cases step with
  | join m admitted =>
    refine ⟨held,?_⟩
    intro other member
    rcases List.mem_cons.mp member with rfl | member
    · exact ⟨_,rfl,refl_ _,starts _ _ admitted held⟩
    · exact each other member
  | @move before after c next g s r t h answered =>
    obtain ⟨u,rfl,since,safe⟩ := each ⟨.call c next,g⟩ (by simp)
    have moved := safe.2 r ⟨t,h,s⟩ ⟨since,held,answered⟩
    have decent := safeStart moved
    have grown : grows s t := decent.grown
    refine ⟨decent.valid,?_⟩
    intro other member
    rcases List.mem_append.mp member with member | member
    · exact standsLater trans_ (each other (List.mem_append_left _ member)) grown
    · rcases List.mem_cons.mp member with rfl | member
      · exact ⟨_,rfl,refl_ _,moved⟩
      · have old : other ∈ before ++ ⟨.call c next,u.notes⟩ :: after :=
          List.mem_append_right _ (List.mem_cons_of_mem _ member)
        exact standsLater trans_ (each other old) grown

theorem runKeeps (refl_ : ∀ s, grows s s) (trans_ : ∀ a b c, grows a b → grows b c → grows a c)
    (stable : Stable grows valid point)
    (starts : ∀ m s, joins m → valid s → Safe (disturbed env grows valid) (Decent grows valid point)
      post m.program (Turn.start s m.notes))
    {start : σ} {last : Crew S α σ γ} (ran : Run env joins ⟨start,[]⟩ last) (held : valid start) :
    valid last.shared ∧ ∀ m ∈ last.members, point m.notes last.shared := by
  have each : valid last.shared ∧
      ∀ m ∈ last.members, Stands env grows valid point post m last.shared := by
    induction ran with
    | refl => exact ⟨held,nofun⟩
    | tail _ step ih => exact stepKeeps refl_ trans_ starts step ih.1 ih.2
  refine ⟨each.1,?_⟩
  intro m member
  obtain ⟨u,same,since,safe⟩ := each.2 m member
  rw [← same]
  exact stable _ _ _ since each.1 (safeStart safe).point

theorem callsKeep {allowed : S.Call → Prop} {fact : γ → Prop} {p : Program S β} {u : Turn σ γ}
    (stable : Stable grows valid point) (start : Decent grows valid point u) (known : fact u.notes)
    (confined : Confined allowed p)
    (keeps : ∀ s g c r t h, allowed c → valid s → point g s → fact g → env (s,g) c r (t,h) →
      grows s t ∧ valid t ∧ point h t ∧ fact h) :
    Safe (disturbed env grows valid) (Decent grows valid point)
      (Returns fun _ v => fact v.notes) p u := by
  have both : Safe (disturbed env grows valid)
      (fun v => Decent grows valid point v ∧ fact v.notes) (fun _ _ => True) p u := by
    refine confinedSafe ⟨start,known⟩ confined ?_
    intro v c r w kept among answered
    obtain ⟨since,valid_,answered⟩ := answered
    obtain ⟨grown,after,claim,fact_⟩ := keeps _ _ c r _ _ among valid_
      (stable _ _ _ since valid_ kept.1.point) kept.2 answered
    exact ⟨⟨grown,after,claim⟩,fact_⟩
  refine safeWeaken (safeMono (safeNoted both) ?_) ?_
  · exact fun v kept => kept.1
  · intro result v _ kept
    cases result with
    | ok b => exact kept.2
    | err message => trivial
    | panic => trivial

end Crew
end RDrive
