import RDrive.Lib.Crew

/-! A crew whose members each have something of their own: what a member relies on
depends on its notes, and no two members claim the same. One step keeps everybody's
claim, so every run does. -/
namespace RDrive
open Program Crew

/- What the members agree on: the steps of others as one with these notes sees them, the
validity of what they share, each one's claim to it, and when two claims do not meet. -/
structure Pact (σ γ : Type) where
  rely : γ → σ → σ → Prop
  valid : σ → Prop
  point : γ → σ → Prop
  apart : γ → γ → Prop
  refl_ : ∀ g s, rely g s s
  trans_ : ∀ g s t u, rely g s t → rely g t u → rely g s u
  stable : ∀ g s t, rely g s t → valid t → point g s → point g t
  symm_ : ∀ g h, apart g h → apart h g

structure Shift (σ γ : Type) where
  shared : σ
  notes : γ
  before : σ
  noted : γ

namespace Guild
variable {S : Signature} {α β σ γ : Type}

def start (s : σ) (g : γ) : Shift σ γ := ⟨s,g,s,g⟩

/- Between two calls of a member the others may have done anything it relies on. -/
def disturbed (env : Env S (σ × γ)) (pact : Pact σ γ) : Env S (Shift σ γ) := fun u c r v =>
  pact.rely u.notes u.shared v.before ∧ pact.valid v.before ∧ v.noted = u.notes ∧
    env (v.before,u.notes) c r (v.shared,v.notes)

structure Decent (pact : Pact σ γ) (u : Shift σ γ) : Prop where
  valid : pact.valid u.shared
  point : pact.point u.notes u.shared
  kind : ∀ k, pact.apart u.noted k → pact.point k u.before →
    pact.rely k u.before u.shared ∧ pact.apart u.notes k

variable {env : Env S (σ × γ)} {pact : Pact σ γ} {post : Outcome α → Shift σ γ → Prop}
  {joins : Member S α γ → Prop}

theorem startDecent {s : σ} {g : γ} (held : pact.valid s) (point : pact.point g s) :
    Decent pact (start s g) := ⟨held,point,fun k apart _ => ⟨pact.refl_ k s,apart⟩⟩

def Stands (env : Env S (σ × γ)) (pact : Pact σ γ) (post : Outcome α → Shift σ γ → Prop)
    (m : Member S α γ) (s : σ) : Prop :=
  ∃ u : Shift σ γ, u.notes = m.notes ∧ pact.rely m.notes u.shared s ∧
    Safe (disturbed env pact) (Decent pact) post m.program u

theorem standsLater {m : Member S α γ} {s t : σ} (stands : Stands env pact post m s)
    (step : pact.rely m.notes s t) : Stands env pact post m t := by
  obtain ⟨u,same,since,safe⟩ := stands
  exact ⟨u,same,pact.trans_ _ _ _ _ since step,safe⟩

theorem standsPoint {m : Member S α γ} {s : σ} (held : pact.valid s)
    (stands : Stands env pact post m s) : pact.point m.notes s := by
  obtain ⟨u,same,since,safe⟩ := stands
  have point := (safeStart safe).point
  rw [same] at point
  exact pact.stable _ _ _ since held point

structure Orderly (env : Env S (σ × γ)) (pact : Pact σ γ) (post : Outcome α → Shift σ γ → Prop)
    (c : Crew S α σ γ) : Prop where
  valid : pact.valid c.shared
  apart : c.members.Pairwise fun m n => pact.apart m.notes n.notes
  stands : ∀ m ∈ c.members, Stands env pact post m c.shared

theorem stepOrderly (meets : ∀ m k, joins m → pact.apart m.notes k)
    (starts : ∀ m s, joins m → pact.valid s →
      Safe (disturbed env pact) (Decent pact) post m.program (start s m.notes))
    {first second : Crew S α σ γ} (step : Crew.Step env joins first second)
    (orderly : Orderly env pact post first) : Orderly env pact post second := by
  cases step with
  | join m admitted =>
    refine ⟨orderly.valid,.cons (fun n _ => meets m n.notes admitted) orderly.apart,?_⟩
    intro other member
    rcases List.mem_cons.mp member with rfl | member
    · exact ⟨_,rfl,pact.refl_ _ _,starts _ _ admitted orderly.valid⟩
    · exact orderly.stands other member
  | @move before after c next g s r t h answered =>
    obtain ⟨held,apart,stands⟩ := orderly
    obtain ⟨u,rfl,since,safe⟩ := stands ⟨.call c next,g⟩ (by simp)
    have moved := safe.2 r ⟨t,h,s,u.notes⟩ ⟨since,held,rfl,answered⟩
    have decent := safeStart moved
    obtain ⟨left,right,across⟩ := List.pairwise_append.mp apart
    obtain ⟨mine,right⟩ := List.pairwise_cons.mp right
    -- the other members see the step as one they rely on
    have other : ∀ m, m ∈ before ∨ m ∈ after →
        Stands env pact post m t ∧ pact.apart h m.notes := by
      intro m among
      have old : Stands env pact post m s := by
        refine stands m (List.mem_append.mpr ?_)
        exact among.imp id (List.mem_cons_of_mem _)
      have unlike : pact.apart u.notes m.notes := by
        rcases among with member | member
        · exact pact.symm_ _ _ (across m member _ List.mem_cons_self)
        · exact mine m member
      obtain ⟨relied,still⟩ := decent.kind m.notes unlike (standsPoint held old)
      exact ⟨standsLater old relied,still⟩
    refine ⟨decent.valid,?_,?_⟩
    · refine List.pairwise_append.mpr ⟨left,.cons (fun m member => (other m (.inr member)).2) right,?_⟩
      intro m member n among
      rcases List.mem_cons.mp among with rfl | among
      · exact pact.symm_ _ _ (other m (.inl member)).2
      · exact across m member n (List.mem_cons_of_mem _ among)
    · intro m among
      rcases List.mem_append.mp among with member | among
      · exact (other m (.inl member)).1
      · rcases List.mem_cons.mp among with rfl | member
        · exact ⟨_,rfl,pact.refl_ _ _,moved⟩
        · exact (other m (.inr member)).1

theorem runOrderly (meets : ∀ m k, joins m → pact.apart m.notes k)
    (starts : ∀ m s, joins m → pact.valid s →
      Safe (disturbed env pact) (Decent pact) post m.program (start s m.notes))
    {first : σ} {last : Crew S α σ γ} (ran : Crew.Run env joins ⟨first,[]⟩ last)
    (held : pact.valid first) : Orderly env pact post last := by
  induction ran with
  | refl => exact ⟨held,.nil,by simp⟩
  | tail _ step ih => exact stepOrderly meets starts step ih

theorem callSafe (fact : σ → Prop) {c : S.Call} {next : S.Ret c → Program S α} {u : Shift σ γ}
    (decent : Decent pact u)
    (keeps : ∀ s t, pact.rely u.notes s t → pact.valid t → fact s → fact t) (known : fact u.shared)
    (each : ∀ s r t h, pact.valid s → pact.point u.notes s → fact s → env (s,u.notes) c r (t,h) →
      Safe (disturbed env pact) (Decent pact) post (next r) ⟨t,h,s,u.notes⟩) :
    Safe (disturbed env pact) (Decent pact) post (.call c next) u := by
  refine ⟨decent,?_⟩
  rintro r ⟨t,h,s,k⟩ ⟨since,held,rfl,answered⟩
  exact each s r t h held (pact.stable _ _ _ since held decent.point) (keeps _ _ since held known) answered

theorem partSafe (fact : γ → σ → Prop) {allowed : S.Call → Prop} {p : Program S β} {u : Shift σ γ}
    (decent : Decent pact u) (known : fact u.notes u.shared)
    (keeps : ∀ g s t, pact.rely g s t → pact.valid t → fact g s → fact g t)
    (confined : Confined allowed p)
    (each : ∀ s g c r t h, allowed c → pact.valid s → pact.point g s → fact g s →
      env (s,g) c r (t,h) → Decent pact ⟨t,h,s,g⟩ ∧ fact h t) :
    Safe (disturbed env pact) (Decent pact) (Returns fun _ v => fact v.notes v.shared) p u := by
  have both : Safe (disturbed env pact) (fun v => Decent pact v ∧ fact v.notes v.shared)
      (fun _ _ => True) p u := by
    refine confinedSafe ⟨decent,known⟩ confined ?_
    rintro v c r ⟨t,h,s,k⟩ ⟨decent,fact_⟩ among ⟨since,held,rfl,answered⟩
    exact each _ _ c r _ _ among held (pact.stable _ _ _ since held decent.point)
      (keeps _ _ _ since held fact_) answered
  refine safeWeaken (safeMono (safeNoted both) fun v kept => kept.1) ?_
  rintro (a | message | _) v _ kept
  · exact kept.2
  · trivial
  · trivial

end Guild
end RDrive
