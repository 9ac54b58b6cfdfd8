import RDrive.Lib.Crew

/-! Two programs over one shared state, one call of one of them at a time, in any order.
What each keeps on its own, granted what the steps of the other look like, both keep
together. -/
namespace RDrive
open Program Crew

structure Pair (S : Signature) (α β σ γ δ : Type) where
  shared : σ
  left : Member S α γ
  right : Member S β δ

namespace Pair
variable {S : Signature} {α β σ γ δ : Type}

inductive Step (envLeft : Env S (σ × γ)) (envRight : Env S (σ × δ)) :
    Pair S α β σ γ δ → Pair S α β σ γ δ → Prop where
  | left {s c next g q r t h} (answered : envLeft (s,g) c r (t,h)) :
      Step envLeft envRight ⟨s,⟨.call c next,g⟩,q⟩ ⟨t,⟨next r,h⟩,q⟩
  | right {s c next g p r t h} (answered : envRight (s,g) c r (t,h)) :
      Step envLeft envRight ⟨s,p,⟨.call c next,g⟩⟩ ⟨t,p,⟨next r,h⟩⟩

abbrev Run (envLeft : Env S (σ × γ)) (envRight : Env S (σ × δ)) :=
  Relation.ReflTransGen (Step (α := α) (β := β) envLeft envRight)

variable {envLeft : Env S (σ × γ)} {envRight : Env S (σ × δ)}

theorem leftRuns {p q : Program S α} {m : Member S β δ} {s t : σ × γ} (reached : Reaches envLeft p s q t) :
    Run envLeft envRight ⟨s.1,⟨p,s.2⟩,m⟩ ⟨t.1,⟨q,t.2⟩,m⟩ := by
  induction reached with
  | here p s => exact .refl
  | answer answered later ih => exact .head (.left answered) ih

theorem rightRuns {p q : Program S β} {m : Member S α γ} {s t : σ × δ}
    (reached : Reaches envRight p s q t) :
    Run envLeft envRight ⟨s.1,m,⟨p,s.2⟩⟩ ⟨t.1,m,⟨q,t.2⟩⟩ := by
  induction reached with
  | here p s => exact .refl
  | answer answered later ih => exact .head (.right answered) ih

/- Where a side stands: some turn of its own, and steps of the other since. `others` is
what these look like, `own` what its own steps look like to the other. -/
def Stands (env : Env S (σ × γ)) (own others : σ → σ → Prop) (valid : σ → Prop)
    (point : γ → σ → Prop) (m : Member S α γ) (s : σ) : Prop :=
  ∃ u : Turn σ γ, u.notes = m.notes ∧ others u.shared s ∧
    Safe (disturbed env others valid) (Decent own valid point) (fun _ _ => True) m.program u

section
variable {env : Env S (σ × γ)} {own others : σ → σ → Prop} {valid : σ → Prop} {point : γ → σ → Prop}

theorem standsLater (trans_ : ∀ a b c, others a b → others b c → others a c) {m : Member S α γ} {s t : σ}
    (stands : Stands env own others valid point m s) (step : others s t) :
    Stands env own others valid point m t := by
  obtain ⟨u,same,since,safe⟩ := stands
  exact ⟨u,same,trans_ _ _ _ since step,safe⟩

theorem standsPoint {m : Member S α γ} {s : σ} (stable : Stable others valid point) (held : valid s)
    (stands : Stands env own others valid point m s) : point m.notes s := by
  obtain ⟨u,same,since,safe⟩ := stands
  rw [← same]
  exact stable _ _ _ since held (safeStart safe).point

theorem standsStep (refl_ : ∀ s, others s s) {c : S.Call} {next : S.Ret c → Program S α} {g h : γ}
    {s t : σ} {r : S.Ret c} (held : valid s)
    (stands : Stands env own others valid point ⟨.call c next,g⟩ s) (answered : env (s,g) c r (t,h)) :
    own s t ∧ valid t ∧ Stands env own others valid point ⟨next r,h⟩ t := by
  obtain ⟨u,rfl,since,safe⟩ := stands
  have moved := safe.2 r ⟨t,h,s⟩ ⟨since,held,answered⟩
  have decent := safeStart moved
  exact ⟨decent.grown,decent.valid,_,rfl,refl_ _,moved⟩

end

structure Rely (byLeft byRight : σ → σ → Prop) : Prop where
  leftRefl : ∀ s, byLeft s s
  rightRefl : ∀ s, byRight s s
  leftTrans : ∀ a b c, byLeft a b → byLeft b c → byLeft a c
  rightTrans : ∀ a b c, byRight a b → byRight b c → byRight a c

variable {byLeft byRight : σ → σ → Prop} {valid : σ → Prop} {pointLeft : γ → σ → Prop}
  {pointRight : δ → σ → Prop}

theorem stepStands (rely : Rely byLeft byRight) {first second : Pair S α β σ γ δ}
    (step : Step envLeft envRight first second) (held : valid first.shared)
    (left : Stands envLeft byLeft byRight valid pointLeft first.left first.shared)
    (right : Stands envRight byRight byLeft valid pointRight first.right first.shared) :
    valid second.shared ∧ Stands envLeft byLeft byRight valid pointLeft second.left second.shared ∧
      Stands envRight byRight byLeft valid pointRight second.right second.shared := by
  cases step with
  | left answered =>
    obtain ⟨own,after,stands⟩ := standsStep rely.rightRefl held left answered
    exact ⟨after,stands,standsLater rely.leftTrans right own⟩
  | right answered =>
    obtain ⟨own,after,stands⟩ := standsStep rely.leftRefl held right answered
    exact ⟨after,standsLater rely.rightTrans left own,stands⟩

theorem runKeeps (rely : Rely byLeft byRight) {start last : Pair S α β σ γ δ}
    (ran : Run envLeft envRight start last) (held : valid start.shared)
    (left : Safe (disturbed envLeft byRight valid) (Decent byLeft valid pointLeft) (fun _ _ => True)
      start.left.program (Turn.start start.shared start.left.notes))
    (right : Safe (disturbed envRight byLeft valid) (Decent byRight valid pointRight) (fun _ _ => True)
      start.right.program (Turn.start start.shared start.right.notes)) :
    valid last.shared ∧ Stands envLeft byLeft byRight valid pointLeft last.left last.shared ∧
      Stands envRight byRight byLeft valid pointRight last.right last.shared := by
  induction ran with
  | refl => exact ⟨held,⟨_,rfl,rely.rightRefl _,left⟩,⟨_,rfl,rely.leftRefl _,right⟩⟩
  | tail _ step ih => exact stepStands rely step ih.1 ih.2.1 ih.2.2

theorem leftEnds (rely : Rely byLeft byRight) {start last : Pair S α β σ γ δ}
    {post : Outcome α → Turn σ γ → Prop} (ran : Run envLeft envRight start last) (held : valid start.shared)
    (left : Safe (disturbed envLeft byRight valid) (Decent byLeft valid pointLeft) post
      start.left.program (Turn.start start.shared start.left.notes))
    (right : Safe (disturbed envRight byLeft valid) (Decent byRight valid pointRight) (fun _ _ => True)
      start.right.program (Turn.start start.shared start.right.notes)) :
    ∃ u : Turn σ γ, u.notes = last.left.notes ∧ byRight u.shared last.shared ∧
      Safe (disturbed envLeft byRight valid) (Decent byLeft valid pointLeft) post last.left.program u := by
  induction ran with
  | refl => exact ⟨_,rfl,rely.rightRefl _,left⟩
  | tail ran step ih =>
    obtain ⟨u,same,since,safe⟩ := ih
    obtain ⟨held,-,stands⟩ := runKeeps rely ran held (safeWeaken left fun _ _ _ _ => trivial) right
    cases step with
    | left answered =>
      cases same
      exact ⟨_,rfl,rely.rightRefl _,safe.2 _ ⟨_,_,_⟩ ⟨since,held,answered⟩⟩
    | right answered =>
      obtain ⟨own,-⟩ := standsStep rely.leftRefl held stands answered
      exact ⟨u,same,rely.rightTrans _ _ _ since own,safe⟩

section
variable {env : Env S (σ × γ)} {own others : σ → σ → Prop} {point : γ → σ → Prop}

theorem callSafe (fact : σ → Prop) {c : S.Call} {next : S.Ret c → Program S α}
    {post : Outcome α → Turn σ γ → Prop} {u : Turn σ γ} (decent : Decent own valid point u)
    (keeps : ∀ s t, others s t → valid t → fact s → fact t) (known : fact u.shared)
    (each : ∀ s r t h, valid s → fact s → env (s,u.notes) c r (t,h) →
      Safe (disturbed env others valid) (Decent own valid point) post (next r) ⟨t,h,s⟩) :
    Safe (disturbed env others valid) (Decent own valid point) post (.call c next) u := by
  refine ⟨decent,?_⟩
  rintro r ⟨t,h,s⟩ ⟨since,held,answered⟩
  exact each s r t h held (keeps _ _ since held known) answered

theorem partSafe (fact : γ → σ → Prop) {allowed : S.Call → Prop} {p : Program S β} {u : Turn σ γ}
    (start : Decent own valid point u) (known : fact u.notes u.shared)
    (keeps : ∀ g s t, others s t → valid t → fact g s → fact g t) (confined : Confined allowed p)
    (each : ∀ s g c r t h, allowed c → valid s → fact g s → env (s,g) c r (t,h) →
      own s t ∧ valid t ∧ point h t ∧ fact h t) :
    Safe (disturbed env others valid) (Decent own valid point) (Returns fun _ v => fact v.notes v.shared)
      p u := by
  have both : Safe (disturbed env others valid)
      (fun v => Decent own valid point v ∧ fact v.notes v.shared) (fun _ _ => True) p u := by
    refine confinedSafe ⟨start,known⟩ confined ?_
    rintro v c r w ⟨-,fact_⟩ among ⟨since,held,answered⟩
    obtain ⟨grown,after,claim,next⟩ := each _ _ c r _ _ among held (keeps _ _ _ since held fact_) answered
    exact ⟨⟨grown,after,claim⟩,next⟩
  refine safeWeaken (safeMono (safeNoted both) fun v kept => kept.1) ?_
  rintro (a | message | _) v _ kept
  · exact kept.2
  · trivial
  · trivial

end

end Pair
end RDrive
