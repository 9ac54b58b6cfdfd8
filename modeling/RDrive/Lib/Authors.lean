import Mathlib.Data.List.Infix

/-! Whose work lies at a place, from a journal of what was done to all places: somebody
took a place for itself, added to what lay there, a place was cleared, or what lay at
some places was moved. Work that others added to is nobody's. -/
namespace RDrive.Authors
variable {W P M : Type}

inductive Event (W P M : Type) where
  | took (w : W) (p : P)
  | added (w : W) (p : P)
  | cleared (p : P)
  | moved (m : M)

section
variable [DecidableEq W] [DecidableEq P] (origin : M → P → Option P)

/- After a move there lies at q what lay where q has it from. -/
def apply (authors : P → Option W) : Event W P M → P → Option W
  | .took w p, q => if q = p then some w else authors q
  | .added w p, q => if q = p ∧ authors q ≠ some w then none else authors q
  | .cleared p, q => if q = p then none else authors q
  | .moved m, q => (origin m q).bind authors

def author (events : List (Event W P M)) : P → Option W := events.foldl (apply origin) fun _ => none

@[simp] theorem authorNone (q : P) : author origin ([] : List (Event W P M)) q = none := rfl

@[simp] theorem authorThen (events : List (Event W P M)) (e : Event W P M) :
    author origin (events ++ [e]) = apply origin (author origin events) e := by
  simp [author,List.foldl_append]

end

def Spares (w : W) (q : P) : Event W P M → Prop
  | .took _ p => q ≠ p
  | .added v p => q = p → v = w
  | .cleared p => q ≠ p
  | .moved _ => False

inductive Kept (origin : M → P → Option P) (w : W) (p : P) : List (Event W P M) → P → Prop where
  | here : Kept origin w p [] p
  | spared {q events e} (before : Kept origin w p events q) (spares : Spares w q e) :
      Kept origin w p (events ++ [e]) q
  | carried {q r events m} (before : Kept origin w p events q) (moved : origin m r = some q) :
      Kept origin w p (events ++ [.moved m]) r

def Holds (origin : M → P → Option P) (w : W) (events : List (Event W P M)) (p q : P) : Prop :=
  ∃ before after, events = before ++ .took w p :: after ∧ Kept origin w p after q

theorem holdsThen {origin : M → P → Option P} {events : List (Event W P M)} {w : W} {p q r : P}
    {e : Event W P M} (holds : Holds origin w events p q)
    (step : ∀ before, Kept origin w p before q → Kept origin w p (before ++ [e]) r) :
    Holds origin w (events ++ [e]) p r := by
  obtain ⟨before,after,rfl,kept⟩ := holds
  exact ⟨before,after ++ [e],by simp,step after kept⟩

section
variable [DecidableEq W] [DecidableEq P] {origin : M → P → Option P} {events : List (Event W P M)}
  {w : W} {p q : P}

theorem spareAuthor {authors : P → Option W} {e : Event W P M} (spares : Spares w q e)
    (mine : authors q = some w) : apply origin authors e q = some w := by
  cases e with
  | took v p => rw [apply,if_neg spares,mine]
  | added v p =>
    rw [apply,if_neg,mine]
    rintro ⟨same,other⟩
    rw [spares same,mine] at other
    exact other rfl
  | cleared p => rw [apply,if_neg spares,mine]
  | moved m => exact spares.elim

theorem applyAuthor {authors : P → Option W} {e : Event W P M}
    (mine : apply origin authors e q = some w) : e = .took w q ∨ (authors q = some w ∧ Spares w q e) ∨
      ∃ m r, e = .moved m ∧ origin m q = some r ∧ authors r = some w := by
  cases e with
  | took v p =>
    rw [apply] at mine
    split at mine
    · rename_i same
      cases Option.some.inj mine
      exact .inl (by rw [same])
    · rename_i beside
      exact .inr (.inl ⟨mine,beside⟩)
  | added v p =>
    rw [apply] at mine
    split at mine
    · cases mine
    · rename_i untouched
      refine .inr (.inl ⟨mine,fun same => ?_⟩)
      by_contra other
      refine untouched ⟨same,?_⟩
      rw [mine]
      exact fun equal => other (Option.some.inj equal).symm
  | cleared p =>
    rw [apply] at mine
    split at mine
    · cases mine
    · rename_i beside
      exact .inr (.inl ⟨mine,beside⟩)
  | moved m =>
    obtain ⟨r,found,mine⟩ := Option.bind_eq_some_iff.mp mine
    exact .inr (.inr ⟨m,r,rfl,found,mine⟩)

theorem keptAuthor {before after : List (Event W P M)} (kept : Kept origin w p after q) :
    author origin (before ++ .took w p :: after) q = some w := by
  induction kept with
  | here =>
    rw [authorThen,apply,if_pos rfl]
  | @spared q events e _ spares ih =>
    have split_ : before ++ .took w p :: (events ++ [e]) = (before ++ .took w p :: events) ++ [e] := by simp
    rw [split_,authorThen]
    exact spareAuthor spares ih
  | @carried q r events m _ moved ih =>
    have split_ : before ++ .took w p :: (events ++ [.moved m]) =
        (before ++ .took w p :: events) ++ [.moved m] := by simp
    rw [split_,authorThen,apply,moved,Option.bind_some,ih]

theorem authorExactly : author origin events q = some w ↔ ∃ p, Holds origin w events p q := by
  constructor
  · intro mine
    induction events using List.reverseRecOn generalizing q with
    | nil => cases mine
    | append_singleton events e ih =>
      rw [authorThen] at mine
      rcases applyAuthor mine with rfl | ⟨mine,spares⟩ | ⟨m,r,rfl,found,mine⟩
      · exact ⟨q,events,[],rfl,.here⟩
      · obtain ⟨p,holds⟩ := ih mine
        exact ⟨p,holdsThen holds fun _ kept => .spared kept spares⟩
      · obtain ⟨p,holds⟩ := ih mine
        exact ⟨p,holdsThen holds fun _ kept => .carried kept found⟩
  · rintro ⟨p,before,after,rfl,kept⟩
    exact keptAuthor kept

end

end RDrive.Authors
