import Mathlib.Logic.Function.Basic

/-! Runs of an executable transition function. A step that is not enabled gives
`none`, so a run has a final state only when each of its steps was enabled in
the state before it. Nothing here names a particular system. -/
namespace RDrive.Runs

variable {σ α : Type}

def run (step : σ → α → Option σ) : σ → List α → Option σ
  | s, [] => some s
  | s, a :: rest => (step s a).bind (fun next => run step next rest)

/- The guard is looked at in the state before each step, as far as the run gets. -/
def Always (step : σ → α → Option σ) (guard : σ → α → Prop) : σ → List α → Prop
  | _, [] => True
  | s, a :: rest => guard s a ∧ ∀ next, step s a = some next → Always step guard next rest

theorem runCons {step : σ → α → Option σ} {s final a rest}
    (ran : run step s (a :: rest) = some final) :
    ∃ next, step s a = some next ∧ run step next rest = some final :=
  Option.bind_eq_some_iff.mp ran

theorem runAppend {step : σ → α → Option σ} {s middle : σ} {before after : List α}
    (ran : run step s before = some middle) :
    run step s (before ++ after) = run step middle after := by
  induction before generalizing s with
  | nil => cases Option.some.inj ran; rfl
  | cons a rest ih =>
    obtain ⟨next,first,later⟩ := runCons ran
    simp only [List.cons_append,run,first,Option.bind_some]
    exact ih later

theorem runKeepsWhile {step : σ → α → Option σ} {guard : σ → α → Prop} {inv : σ → Prop}
    (keep : ∀ {s a next}, step s a = some next → guard s a → inv s → inv next)
    {s final : σ} {acts : List α} (ran : run step s acts = some final)
    (guarded : Always step guard s acts) (start : inv s) : inv final := by
  induction acts generalizing s with
  | nil => cases Option.some.inj ran; exact start
  | cons a rest ih =>
    obtain ⟨next,first,later⟩ := runCons ran
    exact ih later (guarded.2 next first) (keep first guarded.1 start)

theorem runKeeps {step : σ → α → Option σ} {inv : σ → Prop}
    (keep : ∀ {s a next}, step s a = some next → inv s → inv next)
    {s final : σ} {acts : List α} (ran : run step s acts = some final) (start : inv s) :
    inv final := by
  induction acts generalizing s with
  | nil => cases Option.some.inj ran; exact start
  | cons a rest ih =>
    obtain ⟨next,first,later⟩ := runCons ran
    exact ih later (keep first start)

/- The property in every state of a run, the last one included. -/
def Throughout (step : σ → α → Option σ) (inv : σ → Prop) : σ → List α → Prop
  | s, [] => inv s
  | s, a :: rest => inv s ∧ ∀ next, step s a = some next → Throughout step inv next rest

theorem throughoutWhile {step : σ → α → Option σ} {guard : σ → α → Prop} {inv prop : σ → Prop}
    (keep : ∀ {s a next}, step s a = some next → guard s a → inv s → inv next)
    (gives : ∀ {s}, inv s → prop s) {s : σ} {acts : List α} (guarded : Always step guard s acts)
    (start : inv s) : Throughout step prop s acts := by
  induction acts generalizing s with
  | nil => exact gives start
  | cons a rest ih =>
    refine ⟨gives start,?_⟩
    intro next first
    exact ih (guarded.2 next first) (keep first guarded.1 start)

theorem throughoutExactly {step : σ → α → Option σ} {guard : σ → α → Prop} {inv : σ → Prop}
    (exact_ : ∀ {s a next}, step s a = some next → inv s → (inv next ↔ guard s a))
    {s final : σ} {acts : List α} (ran : run step s acts = some final) (start : inv s) :
    Throughout step inv s acts ↔ Always step guard s acts := by
  induction acts generalizing s with
  | nil => exact ⟨fun _ => trivial,fun _ => start⟩
  | cons a rest ih =>
    obtain ⟨next,first,later⟩ := runCons ran
    have only : ∀ {other}, step s a = some other → other = next := fun taken =>
      Option.some.inj (taken.symm.trans first)
    constructor
    · intro kept
      have held : inv next := by
        have after := kept.2 next first
        cases rest with
        | nil => exact after
        | cons b others => exact after.1
      refine ⟨(exact_ first start).mp held,?_⟩
      intro other taken
      cases only taken
      exact (ih later held).mp (kept.2 next first)
    · intro guarded
      have held := (exact_ first start).mpr guarded.1
      refine ⟨start,?_⟩
      intro other taken
      cases only taken
      exact (ih later held).mpr (guarded.2 next first)

def Stuck (step : σ → α → Option σ) (s : σ) : Prop := ∀ a, step s a = none

def Commutes (step : σ → α → Option σ) : Prop :=
  ∀ {s left right : σ} {a b : α}, a ≠ b → step s a = some left → step s b = some right →
    ∃ joined, step left b = some joined ∧ step right a = some joined

theorem stepAhead {step : σ → α → Option σ} (commutes : Commutes step) {s next final : σ} {a : α}
    {acts : List α} (first : step s a = some next) (ran : run step s acts = some final)
    (stuck : Stuck step final) :
    ∃ rest, run step next rest = some final ∧ rest.length + 1 = acts.length := by
  induction acts generalizing s next with
  | nil =>
    cases Option.some.inj ran
    exact absurd first (by simp [stuck a])
  | cons b rest ih =>
    obtain ⟨other,second,later⟩ := runCons ran
    rcases Classical.em (a = b) with rfl | different
    · cases Option.some.inj (first.symm.trans second)
      exact ⟨rest,later,rfl⟩
    · obtain ⟨joined,viaFirst,viaOther⟩ := commutes different first second
      obtain ⟨remaining,reached,size⟩ := ih viaOther later
      exact ⟨b :: remaining,by simp [run,viaFirst,reached],by simp [size]⟩

theorem endReachable {step : σ → α → Option σ} (commutes : Commutes step) {s middle final : σ}
    {acts other : List α} (ran : run step s acts = some middle)
    (ended : run step s other = some final) (stuck : Stuck step final) :
    ∃ rest, run step middle rest = some final ∧ acts.length + rest.length = other.length := by
  induction acts generalizing s other with
  | nil =>
    cases Option.some.inj ran
    exact ⟨other,ended,by simp⟩
  | cons a rest ih =>
    obtain ⟨next,taken,later⟩ := runCons ran
    obtain ⟨remaining,reached,size⟩ := stepAhead commutes taken ended stuck
    obtain ⟨last,completed,total⟩ := ih later reached
    exact ⟨last,completed,by simp only [List.length_cons]; omega⟩

theorem endUnique {step : σ → α → Option σ} (commutes : Commutes step) {s first second : σ}
    {acts other : List α} (ran : run step s acts = some first) (stuck : Stuck step first)
    (ranOther : run step s other = some second) (stuckOther : Stuck step second) :
    first = second := by
  obtain ⟨rest,reached,-⟩ := endReachable commutes ran ranOther stuckOther
  cases rest with
  | nil => exact Option.some.inj reached
  | cons b later =>
    obtain ⟨next,taken,-⟩ := runCons reached
    exact absurd taken (by simp [stuck b])

def Leads (step : σ → α → Option σ) (s t : σ) : Prop := ∃ acts, run step s acts = some t

theorem leadsRefl {step : σ → α → Option σ} (s : σ) : Leads step s s := ⟨[],rfl⟩

theorem leadsStep {step : σ → α → Option σ} {s t : σ} (a : α) (taken : step s a = some t) :
    Leads step s t := ⟨[a],by simp [run,taken]⟩

theorem leadsTrans {step : σ → α → Option σ} {s t u : σ} (first : Leads step s t)
    (second : Leads step t u) : Leads step s u := by
  obtain ⟨before,ranBefore⟩ := first
  obtain ⟨after,ranAfter⟩ := second
  exact ⟨before ++ after,(runAppend ranBefore).trans ranAfter⟩

def Bound (step : σ → α → Option σ) (s t : σ) : Prop :=
  Leads step s t ∧ ∀ last, Leads step s last → Stuck step last → Leads step t last

theorem boundOf {step : σ → α → Option σ} (commutes : Commutes step) {s t : σ}
    (leads : Leads step s t) : Bound step s t := by
  refine ⟨leads,?_⟩
  intro last completed stuck
  obtain ⟨acts,ran⟩ := leads
  obtain ⟨all,ended⟩ := completed
  obtain ⟨rest,onward,-⟩ := endReachable commutes ran ended stuck
  exact ⟨rest,onward⟩

end RDrive.Runs
