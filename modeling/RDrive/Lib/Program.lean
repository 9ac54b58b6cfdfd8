import RDrive.Lib.Outcome

/-! Sequential programs as trees of calls to their surroundings, and a logic for
them with a crash condition: what holds at every point where a program may stop
for good, and what holds where it ends by itself. A property that such a program keeps
lasts over any number of them. -/
namespace RDrive

structure Signature where
  Call : Type
  Ret : Call → Type

inductive Program (S : Signature) (α : Type) where
  | done (result : Outcome α)
  | call (c : S.Call) (next : S.Ret c → Program S α)

namespace Program
variable {S : Signature} {α β γ σ : Type}

def andThen (p : Program S α) (f : α → Program S β) : Program S β :=
  match p with
  | .done (.ok a) => f a
  | .done (.err message) => .done (.err message)
  | .done .panic => .done .panic
  | .call c next => .call c (fun r => (next r).andThen f)

instance : Monad (Program S) where
  pure a := .done (.ok a)
  bind := andThen

instance : MonadLift Outcome (Program S) where
  monadLift := .done

def fail (message : String) : Program S α := .done (.err message)

/- A caller that looks at the error instead of passing it on. -/
def attempt : Program S α → Program S (Except String α)
  | .done (.ok a) => .done (.ok (.ok a))
  | .done (.err message) => .done (.ok (.error message))
  | .done .panic => .done .panic
  | .call c next => .call c (fun r => (next r).attempt)

@[simp] theorem pureDone (a : α) : (pure a : Program S α) = .done (.ok a) := rfl
@[simp] theorem liftDone (x : Outcome α) : (liftM x : Program S α) = .done x := rfl
@[simp] theorem bindDone (a : α) (f : α → Program S β) : (Program.done (.ok a) >>= f) = f a := rfl
@[simp] theorem bindErr (message) (f : α → Program S β) :
    ((Program.done (.err message) : Program S α) >>= f) = .done (.err message) := rfl
@[simp] theorem bindPanic (f : α → Program S β) :
    ((Program.done .panic : Program S α) >>= f) = .done .panic := rfl
@[simp] theorem bindFail (message) (f : α → Program S β) :
    ((fail message : Program S α) >>= f) = .done (.err message) := rfl
@[simp] theorem bindCall (c : S.Call) (next : S.Ret c → Program S α) (f : α → Program S β) :
    (Program.call c next >>= f) = .call c (fun r => next r >>= f) := rfl

theorem bindAssoc (p : Program S α) (f : α → Program S β) (g : β → Program S γ) :
    ((p >>= f) >>= g) = (p >>= fun a => f a >>= g) := by
  induction p with
  | done result =>
    cases result with
    | ok a => rfl
    | err message => rfl
    | panic => rfl
  | call c next ih =>
    simp only [bindCall]
    congr 1
    funext r
    exact ih r

theorem bindPure (p : Program S α) : (p >>= fun a => pure a) = p := by
  induction p with
  | done result => cases result <;> rfl
  | call c next ih =>
    simp only [bindCall]
    congr 1
    funext r
    exact ih r

/- What the surroundings may answer to a call, and what the call leaves behind. -/
abbrev Env (S : Signature) (σ : Type) := σ → (c : S.Call) → S.Ret c → σ → Prop

inductive Reaches (env : Env S σ) : Program S α → σ → Program S α → σ → Prop where
  | here (p : Program S α) (s : σ) : Reaches env p s p s
  | answer {c next r s middle q t} (answered : env s c r middle)
      (later : Reaches env (next r) middle q t) : Reaches env (.call c next) s q t

/- `inv` at every point, where the program may be cancelled, and `post` at its end. -/
def Safe (env : Env S σ) (inv : σ → Prop) (post : Outcome α → σ → Prop) : Program S α → σ → Prop
  | .done result, s => inv s ∧ post result s
  | .call c next, s => inv s ∧ ∀ r middle, env s c r middle → Safe env inv post (next r) middle

def Onward (env : Env S σ) (inv : σ → Prop) (post : Outcome β → σ → Prop)
    (f : α → Program S β) : Outcome α → σ → Prop
  | .ok a, s => Safe env inv post (f a) s
  | .err message, s => post (.err message) s
  | .panic, s => post .panic s

variable {env : Env S σ} {inv : σ → Prop} {post : Outcome α → σ → Prop}

theorem safeStart {p : Program S α} {s : σ} (safe : Safe env inv post p s) : inv s := by
  cases p with
  | done result => exact safe.1
  | call c next => exact safe.1

theorem safeBind {p : Program S α} {f : α → Program S β} {post : Outcome β → σ → Prop} {s : σ}
    (first : Safe env inv (Onward env inv post f) p s) : Safe env inv post (p >>= f) s := by
  induction p generalizing s with
  | done result =>
    cases result with
    | ok a => exact first.2
    | err message => exact ⟨first.1,first.2⟩
    | panic => exact ⟨first.1,first.2⟩
  | call c next ih => exact ⟨first.1,fun r middle answered => ih r (first.2 r middle answered)⟩

theorem safeWeaken {weaker : Outcome α → σ → Prop} {p : Program S α} {s : σ}
    (safe : Safe env inv post p s) (implies : ∀ result t, inv t → post result t → weaker result t) :
    Safe env inv weaker p s := by
  induction p generalizing s with
  | done result => exact ⟨safe.1,implies result s safe.1 safe.2⟩
  | call c next ih => exact ⟨safe.1,fun r middle answered => ih r (safe.2 r middle answered)⟩

theorem safeMono {looser : σ → Prop} {p : Program S α} {s : σ} (safe : Safe env inv post p s)
    (implies : ∀ t, inv t → looser t) : Safe env looser post p s := by
  induction p generalizing s with
  | done result => exact ⟨implies s safe.1,safe.2⟩
  | call c next ih =>
    exact ⟨implies s safe.1,fun r middle answered => ih r (safe.2 r middle answered)⟩

theorem safeNoted {p : Program S α} {s : σ} (safe : Safe env inv post p s) :
    Safe env inv (fun _ t => inv t) p s := by
  induction p generalizing s with
  | done result => exact ⟨safe.1,safe.1⟩
  | call c next ih => exact ⟨safe.1,fun r middle answered => ih r (safe.2 r middle answered)⟩

theorem safeBoth {other : σ → Prop} {last : Outcome α → σ → Prop} {p : Program S α} {s : σ}
    (one : Safe env inv post p s) (two : Safe env other last p s) :
    Safe env (fun t => inv t ∧ other t) (fun result t => post result t ∧ last result t) p s := by
  induction p generalizing s with
  | done result => exact ⟨⟨one.1,two.1⟩,one.2,two.2⟩
  | call c next ih =>
    exact ⟨⟨one.1,two.1⟩,fun r middle answered =>
      ih r (one.2 r middle answered) (two.2 r middle answered)⟩

theorem safeReaches {p q : Program S α} {s t : σ} (reached : Reaches env p s q t)
    (safe : Safe env inv post p s) : Safe env inv post q t := by
  induction reached with
  | here p s => exact safe
  | answer answered later ih => exact ih (safe.2 _ _ answered)

/- A postcondition on the value alone; nothing is said of an error or a panic. -/
def Returns (post : α → σ → Prop) : Outcome α → σ → Prop
  | .ok a, s => post a s
  | _, _ => True

theorem safeThen {first : α → σ → Prop} {last : β → σ → Prop} {p : Program S α}
    {f : α → Program S β} {s : σ} (before : Safe env inv (Returns first) p s)
    (after : ∀ a t, inv t → first a t → Safe env inv (Returns last) (f a) t) :
    Safe env inv (Returns last) (p >>= f) s := by
  refine safeBind (safeWeaken before ?_)
  intro result t held returned
  cases result with
  | ok a => exact after a t held returned
  | err message => trivial
  | panic => trivial

/- A postcondition that a panic never meets. -/
def Unbroken (post : α → σ → Prop) : Outcome α → σ → Prop
  | .ok a, s => post a s
  | .err _, _ => True
  | .panic, _ => False

theorem unbrokenThen {first : α → σ → Prop} {last : β → σ → Prop} {p : Program S α}
    {f : α → Program S β} {s : σ} (before : Safe env inv (Unbroken first) p s)
    (after : ∀ a t, inv t → first a t → Safe env inv (Unbroken last) (f a) t) :
    Safe env inv (Unbroken last) (p >>= f) s := by
  refine safeBind (safeWeaken before ?_)
  intro result t held ended
  cases result with
  | ok a => exact after a t held ended
  | err message => trivial
  | panic => exact ended.elim

theorem attemptSafe {p : Program S α} {s : σ} (safe : Safe env inv post p s) :
    Safe env inv (Returns fun _ _ => True) p.attempt s := by
  induction p generalizing s with
  | done result => cases result <;> exact ⟨safe.1,trivial⟩
  | call c next ih => exact ⟨safe.1,fun r middle answered => ih r (safe.2 r middle answered)⟩

theorem attemptReturns {first : α → σ → Prop} {p : Program S α} {s : σ}
    (safe : Safe env inv (Returns first) p s) :
    Safe env inv (Returns fun result t => ∀ a, result = .ok a → first a t) p.attempt s := by
  induction p generalizing s with
  | done result =>
    cases result with
    | ok a =>
      refine ⟨safe.1,?_⟩
      rintro _ ⟨⟩
      exact safe.2
    | err message => exact ⟨safe.1,nofun⟩
    | panic => exact ⟨safe.1,trivial⟩
  | call c next ih => exact ⟨safe.1,fun r middle answered => ih r (safe.2 r middle answered)⟩

theorem attemptEnds {p : Program S α} {s : σ} (safe : Safe env inv post p s) :
    Safe env inv (Returns fun result t => (∀ a, result = .ok a → post (.ok a) t) ∧
      ∀ message, result = .error message → post (.err message) t) p.attempt s := by
  induction p generalizing s with
  | done result =>
    cases result with
    | ok a =>
      refine ⟨safe.1,?_,?_⟩
      · rintro _ ⟨⟩
        exact safe.2
      · rintro _ ⟨⟩
    | err message =>
      refine ⟨safe.1,?_,?_⟩
      · rintro _ ⟨⟩
      · rintro _ ⟨⟩
        exact safe.2
    | panic => exact ⟨safe.1,trivial⟩
  | call c next ih => exact ⟨safe.1,fun r t answered => ih r (safe.2 r t answered)⟩

theorem safeLift (first : α → σ → Prop) {x : Outcome α} {s : σ} (held : inv s)
    (found : ∀ a, x = .ok a → first a s) : Safe env inv (Returns first) (liftM x : Program S α) s := by
  cases x with
  | ok a => exact ⟨held,found a rfl⟩
  | err message => exact ⟨held,trivial⟩
  | panic => exact ⟨held,trivial⟩

theorem reachesTrans {p q last : Program S α} {s t u : σ} (first : Reaches env p s q t)
    (second : Reaches env q t last u) : Reaches env p s last u := by
  induction first with
  | here p s => exact second
  | answer answered later ih => exact .answer answered (ih second)

theorem reachesBind {p q : Program S α} {f : α → Program S β} {s t : σ} (first : Reaches env p s q t) :
    Reaches env (p >>= f) s (q >>= f) t := by
  induction first with
  | here p s => exact .here _ _
  | answer answered later ih => exact .answer answered ih

theorem reachesThen {p : Program S α} {f : α → Program S β} {a : α} {last : Program S β} {s t u : σ}
    (first : Reaches env p s (.done (.ok a)) t) (second : Reaches env (f a) t last u) :
    Reaches env (p >>= f) s last u := reachesTrans (reachesBind first) second

theorem reachesParts {p : Program S α} {f : α → Program S β} {b : β} {s t : σ}
    (ran : Reaches env (p >>= f) s (.done (.ok b)) t) :
    ∃ a u, Reaches env p s (.done (.ok a)) u ∧ Reaches env (f a) u (.done (.ok b)) t := by
  induction p generalizing s with
  | done result =>
    cases result with
    | ok a => exact ⟨a,s,.here _ _,ran⟩
    | err message => cases ran
    | panic => cases ran
  | call c next ih =>
    cases ran with
    | answer answered later =>
      obtain ⟨a,u,first,second⟩ := ih _ later
      exact ⟨a,u,.answer answered first,second⟩

theorem reachesSplit {p : Program S α} {f : α → Program S β} {q : Program S β} {s t : σ}
    (ran : Reaches env (p >>= f) s q t) :
    (∃ p', Reaches env p s p' t ∧ q = p' >>= f) ∨
      ∃ a u, Reaches env p s (.done (.ok a)) u ∧ Reaches env (f a) u q t := by
  induction p generalizing s with
  | done result =>
    cases result with
    | ok a => exact .inr ⟨a,s,.here _ _,ran⟩
    | err message =>
      cases ran
      exact .inl ⟨_,.here _ _,rfl⟩
    | panic =>
      cases ran
      exact .inl ⟨_,.here _ _,rfl⟩
  | call c next ih =>
    cases ran with
    | here => exact .inl ⟨_,.here _ _,rfl⟩
    | answer answered later =>
      rcases ih _ later with ⟨p',first,rfl⟩ | ⟨a,u,first,second⟩
      · exact .inl ⟨p',.answer answered first,rfl⟩
      · exact .inr ⟨a,u,.answer answered first,second⟩

theorem reachesAttempt {p : Program S α} {q : Program S (Except String α)} {s t : σ}
    (ran : Reaches env p.attempt s q t) : ∃ p', Reaches env p s p' t ∧ q = p'.attempt := by
  induction p generalizing s with
  | done result =>
    cases result <;> cases ran <;> exact ⟨_,.here _ _,rfl⟩
  | call c next ih =>
    cases ran with
    | here => exact ⟨_,.here _ _,rfl⟩
    | answer answered later =>
      obtain ⟨p',first,rfl⟩ := ih _ later
      exact ⟨p',.answer answered first,rfl⟩

theorem attemptReached {p : Program S α} {a : α} {s t : σ} (ran : Reaches env p s (.done (.ok a)) t) :
    Reaches env p.attempt s (.done (.ok (.ok a))) t := by
  generalize ended : (Program.done (.ok a) : Program S α) = q at ran
  induction ran with
  | here p s =>
    subst ended
    exact .here _ _
  | answer answered later ih => exact .answer answered (ih ended)

theorem attemptOk {p : Program S α} {a : α} (ended : p.attempt = .done (.ok (.ok a))) :
    p = .done (.ok a) := by
  cases p with
  | done result => cases result <;> simp_all [attempt]
  | call c next => cases ended

def Determined (env : Env S σ) : Prop :=
  ∀ s c r t other u, env s c r t → env s c other u → r = other ∧ t = u

theorem determinedEnd (determined : Determined env) {p : Program S α} {s t u : σ}
    {one other : Outcome α} (first : Reaches env p s (.done one) t)
    (second : Reaches env p s (.done other) u) : one = other ∧ t = u := by
  generalize ended : (Program.done one : Program S α) = q at first
  induction first with
  | here p s =>
    subst ended
    cases second
    exact ⟨rfl,rfl⟩
  | answer answered later ih =>
    cases second with
    | answer answeredToo laterToo =>
      obtain ⟨rfl,rfl⟩ := determined _ _ _ _ _ _ answered answeredToo
      exact ih laterToo ended

/- Every call a program can ever make is among these. -/
def Confined (allowed : S.Call → Prop) : Program S α → Prop
  | .done _ => True
  | .call c next => allowed c ∧ ∀ r, Confined allowed (next r)

variable {allowed wider : S.Call → Prop}

theorem confinedAny (p : Program S α) : Confined (fun _ => True) p := by
  induction p with
  | done result => trivial
  | call c next ih => exact ⟨trivial,ih⟩

theorem confinedBind {p : Program S α} {f : α → Program S β} (first : Confined allowed p)
    (later : ∀ a, Confined allowed (f a)) : Confined allowed (p >>= f) := by
  induction p with
  | done result =>
    cases result with
    | ok a => exact later a
    | err message => trivial
    | panic => trivial
  | call c next ih => exact ⟨first.1,fun r => ih r (first.2 r)⟩

theorem attemptConfined {p : Program S α} (confined : Confined allowed p) :
    Confined allowed p.attempt := by
  induction p with
  | done result => cases result <;> trivial
  | call c next ih => exact ⟨confined.1,fun r => ih r (confined.2 r)⟩

theorem confinedWiden {p : Program S α} (confined : Confined allowed p)
    (more : ∀ c, allowed c → wider c) : Confined wider p := by
  induction p with
  | done result => trivial
  | call c next ih => exact ⟨more c confined.1,fun r => ih r (confined.2 r)⟩

theorem confinedSafe {p : Program S α} {s : σ} (held : inv s) (confined : Confined allowed p)
    (keeps : ∀ s c r after, inv s → allowed c → env s c r after → inv after) :
    Safe env inv (fun _ _ => True) p s := by
  induction p generalizing s with
  | done result => exact ⟨held,trivial⟩
  | call c next ih =>
    exact ⟨held,fun r after answered =>
      ih r (keeps s c r after held confined.1 answered) (confined.2 r)⟩

theorem idleSafe {p : Program S α} {s : σ} (held : inv s)
    (idle : Confined (fun c => ∀ r after, env s c r after → after = s) p) :
    Safe env inv (fun _ t => t = s) p s := by
  induction p with
  | done result => exact ⟨held,rfl⟩
  | call c next ih =>
    refine ⟨held,fun r after answered => ?_⟩
    cases idle.1 r after answered
    exact ih r (idle.2 r)

theorem stillSafe {p : Program S α} {s : σ} (held : inv s)
    (still : Confined (fun c => ∀ t r after, env t c r after → after = t) p) :
    Safe env inv (fun _ t => t = s) p s :=
  idleSafe held (confinedWiden still fun _ each => each s)

/- Every call is one that is permitted after the calls and answers before it. -/
def Ruled (env : Env S σ) (rule : σ → S.Call → Prop) (post : Outcome α → σ → Prop) :
    Program S α → σ → Prop
  | .done result, s => post result s
  | .call c next, s => rule s c ∧ ∀ r middle, env s c r middle → Ruled env rule post (next r) middle

section
variable {rule : σ → S.Call → Prop} {p : Program S α} {s : σ}

theorem ruledBind {f : α → Program S β} {post : Outcome β → σ → Prop}
    (first : Ruled env rule (fun result t => match result with
      | .ok a => Ruled env rule post (f a) t
      | .err message => post (.err message) t
      | .panic => post .panic t) p s) : Ruled env rule post (p >>= f) s := by
  induction p generalizing s with
  | done result => cases result <;> exact first
  | call c next ih => exact ⟨first.1,fun r middle answered => ih r (first.2 r middle answered)⟩

theorem ruledWeaken {weaker : Outcome α → σ → Prop} (ruled : Ruled env rule post p s)
    (implies : ∀ result t, post result t → weaker result t) : Ruled env rule weaker p s := by
  induction p generalizing s with
  | done result => exact implies result s ruled
  | call c next ih => exact ⟨ruled.1,fun r middle answered => ih r (ruled.2 r middle answered)⟩

theorem idleRuled
    (idle : Confined (fun c => rule s c ∧ ∀ r after, env s c r after → after = s) p) :
    Ruled env rule (fun _ t => t = s) p s := by
  induction p with
  | done result => rfl
  | call c next ih =>
    refine ⟨idle.1.1,fun r after answered => ?_⟩
    cases idle.1.2 r after answered
    exact ih r (idle.2 r)

theorem idleThen {f : α → Program S β} {ends : σ → Prop} (held : ends s)
    (idle : Confined (fun c => rule s c ∧ ∀ r after, env s c r after → after = s) p)
    (next : ∀ a, Ruled env rule (fun _ => ends) (f a) s) :
    Ruled env rule (fun _ => ends) (p >>= f) s := by
  refine ruledBind (ruledWeaken (idleRuled idle) ?_)
  rintro (a | message | _) t rfl
  · exact next a
  · exact held
  · exact held

end

/- Surroundings that answer anything, and only take notes. -/
def noting {G : Type} (note : G → (c : S.Call) → S.Ret c → G) : Env S G :=
  fun g c r after => after = note g c r

theorem unnotedKeeps {G : Type} {note : G → (c : S.Call) → S.Ret c → G} {inv : G → Prop} {g : G}
    {p : Program S α} (held : inv g) (confined : Confined (fun c => ∀ g r, note g c r = g) p) :
    Safe (noting note) inv (Returns fun _ after => after = g) p g := by
  have idle : Confined (fun c => ∀ r after, noting note g c r after → after = g) p :=
    confinedWiden confined fun c unnoted r after noted => noted.trans (unnoted g r)
  refine safeWeaken (idleSafe held idle) ?_
  intro result after _ same
  cases result with
  | ok a => exact same
  | err message => trivial
  | panic => trivial

def within (bound : σ → Prop) (env : Env S σ) : Env S σ := fun s c r t => env s c r t ∧ bound t

theorem withinSafe {bound : σ → Prop} {p : Program S α} {s : σ} (safe : Safe env inv post p s)
    (held : bound s) :
    Safe (within bound env) (fun t => inv t ∧ bound t) (fun result t => post result t ∧ bound t) p s := by
  induction p generalizing s with
  | done result => exact ⟨⟨safe.1,held⟩,safe.2,held⟩
  | call c next ih => exact ⟨⟨safe.1,held⟩,fun r t answered => ih r (safe.2 r t answered.1) answered.2⟩

theorem reachesWithin {bound : σ → Prop} (back : ∀ s c r t, env s c r t → bound t → bound s)
    {p q : Program S α} {s t : σ} (ran : Reaches env p s q t) (last : bound t) :
    Reaches (within bound env) p s q t ∧ bound s := by
  induction ran with
  | here p s => exact ⟨.here _ _,last⟩
  | answer answered later ih =>
    obtain ⟨later,held⟩ := ih last
    exact ⟨.answer ⟨answered,held⟩ later,back _ _ _ _ answered held⟩

theorem safeThrough {τ : Type} {whole : Env S τ} {view : τ → σ} {part : Env S σ} {inv : σ → Prop}
    {post : Outcome α → σ → Prop} {p : Program S α} {u : τ}
    (follows : ∀ u c r v, inv (view u) → whole u c r v → part (view u) c r (view v))
    (safe : Safe part inv post p (view u)) :
    Safe whole (fun u => inv (view u)) (fun result u => post result (view u)) p u := by
  induction p generalizing u with
  | done result => exact safe
  | call c next ih =>
    exact ⟨safe.1,fun r v answered => ih r (safe.2 r (view v) (follows u c r v safe.1 answered))⟩

def joint {τ : Type} (left : Env S σ) (right : Env S τ) : Env S (σ × τ) :=
  fun s c r t => left s.1 c r t.1 ∧ right s.2 c r t.2

section
variable {τ : Type} {left : Env S σ} {right : Env S τ} {inv : σ → Prop} {post : Outcome α → σ → Prop}
  {also : τ → Prop} {last : Outcome α → τ → Prop} {p : Program S α} {s : σ} {u : τ}

theorem jointLeft (safe : Safe left inv post p s) :
    Safe (joint left right) (fun t => inv t.1) (fun result t => post result t.1) p (s,u) := by
  induction p generalizing s u with
  | done result => exact safe
  | call c next ih =>
    exact ⟨safe.1,fun r t answered => ih r (safe.2 r t.1 answered.1)⟩

theorem jointRight (safe : Safe right also last p u) :
    Safe (joint left right) (fun t => also t.2) (fun result t => last result t.2) p (s,u) := by
  induction p generalizing s u with
  | done result => exact safe
  | call c next ih =>
    exact ⟨safe.1,fun r t answered => ih r (safe.2 r t.2 answered.2)⟩

theorem jointReached {q : Program S α} {s t : σ × τ} (ran : Reaches (joint left right) p s q t) :
    Reaches right p s.2 q t.2 := by
  induction ran with
  | here p s => exact .here _ _
  | answer answered later ih => exact .answer answered.2 ih

theorem lastingSafe {p : Program S α} {s : σ} {inv : σ → Prop}
    (keeps : ∀ s c r t, inv s → left s c r t → inv t) (held : inv s) :
    Safe left inv (Returns fun _ _ => True) p s := by
  induction p generalizing s with
  | done result => exact ⟨held,by cases result <;> trivial⟩
  | call c next ih => exact ⟨held,fun r t answered => ih r (keeps s c r t held answered)⟩

end

end Program

open Program

def returned {S : Signature} {α : Type} : Program S α → List α
  | .done (.ok a) => [a]
  | _ => []

/- Programs run one after the other over one state, each cut off anywhere. -/
inductive Restarts {S : Signature} {α σ : Type} (env : Env S σ) (acts : Program S α → Prop)
    (between : σ → σ → Prop) (s : σ) : List α → σ → Prop where
  | none : Restarts env acts between s [] s
  | act {t u results p q} (earlier : Restarts env acts between s results t) (admitted : acts p)
      (reached : Reaches env p t q u) : Restarts env acts between s (results ++ returned q) u
  | pause {t u results} (earlier : Restarts env acts between s results t) (step : between t u) :
      Restarts env acts between s results u

namespace Restarts
variable {S : Signature} {α σ : Type} {env : Env S σ} {acts : Program S α → Prop}
  {between : σ → σ → Prop} {inv : σ → Prop} {fact : α → σ → Prop} {s t u : σ} {results : List α}

def Lasting (inv : σ → Prop) (fact : α → σ → Prop) (s t : σ) : Prop :=
  inv t ∧ ∀ a, fact a s → fact a t

theorem keeps (inv : σ → Prop) (fact : α → σ → Prop) (each : ∀ p s, acts p → inv s →
      Safe env (Lasting inv fact s) (Returns fact) p s)
    (still : ∀ s t, between s t → inv s → Lasting inv fact s t) (start : inv s)
    (ran : Restarts env acts between s results t) : inv t ∧ ∀ a ∈ results, fact a t := by
  induction ran with
  | none => exact ⟨start,nofun⟩
  | @act t u results p q earlier admitted reached ih =>
    have safe := safeReaches reached (each p t admitted ih.1)
    have lasting := safeStart safe
    refine ⟨lasting.1,fun a member => ?_⟩
    rcases List.mem_append.mp member with old | new
    · exact lasting.2 a (ih.2 a old)
    · cases q with
      | call c next => cases new
      | done result =>
        cases result with
        | ok b =>
          cases List.mem_singleton.mp new
          exact safe.2
        | err message => cases new
        | panic => cases new
  | pause earlier step ih =>
    have lasting := still _ _ step ih.1
    exact ⟨lasting.1,fun a member => lasting.2 a (ih.2 a member)⟩

end Restarts
end RDrive
