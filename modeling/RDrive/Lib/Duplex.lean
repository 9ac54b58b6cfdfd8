import RDrive.Lib.Program
import RDrive.Lib.Runs

/-! Two programs joined by a byte stream in each direction. A read waits for all
its bytes, or for the other side to be finished. The two sides take their steps
in any order; since they commute, all complete runs end the same. -/
namespace RDrive

inductive Fault where
  | eof
  | timedOut
  | io (message : String)
  deriving DecidableEq, Repr

inductive PortCall (L : Signature) where
  | recv (n : Nat)
  | send (b : Bytes)
  | here (c : L.Call)

abbrev Port (L : Signature) : Signature where
  Call := PortCall L
  Ret
    | .recv n => Except Fault {b : Bytes // b.length = n}
    | .send _ => Except Fault Unit
    | .here c => L.Ret c

namespace Duplex
open Runs
variable {L : Signature} {σ τ α β : Type}

abbrev Handler (L : Signature) (σ : Type) := σ → (c : L.Call) → L.Ret c × σ

structure End (L : Signature) (σ α : Type) where
  program : Program (Port L) α
  host : σ

def End.finished (e : End L σ α) : Bool :=
  match e.program with
  | .done _ => true
  | .call _ _ => false

structure Moved (L : Signature) (σ α : Type) where
  after : End L σ α
  inbox : Bytes
  written : Bytes

def End.step (handle : Handler L σ) (e : End L σ α) (inbox : Bytes) (closed : Bool) :
    Option (Moved L σ α) :=
  match e.program with
  | .done _ => none
  | .call (.send b) next => some ⟨⟨next (.ok ()),e.host⟩,inbox,b⟩
  | .call (.recv n) next =>
    if h : n ≤ inbox.length then
      some ⟨⟨next (.ok ⟨inbox.take n,by simp [h]⟩),e.host⟩,inbox.drop n,[]⟩
    else if closed then some ⟨⟨next (.error .eof),e.host⟩,[],[]⟩
    else none
  | .call (.here c) next => some ⟨⟨next (handle e.host c).1,(handle e.host c).2⟩,inbox,[]⟩

structure Link (L : Signature) (σ τ α β : Type) where
  left : End L σ α
  right : End L τ β
  toLeft : Bytes
  toRight : Bytes

inductive Side where
  | left
  | right
  deriving DecidableEq, Repr

variable (handleLeft : Handler L σ) (handleRight : Handler L τ)

def step (l : Link L σ τ α β) : Side → Option (Link L σ τ α β)
  | .left => (l.left.step handleLeft l.toLeft l.right.finished).map fun m =>
      ⟨m.after,l.right,m.inbox,l.toRight ++ m.written⟩
  | .right => (l.right.step handleRight l.toRight l.left.finished).map fun m =>
      ⟨l.left,m.after,l.toLeft ++ m.written,m.inbox⟩

theorem endUnfinished {handle : Handler L σ} {e : End L σ α} {inbox closed m}
    (moved : e.step handle inbox closed = some m) : e.finished = false := by
  unfold End.step at moved
  unfold End.finished
  split at moved <;> simp_all

theorem endStepLater {handle : Handler L σ} {e : End L σ α} {inbox more : Bytes} {closed : Bool}
    {m : Moved L σ α} (moved : e.step handle inbox false = some m) :
    e.step handle (inbox ++ more) closed = some ⟨m.after,m.inbox ++ more,m.written⟩ := by
  unfold End.step at moved ⊢
  split at moved
  · contradiction
  · cases Option.some.inj moved; rfl
  · rename_i n next called
    split at moved
    · rename_i enough
      cases Option.some.inj moved
      have room : n ≤ (inbox ++ more).length := by simp; omega
      rw [dif_pos room]
      simp only [List.take_append_of_le_length enough,List.drop_append_of_le_length enough]
    · simp at moved
  · cases Option.some.inj moved; rfl

theorem commutes : Commutes (step (α := α) (β := β) handleLeft handleRight) := by
  intro s first second a b different stepped other
  have both : ∀ {x y}, step handleLeft handleRight s .left = some x →
      step handleLeft handleRight s .right = some y →
      ∃ joined, step handleLeft handleRight x .right = some joined ∧
        step handleLeft handleRight y .left = some joined := by
    intro x y movedLeft movedRight
    simp only [step,Option.map_eq_some_iff] at movedLeft movedRight
    obtain ⟨l,leftMoved,rfl⟩ := movedLeft
    obtain ⟨r,rightMoved,rfl⟩ := movedRight
    rw [endUnfinished rightMoved] at leftMoved
    rw [endUnfinished leftMoved] at rightMoved
    refine ⟨⟨l.after,r.after,l.inbox ++ r.written,r.inbox ++ l.written⟩,?_,?_⟩
    · simp [step,endStepLater rightMoved]
    · simp [step,endStepLater leftMoved]
  cases a with
  | left => cases b with
    | left => contradiction
    | right => exact both stepped other
  | right => cases b with
    | left =>
      obtain ⟨joined,one,two⟩ := both other stepped
      exact ⟨joined,two,one⟩
    | right => contradiction

theorem finishedStuck {l : Link L σ τ α β} (left : l.left.finished = true)
    (right : l.right.finished = true) : Stuck (step handleLeft handleRight) l := by
  intro side
  cases side with
  | left =>
    cases moved : l.left.step handleLeft l.toLeft l.right.finished with
    | none => simp [step,moved]
    | some m => exact absurd (endUnfinished moved) (by simp [left])
  | right =>
    cases moved : l.right.step handleRight l.toRight l.left.finished with
    | none => simp [step,moved]
    | some m => exact absurd (endUnfinished moved) (by simp [right])

abbrev Reach (handleLeft : Handler L σ) (handleRight : Handler L τ) (l m : Link L σ τ α β) : Prop :=
  Leads (step handleLeft handleRight) l m

inductive Advances (handle : Handler L σ) :
    Program (Port L) α → σ → Bytes → Bytes → Program (Port L) α → σ → Prop where
  | rest (p : Program (Port L) α) (s : σ) : Advances handle p s [] [] p s
  | here {c next s input output q t}
      (later : Advances handle (next (handle s c).1) (handle s c).2 input output q t) :
      Advances handle (.call (.here c) next) s input output q t
  | send {b next s input output q t} (later : Advances handle (next (.ok ())) s input output q t) :
      Advances handle (.call (.send b) next) s input (b ++ output) q t
  | recv {n next s input output q t} {b : Bytes} (size : b.length = n)
      (later : Advances handle (next (.ok ⟨b,size⟩)) s input output q t) :
      Advances handle (.call (.recv n) next) s (b ++ input) output q t

theorem advancesSimulated {handle : Handler L σ} {env : Program.Env (Port L) τ}
    (follows : σ → Bytes → Bytes → τ → Prop)
    (onHere : ∀ s input output t c, follows s input output t →
      ∃ u, env t (.here c) (handle s c).1 u ∧ follows (handle s c).2 input output u)
    (onSend : ∀ s input output t b, follows s input (b ++ output) t →
      ∃ u, env t (.send b) (.ok ()) u ∧ follows s input output u)
    (onRecv : ∀ s input output t n (b : {b : Bytes // b.length = n}),
      follows s (b.val ++ input) output t →
      ∃ u, env t (.recv n) (.ok b) u ∧ follows s input output u)
    {p q : Program (Port L) α} {s last : σ} {input output : Bytes}
    (advanced : Advances handle p s input output q last) {t : τ} (start : follows s input output t) :
    ∃ u, Program.Reaches env p t q u ∧ follows last [] [] u := by
  induction advanced generalizing t with
  | rest p s => exact ⟨t,.here _ _,start⟩
  | @here c next s input output q last later ih =>
    obtain ⟨middle,answered,following⟩ := onHere _ _ _ _ c start
    obtain ⟨u,reached,followed⟩ := ih following
    exact ⟨u,.answer answered reached,followed⟩
  | @send b next s input output q last later ih =>
    obtain ⟨middle,answered,following⟩ := onSend _ _ _ _ b start
    obtain ⟨u,reached,followed⟩ := ih following
    exact ⟨u,.answer answered reached,followed⟩
  | @recv n next s input output q last b size later ih =>
    obtain ⟨middle,answered,following⟩ := onRecv _ _ _ _ n ⟨b,size⟩ start
    obtain ⟨u,reached,followed⟩ := ih following
    exact ⟨u,.answer answered reached,followed⟩

section Advancing
variable {handle : Handler L σ} {p q last : Program (Port L) α} {s t u : σ}
  {input output more others : Bytes}

theorem advancesTrans (first : Advances handle p s input output q t)
    (second : Advances handle q t more others last u) :
    Advances handle p s (input ++ more) (output ++ others) last u := by
  induction first with
  | rest p s => exact second
  | here later ih => exact .here (ih second)
  | send later ih =>
    rw [List.append_assoc]
    exact .send (ih second)
  | recv size later ih =>
    rw [List.append_assoc]
    exact .recv size (ih second)

theorem advancesBind {f : α → Program (Port L) β} (first : Advances handle p s input output q t) :
    Advances handle (p >>= f) s input output (q >>= f) t := by
  induction first with
  | rest p s => exact .rest _ s
  | here later ih => exact .here ih
  | send later ih => exact .send ih
  | recv size later ih => exact .recv size ih

theorem advancesThen {f : α → Program (Port L) β} {a : α} {last : Program (Port L) β}
    (first : Advances handle p s input output (.done (.ok a)) t)
    (second : Advances handle (f a) t more others last u) :
    Advances handle (p >>= f) s (input ++ more) (output ++ others) last u :=
  advancesTrans (advancesBind first) second

theorem advancesOnward {result : Outcome α} (first : Advances handle p s input output q t)
    (whole : Advances handle p s (input ++ more) others (.done result) u) :
    ∃ rest, others = output ++ rest ∧ Advances handle q t more rest (.done result) u := by
  generalize joined : input ++ more = all at whole
  induction first generalizing others all with
  | rest p s =>
    cases joined
    exact ⟨others,rfl,whole⟩
  | here later ih =>
    cases whole with
    | here onward => exact ih _ joined onward
  | send later ih =>
    cases whole with
    | send onward =>
      obtain ⟨rest,rfl,reached⟩ := ih _ joined onward
      exact ⟨rest,(List.append_assoc _ _ _).symm,reached⟩
  | recv size later ih =>
    cases whole with
    | recv same onward =>
      rw [List.append_assoc] at joined
      obtain ⟨rfl,tail⟩ := List.append_inj joined (size.trans same.symm)
      exact ih _ tail onward

theorem advancesQuiet {f : α → Program (Port L) β} {a : α} {last : Program (Port L) β}
    (first : Advances handle p s [] [] (.done (.ok a)) t)
    (second : Advances handle (f a) t more others last u) :
    Advances handle (p >>= f) s more others last u := advancesThen first second

theorem advancesLast {f : α → Program (Port L) β} {a : α} {last : Program (Port L) β}
    (first : Advances handle p s input output (.done (.ok a)) t)
    (second : Advances handle (f a) t [] [] last u) :
    Advances handle (p >>= f) s input output last u := by
  have both := advancesThen first second
  rwa [List.append_nil,List.append_nil] at both

theorem advancesReads {f : α → Program (Port L) β} {a : α} {last : Program (Port L) β}
    (first : Advances handle p s input [] (.done (.ok a)) t)
    (second : Advances handle (f a) t more others last u) :
    Advances handle (p >>= f) s (input ++ more) others last u := advancesThen first second

theorem advancesTaken {f : α → Program (Port L) β} {a : α} {last : Program (Port L) β}
    (first : Advances handle p s input [] (.done (.ok a)) t)
    (second : Advances handle (f a) t [] others last u) :
    Advances handle (p >>= f) s input others last u := by
  have both := advancesReads first second
  rwa [List.append_nil] at both

theorem advancesWrites {f : α → Program (Port L) β} {a : α} {last : Program (Port L) β}
    (first : Advances handle p s [] output (.done (.ok a)) t)
    (second : Advances handle (f a) t more others last u) :
    Advances handle (p >>= f) s more (output ++ others) last u := advancesThen first second

theorem advancesSent {b : Bytes} {next : Except Fault Unit → Program (Port L) α}
    (later : Advances handle (next (.ok ())) s [] [] q t) :
    Advances handle (.call (.send b) next) s [] b q t := by
  have sent := Advances.send (b := b) later
  rwa [List.append_nil] at sent

theorem advancesRead {n : Nat} {b : Bytes} (size : b.length = n)
    {next : Except Fault {b : Bytes // b.length = n} → Program (Port L) α}
    (later : Advances handle (next (.ok ⟨b,size⟩)) s [] [] q t) :
    Advances handle (.call (.recv n) next) s b [] q t := by
  have read := Advances.recv size later
  rwa [List.append_nil] at read

theorem advancesAttempt (first : Advances handle p s input output q t) :
    Advances handle p.attempt s input output q.attempt t := by
  induction first with
  | rest p s => exact .rest _ s
  | here later ih => exact .here ih
  | send later ih => exact .send ih
  | recv size later ih => exact .recv size ih

variable {handleLeft handleRight} {toLeft toRight : Bytes}

theorem leftAdvances {e : End L τ β} (advanced : Advances handleLeft p s input output q t) :
    Reach handleLeft handleRight ⟨⟨p,s⟩,e,input ++ toLeft,toRight⟩
      ⟨⟨q,t⟩,e,toLeft,toRight ++ output⟩ := by
  induction advanced generalizing toRight with
  | rest p s =>
    rw [List.append_nil]
    exact leadsRefl _
  | here later ih => exact leadsTrans (leadsStep .left (by simp [step,End.step])) ih
  | send later ih =>
    rw [← List.append_assoc]
    exact leadsTrans (leadsStep .left (by simp [step,End.step])) ih
  | recv size later ih =>
    subst size
    exact leadsTrans (leadsStep .left (by simp [step,End.step])) ih

theorem rightAdvances {handle : Handler L τ} {p q : Program (Port L) β} {s t : τ} {e : End L σ α}
    (advanced : Advances handle p s input output q t) :
    Reach handleLeft handle ⟨e,⟨p,s⟩,toLeft,input ++ toRight⟩
      ⟨e,⟨q,t⟩,toLeft ++ output,toRight⟩ := by
  induction advanced generalizing toLeft with
  | rest p s =>
    rw [List.append_nil]
    exact leadsRefl _
  | here later ih => exact leadsTrans (leadsStep .right (by simp [step,End.step])) ih
  | send later ih =>
    rw [← List.append_assoc]
    exact leadsTrans (leadsStep .right (by simp [step,End.step])) ih
  | recv size later ih =>
    subst size
    exact leadsTrans (leadsStep .right (by simp [step,End.step])) ih

theorem leftTurn {e : End L τ β} (advanced : Advances handleLeft p s input output q t) :
    Reach handleLeft handleRight ⟨⟨p,s⟩,e,input,[]⟩ ⟨⟨q,t⟩,e,[],output⟩ := by
  have turn : Reach handleLeft handleRight ⟨⟨p,s⟩,e,input ++ [],[]⟩ ⟨⟨q,t⟩,e,[],output⟩ :=
    leftAdvances advanced
  rwa [List.append_nil] at turn

theorem rightTurn {handle : Handler L τ} {p q : Program (Port L) β} {s t : τ} {e : End L σ α}
    (advanced : Advances handle p s input output q t) :
    Reach handleLeft handle ⟨e,⟨p,s⟩,[],input⟩ ⟨e,⟨q,t⟩,output,[]⟩ := by
  have turn : Reach handleLeft handle ⟨e,⟨p,s⟩,[],input ++ []⟩ ⟨e,⟨q,t⟩,output,[]⟩ :=
    rightAdvances advanced
  rwa [List.append_nil] at turn

theorem leftEof {n : Nat} {next : Except Fault {b : Bytes // b.length = n} → Program (Port L) α}
    {s : σ} {e : End L τ β} (ended : e.finished = true) (short : toLeft.length < n) :
    Reach handleLeft handleRight ⟨⟨.call (.recv n) next,s⟩,e,toLeft,toRight⟩
      ⟨⟨next (.error .eof),s⟩,e,[],toRight⟩ :=
  leadsStep .left (by simp [step,End.step,ended,Nat.not_le.mpr short])

theorem rightEof {n : Nat} {next : Except Fault {b : Bytes // b.length = n} → Program (Port L) β}
    {t : τ} {e : End L σ α} (ended : e.finished = true) (short : toRight.length < n) :
    Reach handleLeft handleRight ⟨e,⟨.call (.recv n) next,t⟩,toLeft,toRight⟩
      ⟨e,⟨next (.error .eof),t⟩,toLeft,[]⟩ :=
  leadsStep .right (by simp [step,End.step,ended,Nat.not_le.mpr short])

end Advancing

def Complete (handleLeft : Handler L σ) (handleRight : Handler L τ) (l m : Link L σ τ α β) : Prop :=
  Reach handleLeft handleRight l m ∧ Stuck (step handleLeft handleRight) m

theorem completeUnique {l m n : Link L σ τ α β} (first : Complete handleLeft handleRight l m)
    (second : Complete handleLeft handleRight l n) : m = n := by
  obtain ⟨⟨acts,ran⟩,stuck⟩ := first
  obtain ⟨⟨others,ranOther⟩,stuckOther⟩ := second
  exact endUnique (commutes handleLeft handleRight) ran stuck ranOther stuckOther

theorem stepFrom {l : Link L σ τ α β} {side : Side} {next : Link L σ τ α β}
    (taken : step handleLeft handleRight l side = some next) :
    (∃ m, l.left.step handleLeft l.toLeft l.right.finished = some m ∧
      next.left = m.after ∧ next.right = l.right) ∨
    (∃ m, l.right.step handleRight l.toRight l.left.finished = some m ∧
      next.right = m.after ∧ next.left = l.left) := by
  cases side with
  | left =>
    obtain ⟨m,moved,rfl⟩ := Option.map_eq_some_iff.mp taken
    exact .inl ⟨m,moved,rfl,rfl⟩
  | right =>
    obtain ⟨m,moved,rfl⟩ := Option.map_eq_some_iff.mp taken
    exact .inr ⟨m,moved,rfl,rfl⟩

theorem endStepNext {handle : Handler L σ} {e : End L σ α} {inbox closed m}
    (moved : e.step handle inbox closed = some m) :
    ∃ c next, e.program = .call c next ∧ ∃ r, m.after.program = next r := by
  unfold End.step at moved
  split at moved
  · contradiction
  · rename_i called
    cases Option.some.inj moved
    exact ⟨_,_,called,_,rfl⟩
  · rename_i called
    split at moved
    · cases Option.some.inj moved
      exact ⟨_,_,called,_,rfl⟩
    · split at moved <;> try contradiction
      cases Option.some.inj moved
      exact ⟨_,_,called,_,rfl⟩
  · rename_i called
    cases Option.some.inj moved
    exact ⟨_,_,called,_,rfl⟩

theorem completesAbove {p : Program (Port L) α} {q : Program (Port L) β}
    (left : ∀ c next, p = .call c next → ∀ r (l : Link L σ τ α β), l.left.program = next r →
      l.right.program = q → ∃ m, Complete handleLeft handleRight l m)
    (right : ∀ c next, q = .call c next → ∀ r (l : Link L σ τ α β), l.left.program = p →
      l.right.program = next r → ∃ m, Complete handleLeft handleRight l m)
    (l : Link L σ τ α β) (isLeft : l.left.program = p) (isRight : l.right.program = q) :
    ∃ m, Complete handleLeft handleRight l m := by
  rcases Classical.em (Stuck (step handleLeft handleRight) l) with stuck | free
  · exact ⟨l,leadsRefl l,stuck⟩
  obtain ⟨side,taken⟩ := not_forall.mp free
  obtain ⟨after,stepped⟩ := Option.ne_none_iff_exists'.mp taken
  rcases stepFrom handleLeft handleRight stepped with ⟨m,moved,same,kept⟩ | ⟨m,moved,same,kept⟩
  · obtain ⟨c,next,called,r,became⟩ := endStepNext moved
    obtain ⟨final,reached,stuck⟩ := left c next (isLeft.symm.trans called) r after
      (by rw [same,became]) (by rw [kept,isRight])
    exact ⟨final,leadsTrans (leadsStep side stepped) reached,stuck⟩
  · obtain ⟨c,next,called,r,became⟩ := endStepNext moved
    obtain ⟨final,reached,stuck⟩ := right c next (isRight.symm.trans called) r after
      (by rw [kept,isLeft]) (by rw [same,became])
    exact ⟨final,leadsTrans (leadsStep side stepped) reached,stuck⟩

theorem completesFrom (p : Program (Port L) α) : ∀ (q : Program (Port L) β) (l : Link L σ τ α β),
    l.left.program = p → l.right.program = q → ∃ m, Complete handleLeft handleRight l m := by
  induction p with
  | done result =>
    intro q
    induction q with
    | done other => exact completesAbove _ _ (by simp) (by simp)
    | call c next ih =>
      refine completesAbove _ _ (by simp) ?_
      rintro _ _ ⟨⟩ r l
      exact ih r l
  | call c next ih =>
    intro q
    induction q with
    | done other =>
      refine completesAbove _ _ ?_ (by simp)
      rintro _ _ ⟨⟩ r l
      exact ih r _ l
    | call c' next' ih' =>
      refine completesAbove _ _ ?_ ?_
      · rintro _ _ ⟨⟩ r l
        exact ih r _ l
      · rintro _ _ ⟨⟩ r l
        exact ih' r l

theorem completes (l : Link L σ τ α β) : ∃ m, Complete handleLeft handleRight l m :=
  completesFrom handleLeft handleRight l.left.program l.right.program l rfl rfl

theorem leftKeepsDone {s next : Link L σ τ α β} {side : Side} {result : Outcome α}
    (stepped : step handleLeft handleRight s side = some next)
    (ended : s.left.program = .done result) : next.left.program = .done result := by
  rcases stepFrom handleLeft handleRight stepped with ⟨moved,taken,-,-⟩ | ⟨moved,-,-,kept⟩
  · obtain ⟨_,_,called,-⟩ := endStepNext taken
    rw [ended] at called
    contradiction
  · rw [kept]
    exact ended

theorem leftStaysDone {l m : Link L σ τ α β} {result : Outcome α}
    (reached : Reach handleLeft handleRight l m)
    (done : l.left.program = .done result) : m.left.program = .done result := by
  obtain ⟨acts,ran⟩ := reached
  induction acts generalizing l with
  | nil => cases Option.some.inj ran; exact done
  | cons side rest ih =>
    obtain ⟨next,first,later⟩ := runCons ran
    exact ih (leftKeepsDone handleLeft handleRight first done) later

theorem leftEnds {l m n : Link L σ τ α β} {result : Outcome α}
    (reached : Reach handleLeft handleRight l m) (done : m.left.program = .done result)
    (complete : Complete handleLeft handleRight l n) : n.left.program = .done result := by
  obtain ⟨final,later,stuck⟩ := completes handleLeft handleRight m
  have same := completeUnique handleLeft handleRight ⟨leadsTrans reached later,stuck⟩ complete
  rw [← same]
  exact leftStaysDone handleLeft handleRight later done

def hosting (handle : Handler L σ) : Program.Env (Port L) σ := fun s c r t =>
  match c, r with
  | .here c, r => r = (handle s c).1 ∧ t = (handle s c).2
  | .send _, r => r = .ok () ∧ t = s
  | .recv _, _ => t = s

theorem endHosted {handle : Handler L σ} {e : End L σ α} {inbox closed m}
    (moved : e.step handle inbox closed = some m) :
    Program.Reaches (hosting handle) e.program e.host m.after.program m.after.host := by
  obtain ⟨program,host⟩ := e
  unfold End.step at moved
  cases program with
  | done result => contradiction
  | call c next =>
    cases c with
    | send b =>
      cases Option.some.inj moved
      exact .answer (t := host) ⟨rfl,rfl⟩ (.here _ _)
    | here c =>
      cases Option.some.inj moved
      exact .answer (t := (handle host c).2) ⟨rfl,rfl⟩ (.here _ _)
    | recv n =>
      dsimp only at moved
      split at moved
      · cases Option.some.inj moved
        exact .answer (t := host) rfl (.here _ _)
      · split at moved <;> try contradiction
        cases Option.some.inj moved
        exact .answer (t := host) rfl (.here _ _)

theorem rightHosted {l m : Link L σ τ α β} (reached : Reach handleLeft handleRight l m) :
    Program.Reaches (hosting handleRight) l.right.program l.right.host m.right.program m.right.host := by
  obtain ⟨acts,ran⟩ := reached
  induction acts generalizing l with
  | nil =>
    cases Option.some.inj ran
    exact .here _ _
  | cons side rest ih =>
    obtain ⟨next,first,later⟩ := runCons ran
    rcases stepFrom handleLeft handleRight first with ⟨_,-,-,kept⟩ | ⟨moved,taken,same,-⟩
    · have onward := ih later
      rwa [kept] at onward
    · have onward := ih later
      rw [same] at onward
      exact Program.reachesTrans (endHosted taken) onward

theorem completeOnward {l m final : Link L σ τ α β} (reached : Reach handleLeft handleRight l m)
    (complete : Complete handleLeft handleRight l final) : Complete handleLeft handleRight m final :=
  ⟨(boundOf (commutes handleLeft handleRight) reached).2 final complete.1 complete.2,complete.2⟩

end Duplex
end RDrive
