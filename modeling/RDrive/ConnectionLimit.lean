import Mathlib.Algebra.Ring.Nat
import RDrive.Lib.Runs

/-! The accept loop of start_tcp_server and the counter ACTIVE_CONNECTIONS. The loop
takes a place before it looks whether there is one; a handler's task gives its place
back after the handler has returned. -/
namespace RDrive.ConnectionLimit

inductive Loop where
  | waiting
  | accepted
  | rejecting
  | admitted
  | sleeping
  deriving DecidableEq, Repr

inductive Result where
  | ok
  | err
  | lifetime
  deriving DecidableEq, Repr

/- A panic in the handler unwinds its task, and the runtime catches it there. -/
inductive Handler where
  | running
  | returned (result : Result)
  | gone
  | panicked
  deriving DecidableEq, Repr

structure Server where
  loop : Loop
  active : Nat
  handlers : List Handler
  deriving DecidableEq, Repr

inductive Action where
  | accept
  | acceptError
  | fetchAdd
  | fetchSub
  | wake
  | spawn
  | finish (i : Nat) (result : Result)
  | giveBack (i : Nat)
  | panic (i : Nat)
  deriving DecidableEq, Repr

/- On a usize: below zero it goes on from the top. -/
def fetchSub (active : Nat) : Nat := if active = 0 then 2 ^ 64 - 1 else active - 1

def step (maxConnections : Nat) (s : Server) : Action → Option Server
  | .accept => if s.loop = .waiting then some {s with loop := .accepted} else none
  | .acceptError => if s.loop = .waiting then some s else none
  | .fetchAdd =>
    if s.loop = .accepted then
      some {s with
        active := s.active + 1
        loop := if maxConnections ≤ s.active then .rejecting else .admitted}
    else none
  | .fetchSub =>
    if s.loop = .rejecting then some {s with active := fetchSub s.active,loop := .sleeping} else none
  | .wake => if s.loop = .sleeping then some {s with loop := .waiting} else none
  | .spawn =>
    if s.loop = .admitted then
      some {s with handlers := s.handlers ++ [.running],loop := .waiting}
    else none
  | .finish i result =>
    if s.handlers[i]? = some .running then
      some {s with handlers := s.handlers.set i (.returned result)}
    else none
  | .giveBack i =>
    match s.handlers[i]? with
    | some (.returned _) =>
      some {s with active := fetchSub s.active,handlers := s.handlers.set i .gone}
    | _ => none
  | .panic i =>
    if s.handlers[i]? = some .running then
      some {s with handlers := s.handlers.set i .panicked}
    else none

def start : Server := ⟨.waiting,0,[]⟩

def Handler.alive : Handler → Bool
  | .running => true
  | .returned _ => true
  | _ => false

def Server.live (s : Server) : Nat := s.handlers.countP Handler.alive
def Server.leaked (s : Server) : Nat := s.handlers.countP (· = .panicked)

def Loop.pending : Loop → Nat
  | .rejecting => 1
  | .admitted => 1
  | _ => 0

def Loop.admits : Loop → Nat
  | .admitted => 1
  | _ => 0

/- What the limit is for. A connection is rejected where the counter has reached it. -/
structure Kept (maxConnections : Nat) (s : Server) : Prop where
  bounded : s.live ≤ maxConnections
  counted : s.loop = .waiting → s.active = s.live
  rejectsFull : s.loop = .accepted → maxConnections ≤ s.active → s.live = maxConnections
  subtracts : s.loop = .rejecting → 0 < s.active
  givesBack : ∀ (i : Nat) result, s.handlers[i]? = some (.returned result) → 0 < s.active

structure Counted (maxConnections : Nat) (s : Server) : Prop where
  places : s.active = s.live + s.leaked + s.loop.pending
  room : s.live + s.leaked + s.loop.admits ≤ maxConnections

theorem setCount {l : List Handler} {i : Nat} {h g : Handler} (here : l[i]? = some h)
    (p : Handler → Bool) : (l.set i g).countP p + (if p h then 1 else 0) =
      l.countP p + (if p g then 1 else 0) := by
  obtain ⟨inside,rfl⟩ := List.getElem?_eq_some_iff.mp here
  have among : (if p l[i] then 1 else 0) ≤ l.countP p := by
    split
    · rename_i holds
      exact List.countP_pos_iff.mpr ⟨l[i],List.getElem_mem inside,holds⟩
    · exact Nat.zero_le _
  rw [List.countP_set inside]
  omega

theorem returnedLive {s : Server} {i : Nat} {result : Result}
    (here : s.handlers[i]? = some (.returned result)) : 0 < s.live :=
  List.countP_pos_iff.mpr ⟨_,List.mem_of_getElem? here,rfl⟩

variable {maxConnections : Nat}

theorem fetchAddCounted {active : Nat} {handlers : List Handler}
    (counted : Counted maxConnections ⟨.accepted,active,handlers⟩) :
    Counted maxConnections
      ⟨if maxConnections ≤ active then .rejecting else .admitted,active + 1,handlers⟩ := by
  obtain ⟨places,room⟩ := counted
  simp only [Server.live,Server.leaked,Loop.pending,Loop.admits] at places room
  by_cases full : maxConnections ≤ active
  · constructor <;> simp only [if_pos full,Server.live,Server.leaked,Loop.pending,Loop.admits] <;> omega
  · constructor <;> simp only [if_neg full,Server.live,Server.leaked,Loop.pending,Loop.admits] <;> omega

theorem fetchSubCounted {active : Nat} {handlers : List Handler}
    (counted : Counted maxConnections ⟨.rejecting,active,handlers⟩) :
    Counted maxConnections ⟨.sleeping,fetchSub active,handlers⟩ := by
  obtain ⟨places,room⟩ := counted
  simp only [Server.live,Server.leaked,Loop.pending,Loop.admits] at places room
  constructor <;> simp only [Server.live,Server.leaked,Loop.pending,Loop.admits,fetchSub]
  · rw [if_neg (by omega)]
    omega
  · omega

theorem spawnCounted {active : Nat} {handlers : List Handler}
    (counted : Counted maxConnections ⟨.admitted,active,handlers⟩) :
    Counted maxConnections ⟨.waiting,active,handlers ++ [.running]⟩ := by
  obtain ⟨places,room⟩ := counted
  simp only [Server.live,Server.leaked,Loop.pending,Loop.admits] at places room
  have live : (handlers ++ [Handler.running]).countP Handler.alive = handlers.countP Handler.alive + 1 := by
    simp [List.countP_append,Handler.alive]
  have leaked : (handlers ++ [Handler.running]).countP (· = .panicked) = handlers.countP (· = .panicked) := by
    simp [List.countP_append]
  constructor <;> simp only [Server.live,Server.leaked,live,leaked,Loop.pending,Loop.admits] <;> omega

theorem loopCounted {s next : Server} {a : Action} (taken : step maxConnections s a = some next)
    (loops : ∀ i result, a ≠ .finish i result ∧ a ≠ .giveBack i ∧ a ≠ .panic i)
    (counted : Counted maxConnections s) : Counted maxConnections next := by
  obtain ⟨loop,active,handlers⟩ := s
  cases a with
  | accept =>
    obtain ⟨waiting,same⟩ := Option.ite_none_right_eq_some.mp taken
    cases waiting
    cases same
    exact ⟨counted.places,counted.room⟩
  | acceptError =>
    obtain ⟨-,same⟩ := Option.ite_none_right_eq_some.mp taken
    cases same
    exact counted
  | fetchAdd =>
    obtain ⟨accepted,same⟩ := Option.ite_none_right_eq_some.mp taken
    cases accepted
    cases same
    exact fetchAddCounted counted
  | fetchSub =>
    obtain ⟨rejecting,same⟩ := Option.ite_none_right_eq_some.mp taken
    cases rejecting
    cases same
    exact fetchSubCounted counted
  | wake =>
    obtain ⟨sleeping,same⟩ := Option.ite_none_right_eq_some.mp taken
    cases sleeping
    cases same
    exact ⟨counted.places,counted.room⟩
  | spawn =>
    obtain ⟨admitted,same⟩ := Option.ite_none_right_eq_some.mp taken
    cases admitted
    cases same
    exact spawnCounted counted
  | finish i result => exact absurd rfl (loops i result).1
  | giveBack i => exact absurd rfl (loops i .ok).2.1
  | panic i => exact absurd rfl (loops i .ok).2.2

theorem stepCounted {s next : Server} {a : Action} (taken : step maxConnections s a = some next)
    (counted : Counted maxConnections s) : Counted maxConnections next := by
  obtain ⟨places,room⟩ := counted
  cases a with
  | finish i result =>
    simp only [step] at taken
    split at taken <;> try contradiction
    rename_i here
    cases Option.some.inj taken
    have live := @setCount _ _ _ (.returned result) here Handler.alive
    have leaked := @setCount _ _ _ (.returned result) here (· = .panicked)
    simp [Handler.alive] at live leaked
    exact ⟨by simpa [Server.live,Server.leaked,live,leaked] using places,
      by simpa [Server.live,Server.leaked,live,leaked] using room⟩
  | giveBack i =>
    simp only [step] at taken
    split at taken <;> try contradiction
    rename_i result here
    cases Option.some.inj taken
    have live := @setCount _ _ _ .gone here Handler.alive
    have leaked := @setCount _ _ _ .gone here (· = .panicked)
    have some_ := returnedLive here
    simp [Handler.alive] at live leaked
    simp only [Server.live,Server.leaked] at places room some_
    constructor <;> simp only [Server.live,Server.leaked,fetchSub,leaked]
    · rw [if_neg (by omega)]
      omega
    · omega
  | panic i =>
    simp only [step] at taken
    split at taken <;> try contradiction
    rename_i here
    cases Option.some.inj taken
    have live := @setCount _ _ _ .panicked here Handler.alive
    have leaked := @setCount _ _ _ .panicked here (· = .panicked)
    simp [Handler.alive] at live leaked
    simp only [Server.live,Server.leaked] at places room
    constructor <;> simp only [Server.live,Server.leaked,leaked] <;> omega
  | _ => exact loopCounted taken (by simp) ⟨places,room⟩

theorem startCounted : Counted maxConnections start := ⟨rfl,Nat.zero_le _⟩

theorem countedKept {s : Server} (counted : Counted maxConnections s) (whole : s.leaked = 0) :
    Kept maxConnections s := by
  obtain ⟨places,room⟩ := counted
  rw [whole,Nat.add_zero] at places room
  refine ⟨Nat.le_of_add_right_le room,?_,?_,?_,?_⟩
  · intro waiting
    simpa [waiting,Loop.pending] using places
  · intro accepted full
    simp only [accepted,Loop.pending,Loop.admits] at places room
    omega
  · intro rejecting
    simp only [rejecting,Loop.pending] at places
    omega
  · intro i result here
    have live := returnedLive here
    omega

def Action.panics : Action → Bool
  | .panic _ => true
  | _ => false

theorem stepLeaked {s next : Server} {a : Action} (taken : step maxConnections s a = some next) :
    next.leaked = s.leaked + if a.panics then 1 else 0 := by
  cases a with
  | finish i result =>
    simp only [step] at taken
    split at taken <;> try contradiction
    rename_i here
    cases Option.some.inj taken
    simpa [Server.leaked,Action.panics] using
      @setCount _ _ _ (.returned result) here (· = .panicked)
  | giveBack i =>
    simp only [step] at taken
    split at taken <;> try contradiction
    rename_i here
    cases Option.some.inj taken
    simpa [Server.leaked,Action.panics] using @setCount _ _ _ .gone here (· = .panicked)
  | panic i =>
    simp only [step] at taken
    split at taken <;> try contradiction
    rename_i here
    cases Option.some.inj taken
    simpa [Server.leaked,Action.panics] using @setCount _ _ _ .panicked here (· = .panicked)
  | _ =>
    simp only [step] at taken
    split at taken <;> try contradiction
    cases Option.some.inj taken
    simp [Server.leaked,Action.panics]

theorem runLeaked {s last : Server} {acts : List Action}
    (ran : Runs.run (step maxConnections) s acts = some last) :
    last.leaked = s.leaked + acts.countP Action.panics := by
  induction acts generalizing s with
  | nil =>
    cases Option.some.inj ran
    rfl
  | cons a rest ih =>
    obtain ⟨next,taken,later⟩ := Runs.runCons ran
    rw [ih later,stepLeaked taken,List.countP_cons]
    omega

def Unpanicked (_ : Server) (a : Action) : Prop := a.panics = false

theorem keptUnpanicked {s : Server} {acts : List Action}
    (quiet : Runs.Always (step maxConnections) Unpanicked s acts)
    (counted : Counted maxConnections s) (whole : s.leaked = 0) :
    Runs.Throughout (step maxConnections) (Kept maxConnections) s acts := by
  have keep : ∀ {s a next}, step maxConnections s a = some next → Unpanicked s a →
      Counted maxConnections s ∧ s.leaked = 0 → Counted maxConnections next ∧ next.leaked = 0 := by
    intro s a next taken unpanicked held
    refine ⟨stepCounted taken held.1,?_⟩
    rw [stepLeaked taken,held.2,unpanicked]
    rfl
  exact Runs.throughoutWhile keep (fun held => countedKept held.1 held.2) quiet ⟨counted,whole⟩

theorem panicsNot {acts : List Action} (quiet : ∀ i, .panic i ∉ acts) :
    ∀ a ∈ acts, a.panics = false := by
  intro a member
  cases a with
  | panic i => exact absurd member (quiet i)
  | _ => rfl

theorem alwaysUnpanicked {s : Server} {acts : List Action} (quiet : ∀ a ∈ acts, a.panics = false) :
    Runs.Always (step maxConnections) Unpanicked s acts := by
  induction acts generalizing s with
  | nil => trivial
  | cons a rest ih =>
    exact ⟨quiet a List.mem_cons_self,fun next _ => ih fun b member =>
      quiet b (List.mem_cons_of_mem _ member)⟩

/- The limit is kept in every state of every run where no handler panics. Where the loop
waits again, the counter tells whether one has. -/
theorem limitExactly {acts : List Action} {last : Server}
    (ran : Runs.run (step maxConnections) start acts = some last) :
    ((∀ i, .panic i ∉ acts) →
      Runs.Throughout (step maxConnections) (Kept maxConnections) start acts) ∧
    (last.loop = .waiting → (last.active = last.live ↔ ∀ i, .panic i ∉ acts)) := by
  constructor
  · intro quiet
    exact keptUnpanicked (alwaysUnpanicked fun a member => (panicsNot quiet) a member)
      startCounted rfl
  · intro waiting
    have counted := Runs.runKeeps stepCounted ran startCounted
    have leaked := runLeaked ran
    have places := counted.places
    simp only [waiting,Loop.pending,Nat.add_zero] at places
    have none_ : start.leaked = 0 := rfl
    rw [none_,Nat.zero_add] at leaked
    constructor
    · intro same i member
      have some_ : 0 < acts.countP Action.panics := List.countP_pos_iff.mpr ⟨_,member,rfl⟩
      omega
    · intro quiet
      have zero : acts.countP Action.panics = 0 := List.countP_eq_zero.mpr fun a member => by
        simp [panicsNot quiet a member]
      omega

theorem handlersComeAndGo :
    let acts : List Action := [.accept,.fetchAdd,.spawn,.accept,.fetchAdd,.finish 0 .lifetime,
      .fetchSub,.giveBack 0,.wake]
    ((∀ i, .panic i ∉ acts) → Runs.Throughout (step 1) (Kept 1) start acts) ∧
      ((⟨.waiting,0,[.gone]⟩ : Server).loop = .waiting →
        ((⟨.waiting,0,[.gone]⟩ : Server).active = (⟨.waiting,0,[.gone]⟩ : Server).live ↔
          ∀ i, .panic i ∉ acts)) :=
  limitExactly rfl

/- After one panic a server of one place has none, and turns everybody away. -/
theorem panicLeaks :
    ∃ last, Runs.run (step 1) start [.accept,.fetchAdd,.spawn,.panic 0,.accept] = some last ∧
      last.live = 0 ∧ last.active = 1 ∧ ¬ Kept 1 last := by
  refine ⟨_,rfl,rfl,rfl,?_⟩
  intro kept
  exact absurd (kept.rejectsFull rfl (Nat.le_refl 1)) (by decide)

end RDrive.ConnectionLimit
