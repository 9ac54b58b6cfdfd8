import RDrive.Lib.Duplex

/-! Two programs joined as in Duplex, while both keep the connection open, with the
bytes in between in two places: on the way, and delivered to the reader's own
buffer. A delivery moves any number of bytes at any time. How far they are makes
no difference to a program; it does to whoever drops a reader with its buffer. -/
namespace RDrive

structure Pipe where
  buffer : Bytes
  flying : Bytes
  deriving DecidableEq, Repr

namespace Pipe

def empty : Pipe := ⟨[],[]⟩
def bytes (p : Pipe) : Bytes := p.buffer ++ p.flying

theorem emptyOf {p : Pipe} (none : p.bytes = []) : p = empty := by
  obtain ⟨buffered,flying⟩ := List.append_eq_nil_iff.mp none
  cases p
  simp_all [empty]

end Pipe

structure Wire (L : Signature) (σ τ α β : Type) where
  left : Duplex.End L σ α
  right : Duplex.End L τ β
  toLeft : Pipe
  toRight : Pipe

namespace Wire
open Runs Duplex
variable {L : Signature} {σ τ α β γ : Type}

inductive Act where
  | left
  | right
  | deliverLeft (n : Nat)
  | deliverRight (n : Nat)
  deriving DecidableEq, Repr

def deliver (p : Pipe) (n : Nat) : Option Pipe :=
  if 0 < n ∧ n ≤ p.flying.length then some ⟨p.buffer ++ p.flying.take n,p.flying.drop n⟩ else none

variable (handleLeft : Handler L σ) (handleRight : Handler L τ)

def step (w : Wire L σ τ α β) : Act → Option (Wire L σ τ α β)
  | .left => (w.left.step handleLeft w.toLeft.buffer false).map fun m =>
      ⟨m.after,w.right,⟨m.inbox,w.toLeft.flying⟩,⟨w.toRight.buffer,w.toRight.flying ++ m.written⟩⟩
  | .right => (w.right.step handleRight w.toRight.buffer false).map fun m =>
      ⟨w.left,m.after,⟨w.toLeft.buffer,w.toLeft.flying ++ m.written⟩,⟨m.inbox,w.toRight.flying⟩⟩
  | .deliverLeft n => (deliver w.toLeft n).map fun p => {w with toLeft := p}
  | .deliverRight n => (deliver w.toRight n).map fun p => {w with toRight := p}

/- The left function returns: another program takes the connection over with a
reader of its own, and what the old reader had buffered is gone. -/
def handover (w : Wire L σ τ α β) (caller : α → Program (Port L) γ) : Option (Wire L σ τ γ β) :=
  match w.left.program with
  | .done (.ok a) => some ⟨⟨caller a,w.left.host⟩,w.right,⟨[],w.toLeft.flying⟩,w.toRight⟩
  | _ => none

def flat (w : Wire L σ τ α β) : Link L σ τ α β := ⟨w.left,w.right,w.toLeft.bytes,w.toRight.bytes⟩

def openStep (l : Link L σ τ α β) : Side → Option (Link L σ τ α β)
  | .left => (l.left.step handleLeft l.toLeft false).map fun m =>
      ⟨m.after,l.right,m.inbox,l.toRight ++ m.written⟩
  | .right => (l.right.step handleRight l.toRight false).map fun m =>
      ⟨l.left,m.after,l.toLeft ++ m.written,m.inbox⟩

theorem deliverBytes {p q : Pipe} {n : Nat} (delivered : deliver p n = some q) :
    q.bytes = p.bytes := by
  unfold deliver at delivered
  split at delivered <;> try contradiction
  cases Option.some.inj delivered
  simp [Pipe.bytes]

def Act.own : Act → Bool
  | .left | .right => true
  | _ => false

theorem stepFlat {w next : Wire L σ τ α β} {act : Act}
    (taken : step handleLeft handleRight w act = some next) :
    next.flat = w.flat ∧ act.own = false ∨
      ∃ side, openStep handleLeft handleRight w.flat side = some next.flat ∧ act.own = true := by
  cases act with
  | left =>
    obtain ⟨m,moved,rfl⟩ := Option.map_eq_some_iff.mp taken
    refine .inr ⟨.left,?_,rfl⟩
    simp [openStep,flat,Pipe.bytes,endStepLater moved]
  | right =>
    obtain ⟨m,moved,rfl⟩ := Option.map_eq_some_iff.mp taken
    refine .inr ⟨.right,?_,rfl⟩
    simp [openStep,flat,Pipe.bytes,endStepLater moved]
  | deliverLeft n =>
    obtain ⟨p,delivered,rfl⟩ := Option.map_eq_some_iff.mp taken
    exact .inl ⟨by simp [flat,deliverBytes delivered],rfl⟩
  | deliverRight n =>
    obtain ⟨p,delivered,rfl⟩ := Option.map_eq_some_iff.mp taken
    exact .inl ⟨by simp [flat,deliverBytes delivered],rfl⟩

theorem runFlat {w last : Wire L σ τ α β} {acts : List Act}
    (ran : run (step handleLeft handleRight) w acts = some last) :
    ∃ sides, run (openStep handleLeft handleRight) w.flat sides = some last.flat ∧
      sides.length = (acts.filter Act.own).length := by
  induction acts generalizing w with
  | nil =>
    cases Option.some.inj ran
    exact ⟨[],rfl,rfl⟩
  | cons act rest ih =>
    obtain ⟨next,taken,later⟩ := runCons ran
    obtain ⟨sides,reached,size⟩ := ih later
    rcases stepFlat handleLeft handleRight taken with ⟨same,other⟩ | ⟨side,moved,own⟩
    · exact ⟨sides,by rw [← same,reached],by rw [List.filter_cons_of_neg (by simp [other]),size]⟩
    · exact ⟨side :: sides,by simp [run,moved,reached],by
        rw [List.filter_cons_of_pos own,List.length_cons,List.length_cons,size]⟩

def Delivered (w : Wire L σ τ α β) : Prop := w.toLeft.flying = [] ∧ w.toRight.flying = []

theorem stuckDelivered {w : Wire L σ τ α β} (stuck : Stuck (step handleLeft handleRight) w) :
    w.Delivered := by
  have none_ : ∀ p : Pipe, (∀ n, deliver p n = none) → p.flying = [] := by
    intro p still
    by_contra some_
    have positive := List.length_pos_of_ne_nil some_
    have moved := still p.flying.length
    unfold deliver at moved
    rw [if_pos ⟨positive,Nat.le_refl _⟩] at moved
    contradiction
  exact ⟨none_ w.toLeft fun n => Option.map_eq_none_iff.mp (stuck (.deliverLeft n)),
    none_ w.toRight fun n => Option.map_eq_none_iff.mp (stuck (.deliverRight n))⟩

theorem stuckFlat {w : Wire L σ τ α β} (stuck : Stuck (step handleLeft handleRight) w) :
    Stuck (openStep handleLeft handleRight) w.flat := by
  obtain ⟨left,right⟩ := stuckDelivered handleLeft handleRight stuck
  intro side
  cases side with
  | left =>
    have still := Option.map_eq_none_iff.mp (stuck .left)
    simp [openStep,flat,Pipe.bytes,left,still]
  | right =>
    have still := Option.map_eq_none_iff.mp (stuck .right)
    simp [openStep,flat,Pipe.bytes,right,still]

theorem deliverWhole {p : Pipe} (some_ : p.flying ≠ []) :
    deliver p p.flying.length = some ⟨p.bytes,[]⟩ := by
  have positive := List.length_pos_of_ne_nil some_
  unfold deliver
  rw [if_pos ⟨positive,Nat.le_refl _⟩,List.take_length,List.drop_length]
  rfl

theorem deliverAll (w : Wire L σ τ α β) : ∃ all : Wire L σ τ α β,
    Leads (step handleLeft handleRight) w all ∧ all.flat = w.flat ∧ all.Delivered := by
  have left : ∃ half : Wire L σ τ α β, Leads (step handleLeft handleRight) w half ∧
      half.flat = w.flat ∧ half.toLeft.flying = [] := by
    rcases Classical.em (w.toLeft.flying = []) with none_ | some_
    · exact ⟨w,leadsRefl _,rfl,none_⟩
    · have moved : step handleLeft handleRight w (.deliverLeft w.toLeft.flying.length) =
          some {w with toLeft := ⟨w.toLeft.bytes,[]⟩} := by
        simp only [step,deliverWhole some_,Option.map_some]
      exact ⟨_,leadsStep _ moved,by simp [flat,Pipe.bytes],rfl⟩
  obtain ⟨half,reached,same,none_⟩ := left
  rcases Classical.em (half.toRight.flying = []) with gone | some_
  · exact ⟨half,reached,same,none_,gone⟩
  · have moved : step handleLeft handleRight half (.deliverRight half.toRight.flying.length) =
        some {half with toRight := ⟨half.toRight.bytes,[]⟩} := by
      simp only [step,deliverWhole some_,Option.map_some]
    exact ⟨_,leadsTrans reached (leadsStep _ moved),by rw [← same]; simp [flat,Pipe.bytes],none_,rfl⟩

theorem flatStep {w : Wire L σ τ α β} {l : Link L σ τ α β} {side : Side}
    (moved : openStep handleLeft handleRight w.flat side = some l) :
    ∃ next : Wire L σ τ α β, Leads (step handleLeft handleRight) w next ∧ next.flat = l := by
  obtain ⟨all,reached,same,left,right⟩ := deliverAll handleLeft handleRight w
  rw [← same] at moved
  cases side with
  | left =>
    obtain ⟨m,taken,rfl⟩ := Option.map_eq_some_iff.mp moved
    have own : step handleLeft handleRight all .left = some ⟨m.after,all.right,
        ⟨m.inbox,all.toLeft.flying⟩,⟨all.toRight.buffer,all.toRight.flying ++ m.written⟩⟩ := by
      simp only [flat,Pipe.bytes,left,List.append_nil] at taken
      simp [step,taken]
    exact ⟨_,leadsTrans reached (leadsStep _ own),by simp [flat,Pipe.bytes,left]⟩
  | right =>
    obtain ⟨m,taken,rfl⟩ := Option.map_eq_some_iff.mp moved
    have own : step handleLeft handleRight all .right = some ⟨all.left,m.after,
        ⟨all.toLeft.buffer,all.toLeft.flying ++ m.written⟩,⟨m.inbox,all.toRight.flying⟩⟩ := by
      simp only [flat,Pipe.bytes,right,List.append_nil] at taken
      simp [step,taken]
    exact ⟨_,leadsTrans reached (leadsStep _ own),by simp [flat,Pipe.bytes,right]⟩

theorem flatLeads {w : Wire L σ τ α β} {l : Link L σ τ α β}
    (leads : Leads (openStep handleLeft handleRight) w.flat l) :
    ∃ next : Wire L σ τ α β, Leads (step handleLeft handleRight) w next ∧ next.flat = l := by
  obtain ⟨sides,ran⟩ := leads
  induction sides generalizing w with
  | nil => exact ⟨w,leadsRefl _,Option.some.inj ran⟩
  | cons side rest ih =>
    obtain ⟨after,moved,later⟩ := runCons ran
    obtain ⟨next,reached,rfl⟩ := flatStep handleLeft handleRight moved
    obtain ⟨last,completed,same⟩ := ih later
    exact ⟨last,leadsTrans reached completed,same⟩

theorem leadsDelivered {w z : Wire L σ τ α β}
    (leads : Leads (openStep handleLeft handleRight) w.flat z.flat) (delivered : z.Delivered) :
    Leads (step handleLeft handleRight) w z := by
  obtain ⟨next,reached,same⟩ := flatLeads handleLeft handleRight leads
  obtain ⟨all,last,kept,whole⟩ := deliverAll handleLeft handleRight next
  have equal : all = z := by
    have both := kept.trans same
    obtain ⟨left,right,⟨_,_⟩,⟨_,_⟩⟩ := all
    obtain ⟨left',right',⟨_,_⟩,⟨_,_⟩⟩ := z
    obtain ⟨rfl,rfl⟩ := whole
    obtain ⟨rfl,rfl⟩ := delivered
    simp only [flat,Pipe.bytes,List.append_nil,Link.mk.injEq] at both
    obtain ⟨rfl,rfl,rfl,rfl⟩ := both
    rfl
  rw [← equal]
  exact leadsTrans reached last

theorem openCommutes : Commutes (openStep (α := α) (β := β) handleLeft handleRight) := by
  intro s first second a b different stepped other
  have both : ∀ {x y}, openStep handleLeft handleRight s .left = some x →
      openStep handleLeft handleRight s .right = some y →
      ∃ joined, openStep handleLeft handleRight x .right = some joined ∧
        openStep handleLeft handleRight y .left = some joined := by
    intro x y movedLeft movedRight
    obtain ⟨l,leftMoved,rfl⟩ := Option.map_eq_some_iff.mp movedLeft
    obtain ⟨r,rightMoved,rfl⟩ := Option.map_eq_some_iff.mp movedRight
    refine ⟨⟨l.after,r.after,l.inbox ++ r.written,r.inbox ++ l.written⟩,?_,?_⟩
    · simp [openStep,endStepLater rightMoved]
    · simp [openStep,endStepLater leftMoved]
  cases a with
  | left => cases b with
    | left => contradiction
    | right => exact both stepped other
  | right => cases b with
    | left =>
      obtain ⟨joined,one,two⟩ := both other stepped
      exact ⟨joined,two,one⟩
    | right => contradiction

theorem boundDelivered {w z : Wire L σ τ α β}
    (leads : Leads (openStep handleLeft handleRight) w.flat z.flat) (delivered : z.Delivered) :
    Bound (step handleLeft handleRight) w z := by
  refine ⟨leadsDelivered handleLeft handleRight leads delivered,?_⟩
  intro last completed stuck
  obtain ⟨acts,ran⟩ := completed
  obtain ⟨sides,flatRan,-⟩ := runFlat handleLeft handleRight ran
  have onward := (boundOf (openCommutes handleLeft handleRight) leads).2 _ ⟨sides,flatRan⟩
    (stuckFlat handleLeft handleRight stuck)
  exact leadsDelivered handleLeft handleRight onward
    (stuckDelivered handleLeft handleRight stuck)

section Canonical
variable {handleLeft handleRight} {p q : Program (Port L) α} {s t : σ} {input output : Bytes}

theorem leftOpen (handleRight : Handler L τ) {e : End L τ β}
    (advanced : Advances handleLeft p s input output q t)
    (toLeft toRight : Bytes) :
    Leads (openStep handleLeft handleRight) ⟨⟨p,s⟩,e,input ++ toLeft,toRight⟩
      ⟨⟨q,t⟩,e,toLeft,toRight ++ output⟩ := by
  induction advanced generalizing toRight with
  | rest p s =>
    rw [List.append_nil]
    exact leadsRefl _
  | here later ih => exact leadsTrans (leadsStep .left (by simp [openStep,End.step])) (ih _)
  | send later ih =>
    rw [← List.append_assoc]
    exact leadsTrans (leadsStep .left (by simp [openStep,End.step])) (ih _)
  | recv size later ih =>
    subst size
    exact leadsTrans (leadsStep .left (by simp [openStep,End.step])) (ih _)

theorem rightOpen (handleLeft : Handler L σ) {handle : Handler L τ} {p q : Program (Port L) β} {s t : τ}
    {e : End L σ α}
    (advanced : Advances handle p s input output q t) (toLeft toRight : Bytes) :
    Leads (openStep handleLeft handle) ⟨e,⟨p,s⟩,toLeft,input ++ toRight⟩
      ⟨e,⟨q,t⟩,toLeft ++ output,toRight⟩ := by
  induction advanced generalizing toLeft with
  | rest p s =>
    rw [List.append_nil]
    exact leadsRefl _
  | here later ih => exact leadsTrans (leadsStep .right (by simp [openStep,End.step])) (ih _)
  | send later ih =>
    rw [← List.append_assoc]
    exact leadsTrans (leadsStep .right (by simp [openStep,End.step])) (ih _)
  | recv size later ih =>
    subst size
    exact leadsTrans (leadsStep .right (by simp [openStep,End.step])) (ih _)

end Canonical

/- Once the left side has ended, the rest of a run is the right side's alone, and
would go the same way beside any other left side. -/
theorem rightAlone {l m : Link L σ τ α β} {result : Outcome α} {acts : List Side}
    (ran : run (openStep handleLeft handleRight) l acts = some m)
    (ended : l.left.program = .done result) :
    m.left = l.left ∧ ∃ sent, m.toLeft = l.toLeft ++ sent ∧
      ∀ (e : End L σ γ) (toLeft : Bytes),
        Leads (openStep handleLeft handleRight) ⟨e,l.right,toLeft,l.toRight⟩
          ⟨e,m.right,toLeft ++ sent,m.toRight⟩ := by
  induction acts generalizing l with
  | nil =>
    cases Option.some.inj ran
    refine ⟨rfl,[],by simp,fun e toLeft => ?_⟩
    rw [List.append_nil]
    exact leadsRefl _
  | cons side rest ih =>
    obtain ⟨next,taken,later⟩ := runCons ran
    cases side with
    | left =>
      obtain ⟨moved,left,-⟩ := Option.map_eq_some_iff.mp taken
      obtain ⟨_,_,called,-⟩ := endStepNext left
      rw [ended] at called
      contradiction
    | right =>
      obtain ⟨moved,right,rfl⟩ := Option.map_eq_some_iff.mp taken
      obtain ⟨kept,sent,grown,onward⟩ := ih later ended
      refine ⟨kept,moved.written ++ sent,by rw [grown,List.append_assoc],fun e toLeft => ?_⟩
      have first : openStep handleLeft handleRight ⟨e,l.right,toLeft,l.toRight⟩ .right =
          some ⟨e,moved.after,toLeft ++ moved.written,moved.inbox⟩ := by
        simp [openStep,right]
      rw [← List.append_assoc]
      exact leadsTrans (leadsStep .right first) (onward e _)

end Wire
end RDrive
