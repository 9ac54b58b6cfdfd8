import RDrive.Lib.Duplex
import RDrive.Lib.Pair

/-! Two programs with a byte stream each way that may be lost at any point. What one side
reads is what the other wrote, from the start and in order; any read or write may fail,
and what got out of a failed write may still be read. -/
namespace RDrive.Lossy
open Program Pair

structure Ledger {L : Signature} {γ : Type} (env : Env (Port L) γ) where
  sent : γ → Bytes
  received : γ → Bytes
  read : ∀ {g n b h}, env g (.recv n) (.ok b) h → received h = received g ++ b.val ∧ sent h = sent g
  unread : ∀ {g n fault h}, env g (.recv n) (.error fault) h → received h = received g ∧ sent h = sent g
  wrote : ∀ {g b r h}, env g (.send b) r h → received h = received g ∧ sent h = sent g ++ b
  here : ∀ {g c r h}, env g (.here c) r h → received h = received g ∧ sent h = sent g

def Ledger.first {L : Signature} {γ δ : Type} {env : Env (Port L) γ} (ledger : Ledger env)
    (other : Env (Port L) δ) : Ledger (joint env other) where
  sent g := ledger.sent g.1
  received g := ledger.received g.1
  read answered := ledger.read answered.1
  unread answered := ledger.unread answered.1
  wrote answered := ledger.wrote answered.1
  here answered := ledger.here answered.1

def Ledger.second {L : Signature} {γ δ : Type} {env : Env (Port L) γ} (ledger : Ledger env)
    (other : Env (Port L) δ) : Ledger (joint other env) where
  sent g := ledger.sent g.2
  received g := ledger.received g.2
  read answered := ledger.read answered.2
  unread answered := ledger.unread answered.2
  wrote answered := ledger.wrote answered.2
  here answered := ledger.here answered.2

structure Written where
  byLeft : Bytes
  byRight : Bytes

section
variable {L : Signature} {α β γ δ : Type} {envLeft : Env (Port L) γ} {envRight : Env (Port L) δ}

def onLeft (ledger : Ledger envLeft) : Env (Port L) (Written × γ) := fun s c r t =>
  envLeft s.2 c r t.2 ∧ ledger.received t.2 <+: s.1.byRight ∧ t.1 = ⟨ledger.sent t.2,s.1.byRight⟩

def onRight (ledger : Ledger envRight) : Env (Port L) (Written × δ) := fun s c r t =>
  envRight s.2 c r t.2 ∧ ledger.received t.2 <+: s.1.byLeft ∧ t.1 = ⟨s.1.byLeft,ledger.sent t.2⟩

abbrev Run (left : Ledger envLeft) (right : Ledger envRight) :=
  Pair.Run (α := α) (β := β) (onLeft left) (onRight right)

variable {left : Ledger envLeft} {right : Ledger envRight}

theorem ledgerGrows (ledger : Ledger envLeft) {g h : γ} {c : (Port L).Call} {r : (Port L).Ret c}
    (answered : envLeft g c r h) :
    ledger.received g <+: ledger.received h ∧ ledger.sent g <+: ledger.sent h := by
  cases c with
  | recv n =>
    cases r with
    | error fault =>
      obtain ⟨received,sent⟩ := ledger.unread answered
      rw [received,sent]
      exact ⟨List.prefix_refl _,List.prefix_refl _⟩
    | ok b =>
      obtain ⟨received,sent⟩ := ledger.read answered
      rw [received,sent]
      exact ⟨List.prefix_append _ _,List.prefix_refl _⟩
  | send b =>
    obtain ⟨received,sent⟩ := ledger.wrote answered
    rw [received,sent]
    exact ⟨List.prefix_refl _,List.prefix_append _ _⟩
  | here c =>
    obtain ⟨received,sent⟩ := ledger.here answered
    rw [received,sent]
    exact ⟨List.prefix_refl _,List.prefix_refl _⟩

theorem ledgerRan (ledger : Ledger envLeft) {p q : Program (Port L) α} {g h : γ}
    (ran : Reaches envLeft p g q h) : ledger.received g <+: ledger.received h := by
  induction ran with
  | here p g => exact List.prefix_refl _
  | answer answered later ih => exact (ledgerGrows ledger answered).1.trans ih

def meeting (left : Ledger envLeft) (right : Ledger envRight) (p : Member (Port L) α γ)
    (q : Member (Port L) β δ) : Pair (Port L) α β Written γ δ :=
  ⟨⟨left.sent p.notes,right.sent q.notes⟩,p,q⟩

structure Views (left : Ledger envLeft) (right : Ledger envRight)
    (first last : Pair (Port L) α β Written γ δ) : Prop where
  left_ : Reaches envLeft first.left.program first.left.notes last.left.program last.left.notes
  right_ : Reaches envRight first.right.program first.right.notes last.right.program last.right.notes
  byLeft : last.shared.byLeft = left.sent last.left.notes
  byRight : last.shared.byRight = right.sent last.right.notes
  toLeft : left.received last.left.notes <+: right.sent last.right.notes
  toRight : right.received last.right.notes <+: left.sent last.left.notes

theorem stepViews {first middle last : Pair (Port L) α β Written γ δ} (seen : Views left right first middle)
    (step : Pair.Step (onLeft left) (onRight right) middle last) : Views left right first last := by
  cases step with
  | left answered =>
    obtain ⟨answered,within,wrote⟩ := answered
    obtain ⟨leftRan,rightRan,byLeft,byRight,toLeft,toRight⟩ := seen
    dsimp only at byRight answered within wrote
    subst wrote
    rw [byRight] at within
    exact ⟨reachesTrans leftRan (.answer answered (.here _ _)),rightRan,rfl,byRight,within,
      toRight.trans (ledgerGrows left answered).2⟩
  | right answered =>
    obtain ⟨answered,within,wrote⟩ := answered
    obtain ⟨leftRan,rightRan,byLeft,byRight,toLeft,toRight⟩ := seen
    dsimp only at byLeft answered within wrote
    subst wrote
    rw [byLeft] at within
    exact ⟨leftRan,reachesTrans rightRan (.answer answered (.here _ _)),byLeft,rfl,
      toLeft.trans (ledgerGrows right answered).2,within⟩

theorem runViews {p : Member (Port L) α γ} {q : Member (Port L) β δ} {last : Pair (Port L) α β Written γ δ}
    (ran : Run left right (meeting left right p q) last) (leftFresh : left.received p.notes = [])
    (rightFresh : right.received q.notes = []) : Views left right (meeting left right p q) last := by
  induction ran with
  | refl =>
    refine ⟨.here _ _,.here _ _,rfl,rfl,?_,?_⟩
    · dsimp only [meeting]
      rw [leftFresh]
      exact List.nil_prefix
    · dsimp only [meeting]
      rw [rightFresh]
      exact List.nil_prefix
  | tail _ step ih => exact stepViews ih step

theorem leftMoves {p q : Program (Port L) α} {m : Member (Port L) β δ} {g h : γ} {b : Bytes}
    (ran : Reaches envLeft p g q h) (within : left.received h <+: b) :
    Run left right ⟨⟨left.sent g,b⟩,⟨p,g⟩,m⟩ ⟨⟨left.sent h,b⟩,⟨q,h⟩,m⟩ := by
  suffices reached : Reaches (onLeft left) p (⟨left.sent g,b⟩,g) q (⟨left.sent h,b⟩,h) from
    leftRuns reached
  induction ran with
  | here p g => exact .here _ _
  | answer answered later ih =>
    exact .answer ⟨answered,(ledgerRan left later).trans within,rfl⟩ (ih within)

theorem rightMoves {p q : Program (Port L) β} {m : Member (Port L) α γ} {g h : δ} {b : Bytes}
    (ran : Reaches envRight p g q h) (within : right.received h <+: b) :
    Run left right ⟨⟨b,right.sent g⟩,m,⟨p,g⟩⟩ ⟨⟨b,right.sent h⟩,m,⟨q,h⟩⟩ := by
  suffices reached : Reaches (onRight right) p (⟨b,right.sent g⟩,g) q (⟨b,right.sent h⟩,h) from
    rightRuns reached
  induction ran with
  | here p g => exact .here _ _
  | answer answered later ih =>
    exact .answer ⟨answered,(ledgerRan right later).trans within,rfl⟩ (ih within)

theorem turn {p q : Program (Port L) α} {m n : Program (Port L) β} {g h : γ} {k l : δ}
    (asks : Reaches envLeft p g q h) (answers : Reaches envRight m k n l)
    (heard : left.received h <+: right.sent k) (took : right.received l <+: left.sent h) :
    Run left right ⟨⟨left.sent g,right.sent k⟩,⟨p,g⟩,⟨m,k⟩⟩ ⟨⟨left.sent h,right.sent l⟩,⟨q,h⟩,⟨n,l⟩⟩ :=
  (leftMoves asks heard).trans (rightMoves answers took)

end

end RDrive.Lossy
