import Mathlib.Algebra.Ring.Nat
import Mathlib.Data.List.Basic

/-! Fallible computations that may also panic, and the slice operations whose
out-of-range or mismatched uses are the panics. Bytes are plain lists. -/
namespace RDrive

abbrev Bytes := List UInt8

inductive Outcome (α : Type) where
  | ok (value : α)
  | err (message : String)
  | panic
  deriving DecidableEq, Repr

namespace Outcome
variable {α β : Type}

def andThen (x : Outcome α) (f : α → Outcome β) : Outcome β :=
  match x with
  | .ok a => f a
  | .err message => .err message
  | .panic => .panic

instance : Monad Outcome where
  pure := .ok
  bind := andThen

@[simp] theorem bindOk (a : α) (f : α → Outcome β) : (Outcome.ok a >>= f) = f a := rfl
@[simp] theorem bindErr (message) (f : α → Outcome β) :
    (Outcome.err message >>= f) = .err message := rfl
@[simp] theorem bindPanic (f : α → Outcome β) : (Outcome.panic >>= f) = .panic := rfl
@[simp] theorem pureOk (a : α) : (pure a : Outcome α) = .ok a := rfl

theorem bindIsOk {x : Outcome α} {f : α → Outcome β} {b : β} :
    (x >>= f) = .ok b ↔ ∃ a, x = .ok a ∧ f a = .ok b := by
  cases x with
  | ok a => simp
  | err message => simp
  | panic => simp

def ofOption (message : String) : Option α → Outcome α
  | some a => .ok a
  | none => .err message

theorem ofOptionIsOk {message : String} {x : Option α} {a : α} :
    ofOption message x = .ok a ↔ x = some a := by
  cases x <;> simp [ofOption]

end Outcome

namespace Bytes

def slice (b : Bytes) (first last : Nat) : Outcome Bytes :=
  if first ≤ last ∧ last ≤ b.length then .ok ((b.take last).drop first) else .panic

def splitAt (b : Bytes) (mid : Nat) : Outcome (Bytes × Bytes) :=
  if mid ≤ b.length then .ok (b.take mid,b.drop mid) else .panic

def copyFromSlice (dst src : Bytes) : Outcome Bytes :=
  if dst.length = src.length then .ok src else .panic

def index (b : Bytes) (i : Nat) : Outcome UInt8 :=
  match b[i]? with
  | some byte => .ok byte
  | none => .panic

/- buf[first..last].copy_from_slice(src) -/
def copyInto (buf : Bytes) (first last : Nat) (src : Bytes) : Outcome Bytes :=
  if first ≤ last ∧ last ≤ buf.length ∧ src.length = last - first then
    .ok (buf.take first ++ src ++ buf.drop last)
  else .panic

theorem copyIntoOk {buf src : Bytes} {first last : Nat} (order : first ≤ last)
    (inside : last ≤ buf.length) (size : src.length = last - first) :
    copyInto buf first last src = .ok (buf.take first ++ src ++ buf.drop last) :=
  if_pos ⟨order,inside,size⟩

theorem copyIntoFill (front : Bytes) (blank : UInt8) (n first last : Nat) {src : Bytes}
    (before : front.length ≤ first) (order : first ≤ last) (inside : last ≤ front.length + n)
    (size : src.length = last - first) :
    copyInto (front ++ List.replicate n blank) first last src =
      .ok (front ++ List.replicate (first - front.length) blank ++ src ++
        List.replicate (front.length + n - last) blank) := by
  rw [copyIntoOk order (by simpa using inside) size,List.take_append,List.drop_append,
    List.take_of_length_le before,List.drop_of_length_le (by omega),List.take_replicate,
    List.drop_replicate,Nat.min_eq_left (by omega),List.nil_append]
  congr 3
  omega

theorem copyNext (front : Bytes) (blank : UInt8) {n first last : Nat} {src : Bytes}
    (here : front.length = first) (size : first + src.length = last) (room : src.length ≤ n) :
    copyInto (front ++ List.replicate n blank) first last src =
      .ok (front ++ src ++ List.replicate (n - src.length) blank) := by
  subst here size
  have filled := copyIntoFill front blank n front.length (front.length + src.length) (Nat.le_refl _)
    (by omega) (by omega) (Nat.add_sub_cancel_left _ _).symm
  have rest : front.length + n - (front.length + src.length) = n - src.length := by omega
  rwa [Nat.sub_self,List.replicate_zero,List.append_nil,rest] at filled

theorem copyThree {a b c : Bytes} {i j k : Nat} (first : a.length = i) (second : i + b.length = j)
    (third : j + c.length = k) (blank : UInt8) :
    (do let buf ← copyInto (List.replicate k blank) 0 i a
        let buf ← copyInto buf i j b
        copyInto buf j k c) = .ok (a ++ b ++ c) := by
  subst first
  have one : copyInto (List.replicate k blank) 0 a.length a =
      .ok (a ++ List.replicate (k - a.length) blank) := by
    simpa using copyNext [] blank rfl (Nat.zero_add _) (by omega : a.length ≤ k)
  have two : copyInto (a ++ List.replicate (k - a.length) blank) a.length j b =
      .ok (a ++ b ++ List.replicate (k - a.length - b.length) blank) :=
    copyNext a blank rfl second (by omega)
  have three : copyInto (a ++ b ++ List.replicate (k - a.length - b.length) blank) j k c =
      .ok (a ++ b ++ c ++ List.replicate (k - a.length - b.length - c.length) blank) :=
    copyNext (a ++ b) blank (by rw [List.length_append]; omega) third (by omega)
  have full : k - a.length - b.length - c.length = 0 := by omega
  rw [full,List.replicate_zero,List.append_nil] at three
  simp only [one,two,three,Outcome.bindOk]

theorem copyFour {a b c d : Bytes} {i j k l : Nat} (first : a.length = i)
    (second : i + b.length = j) (third : j + c.length = k) (fourth : k + d.length = l)
    (blank : UInt8) :
    (do let buf ← copyInto (List.replicate l blank) 0 i a
        let buf ← copyInto buf i j b
        let buf ← copyInto buf j k c
        copyInto buf k l d) = .ok (a ++ b ++ c ++ d) := by
  subst first
  have one : copyInto (List.replicate l blank) 0 a.length a =
      .ok (a ++ List.replicate (l - a.length) blank) := by
    simpa using copyNext [] blank rfl (Nat.zero_add _) (by omega : a.length ≤ l)
  have two : copyInto (a ++ List.replicate (l - a.length) blank) a.length j b =
      .ok (a ++ b ++ List.replicate (l - a.length - b.length) blank) :=
    copyNext a blank rfl second (by omega)
  have three : copyInto (a ++ b ++ List.replicate (l - a.length - b.length) blank) j k c =
      .ok (a ++ b ++ c ++ List.replicate (l - a.length - b.length - c.length) blank) :=
    copyNext (a ++ b) blank (by rw [List.length_append]; omega) third (by omega)
  have four : copyInto (a ++ b ++ c ++ List.replicate (l - a.length - b.length - c.length) blank)
      k l d = .ok (a ++ b ++ c ++ d ++
        List.replicate (l - a.length - b.length - c.length - d.length) blank) :=
    copyNext (a ++ b ++ c) blank (by rw [List.length_append,List.length_append]; omega) fourth
      (by omega)
  have full : l - a.length - b.length - c.length - d.length = 0 := by omega
  rw [full,List.replicate_zero,List.append_nil] at four
  simp only [one,two,three,four,Outcome.bindOk]

theorem sliceOk {b : Bytes} {first last : Nat} (order : first ≤ last) (inside : last ≤ b.length) :
    slice b first last = .ok ((b.take last).drop first) := if_pos ⟨order,inside⟩

theorem sliceParts {b part : Bytes} {first last : Nat} (h : slice b first last = .ok part) :
    part = (b.take last).drop first ∧ part.length = last - first := by
  unfold slice at h
  split at h <;> try contradiction
  rename_i inside
  cases Outcome.ok.inj h
  refine ⟨rfl,?_⟩
  rw [List.length_drop,List.length_take,Nat.min_eq_left inside.2]

theorem splitAtOk {b : Bytes} {mid : Nat} (inside : mid ≤ b.length) :
    splitAt b mid = .ok (b.take mid,b.drop mid) := if_pos inside

theorem splitAtPanics {b : Bytes} {mid : Nat} (beyond : b.length < mid) :
    splitAt b mid = .panic := if_neg (Nat.not_le.mpr beyond)

theorem frontTaken {b : Bytes} {n : Nat} (enough : ¬ b.length < n) :
    ∃ front rest, front.length = n ∧ b = front ++ rest :=
  ⟨b.take n,b.drop n,List.length_take_of_le (Nat.not_lt.mp enough),(List.take_append_drop n b).symm⟩

theorem copyOk {dst src : Bytes} (same : dst.length = src.length) :
    copyFromSlice dst src = .ok src := if_pos same

theorem copyPanics {dst src : Bytes} (different : dst.length ≠ src.length) :
    copyFromSlice dst src = .panic := if_neg different

/- A read that fills its whole buffer, as far as the stream still has the bytes. -/
def readExact (stream : Bytes) (n : Nat) : Outcome (Bytes × Bytes) :=
  if n ≤ stream.length then .ok (stream.take n,stream.drop n) else .err "early eof"

theorem readExactAppend {front rest : Bytes} {n : Nat} (size : front.length = n) :
    readExact (front ++ rest) n = .ok (front,rest) := by
  subst size
  unfold readExact
  rw [if_pos (by simp),List.take_left,List.drop_left]

theorem readExactIsOk {stream front rest : Bytes} {n : Nat} : readExact stream n = .ok (front,rest) ↔
    n ≤ stream.length ∧ front = stream.take n ∧ rest = stream.drop n := by
  unfold readExact
  split
  · rename_i enough
    rw [Outcome.ok.injEq,Prod.mk.injEq]
    constructor
    · rintro ⟨rfl,rfl⟩
      exact ⟨enough,rfl,rfl⟩
    · rintro ⟨-,rfl,rfl⟩
      exact ⟨rfl,rfl⟩
  · rename_i missing
    constructor
    · intro refused
      contradiction
    · exact fun parts => absurd parts.1 missing

theorem readExactParts {stream front rest : Bytes} {n : Nat}
    (h : readExact stream n = .ok (front,rest)) : stream = front ++ rest ∧ front.length = n := by
  unfold readExact at h
  split at h
  · rename_i enough
    simp only [Outcome.ok.injEq,Prod.mk.injEq] at h
    obtain ⟨rfl,rfl⟩ := h
    exact ⟨(List.take_append_drop n stream).symm,by simp [enough]⟩
  · contradiction

end Bytes

/-! A byte stream as a transport delivers it, in pieces of any size. A read that
fills its buffer takes whole pieces and leaves the rest of the last one; what it
gets does not depend on where the pieces end. -/
namespace Segments

def readExact : List Bytes → Nat → Outcome (Bytes × List Bytes)
  | segments, 0 => .ok ([],segments)
  | [], _ + 1 => .err "early eof"
  | piece :: rest, n + 1 =>
    if n + 1 < piece.length then .ok (piece.take (n + 1),piece.drop (n + 1) :: rest)
    else do
      let (more,rest) ← readExact rest (n + 1 - piece.length)
      .ok (piece ++ more,rest)

def joined : Bytes × List Bytes → Bytes × Bytes
  | (front,rest) => (front,rest.flatten)

theorem readExactJoined (segments : List Bytes) (n : Nat) :
    (do let got ← readExact segments n; .ok (joined got)) = Bytes.readExact segments.flatten n := by
  induction segments generalizing n with
  | nil => cases n <;> rfl
  | cons piece rest ih =>
    cases n with
    | zero => simp [readExact,Bytes.readExact,joined]
    | succ n =>
      unfold readExact
      split
      · rename_i short
        have enough : n + 1 ≤ (piece ++ rest.flatten).length := by
          rw [List.length_append]
          omega
        rw [List.flatten_cons,Bytes.readExact,if_pos enough,
          List.take_append_of_le_length (by omega),List.drop_append_of_le_length (by omega)]
        rfl
      · rename_i long
        have later := ih (n + 1 - piece.length)
        rw [List.flatten_cons]
        cases got : readExact rest (n + 1 - piece.length) with
        | ok found =>
          obtain ⟨more,left⟩ := found
          simp only [got,Outcome.bindOk,joined] at later
          obtain ⟨parts,size⟩ := Bytes.readExactParts later.symm
          have whole : (piece ++ more).length = n + 1 := by
            rw [List.length_append]
            omega
          rw [parts,← List.append_assoc,Bytes.readExactAppend whole]
          rfl
        | err message =>
          simp only [got,Outcome.bindErr] at later
          unfold Bytes.readExact at later ⊢
          split at later <;> try contradiction
          rename_i missing
          rw [if_neg (by rw [List.length_append]; omega)]
          exact later
        | panic =>
          simp only [got,Outcome.bindPanic] at later
          unfold Bytes.readExact at later
          split at later <;> contradiction

end Segments
end RDrive
