import Mathlib.Data.List.Rotate
import Mathlib.Data.List.Sort

/-! The last values of a stream, kept in a ring, and the values at a rank of a sorted list. -/
namespace RDrive.Window
variable {α : Type}

/- The ring has a place for each count, which comes round again. -/
def record (ring : List α) (count : Nat) (x : α) : List α := ring.set (count % ring.length) x

def last (size : Nat) (stream : List α) : List α := stream.drop (stream.length - size)

/- What the ring holds of a stream: its beginning, until it is full, and then its end,
the oldest value where the next one goes. -/
structure Holds (size : Nat) (ring stream : List α) : Prop where
  places : ring.length = size
  filling : stream.length ≤ size → ring.take stream.length = stream
  full : size ≤ stream.length → ring.rotate (stream.length % size) = last size stream

section
variable {size : Nat} {ring stream : List α} {x : α}

theorem holdsNothing (ring : List α) : Holds ring.length ring [] := by
  refine ⟨rfl,fun _ => rfl,fun none_ => ?_⟩
  rw [List.length_eq_zero_iff.mp (Nat.le_zero.mp none_)]
  rfl

theorem lastNext (positive : 0 < size) (full : size ≤ stream.length) :
    last size (stream ++ [x]) = (last size stream).tail ++ [x] := by
  have places : (stream ++ [x]).length - size = stream.length - size + 1 := by
    rw [List.length_append,List.length_singleton]
    omega
  rw [last,places,List.drop_append_of_le_length (by omega),last,List.tail_drop]

theorem rotateRecord {i : Nat} (inside : i < ring.length) :
    (ring.set i x).rotate ((i + 1) % ring.length) = (ring.rotate i).tail ++ [x] := by
  have front : (ring.set i x).take (i + 1) = ring.take i ++ [x] := by
    rw [List.take_add_one,List.take_set_of_le (Nat.le_refl i),List.getElem?_set_self inside]
    rfl
  have back : (ring.set i x).drop (i + 1) = ring.drop (i + 1) := List.drop_set_of_lt (Nat.lt_succ_self i)
  have turned : (ring.rotate i).tail = ring.drop (i + 1) ++ ring.take i := by
    rw [List.rotate_eq_drop_append_take (Nat.le_of_lt inside),List.drop_eq_getElem_cons inside]
    rfl
  rw [turned]
  rcases Nat.lt_or_eq_of_le (show i + 1 ≤ ring.length from inside) with more | whole
  · rw [Nat.mod_eq_of_lt more,List.rotate_eq_drop_append_take (by rw [List.length_set]; omega),back,front,
      List.append_assoc]
  · have all : (ring.set i x).take (i + 1) = ring.set i x :=
      List.take_of_length_le (by rw [List.length_set]; omega)
    rw [whole,Nat.mod_self,List.rotate_zero,List.drop_length,List.nil_append,← front,all]

theorem recordHolds (positive : 0 < size) (holds : Holds size ring stream) (x : α) :
    Holds size (record ring stream.length x) (stream ++ [x]) := by
  have place : stream.length % size < size := Nat.mod_lt _ positive
  unfold record
  rw [holds.places]
  refine ⟨by rw [List.length_set,holds.places],fun room => ?_,fun full => ?_⟩
  · rw [List.length_append,List.length_singleton] at room ⊢
    have here : stream.length % size = stream.length := Nat.mod_eq_of_lt (by omega)
    rw [here,List.take_add_one,List.take_set_of_le (Nat.le_refl _),holds.filling (by omega),
      List.getElem?_set_self (by rw [holds.places]; omega)]
    rfl
  · have turn := rotateRecord (x := x) (i := stream.length % size) (by rw [holds.places]; exact place)
    rw [List.length_append,List.length_singleton,← Nat.mod_add_mod,← holds.places]
    rw [holds.places] at turn ⊢
    rw [turn]
    rcases Nat.lt_or_ge stream.length size with filling | past
    · -- the ring has just become full
      have exactly : size = stream.length + 1 := by
        rw [List.length_append,List.length_singleton] at full
        omega
      have here : stream.length % size = stream.length := Nat.mod_eq_of_lt filling
      rw [here,List.rotate_eq_drop_append_take (by rw [holds.places]; omega),holds.filling (by omega)]
      have one : (ring.drop stream.length).length = 1 := by
        rw [List.length_drop,holds.places]
        omega
      obtain ⟨y,only⟩ := List.length_eq_one_iff.mp one
      rw [only,last,exactly,List.length_append,List.length_singleton,Nat.sub_self]
      rfl
    · rw [holds.full past,lastNext positive past]

theorem heldPerm (holds : Holds size ring stream) :
    (ring.take (min stream.length size)).Perm (last size stream) := by
  rcases Nat.le_total stream.length size with filling | full
  · rw [Nat.min_eq_left filling,holds.filling filling,last,Nat.sub_eq_zero_of_le filling]
    exact .refl _
  · rw [Nat.min_eq_right full,← holds.full full,← holds.places,List.take_length]
    exact (List.rotate_perm _ _).symm

end

/- A value of a list below which, and from which on, so many others are. -/
structure Rank [LinearOrder α] (i : Nat) (l : List α) (x : α) : Prop where
  member : x ∈ l
  below : i < l.countP (fun y => y ≤ x)
  above : l.length - i ≤ l.countP (fun y => x ≤ y)

section
variable [LinearOrder α] {l : List α} {i j : Nat} {x y : α}

theorem sortedRank (found : (l.mergeSort fun a b => a ≤ b)[i]? = some x) : Rank i l x := by
  have sorted := (List.sortedLE_mergeSort (l := l)).pairwise
  obtain ⟨inside,here⟩ := List.getElem?_eq_some_iff.mp found
  have same := List.mergeSort_perm l fun a b => a ≤ b
  refine ⟨same.mem_iff.mp (List.mem_of_getElem? found),?_,?_⟩
  · rw [← same.countP_eq,← List.take_append_drop (i + 1) (l.mergeSort _),List.countP_append]
    have all : ((l.mergeSort fun a b => a ≤ b).take (i + 1)).countP (fun y => y ≤ x) = i + 1 := by
      rw [List.countP_eq_length.mpr,List.length_take,Nat.min_eq_left inside]
      intro y member
      obtain ⟨k,within,rfl⟩ := List.mem_take_iff_getElem.mp member
      rw [decide_eq_true_eq,← here]
      rcases Nat.lt_or_eq_of_le (Nat.le_of_lt_succ (Nat.lt_of_lt_of_le within (Nat.min_le_left _ _))) with
        before | at_
      · exact List.pairwise_iff_getElem.mp sorted k i _ inside before
      · subst at_
        exact le_refl _
    omega
  · rw [← same.countP_eq,← List.take_append_drop i (l.mergeSort _),List.countP_append]
    have all : ((l.mergeSort fun a b => a ≤ b).drop i).countP (fun y => x ≤ y) = l.length - i := by
      rw [List.countP_eq_length.mpr,List.length_drop,List.length_mergeSort]
      intro y member
      obtain ⟨k,within,rfl⟩ := List.mem_drop_iff_getElem.mp member
      rw [decide_eq_true_eq,← here]
      rcases Nat.eq_zero_or_pos k with rfl | past
      · exact le_refl _
      · exact List.pairwise_iff_getElem.mp sorted i (i + k) inside _ (by omega)
    omega

theorem sortedMonotone (low : (l.mergeSort fun a b => a ≤ b)[i]? = some x)
    (high : (l.mergeSort fun a b => a ≤ b)[j]? = some y) (order : i ≤ j) : x ≤ y := by
  have sorted := (List.sortedLE_mergeSort (l := l)).pairwise
  obtain ⟨inside,rfl⟩ := List.getElem?_eq_some_iff.mp low
  obtain ⟨within,rfl⟩ := List.getElem?_eq_some_iff.mp high
  rcases Nat.lt_or_eq_of_le order with before | rfl
  · exact List.pairwise_iff_getElem.mp sorted i j inside within before
  · exact le_refl _

end
end RDrive.Window
