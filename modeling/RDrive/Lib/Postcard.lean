import RDrive.Lib.Outcome

/-! The postcard wire format, as far as derived serializers of plain structs and
enums use it: varint integers of a fixed width, length-prefixed UTF-8 strings,
bare bytes and arrays. A reader gives the value and the bytes after it; reading
a whole message ignores what is left. -/
namespace RDrive.Postcard

abbrev Reader (α : Type) := Bytes → Option (α × Bytes)

def fromBytes {α : Type} (read : Reader α) (message : Bytes) : Option α :=
  (read message).map Prod.fst

theorem fromBytesOf {α : Type} {read : Reader α} {message rest : Bytes} {value : α}
    (h : read message = some (value,rest)) : fromBytes read message = some value := by
  simp [fromBytes,h]

def andThen {α β : Type} (first : Reader α) (second : α → Reader β) : Reader β :=
  fun b => (first b).bind (fun found => second found.1 found.2)

def yield {α : Type} (value : α) : Reader α := fun b => some (value,b)

theorem andThenOf {α β : Type} {first : Reader α} {second : α → Reader β}
    {b middle : Bytes} {a : α} (h : first b = some (a,middle)) :
    andThen first second b = second a middle := by
  simp [andThen,h]

theorem andThenIs {α β : Type} {first : Reader α} {second : α → Reader β} {b : Bytes}
    {found : β × Bytes} : andThen first second b = some found ↔
      ∃ a middle, first b = some (a,middle) ∧ second a middle = some found := by
  simp [andThen,Option.bind_eq_some_iff]

def varint (n : Nat) : Bytes :=
  if n < 128 then [n.toUInt8] else (n % 128 + 128).toUInt8 :: varint (n / 128)
termination_by n
decreasing_by omega

/- At most `left` bytes; the last of them may not exceed `lastMax`. -/
def takeVarint (left lastMax : Nat) : Reader Nat
  | [] => none
  | b :: rest =>
    match left with
    | 0 => none
    | left + 1 =>
      if b.toNat < 128 then
        if left = 0 ∧ lastMax < b.toNat then none else some (b.toNat,rest)
      else (takeVarint left lastMax rest).map (fun found => (b.toNat - 128 + 128 * found.1,found.2))

def readU32 : Reader Nat := takeVarint 5 15
def readU64 : Reader Nat := takeVarint 10 1
def readU128 : Reader Nat := takeVarint 19 3
def readU16 : Reader Nat := takeVarint 3 3

theorem byteValue {n : Nat} (small : n < 256) : n.toUInt8.toNat = n := by
  simp [Nat.mod_eq_of_lt small]

theorem varintRead {left lastMax n : Nat} (lastSmall : lastMax < 128)
    (fits : n < 128 ^ left * (lastMax + 1)) (rest : Bytes) :
    takeVarint (left + 1) lastMax (varint n ++ rest) = some (n,rest) := by
  induction left generalizing n with
  | zero =>
    have bound : n < lastMax + 1 := by simpa using fits
    have single : n < 128 := by omega
    rw [varint,if_pos single]
    simp only [List.cons_append,List.nil_append,takeVarint,byteValue (by omega : n < 256)]
    rw [if_pos single,if_neg (by omega)]
  | succ left ih =>
    rw [varint]
    split
    · rename_i single
      simp only [List.cons_append,List.nil_append,takeVarint,byteValue (by omega : n < 256)]
      rw [if_pos single,if_neg (by omega)]
    · have smaller : n / 128 < 128 ^ left * (lastMax + 1) := by
        rw [Nat.div_lt_iff_lt_mul (by decide)]
        calc n < 128 ^ (left + 1) * (lastMax + 1) := fits
          _ = 128 ^ left * (lastMax + 1) * 128 := by
            rw [Nat.pow_succ,Nat.mul_right_comm]
      have high := byteValue (by omega : n % 128 + 128 < 256)
      rw [List.cons_append,takeVarint,ih smaller]
      simp only [high]
      rw [if_neg (by omega)]
      simp only [Option.map_some,Option.some.injEq,Prod.mk.injEq,and_true]
      omega

theorem varintLength {k n : Nat} (fits : n < 128 ^ (k + 1)) : (varint n).length ≤ k + 1 := by
  induction k generalizing n with
  | zero => rw [varint,if_pos (by simpa using fits)]; simp
  | succ k ih =>
    rw [varint]
    split
    · simp
    · have smaller : n / 128 < 128 ^ (k + 1) := by
        rw [Nat.div_lt_iff_lt_mul (by decide),← Nat.pow_succ]
        exact fits
      simpa using ih smaller

theorem varintNonempty (n : Nat) : 1 ≤ (varint n).length := by
  rw [varint]
  split <;> simp

theorem varintShortest {left lastMax n : Nat} {b rest : Bytes}
    (read : takeVarint left lastMax b = some (n,rest)) : (varint n).length + rest.length ≤ b.length := by
  induction b generalizing left n with
  | nil => simp [takeVarint] at read
  | cons byte tail ih =>
    rw [takeVarint.eq_def] at read
    simp only [] at read
    split at read <;> try contradiction
    split at read
    · rename_i single
      split at read <;> try contradiction
      cases Option.some.inj read
      rw [varint,if_pos single,List.length_cons,List.length_cons,List.length_nil]
      omega
    · rename_i more
      obtain ⟨found,later,same⟩ := Option.map_eq_some_iff.mp read
      cases same
      have shorter := ih later
      have some_ := varintNonempty found.1
      rw [varint,List.length_cons]
      split
      · rw [List.length_cons,List.length_nil]
        omega
      · have size := byte.toNat_lt
        have high : (byte.toNat - 128 + 128 * found.1) / 128 = found.1 := by omega
        rw [List.length_cons,high]
        omega

theorem varintBound {left lastMax n : Nat} {b rest : Bytes}
    (read : takeVarint (left + 1) lastMax b = some (n,rest)) : n < 128 ^ left * (lastMax + 1) := by
  induction b generalizing left n with
  | nil => simp [takeVarint] at read
  | cons byte tail ih =>
    rw [takeVarint] at read
    split at read
    · rename_i single
      split at read <;> try contradiction
      rename_i allowed
      cases Option.some.inj read
      cases left with
      | zero =>
        rw [Nat.pow_zero,Nat.one_mul]
        omega
      | succ left =>
        have one := Nat.pow_pos (n := left) (by decide : 0 < 128)
        calc byte.toNat < 128 := single
          _ ≤ 128 ^ (left + 1) := by
            rw [Nat.pow_succ]
            omega
          _ ≤ 128 ^ (left + 1) * (lastMax + 1) := Nat.le_mul_of_pos_right _ (Nat.succ_pos _)
    · obtain ⟨found,later,same⟩ := Option.map_eq_some_iff.mp read
      cases same
      cases left with
      | zero =>
        unfold takeVarint at later
        split at later <;> contradiction
      | succ left =>
        have bound := ih later
        have size := byte.toNat_lt
        rw [Nat.pow_succ,Nat.mul_right_comm]
        omega

theorem u64Read (n : UInt64) (rest : Bytes) :
    readU64 (varint n.toNat ++ rest) = some (n.toNat,rest) :=
  varintRead (by decide) (by have := n.toNat_lt; omega) rest

def utf8 (s : String) : Bytes := s.toByteArray.data.toList

def fromUtf8 (b : Bytes) : Option String := String.fromUTF8? b.toByteArray

theorem utf8Length (s : String) : (utf8 s).length = s.utf8ByteSize := rfl

theorem fromUtf8Of (s : String) : fromUtf8 (utf8 s) = some s := by
  have same : (utf8 s).toByteArray = s.toByteArray := by
    apply ByteArray.ext
    simp [utf8,List.data_toByteArray]
  rw [fromUtf8,same,String.fromUTF8?,dif_pos s.isValidUTF8]
  rfl

theorem utf8Injective {a b : String} (same : utf8 a = utf8 b) : a = b := by
  have read := congrArg fromUtf8 same
  rw [fromUtf8Of,fromUtf8Of] at read
  exact Option.some.inj read

def string (s : String) : Bytes := varint (utf8 s).length ++ utf8 s

def take (n : Nat) : Reader Bytes := fun b =>
  if n ≤ b.length then some (b.take n,b.drop n) else none

theorem takeOf {n : Nat} {front : Bytes} (size : front.length = n) (rest : Bytes) :
    take n (front ++ rest) = some (front,rest) := by
  subst size
  rw [take,if_pos (by simp),List.take_left,List.drop_left]

def readString : Reader String :=
  andThen readU64 fun n => andThen (take n) fun raw b => (fromUtf8 raw).map (fun s => (s,b))

theorem stringRead {s : String} (fits : (utf8 s).length < 2 ^ 64) (rest : Bytes) :
    readString (string s ++ rest) = some (s,rest) := by
  have size : readU64 (varint (utf8 s).length ++ (utf8 s ++ rest)) =
      some ((utf8 s).length,utf8 s ++ rest) := varintRead (by decide) (by omega) _
  rw [readString,string,List.append_assoc,andThenOf size,andThenOf (takeOf rfl rest),fromUtf8Of]
  rfl

theorem utf8OfFrom {b : Bytes} {s : String} (valid : fromUtf8 b = some s) : utf8 s = b := by
  unfold fromUtf8 String.fromUTF8? at valid
  split at valid <;> try contradiction
  cases Option.some.inj valid
  simp [utf8,String.fromUTF8]

theorem stringShortest {s : String} {b rest : Bytes} (read : readString b = some (s,rest)) :
    (string s).length + rest.length ≤ b.length := by
  obtain ⟨n,afterSize,size,read⟩ := andThenIs.mp read
  obtain ⟨raw,afterRaw,taken,read⟩ := andThenIs.mp read
  obtain ⟨text,valid,same⟩ := Option.map_eq_some_iff.mp read
  cases same
  have shorter := varintShortest size
  unfold take at taken
  split at taken <;> try contradiction
  rename_i enough
  cases Option.some.inj taken
  have length : (utf8 s).length = n := by
    rw [utf8OfFrom valid,List.length_take]
    omega
  rw [string,List.length_append,length,List.length_drop]
  omega

theorem stringLength (s : String) :
    (utf8 s).length < (string s).length ∧ (string s).length = (varint (utf8 s).length).length + (utf8 s).length := by
  have := varintNonempty (utf8 s).length
  simp [string]
  omega

def readByte : Reader UInt8
  | [] => none
  | b :: rest => some (b,rest)

/- An array travels as its bare bytes. -/
def readArray (n : Nat) : Reader {b : Bytes // b.length = n} := fun b =>
  if h : n ≤ b.length then some (⟨b.take n,by simp [h]⟩,b.drop n) else none

theorem arrayRead {n : Nat} (a : {b : Bytes // b.length = n}) (rest : Bytes) :
    readArray n (a.val ++ rest) = some (a,rest) := by
  have size := a.property
  unfold readArray
  rw [dif_pos (by simp [size])]
  simp [List.take_left' size,List.drop_left' size]

end RDrive.Postcard
