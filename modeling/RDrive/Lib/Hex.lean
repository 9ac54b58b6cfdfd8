import RDrive.Lib.Postcard

/-! Lower-case hex text of bytes, and where a string may be cut. A cut inside a
character is a panic, as it is for a string slice. -/
namespace RDrive.Hex
open Postcard (utf8)

def digit (n : Nat) : Char := if n < 10 then Char.ofNat (48 + n) else Char.ofNat (87 + n)

def encode (b : Bytes) : String :=
  String.ofList (b.flatMap (fun byte => [digit (byte.toNat / 16),digit (byte.toNat % 16)]))

def digitByte (n : Nat) : UInt8 := if n < 10 then (48 + n).toUInt8 else (87 + n).toUInt8

theorem digitUtf8 {n : Nat} (small : n < 16) : String.utf8EncodeChar (digit n) = [digitByte n] := by
  have all : ∀ i : Fin 16, String.utf8EncodeChar (digit i) = [digitByte i] := by decide
  exact all ⟨n,small⟩

theorem digitByteAscii {n : Nat} (small : n < 16) : digitByte n < 128 := by
  have all : ∀ i : Fin 16, digitByte i < 128 := by decide
  exact all ⟨n,small⟩

theorem digitByteInjective {n m : Nat} (hn : n < 16) (hm : m < 16)
    (same : digitByte n = digitByte m) : n = m := by
  have all : ∀ i j : Fin 16, digitByte i = digitByte j → i = j := by decide
  exact congrArg Fin.val (all ⟨n,hn⟩ ⟨m,hm⟩ same)

theorem utf8OfList (l : List Char) : utf8 (String.ofList l) = l.flatMap String.utf8EncodeChar := by
  simp [utf8,List.utf8Encode,List.data_toByteArray]

theorem encodeUtf8 (b : Bytes) :
    utf8 (encode b) = b.flatMap (fun byte =>
      [digitByte (byte.toNat / 16),digitByte (byte.toNat % 16)]) := by
  rw [encode,utf8OfList]
  induction b with
  | nil => rfl
  | cons byte rest ih =>
    have bound := byte.toNat_lt
    simp only [List.flatMap_cons,List.flatMap_append,List.flatMap_nil,List.append_nil]
    rw [digitUtf8 (by omega),digitUtf8 (by omega),ih]
    rfl

theorem encodeLength (b : Bytes) : (utf8 (encode b)).length = 2 * b.length := by
  rw [encodeUtf8]
  induction b with
  | nil => rfl
  | cons byte rest ih => simp [ih]; omega

theorem encodeAscii (b : Bytes) : ∀ byte ∈ utf8 (encode b), byte < 128 := by
  rw [encodeUtf8]
  intro byte member
  obtain ⟨source,-,digits⟩ := List.mem_flatMap.mp member
  have bound := source.toNat_lt
  rcases List.mem_pair.mp digits with rfl | rfl
  · exact digitByteAscii (by omega)
  · exact digitByteAscii (by omega)

theorem digitOther {n : Nat} (small : n < 16) : digit n ∉ ['/','.','\x00'] := by
  have all : ∀ i : Fin 16, digit i ∉ ['/','.','\x00'] := by decide
  exact all ⟨n,small⟩

theorem encodeOther {b : Bytes} {c : Char} (member : c ∈ (encode b).toList) : c ∉ ['/','.','\x00'] := by
  rw [encode,String.toList_ofList] at member
  obtain ⟨byte,-,digits⟩ := List.mem_flatMap.mp member
  have bound := byte.toNat_lt
  rcases List.mem_pair.mp digits with rfl | rfl
  · exact digitOther (by omega)
  · exact digitOther (by omega)

theorem encodeSome {b : Bytes} (some_ : b ≠ []) : ∃ c, c ∈ (encode b).toList := by
  obtain ⟨byte,rest,rfl⟩ := List.exists_cons_of_ne_nil some_
  exact ⟨digit (byte.toNat / 16),by simp [encode]⟩

theorem encodeInjective {a b : Bytes} (same : encode a = encode b) : a = b := by
  have bytes := congrArg utf8 same
  rw [encodeUtf8,encodeUtf8] at bytes
  clear same
  induction a generalizing b with
  | nil => cases b with
    | nil => rfl
    | cons byte rest => simp at bytes
  | cons x xs ih => cases b with
    | nil => simp at bytes
    | cons y ys =>
      simp only [List.flatMap_cons,List.cons_append,List.nil_append,List.cons.injEq] at bytes
      obtain ⟨high,low,rest⟩ := bytes
      have hx := x.toNat_lt
      have hy := y.toNat_lt
      have highs := digitByteInjective (by omega) (by omega) high
      have lows := digitByteInjective (by omega) (by omega) low
      have value : x.toNat = y.toNat := by omega
      rw [UInt8.toNat_inj.mp value,ih rest]

def digitValue (byte : UInt8) : Option Nat :=
  if 48 ≤ byte ∧ byte ≤ 57 then some (byte.toNat - 48)
  else if 65 ≤ byte ∧ byte ≤ 70 then some (byte.toNat - 55)
  else if 97 ≤ byte ∧ byte ≤ 102 then some (byte.toNat - 87)
  else none

def digitAt (index : Nat) (byte : UInt8) : Outcome Nat :=
  .ofOption s!"Invalid character {Char.quote (Char.ofNat byte.toNat)} at position {index}"
    (digitValue byte)

def decodeFrom (index : Nat) : Bytes → Outcome Bytes
  | high :: low :: rest => do
    let high ← digitAt index high
    let low ← digitAt (index + 1) low
    let rest ← decodeFrom (index + 2) rest
    .ok ((16 * high + low).toUInt8 :: rest)
  | _ => .ok []

def decode (s : String) : Outcome Bytes :=
  if (utf8 s).length % 2 ≠ 0 then .err "Odd number of digits" else decodeFrom 0 (utf8 s)

theorem digitRead {n : Nat} (small : n < 16) (index : Nat) : digitAt index (digitByte n) = .ok n := by
  have all : ∀ i : Fin 16, digitValue (digitByte i) = some i.val := by decide
  exact Outcome.ofOptionIsOk.mpr (all ⟨n,small⟩)

theorem decodeEncode (b : Bytes) : decode (encode b) = .ok b := by
  have even : ¬ (utf8 (encode b)).length % 2 ≠ 0 := by
    rw [encodeLength]
    omega
  rw [decode,if_neg even,encodeUtf8]
  generalize 0 = index
  induction b generalizing index with
  | nil => rfl
  | cons byte rest ih =>
    have bound := byte.toNat_lt
    have whole : (16 * (byte.toNat / 16) + byte.toNat % 16).toUInt8 = byte := by
      rw [Nat.div_add_mod]
      exact UInt8.ofNat_toNat
    simp only [List.flatMap_cons,List.cons_append,List.nil_append,decodeFrom]
    have later := ih (by rw [encodeLength]; omega) (index + 2)
    rw [digitRead (by omega),digitRead (by omega)]
    simp only [Outcome.bindOk,later,whole]

def isCharBoundary (s : String) (at_ : Nat) : Bool :=
  match (utf8 s)[at_]? with
  | some byte => at_ == 0 || byte < 128 || 192 ≤ byte
  | none => at_ == (utf8 s).length

def cutBefore (s : String) (at_ : Nat) : Outcome Bytes :=
  if isCharBoundary s at_ then .ok ((utf8 s).take at_) else .panic

theorem asciiCut {s : String} (ascii : ∀ byte ∈ utf8 s, byte < 128) {at_ : Nat}
    (inside : at_ ≤ (utf8 s).length) : cutBefore s at_ = .ok ((utf8 s).take at_) := by
  rw [cutBefore,if_pos]
  unfold isCharBoundary
  cases found : (utf8 s)[at_]? with
  | some byte => simp [ascii byte (List.mem_of_getElem? found)]
  | none =>
    have beyond := List.getElem?_eq_none_iff.mp found
    simp only [beq_iff_eq]
    omega

end RDrive.Hex
