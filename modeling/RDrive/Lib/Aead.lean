import RDrive.Lib.Outcome

/-! An authenticated cipher with a detached tag, by its documented contract:
lengths are kept and what was sealed under a key and nonce opens to the same
text. Unforgeability is not a law of a function; it is stated where runs are. -/
namespace RDrive

structure Aead (nonceLen tagLen : Nat) where
  encrypt : (key nonce text : Bytes) → Bytes × Bytes
  decrypt : (key nonce cipher tag : Bytes) → Option Bytes
  cipherLength : ∀ key nonce text, (encrypt key nonce text).1.length = text.length
  tagLength : ∀ key nonce text, (encrypt key nonce text).2.length = tagLen
  textLength : ∀ {key nonce cipher tag text}, decrypt key nonce cipher tag = some text →
    text.length = cipher.length
  opens : ∀ key nonce text,
    decrypt key nonce (encrypt key nonce text).1 (encrypt key nonce text).2 = some text

namespace Aead

abbrev Nonce (nonceLen : Nat) := {b : Bytes // b.length = nonceLen}

variable {nonceLen tagLen : Nat} (A : Aead nonceLen tagLen)

def sealed (key : Bytes) (nonce : Nonce nonceLen) (text : Bytes) : Bytes :=
  nonce.val ++ (A.encrypt key nonce.val text).1 ++ (A.encrypt key nonce.val text).2

def opened (key box : Bytes) : Option Bytes :=
  if nonceLen + tagLen ≤ box.length then
    let cipherLen := box.length - nonceLen - tagLen
    A.decrypt key (box.take nonceLen) ((box.drop nonceLen).take cipherLen)
      (box.drop (nonceLen + cipherLen))
  else none

theorem sealedLength (key : Bytes) (nonce : Nonce nonceLen) (text : Bytes) :
    (A.sealed key nonce text).length = nonceLen + text.length + tagLen := by
  simp [sealed,nonce.property,A.cipherLength,A.tagLength,Nat.add_assoc]

theorem openedSealed (key : Bytes) (nonce : Nonce nonceLen) (text : Bytes) :
    A.opened key (A.sealed key nonce text) = some text := by
  have size := A.sealedLength key nonce text
  have middle : nonceLen + text.length + tagLen - nonceLen - tagLen = text.length := by omega
  have cipher := A.cipherLength key nonce.val text
  unfold opened
  rw [if_pos (by omega),size,middle]
  have head : (A.sealed key nonce text).take nonceLen = nonce.val := by
    simp [sealed,List.append_assoc,← nonce.property]
  have tail : (A.sealed key nonce text).drop nonceLen =
      (A.encrypt key nonce.val text).1 ++ (A.encrypt key nonce.val text).2 := by
    simp [sealed,List.append_assoc,← nonce.property]
  have body : ((A.sealed key nonce text).drop nonceLen).take text.length =
      (A.encrypt key nonce.val text).1 := by
    rw [tail,← cipher,List.take_left]
  have tag : (A.sealed key nonce text).drop (nonceLen + text.length) =
      (A.encrypt key nonce.val text).2 := by
    rw [← List.drop_drop,tail,← cipher,List.drop_left]
  simp only [head,body,tag]
  exact A.opens key nonce.val text

theorem openedLength {key box text : Bytes} (h : A.opened key box = some text) :
    box.length = nonceLen + text.length + tagLen := by
  unfold opened at h
  split at h
  · have := A.textLength h
    simp only [List.length_take,List.length_drop] at this
    omega
  · contradiction

end Aead
end RDrive
