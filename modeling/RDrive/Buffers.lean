import RDrive.Crypto

/-! crypto.rs: the allocating AES-256-GCM functions, and how far the in-place ones
on a caller's buffer agree with them. -/
namespace RDrive.Crypto
open Bytes (splitAt copyFromSlice)

/- The cipher's combined form: the detached tag behind the ciphertext. -/
def encryptCombined (A : Cipher) (key : Bytes) (nonce : Nonce) (data : Bytes) : Bytes :=
  (A.encrypt key nonce.val data).1 ++ (A.encrypt key nonce.val data).2

def decryptCombined (A : Cipher) (key nonce ciphertext : Bytes) : Option Bytes :=
  let cut := ciphertext.length - tagLen
  A.decrypt key nonce (ciphertext.take cut) (ciphertext.drop cut)

def encryptData (A : Cipher) (data key : Bytes) (nonce : Nonce) : Outcome Bytes := do
  let ciphertext := encryptCombined A key nonce data
  let out := List.replicate (nonceLen + ciphertext.length) 0
  let (front,back) ← splitAt out nonceLen
  let front ← copyFromSlice front nonce.val
  let back ← copyFromSlice back ciphertext
  .ok (front ++ back)

def decryptData (A : Cipher) (data key : Bytes) : Outcome Bytes := do
  if data.length < nonceLen + tagLen then .err "Ciphertext too short"
  else
    let (nonce,ciphertext) ← splitAt data nonceLen
    match decryptCombined A key nonce ciphertext with
    | some plaintext => .ok plaintext
    | none => .err "Decryption failed: aead::Error"

variable (A : Cipher) (key : Bytes) (nonce : Nonce)

theorem encryptDataSeals (data : Bytes) : encryptData A data key nonce = .ok (A.sealed key nonce data) := by
  have front : (List.replicate (nonceLen + (encryptCombined A key nonce data).length) (0 : UInt8)).take
      nonceLen = List.replicate nonceLen 0 := by
    rw [List.take_replicate,Nat.min_eq_left (Nat.le_add_right _ _)]
  have back : (List.replicate (nonceLen + (encryptCombined A key nonce data).length) (0 : UInt8)).drop
      nonceLen = List.replicate (encryptCombined A key nonce data).length 0 := by
    rw [List.drop_replicate,Nat.add_sub_cancel_left]
  unfold encryptData
  simp only []
  rw [Bytes.splitAtOk (by simp),front,back]
  simp only [Outcome.bindOk]
  rw [Bytes.copyOk (by rw [List.length_replicate,nonce.property]),Outcome.bindOk,
    Bytes.copyOk List.length_replicate,Outcome.bindOk]
  simp only [Aead.sealed,encryptCombined,List.append_assoc]

theorem decryptDataOpens {data : Bytes} (long : nonceLen + tagLen ≤ data.length) :
    decryptData A data key =
      match A.opened key data with
      | some plaintext => .ok plaintext
      | none => .err "Decryption failed: aead::Error" := by
  have cut : (data.drop nonceLen).length - tagLen = data.length - nonceLen - tagLen := by
    rw [List.length_drop]
  unfold decryptData
  rw [if_neg (Nat.not_lt.mpr long),Bytes.splitAtOk (Nat.le_trans (Nat.le_add_right _ _) long)]
  simp only [Outcome.bindOk,decryptCombined,cut,List.drop_drop,Aead.opened,if_pos long]

theorem decryptIntoSealed (data room : Bytes) (enough : data.length ≤ room.length) :
    decryptInto A (A.sealed key nonce data) room key =
      .ok (data ++ room.drop data.length,data.length) := by
  have size := A.sealedLength key nonce data
  rw [decryptFits (by omega) (by omega),A.openedSealed]

theorem decryptDataSealed (data : Bytes) : decryptData A (A.sealed key nonce data) key = .ok data := by
  have size := A.sealedLength key nonce data
  rw [decryptDataOpens A key (by omega),A.openedSealed]

theorem decryptShort {input : Bytes} (room : Bytes) (short : input.length < nonceLen + tagLen) :
    decryptInto A input room key = .err "Ciphertext too short" ∧
      decryptData A input key = .err "Ciphertext too short" := by
  constructor
  · unfold decryptInto
    rw [if_pos short]
  · unfold decryptData
    rw [if_pos short]

theorem decryptTooSmall {input room : Bytes} (long : nonceLen + tagLen ≤ input.length)
    (small : room.length < input.length - nonceLen - tagLen) :
    decryptInto A input room key =
      .err s!"Output buffer too small, need at least {input.length - nonceLen - tagLen} bytes" := by
  unfold decryptInto
  rw [if_neg (Nat.not_lt.mpr long)]
  simp only [if_pos small]

/- What the documentation of the four functions promises about one plaintext and one
output buffer: with enough room the box is written in front and the rest of the buffer
stays, every decoder gives the plaintext back, and what does not fit is an error. -/
structure PathsAgree (data output : Bytes) : Prop where
  encrypted : nonceLen + data.length + tagLen ≤ output.length →
    encryptInto A data output key nonce =
      .ok (A.sealed key nonce data ++ output.drop (nonceLen + data.length + tagLen),
        nonceLen + data.length + tagLen)
  outputTooSmall : output.length < nonceLen + data.length + tagLen →
    ∃ e, encryptInto A data output key nonce = .err e
  allocated : encryptData A data key nonce = .ok (A.sealed key nonce data)
  decrypted : ∀ room, data.length ≤ room.length →
    decryptInto A (A.sealed key nonce data) room key =
      .ok (data ++ room.drop data.length,data.length)
  decryptedData : decryptData A (A.sealed key nonce data) key = .ok data
  openedInto : ∀ box room, encryptData A data key nonce = .ok box → data.length ≤ room.length →
    decryptInto A box room key = .ok (data ++ room.drop data.length,data.length)
  inputTooShort : ∀ input room, input.length < nonceLen + tagLen →
    (∃ e, decryptInto A input room key = .err e) ∧ ∃ e, decryptData A input key = .err e
  roomTooSmall : ∀ input room, nonceLen + tagLen ≤ input.length →
    room.length < input.length - nonceLen - tagLen → ∃ e, decryptInto A input room key = .err e

/- The in-place encryption agrees on every buffer that is not longer than the box. -/
theorem pathsAgreeExactly (data output : Bytes) :
    PathsAgree A key nonce data output ↔ output.length ≤ nonceLen + data.length + tagLen := by
  constructor
  · intro agree
    by_contra slack
    have longer : nonceLen + data.length + tagLen < output.length := Nat.not_le.mp slack
    have written := agree.encrypted (Nat.le_of_lt longer)
    rw [encryptSlackPanics longer] at written
    contradiction
  · intro fits
    exact {
      encrypted := by
        intro room
        have size : output.length = nonceLen + data.length + tagLen := Nat.le_antisymm fits room
        rw [encryptExact size,List.drop_of_length_le (Nat.le_of_eq size),List.append_nil]
      outputTooSmall := fun small => ⟨_,encryptTooSmall small⟩
      allocated := encryptDataSeals A key nonce data
      decrypted := decryptIntoSealed A key nonce data
      decryptedData := decryptDataSealed A key nonce data
      openedInto := by
        intro box room made enough
        rw [encryptDataSeals] at made
        cases Outcome.ok.inj made
        exact decryptIntoSealed A key nonce data room enough
      inputTooShort := fun input room short =>
        ⟨⟨_,(decryptShort A key room short).1⟩,⟨_,(decryptShort A key room short).2⟩⟩
      roomTooSmall := fun input room long small => ⟨_,decryptTooSmall A key long small⟩ }

theorem slackBreaks :
    let nonce : Nonce := ⟨List.replicate nonceLen 7,List.length_replicate⟩
    nonceLen + 0 + tagLen ≤ (List.replicate 29 (0 : UInt8)).length ∧
      encryptInto clearCipher [] (List.replicate 29 0) (List.replicate 32 1) nonce = .panic ∧
      ¬ PathsAgree clearCipher (List.replicate 32 1) nonce [] (List.replicate 29 0) := by
  have panics : encryptInto clearCipher [] (List.replicate 29 0) (List.replicate 32 1)
      ⟨List.replicate nonceLen 7,List.length_replicate⟩ = .panic := by rfl
  refine ⟨by decide,panics,?_⟩
  intro agree
  have written := agree.encrypted (by decide)
  rw [panics] at written
  contradiction

end RDrive.Crypto
