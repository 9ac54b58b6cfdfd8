import RDrive.Lib.Aead

/-! crypto.rs: the in-place AES-256-GCM functions on caller-owned buffers. The
cipher itself, and the random bytes that fill the nonce, are parameters. -/
namespace RDrive.Crypto
open Bytes (slice splitAt copyFromSlice)

def nonceLen : Nat := 12
def tagLen : Nat := 16

abbrev Cipher := Aead nonceLen tagLen
abbrev Nonce := Aead.Nonce nonceLen

def encryptInto (A : Cipher) (input output key : Bytes) (nonce : Nonce) : Outcome (Bytes × Nat) := do
  let plaintextLen := input.length
  if output.length < nonceLen + plaintextLen + tagLen then
    .err s!"Output buffer too small, need at least {nonceLen + plaintextLen + tagLen} bytes"
  else
    let (_,dataTag) ← splitAt output nonceLen
    let (data,tagBuf) ← splitAt dataTag plaintextLen
    let data ← copyFromSlice data input
    let (data,authTag) := A.encrypt key nonce.val data
    -- the tag buffer is all that is left of the output, not its first 16 bytes
    let tagBuf ← copyFromSlice tagBuf authTag
    .ok (nonce.val ++ data ++ tagBuf,nonceLen + plaintextLen + tagLen)

def decryptInto (A : Cipher) (input output key : Bytes) : Outcome (Bytes × Nat) := do
  if input.length < nonceLen + tagLen then .err "Ciphertext too short"
  else
    let ciphertextLen := input.length - nonceLen - tagLen
    if output.length < ciphertextLen then
      .err s!"Output buffer too small, need at least {ciphertextLen} bytes"
    else
      let nonce ← slice input 0 nonceLen
      let tag ← slice input (nonceLen + ciphertextLen) input.length
      let data ← slice output 0 ciphertextLen
      let body ← slice input nonceLen (nonceLen + ciphertextLen)
      let data ← copyFromSlice data body
      match A.decrypt key nonce data tag with
      | some text => .ok (text ++ output.drop ciphertextLen,ciphertextLen)
      | none => .err "aead::Error"

structure Hashes where
  sha256 : Bytes → Bytes
  sha512 : Bytes → Bytes
  sha256Length : ∀ b, (sha256 b).length = 32
  sha512Length : ∀ b, (sha512 b).length = 64

/- A public key is 32 bytes that decompress to a point, a signature any 64 bytes. -/
structure Ed25519 where
  isPoint : Bytes → Bool
  verifyStrict : (publicKey message signature : Bytes) → Bool

abbrev Key32 := {b : Bytes // b.length = 32}

/- Signing keys, by the documented contract: what a key signs verifies under its
public key. Plain verification accepts at least that. -/
structure Signing extends Ed25519 where
  publicKey : Key32 → Key32
  sign : (signingKey : Key32) → (message : Bytes) → {b : Bytes // b.length = 64}
  verify : (publicKey message signature : Bytes) → Bool
  publicPoint : ∀ k, isPoint (publicKey k).val = true
  signed : ∀ k message, verify (publicKey k).val message (sign k message).val = true

structure X25519 where
  publicKey : Key32 → Key32
  diffieHellman : (privateKey publicKey : Key32) → Key32
  agrees : ∀ a b, diffieHellman a (publicKey b) = diffieHellman b (publicKey a)

/- VerifyingKey::try_from on a slice. -/
def verifyingKey (E : Ed25519) (b : Bytes) : Outcome Bytes :=
  if b.length ≠ 32 then .err "signature error"
  else if E.isPoint b then .ok b
  else .err "signature error"

theorem verifyingKeyCases (E : Ed25519) (b : Bytes) :
    verifyingKey E b = .ok b ∧ b.length = 32 ∧ E.isPoint b = true ∨
      verifyingKey E b = .err "signature error" ∧ ¬ (b.length = 32 ∧ E.isPoint b = true) := by
  unfold verifyingKey
  by_cases size : b.length = 32
  · by_cases point : E.isPoint b = true
    · exact .inl ⟨by rw [if_neg (not_not.mpr size),if_pos point],size,point⟩
    · exact .inr ⟨by rw [if_neg (not_not.mpr size),if_neg point],fun both => point both.2⟩
  · exact .inr ⟨if_pos size,fun both => size both.1⟩

theorem verifyingKeyOk {E : Ed25519} {b key : Bytes} (parsed : verifyingKey E b = .ok key) :
    key = b ∧ b.length = 32 := by
  rcases verifyingKeyCases E b with ⟨ok,size,-⟩ | ⟨failed,-⟩
  · exact ⟨(Outcome.ok.inj (ok.symm.trans parsed)).symm,size⟩
  · cases failed.symm.trans parsed

def validateSignature (E : Ed25519) (publicBytes signatureBytes nonce : Bytes) : Outcome Bytes :=
  if signatureBytes.length ≠ 64 then .err "Failed to construct signature from bytes: signature error"
  else match verifyingKey E publicBytes with
    | .err e => .err s!"Failed to construct public key from bytes: {e}"
    | .panic => .panic
    | .ok publicKey =>
      if E.verifyStrict publicKey nonce signatureBytes then .ok publicKey
      else .err "Signature verification failed: signature error"

theorem signatureValid {E : Ed25519} {publicBytes signatureBytes nonce key : Bytes}
    (valid : validateSignature E publicBytes signatureBytes nonce = .ok key) :
    key = publicBytes ∧ publicBytes.length = 32 ∧ signatureBytes.length = 64 ∧
      E.verifyStrict publicBytes nonce signatureBytes = true := by
  unfold validateSignature at valid
  split at valid <;> try contradiction
  rename_i size
  split at valid <;> try contradiction
  rename_i parsed
  split at valid <;> try contradiction
  rename_i verified
  cases Outcome.ok.inj valid
  obtain ⟨rfl,length⟩ := verifyingKeyOk parsed
  exact ⟨rfl,length,Decidable.not_not.mp size,verified⟩

theorem encryptTooSmall {A : Cipher} {input output key : Bytes} {nonce : Nonce}
    (small : output.length < nonceLen + input.length + tagLen) :
    encryptInto A input output key nonce =
      .err s!"Output buffer too small, need at least {nonceLen + input.length + tagLen} bytes" := by
  simp [encryptInto,small]

theorem encryptExact {A : Cipher} {input output key : Bytes} {nonce : Nonce}
    (size : output.length = nonceLen + input.length + tagLen) :
    encryptInto A input output key nonce =
      .ok (A.sealed key nonce input,nonceLen + input.length + tagLen) := by
  have data : ((output.drop nonceLen).take input.length).length = input.length := by
    simp [size]; omega
  have tag : ((output.drop nonceLen).drop input.length).length =
      (A.encrypt key nonce.val input).2.length := by
    simp [size,A.tagLength]
  unfold encryptInto
  rw [if_neg (by omega),Bytes.splitAtOk (by omega)]
  simp only [Outcome.bindOk]
  rw [Bytes.splitAtOk (by simp [size]; omega)]
  simp only [Outcome.bindOk,Bytes.copyOk data,Bytes.copyOk tag]
  rfl

/- More room than needed, which the documented precondition allows, panics. -/
theorem encryptSlackPanics {A : Cipher} {input output key : Bytes} {nonce : Nonce}
    (slack : nonceLen + input.length + tagLen < output.length) :
    encryptInto A input output key nonce = .panic := by
  have data : ((output.drop nonceLen).take input.length).length = input.length := by
    simp; omega
  have tag : ((output.drop nonceLen).drop input.length).length ≠
      (A.encrypt key nonce.val input).2.length := by
    simp [A.tagLength]; omega
  unfold encryptInto
  rw [if_neg (by omega),Bytes.splitAtOk (by omega)]
  simp only [Outcome.bindOk]
  rw [Bytes.splitAtOk (by simp; omega)]
  simp only [Outcome.bindOk,Bytes.copyOk data,Bytes.copyPanics tag,Outcome.bindPanic]

theorem encryptFilled {A : Cipher} {input output key after : Bytes} {nonce : Nonce} {n : Nat}
    (filled : encryptInto A input output key nonce = .ok (after,n)) :
    output.length = nonceLen + input.length + tagLen ∧ after = A.sealed key nonce input ∧
      n = nonceLen + input.length + tagLen := by
  rcases Nat.lt_trichotomy output.length (nonceLen + input.length + tagLen) with small | size | slack
  · rw [encryptTooSmall small] at filled
    contradiction
  · rw [encryptExact size] at filled
    cases filled
    exact ⟨size,rfl,rfl⟩
  · rw [encryptSlackPanics slack] at filled
    contradiction

theorem decryptFits {A : Cipher} {input output key : Bytes}
    (long : nonceLen + tagLen ≤ input.length)
    (room : input.length - nonceLen - tagLen ≤ output.length) :
    decryptInto A input output key =
      match A.opened key input with
      | some text => .ok (text ++ output.drop text.length,text.length)
      | none => .err "aead::Error" := by
  have cut : nonceLen + (input.length - nonceLen - tagLen) ≤ input.length := by omega
  have body : ((input.take (nonceLen + (input.length - nonceLen - tagLen))).drop nonceLen) =
      (input.drop nonceLen).take (input.length - nonceLen - tagLen) := by
    rw [List.drop_take]; congr 1; omega
  have same : (output.take (input.length - nonceLen - tagLen)).length =
      ((input.drop nonceLen).take (input.length - nonceLen - tagLen)).length := by
    simp; omega
  unfold decryptInto Aead.opened
  rw [if_neg (by omega),if_pos long]
  simp only []
  rw [if_neg (by omega),Bytes.sliceOk (by omega) (by omega),Bytes.sliceOk cut (by omega),
    Bytes.sliceOk (by omega) room,Bytes.sliceOk (by omega) cut,body]
  simp only [Outcome.bindOk,List.drop_zero,Bytes.copyOk same,List.take_length]
  split
  · rename_i text opened
    have size := A.textLength opened
    simp only [List.length_take,List.length_drop] at size
    have exact_ : text.length = input.length - nonceLen - tagLen := by omega
    simp [exact_]
  · rfl

/- Stand-ins that keep the contracts, for runs on given inputs. -/
def clearCipher : Cipher where
  encrypt _ _ text := (text,List.replicate tagLen 0)
  decrypt _ _ cipher tag := if tag = List.replicate tagLen 0 then some cipher else none
  cipherLength _ _ _ := rfl
  tagLength _ _ _ := List.length_replicate
  textLength {_ _ _ tag _} opened := by
    split at opened
    · rw [Option.some.inj opened]
    · contradiction
  opens _ _ _ := if_pos rfl

def padTo (n : Nat) (b : Bytes) : Bytes := b.take n ++ List.replicate (n - b.length) 0

theorem padLength (n : Nat) (b : Bytes) : (padTo n b).length = n := by
  simp only [padTo,List.length_append,List.length_take,List.length_replicate]
  omega

def padHashes : Hashes where
  sha256 := padTo 32
  sha512 := padTo 64
  sha256Length := padLength 32
  sha512Length := padLength 64

def echoSignature : Ed25519 where
  isPoint _ := true
  verifyStrict publicKey message signature := signature == publicKey ++ message.take 32

def echoSigning : Signing where
  isPoint _ := true
  verifyStrict publicKey message signature := signature == publicKey ++ padTo 32 message
  publicKey k := k
  sign k message := ⟨k.val ++ padTo 32 message,by simp [k.property,padLength]⟩
  verify publicKey message signature := signature == publicKey ++ padTo 32 message
  publicPoint _ := rfl
  signed _ _ := by simp

def sumExchange : X25519 where
  publicKey k := k
  diffieHellman a b := ⟨List.zipWith (· + ·) a.val b.val,by simp [a.property,b.property]⟩
  agrees a b := Subtype.ext (List.zipWith_comm_of_comm (fun x y => UInt8.add_comm x y))

end RDrive.Crypto
