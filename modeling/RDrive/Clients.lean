import RDrive.Alone

/-! The client functions that do not move files, from their request on; the
handshake before it is left out. -/
namespace RDrive.Session
open Crypto Header Party Bytes

def getServerStatus (S : Session) : Party StatusHeader := do
  S.writeEncryptFrameInto (Command.serialize .status)
  let response ← S.readEncryptDataInto
  StatusHeader.deserialize response

/- One round for each payload length drawn before the time is up. What is printed as
statistics is what the rounds give here. -/
def echoSamples (S : Session) : List Nat → Party (List EchoDebugHeader)
  | [] => pure []
  | randLen :: rest => do
    let randPayload ← draw randLen
    S.writeEncryptFrameInto randPayload.val
    let response ← S.readEncryptDataInto
    let echo ← EchoDebugHeader.deserialize response
    -- a hash that does not match is only printed
    let others ← S.echoSamples rest
    pure (echo :: others)

/- [64][64][32][32] -/
def rotationBody (nonce signature : Bytes) (oldKey publicKey : Key32) : Outcome Bytes := do
  let header := List.replicate 192 0
  let header ← copyInto header 0 64 nonce
  let header ← copyInto header 64 128 signature
  let header ← copyInto header 128 160 oldKey.val
  copyInto header 160 192 publicKey.val

/- [64][64][32] -/
def registrationBody (nonce signature : Bytes) (publicKey : Key32) : Outcome Bytes := do
  let header := List.replicate 160 0
  let header ← copyInto header 0 64 nonce
  let header ← copyInto header 64 128 signature
  copyInto header 128 160 publicKey.val

def authBody (nonce signature : Bytes) (publicKey : Key32) : Option Key32 → Outcome Bytes
  | some oldKey => rotationBody nonce signature oldKey publicKey
  | none => registrationBody nonce signature publicKey

section
variable {nonce signature : Bytes} {oldKey publicKey : Key32}

theorem rotationParts (nonceSize : nonce.length = 64) (signatureSize : signature.length = 64) :
    rotationBody nonce signature oldKey publicKey =
      .ok (nonce ++ signature ++ oldKey.val ++ publicKey.val) :=
  copyFour nonceSize (by rw [signatureSize]) (by rw [oldKey.property]) (by rw [publicKey.property]) 0

theorem registrationParts (nonceSize : nonce.length = 64) (signatureSize : signature.length = 64) :
    registrationBody nonce signature publicKey = .ok (nonce ++ signature ++ publicKey.val) :=
  copyThree nonceSize (by rw [signatureSize]) (by rw [publicKey.property]) 0

theorem bodyPanics (size : nonce.length ≠ 64) (oldPublicKey : Option Key32) :
    authBody nonce signature publicKey oldPublicKey = .panic := by
  have refused : ∀ buf : Bytes, copyInto buf 0 64 nonce = .panic :=
    fun buf => if_neg fun fits => size fits.2.2
  cases oldPublicKey <;> simp [authBody,rotationBody,registrationBody,refused]

theorem bodyFits (nonceSize : nonce.length = 64) (signatureSize : signature.length = 64)
    (oldPublicKey : Option Key32) :
    ∃ header, authBody nonce signature publicKey oldPublicKey = .ok header ∧ header.length ≤ 192 := by
  cases oldPublicKey with
  | none =>
    refine ⟨_,registrationParts nonceSize signatureSize,?_⟩
    simp only [List.length_append,nonceSize,signatureSize,publicKey.property]
    decide
  | some oldKey =>
    refine ⟨_,rotationParts nonceSize signatureSize,?_⟩
    simp only [List.length_append,nonceSize,signatureSize,oldKey.property,publicKey.property]
    decide

end

/- The ACK, a rejection or a warning, which is only printed. -/
def authOutcome (S : Session) : Party Unit := do
  let rsp ← S.readEncryptDataInto
  let flag ← index rsp 0
  if flag = 1 then pure ()
  else if flag = 2 then
    let _ ← WarnHeader.deserialize rsp.tail
    pure ()
  else if flag = 3 then
    let err ← ErrorHeader.deserialize rsp.tail
    .fail s!"Auth failed: {err.code} - {err.message}"
  else .fail "Invalid response from server"

/- auth_client once it has the challenge. -/
def answerAuth (S : Session) (signing : Signing) (privateKey publicKey : Key32)
    (oldPublicKey : Option Key32) (nonce : Bytes) : Party Unit := do
  let signature := signing.sign privateKey nonce
  let header ← authBody nonce signature.val publicKey oldPublicKey
  S.writeEncryptFrameInto header
  S.authOutcome

def awaitChallenge (S : Session) (signing : Signing) (privateKey publicKey : Key32)
    (oldPublicKey : Option Key32) : Party Unit := do
  let nonce ← S.readEncryptDataInto
  S.answerAuth signing privateKey publicKey oldPublicKey nonce

def authClient (S : Session) (signing : Signing) (privateKey publicKey : Key32)
    (oldPublicKey : Option Key32) : Party Unit := do
  S.writeEncryptFrameInto (Command.serialize (.auth (if oldPublicKey.isSome then 2 else 1)))
  S.awaitChallenge signing privateKey publicKey oldPublicKey

theorem authConfined {allowed : (Port HostSig).Call → Prop} (S : Session) (signing : Signing)
    (drawing : allowed (.here (.draw nonceLen))) (receiving : ∀ n, allowed (.recv n))
    (sending : ∀ b, allowed (.send b)) (privateKey publicKey : Key32) (oldPublicKey : Option Key32) :
    Program.Confined allowed (S.authClient signing privateKey publicKey oldPublicKey) := by
  have framing : ∀ data, Program.Confined allowed (S.writeEncryptFrameInto data) := fun data =>
    confinedFrame drawing fun nonce => sending _
  have reading : Program.Confined allowed S.readEncryptDataInto := readConfined receiving
  unfold authClient awaitChallenge answerAuth authOutcome
  refine Program.confinedBind (framing _) fun _ => Program.confinedBind reading fun nonce => ?_
  refine Program.confinedBind (confinedLift _) fun header => Program.confinedBind (framing _) fun _ => ?_
  refine Program.confinedBind reading fun rsp => Program.confinedBind (confinedLift _) fun flag => ?_
  split
  · trivial
  split
  · exact Program.confinedBind (confinedLift _) fun _ => trivial
  split
  · exact Program.confinedBind (confinedLift _) fun _ => trivial
  · trivial

end RDrive.Session
