import RDrive.Host
import RDrive.Lib.Hex

/-! What both ends of an encrypted connection do with it: frames, tagged
responses, and reading a command. The pool plays no part in what a frame is
(writtenFrame, boxRead), so from here on frames come without it. -/
namespace RDrive
open Crypto Header Party

/- Everything a handler finds when it starts: the results of the handshake, the
configuration and the primitives. -/
structure Session where
  cipher : Cipher
  hashes : Hashes
  ed25519 : Ed25519
  sessionKey : Bytes
  clientKey : Bytes
  home : Path
  maxFileSize : UInt64
  enableEcho : Bool
  echoRounds : Nat
  enableClientWhitelist : Bool

namespace Session

def connected (S : Session) (sessionKey clientKey : Bytes) : Session :=
  {S with sessionKey := sessionKey, clientKey := clientKey}

def getStorageDir (S : Session) : Path := S.home ++ [".rdrive","storage"]
def getAuthorizedClientDir (S : Session) : Path := S.home ++ [".rdrive","authorized_keys"]

def sha256Hex (S : Session) (b : Bytes) : String := Hex.encode (S.hashes.sha256 b)
def sha512Hex (S : Session) (b : Bytes) : String := Hex.encode (S.hashes.sha512 b)

def readFrameLength : Party Nat := do
  match ← recv 4 with
  | .ok lenBuf => Frame.admitLength (Frame.fromBe32 lenBuf.val)
  | .error .timedOut => .fail "Timeout reading frame length"
  | .error fault => .fail s!"Read error: {Fault.text fault}"

def readEncryptDataInto (S : Session) : Party Bytes := do
  let ciphertextLen ← readFrameLength
  if ciphertextLen < nonceLen + tagLen then
    .fail s!"Frame length too short for encrypted header: {ciphertextLen}"
  else
    let encryptedBuf ← readExact ciphertextLen
    Outcome.ofOption "aead::Error" (S.cipher.opened S.sessionKey encryptedBuf.val)

def writeEncryptFrameInto (S : Session) (data : Bytes) : Party Unit := do
  if Frame.u32Max < data.length then .fail s!"Too large content: {data.length} bytes"
  else
    let nonce ← draw nonceLen
    send (Frame.frame S.cipher S.sessionKey nonce data)

/- How send_success, send_warn, send_failed and send_status end. -/
def sendClosing (S : Session) (rsp : Bytes) : Party Unit := do
  S.writeEncryptFrameInto rsp
  shutdown

/- A response is its tag, then the header: 1 success, 2 warning, 3 error. -/
def sendSuccess (S : Session) (response : UploadResponse) : Party Unit :=
  S.sendClosing (1 :: response.serialize)
def sendWarn (S : Session) (response : WarnHeader) : Party Unit :=
  S.sendClosing (2 :: response.serialize)
def sendFailed (S : Session) (response : ErrorHeader) : Party Unit :=
  S.sendClosing (3 :: response.serialize)

def readHeaders (S : Session) : Party Command := do
  let decryptedBuf ← S.readEncryptDataInto
  Command.deserialize decryptedBuf

end Session
end RDrive
