import RDrive.Session

/-! handle_auth_keys: registration (flag 1) and rotation (flag 2) of a client key.
The nonce that is verified is the one in the body; the issued one goes out of
scope unread. -/
namespace RDrive.Session
open Crypto Header Party Bytes

/- authorized_keys names a key by the SHA-256 of its hex text, storage by the
SHA-512 of its raw bytes. -/
def authPath (S : Session) (key : Bytes) : Path :=
  S.getAuthorizedClientDir ++ [S.sha256Hex (Postcard.utf8 (Hex.encode key))]
def storagePath (S : Session) (key : Bytes) : Path := S.getStorageDir ++ [S.sha512Hex key]

/- && path.exists() -/
def andExists (first : Bool) (path : Path) : Party Bool :=
  if first then fs (.exists_ path) else pure false

/- Registration once the signature is valid. -/
def createKeyDirs (S : Session) (pubKey : Bytes) : Party Unit := do
  let userKeyPath := S.authPath pubKey
  let listed ← fs (.exists_ userKeyPath)
  let isDir ← fs (.isDir userKeyPath)
  if S.enableClientWhitelist = false ∧ listed = false then
    S.sendFailed ⟨403,"Client not authorized, please contact the admin, provider or ssh into the server"⟩
  else if listed ∧ isDir = false then
    S.sendFailed ⟨500,"Auth key path exists but is not a directory, skipping user storage dir creation"⟩
  else
    let userStorageDir := S.storagePath pubKey
    let stored ← fs (.exists_ userStorageDir)
    let both ← andExists stored userKeyPath
    if both then
      S.sendWarn ⟨409,"Client Auth & Storage directory already exists, not required"⟩
    else
      let keyMade ← fs (.createDirAll userKeyPath)
      let storageMade ← fs (.createDirAll userStorageDir)
      if keyMade ∧ storageMade then S.writeEncryptFrameInto [1]
      else S.sendFailed ⟨500,"Failed to create auth key or user storage directory, try again later"⟩

/- Rotation once the signature is valid and both keys are keys. -/
def renameKeyDirs (S : Session) (oldPubKey newPubKey : Bytes) : Party Unit := do
  if ← fs (.exists_ (S.storagePath oldPubKey)) then
    let keyMoved ← fs (.rename (S.authPath oldPubKey) (S.authPath newPubKey))
    let storageMoved ← fs (.rename (S.storagePath oldPubKey) (S.storagePath newPubKey))
    if keyMoved ∧ storageMoved then S.writeEncryptFrameInto [1]
    else S.sendFailed ⟨500,"Failed to rotate keys, try again later"⟩
  else .fail "User not registered, not found"

/- One frame carries everything but the flag:
new    = nonce (64) | signature (64) | new key
rotate = nonce (64) | signature (64) | old key (32) | new key -/
def registerKey (S : Session) (headerBytes : Bytes) : Party Unit := do
  let (nonce,signatureNewKey) ← splitAt headerBytes 64
  let (signature,newKey) ← splitAt signatureNewKey 64
  match validateSignature S.ed25519 newKey signature nonce with
  | .panic => .done .panic
  | .err e => S.sendFailed ⟨401,s!"Invalid signature: {e}"⟩
  | .ok pubKey => S.createKeyDirs pubKey

def rotateKey (S : Session) (headerBytes : Bytes) : Party Unit := do
  let (nonce,signatureNewKeyOldKey) ← splitAt headerBytes 64
  let (signature,newKeyOldKey) ← splitAt signatureNewKeyOldKey 64
  let (oldKey,newKey) ← splitAt newKeyOldKey 32
  match validateSignature S.ed25519 oldKey signature nonce with
  | .panic => .done .panic
  | .err e => S.sendFailed ⟨401,s!"Invalid signature: {e}"⟩
  | .ok oldPubKey =>
    match verifyingKey S.ed25519 newKey with
    | .panic => .done .panic
    | .err e => .fail s!"Failed to construct new public key from bytes: {e}"
    | .ok newPubKey => S.renameKeyDirs oldPubKey newPubKey

def handleAuthKeys (S : Session) (flag : UInt8) : Party Unit := do
  let random ← draw 64
  let nonce := S.hashes.sha512 random.val
  S.writeEncryptFrameInto nonce
  if flag = 1 then
    let headerBytes ← S.readEncryptDataInto
    S.registerKey headerBytes
  else if flag = 2 then
    let headerBytes ← S.readEncryptDataInto
    S.rotateKey headerBytes
  else S.sendFailed ⟨400,"Invalid flag value"⟩

end RDrive.Session
