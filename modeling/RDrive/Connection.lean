import RDrive.AuthKeys
import RDrive.Transfer

/-! handle_connection after the handshake: read one command, charge the rate
limiter, dispatch. -/
namespace RDrive.Session
open Crypto Header Party Bytes

def echoOf (S : Session) (payload : Bytes) (processMs : BitVec 128) : EchoDebugHeader :=
  ⟨payload.length.toUInt32,⟨S.hashes.sha256 payload,S.hashes.sha256Length payload⟩,processMs⟩

/- The loop ends with the connection's lifetime at the latest, here after as many
rounds as it has room for. -/
def handleEchoPerf (S : Session) : Nat → Party Unit
  | 0 => .fail "deadline has elapsed"
  | rounds + 1 => do
    match ← S.readEncryptDataInto.attempt with
    | .error message =>
      if gone.any (fun pattern => message.toLower.contains pattern) then pure ()
      else .fail message
    | .ok payload =>
      if quit.contains payload then pure ()
      else
        let processMs ← elapsedMs
        S.writeEncryptFrameInto (EchoDebugHeader.serialize (S.echoOf payload processMs))
        S.handleEchoPerf rounds
where
  gone : List String := ["eof","early eof","unexpected eof","forcibly closed","connection reset",
    "closed by the remote","connection aborted","broken pipe"]
  quit : List Bytes := [""," ","q","quit","exit"].map Postcard.utf8

def sendStatus (S : Session) : Party Unit := do
  let uptime ← uptimeHrs
  let (totalUploaded,totalDownloaded,totalBandwidth) ← tracker
  match ← fs (.countDirs S.getStorageDir) with
  | none => .fail "read_dir"
  | some dirCount =>
    let now ← timestamp
    S.sendClosing (StatusHeader.serialize
      ⟨now,uptime,dirCount.toUInt64,totalUploaded,totalDownloaded,totalBandwidth⟩)

/- The cost of a command in tenths of a token. -/
def cost : Command → Nat
  | .status => 10
  | .auth _ => 20
  | .upload _ => 50
  | .download _ => 50
  | .echo => 15

def dispatch (S : Session) : Command → Party Unit
  | .echo =>
    if S.enableEcho then S.handleEchoPerf S.echoRounds
    else S.sendFailed ⟨403,"ECHO command is disabled on this server"⟩
  | .auth flags => S.handleAuthKeys flags
  | .upload header =>
    match header.validate S.maxFileSize with
    | .ok () => S.handleUpload header
    | .err e => S.sendFailed ⟨400,s!"Invalid upload header: {e}"⟩
    | .panic => .done .panic
  | .download header =>
    match header.validate with
    | .ok () => S.handleDownload header
    | .err e => S.sendFailed ⟨400,s!"Invalid download header: {e}"⟩
    | .panic => .done .panic
  | .status => S.sendStatus

def handleConnection (S : Session) : Party Unit := do
  match ← S.readHeaders.attempt with
  | .error message =>
    if message.contains "Timeout" then
      let _ ← (S.sendFailed ⟨408,"Request timed out"⟩).attempt
    else if ["eof","early eof","unexpected eof"].any (fun pattern => message.toLower.contains pattern) then
      pure ()
    else .fail message
  | .ok command =>
    if ← isAllowedCost (cost command) then S.dispatch command
    else S.sendFailed ⟨429,"Rate limit exceeded, try again later"⟩

end RDrive.Session
