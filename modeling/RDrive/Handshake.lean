import RDrive.Alone
import RDrive.Connection

/-! The handshake, both ends: hellos in raw frames, the client's decision about the
server's key, the signed transcript, and the challenge the client signs. A write
is flushed with its frame, and the reader of either end gathers whole frames. -/
namespace RDrive.Handshake
open Crypto Header Party Bytes Postcard

structure Primitives where
  hashes : Hashes
  signing : Signing
  x25519 : X25519

/- b"V1PROTOCOL_HANDSHAKE" -/
def handshakeBytes : Bytes :=
  [86,49,80,82,79,84,79,67,79,76,95,72,65,78,68,83,72,65,75,69]

structure ClientHello where
  x22519Key : Key32
  nonce : Key32
  deriving DecidableEq, Repr

structure ServerHello where
  ed25519Key : Key32
  x22519Key : Key32
  signature : {b : Bytes // b.length = 64}
  nonce : Key32
  deriving DecidableEq, Repr

def ClientHello.serialize (hello : ClientHello) : Bytes := hello.x22519Key.val ++ hello.nonce.val

def ClientHello.deserialize (b : Bytes) : Outcome ClientHello :=
  .ofOption "Failed to deserialize" (fromBytes
    (andThen (readArray 32) fun x22519Key => andThen (readArray 32) fun nonce =>
      yield ⟨x22519Key,nonce⟩) b)

def ServerHello.serialize (hello : ServerHello) : Bytes :=
  hello.ed25519Key.val ++ hello.x22519Key.val ++ hello.signature.val ++ hello.nonce.val

def ServerHello.deserialize (b : Bytes) : Outcome ServerHello :=
  .ofOption "Failed to deserialize" (fromBytes
    (andThen (readArray 32) fun ed25519Key =>
      andThen (readArray 32) fun x22519Key =>
      andThen (readArray 64) fun signature => andThen (readArray 32) fun nonce =>
      yield ⟨ed25519Key,x22519Key,signature,nonce⟩) b)

theorem ClientHello.read (hello : ClientHello) : deserialize hello.serialize = .ok hello := by
  apply Outcome.ofOptionIsOk.mpr
  refine fromBytesOf (?_ : _ = some (_,[]))
  have last := arrayRead hello.nonce []
  rw [List.append_nil] at last
  rw [serialize,andThenOf (arrayRead _ _),andThenOf last]
  rfl

theorem ServerHello.read (hello : ServerHello) : deserialize hello.serialize = .ok hello := by
  apply Outcome.ofOptionIsOk.mpr
  refine fromBytesOf (?_ : _ = some (_,[]))
  have last := arrayRead hello.nonce []
  rw [List.append_nil] at last
  rw [serialize,List.append_assoc,List.append_assoc,andThenOf (arrayRead _ _),
    andThenOf (arrayRead _ _),andThenOf (arrayRead _ _),andThenOf last]
  rfl

theorem ServerHello.length (hello : ServerHello) : hello.serialize.length = 160 := by
  simp [serialize,hello.ed25519Key.property,hello.x22519Key.property,hello.signature.property,
    hello.nonce.property]

theorem ClientHello.length (hello : ClientHello) : hello.serialize.length = 64 := by
  simp [serialize,hello.x22519Key.property,hello.nonce.property]

/- `late` is the error of a timeout, by whichever timer ends the read first. -/
def readRawDataInto (late : String) : Party Bytes := do
  match ← recv 4 with
  | .error .timedOut => .fail late
  | .error fault => .fail s!"Read error: {Fault.text fault}"
  | .ok lenBuf =>
    let len ← Frame.admitLength (Frame.fromBe32 lenBuf.val)
    match ← recv len with
    | .error .timedOut => .fail late
    | .error fault => .fail (Fault.text fault)
    | .ok body => pure body.val

def rawFrame (data : Bytes) : Bytes := Frame.be32 data.length ++ data

def writeRawFrameInto (data : Bytes) : Party Unit :=
  if Frame.u32Max < data.length then .fail s!"Too large content: {data.length} bytes"
  else send (rawFrame data)

theorem rawReadConfined {allowed : (Port HostSig).Call → Prop} (reading : ∀ n, allowed (.recv n))
    (late : String) : Program.Confined allowed (readRawDataInto late) := by
  unfold readRawDataInto
  have receiving : ∀ n, Program.Confined allowed (recv n) := fun n => ⟨reading n,fun _ => trivial⟩
  refine Program.confinedBind (receiving 4) fun answer => ?_
  cases answer with
  | error fault => cases fault <;> trivial
  | ok lenBuf =>
    refine Program.confinedBind (confinedLift _) fun len => ?_
    refine Program.confinedBind (receiving len) fun answer => ?_
    cases answer with
    | error fault => cases fault <;> trivial
    | ok body => trivial

theorem rawWriteConfined {allowed : (Port HostSig).Call → Prop} (sending : ∀ b, allowed (.send b))
    (data : Bytes) : Program.Confined allowed (writeRawFrameInto data) := by
  unfold writeRawFrameInto
  split
  · trivial
  · refine ⟨sending _,fun answer => ?_⟩
    cases answer <;> trivial

section Server

/- SERVER_PRI_KEY_BYTES and SERVER_PUB_KEY_BYTES, read from two files. -/
structure ServerKeys where
  priKeyBytes : Key32
  pubKeyBytes : Key32

@[irreducible] def serverTranscript (clientHello : ClientHello) (nonce x25519Pub : Key32) : Outcome Bytes := do
  let signedTranscript := List.replicate 128 0
  let signedTranscript ← copyInto signedTranscript 0 32 clientHello.nonce.val
  let signedTranscript ← copyInto signedTranscript 32 64 nonce.val
  let signedTranscript ← copyInto signedTranscript 64 96 clientHello.x22519Key.val
  copyInto signedTranscript 96 128 x25519Pub.val

def serverHandshake (P : Primitives) (K : ServerKeys) : Party (Key32 × Bytes) := do
  let x25519Pri ← draw 32
  let x25519Pub := P.x25519.publicKey x25519Pri
  let clientHelloData ← readRawDataInto "Handshake timed out reading client hello"
  let clientHello ← ClientHello.deserialize clientHelloData
  let nonce ← draw 32
  let _ ← verifyingKey P.signing.toEd25519 K.pubKeyBytes.val
  let signedTranscript ← serverTranscript clientHello nonce x25519Pub
  let signature := P.signing.sign K.priKeyBytes (P.hashes.sha512 signedTranscript)
  writeRawFrameInto (ServerHello.serialize ⟨K.pubKeyBytes,x25519Pub,signature,nonce⟩)
  -- the challenge goes out at once; whether the client trusts the server shows in the answer
  let random ← draw 64
  let challenge := P.hashes.sha512 random.val
  writeRawFrameInto challenge
  let packet ← readRawDataInto "Handshake timed out reading client signature"
  let (signature,pubKey) ← splitAt packet 64
  match verifyingKey P.signing.toEd25519 pubKey with
  | .panic => .done .panic
  | .err e => .fail s!"Failed to construct client's Ed25519 public key from bytes: {e}"
  | .ok verifyKey =>
    if P.signing.verify verifyKey challenge signature then
      pure (P.x25519.diffieHellman x25519Pri clientHello.x22519Key,verifyKey)
    else .fail "Failed to verify client's signature: signature error"

/- The server's part after both its frames are out. -/
def finishGreeting (P : Primitives) (pri : Key32) (challenge : Bytes) (hello : ClientHello) :
    Party (Key32 × Bytes) := do
  let packet ← readRawDataInto "Handshake timed out reading client signature"
  let (signature,pubKey) ← splitAt packet 64
  match verifyingKey P.signing.toEd25519 pubKey with
  | .panic => .done .panic
  | .err e => .fail s!"Failed to construct client's Ed25519 public key from bytes: {e}"
  | .ok verifyKey =>
    if P.signing.verify verifyKey challenge signature then
      pure (P.x25519.diffieHellman pri hello.x22519Key,verifyKey)
    else .fail "Failed to verify client's signature: signature error"

/- handle_connection: [k]..[1]..[k]..[1]..[handshake_bytes] -/
@[irreducible] def serverSessionKey (P : Primitives) (sharedKey : Key32) : Outcome Bytes := do
  let key := List.replicate 148 15
  let key ← copyInto key 0 32 sharedKey.val
  let key ← copyInto key 64 96 sharedKey.val
  let key ← copyInto key 128 148 handshakeBytes
  .ok (P.hashes.sha256 key)

/- server_handshake under handle_connection's map_err. -/
def greetClient (P : Primitives) (K : ServerKeys) : Party (Bytes × Bytes) := do
  match ← (serverHandshake P K).attempt with
  | .error e => .fail s!"Handshake failed: {e}"
  | .ok (sharedKey,clientKey) =>
    let sessionKey ← serverSessionKey P sharedKey
    pure (sessionKey,clientKey)

/- A whole connection; the server's configuration is that of S. -/
def serveConnection (P : Primitives) (K : ServerKeys) (S : Session) : Party Unit := do
  let (sessionKey,clientKey) ← greetClient P K
  Session.handleConnection {S with sessionKey := sessionKey, clientKey := clientKey}

end Server

section Client

def fingerprint (P : Primitives) (text : String) : String :=
  Hex.encode (P.hashes.sha256 (utf8 text))

/- server_map.insert and AuthServerMap::write -/
def saveServer (stored : AuthServerMap) (serverIp : SocketAddr) (text : String) :
    Party AuthServerMap := do
  let changed := stored.insert serverIp text
  if ← writeServerMap changed then pure changed else .fail "fs::write"

def preapprove (stored : AuthServerMap) (serverIp : SocketAddr) (text : String) :
    Bool → Party AuthServerMap
  | true => saveServer stored serverIp text
  | false => pure stored

/- The question, and `rejected` unless the user says yes. -/
def askUser (question : Question) (rejected : String) : Party Unit := do
  match ← ask question with
  | none => .fail "read_line"
  | some input => if accepts input then pure () else .fail rejected

/- approved_server_key: which key the server has to have signed with. -/
def approveServer (P : Primitives) (serverIp : SocketAddr) (shouldTrust : Bool)
    (ed25519Key : Bytes) : Party Bytes := do
  match ← readServerMap with
  | none => .fail "AuthServerMap::read_or_create"
  | some stored =>
    let serverKey ← verifyingKey P.signing.toEd25519 ed25519Key
    let serverKeyHex := Hex.encode ed25519Key
    let serverKeyFp := fingerprint P serverKeyHex
    let authorizedServer ← preapprove stored serverIp serverKeyHex shouldTrust
    match authorizedServer.get serverIp with
    | some existingServerKeyHex =>
      if existingServerKeyHex ≠ serverKeyHex then
        askUser (.keyChanged serverIp existingServerKeyHex serverKeyHex)
          "User rejected rotated server key"
        -- the fingerprint goes where the other branches keep the key itself
        let _ ← saveServer authorizedServer serverIp serverKeyFp
        pure serverKey
      else
        let keyBytes ← Hex.decode existingServerKeyHex
        if keyBytes.length ≠ 32 then
          .fail s!"Failed to decode existing server 32bytes key: {keyBytes}"
        else verifyingKey P.signing.toEd25519 keyBytes
    | none =>
      askUser (.unknownServer serverIp serverKeyHex) "User rejected unknown server"
      let _ ← saveServer authorizedServer serverIp serverKeyHex
      pure serverKey

structure Hellos where
  x25519Pri : Key32
  clientHello : ClientHello
  serverHello : ServerHello

def exchangeHellos (P : Primitives) : Party Hellos := do
  let x25519Pri ← draw 32
  let nonce ← draw 32
  let clientHello : ClientHello := ⟨P.x25519.publicKey x25519Pri,nonce⟩
  writeRawFrameInto clientHello.serialize
  let serverHelloData ← readRawDataInto "Timeout reading frame length"
  let serverHello ← ServerHello.deserialize serverHelloData
  pure ⟨x25519Pri,clientHello,serverHello⟩

/- "construct signed payload SAME AS SERVER" -/
@[irreducible] def clientTranscript (P : Primitives) (met : Hellos) : Outcome Bytes := do
  let transcriptSigned := List.replicate 128 0
  let transcriptSigned ← copyInto transcriptSigned 0 32 met.clientHello.nonce.val
  let transcriptSigned ← copyInto transcriptSigned 32 64 met.serverHello.nonce.val
  let transcriptSigned ← copyInto transcriptSigned 64 96 (P.x25519.publicKey met.x25519Pri).val
  copyInto transcriptSigned 96 128 met.serverHello.x22519Key.val

/- [64][32] -/
@[irreducible] def signaturePacket (signature : {b : Bytes // b.length = 64}) (pubKey : Key32) :
    Outcome Bytes := do
  let packet := List.replicate 96 0
  let packet ← copyInto packet 0 64 signature.val
  copyInto packet 64 96 pubKey.val

/- "same as server" -/
@[irreducible] def clientSessionKey (P : Primitives) (sharedKey : Key32) : Outcome Bytes := do
  let key := List.replicate 148 15
  let key ← copyInto key 0 32 sharedKey.val
  let key ← copyInto key 64 96 sharedKey.val
  let key ← copyInto key 128 148 handshakeBytes
  .ok (P.hashes.sha256 key)

/- From the approved key on: the server's signature, then the challenge. -/
def answerChallenge (P : Primitives) (signingKey : Key32) (met : Hellos)
    (approvedServerKey : Bytes) : Party Bytes := do
  let transcriptSigned ← clientTranscript P met
  if P.signing.verify approvedServerKey (P.hashes.sha512 transcriptSigned)
      met.serverHello.signature.val then
    let nonce ← readRawDataInto "Timeout reading frame length"
    let packet ← signaturePacket (P.signing.sign signingKey nonce) (P.signing.publicKey signingKey)
    writeRawFrameInto packet
    clientSessionKey P (P.x25519.diffieHellman met.x25519Pri met.serverHello.x22519Key)
  else .fail "Failed to verify server's signature: signature error"

def clientHandshakeHelper (P : Primitives) (signingKey : Key32) (serverIp : SocketAddr)
    (shouldTrust : Bool) : Party Bytes := do
  let met ← exchangeHellos P
  let approvedServerKey ← approveServer P serverIp shouldTrust met.serverHello.ed25519Key.val
  answerChallenge P signingKey met approvedServerKey

end Client

/- The calls of each part of a handshake. -/
section
variable {allowed : (Port HostSig).Call → Prop} (P : Primitives)

theorem approveConfined (consulting : allowed (.here .readServerMap))
    (storing : ∀ map, allowed (.here (.writeServerMap map)))
    (asking : ∀ question, allowed (.here (.ask question))) (serverIp : SocketAddr) (shouldTrust : Bool)
    (key : Bytes) : Program.Confined allowed (approveServer P serverIp shouldTrust key) := by
  have saved : ∀ map text, Program.Confined allowed (saveServer map serverIp text) := by
    intro map text
    refine Program.confinedBind (confinedHere _ (storing _)) fun written => ?_
    split <;> trivial
  have asked : ∀ question rejected, Program.Confined allowed (askUser question rejected) := by
    intro question rejected
    refine Program.confinedBind (confinedHere _ (asking _)) fun answer => ?_
    split
    · trivial
    · split <;> trivial
  have preapproved : ∀ stored text,
      Program.Confined allowed (preapprove stored serverIp text shouldTrust) := by
    intro stored text
    cases shouldTrust with
    | true => exact saved stored text
    | false => trivial
  unfold approveServer
  refine Program.confinedBind (confinedHere _ consulting) fun stored => ?_
  split
  · trivial
  refine Program.confinedBind (confinedLift _) fun serverKey => ?_
  refine Program.confinedBind (preapproved _ _) fun authorizedServer => ?_
  split
  · split
    · exact Program.confinedBind (asked _ _) fun _ => Program.confinedBind (saved _ _) fun _ => trivial
    · refine Program.confinedBind (confinedLift _) fun keyBytes => ?_
      split
      · trivial
      · exact confinedLift _
  · exact Program.confinedBind (asked _ _) fun _ => Program.confinedBind (saved _ _) fun _ => trivial

variable (receiving : ∀ n, allowed (.recv n)) (sending : ∀ b, allowed (.send b))
include receiving sending

theorem challengeConfined (signingKey : Key32) (met : Hellos) (approved : Bytes) :
    Program.Confined allowed (answerChallenge P signingKey met approved) := by
  unfold answerChallenge
  refine Program.confinedBind (confinedLift _) fun transcript => ?_
  split
  · refine Program.confinedBind (rawReadConfined receiving _) fun nonce => ?_
    refine Program.confinedBind (confinedLift _) fun packet => ?_
    exact Program.confinedBind (rawWriteConfined sending _) fun _ => confinedLift _
  · trivial

variable (drawing : ∀ n, allowed (.here (.draw n)))
include drawing

theorem hellosConfined : Program.Confined allowed (exchangeHellos P) := by
  unfold exchangeHellos
  refine Program.confinedBind (confinedHere _ (drawing 32)) fun pri => ?_
  refine Program.confinedBind (confinedHere _ (drawing 32)) fun nonce => ?_
  refine Program.confinedBind (rawWriteConfined sending _) fun _ => ?_
  refine Program.confinedBind (rawReadConfined receiving _) fun data => ?_
  exact Program.confinedBind (confinedLift _) fun hello => trivial

theorem serverConfined (K : ServerKeys) : Program.Confined allowed (serverHandshake P K) := by
  unfold serverHandshake
  refine Program.confinedBind (confinedHere _ (drawing 32)) fun pri => ?_
  refine Program.confinedBind (rawReadConfined receiving _) fun data => ?_
  refine Program.confinedBind (confinedLift _) fun hello => ?_
  refine Program.confinedBind (confinedHere _ (drawing 32)) fun nonce => ?_
  refine Program.confinedBind (confinedLift _) fun _ => Program.confinedBind (confinedLift _) fun _ => ?_
  refine Program.confinedBind (rawWriteConfined sending _) fun _ => ?_
  refine Program.confinedBind (confinedHere _ (drawing 64)) fun random => ?_
  refine Program.confinedBind (rawWriteConfined sending _) fun _ => ?_
  refine Program.confinedBind (rawReadConfined receiving _) fun packet => ?_
  refine Program.confinedBind (confinedLift _) fun (signature,pubKey) => ?_
  dsimp only
  split
  · trivial
  · trivial
  · split <;> trivial

end

end RDrive.Handshake
