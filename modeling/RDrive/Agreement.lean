import RDrive.Trust
import RDrive.RoundTrip
import RDrive.Lib.Wire

/-! An honest client and an honest server meet. Each side's turns on its own first:
what it reads, what it writes and what it ends with. -/
namespace RDrive.Handshake
open Crypto Header Party Bytes Duplex Runs Wire

def transcript (clientNonce serverNonce clientKey serverKey : Key32) : Bytes :=
  clientNonce.val ++ serverNonce.val ++ clientKey.val ++ serverKey.val

def saltedKey (sharedKey : Key32) : Bytes :=
  sharedKey.val ++ List.replicate 32 15 ++ sharedKey.val ++ List.replicate 32 15 ++ handshakeBytes

section
variable {P : Primitives}

theorem fourParts (a b c d : Key32) :
    (do let buf ← copyInto (List.replicate 128 0) 0 32 a.val
        let buf ← copyInto buf 32 64 b.val
        let buf ← copyInto buf 64 96 c.val
        copyInto buf 96 128 d.val) = .ok (transcript a b c d) :=
  copyFour a.property (by rw [b.property]) (by rw [c.property]) (by rw [d.property]) 0

theorem serverSigns (hello : ClientHello) (nonce x25519Pub : Key32) :
    serverTranscript hello nonce x25519Pub =
      .ok (transcript hello.nonce nonce hello.x22519Key x25519Pub) := by
  unfold serverTranscript
  exact fourParts _ _ _ _

theorem clientChecks (met : Hellos) :
    clientTranscript P met = .ok (transcript met.clientHello.nonce met.serverHello.nonce
      (P.x25519.publicKey met.x25519Pri) met.serverHello.x22519Key) := by
  unfold clientTranscript
  exact fourParts _ _ _ _

theorem packetParts (signature : {b : Bytes // b.length = 64}) (pubKey : Key32) :
    signaturePacket signature pubKey = .ok (signature.val ++ pubKey.val) := by
  have first : copyInto (List.replicate 96 0) 0 64 signature.val =
      .ok (signature.val ++ List.replicate 32 0) := by
    have filled := copyIntoFill [] 0 96 0 64 (Nat.zero_le 0) (by decide) (by decide)
      signature.property
    simpa using filled
  have second : copyInto (signature.val ++ List.replicate 32 0) 64 96 pubKey.val =
      .ok (signature.val ++ pubKey.val) := by
    have filled := copyIntoFill signature.val 0 32 64 96 (by simp [signature.property])
      (by decide) (by simp [signature.property]) pubKey.property
    simpa [signature.property] using filled
  unfold signaturePacket
  simp only [first,Outcome.bindOk,second]

theorem saltParts (sharedKey : Key32) :
    (do let key ← copyInto (List.replicate 148 15) 0 32 sharedKey.val
        let key ← copyInto key 64 96 sharedKey.val
        copyInto key 128 148 handshakeBytes) = .ok (saltedKey sharedKey) := by
  have size := sharedKey.property
  have text : handshakeBytes.length = 148 - 128 := rfl
  have first : copyInto (List.replicate 148 15) 0 32 sharedKey.val =
      .ok (sharedKey.val ++ List.replicate 116 15) := by
    have filled := copyIntoFill [] 15 148 0 32 (Nat.zero_le 0) (by decide) (by decide) size
    simpa using filled
  have second : copyInto (sharedKey.val ++ List.replicate 116 15) 64 96 sharedKey.val =
      .ok (sharedKey.val ++ List.replicate 32 15 ++ sharedKey.val ++ List.replicate 52 15) := by
    have filled := copyIntoFill sharedKey.val 15 116 64 96 (by simp [size]) (by decide)
      (by simp [size]) size
    simpa [size] using filled
  have third : copyInto (sharedKey.val ++ List.replicate 32 15 ++ sharedKey.val ++
      List.replicate 52 15) 128 148 handshakeBytes = .ok (saltedKey sharedKey) := by
    have filled := copyIntoFill (sharedKey.val ++ List.replicate 32 15 ++ sharedKey.val) 15 52 128 148
      (by simp [size]) (by decide) (by simp [size]) text
    simpa [saltedKey,size] using filled
  simp only [first,Outcome.bindOk,second,third]

theorem serverSalts (sharedKey : Key32) :
    serverSessionKey P sharedKey = .ok (P.hashes.sha256 (saltedKey sharedKey)) := by
  have salted := saltParts sharedKey
  simp only [Outcome.bindIsOk] at salted
  obtain ⟨one,first,two,second,third⟩ := salted
  unfold serverSessionKey
  simp only [first,second,third,Outcome.bindOk]

theorem clientSalts (sharedKey : Key32) :
    clientSessionKey P sharedKey = .ok (P.hashes.sha256 (saltedKey sharedKey)) := by
  have salted := saltParts sharedKey
  simp only [Outcome.bindIsOk] at salted
  obtain ⟨one,first,two,second,third⟩ := salted
  unfold clientSessionKey
  simp only [first,second,third,Outcome.bindOk]

end

section Turns
variable {P : Primitives} {h : Host}

theorem rawSent {data : Bytes} (small : data.length ≤ Frame.u32Max) :
    Advances Host.handle (writeRawFrameInto data) h [] (rawFrame data) (.done (.ok ())) h := by
  unfold writeRawFrameInto
  rw [if_neg (by omega)]
  exact Host.sendAdvances _

theorem rawTaken (late : String) {data : Bytes} (positive : 0 < data.length)
    (bounded : data.length ≤ Frame.maxFrameLength) :
    Advances Host.handle (readRawDataInto late) h (rawFrame data) [] (.done (.ok data)) h := by
  have admitted := Session.lengthAdmitted positive bounded
  have size := Frame.be32Length data.length
  unfold readRawDataInto rawFrame
  generalize Frame.be32 data.length = four at admitted size
  have received : ∀ {n : Nat} {b : Bytes} (same : b.length = n),
      Advances Host.handle (recv n) h b [] (.done (.ok (.ok ⟨b,same⟩))) h :=
    fun same => advancesRead same (.rest _ _)
  refine advancesReads (received size) ?_
  simp only [admitted,Program.liftDone,Program.bindDone]
  exact advancesTaken (received rfl) (.rest _ _)

theorem approved {serverIp : SocketAddr} {shouldTrust : Bool} {key : Bytes}
    (valid : verifyingKey P.signing.toEd25519 key = .ok key)
    (trusted : shouldTrust = false → h.serverMap.get serverIp = some (Hex.encode key)) :
    ∃ g : Host, Advances Host.handle (approveServer P serverIp shouldTrust key) h [] []
      (.done (.ok key)) g := by
  have size := (verifyingKeyOk valid).2
  have read : (Host.handle h .readServerMap).1 = some h.serverMap := rfl
  unfold approveServer
  cases shouldTrust with
  | false =>
    refine ⟨h,advancesQuiet (.here (.rest _ _)) ?_⟩
    simp only [read,trusted rfl,valid,Program.liftDone,Program.bindDone,preapprove,Program.pureDone,
      Hex.decodeEncode,size,ne_eq,not_true_eq_false,if_false]
    exact .rest _ _
  | true =>
    let changed := h.serverMap.insert serverIp (Hex.encode key)
    have stored : changed.get serverIp = some (Hex.encode key) := AuthServerMap.getInserted _ _ _
    refine ⟨{h with serverMap := changed},advancesQuiet (.here (.rest _ _)) ?_⟩
    simp only [read,valid,Program.liftDone,Program.bindDone,preapprove]
    have saved : Advances Host.handle (saveServer h.serverMap serverIp (Hex.encode key)) h [] []
        (.done (.ok changed)) {h with serverMap := changed} :=
      advancesQuiet (.here (.rest _ _)) (.rest _ _)
    refine advancesQuiet saved ?_
    simp only [stored,Program.bindDone,Hex.decodeEncode,valid,size,ne_eq,
      not_true_eq_false,if_false]
    exact .rest _ _

theorem clientTurns (P : Primitives) (signingKey : Key32) (serverIp : SocketAddr)
    (shouldTrust : Bool) (h : Host) :
    ∃ (x25519Pri : Key32) (hello : ClientHello) (waiting : Party Bytes) (g : Host),
      hello.x22519Key = P.x25519.publicKey x25519Pri ∧
      Advances Host.handle (clientHandshakeHelper P signingKey serverIp shouldTrust) h []
        (rawFrame hello.serialize) waiting g ∧
      ∀ (met : ServerHello) (challenge : Bytes), challenge.length = 64 →
        verifyingKey P.signing.toEd25519 met.ed25519Key.val = .ok met.ed25519Key.val →
        (shouldTrust = false → h.serverMap.get serverIp = some (Hex.encode met.ed25519Key.val)) →
        P.signing.verify met.ed25519Key.val (P.hashes.sha512
          (transcript hello.nonce met.nonce hello.x22519Key met.x22519Key)) met.signature.val = true →
        ∃ last : Host, Advances Host.handle waiting g
          (rawFrame met.serialize ++ rawFrame challenge)
          (rawFrame ((P.signing.sign signingKey challenge).val ++ (P.signing.publicKey signingKey).val))
          (.done (.ok (P.hashes.sha256
            (saltedKey (P.x25519.diffieHellman x25519Pri met.x22519Key))))) last := by
  let x25519Pri := h.random h.drawn 32
  let nonce := h.random (h.drawn + 1) 32
  let hello : ClientHello := ⟨P.x25519.publicKey x25519Pri,nonce⟩
  let waiting : Party Bytes := do
    let serverHelloData ← readRawDataInto "Timeout reading frame length"
    let serverHello ← ServerHello.deserialize serverHelloData
    let approvedServerKey ← approveServer P serverIp shouldTrust serverHello.ed25519Key.val
    answerChallenge P signingKey ⟨x25519Pri,hello,serverHello⟩ approvedServerKey
  have helloSize := hello.length
  refine ⟨x25519Pri,hello,waiting,{h with drawn := h.drawn + 2},rfl,?_,?_⟩
  · unfold clientHandshakeHelper exchangeHellos
    simp only [Program.bindAssoc]
    refine advancesQuiet (Host.drawAdvances 32) (advancesQuiet (Host.drawAdvances 32) ?_)
    refine advancesLast (rawSent (by rw [helloSize]; decide)) ?_
    exact .rest _ _
  · intro met challenge challengeSize valid trusted signed
    have metSize := met.length
    obtain ⟨last,decided⟩ := approved (P := P) (h := {h with drawn := h.drawn + 2}) valid trusted
    have packet := packetParts (P.signing.sign signingKey challenge) (P.signing.publicKey signingKey)
    refine ⟨last,?_⟩
    refine advancesReads (rawTaken _ (by rw [metSize]; decide) (by rw [metSize]; decide)) ?_
    rw [ServerHello.read,Program.liftDone,Program.bindDone]
    refine advancesQuiet decided ?_
    unfold answerChallenge
    rw [clientChecks,Program.liftDone,Program.bindDone,if_pos signed]
    refine advancesTaken (rawTaken _ (by omega) (by rw [challengeSize]; decide)) ?_
    rw [packet,Program.liftDone,Program.bindDone]
    refine advancesLast (rawSent ?_) ?_
    · rw [List.length_append,(P.signing.sign signingKey challenge).property,
        (P.signing.publicKey signingKey).property]
      decide
    · rw [clientSalts]
      exact .rest _ _

/- server_handshake from its challenge on. -/
def readAnswer (P : Primitives) (x25519Pri : Key32) (clientHello : ClientHello) (challenge : Bytes) :
    Party (Key32 × Bytes) := do
  let packet ← readRawDataInto "Handshake timed out reading client signature"
  let (signature,pubKey) ← splitAt packet 64
  match verifyingKey P.signing.toEd25519 pubKey with
  | .panic => .done .panic
  | .err e => .fail s!"Failed to construct client's Ed25519 public key from bytes: {e}"
  | .ok verifyKey =>
    if P.signing.verify verifyKey challenge signature then
      pure (P.x25519.diffieHellman x25519Pri clientHello.x22519Key,verifyKey)
    else .fail "Failed to verify client's signature: signature error"

theorem replyTurns (P : Primitives) (K : ServerKeys) (h : Host)
    (loaded : verifyingKey P.signing.toEd25519 K.pubKeyBytes.val = .ok K.pubKeyBytes.val) :
    ∃ x25519Pri : Key32, ∀ hello : ClientHello,
      ∃ (nonce : Key32) (challenge : Bytes) (waiting : Party (Key32 × Bytes)) (g : Host),
        challenge.length = 64 ∧
        Advances Host.handle (serverHandshake P K) h (rawFrame hello.serialize)
          (rawFrame (ServerHello.serialize ⟨K.pubKeyBytes,P.x25519.publicKey x25519Pri,
            P.signing.sign K.priKeyBytes (P.hashes.sha512 (transcript hello.nonce nonce
              hello.x22519Key (P.x25519.publicKey x25519Pri))),nonce⟩) ++ rawFrame challenge)
          waiting g ∧
        ∀ (signature : {b : Bytes // b.length = 64}) (pubKey : Key32),
          verifyingKey P.signing.toEd25519 pubKey.val = .ok pubKey.val →
          P.signing.verify pubKey.val challenge signature.val = true →
          Advances Host.handle waiting g (rawFrame (signature.val ++ pubKey.val)) []
            (.done (.ok (P.x25519.diffieHellman x25519Pri hello.x22519Key,pubKey.val))) g := by
  let x25519Pri := h.random h.drawn 32
  refine ⟨x25519Pri,fun hello => ?_⟩
  let nonce := h.random (h.drawn + 1) 32
  let challenge := P.hashes.sha512 (h.random (h.drawn + 2) 64).val
  have challengeSize : challenge.length = 64 := P.hashes.sha512Length _
  have helloSize := hello.length
  refine ⟨nonce,challenge,readAnswer P x25519Pri hello challenge,{h with drawn := h.drawn + 3},
    challengeSize,?_,?_⟩
  · unfold serverHandshake
    refine advancesQuiet (Host.drawAdvances 32) ?_
    refine advancesTaken (rawTaken _ (by rw [helloSize]; decide) (by rw [helloSize]; decide)) ?_
    rw [ClientHello.read,Program.liftDone,Program.bindDone]
    refine advancesQuiet (Host.drawAdvances 32) ?_
    rw [loaded,Program.liftDone,Program.bindDone,serverSigns,Program.liftDone,Program.bindDone]
    refine advancesWrites (rawSent (by rw [ServerHello.length]; decide)) ?_
    refine advancesQuiet (Host.drawAdvances 64) ?_
    exact advancesLast (rawSent (by rw [P.hashes.sha512Length]; decide)) (.rest _ _)
  · intro signature pubKey valid verified
    have size : (signature.val ++ pubKey.val).length = 96 := by
      simp [signature.property,pubKey.property]
    have cut : splitAt (signature.val ++ pubKey.val) 64 = .ok (signature.val,pubKey.val) := by
      rw [splitAtOk (by omega),List.take_left' signature.property,List.drop_left' signature.property]
    refine advancesTaken (rawTaken _ (by omega) (by rw [size]; decide)) ?_
    rw [cut,Program.liftDone,Program.bindDone]
    simp only [valid,verified,if_true]
    exact .rest _ _

theorem serverTurns (P : Primitives) (K : ServerKeys) (h : Host)
    (loaded : verifyingKey P.signing.toEd25519 K.pubKeyBytes.val = .ok K.pubKeyBytes.val) :
    ∃ x25519Pri : Key32, ∀ hello : ClientHello,
      ∃ (nonce : Key32) (challenge : Bytes) (waiting : Party (Bytes × Bytes)) (g : Host),
        challenge.length = 64 ∧
        Advances Host.handle (greetClient P K) h (rawFrame hello.serialize)
          (rawFrame (ServerHello.serialize ⟨K.pubKeyBytes,P.x25519.publicKey x25519Pri,
            P.signing.sign K.priKeyBytes (P.hashes.sha512 (transcript hello.nonce nonce
              hello.x22519Key (P.x25519.publicKey x25519Pri))),nonce⟩) ++ rawFrame challenge)
          waiting g ∧
        ∀ (signature : {b : Bytes // b.length = 64}) (pubKey : Key32),
          verifyingKey P.signing.toEd25519 pubKey.val = .ok pubKey.val →
          P.signing.verify pubKey.val challenge signature.val = true →
          Advances Host.handle waiting g (rawFrame (signature.val ++ pubKey.val)) []
            (.done (.ok (P.hashes.sha256
              (saltedKey (P.x25519.diffieHellman x25519Pri hello.x22519Key)),pubKey.val))) g := by
  obtain ⟨x25519Pri,responds⟩ := replyTurns P K h loaded
  refine ⟨x25519Pri,fun hello => ?_⟩
  obtain ⟨nonce,challenge,waiting,g,size,greeted,finishes⟩ := responds hello
  refine ⟨nonce,challenge,_,g,size,advancesBind (advancesAttempt greeted),?_⟩
  intro signature pubKey valid verified
  refine advancesTaken (advancesAttempt (finishes signature pubKey valid verified)) ?_
  simp only [serverSalts,Program.liftDone,Program.bindDone]
  exact .rest _ _

end Turns

section Meeting
variable {P : Primitives} {K : ServerKeys} {S : Session} {signingKey : Key32}
  {serverIp : SocketAddr} {shouldTrust : Bool} {client server : Host}

def meeting {β : Type} (P : Primitives) (signingKey : Key32) (serverIp : SocketAddr)
    (shouldTrust : Bool) (client : Host) (server : End HostSig Host β) :
    Wire HostSig Host Host Bytes β :=
  ⟨⟨clientHandshakeHelper P signingKey serverIp shouldTrust,client⟩,server,Pipe.empty,Pipe.empty⟩

/- The server's two files are one key pair, and the client knows the server or was
told to trust it. -/
structure Honest (P : Primitives) (K : ServerKeys) (serverIp : SocketAddr) (shouldTrust : Bool)
    (client : Host) : Prop where
  pair : K.pubKeyBytes = P.signing.publicKey K.priKeyBytes
  trusted : shouldTrust = false →
    client.serverMap.get serverIp = some (Hex.encode K.pubKeyBytes.val)

def agreed (P : Primitives) (S : Session) (signingKey : Key32) (sessionKey : Bytes) : Session :=
  {S with sessionKey := sessionKey, clientKey := (P.signing.publicKey signingKey).val}

def quiet {α β : Type} (left : End HostSig Host α) (right : End HostSig Host β) :
    Wire HostSig Host Host α β := ⟨left,right,Pipe.empty,Pipe.empty⟩

abbrev wired {α β : Type} := Wire.step (L := HostSig) (α := α) (β := β) Host.handle Host.handle
abbrev joined {α β : Type} := openStep (L := HostSig) (α := α) (β := β) Host.handle Host.handle

theorem quietBound {α β : Type} {w : Wire HostSig Host Host α β} {left : End HostSig Host α}
    {right : End HostSig Host β} (leads : Leads joined w.flat (quiet left right).flat) :
    Bound wired w (quiet left right) := boundDelivered (L := HostSig) Host.handle Host.handle leads ⟨rfl,rfl⟩

theorem leftMoves {α β : Type} {p q : Party α} {s t : Host} {input output : Bytes}
    (advanced : Advances Host.handle p s input output q t) (e : End HostSig Host β) :
    Leads joined ⟨⟨p,s⟩,e,input,[]⟩ ⟨⟨q,t⟩,e,[],output⟩ := by
  have moved := leftOpen (L := HostSig) Host.handle (e := e) advanced [] []
  simpa only [List.append_nil,List.nil_append] using moved

theorem rightMoves {α β : Type} {p q : Party β} {s t : Host} {input output : Bytes}
    (advanced : Advances Host.handle p s input output q t) (e : End HostSig Host α) :
    Leads joined ⟨e,⟨p,s⟩,[],input⟩ ⟨e,⟨q,t⟩,output,[]⟩ := by
  have moved := rightOpen (L := HostSig) Host.handle (e := e) advanced [] []
  simpa only [List.append_nil,List.nil_append] using moved

theorem publicValid (P : Primitives) (k : Key32) :
    verifyingKey P.signing.toEd25519 (P.signing.publicKey k).val = .ok (P.signing.publicKey k).val := by
  unfold verifyingKey
  rw [if_neg (by simp [(P.signing.publicKey k).property]),if_pos (P.signing.publicPoint k)]

theorem handshakeRuns (signingKey : Key32) (server : Host)
    (honest : Honest P K serverIp shouldTrust client) :
    ∃ sessionKey left right, sessionKey.length = 32 ∧
      ∀ {β : Type} (serve : Bytes × Bytes → Party β),
        Leads joined
          (meeting P signingKey serverIp shouldTrust client ⟨greetClient P K >>= serve,server⟩).flat
          (quiet ⟨.done (.ok sessionKey),left⟩
            ⟨serve (sessionKey,(P.signing.publicKey signingKey).val),right⟩).flat := by
  have loaded := publicValid P K.priKeyBytes
  rw [← honest.pair] at loaded
  obtain ⟨clientPri,hello,clientWaits,client',ours,greeted,answers⟩ :=
    clientTurns P signingKey serverIp shouldTrust client
  obtain ⟨serverPri,responds⟩ := serverTurns P K server loaded
  obtain ⟨nonce,challenge,serverWaits,server',size,challenged,checks⟩ := responds hello
  let digest := P.hashes.sha512 (transcript hello.nonce nonce hello.x22519Key
    (P.x25519.publicKey serverPri))
  have signed := P.signing.signed K.priKeyBytes digest
  rw [← honest.pair] at signed
  obtain ⟨left,answered⟩ := answers ⟨K.pubKeyBytes,P.x25519.publicKey serverPri,
    P.signing.sign K.priKeyBytes digest,nonce⟩ challenge size loaded honest.trusted signed
  have accepted := checks (P.signing.sign signingKey challenge) (P.signing.publicKey signingKey)
    (publicValid P signingKey) (P.signing.signed signingKey challenge)
  let sharedKey := P.x25519.diffieHellman clientPri (P.x25519.publicKey serverPri)
  have agree : P.x25519.diffieHellman serverPri hello.x22519Key = sharedKey := by
    rw [ours]
    exact P.x25519.agrees serverPri clientPri
  rw [agree] at accepted
  refine ⟨P.hashes.sha256 (saltedKey sharedKey),left,server',P.hashes.sha256Length _,?_⟩
  intro β serve
  have first := leftMoves greeted ⟨greetClient P K >>= serve,server⟩
  have second := rightMoves (advancesBind (f := serve) challenged) ⟨clientWaits,client'⟩
  have third := leftMoves answered ⟨serverWaits >>= serve,server'⟩
  have fourth := rightMoves (advancesBind (f := serve) accepted)
    ⟨.done (.ok (P.hashes.sha256 (saltedKey sharedKey))),left⟩
  exact leadsTrans first (leadsTrans second (leadsTrans third fourth))

theorem quietStuck {α β : Type} {left : End HostSig Host α} {right : End HostSig Host β}
    (leftWaits : left.step Host.handle [] false = none)
    (rightWaits : right.step Host.handle [] false = none) :
    Stuck joined (quiet left right).flat := by
  intro side
  cases side with
  | left => exact Option.map_eq_none_iff.mpr leftWaits
  | right => exact Option.map_eq_none_iff.mpr rightWaits

theorem handedOver {γ : Type} {w : Wire HostSig Host Host Bytes Unit} {sessionKey : Bytes}
    {left : Host} {right : End HostSig Host Unit} {result : Outcome Bytes}
    (caller : Bytes → Party γ)
    (leads : Leads joined w.flat
      (quiet ⟨.done (.ok sessionKey),left⟩ right).flat)
    (returned : w.left.program = .done result) :
    result = .ok sessionKey ∧ w.toLeft = Pipe.empty ∧
      ∃ next, w.handover caller = some next ∧
        Bound wired next (quiet ⟨caller sessionKey,left⟩ right) := by
  obtain ⟨sides,ran⟩ := leads
  obtain ⟨same,sent,joined,onward⟩ := rightAlone Host.handle Host.handle (l := w.flat) ran returned
  obtain ⟨none_,nothing⟩ := List.append_eq_nil_iff.mp joined.symm
  have ended : w.left = ⟨.done (.ok sessionKey),left⟩ := same.symm
  have empty := Pipe.emptyOf none_
  rw [ended] at returned
  cases returned
  refine ⟨rfl,empty,⟨⟨caller sessionKey,left⟩,w.right,Pipe.empty,w.toRight⟩,?_,?_⟩
  · simp [handover,ended,empty,Pipe.empty]
  · have rest := onward ⟨caller sessionKey,left⟩ []
    rw [nothing] at rest
    exact quietBound rest

def request {γ : Type} (S : Session) (command : Command) (caller : Bytes → Party γ) : Party γ := do
  S.writeEncryptFrameInto command.serialize
  let response ← S.readEncryptDataInto
  caller response

def await {γ : Type} (S : Session) (caller : Bytes → Party γ) : Party γ := do
  let response ← S.readEncryptDataInto
  caller response

theorem commandArrives {γ : Type} (S : Session) {command : Command} (left right : Host)
    (small : nonceLen + command.serialize.length + tagLen ≤ Frame.maxFrameLength)
    (caller : Bytes → Party γ) :
    ∃ left', Bound wired
        (quiet ⟨request S command caller,left⟩ ⟨S.handleConnection,right⟩)
        (quiet ⟨await S caller,left'⟩ ⟨S.dispatch command,right⟩) ∧
      ∀ (nonce : Nonce) (response : Bytes) (q : Party Unit) (right' : Host),
        nonceLen + response.length + tagLen ≤ Frame.maxFrameLength →
        Advances Host.handle (S.dispatch command) right []
          (Frame.frame S.cipher S.sessionKey nonce response) q right' →
        Bound wired
          (quiet ⟨await S caller,left'⟩ ⟨S.dispatch command,right⟩)
          (quiet ⟨caller response,left'⟩ ⟨q,right'⟩) := by
  obtain ⟨nonce,written⟩ := Session.frameWritten (S := S) (h := left) command.serialize
    (by unfold Frame.maxFrameLength at small; unfold Frame.u32Max; omega)
  have asked : Advances Host.handle (request S command caller) left []
      (Frame.frame S.cipher S.sessionKey nonce command.serialize) (await S caller)
      {left with drawn := left.drawn + 1} := advancesLast written (.rest _ _)
  refine ⟨{left with drawn := left.drawn + 1},?_,?_⟩
  · have taken : Advances Host.handle S.handleConnection right
        (Frame.frame S.cipher S.sessionKey nonce command.serialize) [] (S.dispatch command) right :=
      Session.commandTaken small (.rest _ _)
    have first := leftMoves asked ⟨S.handleConnection,right⟩
    have second := rightMoves taken ⟨await S caller,{left with drawn := left.drawn + 1}⟩
    exact quietBound (leadsTrans first second)
  · intro nonce response q right' fits responded
    have read : Advances Host.handle (await S caller) {left with drawn := left.drawn + 1}
        (Frame.frame S.cipher S.sessionKey nonce response) [] (caller response)
        {left with drawn := left.drawn + 1} := advancesTaken (Session.frameTaken fits) (.rest _ _)
    have first := rightMoves responded ⟨await S caller,{left with drawn := left.drawn + 1}⟩
    have second := leftMoves read ⟨q,right'⟩
    exact quietBound (leadsTrans first second)

/- Both functions return in every run that goes on long enough, with one session key
and the client's own key. The reader the client then drops is empty, and from there
the run goes on as from the start of the session: the server's first frame is the
caller's command, the caller's the first one of the server's loop. -/
theorem handshakeAgrees (honest : Honest P K serverIp shouldTrust client) :
    ∃ sessionKey left right steps, sessionKey.length = 32 ∧
      (∀ acts w, run wired
          (meeting P signingKey serverIp shouldTrust client ⟨greetClient P K,server⟩) acts = some w →
        (acts.filter Act.own).length ≤ steps ∧
        Bound wired w
          (quiet ⟨.done (.ok sessionKey),left⟩
            ⟨.done (.ok (sessionKey,(P.signing.publicKey signingKey).val)),right⟩)) ∧
      (∀ acts w result, run wired
          (meeting P signingKey serverIp shouldTrust client ⟨serveConnection P K S,server⟩) acts =
            some w → w.left.program = .done result →
        result = .ok sessionKey ∧ w.toLeft = Pipe.empty ∧
        ∀ (γ : Type) (caller : Bytes → Party γ), ∃ next, w.handover caller = some next ∧
          Bound wired next (quiet ⟨caller sessionKey,left⟩
            ⟨(agreed P S signingKey sessionKey).handleConnection,right⟩)) ∧
      ∀ (γ : Type) (command : Command) (caller : Bytes → Party γ),
        nonceLen + command.serialize.length + tagLen ≤ Frame.maxFrameLength →
        ∃ left', Bound wired
            (quiet ⟨request (agreed P S signingKey sessionKey) command caller,left⟩
              ⟨(agreed P S signingKey sessionKey).handleConnection,right⟩)
            (quiet ⟨await (agreed P S signingKey sessionKey) caller,left'⟩
              ⟨(agreed P S signingKey sessionKey).dispatch command,right⟩) ∧
          ∀ (nonce : Nonce) (response : Bytes) (q : Party Unit) (right' : Host),
            nonceLen + response.length + tagLen ≤ Frame.maxFrameLength →
            Advances Host.handle ((agreed P S signingKey sessionKey).dispatch command) right []
              (Frame.frame S.cipher sessionKey nonce response) q right' →
            Bound wired
              (quiet ⟨await (agreed P S signingKey sessionKey) caller,left'⟩
                ⟨(agreed P S signingKey sessionKey).dispatch command,right⟩)
              (quiet ⟨caller response,left'⟩ ⟨q,right'⟩) := by
  obtain ⟨sessionKey,left,right,size,leads⟩ := handshakeRuns signingKey server honest
  obtain ⟨sides,ran⟩ := leads (fun result => (pure result : Party (Bytes × Bytes)))
  rw [Program.bindPure] at ran
  refine ⟨sessionKey,left,right,sides.length,size,?_,?_,?_⟩
  · intro acts w reached
    obtain ⟨own,flatRan,length⟩ := runFlat (L := HostSig) Host.handle Host.handle reached
    obtain ⟨rest,onward,total⟩ := endReachable (openCommutes (L := HostSig) Host.handle Host.handle) flatRan ran
      (quietStuck rfl rfl)
    exact ⟨by omega,quietBound ⟨rest,onward⟩⟩
  · intro acts w result reached returned
    obtain ⟨sides,ran⟩ := leads fun keys =>
      Session.handleConnection {S with sessionKey := keys.1, clientKey := keys.2}
    obtain ⟨own,flatRan,-⟩ := runFlat (L := HostSig) Host.handle Host.handle reached
    obtain ⟨rest,onward,-⟩ := endReachable (openCommutes (L := HostSig) Host.handle Host.handle) flatRan ran
      (quietStuck rfl rfl)
    obtain ⟨same,empty,-⟩ := handedOver (fun key => (pure key : Party Bytes)) ⟨rest,onward⟩ returned
    exact ⟨same,empty,fun γ caller => (handedOver caller ⟨rest,onward⟩ returned).2.2⟩
  · intro γ command caller small
    exact commandArrives (agreed P S signingKey sessionKey) left right small caller

/- A client that stored the server's key earlier meets it again. -/
def returning : Host :=
  {RoundTrip.sampleHost ⟨[]⟩ with serverMap := ⟨[(Trust.localhost,Hex.encode Trust.zeroKey.val)]⟩}

theorem returningAgrees : ∃ sessionKey left right, sessionKey.length = 32 ∧
    Bound wired (meeting Trust.samplePrimitives Trust.zeroKey Trust.localhost false returning
        ⟨greetClient Trust.samplePrimitives ⟨Trust.zeroKey,Trust.zeroKey⟩,RoundTrip.sampleHost ⟨[]⟩⟩)
      (quiet ⟨.done (.ok sessionKey),left⟩ ⟨.done (.ok (sessionKey,Trust.zeroKey.val)),right⟩) := by
  have honest : Honest Trust.samplePrimitives ⟨Trust.zeroKey,Trust.zeroKey⟩ Trust.localhost false
      returning := ⟨rfl,fun _ => by decide +kernel⟩
  obtain ⟨sessionKey,left,right,steps,size,agree,-⟩ :=
    @handshakeAgrees _ _ RoundTrip.sampleSession Trust.zeroKey _ _ _ (RoundTrip.sampleHost ⟨[]⟩) honest
  exact ⟨sessionKey,left,right,size,(agree [] _ rfl).2⟩

end Meeting
end RDrive.Handshake
