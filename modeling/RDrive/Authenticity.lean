import RDrive.Agreement
import RDrive.Framing

/-! What a handshake proves to the client: any runs of clients and of one honest server,
between them a network that delivers what it likes. -/
namespace RDrive.Handshake
open Crypto Header Party Bytes Program Trust

structure Traffic where
  drawn : List Bytes
  received : Bytes
  sent : Bytes

def noTraffic : Traffic := ⟨[],[],[]⟩

def traffic : Traffic → (c : (Port HostSig).Call) → (Port HostSig).Ret c → Traffic := fun g c r =>
  match c, r with
  | .here (.draw _), b => {g with drawn := g.drawn ++ [b.val]}
  | .recv _, .ok b => {g with received := g.received ++ b.val}
  | .send b, _ => {g with sent := g.sent ++ b}
  | _, _ => g

structure Traffic.Since (g t : Traffic) : Prop where
  drawn : g.drawn <+: t.drawn
  received : g.received <+: t.received
  sent : g.sent <+: t.sent

theorem sinceSelf (g : Traffic) : g.Since g :=
  ⟨List.prefix_refl _,List.prefix_refl _,List.prefix_refl _⟩

theorem sinceTrans {g t u : Traffic} (first : g.Since t) (second : t.Since u) : g.Since u :=
  ⟨first.drawn.trans second.drawn,first.received.trans second.received,first.sent.trans second.sent⟩

theorem sinceStep {g t : Traffic} {c : (Port HostSig).Call} {r : (Port HostSig).Ret c}
    (noted : noting traffic g c r t) : g.Since t := by
  cases noted
  unfold traffic
  split
  · exact ⟨List.prefix_append _ _,List.prefix_refl _,List.prefix_refl _⟩
  · exact ⟨List.prefix_refl _,List.prefix_append _ _,List.prefix_refl _⟩
  · exact ⟨List.prefix_refl _,List.prefix_refl _,List.prefix_append _ _⟩
  · exact sinceSelf g

theorem sinceSafe {α : Type} {p : Party α} {g : Traffic} {inv : Traffic → Prop}
    (lasting : ∀ {t u : Traffic}, inv t → t.Since u → inv u) (held : inv g) :
    Safe (noting traffic) inv (Returns fun _ _ => True) p g :=
  lastingSafe (fun _ _ _ _ held noted => lasting held (sinceStep noted)) held

section
variable {g : Traffic} {inv : Traffic → Prop} {late : String} {data : Bytes}

theorem recvNoted {n : Nat} (start : inv g) (held : ∀ bytes, inv {g with received := g.received ++ bytes}) :
    Safe (noting traffic) inv (Returns fun r t => t = traffic g (.recv n) r) (recv n) g := by
  refine ⟨start,?_⟩
  rintro (fault | b) t rfl
  · exact ⟨start,rfl⟩
  · exact ⟨held b.val,rfl⟩

theorem rawNoted (held : ∀ bytes, inv {g with received := g.received ++ bytes}) :
    Safe (noting traffic) inv (Returns fun data t => ∃ bytes, Framed bytes data [] ∧
      t = {g with received := g.received ++ bytes}) (readRawDataInto late) g := by
  have start : inv g := by simpa using held []
  unfold readRawDataInto
  refine safeThen (recvNoted start held) ?_
  rintro (fault | four) t - rfl
  · cases fault <;> exact ⟨start,trivial⟩
  have one : inv {g with received := g.received ++ four.val} := held four.val
  refine safeThen (safeLift (fun len u => u = {g with received := g.received ++ four.val} ∧
    Frame.admitLength (Frame.fromBe32 four.val) = .ok len) one fun _ admitted => ⟨rfl,admitted⟩) ?_
  rintro len t - ⟨rfl,admitted⟩
  have more : ∀ bytes, inv {g with received := g.received ++ four.val ++ bytes} := by
    intro bytes
    rw [List.append_assoc]
    exact held _
  refine safeThen (recvNoted one more) ?_
  rintro (fault | body) t - rfl
  · cases fault <;> exact ⟨one,trivial⟩
  refine ⟨more body.val,four.val ++ body.val,?_,?_⟩
  · rw [framedHead four.property,admitted,body.property]
    exact ⟨rfl,(List.append_nil _).symm⟩
  · dsimp only [traffic]
    rw [List.append_assoc]

theorem drawNoted {n : Nat} (start : inv g) (held : ∀ b, inv {g with drawn := g.drawn ++ [b]}) :
    Safe (noting traffic) inv (Returns fun b t => t = {g with drawn := g.drawn ++ [b.val]})
      (draw n) g := by
  refine ⟨start,?_⟩
  rintro b t rfl
  exact ⟨held b.val,rfl⟩

theorem writeNoted (start : inv g) (held : inv {g with sent := g.sent ++ rawFrame data}) :
    Safe (noting traffic) inv (Returns fun _ t => t = {g with sent := g.sent ++ rawFrame data})
      (writeRawFrameInto data) g := by
  unfold writeRawFrameInto
  split
  · exact ⟨start,trivial⟩
  refine ⟨start,?_⟩
  rintro (fault | ⟨⟩) t rfl
  · exact ⟨held,trivial⟩
  · exact ⟨held,rfl⟩

theorem liftNoted {α : Type} {x : Outcome α} (start : inv g) :
    Safe (noting traffic) inv (Returns fun a t => t = g ∧ x = .ok a) (liftM x : Party α) g :=
  safeLift _ start fun _ found => ⟨rfl,found⟩

end

section Server
variable {P : Primitives} {K : ServerKeys} {g t : Traffic} {hello : ClientHello} {x25519Pri nonce : Key32}

def answer (P : Primitives) (K : ServerKeys) (hello : ClientHello) (x25519Pri nonce : Key32) :
    ServerHello :=
  ⟨K.pubKeyBytes,P.x25519.publicKey x25519Pri,P.signing.sign K.priKeyBytes (P.hashes.sha512
    (transcript hello.nonce nonce hello.x22519Key (P.x25519.publicKey x25519Pri))),nonce⟩

structure Answered (P : Primitives) (K : ServerKeys) (g : Traffic) (hello : ClientHello)
    (x25519Pri nonce : Key32) : Prop where
  asked : ∃ data rest, Framed g.received data rest ∧ ClientHello.deserialize data = .ok hello
  drawn : [x25519Pri.val,nonce.val] <+: g.drawn
  said : rawFrame (answer P K hello x25519Pri nonce).serialize <+: g.sent

theorem answeredSince (answered : Answered P K g hello x25519Pri nonce) (since : g.Since t) :
    Answered P K t hello x25519Pri nonce := by
  obtain ⟨⟨data,rest,framed,read⟩,drawn,said⟩ := answered
  obtain ⟨left,framed,-⟩ := framedMore framed since.received
  exact ⟨⟨data,left,framed,read⟩,drawn.trans since.drawn,said.trans since.sent⟩

def Speaks (P : Primitives) (K : ServerKeys) (g : Traffic) : Prop :=
  g.sent = [] ∨ ∃ hello x25519Pri nonce, Answered P K g hello x25519Pri nonce

structure Concludes (P : Primitives) (K : ServerKeys) (g : Traffic) (hello : ClientHello)
    (x25519Pri nonce : Key32) (random : Bytes) (clientKey : Bytes) : Prop where
  answered : Answered P K g hello x25519Pri nonce
  drawn : g.drawn = [x25519Pri.val,nonce.val,random]
  said : g.sent = stream [(answer P K hello x25519Pri nonce).serialize,P.hashes.sha512 random]
  took : ∃ greeting packet signature, Begins g.received [greeting,packet] ∧
    splitAt packet 64 = .ok (signature,clientKey) ∧
    P.signing.verify clientKey (P.hashes.sha512 random) signature = true

inductive Replies (P : Primitives) (K : ServerKeys) (g : Traffic) : Prop where
  | silent (sent : g.sent = [])
  | answered {hello : ClientHello} {x25519Pri nonce : Key32} (done : Answered P K g hello x25519Pri nonce)
      (sent : g.sent = stream [(answer P K hello x25519Pri nonce).serialize])
  | challenged {hello : ClientHello} {x25519Pri nonce : Key32} {random : Bytes}
      (done : Answered P K g hello x25519Pri nonce)
      (sent : g.sent = stream [(answer P K hello x25519Pri nonce).serialize,P.hashes.sha512 random])

theorem repliesSpeaks (replies : Replies P K g) : Speaks P K g := by
  cases replies with
  | silent sent => exact .inl sent
  | answered done sent => exact .inr ⟨_,_,_,done⟩
  | challenged done sent => exact .inr ⟨_,_,_,done⟩

def OnlyTwo (input : Bytes) : Prop := ∃ one other, input = stream [one,other] ∧
  (0 < one.length ∧ one.length ≤ Frame.maxFrameLength) ∧ 0 < other.length ∧ other.length ≤ Frame.maxFrameLength

theorem streamTwo (first second : Bytes) : rawFrame first ++ rawFrame second = stream [first,second] := by
  simp [stream]

theorem packetReplies {bytes data : Bytes} (framed : Framed bytes data [])
    (read : ClientHello.deserialize data = .ok hello) (random : Bytes) :
    Safe (noting traffic) (Replies P K)
      (Returns fun met g => Concludes P K g hello x25519Pri nonce random met.2 ∧
        met.1 = P.x25519.diffieHellman x25519Pri hello.x22519Key ∧ OnlyTwo g.received)
      (finishGreeting P x25519Pri (P.hashes.sha512 random) hello)
      ⟨[x25519Pri.val,nonce.val,random],bytes,
        rawFrame (answer P K hello x25519Pri nonce).serialize ++ rawFrame (P.hashes.sha512 random)⟩ := by
  have done : ∀ more, Answered P K ⟨[x25519Pri.val,nonce.val,random],bytes ++ more,
      rawFrame (answer P K hello x25519Pri nonce).serialize ++ rawFrame (P.hashes.sha512 random)⟩
      hello x25519Pri nonce := fun more =>
    ⟨⟨data,more,framedThen framed more,read⟩,⟨[random],rfl⟩,List.prefix_append _ _⟩
  have stays : ∀ more, Replies P K ⟨[x25519Pri.val,nonce.val,random],bytes ++ more,
      rawFrame (answer P K hello x25519Pri nonce).serialize ++ rawFrame (P.hashes.sha512 random)⟩ :=
    fun more => .challenged (done more) (streamTwo _ (P.hashes.sha512 random))
  unfold finishGreeting
  refine safeThen (rawNoted fun received => stays received) ?_
  rintro packet _ - ⟨more,packed,rfl⟩
  refine safeThen (liftNoted (stays more)) ?_
  rintro ⟨signature,pubKey⟩ _ - ⟨rfl,cut⟩
  dsimp only
  split
  · exact ⟨stays more,trivial⟩
  · exact ⟨stays more,trivial⟩
  · rename_i verifyKey parsed
    split
    · rename_i verified
      obtain ⟨rfl,-⟩ := verifyingKeyOk parsed
      have took : Begins (bytes ++ more) [data,packet] :=
        ⟨more,framedThen framed more,[],packed,trivial⟩
      refine ⟨stays more,⟨done more,rfl,streamTwo _ _,data,packet,signature,took,cut,verified⟩,rfl,
        data,packet,?_,⟨framed.some_,framed.bounded⟩,packed.some_,packed.bounded⟩
      change bytes ++ more = _
      rw [framed.stream,packed.stream]
      simp [stream]
    · exact ⟨stays more,trivial⟩

theorem serverReplies (P : Primitives) (K : ServerKeys) : Safe (noting traffic) (Replies P K)
    (Returns fun met g => (∃ hello x25519Pri nonce random,
      Concludes P K g hello x25519Pri nonce random met.2 ∧
      met.1 = P.x25519.diffieHellman x25519Pri hello.x22519Key) ∧ OnlyTwo g.received)
      (serverHandshake P K) noTraffic := by
  unfold serverHandshake
  refine safeThen (drawNoted (.silent rfl) fun _ => .silent rfl) ?_
  rintro x25519Pri _ - rfl
  refine safeThen (rawNoted fun _ => .silent rfl) ?_
  rintro data _ - ⟨bytes,framed,rfl⟩
  refine safeThen (liftNoted (.silent rfl)) ?_
  rintro hello _ - ⟨rfl,read⟩
  refine safeThen (drawNoted (.silent rfl) fun _ => .silent rfl) ?_
  rintro nonce _ - rfl
  refine safeThen (liftNoted (.silent rfl)) ?_
  rintro _ _ - ⟨rfl,-⟩
  rw [serverSigns,Program.liftDone,Program.bindDone]
  let said : Traffic := ⟨[x25519Pri.val,nonce.val],bytes,rawFrame (answer P K hello x25519Pri nonce).serialize⟩
  have done : Answered P K said hello x25519Pri nonce :=
    ⟨⟨data,[],framed,read⟩,List.prefix_refl _,List.prefix_refl _⟩
  have waits : ∀ {t}, said.Since t → t.sent = said.sent → Replies P K t := fun since same =>
    .answered (answeredSince done since) (by simpa [stream] using same)
  refine safeThen (writeNoted (.silent rfl) (waits (sinceSelf _) rfl)) ?_
  rintro _ _ - rfl
  change Safe _ _ _ _ said
  refine safeThen (drawNoted (waits (sinceSelf _) rfl) fun _ => waits
    ⟨List.prefix_append _ _,List.prefix_refl _,List.prefix_refl _⟩ rfl) ?_
  rintro random _ - rfl
  have drawn : said.Since {said with drawn := said.drawn ++ [random.val]} :=
    ⟨List.prefix_append _ _,List.prefix_refl _,List.prefix_refl _⟩
  have challenged : Replies P K ⟨said.drawn ++ [random.val],said.received,
      said.sent ++ rawFrame (P.hashes.sha512 random.val)⟩ :=
    .challenged (answeredSince done ⟨List.prefix_append _ _,List.prefix_refl _,List.prefix_append _ _⟩)
      (streamTwo _ (P.hashes.sha512 random.val))
  refine safeThen (writeNoted (waits drawn rfl) challenged) ?_
  rintro _ _ - rfl
  refine safeWeaken (packetReplies framed read random.val) ?_
  rintro (met | message | _) _ - ends
  · exact ⟨⟨hello,x25519Pri,nonce,random.val,ends.1,ends.2.1⟩,ends.2.2⟩
  · trivial
  · trivial

theorem serverSpeaks (P : Primitives) (K : ServerKeys) : Safe (noting traffic) (Speaks P K)
    (Returns fun met g => ∃ hello x25519Pri nonce random,
      Concludes P K g hello x25519Pri nonce random met.2 ∧
      met.1 = P.x25519.diffieHellman x25519Pri hello.x22519Key) (serverHandshake P K) noTraffic := by
  refine safeWeaken (safeMono (serverReplies P K) fun _ => repliesSpeaks) ?_
  rintro (met | message | _) t - returned
  · exact returned.1
  · trivial
  · trivial

theorem answeredOnce {other : ClientHello} {pri more : Key32} (one : Answered P K g hello x25519Pri nonce)
    (two : Answered P K g other pri more) : other = hello ∧ pri = x25519Pri ∧ more = nonce := by
  obtain ⟨⟨data,rest,framed,read⟩,drawn,-⟩ := one
  obtain ⟨⟨data',rest',framed',read'⟩,drawn',-⟩ := two
  obtain ⟨rfl,-⟩ := framedUnique framed framed'
  have same := (List.prefix_of_prefix_length_le drawn' drawn (by simp)).eq_of_length (by simp)
  simp only [List.cons.injEq,and_true] at same
  exact ⟨Outcome.ok.inj (read'.symm.trans read),Subtype.ext same.1,Subtype.ext same.2⟩

end Server

section Client
variable {P : Primitives} {serverIp : SocketAddr} {key : Bytes} {s t : Desk} {g : Traffic}
  {signingKey : Key32} {met : Hellos}

/- The map file may fail, and after a failed write it holds anything. -/
def shaky : Env (Port HostSig) Desk := fun s c r after =>
  match c, r with
  | .here .readServerMap, some found => after = s ∧ found = s.serverMap
  | .here .readServerMap, none => after = s
  | .here (.writeServerMap map), true => after = ⟨map,s.asked⟩
  | .here (.writeServerMap _), false => after.asked = s.asked
  | .here (.ask question), answer => after = ⟨s.serverMap,⟨question,answer⟩ :: s.asked⟩
  | _, _ => after = s

def Decided (serverIp : SocketAddr) (key : Bytes) (s t : Desk) : Prop :=
  s.serverMap.get serverIp = some (Hex.encode key) ∨ ∃ x, t.asked = x :: s.asked ∧
    x.approves = true ∧ x.question.serverIp = serverIp ∧ x.question.presented = Hex.encode key

theorem asked_ (question : Question) (rejected : String) (s : Desk) :
    Safe shaky (fun _ => True) (Returns fun _ t => ∃ x : Asked, t.asked = x :: s.asked ∧
      x.approves = true ∧ x.question = question) (askUser question rejected) s := by
  unfold askUser
  refine hereSafe trivial ?_
  rintro answer after rfl
  cases answer with
  | none => exact ⟨trivial,trivial⟩
  | some input =>
    dsimp only
    split
    · rename_i accepted
      exact ⟨trivial,_,rfl,accepted,rfl⟩
    · exact ⟨trivial,trivial⟩

theorem saved_ (map : AuthServerMap) (text : String) (s : Desk) :
    Safe shaky (fun _ => True) (Returns fun _ t => t.asked = s.asked)
      (saveServer map serverIp text) s := by
  refine ⟨trivial,?_⟩
  rintro (_ | _) after same
  · exact ⟨trivial,trivial⟩
  · cases (same : after = _)
    exact ⟨trivial,rfl⟩

theorem consentDecides {question : Question} {rejected : String} {map : AuthServerMap} {text : String}
    (here : question.serverIp = serverIp) (about : question.presented = Hex.encode key) :
    Safe shaky (fun _ => True) (Returns fun approved t => approved = key ∧ Decided serverIp key s t)
      (do askUser question rejected
          let _ ← saveServer map serverIp text
          pure key) s := by
  refine safeThen (asked_ question rejected s) ?_
  rintro _ t - ⟨x,asked,yes,rfl⟩
  refine safeThen (saved_ map text t) ?_
  rintro _ u - same
  exact ⟨trivial,rfl,.inr ⟨x,same.trans asked,yes,here,about⟩⟩

theorem approveDecides (P : Primitives) (serverIp : SocketAddr) (key : Bytes) (s : Desk) :
    Safe shaky (fun _ => True) (Returns fun approved t => approved = key ∧ Decided serverIp key s t)
      (approveServer P serverIp false key) s := by
  refine hereSafe trivial ?_
  rintro (_ | stored) after answered
  · exact ⟨trivial,trivial⟩
  obtain ⟨rfl,rfl⟩ : after = s ∧ stored = s.serverMap := answered
  dsimp only
  cases parsed : verifyingKey P.signing.toEd25519 key with
  | err message => exact ⟨trivial,trivial⟩
  | panic => exact ⟨trivial,trivial⟩
  | ok serverKey =>
    obtain ⟨rfl,-⟩ := verifyingKeyOk parsed
    simp only [Program.liftDone,Program.bindDone,Program.pureDone,preapprove]
    cases found : after.serverMap.get serverIp with
    | none => refine consentDecides ?_ ?_ <;> rfl
    | some existing =>
      dsimp only
      split
      · refine consentDecides ?_ ?_ <;> rfl
      · rename_i same
        cases Decidable.not_not.mp same
        rw [Hex.decodeEncode,Program.bindDone]
        split
        · exact ⟨trivial,trivial⟩
        · exact safeLift _ trivial fun approved known =>
            ⟨(verifyingKeyOk known).1,.inl found⟩

structure Met (P : Primitives) (g : Traffic) (met : Hellos) : Prop where
  own : met.clientHello.x22519Key = P.x25519.publicKey met.x25519Pri
  drawn : [met.x25519Pri.val,met.clientHello.nonce.val] <+: g.drawn
  said : rawFrame met.clientHello.serialize <+: g.sent
  heard : ∃ data rest, Framed g.received data rest ∧ ServerHello.deserialize data = .ok met.serverHello

theorem metSince {t : Traffic} (done : Met P g met) (since : g.Since t) : Met P t met := by
  obtain ⟨own,drawn,said,data,rest,framed,read⟩ := done
  obtain ⟨left,framed,-⟩ := framedMore framed since.received
  exact ⟨own,drawn.trans since.drawn,said.trans since.sent,data,left,framed,read⟩

structure Greeted (P : Primitives) (g : Traffic) (met : Hellos) : Prop extends Met P g met where
  all_ : g.sent = stream [met.clientHello.serialize]
  only : ∃ data, Framed g.received data []

theorem hellosMet (P : Primitives) : Safe (noting traffic)
    (fun g => g.sent = [] ∨ ∃ hello : ClientHello, g.sent = stream [hello.serialize])
    (Returns fun met g => Greeted P g met) (exchangeHellos P) noTraffic := by
  unfold exchangeHellos
  refine safeThen (drawNoted (.inl rfl) fun _ => .inl rfl) ?_
  rintro x25519Pri _ - rfl
  refine safeThen (drawNoted (.inl rfl) fun _ => .inl rfl) ?_
  rintro nonce _ - rfl
  let hello : ClientHello := ⟨P.x25519.publicKey x25519Pri,nonce⟩
  have said : noTraffic.sent ++ rawFrame hello.serialize = stream [hello.serialize] := by
    simp [stream,noTraffic]
  refine safeThen (writeNoted (.inl rfl) (.inr ⟨hello,said⟩)) ?_
  rintro _ _ - rfl
  refine safeThen (rawNoted fun _ => .inr ⟨hello,said⟩) ?_
  rintro data _ - ⟨bytes,framed,rfl⟩
  refine safeThen (liftNoted (.inr ⟨hello,said⟩)) ?_
  rintro answer _ - ⟨rfl,read⟩
  exact ⟨.inr ⟨hello,said⟩,⟨rfl,List.prefix_refl _,List.prefix_refl _,data,[],framed,read⟩,said,data,
    framed⟩

def challenged (P : Primitives) (met : Hellos) : Bytes :=
  P.hashes.sha512 (transcript met.clientHello.nonce met.serverHello.nonce
    (P.x25519.publicKey met.x25519Pri) met.serverHello.x22519Key)

theorem answerChecks (approved : Bytes) (g : Traffic) : Safe (noting traffic) (g.Since ·)
    (Returns fun sessionKey _ => P.signing.verify approved (challenged P met)
        met.serverHello.signature.val = true ∧
      sessionKey = P.hashes.sha256 (saltedKey (P.x25519.diffieHellman met.x25519Pri
        met.serverHello.x22519Key))) (answerChallenge P signingKey met approved) g := by
  have start := sinceSelf g
  unfold answerChallenge
  rw [clientChecks,Program.liftDone,Program.bindDone]
  split
  · rename_i verified
    refine safeThen (rawNoted fun bytes => ⟨List.prefix_refl _,List.prefix_append _ _,List.prefix_refl _⟩) ?_
    rintro nonce t since -
    refine safeThen (liftNoted since) ?_
    rintro packet _ - ⟨rfl,-⟩
    refine safeThen (sinceSafe (fun held => sinceTrans held) since) ?_
    rintro _ u since -
    rw [clientSalts]
    exact ⟨since,verified,rfl⟩
  · exact ⟨start,trivial⟩

end Client
structure ClientRun where
  signingKey : Key32
  serverIp : SocketAddr
  before : Desk
  after : Desk
  traffic : Traffic
  ends : Party Bytes

abbrev clientSide : Env (Port HostSig) (Desk × Traffic) := joint shaky (noting traffic)

def ClientRun.Ran (P : Primitives) (c : ClientRun) : Prop :=
  Reaches clientSide (clientHandshakeHelper P c.signingKey c.serverIp false) (c.before,noTraffic)
    c.ends (c.after,c.traffic)

structure ServerRun where
  traffic : Traffic
  ends : Party (Key32 × Bytes)

abbrev serverSide : Env (Port HostSig) Traffic := noting traffic

def ServerRun.Ran (P : Primitives) (K : ServerKeys) (s : ServerRun) : Prop :=
  Reaches serverSide (serverHandshake P K) noTraffic s.ends s.traffic

def ClientRun.Went (P : Primitives) (c : ClientRun) (met : Hellos) (approved sessionKey : Bytes) : Prop :=
  ∃ u v, Reaches clientSide (exchangeHellos P) (c.before,noTraffic) (.done (.ok met)) u ∧
    Reaches clientSide (approveServer P c.serverIp false met.serverHello.ed25519Key.val) u
      (.done (.ok approved)) v ∧
    Reaches clientSide (answerChallenge P c.signingKey met approved) v (.done (.ok sessionKey))
      (c.after,c.traffic)

def Signed (P : Primitives) (K : ServerKeys) (g : Traffic) (message : Bytes) : Prop :=
  ∃ hello : ServerHello, rawFrame hello.serialize <+: g.sent ∧
    hello.signature = P.signing.sign K.priKeyBytes message

/- Only these servers sign with the key, no two transcripts have one signature, and
nonces do not repeat. -/
structure Ideal (P : Primitives) (K : ServerKeys) (clients : List ClientRun)
    (servers : List ServerRun) : Prop where
  unforged : ∀ c ∈ clients, ∀ met, Met P c.traffic met →
    P.signing.verify K.pubKeyBytes.val (challenged P met) met.serverHello.signature.val = true →
    ∃ s ∈ servers, Signed P K s.traffic (challenged P met)
  collisionless : ∀ c ∈ clients, ∀ met, Met P c.traffic met →
    ∀ s ∈ servers, ∀ hello x25519Pri nonce, Answered P K s.traffic hello x25519Pri nonce →
    P.signing.sign K.priKeyBytes (P.hashes.sha512 (transcript hello.nonce nonce hello.x22519Key
      (P.x25519.publicKey x25519Pri))) = P.signing.sign K.priKeyBytes (challenged P met) →
    transcript hello.nonce nonce hello.x22519Key (P.x25519.publicKey x25519Pri) =
      transcript met.clientHello.nonce met.serverHello.nonce (P.x25519.publicKey met.x25519Pri)
        met.serverHello.x22519Key
  fresh : clients.Pairwise fun c d => ∀ met other, Met P c.traffic met → Met P d.traffic other →
    met.clientHello.nonce ≠ other.clientHello.nonce

structure Agrees (P : Primitives) (K : ServerKeys) (client server : Traffic) (met : Hellos)
    (x25519Pri : Key32) : Prop where
  greeted : Met P client met
  answered : Answered P K server met.clientHello x25519Pri met.serverHello.nonce
  key : met.serverHello.x22519Key = P.x25519.publicKey x25519Pri

section World
variable {P : Primitives} {K : ServerKeys} {c : ClientRun} {s : ServerRun} {met : Hellos}
  {approved sessionKey : Bytes} {x25519Pri nonce : Key32} {hello : ClientHello}
  {clients : List ClientRun} {servers : List ServerRun}

theorem transcriptParts {a b x y a' b' x' y' : Key32} (same : transcript a b x y = transcript a' b' x' y') :
    a = a' ∧ b = b' ∧ x = x' ∧ y = y' := by
  have size : ∀ k k' : Key32, k.val.length = k'.val.length := fun k k' => k.property.trans k'.property.symm
  unfold transcript at same
  simp only [List.append_assoc] at same
  obtain ⟨first,same⟩ := List.append_inj same (size a a')
  obtain ⟨second,same⟩ := List.append_inj same (size b b')
  obtain ⟨third,fourth⟩ := List.append_inj same (size x x')
  exact ⟨Subtype.ext first,Subtype.ext second,Subtype.ext third,Subtype.ext fourth⟩

theorem rawFrameInjective {one other more : Bytes} (size : one.length = other.length)
    (first : rawFrame one <+: more) (second : rawFrame other <+: more) : one = other := by
  have length : (rawFrame one).length = (rawFrame other).length := by simp [rawFrame,size,Frame.be32Length]
  have same := (List.prefix_of_prefix_length_le first second (by omega)).eq_of_length length
  unfold rawFrame at same
  rw [size] at same
  exact List.append_cancel_left same

theorem signedAnswers {g : Traffic} {message : Bytes} (speaks : Speaks P K g) (signed : Signed P K g message) :
    ∃ hello x25519Pri nonce, Answered P K g hello x25519Pri nonce ∧
      P.signing.sign K.priKeyBytes (P.hashes.sha512 (transcript hello.nonce nonce hello.x22519Key
        (P.x25519.publicKey x25519Pri))) = P.signing.sign K.priKeyBytes message := by
  obtain ⟨told,begins,signature⟩ := signed
  rcases speaks with silent | ⟨hello,x25519Pri,nonce,answered⟩
  · rw [silent,List.prefix_nil] at begins
    have none_ := congrArg List.length begins
    simp [rawFrame,Frame.be32Length] at none_
  · have same := rawFrameInjective (by rw [ServerHello.length,ServerHello.length]) begins answered.said
    have read := ServerHello.read told
    rw [same,ServerHello.read] at read
    cases Outcome.ok.inj read
    exact ⟨hello,x25519Pri,nonce,answered,signature⟩

theorem asideShaky {call : (Port HostSig).Call} (aside : Aside call) :
    ∀ t r after, shaky t call r after → after = t := by
  intro t r after answered
  cases call with
  | recv n => exact answered
  | send b => exact answered
  | here call =>
    cases call with
    | ask question =>
      have moved := congrArg (·.asked.length) (aside t none ⟨t.serverMap,⟨question,none⟩ :: t.asked⟩ rfl)
      simp at moved
    | writeServerMap map =>
      have one := aside ⟨⟨[]⟩,[]⟩ true ⟨map,[]⟩ ⟨rfl,rfl⟩
      have two := aside ⟨⟨[(localhost,"")]⟩,[]⟩ true ⟨map,[]⟩ ⟨rfl,rfl⟩
      simp_all
    | readServerMap =>
      cases r with
      | none => exact answered
      | some found => exact answered.1
    | _ => exact answered

theorem deskKept {α : Type} {p q : Party α} {before after : Desk} {g h : Traffic}
    (aside : Confined Aside p) (ran : Reaches clientSide p (before,g) q (after,h)) :
    after = before := by
  have kept : Safe shaky (fun t => t = before) (fun _ t => t = before) p before :=
    stillSafe rfl (confinedWiden aside fun _ => asideShaky)
  have last := safeStart (safeReaches ran (jointLeft kept))
  exact last

theorem trafficSince {α : Type} {p q : Party α} {before after : Desk} {g h : Traffic}
    (ran : Reaches clientSide p (before,g) q (after,h)) : g.Since h := by
  have grows : Safe (noting traffic) (g.Since ·) (Returns fun _ _ => True) p g :=
    sinceSafe (fun held => sinceTrans held) (sinceSelf g)
  have last := safeStart (safeReaches ran (jointRight grows))
  exact last

def Traffic.plus (g t : Traffic) : Traffic :=
  ⟨g.drawn ++ t.drawn,g.received ++ t.received,g.sent ++ t.sent⟩

theorem plusNoted (g t : Traffic) (c : (Port HostSig).Call) (r : (Port HostSig).Ret c) :
    traffic (g.plus t) c r = g.plus (traffic t c r) := by
  unfold traffic Traffic.plus
  split <;> simp only [List.append_assoc]

theorem trafficApart {α : Type} {p q : Party α} {s t : Desk × Traffic} (ran : Reaches clientSide p s q t)
    {g v : Traffic} (before : s.2 = g.plus v) :
    ∃ u, Reaches clientSide p (s.1,v) q (t.1,u) ∧ t.2 = g.plus u := by
  induction ran generalizing v with
  | here p s => exact ⟨v,.here _ _,before⟩
  | @answer c next r s middle q t answered later ih =>
    have noted : middle.2 = g.plus (traffic v c r) := by
      rw [← plusNoted,← before]
      exact answered.2
    obtain ⟨u,ran,ended⟩ := ih noted
    have step : clientSide (s.1,v) c r (middle.1,traffic v c r) := ⟨answered.1,rfl⟩
    exact ⟨u,.answer step ran,ended⟩

theorem clientWent (ran : c.Ran P) (returned : c.ends = .done (.ok sessionKey)) :
    ∃ met approved, c.Went P met approved sessionKey ∧ Met P c.traffic met ∧
      approved = met.serverHello.ed25519Key.val ∧ Decided c.serverIp approved c.before c.after ∧
      P.signing.verify approved (challenged P met) met.serverHello.signature.val = true ∧
      sessionKey = P.hashes.sha256 (saltedKey (P.x25519.diffieHellman met.x25519Pri
        met.serverHello.x22519Key)) := by
  unfold ClientRun.Ran at ran
  rw [returned] at ran
  obtain ⟨met,⟨desk,g⟩,first,ran⟩ := reachesParts ran
  obtain ⟨approved,⟨last,h⟩,second,third⟩ := reachesParts ran
  have went : c.Went P met approved sessionKey := ⟨_,_,first,second,third⟩
  have greeted : Met P g met := (safeReaches first (jointRight (hellosMet P))).2.toMet
  obtain ⟨presented,decided⟩ := (safeReaches second (jointLeft
    (approveDecides P c.serverIp met.serverHello.ed25519Key.val desk))).2
  obtain ⟨verified,key⟩ := (safeReaches third (jointRight (answerChecks approved h))).2
  have before := deskKept (hellosAside P) first
  have after := deskKept (challengeAside P c.signingKey met approved) third
  subst before
  subst presented
  refine ⟨met,_,went,?_,rfl,?_,verified,key⟩
  · exact metSince greeted (sinceTrans (trafficSince second) (trafficSince third))
  · rw [after]
    exact decided

theorem metOnce {g : Traffic} {other : Hellos} (one : Met P g met) (two : Met P g other) : other = met := by
  obtain ⟨own,drawn,-,data,rest,framed,read⟩ := one
  obtain ⟨own',drawn',-,data',rest',framed',read'⟩ := two
  obtain ⟨rfl,-⟩ := framedUnique framed framed'
  have same := (List.prefix_of_prefix_length_le drawn' drawn (by simp)).eq_of_length (by simp)
  simp only [List.cons.injEq,and_true] at same
  obtain ⟨pri,⟨key,nonce⟩,told⟩ := met
  obtain ⟨pri',⟨key',nonce'⟩,told'⟩ := other
  dsimp only at own own' same read read'
  cases Outcome.ok.inj (read'.symm.trans read)
  cases Subtype.ext same.1
  cases Subtype.ext same.2
  rw [own,own']

theorem agreementFound (ideal : Ideal P K clients servers) (honest : ∀ s ∈ servers, s.Ran P K)
    (member : c ∈ clients) (greeted : Met P c.traffic met)
    (verified : P.signing.verify K.pubKeyBytes.val (challenged P met) met.serverHello.signature.val =
      true) : ∃ s ∈ servers, ∃ x25519Pri, Agrees P K c.traffic s.traffic met x25519Pri := by
  obtain ⟨s,ours,signed⟩ := ideal.unforged c member met greeted verified
  have speaks := safeStart (safeReaches (honest s ours) (serverSpeaks P K))
  obtain ⟨hello,x25519Pri,nonce,answered,same⟩ := signedAnswers speaks signed
  obtain ⟨first,second,third,fourth⟩ := transcriptParts
    (ideal.collisionless c member met greeted s ours hello x25519Pri nonce answered same)
  have asked : hello = met.clientHello := by
    obtain ⟨key,nonce⟩ := hello
    rw [show met.clientHello = ⟨met.clientHello.x22519Key,met.clientHello.nonce⟩ from rfl]
    dsimp only at first third
    rw [first,third,greeted.own]
  subst asked
  subst second
  exact ⟨s,ours,x25519Pri,greeted,answered,fourth.symm⟩

theorem agreementShares {g t : Traffic} (agrees : Agrees P K g t met x25519Pri) :
    P.x25519.diffieHellman x25519Pri met.clientHello.x22519Key =
      P.x25519.diffieHellman met.x25519Pri met.serverHello.x22519Key := by
  rw [agrees.key,agrees.greeted.own]
  exact P.x25519.agrees x25519Pri met.x25519Pri

theorem serverConcludes {sharedKey : Key32} {clientKey : Bytes} (ran : s.Ran P K)
    (returned : s.ends = .done (.ok (sharedKey,clientKey))) (agrees : Agrees P K c.traffic s.traffic met x25519Pri) :
    sharedKey = P.x25519.diffieHellman x25519Pri met.clientHello.x22519Key := by
  unfold ServerRun.Ran at ran
  rw [returned] at ran
  obtain ⟨hello,pri,nonce,random,concludes,shared⟩ := (safeReaches ran (serverSpeaks P K)).2
  obtain ⟨rfl,rfl,rfl⟩ := answeredOnce agrees.answered concludes.answered
  exact shared

/- Whoever drives the network: a client that returns has checked the hello with the
key that it presented and that was stored or has been approved. If it is the key of an
honest server, one of the server's runs is the other end of this very exchange and has
its secret, and no other client has that run. -/
theorem serverAuthenticated (ideal : Ideal P K clients servers) (clientsRan : ∀ c ∈ clients, c.Ran P)
    (serversRan : ∀ s ∈ servers, s.Ran P K) :
    (∀ c ∈ clients, ∀ sessionKey, c.ends = .done (.ok sessionKey) →
      ∃ met approved, c.Went P met approved sessionKey ∧ Met P c.traffic met ∧
        approved = met.serverHello.ed25519Key.val ∧ Decided c.serverIp approved c.before c.after ∧
        P.signing.verify approved (challenged P met) met.serverHello.signature.val = true ∧
        (approved = K.pubKeyBytes.val → ∃ s ∈ servers, ∃ x25519Pri, Agrees P K c.traffic s.traffic met x25519Pri ∧
          clientSessionKey P (P.x25519.diffieHellman met.x25519Pri met.serverHello.x22519Key) =
            .ok sessionKey ∧
          serverSessionKey P (P.x25519.diffieHellman x25519Pri met.clientHello.x22519Key) =
            .ok sessionKey ∧
          ∀ sharedKey clientKey, s.ends = .done (.ok (sharedKey,clientKey)) →
            sharedKey = P.x25519.diffieHellman met.x25519Pri met.serverHello.x22519Key)) ∧
    clients.Pairwise fun c d => ∀ s ∈ servers, ∀ met other x25519Pri more,
      Agrees P K c.traffic s.traffic met x25519Pri → ¬ Agrees P K d.traffic s.traffic other more := by
  refine ⟨?_,?_⟩
  · intro c member sessionKey returned
    obtain ⟨met,approved,went,greeted,presented,decided,verified,key⟩ :=
      clientWent (clientsRan c member) returned
    refine ⟨met,approved,went,greeted,presented,decided,verified,?_⟩
    rintro rfl
    obtain ⟨s,ours,x25519Pri,agrees⟩ := agreementFound ideal serversRan member greeted verified
    have shares := agreementShares agrees
    refine ⟨s,ours,x25519Pri,agrees,?_,?_,?_⟩
    · rw [clientSalts,key]
    · rw [serverSalts,shares,key]
    · intro sharedKey clientKey ended
      exact (serverConcludes (serversRan s ours) ended agrees).trans shares
  · refine ideal.fresh.imp ?_
    intro c d apart s _ met other x25519Pri more one two
    have same := (answeredOnce one.answered two.answered).1
    exact apart met other one.greeted two.greeted (congrArg ClientHello.nonce same).symm

theorem wiredAnswers {g t : Traffic} (speaks : Speaks P K t) (toServer : t.received <+: g.sent)
    (toClient : g.received <+: t.sent) (greeted : Met P g met) :
    ∃ x25519Pri nonce, Answered P K t met.clientHello x25519Pri nonce ∧
      met.serverHello = answer P K met.clientHello x25519Pri nonce := by
  obtain ⟨own,drawn,⟨more,said⟩,data,rest,framed,read⟩ := greeted
  obtain ⟨left,heard,-⟩ := framedMore framed toClient
  rcases speaks with silent | ⟨hello,x25519Pri,nonce,answered⟩
  · rw [silent] at heard
    exact absurd heard (framedShort (by decide))
  · obtain ⟨later,replied⟩ := answered.said
    obtain ⟨asked,_,ours,parsed⟩ := answered.asked
    obtain ⟨_,ours,-⟩ := framedMore ours toServer
    have sentHello : Framed _ met.clientHello.serialize more :=
      framedOf (by rw [ClientHello.length]; decide) (by rw [ClientHello.length]; decide) more
    have sentAnswer : Framed _ (answer P K hello x25519Pri nonce).serialize later :=
      framedOf (by rw [ServerHello.length]; decide) (by rw [ServerHello.length]; decide) later
    rw [said] at sentHello
    rw [replied] at sentAnswer
    obtain ⟨rfl,-⟩ := framedUnique sentHello ours
    obtain ⟨rfl,-⟩ := framedUnique sentAnswer heard
    rw [ClientHello.read] at parsed
    rw [ServerHello.read] at read
    cases Outcome.ok.inj parsed
    exact ⟨x25519Pri,nonce,answered,(Outcome.ok.inj read).symm⟩

theorem deliveredIdeal (ran : s.Ran P K) (toServer : s.traffic.received = c.traffic.sent)
    (toClient : c.traffic.received = s.traffic.sent) : Ideal P K [c] [s] := by
  have speaks := safeStart (safeReaches ran (serverSpeaks P K))
  have into : s.traffic.received <+: c.traffic.sent := by rw [toServer]
  have back : c.traffic.received <+: s.traffic.sent := by rw [toClient]
  have answers := fun {met} => @wiredAnswers P K met c.traffic s.traffic speaks into back
  constructor
  · intro c' member met greeted verified
    cases List.mem_singleton.mp member
    obtain ⟨x25519Pri,nonce,answered,told⟩ := answers greeted
    refine ⟨s,List.mem_singleton.mpr rfl,met.serverHello,?_,?_⟩
    · rw [told]
      exact answered.said
    · rw [challenged,← greeted.own,told]
      rfl
  · intro c' member met greeted s' ours hello x25519Pri nonce answered same
    cases List.mem_singleton.mp member
    cases List.mem_singleton.mp ours
    obtain ⟨pri,random,first,told⟩ := answers greeted
    obtain ⟨rfl,rfl,rfl⟩ := answeredOnce first answered
    rw [← greeted.own,told]
    rfl
  · exact List.pairwise_singleton _ _

theorem advancesTraffic {α : Type} {p q : Party α} {h g : Host} {input output : Bytes}
    (advanced : Duplex.Advances Host.handle p h input output q g) :
    ∃ last t, Reaches clientSide p (⟨h.serverMap,[]⟩,noTraffic) q (last,t) ∧
      t.received = input ∧ t.sent = output := by
  suffices followed : ∃ u : Desk × Traffic, Reaches clientSide p (⟨h.serverMap,[]⟩,noTraffic) q u ∧
      u.1.serverMap = g.serverMap ∧ u.2.received ++ [] = input ∧ u.2.sent ++ [] = output by
    obtain ⟨⟨last,t⟩,reached,-,received,sent⟩ := followed
    exact ⟨last,t,reached,by simpa using received,by simpa using sent⟩
  refine Duplex.advancesSimulated (t := (⟨h.serverMap,[]⟩,noTraffic))
    (fun h rest left (u : Desk × Traffic) => u.1.serverMap = h.serverMap ∧
      u.2.received ++ rest = input ∧ u.2.sent ++ left = output) ?_ ?_ ?_ advanced ⟨rfl,rfl,rfl⟩
  · rintro h rest left ⟨s,t⟩ call ⟨map,received,sent⟩
    cases call with
    | draw n => exact ⟨(s,{t with drawn := t.drawn ++ [_]}),⟨rfl,rfl⟩,map,received,sent⟩
    | readServerMap => exact ⟨(s,t),⟨⟨rfl,map.symm⟩,rfl⟩,map,received,sent⟩
    | writeServerMap changed => exact ⟨(⟨changed,s.asked⟩,t),⟨rfl,rfl⟩,rfl,received,sent⟩
    | ask question => exact ⟨(⟨s.serverMap,⟨question,_⟩ :: s.asked⟩,t),⟨rfl,rfl⟩,map,received,sent⟩
    | tryLock kind arc =>
      refine ⟨(s,t),⟨rfl,rfl⟩,?_,received,sent⟩
      rw [Host.handle]
      split <;> exact map
    | _ => exact ⟨(s,t),⟨rfl,rfl⟩,map,received,sent⟩
  · rintro h rest left ⟨s,t⟩ b ⟨map,received,sent⟩
    exact ⟨⟨s,{t with sent := t.sent ++ b}⟩,⟨rfl,rfl⟩,map,received,by rw [List.append_assoc]; exact sent⟩
  · rintro h rest left ⟨s,t⟩ n b ⟨map,received,sent⟩
    exact ⟨⟨s,{t with received := t.received ++ b.val}⟩,⟨rfl,rfl⟩,map,
      by rw [List.append_assoc]; exact received,sent⟩

theorem exchangeRuns (signingKey : Key32) (serverIp : SocketAddr) (client server : Host)
    (honest : Honest P K serverIp false client) :
    ∃ c : ClientRun, ∃ s : ServerRun, ∃ sessionKey sharedKey clientKey, c.Ran P ∧ s.Ran P K ∧
      c.ends = .done (.ok sessionKey) ∧ s.ends = .done (.ok (sharedKey,clientKey)) ∧
      s.traffic.received = c.traffic.sent ∧ c.traffic.received = s.traffic.sent := by
  have loaded := publicValid P K.priKeyBytes
  rw [← honest.pair] at loaded
  obtain ⟨clientPri,hello,clientWaits,client',ours,greeted,answers⟩ :=
    clientTurns P signingKey serverIp false client
  obtain ⟨serverPri,responds⟩ := replyTurns P K server loaded
  obtain ⟨nonce,challenge,serverWaits,server',size,replied,checks⟩ := responds hello
  let digest := P.hashes.sha512 (transcript hello.nonce nonce hello.x22519Key
    (P.x25519.publicKey serverPri))
  have signed := P.signing.signed K.priKeyBytes digest
  rw [← honest.pair] at signed
  obtain ⟨left,answered⟩ := answers ⟨K.pubKeyBytes,P.x25519.publicKey serverPri,
    P.signing.sign K.priKeyBytes digest,nonce⟩ challenge size loaded honest.trusted signed
  have accepted := checks (P.signing.sign signingKey challenge) (P.signing.publicKey signingKey)
    (publicValid P signingKey) (P.signing.signed signingKey challenge)
  obtain ⟨after,g,clientRan,clientTook,clientSent⟩ := advancesTraffic (Duplex.advancesTrans greeted answered)
  obtain ⟨_,h,serverRan,serverTook,serverSent⟩ := advancesTraffic (Duplex.advancesTrans replied accepted)
  refine ⟨⟨signingKey,serverIp,⟨client.serverMap,[]⟩,after,g,_⟩,⟨h,_⟩,_,_,_,clientRan,
    jointReached serverRan,rfl,rfl,?_,?_⟩
  · exact serverTook.trans clientSent.symm
  · dsimp only
    rw [clientTook,serverSent,List.append_nil,List.nil_append]

theorem returningAuthenticates : ∃ clients servers c s,
    Ideal samplePrimitives ⟨zeroKey,zeroKey⟩ clients servers ∧ c ∈ clients ∧ s ∈ servers ∧
    ∃ met sessionKey x25519Pri, c.ends = .done (.ok sessionKey) ∧
      Agrees samplePrimitives ⟨zeroKey,zeroKey⟩ c.traffic s.traffic met x25519Pri := by
  have honest : Honest samplePrimitives ⟨zeroKey,zeroKey⟩ localhost false returning :=
    ⟨rfl,fun _ => by decide +kernel⟩
  obtain ⟨c,s,sessionKey,sharedKey,clientKey,clientRan,serverRan,returned,-,toServer,toClient⟩ :=
    exchangeRuns zeroKey localhost returning (RoundTrip.sampleHost ⟨[]⟩) honest
  have ideal := deliveredIdeal serverRan toServer toClient
  obtain ⟨each,-⟩ := serverAuthenticated ideal (by simpa using clientRan) (by simpa using serverRan)
  obtain ⟨met,approved,-,greeted,presented,-,-,agreed⟩ := each c List.mem_cons_self sessionKey returned
  obtain ⟨pri,nonce,-,told⟩ := wiredAnswers (safeStart (safeReaches serverRan (serverSpeaks _ _)))
    (by rw [toServer]) (by rw [toClient]) greeted
  rw [told] at presented
  obtain ⟨s',member,x25519Pri,agrees,-⟩ := agreed presented
  exact ⟨[c],[s],c,s',ideal,List.mem_cons_self,member,met,sessionKey,x25519Pri,returned,agrees⟩

end World
end RDrive.Handshake
