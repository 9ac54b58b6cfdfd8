import RDrive.Agreement
import RDrive.Framing

/-! What server_handshake accepts of a client that it knows nothing of yet, and the streams
on which it does not come to an answer. -/
namespace RDrive.Handshake
open Crypto Header Party Bytes Program

section
variable {P : Primitives} {K : ServerKeys} {h : Host} {input : Bytes}

def privateKey (h : Host) : Key32 := h.random h.drawn 32
def challengeOf (P : Primitives) (h : Host) : Bytes := P.hashes.sha512 (h.random (h.drawn + 2) 64).val

inductive Greets (P : Primitives) (pri : Key32) (challenge input : Bytes) : Key32 → Bytes → Prop where
  | signed {hello between signature k rest : Bytes} {x : Key32} (first : Framed input hello between)
      (whole : 64 ≤ hello.length) (key : x.val = hello.take 32)
      (second : Framed between (signature ++ k) rest) (size : signature.length = 64)
      (keySize : k.length = 32) (point : P.signing.isPoint k = true)
      (verified : P.signing.verify k challenge signature = true) :
      Greets P pri challenge input (P.x25519.diffieHellman pri x) k

def CutsShort (input : Bytes) : Prop :=
  ∃ hello between packet rest, Framed input hello between ∧ 64 ≤ hello.length ∧
    Framed between packet rest ∧ packet.length < 64

def Verdict (P : Primitives) (pri : Key32) (challenge input : Bytes) : Outcome (Key32 × Bytes) → Prop
  | .ok (s,k) => Greets P pri challenge input s k
  | .err _ => (∀ s k, ¬ Greets P pri challenge input s k) ∧ ¬ CutsShort input
  | .panic => CutsShort input

theorem helloRead {b : Bytes} (whole : 64 ≤ b.length) :
    ∃ hello : ClientHello, ClientHello.deserialize b = .ok hello ∧ hello.x22519Key.val = b.take 32 := by
  have rest : 32 ≤ (b.drop 32).length := by rw [List.length_drop]; omega
  refine ⟨⟨⟨b.take 32,by rw [List.length_take]; omega⟩,
    ⟨(b.drop 32).take 32,by rw [List.length_take]; omega⟩⟩,Outcome.ofOptionIsOk.mpr ?_,rfl⟩
  unfold Postcard.fromBytes Postcard.andThen Postcard.readArray
  rw [dif_pos (by omega)]
  simp only [Option.bind_some]
  rw [dif_pos rest]
  rfl

theorem helloCut {b : Bytes} (short : b.length < 64) :
    ClientHello.deserialize b = .err "Failed to deserialize" := by
  unfold ClientHello.deserialize Postcard.fromBytes Postcard.andThen Postcard.readArray
  by_cases one : 32 ≤ b.length
  · have two : ¬ 32 ≤ (b.drop 32).length := by rw [List.length_drop]; omega
    simp only [dif_pos one,Option.bind_some,dif_neg two]
    rfl
  · rw [dif_neg one]
    rfl

variable {pri : Key32} {challenge data between : Bytes} {hello : ClientHello}

theorem greetsSecond (first : Framed input data between) (whole : 64 ≤ data.length)
    (key : hello.x22519Key.val = data.take 32) {s : Key32} {k : Bytes} :
    Greets P pri challenge input s k ↔ s = P.x25519.diffieHellman pri hello.x22519Key ∧
      ∃ signature rest, Framed between (signature ++ k) rest ∧ signature.length = 64 ∧
        k.length = 32 ∧ P.signing.isPoint k = true ∧ P.signing.verify k challenge signature = true := by
  constructor
  · intro greets
    cases greets with
    | signed firstToo wholeToo keyToo second size keySize point verified =>
      obtain ⟨rfl,rfl⟩ := framedUnique firstToo first
      refine ⟨?_,_,_,second,size,keySize,point,verified⟩
      rw [Subtype.ext (keyToo.trans key.symm)]
  · rintro ⟨rfl,signature,rest,second,size,keySize,point,verified⟩
    exact .signed first whole key second size keySize point verified

theorem cutsSecond (first : Framed input data between) (whole : 64 ≤ data.length) :
    CutsShort input ↔ ∃ packet rest, Framed between packet rest ∧ packet.length < 64 := by
  constructor
  · rintro ⟨hello,left,packet,rest,firstToo,-,second,short⟩
    obtain ⟨rfl,rfl⟩ := framedUnique firstToo first
    exact ⟨packet,rest,second,short⟩
  · rintro ⟨packet,rest,second,short⟩
    exact ⟨data,between,packet,rest,first,whole,second,short⟩

theorem unframedVerdict (unframed : (∀ data between, ¬ Framed input data between) ∨
      ∃ data between, Framed input data between ∧ data.length < 64) (message : String) :
    Verdict P pri challenge input (.err message) := by
  constructor
  · intro s k greets
    cases greets with
    | signed first whole key second size keySize point verified =>
      rcases unframed with never | ⟨data,between,framed,short⟩
      · exact never _ _ first
      · rw [(framedUnique framed first).1] at short
        omega
  · rintro ⟨hello,between,packet,rest,first,whole,-⟩
    rcases unframed with never | ⟨data,between,framed,short⟩
    · exact never _ _ first
    · rw [(framedUnique framed first).1] at short
      omega

theorem packetFed (first : Framed input data between) (whole : 64 ≤ data.length)
    (key : hello.x22519Key.val = data.take 32) {packet rest : Bytes} (second : Framed between packet rest)
    (long : ¬ packet.length < 64) {s t : Feed}
    (read : Reaches feeding (readRawDataInto "Handshake timed out reading client signature") s
      (.done (.ok packet)) t) :
    ∃ result, Reaches feeding (finishGreeting P pri challenge hello) s (.done result) t ∧
      Verdict P pri challenge input result := by
  have alone : ∀ {packet' rest'}, Framed between packet' rest' → packet' = packet :=
    fun also => (framedUnique also second).1
  have uncut : ¬ CutsShort input := by
    rw [cutsSecond first whole]
    rintro ⟨packet',rest',also,tiny⟩
    rw [alone also] at tiny
    exact long tiny
  have parts : packet.take 64 ++ packet.drop 64 = packet := List.take_append_drop 64 packet
  have size : (packet.take 64).length = 64 := by rw [List.length_take]; omega
  -- any signature and key that the frame could be made of are these two
  have named : ∀ {signature k rest'}, Framed between (signature ++ k) rest' →
      signature.length = 64 → signature = packet.take 64 ∧ k = packet.drop 64 := by
    intro signature k rest' also sized
    have joined := (alone also).trans parts.symm
    exact List.append_inj joined (sized.trans size.symm)
  have split_ : Reaches feeding (liftM (splitAt packet 64) : Party (Bytes × Bytes)) t
      (.done (.ok (packet.take 64,packet.drop 64))) t := by
    rw [splitAtOk (by omega)]
    exact .here _ _
  unfold finishGreeting
  rcases verifyingKeyCases P.signing.toEd25519 (packet.drop 64) with ⟨parsed,keySize,point⟩ | ⟨parsed,invalid⟩
  · cases verified : P.signing.verify (packet.drop 64) challenge (packet.take 64) with
    | false =>
      refine ⟨.err "Failed to verify client's signature: signature error",
        reachesThen read (reachesThen split_ ?_),fun s k greets => ?_,uncut⟩
      · simp only [parsed,verified]
        exact .here _ _
      · obtain ⟨-,signature,rest',also,sized,-,-,signed⟩ := (greetsSecond first whole key).mp greets
        obtain ⟨rfl,rfl⟩ := named also sized
        rw [verified] at signed
        contradiction
    | true =>
      refine ⟨.ok (P.x25519.diffieHellman pri hello.x22519Key,packet.drop 64),
        reachesThen read (reachesThen split_ ?_),?_⟩
      · simp only [parsed,verified,if_true]
        exact .here _ _
      · rw [← parts] at second
        exact .signed first whole key second size keySize point verified
  · refine ⟨.err "Failed to construct client's Ed25519 public key from bytes: signature error",
      reachesThen read (reachesThen split_ ?_),fun s k greets => ?_,uncut⟩
    · simp only [parsed]
      exact .here _ _
    · obtain ⟨-,signature,rest',also,sized,keySize,point,-⟩ := (greetsSecond first whole key).mp greets
      obtain ⟨-,rfl⟩ := named also sized
      exact absurd ⟨keySize,point⟩ invalid

theorem finishFed (first : Framed input data between) (whole : 64 ≤ data.length)
    (key : hello.x22519Key.val = data.take 32) (h : Host) (output : Bytes) (asked : List Nat) :
    ∃ result rest made, Reaches feeding (finishGreeting P pri challenge hello)
        ⟨h,between,output,asked⟩ (.done result) ⟨h,rest,output,made⟩ ∧
      Verdict P pri challenge input result := by
  rcases rawFed "Handshake timed out reading client signature" h between output asked with
    ⟨packet,rest,made,second,read⟩ | ⟨never,message,rest,made,read⟩
  · by_cases short : packet.length < 64
    · refine ⟨.panic,rest,made,reachesThen read ?_,?_⟩
      · rw [splitAtPanics short]
        exact .here _ _
      · exact (cutsSecond first whole).mpr ⟨packet,rest,second,short⟩
    · obtain ⟨result,ended,verdict⟩ := packetFed first whole key second short read
      exact ⟨result,rest,made,ended,verdict⟩
  · refine ⟨.err message,rest,made,reachesBind read,?_,?_⟩
    · intro s k greets
      obtain ⟨-,signature,rest',also,-⟩ := (greetsSecond first whole key).mp greets
      exact never _ _ also
    · rw [cutsSecond first whole]
      rintro ⟨packet,rest',also,-⟩
      exact never _ _ also

theorem greetingFed (h : Host) (input : Bytes)
    (loaded : verifyingKey P.signing.toEd25519 K.pubKeyBytes.val = .ok K.pubKeyBytes.val) :
    ∃ result t, Reaches feeding (serverHandshake P K) ⟨h,input,[],[]⟩ (.done result) t ∧
      Verdict P (privateKey h) (challengeOf P h) input result ∧
      ∀ s k, result = .ok (s,k) → ∃ hello, t.output = rawFrame hello ++ rawFrame (challengeOf P h) := by
  have keyDrawn : Reaches feeding (draw 32) ⟨h,input,[],[]⟩ (.done (.ok (privateKey h)))
      ⟨{h with drawn := h.drawn + 1},input,[],[]⟩ := hereReached ⟨rfl,rfl⟩
  unfold serverHandshake
  rcases rawFed "Handshake timed out reading client hello" {h with drawn := h.drawn + 1} input [] [] with
    ⟨data,between,made,first,read⟩ | ⟨never,message,rest,made,read⟩
  · by_cases short : data.length < 64
    · refine ⟨.err "Failed to deserialize",⟨{h with drawn := h.drawn + 1},between,[],made⟩,
        reachesThen keyDrawn (reachesThen read ?_),unframedVerdict (.inr ⟨data,between,first,short⟩) _,nofun⟩
      rw [helloCut short]
      exact .here _ _
    · obtain ⟨hello,parsed,key⟩ := helloRead (Nat.not_lt.mp short)
      let nonce := h.random (h.drawn + 1) 32
      let met : ServerHello := ⟨K.pubKeyBytes,P.x25519.publicKey (privateKey h),
        P.signing.sign K.priKeyBytes (P.hashes.sha512 (transcript hello.nonce nonce hello.x22519Key
          (P.x25519.publicKey (privateKey h)))),nonce⟩
      obtain ⟨result,rest,last,finished,verdict⟩ := @finishFed P input (privateKey h) (challengeOf P h)
        data between hello first (Nat.not_lt.mp short) key {h with drawn := h.drawn + 3}
        (rawFrame met.serialize ++ rawFrame (challengeOf P h)) made
      refine ⟨result,⟨{h with drawn := h.drawn + 3},rest,
        rawFrame met.serialize ++ rawFrame (challengeOf P h),last⟩,
        reachesThen keyDrawn (reachesThen read ?_),verdict,fun s k _ => ⟨met.serialize,rfl⟩⟩
      rw [parsed,Program.liftDone,Program.bindDone]
      refine reachesTrans (quietFed ?_ between [] made) finished
      refine Duplex.advancesQuiet (Host.drawAdvances 32) ?_
      rw [loaded,Program.liftDone,Program.bindDone,serverSigns,Program.liftDone,Program.bindDone]
      refine Duplex.advancesWrites (rawSent (by rw [ServerHello.length]; decide)) ?_
      refine Duplex.advancesQuiet (Host.drawAdvances 64) ?_
      exact Duplex.advancesLast (rawSent (by rw [P.hashes.sha512Length]; decide)) (.rest _ _)
  · exact ⟨.err message,_,reachesThen keyDrawn (reachesBind read),unframedVerdict (.inl never) _,nofun⟩

def Exact (P : Primitives) (K : ServerKeys) (h : Host) (input : Bytes) : Prop :=
  ∃ result t, Reaches feeding (serverHandshake P K) ⟨h,input,[],[]⟩ (.done result) t ∧ result ≠ .panic ∧
    (∀ s k, result = .ok (s,k) ↔ Greets P (privateKey h) (challengeOf P h) input s k) ∧
    ∀ s k, result = .ok (s,k) → ∃ hello, t.output = rawFrame hello ++ rawFrame (challengeOf P h)

theorem greetsOnce {s s' : Key32} {k k' : Bytes} (one : Greets P pri challenge input s k)
    (two : Greets P pri challenge input s' k') : s = s' ∧ k = k' := by
  cases one with
  | signed first whole key second size keySize point verified =>
    cases two with
    | signed firstToo wholeToo keyToo secondToo sizeToo keySizeToo pointToo verifiedToo =>
      obtain ⟨rfl,rfl⟩ := framedUnique first firstToo
      obtain ⟨rfl,rfl⟩ := List.append_inj (framedUnique second secondToo).1 (size.trans sizeToo.symm)
      rw [Subtype.ext (key.trans keyToo.symm)]
      exact ⟨rfl,rfl⟩

theorem greetsUncut {s : Key32} {k : Bytes} (greets : Greets P pri challenge input s k) :
    ¬ CutsShort input := by
  rintro ⟨hello,between,packet,rest,first,-,second,short⟩
  cases greets with
  | signed firstToo whole key secondToo size keySize point verified =>
    obtain ⟨rfl,rfl⟩ := framedUnique first firstToo
    rw [(framedUnique second secondToo).1,List.length_append] at short
    omega

theorem uncutExact (h : Host)
    (loaded : verifyingKey P.signing.toEd25519 K.pubKeyBytes.val = .ok K.pubKeyBytes.val)
    (uncut : ¬ CutsShort input) : Exact P K h input := by
  obtain ⟨result,t,reached,verdict,sent⟩ := greetingFed (K := K) h input loaded
  refine ⟨result,t,reached,?_,?_,sent⟩
  · rintro rfl
    exact uncut verdict
  · intro s k
    cases result with
    | ok found =>
      obtain ⟨s',k'⟩ := found
      constructor
      · intro same
        cases Outcome.ok.inj same
        exact verdict
      · intro greets
        obtain ⟨rfl,rfl⟩ := greetsOnce verdict greets
        rfl
    | err message => exact ⟨nofun,fun greets => absurd greets (verdict.1 s k)⟩
    | panic => exact absurd verdict uncut

theorem cutPanics (h : Host)
    (loaded : verifyingKey P.signing.toEd25519 K.pubKeyBytes.val = .ok K.pubKeyBytes.val)
    (cut : CutsShort input) : ¬ Exact P K h input := by
  rintro ⟨result,t,reached,unbroken,-⟩
  obtain ⟨other,u,also,verdict,-⟩ := greetingFed (K := K) h input loaded
  obtain ⟨rfl,-⟩ := determinedEnd feedingDetermined reached also
  cases result with
  | ok found => exact greetsUncut verdict cut
  | err message => exact verdict.2 cut
  | panic => exact unbroken rfl

end

namespace Greeting
open RoundTrip

/- The server's own key file holds a key. -/
theorem exactUnlessCut (P : Primitives) (K : ServerKeys) (h : Host) (input : Bytes)
    (loaded : verifyingKey P.signing.toEd25519 K.pubKeyBytes.val = .ok K.pubKeyBytes.val) :
    Exact P K h input ↔ ¬ CutsShort input :=
  ⟨fun exact_ cut => cutPanics h loaded cut exact_,uncutExact h loaded⟩

def samplePrimitives : Primitives := ⟨padHashes,echoSigning,sumExchange⟩
def zeroKey : Key32 := ⟨List.replicate 32 0,rfl⟩
def sampleKeys : ServerKeys := ⟨zeroKey,zeroKey⟩

def shortPacket : Bytes := rawFrame (List.replicate 64 7) ++ (rawFrame [0] ++ [])

theorem packetCut : CutsShort shortPacket :=
  ⟨_,_,_,_,framedOf (by decide) (by decide) _,by decide,framedOf (by decide) (by decide) _,by decide⟩

theorem shortPacketPanics : ¬ ∀ (P : Primitives) (K : ServerKeys) (h : Host) (input : Bytes),
    verifyingKey P.signing.toEd25519 K.pubKeyBytes.val = .ok K.pubKeyBytes.val → Exact P K h input := by
  intro always
  have loaded : verifyingKey samplePrimitives.signing.toEd25519 sampleKeys.pubKeyBytes.val =
      .ok sampleKeys.pubKeyBytes.val := by decide
  exact cutPanics (sampleHost ⟨[]⟩) loaded packetCut (always _ _ _ _ loaded)

def signedPacket : Bytes := rawFrame (List.replicate 64 7) ++ (rawFrame ((echoSigning.sign zeroKey
  (challengeOf samplePrimitives (sampleHost ⟨[]⟩))).val ++ zeroKey.val) ++ [])

theorem packetGreets : ∃ s, Greets samplePrimitives (privateKey (sampleHost ⟨[]⟩))
    (challengeOf samplePrimitives (sampleHost ⟨[]⟩)) signedPacket s zeroKey.val :=
  ⟨_,.signed (framedOf (by decide) (by decide) _) (by decide) (x := ⟨List.replicate 32 7,rfl⟩) (by decide)
    (framedOf (by decide +kernel) (by decide +kernel) _) (by decide +kernel) (by decide) rfl
    (by decide +kernel)⟩

theorem signedPacketTaken : Exact samplePrimitives sampleKeys (sampleHost ⟨[]⟩) signedPacket ∧
    ∃ s, Greets samplePrimitives (privateKey (sampleHost ⟨[]⟩))
      (challengeOf samplePrimitives (sampleHost ⟨[]⟩)) signedPacket s zeroKey.val := by
  obtain ⟨s,greets⟩ := packetGreets
  exact ⟨(exactUnlessCut samplePrimitives sampleKeys (sampleHost ⟨[]⟩) signedPacket (by decide)).mpr
    (greetsUncut greets),s,greets⟩

end Greeting
end RDrive.Handshake
