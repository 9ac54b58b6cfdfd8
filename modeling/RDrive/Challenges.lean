import RDrive.Authenticity
import RDrive.Clients

/-! What a signature of a client proves: any sessions of an honest client, with whatever
servers it trusts, over a network that delivers what it likes. -/
namespace RDrive.Handshake
open Crypto Header Party Bytes Program Trust

/- auth_client from its connection on. -/
def authenticate (P : Primitives) (S : Session) (signingKey : Key32) (serverIp : SocketAddr)
    (publicKey : Key32) (oldPublicKey : Option Key32) : Party Unit := do
  match ← (clientHandshakeHelper P signingKey serverIp false).attempt with
  | .error e => .fail s!"Handshake failed: {e}"
  | .ok sessionKey =>
    Session.authClient {S with sessionKey := sessionKey} P.signing signingKey publicKey oldPublicKey

/- The arguments of auth_client, if that is the command. Any other one signs nothing
after its handshake, and a run of it is a run of that. -/
abbrev Rotating := Option (Key32 × Option Key32)

def visit (P : Primitives) (S : Session) (signingKey : Key32) (serverIp : SocketAddr) :
    Rotating → Party Unit
  | some (publicKey,oldPublicKey) => authenticate P S signingKey serverIp publicKey oldPublicKey
  | none => do
    let _ ← clientHandshakeHelper P signingKey serverIp false
    pure ()

section
variable {P : Primitives} {S : Session} {signingKey : Key32} {met : Hellos} {g t : Traffic}
  {message : Bytes} {inv : Traffic → Prop}

def sessionKeyOf (P : Primitives) (met : Hellos) : Bytes :=
  P.hashes.sha256 (saltedKey (P.x25519.diffieHellman met.x25519Pri met.serverHello.x22519Key))

/- What the server had the client sign: the challenge of the handshake, or the one of
auth_client under their session key. -/
inductive Heard (P : Primitives) (S : Session) (met : Hellos) (g : Traffic) : Bytes → Prop where
  | handshake {hello message} (came : Begins g.received [hello,message]) : Heard P S met g message
  | command {hello challenge box message} (came : Begins g.received [hello,challenge,box])
      (opened : S.cipher.opened (sessionKeyOf P met) box = some message) : Heard P S met g message

/- The signature on it, in the packet of the handshake or in the body of auth_client. -/
inductive Gave (P : Primitives) (S : Session) (signingKey : Key32) (g : Traffic) : Bytes → Prop where
  | handshake {hello packet message} (went : Begins g.sent [hello,packet])
      (signature : packet.take 64 = (P.signing.sign signingKey message).val) :
      Gave P S signingKey g message
  | command {hello packet box last body met message} (went : Begins g.sent [hello,packet,box,last])
      (greeted : Met P g met) (opened : S.cipher.opened (sessionKeyOf P met) last = some body)
      (signature : (body.drop 64).take 64 = (P.signing.sign signingKey message).val) :
      Gave P S signingKey g message

def packetOf (P : Primitives) (signingKey : Key32) (message : Bytes) : Bytes :=
  (P.signing.sign signingKey message).val ++ (P.signing.publicKey signingKey).val

theorem packetSize : (packetOf P signingKey message).length = 96 := by
  simp [packetOf,(P.signing.sign signingKey message).property,(P.signing.publicKey signingKey).property]

theorem packetSigned :
    (packetOf P signingKey message).take 64 = (P.signing.sign signingKey message).val := by
  unfold packetOf
  rw [List.take_left' (P.signing.sign signingKey message).property]

inductive Spoke (P : Primitives) (S : Session) (signingKey : Key32) (met : Hellos) (g : Traffic) : Prop where
  | silent (sent : g.sent = stream [met.clientHello.serialize])
  | answered {m} (heard : Heard P S met g m)
      (sent : g.sent = stream [met.clientHello.serialize,packetOf P signingKey m])
  | asked {m box} (heard : Heard P S met g m)
      (size : 0 < box.length ∧ box.length ≤ Frame.maxFrameLength)
      (sent : g.sent = stream [met.clientHello.serialize,packetOf P signingKey m,box])
  | signed {m box again last body} (heard : Heard P S met g m)
      (size : 0 < box.length ∧ box.length ≤ Frame.maxFrameLength) (heardAgain : Heard P S met g again)
      (lastSize : 0 < last.length ∧ last.length ≤ Frame.maxFrameLength)
      (opened : S.cipher.opened (sessionKeyOf P met) last = some body)
      (signature : (body.drop 64).take 64 = (P.signing.sign signingKey again).val)
      (sent : g.sent = stream [met.clientHello.serialize,packetOf P signingKey m,box,last])

theorem heardSince (heard : Heard P S met g message) (since : g.Since t) : Heard P S met t message := by
  cases heard with
  | handshake came => exact .handshake (beginsMore came since.received)
  | command came opened => exact .command (beginsMore came since.received) opened

inductive Brief (P : Primitives) (S : Session) (signingKey : Key32) (met : Hellos) (g : Traffic) : Prop where
  | silent (sent : g.sent = stream [met.clientHello.serialize])
  | answered {m} (heard : Heard P S met g m)
      (sent : g.sent = stream [met.clientHello.serialize,packetOf P signingKey m])

/- auth_header of auth_client, serialized. -/
def authRequest (oldPublicKey : Option Key32) : Bytes :=
  Command.serialize (.auth (if oldPublicKey.isSome then 2 else 1))

/- What auth_client adds to that: its command, and the body for these keys. -/
inductive Voiced (P : Primitives) (S : Session) (signingKey publicKey : Key32) (oldPublicKey : Option Key32)
    (met : Hellos) (g : Traffic) : Prop where
  | brief (said : Brief P S signingKey met g)
  | asked {m box} (heard : Heard P S met g m)
      (size : 0 < box.length ∧ box.length ≤ Frame.maxFrameLength)
      (request : S.cipher.opened (sessionKeyOf P met) box = some (authRequest oldPublicKey))
      (sent : g.sent = stream [met.clientHello.serialize,packetOf P signingKey m,box])
  | signed {m box again last body} (heard : Heard P S met g m)
      (size : 0 < box.length ∧ box.length ≤ Frame.maxFrameLength)
      (request : S.cipher.opened (sessionKeyOf P met) box = some (authRequest oldPublicKey))
      (heardAgain : Heard P S met g again)
      (lastSize : 0 < last.length ∧ last.length ≤ Frame.maxFrameLength)
      (opened : S.cipher.opened (sessionKeyOf P met) last = some body)
      (made : Session.authBody again (P.signing.sign signingKey again).val publicKey oldPublicKey = .ok body)
      (sent : g.sent = stream [met.clientHello.serialize,packetOf P signingKey m,box,last])

theorem briefSince (said : Brief P S signingKey met g) (since : g.Since t) (same : t.sent = g.sent) :
    Brief P S signingKey met t := by
  cases said with
  | silent sent => exact .silent (same.trans sent)
  | answered heard sent => exact .answered (heardSince heard since) (same.trans sent)

theorem voicedSince {publicKey : Key32} {oldPublicKey : Option Key32}
    (voiced : Voiced P S signingKey publicKey oldPublicKey met g) (since : g.Since t) (same : t.sent = g.sent) :
    Voiced P S signingKey publicKey oldPublicKey met t := by
  cases voiced with
  | brief said => exact .brief (briefSince said since same)
  | asked heard size request sent => exact .asked (heardSince heard since) size request (same.trans sent)
  | signed heard size request heardAgain lastSize opened made sent =>
    exact .signed (heardSince heard since) size request (heardSince heardAgain since) lastSize opened made
      (same.trans sent)

theorem helloSized (hello : ClientHello) :
    0 < hello.serialize.length ∧ hello.serialize.length ≤ Frame.maxFrameLength := by
  rw [hello.length]
  decide

theorem packetSized (signingKey : Key32) (m : Bytes) : 0 < (packetOf P signingKey m).length ∧
    (packetOf P signingKey m).length ≤ Frame.maxFrameLength := by
  rw [packetSize]
  decide

theorem quietFew (quiet : g.sent = [] ∨ ∃ hello : ClientHello, g.sent = stream [hello.serialize])
    {a b : Bytes} {more : List Bytes} : ¬ Begins g.sent (a :: b :: more) := by
  intro went
  rcases quiet with none_ | ⟨hello,sent⟩
  · rw [none_] at went
    obtain ⟨rest,framed,-⟩ := went
    exact framedShort (by decide) framed
  · rw [sent] at went
    simpa using streamBegins (by simpa using helloSized hello) went

theorem quietGave (quiet : g.sent = [] ∨ ∃ hello : ClientHello, g.sent = stream [hello.serialize]) :
    ¬ Gave P S signingKey g message := by
  intro gave
  cases gave with
  | handshake went _ => exact quietFew quiet went
  | command went _ _ _ => exact quietFew quiet went

theorem packetGave {frames : List Bytes} {m : Bytes} (heard : Heard P S met g m)
    (sized : ∀ data ∈ frames, 0 < data.length ∧ data.length ≤ Frame.maxFrameLength)
    (sent : g.sent = stream (met.clientHello.serialize :: packetOf P signingKey m :: frames))
    {hello packet : Bytes} (went : Begins g.sent [hello,packet])
    (signature : packet.take 64 = (P.signing.sign signingKey message).val) :
    ∃ challenge, Heard P S met g challenge ∧
      P.signing.sign signingKey message = P.signing.sign signingKey challenge := by
  rw [sent] at went
  have told := streamBegins (by simpa using ⟨helloSized met.clientHello,packetSized signingKey m,sized⟩) went
  simp only [List.cons_prefix_cons,List.nil_prefix,and_true] at told
  rw [told.2,packetSigned] at signature
  exact ⟨m,heard,(Subtype.ext signature).symm⟩

theorem spokeGave (spoke : Spoke P S signingKey met g) (greeted : Met P g met)
    (gave : Gave P S signingKey g message) :
    ∃ challenge, Heard P S met g challenge ∧
      P.signing.sign signingKey message = P.signing.sign signingKey challenge := by
  have hello := helloSized met.clientHello
  have packed := @packetSized P signingKey
  cases spoke with
  | silent sent => exact absurd gave (quietGave (.inr ⟨_,sent⟩))
  | @answered m heard sent =>
    cases gave with
    | handshake went signature => exact packetGave heard (by simp) sent went signature
    | command went _ _ _ =>
      rw [sent] at went
      simpa using streamBegins (by simpa using ⟨hello,packed m⟩) went
  | @asked m box heard size sent =>
    cases gave with
    | handshake went signature => exact packetGave heard (by simpa using size) sent went signature
    | command went _ _ _ =>
      rw [sent] at went
      simpa using streamBegins (by simpa using ⟨hello,packed m,size⟩) went
  | @signed m box again last body heard size heardAgain lastSize opened signature sent =>
    cases gave with
    | handshake went signature =>
      exact packetGave heard (by simpa using ⟨size,lastSize⟩) sent went signature
    | @command _ _ _ box' body' met' _ went also opens signed =>
      rw [sent] at went
      have told := streamBegins (by simpa using ⟨hello,packed m,size,lastSize⟩) went
      simp only [List.cons_prefix_cons,List.nil_prefix,and_true] at told
      obtain ⟨-,-,-,rfl⟩ := told
      cases metOnce greeted also
      cases Option.some.inj (opens.symm.trans opened)
      exact ⟨again,heardAgain,Subtype.ext (signed.symm.trans signature)⟩

theorem sealNoted {data : Bytes} (start : inv g) (drew : ∀ b, inv {g with drawn := g.drawn ++ [b]})
    (held : ∀ b box, S.cipher.opened S.sessionKey box = some data →
      box.length = nonceLen + data.length + tagLen → inv ⟨g.drawn ++ [b],g.received,g.sent ++ rawFrame box⟩) :
    Safe (noting traffic) inv (Returns fun _ t => ∃ b box, S.cipher.opened S.sessionKey box = some data ∧
      box.length = nonceLen + data.length + tagLen ∧ t = ⟨g.drawn ++ [b],g.received,g.sent ++ rawFrame box⟩)
      (S.writeEncryptFrameInto data) g := by
  unfold Session.writeEncryptFrameInto
  split
  · exact ⟨start,trivial⟩
  refine safeThen (drawNoted start drew) ?_
  rintro nonce _ - rfl
  have opened := S.cipher.openedSealed S.sessionKey nonce data
  have size := S.cipher.sealedLength S.sessionKey nonce data
  have framed : Frame.frame S.cipher S.sessionKey nonce data =
      rawFrame (S.cipher.sealed S.sessionKey nonce data) := by
    rw [rawFrame,size]
    rfl
  rw [framed]
  refine ⟨drew _,?_⟩
  rintro (fault | ⟨⟩) t rfl
  · exact ⟨held _ _ opened size,trivial⟩
  · exact ⟨held _ _ opened size,_,_,opened,size,rfl⟩

theorem readExactNoted {n : Nat} (start : inv g)
    (held : ∀ bytes, inv {g with received := g.received ++ bytes}) :
    Safe (noting traffic) inv (Returns fun b t => t = {g with received := g.received ++ b.val})
      (readExact n) g := by
  refine ⟨start,?_⟩
  rintro (fault | b) t rfl
  · exact ⟨start,trivial⟩
  · exact ⟨held b.val,rfl⟩

theorem openNoted (held : ∀ bytes, inv {g with received := g.received ++ bytes}) :
    Safe (noting traffic) inv (Returns fun data t => ∃ bytes box, Framed bytes box [] ∧
      S.cipher.opened S.sessionKey box = some data ∧ t = {g with received := g.received ++ bytes})
      S.readEncryptDataInto g := by
  have start : inv g := by simpa using held []
  have length : Safe (noting traffic) inv (Returns fun len t => ∃ four : Bytes, four.length = 4 ∧
      Frame.admitLength (Frame.fromBe32 four) = .ok len ∧ t = {g with received := g.received ++ four})
      Session.readFrameLength g := by
    unfold Session.readFrameLength
    refine safeThen (recvNoted start held) ?_
    rintro (fault | four) t - rfl
    · cases fault <;> exact ⟨start,trivial⟩
    · exact safeLift _ (held four.val) fun len admitted => ⟨four.val,four.property,admitted,rfl⟩
  unfold Session.readEncryptDataInto
  refine safeThen length ?_
  rintro len _ one ⟨four,size,admitted,rfl⟩
  split
  · exact ⟨one,trivial⟩
  have more : ∀ bytes, inv {g with received := g.received ++ four ++ bytes} := by
    intro bytes
    rw [List.append_assoc]
    exact held _
  refine safeThen (readExactNoted one more) ?_
  rintro box _ - rfl
  refine safeLift _ (more box.val) fun data opened => ⟨four ++ box.val,box.val,?_,?_,?_⟩
  · rw [framedHead size,admitted,box.property]
    exact ⟨rfl,(List.append_nil _).symm⟩
  · exact Outcome.ofOptionIsOk.mp opened
  · dsimp only
    rw [List.append_assoc]

structure Passed (P : Primitives) (signingKey : Key32) (met : Hellos) (g : Traffic) : Prop where
  frames : ∃ hello m, g.received = stream [hello,m] ∧ (0 < hello.length ∧ hello.length ≤ Frame.maxFrameLength) ∧
    (0 < m.length ∧ m.length ≤ Frame.maxFrameLength) ∧
    g.sent = stream [met.clientHello.serialize,packetOf P signingKey m]

theorem framedStream {input data : Bytes} (framed : Framed input data []) : input = stream [data] :=
  framed.stream

theorem briefSpoke (said : Brief P S signingKey met g) : Spoke P S signingKey met g := by
  cases said with
  | silent sent => exact .silent sent
  | answered heard sent => exact .answered heard sent

theorem answerBrief {approved : Bytes} (greeted : Greeted P g met)
    (verified : P.signing.verify approved (challenged P met) met.serverHello.signature.val = true) :
    Safe (noting traffic) (Brief P S signingKey met) (Returns fun sessionKey t =>
      sessionKey = sessionKeyOf P met ∧ Passed P signingKey met t)
      (answerChallenge P signingKey met approved) g := by
  obtain ⟨hello,first⟩ := greeted.only
  have silent : ∀ {t}, t.sent = g.sent → Brief P S signingKey met t := fun same =>
    .silent (same.trans greeted.all_)
  unfold challenged at verified
  unfold answerChallenge
  rw [clientChecks,Program.liftDone,Program.bindDone,if_pos verified]
  refine safeThen (rawNoted fun _ => silent rfl) ?_
  rintro m _ - ⟨bytes,second,rfl⟩
  rw [packetParts,Program.liftDone,Program.bindDone]
  have came : Begins (g.received ++ bytes) [hello,m] := ⟨bytes,framedThen first bytes,[],second,trivial⟩
  have went : g.sent ++ rawFrame (packetOf P signingKey m) =
      stream [met.clientHello.serialize,packetOf P signingKey m] := by
    rw [greeted.all_]
    simp [stream]
  refine safeThen (writeNoted (silent rfl) (.answered (.handshake came) went)) ?_
  rintro _ _ - rfl
  rw [clientSalts]
  refine ⟨.answered (.handshake came) went,rfl,hello,m,?_,⟨first.some_,first.bounded⟩,
    ⟨second.some_,second.bounded⟩,went⟩
  dsimp only
  rw [framedStream first,framedStream second]
  simp [stream]

theorem answerSpeaks {approved : Bytes} (greeted : Greeted P g met)
    (verified : P.signing.verify approved (challenged P met) met.serverHello.signature.val = true) :
    Safe (noting traffic) (Spoke P S signingKey met) (Returns fun sessionKey t =>
      sessionKey = sessionKeyOf P met ∧ Passed P signingKey met t)
      (answerChallenge P signingKey met approved) g :=
  safeMono (answerBrief greeted verified) fun _ => briefSpoke

theorem bodySigned {nonce body : Bytes} {signature : {b : Bytes // b.length = 64}} {publicKey : Key32}
    {oldPublicKey : Option Key32}
    (made : Session.authBody nonce signature.val publicKey oldPublicKey = .ok body) :
    (body.drop 64).take 64 = signature.val ∧ body.length ≤ 192 := by
  by_cases size : nonce.length = 64
  · cases oldPublicKey with
    | none =>
      rw [Session.authBody,Session.registrationParts size signature.property] at made
      cases Outcome.ok.inj made
      refine ⟨?_,by simp [size,signature.property,publicKey.property]⟩
      rw [List.append_assoc,List.drop_left' size,List.take_left' signature.property]
    | some oldKey =>
      rw [Session.authBody,Session.rotationParts size signature.property] at made
      cases Outcome.ok.inj made
      refine ⟨?_,by simp [size,signature.property,publicKey.property,oldKey.property]⟩
      rw [List.append_assoc,List.append_assoc,List.drop_left' size,List.take_left' signature.property]
  · rw [Session.bodyPanics size] at made
    contradiction

theorem voicedSpoke {publicKey : Key32} {oldPublicKey : Option Key32}
    (voiced : Voiced P S signingKey publicKey oldPublicKey met g) : Spoke P S signingKey met g := by
  cases voiced with
  | brief said => exact briefSpoke said
  | asked heard size request sent => exact .asked heard size sent
  | signed heard size request heardAgain lastSize opened made sent =>
    exact .signed heard size heardAgain lastSize opened (bodySigned made).1 sent

theorem outcomeNoted (T : Session) (held : ∀ bytes, inv {g with received := g.received ++ bytes}) :
    Safe (noting traffic) inv (Returns fun _ t => ∃ bytes box rsp, Framed bytes box [] ∧
      T.cipher.opened T.sessionKey box = some rsp ∧ (rsp[0]? = some 1 ∨ rsp[0]? = some 2) ∧
      t = {g with received := g.received ++ bytes}) T.authOutcome g := by
  unfold Session.authOutcome
  refine safeThen (openNoted held) ?_
  rintro rsp _ there ⟨bytes,box,framed,opened,rfl⟩
  refine safeThen (liftNoted there) ?_
  rintro flag _ - ⟨rfl,found⟩
  have tagged : rsp[0]? = some flag := by
    unfold index at found
    split at found <;> try contradiction
    rename_i byte there
    rw [there,Outcome.ok.inj found]
  split
  · rename_i yes
    subst yes
    exact ⟨there,bytes,box,rsp,framed,opened,.inl tagged,rfl⟩
  split
  · rename_i warned
    subst warned
    refine safeThen (liftNoted there) ?_
    rintro warn _ - ⟨rfl,-⟩
    exact ⟨there,bytes,box,rsp,framed,opened,.inr tagged,rfl⟩
  split
  · refine safeThen (liftNoted there) ?_
    rintro err _ - ⟨rfl,-⟩
    exact ⟨there,trivial⟩
  · exact ⟨there,trivial⟩

/- auth_client after its handshake: what it says, and what it has read when it returns. -/
theorem requestSized {oldPublicKey : Option Key32} {box : Bytes}
    (size : box.length = nonceLen + (authRequest oldPublicKey).length + tagLen) :
    0 < box.length ∧ box.length ≤ Frame.maxFrameLength := by
  have short : (authRequest oldPublicKey).length = 2 := by
    simp [authRequest,Command.serialize,Postcard.varint]
  rw [size,short]
  decide

theorem askedVoiced {publicKey : Key32} {oldPublicKey : Option Key32} {m b box : Bytes}
    (heard : Heard P S met g m) (sent : g.sent = stream [met.clientHello.serialize,packetOf P signingKey m])
    (request : S.cipher.opened (sessionKeyOf P met) box = some (authRequest oldPublicKey))
    (size : box.length = nonceLen + (authRequest oldPublicKey).length + tagLen) :
    Voiced P S signingKey publicKey oldPublicKey met ⟨g.drawn ++ [b],g.received,g.sent ++ rawFrame box⟩ := by
  refine .asked (heardSince heard ⟨List.prefix_append _ _,List.prefix_refl _,List.prefix_append _ _⟩)
    (requestSized size) request ?_
  dsimp only
  rw [sent]
  simp [stream]

theorem signedVoiced {publicKey : Key32} {oldPublicKey : Option Key32} {m b box again body last : Bytes}
    (heard : Heard P S met t m)
    (sent : t.sent = stream [met.clientHello.serialize,packetOf P signingKey m,box])
    (size : box.length = nonceLen + (authRequest oldPublicKey).length + tagLen)
    (request : S.cipher.opened (sessionKeyOf P met) box = some (authRequest oldPublicKey))
    (heardAgain : Heard P S met t again)
    (made : Session.authBody again (P.signing.sign signingKey again).val publicKey oldPublicKey = .ok body)
    (opens : S.cipher.opened (sessionKeyOf P met) last = some body)
    (lastSize : last.length = nonceLen + body.length + tagLen) :
    Voiced P S signingKey publicKey oldPublicKey met ⟨t.drawn ++ [b],t.received,t.sent ++ rawFrame last⟩ := by
  have since : Traffic.Since t ⟨t.drawn ++ [b],t.received,t.sent ++ rawFrame last⟩ :=
    ⟨List.prefix_append _ _,List.prefix_refl _,List.prefix_append _ _⟩
  have long := (bodySigned made).2
  have fits : 0 < last.length ∧ last.length ≤ Frame.maxFrameLength := by
    unfold Frame.maxFrameLength
    unfold nonceLen tagLen at lastSize
    omega
  refine .signed (heardSince heard since) (requestSized size) request (heardSince heardAgain since) fits
    opens made ?_
  dsimp only
  rw [sent]
  simp [stream]

theorem commandVoices {publicKey : Key32} {oldPublicKey : Option Key32} (passed : Passed P signingKey met g) :
    Safe (noting traffic) (Voiced P S signingKey publicKey oldPublicKey met)
      (Returns fun _ t => ∃ hello m challenge last rsp, Begins t.received [hello,m,challenge,last] ∧
        S.cipher.opened (sessionKeyOf P met) last = some rsp ∧ (rsp[0]? = some 1 ∨ rsp[0]? = some 2))
      (Session.authClient {S with sessionKey := sessionKeyOf P met} P.signing signingKey publicKey
        oldPublicKey) g := by
  obtain ⟨hello,m,received,first,second,sent⟩ := passed
  have begins : ∀ {rest more}, Begins rest more → Begins (g.received ++ rest) ([hello,m] ++ more) := by
    intro rest more later
    rw [received]
    exact streamThen (by simpa using ⟨first,second⟩) later
  have came : Begins g.received [hello,m] := by simpa using @begins [] [] trivial
  have heard : Heard P S met g m := .handshake came
  have stays : ∀ {t}, g.Since t → t.sent = g.sent → Voiced P S signingKey publicKey oldPublicKey met t :=
    fun since same => voicedSince (.brief (.answered heard sent)) since same
  have drew : ∀ (t : Traffic) b, t.Since {t with drawn := t.drawn ++ [b]} := fun _ _ =>
    ⟨List.prefix_append _ _,List.prefix_refl _,List.prefix_refl _⟩
  have read : ∀ (t : Traffic) bytes, t.Since {t with received := t.received ++ bytes} := fun _ _ =>
    ⟨List.prefix_refl _,List.prefix_append _ _,List.prefix_refl _⟩
  unfold Session.authClient
  refine safeThen (sealNoted (stays (sinceSelf g) rfl) (fun b => stays (drew g b) rfl)
    fun b box request size => askedVoiced heard sent request size) ?_
  rintro _ _ - ⟨b,box,request,size,rfl⟩
  change box.length = nonceLen + (authRequest oldPublicKey).length + tagLen at size
  unfold Session.awaitChallenge
  refine safeThen (openNoted fun bytes =>
    voicedSince (askedVoiced heard sent request size) (read _ bytes) rfl) ?_
  rintro again _ waits ⟨bytes,box',framed,opened,rfl⟩
  have later : Begins bytes [box'] := ⟨[],framed,trivial⟩
  have heardAgain : Heard P S met ⟨g.drawn ++ [b],g.received ++ bytes,g.sent ++ rawFrame box⟩ again :=
    .command (begins later) opened
  unfold Session.answerAuth
  refine safeThen (liftNoted waits) ?_
  rintro body _ - ⟨rfl,made⟩
  have heardThere : Heard P S met ⟨g.drawn ++ [b],g.received ++ bytes,g.sent ++ rawFrame box⟩ m :=
    heardSince heard ⟨List.prefix_append _ _,List.prefix_append _ _,List.prefix_append _ _⟩
  have sentThere : g.sent ++ rawFrame box = stream [met.clientHello.serialize,packetOf P signingKey m,box] := by
    rw [sent]
    simp [stream]
  refine safeThen (sealNoted waits (fun b' => voicedSince waits (drew _ b') rfl)
    fun b' last => signedVoiced heardThere sentThere size request heardAgain made) ?_
  rintro _ _ - ⟨b',last,opens,lastSize,rfl⟩
  refine safeWeaken (outcomeNoted _ fun bytes => voicedSince
    (signedVoiced heardThere sentThere size request heardAgain made opens lastSize) (read _ bytes) rfl) ?_
  rintro (⟨⟩ | message | _) t - ended
  · obtain ⟨more,box'',rsp,framedLast,openedLast,tagged,rfl⟩ := ended
    have both : Begins (bytes ++ more) [box',box''] := ⟨more,framedThen framed more,[],framedLast,trivial⟩
    have four := begins both
    rw [← List.append_assoc] at four
    exact ⟨hello,m,box',box'',rsp,four,openedLast,tagged⟩
  · trivial
  · trivial

theorem commandSpeaks {publicKey : Key32} {oldPublicKey : Option Key32} (passed : Passed P signingKey met g) :
    Safe (noting traffic) (Spoke P S signingKey met) (Returns fun _ _ => True)
      (Session.authClient {S with sessionKey := sessionKeyOf P met} P.signing signingKey publicKey
        oldPublicKey) g := by
  refine safeWeaken (safeMono (commandVoices passed) fun _ => voicedSpoke) ?_
  rintro (⟨⟩ | message | _) t - - <;> trivial

theorem approveQuiet (P : Primitives) (serverIp : SocketAddr) (key : Bytes) :
    Confined (fun c => ∀ g r, traffic g c r = g) (approveServer P serverIp false key) :=
  approveConfined P (fun _ _ => rfl) (fun _ _ _ => rfl) (fun _ _ _ => rfl) serverIp false key

end

structure ClientSession where
  serverIp : SocketAddr
  rotating : Rotating
  before : Desk
  after : Desk
  traffic : Traffic
  ends : Party Unit

def ClientSession.Ran (P : Primitives) (S : Session) (signingKey : Key32) (c : ClientSession) : Prop :=
  Reaches clientSide (visit P S signingKey c.serverIp c.rotating) (c.before,noTraffic) c.ends
    (c.after,c.traffic)

structure Trusts (P : Primitives) (serverIp : SocketAddr) (before after : Desk) (g : Traffic)
    (met : Hellos) : Prop where
  greeted : Met P g met
  decided : Decided serverIp met.serverHello.ed25519Key.val before after
  verified : P.signing.verify met.serverHello.ed25519Key.val (challenged P met)
    met.serverHello.signature.val = true

section
variable {P : Primitives} {S : Session} {signingKey : Key32} {serverIp : SocketAddr}
  {before after : Desk} {g : Traffic} {message : Bytes} {c : ClientSession} {met : Hellos}

theorem approveUnheard {key : Bytes} {desk last : Desk} {h : Traffic} {q : Party Bytes}
    (ran : Reaches clientSide (approveServer P serverIp false key) (desk,h) q (last,g)) : g = h := by
  have unnoted : Safe (noting traffic) (fun t => t = h) (Returns fun _ t => t = h)
      (approveServer P serverIp false key) h := unnotedKeeps rfl (approveQuiet P serverIp _)
  have same := safeStart (safeReaches ran (jointRight unnoted))
  exact same

theorem decisionReached {approved : Bytes} {desk last : Desk} {h : Traffic}
    (first : Reaches clientSide (exchangeHellos P) (before,noTraffic) (.done (.ok met)) (desk,h))
    (second : Reaches clientSide (approveServer P serverIp false met.serverHello.ed25519Key.val) (desk,h)
      (.done (.ok approved)) (last,g)) :
    Greeted P g met ∧ approved = met.serverHello.ed25519Key.val ∧ Decided serverIp approved before last := by
  have greeted : Greeted P h met := (safeReaches first (jointRight (hellosMet P))).2
  have same := deskKept (hellosAside P) first
  subst same
  cases approveUnheard second
  obtain ⟨presented,decided⟩ := (safeReaches second (jointLeft
    (approveDecides P serverIp met.serverHello.ed25519Key.val desk))).2
  rw [presented]
  exact ⟨greeted,rfl,decided⟩

theorem handshakeBrief (S : Session) {q : Party Bytes} (ran : Reaches clientSide
      (clientHandshakeHelper P signingKey serverIp false) (before,noTraffic) q (after,g)) :
    (g.sent = [] ∨ ∃ hello : ClientHello, g.sent = stream [hello.serialize]) ∨
    ∃ met, Trusts P serverIp before after g met ∧ Brief P S signingKey met g := by
  rcases reachesSplit ran with ⟨q',stopped,-⟩ | ⟨met,⟨desk,g₀⟩,first,onward⟩
  · have quiet := safeStart (safeReaches stopped (jointRight (hellosMet P)))
    exact .inl quiet
  rcases reachesSplit onward with ⟨q',stopped,-⟩ | ⟨approved,⟨last,h⟩,second,third⟩
  · have greeted : Greeted P g₀ met := (safeReaches first (jointRight (hellosMet P))).2
    cases approveUnheard stopped
    exact .inl (.inr ⟨_,greeted.all_⟩)
  obtain ⟨greeted,rfl,decided⟩ := decisionReached first second
  have same := deskKept (challengeAside P signingKey met met.serverHello.ed25519Key.val) third
  subst same
  by_cases verified : P.signing.verify met.serverHello.ed25519Key.val (challenged P met)
    met.serverHello.signature.val = true
  · have brief := safeReaches third (jointRight (answerBrief (S := S) greeted verified))
    have said := safeStart brief
    exact .inr ⟨met,⟨metSince greeted.toMet (trafficSince third),decided,verified⟩,said⟩
  · unfold challenged at verified
    unfold answerChallenge at third
    rw [clientChecks,Program.liftDone,Program.bindDone,if_neg verified] at third
    cases third
    exact .inl (.inr ⟨_,greeted.all_⟩)

theorem handshakeSpeaks {q : Party Bytes} (ran : Reaches clientSide
      (clientHandshakeHelper P signingKey serverIp false) (before,noTraffic) q (after,g)) :
    (∀ message, ¬ Gave P S signingKey g message) ∨
    ∃ met, Trusts P serverIp before after g met ∧ Spoke P S signingKey met g := by
  rcases handshakeBrief S ran with quiet | ⟨met,trusts,brief⟩
  · exact .inl fun _ => quietGave quiet
  · exact .inr ⟨met,trusts,briefSpoke brief⟩

theorem handshakePassed {sessionKey : Bytes} (S : Session) (ran : Reaches clientSide
      (clientHandshakeHelper P signingKey serverIp false) (before,noTraffic) (.done (.ok sessionKey))
      (after,g)) :
    ∃ met, Trusts P serverIp before after g met ∧ sessionKey = sessionKeyOf P met ∧
      Passed P signingKey met g := by
  obtain ⟨met,⟨desk,g₀⟩,first,onward⟩ := reachesParts ran
  obtain ⟨approved,⟨last,h⟩,second,third⟩ := reachesParts onward
  obtain ⟨greeted,rfl,decided⟩ := decisionReached first second
  have same := deskKept (challengeAside P signingKey met met.serverHello.ed25519Key.val) third
  subst same
  obtain ⟨verified,-⟩ := (safeReaches third (jointRight
    (answerChecks met.serverHello.ed25519Key.val h))).2
  -- the frames do not depend on the cipher, so any session will do
  have spoke := (safeReaches third (jointRight (answerSpeaks (S := S) greeted verified))).2
  exact ⟨met,⟨metSince greeted.toMet (trafficSince third),decided,verified⟩,spoke⟩

theorem commandAside (publicKey : Key32) (oldPublicKey : Option Key32) :
    Confined Aside (S.authClient P.signing signingKey publicKey oldPublicKey) :=
  S.authConfined P.signing (fun _ _ _ same => same) (fun _ _ _ _ same => same) (fun _ _ _ _ same => same)
    signingKey publicKey oldPublicKey

theorem sessionGave (ran : c.Ran P S signingKey) (gave : Gave P S signingKey c.traffic message) :
    ∃ met challenge, Trusts P c.serverIp c.before c.after c.traffic met ∧
      Heard P S met c.traffic challenge ∧
      P.signing.sign signingKey message = P.signing.sign signingKey challenge := by
  obtain ⟨serverIp,rotating,before,after,g,ends⟩ := c
  have through : ∀ {q : Party Bytes}, Reaches clientSide
      (clientHandshakeHelper P signingKey serverIp false) (before,noTraffic) q (after,g) →
      ∃ met challenge, Trusts P serverIp before after g met ∧ Heard P S met g challenge ∧
        P.signing.sign signingKey message = P.signing.sign signingKey challenge := by
    intro q ran
    rcases handshakeSpeaks (S := S) ran with mute | ⟨met,trusts,spoke⟩
    · exact absurd gave (mute message)
    · obtain ⟨challenge,heard,same⟩ := spokeGave spoke trusts.greeted gave
      exact ⟨met,challenge,trusts,heard,same⟩
  unfold ClientSession.Ran at ran
  cases rotating with
  | none =>
    rcases reachesSplit ran with ⟨q',stopped,-⟩ | ⟨sessionKey,⟨d,h⟩,first,onward⟩
    · exact through stopped
    · cases onward
      exact through first
  | some keys =>
    obtain ⟨publicKey,oldPublicKey⟩ := keys
    rcases reachesSplit ran with ⟨q',stopped,-⟩ | ⟨result,⟨d,h⟩,first,onward⟩
    · obtain ⟨p',reached,-⟩ := reachesAttempt stopped
      exact through reached
    obtain ⟨p',reached,ended⟩ := reachesAttempt first
    cases result with
    | error e =>
      cases onward
      exact through reached
    | ok sessionKey =>
      rw [attemptOk ended.symm] at reached
      obtain ⟨met,trusts,rfl,passed⟩ := handshakePassed S reached
      have said := safeStart (safeReaches onward (jointRight (commandSpeaks passed)))
      have same := deskKept (commandAside publicKey oldPublicKey) onward
      subst same
      have greeted := metSince trusts.greeted (trafficSince onward)
      obtain ⟨challenge,heard,same⟩ := spokeGave said greeted gave
      exact ⟨met,challenge,⟨greeted,trusts.decided,trusts.verified⟩,heard,same⟩

end

/- Signatures of the client's key are made in its sessions only, and none of its
challenges shares one with a challenge of the server's. -/
structure Genuine (P : Primitives) (S : Session) (K : ServerKeys) (signingKey : Key32)
    (clients : List ClientSession) (servers : List ServerRun) : Prop where
  unforged : ∀ s ∈ servers, ∀ hello x25519Pri nonce random,
    Concludes P K s.traffic hello x25519Pri nonce random (P.signing.publicKey signingKey).val →
    ∃ c ∈ clients, Gave P S signingKey c.traffic (P.hashes.sha512 random)
  collisionless : ∀ c ∈ clients, ∀ met challenge, Heard P S met c.traffic challenge →
    ∀ s ∈ servers, ∀ hello x25519Pri nonce random clientKey,
    Concludes P K s.traffic hello x25519Pri nonce random clientKey →
    P.signing.sign signingKey (P.hashes.sha512 random) = P.signing.sign signingKey challenge →
    P.hashes.sha512 random = challenge

section
variable {P : Primitives} {S : Session} {K : ServerKeys} {signingKey : Key32}
  {clients : List ClientSession} {servers : List ServerRun} {c : ClientSession} {s : ServerRun}

/- A server that takes a peer for the client knows that the client has signed its
challenge, for some server that the client trusts. The secret is that of the hello it
answered; it is the client's too if the two have each other's hellos. -/
theorem challengeAnswered (genuine : Genuine P S K signingKey clients servers)
    (clientsRan : ∀ c ∈ clients, c.Ran P S signingKey) (serversRan : ∀ s ∈ servers, s.Ran P K) :
    ∀ s ∈ servers, ∀ sharedKey,
      s.ends = .done (.ok (sharedKey,(P.signing.publicKey signingKey).val)) →
      ∃ hello x25519Pri nonce random,
        Concludes P K s.traffic hello x25519Pri nonce random (P.signing.publicKey signingKey).val ∧
        sharedKey = P.x25519.diffieHellman x25519Pri hello.x22519Key ∧
        ∃ c ∈ clients, ∃ met, Trusts P c.serverIp c.before c.after c.traffic met ∧
          Heard P S met c.traffic (P.hashes.sha512 random) ∧
          (Agrees P K c.traffic s.traffic met x25519Pri →
            sharedKey = P.x25519.diffieHellman met.x25519Pri met.serverHello.x22519Key) := by
  intro s ours sharedKey returned
  have ran := serversRan s ours
  unfold ServerRun.Ran at ran
  rw [returned] at ran
  obtain ⟨hello,x25519Pri,nonce,random,concludes,shared⟩ := (safeReaches ran (serverSpeaks P K)).2
  obtain ⟨c,member,gave⟩ := genuine.unforged s ours hello x25519Pri nonce random concludes
  obtain ⟨met,challenge,trusts,heard,same⟩ := sessionGave (clientsRan c member) gave
  have agreed := genuine.collisionless c member met challenge heard s ours hello x25519Pri nonce random _
    concludes same
  rw [← agreed] at heard
  refine ⟨hello,x25519Pri,nonce,random,concludes,shared,c,member,met,trusts,heard,?_⟩
  intro agrees
  obtain ⟨rfl,-,-⟩ := answeredOnce concludes.answered agrees.answered
  exact shared.trans (agreementShares agrees)

theorem visitRuns (signingKey : Key32) (serverIp : SocketAddr) (client : Host) {E : Key32}
    (known : client.serverMap.get serverIp = some (Hex.encode (P.signing.publicKey E).val)) :
    ∃ hello : ClientHello, ∀ (roguePri rogueNonce : Key32) (challenge : Bytes), challenge.length = 64 →
      ∃ c : ClientSession, c.Ran P S signingKey ∧ c.rotating = none ∧
        c.traffic.received = stream
          [(answer P ⟨E,P.signing.publicKey E⟩ hello roguePri rogueNonce).serialize,challenge] ∧
        c.traffic.sent = stream [hello.serialize,packetOf P signingKey challenge] := by
  obtain ⟨clientPri,hello,waiting,g,ours,greeted,answers⟩ := clientTurns P signingKey serverIp false client
  refine ⟨hello,fun roguePri rogueNonce challenge size => ?_⟩
  have signed := P.signing.signed E (P.hashes.sha512 (transcript hello.nonce rogueNonce hello.x22519Key
    (P.x25519.publicKey roguePri)))
  obtain ⟨last,answered⟩ := answers (answer P ⟨E,P.signing.publicKey E⟩ hello roguePri rogueNonce) challenge
    size (publicValid P E) (fun _ => known) signed
  obtain ⟨after,t,ran,received,sent⟩ := advancesTraffic (Duplex.advancesTrans greeted answered)
  refine ⟨⟨serverIp,none,⟨client.serverMap,[]⟩,after,t,.done (.ok ())⟩,?_,rfl,?_,?_⟩
  · exact reachesThen ran (.here _ _)
  · simp [received,stream]
  · simp [sent,stream,packetOf]

theorem replyRuns (signingKey : Key32) (server : Host) (pair : K.pubKeyBytes = P.signing.publicKey K.priKeyBytes) :
    ∃ serverPri, ∀ hello : ClientHello, ∃ nonce challenge, challenge.length = 64 ∧
      ∃ s : ServerRun, s.Ran P K ∧
        s.ends = .done (.ok (P.x25519.diffieHellman serverPri hello.x22519Key,
          (P.signing.publicKey signingKey).val)) ∧
        s.traffic.received = stream [hello.serialize,packetOf P signingKey challenge] ∧
        s.traffic.sent = stream [(answer P K hello serverPri nonce).serialize,challenge] := by
  have loaded := publicValid P K.priKeyBytes
  rw [← pair] at loaded
  obtain ⟨serverPri,responds⟩ := replyTurns P K server loaded
  refine ⟨serverPri,fun hello => ?_⟩
  obtain ⟨nonce,challenge,waiting,g,size,replied,checks⟩ := responds hello
  have accepted := checks (P.signing.sign signingKey challenge) (P.signing.publicKey signingKey)
    (publicValid P signingKey) (P.signing.signed signingKey challenge)
  obtain ⟨_,t,ran,received,sent⟩ := advancesTraffic (Duplex.advancesTrans replied accepted)
  refine ⟨nonce,challenge,size,⟨t,_⟩,jointReached ran,rfl,?_,?_⟩
  · simp [received,stream,packetOf]
  · simp [sent,stream,answer]

theorem heardAlone {g : Traffic} {met : Hellos} {told challenge message : Bytes}
    (toldSize : 0 < told.length ∧ told.length ≤ Frame.maxFrameLength) (size : challenge.length = 64)
    (received : g.received = stream [told,challenge]) (heard : Heard P S met g message) :
    message = challenge := by
  have fits : 0 < challenge.length ∧ challenge.length ≤ Frame.maxFrameLength := by
    rw [size]
    decide
  cases heard with
  | handshake came =>
    rw [received] at came
    have begun := streamBegins (by simpa using ⟨toldSize,fits⟩) came
    simp only [List.cons_prefix_cons,List.nil_prefix,and_true] at begun
    exact begun.2
  | command came opened =>
    rw [received] at came
    simpa using streamBegins (by simpa using ⟨toldSize,fits⟩) came

theorem gavePacket {g : Traffic} {hello : ClientHello} {challenge : Bytes}
    (sent : g.sent = stream [hello.serialize,packetOf P signingKey challenge]) :
    Gave P S signingKey g challenge := by
  have went : Begins g.sent [hello.serialize,packetOf P signingKey challenge] := by
    rw [sent]
    exact streamWhole (by simpa using ⟨helloSized hello,packetSized signingKey challenge⟩)
  exact .handshake went packetSigned

theorem passedGenuine {told answered : Bytes} {hello : ClientHello} {challenge : Bytes}
    (toldSize : 0 < told.length ∧ told.length ≤ Frame.maxFrameLength)
    (answeredSize : 0 < answered.length ∧ answered.length ≤ Frame.maxFrameLength)
    (size : challenge.length = 64) (heard : c.traffic.received = stream [told,challenge])
    (said : c.traffic.sent = stream [hello.serialize,packetOf P signingKey challenge])
    (asked : s.traffic.sent = stream [answered,challenge]) :
    Genuine P S K signingKey [c] [s] := by
  have fits : 0 < challenge.length ∧ challenge.length ≤ Frame.maxFrameLength := by
    rw [size]
    decide
  have same : ∀ {hello x25519Pri nonce random clientKey},
      Concludes P K s.traffic hello x25519Pri nonce random clientKey → P.hashes.sha512 random = challenge := by
    intro hello x25519Pri nonce random clientKey concludes
    have first : 0 < (answer P K hello x25519Pri nonce).serialize.length ∧
        (answer P K hello x25519Pri nonce).serialize.length ≤ Frame.maxFrameLength := by
      rw [ServerHello.length]
      decide
    have second : 0 < (P.hashes.sha512 random).length ∧
        (P.hashes.sha512 random).length ≤ Frame.maxFrameLength := by
      rw [P.hashes.sha512Length]
      decide
    have began : Begins s.traffic.sent [(answer P K hello x25519Pri nonce).serialize,P.hashes.sha512 random] := by
      rw [concludes.said]
      exact streamWhole (by simpa using ⟨first,second⟩)
    rw [asked] at began
    have told := streamBegins (by simpa using ⟨answeredSize,fits⟩) began
    simp only [List.cons_prefix_cons,List.nil_prefix,and_true] at told
    exact told.2
  constructor
  · intro s' ours hello' x25519Pri nonce random concludes
    cases List.mem_singleton.mp ours
    rw [same concludes]
    exact ⟨c,List.mem_singleton.mpr rfl,gavePacket said⟩
  · intro c' member met m heardThis s' ours hello' x25519Pri nonce random clientKey concludes _
    cases List.mem_singleton.mp member
    cases List.mem_singleton.mp ours
    rw [same concludes,heardAlone toldSize size heard heardThis]

theorem metSaid {hello : ClientHello} {E : ServerKeys} {roguePri rogueNonce : Key32} {more later : List Bytes}
    {g : Traffic} {met : Hellos}
    (received : g.received = stream ((answer P E hello roguePri rogueNonce).serialize :: more))
    (sent : g.sent = stream (hello.serialize :: later)) (greeted : Met P g met) :
    met.clientHello = hello ∧ met.serverHello = answer P E hello roguePri rogueNonce := by
  obtain ⟨-,-,said,data,rest,framed,read⟩ := greeted
  have first : rawFrame hello.serialize <+: g.sent := by
    rw [sent]
    exact List.prefix_append _ _
  have one := rawFrameInjective (by rw [ClientHello.length,ClientHello.length]) said first
  have second : Framed g.received (answer P E hello roguePri rogueNonce).serialize (stream more) := by
    rw [received]
    exact framedOf (by rw [ServerHello.length]; decide) (by rw [ServerHello.length]; decide) _
  obtain ⟨rfl,-⟩ := framedUnique second framed
  have parsed := ClientHello.read met.clientHello
  rw [one,ClientHello.read] at parsed
  rw [ServerHello.read] at read
  exact ⟨(Outcome.ok.inj parsed).symm,(Outcome.ok.inj read).symm⟩

end

def flatKey (byte : UInt8) : Key32 := ⟨List.replicate 32 byte,List.length_replicate⟩

theorem otherSecret (serverPri secret : Key32) : ∃ byte,
    secret ≠ samplePrimitives.x25519.diffieHellman serverPri (flatKey byte) := by
  by_contra same
  simp only [not_exists,not_not] at same
  have twice := congrArg Subtype.val ((same 3).symm.trans (same 4))
  obtain ⟨bytes,size⟩ := serverPri
  cases bytes with
  | nil => contradiction
  | cons byte rest =>
    have first := congrArg List.head? twice
    simp [samplePrimitives,sumExchange,flatKey] at first

/- A client that knows the server of `zeroKey`, which passes on the challenge that it
was given itself by the server of `flatKey 1`. -/
theorem challengeRelayed : ¬ ∀ (P : Primitives) (S : Session) (K : ServerKeys) (signingKey : Key32)
    (clients : List ClientSession) (servers : List ServerRun),
    K.pubKeyBytes = P.signing.publicKey K.priKeyBytes → Genuine P S K signingKey clients servers →
    (∀ c ∈ clients, c.Ran P S signingKey) → (∀ s ∈ servers, s.Ran P K) →
    ∀ s ∈ servers, ∀ sharedKey,
      s.ends = .done (.ok (sharedKey,(P.signing.publicKey signingKey).val)) →
      ∃ c ∈ clients, ∃ met, Met P c.traffic met ∧
        P.x25519.diffieHellman met.x25519Pri met.serverHello.x22519Key = sharedKey := by
  intro always
  have known : returning.serverMap.get localhost =
      some (Hex.encode (samplePrimitives.signing.publicKey zeroKey).val) := by decide +kernel
  obtain ⟨hello,visits⟩ := visitRuns (S := RoundTrip.sampleSession) (flatKey 2) localhost returning known
  obtain ⟨serverPri,replies⟩ := @replyRuns samplePrimitives ⟨flatKey 1,flatKey 1⟩ (flatKey 2)
    (RoundTrip.sampleHost ⟨[]⟩) rfl
  obtain ⟨byte,other⟩ := otherSecret serverPri
    (samplePrimitives.x25519.diffieHellman zeroKey hello.x22519Key)
  obtain ⟨nonce,challenge,size,s,served,returned,-,asked⟩ := replies ⟨flatKey byte,zeroKey⟩
  obtain ⟨c,ran,-,heard,said⟩ := visits zeroKey zeroKey challenge size
  have genuine : Genuine samplePrimitives RoundTrip.sampleSession ⟨flatKey 1,flatKey 1⟩ (flatKey 2) [c] [s] :=
    passedGenuine (by rw [ServerHello.length]; decide) (by rw [ServerHello.length]; decide) size heard said
      asked
  obtain ⟨c',member,met,greeted,same⟩ := always samplePrimitives RoundTrip.sampleSession _ (flatKey 2) [c] [s]
    rfl genuine (by simpa using ran) (by simpa using served) s (List.mem_singleton.mpr rfl) _ returned
  cases List.mem_singleton.mp member
  obtain ⟨rfl,told⟩ := metSaid heard said greeted
  refine other ?_
  rw [← same,told,greeted.own]
  exact (samplePrimitives.x25519.agrees _ _).symm

theorem returningSigns : ∃ (c : ClientSession) (s : ServerRun) (sharedKey : Key32) (met : Hellos) (random : Bytes),
    s.ends = .done (.ok (sharedKey,(flatKey 2).val)) ∧
    Trusts samplePrimitives c.serverIp c.before c.after c.traffic met ∧
    Heard samplePrimitives RoundTrip.sampleSession met c.traffic (samplePrimitives.hashes.sha512 random) := by
  have known : returning.serverMap.get localhost =
      some (Hex.encode (samplePrimitives.signing.publicKey zeroKey).val) := by decide +kernel
  obtain ⟨hello,visits⟩ := visitRuns (S := RoundTrip.sampleSession) (flatKey 2) localhost returning known
  obtain ⟨serverPri,replies⟩ := @replyRuns samplePrimitives ⟨zeroKey,zeroKey⟩ (flatKey 2)
    (RoundTrip.sampleHost ⟨[]⟩) rfl
  obtain ⟨nonce,challenge,size,s,served,returned,-,asked⟩ := replies hello
  obtain ⟨c,ran,-,heard,said⟩ := visits serverPri nonce challenge size
  have genuine : Genuine samplePrimitives RoundTrip.sampleSession ⟨zeroKey,zeroKey⟩ (flatKey 2) [c] [s] :=
    passedGenuine (by rw [ServerHello.length]; decide) (by rw [ServerHello.length]; decide) size heard said
      asked
  obtain ⟨_,_,_,random,-,-,c',-,met,trusts,heard,-⟩ := challengeAnswered genuine (by simpa using ran)
    (by simpa using served) s (List.mem_singleton.mpr rfl) _ returned
  exact ⟨c',s,_,met,random,returned,trusts,heard⟩

end RDrive.Handshake
