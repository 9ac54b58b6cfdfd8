import RDrive.AuthTrees
import RDrive.Aborts
import RDrive.Framing

/-! What handle_auth_keys makes of every body that it can decrypt: which ones it takes,
which ones it answers with an error, and on which it comes to no answer. -/
namespace RDrive
open Crypto Header Party Bytes Program

theorem feedingEnds {α : Type} (p : Party α) (s : Feed) :
    ∃ result t, Reaches feeding p s (.done result) t := by
  induction p generalizing s with
  | done result => exact ⟨result,s,.here _ _⟩
  | call c next ih =>
    obtain ⟨r,t,answered⟩ : ∃ r t, feeding s c r t := by
      cases c with
      | here c => exact ⟨_,_,rfl,rfl⟩
      | send b => exact ⟨.ok (),_,rfl,rfl⟩
      | recv n =>
        by_cases short : s.input.length < n
        · exact ⟨_,_,fedEnd short⟩
        · exact ⟨.ok ⟨s.input.take n,by rw [List.length_take]; omega⟩,_,rfl,rfl⟩
    obtain ⟨result,u,later⟩ := ih r t
    exact ⟨result,u,.answer answered later⟩

theorem calmFed {α : Type} {p : Party α} {s : Feed} (calm : Calm feeding p s) :
    ∃ result t, Reaches feeding p s (.done result) t ∧ result ≠ .panic := by
  obtain ⟨result,t,reached⟩ := feedingEnds p s
  refine ⟨result,t,reached,?_⟩
  rintro rfl
  exact (safeReaches reached calm).2

namespace Session
variable {S : Session} {flag : UInt8} {body input rest : Bytes} {h g : Host}

structure Formed (S : Session) (flag : UInt8) (body : Bytes) : Prop where
  size : flag = 1 ∧ body.length = 160 ∨ flag = 2 ∧ body.length = 192
  point : S.ed25519.isPoint (signer flag body) = true
  signed : S.Signed flag body (body.take 64)

def AnswersError (S : Session) (output : Bytes) : Prop :=
  ∃ first challenge second e, challenge.length = 64 ∧
    output = Frame.frame S.cipher S.sessionKey first challenge ++
      Frame.frame S.cipher S.sessionKey second (3 :: ErrorHeader.serialize e)

def Refused (S : Session) (flag : UInt8) (disk : Fs) (body : Bytes) : Prop :=
  ¬ S.Formed flag body ∨ flag = 2 ∧ disk.get (S.storagePath (signer flag body)) = none

def Parses (S : Session) (flag : UInt8) (h : Host) (input body : Bytes) : Prop :=
  ∃ result t, Reaches feeding (S.handleAuthKeys flag) ⟨h,input,[],[]⟩ (.done result) t ∧
    result ≠ .panic ∧ (S.Refused flag h.disk body → t.host.disk = h.disk ∧ S.AnswersError t.output)

theorem parsesRun {result : Outcome Unit} {t : Feed}
    (ran : Reaches feeding (S.handleAuthKeys flag) ⟨h,input,[],[]⟩ (.done result) t) :
    S.Parses flag h input body ↔ result ≠ .panic ∧
      (S.Refused flag h.disk body → t.host.disk = h.disk ∧ S.AnswersError t.output) := by
  constructor
  · rintro ⟨other,u,also,ends⟩
    obtain ⟨rfl,rfl⟩ := determinedEnd feedingDetermined ran also
    exact ends
  · exact fun ends => ⟨result,t,ran,ends⟩

theorem challengeSilent {nonce : Nonce} {challenge : Bytes} (size : challenge.length = 64) :
    ¬ S.AnswersError (Frame.frame S.cipher S.sessionKey nonce challenge) := by
  rintro ⟨first,other,second,e,sizeToo,same⟩
  have lengths := congrArg List.length same
  simp only [Frame.frame,List.length_append,Frame.be32Length,Aead.sealedLength,size,sizeToo] at lengths
  omega

theorem errorFed {e : ErrorHeader} (small : (3 :: e.serialize).length ≤ Frame.u32Max) (g : Host)
    (input output : Bytes) (asked : List Nat) :
    ∃ nonce, Reaches feeding (S.sendFailed e) ⟨g,input,output,asked⟩ (.done (.ok ()))
      ⟨{g with drawn := g.drawn + 1},input,
        output ++ Frame.frame S.cipher S.sessionKey nonce (3 :: e.serialize),asked⟩ := by
  obtain ⟨nonce,written⟩ := closingWritten (S := S) (h := g) (3 :: e.serialize) small
  exact ⟨nonce,quietFed written input output asked⟩

def afterChallenge (S : Session) (flag : UInt8) : Party Unit :=
  if flag = 1 then do
    let headerBytes ← S.readEncryptDataInto
    S.registerKey headerBytes
  else if flag = 2 then do
    let headerBytes ← S.readEncryptDataInto
    S.rotateKey headerBytes
  else S.sendFailed ⟨400,"Invalid flag value"⟩

theorem challengeFed (S : Session) (flag : UInt8) (h : Host) (input : Bytes) :
    ∃ nonce challenge g, challenge.length = 64 ∧ g.disk = h.disk ∧
      Reaches feeding (S.handleAuthKeys flag) ⟨h,input,[],[]⟩ (S.afterChallenge flag)
        ⟨g,input,Frame.frame S.cipher S.sessionKey nonce challenge,[]⟩ := by
  let challenge := S.hashes.sha512 (h.random h.drawn 64).val
  have size : challenge.length = 64 := S.hashes.sha512Length _
  obtain ⟨nonce,written⟩ := frameWritten (S := S) (h := {h with drawn := h.drawn + 1}) challenge
    (by rw [size]; decide)
  have drawn : Reaches feeding (draw 64) ⟨h,input,[],[]⟩ (.done (.ok (h.random h.drawn 64)))
      ⟨{h with drawn := h.drawn + 1},input,[],[]⟩ := hereReached ⟨rfl,rfl⟩
  have sent := quietFed written input [] []
  exact ⟨nonce,challenge,{h with drawn := h.drawn + 2},size,rfl,
    reachesThen drawn (reachesThen sent (.here _ _))⟩

theorem carriedFed (carries : S.Carries input body rest) (g : Host) (output : Bytes)
    (asked : List Nat) : ∃ made, Reaches feeding S.readEncryptDataInto ⟨g,input,output,asked⟩
      (.done (.ok body)) ⟨g,rest,output,made⟩ := by
  rcases bodyFed S g input output asked with ⟨data,left,made,also,read⟩ | ⟨never,-⟩
  · obtain ⟨rfl,rfl⟩ := carriesUnique also carries
    exact ⟨made,read⟩
  · exact absurd carries (never body rest)

theorem signatureCases (E : Ed25519) (key signature nonce : Bytes) (size : signature.length = 64) :
    (key.length = 32 ∧ E.isPoint key = true ∧ E.verifyStrict key nonce signature = true ∧
      validateSignature E key signature nonce = .ok key) ∨
    (¬ (key.length = 32 ∧ E.isPoint key = true ∧ E.verifyStrict key nonce signature = true) ∧
      ∃ e, validateSignature E key signature nonce = .err e ∧
        (3 :: ErrorHeader.serialize ⟨401,s!"Invalid signature: {e}"⟩).length ≤ Frame.u32Max) := by
  unfold validateSignature verifyingKey
  rw [if_neg (by omega)]
  by_cases keySize : key.length = 32
  · rw [if_neg (by omega)]
    cases point : E.isPoint key with
    | false => exact .inr ⟨by simp,_,rfl,by decide +kernel⟩
    | true =>
      cases verified : E.verifyStrict key nonce signature with
      | false => exact .inr ⟨by simp,_,by simp only [if_true,verified]; rfl,by decide +kernel⟩
      | true => exact .inl ⟨keySize,rfl,rfl,by simp only [if_true,verified]⟩
  · rw [if_pos keySize]
    exact .inr ⟨fun all => keySize all.1,_,rfl,by decide +kernel⟩

theorem fieldsLength (long : 128 ≤ body.length) : ((body.drop 64).take 64).length = 64 := by
  rw [List.length_take,List.length_drop]
  omega

theorem registerShort (short : body.length < 128) : S.registerKey body = .done .panic := by
  unfold registerKey
  by_cases one : 64 ≤ body.length
  · rw [splitAtOk one,Program.liftDone,Program.bindDone]
    dsimp only
    rw [splitAtPanics (by rw [List.length_drop]; omega)]
    rfl
  · rw [splitAtPanics (by omega)]
    rfl

theorem rotateShort (short : body.length < 160) : S.rotateKey body = .done .panic := by
  unfold rotateKey
  by_cases one : 64 ≤ body.length
  · rw [splitAtOk one,Program.liftDone,Program.bindDone]
    dsimp only
    by_cases two : 64 ≤ (body.drop 64).length
    · rw [splitAtOk two,Program.liftDone,Program.bindDone]
      dsimp only
      rw [splitAtPanics (by rw [List.length_drop,List.length_drop]; omega)]
      rfl
    · rw [splitAtPanics (by omega)]
      rfl
  · rw [splitAtPanics (by omega)]
    rfl

theorem registerParts (long : 128 ≤ body.length) : S.registerKey body =
    match validateSignature S.ed25519 (body.drop 128) ((body.drop 64).take 64) (body.take 64) with
    | .panic => .done .panic
    | .err e => S.sendFailed ⟨401,s!"Invalid signature: {e}"⟩
    | .ok pubKey => S.createKeyDirs pubKey := by
  have two : 64 ≤ (body.drop 64).length := by rw [List.length_drop]; omega
  unfold registerKey
  rw [splitAtOk (by omega),Program.liftDone,Program.bindDone]
  dsimp only
  rewrite [splitAtOk two,Program.liftDone,Program.bindDone,List.drop_drop]
  rfl

theorem rotateParts (long : 160 ≤ body.length) : S.rotateKey body =
    match validateSignature S.ed25519 ((body.drop 128).take 32) ((body.drop 64).take 64)
      (body.take 64) with
    | .panic => .done .panic
    | .err e => S.sendFailed ⟨401,s!"Invalid signature: {e}"⟩
    | .ok oldPubKey =>
      match verifyingKey S.ed25519 (body.drop 160) with
      | .panic => .done .panic
      | .err e => .fail s!"Failed to construct new public key from bytes: {e}"
      | .ok newPubKey => S.renameKeyDirs oldPubKey newPubKey := by
  have two : 64 ≤ (body.drop 64).length := by rw [List.length_drop]; omega
  have three : 32 ≤ ((body.drop 64).drop 64).length := by rw [List.length_drop,List.length_drop]; omega
  unfold rotateKey
  rw [splitAtOk (by omega),Program.liftDone,Program.bindDone]
  dsimp only
  rw [splitAtOk two,Program.liftDone,Program.bindDone]
  dsimp only
  rewrite [splitAtOk three,Program.liftDone,Program.bindDone,List.drop_drop,List.drop_drop]
  rfl

theorem createCalm (key : Bytes) (s : Feed) : Calm feeding (S.createKeyDirs key) s := by
  unfold createKeyDirs
  refine calmThen (hereCalm _) fun listed t => calmThen (hereCalm _) fun isDir t => ?_
  split
  · exact closingCalm _
  · split
    · exact closingCalm _
    · refine calmThen (hereCalm _) fun stored t => calmThen ?_ fun both t => ?_
      · unfold andExists
        split
        · exact hereCalm _
        · exact ⟨trivial,trivial⟩
      · split
        · exact closingCalm _
        · refine calmThen (hereCalm _) fun keyMade t => calmThen (hereCalm _) fun storageMade t => ?_
          split
          · exact frameCalm _
          · exact closingCalm _

theorem renameCalm (old new : Bytes) (s : Feed) : Calm feeding (S.renameKeyDirs old new) s := by
  unfold renameKeyDirs
  refine calmThen (hereCalm _) fun stored t => ?_
  split
  · refine calmThen (hereCalm _) fun keyMoved t => calmThen (hereCalm _) fun storageMoved t => ?_
    split
    · exact frameCalm _
    · exact closingCalm _
  · exact ⟨trivial,trivial⟩

structure Proper (S : Session) (flag : UInt8) (disk : Fs) (body : Bytes) : Prop where
  register : flag = 1 → 128 ≤ body.length
  rotate : flag = 2 → 160 ≤ body.length
  -- a rotation that its old key signed names one more key, and that key has storage
  signed : flag = 2 → S.ed25519.isPoint (signer flag body) = true →
    S.Signed flag body (body.take 64) →
    body.length = 192 ∧ disk.get (S.storagePath (signer flag body)) ≠ none

theorem panicsNever {t : Feed}
    (ran : Reaches feeding (S.handleAuthKeys flag) ⟨h,input,[],[]⟩ (.done .panic) t) :
    ¬ S.Parses flag h input body := by
  rw [parsesRun ran]
  exact fun ends => ends.1 rfl

theorem errorParses {t : Feed}
    (ran : Reaches feeding (S.handleAuthKeys flag) ⟨h,input,[],[]⟩ (.done (.ok ())) t)
    (same : t.host.disk = h.disk) (answers : S.AnswersError t.output) : S.Parses flag h input body := by
  rw [parsesRun ran]
  exact ⟨nofun,fun _ => ⟨same,answers⟩⟩

theorem silentParses {t : Feed} {message : String} {nonce : Nonce} {challenge : Bytes}
    (ran : Reaches feeding (S.handleAuthKeys flag) ⟨h,input,[],[]⟩ (.done (.err message)) t)
    (size : challenge.length = 64)
    (silent : t.output = Frame.frame S.cipher S.sessionKey nonce challenge) :
    S.Parses flag h input body ↔ ¬ S.Refused flag h.disk body := by
  rw [parsesRun ran]
  constructor
  · rintro ⟨-,answers⟩ refused
    have told := (answers refused).2
    rw [silent] at told
    exact challengeSilent size told
  · exact fun taken => ⟨nofun,fun refused => absurd refused taken⟩

theorem takenParses {p : Party Unit} {s : Feed} (calm : Calm feeding p s)
    (ran : Reaches feeding (S.handleAuthKeys flag) ⟨h,input,[],[]⟩ p s)
    (taken : ¬ S.Refused flag h.disk body) : S.Parses flag h input body := by
  obtain ⟨result,t,reached,unbroken⟩ := calmFed calm
  exact ⟨result,t,reachesTrans ran reached,unbroken,fun refused => absurd refused taken⟩

theorem refusalParses {e : ErrorHeader} {nonce : Nonce} {challenge left : Bytes} {asked : List Nat}
    (size : challenge.length = 64) (same : g.disk = h.disk)
    (ran : Reaches feeding (S.handleAuthKeys flag) ⟨h,input,[],[]⟩ (S.sendFailed e)
      ⟨g,left,Frame.frame S.cipher S.sessionKey nonce challenge,asked⟩)
    (small : (3 :: e.serialize).length ≤ Frame.u32Max) : S.Parses flag h input body := by
  obtain ⟨second,sent⟩ := errorFed (S := S) small g left
    (Frame.frame S.cipher S.sessionKey nonce challenge) asked
  exact errorParses (reachesTrans ran sent) same ⟨nonce,challenge,second,e,size,rfl⟩

theorem registerParses (carries : S.Carries input body rest) :
    S.Parses 1 h input body ↔ 128 ≤ body.length := by
  obtain ⟨nonce,challenge,g,size,same,begun⟩ := challengeFed S 1 h input
  obtain ⟨made,read⟩ := carriedFed carries g (Frame.frame S.cipher S.sessionKey nonce challenge) []
  have ran : Reaches feeding (S.handleAuthKeys 1) ⟨h,input,[],[]⟩ (S.registerKey body)
      ⟨g,rest,Frame.frame S.cipher S.sessionKey nonce challenge,made⟩ :=
    reachesTrans begun (reachesThen read (.here _ _))
  by_cases long : 128 ≤ body.length
  · refine iff_of_true ?_ long
    rw [registerParts long] at ran
    rcases signatureCases S.ed25519 (body.drop 128) ((body.drop 64).take 64) (body.take 64)
      (fieldsLength long) with ⟨keySize,point,signed,taken⟩ | ⟨-,e,refused,small⟩
    · rw [taken] at ran
      refine takenParses (createCalm _ _) ran ?_
      rintro (unformed | ⟨rotates,-⟩)
      · exact unformed ⟨.inl ⟨rfl,by rw [List.length_drop] at keySize; omega⟩,point,signed⟩
      · exact absurd rotates (by decide)
    · rw [refused] at ran
      exact refusalParses size same ran small
  · rw [registerShort (by omega)] at ran
    exact iff_of_false (panicsNever ran) long

theorem rotationRefused {disk : Fs} (point : S.ed25519.isPoint (signer 2 body) = true)
    (signed : S.Signed 2 body (body.take 64)) : S.Refused 2 disk body ↔
      ¬ (body.length = 192 ∧ disk.get (S.storagePath (signer 2 body)) ≠ none) := by
  constructor
  · rintro (unformed | ⟨-,missing⟩) ⟨whole,stored⟩
    · exact unformed ⟨.inr ⟨rfl,whole⟩,point,signed⟩
    · exact stored missing
  · intro other
    by_cases whole : body.length = 192
    · exact .inr ⟨rfl,by by_contra stored; exact other ⟨whole,stored⟩⟩
    · refine .inl fun formed => ?_
      rcases formed.size with ⟨registers,-⟩ | ⟨-,sized⟩
      · exact absurd registers (by decide)
      · exact whole sized

theorem missingLooked {path : Path} {s : Feed} (missing : s.host.disk.get path = none) :
    Reaches feeding (fs (.exists_ path)) s (.done (.ok false)) s := by
  refine hereReached ⟨?_,rfl⟩
  simp only [Host.handle,Fs.exec,missing]
  rfl

theorem rotateParses (carries : S.Carries input body rest) :
    S.Parses 2 h input body ↔ 160 ≤ body.length ∧ (S.ed25519.isPoint (signer 2 body) = true →
      S.Signed 2 body (body.take 64) →
      body.length = 192 ∧ h.disk.get (S.storagePath (signer 2 body)) ≠ none) := by
  obtain ⟨nonce,challenge,g,size,same,begun⟩ := challengeFed S 2 h input
  obtain ⟨made,read⟩ := carriedFed carries g (Frame.frame S.cipher S.sessionKey nonce challenge) []
  have ran : Reaches feeding (S.handleAuthKeys 2) ⟨h,input,[],[]⟩ (S.rotateKey body)
      ⟨g,rest,Frame.frame S.cipher S.sessionKey nonce challenge,made⟩ :=
    reachesTrans begun (reachesThen read (.here _ _))
  by_cases long : 160 ≤ body.length
  · rw [rotateParts long] at ran
    rcases signatureCases S.ed25519 ((body.drop 128).take 32) ((body.drop 64).take 64) (body.take 64)
      (fieldsLength (by omega)) with ⟨keySize,point,signed,taken⟩ | ⟨unsigned,e,refused,small⟩
    · rw [taken] at ran
      have refuses := @rotationRefused S body h.disk point signed
      have conditions : (160 ≤ body.length ∧ (S.ed25519.isPoint (signer 2 body) = true →
          S.Signed 2 body (body.take 64) →
          body.length = 192 ∧ h.disk.get (S.storagePath (signer 2 body)) ≠ none)) ↔
          ¬ S.Refused 2 h.disk body := by
        rw [refuses,not_not]
        exact ⟨fun all => all.2 point signed,fun all => ⟨long,fun _ _ => all⟩⟩
      rw [conditions]
      rcases verifyingKeyCases S.ed25519 (body.drop 160) with ⟨parsed,sized,-⟩ | ⟨parsed,-⟩
      · simp only [parsed] at ran
        cases stored : h.disk.get (S.storagePath (signer 2 body)) with
        | none =>
          have missing : g.disk.get (S.storagePath ((body.drop 128).take 32)) = none := by
            rw [same]
            exact stored
          have looked := @missingLooked (S.storagePath ((body.drop 128).take 32))
            ⟨g,rest,Frame.frame S.cipher S.sessionKey nonce challenge,made⟩ missing
          unfold renameKeyDirs at ran
          exact silentParses (reachesTrans ran (reachesThen looked (.here _ _))) size rfl
        | some node =>
          rw [List.length_drop] at sized
          have taken : ¬ S.Refused 2 h.disk body := by
            rw [refuses,not_not]
            exact ⟨by omega,by simp [stored]⟩
          exact iff_of_true (takenParses (renameCalm _ _ _) ran taken) taken
      · simp only [parsed] at ran
        exact silentParses ran size rfl
    · rw [refused] at ran
      refine iff_of_true (refusalParses size same ran small) ⟨long,fun point signed => ?_⟩
      refine absurd ⟨?_,point,signed⟩ unsigned
      rw [List.length_take,List.length_drop]
      omega
  · rw [rotateShort (by omega)] at ran
    exact iff_of_false (panicsNever ran) fun all => long all.1

theorem otherParses (unregistered : flag ≠ 1) (unrotated : flag ≠ 2) : S.Parses flag h input body := by
  obtain ⟨nonce,challenge,g,size,same,begun⟩ := challengeFed S flag h input
  rw [afterChallenge,if_neg unregistered,if_neg unrotated] at begun
  exact refusalParses size same begun (by decide +kernel)

end Session

namespace AuthBodies
open Session RoundTrip Whitelist AuthTrees

/- The handler does what it has to exactly on these bodies. -/
theorem parsesExactly (S : Session) (flag : UInt8) (h : Host) {input body rest : Bytes}
    (carries : S.Carries input body rest) : S.Parses flag h input body ↔ S.Proper flag h.disk body := by
  by_cases registers : flag = 1
  · subst registers
    rw [registerParses carries]
    exact ⟨fun long => ⟨fun _ => long,nofun,nofun⟩,fun sound => sound.register rfl⟩
  by_cases rotates : flag = 2
  · subst rotates
    rw [rotateParses carries]
    exact ⟨fun all => ⟨nofun,fun _ => all.1,fun _ => all.2⟩,fun sound => ⟨sound.rotate rfl,sound.signed rfl⟩⟩
  exact ⟨fun _ => ⟨fun same => absurd same registers,fun same => absurd same rotates,
    fun same => absurd same rotates⟩,fun _ => otherParses registers rotates⟩

theorem emptyBodyPanics : ¬ ∀ (S : Session) (flag : UInt8) (h : Host) (input body rest : Bytes),
    S.Carries input body rest → S.Parses flag h input body := by
  intro always
  have carries := @carriesFrame sampleServer [] (by decide) ⟨List.replicate nonceLen 0,rfl⟩ []
  have parses := always sampleServer 1 (sampleHost trees) _ _ _ carries
  rw [registerParses carries] at parses
  exact absurd parses (by decide)

/- A rotation that its old key signed, with storage to move. -/
theorem rotationParses : ∃ input rest, sampleServer.Carries input Replay.sampleBody rest ∧
    sampleServer.Parses 2 (sampleHost trees) input Replay.sampleBody := by
  have carries := @carriesFrame sampleServer Replay.sampleBody (by decide +kernel)
    ⟨List.replicate nonceLen 0,rfl⟩ []
  refine ⟨_,_,carries,(parsesExactly sampleServer 2 (sampleHost trees) carries).mpr ?_⟩
  exact ⟨nofun,fun _ => by decide +kernel,fun _ _ _ => ⟨by decide +kernel,by decide +kernel⟩⟩

end AuthBodies
end RDrive
