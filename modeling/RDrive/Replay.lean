import RDrive.Alone
import RDrive.AuthKeys
import RDrive.RoundTrip

/-! handle_auth_keys against anyone who answers anything: which signature an
authorisation rests on, and over which nonce. The disk answers anything too, so
other sessions may change it at any time. -/
namespace RDrive
open Crypto Header Party Bytes Program

/- What an Auth session issued, what it read last, whether it went on to the
directories. -/
structure Challenge where
  issued : Option Bytes
  body : Option Bytes
  acted : Bool

namespace Session

def noteChallenge (S : Session) (g : Challenge) :
    (c : (Port HostSig).Call) → (Port HostSig).Ret c → Challenge
  | .here (.draw n), random =>
    if n = 64 then ⟨some (S.hashes.sha512 random.val),g.body,g.acted⟩ else g
  | .recv _, .ok b => ⟨g.issued,S.cipher.opened S.sessionKey b.val,g.acted⟩
  | .here (.fs (.createDirAll _)), _ => ⟨g.issued,g.body,true⟩
  | .here (.fs (.rename _ _)), _ => ⟨g.issued,g.body,true⟩
  | _, _ => g

def signer (flag : UInt8) (body : Bytes) : Bytes :=
  if flag = 1 then body.drop 128 else (body.drop 128).take 32

def Signed (S : Session) (flag : UInt8) (body nonce : Bytes) : Prop :=
  S.ed25519.verifyStrict (signer flag body) nonce ((body.drop 64).take 64) = true

structure SelfSigned (S : Session) (flag : UInt8) (g : Challenge) : Prop where
  issued : ∃ nonce, g.issued = some nonce
  body : ∃ body, g.body = some body ∧ S.Signed flag body (body.take 64)

variable {S : Session} {flag : UInt8} {g : Challenge}

def Settled (S : Session) (c : (Port HostSig).Call) : Prop :=
  ∀ g r, (S.noteChallenge g c r).issued = g.issued ∧ (S.noteChallenge g c r).body = g.body

theorem frameUnnoted (data : Bytes) :
    Confined (fun c => ∀ g r, S.noteChallenge g c r = g) (S.writeEncryptFrameInto data) :=
  confinedFrame (fun _ _ => rfl) (fun _ _ _ => rfl)

theorem closingUnnoted (data : Bytes) :
    Confined (fun c => ∀ g r, S.noteChallenge g c r = g) (S.sendClosing data) :=
  confinedBind (frameUnnoted data) fun _ => shutdownConfined fun _ _ => rfl

theorem frameSettled (data : Bytes) : Confined S.Settled (S.writeEncryptFrameInto data) :=
  confinedFrame (fun _ _ => ⟨rfl,rfl⟩) (fun _ _ _ => ⟨rfl,rfl⟩)

theorem closingSettled (data : Bytes) : Confined S.Settled (S.sendClosing data) :=
  confinedBind (frameSettled data) fun _ => shutdownConfined fun _ _ => ⟨rfl,rfl⟩

theorem fsSettled (op : Fs.Op) : S.Settled (.here (.fs op)) := by
  intro g r
  cases op <;> exact ⟨rfl,rfl⟩

theorem settledSafe {p : Party Unit} (signed : SelfSigned S flag g) (settled : Confined S.Settled p) :
    Safe (noting S.noteChallenge) (fun g => g.acted = true → SelfSigned S flag g)
      (Returns fun _ _ => True) p g := by
  have kept : Safe (noting S.noteChallenge) (SelfSigned S flag) (fun _ _ => True) p g := by
    refine confinedSafe signed settled ?_
    rintro g c r _ ⟨issued,body⟩ settles rfl
    obtain ⟨sameIssued,sameBody⟩ := settles g r
    exact ⟨by rwa [sameIssued],by rwa [sameBody]⟩
  refine safeWeaken (safeMono kept fun g signed _ => signed) fun result _ _ _ => ?_
  cases result <;> trivial

theorem readNoted {inv : Challenge → Prop} (held : ∀ body, inv ⟨g.issued,body,g.acted⟩) :
    Safe (noting S.noteChallenge) inv
      (Returns fun data after => after = ⟨g.issued,some data,g.acted⟩) S.readEncryptDataInto g := by
  have length : Safe (noting S.noteChallenge) inv
      (Returns fun _ after => ∃ body, after = ⟨g.issued,body,g.acted⟩) readFrameLength g := by
    constructor
    · exact held g.body
    · intro answer after noted
      cases noted
      cases answer with
      | error fault => cases fault <;> exact ⟨held g.body,trivial⟩
      | ok lenBuf => exact safeLift _ (held _) fun _ _ => ⟨_,rfl⟩
  unfold readEncryptDataInto
  apply safeThen length
  intro len t _ seen
  obtain ⟨body,rfl⟩ := seen
  split
  · exact ⟨held body,trivial⟩
  · constructor
    · exact held body
    · intro answer after noted
      cases noted
      cases answer with
      | error fault => exact ⟨held body,trivial⟩
      | ok box =>
        apply safeLift _ (held _)
        intro data opened
        rw [Outcome.ofOptionIsOk] at opened
        simp only [opened]

theorem askSettled (op : Fs.Op) : Confined S.Settled (fs op) := confinedHere _ (fsSettled op)

theorem createSettled (pubKey : Bytes) : Confined S.Settled (S.createKeyDirs pubKey) := by
  unfold createKeyDirs
  apply confinedBind (askSettled _)
  intro listed
  apply confinedBind (askSettled _)
  intro isDir
  split
  · exact closingSettled _
  · split
    · exact closingSettled _
    · apply confinedBind (askSettled _)
      intro stored
      have looked : Confined S.Settled (andExists stored (S.authPath pubKey)) := by
        unfold andExists
        split
        · exact askSettled _
        · trivial
      apply confinedBind looked
      intro both
      split
      · exact closingSettled _
      · apply confinedBind (askSettled _)
        intro keyMade
        apply confinedBind (askSettled _)
        intro storageMade
        split
        · exact frameSettled _
        · exact closingSettled _

theorem renameSettled (oldPubKey newPubKey : Bytes) :
    Confined S.Settled (S.renameKeyDirs oldPubKey newPubKey) := by
  unfold renameKeyDirs
  apply confinedBind (askSettled _)
  intro stored
  split
  · apply confinedBind (askSettled _)
    intro keyMoved
    apply confinedBind (askSettled _)
    intro storageMoved
    split
    · exact frameSettled _
    · exact closingSettled _
  · trivial

def Reading (body : Bytes) (g : Challenge) : Prop :=
  (∃ nonce, g.issued = some nonce) ∧ g.body = some body ∧ g.acted = false

theorem readingIdle {body : Bytes} (reading : Reading body g) :
    g.acted = true → SelfSigned S flag g := by
  intro acted
  rw [reading.2.2] at acted
  contradiction

theorem refusedSafe {body : Bytes} (reading : Reading body g) (data : Bytes) :
    Safe (noting S.noteChallenge) (fun g => g.acted = true → SelfSigned S flag g)
      (Returns fun _ _ => True) (S.sendClosing data) g := by
  apply safeWeaken (unnotedKeeps (readingIdle reading) (closingUnnoted data))
  intro result _ _ _
  cases result <;> trivial

theorem splitSafe {body b : Bytes} {mid : Nat} (reading : Reading body g) :
    Safe (noting S.noteChallenge) (fun g => g.acted = true → SelfSigned S flag g)
      (Returns fun parts after => parts = (b.take mid,b.drop mid) ∧ Reading body after)
      (liftM (splitAt b mid) : Party (Bytes × Bytes)) g := by
  apply safeLift _ (readingIdle reading)
  intro parts cut
  unfold splitAt at cut
  split at cut <;> try contradiction
  cases Outcome.ok.inj cut
  exact ⟨rfl,reading⟩

theorem registerSafe {body : Bytes} (reading : Reading body g) :
    Safe (noting S.noteChallenge) (fun g => g.acted = true → SelfSigned S 1 g)
      (Returns fun _ _ => True) (S.registerKey body) g := by
  unfold registerKey
  apply safeThen (splitSafe reading)
  intro _ t _ first
  obtain ⟨rfl,reading⟩ := first
  apply safeThen (splitSafe reading)
  intro _ u _ second
  obtain ⟨rfl,reading⟩ := second
  simp only []
  split
  · exact ⟨readingIdle reading,trivial⟩
  · exact refusedSafe reading _
  · rename_i pubKey valid
    obtain ⟨-,-,-,verified⟩ := signatureValid valid
    rw [List.drop_drop] at verified
    exact settledSafe ⟨reading.1,body,reading.2.1,verified⟩ (createSettled pubKey)

theorem rotateSafe {body : Bytes} (other : flag ≠ 1) (reading : Reading body g) :
    Safe (noting S.noteChallenge) (fun g => g.acted = true → SelfSigned S flag g)
      (Returns fun _ _ => True) (S.rotateKey body) g := by
  unfold rotateKey
  apply safeThen (splitSafe reading)
  intro _ t _ first
  obtain ⟨rfl,reading⟩ := first
  apply safeThen (splitSafe reading)
  intro _ u _ second
  obtain ⟨rfl,reading⟩ := second
  apply safeThen (splitSafe reading)
  intro _ v _ third
  obtain ⟨rfl,reading⟩ := third
  simp only []
  split
  · exact ⟨readingIdle reading,trivial⟩
  · exact refusedSafe reading _
  · rename_i oldPubKey valid
    split
    · exact ⟨readingIdle reading,trivial⟩
    · exact ⟨readingIdle reading,trivial⟩
    · rename_i newPubKey parsed
      obtain ⟨-,-,-,verified⟩ := signatureValid valid
      rw [List.drop_drop] at verified
      have signed : S.Signed flag body (body.take 64) := by
        unfold Signed signer
        rw [if_neg other]
        exact verified
      exact settledSafe ⟨reading.1,body,reading.2.1,signed⟩ (renameSettled oldPubKey newPubKey)

theorem authSafe (flag : UInt8) :
    Safe (noting S.noteChallenge) (fun g => g.acted = true → SelfSigned S flag g)
      (Returns fun _ _ => True) (S.handleAuthKeys flag) ⟨none,none,false⟩ := by
  have idle : ∀ {g : Challenge}, g.acted = false → g.acted = true → SelfSigned S flag g := by
    intro g resting acted
    rw [resting] at acted
    contradiction
  have drawn : Safe (noting S.noteChallenge) (fun g => g.acted = true → SelfSigned S flag g)
      (Returns fun random after => after = ⟨some (S.hashes.sha512 random.val),none,false⟩)
      (draw 64) ⟨none,none,false⟩ := by
    constructor
    · exact idle rfl
    · intro random after noted
      exact ⟨noted ▸ idle rfl,noted⟩
  have read : ∀ issued, Safe (noting S.noteChallenge) (fun g => g.acted = true → SelfSigned S flag g)
      (Returns fun body after => after = ⟨issued,some body,false⟩) S.readEncryptDataInto
      ⟨issued,none,false⟩ := fun issued =>
    readNoted (g := ⟨issued,none,false⟩) fun _ => idle rfl
  unfold handleAuthKeys
  apply safeThen drawn
  intro random t _ seen
  cases seen
  apply safeThen (unnotedKeeps (idle rfl) (frameUnnoted _))
  intro _ u _ same
  cases same
  split
  · rename_i one
    subst one
    apply safeThen (read _)
    intro body v _ taken
    cases taken
    exact registerSafe ⟨⟨_,rfl⟩,rfl,rfl⟩
  · rename_i other
    split
    · apply safeThen (read _)
      intro body v _ taken
      cases taken
      exact rotateSafe other ⟨⟨_,rfl⟩,rfl,rfl⟩
    · apply safeWeaken (unnotedKeeps (idle rfl) (closingUnnoted _))
      intro result _ _ _
      cases result <;> trivial

structure AuthRun where
  session : Session
  flag : UInt8
  after : Challenge

def AuthRun.Ran (a : AuthRun) : Prop :=
  ∃ p, Reaches (noting a.session.noteChallenge) (a.session.handleAuthKeys a.flag)
    ⟨none,none,false⟩ p a.after

def Fresh (runs : List AuthRun) : Prop :=
  runs.Pairwise fun a b => ∀ nonce, a.after.issued = some nonce → b.after.issued ≠ some nonce

/- A session acts on a signature over its own nonce, and no body serves two sessions. -/
def NoReplay (runs : List AuthRun) : Prop :=
  (∀ a ∈ runs, a.after.acted = true → ∃ nonce body, a.after.issued = some nonce ∧
    a.after.body = some body ∧ a.session.Signed a.flag body nonce) ∧
  runs.Pairwise fun a b => a.after.acted = true → b.after.acted = true → a.after.body ≠ b.after.body

/- Bodies that would pass the signature check carry the nonce the session issued. -/
def AuthRun.OwnNonce (a : AuthRun) : Prop :=
  ∀ nonce body, a.after.issued = some nonce → a.after.body = some body →
    a.session.Signed a.flag body (body.take 64) → body.take 64 = nonce

theorem actedSigned {a : AuthRun} (ran : a.Ran) (acted : a.after.acted = true) :
    SelfSigned a.session a.flag a.after := by
  obtain ⟨p,reached⟩ := ran
  exact safeStart (safeReaches reached (authSafe a.flag)) acted

theorem noReplayOfOwnNonces {runs : List AuthRun} (ran : ∀ a ∈ runs, a.Ran) (fresh : Fresh runs)
    (own : ∀ a ∈ runs, a.OwnNonce) : NoReplay runs := by
  constructor
  · intro a member acted
    obtain ⟨⟨nonce,issued⟩,body,read,signed⟩ := actedSigned (ran a member) acted
    have same := own a member nonce body issued read signed
    rw [same] at signed
    exact ⟨nonce,body,issued,read,signed⟩
  · apply fresh.imp_of_mem
    intro a b first second apart actedFirst actedSecond same
    obtain ⟨⟨nonce,issued⟩,body,read,signed⟩ := actedSigned (ran a first) actedFirst
    obtain ⟨⟨other,issuedOther⟩,bodyOther,readOther,signedOther⟩ :=
      actedSigned (ran b second) actedSecond
    rw [read,readOther] at same
    cases same
    have mine := own a first nonce body issued read signed
    have theirs := own b second other body issuedOther readOther signedOther
    exact apart nonce issued (by rw [issuedOther,← theirs,mine])

/- A body that is read, step by step. -/
section
variable {σ : Type} {env : Env (Port HostSig) σ} {s middle t : σ}

theorem bodyReached {body : Bytes} (nonce : Nonce)
    (small : nonceLen + body.length + tagLen ≤ Frame.maxFrameLength)
    (four : env s (.recv 4) (.ok ⟨Frame.be32 (nonceLen + body.length + tagLen),rfl⟩) middle)
    (boxed : env middle (.recv (nonceLen + body.length + tagLen))
      (.ok ⟨S.cipher.sealed S.sessionKey nonce body,S.cipher.sealedLength S.sessionKey nonce body⟩) t) :
    Reaches env S.readEncryptDataInto s (.done (.ok body)) t := by
  have admitted : Frame.admitLength (Frame.fromBe32 (Frame.be32 (nonceLen + body.length + tagLen))) =
      .ok (nonceLen + body.length + tagLen) := lengthAdmitted (by unfold nonceLen; omega) small
  have length : Reaches env readFrameLength s
      (.done (.ok (nonceLen + body.length + tagLen))) middle := by
    rw [← admitted]
    exact .answer four (.here _ _)
  unfold readEncryptDataInto
  apply reachesThen length
  rw [if_neg (by omega)]
  have rest : Reaches env (liftM (Outcome.ofOption "aead::Error"
      (S.cipher.opened S.sessionKey (S.cipher.sealed S.sessionKey nonce body))) : Party Bytes)
      t (.done (.ok body)) t := by
    rw [S.cipher.openedSealed S.sessionKey nonce body]
    exact .here _ _
  exact .answer boxed rest

end

theorem frameNoted {data : Bytes} (small : data.length ≤ Frame.u32Max) (nonce : Nonce) :
    Reaches (noting S.noteChallenge) (S.writeEncryptFrameInto data) g (.done (.ok ())) g :=
  frameReached small nonce rfl rfl

theorem bodyNoted {body : Bytes} (nonce : Nonce)
    (small : nonceLen + body.length + tagLen ≤ Frame.maxFrameLength) :
    Reaches (noting S.noteChallenge) S.readEncryptDataInto g (.done (.ok body))
      ⟨g.issued,some body,g.acted⟩ := by
  have four : noting S.noteChallenge g (.recv 4)
    (.ok ⟨Frame.be32 (nonceLen + body.length + tagLen),rfl⟩)
    (S.noteChallenge g (.recv 4) (.ok ⟨Frame.be32 (nonceLen + body.length + tagLen),rfl⟩)) := rfl
  have boxed : noting S.noteChallenge
      (S.noteChallenge g (.recv 4) (.ok ⟨Frame.be32 (nonceLen + body.length + tagLen),rfl⟩))
      (.recv (nonceLen + body.length + tagLen))
      (.ok ⟨S.cipher.sealed S.sessionKey nonce body,S.cipher.sealedLength S.sessionKey nonce body⟩)
      ⟨g.issued,some body,g.acted⟩ := by
    simp only [noting,noteChallenge,S.cipher.openedSealed S.sessionKey nonce body]
  exact bodyReached nonce small four boxed

theorem renameNoted (oldPubKey newPubKey : Bytes) :
    ∃ q, Reaches (noting S.noteChallenge) (S.renameKeyDirs oldPubKey newPubKey) g q
      ⟨g.issued,g.body,true⟩ := by
  have found : noting S.noteChallenge g (.here (.fs (.exists_ (S.storagePath oldPubKey)))) true g := rfl
  have moved : noting S.noteChallenge g
      (.here (.fs (.rename (S.authPath oldPubKey) (S.authPath newPubKey)))) true
      ⟨g.issued,g.body,true⟩ := rfl
  exact ⟨_,.answer found (.answer moved (.here _ _))⟩

theorem rotationActs {body : Bytes} (oldPubKey newPubKey : Bytes) (random : {b : Bytes // b.length = 64})
    (nonce : Nonce) (long : 160 ≤ body.length)
    (small : nonceLen + body.length + tagLen ≤ Frame.maxFrameLength)
    (valid : validateSignature S.ed25519 (((body.drop 64).drop 64).take 32) ((body.drop 64).take 64)
      (body.take 64) = .ok oldPubKey)
    (parsed : verifyingKey S.ed25519 (((body.drop 64).drop 64).drop 32) = .ok newPubKey) :
    AuthRun.Ran ⟨S,2,⟨some (S.hashes.sha512 random.val),some body,true⟩⟩ := by
  have issued : (S.hashes.sha512 random.val).length ≤ Frame.u32Max := by
    rw [S.hashes.sha512Length]
    decide
  have drawn : Reaches (noting S.noteChallenge) (draw 64) ⟨none,none,false⟩ (.done (.ok random))
      ⟨some (S.hashes.sha512 random.val),none,false⟩ := by
    have answered : noting S.noteChallenge ⟨none,none,false⟩ (.here (.draw 64)) random
      ⟨some (S.hashes.sha512 random.val),none,false⟩ := rfl
    exact .answer answered (.here _ _)
  obtain ⟨q,moved⟩ := renameNoted (S := S)
    (g := ⟨some (S.hashes.sha512 random.val),some body,false⟩) oldPubKey newPubKey
  have rotated : Reaches (noting S.noteChallenge) (S.rotateKey body)
      ⟨some (S.hashes.sha512 random.val),some body,false⟩ q
      ⟨some (S.hashes.sha512 random.val),some body,true⟩ := by
    have first : splitAt body 64 = .ok (body.take 64,body.drop 64) := splitAtOk (by omega)
    have second : splitAt (body.drop 64) 64 = .ok ((body.drop 64).take 64,(body.drop 64).drop 64) :=
      splitAtOk (by rw [List.length_drop]; omega)
    have third : splitAt ((body.drop 64).drop 64) 32 =
        .ok (((body.drop 64).drop 64).take 32,((body.drop 64).drop 64).drop 32) :=
      splitAtOk (by rw [List.length_drop,List.length_drop]; omega)
    unfold rotateKey
    simp only [first,second,third,Program.liftDone,Program.bindDone,valid,parsed]
    exact moved
  have whole := reachesThen (bodyNoted (S := S)
    (g := ⟨some (S.hashes.sha512 random.val),none,false⟩) nonce small) rotated
  exact ⟨q,reachesThen drawn (reachesThen (frameNoted issued nonce) whole)⟩

end Session

namespace Replay
open Session RoundTrip

def sampleBody : Bytes := List.replicate 64 1 ++ (List.replicate 32 9 ++ List.replicate 32 1) ++
  List.replicate 32 9 ++ List.replicate 32 8

theorem sampleRotates (random : {b : Bytes // b.length = 64}) :
    AuthRun.Ran ⟨sampleSession,2,⟨some (padTo 64 random.val),some sampleBody,true⟩⟩ :=
  rotationActs (List.replicate 32 9) (List.replicate 32 8) random
    ⟨List.replicate 12 0,rfl⟩ (by decide +kernel) (by decide +kernel) (by decide +kernel)
    (by decide +kernel)

def sampleRun (issued : Bytes) : AuthRun := ⟨sampleSession,2,⟨some issued,some sampleBody,true⟩⟩

theorem sampleRan (byte : UInt8) (same : padTo 64 (List.replicate 64 byte) = List.replicate 64 byte) :
    (sampleRun (List.replicate 64 byte)).Ran := by
  have ran := sampleRotates ⟨List.replicate 64 byte,List.length_replicate⟩
  simp only [same] at ran
  exact ran

/- The body of one session again in another, which issued a different nonce. -/
theorem bodyReplayed : ¬ ∀ runs : List AuthRun, (∀ a ∈ runs, a.Ran) → Fresh runs →
    NoReplay runs := by
  intro always
  have ran : ∀ a ∈ [sampleRun (List.replicate 64 1),sampleRun (List.replicate 64 2)], a.Ran := by
    intro a member
    rcases List.mem_pair.mp member with rfl | rfl
    · exact sampleRan 1 (by decide +kernel)
    · exact sampleRan 2 (by decide +kernel)
  have fresh : Fresh [sampleRun (List.replicate 64 1),sampleRun (List.replicate 64 2)] := by
    apply List.pairwise_pair.mpr
    intro nonce issued other
    have same := Option.some.inj (issued.trans other.symm)
    exact absurd same (by decide +kernel)
  have apart := List.pairwise_pair.mp (always _ ran fresh).2
  exact apart rfl rfl rfl

/- A rotation that signs the issued nonce, beside a session that stopped at once. -/
theorem ownNoncePasses :
    NoReplay [sampleRun (List.replicate 64 1),⟨sampleSession,1,⟨none,none,false⟩⟩] := by
  apply noReplayOfOwnNonces
  · intro a member
    rcases List.mem_pair.mp member with rfl | rfl
    · exact sampleRan 1 (by decide +kernel)
    · exact ⟨_,.here _ _⟩
  · apply List.pairwise_pair.mpr
    intro nonce _
    exact nofun
  · intro a member nonce body issued read _
    rcases List.mem_pair.mp member with rfl | rfl
    · cases issued
      cases read
      decide +kernel
    · contradiction

end Replay
end RDrive
