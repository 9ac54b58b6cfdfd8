import RDrive.AuthTrees
import RDrive.Challenges
import RDrive.Replay

/-! Whose word a rotation rests on: any sessions of an honest client, with whatever
servers it trusts, and any rotations of an honest server. The disk answers anything, so
other sessions may change it at any time. -/
namespace RDrive
open Crypto Header Party Bytes Program

/- The nonce a rotation issued, the body it read last, and whether its ACK went out. -/
structure Grant where
  issued : Option Bytes
  body : Option Bytes
  acked : Bool

def Grant.none : Grant := ⟨.none,.none,false⟩

namespace Session

def noteGrant (S : Session) (g : Grant) : (c : (Port HostSig).Call) → (Port HostSig).Ret c → Grant
  | .recv _, .ok b => {g with body := S.cipher.opened S.sessionKey b.val}
  -- the first frame carries the nonce
  | .send b, _ => {g with
      issued := g.issued <|> S.cipher.opened S.sessionKey (b.drop 4)
      acked := g.acked || S.cipher.opened S.sessionKey (b.drop 4) == some [1]}
  | _, _ => g

def Granted (S : Session) (g : Grant) : Prop :=
  g.acked = true → ∃ nonce body old new, g.issued = some nonce ∧ g.body = some body ∧
    S.Rotates body old new

section
variable {S : Session} {g : Grant} {data issued headerBytes : Bytes} {inv : Grant → Prop}

theorem sentNote (nonce : Nonce) (data : Bytes) (r : Except Fault Unit) :
    S.noteGrant g (.send (Frame.frame S.cipher S.sessionKey nonce data)) r =
      ⟨g.issued <|> some data,g.body,g.acked || data == [1]⟩ := by
  have box : (Frame.frame S.cipher S.sessionKey nonce data).drop 4 =
    S.cipher.sealed S.sessionKey nonce data := rfl
  rw [noteGrant,box,S.cipher.openedSealed]
  simp

theorem nonceGrants (other : data ≠ [1]) (before : inv Grant.none) (after : inv ⟨some data,none,false⟩) :
    Safe (noting S.noteGrant) inv (Returns fun _ t => t = ⟨some data,none,false⟩)
      (S.writeEncryptFrameInto data) Grant.none := by
  unfold writeEncryptFrameInto
  split
  · exact ⟨before,trivial⟩
  refine ⟨before,?_⟩
  rintro nonce _ rfl
  refine ⟨before,?_⟩
  rintro answer _ rfl
  have noted := sentNote (S := S) (g := Grant.none) nonce data answer
  rw [beq_false_of_ne other] at noted
  rw [show S.noteGrant Grant.none (.here (.draw nonceLen)) nonce = Grant.none from rfl,noted]
  cases answer
  · exact ⟨after,trivial⟩
  · exact ⟨after,rfl⟩

theorem refusalGrants (e : ErrorHeader) (held : inv ⟨some issued,some headerBytes,false⟩) :
    Safe (noting S.noteGrant) inv (Returns fun _ _ => True) (S.sendFailed e)
      ⟨some issued,some headerBytes,false⟩ := by
  have idle : Confined (fun c => ∀ r t, noting S.noteGrant ⟨some issued,some headerBytes,false⟩ c r t →
      t = ⟨some issued,some headerBytes,false⟩) (S.sendFailed e) := by
    refine confinedClosing (fun _ _ noted => noted) (fun nonce r t noted => ?_) fun _ _ noted => noted
    rw [noted,sentNote]
    simp
  refine safeWeaken (idleSafe held idle) fun result _ _ _ => ?_
  cases result <;> trivial

theorem readGrants (held : ∀ body, inv {g with body := body}) : Safe (noting S.noteGrant) inv
    (Returns fun data t => t = {g with body := some data}) S.readEncryptDataInto g := by
  have length : Safe (noting S.noteGrant) inv (Returns fun _ t => ∃ body, t = {g with body := body})
      readFrameLength g := by
    refine ⟨held g.body,?_⟩
    rintro (fault | four) _ rfl
    · cases fault <;> exact ⟨held _,trivial⟩
    · exact safeLift _ (held _) fun _ _ => ⟨_,rfl⟩
  unfold readEncryptDataInto
  refine safeThen length ?_
  rintro len _ - ⟨body,rfl⟩
  split
  · exact ⟨held body,trivial⟩
  refine ⟨held body,?_⟩
  rintro (fault | box) t rfl
  · exact ⟨held body,trivial⟩
  refine safeLift _ (held _) fun data opened => ?_
  rw [noteGrant,Outcome.ofOptionIsOk.mp opened]

theorem renamesGrant {old new : Bytes} (names : S.Rotates headerBytes old new) :
    Safe (noting S.noteGrant) S.Granted (Returns fun _ _ => True) (S.renameKeyDirs old new)
      ⟨some issued,some headerBytes,false⟩ := by
  have quiet : S.Granted ⟨some issued,some headerBytes,false⟩ := nofun
  have told : S.Granted ⟨some issued,some headerBytes,true⟩ :=
    fun _ => ⟨issued,headerBytes,old,new,rfl,rfl,names⟩
  unfold renameKeyDirs
  refine hereSafe quiet ?_
  rintro (_ | _) _ rfl
  · exact ⟨quiet,trivial⟩
  refine hereSafe quiet ?_
  rintro keyMoved _ rfl
  refine hereSafe quiet ?_
  rintro storageMoved _ rfl
  split
  · refine ⟨quiet,?_⟩
    rintro nonce _ rfl
    refine ⟨quiet,?_⟩
    rintro answer _ rfl
    rw [sentNote]
    cases answer <;> exact ⟨told,trivial⟩
  · exact refusalGrants _ quiet

theorem rotateGrants (issued headerBytes : Bytes) : Safe (noting S.noteGrant) S.Granted
    (Returns fun _ _ => True) (S.rotateKey headerBytes) ⟨some issued,some headerBytes,false⟩ := by
  have quiet : S.Granted ⟨some issued,some headerBytes,false⟩ := nofun
  have cut : ∀ {b : Bytes} {mid : Nat}, Safe (noting S.noteGrant) S.Granted
      (Returns fun parts t => (parts = (b.take mid,b.drop mid) ∧ mid ≤ b.length) ∧
        t = ⟨some issued,some headerBytes,false⟩)
      (liftM (splitAt b mid) : Party (Bytes × Bytes)) ⟨some issued,some headerBytes,false⟩ := by
    intro b mid
    refine safeLift _ quiet fun parts found => ?_
    unfold splitAt at found
    split at found <;> try contradiction
    rename_i inside
    exact ⟨⟨(Outcome.ok.inj found).symm,inside⟩,rfl⟩
  unfold rotateKey
  refine safeThen cut ?_
  rintro _ _ - ⟨⟨rfl,one⟩,rfl⟩
  refine safeThen cut ?_
  rintro _ _ - ⟨⟨rfl,two⟩,rfl⟩
  refine safeThen cut ?_
  rintro _ _ - ⟨⟨rfl,three⟩,rfl⟩
  dsimp only
  split
  · exact ⟨quiet,trivial⟩
  · exact refusalGrants _ quiet
  · rename_i oldPubKey valid
    split
    · exact ⟨quiet,trivial⟩
    · exact ⟨quiet,trivial⟩
    · rename_i newPubKey parsed
      rw [List.length_drop] at two three
      rw [List.length_drop] at three
      exact renamesGrant ⟨by omega,valid,parsed⟩

theorem rotationGrants : Safe (noting S.noteGrant) S.Granted (Returns fun _ _ => True)
    (S.handleAuthKeys 2) .none := by
  have quiet : ∀ {issued body}, S.Granted ⟨issued,body,false⟩ := nofun
  unfold handleAuthKeys
  refine hereSafe quiet ?_
  rintro random _ rfl
  refine safeThen (nonceGrants ?_ quiet quiet) ?_
  · intro same
    have size := congrArg List.length same
    rw [S.hashes.sha512Length] at size
    contradiction
  rintro _ _ - rfl
  rw [if_neg (by decide),if_pos rfl]
  refine safeThen (readGrants fun _ => quiet) ?_
  rintro headerBytes _ - rfl
  exact rotateGrants _ headerBytes

theorem splitReached {σ : Type} {env : Env (Port HostSig) σ} {s t : σ} {b : Bytes} {mid : Nat}
    {f : Bytes × Bytes → Party Unit} {q : Party Unit} (inside : mid ≤ b.length)
    (later : Reaches env (f (b.take mid,b.drop mid)) s q t) :
    Reaches env ((liftM (splitAt b mid) : Party (Bytes × Bytes)) >>= f) s q t := by
  rw [splitAtOk inside]
  exact later

theorem sentGrant {g : Grant} {data : Bytes} (bounded : data.length ≤ Frame.u32Max) (nonce : Nonce) :
    Reaches (noting S.noteGrant) (S.writeEncryptFrameInto data) g (.done (.ok ()))
      ⟨g.issued <|> some data,g.body,g.acked || data == [1]⟩ := by
  have written := sentNote (S := S) (g := g) nonce data (.ok ())
  have drawn : noting S.noteGrant g (.here (.draw nonceLen)) nonce g := rfl
  exact frameReached bounded nonce drawn written.symm

theorem renameKeysAcked {issued body : Bytes} (old new : Bytes) (nonce : Nonce) :
    Reaches (noting S.noteGrant) (S.renameKeyDirs old new) ⟨some issued,some body,false⟩
      (.done (.ok ())) ⟨some issued,some body,true⟩ := by
  have asked : ∀ (op : Fs.Op) (r : op.Ret) (g : Grant),
      Reaches (noting S.noteGrant) (fs op) g (.done (.ok r)) g := fun op r g =>
    hereReached (show noting S.noteGrant g (.here (.fs op)) r g from rfl)
  unfold renameKeyDirs
  refine reachesThen (asked _ true _) ?_
  rw [if_pos rfl]
  refine reachesThen (asked _ true _) (reachesThen (asked _ true _) ?_)
  rw [if_pos ⟨rfl,rfl⟩]
  exact sentGrant (by decide) nonce

theorem rotateAcked {issued body old new : Bytes} (names : S.Rotates body old new) (nonce : Nonce) :
    Reaches (noting S.noteGrant) (S.rotateKey body) ⟨some issued,some body,false⟩ (.done (.ok ()))
      ⟨some issued,some body,true⟩ := by
  obtain ⟨long,valid,parsed⟩ := names
  unfold rotateKey
  refine splitReached (by omega) (splitReached ?_ (splitReached ?_ ?_))
  · rw [List.length_drop]
    omega
  · rw [List.length_drop,List.length_drop]
    omega
  · simp only [valid,parsed]
    exact renameKeysAcked old new nonce

theorem rotationAcked {body old new : Bytes} (names : S.Rotates body old new)
    (small : nonceLen + body.length + tagLen ≤ Frame.maxFrameLength) (nonce : Nonce)
    (random : {b : Bytes // b.length = 64}) :
    Reaches (noting S.noteGrant) (S.handleAuthKeys 2) .none (.done (.ok ()))
      ⟨some (S.hashes.sha512 random.val),some body,true⟩ := by
  let issued := S.hashes.sha512 random.val
  have read : Reaches (noting S.noteGrant) S.readEncryptDataInto ⟨some issued,none,false⟩
      (.done (.ok body)) ⟨some issued,some body,false⟩ := by
    have four : noting S.noteGrant ⟨some issued,none,false⟩ (.recv 4)
      (.ok ⟨Frame.be32 (nonceLen + body.length + tagLen),rfl⟩) (S.noteGrant ⟨some issued,none,false⟩
        (.recv 4) (.ok ⟨Frame.be32 (nonceLen + body.length + tagLen),rfl⟩)) := rfl
    refine bodyReached nonce small four ?_
    simp only [noting,noteGrant,S.cipher.openedSealed S.sessionKey nonce body]
  have drawn : Reaches (noting S.noteGrant) (draw 64) .none (.done (.ok random)) .none :=
    hereReached (show noting S.noteGrant .none (.here (.draw 64)) random .none from rfl)
  have size := S.hashes.sha512Length random.val
  have challenge := @sentGrant S Grant.none (S.hashes.sha512 random.val) (by rw [size]; decide) nonce
  have other : S.hashes.sha512 random.val ≠ [1] := by
    intro same
    rw [same] at size
    contradiction
  rw [beq_false_of_ne other] at challenge
  unfold handleAuthKeys
  refine reachesThen drawn (reachesThen challenge ?_)
  rw [if_neg (by decide),if_pos rfl]
  exact reachesThen read (rotateAcked names nonce)

end
end Session

namespace Handshake
open Trust Session

structure RotationRun where
  session : Session
  after : Grant

def RotationRun.Ran (r : RotationRun) : Prop :=
  ∃ p, Reaches (noting r.session.noteGrant) (r.session.handleAuthKeys 2) .none p r.after

/- Signatures of the client's key are made in its sessions only, and none of its
challenges shares one with a nonce in a body. -/
structure Unforged (P : Primitives) (S : Session) (signingKey : Key32) (clients : List ClientSession)
    (rotations : List RotationRun) : Prop where
  unforged : ∀ r ∈ rotations, ∀ body new, r.after.body = some body →
    r.session.Rotates body (P.signing.publicKey signingKey).val new →
    ∃ c ∈ clients, Gave P S signingKey c.traffic (body.take 64)
  collisionless : ∀ c ∈ clients, ∀ met challenge, Heard P S met c.traffic challenge →
    ∀ r ∈ rotations, ∀ body, r.after.body = some body →
    P.signing.sign signingKey (body.take 64) = P.signing.sign signingKey challenge →
    body.take 64 = challenge

section
variable {P : Primitives} {S : Session} {signingKey : Key32} {clients : List ClientSession}
  {rotations : List RotationRun}

/- A rotation that is acknowledged names both keys, and its nonce is signed by the old
one. Where that is the client's, the client signed it as a challenge of a server that it
trusts. -/
theorem nonceAnswered (unforged : Unforged P S signingKey clients rotations)
    (clientsRan : ∀ c ∈ clients, c.Ran P S signingKey) (rotationsRan : ∀ r ∈ rotations, r.Ran) :
    ∀ r ∈ rotations, r.after.acked = true →
      ∃ issued body old new, r.after.issued = some issued ∧ r.after.body = some body ∧
        r.session.Rotates body old new ∧
        (old = (P.signing.publicKey signingKey).val →
          ∃ c ∈ clients, ∃ met, Trusts P c.serverIp c.before c.after c.traffic met ∧
            Heard P S met c.traffic (body.take 64)) := by
  intro r ours acked
  obtain ⟨p,ran⟩ := rotationsRan r ours
  obtain ⟨issued,body,old,new,told,read,names⟩ := safeStart (safeReaches ran rotationGrants) acked
  refine ⟨issued,body,old,new,told,read,names,?_⟩
  rintro rfl
  obtain ⟨c,member,gave⟩ := unforged.unforged r ours body new read names
  obtain ⟨met,challenge,trusts,heard,same⟩ := sessionGave (clientsRan c member) gave
  rw [← unforged.collisionless c member met challenge heard r ours body read same] at heard
  exact ⟨c,member,met,trusts,heard⟩

end

theorem sampleNames : RoundTrip.sampleSession.Rotates Replay.sampleBody (flatKey 9).val (flatKey 8).val := by
  refine ⟨?_,?_,?_⟩ <;> decide +kernel

def relayed : Bytes := List.replicate 64 1

def relayedRun : RotationRun := ⟨RoundTrip.sampleSession,some relayed,some Replay.sampleBody,true⟩

/- A client that knows the server of `zeroKey` signs the nonce for it that another server
has issued; the storage of the client is then moved to a key it never chose. -/
theorem signatureReused :
    ∃ c : ClientSession, c.Ran samplePrimitives RoundTrip.sampleSession (flatKey 9) ∧ c.rotating = none ∧
      relayedRun.Ran ∧ Unforged samplePrimitives RoundTrip.sampleSession (flatKey 9) [c] [relayedRun] := by
  have known : returning.serverMap.get localhost =
      some (Hex.encode (samplePrimitives.signing.publicKey zeroKey).val) := by decide +kernel
  have nonce : Replay.sampleBody.take 64 = relayed := by decide +kernel
  obtain ⟨hello,visits⟩ := visitRuns (S := RoundTrip.sampleSession) (flatKey 9) localhost returning known
  obtain ⟨c,ran,none_,heard,said⟩ := visits zeroKey zeroKey relayed List.length_replicate
  have rotated := rotationAcked sampleNames (by decide +kernel) ⟨List.replicate 12 0,rfl⟩
    ⟨List.replicate 64 1,rfl⟩
  have issued : RoundTrip.sampleSession.hashes.sha512 (List.replicate 64 1) = relayed := by decide +kernel
  rw [issued] at rotated
  refine ⟨c,ran,none_,⟨_,rotated⟩,?_,?_⟩
  · intro r ours body new read names
    cases List.mem_singleton.mp ours
    cases Option.some.inj read
    rw [nonce]
    exact ⟨c,List.mem_singleton.mpr rfl,gavePacket said⟩
  · intro c' member met challenge heardThis r ours body read _
    cases List.mem_singleton.mp member
    cases List.mem_singleton.mp ours
    cases Option.some.inj read
    rw [nonce]
    exact (heardAlone (by rw [ServerHello.length]; decide) List.length_replicate heard heardThis).symm

/- Even where the nonce in the body is the one that was issued. -/
theorem rotationUnbound : ¬ ∀ (P : Primitives) (S : Session) (signingKey : Key32)
    (clients : List ClientSession) (rotations : List RotationRun),
    Unforged P S signingKey clients rotations → (∀ c ∈ clients, c.Ran P S signingKey) →
    (∀ r ∈ rotations, r.Ran) → ∀ r ∈ rotations, r.after.acked = true → ∀ body new,
      r.after.body = some body → r.after.issued = some (body.take 64) →
      r.session.Rotates body (P.signing.publicKey signingKey).val new →
      ∃ c ∈ clients, ∃ publicKey : Key32, publicKey.val = new ∧
        c.rotating = some (publicKey,some (P.signing.publicKey signingKey)) := by
  intro always
  obtain ⟨c,ran,none_,rotated,unforged⟩ := signatureReused
  obtain ⟨c',member,publicKey,-,rotating⟩ := always samplePrimitives RoundTrip.sampleSession (flatKey 9) [c] _
    unforged (by simpa using ran) (by simpa using rotated) _ (List.mem_singleton.mpr rfl) rfl
    Replay.sampleBody _ rfl (by decide +kernel) sampleNames
  cases List.mem_singleton.mp member
  rw [none_] at rotating
  contradiction

theorem rotationSigned : ∃ (c : ClientSession) (met : Hellos),
    Trusts samplePrimitives c.serverIp c.before c.after c.traffic met ∧
    Heard samplePrimitives RoundTrip.sampleSession met c.traffic (Replay.sampleBody.take 64) := by
  obtain ⟨c,ran,-,rotated,unforged⟩ := signatureReused
  obtain ⟨_,body,old,new,-,read,names,signed⟩ := nonceAnswered unforged (by simpa using ran)
    (by simpa using rotated) _ (List.mem_singleton.mpr rfl) rfl
  cases Option.some.inj read
  have same : old = (flatKey 9).val := Outcome.ok.inj (names.2.1.symm.trans sampleNames.2.1)
  obtain ⟨c',-,met,trusts,heard⟩ := signed same
  exact ⟨c',met,trusts,heard⟩

end Handshake
end RDrive
