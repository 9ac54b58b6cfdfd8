import RDrive.Tapped
import RDrive.AuthBodies
import RDrive.AuthTrees
import RDrive.Challenges

/-! A rotation over such a network: what each end can have accepted, whatever of the other's
frames and of its own it is given. -/
namespace RDrive.Tapped
open Crypto Header Party Bytes Program Crew Handshake

def moves (S : Session) (oldKey publicKey : Key32) : List (Path × Path) :=
  [(S.authPath oldKey.val,S.authPath publicKey.val),(S.storagePath oldKey.val,S.storagePath publicKey.val)]

/- A body of auth_client for these keys. -/
structure Names (body : Bytes) (oldKey publicKey : Key32) : Prop where
  size : body.length = 192
  old : (body.drop 128).take 32 = oldKey.val
  new : body.drop 160 = publicKey.val

inductive Asked (S : Session) (oldKey publicKey : Key32) (s : Tap) : Prop where
  | silent (client : s.byClient = [])
  | asked {c : Bytes} (request : Opens S c (authRequest (some oldKey)))
      (client : s.byClient = [c])
  | signed {c b body challenge : Bytes}
      (request : Opens S c (authRequest (some oldKey)))
      (opened : Opens S b body) (names : Names body oldKey publicKey)
      (issued : [challenge] <+: s.byServer) (client : s.byClient = [c,b])

def Settles (S : Session) (oldKey publicKey : Key32) (renamed : List (Path × Path))
    (data : Bytes) : Prop :=
  data = [1] ∧ renamed = moves S oldKey publicKey ∨ ∃ more, data = 3 :: more

inductive Replied (S : Session) (oldKey publicKey : Key32) (s : Tap) : Prop where
  | silent (server : s.byServer = []) (still : s.renamed = [])
  | once {x : Bytes} (server : s.byServer = [x]) (partly : s.renamed.Sublist (moves S oldKey publicKey))
  | twice {x l data : Bytes} (server : s.byServer = [x,l])
      (partly : s.renamed.Sublist (moves S oldKey publicKey)) (both : s.byClient.length = 2)
      (opened : Opens S l data)
      (settles : Settles S oldKey publicKey s.renamed data)

structure Sound (S : Session) (oldKey publicKey : Key32) (s : Tap) : Prop where
  asked : Asked S oldKey publicKey s
  replied : Replied S oldKey publicKey s

def ClientPoint (g : List Bytes) (s : Tap) : Prop :=
  g.length = 2 → ∃ challenge last, g = [challenge,last] ∧ s.byClient.length = 2 ∧
    [challenge] <+: s.byServer ∧ last ∈ s.sent

def ServerPoint (g : List Bytes) (s : Tap) : Prop :=
  s.renamed ≠ [] → g = s.byClient ∧ g.length = 2

section
variable {S : Session} {oldKey publicKey : Key32} {s t : Tap} {g : List Bytes} {body : Bytes}

theorem requestBytes (oldKey : Key32) : authRequest (some oldKey) = [1,2] := by
  simp [authRequest,Command.serialize,Postcard.varint]

theorem requestShort (oldKey : Key32) : (authRequest (some oldKey)).length = 2 := by
  rw [requestBytes]
  rfl

theorem clientBound (sound : Sound S oldKey publicKey s) : s.byClient.length ≤ 2 := by
  cases sound.asked with
  | silent client => simp [client]
  | asked _ client => simp [client]
  | signed _ _ _ _ client => simp [client]

theorem clientStable : Stable (By .server) (Sound S oldKey publicKey) ClientPoint := by
  intro g s t by_ _ point two
  obtain ⟨challenge,last,same,both,issued,inside⟩ := point two
  exact ⟨challenge,last,same,by rw [by_.1]; exact both,issued.trans by_.2.1,sentLater by_ inside⟩

theorem serverStable : Stable (By .client) (Sound S oldKey publicKey) ServerPoint := by
  intro g s t by_ sound point renamed
  rw [by_.2.2] at renamed
  obtain ⟨same,two⟩ := point renamed
  have bound := clientBound sound
  have whole := by_.1.eq_of_length_le (by rw [← same]; omega)
  exact ⟨same.trans whole,two⟩

end

section Client
variable {S : Session} {oldKey publicKey : Key32} {s : Tap} {body nonce signature : Bytes}
  {u : Turn Tap (List Bytes)}

theorem bodyNames (size : signature.length = 64)
    (made : Session.authBody nonce signature publicKey (some oldKey) = .ok body) :
    nonce.length = 64 ∧ Names body oldKey publicKey := by
  have long : nonce.length = 64 := by
    by_contra other
    rw [Session.bodyPanics other] at made
    contradiction
  rw [Session.authBody,Session.rotationParts long size] at made
  cases Outcome.ok.inj made
  have first : (nonce ++ signature).length = 128 := by rw [List.length_append,long,size]
  have second : (nonce ++ signature ++ oldKey.val).length = 160 := by
    rw [List.length_append,first,oldKey.property]
  refine ⟨long,by rw [List.length_append,second,publicKey.property],?_,List.drop_left' second⟩
  rw [List.append_assoc,List.drop_left' first,List.take_left' oldKey.property]

abbrev AtClient (S : Session) (oldKey publicKey : Key32) : Turn Tap (List Bytes) → Prop :=
  Decent (By .client) (Sound S oldKey publicKey) ClientPoint

abbrev aroundClient (S : Session) (oldKey publicKey : Key32) : Env (Port HostSig) (Turn Tap (List Bytes)) :=
  disturbed (tapped S .client) (By .server) (Sound S oldKey publicKey)

theorem fewPoint {g : List Bytes} (few : g.length < 2) : ClientPoint g s := fun two => by omega

theorem issuedLasts (sent : List Bytes) (challenge : Bytes) : Lasts (By .server) (Sound S oldKey publicKey)
    fun s => s.byClient = sent ∧ [challenge] <+: s.byServer :=
  fun _ _ by_ _ known => ⟨by_.1.trans known.1,known.2.trans by_.2.1⟩

def Answered (S : Session) (g : List Bytes) : Prop := ∃ challenge last rsp, g = [challenge,last] ∧
  Opens S last rsp ∧ (rsp[0]? = some 1 ∨ rsp[0]? = some 2)

theorem outcomeTalks {c b challenge : Bytes} (start : AtClient S oldKey publicKey u)
    (client : u.shared.byClient = [c,b]) (issued : [challenge] <+: u.shared.byServer)
    (notes : u.notes = [challenge]) : Safe (aroundClient S oldKey publicKey) (AtClient S oldKey publicKey)
      (Returns fun _ v => Answered S v.notes) S.authOutcome u := by
  unfold Session.authOutcome
  refine bodyThen ⟨byRefl _,issuedLasts [c,b] challenge,start,⟨client,issued⟩,
    fun s _ _ => fewPoint (by simp [notes])⟩ ?_ ?_
  · intro s box data _ known inside _
    rw [notes]
    exact fun _ => ⟨challenge,box,rfl,by rw [known.1]; rfl,known.2,inside⟩
  intro last rsp v decent took
  have same : v.notes = [challenge,last] := by rw [took.notes,notes]; rfl
  cases tagged : rsp[0]? with
  | none =>
    simp only [index,tagged]
    exact ⟨decent,trivial⟩
  | some flag =>
    simp only [index,tagged,Program.liftDone,Program.bindDone]
    split
    · rename_i one
      subst one
      exact ⟨decent,challenge,last,rsp,same,took.opened,.inl tagged⟩
    split
    · rename_i two
      subst two
      refine safeThen (safeLift (fun _ v => Answered S v.notes) decent fun _ _ =>
        ⟨challenge,last,rsp,same,took.opened,.inr tagged⟩) ?_
      exact fun _ _ decent answered => ⟨decent,answered⟩
    split
    · refine safeThen (safeLift (fun _ _ => True) decent fun _ _ => trivial) ?_
      exact fun _ _ decent _ => ⟨decent,trivial⟩
    · exact ⟨decent,trivial⟩

theorem repliedMore (replied : Replied S oldKey publicKey s) (few : s.byClient.length < 2)
    (more : List Bytes) : Replied S oldKey publicKey (s.seals more .client) := by
  cases replied with
  | silent server still => exact .silent server still
  | once server partly => exact .once server partly
  | twice _ _ both => omega

theorem challengeIssued {c box data : Bytes} (sound : Sound S oldKey publicKey s)
    (request : Opens S c (authRequest (some oldKey)))
    (client : s.byClient = [c]) (inside : box ∈ s.sent) (opened : Opens S box data)
    (size : data.length = 64) : [box] <+: s.byServer := by
  rw [Tap.sent,client,List.mem_append,List.mem_singleton] at inside
  rcases inside with rfl | inside
  · -- the client's own command is two bytes, and not 64
    rw [← Option.some.inj (request.symm.trans opened),requestShort] at size
    contradiction
  cases sound.replied with
  | silent server =>
    rw [server] at inside
    contradiction
  | once server =>
    rw [server,List.mem_singleton] at inside
    rw [server,inside]
  | twice _ _ both =>
    -- the server's second frame comes after the client's, which is not out yet
    simp [client] at both

theorem unsaid (sent : List Bytes) : Lasts (By .server) (Sound S oldKey publicKey)
    fun s => s.byClient = sent := fun _ _ by_ _ known => by_.1.trans known

theorem answerTalks {c : Bytes} (signing : Signing) (privateKey : Key32) (notes : u.notes = [])
    (request : Opens S c (authRequest (some oldKey)))
    (challenge nonce : Bytes) (v : Turn Tap (List Bytes)) (start : AtClient S oldKey publicKey v)
    (took : Took S u.notes (fun s => s.byClient = [c]) challenge nonce v) :
    Safe (aroundClient S oldKey publicKey) (AtClient S oldKey publicKey)
      (Returns fun _ v => Answered S v.notes)
      (S.answerAuth signing privateKey publicKey (some oldKey) nonce) v := by
  unfold Session.answerAuth
  dsimp only
  cases made : Session.authBody nonce (signing.sign privateKey nonce).val publicKey (some oldKey) with
  | err message => exact ⟨start,trivial⟩
  | panic => exact ⟨start,trivial⟩
  | ok body =>
    obtain ⟨size,names⟩ := bodyNames (signing.sign privateKey nonce).property made
    -- 64 bytes that the client has signed can only be the challenge of this server
    have issued := challengeIssued start.valid request took.known took.inside took.opened size
    have heard : v.notes = [challenge] := by rw [took.notes,notes]; rfl
    have few : ∀ s, ClientPoint v.notes s := fun s => fewPoint (by simp [heard])
    rw [Program.liftDone,Program.bindDone]
    refine frameThen ⟨byRefl _,issuedLasts [c] challenge,start,⟨took.known,issued⟩,fun s _ _ => few s⟩ ?_
    intro s b sound known opened
    have both : (s.seals [b] .client).byClient = [c,b] := by simp [Tap.seals,known.1]
    have decent : AtClient S oldKey publicKey ⟨s.seals [b] .client,v.notes,s⟩ :=
      ⟨sealsBy _,⟨.signed request opened names known.2 both,
        repliedMore sound.replied (by simp [known.1]) _⟩,few _⟩
    exact ⟨decent,outcomeTalks decent both known.2 heard⟩

-- the goal has authBody's buffer of 192 bytes in it
set_option maxRecDepth 2000 in
theorem awaitTalks {c : Bytes} (signing : Signing) (privateKey : Key32) (start : AtClient S oldKey publicKey u)
    (request : Opens S c (authRequest (some oldKey)))
    (client : u.shared.byClient = [c]) (notes : u.notes = []) : Safe (aroundClient S oldKey publicKey)
      (AtClient S oldKey publicKey) (Returns fun _ v => Answered S v.notes)
      (S.awaitChallenge signing privateKey publicKey (some oldKey)) u := by
  unfold Session.awaitChallenge
  exact bodyThen ⟨byRefl _,unsaid [c],start,client,fun s _ _ => fewPoint (by simp [notes])⟩
    (fun s box data _ _ _ _ => fewPoint (by simp [notes])) (answerTalks signing privateKey notes request)

theorem clientTalks (signing : Signing) (privateKey : Key32) : Safe (aroundClient S oldKey publicKey)
    (AtClient S oldKey publicKey) (Returns fun _ v => Answered S v.notes)
    (S.authClient signing privateKey publicKey (some oldKey)) (Turn.start .quiet []) := by
  have start : AtClient S oldKey publicKey (Turn.start .quiet []) :=
    ⟨byRefl _ _,⟨.silent rfl,.silent rfl rfl⟩,fewPoint (by decide)⟩
  unfold Session.authClient
  refine frameThen ⟨byRefl _,unsaid [],start,rfl,fun s _ _ => fewPoint (by decide)⟩ ?_
  intro s c sound known request
  have one : (s.seals [c] .client).byClient = [c] := by simp [Tap.seals,known]
  have decent : AtClient S oldKey publicKey ⟨s.seals [c] .client,[],s⟩ :=
    ⟨sealsBy _,⟨.asked request one,repliedMore sound.replied (by simp [known]) _⟩,fewPoint (by simp)⟩
  exact ⟨decent,awaitTalks signing privateKey decent request one rfl⟩

end Client

section Server
variable {S : Session} {oldKey publicKey : Key32} {s : Tap} {body data c b x box : Bytes}
  {u : Turn Tap (List Bytes)} {renamed : List (Path × Path)}

abbrev AtServer (S : Session) (oldKey publicKey : Key32) : Turn Tap (List Bytes) → Prop :=
  Decent (By .server) (Sound S oldKey publicKey) ServerPoint

abbrev aroundServer (S : Session) (oldKey publicKey : Key32) : Env (Port HostSig) (Turn Tap (List Bytes)) :=
  disturbed (tapped S .server) (By .client) (Sound S oldKey publicKey)

theorem stillPoint {g : List Bytes} (still : s.renamed = []) : ServerPoint g s :=
  fun some_ => absurd still some_

theorem askedMore (asked : Asked S oldKey publicKey s) (more : List Bytes) :
    Asked S oldKey publicKey (s.seals more .server) := by
  cases asked with
  | silent client => exact .silent client
  | asked request client => exact .asked request client
  | signed request opened names issued client =>
    exact .signed request opened names (issued.trans (List.prefix_append _ _)) client

theorem requestTaken (sound : Sound S oldKey publicKey s) (alone : s.byServer = []) (inside : box ∈ s.sent)
    (opened : Opens S box data) :
    data = authRequest (some oldKey) ∧ s.byClient = [box] := by
  rw [Tap.sent,alone,List.append_nil] at inside
  cases sound.asked with
  | silent client =>
    rw [client] at inside
    contradiction
  | @asked c request client =>
    rw [client,List.mem_singleton] at inside
    subst inside
    exact ⟨Option.some.inj (opened.symm.trans request),client⟩
  | signed _ _ _ issued =>
    rw [alone] at issued
    simp at issued

theorem bodyTaken {challenge : Bytes} (sound : Sound S oldKey publicKey s) (server : s.byServer = [x])
    (issued : Opens S x challenge) (size : challenge.length = 64)
    (first : [c] <+: s.byClient) (inside : box ∈ s.sent)
    (opened : Opens S box data) :
    data.length < 160 ∨ s.byClient = [c,box] ∧ Names data oldKey publicKey := by
  have own : box = x → data.length < 160 := by
    rintro rfl
    rw [Option.some.inj (opened.symm.trans issued),size]
    decide
  have again : ∀ {c : Bytes}, Opens S c (authRequest (some oldKey)) → box = c →
      data.length < 160 := by
    rintro c request rfl
    rw [Option.some.inj (opened.symm.trans request),requestShort]
    decide
  rw [Tap.sent,server,List.mem_append,List.mem_singleton] at inside
  rcases inside with inside | same
  · cases sound.asked with
    | silent client =>
      rw [client] at inside
      contradiction
    | asked request client =>
      rw [client,List.mem_singleton] at inside
      exact .inl (again request inside)
    | @signed c' b body _ request signed names _ client =>
      rw [client,List.mem_pair] at inside
      rcases inside with same | rfl
      · exact .inl (again request same)
      · -- the first frame the server has accepted was the client's first
        rw [client,List.cons_prefix_cons] at first
        cases Option.some.inj (signed.symm.trans opened)
        exact .inr ⟨by rw [client,first.1],names⟩
  · exact .inl (own same)

structure Working (c b x : Bytes) (renamed : List (Path × Path)) (s : Tap) : Prop where
  client : s.byClient = [c,b]
  server : s.byServer = [x]
  renamed : s.renamed = renamed

theorem workingLasts (c b x : Bytes) (renamed : List (Path × Path)) :
    Lasts (By .client) (Sound S oldKey publicKey) (Working c b x renamed) := by
  rintro s t by_ sound ⟨client,server,same⟩
  have bound := clientBound sound
  have whole := by_.1.eq_of_length_le (by rw [client]; exact bound)
  exact ⟨whole.symm.trans client,by_.2.1.trans server,by_.2.2.trans same⟩

theorem workingPoint (working : Working c b x renamed s) : ServerPoint [c,b] s :=
  fun _ => ⟨working.client.symm,rfl⟩

theorem lastTalks (start : AtServer S oldKey publicKey u) (working : Working c b x renamed u.shared)
    (notes : u.notes = [c,b]) (partly : renamed.Sublist (moves S oldKey publicKey))
    (settles : Settles S oldKey publicKey renamed data) : Safe (aroundServer S oldKey publicKey)
      (AtServer S oldKey publicKey) (Returns fun _ _ => True) (S.writeEncryptFrameInto data) u := by
  refine frameTalks ⟨byRefl _,workingLasts c b x renamed,start,working,
    fun s _ working => by rw [notes]; exact workingPoint working⟩ ?_
  intro s l sound working opened
  rw [notes]
  have replied : Replied S oldKey publicKey (s.seals [l] .server) :=
    .twice (by simp [Tap.seals,working.server]; rfl) (by simpa [Tap.seals,working.renamed] using partly)
      (by simp [Tap.seals,working.client]) opened (by simpa [Tap.seals,working.renamed] using settles)
  exact ⟨sealsBy _,⟨askedMore sound.asked _,replied⟩,fun _ => ⟨working.client.symm,rfl⟩⟩

theorem closingTalks (talks : Safe (aroundServer S oldKey publicKey) (AtServer S oldKey publicKey)
      (Returns fun _ _ => True) (S.writeEncryptFrameInto data) u) :
    Safe (aroundServer S oldKey publicKey) (AtServer S oldKey publicKey) (Returns fun _ _ => True)
      (S.sendClosing data) u := by
  refine safeThen talks fun _ v start _ => ?_
  refine Pair.callSafe (ServerPoint v.notes) start (serverStable v.notes) start.point ?_
  rintro s closed t h sound point answered
  cases answered
  have still : AtServer S oldKey publicKey ⟨s,v.notes,s⟩ := ⟨byRefl _ _,sound,point⟩
  cases closed <;> exact ⟨still,trivial⟩

theorem workingDecent {t : Tap} {r : List (Path × Path)} (sound : Sound S oldKey publicKey s)
    (by_ : By .server s t) (working : Working c b x r t)
    (partly : r.Sublist (moves S oldKey publicKey)) : AtServer S oldKey publicKey ⟨t,[c,b],s⟩ := by
  have asked : Asked S oldKey publicKey t := by
    cases sound.asked with
    | silent client => exact .silent (by_.1.trans client)
    | asked request client => exact .asked request (by_.1.trans client)
    | signed request opened names issued client =>
      exact .signed request opened names (issued.trans by_.2.1) (by_.1.trans client)
  exact ⟨by_,⟨asked,.once working.server (by rw [working.renamed]; exact partly)⟩,workingPoint working⟩

theorem renameThen {old new : Path} {f : Bool → Party Unit} (start : AtServer S oldKey publicKey u)
    (working : Working c b x renamed u.shared) (notes : u.notes = [c,b])
    (partly : (renamed ++ [(old,new)]).Sublist (moves S oldKey publicKey))
    (next : ∀ done_ v, AtServer S oldKey publicKey v → v.notes = [c,b] →
      Working c b x (if done_ then renamed ++ [(old,new)] else renamed) v.shared →
      Safe (aroundServer S oldKey publicKey) (AtServer S oldKey publicKey) (Returns fun _ _ => True)
        (f done_) v) :
    Safe (aroundServer S oldKey publicKey) (AtServer S oldKey publicKey) (Returns fun _ _ => True)
      (fs (.rename old new) >>= f) u := by
  refine Pair.callSafe (Working c b x renamed) start (workingLasts c b x renamed) working ?_
  rw [notes]
  rintro s done_ t h sound working answered
  -- a rename that has failed leaves no record
  obtain rfl | rfl := Bool.eq_false_or_eq_true (show Bool from done_)
  · cases answered
    have after : Working c b x (renamed ++ [(old,new)]) (s.renames old new .server) :=
      ⟨working.client,working.server,congrArg (· ++ [(old,new)]) working.renamed⟩
    exact next true _ (workingDecent sound (renamesBy old new) after partly) rfl after
  · cases answered
    have less := (List.sublist_append_left _ _).trans partly
    exact next false _ (workingDecent sound (byRefl _ _) working less) rfl working

theorem renamesTalk (start : AtServer S oldKey publicKey u) (working : Working c b x [] u.shared)
    (notes : u.notes = [c,b]) : Safe (aroundServer S oldKey publicKey) (AtServer S oldKey publicKey)
      (Returns fun _ _ => True) (S.renameKeyDirs oldKey.val publicKey.val) u := by
  unfold Session.renameKeyDirs
  refine Pair.callSafe (Working c b x []) start (workingLasts c b x []) working ?_
  rw [notes]
  rintro s there t h sound working answered
  cases answered
  have decent := workingDecent sound (byRefl _ _) working (List.nil_sublist _)
  cases there with
  | false => exact ⟨decent,trivial⟩
  | true =>
    refine renameThen decent working rfl (by simp [moves]) ?_
    intro keyMoved v start notes working
    have first : (if keyMoved then [(S.authPath oldKey.val,S.authPath publicKey.val)] else []).Sublist
        [(S.authPath oldKey.val,S.authPath publicKey.val)] := by
      cases keyMoved <;> simp
    refine renameThen start working notes (first.append (List.Sublist.refl _)) ?_
    intro storageMoved w start notes working
    -- one failure is enough for a refusal, and what has been renamed stays so
    split
    · rename_i both
      refine lastTalks start working notes ?_ (.inl ⟨rfl,?_⟩) <;> simp [both.1,both.2,moves]
    · refine closingTalks (lastTalks start working notes ?_ (.inr ⟨_,rfl⟩))
      cases storageMoved with
      | true => exact first.append (List.Sublist.refl _)
      | false => exact first.trans (List.sublist_append_left _ _)

theorem rotateTalks (start : AtServer S oldKey publicKey u) (working : Working c b x [] u.shared)
    (notes : u.notes = [c,b]) (names : Names body oldKey publicKey) :
    Safe (aroundServer S oldKey publicKey) (AtServer S oldKey publicKey) (Returns fun _ _ => True)
      (S.rotateKey body) u := by
  rw [Session.rotateParts (by rw [names.size]; decide),names.old,names.new]
  split
  · exact ⟨start,trivial⟩
  · exact closingTalks (lastTalks start working notes (List.nil_sublist _) (.inr ⟨_,rfl⟩))
  · rename_i oldPubKey valid
    obtain ⟨rfl,-⟩ := signatureValid valid
    split
    · exact ⟨start,trivial⟩
    · exact ⟨start,trivial⟩
    · rename_i newPubKey parsed
      obtain ⟨rfl,-⟩ := verifyingKeyOk parsed
      exact renamesTalk start working notes

theorem onceDecent {g : List Bytes} (sound : Sound S oldKey publicKey s) (alone : s.byServer = [])
    (still : s.renamed = []) : AtServer S oldKey publicKey ⟨s.seals [x] .server,g,s⟩ :=
  ⟨sealsBy _,⟨askedMore sound.asked _,.once (by simp [Tap.seals,alone]; rfl)
    (by simp [Tap.seals,still])⟩,stillPoint still⟩

structure Before (sent : List Bytes) (g : List Bytes) (s : Tap) : Prop where
  server : s.byServer = sent
  still : s.renamed = []
  first : g <+: s.byClient

theorem beforeLasts (sent g : List Bytes) : Lasts (By .client) (Sound S oldKey publicKey) (Before sent g) :=
  fun _ _ by_ _ before => ⟨by_.2.1.trans before.server,by_.2.2.trans before.still,before.first.trans by_.1⟩

theorem refusalTalks {g : List Bytes} (start : AtServer S oldKey publicKey u)
    (before : Before [] g u.shared) : Safe (aroundServer S oldKey publicKey) (AtServer S oldKey publicKey)
      (Returns fun _ _ => True) (S.sendClosing data) u :=
  closingTalks (frameTalks ⟨byRefl _,beforeLasts [] g,start,before,
    fun _ _ before => stillPoint before.still⟩
      fun _ _ sound before _ => onceDecent sound before.server before.still)

theorem handlerTalks (start : AtServer S oldKey publicKey u) (notes : u.notes = [c])
    (before : Before [] [c] u.shared) : Safe (aroundServer S oldKey publicKey) (AtServer S oldKey publicKey)
      (Returns fun _ _ => True) (S.handleAuthKeys 2) u := by
  unfold Session.handleAuthKeys
  refine Pair.callSafe (Before [] [c]) start (beforeLasts [] [c]) before ?_
  rintro s random t h sound before answered
  cases answered
  have start : AtServer S oldKey publicKey ⟨s,u.notes,s⟩ := ⟨byRefl _ _,sound,stillPoint before.still⟩
  refine frameThen ⟨byRefl _,beforeLasts [] [c],start,before,fun _ _ before => stillPoint before.still⟩ ?_
  intro s x sound before issued
  have start : AtServer S oldKey publicKey ⟨s.seals [x] .server,u.notes,s⟩ :=
    onceDecent sound before.server before.still
  have once : Before [x] [c] (s.seals [x] .server) :=
    ⟨by simp [Tap.seals,before.server],before.still,before.first⟩
  refine ⟨start,?_⟩
  rw [if_neg (by decide),if_pos rfl]
  refine bodyThen ⟨byRefl _,beforeLasts [x] [c],start,once,fun _ _ before => stillPoint before.still⟩
    (fun _ _ _ _ before _ _ => stillPoint before.still) ?_
  intro box data v decent took
  obtain ⟨server,still,first⟩ := took.known
  have taken := bodyTaken decent.valid server issued (S.hashes.sha512Length _) first took.inside took.opened
  rcases taken with short | ⟨client,names⟩
  · -- its own challenge, or the command again: split_at panics
    rw [Session.rotateShort short]
    exact ⟨decent,trivial⟩
  · exact rotateTalks decent ⟨client,server,still⟩ (by rw [took.notes,notes]; rfl) names

theorem requestRead (oldKey : Key32) : Command.deserialize (authRequest (some oldKey)) = .ok (.auth 2) :=
  commandRead (by simp [Command.serialize,Postcard.varint])

theorem headersTalk (S : Session) (oldKey publicKey : Key32) : Safe (aroundServer S oldKey publicKey)
    (AtServer S oldKey publicKey) (fun result v => Before [] [] v.shared ∧ ∀ command, result = .ok command →
      command = .auth 2 ∧ ∃ c, v.notes = [c] ∧ Before [] [c] v.shared) S.readHeaders
    (Turn.start .quiet []) := by
  have start : AtServer S oldKey publicKey (Turn.start .quiet []) :=
    ⟨byRefl _ _,⟨.silent rfl,.silent rfl rfl⟩,stillPoint rfl⟩
  have fresh : Before [] [] Tap.quiet := ⟨rfl,rfl,List.nil_prefix⟩
  refine safeBind (safeWeaken (bodyTalks ⟨byRefl _,beforeLasts [] [],start,fresh,
    fun _ _ before => stillPoint before.still⟩ fun _ _ _ _ before _ _ => stillPoint before.still) ?_)
  rintro (data | message | _) v decent ⟨took,before⟩
  · obtain ⟨c,took⟩ := took data rfl
    obtain ⟨rfl,client⟩ := requestTaken decent.valid before.server took.inside took.opened
    dsimp only [Onward]
    rw [requestRead,Program.liftDone]
    refine ⟨decent,before,?_⟩
    rintro _ ⟨⟩
    exact ⟨rfl,c,took.notes,before.server,before.still,by rw [client]⟩
  · exact ⟨before,by simp⟩
  · exact ⟨before,by simp⟩

theorem serverTalks (S : Session) (oldKey publicKey : Key32) : Safe (aroundServer S oldKey publicKey)
    (AtServer S oldKey publicKey) (Returns fun _ _ => True) S.handleConnection (Turn.start .quiet []) := by
  rw [Session.connectionAnswers]
  refine safeBind (safeWeaken (attemptEnds (headersTalk S oldKey publicKey)) ?_)
  rintro (result | message | _) v decent returned
  · cases result with
    | error message =>
      obtain ⟨before,-⟩ := returned.2 message rfl
      simp only [Onward,Session.answer]
      split
      · refine safeThen (attemptSafe (refusalTalks decent before)) ?_
        exact fun _ _ decent _ => ⟨decent,trivial⟩
      · split
        · exact ⟨decent,trivial⟩
        · exact ⟨decent,trivial⟩
    | ok command =>
      obtain ⟨-,only⟩ := returned.1 command rfl
      obtain ⟨rfl,c,notes,before⟩ := only command rfl
      simp only [Onward,Session.answer]
      refine Pair.callSafe (Before [] [c]) decent (beforeLasts [] [c]) before ?_
      rintro s allowed t h sound before answered
      cases answered
      have decent : AtServer S oldKey publicKey ⟨s,v.notes,s⟩ := ⟨byRefl _ _,sound,stillPoint before.still⟩
      cases allowed with
      | false => exact refusalTalks decent before
      | true => exact handlerTalks decent notes before
  · trivial
  · trivial

end Server

section
variable {S : Session} {signing : Signing} {privateKey publicKey oldKey : Key32}
  {last : Pair (Port HostSig) Unit Unit Tap (List Bytes) (List Bytes)}

theorem answeredWhole {g : List Bytes} {s : Tap} (sound : Sound S oldKey publicKey s)
    (point : ClientPoint g s) (answered : Answered S g) (once : g.Nodup)
    (foreign : ∀ box ∈ g, box ∉ s.byClient) : g = s.byServer ∧ s.renamed = moves S oldKey publicKey := by
  obtain ⟨challenge,last,rsp,rfl,opened,tagged⟩ := answered
  obtain ⟨first,second,same,-,issued,inside⟩ := point rfl
  simp only [List.cons.injEq,and_true] at same
  obtain ⟨rfl,rfl⟩ := same
  have differ : last ≠ challenge := fun same => by simp [same] at once
  have theirs : last ∈ s.byServer :=
    (List.mem_append.mp inside).resolve_left (foreign last (by simp))
  cases sound.replied with
  | silent server =>
    rw [server] at theirs
    contradiction
  | once server =>
    rw [server] at issued theirs
    obtain rfl := (List.cons_prefix_cons.mp issued).1
    exact absurd (List.mem_singleton.mp theirs) differ
  | @twice x l data server _ _ told settles =>
    rw [server] at issued theirs
    obtain rfl := (List.cons_prefix_cons.mp issued).1
    obtain rfl := (List.mem_pair.mp theirs).resolve_left differ
    cases Option.some.inj (opened.symm.trans told)
    rcases settles with ⟨-,done_⟩ | ⟨more,rfl⟩
    · exact ⟨server.symm,done_⟩
    · simp at tagged

theorem rotationHeard (ran : Ran S (S.authClient signing privateKey publicKey (some oldKey)) last) :
    last.shared.renamed.Sublist (moves S oldKey publicKey) ∧
    (last.shared.renamed ≠ [] →
      last.right.notes = last.shared.byClient ∧ last.right.notes.length = 2) ∧
    (last.left.program = .done (.ok ()) → last.left.notes.Nodup →
      (∀ box ∈ last.left.notes, box ∉ last.shared.byClient) →
      last.left.notes = last.shared.byServer ∧ last.shared.renamed = moves S oldKey publicKey) := by
  have fresh : Sound S oldKey publicKey Tap.quiet := ⟨.silent rfl,.silent rfl rfl⟩
  have client := @clientTalks S oldKey publicKey signing privateKey
  have server := serverTalks S oldKey publicKey
  obtain ⟨sound,-,right⟩ := Pair.runKeeps sidesRely ran fresh (safeWeaken client fun _ _ _ _ => trivial)
    (safeWeaken server fun _ _ _ _ => trivial)
  obtain ⟨u,same,since,safe⟩ := Pair.leftEnds sidesRely ran fresh client
    (safeWeaken server fun _ _ _ _ => trivial)
  refine ⟨?_,Pair.standsPoint serverStable sound right,?_⟩
  · cases sound.replied with
    | silent _ still => simp [still]
    | once _ partly => exact partly
    | twice _ partly => exact partly
  · intro ended once foreign
    have point := clientStable _ _ _ since sound (safeStart safe).point
    rw [ended] at safe
    rw [← same] at once foreign ⊢
    exact answeredWhole sound point safe.2 once foreign

end

/- Every frame a network has seen, whoever sealed it; and the rotation. -/
theorem onlySessionFrames (S : Session) :
    (∀ {α : Type} (client : Party α) {last : Pair (Port HostSig) α Unit Tap (List Bytes) (List Bytes)},
      Ran S client last → last.left.notes ⊆ last.shared.sent ∧ last.right.notes ⊆ last.shared.sent ∧
        ∀ first ∈ last.right.notes.head?, first ∈ last.shared.byClient) ∧
    ∀ (signing : Signing) (privateKey publicKey oldKey : Key32)
      {last : Pair (Port HostSig) Unit Unit Tap (List Bytes) (List Bytes)},
      Ran S (S.authClient signing privateKey publicKey (some oldKey)) last →
        last.shared.renamed.Sublist (moves S oldKey publicKey) ∧
        (last.shared.renamed ≠ [] →
          last.right.notes = last.shared.byClient ∧ last.right.notes.length = 2) ∧
        (last.left.program = .done (.ok ()) → last.left.notes.Nodup →
          (∀ box ∈ last.left.notes, box ∉ last.shared.byClient) →
          last.left.notes = last.shared.byServer ∧ last.shared.renamed = moves S oldKey publicKey) :=
  ⟨fun _ _ ran => ranGenuine ran,fun _ _ _ _ _ ran => rotationHeard ran⟩

section
variable {S : Session} {side : Side} {s : Tap} {g : List Bytes} {data : Bytes}

theorem sealedReached (S : Session) (side : Side) (small : data.length ≤ Frame.u32Max) (nonce : Nonce)
    (s : Tap) (g : List Bytes) : Reaches (tapped S side) (S.writeEncryptFrameInto data) (s,g)
      (.done (.ok ())) (s.seals [S.cipher.sealed S.sessionKey nonce data] side,g) := by
  refine frameReached small nonce rfl ?_
  rw [← boxesFramed nonce data]
  rfl

theorem acceptedReached {nonce : Nonce} (small : nonceLen + data.length + tagLen ≤ Frame.maxFrameLength)
    (seen : S.cipher.sealed S.sessionKey nonce data ∈ s.sent) :
    Reaches (tapped S side) S.readEncryptDataInto (s,g) (.done (.ok data))
      (s,g ++ [S.cipher.sealed S.sessionKey nonce data]) := by
  have none_ : frames S (Frame.be32 (nonceLen + data.length + tagLen)) = [] :=
    framesShort (by rw [Frame.be32Length]; decide)
  have only := framesOpened (S.cipher.openedSealed S.sessionKey nonce data)
  refine @Session.bodyReached S _ _ (s,g) (s,g) _ data nonce small ?_ ?_
  · exact ⟨none_ ▸ List.nil_subset _,by rw [none_,List.append_nil]⟩
  · exact ⟨only ▸ List.cons_subset.mpr ⟨seen,List.nil_subset _⟩,by rw [only]⟩

end

/- What the two ends seal in a rotation, and the run up to the client's body. -/
section
variable {S : Session} {signing : Signing} {privateKey publicKey oldKey : Key32} {one two three : Nonce}
  {random : {b : Bytes // b.length = 64}}

def challengeOf (S : Session) (random : {b : Bytes // b.length = 64}) : Bytes := S.hashes.sha512 random.val

def signedBody (signing : Signing) (privateKey publicKey oldKey : Key32) (nonce : Bytes) : Bytes :=
  nonce ++ (signing.sign privateKey nonce).val ++ oldKey.val ++ publicKey.val

theorem signedSize {nonce : Bytes} (size : nonce.length = 64) :
    (signedBody signing privateKey publicKey oldKey nonce).length = 192 := by
  simp only [signedBody,List.length_append,size,(signing.sign privateKey nonce).property,oldKey.property,
    publicKey.property]

theorem rotationStarts (S : Session) (signing : Signing) (privateKey publicKey oldKey : Key32)
    (one two three : Nonce) (random : {b : Bytes // b.length = 64}) :
    let asking := S.cipher.sealed S.sessionKey one (authRequest (some oldKey))
    let issued := S.cipher.sealed S.sessionKey two (challengeOf S random)
    let signed := S.cipher.sealed S.sessionKey three
      (signedBody signing privateKey publicKey oldKey (challengeOf S random))
    Ran S (S.authClient signing privateKey publicKey (some oldKey))
      ⟨⟨[asking,signed],[issued],[]⟩,⟨S.authOutcome,[issued]⟩,
        ⟨S.readEncryptDataInto >>= S.rotateKey,[asking]⟩⟩ := by
  intro asking issued signed
  have size : (challengeOf S random).length = 64 := S.hashes.sha512Length _
  have short : (authRequest (some oldKey)).length ≤ Frame.u32Max := by rw [requestShort]; decide
  have asks : Reaches (tapped S .client) (S.authClient signing privateKey publicKey (some oldKey)) (.quiet,[])
      (S.awaitChallenge signing privateKey publicKey (some oldKey)) (⟨[asking],[],[]⟩,[]) :=
    reachesThen (sealedReached S .client short one _ _) (.here _ _)
  have serves : Reaches (tapped S .server) S.handleConnection (⟨[asking],[],[]⟩,[])
      (S.readEncryptDataInto >>= S.rotateKey) (⟨[asking],[issued],[]⟩,[asking]) := by
    have headers : Reaches (tapped S .server) S.readHeaders (⟨[asking],[],[]⟩,[]) (.done (.ok (.auth 2)))
        (⟨[asking],[],[]⟩,[asking]) := by
      refine reachesThen (acceptedReached (by rw [requestShort]; decide) List.mem_cons_self) ?_
      rw [requestRead]
      exact .here _ _
    rw [Session.connectionAnswers]
    refine reachesThen (attemptReached headers) ?_
    simp only [Session.answer]
    have allowed : tapped S .server (⟨[asking],[],[]⟩,[asking])
      (.here (.isAllowedCost (Session.cost (.auth 2)))) true (⟨[asking],[],[]⟩,[asking]) := rfl
    refine .answer allowed ?_
    change Reaches _ (S.handleAuthKeys 2) _ _ _
    unfold Session.handleAuthKeys
    have drew : tapped S .server (⟨[asking],[],[]⟩,[asking]) (.here (.draw 64)) random
      (⟨[asking],[],[]⟩,[asking]) := rfl
    refine reachesThen (hereReached drew) (reachesThen (sealedReached S .server ?_ two _ _) ?_)
    · rw [S.hashes.sha512Length]
      decide
    · rw [if_neg (by decide),if_pos rfl]
      exact .here _ _
  have signs : Reaches (tapped S .client) (S.awaitChallenge signing privateKey publicKey (some oldKey))
      (⟨[asking],[issued],[]⟩,[]) S.authOutcome (⟨[asking,signed],[issued],[]⟩,[issued]) := by
    unfold Session.awaitChallenge
    refine reachesThen (acceptedReached (by rw [size]; decide) (List.mem_append_right _ List.mem_cons_self)) ?_
    unfold Session.answerAuth
    dsimp only
    rw [Session.authBody,Session.rotationParts size (signing.sign privateKey _).property,Program.liftDone,
      Program.bindDone]
    exact reachesThen (sealedReached S .client (by rw [← signedBody,signedSize size]; decide) three _ _)
      (.here _ _)
  exact (Pair.leftRuns asks).trans ((Pair.rightRuns serves).trans (Pair.leftRuns signs))

theorem acknowledged {s : Tap} {g : List Bytes} {nonce : Nonce} {more : Bytes}
    (small : nonceLen + (1 :: more).length + tagLen ≤ Frame.maxFrameLength)
    (seen : S.cipher.sealed S.sessionKey nonce (1 :: more) ∈ s.sent) :
    Reaches (tapped S .client) S.authOutcome (s,g) (.done (.ok ()))
      (s,g ++ [S.cipher.sealed S.sessionKey nonce (1 :: more)]) := by
  unfold Session.authOutcome
  refine reachesThen (acceptedReached small seen) ?_
  exact .here _ _

theorem reflects (S : Session) (signing : Signing) (privateKey publicKey oldKey : Key32)
    (one two three : Nonce) (random : {b : Bytes // b.length = 64}) :
    let asking := S.cipher.sealed S.sessionKey one (authRequest (some oldKey))
    let issued := S.cipher.sealed S.sessionKey two (challengeOf S random)
    let signed := S.cipher.sealed S.sessionKey three
      (signedBody signing privateKey publicKey oldKey (challengeOf S random))
    Ran S (S.authClient signing privateKey publicKey (some oldKey))
      ⟨⟨[asking,signed],[issued],[]⟩,⟨.done (.ok ()),[issued,asking]⟩,⟨.done .panic,[asking,asking]⟩⟩ := by
  intro asking issued signed
  have accepts : Reaches (tapped S .client) S.authOutcome (⟨[asking,signed],[issued],[]⟩,[issued])
      (.done (.ok ())) (⟨[asking,signed],[issued],[]⟩,[issued,asking]) := by
    have there : asking ∈ Tap.sent ⟨[asking,signed],[issued],[]⟩ := List.mem_cons_self
    simp only [asking,requestBytes] at there ⊢
    exact acknowledged (by decide) there
  have breaks : Reaches (tapped S .server) (S.readEncryptDataInto >>= S.rotateKey)
      (⟨[asking,signed],[issued],[]⟩,[asking]) (.done .panic)
      (⟨[asking,signed],[issued],[]⟩,[asking,asking]) := by
    refine reachesThen (acceptedReached (by rw [requestShort]; decide) List.mem_cons_self) ?_
    rw [Session.rotateShort (by rw [requestShort]; decide)]
    exact .here _ _
  exact (rotationStarts S signing privateKey publicKey oldKey one two three random).trans
    ((Pair.leftRuns accepts).trans (Pair.rightRuns breaks))

theorem completes (signing : Signing) (privateKey : Key32) (one two three four : Nonce)
    (names : S.Rotates (signedBody signing privateKey publicKey oldKey (challengeOf S random)) oldKey.val
      publicKey.val) :
    let asking := S.cipher.sealed S.sessionKey one (authRequest (some oldKey))
    let issued := S.cipher.sealed S.sessionKey two (challengeOf S random)
    let signed := S.cipher.sealed S.sessionKey three
      (signedBody signing privateKey publicKey oldKey (challengeOf S random))
    let ack := S.cipher.sealed S.sessionKey four [1]
    Ran S (S.authClient signing privateKey publicKey (some oldKey))
      ⟨⟨[asking,signed],[issued,ack],moves S oldKey publicKey⟩,⟨.done (.ok ()),[issued,ack]⟩,
        ⟨.done (.ok ()),[asking,signed]⟩⟩ := by
  intro asking issued signed ack
  have size := @signedSize signing privateKey publicKey oldKey _ (S.hashes.sha512Length random.val)
  have renames : Reaches (tapped S .server) (S.readEncryptDataInto >>= S.rotateKey)
      (⟨[asking,signed],[issued],[]⟩,[asking]) (.done (.ok ()))
      (⟨[asking,signed],[issued,ack],moves S oldKey publicKey⟩,[asking,signed]) := by
    have fits : nonceLen + (signedBody signing privateKey publicKey oldKey
        (challengeOf S random)).length + tagLen ≤ Frame.maxFrameLength := by
      rw [challengeOf,size]
      decide
    refine reachesThen (acceptedReached fits (List.mem_append_left _ (List.mem_cons_of_mem _
      List.mem_cons_self))) ?_
    rw [Session.rotatesTo names]
    have looked : tapped S .server (⟨[asking,signed],[issued],[]⟩,[asking,signed])
      (.here (.fs (.exists_ (S.storagePath oldKey.val)))) true
      (⟨[asking,signed],[issued],[]⟩,[asking,signed]) := rfl
    have keysMoved : tapped S .server (⟨[asking,signed],[issued],[]⟩,[asking,signed])
      (.here (.fs (.rename (S.authPath oldKey.val) (S.authPath publicKey.val)))) true
      (⟨[asking,signed],[issued],[(S.authPath oldKey.val,S.authPath publicKey.val)]⟩,[asking,signed]) := rfl
    have filesMoved : tapped S .server
      (⟨[asking,signed],[issued],[(S.authPath oldKey.val,S.authPath publicKey.val)]⟩,[asking,signed])
      (.here (.fs (.rename (S.storagePath oldKey.val) (S.storagePath publicKey.val)))) true
      (⟨[asking,signed],[issued],moves S oldKey publicKey⟩,[asking,signed]) := rfl
    have acked := sealedReached S .server (show [1].length ≤ Frame.u32Max by decide) four
      ⟨[asking,signed],[issued],moves S oldKey publicKey⟩ [asking,signed]
    unfold Session.renameKeyDirs
    exact .answer looked (.answer keysMoved (.answer filesMoved acked))
  have accepts : Reaches (tapped S .client) S.authOutcome
      (⟨[asking,signed],[issued,ack],moves S oldKey publicKey⟩,[issued]) (.done (.ok ()))
      (⟨[asking,signed],[issued,ack],moves S oldKey publicKey⟩,[issued,ack]) :=
    acknowledged (by decide) (List.mem_append_right _ (List.mem_cons_of_mem _ List.mem_cons_self))
  exact (rotationStarts S signing privateKey publicKey oldKey one two three random).trans
    ((Pair.rightRuns renames).trans (Pair.leftRuns accepts))

end

open RoundTrip

abbrev SampleRan (last : Pair (Port HostSig) Unit Unit Tap (List Bytes) (List Bytes)) : Prop :=
  Ran sampleSession (sampleSession.authClient echoSigning (flatKey 9) (flatKey 8) (some (flatKey 9))) last

def flatNonce (byte : UInt8) : Nonce := ⟨List.replicate nonceLen byte,List.length_replicate⟩
def flatRandom : {b : Bytes // b.length = 64} := ⟨List.replicate 64 5,List.length_replicate⟩

theorem sampleNames : sampleSession.Rotates (signedBody echoSigning (flatKey 9) (flatKey 8) (flatKey 9)
    (challengeOf sampleSession flatRandom)) (flatKey 9).val (flatKey 8).val :=
  ⟨by decide +kernel,by decide +kernel,by decide +kernel⟩

/- The client takes its own command for an ACK, and the server takes it again for the body. -/
theorem ownFrameAccepted : ∃ last, SampleRan last ∧ last.left.program = .done (.ok ()) ∧
    last.shared.renamed = [] ∧ ¬ last.left.notes <+: last.shared.byServer ∧
    (∃ box ∈ last.left.notes, box ∈ last.shared.byClient) ∧
    ¬ last.right.notes <+: last.shared.byClient ∧ ¬ last.right.notes.Nodup := by
  refine ⟨_,reflects sampleSession echoSigning (flatKey 9) (flatKey 8) (flatKey 9) (flatNonce 1)
    (flatNonce 2) (flatNonce 3) flatRandom,rfl,rfl,?_,?_,?_,?_⟩
  · exact fun within => absurd within.length_le (by simp)
  · exact ⟨_,List.mem_cons_of_mem _ List.mem_cons_self,List.mem_cons_self⟩
  · decide +kernel
  · simp

theorem sampleFrames : ∃ last, SampleRan last ∧ last.left.program = .done (.ok ()) ∧
    last.left.notes = last.shared.byServer ∧ last.right.notes = last.shared.byClient ∧
    last.right.notes ⊆ last.shared.sent ∧
    last.shared.renamed = moves sampleSession (flatKey 9) (flatKey 8) := by
  have ran := completes echoSigning (flatKey 9) (flatNonce 1) (flatNonce 2) (flatNonce 3) (flatNonce 4)
    sampleNames
  obtain ⟨-,seen,-⟩ := (onlySessionFrames sampleSession).1 _ ran
  obtain ⟨-,heard,whole⟩ := (onlySessionFrames sampleSession).2 echoSigning (flatKey 9) (flatKey 8)
    (flatKey 9) ran
  obtain ⟨told,moved⟩ := whole rfl (by decide +kernel) (by decide +kernel)
  exact ⟨_,ran,rfl,told,(heard (by simp [moves])).1,seen,moved⟩

end RDrive.Tapped
