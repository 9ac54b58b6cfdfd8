import RDrive.Handshake
import RDrive.Stream

/-! The client's record of trusted servers over any sequence of handshakes: who was
asked about which key, what was answered, and what server.map holds then. The
network, random bytes and the user answer as they like; the map file works. -/
namespace RDrive.Trust
open Crypto Program Party Handshake

structure Asked where
  question : Question
  answer : Option String
  deriving DecidableEq, Repr

def Asked.approves (x : Asked) : Bool :=
  match x.answer with
  | some input => accepts input
  | none => false

/- The map, and everything the user was asked, the latest first. -/
structure Desk where
  serverMap : AuthServerMap
  asked : List Asked

def desk : Env (Port HostSig) Desk := fun s c r after =>
  match c, r with
  | .here .readServerMap, found => after = s ∧ found = some s.serverMap
  | .here (.writeServerMap map), written => after = ⟨map,s.asked⟩ ∧ written = true
  | .here (.ask question), answer => after = ⟨s.serverMap,⟨question,answer⟩ :: s.asked⟩
  | _, _ => after = s

structure Raised (serverIp : SocketAddr) (key : Bytes) (s : Desk) (x : Asked) : Prop where
  where_ : x.question.serverIp = serverIp
  about : x.question.presented = Hex.encode key
  unanswered : s.serverMap.get serverIp ≠ some (Hex.encode key)

def Asking (serverIp : SocketAddr) (s t : Desk) : Prop :=
  t.asked = s.asked ∨ ∃ x key, t.asked = x :: s.asked ∧ Raised serverIp key s x

def Valid (P : Primitives) (key : Bytes) : Prop :=
  verifyingKey P.signing.toEd25519 key = .ok key

inductive Settled (P : Primitives) (serverIp : SocketAddr) (key : Bytes) (s : Desk) :
    Outcome Bytes → Desk → Prop where
  | invalid {result} (bad : ¬ Valid P key) : Settled P serverIp key s result s
  | known (valid : Valid P key) (stored : s.serverMap.get serverIp = some (Hex.encode key)) :
      Settled P serverIp key s (.ok key) s
  | declined {x result} (valid : Valid P key) (raised : Raised serverIp key s x)
      (no : x.approves = false) :
      Settled P serverIp key s result ⟨s.serverMap,x :: s.asked⟩
  | unknown {answer} (valid : Valid P key) (missing : s.serverMap.get serverIp = none)
      (yes : Asked.approves ⟨.unknownServer serverIp (Hex.encode key),answer⟩ = true) :
      Settled P serverIp key s (.ok key) ⟨s.serverMap.insert serverIp (Hex.encode key),
        ⟨.unknownServer serverIp (Hex.encode key),answer⟩ :: s.asked⟩
  | changed {existing answer} (valid : Valid P key)
      (stored : s.serverMap.get serverIp = some existing) (other : existing ≠ Hex.encode key)
      (yes : Asked.approves ⟨.keyChanged serverIp existing (Hex.encode key),answer⟩ = true) :
      Settled P serverIp key s (.ok key)
        ⟨s.serverMap.insert serverIp (fingerprint P (Hex.encode key)),
          ⟨.keyChanged serverIp existing (Hex.encode key),answer⟩ :: s.asked⟩

section
variable {P : Primitives} {serverIp : SocketAddr} {key : Bytes} {s : Desk} {α : Type}
  {inv : Desk → Prop}

theorem askSafe {question : Question} {rejected : String} {f : Unit → Party α}
    {post : Outcome α → Desk → Prop} (held : inv s)
    (during : ∀ answer, inv ⟨s.serverMap,⟨question,answer⟩ :: s.asked⟩)
    (no : ∀ answer message, Asked.approves ⟨question,answer⟩ = false →
      post (.err message) ⟨s.serverMap,⟨question,answer⟩ :: s.asked⟩)
    (yes : ∀ answer, Asked.approves ⟨question,answer⟩ = true →
      Safe desk inv post (f ()) ⟨s.serverMap,⟨question,answer⟩ :: s.asked⟩) :
    Safe desk inv post (askUser question rejected >>= f) s := by
  unfold askUser
  rw [Program.bindAssoc]
  refine hereSafe held ?_
  intro answer after answered
  cases (answered : after = _)
  cases answer with
  | none => exact ⟨during none,no none _ rfl⟩
  | some input =>
    cases accepted : accepts input with
    | false =>
      simp only [accepted]
      exact ⟨during (some input),no (some input) _ accepted⟩
    | true =>
      simp only [accepted]
      exact yes (some input) accepted

theorem saveSafe {map : AuthServerMap} {text : String} {f : AuthServerMap → Party α}
    {post : Outcome α → Desk → Prop} (held : inv s)
    (saved : Safe desk inv post (f (map.insert serverIp text)) ⟨map.insert serverIp text,s.asked⟩) :
    Safe desk inv post (saveServer map serverIp text >>= f) s := by
  refine ⟨held,?_⟩
  rintro written after ⟨rfl,rfl⟩
  exact saved

theorem approveSafe (P : Primitives) (serverIp : SocketAddr) (key : Bytes) (s : Desk) :
    Safe desk (Asking serverIp s) (Settled P serverIp key s) (approveServer P serverIp false key)
      s := by
  have start : Asking serverIp s s := .inl rfl
  refine hereSafe start ?_
  rintro found after ⟨rfl,rfl⟩
  simp only []
  cases parsed : verifyingKey P.signing.toEd25519 key with
  | err message => exact ⟨start,.invalid (by simp [Valid,parsed])⟩
  | panic => exact ⟨start,.invalid (by simp [Valid,parsed])⟩
  | ok serverKey =>
    obtain ⟨rfl,size⟩ := verifyingKeyOk parsed
    simp only [Program.liftDone,Program.bindDone,Program.pureDone,preapprove]
    cases stored : after.serverMap.get serverIp with
    | none =>
      have raised : ∀ answer, Raised serverIp serverKey after
          ⟨.unknownServer serverIp (Hex.encode serverKey),answer⟩ := fun answer =>
        ⟨rfl,rfl,by simp [stored]⟩
      have during : ∀ map answer, Asking serverIp after
          ⟨map,⟨.unknownServer serverIp (Hex.encode serverKey),answer⟩ :: after.asked⟩ :=
        fun map answer => .inr ⟨_,serverKey,rfl,raised answer⟩
      refine askSafe start (during _) ?_ ?_
      · exact fun answer message no => .declined parsed (raised answer) no
      · intro answer yes
        exact saveSafe (during _ answer) ⟨during _ answer,.unknown parsed stored yes⟩
    | some existing =>
      simp only []
      split
      · rename_i other
        have raised : ∀ answer, Raised serverIp serverKey after
            ⟨.keyChanged serverIp existing (Hex.encode serverKey),answer⟩ := fun answer =>
          ⟨rfl,rfl,by simp [stored,other]⟩
        have during : ∀ map answer, Asking serverIp after
            ⟨map,⟨.keyChanged serverIp existing (Hex.encode serverKey),answer⟩ :: after.asked⟩ :=
          fun map answer => .inr ⟨_,serverKey,rfl,raised answer⟩
        refine askSafe start (during _) ?_ ?_
        · exact fun answer message no => .declined parsed (raised answer) no
        · intro answer yes
          exact saveSafe (during _ answer) ⟨during _ answer,.changed parsed stored other yes⟩
      · rename_i same
        cases Decidable.not_not.mp same
        simp only [Hex.decodeEncode,Program.bindDone]
        rw [if_neg (by simp [size]),parsed]
        exact ⟨start,.known parsed stored⟩

def Aside (c : (Port HostSig).Call) : Prop := ∀ t r after, desk t c r after → after = t

theorem hellosAside (P : Primitives) : Confined Aside (exchangeHellos P) :=
  hellosConfined P (fun _ _ _ _ same => same) (fun _ _ _ _ same => same) fun _ _ _ _ same => same

theorem challengeAside (P : Primitives) (signingKey : Key32) (met : Hellos) (approved : Bytes) :
    Confined Aside (answerChallenge P signingKey met approved) :=
  challengeConfined P (fun _ _ _ _ same => same) (fun _ _ _ _ same => same) signingKey met approved

def Visited (P : Primitives) (serverIp : SocketAddr) (s t : Desk) : Prop :=
  t = s ∨ ∃ key outcome, Settled P serverIp key s outcome t

theorem clientSafe (P : Primitives) (signingKey : Key32) (serverIp : SocketAddr) (s : Desk) :
    Safe desk (Asking serverIp s) (fun _ t => Visited P serverIp s t)
      (clientHandshakeHelper P signingKey serverIp false) s := by
  unfold clientHandshakeHelper
  refine safeBind (safeWeaken (stillSafe (.inl rfl) (hellosAside P)) ?_)
  intro result t _ same
  cases same
  cases result with
  | err message => exact .inl rfl
  | panic => exact .inl rfl
  | ok met =>
    refine safeBind (safeWeaken (approveSafe P serverIp met.serverHello.ed25519Key.val s) ?_)
    intro outcome u asking settled
    cases outcome with
    | err message => exact .inr ⟨_,_,settled⟩
    | panic => exact .inr ⟨_,_,settled⟩
    | ok approved =>
      have last := stillSafe asking (challengeAside P signingKey met approved)
      refine safeWeaken last ?_
      rintro _ _ _ rfl
      exact .inr ⟨_,_,settled⟩

end

/- The key text the user last said yes to for an address. -/
def approvedText : List Asked → SocketAddr → Option String
  | [], _ => none
  | x :: earlier, serverIp =>
    if x.approves ∧ x.question.serverIp = serverIp then some x.question.presented
    else approvedText earlier serverIp

/- Nobody was asked about the key they had last said yes to. -/
def Unnagged : List Asked → Prop
  | [] => True
  | x :: earlier =>
    approvedText earlier x.question.serverIp ≠ some x.question.presented ∧ Unnagged earlier

def OnlyUnknown (asked : List Asked) : Prop :=
  ∀ x ∈ asked, x.approves = true → x.question = .unknownServer x.question.serverIp x.question.presented

structure Kept (P : Primitives) (start : AuthServerMap) (s : Desk) : Prop where
  stored : ∀ serverIp, s.serverMap.get serverIp =
    (approvedText s.asked serverIp).or (start.get serverIp)
  unnagged : Unnagged s.asked
  genuine : ∀ serverIp text, approvedText s.asked serverIp = some text →
    ∃ key, Valid P key ∧ text = Hex.encode key

section
variable {P : Primitives} {serverIp : SocketAddr} {key : Bytes} {s t : Desk} {start : AuthServerMap}

theorem raisedUnnagged {x : Asked} (kept : Kept P start s) (raised : Raised serverIp key s x) :
    Unnagged (x :: s.asked) := by
  refine ⟨?_,kept.unnagged⟩
  rw [raised.where_,raised.about]
  intro approved
  have stored := kept.stored serverIp
  rw [approved] at stored
  exact raised.unanswered stored

theorem approvedHere {x : Asked} {earlier : List Asked} (yes : x.approves = true)
    (here : x.question.serverIp = serverIp) :
    approvedText (x :: earlier) serverIp = some x.question.presented := if_pos ⟨yes,here⟩

theorem approvedOther {x : Asked} {earlier : List Asked}
    (other : ¬ (x.approves = true ∧ x.question.serverIp = serverIp)) :
    approvedText (x :: earlier) serverIp = approvedText earlier serverIp := if_neg other

theorem settledKept {outcome : Outcome Bytes} (kept : Kept P start s)
    (settled : Settled P serverIp key s outcome t) (only : OnlyUnknown t.asked) :
    Kept P start t := by
  cases settled with
  | invalid bad => exact kept
  | known valid stored => exact kept
  | @declined x result valid raised no =>
    have same : ∀ a, approvedText (x :: s.asked) a = approvedText s.asked a :=
      fun a => approvedOther (by simp [no])
    exact {
      stored := fun a => by rw [same]; exact kept.stored a
      unnagged := raisedUnnagged kept raised
      genuine := fun a text => by rw [same]; exact kept.genuine a text}
  | @unknown answer valid missing yes =>
    have here : approvedText (⟨.unknownServer serverIp (Hex.encode key),answer⟩ :: s.asked) serverIp =
        some (Hex.encode key) := approvedHere yes rfl
    have other : ∀ a, a ≠ serverIp →
        approvedText (⟨.unknownServer serverIp (Hex.encode key),answer⟩ :: s.asked) a =
          approvedText s.asked a :=
      fun a different => approvedOther fun same => different same.2.symm
    have raised : Raised serverIp key s ⟨.unknownServer serverIp (Hex.encode key),answer⟩ :=
      ⟨rfl,rfl,by simp [missing]⟩
    refine ⟨fun a => ?_,raisedUnnagged kept raised,fun a text approved => ?_⟩
    · rcases Decidable.eq_or_ne a serverIp with rfl | different
      · rw [here]
        exact AuthServerMap.getInserted _ _ _
      · rw [other a different]
        exact (AuthServerMap.getOther _ different _).trans (kept.stored a)
    · rcases Decidable.eq_or_ne a serverIp with rfl | different
      · rw [here] at approved
        exact ⟨key,valid,(Option.some.inj approved).symm⟩
      · rw [other a different] at approved
        exact kept.genuine a text approved
  | changed valid stored other yes =>
    have asked := only _ List.mem_cons_self yes
    contradiction

theorem onlyEarlier {outcome : Outcome Bytes} (settled : Settled P serverIp key s outcome t)
    (only : OnlyUnknown t.asked) : OnlyUnknown s.asked := by
  intro x member
  cases settled with
  | invalid bad => exact only x member
  | known valid stored => exact only x member
  | declined valid raised no => exact only x (List.mem_cons_of_mem _ member)
  | unknown valid missing yes => exact only x (List.mem_cons_of_mem _ member)
  | changed valid stored other yes => exact only x (List.mem_cons_of_mem _ member)

theorem knownGoesThrough {result : Outcome Bytes} {u : Desk} (valid : Valid P key)
    (stored : s.serverMap.get serverIp = some (Hex.encode key))
    (ran : Reaches desk (approveServer P serverIp false key) s (.done result) u) :
    result = .ok key ∧ u = s := by
  have settled := (safeReaches ran (approveSafe P serverIp key s)).2
  cases settled with
  | invalid bad => exact absurd valid bad
  | known _ _ => exact ⟨rfl,rfl⟩
  | declined _ raised _ => exact absurd stored raised.unanswered
  | unknown _ missing _ => simp [missing] at stored
  | changed _ before other _ =>
    rw [before] at stored
    exact absurd (Option.some.inj stored) other

end

section Meeting
variable {P : Primitives} {serverIp : SocketAddr} {key : Bytes} {s t : Desk}

theorem drawReached {n : Nat} (b : {b : Bytes // b.length = n}) :
    Reaches desk (draw n) s (.done (.ok b)) s := by
  have answered : desk s (.here (.draw n)) b s := rfl
  exact hereReached answered

theorem recvReached {n : Nat} (answer : Except Fault {b : Bytes // b.length = n}) :
    Reaches desk (recv n) s (.done (.ok answer)) s := by
  have answered : desk s (.recv n) answer s := rfl
  exact .answer answered (.here _ _)

theorem writeReached {data : Bytes} (small : data.length ≤ Frame.u32Max) :
    Reaches desk (writeRawFrameInto data) s (.done (.ok ())) s := by
  have answered : desk s (.send (rawFrame data)) (Except.ok ()) s := rfl
  unfold writeRawFrameInto
  rw [if_neg (by omega)]
  exact .answer answered (.here _ _)

theorem readReached (late : String) {body : Bytes} (positive : 0 < body.length)
    (bounded : body.length ≤ Frame.maxFrameLength) :
    Reaches desk (readRawDataInto late) s (.done (.ok body)) s := by
  have admitted := Session.lengthAdmitted positive bounded
  generalize lenBuf : Frame.be32 body.length = four at admitted
  have size : four.length = 4 := lenBuf ▸ Frame.be32Length _
  refine reachesThen (recvReached (.ok ⟨four,size⟩)) ?_
  simp only [admitted,Program.liftDone,Program.bindDone]
  exact reachesThen (recvReached (.ok ⟨body,rfl⟩)) (.here _ _)

theorem hellosReached (P : Primitives) (s : Desk) (hello : ServerHello) :
    ∃ met : Hellos, met.serverHello = hello ∧
      Reaches desk (exchangeHellos P) s (.done (.ok met)) s := by
  let zero : Key32 := ⟨List.replicate 32 0,List.length_replicate⟩
  have size := hello.length
  refine ⟨⟨zero,⟨P.x25519.publicKey zero,zero⟩,hello⟩,rfl,?_⟩
  refine reachesThen (drawReached zero) (reachesThen (drawReached zero) ?_)
  refine reachesThen (writeReached (by rw [ClientHello.length]; decide)) ?_
  refine reachesThen (readReached _ (by rw [size]; decide) (by rw [size]; decide)) ?_
  rw [ServerHello.read]
  exact .here _ _

theorem challengeEnds (P : Primitives) (signingKey : Key32) (met : Hellos) (approved : Bytes) :
    ∃ result, Reaches desk (answerChallenge P signingKey met approved) s (.done result) s := by
  unfold answerChallenge
  cases transcript : clientTranscript P met with
  | err message => exact ⟨.err message,.here _ _⟩
  | panic => exact ⟨.panic,.here _ _⟩
  | ok signed =>
    rw [Program.liftDone,Program.bindDone]
    split
    · exact ⟨_,reachesBind (reachesBind (recvReached (.error .eof)))⟩
    · exact ⟨_,.here _ _⟩

theorem visitReached {P : Primitives} (signingKey : Key32) (hello : ServerHello) {approved : Bytes}
    (decided : Reaches desk (approveServer P serverIp false hello.ed25519Key.val) s
      (.done (.ok approved)) t) :
    ∃ result, Reaches desk (clientHandshakeHelper P signingKey serverIp false) s (.done result) t := by
  obtain ⟨met,rfl,hellos⟩ := hellosReached P s hello
  obtain ⟨result,ended⟩ := challengeEnds P signingKey met approved
  exact ⟨result,reachesThen hellos (reachesThen decided ended)⟩

theorem yesReached (question : Question) (rejected : String) :
    Reaches desk (askUser question rejected) s (.done (.ok ()))
      ⟨s.serverMap,⟨question,some "y"⟩ :: s.asked⟩ := by
  have accepted : accepts "y" = true := by decide
  have answered : desk s (.here (.ask question)) (some "y")
      ⟨s.serverMap,⟨question,some "y"⟩ :: s.asked⟩ := rfl
  refine reachesThen (hereReached answered) ?_
  simp only [accepted]
  exact .here _ _

theorem saveReached (map : AuthServerMap) (text : String) :
    Reaches desk (saveServer map serverIp text) s (.done (.ok (map.insert serverIp text)))
      ⟨map.insert serverIp text,s.asked⟩ := by
  have answered : desk s (.here (.writeServerMap (map.insert serverIp text))) true
      ⟨map.insert serverIp text,s.asked⟩ := ⟨rfl,rfl⟩
  exact reachesThen (hereReached answered) (.here _ _)

theorem mapReached : Reaches desk readServerMap s (.done (.ok (some s.serverMap))) s := by
  have answered : desk s (.here .readServerMap) (some s.serverMap) s := ⟨rfl,rfl⟩
  exact hereReached answered

theorem unknownReached (valid : Valid P key) (missing : s.serverMap.get serverIp = none) :
    Reaches desk (approveServer P serverIp false key) s (.done (.ok key))
      ⟨s.serverMap.insert serverIp (Hex.encode key),
        ⟨.unknownServer serverIp (Hex.encode key),some "y"⟩ :: s.asked⟩ := by
  have parsed : verifyingKey P.signing.toEd25519 key = .ok key := valid
  refine reachesThen mapReached ?_
  simp only [Program.bindDone,Program.pureDone,Program.liftDone,parsed,preapprove,missing]
  exact reachesThen (yesReached _ _) (reachesThen (saveReached _ _) (.here _ _))

theorem changedReached {existing : String} (valid : Valid P key)
    (stored : s.serverMap.get serverIp = some existing) (other : existing ≠ Hex.encode key) :
    Reaches desk (approveServer P serverIp false key) s (.done (.ok key))
      ⟨s.serverMap.insert serverIp (fingerprint P (Hex.encode key)),
        ⟨.keyChanged serverIp existing (Hex.encode key),some "y"⟩ :: s.asked⟩ := by
  have parsed : verifyingKey P.signing.toEd25519 key = .ok key := valid
  refine reachesThen mapReached ?_
  simp only [Program.bindDone,Program.pureDone,Program.liftDone,parsed,preapprove,stored,
    if_pos other]
  exact reachesThen (yesReached _ _) (reachesThen (saveReached _ _) (.here _ _))

end Meeting

/- Any number of handshakes one after the other, each with any server and user. -/
inductive Visits (P : Primitives) (s : Desk) : Desk → Prop where
  | none : Visits P s s
  | more {t u : Desk} {result : Outcome Bytes} (signingKey : Key32) (serverIp : SocketAddr)
      (before : Visits P s t)
      (ran : Reaches desk (clientHandshakeHelper P signingKey serverIp false) t (.done result) u) :
      Visits P s u

theorem visitsKept {P : Primitives} {s t : Desk} {start : AuthServerMap} (visits : Visits P s t)
    (kept : Kept P start s) (only : OnlyUnknown t.asked) : Kept P start t := by
  induction visits with
  | none => exact kept
  | more signingKey serverIp before ran ih =>
    rcases (safeReaches ran (clientSafe P signingKey serverIp _)).2 with rfl | ⟨key,outcome,settled⟩
    · exact ih only
    · exact settledKept (ih (onlyEarlier settled only)) settled only

theorem trustedStaysTrusted {P : Primitives} {start : AuthServerMap} {t : Desk}
    (visits : Visits P ⟨start,[]⟩ t) (only : OnlyUnknown t.asked) :
    (∀ serverIp, t.serverMap.get serverIp =
      (approvedText t.asked serverIp).or (start.get serverIp)) ∧
    (∀ signingKey serverIp q u,
      Reaches desk (clientHandshakeHelper P signingKey serverIp false) t q u → Unnagged u.asked) ∧
    ∀ serverIp key, approvedText t.asked serverIp = some (Hex.encode key) → ∀ result u,
      Reaches desk (approveServer P serverIp false key) t (.done result) u →
        result = .ok key ∧ u = t := by
  have begun : Kept P start ⟨start,[]⟩ := ⟨fun _ => rfl,trivial,nofun⟩
  have kept := visitsKept visits begun only
  refine ⟨kept.stored,?_,?_⟩
  · intro signingKey serverIp q u ran
    have asking := safeStart (safeReaches ran (clientSafe P signingKey serverIp t))
    rcases asking with same | ⟨x,key,asked,raised⟩
    · rw [same]
      exact kept.unnagged
    · rw [asked]
      exact raisedUnnagged kept raised
  · intro serverIp key approved result u ran
    obtain ⟨same,valid,text⟩ := kept.genuine serverIp _ approved
    cases Hex.encodeInjective text
    have stored := kept.stored serverIp
    rw [approved] at stored
    exact knownGoesThrough valid stored ran

def samplePrimitives : Primitives := ⟨padHashes,echoSigning,sumExchange⟩
def localhost : SocketAddr := .v4 2130706433 4433
theorem zeroSize : (List.replicate 32 (0 : UInt8)).length = 32 := List.length_replicate

def zeroKey : Key32 := ⟨List.replicate 32 0,zeroSize⟩
def zeroHello : ServerHello := ⟨zeroKey,zeroKey,⟨List.replicate 64 0,List.length_replicate⟩,zeroKey⟩

def oneText : String := Hex.encode (List.replicate 32 1)

theorem zeroValid : Valid samplePrimitives zeroKey.val := by
  unfold Valid
  decide +kernel

/- A new key after an old one, approved: its fingerprint is what the map keeps. -/
theorem changedKeyNotKept :
    ¬ ∀ (P : Primitives) (start : AuthServerMap) (t : Desk), Visits P ⟨start,[]⟩ t →
      ∀ serverIp key, approvedText t.asked serverIp = some (Hex.encode key) →
        t.serverMap.get serverIp = some (Hex.encode key) := by
  intro always
  let start : Desk := ⟨⟨[(localhost,oneText)]⟩,[]⟩
  have stored : start.serverMap.get localhost = some oneText := by decide +kernel
  have other : oneText ≠ Hex.encode zeroKey.val := by decide +kernel
  obtain ⟨result,ran⟩ := visitReached zeroKey zeroHello (changedReached zeroValid stored other)
  have kept := always samplePrimitives start.serverMap _ (.more zeroKey localhost .none ran)
    localhost zeroKey.val (by decide +kernel)
  exact absurd kept (by decide +kernel)

theorem firstMeetingKept :
    ∃ t : Desk, t.serverMap.get localhost = some (Hex.encode zeroKey.val) ∧
      ∀ result u, Reaches desk (approveServer samplePrimitives localhost false zeroKey.val) t
        (.done result) u → result = .ok zeroKey.val ∧ u = t := by
  let start : Desk := ⟨⟨[]⟩,[]⟩
  have missing : start.serverMap.get localhost = none := rfl
  obtain ⟨result,ran⟩ := visitReached zeroKey zeroHello (unknownReached zeroValid missing)
  have only : OnlyUnknown [⟨.unknownServer localhost (Hex.encode zeroKey.val),some "y"⟩] := by
    intro x member yes
    cases List.mem_singleton.mp member
    rfl
  obtain ⟨stored,-,known⟩ := trustedStaysTrusted (.more zeroKey localhost .none ran) only
  exact ⟨_,(stored localhost).trans (by decide +kernel),
    known localhost zeroKey.val (by decide +kernel)⟩

end RDrive.Trust
