import RDrive.Lib.Lossy
import RDrive.Renames

/-! rdrive key -r, both ends, over a connection that may be lost at any point: when the
client's two files are one pair and its storage lies under it. -/
namespace RDrive.KeyFiles
open Crypto Header Party Bytes Program Handshake Trust

def trafficLedger : Lossy.Ledger (noting traffic) where
  sent g := g.sent
  received g := g.received
  read := by rintro g n b h rfl; exact ⟨rfl,rfl⟩
  unread := by rintro g n fault h rfl; exact ⟨rfl,rfl⟩
  wrote := by rintro g b r h rfl; exact ⟨rfl,rfl⟩
  here := by
    rintro g c r h rfl
    cases c <;> exact ⟨rfl,rfl⟩

def clientLedger : Lossy.Ledger clientRuns := (trafficLedger.second shaky).first saving
def serverLedger : Lossy.Ledger serverRuns := trafficLedger.first storing

def apart_ (P : Primitives) (K : ServerKeys) (S : Session) (home : Path) (serverIp : SocketAddr)
    (desk : Desk) (clientDisk serverDisk : Fs) :=
  Lossy.meeting clientLedger serverLedger ⟨rotateKeys P S home serverIp,((desk,noTraffic),⟨clientDisk,[]⟩)⟩
    ⟨serveConnection P K S,(noTraffic,⟨serverDisk,[]⟩)⟩

/- The files are one pair, and what lay under the old key lies under its public key. -/
def OnePair (P : Primitives) (S : Session) (home : Path) (before : Fs) (old : Bytes) (client : Shelf)
    (server : Storage) : Prop :=
  ∃ pri, KeyFile client.disk (privateKeyPath home) pri ∧
    KeyFile client.disk (publicKeyPath home) (P.signing.publicKey pri) ∧
    ∀ rest, server.disk.get (S.storagePath (P.signing.publicKey pri).val ++ rest) =
      before.get (S.storagePath old ++ rest)

/- A new pair that cannot be told from the old one where it matters. -/
def Coincides (P : Primitives) (S : Session) (home : Path) (oldPub : Key32) (drawn : List Bytes)
    (saved : List Path) : Prop :=
  ∃ newPri : Key32, [newPri.val] <+: drawn ∧
    if privateKeyPath home ∈ saved then P.signing.publicKey newPri = oldPub
    else S.storagePath (P.signing.publicKey newPri).val = S.storagePath oldPub.val

section
variable {P : Primitives} {K : ServerKeys} {S : Session} {home : Path} {oldPri oldPub newPub : Key32}
  {u t : Traffic} {met : Hellos} {hello : ClientHello} {x25519Pri nonce : Key32}

theorem sameKey (greeted : Met P u met) (answered : Answered P K t hello x25519Pri nonce)
    (toServer : t.received <+: u.sent) (toClient : u.received <+: t.sent) :
    answeredKey P hello x25519Pri = sessionKeyOf P met := by
  obtain ⟨pri,more,same,told⟩ := wiredAnswers (.inr ⟨_,_,_,answered⟩) toServer toClient greeted
  obtain ⟨rfl,rfl,rfl⟩ := answeredOnce same answered
  have agrees : Agrees P K u t met x25519Pri := by
    refine ⟨greeted,?_,by rw [told]; rfl⟩
    rw [told]
    exact answered
  unfold answeredKey sessionKeyOf
  rw [agreementShares agrees]

theorem voicedScripted (voiced : Voiced P S oldPri newPub (some oldPub) met u) :
    Scripted S (sessionKeyOf P met) oldPub newPub u.sent := by
  have hello := helloSized met.clientHello
  have packed := @packetSized P oldPri
  cases voiced with
  | brief said =>
    have none_ : ∀ {a b c : Bytes} {more : List Bytes}, ¬ Begins u.sent (a :: b :: c :: more) := by
      intro a b c more begins
      cases said with
      | silent sent =>
        rw [sent] at begins
        simpa using streamBegins (by simpa using hello) begins
      | @answered m heard sent =>
        rw [sent] at begins
        simpa using streamBegins (by simpa using ⟨hello,packed m⟩) begins
    exact ⟨fun begins => absurd begins none_,fun begins => absurd begins none_⟩
  | @asked m box heard size request sent =>
    rw [sent]
    constructor
    · intro a b c begins
      have told := streamBegins (by simpa using ⟨hello,packed m,size⟩) begins
      simp only [List.cons_prefix_cons,List.nil_prefix,and_true] at told
      rw [told.2.2]
      exact request
    · intro a b c d begins
      simpa using streamBegins (by simpa using ⟨hello,packed m,size⟩) begins
  | @signed m box again last body heard size request heardAgain lastSize opened made sent =>
    rw [sent]
    have sized : Sized [met.clientHello.serialize,packetOf P oldPri m,box,last] := by
      simpa [Sized] using ⟨hello,packed m,size,lastSize⟩
    constructor
    · intro a b c begins
      have told := streamBegins sized begins
      simp only [List.cons_prefix_cons,List.nil_prefix,and_true] at told
      rw [told.2.2]
      exact request
    · intro a b c d begins
      have told := streamBegins sized begins
      simp only [List.cons_prefix_cons,List.nil_prefix,and_true] at told
      have long : again.length = 64 := by
        by_contra other
        rw [Session.bodyPanics other] at made
        contradiction
      rw [Session.authBody,Session.rotationParts long (P.signing.sign oldPri again).property] at made
      refine ⟨again,_,long,(P.signing.sign oldPri again).property,?_⟩
      rw [told.2.2.2,opened,← Outcome.ok.inj made]

theorem approvesMore {sessionKey b more : Bytes} (approves : Approves S sessionKey b) (grows : b <+: more) :
    Approves S sessionKey more := by
  obtain ⟨hello,m,challenge,last,rsp,begins,opened,tagged⟩ := approves
  exact ⟨hello,m,challenge,last,rsp,beginsMore begins grows,opened,tagged⟩

end

section
variable {P : Primitives} {K : ServerKeys} {S : Session} {home : Path} {serverIp : SocketAddr}
  {oldPri oldPub newPri newPub : Key32} {desk : Desk} {clientDisk before : Fs} {u : Traffic} {met : Hellos}
  {q : Party Unit} {w : Traffic × Storage} {client : Shelf} {server : Storage} {drawn : List Bytes}

theorem saidScripted {t : Traffic} {hello : ClientHello} {x25519Pri nonce : Key32} {a b : Bytes}
    (said : Said P S oldPri newPub oldPub u) (answered : Answered P K t hello x25519Pri nonce)
    (toServer : t.received <+: u.sent) (toClient : u.received <+: t.sent) (begins : Begins u.sent [a,b]) :
    Scripted S (answeredKey P hello x25519Pri) oldPub newPub u.sent := by
  cases said with
  | quiet sent => exact absurd begins (quietFew sent)
  | voiced greeted voiced =>
    rw [sameKey greeted answered toServer toClient]
    exact voicedScripted voiced

theorem saidPlaced (said : Said P S oldPri newPub oldPub u)
    (ran : Reaches serverRuns (serveConnection P K S) (noTraffic,⟨before,[]⟩) q w)
    (toServer : w.1.received <+: u.sent) (toClient : u.received <+: w.1.sent) :
    Placed S before oldPub.val newPub.val w.2 ∧
    ∀ met, Approved P S oldPri newPub oldPub met u → Moved S oldPub.val w.2 := by
  rcases serverStands ran toServer fun answered begins =>
    saidScripted said answered toServer toClient begins with
    ⟨-,vouches⟩ | ⟨hello,x25519Pri,nonce,_,_,answered,-,vouches⟩
  · exact ⟨(vouches []).placed,fun met approved =>
      (vouches _).done_ (approvesMore approved.heard toClient)⟩
  · refine ⟨vouches.placed,fun met approved => vouches.done_ ?_⟩
    rw [sameKey approved.greeted answered toServer toClient]
    exact approvesMore approved.heard toClient

theorem muteStays (oldPub : Key32) (sent : u.sent = [])
    (ran : Reaches serverRuns (serveConnection P K S) (noTraffic,⟨before,[]⟩) q w)
    (toServer : w.1.received <+: u.sent) :
    ¬ Moved S oldPub.val w.2 ∧ ∀ q, S.getStorageDir <+: q → w.2.disk.get q = before.get q := by
  have none_ : ∀ {a b : Bytes}, ¬ Begins u.sent [a,b] := quietFew (.inl sent)
  rcases @serverStands P K S before oldPub oldPub _ _ _ ran toServer fun _ begins =>
    absurd begins none_ with ⟨unmoved,vouches⟩ | ⟨_,_,_,_,_,-,begins,-⟩
  · cases (vouches []).placed with
    | stays _ same => exact ⟨unmoved,same⟩
    | moved moved _ _ => exact absurd moved unmoved
  · exact absurd begins none_

theorem inStorage (key : Bytes) (rest : Path) : S.getStorageDir <+: S.storagePath key ++ rest :=
  (List.prefix_append _ _).trans (List.prefix_append _ _)

theorem drawnOnce {one other : Key32} (first : [one.val] <+: drawn) (second : [other.val] <+: drawn) :
    one = other := by
  have same := (List.prefix_of_prefix_length_le first second (by simp)).eq_of_length (by simp)
  exact Subtype.ext (List.cons.inj same).1

theorem oldKeysExactly (pair : oldPub = P.signing.publicKey oldPri)
    (there : before.get (S.storagePath oldPub.val) ≠ none) (drew : [newPri.val] <+: drawn)
    (saved : client.saved = []) (pri : KeyFile client.disk (privateKeyPath home) oldPri)
    (pub : KeyFile client.disk (publicKeyPath home) oldPub)
    (placed : Placed S before oldPub.val (P.signing.publicKey newPri).val server) :
    OnePair P S home before oldPub.val client server ↔ ¬ Moved S oldPub.val server ∨
      publicKeyPath home ∈ client.saved ∨ Coincides P S home oldPub drawn client.saved := by
  cases placed with
  | stays unmoved same =>
    refine iff_of_true ⟨oldPri,pri,pair ▸ pub,fun rest => ?_⟩ (.inl unmoved)
    rw [← pair]
    exact same _ (inStorage _ _)
  | moved moved lies gone =>
    constructor
    · rintro ⟨key,priThere,-,held⟩
      obtain rfl : oldPri = key := keyFileOnly pri priThere
      refine .inr (.inr ⟨newPri,drew,?_⟩)
      rw [saved,if_neg List.not_mem_nil]
      by_contra differ
      have root := held []
      rw [← pair,List.append_nil,gone fun same => differ same.symm] at root
      exact there root.symm
    · rintro (unmoved | written | ⟨key,also,alike⟩)
      · exact absurd moved unmoved
      · rw [saved] at written
        exact absurd written List.not_mem_nil
      · obtain rfl : newPri = key := drawnOnce drew also
        rw [saved,if_neg List.not_mem_nil] at alike
        refine ⟨oldPri,pri,pair ▸ pub,fun rest => ?_⟩
        rw [← pair,← alike]
        exact alike ▸ lies rest

theorem halfKeysExactly (drew : [newPri.val] <+: drawn) (saved : client.saved = [privateKeyPath home])
    (pri : KeyFile client.disk (privateKeyPath home) newPri)
    (pub : KeyFile client.disk (publicKeyPath home) oldPub) (moved : Moved S oldPub.val server)
    (placed : Placed S before oldPub.val (P.signing.publicKey newPri).val server) :
    OnePair P S home before oldPub.val client server ↔ ¬ Moved S oldPub.val server ∨
      publicKeyPath home ∈ client.saved ∨ Coincides P S home oldPub drawn client.saved := by
  constructor
  · rintro ⟨key,priThere,pubThere,-⟩
    obtain rfl : newPri = key := keyFileOnly pri priThere
    refine .inr (.inr ⟨newPri,drew,?_⟩)
    rw [saved,if_pos List.mem_cons_self]
    exact keyFileOnly pubThere pub
  · rintro (unmoved | written | ⟨key,also,alike⟩)
    · exact absurd moved unmoved
    · rw [saved] at written
      exact absurd (List.mem_singleton.mp written).symm (pathsApart home)
    · obtain rfl : newPri = key := drawnOnce drew also
      rw [saved,if_pos List.mem_cons_self] at alike
      cases placed with
      | stays unmoved _ => exact absurd moved unmoved
      | moved _ lies _ => exact ⟨newPri,pri,alike ▸ pub,lies⟩

theorem keptExactly (pair : oldPub = P.signing.publicKey oldPri)
    (there : before.get (S.storagePath oldPub.val) ≠ none) (drew : [newPri.val] <+: drawn)
    (kept : Kept home ⟨oldPri,oldPub,newPri,P.signing.publicKey newPri⟩ client)
    (placed : Placed S before oldPub.val (P.signing.publicKey newPri).val server)
    (writes : client.saved ≠ [] → Moved S oldPub.val server) :
    OnePair P S home before oldPub.val client server ↔ ¬ Moved S oldPub.val server ∨
      publicKeyPath home ∈ client.saved ∨ Coincides P S home oldPub drawn client.saved := by
  cases kept with
  | none_ saved pri pub => exact oldKeysExactly pair there drew saved pri pub placed
  | half saved pri pub => exact halfKeysExactly drew saved pri pub (writes (by simp [saved])) placed
  | both saved pri pub =>
    have moved := writes (by simp [saved])
    refine iff_of_true ?_ (.inr (.inl (by simp [saved])))
    cases placed with
    | stays unmoved _ => exact absurd moved unmoved
    | moved _ lies _ => exact ⟨newPri,pri,pub,lies⟩

end

/- Any run, cut anywhere: the files are one pair and storage lies under it, exactly when
storage has not moved yet, or both files are written, or the new pair does for the old. -/
theorem onePairExactly (P : Primitives) (K : ServerKeys) (S : Session) (home : Path) (serverIp : SocketAddr)
    {oldPri oldPub : Key32} {desk : Desk} {clientDisk serverDisk : Fs}
    {last : Pair (Port HostSig) Unit Unit Lossy.Written ((Desk × Traffic) × Shelf) (Traffic × Storage)}
    (pair : oldPub = P.signing.publicKey oldPri) (pri : KeyFile clientDisk (privateKeyPath home) oldPri)
    (pub : KeyFile clientDisk (publicKeyPath home) oldPub)
    (there : serverDisk.get (S.storagePath oldPub.val) ≠ none)
    (ran : Lossy.Run clientLedger serverLedger
      (apart_ P K S home serverIp desk clientDisk serverDisk) last) :
    OnePair P S home serverDisk oldPub.val last.left.notes.2 last.right.notes.2 ↔
      ¬ Moved S oldPub.val last.right.notes.2 ∨ publicKeyPath home ∈ last.left.notes.2.saved ∨
      Coincides P S home oldPub last.left.notes.1.2.drawn last.left.notes.2.saved := by
  obtain ⟨clientRan,serverRan,-,-,toClient,toServer⟩ := Lossy.runViews ran rfl rfl
  obtain ⟨shared,⟨p,⟨⟨after,g⟩,client⟩⟩,⟨q,⟨t,server⟩⟩⟩ := last
  change g.received <+: t.sent at toClient
  change t.received <+: g.sent at toServer
  have drawnFirst : ∀ {newPri : Key32} {u : Traffic}, g = Traffic.plus ⟨[newPri.val],[],[]⟩ u →
      [newPri.val] <+: g.drawn ∧ g.sent = u.sent ∧ g.received = u.received := by
    rintro newPri u rfl
    exact ⟨List.prefix_append _ _,rfl,rfl⟩
  cases clientStands pri pub clientRan with
  | mute kept unsaved sent =>
    obtain ⟨unmoved,same⟩ := muteStays oldPub sent serverRan toServer
    refine iff_of_true ?_ (.inl unmoved)
    cases kept oldPri oldPub with
    | none_ _ pri pub =>
      refine ⟨oldPri,pri,pair ▸ pub,fun rest => ?_⟩
      rw [← pair]
      exact same _ (inStorage _ _)
    | half saved =>
      rw [unsaved] at saved
      contradiction
    | both saved =>
      rw [unsaved] at saved
      contradiction
  | @talks newPri u drew kept unsaved said =>
    obtain ⟨first,sent,received⟩ := drawnFirst drew
    rw [sent] at toServer
    rw [received] at toClient
    obtain ⟨placed,-⟩ := saidPlaced said serverRan toServer toClient
    exact keptExactly pair there first kept placed fun some_ => absurd unsaved some_
  | @writes newPri u met drew kept approved =>
    obtain ⟨first,sent,received⟩ := drawnFirst drew
    rw [sent] at toServer
    rw [received] at toClient
    obtain ⟨placed,moved⟩ := saidPlaced (.voiced approved.greeted approved.voiced) serverRan toServer toClient
    exact keptExactly pair there first kept placed fun _ => moved met approved

/- The run in which the server's answer is lost. -/
section
variable {P : Primitives} {K : ServerKeys} {S : Session} {home : Path} {serverIp : SocketAddr} {α : Type}
  {p q : Party α} {h g : Host} {input output : Bytes}

theorem advancesConfined {allowed : (Port HostSig).Call → Prop}
    (advanced : Duplex.Advances Host.handle p h input output q g) (confined : Confined allowed p) :
    Confined allowed q := by
  induction advanced with
  | rest p h => exact confined
  | here later ih => exact ih (confined.2 _)
  | send later ih => exact ih (confined.2 _)
  | recv size later ih => exact ih (confined.2 _)

theorem servedAdvances (advanced : Duplex.Advances Host.handle p h input output q g)
    (off : Confined OffDisk p) (t : Traffic) (s : Storage) : ∃ u, Reaches serverRuns p (t,s) q (u,s) ∧
      u.received = t.received ++ input ∧ u.sent = t.sent ++ output := by
  induction advanced generalizing t with
  | rest p h => exact ⟨t,.here _ _,(List.append_nil _).symm,(List.append_nil _).symm⟩
  | @here c next h input output q g later ih =>
    obtain ⟨u,ran,received,sent⟩ := ih (off.2 _) (traffic t (.here c) (Host.handle h c).1)
    have stored : storing s (.here c) (Host.handle h c).1 s := by
      cases c with
      | fs op => exact absurd rfl (off.1 op)
      | _ => rfl
    have step : serverRuns (t,s) (.here c) (Host.handle h c).1
        (traffic t (.here c) (Host.handle h c).1,s) := ⟨rfl,stored⟩
    refine ⟨u,.answer step ran,received.trans ?_,sent.trans ?_⟩ <;> cases c <;> rfl
  | @send b next h input output q g later ih =>
    obtain ⟨u,ran,received,sent⟩ := ih (off.2 _) {t with sent := t.sent ++ b}
    have step : serverRuns (t,s) (.send b) (.ok ()) ({t with sent := t.sent ++ b},s) := ⟨rfl,rfl⟩
    exact ⟨u,.answer step ran,received,by rw [sent,List.append_assoc]⟩
  | @recv n next h input output q g b size later ih =>
    obtain ⟨u,ran,received,sent⟩ := ih (off.2 _) {t with received := t.received ++ b}
    have step : serverRuns (t,s) (.recv n) (.ok ⟨b,size⟩) ({t with received := t.received ++ b},s) :=
      ⟨rfl,rfl⟩
    exact ⟨u,.answer step ran,by rw [received,List.append_assoc],sent⟩

theorem clientAdvances (advanced : Duplex.Advances Host.handle p h input output q g)
    (off : Confined OffDisk p) {d : Desk} (map : d.serverMap = h.serverMap) (t : Traffic) (s : Shelf) :
    ∃ e u, Reaches clientRuns p ((d,t),s) q ((e,u),s) ∧ e.serverMap = g.serverMap ∧
      u.received = t.received ++ input ∧ u.sent = t.sent ++ output := by
  induction advanced generalizing d t with
  | rest p h => exact ⟨d,t,.here _ _,map,(List.append_nil _).symm,(List.append_nil _).symm⟩
  | @here c next h input output q g later ih =>
    suffices step : ∃ e : Desk, clientRuns ((d,t),s) (.here c) (Host.handle h c).1
        ((e,traffic t (.here c) (Host.handle h c).1),s) ∧ e.serverMap = (Host.handle h c).2.serverMap by
      obtain ⟨e,step,kept⟩ := step
      obtain ⟨f,u,ran,last,received,sent⟩ := ih (off.2 _) kept (traffic t (.here c) (Host.handle h c).1)
      refine ⟨f,u,.answer step ran,last,received.trans ?_,sent.trans ?_⟩ <;> cases c <;> rfl
    cases c with
    | fs op => exact absurd rfl (off.1 op)
    | readServerMap => exact ⟨d,⟨⟨⟨rfl,map.symm⟩,rfl⟩,rfl⟩,map⟩
    | writeServerMap changed => exact ⟨⟨changed,d.asked⟩,⟨⟨rfl,rfl⟩,rfl⟩,rfl⟩
    | ask question => exact ⟨⟨d.serverMap,⟨question,_⟩ :: d.asked⟩,⟨⟨rfl,rfl⟩,rfl⟩,map⟩
    | tryLock kind arc =>
      refine ⟨d,⟨⟨rfl,rfl⟩,rfl⟩,?_⟩
      rw [Host.handle]
      split <;> exact map
    | _ => exact ⟨d,⟨⟨rfl,rfl⟩,rfl⟩,map⟩
  | @send b next h input output q g later ih =>
    obtain ⟨e,u,ran,last,received,sent⟩ := ih (off.2 _) map {t with sent := t.sent ++ b}
    have step : clientRuns ((d,t),s) (.send b) (.ok ()) ((d,{t with sent := t.sent ++ b}),s) :=
      ⟨⟨rfl,rfl⟩,rfl⟩
    exact ⟨e,u,.answer step ran,last,received,by rw [sent,List.append_assoc]⟩
  | @recv n next h input output q g b size later ih =>
    obtain ⟨e,u,ran,last,received,sent⟩ := ih (off.2 _) map {t with received := t.received ++ b}
    have step : clientRuns ((d,t),s) (.recv n) (.ok ⟨b,size⟩) ((d,{t with received := t.received ++ b}),s) :=
      ⟨⟨rfl,rfl⟩,rfl⟩
    exact ⟨e,u,.answer step ran,last,by rw [received,List.append_assoc],sent⟩

theorem existsFound {path : Path} {key : Key32} {u : Desk × Traffic} {disk : Fs}
    (file : KeyFile disk path key) : Reaches clientRuns (fs (.exists_ path)) (u,⟨disk,[]⟩)
      (.done (.ok true)) (u,⟨disk,[]⟩) := by
  obtain ⟨b,text,content,-⟩ := file
  have found : (disk.exec (.exists_ path)).1 = true := by
    rw [Fs.exec,Fs.contentOf.mp content]
    rfl
  have answered : clientRuns (u,⟨disk,[]⟩) (.here (.fs (.exists_ path))) true (u,⟨disk,[]⟩) :=
    ⟨⟨rfl,rfl⟩,.inl ⟨found.symm,rfl⟩,rfl⟩
  exact hereReached answered

theorem textRead {path : Path} {u : Desk × Traffic} {disk : Fs} {b : Bytes} {text : String}
    (content : disk.content path = some b) (valid : Postcard.fromUtf8 b = some text) :
    Reaches clientRuns (readToString path) (u,⟨disk,[]⟩) (.done (.ok text)) (u,⟨disk,[]⟩) := by
  have answered : clientRuns (u,⟨disk,[]⟩) (.here (.fs (.read path))) (some b) (u,⟨disk,[]⟩) :=
    ⟨⟨rfl,rfl⟩,.inl ⟨content.symm,rfl⟩,rfl⟩
  have whole : Reaches clientRuns (read path) (u,⟨disk,[]⟩) (.done (.ok b)) (u,⟨disk,[]⟩) :=
    .answer answered (.here _ _)
  unfold readToString
  refine reachesThen whole ?_
  rw [valid]
  exact .here _ _

/- What main does up to auth_client, with this draw. -/
theorem rotationPrepared {oldPri : Key32} (newPri : Key32) {disk : Fs} {d : Desk}
    (pri : KeyFile disk (privateKeyPath home) oldPri)
    (pub : KeyFile disk (publicKeyPath home) (P.signing.publicKey oldPri)) :
    Reaches clientRuns (prepareRotation P home) ((d,noTraffic),⟨disk,[]⟩)
      (.done (.ok ⟨oldPri,P.signing.publicKey oldPri,newPri,P.signing.publicKey newPri⟩))
      ((d,⟨[newPri.val],[],[]⟩),⟨disk,[]⟩) := by
  have priThere := @existsFound _ _ (d,noTraffic) _ pri
  have pubThere := @existsFound _ _ (d,noTraffic) _ pub
  obtain ⟨priBytes,priText,priContent,priValid,priDecoded⟩ := pri
  obtain ⟨pubBytes,pubText,pubContent,pubValid,pubDecoded⟩ := pub
  have there : Reaches clientRuns (existingKeys home) ((d,noTraffic),⟨disk,[]⟩)
      (.done (.ok (some (priText,pubText)))) ((d,noTraffic),⟨disk,[]⟩) := by
    unfold existingKeys
    refine reachesThen priThere (reachesThen pubThere ?_)
    rw [if_pos ⟨rfl,rfl⟩]
    exact reachesThen (textRead priContent priValid) (reachesThen (textRead pubContent pubValid) (.here _ _))
  have drew : Reaches clientRuns (generateEd25519Keypair P) ((d,noTraffic),⟨disk,[]⟩)
      (.done (.ok (newPri,P.signing.publicKey newPri))) ((d,⟨[newPri.val],[],[]⟩),⟨disk,[]⟩) := by
    have drawn : clientRuns ((d,noTraffic),⟨disk,[]⟩) (.here (.draw 32)) newPri
      ((d,⟨[newPri.val],[],[]⟩),⟨disk,[]⟩) := ⟨⟨rfl,rfl⟩,rfl⟩
    unfold generateEd25519Keypair
    refine reachesThen (hereReached drawn) ?_
    rw [if_pos (P.signing.signed newPri _)]
    exact .here _ _
  unfold prepareRotation
  refine reachesThen there ?_
  dsimp only
  rw [decodeKeyOk.mpr priDecoded,Program.liftDone,Program.bindDone,decodeKeyOk.mpr pubDecoded,
    Program.liftDone,Program.bindDone,publicValid,Program.liftDone,Program.bindDone]
  exact reachesThen drew (.here _ _)

/- auth_client by turns: its hello, its packet and command, its body. -/
theorem authTurns (P : Primitives) (S : Session) (signingKey newPub oldPub : Key32) (serverIp : SocketAddr)
    (h : Host) :
    ∃ (x25519Pri : Key32) (hello : ClientHello) (waiting : Party Unit) (g : Host),
      hello.x22519Key = P.x25519.publicKey x25519Pri ∧
      Duplex.Advances Host.handle (authenticate P S signingKey serverIp newPub (some oldPub)) h []
        (rawFrame hello.serialize) waiting g ∧
      ∀ (met : ServerHello) (challenge sessionKey : Bytes), challenge.length = 64 →
        verifyingKey P.signing.toEd25519 met.ed25519Key.val = .ok met.ed25519Key.val →
        h.serverMap.get serverIp = some (Hex.encode met.ed25519Key.val) →
        P.signing.verify met.ed25519Key.val (P.hashes.sha512
          (transcript hello.nonce met.nonce hello.x22519Key met.x22519Key)) met.signature.val = true →
        sessionKey = P.hashes.sha256 (saltedKey (P.x25519.diffieHellman x25519Pri met.x22519Key)) →
        ∃ (nonce : Nonce) (asking : Party Unit) (last : Host),
          Duplex.Advances Host.handle waiting g (rawFrame met.serialize ++ rawFrame challenge)
            (rawFrame (packetOf P signingKey challenge) ++
              Frame.frame S.cipher sessionKey nonce (authRequest (some oldPub))) asking last ∧
          ∀ (m : Bytes) (more : Nonce), m.length = 64 → ∃ (other : Nonce) (end_ : Host),
            Duplex.Advances Host.handle asking last (Frame.frame S.cipher sessionKey more m)
              (Frame.frame S.cipher sessionKey other
                (m ++ (P.signing.sign signingKey m).val ++ oldPub.val ++ newPub.val))
              (Session.authOutcome {S with sessionKey := sessionKey}) end_ := by
  obtain ⟨x25519Pri,hello,waiting,g,own,greeted,answers⟩ := clientTurns P signingKey serverIp false h
  refine ⟨x25519Pri,hello,_,g,own,Duplex.advancesBind (Duplex.advancesAttempt greeted),?_⟩
  rintro met challenge sessionKey size valid known signed rfl
  obtain ⟨last,answered⟩ := answers met challenge size valid (fun _ => known) signed
  let key := P.hashes.sha256 (saltedKey (P.x25519.diffieHellman x25519Pri met.x22519Key))
  let T : Session := {S with sessionKey := key}
  have short : (authRequest (some oldPub)).length = 2 := by
    simp [authRequest,Command.serialize,Postcard.varint]
  obtain ⟨nonce,asks⟩ := @Session.frameWritten T last (authRequest (some oldPub)) (by rw [short]; decide)
  have asked : Duplex.Advances Host.handle (T.authClient P.signing signingKey newPub (some oldPub)) last []
      (Frame.frame S.cipher key nonce (authRequest (some oldPub)))
      (T.awaitChallenge P.signing signingKey newPub (some oldPub)) {last with drawn := last.drawn + 1} := by
    unfold Session.authClient
    exact Duplex.advancesLast asks (.rest _ _)
  have whole : ∀ f : Except String Bytes → Party Unit, f (.ok key) =
        T.authClient P.signing signingKey newPub (some oldPub) →
      Duplex.Advances Host.handle (waiting.attempt >>= f) g (rawFrame met.serialize ++ rawFrame challenge)
        (rawFrame (packetOf P signingKey challenge) ++
          Frame.frame S.cipher key nonce (authRequest (some oldPub)))
        (T.awaitChallenge P.signing signingKey newPub (some oldPub)) {last with drawn := last.drawn + 1} := by
    intro f same
    rw [← same] at asked
    have both := Duplex.advancesThen (Duplex.advancesAttempt answered) asked
    rwa [List.append_nil] at both
  refine ⟨nonce,_,_,whole _ rfl,fun m more long => ?_⟩
  let body := m ++ (P.signing.sign signingKey m).val ++ oldPub.val ++ newPub.val
  have bodySize : body.length = 192 := by
    simp [body,long,(P.signing.sign signingKey m).property,oldPub.property,newPub.property]
  have read : Duplex.Advances Host.handle T.readEncryptDataInto {last with drawn := last.drawn + 1}
      (Frame.frame S.cipher key more m) [] (.done (.ok m)) {last with drawn := last.drawn + 1} :=
    Session.frameTaken (by rw [long]; decide)
  obtain ⟨other,signs⟩ := @Session.frameWritten T {last with drawn := last.drawn + 1} body
    (by rw [bodySize]; decide)
  refine ⟨other,{last with drawn := last.drawn + 1 + 1},?_⟩
  unfold Session.awaitChallenge
  refine Duplex.advancesTaken read ?_
  unfold Session.answerAuth
  dsimp only
  rw [Session.authBody,Session.rotationParts long (P.signing.sign signingKey m).property,Program.liftDone,
    Program.bindDone]
  exact Duplex.advancesLast signs (.rest _ _)

/- main by the same turns; then the connection is gone. -/
theorem rotationTurns (P : Primitives) (S : Session) (serverIp : SocketAddr) {oldPri : Key32} (newPri : Key32)
    {disk : Fs} {d : Desk} (h : Host) (map : d.serverMap = h.serverMap)
    (pri : KeyFile disk (privateKeyPath home) oldPri)
    (pub : KeyFile disk (publicKeyPath home) (P.signing.publicKey oldPri)) :
    ∃ (x25519Pri : Key32) (hello : ClientHello) (waiting : Party Unit) (d₁ : Desk) (t₁ : Traffic),
      hello.x22519Key = P.x25519.publicKey x25519Pri ∧
      Reaches clientRuns (rotateKeys P S home serverIp) ((d,noTraffic),⟨disk,[]⟩) waiting
        ((d₁,t₁),⟨disk,[]⟩) ∧ t₁.received = [] ∧ t₁.sent = rawFrame hello.serialize ∧
      ∀ (met : ServerHello) (challenge sessionKey : Bytes), challenge.length = 64 →
        verifyingKey P.signing.toEd25519 met.ed25519Key.val = .ok met.ed25519Key.val →
        d.serverMap.get serverIp = some (Hex.encode met.ed25519Key.val) →
        P.signing.verify met.ed25519Key.val (P.hashes.sha512
          (transcript hello.nonce met.nonce hello.x22519Key met.x22519Key)) met.signature.val = true →
        sessionKey = P.hashes.sha256 (saltedKey (P.x25519.diffieHellman x25519Pri met.x22519Key)) →
        ∃ (nonce : Nonce) (asking : Party Unit) (d₂ : Desk) (t₂ : Traffic),
          Reaches clientRuns waiting ((d₁,t₁),⟨disk,[]⟩) asking ((d₂,t₂),⟨disk,[]⟩) ∧
          t₂.received = rawFrame met.serialize ++ rawFrame challenge ∧
          t₂.sent = t₁.sent ++ (rawFrame (packetOf P oldPri challenge) ++
            Frame.frame S.cipher sessionKey nonce (authRequest (some (P.signing.publicKey oldPri)))) ∧
          ∀ (m : Bytes) (more : Nonce), m.length = 64 →
            ∃ (other : Nonce) (message : String) (d₃ : Desk) (t₃ : Traffic),
              Reaches clientRuns asking ((d₂,t₂),⟨disk,[]⟩) (.done (.err message)) ((d₃,t₃),⟨disk,[]⟩) ∧
              t₃.received = t₂.received ++ Frame.frame S.cipher sessionKey more m ∧
              t₃.sent = t₂.sent ++ Frame.frame S.cipher sessionKey other
                (m ++ (P.signing.sign oldPri m).val ++ (P.signing.publicKey oldPri).val ++
                  (P.signing.publicKey newPri).val) := by
  obtain ⟨x25519Pri,hello,waiting,g,own,greeted,answers⟩ := authTurns P S oldPri
    (P.signing.publicKey newPri) (P.signing.publicKey oldPri) serverIp h
  have off := authOffDisk P S oldPri (P.signing.publicKey newPri) serverIp (some (P.signing.publicKey oldPri))
  obtain ⟨d₁,t₁,first,map₁,received,sent⟩ := clientAdvances greeted off map ⟨[newPri.val],[],[]⟩ ⟨disk,[]⟩
  have off₁ := advancesConfined greeted off
  refine ⟨x25519Pri,hello,_,d₁,t₁,own,reachesThen (rotationPrepared newPri pri pub) (reachesBind first),
    received,sent,?_⟩
  intro met challenge sessionKey size valid known signed key
  obtain ⟨nonce,asking,last,answered,finishes⟩ := answers met challenge sessionKey size valid
    (map ▸ known) signed key
  obtain ⟨d₂,t₂,second,map₂,received₂,sent₂⟩ := clientAdvances answered off₁ map₁ t₁ ⟨disk,[]⟩
  have off₂ := advancesConfined answered off₁
  rw [received,List.nil_append] at received₂
  refine ⟨nonce,_,d₂,t₂,reachesBind second,received₂,sent₂,?_⟩
  intro m more long
  obtain ⟨other,end_,signs⟩ := finishes m more long
  obtain ⟨d₃,t₃,third,-,received₃,sent₃⟩ := clientAdvances signs off₂ map₂ t₂ ⟨disk,[]⟩
  have lost : clientRuns ((d₃,t₃),⟨disk,[]⟩) (.recv 4) (.error .eof) ((d₃,t₃),⟨disk,[]⟩) := ⟨⟨rfl,rfl⟩,rfl⟩
  have gone : Reaches clientRuns (Session.authOutcome {S with sessionKey := sessionKey})
      ((d₃,t₃),⟨disk,[]⟩) (.done (.err s!"Read error: {Fault.text .eof}")) ((d₃,t₃),⟨disk,[]⟩) :=
    .answer lost (.here _ _)
  exact ⟨other,_,d₃,t₃,reachesTrans (reachesBind third) (reachesBind gone),received₃,sent₃⟩

theorem renamesThrough {T : Session} {old new : Bytes} {disk : Fs} (t : Traffic)
    (there : disk.get (T.storagePath old) ≠ none) :
    let keys := disk.rename (T.authPath old) (T.authPath new)
    let files := keys.2.rename (T.storagePath old) (T.storagePath new)
    keys.1 = true → files.1 = true → ∃ u, Reaches serverRuns (T.renameKeyDirs old new) (t,⟨disk,[]⟩)
      (.done (.ok ())) (u,⟨files.2,[(T.authPath old,T.authPath new),(T.storagePath old,T.storagePath new)]⟩) ∧
      u.received = t.received := by
  intro keys files keysMoved filesMoved
  obtain ⟨node,found⟩ := Option.ne_none_iff_exists'.mp there
  have seen : (disk.exec (.exists_ (T.storagePath old))).1 = true := by
    rw [Fs.exec,found]
    rfl
  have looked : serverRuns (t,⟨disk,[]⟩) (.here (.fs (.exists_ (T.storagePath old)))) true (t,⟨disk,[]⟩) :=
    ⟨rfl,.inl ⟨seen.symm,rfl⟩,rfl⟩
  have first : serverRuns (t,⟨disk,[]⟩) (.here (.fs (.rename (T.authPath old) (T.authPath new)))) true
      (t,⟨keys.2,[(T.authPath old,T.authPath new)]⟩) := ⟨rfl,keysMoved,rfl⟩
  have second : serverRuns (t,⟨keys.2,[(T.authPath old,T.authPath new)]⟩)
      (.here (.fs (.rename (T.storagePath old) (T.storagePath new)))) true
      (t,⟨files.2,[(T.authPath old,T.authPath new),(T.storagePath old,T.storagePath new)]⟩) :=
    ⟨rfl,filesMoved,rfl⟩
  obtain ⟨nonce,acks⟩ := @Session.frameWritten T (RoundTrip.sampleHost disk) [1] (by decide)
  obtain ⟨u,acked,received,-⟩ := servedAdvances acks (frameOffDisk T [1]) t
    ⟨files.2,[(T.authPath old,T.authPath new),(T.storagePath old,T.storagePath new)]⟩
  refine ⟨u,?_,by rw [received,List.append_nil]⟩
  unfold Session.renameKeyDirs
  exact .answer looked (.answer first (.answer second acked))

theorem challengeTurn (T : Session) (asked : Nonce) (t : Traffic) (disk : Fs) :
    ∃ (m : Bytes) (more : Nonce) (u : Traffic), m.length = 64 ∧
      Reaches serverRuns T.handleConnection (t,⟨disk,[]⟩) (T.readEncryptDataInto >>= T.rotateKey)
        (u,⟨disk,[]⟩) ∧
      u.received = t.received ++ Frame.frame T.cipher T.sessionKey asked (Command.serialize (.auth 2)) ∧
      u.sent = t.sent ++ Frame.frame T.cipher T.sessionKey more m := by
  have short : (Command.serialize (.auth 2)).length = 2 := by simp [Command.serialize,Postcard.varint]
  have taken := @Session.headersTaken T (RoundTrip.sampleHost disk) (.auth 2) asked (by rw [short]; decide)
  obtain ⟨v,first,receivedFirst,sentFirst⟩ := servedAdvances taken (headersOffDisk T) t ⟨disk,[]⟩
  have allowed : serverRuns (v,⟨disk,[]⟩) (.here (.isAllowedCost (Session.cost (.auth 2)))) true
      (v,⟨disk,[]⟩) := ⟨rfl,rfl⟩
  let random : {b : Bytes // b.length = 64} := ⟨T.hashes.sha512 [],T.hashes.sha512Length []⟩
  let w : Traffic := {v with drawn := v.drawn ++ [random.val]}
  have drew : serverRuns (v,⟨disk,[]⟩) (.here (.draw 64)) random (w,⟨disk,[]⟩) := ⟨rfl,rfl⟩
  let m := T.hashes.sha512 random.val
  have long : m.length = 64 := T.hashes.sha512Length _
  obtain ⟨more,issues⟩ := @Session.frameWritten T (RoundTrip.sampleHost disk) m (by rw [long]; decide)
  obtain ⟨u,second,receivedSecond,sentSecond⟩ := servedAdvances issues (frameOffDisk T m) w ⟨disk,[]⟩
  refine ⟨m,more,u,long,?_,?_,?_⟩
  · rw [Session.connectionAnswers]
    refine reachesThen first ?_
    simp only [Session.answer]
    refine .answer allowed ?_
    change Reaches serverRuns (T.handleAuthKeys 2) (v,⟨disk,[]⟩) _ _
    unfold Session.handleAuthKeys
    refine reachesThen (hereReached drew) (reachesThen second ?_)
    rw [if_neg (by decide),if_pos rfl]
    exact .here _ _
  · rw [receivedSecond,List.append_nil]
    exact receivedFirst
  · rw [sentSecond]
    change v.sent ++ _ = _
    rw [sentFirst,List.append_nil]

/- The server by turns: its hello and challenge, the challenge of auth_client, the renames. -/
theorem serveTurns (P : Primitives) (K : ServerKeys) (S : Session) (h : Host) (disk : Fs)
    (loaded : verifyingKey P.signing.toEd25519 K.pubKeyBytes.val = .ok K.pubKeyBytes.val) :
    ∃ x25519Pri : Key32, ∀ hello : ClientHello,
      ∃ (nonce : Key32) (challenge : Bytes) (waiting : Party Unit) (t₁ : Traffic),
        challenge.length = 64 ∧
        Reaches serverRuns (serveConnection P K S) (noTraffic,⟨disk,[]⟩) waiting (t₁,⟨disk,[]⟩) ∧
        t₁.received = rawFrame hello.serialize ∧
        t₁.sent = rawFrame (Handshake.answer P K hello x25519Pri nonce).serialize ++ rawFrame challenge ∧
        ∀ (signature : {b : Bytes // b.length = 64}) (pubKey : Key32) (asked : Nonce),
          verifyingKey P.signing.toEd25519 pubKey.val = .ok pubKey.val →
          P.signing.verify pubKey.val challenge signature.val = true →
          ∃ (m : Bytes) (more : Nonce) (reading : Party Unit) (t₂ : Traffic), m.length = 64 ∧
            Reaches serverRuns waiting (t₁,⟨disk,[]⟩) reading (t₂,⟨disk,[]⟩) ∧
            t₂.received = t₁.received ++ (rawFrame (signature.val ++ pubKey.val) ++
              Frame.frame S.cipher (answeredKey P hello x25519Pri) asked (Command.serialize (.auth 2))) ∧
            t₂.sent = t₁.sent ++ Frame.frame S.cipher (answeredKey P hello x25519Pri) more m ∧
            ∀ (body old new : Bytes) (other : Nonce), S.Rotates body old new → Frame.Fits body →
              disk.get (S.storagePath old) ≠ none →
              let keys := disk.rename (S.authPath old) (S.authPath new)
              let files := keys.2.rename (S.storagePath old) (S.storagePath new)
              keys.1 = true → files.1 = true → ∃ t₃, Reaches serverRuns reading (t₂,⟨disk,[]⟩)
                (.done (.ok ())) (t₃,⟨files.2,[(S.authPath old,S.authPath new),
                  (S.storagePath old,S.storagePath new)]⟩) ∧
                t₃.received = t₂.received ++
                  Frame.frame S.cipher (answeredKey P hello x25519Pri) other body := by
  obtain ⟨x25519Pri,responds⟩ := serverTurns P K h loaded
  refine ⟨x25519Pri,fun hello => ?_⟩
  obtain ⟨nonce,challenge,waiting,g,size,greeted,checks⟩ := responds hello
  have off := greetOffDisk P K
  obtain ⟨t₁,first,received,sent⟩ := servedAdvances greeted off noTraffic ⟨disk,[]⟩
  have off₁ := advancesConfined greeted off
  refine ⟨nonce,challenge,_,t₁,size,reachesBind first,received,sent,?_⟩
  intro signature pubKey asked valid verified
  obtain ⟨u,second,receivedSecond,sentSecond⟩ := servedAdvances (checks signature pubKey valid verified) off₁
    t₁ ⟨disk,[]⟩
  let T : Session := S.connected (answeredKey P hello x25519Pri) pubKey.val
  obtain ⟨m,more,t₂,long,third,receivedThird,sentThird⟩ := challengeTurn T asked u disk
  refine ⟨m,more,T.readEncryptDataInto >>= T.rotateKey,t₂,long,?_,?_,?_,?_⟩
  · exact reachesTrans (reachesBind second) third
  · rw [receivedThird,receivedSecond,List.append_assoc]
    rfl
  · rw [sentThird,sentSecond,List.append_nil]
    rfl
  · intro body old new other names fits there keys files keysMoved filesMoved
    have opens := @Session.frameTaken T (RoundTrip.sampleHost disk) body other fits
    obtain ⟨x,fifth,receivedFifth,-⟩ := servedAdvances opens (readsOffDisk T) t₂ ⟨disk,[]⟩
    obtain ⟨t₃,sixth,receivedSixth⟩ := @renamesThrough T old new disk x there keysMoved filesMoved
    have rotated : T.Rotates body old new := names
    refine ⟨t₃,reachesThen fifth ?_,receivedSixth.trans receivedFifth⟩
    rw [Session.rotatesTo rotated]
    exact sixth

theorem bodyRotates {m old new : Bytes} {signature : {b : Bytes // b.length = 64}} (long : m.length = 64)
    (oldSize : old.length = 32) (newSize : new.length = 32) (oldPoint : S.ed25519.isPoint old = true)
    (newPoint : S.ed25519.isPoint new = true) (strict : S.ed25519.verifyStrict old m signature.val = true) :
    S.Rotates (m ++ signature.val ++ old ++ new) old new := by
  have one : (m ++ signature.val ++ old ++ new).take 64 = m := by
    rw [List.append_assoc,List.append_assoc,List.take_left' long]
  have two : (m ++ signature.val ++ old ++ new).drop 64 = signature.val ++ (old ++ new) := by
    rw [List.append_assoc,List.append_assoc,List.drop_left' long]
  have parsed : ∀ {b : Bytes}, b.length = 32 → S.ed25519.isPoint b = true →
      verifyingKey S.ed25519 b = .ok b := by
    intro b size point
    rw [verifyingKey,if_neg (by simp [size]),if_pos point]
  refine ⟨by simp only [List.length_append,long,signature.property,oldSize,newSize]; omega,?_,?_⟩
  · rw [one,two,List.drop_left' signature.property,List.take_left' signature.property,
      List.take_left' oldSize,validateSignature,if_neg (by simp [signature.property]),parsed oldSize oldPoint]
    exact if_pos strict
  · rw [two,List.drop_left' signature.property,List.drop_left' oldSize]
    exact parsed newSize newPoint

theorem bodyFits (m : Bytes) (signature : {b : Bytes // b.length = 64}) (old new : Key32)
    (long : m.length = 64) : Frame.Fits (m ++ signature.val ++ old.val ++ new.val) := by
  unfold Frame.Fits
  simp only [List.length_append,long,signature.property,old.property,new.property]
  decide

theorem answerHonest (P : Primitives) (K : ServerKeys) (hello : ClientHello) (serverPri nonce : Key32)
    (honest : K.pubKeyBytes = P.signing.publicKey K.priKeyBytes) {clientPri : Key32}
    (own : hello.x22519Key = P.x25519.publicKey clientPri) :
    let met := Handshake.answer P K hello serverPri nonce
    P.signing.verify met.ed25519Key.val (P.hashes.sha512 (transcript hello.nonce met.nonce
      hello.x22519Key met.x22519Key)) met.signature.val = true ∧
    answeredKey P hello serverPri =
      P.hashes.sha256 (saltedKey (P.x25519.diffieHellman clientPri met.x22519Key)) := by
  constructor
  · have signed := P.signing.signed K.priKeyBytes (P.hashes.sha512 (transcript hello.nonce nonce
      hello.x22519Key (P.x25519.publicKey serverPri)))
    rwa [← honest] at signed
  · unfold answeredKey
    rw [own]
    exact congrArg (fun secret => P.hashes.sha256 (saltedKey secret)) (P.x25519.agrees serverPri clientPri)

theorem ackLost (P : Primitives) (K : ServerKeys) (S : Session) (home : Path) (serverIp : SocketAddr)
    {oldPri : Key32} (newPri : Key32) {desk : Desk} {clientDisk serverDisk : Fs}
    (honest : K.pubKeyBytes = P.signing.publicKey K.priKeyBytes)
    (known : desk.serverMap.get serverIp = some (Hex.encode K.pubKeyBytes.val))
    (pri : KeyFile clientDisk (privateKeyPath home) oldPri)
    (pub : KeyFile clientDisk (publicKeyPath home) (P.signing.publicKey oldPri))
    (points : ∀ k, S.ed25519.isPoint (P.signing.publicKey k).val = true)
    (strict : ∀ m : Bytes, m.length = 64 → S.ed25519.verifyStrict (P.signing.publicKey oldPri).val m
      (P.signing.sign oldPri m).val = true)
    (there : serverDisk.get (S.storagePath (P.signing.publicKey oldPri).val) ≠ none) :
    let keys := serverDisk.rename (S.authPath (P.signing.publicKey oldPri).val)
      (S.authPath (P.signing.publicKey newPri).val)
    let files := keys.2.rename (S.storagePath (P.signing.publicKey oldPri).val)
      (S.storagePath (P.signing.publicKey newPri).val)
    keys.1 = true → files.1 = true → ∃ last message, Lossy.Run clientLedger serverLedger
      (apart_ P K S home serverIp desk clientDisk serverDisk) last ∧
      last.left.program = .done (.err message) ∧ last.left.notes.2 = ⟨clientDisk,[]⟩ ∧
      last.right.program = .done (.ok ()) ∧ last.right.notes.2.disk = files.2 ∧
      Moved S (P.signing.publicKey oldPri).val last.right.notes.2 := by
  intro keys files keysMoved filesMoved
  let client : Host := {RoundTrip.sampleHost clientDisk with serverMap := desk.serverMap}
  have loaded := publicValid P K.priKeyBytes
  rw [← honest] at loaded
  obtain ⟨clientPri,hello,waits,d₁,t₁,own,greets,heard₁,said₁,answers⟩ :=
    rotationTurns P S serverIp newPri client rfl pri pub
  obtain ⟨serverPri,serves⟩ := serveTurns P K S (RoundTrip.sampleHost serverDisk) serverDisk loaded
  obtain ⟨nonce,challenge,serving_,u₁,size,replies,took₁,told₁,checks⟩ := serves hello
  obtain ⟨signed,shared⟩ := answerHonest P K hello serverPri nonce honest own
  obtain ⟨asked,asks,d₂,t₂,answered,heard₂,said₂,finishes⟩ := answers
    (Handshake.answer P K hello serverPri nonce) challenge
    (answeredKey P hello serverPri) size loaded known signed shared
  obtain ⟨m,more,reads,u₂,long,goes,took₂,told₂,renames⟩ := checks (P.signing.sign oldPri challenge)
    (P.signing.publicKey oldPri) asked (publicValid P oldPri) (P.signing.signed oldPri challenge)
  obtain ⟨other,message,d₃,t₃,ended,heard₃,said₃⟩ := finishes m more long
  have names : S.Rotates (m ++ (P.signing.sign oldPri m).val ++ (P.signing.publicKey oldPri).val ++
      (P.signing.publicKey newPri).val) (P.signing.publicKey oldPri).val (P.signing.publicKey newPri).val :=
    bodyRotates long (P.signing.publicKey oldPri).property (P.signing.publicKey newPri).property (points _)
      (points _) (strict m long)
  obtain ⟨u₃,moves,took₃⟩ := renames _ _ _ other names (bodyFits m _ _ _ long) there keysMoved filesMoved
  -- each side reads what the other has just written
  have first : Lossy.Run clientLedger serverLedger (apart_ P K S home serverIp desk clientDisk serverDisk)
      ⟨⟨t₁.sent,u₁.sent⟩,⟨waits,((d₁,t₁),⟨clientDisk,[]⟩)⟩,⟨serving_,(u₁,⟨serverDisk,[]⟩)⟩⟩ := by
    refine Lossy.turn greets replies ?_ ?_
    · change t₁.received <+: []
      rw [heard₁]
    · change u₁.received <+: t₁.sent
      rw [took₁,said₁]
  have second : Lossy.Run clientLedger serverLedger
      ⟨⟨t₁.sent,u₁.sent⟩,⟨waits,((d₁,t₁),⟨clientDisk,[]⟩)⟩,⟨serving_,(u₁,⟨serverDisk,[]⟩)⟩⟩
      ⟨⟨t₂.sent,u₂.sent⟩,⟨asks,((d₂,t₂),⟨clientDisk,[]⟩)⟩,⟨reads,(u₂,⟨serverDisk,[]⟩)⟩⟩ := by
    refine Lossy.turn answered goes ?_ ?_
    · change t₂.received <+: u₁.sent
      rw [heard₂,told₁]
    · change u₂.received <+: t₂.sent
      rw [took₂,took₁,said₂,said₁]
      exact List.prefix_refl _
  let after : Storage := ⟨files.2,[(S.authPath (P.signing.publicKey oldPri).val,
      S.authPath (P.signing.publicKey newPri).val),
    (S.storagePath (P.signing.publicKey oldPri).val,S.storagePath (P.signing.publicKey newPri).val)]⟩
  have third : Lossy.Run clientLedger serverLedger
      ⟨⟨t₂.sent,u₂.sent⟩,⟨asks,((d₂,t₂),⟨clientDisk,[]⟩)⟩,⟨reads,(u₂,⟨serverDisk,[]⟩)⟩⟩
      ⟨⟨t₃.sent,u₃.sent⟩,⟨.done (.err message),((d₃,t₃),⟨clientDisk,[]⟩)⟩,
        ⟨.done (.ok ()),(u₃,after)⟩⟩ := by
    refine Lossy.turn ended moves ?_ ?_
    · change t₃.received <+: u₂.sent
      rw [heard₃,heard₂,told₂,told₁]
    · change u₃.received <+: t₃.sent
      rw [took₃,took₂,took₁,said₃,said₂,said₁]
      exact List.prefix_refl _
  exact ⟨_,message,first.trans (second.trans third),rfl,rfl,rfl,rfl,
    S.storagePath (P.signing.publicKey newPri).val,List.mem_cons_of_mem _ List.mem_cons_self⟩

end

open RoundTrip Relocation Whitelist AuthTrees

def strictServer : Session := {sampleServer with ed25519 := echoSigning.toEd25519}

def keyShelf : Fs :=
  ⟨[(privateKeyPath ["home"],.file (Postcard.utf8 (Hex.encode (flatKey 9).val))),
    (publicKeyPath ["home"],.file (Postcard.utf8 (Hex.encode (flatKey 9).val)))]⟩

theorem shelfFiles : KeyFile keyShelf (privateKeyPath ["home"]) (flatKey 9) ∧
    KeyFile keyShelf (publicKeyPath ["home"]) (flatKey 9) :=
  ⟨writtenKey (by decide +kernel),writtenKey (by decide +kernel)⟩

abbrev Samples (last : Pair (Port HostSig) Unit Unit Lossy.Written ((Desk × Traffic) × Shelf)
    (Traffic × Storage)) : Prop :=
  Lossy.Run clientLedger serverLedger (apart_ samplePrimitives ⟨zeroKey,zeroKey⟩ strictServer ["home"]
    localhost ⟨returning.serverMap,[]⟩ keyShelf halls) last

theorem sampleThere : halls.get (strictServer.storagePath (flatKey 9).val) ≠ none := by decide +kernel

theorem sampleLost : ∃ last message, Samples last ∧ last.left.program = .done (.err message) ∧
    last.left.notes.2 = ⟨keyShelf,[]⟩ ∧ last.right.program = .done (.ok ()) ∧
    last.right.notes.2.disk.get (strictServer.storagePath (flatKey 9).val) = none ∧
    Moved strictServer (flatKey 9).val last.right.notes.2 := by
  have known : returning.serverMap.get localhost = some (Hex.encode zeroKey.val) := by decide +kernel
  obtain ⟨last,message,ran,failed,kept,ended,disk,moved⟩ := @ackLost samplePrimitives ⟨zeroKey,zeroKey⟩
    strictServer ["home"] localhost (flatKey 9) (flatKey 8) ⟨returning.serverMap,[]⟩ keyShelf halls rfl known
    shelfFiles.1 shelfFiles.2 (fun _ => rfl) (fun _ _ => beq_self_eq_true _) sampleThere (by decide +kernel)
    (by decide +kernel)
  refine ⟨last,message,ran,failed,kept,ended,?_,moved⟩
  rw [disk]
  decide +kernel

theorem sampleExactly : ∃ last, Samples last ∧
    (OnePair samplePrimitives strictServer ["home"] halls (flatKey 9).val last.left.notes.2
        last.right.notes.2 ↔
      ¬ Moved strictServer (flatKey 9).val last.right.notes.2 ∨
      publicKeyPath ["home"] ∈ last.left.notes.2.saved ∨
      Coincides samplePrimitives strictServer ["home"] (flatKey 9) last.left.notes.1.2.drawn
        last.left.notes.2.saved) := by
  obtain ⟨last,message,ran,-⟩ := sampleLost
  have own : flatKey 9 = samplePrimitives.signing.publicKey (flatKey 9) := rfl
  exact ⟨last,ran,onePairExactly _ _ _ _ _ own shelfFiles.1 shelfFiles.2 sampleThere ran⟩

/- Both ends are done, and neither of the client's keys opens anything. -/
theorem lostAckLocksOut : ¬ ∀ (P : Primitives) (K : ServerKeys) (S : Session) (home : Path)
    (serverIp : SocketAddr) (oldPri oldPub : Key32) (desk : Desk) (clientDisk serverDisk : Fs)
    (last : Pair (Port HostSig) Unit Unit Lossy.Written ((Desk × Traffic) × Shelf) (Traffic × Storage)),
    K.pubKeyBytes = P.signing.publicKey K.priKeyBytes → oldPub = P.signing.publicKey oldPri →
    KeyFile clientDisk (privateKeyPath home) oldPri → KeyFile clientDisk (publicKeyPath home) oldPub →
    serverDisk.get (S.storagePath oldPub.val) ≠ none →
    Lossy.Run clientLedger serverLedger (apart_ P K S home serverIp desk clientDisk serverDisk) last →
    (∃ message, last.left.program = .done (.err message)) → last.right.program = .done (.ok ()) →
    OnePair P S home serverDisk oldPub.val last.left.notes.2 last.right.notes.2 := by
  intro always
  obtain ⟨last,message,ran,failed,kept,ended,gone,-⟩ := sampleLost
  obtain ⟨pri,privateFile,-,held⟩ := always samplePrimitives ⟨zeroKey,zeroKey⟩ strictServer ["home"] localhost
    (flatKey 9) (flatKey 9) ⟨returning.serverMap,[]⟩ keyShelf halls last rfl rfl shelfFiles.1 shelfFiles.2
    sampleThere ran ⟨message,failed⟩ ended
  rw [kept] at privateFile
  obtain rfl : flatKey 9 = pri := keyFileOnly shelfFiles.1 privateFile
  have root := held []
  rw [List.append_nil] at root
  exact sampleThere (root.symm.trans gone)

end RDrive.KeyFiles
