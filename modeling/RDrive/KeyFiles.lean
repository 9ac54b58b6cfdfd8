import RDrive.Challenges

/-! rdrive key -r: main of client.rs with the two key files that it reads and writes, and
what it can have said, heard and written wherever it stops. -/
namespace RDrive
open Crypto Header Party Bytes Program Postcard

def Party.readToString (path : Path) : Party String := do
  let b ← read path
  match fromUtf8 b with
  | some text => pure text
  | none => .fail "stream did not contain valid UTF-8"

namespace KeyFiles
open Handshake Trust

def getUserKeyDir (home : Path) : Path := home ++ [".rdrive","user"]
def privateKeyPath (home : Path) : Path := getUserKeyDir home ++ ["private_ed25519.key"]
def publicKeyPath (home : Path) : Path := getUserKeyDir home ++ ["public_ed25519.key"]

/- decode(text.trim())?.try_into() -/
@[irreducible] def decodeKey (what text : String) : Outcome Key32 := do
  let bytes ← Hex.decode (String.ofList (trim text))
  if size : bytes.length = 32 then .ok ⟨bytes,size⟩
  else .err s!"Invalid old {what} key length: {bytes}"

def existingKeys (home : Path) : Party (Option (String × String)) := do
  let privateThere ← fs (.exists_ (privateKeyPath home))
  let publicThere ← fs (.exists_ (publicKeyPath home))
  if privateThere ∧ publicThere then
    let priHex ← readToString (privateKeyPath home)
    let pubHex ← readToString (publicKeyPath home)
    pure (some (priHex,pubHex))
  else pure none

def generateEd25519Keypair (P : Primitives) : Party (Key32 × Key32) := do
  let privateKey ← draw 32
  let publicKey := P.signing.publicKey privateKey
  let message := utf8 "ed25519 key gen-test"
  if P.signing.verify publicKey.val message (P.signing.sign privateKey message).val then
    pure (privateKey,publicKey)
  else .fail "Failed to verify signature: signature error"

/- What main has before it asks the server. -/
structure Rotation where
  oldPri : Key32
  oldPub : Key32
  newPri : Key32
  newPub : Key32

def prepareRotation (P : Primitives) (home : Path) : Party Rotation := do
  match ← existingKeys home with
  | none => .fail "No existing keys, cannot rotate."
  | some (oldPriHex,oldPubHex) =>
    let oldPri ← decodeKey "private" oldPriHex
    let oldPub ← decodeKey "public" oldPubHex
    let _ ← verifyingKey P.signing.toEd25519 oldPub.val
    let (newPri,newPub) ← generateEd25519Keypair P
    pure ⟨oldPri,oldPub,newPri,newPub⟩

def saveKeys (home : Path) (newPri newPub : Key32) : Party Unit := do
  createDirAll (getUserKeyDir home)
  write (privateKeyPath home) (utf8 (Hex.encode newPri.val))
  write (publicKeyPath home) (utf8 (Hex.encode newPub.val))

/- main for key -r; the files are written once auth_client has returned. -/
def rotateKeys (P : Primitives) (S : Session) (home : Path) (serverIp : SocketAddr) : Party Unit := do
  let keys ← prepareRotation P home
  authenticate P S keys.oldPri serverIp keys.newPub (some keys.oldPub)
  saveKeys home keys.newPri keys.newPub

def KeyFile (disk : Fs) (path : Path) (key : Key32) : Prop :=
  ∃ b text, disk.content path = some b ∧ fromUtf8 b = some text ∧
    Hex.decode (String.ofList (trim text)) = .ok key.val

section
variable {disk after : Fs} {path home : Path} {key other : Key32}

theorem decodeKeyOk {what text : String} : decodeKey what text = .ok key ↔
    Hex.decode (String.ofList (trim text)) = .ok key.val := by
  unfold decodeKey
  rw [Outcome.bindIsOk]
  constructor
  · rintro ⟨bytes,decoded,found⟩
    split at found
    · cases Outcome.ok.inj found
      exact decoded
    · cases found
  · intro decoded
    exact ⟨key.val,decoded,by rw [dif_pos key.property]⟩

theorem keyFileOnly (one : KeyFile disk path key) (two : KeyFile disk path other) : key = other := by
  obtain ⟨b,text,content,valid,decoded⟩ := one
  obtain ⟨b',text',content',valid',decoded'⟩ := two
  cases Option.some.inj (content.symm.trans content')
  cases Option.some.inj (valid.symm.trans valid')
  exact Subtype.ext (Outcome.ok.inj (decoded.symm.trans decoded'))

theorem keyFileSame (file : KeyFile disk path key) (same : after.get path = disk.get path) :
    KeyFile after path key := by
  obtain ⟨b,text,content,read⟩ := file
  rw [Fs.contentOf,← same,← Fs.contentOf] at content
  exact ⟨b,text,content,read⟩

theorem trimDigits (b : Bytes) : trim (Hex.encode b) = (Hex.encode b).toList := by
  have dark : ∀ i : Fin 16, whitespace (Hex.digit i) = false := by decide
  have digits : ∀ c ∈ (Hex.encode b).toList, whitespace c = false := by
    intro c member
    rw [Hex.encode,String.toList_ofList] at member
    obtain ⟨byte,-,either⟩ := List.mem_flatMap.mp member
    have bound := byte.toNat_lt
    rcases List.mem_pair.mp either with rfl | rfl
    · exact dark ⟨byte.toNat / 16,by omega⟩
    · exact dark ⟨byte.toNat % 16,by omega⟩
  have stays : ∀ l : List Char, (∀ c ∈ l, whitespace c = false) → l.dropWhile whitespace = l := by
    intro l all
    cases l with
    | nil => rfl
    | cons c rest => rw [List.dropWhile_cons_of_neg (by simp [all c List.mem_cons_self])]
  unfold trim
  rw [stays _ digits,stays _ fun c member => digits c (List.mem_reverse.mp member),List.reverse_reverse]

theorem writtenKey (content : disk.content path = some (utf8 (Hex.encode key.val))) :
    KeyFile disk path key := by
  refine ⟨_,_,content,fromUtf8Of _,?_⟩
  rw [trimDigits,String.ofList_toList,Hex.decodeEncode]

end

/- The client's disk, and the files whose write has succeeded. -/
structure Shelf where
  disk : Fs
  saved : List Path

def written : (op : Fs.Op) → op.Ret → List Path
  | .write path _, true => [path]
  | _, _ => []

def saving : Env (Port HostSig) Shelf := fun s c r t =>
  match c, r with
  | .here (.fs op), answer => Answers s.disk op answer t.disk ∧ t.saved = s.saved ++ written op answer
  | _, _ => t = s

abbrev clientRuns : Env (Port HostSig) ((Desk × Traffic) × Shelf) := joint clientSide saving

inductive Kept (home : Path) (keys : Rotation) (s : Shelf) : Prop where
  | none_ (saved : s.saved = []) (pri : KeyFile s.disk (privateKeyPath home) keys.oldPri)
      (pub : KeyFile s.disk (publicKeyPath home) keys.oldPub)
  | half (saved : s.saved = [privateKeyPath home])
      (pri : KeyFile s.disk (privateKeyPath home) keys.newPri)
      (pub : KeyFile s.disk (publicKeyPath home) keys.oldPub)
  | both (saved : s.saved = [privateKeyPath home,publicKeyPath home])
      (pri : KeyFile s.disk (privateKeyPath home) keys.newPri)
      (pub : KeyFile s.disk (publicKeyPath home) keys.newPub)

section
variable {home path : Path} {keys : Rotation} {s : Shelf} {b : Bytes} {inv : Shelf → Prop}

theorem pathsApart (home : Path) : privateKeyPath home ≠ publicKeyPath home := by
  simp [privateKeyPath,publicKeyPath]

theorem keyPathBelow (home : Path) : ¬ privateKeyPath home <+: getUserKeyDir home ∧
    ¬ publicKeyPath home <+: getUserKeyDir home := by
  constructor
  all_goals
    intro above
    have size := above.length_le
    simp only [privateKeyPath,publicKeyPath,List.length_append,List.length_cons] at size
    omega

theorem writeSaved (start : inv s) (inner : path ≠ [])
    (held : ∀ t : Shelf, t.saved = s.saved ++ [path] → t.disk.content path = some b →
      (∀ q, q ≠ path → t.disk.get q = s.disk.get q) → inv t) :
    Safe saving inv (Returns fun _ t => t.saved = s.saved ++ [path] ∧ t.disk.content path = some b ∧
      ∀ q, q ≠ path → t.disk.get q = s.disk.get q) (write path b) s := by
  refine hereSafe start ?_
  rintro made ⟨disk,saved⟩ ⟨⟨rfl,same⟩ | torn,noted⟩
  · dsimp only at same noted
    subst same noted
    simp only [Fs.exec,Fs.write]
    split
    · have content := Fs.contentPut s.disk inner b
      have others : ∀ q, q ≠ path → (s.disk.put path (.file b)).get q = s.disk.get q :=
        fun q different => Fs.getPutOther s.disk different _
      exact ⟨held _ rfl content others,rfl,content,others⟩
    · refine ⟨?_,trivial⟩
      simpa [written] using start
  · exact torn.1.elim

theorem dirsSaved (kept : Kept home keys s) (unsaved : s.saved = []) :
    Safe saving (Kept home keys) (Returns fun _ t => Kept home keys t ∧ t.saved = [])
      (createDirAll (getUserKeyDir home)) s := by
  refine hereSafe kept ?_
  rintro made ⟨disk,saved⟩ ⟨⟨rfl,same⟩ | torn,noted⟩
  · dsimp only at same noted
    subst same noted
    have beside : ∀ path, ¬ path <+: getUserKeyDir home →
        (s.disk.createDirAll (getUserKeyDir home)).2.get path = s.disk.get path :=
      fun path above => Fs.createDirAllElsewhere above
    have saved : s.saved ++ written (.createDirAll (getUserKeyDir home))
        (s.disk.createDirAll (getUserKeyDir home)).1 = [] := by rw [unsaved]; rfl
    have after : Kept home keys ⟨(s.disk.createDirAll (getUserKeyDir home)).2,
        s.saved ++ written (.createDirAll (getUserKeyDir home))
          (s.disk.createDirAll (getUserKeyDir home)).1⟩ := by
      cases kept with
      | none_ _ pri pub =>
        exact .none_ saved (keyFileSame pri (beside _ (keyPathBelow home).1))
          (keyFileSame pub (beside _ (keyPathBelow home).2))
      | half some_ => rw [unsaved] at some_; contradiction
      | both some_ => rw [unsaved] at some_; contradiction
    cases made : (s.disk.createDirAll (getUserKeyDir home)).1 with
    | true =>
      rw [made] at after saved
      simp only [Fs.exec,made,if_true]
      exact ⟨after,after,saved⟩
    | false =>
      rw [made] at after
      simp only [Fs.exec,made]
      exact ⟨after,trivial⟩
  · exact torn.1.elim

theorem saveKept (kept : Kept home keys s) (unsaved : s.saved = []) :
    Safe saving (Kept home keys) (Returns fun _ _ => True) (saveKeys home keys.newPri keys.newPub) s := by
  unfold saveKeys
  refine safeThen (dirsSaved kept unsaved) ?_
  rintro _ t - ⟨kept,unsaved⟩
  have half : ∀ u : Shelf, u.saved = t.saved ++ [privateKeyPath home] →
      u.disk.content (privateKeyPath home) = some (utf8 (Hex.encode keys.newPri.val)) →
      (∀ q, q ≠ privateKeyPath home → u.disk.get q = t.disk.get q) →
      u.saved = [privateKeyPath home] ∧ KeyFile u.disk (privateKeyPath home) keys.newPri ∧
        KeyFile u.disk (publicKeyPath home) keys.oldPub := by
    intro u saved content others
    cases kept with
    | none_ _ pri pub =>
      exact ⟨by rw [saved,unsaved]; rfl,writtenKey content,
        keyFileSame pub (others _ (pathsApart home).symm)⟩
    | half some_ => rw [unsaved] at some_; contradiction
    | both some_ => rw [unsaved] at some_; contradiction
  refine safeThen (writeSaved kept (by simp [privateKeyPath]) fun u saved content others => ?_) ?_
  · obtain ⟨saved,pri,pub⟩ := half u saved content others
    exact .half saved pri pub
  rintro _ u - ⟨saved,content,others⟩
  obtain ⟨saved,pri,pub⟩ := half u saved content others
  refine safeWeaken (writeSaved (.half saved pri pub) (by simp [publicKeyPath])
    fun v savedBoth content others => ?_) fun result _ _ _ => by cases result <;> trivial
  exact .both (by rw [savedBoth,saved]; rfl) (keyFileSame pri (others _ (pathsApart home)))
    (writtenKey content)

end

section
variable {P : Primitives} {S : Session} {home : Path} {serverIp : SocketAddr} {α : Type}
  {s : (Desk × Traffic) × Shelf} {inv : (Desk × Traffic) × Shelf → Prop}

theorem glanced {op : Fs.Op} (held : inv s)
    (glances : ∀ answer after, Answers s.2.disk op answer after →
      answer = (s.2.disk.exec op).1 ∧ after = s.2.disk)
    (unwritten : ∀ answer, written op answer = []) :
    Safe clientRuns inv (Returns fun answer t => t = s ∧ answer = (s.2.disk.exec op).1) (fs op) s := by
  refine ⟨held,?_⟩
  rintro answer ⟨⟨desk,g⟩,⟨disk,saved⟩⟩ ⟨⟨same,noted⟩,answered,kept⟩
  obtain ⟨⟨desk',g'⟩,⟨disk',saved'⟩⟩ := s
  obtain ⟨rfl,unmoved⟩ := glances answer disk answered
  cases (same : desk = desk')
  cases (noted : g = g')
  cases (unmoved : disk = disk')
  rw [unwritten,List.append_nil] at kept
  cases (kept : saved = saved')
  exact ⟨held,rfl,rfl⟩

theorem existsGlanced (held : inv s) (path : Path) :
    Safe clientRuns inv (Returns fun _ t => t = s) (fs (.exists_ path)) s := by
  refine safeWeaken (glanced held (fun answer after answered => lookAnswer trivial answered)
    fun _ => rfl) ?_
  rintro (answer | message | _) t - ended
  · exact ended.1
  · trivial
  · trivial

def TextFile (disk : Fs) (path : Path) (text : String) : Prop :=
  ∃ b, disk.content path = some b ∧ fromUtf8 b = some text

theorem textGlanced (held : inv s) (path : Path) : Safe clientRuns inv
    (Returns fun text t => t = s ∧ TextFile s.2.disk path text) (readToString path) s := by
  have look : Safe clientRuns inv (Returns fun answer t => t = s ∧
      answer = (s.2.disk.exec (.read path)).1) (fs (.read path)) s := by
    refine glanced held ?_ fun _ => rfl
    rintro answer after (⟨rfl,rfl⟩ | torn)
    · exact ⟨rfl,rfl⟩
    · exact torn.1.elim
  have bytes : Safe clientRuns inv (Returns fun b t => t = s ∧ s.2.disk.content path = some b)
      (Party.read path) s := by
    refine safeThen look ?_
    rintro answer _ - ⟨rfl,answered⟩
    cases answer with
    | none => exact ⟨held,trivial⟩
    | some b => exact ⟨held,rfl,answered.symm⟩
  unfold readToString
  refine safeThen bytes ?_
  rintro b _ - ⟨rfl,content⟩
  split
  · rename_i text valid
    exact ⟨held,rfl,b,content,valid⟩
  · exact ⟨held,trivial⟩

theorem keyDecoded (held : inv s) {path : Path} {what text : String} (there : TextFile s.2.disk path text) :
    Safe clientRuns inv (Returns fun key t => t = s ∧ KeyFile s.2.disk path key)
      (liftM (decodeKey what text) : Party Key32) s := by
  obtain ⟨b,content,valid⟩ := there
  exact safeLift _ held fun key decoded => ⟨rfl,b,text,content,valid,decodeKeyOk.mp decoded⟩

theorem existingGlanced (held : inv s) (home : Path) : Safe clientRuns inv
    (Returns fun found t => t = s ∧ ∀ priHex pubHex, found = some (priHex,pubHex) →
      TextFile s.2.disk (privateKeyPath home) priHex ∧ TextFile s.2.disk (publicKeyPath home) pubHex)
    (existingKeys home) s := by
  unfold existingKeys
  refine safeThen (existsGlanced held _) ?_
  rintro privateThere _ - rfl
  refine safeThen (existsGlanced held _) ?_
  rintro publicThere _ - rfl
  split
  · refine safeThen (textGlanced held _) ?_
    rintro priHex _ - ⟨rfl,pri⟩
    refine safeThen (textGlanced held _) ?_
    rintro pubHex _ - ⟨rfl,pub⟩
    refine ⟨held,rfl,?_⟩
    rintro _ _ ⟨⟩
    exact ⟨pri,pub⟩
  · exact ⟨held,rfl,nofun⟩

/- What main has when it turns to the server: the pair in its files, and a key it drew. -/
structure Prepared (P : Primitives) (home : Path) (disk : Fs) (keys : Rotation) : Prop where
  pri : KeyFile disk (privateKeyPath home) keys.oldPri
  pub : KeyFile disk (publicKeyPath home) keys.oldPub
  newPub : keys.newPub = P.signing.publicKey keys.newPri

def Mute (shelf : Shelf) (t : (Desk × Traffic) × Shelf) : Prop :=
  t.1.2.sent = [] ∧ t.1.2.received = [] ∧ t.2 = shelf

theorem generateDraws (P : Primitives) (desk : Desk) (shelf : Shelf) :
    Safe clientRuns (Mute shelf) (Returns fun pair t => t = ((desk,⟨[pair.1.val],[],[]⟩),shelf) ∧
      pair.2 = P.signing.publicKey pair.1) (generateEd25519Keypair P) ((desk,noTraffic),shelf) := by
  unfold generateEd25519Keypair
  refine hereSafe ⟨rfl,rfl,rfl⟩ ?_
  rintro privateKey ⟨⟨desk',g⟩,shelf'⟩ ⟨⟨same,noted⟩,kept⟩
  cases (same : desk' = desk)
  cases (noted : g = ⟨[privateKey.val],[],[]⟩)
  cases (kept : shelf' = shelf)
  have mute : Mute shelf ((desk,⟨[privateKey.val],[],[]⟩),shelf) := ⟨rfl,rfl,rfl⟩
  rw [if_pos (P.signing.signed privateKey _)]
  exact ⟨mute,rfl,rfl⟩

theorem prepares (P : Primitives) (home : Path) (desk : Desk) (shelf : Shelf) :
    Safe clientRuns (Mute shelf) (Returns fun keys t =>
      t = ((desk,⟨[keys.newPri.val],[],[]⟩),shelf) ∧ Prepared P home shelf.disk keys)
      (prepareRotation P home) ((desk,noTraffic),shelf) := by
  have mute : Mute shelf ((desk,noTraffic),shelf) := ⟨rfl,rfl,rfl⟩
  unfold prepareRotation
  refine safeThen (existingGlanced mute home) ?_
  rintro found _ - ⟨rfl,texts⟩
  split
  · exact ⟨mute,trivial⟩
  · rename_i oldPriHex oldPubHex
    obtain ⟨priText,pubText⟩ := texts oldPriHex oldPubHex rfl
    refine safeThen (keyDecoded mute priText) ?_
    rintro oldPri _ - ⟨rfl,pri⟩
    refine safeThen (keyDecoded mute pubText) ?_
    rintro oldPub _ - ⟨rfl,pub⟩
    refine safeThen (safeLift (fun _ t => t = ((desk,noTraffic),shelf)) mute fun _ _ => rfl) ?_
    rintro _ _ - rfl
    refine safeThen (generateDraws P desk shelf) ?_
    rintro ⟨newPri,newPub⟩ _ - ⟨rfl,same⟩
    have mute : Mute shelf ((desk,⟨[newPri.val],[],[]⟩),shelf) := ⟨rfl,rfl,rfl⟩
    exact ⟨mute,rfl,pri,pub,same⟩

end

/- What auth_client has said, as far as it got. -/
inductive Said (P : Primitives) (S : Session) (signingKey newPub oldPub : Key32) (g : Traffic) : Prop where
  | quiet (sent : g.sent = [] ∨ ∃ hello : ClientHello, g.sent = stream [hello.serialize])
  | voiced {met : Hellos} (greeted : Met P g met)
      (voiced : Voiced P S signingKey newPub (some oldPub) met g)

def Approves (S : Session) (sessionKey b : Bytes) : Prop :=
  ∃ hello m challenge last rsp, Begins b [hello,m,challenge,last] ∧
    S.cipher.opened sessionKey last = some rsp ∧ (rsp[0]? = some 1 ∨ rsp[0]? = some 2)

structure Approved (P : Primitives) (S : Session) (signingKey newPub oldPub : Key32) (met : Hellos)
    (g : Traffic) : Prop where
  greeted : Met P g met
  voiced : Voiced P S signingKey newPub (some oldPub) met g
  heard : Approves S (sessionKeyOf P met) g.received

section
variable {P : Primitives} {S : Session} {signingKey newPub oldPub : Key32} {serverIp : SocketAddr}
  {before after : Desk} {g t : Traffic} {α : Type}

theorem authSaid {q : Party Unit} (ran : Reaches clientSide
      (authenticate P S signingKey serverIp newPub (some oldPub)) (before,noTraffic) q (after,g)) :
    Said P S signingKey newPub oldPub g := by
  have through : ∀ {q : Party Bytes}, Reaches clientSide
      (clientHandshakeHelper P signingKey serverIp false) (before,noTraffic) q (after,g) →
      Said P S signingKey newPub oldPub g := by
    intro q ran
    rcases handshakeBrief S ran with quiet | ⟨met,trusts,brief⟩
    · exact .quiet quiet
    · exact .voiced trusts.greeted (.brief brief)
  rcases reachesSplit ran with ⟨q',stopped,-⟩ | ⟨result,⟨d,h⟩,first,onward⟩
  · obtain ⟨p',reached,-⟩ := reachesAttempt stopped
    exact through reached
  obtain ⟨p',reached,ended⟩ := reachesAttempt first
  cases result with
  | error e =>
    cases onward
    exact through reached
  | ok sessionKey =>
    rw [attemptOk ended.symm] at reached
    obtain ⟨met,trusts,rfl,passed⟩ := handshakePassed S reached
    have said := safeStart (safeReaches onward (jointRight (commandVoices passed)))
    exact .voiced (metSince trusts.greeted (trafficSince onward)) said

theorem authApproved (ran : Reaches clientSide
      (authenticate P S signingKey serverIp newPub (some oldPub)) (before,noTraffic) (.done (.ok ()))
      (after,g)) : ∃ met, Approved P S signingKey newPub oldPub met g := by
  obtain ⟨result,⟨d,h⟩,first,onward⟩ := reachesParts ran
  obtain ⟨p',reached,ended⟩ := reachesAttempt first
  cases result with
  | error e => cases onward
  | ok sessionKey =>
    rw [attemptOk ended.symm] at reached
    obtain ⟨met,trusts,rfl,passed⟩ := handshakePassed S reached
    obtain ⟨said,heard⟩ := safeReaches onward (jointRight (commandVoices passed))
    exact ⟨met,metSince trusts.greeted (trafficSince onward),said,heard⟩

end

inductive Stands (P : Primitives) (S : Session) (home : Path) (oldPri oldPub : Key32)
    (t : (Desk × Traffic) × Shelf) : Prop where
  | mute (kept : ∀ newPri newPub, Kept home ⟨oldPri,oldPub,newPri,newPub⟩ t.2) (unsaved : t.2.saved = [])
      (sent : t.1.2.sent = [])
  | talks {newPri : Key32} {u : Traffic} (drew : t.1.2 = Traffic.plus ⟨[newPri.val],[],[]⟩ u)
      (kept : Kept home ⟨oldPri,oldPub,newPri,P.signing.publicKey newPri⟩ t.2) (unsaved : t.2.saved = [])
      (said : Said P S oldPri (P.signing.publicKey newPri) oldPub u)
  | writes {newPri : Key32} {u : Traffic} {met : Hellos}
      (drew : t.1.2 = Traffic.plus ⟨[newPri.val],[],[]⟩ u)
      (kept : Kept home ⟨oldPri,oldPub,newPri,P.signing.publicKey newPri⟩ t.2)
      (approved : Approved P S oldPri (P.signing.publicKey newPri) oldPub met u)

section
variable {P : Primitives} {S : Session} {home : Path} {serverIp : SocketAddr} {oldPri oldPub : Key32}
  {start last : Desk} {g : Traffic} {disk : Fs} {shelf : Shelf} {q : Party Unit} {α : Type}

theorem shakesOffDisk (P : Primitives) (signingKey : Key32) (serverIp : SocketAddr)
    (shouldTrust : Bool) : Confined OffDisk (clientHandshakeHelper P signingKey serverIp shouldTrust) :=
  confinedBind (hellosConfined P (fun _ => nofun) (fun _ => nofun) fun _ => nofun) fun _ =>
    confinedBind (approveConfined P nofun (fun _ => nofun) (fun _ => nofun) _ _ _) fun _ =>
    challengeConfined P (fun _ => nofun) (fun _ => nofun) _ _ _

theorem authOffDisk (P : Primitives) (S : Session) (signingKey newPub : Key32) (serverIp : SocketAddr)
    (oldPub : Option Key32) :
    Confined OffDisk (authenticate P S signingKey serverIp newPub oldPub) := by
  refine confinedBind (attemptConfined (shakesOffDisk P signingKey serverIp false)) fun result => ?_
  cases result with
  | error e => trivial
  | ok sessionKey =>
    exact Session.authConfined _ P.signing nofun (fun _ => nofun) (fun _ => nofun) _ _ _

theorem offDiskSaves {c : (Port HostSig).Call} (off : OffDisk c) :
    ∀ s r t, saving s c r t → t = s := by
  intro s r t saved
  cases c with
  | recv n => exact saved
  | send b => exact saved
  | here c =>
    cases c with
    | fs op => exact absurd rfl (off op)
    | _ => exact saved

theorem savesUnheard (home : Path) (newPri newPub : Key32) (g : Traffic) :
    Safe (noting traffic) (fun t => t = g) (Returns fun _ t => t = g) (saveKeys home newPri newPub) g := by
  refine unnotedKeeps rfl (confinedBind ?_ fun _ => confinedBind ?_ fun _ => ?_)
  all_goals
    refine confinedBind (confinedHere _ fun _ _ => rfl) fun made => ?_
    cases made <;> trivial

theorem shelfKept {p q : Party α} {s t : (Desk × Traffic) × Shelf} (off : Confined OffDisk p)
    (ran : Reaches clientRuns p s q t) : t.2 = s.2 := by
  have kept : Safe saving (fun u => u = s.2) (fun _ u => u = s.2) p s.2 :=
    stillSafe rfl (confinedWiden off fun _ => offDiskSaves)
  have last := safeStart (safeReaches ran (jointRight kept))
  exact last

theorem clientReached {p q : Party α} {s t : (Desk × Traffic) × Shelf} (ran : Reaches clientRuns p s q t) :
    Reaches clientSide p s.1 q t.1 := by
  induction ran with
  | here p s => exact .here _ _
  | answer answered later ih => exact .answer answered.1 ih

theorem clientStands (pri : KeyFile disk (privateKeyPath home) oldPri)
    (pub : KeyFile disk (publicKeyPath home) oldPub) {t : (Desk × Traffic) × Shelf}
    (ran : Reaches clientRuns (rotateKeys P S home serverIp) ((start,noTraffic),⟨disk,[]⟩) q t) :
    Stands P S home oldPri oldPub t := by
  have old : ∀ newPri newPub, Kept home ⟨oldPri,oldPub,newPri,newPub⟩ ⟨disk,[]⟩ :=
    fun _ _ => .none_ rfl pri pub
  have prepared := prepares P home start ⟨disk,[]⟩
  rcases reachesSplit ran with ⟨q',stopped,-⟩ | ⟨keys,u,first,onward⟩
  · obtain ⟨sent,-,same⟩ := safeStart (safeReaches stopped prepared)
    exact .mute (by rw [same]; exact old) (by rw [same]) sent
  obtain ⟨-,rfl,ready⟩ := safeReaches first prepared
  obtain ⟨oldPri',oldPub',newPri,newPub⟩ := keys
  obtain ⟨priThere,pubThere,own⟩ := ready
  dsimp only at own
  subst own
  obtain rfl : oldPri = oldPri' := keyFileOnly pri priThere
  obtain rfl : oldPub = oldPub' := keyFileOnly pub pubThere
  have off := authOffDisk P S oldPri (P.signing.publicKey newPri) serverIp (some oldPub)
  have alone : (⟨[newPri.val],[],[]⟩ : Traffic) = Traffic.plus ⟨[newPri.val],[],[]⟩ noTraffic := by
    simp [Traffic.plus,noTraffic]
  rcases reachesSplit onward with ⟨q',stopped,-⟩ | ⟨_,v,second,third⟩
  · obtain ⟨w,apart,drew⟩ := trafficApart (clientReached stopped) alone
    have same := shelfKept off stopped
    exact .talks drew (by rw [same]; exact old _ _) (by rw [same]) (authSaid apart)
  · obtain ⟨w,apart,drew⟩ := trafficApart (clientReached second) alone
    have same := shelfKept off second
    obtain ⟨met,approved⟩ := authApproved apart
    obtain ⟨v₁,v₂⟩ := v
    cases (same : v₂ = ⟨disk,[]⟩)
    have kept := safeStart (safeReaches third (jointRight (saveKept (old newPri _) rfl)))
    have quiet := safeStart (safeReaches third (jointLeft (jointRight (savesUnheard home newPri _ v₁.2))))
    exact .writes ((quiet : t.1.2 = v₁.2).trans drew) kept approved

end

end KeyFiles
end RDrive
