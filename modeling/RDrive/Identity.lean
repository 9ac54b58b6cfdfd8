import RDrive.EchoPerf
import RDrive.KeyFiles
import RDrive.OutputPath
import Mathlib.Data.List.Flatten

/-! The two key files that the server makes when it starts, and the client on rdrive key, each
if it does not find both: over any number of starts and commands, each cut off anywhere. -/
namespace RDrive.Identity
open Crypto Handshake Party Bytes Program Postcard KeyFiles Trust

/- The disk of a start, where every call may be torn. -/
def tearing : Env (Port HostSig) Fs := fun disk c r after =>
  match c, r with
  | .here (.fs op), answer => Answers disk op answer after ∨ Torn disk op answer after
  | _, _ => after = disk

def getServerKeyDir (home : Path) : Path := home ++ [".rdrive","server"]
def serverPriKey (home : Path) : Path := getServerKeyDir home ++ ["private_ed25519.key"]
def serverPubKey (home : Path) : Path := getServerKeyDir home ++ ["public_ed25519.key"]

/- main of server.rs for serve, up to serve_tcp; the fingerprint is only printed. -/
def prepareKeys (P : Primitives) (home : Path) : Party Unit := do
  let priThere ← fs (.exists_ (serverPriKey home))
  let pubThere ← fs (.exists_ (serverPubKey home))
  if priThere ∧ pubThere then
    let _ ← readToString (serverPubKey home)
  else
    let (newPri,newPub) ← generateEd25519Keypair P
    createDirAll (getServerKeyDir home)
    write (serverPriKey home) (utf8 (String.ofList (trim (Hex.encode newPri.val))))
    write (serverPubKey home) (utf8 (String.ofList (trim (Hex.encode newPub.val))))
    let _ ← readToString (serverPubKey home)

/- SERVER_PUB_KEY_BYTES and SERVER_PRI_KEY_BYTES: the process exits where they cannot be had. -/
def keyBytes (what : String) (path : Path) : Party Key32 := do
  match ← fs (.read path) with
  | none => .fail s!"Failed to read server {what} key"
  | some b =>
    match fromUtf8 b with
    | none => .fail s!"Failed to read server {what} key"
    | some keyHex =>
      match Hex.decode (String.ofList (trim keyHex)) with
      | .ok bytes =>
        if size : bytes.length = 32 then pure ⟨bytes,size⟩
        else .fail s!"Failed to convert server {what} key to 32 bytes: {bytes}"
      | .err e => .fail s!"Failed to decode server {what} key hex: {e}"
      | .panic => .done .panic

def serverPubKeyBytes (home : Path) : Party Key32 := keyBytes "public" (serverPubKey home)
def serverPriKeyBytes (home : Path) : Party Key32 := keyBytes "private" (serverPriKey home)

/- serve_tcp up to its first handshake: the keys it answers with until it ends. -/
def serveTcp (S : Session) : Party ServerKeys := do
  createDirAll S.getStorageDir
  createDirAll S.getAuthorizedClientDir
  let pri ← serverPriKeyBytes S.home
  let pub ← serverPubKeyBytes S.home
  pure ⟨pri,pub⟩

/- The two protocols of serve; v2 falls back to TCP and makes no keys. -/
def serve (P : Primitives) (S : Session) : Party ServerKeys := do
  prepareKeys P S.home
  serveTcp S
def serveV2 (S : Session) : Party ServerKeys := serveTcp S

/- The key pair of rdrive key without -r. -/
def keyPair (P : Primitives) (home : Path) : Party (Key32 × Key32) := do
  match ← existingKeys home with
  | some (priHex,pubHex) =>
    let oldPri ← decodeKey "private" priHex
    let oldPub ← decodeKey "public" pubHex
    let _ ← verifyingKey P.signing.toEd25519 oldPub.val
    pure (oldPri,oldPub)
  | none =>
    let (prikey,pubkey) ← generateEd25519Keypair P
    saveKeys home prikey pubkey
    pure (prikey,pubkey)

/- decode(text.trim())?.try_into() -/
@[irreducible] def signingBytes (text : String) : Outcome Key32 := do
  let bytes ← Hex.decode (String.ofList (trim text))
  if size : bytes.length = 32 then .ok ⟨bytes,size⟩
  else .err s!"Invalid private key length: {bytes}"

def loadKey (home : Path) : Party Key32 := do
  let text ← readToString (privateKeyPath home)
  signingBytes text

/- Without a private file, whether the public one is missing (or there) as well. -/
def keyMissing (home : Path) (publicMissing : Bool) : Party Bool := do
  let priThere ← fs (.exists_ (privateKeyPath home))
  if priThere then pure false
  else
    let pubThere ← fs (.exists_ (publicKeyPath home))
    pure (pubThere != publicMissing)

/- The key that the other commands sign with: push and perf stop early if both files are
missing, pull and status if the private one alone is. -/
def commandKey (home : Path) (publicMissing : Bool) (text : String) : Party Key32 := do
  let missing ← keyMissing home publicMissing
  if missing then .fail text else loadKey home

def pushKey (home : Path) : Party Key32 :=
  commandKey home true "No keys found, please run `rdrive key <args?>`."
def perfKey (home : Path) : Party Key32 := pushKey home
def pullKey (home : Path) : Party Key32 :=
  commandKey home false "Public key exists but private key is missing, cannot pull."
def statusKey (home : Path) : Party Key32 :=
  commandKey home false "Public key exists but private key is missing, cannot status."

/- The handshake of a command that has its key, and what it asks for then. -/
def connects {α : Type} (P : Primitives) (S : Session) (signingKey : Key32) (serverIp : SocketAddr)
    (shouldTrust : Bool) (request : Session → Party α) : Party α := do
  match ← (clientHandshakeHelper P signingKey serverIp shouldTrust).attempt with
  | .error e => .fail s!"Handshake failed: {e}"
  | .ok sessionKey => request (S.connected sessionKey (P.signing.publicKey signingKey).val)

/- A pair of key files: the private one whole, and of its public one what got written. -/
structure Settled (P : Primitives) (pri pub : Path) (k : Key32) (n : Nat) (disk : Fs) : Prop where
  private_ : disk.content pri = some (utf8 (Hex.encode k.val))
  public_ : disk.content pub = some ((utf8 (Hex.encode (P.signing.publicKey k).val)).take n)

def Whole (P : Primitives) (pri pub : Path) (k : Key32) (disk : Fs) : Prop :=
  disk.content pri = some (utf8 (Hex.encode k.val)) ∧
    disk.content pub = some (utf8 (Hex.encode (P.signing.publicKey k).val))

def Couple (P : Primitives) (pri pub : Path) (disk : Fs) : Prop :=
  disk.get pub = none ∨ ∃ k n, Settled P pri pub k n disk

structure Onward (P : Primitives) (pri pub : Path) (disk after : Fs) : Prop where
  couple : Couple P pri pub after
  stays : disk.get pub ≠ none → after.get pri = disk.get pri ∧ after.get pub = disk.get pub

/- Neither of the two files is another one. -/
def Same (pri pub : Path) (disk after : Fs) : Prop :=
  after.get pri = disk.get pri ∧ after.get pub = disk.get pub

structure Places (dir pri pub : Path) : Prop where
  apart : pri ≠ pub
  priInner : pri ≠ []
  pubInner : pub ≠ []
  priBelow : ¬ pri <+: dir
  pubBelow : ¬ pub <+: dir

section
variable {P : Primitives} {dir pri pub path q : Path} {disk after last : Fs} {k : Key32} {n : Nat} {α : Type}
  {b : Bytes} {key : Key32}

theorem wholeSettled (whole : Whole P pri pub k disk) : Settled P pri pub k 64 disk := by
  refine ⟨whole.1,?_⟩
  rw [List.take_of_length_le (by rw [Hex.encodeLength,(P.signing.publicKey k).property])]
  exact whole.2

theorem settledWhole (settled : Settled P pri pub k n disk) (long : 64 ≤ n) : Whole P pri pub k disk := by
  refine ⟨settled.private_,?_⟩
  have text := settled.public_
  rwa [List.take_of_length_le (by rw [Hex.encodeLength,(P.signing.publicKey k).property]; omega)] at text

theorem settledSame (settled : Settled P pri pub k n disk) (same : Same pri pub disk after) :
    Settled P pri pub k n after := by
  constructor
  · rw [Fs.contentOf,same.1,← Fs.contentOf]
    exact settled.private_
  · rw [Fs.contentOf,same.2,← Fs.contentOf]
    exact settled.public_

theorem coupleSame (couple : Couple P pri pub disk) (same : Same pri pub disk after) :
    Couple P pri pub after := by
  rcases couple with none_ | ⟨k,n,settled⟩
  · exact .inl (same.2.trans none_)
  · exact .inr ⟨k,n,settledSame settled same⟩

theorem sameOnward (couple : Couple P pri pub disk) (same : Same pri pub disk after) :
    Onward P pri pub disk after :=
  ⟨coupleSame couple same,fun _ => same⟩

theorem onwardThen (first : Onward P pri pub disk after) (second : Onward P pri pub after last) :
    Onward P pri pub disk last := by
  refine ⟨second.couple,fun there => ?_⟩
  have one := first.stays there
  have two := second.stays (by rw [one.2]; exact there)
  exact ⟨two.1.trans one.1,two.2.trans one.2⟩

theorem onwardSettled (onward : Onward P pri pub disk after) (settled : Settled P pri pub k n disk) :
    Settled P pri pub k n after := by
  refine settledSame settled (onward.stays ?_)
  rw [Fs.contentOf.mp settled.public_]
  simp

theorem onwardWhole (onward : Onward P pri pub disk after) (whole : Whole P pri pub k disk) :
    Whole P pri pub k after :=
  settledWhole (onwardSettled onward (wholeSettled whole)) (Nat.le_refl _)

theorem decodeFromLength {index : Nat} {b bytes : Bytes} (decoded : Hex.decodeFrom index b = .ok bytes)
    (even : b.length % 2 = 0) : b.length = 2 * bytes.length := by
  fun_induction Hex.decodeFrom index b generalizing bytes with
  | case1 index high low rest ih =>
    simp only [Outcome.bindIsOk] at decoded
    obtain ⟨h,-,l,-,more,later,ended⟩ := decoded
    cases Outcome.ok.inj ended
    simp only [List.length_cons] at even ⊢
    have := ih later (by omega)
    omega
  | case2 b index short =>
    cases Outcome.ok.inj decoded
    rcases b with _ | ⟨one,_ | ⟨two,rest⟩⟩
    · rfl
    · simp at even
    · exact absurd rfl (short one two rest)

theorem trimmedLength (text : String) : (utf8 (String.ofList (trim text))).length ≤ (utf8 text).length := by
  have within : List.Sublist (trim text) text.toList := by
    have front := List.dropWhile_sublist (l := text.toList) whitespace
    have back := (List.dropWhile_sublist (l := (text.toList.dropWhile whitespace).reverse) whitespace).reverse
    rw [List.reverse_reverse] at back
    exact back.trans front
  have bytes := (within.flatMap String.utf8EncodeChar).length_le
  rw [← Hex.utf8OfList,← Hex.utf8OfList,String.ofList_toList] at bytes
  exact bytes

theorem keyFileLong (file : KeyFile disk path key) (content : disk.content path = some b) :
    64 ≤ b.length := by
  obtain ⟨b',text,there,valid,decoded⟩ := file
  cases Option.some.inj (content.symm.trans there)
  have bytes := utf8OfFrom valid
  have short := trimmedLength text
  unfold Hex.decode at decoded
  split at decoded
  · contradiction
  · rename_i even
    have digits := decodeFromLength decoded (by omega)
    rw [key.property] at digits
    rw [← bytes]
    omega

theorem settledRead (settled : Settled P pri pub k n disk) {priKey pubKey : Key32}
    (priFile : KeyFile disk pri priKey) (pubFile : KeyFile disk pub pubKey) :
    priKey = k ∧ pubKey = P.signing.publicKey k ∧ 64 ≤ n := by
  have long := keyFileLong pubFile settled.public_
  rw [List.length_take,Hex.encodeLength,(P.signing.publicKey k).property] at long
  have whole := settledWhole settled (by omega)
  exact ⟨keyFileOnly priFile (writtenKey whole.1),keyFileOnly pubFile (writtenKey whole.2),by omega⟩

def Asks (op : Fs.Op) : Prop := Looks op ∨ ∃ path, op = .read path

theorem askSafe {op : Fs.Op} (asks : Asks op) : Safe tearing (fun d => d = disk)
    (Returns fun answer d => d = disk ∧ answer = (disk.exec op).1) (fs op) disk := by
  refine ⟨rfl,?_⟩
  rintro answer after (answered | cut)
  · rcases asks with looks | ⟨path,rfl⟩
    · obtain ⟨rfl,rfl⟩ := lookAnswer looks answered
      exact ⟨rfl,rfl,rfl⟩
    · rcases answered with ⟨rfl,rfl⟩ | torn
      · exact ⟨rfl,rfl,rfl⟩
      · exact torn.1.elim
  · rcases asks with looks | ⟨path,rfl⟩
    · cases op <;> first | exact looks.elim | exact cut.elim
    · exact cut.elim

theorem existsSafe (path : Path) : Safe tearing (fun d => d = disk)
    (Returns fun answer d => d = disk ∧ answer = (disk.get path).isSome) (fs (.exists_ path)) disk :=
  askSafe (.inl trivial)

theorem textSafe (path : Path) : Safe tearing (fun d => d = disk)
    (Returns fun text d => d = disk ∧ TextFile disk path text) (readToString path) disk := by
  have bytes : Safe tearing (fun d => d = disk)
      (Returns fun b d => d = disk ∧ disk.content path = some b) (Party.read path) disk := by
    refine safeThen (askSafe (.inr ⟨path,rfl⟩)) ?_
    rintro answer _ - ⟨rfl,answered⟩
    cases (answer : Option Bytes) with
    | none => exact ⟨rfl,trivial⟩
    | some b => exact ⟨rfl,rfl,answered.symm⟩
  unfold readToString
  refine safeThen bytes ?_
  rintro b _ - ⟨rfl,content⟩
  split
  · rename_i text valid
    exact ⟨rfl,rfl,b,content,valid⟩
  · exact ⟨rfl,trivial⟩

theorem keyBytesSafe (what : String) (path : Path) : Safe tearing (fun d => d = disk)
    (Returns fun key d => d = disk ∧ KeyFile disk path key) (keyBytes what path) disk := by
  unfold keyBytes
  refine safeThen (askSafe (.inr ⟨path,rfl⟩)) ?_
  rintro answer _ - ⟨rfl,answered⟩
  cases (answer : Option Bytes) with
  | none => exact ⟨rfl,trivial⟩
  | some b =>
    simp only []
    split
    · exact ⟨rfl,trivial⟩
    · rename_i keyHex valid
      split
      · rename_i bytes decoded
        split
        · exact ⟨rfl,rfl,b,keyHex,answered.symm,valid,decoded⟩
        · exact ⟨rfl,trivial⟩
      · exact ⟨rfl,trivial⟩
      · exact ⟨rfl,trivial⟩

theorem dirsSafe (priBelow : ¬ pri <+: dir) (pubBelow : ¬ pub <+: dir) :
    Safe tearing (Same pri pub disk) (Returns fun _ => Same pri pub disk) (createDirAll dir) disk := by
  refine hereSafe ⟨rfl,rfl⟩ ?_
  have made : ∀ k, Same pri pub disk (disk.createDirAll (dir.take k)).2 := fun k =>
    ⟨Fs.createDirAllElsewhere fun above => priBelow (above.trans (List.take_prefix _ _)),
      Fs.createDirAllElsewhere fun above => pubBelow (above.trans (List.take_prefix _ _))⟩
  have whole : Same pri pub disk (disk.createDirAll dir).2 := by
    have all := made dir.length
    rwa [List.take_length] at all
  rintro answer after ((⟨rfl,rfl⟩ | torn) | cut)
  · cases answer : (disk.exec (.createDirAll dir)).1 with
    | true => exact ⟨whole,whole⟩
    | false => exact ⟨whole,trivial⟩
  · exact torn.1.elim
  · cases (answer : Bool) with
    | true => exact cut.elim
    | false =>
      obtain ⟨k,rfl⟩ := cut
      exact ⟨made k,trivial⟩

theorem writeSafe (inner : path ≠ []) {inv : Fs → Prop} (start : inv disk)
    (held : ∀ after n, after.content path = some (b.take n) →
      (∀ q, q ≠ path → after.get q = disk.get q) → inv after) :
    Safe tearing inv (Returns fun _ after => after.content path = some b ∧
      ∀ q, q ≠ path → after.get q = disk.get q) (write path b) disk := by
  refine hereSafe start ?_
  have wrote : ∀ text : Bytes, (disk.write path text).2 = disk ∨
      (disk.write path text).2.content path = some text ∧
        ∀ q, q ≠ path → (disk.write path text).2.get q = disk.get q := by
    intro text
    simp only [Fs.write]
    split
    · exact .inr ⟨Fs.contentPut disk inner text,fun q different => Fs.getPutOther disk different _⟩
    · exact .inl rfl
  rintro answer after ((⟨rfl,rfl⟩ | torn) | cut)
  · simp only [Fs.exec,Fs.write]
    split
    · have content := Fs.contentPut disk inner b
      have others : ∀ q, q ≠ path → (disk.put path (.file b)).get q = disk.get q :=
        fun q different => Fs.getPutOther disk different _
      exact ⟨held _ b.length (by rwa [List.take_length]) others,content,others⟩
    · exact ⟨start,trivial⟩
  · exact torn.1.elim
  · cases (answer : Bool) with
    | true => exact cut.elim
    | false =>
      obtain ⟨n,rfl⟩ := cut
      rcases wrote (b.take n) with same | ⟨content,others⟩
      · rw [same]
        exact ⟨start,trivial⟩
      · exact ⟨held _ n content others,trivial⟩

theorem saveSafe (places : Places dir pri pub) (free : disk.get pub = none) (k : Key32) :
    Safe tearing (Onward P pri pub disk) (Returns fun _ after => Whole P pri pub k after) (do
      createDirAll dir
      write pri (utf8 (Hex.encode k.val))
      write pub (utf8 (Hex.encode (P.signing.publicKey k).val))) disk := by
  have unpaired : ∀ after, after.get pub = none → Onward P pri pub disk after :=
    fun after none_ => ⟨.inl none_,fun there => absurd free there⟩
  have dirs := @dirsSafe dir pri pub disk places.priBelow places.pubBelow
  have made := safeMono dirs fun after same => unpaired after (same.2.trans free)
  refine safeThen made ?_
  rintro _ t - same
  have none_ : t.get pub = none := same.2.trans free
  refine safeThen (writeSafe places.priInner (unpaired t none_) fun after n _ others =>
    unpaired after ((others pub places.apart.symm).trans none_)) ?_
  rintro _ u - ⟨priText,others⟩
  have none_ : u.get pub = none := (others pub places.apart.symm).trans none_
  refine safeWeaken (writeSafe places.pubInner (unpaired u none_) fun after n content others => ?_) ?_
  · refine ⟨.inr ⟨k,n,?_,content⟩,fun there => absurd free there⟩
    rw [Fs.contentOf,others pri places.apart,← Fs.contentOf]
    exact priText
  · rintro (_ | message | _) after - ended
    · refine ⟨?_,ended.1⟩
      rw [Fs.contentOf,ended.2 pri places.apart,← Fs.contentOf]
      exact priText
    · trivial
    · trivial

theorem generateSafe (P : Primitives) : Safe tearing (fun d => d = disk)
    (Returns fun pair d => d = disk ∧ pair.2 = P.signing.publicKey pair.1)
    (generateEd25519Keypair P) disk := by
  unfold generateEd25519Keypair
  refine hereSafe rfl ?_
  rintro privateKey _ rfl
  rw [if_pos (P.signing.signed privateKey _)]
  exact ⟨rfl,rfl,rfl⟩

theorem coupleFree (couple : Couple P pri pub disk)
    (missing : ¬ ((disk.get pri).isSome ∧ (disk.get pub).isSome)) : disk.get pub = none := by
  rcases couple with none_ | ⟨k,n,settled⟩
  · exact none_
  · have priThere := Fs.contentOf.mp settled.private_
    have pubThere := Fs.contentOf.mp settled.public_
    exact absurd ⟨by rw [priThere]; rfl,by rw [pubThere]; rfl⟩ missing

theorem coupleSettled (couple : Couple P pri pub disk) (there : disk.get pub ≠ none) :
    ∃ k n, Settled P pri pub k n disk := couple.resolve_left there

theorem stillOnward {p : Party α} {post : Outcome α → Fs → Prop} (couple : Couple P pri pub disk)
    (safe : Safe tearing (fun d => d = disk) post p disk) :
    Safe tearing (Onward P pri pub disk) post p disk :=
  safeMono safe fun after same => by subst same; exact sameOnward couple ⟨rfl,rfl⟩

theorem sameThen {p : Party α} (couple : Couple P pri pub disk)
    (safe : Safe tearing (Same pri pub disk) (Returns fun _ => Same pri pub disk) p disk) :
    Safe tearing (Onward P pri pub disk) (Returns fun _ => Same pri pub disk) p disk :=
  safeMono safe fun _ same => sameOnward couple same

theorem onwardAfter {p : Party α} {post : Outcome α → Fs → Prop} (first : Onward P pri pub disk after)
    (safe : Safe tearing (Onward P pri pub after) post p after) :
    Safe tearing (Onward P pri pub disk) post p after :=
  safeMono safe fun _ second => onwardThen first second

end

section Server
variable {P : Primitives} {S : Session} {home : Path} {disk last later : Fs} {served : List ServerKeys}

theorem serverPlaces (home : Path) :
    Places (getServerKeyDir home) (serverPriKey home) (serverPubKey home) where
  apart := by simp [serverPriKey,serverPubKey]
  priInner := by simp [serverPriKey]
  pubInner := by simp [serverPubKey]
  priBelow := Session.notAbove
  pubBelow := Session.notAbove

theorem prepareSafe (couple : Couple P (serverPriKey home) (serverPubKey home) disk) :
    Safe tearing (Onward P (serverPriKey home) (serverPubKey home) disk)
      (Returns fun _ d => ∃ k n, Settled P (serverPriKey home) (serverPubKey home) k n d)
      (prepareKeys P home) disk := by
  unfold prepareKeys
  refine safeThen (stillOnward couple (existsSafe _)) ?_
  rintro priThere d - ⟨rfl,priFound⟩
  refine safeThen (stillOnward couple (existsSafe _)) ?_
  rintro pubThere d - ⟨rfl,pubFound⟩
  have prints : ∀ after, (∃ k n, Settled P (serverPriKey home) (serverPubKey home) k n after) →
      Onward P (serverPriKey home) (serverPubKey home) d after →
      Safe tearing (Onward P (serverPriKey home) (serverPubKey home) d)
        (Returns fun _ d => ∃ k n, Settled P (serverPriKey home) (serverPubKey home) k n d)
        (do let _ ← readToString (serverPubKey home)) after := by
    intro after settled onward
    refine safeThen (onwardAfter onward (stillOnward onward.couple (textSafe _))) ?_
    rintro text _ - ⟨rfl,-⟩
    exact ⟨onward,settled⟩
  split
  · rename_i both
    have there : d.get (serverPubKey home) ≠ none := by
      rw [← Option.isSome_iff_ne_none,← pubFound]
      exact both.2
    exact prints d (coupleSettled couple there) (sameOnward couple ⟨rfl,rfl⟩)
  · rename_i missing
    have free := coupleFree couple (by rw [← priFound,← pubFound]; exact missing)
    refine safeThen (stillOnward couple (generateSafe P)) ?_
    rintro ⟨newPri,newPub⟩ d - ⟨rfl,own⟩
    dsimp only at own ⊢
    rw [own,trimDigits,trimDigits,String.ofList_toList,String.ofList_toList]
    have saved := safeThen (saveSafe (P := P) (serverPlaces home) free newPri) fun _ after onward whole =>
      prints after ⟨newPri,64,wholeSettled whole⟩ onward
    simpa only [Program.bindAssoc] using saved

theorem coupleRead (couple : Couple P (serverPriKey home) (serverPubKey home) disk) {pri pub : Key32}
    (priFile : KeyFile disk (serverPriKey home) pri) (pubFile : KeyFile disk (serverPubKey home) pub) :
    Whole P (serverPriKey home) (serverPubKey home) pri disk ∧ pub = P.signing.publicKey pri := by
  have there : disk.get (serverPubKey home) ≠ none := by
    obtain ⟨b,text,content,-⟩ := pubFile
    rw [Fs.contentOf.mp content]
    simp
  obtain ⟨k,n,settled⟩ := coupleSettled couple there
  obtain ⟨rfl,rfl,long⟩ := settledRead settled priFile pubFile
  exact ⟨settledWhole settled long,rfl⟩

theorem tcpSafe (couple : Couple P (serverPriKey S.home) (serverPubKey S.home) disk) :
    Safe tearing (Onward P (serverPriKey S.home) (serverPubKey S.home) disk)
      (Returns fun keys d => ∃ k, Whole P (serverPriKey S.home) (serverPubKey S.home) k d ∧
        keys = ⟨k,P.signing.publicKey k⟩) (serveTcp S) disk := by
  have beside : ∀ name leaf, ¬ getServerKeyDir S.home ++ [leaf] <+: S.home ++ [".rdrive",name] := by
    intro name leaf above
    have size := above.length_le
    simp only [getServerKeyDir,List.length_append,List.length_cons,List.length_nil] at size
    omega
  unfold serveTcp
  refine safeThen (sameThen couple (dirsSafe (beside "storage" _) (beside "storage" _))) ?_
  rintro _ u onward -
  refine safeThen (onwardAfter onward (sameThen onward.couple
    (dirsSafe (beside "authorized_keys" _) (beside "authorized_keys" _)))) ?_
  rintro _ v onward -
  refine safeThen (onwardAfter onward (stillOnward onward.couple (keyBytesSafe _ _))) ?_
  rintro pri v onward ⟨rfl,priFile⟩
  refine safeThen (onwardAfter onward (stillOnward onward.couple (keyBytesSafe _ _))) ?_
  rintro pub v onward ⟨rfl,pubFile⟩
  obtain ⟨whole,rfl⟩ := coupleRead onward.couple priFile pubFile
  exact ⟨onward,pri,whole,rfl⟩

theorem serveSafe (couple : Couple P (serverPriKey S.home) (serverPubKey S.home) disk) :
    Safe tearing (Onward P (serverPriKey S.home) (serverPubKey S.home) disk)
      (Returns fun keys d => ∃ k, Whole P (serverPriKey S.home) (serverPubKey S.home) k d ∧
        keys = ⟨k,P.signing.publicKey k⟩) (serve P S) disk := by
  unfold serve
  refine safeThen (prepareSafe couple) ?_
  rintro _ t onward -
  exact onwardAfter onward (tcpSafe onward.couple)

/- Starts of the server, each cut off anywhere. Between them, and while it serves, the two files
are not touched. -/
abbrev Starts (P : Primitives) (S : Session) : Fs → List ServerKeys → Fs → Prop :=
  Restarts tearing (fun p => p = serve P S ∨ p = serveV2 S)
    (Same (serverPriKey S.home) (serverPubKey S.home))

theorem startSafe {p : Party ServerKeys} (start : p = serve P S ∨ p = serveV2 S)
    (couple : Couple P (serverPriKey S.home) (serverPubKey S.home) disk) :
    Safe tearing (Onward P (serverPriKey S.home) (serverPubKey S.home) disk)
      (Returns fun keys d => ∃ k, Whole P (serverPriKey S.home) (serverPubKey S.home) k d ∧
        keys = ⟨k,P.signing.publicKey k⟩) p disk := by
  rcases start with rfl | rfl
  · exact serveSafe couple
  · exact tcpSafe couple

theorem startsKeep (couple : Couple P (serverPriKey S.home) (serverPubKey S.home) disk)
    (ran : Starts P S disk served last) : Couple P (serverPriKey S.home) (serverPubKey S.home) last ∧
      ∀ keys ∈ served, ∃ k, Whole P (serverPriKey S.home) (serverPubKey S.home) k last ∧
        keys = ⟨k,P.signing.publicKey k⟩ := by
  refine Restarts.keeps (Couple P (serverPriKey S.home) (serverPubKey S.home))
    (fun keys d => ∃ k, Whole P (serverPriKey S.home) (serverPubKey S.home) k d ∧
      keys = ⟨k,P.signing.publicKey k⟩) ?_ ?_ couple ran
  · intro p disk start couple
    refine safeMono (startSafe start couple) fun after onward => ⟨onward.couple,?_⟩
    rintro keys ⟨k,whole,same⟩
    exact ⟨k,onwardWhole onward whole,same⟩
  · intro disk after same couple
    refine ⟨coupleSame couple same,?_⟩
    rintro keys ⟨k,whole,told⟩
    exact ⟨k,onwardWhole (sameOnward couple same) whole,told⟩

theorem startsSettled {k : Key32} {n : Nat}
    (settled : Settled P (serverPriKey S.home) (serverPubKey S.home) k n disk)
    (ran : Starts P S disk served last) : Settled P (serverPriKey S.home) (serverPubKey S.home) k n last ∧
      ∀ keys ∈ served, keys = ⟨k,P.signing.publicKey k⟩ ∧ 64 ≤ n := by
  refine Restarts.keeps (Settled P (serverPriKey S.home) (serverPubKey S.home) k n)
    (fun keys _ => keys = ⟨k,P.signing.publicKey k⟩ ∧ 64 ≤ n) ?_ ?_ settled ran
  · intro p disk start settled
    refine safeMono (safeWeaken (startSafe start (.inr ⟨k,n,settled⟩)) ?_) ?_
    · rintro (keys | message | _) after onward served
      · obtain ⟨k',whole,rfl⟩ := served
        obtain ⟨rfl,-,long⟩ :=
          settledRead (onwardSettled onward settled) (writtenKey whole.1) (writtenKey whole.2)
        exact ⟨rfl,long⟩
      · trivial
      · trivial
    · exact fun after onward => ⟨onwardSettled onward settled,fun _ told => told⟩
  · exact fun disk after same settled => ⟨settledSame settled same,fun _ told => told⟩

/- From a machine without a server key: as long as there is no public file nobody has been served,
and from then on the identity is the one that its bytes begin. If they are not all there, no
later start serves anybody. -/
theorem serverIdentity (fresh : disk.get (serverPubKey S.home) = none) (ran : Starts P S disk served last) :
    last.get (serverPubKey S.home) = none ∧ served = [] ∨
      ∃ k n, Settled P (serverPriKey S.home) (serverPubKey S.home) k n last ∧
        (∀ keys ∈ served, keys = ⟨k,P.signing.publicKey k⟩ ∧ 64 ≤ n) ∧
        ∀ more later, Starts P S last more later →
          later.content (serverPriKey S.home) = last.content (serverPriKey S.home) ∧
          later.content (serverPubKey S.home) = last.content (serverPubKey S.home) ∧
          ∀ keys ∈ more, keys = ⟨k,P.signing.publicKey k⟩ ∧ 64 ≤ n := by
  obtain ⟨couple,told⟩ := startsKeep (.inl fresh) ran
  rcases couple with none_ | ⟨k,n,settled⟩
  · refine .inl ⟨none_,List.eq_nil_iff_forall_not_mem.mpr fun keys member => ?_⟩
    obtain ⟨k,whole,-⟩ := told keys member
    have there := Fs.contentOf.mp whole.2
    rw [none_] at there
    contradiction
  · refine .inr ⟨k,n,settled,fun keys member => ?_,fun more later ran => ?_⟩
    · obtain ⟨k',whole,rfl⟩ := told keys member
      obtain ⟨rfl,-,long⟩ := settledRead settled (writtenKey whole.1) (writtenKey whole.2)
      exact ⟨rfl,long⟩
    · obtain ⟨after,same⟩ := startsSettled settled ran
      exact ⟨after.private_.trans settled.private_.symm,after.public_.trans settled.public_.symm,same⟩

end Server

/- What a command has told: the key that rdrive key ends with and goes on to sign with, the key
that another command signs with, or that it has ended. -/
inductive Told where
  | keyed (k : Key32)
  | loaded (k : Key32)
  | ended

/- The commands of a user, in two acts: up to the key, and with a key from the handshake on. -/
inductive Commands (P : Primitives) (S : Session) (home : Path) : Party Told → Prop where
  | key : Commands P S home do
      let (signingKey,_) ← keyPair P home
      pure (.keyed signingKey)
  | load {load} (among : load ∈ [pushKey home,perfKey home,pullKey home,statusKey home]) :
    Commands P S home do
      let k ← load
      pure (.loaded k)
  | auth (signingKey verifyingKey : Key32) (serverIp : SocketAddr) : Commands P S home do
      authenticate P S signingKey serverIp verifyingKey none
      pure .ended
  | push (k : Key32) (serverIp : SocketAddr) (file : Path) (fileKey fileId : String) :
    Commands P S home do
      let _ ← connects P S k serverIp false fun T => T.uploadClient file fileKey fileId
      pure .ended
  | perf (k : Key32) (serverIp : SocketAddr) (sampleElapsedMs : Nat)
      (attempts : List EchoPerf.Attempt) (randLens : List Nat) : Commands P S home do
      let _ ← connects P S k serverIp true fun T =>
        EchoPerf.clientEchoPerf T sampleElapsedMs attempts randLens
      pure .ended
  | pull (k : Key32) (serverIp : SocketAddr) (fileId fileKey : String) (output : Path) :
    Commands P S home do
      let _ ← connects P S k serverIp false fun T => T.downloadClient fileId fileKey output
      pure .ended
  | status (k : Key32) (serverIp : SocketAddr) : Commands P S home do
      let _ ← connects P S k serverIp false Session.getServerStatus
      pure .ended

/- No pull opens one of the two files: output.join(file_name) is another place. -/
def sparing (pri pub : Path) : Env (Port HostSig) Fs := fun disk c r after =>
  tearing disk c r after ∧ ∀ path, c = .here (.fs (.create path)) → path ≠ pri ∧ path ≠ pub

/- The commands of one user, each cut off anywhere. Nobody else touches the two files. -/
abbrev Used (P : Primitives) (S : Session) (home : Path) : Fs → List Told → Fs → Prop :=
  Restarts (sparing (privateKeyPath home) (publicKeyPath home)) (Commands P S home)
    (Same (privateKeyPath home) (publicKeyPath home))

section Client
variable {P : Primitives} {S : Session} {home : Path} {disk last later : Fs} {told : List Told} {α : Type}
  {serverIp : SocketAddr} {auth : Bool}

theorem clientPlaces (home : Path) :
    Places (getUserKeyDir home) (privateKeyPath home) (publicKeyPath home) where
  apart := pathsApart home
  priInner := by simp [privateKeyPath]
  pubInner := by simp [publicKeyPath]
  priBelow := (keyPathBelow home).1
  pubBelow := (keyPathBelow home).2

def Still (c : (Port HostSig).Call) : Prop := ∀ op, c = .here (.fs op) → Asks op

theorem stillSame {c : (Port HostSig).Call} {r : (Port HostSig).Ret c} {after : Fs} (still : Still c)
    (answered : tearing disk c r after) : after = disk := by
  cases c with
  | recv n => exact answered
  | send b => exact answered
  | here c =>
    cases c with
    | fs op =>
      have asks := still op rfl
      rcases answered with answered | cut
      · rcases asks with looks | ⟨path,rfl⟩
        · exact (lookAnswer looks answered).2
        · rcases answered with ⟨-,same⟩ | torn
          · exact same
          · exact torn.1.elim
      · rcases asks with looks | ⟨path,rfl⟩
        · cases op <;> first | exact looks.elim | exact cut.elim
        · exact cut.elim
    | _ => exact answered

theorem offDiskStill {p : Party α} (off : Confined OffDisk p) : Confined Still p :=
  confinedWiden off fun _ off op same => absurd same (off op)

theorem liftedSafe (x : Outcome α) : Safe tearing (fun d => d = disk)
    (Returns fun a d => d = disk ∧ x = .ok a) (liftM x : Party α) disk :=
  safeLift _ rfl fun _ decoded => ⟨rfl,decoded⟩

theorem existingSafe (home : Path) : Safe tearing (fun d => d = disk)
    (Returns fun found d => d = disk ∧ match found with
      | some (priHex,pubHex) =>
        TextFile disk (privateKeyPath home) priHex ∧ TextFile disk (publicKeyPath home) pubHex
      | none => ¬ ((disk.get (privateKeyPath home)).isSome ∧ (disk.get (publicKeyPath home)).isSome))
    (existingKeys home) disk := by
  unfold existingKeys
  refine safeThen (existsSafe _) ?_
  rintro privateThere _ - ⟨rfl,priFound⟩
  refine safeThen (existsSafe _) ?_
  rintro publicThere _ - ⟨rfl,pubFound⟩
  split
  · refine safeThen (textSafe _) ?_
    rintro priHex _ - ⟨rfl,pri⟩
    refine safeThen (textSafe _) ?_
    rintro pubHex _ - ⟨rfl,pub⟩
    exact ⟨rfl,rfl,pri,pub⟩
  · rename_i missing
    rw [priFound,pubFound] at missing
    exact ⟨rfl,rfl,missing⟩

theorem keyPairSafe (couple : Couple P (privateKeyPath home) (publicKeyPath home) disk) :
    Safe tearing (Onward P (privateKeyPath home) (publicKeyPath home) disk)
      (Returns fun pair d => Whole P (privateKeyPath home) (publicKeyPath home) pair.1 d)
      (keyPair P home) disk := by
  unfold keyPair
  refine safeThen (stillOnward couple (existingSafe home)) ?_
  rintro found d onward ⟨rfl,there⟩
  rcases found with _ | ⟨priHex,pubHex⟩
  · have free := coupleFree couple there
    refine safeThen (stillOnward couple (generateSafe P)) ?_
    rintro ⟨prikey,pubkey⟩ d - ⟨rfl,own⟩
    dsimp only at own ⊢
    rw [own]
    refine safeThen (saveSafe (clientPlaces home) free prikey) ?_
    rintro _ after onward whole
    exact ⟨onward,whole⟩
  · obtain ⟨⟨priBytes,priThere,priValid⟩,pubBytes,pubThere,pubValid⟩ := there
    refine safeThen (stillOnward couple (liftedSafe _)) ?_
    rintro oldPri d - ⟨rfl,priDecoded⟩
    refine safeThen (stillOnward couple (liftedSafe _)) ?_
    rintro oldPub d - ⟨rfl,pubDecoded⟩
    refine safeThen (stillOnward couple (liftedSafe _)) ?_
    rintro point d - ⟨rfl,-⟩
    obtain ⟨k,n,settled⟩ := coupleSettled couple (by rw [Fs.contentOf.mp pubThere]; simp)
    obtain ⟨rfl,-,long⟩ := settledRead settled ⟨priBytes,priHex,priThere,priValid,decodeKeyOk.mp priDecoded⟩
      ⟨pubBytes,pubHex,pubThere,pubValid,decodeKeyOk.mp pubDecoded⟩
    exact ⟨sameOnward couple ⟨rfl,rfl⟩,settledWhole settled long⟩

theorem signingBytesOk {text : String} {key : Key32} (parsed : signingBytes text = .ok key) :
    Hex.decode (String.ofList (trim text)) = .ok key.val := by
  unfold signingBytes at parsed
  rw [Outcome.bindIsOk] at parsed
  obtain ⟨bytes,decoded,found⟩ := parsed
  split at found
  · cases Outcome.ok.inj found
    exact decoded
  · cases found

theorem loadKeySafe (home : Path) : Safe tearing (fun d => d = disk)
    (Returns fun k d => d = disk ∧ KeyFile disk (privateKeyPath home) k) (loadKey home) disk := by
  unfold loadKey
  refine safeThen (textSafe _) ?_
  rintro text d - ⟨rfl,b,there,valid⟩
  exact safeLift _ rfl fun k parsed => ⟨rfl,b,text,there,valid,signingBytesOk parsed⟩

theorem commandKeySafe (home : Path) (publicMissing : Bool) (text : String) :
    Safe tearing (fun d => d = disk) (Returns fun k d => d = disk ∧ KeyFile disk (privateKeyPath home) k)
      (commandKey home publicMissing text) disk := by
  have looks : Safe tearing (fun d => d = disk) (Returns fun _ d => d = disk)
      (keyMissing home publicMissing) disk := by
    unfold keyMissing
    refine safeThen (existsSafe _) ?_
    rintro priThere d - ⟨rfl,-⟩
    split
    · exact ⟨rfl,rfl⟩
    · refine safeThen (existsSafe _) ?_
      rintro pubThere d - ⟨rfl,-⟩
      exact ⟨rfl,rfl⟩
  unfold commandKey
  refine safeThen looks ?_
  rintro missing d - rfl
  split
  · exact ⟨rfl,trivial⟩
  · exact loadKeySafe home

theorem loadSafe {load : Party Key32}
    (among : load ∈ [pushKey home,perfKey home,pullKey home,statusKey home]) :
    Safe tearing (fun d => d = disk) (Returns fun k d => d = disk ∧ KeyFile disk (privateKeyPath home) k)
      load disk := by
  simp only [List.mem_cons,List.not_mem_nil,or_false] at among
  rcases among with rfl | rfl | rfl | rfl <;> exact commandKeySafe _ _ _

theorem connectsConfined {allowed : (Port HostSig).Call → Prop} {shouldTrust : Bool}
    {request : Session → Party α} (P : Primitives) (S : Session) (k : Key32) (serverIp : SocketAddr)
    (off : ∀ c, OffDisk c → allowed c) (each : ∀ T, Confined allowed (request T)) :
    Confined allowed (connects P S k serverIp shouldTrust request) := by
  refine confinedBind (attemptConfined (confinedWiden (shakesOffDisk P k serverIp shouldTrust) off))
    fun result => ?_
  cases result with
  | error e => trivial
  | ok sessionKey => exact each _

theorem readStill (path : Path) : Confined Still (Party.read path) := by
  refine confinedBind (confinedHere _ ?_) fun b => ?_
  · rintro op ⟨⟩
    exact .inr ⟨path,rfl⟩
  · cases b <;> trivial

theorem warnedConfined {allowed : (Port HostSig).Call → Prop} {flag : UInt8} {b : Bytes}
    {p : Unit → Party α} (each : Confined allowed (p ())) : Confined allowed (if flag = 2 then do
      let _ ← (liftM (Header.WarnHeader.deserialize b) : Party _)
      p ()
    else p ()) := by
  split
  · exact confinedBind (confinedLift _) fun _ => each
  · exact each

theorem outcomeStill (T : Session) : Confined Still T.uploadOutcome := by
  unfold Session.uploadOutcome
  refine confinedBind (offDiskStill (readsOffDisk T)) fun response => ?_
  refine confinedBind (confinedLift _) fun flag => ?_
  split
  · exact confinedBind (confinedLift _) fun _ => trivial
  · split
    · extract_lets go
      exact warnedConfined (p := go) trivial
    · extract_lets go
      refine warnedConfined (p := go) (confinedBind (confinedLift _) fun rsp => ?_)
      exact confinedBind (shutdownConfined (by rintro _ ⟨⟩)) fun _ => trivial

theorem uploadStill (T : Session) (file : Path) (fileKey fileId : String) :
    Confined Still (T.uploadClient file fileKey fileId) := by
  have streams : Confined Still (T.uploadStream file) := by
    unfold Session.uploadStream
    refine confinedBind (offDiskStill (readsOffDisk T)) fun response => ?_
    refine confinedBind (confinedLift _) fun flag => ?_
    split
    · exact confinedBind (confinedLift _) fun _ => trivial
    · extract_lets go
      refine warnedConfined (p := go) (confinedBind (confinedHere _ (by rintro _ ⟨⟩)) fun chunks => ?_)
      cases chunks with
      | none => trivial
      | some chunks =>
        refine confinedBind (sendLoopConfined (by rintro _ ⟨⟩) ?_ chunks _) fun _ => outcomeStill T
        rintro b - op ⟨⟩
  unfold Session.uploadClient
  split
  · trivial
  refine confinedBind (confinedHere _ ?_) fun fileSize => ?_
  · rintro op ⟨⟩
    exact .inl trivial
  cases (fileSize : Option Nat) with
  | none => trivial
  | some fileSize =>
    refine confinedBind (readStill file) fun content => ?_
    exact confinedBind (offDiskStill (frameOffDisk T _)) fun _ => streams

theorem perfStill (T : Session) (sampleElapsedMs : Nat) (attempts : List EchoPerf.Attempt)
    (randLens : List Nat) :
    Confined Still (EchoPerf.clientEchoPerf T sampleElapsedMs attempts randLens) := by
  have contexts : ∀ {β : Type} (text : String) (p : Party β), Confined OffDisk p →
      Confined OffDisk (EchoPerf.context text p) := by
    intro β text p off
    refine confinedBind (attemptConfined off) fun result => ?_
    cases result <;> trivial
  have loops : ∀ r, Confined OffDisk (EchoPerf.echoLoop T r randLens) := by
    induction randLens with
    | nil => exact fun r => trivial
    | cons randLen rest ih =>
      intro r
      refine confinedBind (confinedBind (confinedHere _ nofun) fun payload => ?_) ih
      refine confinedBind (contexts _ _ (frameOffDisk T _)) fun _ => ?_
      refine confinedBind (contexts _ _ (readsOffDisk T)) fun response => ?_
      refine confinedBind (confinedLift _) fun echo => ?_
      exact confinedBind (confinedHere _ nofun) fun rtt => trivial
  refine offDiskStill (confinedBind (confinedLift _) fun handshakes => ?_)
  refine confinedBind (frameOffDisk T _) fun _ => confinedBind (loops _) fun r => ?_
  refine confinedBind (confinedLift _) fun p50 => confinedBind (confinedLift _) fun p95 => ?_
  refine confinedBind (confinedLift _) fun p99 => ?_
  exact confinedBind (shutdownConfined nofun) fun _ => trivial

theorem statusStill (T : Session) : Confined Still T.getServerStatus :=
  offDiskStill (confinedBind (frameOffDisk T _) fun _ =>
    confinedBind (readsOffDisk T) fun _ => confinedLift _)

theorem sparingSafe {pri pub : Path} {inv : Fs → Prop} {post : Outcome α → Fs → Prop} {p : Party α}
    (safe : Safe tearing inv post p disk) : Safe (sparing pri pub) inv post p disk :=
  @safeThrough _ _ _ _ _ id _ _ _ _ _ (fun _ _ _ _ _ answered => answered.1) safe

theorem stillSpares {pri pub : Path} {p : Party α} {t : Fs} (start : Same pri pub disk t)
    (still : Confined Still p) :
    Safe (sparing pri pub) (Same pri pub disk) (Returns fun _ _ => True) p t := by
  refine safeWeaken (confinedSafe start still ?_) fun result _ _ _ => by cases result <;> trivial
  intro s c r after same calm answered
  rw [stillSame calm answered.1]
  exact same

theorem saveSpares {pri pub : Path} {t : Fs} (start : Same pri pub disk t) (T : Session) (output : Path)
    (response : Header.DownloadResponse) : Safe (sparing pri pub) (Same pri pub disk)
      (Returns fun _ _ => True) (T.saveResponse output response) t := by
  cases place : Path.join output response.fileName with
  | none =>
    unfold Session.saveResponse
    rw [place]
    exact ⟨start,trivial⟩
  | some path =>
    by_cases apart : path ≠ pri ∧ path ≠ pub
    · refine safeWeaken (confinedSafe start (Session.saveAtPath response place) ?_)
        fun result _ _ _ => by cases result <;> trivial
      rintro s c r after same among ⟨answered,-⟩
      cases c with
      | recv n => rwa [show after = s from answered]
      | send b => rwa [show after = s from answered]
      | here c =>
        cases c with
        | fs op =>
          have part : Answers s op r after := by
            rcases answered with answered | torn
            · exact answered
            · cases op <;> first | exact among.elim | exact .inr ⟨trivial,torn⟩ | exact torn.elim
          exact ⟨(atPathEffect among part apart.1.symm).trans same.1,
            (atPathEffect among part apart.2.symm).trans same.2⟩
        | _ => rwa [show after = s from answered]
    · unfold Session.saveResponse
      rw [place]
      refine ⟨start,?_⟩
      rintro made after ⟨-,spared⟩
      exact absurd (spared path rfl) apart

theorem pullSpares {pri pub : Path} {t : Fs} (start : Same pri pub disk t) (T : Session)
    (fileId fileKey : String) (output : Path) : Safe (sparing pri pub) (Same pri pub disk)
      (Returns fun _ _ => True) (T.downloadClient fileId fileKey output) t := by
  unfold Session.downloadClient Session.saveFile
  refine safeThen (stillSpares start (offDiskStill (frameOffDisk T _))) fun _ s start _ => ?_
  refine safeThen (stillSpares start (offDiskStill (readsOffDisk T))) fun headerBytes t start _ => ?_
  refine safeThen (stillSpares start (confinedLift _)) fun flag u start _ => ?_
  split
  · exact safeThen (stillSpares start (confinedLift _)) fun _ v start _ => ⟨start,trivial⟩
  · extract_lets go
    have goes : ∀ v, Same pri pub disk v →
        Safe (sparing pri pub) (Same pri pub disk) (Returns fun _ _ => True) (go ()) v := by
      intro v start
      simp only [go]
      split
      · exact ⟨start,trivial⟩
      · exact safeThen (stillSpares start (confinedLift _)) fun response w start _ =>
          saveSpares start T output response
    split
    · exact safeThen (stillSpares start (confinedLift _)) fun _ v start _ => goes v start
    · exact goes u start

def Meant (P : Primitives) (home : Path) (disk : Fs) : Told → Fs → Prop
  | .keyed k, d => Whole P (privateKeyPath home) (publicKeyPath home) k d
  | .loaded k, d => d = disk ∧ KeyFile disk (privateKeyPath home) k
  | .ended, _ => True

theorem commandSafe {p : Party Told} (command : Commands P S home p)
    (couple : Couple P (privateKeyPath home) (publicKeyPath home) disk) :
    Safe (sparing (privateKeyPath home) (publicKeyPath home))
      (Onward P (privateKeyPath home) (publicKeyPath home) disk) (Returns (Meant P home disk)) p disk := by
  have ends : ∀ {β : Type} {q : Party β}, Safe (sparing (privateKeyPath home) (publicKeyPath home))
      (Same (privateKeyPath home) (publicKeyPath home) disk) (Returns fun _ _ => True) q disk →
      Safe (sparing (privateKeyPath home) (publicKeyPath home))
        (Onward P (privateKeyPath home) (publicKeyPath home) disk) (Returns (Meant P home disk)) (do
          let _ ← q
          pure Told.ended) disk := by
    intro β q spares
    refine safeThen (safeMono spares fun _ same => sameOnward couple same) ?_
    exact fun _ d onward _ => ⟨onward,trivial⟩
  have still : ∀ {β : Type} {q : Party β}, Confined Still q →
      Safe (sparing (privateKeyPath home) (publicKeyPath home))
        (Same (privateKeyPath home) (publicKeyPath home) disk) (Returns fun _ _ => True) q disk :=
    fun still => stillSpares ⟨rfl,rfl⟩ still
  cases command with
  | key =>
    refine safeThen (sparingSafe (keyPairSafe couple)) ?_
    rintro ⟨signingKey,verifyingKey⟩ d onward whole
    exact ⟨onward,whole⟩
  | load among =>
    refine safeThen (sparingSafe (stillOnward couple (loadSafe among))) ?_
    rintro k d onward read
    exact ⟨onward,read⟩
  | auth signingKey verifyingKey serverIp =>
    exact ends (still (offDiskStill (authOffDisk P S signingKey verifyingKey serverIp none)))
  | push k serverIp file fileKey fileId =>
    exact ends (still (connectsConfined P S k serverIp (fun _ off op same => absurd same (off op))
      fun T => uploadStill T file fileKey fileId))
  | perf k serverIp sampleElapsedMs attempts randLens =>
    exact ends (still (connectsConfined P S k serverIp (fun _ off op same => absurd same (off op))
      fun T => perfStill T sampleElapsedMs attempts randLens))
  | pull k serverIp fileId fileKey output =>
    refine ends (safeThen (still (attemptConfined (offDiskStill (shakesOffDisk P k serverIp false)))) ?_)
    rintro (e | sessionKey) t start -
    · exact ⟨start,trivial⟩
    · exact pullSpares start _ fileId fileKey output
  | status k serverIp =>
    exact ends (still (connectsConfined P S k serverIp (fun _ off op same => absurd same (off op))
      statusStill))

theorem usedKeeps (couple : Couple P (privateKeyPath home) (publicKeyPath home) disk)
    (ran : Used P S home disk told last) : Couple P (privateKeyPath home) (publicKeyPath home) last ∧
      ∀ one ∈ told, ∀ k, one = .keyed k → Whole P (privateKeyPath home) (publicKeyPath home) k last := by
  refine Restarts.keeps (Couple P (privateKeyPath home) (publicKeyPath home))
    (fun one d => ∀ k, one = .keyed k → Whole P (privateKeyPath home) (publicKeyPath home) k d)
    ?_ ?_ couple ran
  · intro p d command couple
    refine safeMono (safeWeaken (commandSafe command couple) ?_) fun after onward => ⟨onward.couple,?_⟩
    · rintro (one | message | _) after - ended
      · rintro k rfl
        exact ended
      · trivial
      · trivial
    · rintro one known k rfl
      exact onwardWhole onward (known k rfl)
  · intro d after same couple
    exact ⟨coupleSame couple same,fun one known k keyed =>
      onwardWhole (sameOnward couple same) (known k keyed)⟩

theorem usedSettled {k : Key32} {n : Nat}
    (settled : Settled P (privateKeyPath home) (publicKeyPath home) k n disk)
    (ran : Used P S home disk told last) : Settled P (privateKeyPath home) (publicKeyPath home) k n last ∧
      ∀ one ∈ told, match one with
        | .keyed k' => k' = k ∧ 64 ≤ n
        | .loaded k' => k' = k
        | .ended => True := by
  refine Restarts.keeps (Settled P (privateKeyPath home) (publicKeyPath home) k n)
    (fun one _ => match one with
      | .keyed k' => k' = k ∧ 64 ≤ n
      | .loaded k' => k' = k
      | .ended => True) ?_ ?_ settled ran
  · intro p d command settled
    refine safeMono (safeWeaken (commandSafe command (.inr ⟨k,n,settled⟩)) ?_) ?_
    · rintro ((k' | k' | _) | message | _) after onward ended
      · obtain ⟨rfl,-,long⟩ :=
          settledRead (onwardSettled onward settled) (writtenKey ended.1) (writtenKey ended.2)
        exact ⟨rfl,long⟩
      · exact keyFileOnly ended.2 (writtenKey settled.private_)
      · trivial
      · trivial
      · trivial
    · exact fun after onward => ⟨onwardSettled onward settled,fun _ told => told⟩
  · exact fun d after same settled => ⟨settledSame settled same,fun _ told => told⟩

/- Up to the public file a command may sign with a key that rdrive key then replaces. From then on
every command signs with the same, and rdrive key ends well only if the public file is whole. -/
theorem clientIdentity (fresh : disk.get (publicKeyPath home) = none) (ran : Used P S home disk told last) :
    (∀ k, .keyed k ∈ told → Whole P (privateKeyPath home) (publicKeyPath home) k last) ∧
      (last.get (publicKeyPath home) = none ∨
        ∃ k n, Settled P (privateKeyPath home) (publicKeyPath home) k n last ∧
          ∀ more later, Used P S home last more later →
            later.content (privateKeyPath home) = last.content (privateKeyPath home) ∧
            later.content (publicKeyPath home) = last.content (publicKeyPath home) ∧
            (∀ k', .keyed k' ∈ more → k' = k ∧ 64 ≤ n) ∧ ∀ k', .loaded k' ∈ more → k' = k) := by
  obtain ⟨couple,keyed⟩ := usedKeeps (.inl fresh) ran
  refine ⟨fun k member => keyed _ member k rfl,couple.imp_right ?_⟩
  rintro ⟨k,n,settled⟩
  refine ⟨k,n,settled,fun more later ran => ?_⟩
  obtain ⟨after,same⟩ := usedSettled settled ran
  exact ⟨after.private_.trans settled.private_.symm,after.public_.trans settled.public_.symm,
    fun k' member => same _ member,fun k' member => same _ member⟩

end Client

/- Calls that do all of what they are asked to. -/
section
variable {P : Primitives} {S : Session} {home dir path : Path} {disk : Fs} {b : Bytes} {k : Key32} {α : Type}

theorem asksThen {op : Fs.Op} {f : op.Ret → Party α} {q : Party α} {t : Fs}
    (later : Reaches tearing (f (disk.exec op).1) (disk.exec op).2 q t) :
    Reaches tearing (fs op >>= f) disk q t := .answer (.inl (.inl ⟨rfl,rfl⟩)) later

theorem dirsMade (made : (disk.createDirAll dir).1 = true) :
    Reaches tearing (createDirAll dir) disk (.done (.ok ())) (disk.createDirAll dir).2 := by
  refine asksThen ?_
  rw [if_pos (by exact made)]
  exact .here _ _

theorem writeMade (made : (disk.write path b).1 = true) :
    Reaches tearing (write path b) disk (.done (.ok ())) (disk.write path b).2 := by
  refine asksThen ?_
  rw [if_pos (by exact made)]
  exact .here _ _

theorem textFound (content : disk.content path = some (utf8 (Hex.encode b))) :
    Reaches tearing (readToString path) disk (.done (.ok (Hex.encode b))) disk := by
  have bytes : Reaches tearing (Party.read path) disk (.done (.ok (utf8 (Hex.encode b)))) disk := by
    refine asksThen ?_
    rw [show (disk.exec (.read path)).1 = some (utf8 (Hex.encode b)) from content]
    exact .here _ _
  refine reachesThen bytes ?_
  rw [fromUtf8Of]
  exact .here _ _

theorem keyFound (what : String) (content : disk.content path = some (utf8 (Hex.encode k.val))) :
    Reaches tearing (keyBytes what path) disk (.done (.ok k)) disk := by
  refine asksThen ?_
  rw [show (disk.exec (.read path)).1 = some (utf8 (Hex.encode k.val)) from content]
  simp only [fromUtf8Of,trimDigits,String.ofList_toList,Hex.decodeEncode,k.property,dite_true]
  exact .here _ _

theorem generated (P : Primitives) (k : Key32) : Reaches tearing (generateEd25519Keypair P) disk
    (.done (.ok (k,P.signing.publicKey k))) disk := by
  have drawn : Reaches tearing (draw 32) disk (.done (.ok k)) disk := .answer rfl (.here _ _)
  refine reachesThen drawn ?_
  rw [if_pos (P.signing.signed k _)]
  exact .here _ _

theorem preparesNew (P : Primitives) (k : Key32) (missing : ¬ ((disk.get (serverPriKey home)).isSome ∧
      (disk.get (serverPubKey home)).isSome)) : Reaches tearing (prepareKeys P home) disk (do
        createDirAll (getServerKeyDir home)
        write (serverPriKey home) (utf8 (Hex.encode k.val))
        write (serverPubKey home) (utf8 (Hex.encode (P.signing.publicKey k).val))
        let _ ← readToString (serverPubKey home)) disk := by
  refine asksThen (asksThen ?_)
  rw [if_neg (by exact missing)]
  refine reachesThen (generated P k) ?_
  dsimp only
  rw [trimDigits,trimDigits,String.ofList_toList,String.ofList_toList]
  exact .here _ _

theorem keyPairNew (P : Primitives) (k : Key32) (missing : ¬ ((disk.get (privateKeyPath home)).isSome ∧
      (disk.get (publicKeyPath home)).isSome)) : Reaches tearing (keyPair P home) disk (do
        saveKeys home k (P.signing.publicKey k)
        pure (k,P.signing.publicKey k)) disk := by
  have none_ : Reaches tearing (existingKeys home) disk (.done (.ok none)) disk := by
    refine asksThen (asksThen ?_)
    rw [if_neg (by exact missing)]
    exact .here _ _
  exact reachesThen none_ (reachesThen (generated P k) (.here _ _))

theorem keyLoaded (publicMissing : Bool) (text : String)
    (content : disk.content (privateKeyPath home) = some (utf8 (Hex.encode k.val))) :
    Reaches tearing (commandKey home publicMissing text) disk (.done (.ok k)) disk := by
  have there : (disk.exec (.exists_ (privateKeyPath home))).1 = true := by
    rw [Fs.exec,Fs.contentOf.mp content]
    rfl
  have found : Reaches tearing (keyMissing home publicMissing) disk (.done (.ok false)) disk := by
    refine asksThen ?_
    rw [there]
    exact .here _ _
  have parsed : signingBytes (Hex.encode k.val) = .ok k := by
    unfold signingBytes
    rw [trimDigits,String.ofList_toList,Hex.decodeEncode,Outcome.bindOk,dif_pos k.property]
  refine reachesThen found (reachesThen (textFound content) ?_)
  rw [parsed]
  exact .here _ _

end

open RoundTrip

def paths : Path × Path := (serverPriKey ["home"],serverPubKey ["home"])

def hex (byte : UInt8) : Bytes := utf8 (Hex.encode (flatKey byte).val)

def halfDisk : Fs := (((⟨[]⟩ : Fs).createDirAll (getServerKeyDir ["home"])).2.write paths.1 (hex 1)).2

def pairDisk : Fs :=
  (((halfDisk.createDirAll (getServerKeyDir ["home"])).2.write paths.1 (hex 2)).2.write paths.2 (hex 2)).2

def servedDisk : Fs :=
  ((pairDisk.createDirAll sampleSession.getStorageDir).2.createDirAll sampleSession.getAuthorizedClientDir).2

theorem sampleCut : ∃ q, Reaches tearing (serve samplePrimitives sampleSession) ⟨[]⟩ q halfDisk ∧
    returned q = [] := by
  have prepared := @preparesNew ["home"] ⟨[]⟩ samplePrimitives (flatKey 1) (by decide +kernel)
  have made : Reaches tearing (createDirAll (getServerKeyDir ["home"])) ⟨[]⟩ (.done (.ok ())) _ :=
    dirsMade (by decide +kernel)
  have wrote : Reaches tearing (write (serverPriKey ["home"]) (hex 1)) _ (.done (.ok ())) halfDisk :=
    writeMade (by decide +kernel)
  exact ⟨_,reachesBind (reachesTrans prepared (reachesThen made (reachesBind wrote))),rfl⟩

theorem sampleServes : Reaches tearing (serve samplePrimitives sampleSession) halfDisk
    (.done (.ok ⟨flatKey 2,flatKey 2⟩)) servedDisk := by
  have prepared := @preparesNew ["home"] halfDisk samplePrimitives (flatKey 2) (by decide +kernel)
  have made : Reaches tearing (createDirAll (getServerKeyDir ["home"])) halfDisk (.done (.ok ())) _ :=
    dirsMade (by decide +kernel)
  have pri : Reaches tearing (write (serverPriKey ["home"]) (hex 2))
      (halfDisk.createDirAll (getServerKeyDir ["home"])).2 (.done (.ok ())) _ := writeMade (by decide +kernel)
  have pub : Reaches tearing (write (serverPubKey ["home"]) (hex 2)) _ (.done (.ok ())) pairDisk :=
    writeMade (by decide +kernel)
  have read : Reaches tearing (readToString (serverPubKey ["home"])) pairDisk _ pairDisk :=
    @textFound _ _ (flatKey 2).val (by decide +kernel)
  have storage : Reaches tearing (createDirAll sampleSession.getStorageDir) pairDisk (.done (.ok ())) _ :=
    dirsMade (by decide +kernel)
  have authorized : Reaches tearing (createDirAll sampleSession.getAuthorizedClientDir) _ (.done (.ok ()))
      servedDisk := dirsMade (by decide +kernel)
  have priRead : Reaches tearing (serverPriKeyBytes ["home"]) servedDisk (.done (.ok (flatKey 2)))
      servedDisk := keyFound "private" (by decide +kernel)
  have pubRead : Reaches tearing (serverPubKeyBytes ["home"]) servedDisk (.done (.ok (flatKey 2)))
      servedDisk := keyFound "public" (by decide +kernel)
  have starts := reachesTrans prepared (reachesThen made (reachesThen pri (reachesThen pub
    (reachesThen read (.here _ _)))))
  exact reachesThen starts (reachesThen storage (reachesThen authorized (reachesThen priRead
    (reachesThen pubRead (.here _ _)))))

theorem sampleStarts : Starts samplePrimitives sampleSession ⟨[]⟩ [⟨flatKey 2,flatKey 2⟩] servedDisk := by
  obtain ⟨q,cut,none_⟩ := sampleCut
  have halted : Starts samplePrimitives sampleSession ⟨[]⟩ ([] ++ returned q) halfDisk :=
    .act .none (.inl rfl) cut
  rw [none_] at halted
  exact .act halted (.inl rfl) sampleServes

theorem sampleIdentity : ∃ n, Settled samplePrimitives paths.1 paths.2 (flatKey 2) n servedDisk ∧ 64 ≤ n ∧
    ∀ more later, Starts samplePrimitives sampleSession servedDisk more later →
      ∀ keys ∈ more, keys = ⟨flatKey 2,flatKey 2⟩ := by
  have fresh : (⟨[]⟩ : Fs).get (serverPubKey sampleSession.home) = none := by decide +kernel
  rcases serverIdentity fresh sampleStarts with ⟨-,nobody⟩ | ⟨k,n,settled,same,onward⟩
  · contradiction
  · obtain ⟨one,long⟩ := same _ (List.mem_singleton_self _)
    cases one
    exact ⟨n,settled,long,fun more later ran keys member => ((onward more later ran).2.2 keys member).1⟩

def userHalf : Fs :=
  (((⟨[]⟩ : Fs).createDirAll (getUserKeyDir ["home"])).2.write (privateKeyPath ["home"]) (hex 1)).2

def userPair : Fs :=
  (((userHalf.createDirAll (getUserKeyDir ["home"])).2.write (privateKeyPath ["home"]) (hex 2)).2.write
    (publicKeyPath ["home"]) (hex 2)).2

def Uncreating (c : (Port HostSig).Call) : Prop := ∀ path, c ≠ .here (.fs (.create path))

theorem sparedReached {pri pub : Path} {disk last : Fs} {α : Type} {p q : Party α}
    (ran : Reaches tearing p disk q last) (creates : Confined Uncreating p) :
    Reaches (sparing pri pub) p disk q last := by
  induction ran with
  | here p s => exact .here p s
  | answer answered later ih =>
    exact .answer ⟨answered,fun path same => absurd same (creates.1 path)⟩ (ih (creates.2 _))

theorem textUncreating (path : Path) :
    Confined Uncreating (readToString path) := by
  refine confinedBind (confinedBind (confinedHere _ nofun) fun b => ?_) fun b => ?_
  · cases b <;> trivial
  · split <;> trivial

theorem pairUncreating (P : Primitives) (home : Path) :
    Confined Uncreating (keyPair P home) := by
  have existing : Confined Uncreating (existingKeys home) := by
    refine confinedBind (confinedHere _ nofun) fun pri => confinedBind (confinedHere _ nofun) fun pub => ?_
    split
    · exact confinedBind (textUncreating _) fun _ => confinedBind (textUncreating _) fun _ => trivial
    · trivial
  have writes : ∀ path b, Confined Uncreating (write path b) := by
    intro path b
    refine confinedBind (confinedHere _ nofun) fun made => ?_
    split <;> trivial
  refine confinedBind existing fun found => ?_
  rcases found with _ | ⟨priHex,pubHex⟩
  · refine confinedBind (confinedBind (confinedHere _ nofun) fun pri => ?_) fun pair => ?_
    · dsimp only
      split <;> trivial
    · refine confinedBind (confinedBind (confinedBind (confinedHere _ nofun) fun made => ?_) fun _ =>
        confinedBind (writes _ _) fun _ => writes _ _) fun _ => trivial
      split <;> trivial
  · exact confinedBind (confinedLift _) fun _ => confinedBind (confinedLift _) fun _ =>
      confinedBind (confinedLift _) fun _ => trivial

theorem loadUncreating (home : Path) (publicMissing : Bool) (text : String) :
    Confined Uncreating (commandKey home publicMissing text) := by
  refine confinedBind (confinedBind (confinedHere _ nofun) fun pri => ?_) fun missing => ?_
  · split
    · trivial
    · exact confinedBind (confinedHere _ nofun) fun pub => trivial
  · split
    · trivial
    · exact confinedBind (textUncreating _) fun _ => confinedLift _

/- rdrive key cut off between the two files, a push, rdrive key once more, and a pull. -/
theorem sampleUsed : Used samplePrimitives sampleSession ["home"] ⟨[]⟩
    [.loaded (flatKey 1),.keyed (flatKey 2),.loaded (flatKey 2)] userPair := by
  have first := @keyPairNew ["home"] ⟨[]⟩ samplePrimitives (flatKey 1) (by decide +kernel)
  have made : Reaches tearing (createDirAll (getUserKeyDir ["home"])) ⟨[]⟩ (.done (.ok ())) _ :=
    dirsMade (by decide +kernel)
  have wrote : Reaches tearing (write (privateKeyPath ["home"]) (hex 1)) _ (.done (.ok ())) userHalf :=
    writeMade (by decide +kernel)
  have halted : Used samplePrimitives sampleSession ["home"] ⟨[]⟩ ([] ++ []) userHalf :=
    .act .none .key (reachesBind (sparedReached (reachesTrans first
      (reachesBind (reachesThen made (reachesBind wrote)))) (pairUncreating _ _)))
  have pushes : Reaches tearing (pushKey ["home"]) userHalf (.done (.ok (flatKey 1))) userHalf :=
    keyLoaded true _ (by decide +kernel)
  have pushed : Used samplePrimitives sampleSession ["home"] ⟨[]⟩ [.loaded (flatKey 1)] userHalf :=
    .act halted (.load List.mem_cons_self)
      (reachesThen (sparedReached pushes (loadUncreating _ _ _)) (.here _ _))
  have second := @keyPairNew ["home"] userHalf samplePrimitives (flatKey 2) (by decide +kernel)
  have again : Reaches tearing (createDirAll (getUserKeyDir ["home"])) userHalf (.done (.ok ())) _ :=
    dirsMade (by decide +kernel)
  have pri : Reaches tearing (write (privateKeyPath ["home"]) (hex 2))
      (userHalf.createDirAll (getUserKeyDir ["home"])).2 (.done (.ok ())) _ := writeMade (by decide +kernel)
  have pub : Reaches tearing (write (publicKeyPath ["home"]) (hex 2)) _ (.done (.ok ())) userPair :=
    writeMade (by decide +kernel)
  have saved : Reaches tearing (saveKeys ["home"] (flatKey 2) (flatKey 2)) userHalf (.done (.ok ()))
      userPair := reachesThen again (reachesThen pri pub)
  have keyed : Used samplePrimitives sampleSession ["home"] ⟨[]⟩
      [.loaded (flatKey 1),.keyed (flatKey 2)] userPair :=
    .act pushed .key (reachesThen (sparedReached (reachesTrans second (reachesThen saved (.here _ _)))
      (pairUncreating _ _)) (.here _ _))
  have pulls : Reaches tearing (pullKey ["home"]) userPair (.done (.ok (flatKey 2))) userPair :=
    keyLoaded false _ (by decide +kernel)
  have among : pullKey ["home"] ∈
      [pushKey ["home"],perfKey ["home"],pullKey ["home"],statusKey ["home"]] := by simp
  exact .act keyed (.load among)
    (reachesThen (sparedReached pulls (loadUncreating _ _ _)) (.here _ _))

theorem sampleClient : ∃ n, 64 ≤ n ∧ Settled samplePrimitives (privateKeyPath ["home"])
    (publicKeyPath ["home"]) (flatKey 2) n userPair ∧
    ∀ more later, Used samplePrimitives sampleSession ["home"] userPair more later →
      ∀ k, .keyed k ∈ more ∨ .loaded k ∈ more → k = flatKey 2 := by
  have fresh : (⟨[]⟩ : Fs).get (publicKeyPath ["home"]) = none := by decide +kernel
  obtain ⟨keyed,settled⟩ := clientIdentity fresh sampleUsed
  have whole := keyed (flatKey 2) (by simp)
  rcases settled with none_ | ⟨k,n,settled,onward⟩
  · exact absurd none_ (by decide +kernel)
  · obtain ⟨rfl,-,long⟩ := settledRead settled (writtenKey whole.1) (writtenKey whole.2)
    refine ⟨n,long,settled,fun more later ran k either => ?_⟩
    obtain ⟨-,-,again,same⟩ := onward more later ran
    exact either.elim (fun member => (again k member).1) (same k)

end RDrive.Identity
