import RDrive.DepotDisk
import RDrive.Lockout
import RDrive.Responses

/-! The depot served over the protocol: one connection after the other, each a client
function against handle_connection in any order of their steps. Every run of the server
answers what the depot answers, and its disk holds the depot after it. -/
namespace RDrive
open Crypto Header Duplex Party Bytes Program

namespace Host

def ended (h : Host) : Host :=
  {h with locks := {h.locks with lock := fun arc => (h.locks.lock arc).only fun who => who ≠ conn}}

structure Own (now : String) (h : Host) : Prop where
  writer : ∀ arc who, (h.locks.lock arc).writer = some who → who = conn
  readers : ∀ arc, ∀ who ∈ (h.locks.lock arc).readers, who = conn
  now : h.now = now

variable {now : String} {h g : Host}

theorem ownLock (own : Own now h) {arc : FileLock.Arc} {lock : RwLock FileLock.Conn}
    (writer : ∀ who, lock.writer = some who → who = conn) (readers : ∀ who ∈ lock.readers, who = conn) :
    Own now {h with locks := h.locks.relock arc lock} where
  writer other who held := by
    by_cases same : other = arc
    · subst same
      rw [FileLock.relockSame] at held
      exact writer who held
    · rw [FileLock.relockOther _ same] at held
      exact own.writer other who held
  readers other who held := by
    by_cases same : other = arc
    · subst same
      rw [FileLock.relockSame] at held
      exact readers who held
    · rw [FileLock.relockOther _ same] at held
      exact own.readers other who held
  now := own.now

theorem handleOwn (own : Own now h) (c : HostCall) : Own now (handle h c).2 := by
  cases c with
  | holdFileLock fileId =>
    simp only [handle,FileLock.holdFileLock]
    split
    · exact own
    · refine ⟨fun arc who held => ?_,fun arc who held => ?_,own.now⟩
      · by_cases same : arc = h.locks.nextArc
        · simp [same,RwLock.free] at held
        · simp only [Function.update_of_ne same] at held
          exact own.writer arc who held
      · by_cases same : arc = h.locks.nextArc
        · simp [same,RwLock.free] at held
        · simp only [Function.update_of_ne same] at held
          exact own.readers arc who held
  | tryLock kind arc =>
    simp only [handle]
    split
    · rename_i taken got
      cases kind with
      | upload =>
        obtain ⟨-,-,written,unread⟩ := RwLock.tryWriteExact got
        refine ownLock own (fun who held => ?_) (fun who held => ?_)
        · exact (Option.some.inj (written.symm.trans held)).symm
        · rw [unread] at held
          contradiction
      | download =>
        obtain ⟨-,unwritten,read⟩ := RwLock.tryReadExact got
        refine ownLock own (fun who held => ?_) (fun who held => ?_)
        · rw [unwritten] at held
          contradiction
        · rw [read] at held
          rcases List.mem_cons.mp held with same | among
          · exact same
          · exact own.readers arc who among
    · exact own
  | dropGuard kind arc =>
    cases kind with
    | upload =>
      refine ownLock own (fun who held => ?_) (own.readers arc)
      simp [FileLock.dropGuard,RwLock.dropWrite] at held
    | download =>
      exact ownLock own (own.writer arc) fun who held => own.readers arc who (List.mem_of_mem_erase held)
  | _ => exact ⟨own.writer,own.readers,own.now⟩

theorem hostedOwn {α : Type} {p q : Party α} (ran : Reaches (hosting handle) p h q g) (own : Own now h) :
    Own now g := by
  induction ran with
  | here p h => exact own
  | @answer c next r h middle q g answered later ih =>
    cases c with
    | here c => exact ih (answered.2 ▸ handleOwn own c)
    | send b => exact ih (answered.2 ▸ own)
    | recv n => exact ih (answered ▸ own)

def Free (h : Host) : Prop :=
  ∀ arc, (h.locks.lock arc).writer = none ∧ (h.locks.lock arc).readers = []

theorem freeOwn (free : h.Free) : Own h.now h where
  writer arc who held := by
    rw [(free arc).1] at held
    contradiction
  readers arc who held := by
    rw [(free arc).2] at held
    contradiction
  now := rfl

theorem endedFree (own : Own now h) : h.ended.Free := by
  intro arc
  have free : (h.locks.lock arc).only (fun who => who ≠ conn) = .free := by
    refine RwLock.onlyFree _ (fun who held => ?_) (fun who held => ?_)
    · simpa using own.writer arc who held
    · simpa using own.readers arc who held
  change ((h.locks.lock arc).only _).writer = none ∧ ((h.locks.lock arc).only _).readers = []
  rw [free]
  exact ⟨rfl,rfl⟩

theorem freeUnlocked (free : h.Free) (fileId : String) : FileLock.Unlocked h.locks fileId :=
  fun arc _ => free arc

theorem hostedRough {α : Type} {inv : Fs → Prop} {post : Outcome α → Fs → Prop} {p q : Party α}
    (safe : Safe rough inv post p h.disk) (ran : Reaches (hosting handle) p h q g) : inv g.disk := by
  suffices follows : ∀ (h : Host) c r (g : Host), inv h.disk → hosting handle h c r g →
      rough h.disk c r g.disk by
    have whole : Safe (hosting handle) (fun h : Host => inv h.disk)
        (fun result h => post result h.disk) p h := safeThrough follows safe
    have last := safeStart (safeReaches ran whole)
    exact last
  intro h c r g _ answered
  cases c with
  | here c =>
    obtain ⟨rfl,rfl⟩ := answered
    have answers := hostAnswers h c
    cases c <;> first | exact answersLeaves answers | exact answers
  | send b => exact congrArg Host.disk answered.2
  | recv n => exact congrArg Host.disk answered

theorem hostedRooted {α : Type} {p q : Party α} (rooted : h.disk.Rooted)
    (fair : Confined (fun c : (Port HostSig).Call => ∀ op, c = .here (.fs op) → op.Fair) p)
    (ran : Reaches (hosting handle) p h q g) : g.disk.Rooted := by
  suffices keeps : ∀ (h : Host) (c : (Port HostSig).Call) r (g : Host), h.disk.Rooted →
      (∀ op, c = .here (.fs op) → op.Fair) → hosting handle h c r g → g.disk.Rooted by
    have whole : Safe (hosting handle) (fun h : Host => h.disk.Rooted) (fun _ _ => True) p h :=
      confinedSafe rooted fair keeps
    have last := safeStart (safeReaches ran whole)
    exact last
  intro h c r g rooted fair answered
  cases c with
  | here c =>
    obtain ⟨rfl,rfl⟩ := answered
    have answers := hostAnswers h c
    cases c with
    | fs op => exact Fs.execRooted rooted (fair op rfl)
    | _ => exact answers ▸ rooted
  | send b => exact answered.2 ▸ rooted
  | recv n => exact answered ▸ rooted

theorem hostedStill {α : Type} {p q : Party α}
    (looks : Confined (fun c : (Port HostSig).Call => ∀ op, c = .here (.fs op) →
      ∀ disk : Fs, (disk.exec op).2 = disk) p)
    (ran : Reaches (hosting handle) p h q g) : g.disk = h.disk := by
  induction ran with
  | here p h => rfl
  | @answer c next r h middle q g answered later ih =>
    refine (ih (looks.2 r)).trans ?_
    cases c with
    | here c =>
      obtain ⟨rfl,rfl⟩ := answered
      have answers := hostAnswers h c
      cases c with
      | fs op => exact looks.1 op rfl h.disk
      | _ => exact answers
    | send b => exact congrArg Host.disk answered.2
    | recv n => exact congrArg Host.disk answered

end Host

namespace Depot
open Session RoundTrip

def meeting {α : Type} (T : Session) (program : Party α) (client server : Host) :
    Link HostSig Host Host α Unit :=
  ⟨⟨program,client⟩,⟨T.handleConnection,server⟩,[],[]⟩

def heard {α : Type} (reply : α → Reply) : Party α → Reply
  | .done (.ok a) => reply a
  | .done (.err _) => .refused
  | _ => .lost

def saved (client : Host) (d : Downloaded) : Reply :=
  match client.disk.content d.outputPath with
  | some content => .file ⟨d.response.fileName,content⟩
  | none => .lost

/- One request on a connection of its own, from its command on, with any session key. A file
is pushed from anywhere, and pulled into a directory without directories in it. -/
inductive Exchange (S : Session) (signing : Signing) (server : Host) : Request × Reply → Host → Prop where
  | register {sessionKey : Bytes} {pri : Key32} {client final}
      (ran : Complete Host.handle Host.handle
        (meeting (S.connected sessionKey (signing.publicKey pri).val)
          ((S.connected sessionKey (signing.publicKey pri).val).authClient signing pri
            (signing.publicKey pri) none) client server) final) :
      Exchange S signing server
        (.register (signing.publicKey pri).val,heard (fun _ => .done) final.left.program)
        final.right.host.ended
  | rotate {sessionKey : Bytes} {oldPri newPri : Key32} {client final}
      (ran : Complete Host.handle Host.handle
        (meeting (S.connected sessionKey (signing.publicKey oldPri).val)
          ((S.connected sessionKey (signing.publicKey oldPri).val).authClient signing oldPri
            (signing.publicKey newPri) (some (signing.publicKey oldPri))) client server) final) :
      Exchange S signing server
        (.rotate (signing.publicKey oldPri).val (signing.publicKey newPri).val,
          heard (fun _ => .done) final.left.program) final.right.host.ended
  | push {sessionKey : Bytes} {slot : Slot} {held : Held} {path : Path} {client : Host} {final}
      (named : path.getLast? = some held.fileName) (stored : client.disk.content path = some held.content)
      (ran : Complete Host.handle Host.handle
        (meeting (S.connected sessionKey slot.clientKey)
          ((S.connected sessionKey slot.clientKey).uploadClient path slot.fileKey slot.fileId)
          client server) final) :
      Exchange S signing server
        (.push slot held,heard (fun _ => .done) final.left.program) final.right.host.ended
  | pull {sessionKey : Bytes} {slot : Slot} {output : Path} {client : Host} {final}
      (room : ∀ name, Writable client.disk output name)
      (ran : Complete Host.handle Host.handle
        (meeting (S.connected sessionKey slot.clientKey)
          ((S.connected sessionKey slot.clientKey).downloadClient slot.fileId slot.fileKey output)
          client server) final) :
      Exchange S signing server
        (.pull slot,heard (saved final.left.host) final.left.program) final.right.host.ended
  | status {sessionKey clientKey : Bytes} {client final}
      (ran : Complete Host.handle Host.handle
        (meeting (S.connected sessionKey clientKey)
          (S.connected sessionKey clientKey).getServerStatus client server) final) :
      Exchange S signing server
        (.status,heard (fun header => .clients header.authClient) final.left.program) final.right.host.ended

structure Serves {S : Session} (N : Names S) (d : Depot) (h : Host) : Prop where
  holds : Represents N h.disk d
  free : h.Free
  dated : h.now.utf8ByteSize < 128

section
variable {S : Session} {N : Names S} {d : Depot} {α : Type} {client server : Host} {program : Party α}
  {sessionKey clientKey : Bytes}

theorem servesEnded {final : Link HostSig Host Host α Unit} {T : Session} (serves : Serves N d server)
    (ran : Complete Host.handle Host.handle (meeting T program client server) final) {next : Depot}
    (holds : Represents N final.right.host.disk next) : Serves N next final.right.host.ended := by
  have own := Host.hostedOwn (rightHosted _ _ ran.1) (Host.freeOwn serves.free)
  refine ⟨holds,Host.endedFree own,?_⟩
  have now : final.right.host.ended.now = server.now := own.now
  rw [now]
  exact serves.dated

theorem commandArrives {T : Session} {command : Command} {nonce : Nonce} {rest : Party α} {g t : Host}
    {output : Bytes} {q : Party Unit}
    (small : nonceLen + command.serialize.length + tagLen ≤ Frame.maxFrameLength)
    (asks : Advances Host.handle program client [] (Frame.frame T.cipher T.sessionKey nonce command.serialize)
      rest g)
    (served : Advances Host.handle (T.dispatch command) server [] output q t) :
    Reach Host.handle Host.handle (meeting T program client server) ⟨⟨rest,g⟩,⟨q,t⟩,output,[]⟩ :=
  Runs.leadsTrans (leftTurn asks) (rightTurn (commandTaken small served))

theorem endsSo {l m final : Link HostSig Host Host α Unit} {result : Outcome α} {other : Outcome Unit}
    (ran : Complete Host.handle Host.handle l final) (reached : Reach Host.handle Host.handle l m)
    (left : m.left.program = .done result) (right : m.right.program = .done other) : final = m := by
  refine completeUnique _ _ ran ⟨reached,finishedStuck _ _ ?_ ?_⟩
  · unfold End.finished
    rw [left]
  · unfold End.finished
    rw [right]

theorem responseTaken {T : Session} (R : ClientRead T α) {h : Host} {nonce : Nonce} {response : Response}
    (small : nonceLen + response.encode.length + tagLen ≤ Frame.maxFrameLength) :
    Advances Host.handle R.client h (Frame.frame T.cipher T.sessionKey nonce response.encode) []
      (R.rest response.encode) h := by
  rw [R.waits]
  exact advancesTaken (frameTaken small) (.rest _ _)

theorem errorSmall (e : ErrorHeader) (short : e.message.utf8ByteSize ≤ 256) :
    nonceLen + (Response.error e).encode.length + tagLen ≤ Frame.maxFrameLength := by
  have code := Postcard.varintLength (n := e.code.toNat) (k := 2)
    (Nat.lt_of_lt_of_le e.code.toNat_lt (by decide))
  have text := shortString (s := e.message) (k := 1) (Nat.lt_of_le_of_lt short (by decide))
  simp only [Response.encode,ErrorHeader.serialize,List.length_cons,List.length_append]
  unfold nonceLen tagLen Frame.maxFrameLength
  omega

theorem frameRange {n : Nat} (small : nonceLen + n + tagLen ≤ Frame.maxFrameLength) : n ≤ Frame.u32Max := by
  unfold nonceLen tagLen Frame.maxFrameLength at small
  unfold Frame.u32Max
  omega

end

section
variable {S : Session} {N : Names S} {d : Depot} {client server : Host} {sessionKey clientKey : Bytes}

theorem statusSmall (header : StatusHeader) (short : header.timestamp.utf8ByteSize < 128) :
    nonceLen + (Response.status header).encode.length + tagLen ≤ Frame.maxFrameLength := by
  have text := shortString (s := header.timestamp) (k := 0) (by omega)
  have number : ∀ n : UInt64, (Postcard.varint n.toNat).length ≤ 10 := fun n =>
    Postcard.varintLength (k := 9) (Nat.lt_of_lt_of_le (UInt64.toNat_lt n) (by decide))
  have clients := number header.authClient
  have uploaded := number header.totalUploaded
  have downloaded := number header.totalDownloaded
  have bandwidth := number header.totalBandwidthUsed
  have uptime := header.uptimeHrs.property
  simp only [Response.encode,StatusHeader.serialize,List.length_append]
  unfold nonceLen tagLen Frame.maxFrameLength
  omega

def statusOf (d : Depot) (h : Host) : StatusHeader :=
  ⟨h.now,h.uptime,d.stored.card.toUInt64,h.uploaded.length.toUInt64,h.downloaded.length.toUInt64,
    ((h.uploaded ++ h.downloaded).sum / (1024 * 1024 * 1024)).toUInt64⟩

theorem statusSent {T : Session} (count : server.disk.countDirs T.getStorageDir = some d.stored.card)
    (small : (Response.status (statusOf d server)).encode.length ≤ Frame.u32Max) :
    ∃ nonce, Advances Host.handle T.sendStatus server []
      (Frame.frame T.cipher T.sessionKey nonce (Response.status (statusOf d server)).encode)
      (.done (.ok ())) {server with drawn := server.drawn + 1} := by
  obtain ⟨nonce,sent⟩ := closingWritten (S := T) (h := server) _ small
  refine ⟨nonce,?_⟩
  unfold sendStatus
  refine .here (.here ?_)
  change Advances Host.handle (fs (.countDirs T.getStorageDir) >>= _) server _ _ _ _
  refine advancesQuiet (Host.fsAdvances (.countDirs T.getStorageDir)) ?_
  simp only [Fs.exec,count]
  exact .here sent

theorem statusServed (serves : Serves N d server) {final}
    (ran : Complete Host.handle Host.handle (meeting (S.connected sessionKey clientKey)
      (S.connected sessionKey clientKey).getServerStatus client server) final) :
    heard (fun header : StatusHeader => .clients header.authClient) final.left.program =
      .clients d.stored.card.toUInt64 ∧ Serves N d final.right.host.ended := by
  let T := S.connected sessionKey clientKey
  have command : nonceLen + (Command.serialize .status).length + tagLen ≤ Frame.maxFrameLength := by
    simp [Command.serialize,Postcard.varint,nonceLen,tagLen,Frame.maxFrameLength]
  have small := statusSmall (statusOf d server) serves.dated
  obtain ⟨asked,asks⟩ := frameWritten (S := T) (h := client) (Command.serialize .status) (frameRange command)
  have count := counted serves.holds
  obtain ⟨nonce,sent⟩ := statusSent (T := T) count (frameRange small)
  have requested : Advances Host.handle T.getServerStatus client []
      (Frame.frame T.cipher T.sessionKey asked (Command.serialize .status)) T.statusReading.client
      {client with drawn := client.drawn + 1} := by
    rw [statusAsks]
    exact advancesLast asks (.rest _ _)
  have read := @responseTaken _ T T.statusReading {client with drawn := client.drawn + 1} nonce _ small
  obtain ⟨header,same,taken⟩ := statusTakes (S := T) (frameRange small)
  cases same
  rw [taken] at read
  have over_ := endsSo ran (Runs.leadsTrans (commandArrives command requested sent) (leftTurn read)) rfl rfl
  refine ⟨by rw [over_]; rfl,servesEnded serves ran ?_⟩
  rw [over_]
  exact serves.holds

theorem serverPart {α : Type} {T : Session} {program rest : Party α} {command : Command} {nonce : Nonce}
    {g : Host} {final} (small : nonceLen + command.serialize.length + tagLen ≤ Frame.maxFrameLength)
    (asks : Advances Host.handle program client [] (Frame.frame T.cipher T.sessionKey nonce command.serialize)
      rest g) (ran : Complete Host.handle Host.handle (meeting T program client server) final) :
    Reaches (hosting Host.handle) (T.dispatch command) server final.right.program final.right.host :=
  rightHosted _ _ (completeOnward _ _ (commandArrives small asks (.rest _ _)) ran).1

variable {slot : Slot} {held : Held} {path : Path} {open_ : Bool}

theorem touchesFair {c : (Port HostSig).Call} (touches : S.Touches slot c) :
    ∀ op, c = .here (.fs op) → op.Fair := by
  rintro op rfl
  cases op with
  | rename old new => exact touches.elim
  | _ => trivial

theorem pushServed (serves : Serves N d server) (meant : N.trade.meant d (.push slot held))
    (named : path.getLast? = some held.fileName)
    (stored : client.disk.content path = some held.content) {final}
    (ran : Complete Host.handle Host.handle (meeting (S.connected sessionKey slot.clientKey)
      ((S.connected sessionKey slot.clientKey).uploadClient path slot.fileKey slot.fileId) client server)
      final) :
    heard (fun _ => .done) final.left.program = .done ∧
      Serves N (d.next open_ (.push slot held)) final.right.host.ended := by
  let T := S.connected sessionKey slot.clientKey
  have able : Deliverable S slot held := meant.2
  have ready := slotReady serves.holds slot
  have prepared : Prepared T client server path slot.fileKey slot.fileId held.fileName held.content :=
    ⟨named,able.plain,stored,able.bounded,able.accepted,Host.freeUnlocked serves.free _,
      ready.clear,ready.file,ready.meta_⟩
  obtain ⟨m,reached,left,right,kept,-⟩ := uploadMeets prepared able.fits able.even
  have same := endsSo ran reached left right
  let header := sentHeader T slot.fileId held.fileName slot.fileKey held.content
  have small : nonceLen + (Command.serialize (.upload header)).length + tagLen ≤ Frame.maxFrameLength :=
    able.fits
  obtain ⟨nonce,asks⟩ := @requestSent T client path slot.fileKey slot.fileId held.fileName
    held.content named stored (frameRange small)
  have worked := serverPart small asks ran
  have accepted : header.validate T.maxFileSize = .ok () := able.accepted
  have dispatched : T.dispatch (.upload header) = T.handleUpload header := by
    simp only [dispatch,accepted]
  rw [dispatched] at worked
  have spared := Host.hostedRough (uploadSpares header server.disk) worked
  have rooted := Host.hostedRooted serves.holds.rooted
    (confinedWiden (uploadTouches header) fun c touches => touchesFair touches) worked
  rw [same] at spared rooted
  refine ⟨by rw [same,left]; rfl,servesEnded serves ran ?_⟩
  rw [same]
  exact representsPushed serves.holds meant rooted spared ⟨kept.dir,kept.file,kept.meta_⟩

theorem requestTurns (T : Session) (known : N.trade.Known slot) :
    T.dispatch (.download ⟨slot.fileId,slot.fileKey⟩) = T.handleDownload ⟨slot.fileId,slot.fileKey⟩ := by
  have idSize := N.fileIdSize _ known.fileId
  have keySize := N.fileKeySize _ known.fileKey
  have valid : (DownloadHeader.mk slot.fileId slot.fileKey).validate = .ok () := by
    unfold DownloadHeader.validate
    rw [if_neg (by simp only []; omega),if_neg (by simp only []; omega)]
  simp only [dispatch,valid]

theorem requestSmall (known : N.trade.Known slot) :
    nonceLen + (Command.serialize (.download ⟨slot.fileId,slot.fileKey⟩)).length + tagLen ≤
      Frame.maxFrameLength := by
  have idSize := N.fileIdSize _ known.fileId
  have keySize := N.fileKeySize _ known.fileKey
  have id := shortString (s := slot.fileId) (k := 1) (Nat.lt_of_le_of_lt idSize.2 (by decide))
  have key := shortString (s := slot.fileKey) (k := 1) (Nat.lt_of_le_of_lt keySize.2 (by decide))
  have variant := Postcard.varintLength (n := 3) (k := 0) (by decide)
  simp only [Command.serialize,DownloadHeader.serialize,List.length_append]
  unfold nonceLen tagLen Frame.maxFrameLength
  omega

theorem downloadAsks (T : Session) (output : Path)
    (small : nonceLen + (Command.serialize (.download ⟨slot.fileId,slot.fileKey⟩)).length + tagLen ≤
      Frame.maxFrameLength) : ∃ nonce, Advances Host.handle (T.downloadClient slot.fileId slot.fileKey output)
        client [] (Frame.frame T.cipher T.sessionKey nonce
          (Command.serialize (.download ⟨slot.fileId,slot.fileKey⟩)))
        (T.saveFile output) {client with drawn := client.drawn + 1} := by
  obtain ⟨nonce,asked⟩ := frameWritten (S := T) (h := client)
    (Command.serialize (.download ⟨slot.fileId,slot.fileKey⟩)) (frameRange small)
  exact ⟨nonce,advancesLast asked (.rest _ _)⟩

theorem looksOnly {T : Session} (headers : DownloadHeader) :
    Confined (fun c : (Port HostSig).Call => ∀ op, c = .here (.fs op) → ∀ disk : Fs, (disk.exec op).2 = disk)
      (T.handleDownload headers) := by
  refine downloadConfined ?_ headers ?_ ?_ ?_
  · rintro c blind op rfl
    exact blind.elim
  · rintro p - op same disk
    cases same
    rfl
  · rintro op same disk
    cases same
    rfl
  · rintro n op same
    cases same

theorem foundServed (serves : Serves N d server) (found : d.files slot = some held) {output : Path}
    (room : ∀ name, Writable client.disk output name) {final}
    (ran : Complete Host.handle Host.handle (meeting (S.connected sessionKey slot.clientKey)
      ((S.connected sessionKey slot.clientKey).downloadClient slot.fileId slot.fileKey output) client server)
      final) :
    heard (saved final.left.host) final.left.program = .file held ∧ Serves N d final.right.host.ended := by
  let T := S.connected sessionKey slot.clientKey
  obtain ⟨-,known,fits⟩ := serves.holds.sound.files slot held found
  have able : Deliverable S slot held := fits
  have whole : held.content.length.toUInt64.toNat = held.content.length := by
    have bound := able.bounded
    have range := S.maxFileSize.toNat_lt
    simp only [Nat.toUInt64,UInt64.toNat_ofNat']
    exact Nat.mod_eq_of_lt (by omega)
  have kept := storedThere serves.holds found
  obtain ⟨m,reached,ended,right,result,left,content,name,-,-⟩ := @downloadMeets T slot.fileKey slot.fileId
    held.fileName held.content client server output able.plain able.fits able.even
    (validated able.accepted) whole ⟨kept.dir,kept.file,kept.meta_⟩ (Host.freeUnlocked serves.free _)
    (room _)
  have same := endsSo ran reached left right
  have small := requestSmall known
  obtain ⟨nonce,asks⟩ := downloadAsks T output small
  have worked := serverPart small asks ran
  rw [requestTurns T known] at worked
  have still := Host.hostedStill (looksOnly _) worked
  refine ⟨?_,servesEnded serves ran ?_⟩
  · rw [same,left]
    simp only [heard,saved,content,name]
  · rw [still]
    exact serves.holds

theorem missingSent {T : Session} (unlocked : FileLock.Unlocked server.locks slot.fileId)
    (missing : server.disk.get (T.metaPath ⟨T.clientKey,slot.fileKey,slot.fileId⟩) = none) :
    ∃ (e : ErrorHeader) (nonce : Nonce) (last : Host), e.message.utf8ByteSize ≤ 256 ∧
      Advances Host.handle (T.handleDownload ⟨slot.fileId,slot.fileKey⟩) server []
        (Frame.frame T.cipher T.sessionKey nonce (Response.error e).encode) (.done (.ok ())) last ∧
      last.disk = server.disk := by
  obtain ⟨arc,locks,inside⟩ := lockTaken .download unlocked
  let locked : Host := {server with locks := locks}
  obtain ⟨e,short,refuses⟩ : ∃ e : ErrorHeader, e.message.utf8ByteSize ≤ 256 ∧ ∀ {output last},
      Advances Host.handle (T.sendFailed e) locked [] output (.done (.ok ())) last →
      Advances Host.handle (T.handleDownload ⟨slot.fileId,slot.fileKey⟩) server [] output
        (.done (.ok ())) last := by
    by_cases dir : (server.disk.get (T.userDirPath ⟨T.clientKey,slot.fileKey,slot.fileId⟩)).isSome = true
    · refine ⟨⟨404,"Metadata File not found"⟩,by decide,fun sent => ?_⟩
      unfold handleDownload
      refine inside (advancesQuiet (Host.fsAdvances _) ?_)
      simp only [Fs.exec,dir,if_true]
      refine advancesQuiet (Host.fsAdvances _) ?_
      simp only [Fs.exec,missing,Option.isSome_none,Bool.false_eq_true,if_false]
      exact sent
    · refine ⟨⟨404,"File not found"⟩,by decide,fun sent => ?_⟩
      unfold handleDownload
      refine inside (advancesQuiet (Host.fsAdvances _) ?_)
      simp only [Fs.exec,dir,Bool.false_eq_true,if_false]
      exact sent
  obtain ⟨nonce,sent⟩ := closingWritten (S := T) (h := locked) (Response.error e).encode
    (frameRange (errorSmall e short))
  exact ⟨e,nonce,_,short,refuses sent,rfl⟩

theorem missingServed (serves : Serves N d server) (known : N.trade.Known slot)
    (missing : d.files slot = none) {output : Path} {final}
    (ran : Complete Host.handle Host.handle (meeting (S.connected sessionKey slot.clientKey)
      ((S.connected sessionKey slot.clientKey).downloadClient slot.fileId slot.fileKey output) client server)
      final) :
    heard (saved final.left.host) final.left.program = .refused ∧ Serves N d final.right.host.ended := by
  let T := S.connected sessionKey slot.clientKey
  have small := requestSmall known
  obtain ⟨nonce,asks⟩ := downloadAsks T output small
  have absent := missingThere serves.holds known missing
  obtain ⟨e,answer,last,short,sent,still⟩ := @missingSent server slot T
    (Host.freeUnlocked serves.free _) absent
  rw [← requestTurns T known] at sent
  have fits := errorSmall e short
  have read := @responseTaken _ T (T.saving output) {client with drawn := client.drawn + 1} answer _ fits
  obtain ⟨what,taken⟩ := savingTakes (S := T) output (frameRange fits) (.inr ⟨e,rfl⟩)
  rw [taken] at read
  have same := endsSo ran (Runs.leadsTrans (commandArrives small asks sent) (leftTurn read)) rfl rfl
  refine ⟨by rw [same]; rfl,servesEnded serves ran ?_⟩
  rw [same]
  exact still ▸ serves.holds

def judged (T : Session) : Option Key32 → Bytes → Party Unit
  | none => T.registerKey
  | some _ => T.rotateKey

theorem challengeSent (T : Session) (old : Option Key32) (server : Host) :
    ∃ (m : Bytes) (nonce : Nonce) (t : Host), m.length = 64 ∧ t.disk = server.disk ∧
      Advances Host.handle (T.dispatch (.auth (if old.isSome then 2 else 1))) server []
        (Frame.frame T.cipher T.sessionKey nonce m) (T.readEncryptDataInto >>= judged T old) t := by
  let m := T.hashes.sha512 (server.random server.drawn 64).val
  have long : m.length = 64 := T.hashes.sha512Length _
  obtain ⟨nonce,sent⟩ := frameWritten (S := T) (h := {server with drawn := server.drawn + 1}) m
    (by rw [long]; decide)
  refine ⟨m,nonce,{server with drawn := server.drawn + 1 + 1},long,rfl,?_⟩
  simp only [dispatch]
  unfold handleAuthKeys
  refine advancesQuiet (Host.drawAdvances 64) (advancesLast sent ?_)
  cases old with
  | none =>
    rw [if_pos (by decide)]
    exact .rest _ _
  | some oldKey =>
    simp only [Option.isSome_some,if_true]
    rw [if_neg (by decide)]
    exact .rest _ _

theorem authMeets (T : Session) (signing : Signing) (pri pub : Key32) (old : Option Key32)
    (client server : Host) : ∃ (m body : Bytes) (g t : Host), m.length = 64 ∧
      authBody m (signing.sign pri m).val pub old = .ok body ∧ t.disk = server.disk ∧
      Reach Host.handle Host.handle (meeting T (T.authClient signing pri pub old) client server)
        ⟨⟨T.authOutcome,g⟩,⟨judged T old body,t⟩,[],[]⟩ := by
  have command : nonceLen + (Command.serialize (.auth (if old.isSome then 2 else 1))).length + tagLen ≤
      Frame.maxFrameLength := by
    simp [Command.serialize,Postcard.varint,nonceLen,tagLen,Frame.maxFrameLength]
  obtain ⟨asked,asks⟩ := frameWritten (S := T) (h := client)
    (Command.serialize (.auth (if old.isSome then 2 else 1))) (frameRange command)
  obtain ⟨m,nonce,t,long,still,challenged⟩ := challengeSent T old server
  obtain ⟨body,made,short⟩ := @bodyFits m (signing.sign pri m).val pub long (signing.sign pri m).property old
  have fits : nonceLen + body.length + tagLen ≤ Frame.maxFrameLength := by
    unfold nonceLen tagLen Frame.maxFrameLength
    omega
  have requested : Advances Host.handle (T.authClient signing pri pub old) client []
      (Frame.frame T.cipher T.sessionKey asked (Command.serialize (.auth (if old.isSome then 2 else 1))))
      (T.awaitChallenge signing pri pub old) {client with drawn := client.drawn + 1} := by
    unfold authClient
    exact advancesLast asks (.rest _ _)
  obtain ⟨other,signs⟩ := frameWritten (S := T) (h := {client with drawn := client.drawn + 1}) body
    (frameRange fits)
  have answered : Advances Host.handle (T.awaitChallenge signing pri pub old)
      {client with drawn := client.drawn + 1} (Frame.frame T.cipher T.sessionKey nonce m)
      (Frame.frame T.cipher T.sessionKey other body) T.authOutcome
      {client with drawn := client.drawn + 1 + 1} := by
    unfold awaitChallenge
    refine advancesTaken (frameTaken (by rw [long]; decide)) ?_
    unfold answerAuth
    dsimp only
    rw [made,Program.liftDone,Program.bindDone]
    exact advancesLast signs (.rest _ _)
  have read : Advances Host.handle (T.readEncryptDataInto >>= judged T old) t
      (Frame.frame T.cipher T.sessionKey other body) [] (judged T old body) t :=
    advancesTaken (frameTaken fits) (.rest _ _)
  exact ⟨m,body,_,t,long,made,still,Runs.leadsTrans (commandArrives command requested challenged)
    (Runs.leadsTrans (leftTurn answered) (rightTurn read))⟩

def settled : Response → Reply
  | .error _ => .refused
  | _ => .done

def Responds (T : Session) (p : Party Unit) (t last : Host) (reply : Reply) : Prop :=
  ∃ (nonce : Nonce) (response : Response),
    (response = .ack ∨ (∃ header, response = .warn header) ∨ ∃ e, response = .error e) ∧
    nonceLen + response.encode.length + tagLen ≤ Frame.maxFrameLength ∧ settled response = reply ∧
    Advances Host.handle p t [] (Frame.frame T.cipher T.sessionKey nonce response.encode)
      (.done (.ok ())) last

theorem respondsThen {T : Session} {p q : Party Unit} {t h : Host} {response : Response}
    (kind : response = .ack ∨ (∃ header, response = .warn header) ∨ ∃ e, response = .error e)
    (small : nonceLen + response.encode.length + tagLen ≤ Frame.maxFrameLength)
    (leads : Advances Host.handle p t [] [] q h)
    (sends : q = T.writeEncryptFrameInto response.encode ∨ q = T.sendClosing response.encode) :
    Responds T p t {h with drawn := h.drawn + 1} (settled response) := by
  rcases sends with rfl | rfl
  · obtain ⟨nonce,sent⟩ := frameWritten (S := T) (h := h) response.encode (frameRange small)
    exact ⟨nonce,response,kind,small,rfl,advancesTrans leads sent⟩
  · obtain ⟨nonce,sent⟩ := closingWritten (S := T) (h := h) response.encode (frameRange small)
    exact ⟨nonce,response,kind,small,rfl,advancesTrans leads sent⟩

theorem authEnds {T : Session} {program : Party Unit} {final} {g t last : Host} {p : Party Unit}
    {reply : Reply}
    (ran : Complete Host.handle Host.handle (meeting T program client server) final)
    (reached : Reach Host.handle Host.handle (meeting T program client server)
      ⟨⟨T.authOutcome,g⟩,⟨p,t⟩,[],[]⟩) (responds : Responds T p t last reply) :
    heard (fun _ => .done) final.left.program = reply ∧ final.right.host = last := by
  obtain ⟨nonce,response,kind,small,rfl,sent⟩ := responds
  have understood := authorizationTakes (S := T) (frameRange small) kind
  obtain ⟨outcome,taken,told⟩ : ∃ outcome : Outcome Unit,
      T.authorization.rest response.encode = .done outcome ∧
      heard (fun _ => .done) (.done outcome : Party Unit) = settled response := by
    cases response with
    | error e =>
      obtain ⟨what,taken⟩ := understood
      exact ⟨_,taken,rfl⟩
    | ack => exact ⟨_,understood.2,rfl⟩
    | warn header => exact ⟨_,understood.2,rfl⟩
    | _ => simp at kind
  have read := @responseTaken _ T T.authorization g nonce response small
  rw [taken] at read
  have same := endsSo ran (Runs.leadsTrans reached (Runs.leadsTrans (rightTurn sent) (leftTurn read))) rfl rfl
  rw [same]
  exact ⟨told,rfl⟩

theorem bodyRegisters {T : Session} {m key : Bytes} {signature : {b : Bytes // b.length = 64}}
    (long : m.length = 64) (size : key.length = 32) (point : T.ed25519.isPoint key = true)
    (strict : T.ed25519.verifyStrict key m signature.val = true) :
    T.registerKey (m ++ signature.val ++ key) = T.createKeyDirs key := by
  have one : splitAt (m ++ signature.val ++ key) 64 = .ok (m,signature.val ++ key) := by
    rw [List.append_assoc,splitAtOk (by simp only [List.length_append]; omega),List.take_left' long,
      List.drop_left' long]
  have two : splitAt (signature.val ++ key) 64 = .ok (signature.val,key) := by
    have signed := signature.property
    rw [splitAtOk (by simp only [List.length_append]; omega),List.take_left' signed,List.drop_left' signed]
  have valid : validateSignature T.ed25519 key signature.val m = .ok key := by
    have parsed : verifyingKey T.ed25519 key = .ok key := by
      rw [verifyingKey,if_neg (by simp [size]),if_pos point]
    rw [validateSignature,if_neg (by simp [signature.property]),parsed]
    exact if_pos strict
  unfold registerKey
  simp only [one,two,Program.liftDone,Program.bindDone,valid]

theorem unlistedAt {disk : Fs} {key : Bytes} (holds : Represents N disk d) (known : N.key key)
    (unlisted : key ∉ d.listed) : disk.get (S.authPath key) = none := by
  by_contra there
  obtain ⟨node,found⟩ := Option.ne_none_iff_exists'.mp there
  have inside : Inside S (S.authPath key ++ []) := insideAuth key []
  rw [List.append_nil] at inside
  obtain ⟨k,member,same,-⟩ := liesListed (holds.only _ _ inside found) (List.prefix_refl _)
  have mine : key = k := authSame N.distinct (N.keySize _ known) (N.keySize _ (holds.sound.listed k member))
    (List.prefix_refl _) (same ▸ List.prefix_refl _)
  exact unlisted (mine ▸ member)

theorem unstoredAt {disk : Fs} {key : Bytes} (holds : Represents N disk d) (known : N.key key)
    (unstored : key ∉ d.stored) : disk.get (S.storagePath key) = none := by
  by_contra there
  obtain ⟨node,found⟩ := Option.ne_none_iff_exists'.mp there
  have lies := holds.only _ _ (@insideSlot S ⟨key,"",""⟩ _ (List.prefix_refl _)) found
  generalize same : S.storagePath key = q at lies
  have depth := storageLength S key
  rw [same] at depth
  cases lies with
  | @listed k member =>
    have above : S.storagePath key <+: S.authPath k := by rw [same]
    exact storageApart above (List.prefix_refl _)
  | @stored k member =>
    have mine : key = k := storageDistinct N.distinct (N.keySize _ known)
      (N.keySize _ (holds.sound.stored k member)) same
    exact unstored (mine ▸ member)
  | @dir other held found => rw [dirLength] at depth; omega
  | @file other held found => rw [fileLength] at depth; omega
  | @meta_ other held found => rw [metaLength] at depth; omega

theorem keyDirsMade {disk : Fs} {key : Bytes} (holds : Represents N disk d) (known : N.key key) :
    let auth := disk.createDirAll (S.authPath key)
    let both := auth.2.createDirAll (S.storagePath key)
    auth.1 = true ∧ both.1 = true ∧ Represents N both.2
      {d with listed := insert key d.listed, stored := insert key d.stored} := by
  intro auth both
  have clearAuth : ∀ q, q <+: S.authPath key → disk.get q = none ∨ disk.isDir q = true := by
    intro q above
    rw [authPath,List.prefix_concat_iff] at above
    rcases above with rfl | outside
    · have inside : Inside S (S.authPath key ++ []) := insideAuth key []
      rw [List.append_nil] at inside
      exact clearAt holds inside (by change (S.authPath key).length ≠ _; rw [authLength]; omega)
    · exact .inr (dirAbove holds.rooted holds.authorised outside)
  have made : auth = (true,disk.makeDirs (S.authPath key).inits) := Fs.createDirAllClear clearAuth
  have effect := Fs.createDirAllEffect disk (S.authPath key)
  have rooted : auth.2.Rooted := Fs.createDirAllRooted holds.rooted _
  have clearStorage : ∀ q, q <+: S.storagePath key → auth.2.get q = none ∨ auth.2.isDir q = true := by
    intro q above
    rw [storagePath,List.prefix_concat_iff] at above
    rcases above with rfl | outside
    · have here : auth.2.get (S.storagePath key) = disk.get (S.storagePath key) :=
        Fs.createDirAllElsewhere fun above => storageApart above (List.prefix_refl _)
      have inside : Inside S (S.storagePath key) := @insideSlot S ⟨key,"",""⟩ _ (List.prefix_refl _)
      change auth.2.get (S.storagePath key) = none ∨ auth.2.isDir (S.storagePath key) = true
      unfold Fs.isDir
      rw [here]
      exact clearAt holds inside (by rw [storageLength]; omega)
    · exact .inr (Fs.createDirAllStays (dirAbove holds.rooted holds.storage outside))
  have all : both = (true,auth.2.makeDirs (S.storagePath key).inits) := Fs.createDirAllClear clearStorage
  refine ⟨by rw [made],by rw [all],representsRegistered holds known (Fs.createDirAllRooted rooted _) ?_ ?_ ?_⟩
  · exact Fs.createDirAllStays (Fs.madeAbove clearAuth (List.prefix_refl _))
  · exact Fs.madeAbove clearStorage (List.prefix_refl _)
  · intro q
    rcases Fs.createDirAllEffect auth.2 (S.storagePath key) q with same | ⟨missing,dir,above⟩
    · rcases effect q with before | ⟨missing,dir,above⟩
      · exact .inl (same.trans before)
      · exact .inr ⟨missing,same.trans dir,.inl above⟩
    · rcases effect q with before | ⟨-,dir',-⟩
      · exact .inr ⟨before.symm.trans missing,dir,.inr above⟩
      · rw [missing] at dir'
        contradiction

theorem lookAdvances {op : Fs.Op} {answer : op.Ret} {h : Host} (found : (h.disk.exec op).1 = answer)
    (still : (h.disk.exec op).2 = h.disk) : Advances Host.handle (fs op) h [] [] (.done (.ok answer)) h := by
  have asked := Host.fsAdvances (h := h) op
  rw [found,still] at asked
  exact asked

theorem listedSeen {disk : Fs} {key : Bytes} (holds : Represents N disk d) (known : N.key key) :
    (disk.get (S.authPath key)).isSome = decide (key ∈ d.listed) ∧
      disk.isDir (S.authPath key) = decide (key ∈ d.listed) ∧
      (disk.get (S.storagePath key)).isSome = decide (key ∈ d.stored) := by
  refine ⟨?_,?_,?_⟩
  · by_cases listed : key ∈ d.listed
    · simp [holds.lies _ _ (.listed listed),listed]
    · simp [unlistedAt holds known listed,listed]
  · by_cases listed : key ∈ d.listed
    · simp [Fs.isDir,holds.lies _ _ (.listed listed),listed]
    · simp [Fs.isDir,unlistedAt holds known listed,listed]
  · by_cases stored : key ∈ d.stored
    · simp [holds.lies _ _ (.stored stored),stored]
    · simp [unstoredAt holds known stored,stored]

theorem looksAnswered {key : Bytes} (holds : Represents N server.disk d) (known : N.key key) :
    Advances Host.handle (fs (.exists_ (S.authPath key))) server [] []
        (.done (.ok (decide (key ∈ d.listed)))) server ∧
      Advances Host.handle (fs (.isDir (S.authPath key))) server [] []
        (.done (.ok (decide (key ∈ d.listed)))) server ∧
      Advances Host.handle (fs (.exists_ (S.storagePath key))) server [] []
        (.done (.ok (decide (key ∈ d.stored)))) server ∧
      Advances Host.handle (andExists (decide (key ∈ d.stored)) (S.authPath key)) server [] []
        (.done (.ok (decide (key ∈ d.stored) && decide (key ∈ d.listed)))) server := by
  obtain ⟨listed,isDir,stored⟩ := listedSeen holds known
  have first : Advances Host.handle (fs (.exists_ (S.authPath key))) server [] []
      (.done (.ok (decide (key ∈ d.listed)))) server := lookAdvances listed rfl
  refine ⟨first,lookAdvances isDir rfl,lookAdvances stored rfl,?_⟩
  unfold andExists
  cases decide (key ∈ d.stored) with
  | false => exact .rest _ _
  | true => exact first

theorem registrationRefused {key : Bytes} (holds : Represents N server.disk d) (known : N.key key)
    (closed : S.enableClientWhitelist = false) (unlisted : key ∉ d.listed) :
    ∃ last, Responds (S.connected sessionKey clientKey) ((S.connected sessionKey clientKey).createKeyDirs key)
      server last .refused ∧ last.disk = server.disk := by
  obtain ⟨first,second,-⟩ := looksAnswered holds known
  have small := errorSmall
    ⟨403,"Client not authorized, please contact the admin, provider or ssh into the server"⟩ (by decide)
  refine ⟨_,respondsThen (h := server) (.inr (.inr ⟨_,rfl⟩)) small ?_ (.inr rfl),rfl⟩
  unfold createKeyDirs
  refine advancesQuiet first (advancesQuiet second ?_)
  rw [if_pos ⟨closed,decide_eq_false unlisted⟩]
  exact .rest _ _

theorem registrationDone {key : Bytes} (holds : Represents N server.disk d) (known : N.key key)
    (admitted : S.enableClientWhitelist = true ∨ key ∈ d.listed) :
    ∃ last, Responds (S.connected sessionKey clientKey) ((S.connected sessionKey clientKey).createKeyDirs key)
        server last .done ∧
      Represents N last.disk {d with listed := insert key d.listed, stored := insert key d.stored} := by
  let T := S.connected sessionKey clientKey
  obtain ⟨first,second,third,fourth⟩ := looksAnswered holds known
  have open_ : ¬ (T.enableClientWhitelist = false ∧ decide (key ∈ d.listed) = false) := by
    rintro ⟨closed,unlisted⟩
    rcases admitted with free | among
    · exact absurd (free.symm.trans closed) (by decide)
    · exact of_decide_eq_false unlisted among
  have proper : ¬ (decide (key ∈ d.listed) = true ∧ decide (key ∈ d.listed) = false) := by
    rintro ⟨yes,no⟩
    exact absurd (yes.symm.trans no) (by decide)
  by_cases both : key ∈ d.stored ∧ key ∈ d.listed
  · have small : nonceLen + (Response.warn
        ⟨409,"Client Auth & Storage directory already exists, not required"⟩).encode.length + tagLen ≤
        Frame.maxFrameLength := errorSmall ⟨409,_⟩ (by decide)
    refine ⟨_,respondsThen (h := server) (.inr (.inl ⟨_,rfl⟩)) small ?_ (.inr rfl),?_⟩
    · unfold createKeyDirs
      refine advancesQuiet first (advancesQuiet second ?_)
      rw [if_neg open_,if_neg proper]
      refine advancesQuiet third (advancesQuiet fourth ?_)
      rw [if_pos (by simp [both])]
      exact .rest _ _
    · rw [Finset.insert_eq_of_mem both.1,Finset.insert_eq_of_mem both.2]
      exact holds
  · obtain ⟨authMade,storageMade,represents⟩ := keyDirsMade holds known
    let made : Host := {server with
      disk := ((server.disk.createDirAll (S.authPath key)).2.createDirAll (S.storagePath key)).2}
    refine ⟨_,respondsThen (h := made) (.inl rfl) (by decide) ?_ (.inl rfl),represents⟩
    unfold createKeyDirs
    refine advancesQuiet first (advancesQuiet second ?_)
    rw [if_neg open_,if_neg proper]
    refine advancesQuiet third (advancesQuiet fourth ?_)
    rw [if_neg (by simpa using both)]
    refine advancesQuiet (Host.fsAdvances _) (advancesQuiet (Host.fsAdvances _) ?_)
    rw [if_pos ⟨authMade,storageMade⟩]
    exact .rest _ _

theorem registrationAnswers {key : Bytes} (holds : Represents N server.disk d) (known : N.key key) :
    ∃ last, Responds (S.connected sessionKey clientKey) ((S.connected sessionKey clientKey).createKeyDirs key)
        server last (d.answer S.enableClientWhitelist (.register key)) ∧
      Represents N last.disk (d.next S.enableClientWhitelist (.register key)) := by
  by_cases admitted : S.enableClientWhitelist = true ∨ key ∈ d.listed
  · have reply : d.answer S.enableClientWhitelist (.register key) = .done := if_pos admitted
    have after : d.next S.enableClientWhitelist (.register key) =
        {d with listed := insert key d.listed, stored := insert key d.stored} := if_pos admitted
    rw [reply,after]
    exact registrationDone holds known admitted
  · have reply : d.answer S.enableClientWhitelist (.register key) = .refused := if_neg admitted
    have after : d.next S.enableClientWhitelist (.register key) = d := if_neg admitted
    rw [reply,after]
    obtain ⟨closed,unlisted⟩ := not_or.mp admitted
    obtain ⟨last,responds,still⟩ := registrationRefused holds known (Bool.eq_false_of_not_eq_true closed)
      unlisted
    exact ⟨last,responds,still ▸ holds⟩

theorem registerServed {signing : Signing} {pri : Key32} (honest : S.ed25519 = signing.toEd25519)
    (strict : ∀ k m, m.length = 64 → S.ed25519.verifyStrict (signing.publicKey k).val m
      (signing.sign k m).val = true)
    (serves : Serves N d server) (known : N.key (signing.publicKey pri).val) {final}
    (ran : Complete Host.handle Host.handle (meeting (S.connected sessionKey clientKey)
      ((S.connected sessionKey clientKey).authClient signing pri (signing.publicKey pri) none) client server)
      final) :
    heard (fun _ => .done) final.left.program =
        d.answer S.enableClientWhitelist (.register (signing.publicKey pri).val) ∧
      Serves N (d.next S.enableClientWhitelist (.register (signing.publicKey pri).val))
        final.right.host.ended := by
  let T := S.connected sessionKey clientKey
  obtain ⟨m,body,g,t,long,made,still,reached⟩ := authMeets T signing pri (signing.publicKey pri) none
    client server
  have parts : registrationBody m (signing.sign pri m).val (signing.publicKey pri) =
      .ok (m ++ (signing.sign pri m).val ++ (signing.publicKey pri).val) :=
    registrationParts long (signing.sign pri m).property
  cases Outcome.ok.inj (made.symm.trans parts)
  have point : T.ed25519.isPoint (signing.publicKey pri).val = true := by
    change S.ed25519.isPoint _ = true
    rw [honest]
    exact signing.publicPoint pri
  have judgedTo := bodyRegisters (T := T) long (signing.publicKey pri).property point (strict pri m long)
  have holds : Represents N t.disk d := still ▸ serves.holds
  obtain ⟨last,responds,represents⟩ := @registrationAnswers S N d t sessionKey clientKey _ holds known
  rw [← judgedTo] at responds
  obtain ⟨reply,same⟩ := authEnds ran reached responds
  exact ⟨reply,servesEnded serves ran (same ▸ represents)⟩

theorem rotationAnswers {old new : Bytes} (holds : Represents N server.disk d)
    (meant : N.trade.meant d (.rotate old new)) (there : old ∈ d.stored) :
    ∃ last, Responds (S.connected sessionKey clientKey)
        ((S.connected sessionKey clientKey).renameKeyDirs old new) server last .done ∧
      Represents N last.disk (d.rotated old new) := by
  let T := S.connected sessionKey clientKey
  obtain ⟨keysMoved,filesMoved⟩ := rotationRenames holds meant there
  let moved := (server.disk.rename (S.authPath old) (S.authPath new)).2
  let last : Host := {server with disk := (moved.rename (S.storagePath old) (S.storagePath new)).2}
  have stored : server.disk.get (S.storagePath old) = some .dir := holds.lies _ _ (.stored there)
  have registered : Advances Host.handle (fs (.exists_ (T.storagePath old))) server [] []
      (.done (.ok true)) server := by
    refine lookAdvances ?_ rfl
    change (server.disk.get (S.storagePath old)).isSome = true
    rw [stored]
    rfl
  have renamed : S.Renamed server.disk last.disk .works .works old new :=
    ⟨by simp [stored],keysMoved,filesMoved,rfl⟩
  refine ⟨_,respondsThen (h := last) (.inl rfl) (by decide) ?_ (.inl rfl),
    representsRotated holds meant there renamed⟩
  unfold renameKeyDirs
  refine advancesQuiet registered ?_
  rw [if_pos rfl]
  refine advancesQuiet (Host.fsAdvances _) (advancesQuiet (Host.fsAdvances _) ?_)
  rw [if_pos ⟨keysMoved,filesMoved⟩]
  exact .rest _ _

theorem rotationFails {old new : Bytes} (holds : Represents N server.disk d) (known : N.key old)
    (missing : old ∉ d.stored) :
    Advances Host.handle ((S.connected sessionKey clientKey).renameKeyDirs old new) server [] []
      (.done (.err "User not registered, not found")) server := by
  have absent : server.disk.get (S.storagePath old) = none := unstoredAt holds known missing
  have unregistered : Advances Host.handle (fs (.exists_ (S.storagePath old))) server [] []
      (.done (.ok false)) server := by
    refine lookAdvances ?_ rfl
    change (server.disk.get (S.storagePath old)).isSome = false
    rw [absent]
    rfl
  unfold renameKeyDirs
  refine advancesQuiet unregistered ?_
  rw [if_neg (by decide)]
  exact .rest _ _

theorem outcomeWaits (T : Session) : ∃ next message,
    T.authOutcome = .call (PortCall.recv 4) next ∧ next (.error .eof) = .done (.err message) :=
  ⟨_,_,rfl,rfl⟩

theorem rotateServed {signing : Signing} {oldPri newPri : Key32} (honest : S.ed25519 = signing.toEd25519)
    (strict : ∀ k m, m.length = 64 → S.ed25519.verifyStrict (signing.publicKey k).val m
      (signing.sign k m).val = true) (serves : Serves N d server)
    (meant : N.trade.meant d (.rotate (signing.publicKey oldPri).val (signing.publicKey newPri).val)) {final}
    (ran : Complete Host.handle Host.handle (meeting (S.connected sessionKey clientKey)
      ((S.connected sessionKey clientKey).authClient signing oldPri (signing.publicKey newPri)
        (some (signing.publicKey oldPri))) client server) final) :
    heard (fun _ => .done) final.left.program = d.answer open_
        (.rotate (signing.publicKey oldPri).val (signing.publicKey newPri).val) ∧
      Serves N (d.next open_ (.rotate (signing.publicKey oldPri).val (signing.publicKey newPri).val))
        final.right.host.ended := by
  let T := S.connected sessionKey clientKey
  obtain ⟨m,body,g,t,long,made,still,reached⟩ := authMeets T signing oldPri (signing.publicKey newPri)
    (some (signing.publicKey oldPri)) client server
  have parts : rotationBody m (signing.sign oldPri m).val (signing.publicKey oldPri)
      (signing.publicKey newPri) = .ok (m ++ (signing.sign oldPri m).val ++ (signing.publicKey oldPri).val ++
        (signing.publicKey newPri).val) := rotationParts long (signing.sign oldPri m).property
  cases Outcome.ok.inj (made.symm.trans parts)
  have point : ∀ k, T.ed25519.isPoint (signing.publicKey k).val = true := by
    intro k
    change S.ed25519.isPoint _ = true
    rw [honest]
    exact signing.publicPoint k
  have names : T.Rotates (m ++ (signing.sign oldPri m).val ++ (signing.publicKey oldPri).val ++
      (signing.publicKey newPri).val) (signing.publicKey oldPri).val (signing.publicKey newPri).val :=
    KeyFiles.bodyRotates long (signing.publicKey oldPri).property (signing.publicKey newPri).property
      (point _) (point _) (strict oldPri m long)
  have judgedTo := rotatesTo names
  have holds : Represents N t.disk d := still ▸ serves.holds
  by_cases there : (signing.publicKey oldPri).val ∈ d.stored
  · have reply : d.answer open_
        (.rotate (signing.publicKey oldPri).val (signing.publicKey newPri).val) = .done := if_pos there
    have after : d.next open_ (.rotate (signing.publicKey oldPri).val (signing.publicKey newPri).val) =
        d.rotated (signing.publicKey oldPri).val (signing.publicKey newPri).val := if_pos there
    rw [reply,after]
    obtain ⟨last,responds,represents⟩ := @rotationAnswers S N d t sessionKey clientKey _ _ holds meant there
    rw [← judgedTo] at responds
    obtain ⟨reply,same⟩ := authEnds ran reached responds
    exact ⟨reply,servesEnded serves ran (same ▸ represents)⟩
  · have reply : d.answer open_
        (.rotate (signing.publicKey oldPri).val (signing.publicKey newPri).val) = .refused := if_neg there
    have after : d.next open_ (.rotate (signing.publicKey oldPri).val (signing.publicKey newPri).val) = d :=
      if_neg there
    rw [reply,after]
    -- the server fails without a word, and the client finds the connection closed
    have failed := @rotationFails S N d t sessionKey clientKey _ (signing.publicKey newPri).val holds
      meant.1 there
    rw [← judgedTo] at failed
    obtain ⟨next,message,waits,gives⟩ := outcomeWaits T
    rw [waits] at reached
    have closed : Reach Host.handle Host.handle (meeting T _ client server)
        ⟨⟨next (.error .eof),g⟩,⟨.done (.err "User not registered, not found"),t⟩,[],[]⟩ :=
      Runs.leadsTrans reached (Runs.leadsTrans (rightTurn failed) (leftEof rfl (by decide)))
    have same := endsSo ran closed gives rfl
    refine ⟨by rw [same,gives]; rfl,servesEnded serves ran ?_⟩
    rw [same]
    exact holds

end

section
variable {S : Session} {signing : Signing}

def Owned (signing : Signing) : Request → Prop
  | .register key => ∃ pri, key = (signing.publicKey pri).val
  | .rotate old new => ∃ oldPri newPri,
      old = (signing.publicKey oldPri).val ∧ new = (signing.publicKey newPri).val
  | _ => True

theorem exchanged (server : Host) {request : Request} (owned : Owned signing request) :
    ∃ reply after, Exchange S signing server (request,reply) after := by
  have bare := sampleHost ⟨[]⟩
  cases request with
  | register key =>
    obtain ⟨pri,rfl⟩ := owned
    obtain ⟨final,ran⟩ := completes Host.handle Host.handle
      (meeting (S.connected [] (signing.publicKey pri).val)
        ((S.connected [] (signing.publicKey pri).val).authClient signing pri (signing.publicKey pri) none)
        bare server)
    exact ⟨_,_,.register ran⟩
  | rotate old new =>
    obtain ⟨oldPri,newPri,rfl,rfl⟩ := owned
    obtain ⟨final,ran⟩ := completes Host.handle Host.handle
      (meeting (S.connected [] (signing.publicKey oldPri).val)
        ((S.connected [] (signing.publicKey oldPri).val).authClient signing oldPri (signing.publicKey newPri)
          (some (signing.publicKey oldPri))) bare server)
    exact ⟨_,_,.rotate ran⟩
  | push slot held =>
    let client := sampleHost ⟨[([held.fileName],.file held.content)]⟩
    have stored : client.disk.content [held.fileName] = some held.content := by
      simp [client,sampleHost,Fs.content,Fs.get]
    obtain ⟨final,ran⟩ := completes Host.handle Host.handle (meeting (S.connected [] slot.clientKey)
      ((S.connected [] slot.clientKey).uploadClient [held.fileName] slot.fileKey slot.fileId) client server)
    exact ⟨_,_,.push rfl stored ran⟩
  | pull slot =>
    have room : ∀ name, Writable (sampleHost ⟨[]⟩).disk [] name := by
      intro name
      exact ⟨rfl,by simp [sampleHost,Fs.isDir,Fs.get]⟩
    obtain ⟨final,ran⟩ := completes Host.handle Host.handle (meeting (S.connected [] slot.clientKey)
      ((S.connected [] slot.clientKey).downloadClient slot.fileId slot.fileKey []) (sampleHost ⟨[]⟩) server)
    exact ⟨_,_,.pull room ran⟩
  | status =>
    obtain ⟨final,ran⟩ := completes Host.handle Host.handle (meeting (S.connected [] [])
      (S.connected [] []).getServerStatus bare server)
    exact ⟨_,_,.status ran⟩

theorem runThere (requests : List Request) (owned : ∀ request ∈ requests, Owned signing request)
    (server : Host) : ∃ events last, Traced (Exchange S signing) server events last ∧
      events.map Prod.fst = requests := by
  induction requests generalizing server with
  | nil => exact ⟨[],server,.none server,rfl⟩
  | cons request rest ih =>
    obtain ⟨reply,after,step⟩ := @exchanged S signing server request (owned request List.mem_cons_self)
    obtain ⟨events,last,ran,same⟩ := ih
      (fun other member => owned other (List.mem_cons_of_mem _ member)) after
    exact ⟨(request,reply) :: events,last,.more step ran,by rw [List.map_cons,same]⟩

variable {N : Names S} (honest : S.ed25519 = signing.toEd25519)
  (strict : ∀ k m, m.length = 64 → S.ed25519.verifyStrict (signing.publicKey k).val m
    (signing.sign k m).val = true)
include honest strict

theorem serverImplements :
    (object N.trade S.enableClientWhitelist).Implements (Exchange S signing) (Serves N) := by
  intro d server request reply after serves meant exchange
  change reply = d.answer S.enableClientWhitelist request ∧
    Serves N (d.next S.enableClientWhitelist request) after
  cases exchange with
  | register ran => exact registerServed honest strict serves meant ran
  | rotate ran => exact rotateServed honest strict serves meant ran
  | push named stored ran => exact pushServed serves meant named stored ran
  | @pull sessionKey slot output client final room ran =>
    cases found : d.files slot with
    | some held =>
      rw [answerFound found]
      exact foundServed serves found room ran
    | none =>
      rw [answerMissing found]
      exact missingServed serves meant found ran
  | status ran => exact statusServed serves ran

/- The whole server, over any run of connections: it is the depot. -/
theorem servesDepot {d : Depot} {server last : Host} {events : List (Request × Reply)}
    (ran : Traced (Exchange S signing) server events last) (serves : Serves N d server)
    (orderly : (object N.trade S.enableClientWhitelist).Orderly d (events.map Prod.fst)) :
    events.map Prod.snd = (object N.trade S.enableClientWhitelist).answers d (events.map Prod.fst) ∧
      Serves N ((object N.trade S.enableClientWhitelist).after d (events.map Prod.fst)) last :=
  Object.implementsRun _ (serverImplements honest strict) ran serves orderly

/- What was pushed is what its client pulls, under whatever key it has by then. -/
theorem pushedIsPulled {d : Depot} {server last : Host} {slot : Slot} {held : Held} {pushed pulled : Reply}
    {between : List (Request × Reply)}
    (ran : Traced (Exchange S signing) server
      ((.push slot held,pushed) :: between ++ [(.pull (followAll slot (between.map Prod.fst)),pulled)]) last)
    (serves : Serves N d server)
    (orderly : (object N.trade S.enableClientWhitelist).Orderly d
      (.push slot held :: between.map Prod.fst ++ [.pull (followAll slot (between.map Prod.fst))]))
    (spares : Spares slot (between.map Prod.fst)) : pushed = .done ∧ pulled = .file held := by
  let O := object N.trade S.enableClientWhitelist
  let there := followAll slot (between.map Prod.fst)
  have names : ((.push slot held,pushed) :: between ++ [(.pull there,pulled)] :
      List (Request × Reply)).map Prod.fst = .push slot held :: between.map Prod.fst ++ [.pull there] := by
    simp
  obtain ⟨replies,-⟩ := Object.implementsRun O (serverImplements honest strict) ran serves (names ▸ orderly)
  rw [names,Object.answersAppend] at replies
  obtain ⟨meant,rest⟩ := (O.orderlyAppend.mp orderly).1
  have sound := @soundNext N.trade d S.enableClientWhitelist (.push slot held) serves.holds.sound meant
  have kept := followKept pushedFile sound rest spares
  have answer : O.answer (O.after d (.push slot held :: between.map Prod.fst)) (.pull there) = .file held :=
    @answerFound _ _ _ S.enableClientWhitelist kept
  rw [Object.answers,Object.answers,Object.answers,answer,List.map_append,List.map_cons,List.map_cons,
    List.map_nil,List.cons_append,List.cons_append] at replies
  obtain ⟨first,tail⟩ := List.cons.inj replies
  have ends := congrArg List.getLast? tail
  rw [List.getLast?_concat,List.getLast?_concat] at ends
  exact ⟨first,Option.some.inj ends⟩

/- A pull gives back the last push to its slot, and is refused if there never was one. -/
theorem pullReplies {d : Depot} {server last : Host} {slot : Slot} {reply : Reply}
    {before : List (Request × Reply)}
    (ran : Traced (Exchange S signing) server (before ++ [(.pull slot,reply)]) last)
    (serves : Serves N d server) (nothing : ∀ other, d.files other = none)
    (orderly : (object N.trade S.enableClientWhitelist).Orderly d
      (before.map Prod.fst ++ [.pull slot])) :
    (∀ held, reply = .file held ↔ LastPushed (before.map Prod.fst) slot held) ∧
      (reply = .refused ↔ ∀ origin held first between,
        before.map Prod.fst = first ++ .push origin held :: between → followAll origin between ≠ slot) := by
  let O := object N.trade S.enableClientWhitelist
  have names : (before ++ [(.pull slot,reply)] : List (Request × Reply)).map Prod.fst =
      before.map Prod.fst ++ [.pull slot] := by
    simp
  obtain ⟨replies,-⟩ := Object.implementsRun O (serverImplements honest strict) ran serves (names ▸ orderly)
  rw [names,Object.answersAppend,List.map_append] at replies
  have start := (O.orderlyAppend.mp orderly).1
  have exactly := fun held => @filesExactly _ d slot held _ _ nothing serves.holds.sound start
  have never := @filesNever _ d slot _ _ nothing serves.holds.sound start
  have answered : reply = (O.after d (before.map Prod.fst)).answer S.enableClientWhitelist (.pull slot) := by
    have ends := congrArg List.getLast? replies
    rw [List.map_singleton,List.getLast?_concat,Object.answers,Object.answers,List.getLast?_concat] at ends
    exact Option.some.inj ends
  rw [answered]
  exact ⟨fun held => answersFile.trans (exactly held),answersRefused.trans never⟩

end

open Whitelist (sampleServer sampleDistinct)
open Handshake (flatKey)

def openServer : Session :=
  {sampleServer with ed25519 := echoSigning.toEd25519, enableClientWhitelist := true}

def sampleNames : Names openServer where
  key k := k.length = 32
  fileKey s := s = "ronak"
  fileId s := s = "4a43afa64e9342fc8320e63a43eb193b"
  keySize _ size := size
  point _ _ := rfl
  fileKeySize := by
    rintro _ rfl
    decide
  fileIdSize := by
    rintro _ rfl
    decide
  distinct := ⟨sampleDistinct.sha512,sampleDistinct.sha256⟩
  fileKeys a b one other _ := one.trans other.symm
  fileIds a b one other _ := one.trans other.symm

def emptyDepot : Depot := ⟨∅,∅,fun _ => none⟩

def emptyHost : Host := sampleHost ⟨[(openServer.getStorageDir,.dir),
  (openServer.getAuthorizedClientDir,.dir),(["home",".rdrive"],.dir),(["home"],.dir)]⟩

theorem emptyServes : Serves sampleNames emptyDepot emptyHost where
  holds := {
    rooted := Fs.rootedEntries (by decide +kernel)
    storage := by decide +kernel
    authorised := by decide +kernel
    lies := by
      intro q node lies
      cases lies with
      | listed member => exact absurd member (Finset.notMem_empty _)
      | stored member => exact absurd member (Finset.notMem_empty _)
      | dir found => contradiction
      | file found => contradiction
      | meta_ found => contradiction
    only := by
      intro q node inside found
      have known : q = [] ∨ q ∈ emptyHost.disk.entries.map Prod.fst := by
        by_cases root : q = []
        · exact .inl root
        · rw [Fs.get,if_neg root,Option.map_eq_some_iff] at found
          obtain ⟨e,among,-⟩ := found
          have named := List.find?_some among
          exact .inr (List.mem_map.mpr ⟨e,List.mem_of_find?_eq_some among,of_decide_eq_true named⟩)
      have outside : ∀ p ∈ [] :: emptyHost.disk.entries.map Prod.fst,
          ¬ ((openServer.getStorageDir <+: p ∧ p ≠ openServer.getStorageDir) ∨
            (openServer.getAuthorizedClientDir <+: p ∧ p ≠ openServer.getAuthorizedClientDir)) := by
        decide +kernel
      refine absurd inside (outside q ?_)
      rcases known with rfl | among
      · exact List.mem_cons_self
      · exact List.mem_cons_of_mem _ among
    sound := by
      refine ⟨fun key member => ?_,fun key member => ?_,fun slot held found => ?_⟩
      · exact absurd member (Finset.notMem_empty _)
      · exact absurd member (Finset.notMem_empty _)
      · contradiction }
  free _ := ⟨rfl,rfl⟩
  dated := by decide

def sampleSlot (byte : UInt8) : Slot := ⟨(flatKey byte).val,"ronak","4a43afa64e9342fc8320e63a43eb193b"⟩

def zeros : Held := ⟨"dummy.bin",List.replicate 1048576 0⟩

theorem zerosDeliverable (byte : UInt8) : Deliverable openServer (sampleSlot byte) zeros where
  plain := ⟨by decide,by decide⟩
  bounded := by
    rw [zeros,List.length_replicate]
    decide
  accepted := sampleAccepted openServer rfl zeros.content (by rw [zeros,List.length_replicate]; decide)
    (by rw [zeros,List.length_replicate]; decide)
  fits := serverFits openServer zeros.content
  even := by
    rw [zeros,List.length_replicate]
    decide

theorem sampleKnown (byte : UInt8) : sampleNames.trade.Known (sampleSlot byte) :=
  ⟨(flatKey byte).property,rfl,rfl⟩

theorem sampleStrict (k : Key32) (m : Bytes) (_ : m.length = 64) : openServer.ed25519.verifyStrict
    (echoSigning.publicKey k).val m (echoSigning.sign k m).val = true := by
  simp [openServer,echoSigning]

def nine : Bytes := (flatKey 9).val
def eight : Bytes := (flatKey 8).val

theorem keysDiffer : nine ≠ eight := by decide

theorem eightVacant {d : Depot}
    (files : d.files = Function.update (fun _ => none) (sampleSlot 9) (some zeros))
    (slot : Slot) (mine : slot.clientKey = eight) : d.files slot = none := by
  have differ : slot ≠ sampleSlot 9 := by
    rintro rfl
    exact keysDiffer mine
  rw [files,Function.update_of_ne differ]

def day : List Request :=
  [.register nine,.push (sampleSlot 9) zeros,.rotate nine eight,.pull (sampleSlot 8),.status]

theorem dayOrderly : (object sampleNames.trade true).Orderly emptyDepot day := by
  refine ⟨(flatKey 9).property,⟨sampleKnown 9,zerosDeliverable 9⟩,?_,sampleKnown 8,trivial,trivial⟩
  refine ⟨(flatKey 9).property,(flatKey 8).property,keysDiffer,fun _ => ⟨?_,eightVacant rfl⟩⟩
  exact Finset.mem_insert_self _ _

theorem dayOwned : ∀ request ∈ day, Owned echoSigning request := by
  intro request member
  simp only [day,List.mem_cons,List.not_mem_nil,or_false] at member
  rcases member with rfl | rfl | rfl | rfl | rfl
  · exact ⟨flatKey 9,rfl⟩
  · trivial
  · exact ⟨flatKey 9,flatKey 8,rfl,rfl⟩
  · trivial
  · trivial

theorem dayAnswers : (object sampleNames.trade true).answers emptyDepot day =
    [.done,.done,.done,.file zeros,.clients 1] := by
  let d := (emptyDepot.next true (.register nine)).next true (.push (sampleSlot 9) zeros)
  have there : nine ∈ d.stored := Finset.mem_insert_self _ _
  have turned : d.next true (.rotate nine eight) = d.rotated nine eight := by
    simp only [next,if_pos there]
  have first : answer true emptyDepot (.register nine) = .done := by
    simp only [answer,true_or,if_true]
  have third : answer true d (.rotate nine eight) = .done := by
    simp only [answer,if_pos there]
  have moved : (d.rotated nine eight).files (sampleSlot 8) = some zeros := by
    have mine : (sampleSlot 8).clientKey = eight := rfl
    simp only [rotated,if_pos mine]
    exact pushedFile
  have one : (d.rotated nine eight).stored.card = 1 := by decide +kernel
  change [answer true emptyDepot (.register nine),.done,answer true d (.rotate nine eight),
    answer true (d.next true (.rotate nine eight)) (.pull (sampleSlot 8)),
    .clients (d.next true (.rotate nine eight)).stored.card.toUInt64] = _
  rw [first,third,turned,answerFound moved,one]
  rfl

theorem dayServed : ∃ events last, Traced (Exchange openServer echoSigning) emptyHost events last ∧
    events.map Prod.fst = day ∧ events.map Prod.snd = [.done,.done,.done,.file zeros,.clients 1] := by
  obtain ⟨events,last,ran,asked⟩ := runThere day dayOwned emptyHost
  have served := (@servesDepot openServer echoSigning sampleNames rfl sampleStrict emptyDepot emptyHost last
    events ran emptyServes (asked ▸ dayOrderly)).1
  refine ⟨events,last,ran,asked,?_⟩
  rw [served,asked]
  exact dayAnswers

def morning : List Request := [.register nine,.push (sampleSlot 9) zeros,.rotate nine eight]

theorem morningPushed : LastPushed morning (sampleSlot 8) zeros := by
  refine ⟨sampleSlot 9,[.register nine],[.rotate nine eight],rfl,by decide +kernel,?_,trivial⟩
  simp

theorem morningDay : morning ++ [.pull (sampleSlot 8),.status] = day := rfl

theorem morningReplies : ∃ before reply last, Traced (Exchange openServer echoSigning) emptyHost
    (before ++ [(.pull (sampleSlot 8),reply)]) last ∧ before.map Prod.fst = morning ∧
      reply = .file zeros := by
  have owned : ∀ request ∈ morning, Owned echoSigning request := fun request member =>
    dayOwned request (morningDay ▸ List.mem_append_left _ member)
  obtain ⟨before,later,ran,asked⟩ := runThere morning owned emptyHost
  obtain ⟨reply,last,pulls⟩ := @exchanged openServer echoSigning later (.pull (sampleSlot 8)) trivial
  have whole := ran.append (.more pulls (.none last))
  have orderly := dayOrderly
  rw [← morningDay,List.append_cons] at orderly
  have most := (Object.orderlyAppend _).mp orderly |>.1
  rw [← asked] at most
  have told := (@pullReplies openServer echoSigning sampleNames rfl sampleStrict emptyDepot emptyHost last
    (sampleSlot 8) reply before whole emptyServes (fun _ => rfl) most).1 zeros
  rw [asked] at told
  exact ⟨before,reply,last,whole,asked,told.mpr morningPushed⟩

/- The first key is used before it is registered, and gone when the file is pulled. -/
def middle : List Request := [.register nine,.rotate nine eight,.status]

theorem middleOrderly : (object sampleNames.trade true).Orderly emptyDepot
    (.push (sampleSlot 9) zeros :: middle ++ [.pull (followAll (sampleSlot 9) middle)]) := by
  have follows : followAll (sampleSlot 9) middle = sampleSlot 8 := by decide +kernel
  rw [follows]
  refine ⟨⟨sampleKnown 9,zerosDeliverable 9⟩,(flatKey 9).property,?_,trivial,sampleKnown 8,trivial⟩
  refine ⟨(flatKey 9).property,(flatKey 8).property,keysDiffer,fun _ => ⟨?_,eightVacant rfl⟩⟩
  exact Finset.mem_insert_self _ _

theorem middleOwned : ∀ request ∈ middle, Owned echoSigning request := by
  intro request member
  simp only [middle,List.mem_cons,List.not_mem_nil,or_false] at member
  rcases member with rfl | rfl | rfl
  · exact ⟨flatKey 9,rfl⟩
  · exact ⟨flatKey 9,flatKey 8,rfl,rfl⟩
  · trivial

theorem middleSpares : Spares (sampleSlot 9) middle := by
  refine ⟨?_,?_,?_,trivial⟩ <;> simp

theorem zerosReturned : ∃ pushed between last, Traced (Exchange openServer echoSigning) emptyHost
    ((.push (sampleSlot 9) zeros,pushed) :: between ++
      [(.pull (followAll (sampleSlot 9) (between.map Prod.fst)),.file zeros)]) last ∧
    between.map Prod.fst = middle := by
  obtain ⟨pushed,after,pushes⟩ := @exchanged openServer echoSigning emptyHost
    (.push (sampleSlot 9) zeros) trivial
  obtain ⟨between,later,ran,asked⟩ := @runThere openServer echoSigning middle middleOwned after
  obtain ⟨pulled,last,pulls⟩ := @exchanged openServer echoSigning later
    (.pull (followAll (sampleSlot 9) (between.map Prod.fst))) trivial
  have whole := (Traced.more pushes ran).append (.more pulls (.none last))
  have orderly := middleOrderly
  rw [← asked] at orderly
  obtain ⟨-,rfl⟩ := @pushedIsPulled openServer echoSigning sampleNames rfl sampleStrict emptyDepot
    emptyHost last (sampleSlot 9) zeros pushed pulled between whole emptyServes orderly
    (asked ▸ middleSpares)
  exact ⟨pushed,between,last,whole,asked⟩

end Depot
end RDrive
