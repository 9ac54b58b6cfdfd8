import RDrive.FrameDecoder
import RDrive.Responses
import RDrive.Serving
import RDrive.Whitelist

/-! How long the server's responses can get. What a client chose comes back in them only
as far as it fitted the frame it came in, a file name by way of metadata. -/
namespace RDrive
open Crypto Header Party Bytes Program Crew

/- One connection, and everything it tried to send. -/
structure Line where
  sessionKey : Bytes
  sent : List Bytes

/- Any number of connections on one disk. An RFC 3339 time is short; all else answers as
it likes, the clients among it. -/
def answering : Env (Port HostSig) (Fs × Line) := fun (s,g) c r (t,h) =>
  match c, r with
  | .send b, _ => t = s ∧ h = {g with sent := g.sent ++ [b]}
  | .here (.fs op), answer => h = g ∧ Answers s op answer t
  | .here .timestamp, now => (t = s ∧ h = g) ∧ now.utf8ByteSize ≤ 64
  | _, _ => t = s ∧ h = g

namespace Session

structure Admitted (maxFileSize : UInt64) (headers : UploadHeader) : Prop where
  arrived : ∃ plain, Frame.Fits plain ∧ Command.deserialize plain = .ok (.upload headers)
  valid : headers.validate maxFileSize = .ok ()

def Filed (S : Session) (disk : Fs) : Prop :=
  ∀ slot b, disk.content (S.metaPath slot) = some b → ∃ limit headers, Admitted limit headers ∧
    (∃ received, headers.fileHash = S.sha256Hex received) ∧
    b = (UploadHeader.metadata S headers).serialize

inductive Reply (S : Session) : Bytes → Prop where
  | ack : Reply S [1]
  | challenge (random : Bytes) : Reply S (S.hashes.sha512 random)
  | refusal (code : UInt16) {message : String} (short : message.utf8ByteSize < 128) :
      Reply S (3 :: ErrorHeader.serialize ⟨code,message⟩)
  | warning (code : UInt16) {message : String} (short : message.utf8ByteSize < 128) :
      Reply S (2 :: WarnHeader.serialize ⟨code,message⟩)
  | uploaded {fileId : String} (short : fileId.utf8ByteSize ≤ 256) (received : Bytes) (time : F32) :
      Reply S (1 :: UploadResponse.serialize ⟨fileId,S.sha256Hex received,time⟩)
  | announced {limit : UInt64} {headers : UploadHeader} (admitted : Admitted limit headers) (time : F32) :
      Reply S (1 :: DownloadResponse.serialize
        ⟨headers.fileName,headers.fileSize,headers.fileHash,time⟩)
  | status {header : StatusHeader} (short : header.timestamp.utf8ByteSize ≤ 64) :
      Reply S header.serialize
  | echo (header : EchoDebugHeader) : Reply S header.serialize

variable {S : Session} {headers : UploadHeader} {limit : UInt64} {data : Bytes}

theorem announcedFits (admitted : Admitted limit headers) (time : F32) : Frame.Fits
    (1 :: DownloadResponse.serialize ⟨headers.fileName,headers.fileSize,headers.fileHash,time⟩) := by
  obtain ⟨plain,fits,decoded⟩ := admitted.arrived
  have shortest := uploadShortest decoded
  have fileId := (validated admitted.valid).fileId.1
  have string := (Postcard.stringLength headers.fileId).1
  rw [Postcard.utf8Length] at string
  have four := time.property
  unfold Frame.Fits at fits ⊢
  simp only [Command.serialize,UploadHeader.serialize,DownloadResponse.serialize,List.length_append,
    List.length_cons] at shortest ⊢
  omega

theorem shortFits {message : String} (tag : UInt8) (code : UInt16) (short : message.utf8ByteSize < 128) :
    Frame.Fits (tag :: (Postcard.varint code.toNat ++ Postcard.string message)) := by
  have number := Postcard.varintLength (n := code.toNat) (k := 2) (by have := code.toNat_lt; omega)
  have string := shortString (s := message) (k := 0) (by omega)
  have room : 1024 ≤ Frame.maxFrameLength := by decide
  unfold Frame.Fits nonceLen tagLen
  simp only [List.length_append,List.length_cons]
  omega

theorem replyFits (reply : S.Reply data) : Frame.Fits data := by
  have room : 1024 ≤ Frame.maxFrameLength := by decide
  cases reply with
  | ack => exact frameSmall 1
  | challenge random =>
    have size := S.hashes.sha512Length random
    unfold Frame.Fits nonceLen tagLen
    omega
  | refusal code short => exact shortFits 3 code short
  | warning code short => exact shortFits 2 code short
  | @uploaded fileId short received time =>
    have size := @responseLength S fileId received time short
    unfold Frame.Fits nonceLen tagLen
    rw [List.length_cons]
    omega
  | announced admitted time => exact announcedFits admitted time
  | @status header short =>
    have string := shortString (s := header.timestamp) (k := 0) (by omega)
    have uptime := header.uptimeHrs.property
    have one := sizeBound header.authClient
    have two := sizeBound header.totalUploaded
    have three := sizeBound header.totalDownloaded
    have four := sizeBound header.totalBandwidthUsed
    unfold Frame.Fits nonceLen tagLen
    simp only [StatusHeader.serialize,List.length_append]
    omega
  | echo header =>
    have length := Postcard.varintLength (n := header.payloadLen.toNat) (k := 4)
      (by have := header.payloadLen.toNat_lt; omega)
    have hash := header.payloadHash.property
    have time := Postcard.varintLength (n := header.processMs.toNat) (k := 18)
      (by have := header.processMs.isLt; omega)
    unfold Frame.Fits nonceLen tagLen
    simp only [EchoDebugHeader.serialize,List.length_append]
    omega

inductive Outgoing (A : Cipher) (key : Bytes) : Bytes → Prop where
  | flush : Outgoing A key []
  | chunk (nonce : Nonce) {plain : Bytes} (size : plain.length = readChunkSize) :
      Outgoing A key (A.sealed key nonce plain)
  | frame (nonce : Nonce) {data : Bytes} (fits : Frame.Fits data) :
      Outgoing A key (Frame.frame A key nonce data)

theorem outgoingFits {A : Cipher} {key : Bytes} {nonce : Nonce}
    (out : Outgoing A key (Frame.frame A key nonce data)) : Frame.Fits data := by
  generalize same : Frame.frame A key nonce data = b at out
  have size := congrArg List.length same
  rw [Frame.frame,List.length_append,Frame.be32Length,A.sealedLength] at size
  unfold Frame.Fits
  cases out with
  | flush =>
    rw [List.length_nil] at size
    omega
  | chunk other whole =>
    have room : nonceLen + readChunkSize + tagLen ≤ Frame.maxFrameLength := by decide
    rw [A.sealedLength] at size
    omega
  | frame other fits =>
    unfold Frame.Fits at fits
    rw [Frame.frame,List.length_append,Frame.be32Length,A.sealedLength] at size
    omega

def Conducts (S : Session) : (Port HostSig).Call → Prop
  | .send b => Outgoing S.cipher S.sessionKey b
  | .here (.fs op) => ∀ disk (answer : op.Ret) after, Answers disk op answer after → S.Filed disk →
      S.Filed after
  | _ => True

theorem filedSame {disk after : Fs} (filed : S.Filed disk)
    (same : ∀ slot b, after.content (S.metaPath slot) = some b →
      ∃ other, disk.content (S.metaPath other) = some b) : S.Filed after := by
  intro slot b found
  obtain ⟨other,there⟩ := same slot b found
  exact filed other b there

theorem dirsConduct (path : Path) : S.Conducts (.here (.fs (.createDirAll path))) := by
  rintro disk answer after (⟨-,rfl⟩ | torn) filed
  · refine filedSame filed fun slot b found => ⟨slot,?_⟩
    rw [Fs.contentOf] at found ⊢
    rcases Fs.createDirAllEffect disk path (S.metaPath slot) with same | ⟨-,made,-⟩
    · exact same.symm.trans found
    · rw [Fs.exec,made] at found
      cases Option.some.inj found
  · exact torn.1.elim

theorem looksConduct {op : Fs.Op} (looks : Looks op) : S.Conducts (.here (.fs op)) := by
  intro disk answer after answered filed
  rw [(lookAnswer looks answered).2]
  exact filed

theorem touchConducts {slot : Slot} {op : Fs.Op} (touches : S.Touches slot (.here (.fs op)))
    (unwritten : ∀ p b, op ≠ .write p b) : S.Conducts (.here (.fs op)) := by
  intro disk answer after answered filed
  refine filedSame filed fun other b found => ⟨other,?_⟩
  rw [Fs.contentOf] at found ⊢
  rcases touchEffect touches answered (metaBeside S slot other) (fun _ b => unwritten _ b) with
    same | ⟨-,made,-⟩
  · exact same.symm.trans found
  · rw [made] at found
    cases Option.some.inj found

theorem saveConducts (admitted : Admitted limit headers) {received : Bytes}
    (hash : headers.fileHash = S.sha256Hex received) : S.Conducts (.here (.fs (.write
      (S.metaPath (UploadHeader.slot S headers)) (UploadHeader.metadata S headers).serialize))) := by
  rintro disk answer after (⟨-,rfl⟩ | torn) filed
  · simp only [Fs.exec,Fs.write]
    split
    · intro slot b found
      by_cases same : S.metaPath slot = S.metaPath (UploadHeader.slot S headers)
      · rw [same,Fs.contentPut _ (metaInner S _)] at found
        exact ⟨limit,headers,admitted,⟨received,hash⟩,(Option.some.inj found).symm⟩
      · rw [Fs.contentOf,Fs.getPutOther _ same,← Fs.contentOf] at found
        exact filed slot b found
    · exact filed
  · exact torn.1.elim

theorem movedSlot {old new : Bytes} {slot : Slot} (under : S.storagePath new <+: S.metaPath slot) :
    S.storagePath old ++ (S.metaPath slot).drop (S.storagePath new).length =
      S.metaPath ⟨old,slot.fileKey,slot.fileId⟩ := by
  have shape : ∀ key, S.metaPath ⟨key,slot.fileKey,slot.fileId⟩ = S.storagePath key ++
      [S.sha256Hex (Postcard.utf8 slot.fileKey),S.sha256Hex (Postcard.utf8 slot.fileId) ++ ".meta"] := by
    intro key
    simp [metaPath,userDirPath,storagePath]
  have mine := shape slot.clientKey
  have above : S.storagePath slot.clientKey <+: S.metaPath slot := by
    rw [mine]
    exact List.prefix_append _ _
  have same := sameAbove under above (storageDepth new slot.clientKey)
  rw [shape old,same,mine,List.drop_left]

theorem renamesConduct (old new : Bytes) :
    S.Conducts (.here (.fs (.rename (S.authPath old) (S.authPath new)))) ∧
      S.Conducts (.here (.fs (.rename (S.storagePath old) (S.storagePath new)))) := by
  have inside : ∀ slot, S.getStorageDir <+: S.metaPath slot := by
    intro slot
    simp only [metaPath,userDirPath,List.append_assoc]
    exact List.prefix_append _ _
  constructor
  · rintro disk answer after (⟨-,rfl⟩ | torn) filed
    · refine filedSame filed fun slot b found => ⟨slot,?_⟩
      rw [Fs.contentOf] at found ⊢
      exact (Fs.renameBeside disk (authInner old) (authInner new) (authDepth old new)
        (authOutside old (inside slot)) (authOutside new (inside slot))).symm.trans found
    · exact torn.1.elim
  · rintro disk answer after (⟨-,rfl⟩ | torn) filed
    · refine filedSame filed fun slot b found => ?_
      rcases Fs.renameEffect disk (S.storagePath old) (S.storagePath new) with ⟨-,same⟩ | ⟨worked,-⟩
      · exact ⟨slot,by rw [Fs.exec,same] at found; exact found⟩
      · rw [Fs.contentOf,Fs.exec,Fs.renameGet (storageInner old) (storageInner new)
          (storageDepth old new) worked] at found
        split at found
        · exact ⟨slot,Fs.contentOf.mpr found⟩
        · split at found
          · rename_i under
            rw [movedSlot under] at found
            exact ⟨_,Fs.contentOf.mpr found⟩
          · split at found
            · cases found
            · exact ⟨slot,Fs.contentOf.mpr found⟩
    · exact torn.1.elim

theorem tellConducts (reply : S.Reply data) : Confined S.Conducts (S.writeEncryptFrameInto data) :=
  confinedFrame trivial fun nonce => .frame nonce (replyFits reply)

theorem closingConducts (reply : S.Reply data) : Confined S.Conducts (S.sendClosing data) :=
  confinedBind (tellConducts reply) fun _ => shutdownConfined trivial

theorem refusalConducts (code : UInt16) {message : String} (short : message.utf8ByteSize < 128) :
    Confined S.Conducts (S.sendFailed ⟨code,message⟩) := closingConducts (.refusal code short)

theorem uploadConducts (admitted : Admitted limit headers) :
    Confined S.Conducts (S.handleUpload headers) := by
  refine uploadExactly ?_ ?_ fun received hash => saveConducts admitted hash
  · intro c touches _ silent unwritten
    cases c with
    | recv n => trivial
    | send b => exact absurd rfl (silent b)
    | here c =>
      cases c with
      | fs op => exact touchConducts touches fun p b same => unwritten p b (same ▸ rfl)
      | _ => trivial
  · intro data answers nonce
    refine .frame nonce (@replyFits S data ?_)
    cases answers with
    | ack => exact .ack
    | refusal code short => exact .refusal code short
    | success hashed time => exact .uploaded (validated admitted.valid).fileId.2 hashed time

theorem createConducts (pubKey : Bytes) : Confined S.Conducts (S.createKeyDirs pubKey) := by
  have looks : ∀ {op : Fs.Op}, Looks op → Confined S.Conducts (fs op) :=
    fun looks => confinedHere _ (looksConduct looks)
  have makes : ∀ path, Confined S.Conducts (fs (.createDirAll path)) :=
    fun path => confinedHere _ (dirsConduct path)
  unfold createKeyDirs
  refine confinedBind (looks trivial) fun listed => ?_
  refine confinedBind (looks trivial) fun isDir => ?_
  split
  · exact refusalConducts _ (by decide)
  · split
    · exact refusalConducts _ (by decide)
    · refine confinedBind (looks trivial) fun stored => ?_
      have looked : Confined S.Conducts (andExists stored (S.authPath pubKey)) := by
        unfold andExists
        split
        · exact looks trivial
        · trivial
      refine confinedBind looked fun both => ?_
      split
      · exact closingConducts (.warning 409 (by decide))
      · refine confinedBind (makes _) fun keyMade => ?_
        refine confinedBind (makes _) fun storageMade => ?_
        split
        · exact tellConducts .ack
        · exact refusalConducts _ (by decide)

theorem renameConducts (old new : Bytes) : Confined S.Conducts (S.renameKeyDirs old new) := by
  unfold renameKeyDirs
  refine confinedBind (confinedHere _ (looksConduct (show Looks (.exists_ _) from trivial))) fun stored => ?_
  split
  · refine confinedBind (confinedHere _ (renamesConduct old new).1) fun keyMoved => ?_
    refine confinedBind (confinedHere _ (renamesConduct old new).2) fun storageMoved => ?_
    split
    · exact tellConducts .ack
    · exact refusalConducts _ (by decide)
  · trivial

theorem decimalSize {n k : Nat} (fits : n < 10 ^ (k + 1)) : n.repr.utf8ByteSize ≤ k + 1 := by
  have digit : ∀ d < 10, (Nat.digitChar d).utf8Size = 1 := by decide
  induction k generalizing n with
  | zero =>
    have small : n < 10 := by simpa using fits
    rw [Nat.repr_of_lt small,String.utf8ByteSize_singleton,digit n small]
  | succ k ih =>
    rcases Nat.lt_or_ge n 10 with small | large
    · rw [Nat.repr_of_lt small,String.utf8ByteSize_singleton,digit n small]
      omega
    · have front := @ih (n / 10) (by rw [Nat.pow_succ] at fits; omega)
      rw [Nat.repr_of_ge large,String.utf8ByteSize_append,String.utf8ByteSize_singleton,
        digit _ (Nat.mod_lt _ (by decide))]
      omega

theorem invalidUpload {maxFileSize : UInt64} {e : String}
    (invalid : headers.validate maxFileSize = .err e) : e.utf8ByteSize ≤ 64 := by
  unfold UploadHeader.validate at invalid
  split at invalid
  · cases invalid
    decide
  split at invalid
  · cases invalid
    decide
  split at invalid
  · cases invalid
    have digits : (toString (maxFileSize / (1024 * 1024 * 1024))).utf8ByteSize ≤ 20 :=
      @decimalSize _ 19 (by have := (maxFileSize / (1024 * 1024 * 1024)).toNat_lt; omega)
    have whole : s!"File size must be between 1MB and {maxFileSize / (1024 * 1024 * 1024)} GB".utf8ByteSize =
        34 + (toString (maxFileSize / (1024 * 1024 * 1024))).utf8ByteSize + 3 := by
      rw [String.utf8ByteSize_append,String.utf8ByteSize_append]
      rfl
    omega
  split at invalid
  · cases invalid
    decide
  split at invalid
  · cases invalid
    decide
  · contradiction

theorem invalidDownload {asking : DownloadHeader} {e : String}
    (invalid : asking.validate = .err e) : e.utf8ByteSize ≤ 64 := by
  unfold DownloadHeader.validate at invalid
  split at invalid
  · cases invalid
    decide
  split at invalid
  · cases invalid
    decide
  · contradiction

theorem invalidShort {E : Ed25519} {key signature nonce : Bytes} {e : String}
    (invalid : validateSignature E key signature nonce = .err e) :
    s!"Invalid signature: {e}".utf8ByteSize < 128 := by
  have whole : s!"Invalid signature: {e}".utf8ByteSize = 19 + e.utf8ByteSize := by
    rw [String.utf8ByteSize_append]
    rfl
  rw [whole]
  unfold validateSignature at invalid
  split at invalid
  · cases invalid
    decide
  · split at invalid
    · rename_i inner parsed
      cases invalid
      rcases verifyingKeyCases E key with ⟨ok,-⟩ | ⟨failed,-⟩
      · cases ok.symm.trans parsed
      · cases failed.symm.trans parsed
        decide
    · contradiction
    · split at invalid
      · contradiction
      · cases invalid
        decide

theorem bodyConducts : Confined S.Conducts S.readEncryptDataInto := readConfined fun _ => trivial

theorem authConducts (flag : UInt8) : Confined S.Conducts (S.handleAuthKeys flag) := by
  unfold handleAuthKeys
  refine confinedBind (confinedHere _ trivial) fun random => ?_
  refine confinedBind (tellConducts (.challenge _)) fun _ => ?_
  split
  · refine confinedBind bodyConducts fun headerBytes => ?_
    unfold registerKey
    refine confinedBind (confinedLift _) fun (nonce,signatureNewKey) => ?_
    refine confinedBind (confinedLift _) fun (signature,newKey) => ?_
    simp only []
    split
    · trivial
    · rename_i invalid
      exact refusalConducts _ (invalidShort invalid)
    · exact createConducts _
  · split
    · refine confinedBind bodyConducts fun headerBytes => ?_
      unfold rotateKey
      refine confinedBind (confinedLift _) fun (nonce,signatureNewKeyOldKey) => ?_
      refine confinedBind (confinedLift _) fun (signature,newKeyOldKey) => ?_
      refine confinedBind (confinedLift _) fun (oldKey,newKey) => ?_
      simp only []
      split
      · trivial
      · rename_i invalid
        exact refusalConducts _ (invalidShort invalid)
      · split
        · trivial
        · trivial
        · exact renameConducts _ _
    · exact refusalConducts _ (by decide)

theorem echoConducts (rounds : Nat) : Confined S.Conducts (S.handleEchoPerf rounds) :=
  echoConfined (fun _ => trivial) trivial (fun _ => tellConducts (.echo _)) rounds

theorem filedRead (admitted : Admitted limit headers) :
    MetadataFile.deserialize (UploadHeader.metadata S headers).serialize =
      some (UploadHeader.metadata S headers) := by
  obtain ⟨plain,fits,decoded⟩ := admitted.arrived
  have shorter := uploadShorter decoded
  have arrived : Arrived headers := by
    unfold Frame.Fits at fits
    unfold Arrived
    omega
  exact @entryRead S ⟨S.clientKey,headers,[]⟩ arrived

theorem serveConducts (admitted : Admitted limit headers) (asking : DownloadHeader)
    (arc : FileLock.Arc) : Confined S.Conducts (S.serveFile asking arc (UploadHeader.metadata S headers)) := by
  unfold serveFile
  refine confinedBind (confinedLift _) fun _ => ?_
  refine confinedBind (confinedHere _ trivial) fun time => ?_
  refine confinedBind (tellConducts (.announced admitted time)) fun _ => ?_
  refine confinedBind (confinedHere _ trivial) fun chunks => ?_
  cases chunks with
  | none => trivial
  | some chunks =>
    refine confinedBind (sendLoopBoxes trivial chunks fun nonce plain fits => .chunk nonce ?_) fun _ => ?_
    · rw [freshEncBuf,List.length_replicate] at fits
      omega
    · exact closeConfined .flush trivial trivial trivial trivial

abbrev onDisk (S : Session) : Env (Port HostSig) (Turn Fs Line) :=
  disturbed answering (fun _ _ => True) S.Filed

abbrev Orderly (S : Session) : Turn Fs Line → Prop :=
  Decent (fun _ _ => True) S.Filed fun g _ => ∀ b ∈ g.sent, Outgoing S.cipher g.sessionKey b

section
variable {α : Type} {u : Turn Fs Line}

theorem conductSafe {p : Party α} (orderly : S.Orderly u) (mine : u.notes.sessionKey = S.sessionKey)
    (conducts : Confined S.Conducts p) :
    Safe S.onDisk S.Orderly (Returns fun _ v => v.notes.sessionKey = S.sessionKey) p u := by
  have stable : Stable (fun _ _ => True) S.Filed
      fun (g : Line) _ => ∀ b ∈ g.sent, Outgoing S.cipher g.sessionKey b := fun _ _ _ _ _ each => each
  refine @callsKeep _ _ _ _ answering _ _ _ _ (fun g => g.sessionKey = S.sessionKey) _ _ stable orderly
    mine conducts ?_
  intro s g c r t h conduct filed sent mine answered
  cases c with
  | recv n =>
    obtain ⟨rfl,rfl⟩ := answered
    exact ⟨trivial,filed,sent,mine⟩
  | send b =>
    obtain ⟨rfl,rfl⟩ := answered
    refine ⟨trivial,filed,?_,mine⟩
    intro x member
    rcases List.mem_append.mp member with earlier | last
    · exact sent x earlier
    · rw [List.mem_singleton.mp last,mine]
      exact conduct
  | here c =>
    cases c with
    | fs op =>
      obtain ⟨rfl,answers⟩ := answered
      exact ⟨trivial,conduct s r t answers filed,sent,mine⟩
    | timestamp =>
      obtain ⟨⟨rfl,rfl⟩,-⟩ := answered
      exact ⟨trivial,filed,sent,mine⟩
    | _ =>
      obtain ⟨rfl,rfl⟩ := answered
      exact ⟨trivial,filed,sent,mine⟩

theorem conductThen {p : Party α} {f : α → Party Unit} (orderly : S.Orderly u)
    (mine : u.notes.sessionKey = S.sessionKey) (conducts : Confined S.Conducts p)
    (after : ∀ a v, S.Orderly v → v.notes.sessionKey = S.sessionKey →
      Safe S.onDisk S.Orderly (Returns fun _ _ => True) (f a) v) :
    Safe S.onDisk S.Orderly (Returns fun _ _ => True) (p >>= f) u :=
  safeThen (conductSafe orderly mine conducts) after

theorem conductLast {p : Party Unit} (orderly : S.Orderly u) (mine : u.notes.sessionKey = S.sessionKey)
    (conducts : Confined S.Conducts p) : Safe S.onDisk S.Orderly (Returns fun _ _ => True) p u :=
  safeWeaken (conductSafe orderly mine conducts) fun result _ _ _ => by cases result <;> trivial

theorem statusAnswers (orderly : S.Orderly u) (mine : u.notes.sessionKey = S.sessionKey) :
    Safe S.onDisk S.Orderly (Returns fun _ _ => True) S.sendStatus u := by
  unfold sendStatus
  refine conductThen orderly mine (confinedHere _ trivial) fun uptime u orderly mine => ?_
  refine conductThen orderly mine (confinedHere _ trivial) fun totals u orderly mine => ?_
  refine conductThen orderly mine (confinedHere _ (looksConduct (show Looks (.countDirs _) from trivial)))
    fun dirs u orderly mine => ?_
  cases dirs with
  | none => exact ⟨orderly,trivial⟩
  | some dirCount =>
    refine hereSafe orderly ?_
    rintro now v ⟨-,filed,⟨same,notes⟩,short⟩
    have orderly : S.Orderly v := ⟨trivial,same ▸ filed,notes ▸ orderly.point⟩
    exact conductLast orderly (notes ▸ mine) (closingConducts (.status short))

theorem downloadAnswers (asking : DownloadHeader) (orderly : S.Orderly u)
    (mine : u.notes.sessionKey = S.sessionKey) :
    Safe S.onDisk S.Orderly (Returns fun _ _ => True) (S.handleDownload asking) u := by
  have looks : ∀ path, Confined S.Conducts (fs (.exists_ path)) :=
    fun path => confinedHere _ (looksConduct (show Looks (.exists_ path) from trivial))
  unfold handleDownload
  refine conductThen orderly mine (confinedHere _ trivial) fun arc u orderly mine => ?_
  refine conductThen orderly mine (confinedHere _ trivial) fun locked u orderly mine => ?_
  cases locked with
  | false => exact conductLast orderly mine (refusalConducts _ (by decide))
  | true =>
    refine conductThen orderly mine (looks _) fun dir u orderly mine => ?_
    cases dir with
    | false => exact conductLast orderly mine (refusalConducts _ (by decide))
    | true =>
      refine conductThen orderly mine (looks _) fun found u orderly mine => ?_
      cases found with
      | false => exact conductLast orderly mine (refusalConducts _ (by decide))
      | true =>
        refine hereSafe orderly ?_
        rintro text v ⟨-,filed,notes,answers⟩
        rcases answers with ⟨read,same⟩ | torn
        · have orderly : S.Orderly v := ⟨trivial,same ▸ filed,notes ▸ orderly.point⟩
          have mine := notes ▸ mine
          cases parsed : text.bind MetadataFile.deserialize with
          | none => exact conductLast orderly mine (refusalConducts _ (by decide))
          | some metadata =>
            obtain ⟨b,rfl,described⟩ := Option.bind_eq_some_iff.mp parsed
            obtain ⟨limit,headers,admitted,-,rfl⟩ := filed _ _ read.symm
            rw [filedRead admitted] at described
            cases Option.some.inj described
            exact conductLast orderly mine (serveConducts admitted asking arc)
        · exact torn.1.elim

theorem readFits {σ : Type} {env : Env (Port HostSig) σ} {s : σ} :
    Safe env (fun _ => True) (Returns fun data _ => Frame.Fits data) S.readEncryptDataInto s := by
  have length : Safe env (fun _ => True) (Returns fun len _ => len ≤ Frame.maxFrameLength)
      readFrameLength s := by
    refine ⟨trivial,fun answer t _ => ?_⟩
    cases answer with
    | error fault => cases fault <;> exact ⟨trivial,trivial⟩
    | ok lenBuf => exact safeLift _ trivial fun len admitted => (Frame.admitIsOk.mp admitted).2.2
  unfold readEncryptDataInto
  refine safeThen length ?_
  intro len t _ bounded
  split
  · exact ⟨trivial,trivial⟩
  · refine ⟨trivial,fun answer v _ => ?_⟩
    cases answer with
    | error fault => exact ⟨trivial,trivial⟩
    | ok box =>
      refine safeLift _ trivial fun data opened => ?_
      have size := S.cipher.openedLength (Outcome.ofOptionIsOk.mp opened)
      rw [box.property] at size
      unfold Frame.Fits
      omega

theorem headersFit {σ : Type} {env : Env (Port HostSig) σ} {s : σ} :
    Safe env (fun _ => True) (Returns fun command _ => ∃ plain, Frame.Fits plain ∧
      Command.deserialize plain = .ok command) S.readHeaders s :=
  safeThen readFits fun plain _ _ fits => safeLift _ trivial fun _ decoded => ⟨plain,fits,decoded⟩

theorem dispatchAnswers {command : Command} (orderly : S.Orderly u)
    (mine : u.notes.sessionKey = S.sessionKey)
    (arrived : ∃ plain, Frame.Fits plain ∧ Command.deserialize plain = .ok command) :
    Safe S.onDisk S.Orderly (Returns fun _ _ => True) (S.dispatch command) u := by
  cases command with
  | echo =>
    simp only [dispatch]
    split
    · exact conductLast orderly mine (echoConducts _)
    · exact conductLast orderly mine (refusalConducts _ (by decide))
  | auth flags => exact conductLast orderly mine (authConducts flags)
  | upload headers =>
    simp only [dispatch]
    split
    · rename_i valid
      exact conductLast orderly mine (uploadConducts ⟨arrived,valid⟩)
    · rename_i e invalid
      have whole : s!"Invalid upload header: {e}".utf8ByteSize = 23 + e.utf8ByteSize := by
        rw [String.utf8ByteSize_append]
        rfl
      have short := invalidUpload invalid
      exact conductLast orderly mine (refusalConducts _ (by omega))
    · exact ⟨orderly,trivial⟩
  | download asking =>
    simp only [dispatch]
    split
    · exact downloadAnswers asking orderly mine
    · rename_i e invalid
      have whole : s!"Invalid download header: {e}".utf8ByteSize = 25 + e.utf8ByteSize := by
        rw [String.utf8ByteSize_append]
        rfl
      have short := invalidDownload invalid
      exact conductLast orderly mine (refusalConducts _ (by omega))
    · exact ⟨orderly,trivial⟩
  | status => exact statusAnswers orderly mine

theorem headersArrive (orderly : S.Orderly u) (mine : u.notes.sessionKey = S.sessionKey) :
    Safe S.onDisk S.Orderly (Returns fun headers v => v.notes.sessionKey = S.sessionKey ∧
      ∀ command, headers = .ok command → ∃ plain, Frame.Fits plain ∧
        Command.deserialize plain = .ok command) S.readHeaders.attempt u := by
  have reading : Confined S.Conducts S.readHeaders.attempt :=
    attemptConfined (confinedBind bodyConducts fun _ => confinedLift _)
  have arrives := safeBoth (conductSafe orderly mine reading) (attemptReturns (@headersFit S _ S.onDisk u))
  refine safeWeaken (safeMono arrives fun _ both => both.1) ?_
  rintro (headers | message | _) v _ both
  · exact both
  · trivial
  · trivial

theorem connectionOrderly (orderly : S.Orderly u) (mine : u.notes.sessionKey = S.sessionKey) :
    Safe S.onDisk S.Orderly (Returns fun _ _ => True) S.handleConnection u := by
  rw [connectionAnswers]
  refine safeThen (headersArrive orderly mine) ?_
  rintro headers u orderly ⟨mine,arrived⟩
  cases headers with
  | error message =>
    refine conductLast orderly mine ?_
    simp only [answer]
    split
    · exact confinedBind (attemptConfined (refusalConducts _ (by decide))) fun _ => trivial
    · split <;> trivial
  | ok command =>
    refine conductThen orderly mine (confinedHere _ trivial) fun allowed u orderly mine => ?_
    split
    · exact dispatchAnswers orderly mine (arrived command rfl)
    · exact conductLast orderly mine (refusalConducts _ (by decide))

end

structure Connects (S : Session) (m : Member (Port HostSig) Unit Line) : Prop where
  program : ∃ clientKey, m.program = (S.connected m.notes.sessionKey clientKey).handleConnection
  sent : m.notes.sent = []

/- Whatever the connections on one disk send, frame by frame: the decoder at the other end
takes it, and all metadata stays such that its file can be announced. -/
theorem responsesFit {disk : Fs} {last : Crew (Port HostSig) Unit Fs Line}
    (ran : Crew.Run answering S.Connects ⟨disk,[]⟩ last) (filed : S.Filed disk) :
    S.Filed last.shared ∧
    (∀ m ∈ last.members, ∀ nonce data, Frame.frame S.cipher m.notes.sessionKey nonce data ∈ m.notes.sent →
      28 ≤ nonceLen + data.length + tagLen ∧ nonceLen + data.length + tagLen ≤ 16 * 1024 * 1024 ∧
      ∀ rest pool, ∃ after, Frame.readEncryptDataInto S.cipher m.notes.sessionKey
        (Frame.frame S.cipher m.notes.sessionKey nonce data ++ rest) pool = .ok ⟨data,rest,after⟩) ∧
    ∀ slot b, last.shared.content (S.metaPath slot) = some b →
      ∃ metadata, MetadataFile.deserialize b = some metadata ∧ ∀ time, Frame.Fits
        (1 :: DownloadResponse.serialize ⟨metadata.filename,metadata.fileSize,metadata.fileHash,time⟩) := by
  have kept : S.Filed last.shared ∧ ∀ m ∈ last.members, ∀ b ∈ m.notes.sent,
      Outgoing S.cipher m.notes.sessionKey b := by
    refine @runKeeps _ _ _ _ answering (fun _ _ => True) S.Filed
      (fun (g : Line) _ => ∀ b ∈ g.sent, Outgoing S.cipher g.sessionKey b) (Returns fun _ _ => True) S.Connects
      (fun _ => trivial) (fun _ _ _ _ _ => trivial) (fun _ _ _ _ _ each => each) ?_ _ _ ran filed
    rintro m s ⟨⟨clientKey,program⟩,silent⟩ filed
    rw [program]
    refine @connectionOrderly (S.connected m.notes.sessionKey clientKey) (Turn.start s m.notes)
      ⟨trivial,filed,?_⟩ rfl
    intro b member
    rw [show (Turn.start s m.notes).notes.sent = [] from silent] at member
    cases member
  refine ⟨kept.1,?_,?_⟩
  · intro m member nonce data sent
    have fits : Frame.Fits data := outgoingFits (kept.2 m member _ sent)
    have small : 28 = nonceLen + tagLen := rfl
    refine ⟨by omega,fits,fun rest pool => Frame.frameRead fits⟩
  · intro slot b found
    obtain ⟨limit,headers,admitted,-,rfl⟩ := kept.1 slot b found
    exact ⟨_,filedRead admitted,announcedFits admitted⟩

end Session

namespace ResponseLimits
open Session RoundTrip Overwrite Responses

theorem lineReached {p q : Party Unit} {h g : Host} {input output : Bytes}
    (advanced : Duplex.Advances Host.handle p h input output q g) (short : h.now.utf8ByteSize ≤ 64)
    (line : Line) : ∃ sent, Reaches answering p (h.disk,line) q (g.disk,⟨line.sessionKey,sent⟩) := by
  suffices followed : ∃ t, Reaches answering p (h.disk,line) q t ∧
      (t.1 = g.disk ∧ t.2.sessionKey = line.sessionKey) ∧ g.now.utf8ByteSize ≤ 64 by
    obtain ⟨⟨disk,key,sent⟩,reached,⟨rfl,rfl⟩,-⟩ := followed
    exact ⟨sent,reached⟩
  refine Duplex.advancesSimulated (t := (h.disk,line)) (fun h _ _ (t : Fs × Line) =>
    (t.1 = h.disk ∧ t.2.sessionKey = line.sessionKey) ∧ h.now.utf8ByteSize ≤ 64) ?_ ?_ ?_ advanced
    ⟨⟨rfl,rfl⟩,short⟩
  · rintro h _ _ ⟨_,g⟩ c ⟨⟨rfl,key⟩,short⟩
    have answers := hostAnswers h c
    have later : (Host.handle h c).2.now = h.now := by
      cases c with
      | tryLock kind arc =>
        simp only [Host.handle]
        split <;> rfl
      | _ => rfl
    rw [← later] at short
    cases c with
    | fs op => exact ⟨(_,g),⟨rfl,answers⟩,⟨rfl,key⟩,short⟩
    | timestamp => exact ⟨(_,g),⟨⟨rfl,rfl⟩,short⟩,⟨rfl,key⟩,short⟩
    | _ => exact ⟨(_,g),⟨rfl,rfl⟩,⟨answers.symm,key⟩,short⟩
  · rintro h _ _ ⟨_,g⟩ b ⟨⟨rfl,key⟩,short⟩
    exact ⟨(_,{g with sent := g.sent ++ [b]}),⟨rfl,rfl⟩,⟨rfl,key⟩,short⟩
  · rintro h _ _ ⟨_,g⟩ n b ⟨⟨rfl,key⟩,short⟩
    exact ⟨(_,g),⟨rfl,rfl⟩,⟨rfl,key⟩,short⟩

theorem readReached {α : Type} {p q : Party α} {h g : Host} {input output : Bytes} {s : Fs × Line}
    (advanced : Duplex.Advances Host.handle p h input output q g)
    (reads : Confined (fun c => ∃ n, c = PortCall.recv n) p) : Reaches answering p s q s := by
  induction advanced with
  | rest p h => exact .here p s
  | here later ih =>
    obtain ⟨n,same⟩ := reads.1
    cases same
  | send later ih =>
    obtain ⟨n,same⟩ := reads.1
    cases same
  | recv size later ih => exact .answer ⟨rfl,rfl⟩ (ih (reads.2 _))

theorem limitedConnection (S : Session) {command : Command} (fits : Frame.Fits command.serialize)
    (disk : Fs) : Reaches answering S.handleConnection (disk,⟨S.sessionKey,[]⟩) (.done (.ok ()))
      (disk,⟨S.sessionKey,[Frame.frame S.cipher S.sessionKey zeroNonce
        (Response.error limited).encode]⟩) := by
  have reads : Confined (fun c => ∃ n, c = PortCall.recv n) S.readHeaders.attempt :=
    attemptConfined (confinedBind (readConfined fun n => ⟨n,rfl⟩) fun _ => confinedLift _)
  have taken := @headersTaken S (sampleHost disk) command zeroNonce fits
  have short : (Response.error limited).encode.length ≤ Frame.u32Max := by decide +kernel
  have refused : answering (disk,⟨S.sessionKey,[]⟩) (.here (.isAllowedCost (cost command))) false
    (disk,⟨S.sessionKey,[]⟩) := ⟨rfl,rfl⟩
  have drawn : answering (disk,⟨S.sessionKey,[]⟩) (.here (.draw nonceLen)) zeroNonce
    (disk,⟨S.sessionKey,[]⟩) := ⟨rfl,rfl⟩
  have sent : answering (disk,⟨S.sessionKey,[]⟩)
    (.send (Frame.frame S.cipher S.sessionKey zeroNonce (Response.error limited).encode)) (.ok ())
    (disk,⟨S.sessionKey,[Frame.frame S.cipher S.sessionKey zeroNonce
      (Response.error limited).encode]⟩) := ⟨rfl,rfl⟩
  have closed : answering (disk,⟨S.sessionKey,[Frame.frame S.cipher S.sessionKey zeroNonce
      (Response.error limited).encode]⟩) (.here .shutdown) (.ok ())
    (disk,⟨S.sessionKey,[Frame.frame S.cipher S.sessionKey zeroNonce
      (Response.error limited).encode]⟩) := ⟨rfl,rfl⟩
  rw [connectionAnswers]
  refine reachesThen (readReached taken reads) (.answer refused ?_)
  change Reaches answering (S.sendClosing (Response.error limited).encode) _ _ _
  exact reachesThen (frameReached short zeroNonce drawn sent) (shutdownReached closed)

theorem uploadConnection {content : Bytes} (large : 1024 * 1024 ≤ content.length.toUInt64)
    (bounded : content.length ≤ 8589934592) (even : readChunkSize ∣ content.length) :
    ∃ disk sent, Stored sampleSession disk (UploadHeader.slot sampleSession (sampleUpload content))
        (UploadHeader.metadata sampleSession (sampleUpload content)) content ∧
      Reaches answering sampleSession.handleConnection (⟨[]⟩,⟨sampleSession.sessionKey,[]⟩)
        (.done (.ok ())) (disk,⟨sampleSession.sessionKey,sent⟩) := by
  have prepared := samplePrepared content large bounded
  have kept : (sampleUpload content).fileSize.toNat = content.length := sizeKept prepared
  obtain ⟨boxes,-,sealed_,-⟩ := chunksSent (S := sampleSession) (h := sampleHost ⟨[]⟩) (evenFits even)
  obtain ⟨output,after,stored,taken⟩ := uploadTaken (h := sampleHost ⟨[]⟩) (sampleUpload content)
    prepared.unlocked prepared.ready kept rfl sealed_ (validated prepared.accepted).fileId.2
  have dispatched : Duplex.Advances Host.handle (sampleSession.dispatch (.upload (sampleUpload content)))
      (sampleHost ⟨[]⟩) boxes output (.done (.ok ())) after := by
    have accepted : (sampleUpload content).validate sampleSession.maxFileSize = .ok () :=
      prepared.accepted
    simp only [dispatch,accepted]
    exact taken
  have connected : Duplex.Advances Host.handle sampleSession.handleConnection (sampleHost ⟨[]⟩)
      (Frame.frame sampleSession.cipher sampleSession.sessionKey zeroNonce
        (Command.serialize (.upload (sampleUpload content))) ++ boxes) output (.done (.ok ())) after := by
    unfold handleConnection
    exact Duplex.advancesReads (headersTaken (sampleFits content)) (.here dispatched)
  obtain ⟨sent,reached⟩ := lineReached connected (by decide) ⟨sampleSession.sessionKey,[]⟩
  exact ⟨after.disk,sent,stored,reached⟩

theorem mebibyteAnnounced : ∃ (last : Crew (Port HostSig) Unit Fs Line)
    (m : Member (Port HostSig) Unit Line) (slot : Slot) (b : Bytes),
    Crew.Run answering sampleSession.Connects ⟨⟨[]⟩,[]⟩ last ∧ m ∈ last.members ∧
    Frame.frame sampleSession.cipher m.notes.sessionKey zeroNonce (Response.error limited).encode ∈
      m.notes.sent ∧
    last.shared.content (sampleSession.metaPath slot) = some b ∧
    (∀ rest pool, ∃ after, Frame.readEncryptDataInto sampleSession.cipher m.notes.sessionKey
      (Frame.frame sampleSession.cipher m.notes.sessionKey zeroNonce (Response.error limited).encode ++
        rest) pool = .ok ⟨(Response.error limited).encode,rest,after⟩) ∧
    ∃ metadata, MetadataFile.deserialize b = some metadata ∧ ∀ time, Frame.Fits
      (1 :: DownloadResponse.serialize ⟨metadata.filename,metadata.fileSize,metadata.fileHash,time⟩) := by
  obtain ⟨disk,sent,stored,uploaded⟩ := @uploadConnection (List.replicate 1048576 0)
    (by rw [List.length_replicate]; decide) (by rw [List.length_replicate]; decide)
    (by rw [List.length_replicate]; decide)
  have refused := @limitedConnection sampleSession .status (by unfold Frame.Fits; decide +kernel) disk
  have joins : sampleSession.Connects
      ⟨sampleSession.handleConnection,⟨sampleSession.sessionKey,[]⟩⟩ :=
    ⟨⟨sampleSession.clientKey,rfl⟩,rfl⟩
  have first : Crew.Run answering sampleSession.Connects
      ⟨⟨[]⟩,[] ++ ⟨sampleSession.handleConnection,⟨sampleSession.sessionKey,[]⟩⟩ :: []⟩
      ⟨disk,[] ++ ⟨.done (.ok ()),⟨sampleSession.sessionKey,sent⟩⟩ :: []⟩ := Crew.soloRuns uploaded
  have second : Crew.Run answering sampleSession.Connects
      ⟨disk,[] ++ ⟨sampleSession.handleConnection,⟨sampleSession.sessionKey,[]⟩⟩ ::
        [⟨.done (.ok ()),⟨sampleSession.sessionKey,sent⟩⟩]⟩
      ⟨disk,[] ++ ⟨.done (.ok ()),⟨sampleSession.sessionKey,[Frame.frame sampleSession.cipher
        sampleSession.sessionKey zeroNonce (Response.error limited).encode]⟩⟩ ::
        [⟨.done (.ok ()),⟨sampleSession.sessionKey,sent⟩⟩]⟩ := Crew.soloRuns refused
  have ran := Relation.ReflTransGen.head (.join _ joins) (first.trans (.head (.join _ joins) second))
  have filed : sampleSession.Filed ⟨[]⟩ := fun slot b found => by
    rw [Fs.contentOf,emptyMissing] at found
    contradiction
  obtain ⟨-,frames,announced⟩ := responsesFit ran filed
  refine ⟨_,_,_,_,ran,List.mem_cons_self,List.mem_singleton_self _,stored.meta_,?_,?_⟩
  · exact (frames _ List.mem_cons_self zeroNonce _ (List.mem_singleton_self _)).2.2
  · exact announced _ _ stored.meta_

end ResponseLimits
end RDrive
