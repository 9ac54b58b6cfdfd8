import RDrive.Connection
import RDrive.Stream

/-! One upload and the download after it, both ends joined, on machines where
nothing fails and nobody else works with the file. -/
namespace RDrive
open Crypto Header Duplex Party Bytes

namespace FileLock

def Unlocked (s : State) (fileId : FileId) : Prop :=
  ∀ arc, s.sharedFileLock fileId = some arc → (s.lock arc).writer = none ∧ (s.lock arc).readers = []

theorem unlockedHeld {s : State} {fileId : FileId} (unlocked : Unlocked s fileId) :
    ((holdFileLock s fileId).1.lock (holdFileLock s fileId).2).writer = none ∧
    ((holdFileLock s fileId).1.lock (holdFileLock s fileId).2).readers = [] := by
  unfold holdFileLock
  cases found : s.sharedFileLock fileId with
  | some arc => exact unlocked arc found
  | none => simp [RwLock.free]

theorem freeTaken {lock : RwLock Conn} (kind : Kind) (conn : Conn) (unwritten : lock.writer = none)
    (unread : lock.readers = []) : ∃ taken, tryGuard kind lock conn = some taken := by
  cases kind with
  | upload => exact RwLock.tryWriteFree unwritten unread conn
  | download => exact RwLock.tryReadFree unwritten conn

theorem releasedUnlocked (s : State) (fileId : FileId) : Unlocked (releaseFileLock s fileId) fileId := by
  intro arc found
  simp [releaseFileLock] at found

end FileLock

namespace Session
variable {S : Session} {h : Host}

theorem lockTaken (kind : FileLock.Kind) {fileId : String}
    (unlocked : FileLock.Unlocked h.locks fileId) :
    ∃ arc locks, ∀ {α : Type} {inside : FileLock.Arc → Party α} {busy : Party α} {input output q t},
      Advances Host.handle (inside arc) {h with locks := locks} input output q t →
      Advances Host.handle (do
        let arc ← holdFileLock fileId
        if ← tryLock kind arc then inside arc else busy) h input output q t := by
  obtain ⟨unwritten,unread⟩ := FileLock.unlockedHeld unlocked
  cases held : FileLock.holdFileLock h.locks fileId with
  | mk locks arc =>
    rw [held] at unwritten unread
    obtain ⟨taken,got⟩ := FileLock.freeTaken kind Host.conn unwritten unread
    refine ⟨arc,locks.relock arc taken,?_⟩
    intro α inside busy input output q t later
    have heldHere : Host.handle h (.holdFileLock fileId) = (arc,{h with locks := locks}) := by
      simp only [Host.handle,held]
    have tried : Host.handle {h with locks := locks} (.tryLock kind arc) =
        (true,{h with locks := locks.relock arc taken}) := by
      simp only [Host.handle,got]
    refine .here ?_
    rw [heldHere]
    refine .here ?_
    rw [tried]
    exact later

structure SlotReady (S : Session) (disk : Fs) (slot : Slot) : Prop where
  clear : ∀ q, q <+: S.userDirPath slot → disk.get q = none ∨ disk.isDir q = true
  file : disk.isDir (S.filePath slot) = false
  meta_ : disk.isDir (S.metaPath slot) = false

/- The disk once handle_upload has made room for a slot. -/
structure Opened (S : Session) (disk : Fs) (slot : Slot) : Prop where
  dir : disk.isDir (S.userDirPath slot) = true
  file : disk.content (S.filePath slot) = some []
  meta_ : disk.isDir (S.metaPath slot) = false

theorem slotOpened {slot : Slot} (ready : SlotReady S h.disk slot) :
    Opened S ((h.disk.makeDirs (S.userDirPath slot).inits).put (S.filePath slot) (.file [])) slot ∧
    (h.disk.makeDirs (S.userDirPath slot).inits).isDir (S.filePath slot).dropLast = true ∧
    (h.disk.makeDirs (S.userDirPath slot).inits).isDir (S.filePath slot) = false := by
  have dir := Fs.madeDir ready.clear (List.prefix_refl _)
  have file : (h.disk.makeDirs (S.userDirPath slot).inits).get (S.filePath slot) =
      h.disk.get (S.filePath slot) := Fs.madeElsewhere notAbove
  have meta_ : (h.disk.makeDirs (S.userDirPath slot).inits).get (S.metaPath slot) =
      h.disk.get (S.metaPath slot) := Fs.madeElsewhere notAbove
  refine ⟨⟨?_,Fs.contentPut _ (fileInner S slot) [],?_⟩,?_,?_⟩
  · unfold Fs.isDir at dir ⊢
    rwa [Fs.getPutOther _ (userDirBesideFile S slot)]
  · unfold Fs.isDir
    rw [Fs.getPutOther _ (fileBesideMeta S slot).symm,meta_]
    exact ready.meta_
  · rwa [fileParent]
  · unfold Fs.isDir
    rw [file]
    exact ready.file

theorem hashCut (S : Session) (b : Bytes) : ∃ cut, Hex.cutBefore (S.sha256Hex b) 8 = .ok cut := by
  have size := Hex.encodeLength (S.hashes.sha256 b)
  rw [S.hashes.sha256Length] at size
  exact ⟨_,Hex.asciiCut (Hex.encodeAscii _) (by omega)⟩

def UploadHeader.slot (S : Session) (headers : UploadHeader) : Slot :=
  ⟨S.clientKey,headers.fileKey,headers.fileId⟩

theorem uploadAdmitted (headers : UploadHeader) {cut : Bytes}
    (unlocked : FileLock.Unlocked h.locks headers.fileId)
    (ready : SlotReady S h.disk (UploadHeader.slot S headers))
    (prefix8 : Hex.cutBefore headers.fileHash 8 = .ok cut) :
    ∃ arc networkElapsed nonce admitted, Opened S admitted.disk (UploadHeader.slot S headers) ∧
      Advances Host.handle (S.handleUpload headers) h [] (Frame.frame S.cipher S.sessionKey nonce [1])
        (S.receiveLoop "Upload timed out reading chunk" (S.filePath (UploadHeader.slot S headers))
          headers.fileSize.toNat freshDecBuf [] [] 0 >>=
            S.finishUpload headers arc networkElapsed) admitted := by
  obtain ⟨opened,parent,free⟩ := slotOpened ready
  have ack : ([1] : Bytes).length ≤ Frame.u32Max := by decide
  obtain ⟨arc,locks,inside⟩ := lockTaken .upload unlocked
  obtain ⟨nonce,written⟩ := frameWritten (S := S) (h := {h with
    locks := locks
    disk := h.disk.makeDirs (S.userDirPath (UploadHeader.slot S headers)).inits}) [1] ack
  refine ⟨arc,h.clock h.ticks,nonce,{h with
    locks := locks
    drawn := h.drawn + 1
    ticks := h.ticks + 1
    disk := (h.disk.makeDirs (S.userDirPath (UploadHeader.slot S headers)).inits).put
      (S.filePath (UploadHeader.slot S headers)) (.file [])},opened,?_⟩
  unfold handleUpload
  refine inside ?_
  refine advancesQuiet (Host.createDirAllAdvances ready.clear) ?_
  rw [prefix8,Program.liftDone,Program.bindDone]
  refine advancesLast written ?_
  refine advancesQuiet Host.elapsedAdvances ?_
  refine advancesQuiet (Host.createAdvances parent free) ?_
  exact .rest _ _

structure Stored (S : Session) (disk : Fs) (slot : Slot) (metadata : MetadataFile)
    (content : Bytes) : Prop where
  dir : disk.isDir (S.userDirPath slot) = true
  file : disk.content (S.filePath slot) = some content
  meta_ : disk.content (S.metaPath slot) = some metadata.serialize

def UploadHeader.metadata (S : Session) (headers : UploadHeader) : MetadataFile :=
  ⟨headers.fileName,headers.fileSize,headers.fileHash,S.sha256Hex (Postcard.utf8 headers.fileKey)⟩

theorem metaRoom {slot : Slot} {disk after : Fs} {written : Bytes}
    (wrote : Wrote (S.filePath slot) disk after written) (dir : disk.isDir (S.userDirPath slot) = true)
    (free : disk.isDir (S.metaPath slot) = false) :
    after.isDir (S.userDirPath slot) = true ∧ after.isDir (S.metaPath slot).dropLast = true ∧
      after.isDir (S.metaPath slot) = false := by
  rw [metaParent]
  unfold Fs.isDir at dir free ⊢
  rw [wrote.beside _ (userDirBesideFile S slot),wrote.beside _ (fileBesideMeta S slot).symm]
  exact ⟨dir,dir,free⟩

theorem uploadFinished {headers : UploadHeader} (arc : FileLock.Arc) {networkElapsed : F32}
    (found : Received) {written : Bytes} (hash : S.sha256Hex found.hashed = headers.fileHash)
    (dir : h.disk.isDir (S.userDirPath (UploadHeader.slot S headers)) = true)
    (file : h.disk.content (S.filePath (UploadHeader.slot S headers)) = some written)
    (free : h.disk.isDir (S.metaPath (UploadHeader.slot S headers)) = false)
    (small : (UploadResponse.serialize
      ⟨headers.fileId,headers.fileHash,networkElapsed⟩).length < Frame.u32Max) :
    ∃ nonce last, Stored S last.disk (UploadHeader.slot S headers) (UploadHeader.metadata S headers)
        (written ++ found.pending) ∧ FileLock.Unlocked last.locks headers.fileId ∧
      Advances Host.handle (S.finishUpload headers arc networkElapsed found) h []
        (Frame.frame S.cipher S.sessionKey nonce
          (1 :: UploadResponse.serialize ⟨headers.fileId,headers.fileHash,networkElapsed⟩))
        (.done (.ok ())) last := by
  obtain ⟨disk,wrote,flushed⟩ := bufFlushed (h := h) found.pending (fileInner S _) file
  obtain ⟨dirKept,parent,freeKept⟩ := metaRoom wrote dir free
  have tagged : (1 :: UploadResponse.serialize
      ⟨headers.fileId,headers.fileHash,networkElapsed⟩).length ≤ Frame.u32Max := small
  obtain ⟨nonce,sent⟩ := closingWritten (S := S) (h := {h with
    disk := disk.put (S.metaPath (UploadHeader.slot S headers))
      (.file (UploadHeader.metadata S headers).serialize)}) _ tagged
  refine ⟨nonce,{h with
    disk := disk.put (S.metaPath (UploadHeader.slot S headers))
      (.file (UploadHeader.metadata S headers).serialize)
    drawn := h.drawn + 1
    locks := FileLock.releaseFileLock (h.locks.relock arc
      (FileLock.dropGuard .upload (h.locks.lock arc) Host.conn)) headers.fileId
    uploaded := headers.fileSize.toNat :: h.uploaded},?_,FileLock.releasedUnlocked _ _,?_⟩
  · refine ⟨?_,?_,Fs.contentPut _ (metaInner S _) _⟩
    · unfold Fs.isDir at dirKept ⊢
      rwa [Fs.getPutOther _ (userDirBesideMeta S _)]
    · rw [Fs.contentOf,Fs.getPutOther _ (fileBesideMeta S _),← Fs.contentOf]
      exact wrote.here
  · unfold finishUpload
    refine advancesQuiet flushed ?_
    simp only [hash,ne_eq,not_true_eq_false,if_false]
    refine advancesQuiet (Host.writeAdvances parent freeKept) ?_
    refine advancesLast sent ?_
    exact .here (.here (.here (.rest _ _)))

theorem openedKept {slot : Slot} {disk after : Fs} {written : Bytes} (opened : Opened S disk slot)
    (wrote : Wrote (S.filePath slot) disk after written) :
    after.isDir (S.userDirPath slot) = true ∧ after.isDir (S.metaPath slot) = false := by
  obtain ⟨dir,-,free⟩ := opened
  obtain ⟨dirKept,-,freeKept⟩ := metaRoom wrote dir free
  exact ⟨dirKept,freeKept⟩

theorem uploadReceived (headers : UploadHeader) (arc : FileLock.Arc) {networkElapsed : F32}
    {content boxes : Bytes} (opened : Opened S h.disk (UploadHeader.slot S headers))
    (size : headers.fileSize.toNat = content.length) (hash : S.sha256Hex content = headers.fileHash)
    (sealed_ : Boxes S (fullReads readChunkSize content) boxes)
    (small : (UploadResponse.serialize
      ⟨headers.fileId,headers.fileHash,networkElapsed⟩).length < Frame.u32Max) :
    ∃ nonce last, Stored S last.disk (UploadHeader.slot S headers) (UploadHeader.metadata S headers)
        content ∧ FileLock.Unlocked last.locks headers.fileId ∧
      Advances Host.handle (S.receiveLoop "Upload timed out reading chunk"
          (S.filePath (UploadHeader.slot S headers)) headers.fileSize.toNat freshDecBuf [] [] 0 >>=
            S.finishUpload headers arc networkElapsed) h boxes
        (Frame.frame S.cipher S.sessionKey nonce
          (1 :: UploadResponse.serialize ⟨headers.fileId,headers.fileHash,networkElapsed⟩))
        (.done (.ok ())) last := by
  have total : headers.fileSize.toNat = 0 + content.length := by omega
  obtain ⟨disk,after,written,wrote,joined,received⟩ := chunksReceived (h := h)
    "Upload timed out reading chunk" freshDecBuf [] [] (fileInner S _) opened.file total
    (by simp [freshDecBuf]) sealed_
  obtain ⟨dirKept,freeKept⟩ := openedKept opened wrote
  obtain ⟨nonce,last,stored,unlocked,finished⟩ := uploadFinished (h := {h with disk := disk}) arc
    ⟨[] ++ content,after⟩ hash dirKept wrote.here freeKept small
  refine ⟨nonce,last,?_,unlocked,?_⟩
  · rwa [joined] at stored
  · have both := advancesThen received finished
    rwa [List.append_nil] at both

theorem requestSent {path : Path} {fileKey fileId fileName : String} {content : Bytes}
    (named : path.getLast? = some fileName) (stored : h.disk.content path = some content)
    (small : (Command.serialize (.upload ⟨fileId,fileName,content.length.toUInt64,
      S.sha256Hex content,fileKey⟩)).length ≤ Frame.u32Max) :
    ∃ nonce, Advances Host.handle (S.uploadClient path fileKey fileId) h []
      (Frame.frame S.cipher S.sessionKey nonce (Command.serialize (.upload
        ⟨fileId,fileName,content.length.toUInt64,S.sha256Hex content,fileKey⟩)))
      (S.uploadStream path) {h with drawn := h.drawn + 1} := by
  obtain ⟨nonce,sent⟩ := frameWritten (S := S) (h := h) _ small
  refine ⟨nonce,?_⟩
  unfold uploadClient
  rw [named]
  refine advancesQuiet (Host.fsAdvances (.size path)) ?_
  simp only [Fs.exec,stored,Option.map_some]
  refine advancesQuiet (Host.readAdvances stored) ?_
  exact advancesLast sent (.rest _ _)

theorem frameSmall (byte : UInt8) :
    nonceLen + ([byte] : Bytes).length + tagLen ≤ Frame.maxFrameLength := by
  simp [nonceLen,tagLen,Frame.maxFrameLength]

theorem ackTaken {path : Path} {content : Bytes} (nonce : Nonce)
    (stored : h.disk.content path = some content) {output q t}
    (later : Advances Host.handle (do
      S.sendLoop freshEncBuf (fullReads readChunkSize content)
      S.uploadOutcome) h [] output q t) :
    Advances Host.handle (S.uploadStream path) h (Frame.frame S.cipher S.sessionKey nonce [1])
      output q t := by
  have read : Advances Host.handle S.readEncryptDataInto h
      (Frame.frame S.cipher S.sessionKey nonce [1]) [] (.done (.ok [1])) h := frameTaken (frameSmall 1)
  unfold uploadStream
  refine advancesTaken read ?_
  have flag : index [1] 0 = .ok 1 := rfl
  simp only [flag,Program.liftDone,Program.bindDone]
  rw [if_neg (by decide),if_neg (by decide)]
  refine advancesQuiet (Host.readsAdvances path readChunkSize) ?_
  simp only [stored,Option.map_some]
  exact later

theorem outcomeTaken {response : UploadResponse} {nonce : Nonce}
    (small : nonceLen + (1 :: response.serialize).length + tagLen ≤ Frame.maxFrameLength) :
    Advances Host.handle S.uploadOutcome h
      (Frame.frame S.cipher S.sessionKey nonce (1 :: response.serialize)) []
      (.done (.ok response.fileId)) h := by
  have fits : response.serialize.length < 2 ^ 64 := by
    simp only [List.length_cons,Frame.maxFrameLength] at small
    omega
  have body := uploadResponseRead fits []
  rw [List.append_nil] at body
  have decoded : UploadResponse.deserialize response.serialize = .ok response :=
    Outcome.ofOptionIsOk.mpr (Postcard.fromBytesOf body)
  have flag : index (1 :: response.serialize) 0 = .ok 1 := rfl
  unfold uploadOutcome
  refine advancesTaken (frameTaken small) ?_
  simp only [flag,Program.liftDone,Program.bindDone,List.tail_cons,decoded]
  rw [if_neg (by decide),if_neg (by decide),if_neg (by decide)]
  exact advancesQuiet Host.shutdownAdvances (.rest _ _)

theorem headersTaken {command : Command} {nonce : Nonce}
    (small : nonceLen + command.serialize.length + tagLen ≤ Frame.maxFrameLength) :
    Advances Host.handle S.readHeaders.attempt h
      (Frame.frame S.cipher S.sessionKey nonce command.serialize) [] (.done (.ok (.ok command))) h := by
  have read : Advances Host.handle S.readHeaders h
      (Frame.frame S.cipher S.sessionKey nonce command.serialize) [] (.done (.ok command)) h := by
    unfold readHeaders
    refine advancesTaken (frameTaken small) ?_
    rw [commandRead (by unfold Frame.maxFrameLength at small; omega),Program.liftDone]
    exact .rest _ _
  exact advancesAttempt read

/- handle_connection on a command it can read: no error path, no rate limit. -/
theorem commandTaken {command : Command} {nonce : Nonce} {output q t}
    (small : nonceLen + command.serialize.length + tagLen ≤ Frame.maxFrameLength)
    (later : Advances Host.handle (S.dispatch command) h [] output q t) :
    Advances Host.handle S.handleConnection h
      (Frame.frame S.cipher S.sessionKey nonce command.serialize) output q t := by
  unfold handleConnection
  refine advancesTaken (headersTaken small) ?_
  exact .here later

theorem shortString {s : String} {k : Nat} (short : s.utf8ByteSize < 128 ^ (k + 1)) :
    (Postcard.string s).length ≤ k + 1 + s.utf8ByteSize := by
  have size := Postcard.utf8Length s
  have varint := Postcard.varintLength (n := (Postcard.utf8 s).length) (k := k) (by omega)
  have whole := (Postcard.stringLength s).2
  omega

theorem hexLength (S : Session) (b : Bytes) : (S.sha256Hex b).utf8ByteSize = 64 := by
  have size := Hex.encodeLength (S.hashes.sha256 b)
  rw [S.hashes.sha256Length,Postcard.utf8Length] at size
  exact size

theorem responseLength {fileId : String} {content : Bytes} {time : F32}
    (short : fileId.utf8ByteSize ≤ 256) :
    (UploadResponse.serialize ⟨fileId,S.sha256Hex content,time⟩).length ≤ 327 := by
  have id := shortString (s := fileId) (k := 1) (by omega)
  have hash := shortString (s := S.sha256Hex content) (k := 0) (by rw [hexLength]; decide)
  rw [hexLength] at hash
  have four := time.property
  simp only [UploadResponse.serialize,List.length_append]
  omega

theorem responseSmall {fileId fileHash : String} {content : Bytes} {time : F32}
    (hash : S.sha256Hex content = fileHash) (short : fileId.utf8ByteSize ≤ 256) :
    (UploadResponse.serialize ⟨fileId,fileHash,time⟩).length < Frame.u32Max := by
  rw [← hash]
  exact Nat.lt_of_le_of_lt (responseLength short) (by decide)

theorem downloadStarts (headers : DownloadHeader) {metadata : MetadataFile} {content cut : Bytes}
    (unlocked : FileLock.Unlocked h.locks headers.fileId)
    (dir : (h.disk.get (S.userDirPath ⟨S.clientKey,headers.fileKey,headers.fileId⟩)).isSome)
    (described : (h.disk.content (S.metaPath ⟨S.clientKey,headers.fileKey,headers.fileId⟩)).bind
      MetadataFile.deserialize = some metadata)
    (file : h.disk.content (S.filePath ⟨S.clientKey,headers.fileKey,headers.fileId⟩) = some content)
    (prefix8 : Hex.cutBefore metadata.fileHash 8 = .ok cut)
    (small : ∀ time, (1 :: DownloadResponse.serialize
      ⟨metadata.filename,metadata.fileSize,metadata.fileHash,time⟩).length ≤ Frame.u32Max) :
    ∃ arc nonce time sending, Advances Host.handle (S.handleDownload headers) h []
        (Frame.frame S.cipher S.sessionKey nonce (1 :: DownloadResponse.serialize
          ⟨metadata.filename,metadata.fileSize,metadata.fileHash,time⟩))
        (do
          S.sendLoop freshEncBuf (fullReads readChunkSize content)
          closeDownload headers arc metadata) sending := by
  obtain ⟨arc,locks,inside⟩ := lockTaken .download unlocked
  obtain ⟨nonce,sent⟩ := frameWritten (S := S) (h := {h with
    locks := locks
    ticks := h.ticks + 1}) _ (small (h.clock h.ticks))
  have meta_ : (h.disk.get (S.metaPath ⟨S.clientKey,headers.fileKey,headers.fileId⟩)).isSome := by
    cases found : h.disk.get (S.metaPath ⟨S.clientKey,headers.fileKey,headers.fileId⟩) with
    | some node => rfl
    | none => simp [Fs.content,found] at described
  refine ⟨arc,nonce,h.clock h.ticks,{h with
    locks := locks
    ticks := h.ticks + 1
    drawn := h.drawn + 1},?_⟩
  unfold handleDownload
  refine inside ?_
  refine advancesQuiet (Host.fsAdvances _) ?_
  simp only [Fs.exec,dir,if_true]
  refine advancesQuiet (Host.fsAdvances _) ?_
  simp only [Fs.exec,meta_,if_true]
  refine advancesQuiet (Host.fsAdvances _) ?_
  simp only [Fs.exec,described]
  unfold serveFile
  rw [prefix8,Program.liftDone,Program.bindDone]
  refine advancesQuiet Host.elapsedAdvances ?_
  refine advancesLast sent ?_
  refine advancesQuiet (Host.readsAdvances _ _) ?_
  simp only [file,Option.map_some]
  exact .rest _ _

theorem downloadServed (headers : DownloadHeader) {metadata : MetadataFile} {content cut : Bytes}
    (unlocked : FileLock.Unlocked h.locks headers.fileId)
    (stored : Stored S h.disk ⟨S.clientKey,headers.fileKey,headers.fileId⟩ metadata content)
    (readable : MetadataFile.deserialize metadata.serialize = some metadata)
    (prefix8 : Hex.cutBefore metadata.fileHash 8 = .ok cut)
    (even : readChunkSize ∣ content.length)
    (small : ∀ time, (1 :: DownloadResponse.serialize
      ⟨metadata.filename,metadata.fileSize,metadata.fileHash,time⟩).length ≤ Frame.u32Max) :
    ∃ nonce time boxes last, Boxes S (fullReads readChunkSize content) boxes ∧
      Advances Host.handle (S.handleDownload headers) h []
        (Frame.frame S.cipher S.sessionKey nonce (1 :: DownloadResponse.serialize
          ⟨metadata.filename,metadata.fileSize,metadata.fileHash,time⟩) ++ boxes)
        (.done (.ok ())) last := by
  have dir : (h.disk.get (S.userDirPath ⟨S.clientKey,headers.fileKey,headers.fileId⟩)).isSome := by
    have found := stored.dir
    simp only [Fs.isDir,beq_iff_eq] at found
    simp [found]
  have described : (h.disk.content (S.metaPath ⟨S.clientKey,headers.fileKey,headers.fileId⟩)).bind
      MetadataFile.deserialize = some metadata := by
    rw [stored.meta_]
    exact readable
  obtain ⟨arc,nonce,time,sending,started⟩ :=
    downloadStarts headers unlocked dir described stored.file prefix8 small
  obtain ⟨boxes,drawn,sealed_,streamed⟩ := chunksSent (S := S) (h := sending) (evenFits even)
  have ended : Advances Host.handle (closeDownload headers arc metadata)
      {sending with drawn := drawn} [] [] (.done (.ok ())) {sending with
        drawn := drawn
        locks := FileLock.releaseFileLock (sending.locks.relock arc
          (FileLock.dropGuard .download (sending.locks.lock arc) Host.conn)) headers.fileId
        downloaded := metadata.fileSize.toNat :: sending.downloaded} :=
    advancesSent (.here (.here (.here (.here (.rest _ _)))))
  exact ⟨nonce,time,boxes,_,sealed_,advancesTrans started (advancesLast streamed ended)⟩

theorem responseDecoded {response : DownloadResponse}
    (small : nonceLen + (1 :: response.serialize).length + tagLen ≤ Frame.maxFrameLength) :
    DownloadResponse.deserialize response.serialize = .ok response := by
  have fits : response.serialize.length < 2 ^ 64 := by
    simp only [List.length_cons,Frame.maxFrameLength] at small
    omega
  have body := downloadResponseRead fits []
  rw [List.append_nil] at body
  exact Outcome.ofOptionIsOk.mpr (Postcard.fromBytesOf body)

theorem fileSaved {output : Path} (response : DownloadResponse) (nonce : Nonce)
    {content boxes : Bytes} (plain : Path.Plain response.fileName) (dir : h.disk.isDir output = true)
    (free : h.disk.isDir (output ++ [response.fileName]) = false)
    (small : nonceLen + (1 :: response.serialize).length + tagLen ≤ Frame.maxFrameLength)
    (size : response.fileSize.toNat = content.length) (hash : S.sha256Hex content = response.fileHash)
    (sealed_ : Boxes S (fullReads readChunkSize content) boxes) :
    ∃ last, last.disk.content (output ++ [response.fileName]) = some content ∧
      Advances Host.handle (S.saveFile output) h
        (Frame.frame S.cipher S.sessionKey nonce (1 :: response.serialize) ++ boxes) []
        (.done (.ok ⟨output ++ [response.fileName],response⟩)) last := by
  have inner : output ++ [response.fileName] ≠ [] := by simp
  have decoded : DownloadResponse.deserialize response.serialize = .ok response :=
    responseDecoded small
  have flag : index (1 :: response.serialize) 0 = .ok 1 := rfl
  have parent : h.disk.isDir (output ++ [response.fileName]).dropLast = true := by
    rwa [List.dropLast_concat]
  have total : response.fileSize.toNat = 0 + content.length := by omega
  obtain ⟨disk,after,written,wrote,joined,received⟩ := chunksReceived
    (h := {h with disk := h.disk.put (output ++ [response.fileName]) (.file [])})
    "Client download timed out reading chunk" freshDecBuf [] [] inner
    (Fs.contentPut h.disk inner []) total (by simp [freshDecBuf]) sealed_
  obtain ⟨saved,kept,flushed⟩ := bufFlushed (h := {h with disk := disk}) after inner
    wrote.here
  rw [joined] at kept
  refine ⟨{h with disk := saved},kept.here,?_⟩
  unfold saveFile
  refine advancesReads (frameTaken small) ?_
  simp only [flag,Program.liftDone,Program.bindDone,List.tail_cons,decoded]
  rw [if_neg (by decide),if_neg (by decide),if_neg (by decide)]
  unfold saveResponse
  rw [Path.joinPlain plain]
  refine advancesQuiet (Host.createAdvances parent free) ?_
  refine advancesLast received ?_
  unfold finishDownload
  refine advancesQuiet flushed ?_
  simp only [List.nil_append,hash,ne_eq,not_true_eq_false,if_false]
  exact .rest _ _

end Session

namespace RoundTrip
open Session

def uploadMeeting (S : Session) (client server : Host) (path : Path) (fileKey fileId : String) :
    Link HostSig Host Host String Unit :=
  ⟨⟨S.uploadClient path fileKey fileId,client⟩,⟨S.handleConnection,server⟩,[],[]⟩

def downloadMeeting (S : Session) (client server : Host) (fileId fileKey : String) (output : Path) :
    Link HostSig Host Host Downloaded Unit :=
  ⟨⟨S.downloadClient fileId fileKey output,client⟩,⟨S.handleConnection,server⟩,[],[]⟩

/- The header upload_client sends for this content. -/
def sentHeader (S : Session) (fileId fileName fileKey : String) (content : Bytes) : UploadHeader :=
  ⟨fileId,fileName,content.length.toUInt64,S.sha256Hex content,fileKey⟩

/- A file that may be sent, and a server where nobody works with its slot. -/
structure Prepared (S : Session) (client server : Host) (path : Path)
    (fileKey fileId fileName : String) (content : Bytes) : Prop where
  named : path.getLast? = some fileName
  plain : Path.Plain fileName
  stored : client.disk.content path = some content
  bounded : content.length ≤ S.maxFileSize.toNat
  accepted : (sentHeader S fileId fileName fileKey content).validate S.maxFileSize = .ok ()
  unlocked : FileLock.Unlocked server.locks fileId
  ready : SlotReady S server.disk ⟨S.clientKey,fileKey,fileId⟩

def Fits (S : Session) (fileId fileName fileKey : String) (content : Bytes) : Prop :=
  nonceLen + (Command.serialize (.upload (sentHeader S fileId fileName fileKey content))).length +
    tagLen ≤ Frame.maxFrameLength

variable {S : Session} {client server : Host} {path : Path} {fileKey fileId fileName : String}
  {content : Bytes}

theorem sizeKept (prepared : Prepared S client server path fileKey fileId fileName content) :
    content.length.toUInt64.toNat = content.length := by
  have bound := prepared.bounded
  have range := S.maxFileSize.toNat_lt
  simp only [Nat.toUInt64,UInt64.toNat_ofNat']
  exact Nat.mod_eq_of_lt (by omega)

theorem uploadStarts (prepared : Prepared S client server path fileKey fileId fileName content)
    (fits : Fits S fileId fileName fileKey content) :
    ∃ arc networkElapsed nonce sender receiver,
      sender.disk.content path = some content ∧
      Opened S receiver.disk ⟨S.clientKey,fileKey,fileId⟩ ∧
      Reach Host.handle Host.handle (uploadMeeting S client server path fileKey fileId)
        ⟨⟨S.uploadStream path,sender⟩,
          ⟨S.receiveLoop "Upload timed out reading chunk" (S.filePath ⟨S.clientKey,fileKey,fileId⟩)
            content.length.toUInt64.toNat freshDecBuf [] [] 0 >>=
            S.finishUpload (sentHeader S fileId fileName fileKey content) arc networkElapsed,receiver⟩,
          Frame.frame S.cipher S.sessionKey nonce [1],[]⟩ := by
  have small : (Command.serialize (.upload (sentHeader S fileId fileName fileKey content))).length ≤
      Frame.u32Max := by
    unfold Fits Frame.maxFrameLength at fits
    unfold Frame.u32Max
    omega
  obtain ⟨requestNonce,requested⟩ := requestSent (S := S) prepared.named prepared.stored small
  obtain ⟨cut,prefix8⟩ := hashCut S content
  obtain ⟨arc,networkElapsed,nonce,admitted,opened,accepted⟩ := uploadAdmitted
    (sentHeader S fileId fileName fileKey content) prepared.unlocked prepared.ready prefix8
  have dispatched : Advances Host.handle
      (S.dispatch (.upload (sentHeader S fileId fileName fileKey content))) server []
      (Frame.frame S.cipher S.sessionKey nonce [1])
      (S.receiveLoop "Upload timed out reading chunk" (S.filePath ⟨S.clientKey,fileKey,fileId⟩)
        content.length.toUInt64.toNat freshDecBuf [] [] 0 >>=
        S.finishUpload (sentHeader S fileId fileName fileKey content) arc networkElapsed) admitted := by
    simp only [dispatch,prepared.accepted]
    exact accepted
  exact ⟨arc,networkElapsed,nonce,{client with drawn := client.drawn + 1},admitted,prepared.stored,
    opened,Runs.leadsTrans (leftTurn requested)
      (rightTurn (commandTaken fits dispatched))⟩

theorem uploadMeets (prepared : Prepared S client server path fileKey fileId fileName content)
    (fits : Fits S fileId fileName fileKey content) (even : readChunkSize ∣ content.length) :
    ∃ final, Reach Host.handle Host.handle (uploadMeeting S client server path fileKey fileId) final ∧
      final.left.program = .done (.ok fileId) ∧ final.right.program = .done (.ok ()) ∧
      Stored S final.right.host.disk ⟨S.clientKey,fileKey,fileId⟩
        (UploadHeader.metadata S (sentHeader S fileId fileName fileKey content)) content ∧
      FileLock.Unlocked final.right.host.locks fileId := by
  obtain ⟨arc,networkElapsed,nonce,sender,receiver,stored,opened,started⟩ :=
    uploadStarts prepared fits
  obtain ⟨boxes,drawn,sealed_,sent⟩ := chunksSent (S := S) (h := sender) (evenFits even)
  have streamed := ackTaken nonce stored (advancesLast sent (.rest S.uploadOutcome _))
  have accepted := Header.validated prepared.accepted
  have short : (UploadResponse.serialize ⟨fileId,S.sha256Hex content,networkElapsed⟩).length ≤ 327 :=
    responseLength accepted.fileId.2
  obtain ⟨lastNonce,last,kept,unlocked,received⟩ := uploadReceived
    (sentHeader S fileId fileName fileKey content) arc opened
    (sizeKept prepared) rfl sealed_ (Nat.lt_of_le_of_lt short (by decide))
  have response : nonceLen + (1 :: UploadResponse.serialize
      ⟨fileId,S.sha256Hex content,networkElapsed⟩).length + tagLen ≤ Frame.maxFrameLength := by
    simp only [List.length_cons,nonceLen,tagLen,Frame.maxFrameLength]
    omega
  refine ⟨_,Runs.leadsTrans started (Runs.leadsTrans (leftTurn streamed)
    (Runs.leadsTrans (rightTurn received) (leftTurn (outcomeTaken response)))),rfl,rfl,kept,unlocked⟩

def Writable (disk : Fs) (output : Path) (fileName : String) : Prop :=
  disk.isDir output = true ∧ disk.isDir (output ++ [fileName]) = false

def Retrieved (S : Session) (fileName : String) (content : Bytes)
    (final : Link HostSig Host Host Downloaded Unit) : Prop :=
  final.right.program = .done (.ok ()) ∧
  ∃ result, final.left.program = .done (.ok result) ∧
    final.left.host.disk.content result.outputPath = some content ∧
    result.response.fileName = fileName ∧
    result.response.fileSize.toNat = content.length ∧
    result.response.fileHash = S.sha256Hex content

theorem stringShort (s : String) : s.utf8ByteSize < (Postcard.string s).length := by
  have long := (Postcard.stringLength s).1
  rwa [Postcard.utf8Length] at long

theorem responseFits (fits : Fits S fileId fileName fileKey content)
    (accepted : Accepted S.maxFileSize (sentHeader S fileId fileName fileKey content)) (time : F32) :
    nonceLen + (1 :: DownloadResponse.serialize
      ⟨fileName,content.length.toUInt64,S.sha256Hex content,time⟩).length + tagLen ≤
        Frame.maxFrameLength ∧
    (UploadHeader.metadata S (sentHeader S fileId fileName fileKey content)).serialize.length <
      2 ^ 64 := by
  have id := stringShort fileId
  have longId := accepted.fileId.1
  have hash := shortString (s := S.sha256Hex (Postcard.utf8 fileKey)) (k := 0)
    (by rw [hexLength]; decide)
  rw [hexLength] at hash
  have four := time.property
  unfold Fits at fits
  simp only [Command.serialize,UploadHeader.serialize,sentHeader,List.length_append] at fits longId
  simp only [DownloadResponse.serialize,UploadHeader.metadata,MetadataFile.serialize,sentHeader,
    List.length_append,List.length_cons]
  unfold Frame.maxFrameLength at fits ⊢
  constructor
  · omega
  · omega

theorem downloadRequestFits (S : Session)
    (accepted : Accepted S.maxFileSize (sentHeader S fileId fileName fileKey content)) :
    nonceLen + (Command.serialize (.download ⟨fileId,fileKey⟩)).length + tagLen ≤
      Frame.maxFrameLength := by
  have id := shortString (s := fileId) (k := 1) (Nat.lt_of_le_of_lt accepted.fileId.2 (by decide))
  have key := shortString (s := fileKey) (k := 1) (Nat.lt_of_le_of_lt accepted.fileKey.2 (by decide))
  have idSmall : fileId.utf8ByteSize ≤ 256 := accepted.fileId.2
  have keySmall : fileKey.utf8ByteSize ≤ 512 := accepted.fileKey.2
  have variant := Postcard.varintLength (n := 3) (k := 0) (by decide)
  simp only [Command.serialize,DownloadHeader.serialize,List.length_append]
  unfold nonceLen tagLen Frame.maxFrameLength
  omega

theorem downloadSides {reader keeper : Host} {output : Path} (plain : Path.Plain fileName)
    (fits : Fits S fileId fileName fileKey content) (even : readChunkSize ∣ content.length)
    (accepted : Accepted S.maxFileSize (sentHeader S fileId fileName fileKey content))
    (kept : content.length.toUInt64.toNat = content.length)
    (stored : Stored S keeper.disk ⟨S.clientKey,fileKey,fileId⟩
      (UploadHeader.metadata S (sentHeader S fileId fileName fileKey content)) content)
    (unlocked : FileLock.Unlocked keeper.locks fileId)
    (writable : Writable reader.disk output fileName) :
    ∃ nonce time stream last saved,
      Advances Host.handle (S.downloadClient fileId fileKey output) reader []
        (Frame.frame S.cipher S.sessionKey nonce (Command.serialize (.download ⟨fileId,fileKey⟩)))
        (S.saveFile output) {reader with drawn := reader.drawn + 1} ∧
      Advances Host.handle (S.handleDownload ⟨fileId,fileKey⟩) keeper [] stream (.done (.ok ())) last ∧
      Advances Host.handle (S.saveFile output) {reader with drawn := reader.drawn + 1} stream []
        (.done (.ok ⟨output ++ [fileName],
          ⟨fileName,content.length.toUInt64,S.sha256Hex content,time⟩⟩)) saved ∧
      saved.disk.content (output ++ [fileName]) = some content := by
  have command := downloadRequestFits S accepted
  obtain ⟨nonce,requested⟩ := frameWritten (S := S) (h := reader)
    (Command.serialize (.download ⟨fileId,fileKey⟩))
    (by unfold Frame.maxFrameLength at command; unfold Frame.u32Max; omega)
  obtain ⟨cut,prefix8⟩ := hashCut S content
  obtain ⟨responseNonce,time,boxes,last,sealed_,served⟩ := downloadServed
    (h := keeper) ⟨fileId,fileKey⟩ unlocked stored
    (MetadataFile.metadataRead (responseFits fits accepted ⟨[0,0,0,0],rfl⟩).2) prefix8 even
    (fun time => by
      have bound := (responseFits fits accepted time).1
      simp only [UploadHeader.metadata,sentHeader]
      unfold Frame.maxFrameLength at bound
      unfold Frame.u32Max
      omega)
  obtain ⟨saved,holds,written⟩ := fileSaved (S := S) (h := {reader with drawn := reader.drawn + 1})
    ⟨fileName,content.length.toUInt64,S.sha256Hex content,time⟩ responseNonce
    plain writable.1 writable.2 (responseFits fits accepted time).1 kept rfl sealed_
  exact ⟨nonce,time,_,last,saved,advancesLast requested (.rest _ _),served,written,holds⟩

theorem downloadMeets {reader keeper : Host} {output : Path} (plain : Path.Plain fileName)
    (fits : Fits S fileId fileName fileKey content) (even : readChunkSize ∣ content.length)
    (accepted : Accepted S.maxFileSize (sentHeader S fileId fileName fileKey content))
    (kept : content.length.toUInt64.toNat = content.length)
    (stored : Stored S keeper.disk ⟨S.clientKey,fileKey,fileId⟩
      (UploadHeader.metadata S (sentHeader S fileId fileName fileKey content)) content)
    (unlocked : FileLock.Unlocked keeper.locks fileId)
    (writable : Writable reader.disk output fileName) :
    ∃ final, Reach Host.handle Host.handle (downloadMeeting S reader keeper fileId fileKey output)
      final ∧ final.left.finished = true ∧ Retrieved S fileName content final := by
  obtain ⟨nonce,time,stream,last,saved,asked,served,written,holds⟩ :=
    downloadSides plain fits even accepted kept stored unlocked writable
  have dispatched : S.dispatch (.download ⟨fileId,fileKey⟩) = S.handleDownload ⟨fileId,fileKey⟩ := by
    have valid : (DownloadHeader.mk fileId fileKey).validate = .ok () := downloadValidated accepted
    simp only [dispatch,valid]
  rw [← dispatched] at served
  exact ⟨_,Runs.leadsTrans (leftTurn asked) (Runs.leadsTrans
    (rightTurn (commandTaken (downloadRequestFits S accepted) served)) (leftTurn written)),rfl,rfl,_,
    rfl,holds,rfl,kept,rfl⟩

theorem lengthRefused {h : Host} {n : Nat} (long : Frame.maxFrameLength < n)
    (range : n < 4294967296 + (nonceLen + tagLen)) :
    ∃ message, Advances Host.handle S.readHeaders h (Frame.be32 n) [] (.done (.err message)) h := by
  have length := frameLengthTaken (h := h) (Frame.be32Length n)
  suffices refused : ∃ message, Advances Host.handle S.readEncryptDataInto h (Frame.be32 n) []
      (.done (.err message)) h by
    obtain ⟨message,read⟩ := refused
    exact ⟨message,advancesBind read⟩
  unfold readEncryptDataInto
  rcases Frame.longLength long range with ⟨message,admitted⟩ | ⟨len,short,admitted⟩
  · rw [admitted] at length
    exact ⟨message,advancesBind length⟩
  · rw [admitted] at length
    refine ⟨s!"Frame length too short for encrypted header: {len}",?_⟩
    refine advancesLast length ?_
    rw [if_pos short]
    exact .rest _ _

theorem connectionRefused {h : Host} {input : Bytes} {message : String}
    (failed : Advances Host.handle S.readHeaders h input [] (.done (.err message)) h) :
    ∃ output result last, Advances Host.handle S.handleConnection h input output (.done result) last ∧
      (output = [] ∨ ∃ nonce body, output = Frame.frame S.cipher S.sessionKey nonce (3 :: body) ∧
        body.length ≤ 100) := by
  unfold handleConnection
  have caught := advancesAttempt failed
  have body : (ErrorHeader.serialize ⟨408,"Request timed out"⟩).length ≤ 100 := by
    have code := Postcard.varintLength (n := 408) (k := 1) (by decide)
    have text := shortString (s := "Request timed out") (k := 0) (by decide)
    have size : "Request timed out".utf8ByteSize = 17 := by decide
    have same : (408 : UInt16).toNat = 408 := rfl
    simp only [ErrorHeader.serialize,List.length_append,same]
    omega
  rcases Classical.em (message.contains "Timeout" = true) with timeout | other
  · obtain ⟨nonce,sent⟩ := closingWritten (S := S) (h := h)
      (3 :: ErrorHeader.serialize ⟨408,"Request timed out"⟩)
      (by rw [List.length_cons]; unfold Frame.u32Max; omega)
    refine ⟨_,.ok (),{h with drawn := h.drawn + 1},advancesTaken caught ?_,.inr ⟨nonce,_,rfl,body⟩⟩
    simp only [timeout,if_true]
    exact advancesLast (advancesAttempt sent) (.rest _ _)
  · rcases Classical.em (["eof","early eof","unexpected eof"].any
      (fun pattern => message.toLower.contains pattern) = true) with gone | odd
    · refine ⟨[],.ok (),h,advancesTaken caught ?_,.inl rfl⟩
      simp only [other,gone,if_true]
      exact .rest _ _
    · refine ⟨[],.err message,h,advancesTaken caught ?_,.inl rfl⟩
      simp only [other,odd]
      exact .rest _ _

theorem streamEnds (path : Path) : ∃ next message,
    S.uploadStream path = .call (PortCall.recv 4) next ∧ next (.error .eof) = .done (.err message) :=
  ⟨_,_,rfl,rfl⟩

theorem streamRefused (h : Host) (nonce : Nonce) {body : Bytes} (path : Path)
    (small : body.length ≤ 100) : ∃ message, Advances Host.handle (S.uploadStream path) h
      (Frame.frame S.cipher S.sessionKey nonce (3 :: body)) [] (.done (.err message)) h := by
  have fits : nonceLen + (3 :: body).length + tagLen ≤ Frame.maxFrameLength := by
    rw [List.length_cons]
    unfold nonceLen tagLen Frame.maxFrameLength
    omega
  have flag : index (3 :: body) 0 = .ok 3 := rfl
  cases decoded : ErrorHeader.deserialize body with
  | ok err =>
    refine ⟨s!"Upload failed: {err.code} - {err.message}",?_⟩
    refine advancesTaken (frameTaken fits) ?_
    simp only [flag,Program.liftDone,Program.bindDone,List.tail_cons,decoded,if_true]
    exact .rest _ _
  | err message =>
    refine ⟨message,?_⟩
    refine advancesTaken (frameTaken fits) ?_
    simp only [flag,Program.liftDone,Program.bindDone,List.tail_cons,decoded,if_true,Program.bindErr]
    exact .rest _ _
  | panic =>
    unfold ErrorHeader.deserialize Outcome.ofOption at decoded
    split at decoded <;> contradiction

def Link.Succeeded {α β : Type} (final : Link HostSig Host Host α β) (a : α) (b : β) : Prop :=
  final.left.program = .done (.ok a) ∧ final.right.program = .done (.ok b)

/- In every order of steps the upload ends with success at both ends, and so does
every later download of it by the same client, with the same file in the end. -/
def ComesBack (S : Session) (client server : Host) (path : Path)
    (fileKey fileId fileName : String) (content : Bytes) : Prop :=
  ∀ uploaded, Complete Host.handle Host.handle
      (uploadMeeting S client server path fileKey fileId) uploaded →
    Link.Succeeded uploaded fileId () ∧
    ∀ sessionKey reader output downloaded, Writable reader.disk output fileName →
      Complete Host.handle Host.handle (downloadMeeting {S with sessionKey := sessionKey} reader
        uploaded.right.host fileId fileKey output) downloaded →
      Retrieved S fileName content downloaded

theorem finishedOf {α β : Type} {final : Link HostSig Host Host α β} {a : α} {b : β}
    (succeeded : Link.Succeeded final a b) :
    Runs.Stuck (Duplex.step Host.handle Host.handle) final := by
  apply finishedStuck
  · unfold End.finished
    rw [succeeded.1]
  · unfold End.finished
    rw [succeeded.2]

theorem evenComesBack (prepared : Prepared S client server path fileKey fileId fileName content)
    (even : readChunkSize ∣ content.length) (fits : Fits S fileId fileName fileKey content) :
    ComesBack S client server path fileKey fileId fileName content := by
  intro uploaded complete
  obtain ⟨final,reached,left,right,stored,unlocked⟩ := uploadMeets prepared fits even
  have same : final = uploaded :=
    completeUnique _ _ ⟨reached,finishedOf ⟨left,right⟩⟩ complete
  subst same
  refine ⟨⟨left,right⟩,?_⟩
  intro sessionKey reader output downloaded writable completeDownload
  have accepted := Header.validated prepared.accepted
  obtain ⟨last,reachedLast,-,retrieved⟩ := downloadMeets (S := {S with sessionKey := sessionKey})
    prepared.plain fits even accepted (sizeKept prepared) ⟨stored.dir,stored.file,stored.meta_⟩ unlocked
    writable
  obtain ⟨result,leftDone,-⟩ := retrieved.2
  have sameLast : last = downloaded := completeUnique _ _
    ⟨reachedLast,finishedOf (a := result) ⟨leftDone,retrieved.1⟩⟩ completeDownload
  subst sameLast
  exact retrieved

theorem unevenStops (prepared : Prepared S client server path fileKey fileId fileName content)
    (uneven : ¬ readChunkSize ∣ content.length) (fits : Fits S fileId fileName fileKey content) :
    ∃ m, Reach Host.handle Host.handle (uploadMeeting S client server path fileKey fileId) m ∧
      m.left.program = .done .panic := by
  obtain ⟨arc,networkElapsed,nonce,sender,receiver,stored,opened,started⟩ :=
    uploadStarts prepared fits
  have buffer : freshEncBuf.length = readChunkSize + nonceLen + tagLen := by
    simp only [freshEncBuf,List.length_replicate]
  have room : ∀ x ∈ fullReads readChunkSize content,
      nonceLen + x.length + tagLen ≤ freshEncBuf.length := by
    intro x member
    have size := fullReadsSizes (by decide) x member
    omega
  have odd : ∃ x ∈ fullReads readChunkSize content,
      nonceLen + x.length + tagLen ≠ freshEncBuf.length := by
    obtain ⟨x,member,different⟩ := fullReadsUneven (by decide) uneven
    exact ⟨x,member,by omega⟩
  obtain ⟨output,drawn,panicked⟩ := unevenPanics (S := S) (h := sender) room odd
  have streamed := ackTaken (S := S) nonce stored
    (advancesBind (f := fun _ => S.uploadOutcome) panicked)
  exact ⟨_,Runs.leadsTrans started (leftTurn streamed),rfl⟩

theorem oversizedStops (prepared : Prepared S client server path fileKey fileId fileName content)
    (oversized : ¬ Fits S fileId fileName fileKey content) :
    ∃ m message, Reach Host.handle Host.handle (uploadMeeting S client server path fileKey fileId) m ∧
      m.left.program = .done (.err message) := by
  unfold Fits at oversized
  rcases Nat.lt_or_ge Frame.u32Max (Command.serialize (.upload
      (sentHeader S fileId fileName fileKey content))).length with large | small
  · have refused : Advances Host.handle (S.uploadClient path fileKey fileId) client [] []
        (.done (.err s!"Too large content: {(Command.serialize (.upload
          (sentHeader S fileId fileName fileKey content))).length} bytes")) client := by
      unfold uploadClient
      rw [prepared.named]
      refine advancesQuiet (Host.fsAdvances (.size path)) ?_
      simp only [Fs.exec,prepared.stored,Option.map_some]
      refine advancesQuiet (Host.readAdvances prepared.stored) ?_
      unfold writeEncryptFrameInto
      unfold sentHeader at large
      rw [if_pos large]
      exact .rest _ _
    exact ⟨_,_,leftTurn refused,rfl⟩
  · obtain ⟨nonce,requested⟩ := requestSent (S := S) prepared.named prepared.stored small
    have long : Frame.maxFrameLength < nonceLen + (Command.serialize (.upload
      (sentHeader S fileId fileName fileKey content))).length + tagLen := Nat.not_le.mp oversized
    obtain ⟨message,failed⟩ := lengthRefused (S := S) (h := server) long
      (by unfold Frame.u32Max at small; omega)
    obtain ⟨output,result,last,refused,answered⟩ := connectionRefused failed
    have met : Reach Host.handle Host.handle (uploadMeeting S client server path fileKey fileId)
        ⟨⟨S.uploadStream path,{client with drawn := client.drawn + 1}⟩,⟨.done result,last⟩,output,
          S.cipher.sealed S.sessionKey nonce (Command.serialize (.upload
            (sentHeader S fileId fileName fileKey content)))⟩ :=
      Runs.leadsTrans (leftTurn requested) (rightAdvances refused)
    rcases answered with rfl | ⟨answer,body,rfl,short⟩
    · obtain ⟨next,ended,waits,gives⟩ := streamEnds (S := S) path
      rw [waits] at met
      refine ⟨_,ended,Runs.leadsTrans met (leftEof rfl (by simp)),?_⟩
      exact gives
    · obtain ⟨ended,streamed⟩ := streamRefused (S := S)
        {client with drawn := client.drawn + 1} answer path short
      rw [← List.append_nil (Frame.frame _ _ _ _)] at met
      exact ⟨_,ended,Runs.leadsTrans met (leftAdvances streamed),rfl⟩

theorem comesBackExactly (prepared : Prepared S client server path fileKey fileId fileName content) :
    ComesBack S client server path fileKey fileId fileName content ↔
      readChunkSize ∣ content.length ∧ Fits S fileId fileName fileKey content := by
  constructor
  · intro back
    obtain ⟨final,complete⟩ := completes Host.handle Host.handle
      (uploadMeeting S client server path fileKey fileId)
    have ended := (back final complete).1.1
    rcases Classical.em (Fits S fileId fileName fileKey content) with fits | oversized
    · refine ⟨?_,fits⟩
      by_contra uneven
      obtain ⟨m,reached,panicked⟩ := unevenStops prepared uneven fits
      have stopped := leftEnds _ _ reached panicked complete
      rw [ended] at stopped
      cases stopped
    · obtain ⟨m,message,reached,failed⟩ := oversizedStops prepared oversized
      have stopped := leftEnds _ _ reached failed complete
      rw [ended] at stopped
      cases stopped
  · intro condition
    exact evenComesBack prepared condition.1 condition.2

def sampleSession : Session where
  cipher := clearCipher
  hashes := padHashes
  ed25519 := echoSignature
  sessionKey := List.replicate 32 7
  clientKey := List.replicate 32 9
  home := ["home"]
  maxFileSize := 8 * 1024 * 1024 * 1024
  enableEcho := false
  echoRounds := 0
  enableClientWhitelist := false

def sampleHost (disk : Fs) : Host where
  disk := disk
  locks := FileLock.initial
  random _ n := ⟨List.replicate n 0,List.length_replicate⟩
  drawn := 0
  clock _ := ⟨[0,0,0,0],rfl⟩
  ticks := 0
  millis _ := 0
  uptime := ⟨List.replicate 8 0,rfl⟩
  now := ""
  uploaded := []
  downloaded := []

theorem emptyReady (S : Session) (slot : Slot) : SlotReady S ⟨[]⟩ slot := by
  have nothing : ∀ q : Path, q ≠ [] → (⟨[]⟩ : Fs).get q = none := by
    intro q inner
    simp [Fs.get,inner]
  refine ⟨?_,?_,?_⟩
  · intro q _
    rcases Classical.em (q = []) with rfl | inner
    · exact .inr rfl
    · exact .inl (nothing q inner)
  · simp [Fs.isDir,nothing _ (fileInner S slot)]
  · simp [Fs.isDir,nothing _ (metaInner S slot)]

def sampleClient (content : Bytes) : Host := sampleHost ⟨[(["dummy.bin"],.file content)]⟩

theorem sampleAccepted (S : Session) (limit : S.maxFileSize = 8 * 1024 * 1024 * 1024) (content : Bytes)
    (large : 1024 * 1024 ≤ content.length.toUInt64) (bounded : content.length ≤ 8589934592) :
    (sentHeader S "4a43afa64e9342fc8320e63a43eb193b" "dummy.bin" "ronak" content).validate
      S.maxFileSize = .ok () := by
  apply acceptedValidates
  refine ⟨?_,?_,⟨large,?_⟩,?_,?_⟩
  · change 32 ≤ "4a43afa64e9342fc8320e63a43eb193b".utf8ByteSize ∧
      "4a43afa64e9342fc8320e63a43eb193b".utf8ByteSize ≤ 256
    decide
  · change 0 < "dummy.bin".utf8ByteSize
    decide
  · rw [limit,UInt64.le_iff_toNat_le]
    simp only [sentHeader,Nat.toUInt64,UInt64.toNat_ofNat']
    exact Nat.le_trans (Nat.mod_le _ _) bounded
  · rw [sentHeader,hexLength]
    decide
  · change 0 < "ronak".utf8ByteSize ∧ "ronak".utf8ByteSize ≤ 512
    decide

theorem samplePrepared (content : Bytes) (large : 1024 * 1024 ≤ content.length.toUInt64)
    (bounded : content.length ≤ 8589934592) :
    Prepared sampleSession (sampleClient content) (sampleHost ⟨[]⟩) ["dummy.bin"] "ronak"
      "4a43afa64e9342fc8320e63a43eb193b" "dummy.bin" content where
  named := rfl
  plain := ⟨by decide,by decide⟩
  stored := by simp [sampleClient,sampleHost,Fs.content,Fs.get]
  bounded := bounded
  accepted := sampleAccepted sampleSession rfl content large bounded
  unlocked := by
    intro arc found
    contradiction
  ready := emptyReady _ _

theorem serverFits (S : Session) (content : Bytes) :
    Fits S "4a43afa64e9342fc8320e63a43eb193b" "dummy.bin" "ronak" content := by
  have variant := Postcard.varintLength (n := 2) (k := 0) (by decide)
  have id := shortString (s := "4a43afa64e9342fc8320e63a43eb193b") (k := 0) (by decide)
  have idSize : "4a43afa64e9342fc8320e63a43eb193b".utf8ByteSize = 32 := by decide
  have name := shortString (s := "dummy.bin") (k := 0) (by decide)
  have nameSize : "dummy.bin".utf8ByteSize = 9 := by decide
  have hash := shortString (s := S.sha256Hex content) (k := 0) (by rw [hexLength]; decide)
  rw [hexLength] at hash
  have key := shortString (s := "ronak") (k := 0) (by decide)
  have keySize : "ronak".utf8ByteSize = 5 := by decide
  have number := Postcard.varintLength (n := content.length.toUInt64.toNat) (k := 9)
    (Nat.lt_of_lt_of_le (UInt64.toNat_lt _) (by decide))
  unfold Fits nonceLen tagLen Frame.maxFrameLength
  simp only [Command.serialize,UploadHeader.serialize,sentHeader,List.length_append]
  omega

theorem sampleFits (content : Bytes) :
    Fits sampleSession "4a43afa64e9342fc8320e63a43eb193b" "dummy.bin" "ronak" content :=
  serverFits sampleSession content

theorem unevenLengthFails : ¬ ∀ (S : Session) (client server : Host) (path : Path)
    (fileKey fileId fileName : String) (content : Bytes),
    Prepared S client server path fileKey fileId fileName content →
      ComesBack S client server path fileKey fileId fileName content := by
  intro always
  have prepared := samplePrepared (List.replicate 1048577 0)
    (by rw [List.length_replicate]; decide) (by rw [List.length_replicate]; decide)
  obtain ⟨m,reached,panicked⟩ := unevenStops prepared
    (by rw [List.length_replicate]; decide) (sampleFits _)
  obtain ⟨final,complete⟩ := completes Host.handle Host.handle (uploadMeeting sampleSession
    (sampleClient (List.replicate 1048577 0)) (sampleHost ⟨[]⟩) ["dummy.bin"] "ronak"
    "4a43afa64e9342fc8320e63a43eb193b")
  have ended := (always _ _ _ _ _ _ _ _ prepared final complete).1.1
  rw [leftEnds _ _ reached panicked complete] at ended
  cases ended

theorem mebibyteComesBack : ComesBack sampleSession (sampleClient (List.replicate 1048576 0))
    (sampleHost ⟨[]⟩) ["dummy.bin"] "ronak" "4a43afa64e9342fc8320e63a43eb193b" "dummy.bin"
    (List.replicate 1048576 0) := by
  have prepared := samplePrepared (List.replicate 1048576 0)
    (by rw [List.length_replicate]; decide) (by rw [List.length_replicate]; decide)
  exact (comesBackExactly prepared).mpr ⟨by rw [List.length_replicate]; decide,sampleFits _⟩

end RoundTrip
end RDrive
