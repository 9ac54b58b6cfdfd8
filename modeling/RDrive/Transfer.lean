import RDrive.Lib.Path
import RDrive.Session

/-! Upload and download as protocol_v1.rs runs them, both ends, from the request
on. Chunks travel as bare sealed boxes through buffers of a fixed size. Leaving a
handler early drops its guard; the entry in the lock table stays. -/
namespace RDrive
open Crypto Header Party Bytes

def readChunkSize : Nat := 65536

structure MetadataFile where
  filename : String
  fileSize : UInt64
  fileHash : String
  fileKeyHash : String
  deriving DecidableEq, Repr

namespace MetadataFile
open Postcard

def serialize (m : MetadataFile) : Bytes :=
  string m.filename ++ varint m.fileSize.toNat ++ string m.fileHash ++ string m.fileKeyHash

def readMetadata : Reader MetadataFile :=
  andThen readString fun filename => andThen readSize fun fileSize =>
  andThen readString fun fileHash => andThen readString fun fileKeyHash =>
  yield ⟨filename,fileSize,fileHash,fileKeyHash⟩

def deserialize (b : Bytes) : Option MetadataFile := fromBytes readMetadata b

theorem metadataRead {m : MetadataFile} (fits : m.serialize.length < 2 ^ 64) :
    deserialize m.serialize = some m := by
  have filename := (stringLength m.filename).1
  have fileHash := (stringLength m.fileHash).1
  have fileKeyHash := (stringLength m.fileKeyHash).1
  simp only [serialize,List.length_append] at fits
  have last := @stringRead m.fileKeyHash (by omega) []
  rw [List.append_nil] at last
  have read : readMetadata m.serialize = some (m,[]) := by
    simp only [serialize,List.append_assoc,readMetadata]
    rw [andThenOf (stringRead (by omega) _),andThenOf (sizeRead _ _),
      andThenOf (stringRead (by omega) _),andThenOf last]
    rfl
  exact fromBytesOf read

end MetadataFile

/- A slot of the store: whose, under which file key, under which id. -/
structure Slot where
  clientKey : Bytes
  fileKey : String
  fileId : String

namespace Session

def userDirPath (S : Session) (slot : Slot) : Path :=
  S.getStorageDir ++ [S.sha512Hex slot.clientKey,S.sha256Hex (Postcard.utf8 slot.fileKey)]
def filePath (S : Session) (slot : Slot) : Path :=
  S.userDirPath slot ++ [S.sha256Hex (Postcard.utf8 slot.fileId) ++ ".file"]
def metaPath (S : Session) (slot : Slot) : Path :=
  S.userDirPath slot ++ [S.sha256Hex (Postcard.utf8 slot.fileId) ++ ".meta"]

theorem fileBesideMeta (S : Session) (slot : Slot) : S.filePath slot ≠ S.metaPath slot := by
  intro same
  have names := List.append_cancel_left same
  have ends := (String.append_right_inj _).mp (List.cons.inj names).1
  exact absurd ends (by decide)

theorem fileInner (S : Session) (slot : Slot) : S.filePath slot ≠ [] := by simp [filePath]
theorem metaInner (S : Session) (slot : Slot) : S.metaPath slot ≠ [] := by simp [metaPath]

theorem notAbove {p : Path} {x : String} : ¬ (p ++ [x]) <+: p := by
  intro below
  have := below.length_le
  simp only [List.length_append,List.length_singleton] at this
  omega

theorem fileParent (S : Session) (slot : Slot) : (S.filePath slot).dropLast = S.userDirPath slot :=
  List.dropLast_concat
theorem metaParent (S : Session) (slot : Slot) : (S.metaPath slot).dropLast = S.userDirPath slot :=
  List.dropLast_concat

theorem userDirBesideFile (S : Session) (slot : Slot) : S.userDirPath slot ≠ S.filePath slot := by
  intro same
  have := congrArg List.length same
  simp [filePath] at this

theorem userDirBesideMeta (S : Session) (slot : Slot) : S.userDirPath slot ≠ S.metaPath slot := by
  intro same
  have := congrArg List.length same
  simp [metaPath] at this

/- BufWriter::with_capacity(READ_CHUNK_SIZE * 2): what waits in it is returned. -/
def bufCapacity : Nat := readChunkSize * 2

def bufWrite (path : Path) (pending data : Bytes) : Party Bytes := do
  if bufCapacity < pending.length + data.length then
    append path pending
    if bufCapacity ≤ data.length then
      append path data
      pure []
    else pure data
  else if bufCapacity ≤ data.length then
    append path data
    pure pending
  else pure (pending ++ data)

def bufFlush (path : Path) (pending : Bytes) : Party Unit :=
  if pending = [] then pure () else append path pending

structure Received where
  hashed : Bytes
  pending : Bytes

theorem opensWhole {A : Cipher} {key input output data : Bytes} {n : Nat}
    (h : decryptInto A input output key = .ok (data,n)) :
    n = input.length - nonceLen - tagLen ∧ nonceLen + tagLen ≤ input.length := by
  unfold decryptInto at h
  split at h
  · contradiction
  · rename_i long
    dsimp only at h
    split at h
    · contradiction
    · simp only [Outcome.bindIsOk] at h
      obtain ⟨_,-,_,-,_,-,_,-,_,-,last⟩ := h
      split at last
      · simp only [Outcome.ok.injEq,Prod.mk.injEq] at last
        exact ⟨last.2.symm,by omega⟩
      · contradiction

/- The receive loop, the same at both ends. `received` grows by what each chunk
was asked to hold, since decryptInto gives all of it. -/
def receiveLoop (S : Session) (timeoutText : String) (path : Path) (fileSize : Nat)
    (decBuf hashed pending : Bytes) (received : Nat) : Party Received :=
  if _more : received < fileSize then
    let plainText := min readChunkSize (fileSize - received)
    let cipherText := nonceLen + plainText + tagLen
    .call (PortCall.recv cipherText) fun
      | .error .timedOut => .fail timeoutText
      | .error fault => .fail (Fault.text fault)
      | .ok encBuf =>
        match _opened : decryptInto S.cipher encBuf.val decBuf S.sessionKey with
        | .err message => .fail message
        | .panic => .done .panic
        | .ok (decBuf,decLen) => do
          let dec ← slice decBuf 0 decLen
          let pending ← bufWrite path pending dec
          S.receiveLoop timeoutText path fileSize decBuf (hashed ++ dec) pending (received + decLen)
  else pure ⟨hashed,pending⟩
termination_by fileSize - received
decreasing_by
  have size := (opensWhole _opened).1
  rw [encBuf.property] at size
  have chunk : 0 < readChunkSize := by decide
  omega

/- The send loop over the results of reading the file to its end. -/
def sendLoop (S : Session) (encBuf : Bytes) : List Bytes → Party Unit
  | [] => pure ()
  | plain :: rest => do
    let nonce ← draw nonceLen
    let (encBuf,encLen) ← encryptInto S.cipher plain encBuf S.sessionKey nonce
    let chunk ← slice encBuf 0 encLen
    send chunk
    S.sendLoop encBuf rest

/- vec![0u8; READ_CHUNK_SIZE + NONCE_LEN + TAG_LEN] and vec![0u8; READ_CHUNK_SIZE] -/
def freshEncBuf : Bytes := List.replicate (readChunkSize + nonceLen + tagLen) 0
def freshDecBuf : Bytes := List.replicate readChunkSize 0

/- handle_upload from the end of its loop on. -/
def finishUpload (S : Session) (headers : UploadHeader) (arc : FileLock.Arc) (networkElapsed : F32)
    (found : Received) : Party Unit := do
  let slot : Slot := ⟨S.clientKey,headers.fileKey,headers.fileId⟩
  bufFlush (S.filePath slot) found.pending
  let computedHash := S.sha256Hex found.hashed
  if computedHash ≠ headers.fileHash then
    let _ ← fs (.remove (S.filePath slot))
    S.sendFailed ⟨406,"File hash mismatch"⟩
  else
    write (S.metaPath slot) (MetadataFile.serialize ⟨headers.fileName,headers.fileSize,
      headers.fileHash,S.sha256Hex (Postcard.utf8 headers.fileKey)⟩)
    S.sendSuccess ⟨headers.fileId,computedHash,networkElapsed⟩
    dropGuard .upload arc
    releaseFileLock headers.fileId
    logUpload headers.fileSize.toNat

def handleUpload (S : Session) (headers : UploadHeader) : Party Unit := do
  let slot : Slot := ⟨S.clientKey,headers.fileKey,headers.fileId⟩
  let arc ← holdFileLock headers.fileId
  if ← tryLock .upload arc then
    createDirAll (S.userDirPath slot)
    -- info! cuts the hash at byte 8
    let _ ← Hex.cutBefore headers.fileHash 8
    S.writeEncryptFrameInto [1]
    let networkElapsed ← elapsed
    create (S.filePath slot)
    let found ← S.receiveLoop "Upload timed out reading chunk" (S.filePath slot)
      headers.fileSize.toNat freshDecBuf [] [] 0
    S.finishUpload headers arc networkElapsed found
  else S.sendFailed ⟨409,"File is currently locked by another operation"⟩

/- handle_download after its last chunk. -/
def closeDownload (headers : DownloadHeader) (arc : FileLock.Arc) (metadata : MetadataFile) :
    Party Unit := do
  flush
  shutdown
  dropGuard .download arc
  releaseFileLock headers.fileId
  logDownload metadata.fileSize.toNat

/- handle_download once the metadata is read. -/
def serveFile (S : Session) (headers : DownloadHeader) (arc : FileLock.Arc)
    (metadata : MetadataFile) : Party Unit := do
  let slot : Slot := ⟨S.clientKey,headers.fileKey,headers.fileId⟩
  let _ ← Hex.cutBefore metadata.fileHash 8
  let networkElapsed ← elapsed
  S.writeEncryptFrameInto (1 :: DownloadResponse.serialize
    ⟨metadata.filename,metadata.fileSize,metadata.fileHash,networkElapsed⟩)
  match ← reads (S.filePath slot) readChunkSize with
  | none => .fail "File::open"
  | some chunks =>
    S.sendLoop freshEncBuf chunks
    closeDownload headers arc metadata

def handleDownload (S : Session) (headers : DownloadHeader) : Party Unit := do
  let slot : Slot := ⟨S.clientKey,headers.fileKey,headers.fileId⟩
  let arc ← holdFileLock headers.fileId
  if ← tryLock .download arc then
    if ← fs (.exists_ (S.userDirPath slot)) then
      if ← fs (.exists_ (S.metaPath slot)) then
        match (← fs (.read (S.metaPath slot))).bind MetadataFile.deserialize with
        | none => S.sendFailed ⟨500,"Failed to read metadata"⟩
        | some metadata => S.serveFile headers arc metadata
      else S.sendFailed ⟨404,"Metadata File not found"⟩
    else S.sendFailed ⟨404,"File not found"⟩
  else S.sendFailed ⟨409,"File is currently being uploaded or modified"⟩

/- upload_client once the server let it through, and after its last chunk. -/
def uploadOutcome (S : Session) : Party String := do
  let response ← S.readEncryptDataInto
  let flag ← index response 0
  if flag = 3 then
    let err ← ErrorHeader.deserialize response.tail
    .fail s!"Upload failed: {err.code} - {err.message}"
  else
    if flag = 2 then
      let _ ← WarnHeader.deserialize response.tail
    if flag ≠ 2 ∧ flag ≠ 1 then .fail s!"Unknown header byte: {flag}"
    else
      let rsp ← UploadResponse.deserialize response.tail
      shutdown
      pure rsp.fileId

def uploadStream (S : Session) (filePath : Path) : Party String := do
  let response ← S.readEncryptDataInto
  let flag ← index response 0
  if flag = 3 then
    let err ← ErrorHeader.deserialize response.tail
    .fail s!"Upload failed: {err.code} - {err.message}"
  else
    -- a warning is only printed, and any other flag passes as well
    if flag = 2 then
      let _ ← WarnHeader.deserialize response.tail
    match ← reads filePath readChunkSize with
    | none => .fail "File::open"
    | some chunks =>
      S.sendLoop freshEncBuf chunks
      S.uploadOutcome

/- upload_client, with the handshake left out. -/
def uploadClient (S : Session) (filePath : Path) (fileKey fileId : String) : Party String := do
  match filePath.getLast? with
  | none => .fail "Invalid file path"
  | some fileName =>
    match ← fs (.size filePath) with
    | none => .fail "fs::metadata"
    | some fileSize =>
      let content ← read filePath
      let fileHash := S.sha256Hex content
      S.writeEncryptFrameInto (Command.serialize (.upload
        ⟨fileId,fileName,fileSize.toUInt64,fileHash,fileKey⟩))
      S.uploadStream filePath

/- What download_client prints about a file, and where it saved it. -/
structure Downloaded where
  outputPath : Path
  response : DownloadResponse

def finishDownload (S : Session) (outputPath : Path) (response : DownloadResponse)
    (found : Received) : Party Downloaded := do
  bufFlush outputPath found.pending
  let computedHash := S.sha256Hex found.hashed
  if computedHash ≠ response.fileHash then
    let _ ← fs (.remove outputPath)
    .fail s!"✗ Hash mismatch: expected {response.fileHash} but computed {computedHash}"
  else pure ⟨outputPath,response⟩

/- download_client from its response on. -/
def saveResponse (S : Session) (output : Path) (response : DownloadResponse) : Party Downloaded :=
  match Path.join output response.fileName with
  | none => .fail "File::create"
  | some outputPath => do
    create outputPath
    let found ← S.receiveLoop "Client download timed out reading chunk" outputPath
      response.fileSize.toNat freshDecBuf [] [] 0
    S.finishDownload outputPath response found

/- download_client from the first response on. -/
def saveFile (S : Session) (output : Path) : Party Downloaded := do
  let headerBytes ← S.readEncryptDataInto
  let flag ← index headerBytes 0
  if flag = 3 then
    let err ← ErrorHeader.deserialize headerBytes.tail
    .fail s!"Download failed: {err.code} - {err.message}"
  else
    if flag = 2 then
      let _ ← WarnHeader.deserialize headerBytes.tail
    if flag ≠ 2 ∧ flag ≠ 1 then .fail s!"Unknown header byte: {flag}"
    else
      let response ← DownloadResponse.deserialize headerBytes.tail
      S.saveResponse output response

def downloadClient (S : Session) (fileId fileKey : String) (output : Path) : Party Downloaded := do
  S.writeEncryptFrameInto (Command.serialize (.download ⟨fileId,fileKey⟩))
  S.saveFile output

end Session
end RDrive
