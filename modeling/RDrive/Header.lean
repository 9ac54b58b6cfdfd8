import RDrive.Lib.Postcard

/-! header.rs: the commands and responses of the v1 protocol and their postcard
form. Every decoder ignores bytes after the value, as from_bytes does. -/
namespace RDrive.Header
open Postcard

/- An f32 travels as its four bytes and is never computed with here. -/
abbrev F32 := {b : Bytes // b.length = 4}

def readF32 : Reader F32 := fun b =>
  if h : 4 ≤ b.length then some (⟨b.take 4,by simp [h]⟩,b.drop 4) else none

theorem f32Read (x : F32) (rest : Bytes) : readF32 (x.val ++ rest) = some (x,rest) := by
  have size := x.property
  unfold readF32
  rw [dif_pos (by simp [size])]
  simp [List.take_left' size,List.drop_left' size]

structure UploadHeader where
  fileId : String
  fileName : String
  fileSize : UInt64
  fileHash : String
  fileKey : String
  deriving DecidableEq, Repr

structure UploadResponse where
  fileId : String
  fileHash : String
  networkTime : F32
  deriving DecidableEq, Repr

structure DownloadHeader where
  fileId : String
  fileKey : String
  deriving DecidableEq, Repr

structure DownloadResponse where
  fileName : String
  fileSize : UInt64
  fileHash : String
  networkTime : F32
  deriving DecidableEq, Repr

structure ErrorHeader where
  code : UInt16
  message : String
  deriving DecidableEq, Repr

structure WarnHeader where
  code : UInt16
  message : String
  deriving DecidableEq, Repr

structure EchoDebugHeader where
  payloadLen : UInt32
  payloadHash : {b : Bytes // b.length = 32}
  processMs : BitVec 128
  deriving DecidableEq, Repr

/- The f64 uptime is its eight bytes, like the f32 above. -/
structure StatusHeader where
  timestamp : String
  uptimeHrs : {b : Bytes // b.length = 8}
  authClient : UInt64
  totalUploaded : UInt64
  totalDownloaded : UInt64
  totalBandwidthUsed : UInt64
  deriving DecidableEq, Repr

inductive Command where
  | echo
  | auth (flags : UInt8)
  | upload (header : UploadHeader)
  | download (header : DownloadHeader)
  | status
  deriving DecidableEq, Repr

def readSize : Reader UInt64 := andThen readU64 fun n => yield n.toUInt64

theorem sizeRead (n : UInt64) (rest : Bytes) :
    readSize (varint n.toNat ++ rest) = some (n,rest) := by
  rw [readSize,andThenOf (u64Read n rest)]
  simp [yield]

def UploadHeader.serialize (h : UploadHeader) : Bytes :=
  string h.fileId ++ string h.fileName ++ varint h.fileSize.toNat ++ string h.fileHash ++
    string h.fileKey

def readUploadHeader : Reader UploadHeader :=
  andThen readString fun fileId => andThen readString fun fileName =>
  andThen readSize fun fileSize => andThen readString fun fileHash =>
  andThen readString fun fileKey => yield ⟨fileId,fileName,fileSize,fileHash,fileKey⟩

def UploadResponse.serialize (h : UploadResponse) : Bytes :=
  string h.fileId ++ string h.fileHash ++ h.networkTime.val

def readUploadResponse : Reader UploadResponse :=
  andThen readString fun fileId => andThen readString fun fileHash =>
  andThen readF32 fun networkTime => yield ⟨fileId,fileHash,networkTime⟩

def DownloadHeader.serialize (h : DownloadHeader) : Bytes := string h.fileId ++ string h.fileKey

def readDownloadHeader : Reader DownloadHeader :=
  andThen readString fun fileId => andThen readString fun fileKey => yield ⟨fileId,fileKey⟩

def DownloadResponse.serialize (h : DownloadResponse) : Bytes :=
  string h.fileName ++ varint h.fileSize.toNat ++ string h.fileHash ++ h.networkTime.val

def readDownloadResponse : Reader DownloadResponse :=
  andThen readString fun fileName => andThen readSize fun fileSize =>
  andThen readString fun fileHash => andThen readF32 fun networkTime =>
  yield ⟨fileName,fileSize,fileHash,networkTime⟩

def Command.serialize : Command → Bytes
  | .echo => varint 0
  | .auth flags => varint 1 ++ [flags]
  | .upload header => varint 2 ++ header.serialize
  | .download header => varint 3 ++ header.serialize
  | .status => varint 4

def readCommand : Reader Command :=
  andThen readU32 fun variant =>
    match variant with
    | 0 => yield .echo
    | 1 => andThen readByte fun flags => yield (.auth flags)
    | 2 => andThen readUploadHeader fun header => yield (.upload header)
    | 3 => andThen readDownloadHeader fun header => yield (.download header)
    | 4 => yield .status
    | _ => fun _ => none

def Command.deserialize (b : Bytes) : Outcome Command :=
  .ofOption "Failed to deserialize" (fromBytes readCommand b)
def UploadResponse.deserialize (b : Bytes) : Outcome UploadResponse :=
  .ofOption "Failed to deserialize" (fromBytes readUploadResponse b)
def DownloadResponse.deserialize (b : Bytes) : Outcome DownloadResponse :=
  .ofOption "Failed to deserialize" (fromBytes readDownloadResponse b)

def readU16Value : Reader UInt16 := andThen readU16 fun n => yield n.toUInt16

def ErrorHeader.serialize (h : ErrorHeader) : Bytes := varint h.code.toNat ++ string h.message
def WarnHeader.serialize (h : WarnHeader) : Bytes := varint h.code.toNat ++ string h.message

def EchoDebugHeader.serialize (h : EchoDebugHeader) : Bytes :=
  varint h.payloadLen.toNat ++ h.payloadHash.val ++ varint h.processMs.toNat

def StatusHeader.serialize (h : StatusHeader) : Bytes :=
  string h.timestamp ++ h.uptimeHrs.val ++ varint h.authClient.toNat ++
    varint h.totalUploaded.toNat ++ varint h.totalDownloaded.toNat ++
    varint h.totalBandwidthUsed.toNat

def ErrorHeader.deserialize (b : Bytes) : Outcome ErrorHeader :=
  .ofOption "Failed to deserialize" (fromBytes
    (andThen readU16Value fun code => andThen readString fun message => yield ⟨code,message⟩) b)
def WarnHeader.deserialize (b : Bytes) : Outcome WarnHeader :=
  .ofOption "Failed to deserialize" (fromBytes
    (andThen readU16Value fun code => andThen readString fun message => yield ⟨code,message⟩) b)

def readU32Value : Reader UInt32 := andThen readU32 fun n => yield n.toUInt32

def readEchoDebugHeader : Reader EchoDebugHeader :=
  andThen readU32Value fun payloadLen => andThen (readArray 32) fun payloadHash =>
  andThen readU128 fun processMs => yield ⟨payloadLen,payloadHash,BitVec.ofNat 128 processMs⟩

def readStatusHeader : Reader StatusHeader :=
  andThen readString fun timestamp => andThen (readArray 8) fun uptimeHrs =>
  andThen readSize fun authClient => andThen readSize fun totalUploaded =>
  andThen readSize fun totalDownloaded => andThen readSize fun totalBandwidthUsed =>
  yield ⟨timestamp,uptimeHrs,authClient,totalUploaded,totalDownloaded,totalBandwidthUsed⟩

def EchoDebugHeader.deserialize (b : Bytes) : Outcome EchoDebugHeader :=
  .ofOption "Failed to deserialize" (fromBytes readEchoDebugHeader b)
def StatusHeader.deserialize (b : Bytes) : Outcome StatusHeader :=
  .ofOption "Failed to deserialize" (fromBytes readStatusHeader b)

/- MAX_FILE_SIZE_GB holds a number of bytes in spite of its name. -/
def UploadHeader.validate (maxFileSize : UInt64) (h : UploadHeader) : Outcome Unit :=
  if h.fileId.utf8ByteSize = 0 ∨ ¬ (32 ≤ h.fileId.utf8ByteSize ∧ h.fileId.utf8ByteSize ≤ 256) then
    .err "File ID must be a non-empty string between 32 and 256 characters"
  else if h.fileName.utf8ByteSize = 0 then .err "File name cannot be empty"
  else if h.fileSize < 1024 * 1024 ∨ maxFileSize < h.fileSize then
    .err s!"File size must be between 1MB and {maxFileSize / (1024 * 1024 * 1024)} GB"
  else if h.fileHash.utf8ByteSize = 0 then .err "File hash cannot be empty"
  else if h.fileKey.utf8ByteSize = 0 ∨ 512 < h.fileKey.utf8ByteSize then
    .err "File key must be between 1 and 512 characters"
  else .ok ()

def DownloadHeader.validate (h : DownloadHeader) : Outcome Unit :=
  if h.fileId.utf8ByteSize = 0 ∨ ¬ (32 ≤ h.fileId.utf8ByteSize ∧ h.fileId.utf8ByteSize ≤ 256) then
    .err "File ID must be a non-empty string between 32 and 256 characters"
  else if h.fileKey.utf8ByteSize = 0 ∨ 512 < h.fileKey.utf8ByteSize then
    .err "File key must be between 1 and 512 characters"
  else .ok ()

structure Accepted (maxFileSize : UInt64) (h : UploadHeader) : Prop where
  fileId : 32 ≤ h.fileId.utf8ByteSize ∧ h.fileId.utf8ByteSize ≤ 256
  fileName : 0 < h.fileName.utf8ByteSize
  fileSize : 1024 * 1024 ≤ h.fileSize ∧ h.fileSize ≤ maxFileSize
  fileHash : 0 < h.fileHash.utf8ByteSize
  fileKey : 0 < h.fileKey.utf8ByteSize ∧ h.fileKey.utf8ByteSize ≤ 512

theorem validated {maxFileSize : UInt64} {h : UploadHeader}
    (ok : h.validate maxFileSize = .ok ()) : Accepted maxFileSize h := by
  unfold UploadHeader.validate at ok
  split at ok <;> try contradiction
  rename_i fileId
  split at ok <;> try contradiction
  rename_i fileName
  split at ok <;> try contradiction
  rename_i fileSize
  split at ok <;> try contradiction
  rename_i fileHash
  split at ok <;> try contradiction
  rename_i fileKey
  simp only [not_or,UInt64.not_lt,not_not] at fileId fileSize fileKey
  exact ⟨fileId.2,by omega,fileSize,by omega,by omega,by omega⟩

theorem acceptedValidates {maxFileSize : UInt64} {h : UploadHeader}
    (accepted : Accepted maxFileSize h) : h.validate maxFileSize = .ok () := by
  have fileId := accepted.fileId
  have fileName := accepted.fileName
  have fileHash := accepted.fileHash
  have fileKey := accepted.fileKey
  have fileSize : ¬ (h.fileSize < 1024 * 1024 ∨ maxFileSize < h.fileSize) := by
    simp only [not_or,UInt64.not_lt]
    exact accepted.fileSize
  unfold UploadHeader.validate
  rw [if_neg (by omega),if_neg (by omega),if_neg fileSize,if_neg (by omega),if_neg (by omega)]

theorem downloadValidated {maxFileSize : UInt64} {h : UploadHeader}
    (accepted : Accepted maxFileSize h) :
    (DownloadHeader.mk h.fileId h.fileKey).validate = .ok () := by
  have fileId := accepted.fileId
  have fileKey := accepted.fileKey
  unfold DownloadHeader.validate
  rw [if_neg (by simp only []; omega),if_neg (by simp only []; omega)]

theorem uploadHeaderRead {h : UploadHeader} (fits : h.serialize.length < 2 ^ 64) (rest : Bytes) :
    readUploadHeader (h.serialize ++ rest) = some (h,rest) := by
  have fileId := (stringLength h.fileId).1
  have fileName := (stringLength h.fileName).1
  have fileHash := (stringLength h.fileHash).1
  have fileKey := (stringLength h.fileKey).1
  simp only [UploadHeader.serialize,List.length_append] at fits
  simp only [UploadHeader.serialize,List.append_assoc,readUploadHeader]
  rw [andThenOf (stringRead (by omega) _),andThenOf (stringRead (by omega) _),
    andThenOf (sizeRead _ _),andThenOf (stringRead (by omega) _),
    andThenOf (stringRead (by omega) _)]
  rfl

theorem uploadResponseRead {h : UploadResponse} (fits : h.serialize.length < 2 ^ 64)
    (rest : Bytes) : readUploadResponse (h.serialize ++ rest) = some (h,rest) := by
  have fileId := (stringLength h.fileId).1
  have fileHash := (stringLength h.fileHash).1
  simp only [UploadResponse.serialize,List.length_append] at fits
  simp only [UploadResponse.serialize,List.append_assoc,readUploadResponse]
  rw [andThenOf (stringRead (by omega) _),andThenOf (stringRead (by omega) _),
    andThenOf (f32Read _ _)]
  rfl

theorem downloadHeaderRead {h : DownloadHeader} (fits : h.serialize.length < 2 ^ 64)
    (rest : Bytes) : readDownloadHeader (h.serialize ++ rest) = some (h,rest) := by
  have fileId := (stringLength h.fileId).1
  have fileKey := (stringLength h.fileKey).1
  simp only [DownloadHeader.serialize,List.length_append] at fits
  simp only [DownloadHeader.serialize,List.append_assoc,readDownloadHeader]
  rw [andThenOf (stringRead (by omega) _),andThenOf (stringRead (by omega) _)]
  rfl

theorem downloadResponseRead {h : DownloadResponse} (fits : h.serialize.length < 2 ^ 64)
    (rest : Bytes) : readDownloadResponse (h.serialize ++ rest) = some (h,rest) := by
  have fileName := (stringLength h.fileName).1
  have fileHash := (stringLength h.fileHash).1
  simp only [DownloadResponse.serialize,List.length_append] at fits
  simp only [DownloadResponse.serialize,List.append_assoc,readDownloadResponse]
  rw [andThenOf (stringRead (by omega) _),andThenOf (sizeRead _ _),
    andThenOf (stringRead (by omega) _),andThenOf (f32Read _ _)]
  rfl

theorem uploadShortest {b : Bytes} {h : UploadHeader} (read : Command.deserialize b = .ok (.upload h)) :
    (Command.upload h).serialize.length ≤ b.length := by
  have parsed := Outcome.ofOptionIsOk.mp read
  unfold fromBytes at parsed
  obtain ⟨found,parsed,same⟩ := Option.map_eq_some_iff.mp parsed
  obtain ⟨command,last⟩ := found
  cases same
  obtain ⟨variant,body,tag,parsed⟩ := andThenIs.mp parsed
  have front := varintShortest tag
  split at parsed
  · cases Option.some.inj parsed
  · obtain ⟨flags,_,-,parsed⟩ := andThenIs.mp parsed
    cases Option.some.inj parsed
  · obtain ⟨header,_,parsed,same⟩ := andThenIs.mp parsed
    cases Option.some.inj same
    obtain ⟨fileId,b1,id,parsed⟩ := andThenIs.mp parsed
    obtain ⟨fileName,b2,name,parsed⟩ := andThenIs.mp parsed
    obtain ⟨fileSize,b3,size,parsed⟩ := andThenIs.mp parsed
    obtain ⟨fileHash,b4,hash,parsed⟩ := andThenIs.mp parsed
    obtain ⟨fileKey,b5,key,parsed⟩ := andThenIs.mp parsed
    cases Option.some.inj parsed
    obtain ⟨n,b6,raw,whole⟩ := andThenIs.mp size
    cases Option.some.inj whole
    have idShortest := stringShortest id
    have nameShortest := stringShortest name
    have sizeShortest := varintShortest raw
    have hashShortest := stringShortest hash
    have keyShortest := stringShortest key
    have number : n.toUInt64.toNat = n := Nat.mod_eq_of_lt (varintBound raw)
    simp only [Command.serialize,UploadHeader.serialize,List.length_append,number]
    omega
  · obtain ⟨header,_,parsed,same⟩ := andThenIs.mp parsed
    cases Option.some.inj same
  · cases Option.some.inj parsed
  · contradiction

theorem uploadShorter {b : Bytes} {h : UploadHeader} (read : Command.deserialize b = .ok (.upload h)) :
    (utf8 h.fileId).length + (utf8 h.fileName).length + (utf8 h.fileHash).length +
      (utf8 h.fileKey).length ≤ b.length := by
  have whole := uploadShortest read
  have fileId := (stringLength h.fileId).1
  have fileName := (stringLength h.fileName).1
  have fileHash := (stringLength h.fileHash).1
  have fileKey := (stringLength h.fileKey).1
  simp only [Command.serialize,UploadHeader.serialize,List.length_append] at whole
  omega

theorem u16Read (n : UInt16) (rest : Bytes) :
    readU16Value (varint n.toNat ++ rest) = some (n,rest) := by
  have size := n.toNat_lt
  have read : readU16 (varint n.toNat ++ rest) = some (n.toNat,rest) :=
    varintRead (by decide) (by omega) rest
  rw [readU16Value,andThenOf read]
  simp [yield]

theorem u32Read (n : UInt32) (rest : Bytes) :
    readU32Value (varint n.toNat ++ rest) = some (n,rest) := by
  have size := n.toNat_lt
  have read : readU32 (varint n.toNat ++ rest) = some (n.toNat,rest) :=
    varintRead (by decide) (by omega) rest
  rw [readU32Value,andThenOf read]
  simp [yield]

theorem errorRead {h : ErrorHeader} (fits : h.serialize.length < 2 ^ 64) :
    ErrorHeader.deserialize h.serialize = .ok h := by
  have message := (stringLength h.message).1
  simp only [ErrorHeader.serialize,List.length_append] at fits
  have last := @stringRead h.message (by omega) []
  rw [List.append_nil] at last
  apply Outcome.ofOptionIsOk.mpr
  refine fromBytesOf (?_ : _ = some (_,[]))
  rw [ErrorHeader.serialize,andThenOf (u16Read _ _),andThenOf last]
  rfl

theorem warnRead {h : WarnHeader} (fits : h.serialize.length < 2 ^ 64) :
    WarnHeader.deserialize h.serialize = .ok h := by
  have message := (stringLength h.message).1
  simp only [WarnHeader.serialize,List.length_append] at fits
  have last := @stringRead h.message (by omega) []
  rw [List.append_nil] at last
  apply Outcome.ofOptionIsOk.mpr
  refine fromBytesOf (?_ : _ = some (_,[]))
  rw [WarnHeader.serialize,andThenOf (u16Read _ _),andThenOf last]
  rfl

theorem echoRead (h : EchoDebugHeader) : EchoDebugHeader.deserialize h.serialize = .ok h := by
  have size := h.processMs.isLt
  have last : readU128 (varint h.processMs.toNat ++ []) = some (h.processMs.toNat,[]) :=
    varintRead (by decide) (by omega) []
  rw [List.append_nil] at last
  apply Outcome.ofOptionIsOk.mpr
  refine fromBytesOf (?_ : _ = some (_,[]))
  rw [EchoDebugHeader.serialize,List.append_assoc,readEchoDebugHeader,andThenOf (u32Read _ _),
    andThenOf (arrayRead _ _),andThenOf last]
  simp [yield]

theorem statusRead {h : StatusHeader} (fits : h.serialize.length < 2 ^ 64) :
    StatusHeader.deserialize h.serialize = .ok h := by
  have timestamp := (stringLength h.timestamp).1
  simp only [StatusHeader.serialize,List.length_append] at fits
  have last := sizeRead h.totalBandwidthUsed []
  rw [List.append_nil] at last
  apply Outcome.ofOptionIsOk.mpr
  refine fromBytesOf (?_ : _ = some (_,[]))
  simp only [StatusHeader.serialize,List.append_assoc,readStatusHeader]
  rw [andThenOf (stringRead (by omega) _),andThenOf (arrayRead _ _),andThenOf (sizeRead _ _),
    andThenOf (sizeRead _ _),andThenOf (sizeRead _ _),andThenOf last]
  rfl

theorem variantRead {n : Nat} (small : n < 128) (rest : Bytes) :
    readU32 (varint n ++ rest) = some (n,rest) := varintRead (by decide) (by omega) rest

theorem commandRead {command : Command} (fits : command.serialize.length < 2 ^ 64) :
    Command.deserialize command.serialize = .ok command := by
  apply Outcome.ofOptionIsOk.mpr
  suffices read : readCommand (command.serialize ++ []) = some (command,[]) by
    rw [List.append_nil] at read
    exact fromBytesOf read
  cases command with
  | echo => rw [Command.serialize,readCommand,andThenOf (variantRead (by decide) _)]; rfl
  | status => rw [Command.serialize,readCommand,andThenOf (variantRead (by decide) _)]; rfl
  | auth flags =>
    rw [Command.serialize,List.append_assoc,readCommand,andThenOf (variantRead (by decide) _)]
    rfl
  | upload header =>
    rw [Command.serialize,List.length_append] at fits
    rw [Command.serialize,List.append_assoc,readCommand,andThenOf (variantRead (by decide) _)]
    simp only []
    rw [andThenOf (uploadHeaderRead (by omega) [])]
    rfl
  | download header =>
    rw [Command.serialize,List.length_append] at fits
    rw [Command.serialize,List.append_assoc,readCommand,andThenOf (variantRead (by decide) _)]
    simp only []
    rw [andThenOf (downloadHeaderRead (by omega) [])]
    rfl

end RDrive.Header
