import RDrive.Alone
import RDrive.RoundTrip

/-! handle_upload alone on its slot, but against any client, any failing write and
any cancellation: what each of its stopping points leaves of the slot's two files. -/
namespace RDrive
open Crypto Header Duplex Party Bytes Program

/- Whether this upload got past File::create and past the metadata. -/
structure Progress where
  created : Bool
  saved : Bool

def Progress.note : Note Progress := fun g c r =>
  match c, r with
  | .here (.fs (.create _)), made => ⟨g.created || made,g.saved⟩
  | .here (.fs (.write _ _)), made => ⟨g.created,g.saved || made⟩
  | _, _ => g

abbrev Watched := Seen Progress

theorem Progress.quiet {c : (Port HostSig).Call} (off : OffDisk c) : Quiet note c := by
  refine ⟨off,fun g r => ?_⟩
  unfold note
  split
  · exact absurd rfl (off _)
  · exact absurd rfl (off _)
  · rfl

abbrev watching : Env (Port HostSig) Watched := alone Progress.note

theorem frameQuiet {S : Session} (data : Bytes) :
    Confined (Quiet Progress.note) (S.writeEncryptFrameInto data) :=
  confinedFrame (Progress.quiet nofun) (fun _ => Progress.quiet nofun)

theorem closingQuiet {S : Session} (data : Bytes) :
    Confined (Quiet Progress.note) (S.sendClosing data) :=
  confinedBind (frameQuiet data) fun _ => shutdownConfined (Progress.quiet nofun)

theorem asksQuiet (c : HostCall) (off : OffDisk (.here c)) : Confined (Quiet Progress.note) (here c) :=
  confinedHere c (Progress.quiet off)

namespace Session

/- handle_upload up to its receive loop, where nothing is in its way. -/
theorem uploadThrough {S : Session} {σ : Type} {env : Env (Port HostSig) σ} {s t u v w x y : σ}
    {headers : UploadHeader} {cut : Bytes} {arc : FileLock.Arc} {networkElapsed : F32}
    (prefix8 : Hex.cutBefore headers.fileHash 8 = .ok cut)
    (held : Reaches env (here (.holdFileLock headers.fileId)) s (.done (.ok arc)) t)
    (locked : Reaches env (here (.tryLock .upload arc)) t (.done (.ok true)) u)
    (makes : Reaches env (createDirAll (S.userDirPath (UploadHeader.slot S headers))) u (.done (.ok ())) v)
    (acks : Reaches env (S.writeEncryptFrameInto [1]) v (.done (.ok ())) w)
    (timed : Reaches env (here .elapsed) w (.done (.ok networkElapsed)) x)
    (opens : Reaches env (create (S.filePath (UploadHeader.slot S headers))) x (.done (.ok ())) y) :
    Reaches env (S.handleUpload headers) s (S.receiveLoop "Upload timed out reading chunk"
      (S.filePath (UploadHeader.slot S headers)) headers.fileSize.toNat freshDecBuf [] [] 0 >>=
        S.finishUpload headers arc networkElapsed) y := by
  unfold Session.handleUpload
  refine reachesThen held (reachesThen locked ?_)
  rw [if_pos rfl]
  refine reachesThen makes ?_
  rw [prefix8,liftDone,bindDone]
  exact reachesThen acks (reachesThen timed (reachesThen opens (.here _ _)))

def Described (S : Session) (disk : Fs) (slot : Slot) (metadata : MetadataFile) : Prop :=
  ∃ content, Stored S disk slot metadata content ∧ metadata.fileSize.toNat = content.length ∧
    metadata.fileHash = S.sha256Hex content

structure Kept (S : Session) (slot : Slot) (saving : MetadataFile) (before : Fs) (w : Watched) :
    Prop where
  meta_ : w.noted.saved = false → w.disk.get (S.metaPath slot) = before.get (S.metaPath slot)
  file : w.noted.created = false → w.disk.get (S.filePath slot) = before.get (S.filePath slot)
  dir : before.isDir (S.userDirPath slot) = true → w.disk.isDir (S.userDirPath slot) = true
  good : w.noted.saved = true → Described S w.disk slot saving

/- Between File::create and the metadata. -/
structure Filling (S : Session) (slot : Slot) (before : Fs) (written : Bytes) (w : Watched) : Prop where
  created : w.noted.created = true
  unsaved : w.noted.saved = false
  meta_ : w.disk.get (S.metaPath slot) = before.get (S.metaPath slot)
  dir : w.disk.isDir (S.userDirPath slot) = true
  file : w.disk.content (S.filePath slot) = some written

variable {S : Session} {slot : Slot} {saving : MetadataFile} {before : Fs} {w : Watched}

theorem fillingKept {written : Bytes} (filling : Filling S slot before written w) :
    Kept S slot saving before w where
  meta_ _ := filling.meta_
  file uncreated := absurd filling.created (by simp [uncreated])
  dir _ := filling.dir
  good saved := absurd filling.unsaved (by simp [saved])

theorem appendFilling {written : Bytes} (filling : Filling S slot before written w) (b : Bytes) :
    Filling S slot before (written ++ b) ⟨(w.disk.append (S.filePath slot) b).2,w.noted⟩ := by
  refine ⟨filling.created,filling.unsaved,?_,?_,?_⟩
  · exact (Fs.appendElsewhere (fileBesideMeta S slot).symm).trans filling.meta_
  · have dir := filling.dir
    unfold Fs.isDir at dir ⊢
    rwa [Fs.appendElsewhere (userDirBesideFile S slot)]
  · rw [Fs.appendFile filling.file]
    exact Fs.contentPut _ (fileInner S slot) _

theorem appendSafe {written : Bytes} (filling : Filling S slot before written w) (b : Bytes) :
    Safe watching (Kept S slot saving before) (Returns fun _ => Filling S slot before (written ++ b))
      (append (S.filePath slot) b) w := by
  refine fsSafe (fillingKept filling) ?_
  rintro answer disk (⟨rfl,rfl⟩ | torn)
  · have whole := appendFilling filling b
    have made : (w.disk.exec (.append (S.filePath slot) b)).1 = true := by
      simp only [Fs.exec,Fs.appendFile filling.file]
    rw [made]
    exact ⟨fillingKept whole,whole⟩
  · cases answer with
    | true => exact torn.2.elim
    | false =>
      obtain ⟨k,rfl⟩ := torn.2
      exact ⟨fillingKept (appendFilling filling (b.take k)),trivial⟩

theorem receiveSafe (text : String) {fileSize received : Nat} {decBuf hashed pending written : Bytes}
    (filling : Filling S slot before written w) (joined : written ++ pending = hashed)
    (size : hashed.length = received) (bounded : received ≤ fileSize) :
    Safe watching (Kept S slot saving before)
      (Returns fun found w => (∃ written, Filling S slot before written w ∧
        written ++ found.pending = found.hashed) ∧ found.hashed.length = fileSize)
      (S.receiveLoop text (S.filePath slot) fileSize decBuf hashed pending received) w := by
  refine receiveFills (Filling S slot before) (fun _ _ => fillingKept)
    (fun _ _ b filling => appendSafe filling b) ?_ text filling joined size bounded
  intro written w n r after filling answered
  cases quietSame (c := .recv n) (Progress.quiet nofun) answered
  exact filling

theorem removeKept {written : Bytes} (filling : Filling S slot before written w) :
    Kept S slot saving before ⟨(w.disk.remove (S.filePath slot)).2,w.noted⟩ where
  meta_ _ := (Fs.removeElsewhere (fileBesideMeta S slot).symm).trans filling.meta_
  file uncreated := absurd filling.created (by simpa using uncreated)
  dir _ := by
    have dir := filling.dir
    unfold Fs.isDir at dir ⊢
    rwa [Fs.removeElsewhere (userDirBesideFile S slot)]
  good saved := absurd filling.unsaved (by simpa using saved)

theorem saveSafe {content : Bytes} (filling : Filling S slot before content w)
    (size : saving.fileSize.toNat = content.length) (hash : saving.fileHash = S.sha256Hex content) :
    Safe watching (Kept S slot saving before) (Returns fun _ _ => True)
      (write (S.metaPath slot) saving.serialize) w := by
  refine fsSafe (fillingKept filling) ?_
  rintro answer disk (⟨rfl,rfl⟩ | torn)
  · simp only [Fs.exec,Fs.write,Progress.note]
    split
    · have stored : Stored S (w.disk.put (S.metaPath slot) (.file saving.serialize)) slot saving
          content := by
        refine ⟨?_,?_,Fs.contentPut _ (metaInner S slot) _⟩
        · have dir := filling.dir
          unfold Fs.isDir at dir ⊢
          rwa [Fs.getPutOther _ (userDirBesideMeta S slot)]
        · rw [Fs.contentOf,Fs.getPutOther _ (fileBesideMeta S slot),← Fs.contentOf]
          exact filling.file
      refine ⟨⟨?_,?_,fun _ => stored.dir,fun _ => ⟨content,stored,size,hash⟩⟩,trivial⟩
      · intro unsaved
        simp at unsaved
      · intro uncreated
        exact absurd filling.created (by simpa using uncreated)
    · rw [Bool.or_false]
      exact ⟨fillingKept filling,trivial⟩
  · exact torn.1.elim

theorem finishSafe {headers : UploadHeader} {arc : FileLock.Arc} {networkElapsed : F32}
    {found : Received} {written : Bytes}
    (filling : Filling S (UploadHeader.slot S headers) before written w)
    (joined : written ++ found.pending = found.hashed)
    (size : found.hashed.length = headers.fileSize.toNat) :
    Safe watching (Kept S (UploadHeader.slot S headers) (UploadHeader.metadata S headers) before)
      (Returns fun _ _ => True) (S.finishUpload headers arc networkElapsed found) w := by
  unfold finishUpload
  refine safeThen (bufFlushFills (Filling S (UploadHeader.slot S headers) before)
    (fun _ _ => fillingKept) (fun _ _ b filling => appendSafe filling b) filling) ?_
  intro _ t _ flushed
  rw [joined] at flushed
  simp only []
  split
  · refine fsSafe (fillingKept flushed) ?_
    rintro answer disk (⟨rfl,rfl⟩ | torn)
    · exact quietSafe (removeKept flushed) (closingQuiet _)
    · exact torn.1.elim
  · rename_i same
    refine safeThen (saveSafe flushed size.symm (Decidable.not_not.mp same).symm) ?_
    intro _ u kept _
    refine quietSafe kept (confinedBind (closingQuiet _) fun _ => ?_)
    refine confinedBind (asksQuiet _ nofun) fun _ => ?_
    exact confinedBind (asksQuiet _ nofun) fun _ => asksQuiet _ nofun

/- Before File::create nothing of the slot has changed. -/
structure Untouched (S : Session) (slot : Slot) (before : Fs) (w : Watched) : Prop where
  uncreated : w.noted.created = false
  unsaved : w.noted.saved = false
  meta_ : w.disk.get (S.metaPath slot) = before.get (S.metaPath slot)
  file : w.disk.get (S.filePath slot) = before.get (S.filePath slot)
  dir : before.isDir (S.userDirPath slot) = true → w.disk.isDir (S.userDirPath slot) = true

theorem untouchedKept (untouched : Untouched S slot before w) : Kept S slot saving before w where
  meta_ _ := untouched.meta_
  file _ := untouched.file
  dir := untouched.dir
  good saved := absurd untouched.unsaved (by simp [saved])

theorem createDirAllSafe (untouched : Untouched S slot before w) :
    Safe watching (Kept S slot saving before)
      (Returns fun _ after => Untouched S slot before after ∧
        after.disk.isDir (S.userDirPath slot) = true)
      (createDirAll (S.userDirPath slot)) w := by
  have still : Untouched S slot before ⟨(w.disk.createDirAll (S.userDirPath slot)).2,w.noted⟩ := by
    refine ⟨untouched.uncreated,untouched.unsaved,?_,?_,?_⟩
    · exact (Fs.createDirAllElsewhere notAbove).trans untouched.meta_
    · exact (Fs.createDirAllElsewhere notAbove).trans untouched.file
    · intro dir
      exact Fs.createDirAllStays (untouched.dir dir)
  refine fsSafe (untouchedKept untouched) ?_
  rintro answer disk (⟨rfl,rfl⟩ | torn)
  · cases made : (w.disk.exec (.createDirAll (S.userDirPath slot))).1 with
    | true => exact ⟨untouchedKept still,still,Fs.createDirAllMade made⟩
    | false => exact ⟨untouchedKept still,trivial⟩
  · exact torn.1.elim

theorem createSafe (untouched : Untouched S slot before w)
    (dir : w.disk.isDir (S.userDirPath slot) = true) :
    Safe watching (Kept S slot saving before) (Returns fun _ => Filling S slot before [])
      (create (S.filePath slot)) w := by
  refine fsSafe (untouchedKept untouched) ?_
  rintro answer disk (⟨rfl,rfl⟩ | torn)
  · simp only [Fs.exec,Fs.create,Progress.note]
    split
    · have filling : Filling S slot before []
          ⟨w.disk.put (S.filePath slot) (.file []),⟨w.noted.created || true,w.noted.saved⟩⟩ := by
        refine ⟨by simp,untouched.unsaved,?_,?_,Fs.contentPut _ (fileInner S slot) []⟩
        · exact (Fs.getPutOther _ (fileBesideMeta S slot).symm _).trans untouched.meta_
        · unfold Fs.isDir at dir ⊢
          rwa [Fs.getPutOther _ (userDirBesideFile S slot)]
      exact ⟨fillingKept filling,filling⟩
    · rw [Bool.or_false]
      exact ⟨untouchedKept untouched,trivial⟩
  · exact torn.1.elim

theorem uploadSafe (headers : UploadHeader) :
    Safe watching (Kept S (UploadHeader.slot S headers) (UploadHeader.metadata S headers) before)
      (Returns fun _ _ => True) (S.handleUpload headers) ⟨before,⟨false,false⟩⟩ := by
  have untouched : Untouched S (UploadHeader.slot S headers) before ⟨before,⟨false,false⟩⟩ :=
    ⟨rfl,rfl,rfl,rfl,fun dir => dir⟩
  have early : ∀ {α : Type} {w : Watched} {p : Party α},
      Untouched S (UploadHeader.slot S headers) before w → Confined (Quiet Progress.note) p →
      Safe watching (Kept S (UploadHeader.slot S headers) (UploadHeader.metadata S headers) before)
        (Returns fun _ after => after = w) p w :=
    fun still quiet => quietKeeps (untouchedKept still) quiet
  unfold handleUpload
  refine safeThen (early untouched (asksQuiet _ nofun)) ?_
  rintro arc _ _ rfl
  refine safeThen (early untouched (asksQuiet _ nofun)) ?_
  rintro locked _ _ rfl
  cases locked with
  | false => exact quietSafe (untouchedKept untouched) (closingQuiet _)
  | true =>
    refine safeThen (createDirAllSafe untouched) ?_
    rintro _ t _ ⟨still,dir⟩
    refine safeThen (early still (confinedLift _)) ?_
    rintro _ _ _ rfl
    refine safeThen (early still (frameQuiet _)) ?_
    rintro _ _ _ rfl
    refine safeThen (early still (asksQuiet _ nofun)) ?_
    rintro networkElapsed _ _ rfl
    refine safeThen (createSafe still dir) ?_
    rintro _ u _ filling
    refine safeThen (receiveSafe _ filling rfl rfl (Nat.zero_le _)) ?_
    rintro found v _ ⟨⟨written,filled,joined⟩,size⟩
    exact finishSafe filled joined size

def Touches (S : Session) (slot : Slot) : (Port HostSig).Call → Prop
  | .here (.fs (.createDirAll p)) => p = S.userDirPath slot
  | .here (.fs (.create p)) => p = S.filePath slot
  | .here (.fs (.append p _)) => p = S.filePath slot
  | .here (.fs (.remove p)) => p = S.filePath slot
  | .here (.fs (.write p _)) => p = S.metaPath slot
  | .here (.fs _) => False
  | _ => True

def Direct : (Port HostSig).Call → Prop
  | .here (.reads _ _) => False
  | .here .readServerMap => False
  | .here (.writeServerMap _) => False
  | _ => True

inductive UploadAnswer (S : Session) (headers : UploadHeader) : Bytes → Prop where
  | ack : UploadAnswer S headers [1]
  | refusal (code : UInt16) {message : String} (short : message.utf8ByteSize < 128) :
      UploadAnswer S headers (3 :: ErrorHeader.serialize ⟨code,message⟩)
  | success (hashed : Bytes) (networkElapsed : F32) : UploadAnswer S headers
      (1 :: UploadResponse.serialize ⟨headers.fileId,S.sha256Hex hashed,networkElapsed⟩)

section
/- The calls an upload makes, for anything that allows them: it never reads a file, and what
it writes there is the metadata of what it received. -/
variable {allowed : (Port HostSig).Call → Prop} {headers : UploadHeader}
  (more : ∀ c, S.Touches (UploadHeader.slot S headers) c → Direct c → (∀ b, c ≠ .send b) →
    (∀ p b, c ≠ .here (.fs (.write p b))) → allowed c)
  (tells : ∀ data, UploadAnswer S headers data → ∀ nonce : Nonce,
    allowed (.send (Frame.frame S.cipher S.sessionKey nonce data)))
  (saves : ∀ hashed, headers.fileHash = S.sha256Hex hashed → allowed (.here (.fs (.write
    (S.metaPath (UploadHeader.slot S headers)) (UploadHeader.metadata S headers).serialize))))
include more tells

theorem replyConfined {data : Bytes} (answers : UploadAnswer S headers data) :
    Confined allowed (S.writeEncryptFrameInto data) :=
  confinedFrame (more _ trivial trivial nofun nofun) (tells data answers)

theorem closeReply {data : Bytes} (answers : UploadAnswer S headers data) :
    Confined allowed (S.sendClosing data) :=
  confinedBind (replyConfined more tells answers) fun _ =>
    shutdownConfined (more _ trivial trivial nofun nofun)

include saves

theorem finishExactly (arc : FileLock.Arc) (networkElapsed : F32) (found : Received) :
    Confined allowed (S.finishUpload headers arc networkElapsed found) := by
  have asks : ∀ {c : HostCall}, S.Touches (UploadHeader.slot S headers) (.here c) →
      Direct (.here c) → (∀ p b, c ≠ .fs (.write p b)) → Confined allowed (here c) :=
    fun touches direct other => confinedHere _ (more _ touches direct nofun
      fun p b same => other p b (PortCall.here.inj same))
  unfold finishUpload
  refine confinedBind (bufFlushConfined (fun _ => more _ rfl trivial nofun nofun) _) fun _ => ?_
  simp only []
  split
  · exact confinedBind (asks rfl trivial nofun) fun _ =>
      closeReply more tells (.refusal 406 (by decide))
  · rename_i same
    have saved := saves found.hashed (Decidable.not_not.mp same).symm
    refine confinedBind (confinedBind (confinedHere _ saved) fun made => ?_) fun _ => ?_
    · cases made <;> trivial
    · refine confinedBind (closeReply more tells (.success found.hashed networkElapsed)) fun _ => ?_
      refine confinedBind (asks trivial trivial nofun) fun _ => ?_
      exact confinedBind (asks trivial trivial nofun) fun _ => asks trivial trivial nofun

theorem uploadExactly : Confined allowed (S.handleUpload headers) := by
  have asks : ∀ {c : HostCall}, S.Touches (UploadHeader.slot S headers) (.here c) →
      Direct (.here c) → (∀ p b, c ≠ .fs (.write p b)) → Confined allowed (here c) :=
    fun touches direct other => confinedHere _ (more _ touches direct nofun
      fun p b same => other p b (PortCall.here.inj same))
  unfold handleUpload
  refine confinedBind (asks trivial trivial nofun) fun arc => ?_
  refine confinedBind (asks trivial trivial nofun) fun locked => ?_
  cases locked with
  | false => exact closeReply more tells (.refusal 409 (by decide))
  | true =>
    refine confinedBind (confinedBind (asks rfl trivial nofun) fun made => ?_) fun _ => ?_
    · cases made <;> trivial
    refine confinedBind (confinedLift _) fun _ => ?_
    refine confinedBind (replyConfined more tells .ack) fun _ => ?_
    refine confinedBind (asks trivial trivial nofun) fun networkElapsed => ?_
    refine confinedBind (confinedBind (asks rfl trivial nofun) fun made => ?_) fun _ => ?_
    · cases made <;> trivial
    refine confinedBind (receiveConfined (fun _ => more _ rfl trivial nofun nofun)
      (fun _ => more _ trivial trivial nofun nofun) _) fun found => ?_
    exact finishExactly more tells saves arc networkElapsed found

end

theorem uploadConfined {allowed : (Port HostSig).Call → Prop} {headers : UploadHeader}
    (more : ∀ c, S.Touches (UploadHeader.slot S headers) c → Direct c → allowed c) :
    Confined allowed (S.handleUpload headers) :=
  uploadExactly (fun c touches direct _ _ => more c touches direct)
    (fun _ _ _ => more _ trivial trivial) (fun _ _ => more _ rfl trivial)

theorem uploadTouches (headers : UploadHeader) :
    Confined (S.Touches (UploadHeader.slot S headers)) (S.handleUpload headers) :=
  uploadConfined fun _ touches _ => touches

theorem echoConfined {allowed : (Port HostSig).Call → Prop} (receiving : ∀ n, allowed (.recv n))
    (timing : allowed (.here .elapsedMs))
    (telling : ∀ header : EchoDebugHeader, Confined allowed (S.writeEncryptFrameInto header.serialize))
    (rounds : Nat) : Confined allowed (S.handleEchoPerf rounds) := by
  induction rounds with
  | zero => trivial
  | succ rounds ih =>
    unfold handleEchoPerf
    refine confinedBind (attemptConfined (readConfined receiving)) fun payload => ?_
    cases payload with
    | error message =>
      simp only []
      split <;> trivial
    | ok payload =>
      simp only []
      split
      · trivial
      · refine confinedBind (confinedHere _ timing) fun processMs => ?_
        exact confinedBind (telling _) fun _ => ih

theorem touchEffect {disk after : Fs} {op : Fs.Op} {answer : op.Ret} (touches : S.Touches slot (.here (.fs op)))
    (answered : Answers disk op answer after) {q : Path} (file : q ≠ S.filePath slot)
    (unwritten : q = S.metaPath slot → ∀ b, op ≠ .write q b) : after.get q = disk.get q ∨
      disk.get q = none ∧ after.get q = some .dir ∧ q <+: S.userDirPath slot := by
  rcases answered with ⟨-,rfl⟩ | torn
  · cases op with
    | createDirAll p => cases touches; exact Fs.createDirAllEffect disk _ q
    | create p => cases touches; exact .inl (Fs.createElsewhere file)
    | append p b => cases touches; exact .inl (Fs.appendElsewhere file)
    | remove p => cases touches; exact .inl (Fs.removeElsewhere file)
    | write p b =>
      cases touches
      refine .inl (Fs.writeElsewhere fun same => ?_)
      subst same
      exact unwritten rfl b rfl
    | _ => exact touches.elim
  · cases op with
    | append p b =>
      cases touches
      cases answer with
      | true => exact torn.2.elim
      | false =>
        obtain ⟨k,rfl⟩ := torn.2
        exact .inl (Fs.appendElsewhere file)
    | _ => exact torn.1.elim

inductive Answer where
  | notFound
  | unreadable
  | found (metadata : MetadataFile) (content : Bytes)
  deriving DecidableEq, Repr

def retrieve (S : Session) (disk : Fs) (slot : Slot) : Answer :=
  if (disk.get (S.userDirPath slot)).isSome ∧ (disk.get (S.metaPath slot)).isSome then
    match (disk.content (S.metaPath slot)).bind MetadataFile.deserialize,
      disk.content (S.filePath slot) with
    | some metadata, some content => .found metadata content
    | _, _ => .unreadable
  else .notFound

/- What handle_download sends for each; a file is what its send loop runs over. -/
def Serves (S : Session) (h : Host) (headers : DownloadHeader) : Answer → Prop
  | .notFound => ∃ message nonce last, Advances Host.handle (S.handleDownload headers) h []
      (Frame.frame S.cipher S.sessionKey nonce (3 :: ErrorHeader.serialize ⟨404,message⟩))
      (.done (.ok ())) last
  | .unreadable => True
  | .found metadata content =>
    (∃ cut, Hex.cutBefore metadata.fileHash 8 = .ok cut) →
    (∀ time, (1 :: DownloadResponse.serialize
      ⟨metadata.filename,metadata.fileSize,metadata.fileHash,time⟩).length ≤ Frame.u32Max) →
    ∃ arc nonce time sending, Advances Host.handle (S.handleDownload headers) h []
      (Frame.frame S.cipher S.sessionKey nonce (1 :: DownloadResponse.serialize
        ⟨metadata.filename,metadata.fileSize,metadata.fileHash,time⟩))
      (do
        S.sendLoop freshEncBuf (fullReads readChunkSize content)
        closeDownload headers arc metadata) sending

theorem downloadServes {h : Host} (headers : DownloadHeader)
    (unlocked : FileLock.Unlocked h.locks headers.fileId) :
    Serves S h headers (retrieve S h.disk ⟨S.clientKey,headers.fileKey,headers.fileId⟩) := by
  unfold retrieve
  split
  · rename_i present
    split
    · rename_i metadata content described file
      rintro ⟨cut,prefix8⟩ small
      exact downloadStarts headers unlocked present.1 described file prefix8 small
    · trivial
  · rename_i missing
    obtain ⟨arc,locks,inside⟩ := lockTaken .download unlocked
    have refused : ∀ text : String, text.utf8ByteSize < 128 → ∃ nonce,
        Advances Host.handle (S.sendFailed ⟨404,text⟩) {h with locks := locks} []
          (Frame.frame S.cipher S.sessionKey nonce (3 :: ErrorHeader.serialize ⟨404,text⟩))
          (.done (.ok ())) {h with
            locks := locks
            drawn := h.drawn + 1} := by
      intro text short
      refine closingWritten (h := {h with locks := locks}) _ ?_
      have string := shortString (s := text) (k := 0) (by omega)
      have code := Postcard.varintLength (n := (404 : UInt16).toNat) (k := 2) (by decide)
      simp only [ErrorHeader.serialize,List.length_cons,List.length_append,Frame.u32Max]
      omega
    unfold Serves handleDownload
    cases dir : (h.disk.get (S.userDirPath ⟨S.clientKey,headers.fileKey,headers.fileId⟩)).isSome with
    | false =>
      obtain ⟨nonce,sent⟩ := refused "File not found" (by decide)
      refine ⟨"File not found",nonce,{h with
        locks := locks
        drawn := h.drawn + 1},inside (advancesQuiet (Host.fsAdvances _) ?_)⟩
      simp only [Fs.exec,dir]
      exact sent
    | true =>
      have meta_ : (h.disk.get (S.metaPath ⟨S.clientKey,headers.fileKey,headers.fileId⟩)).isSome =
          false := by
        rw [Bool.eq_false_iff]
        exact fun found => missing ⟨dir,found⟩
      obtain ⟨nonce,sent⟩ := refused "Metadata File not found" (by decide)
      refine ⟨"Metadata File not found",nonce,{h with
        locks := locks
        drawn := h.drawn + 1},inside (advancesQuiet (Host.fsAdvances _) ?_)⟩
      simp only [Fs.exec,dir,if_true]
      refine advancesQuiet (Host.fsAdvances _) ?_
      simp only [Fs.exec,meta_]
      exact sent

structure Attempt where
  sessionKey : Bytes
  headers : UploadHeader
  before : Fs
  after : Watched

def Attempt.Ran (S : Session) (slot : Slot) (a : Attempt) : Prop :=
  UploadHeader.slot S a.headers = slot ∧
    ∃ p, Reaches watching ({S with sessionKey := a.sessionKey}.handleUpload a.headers)
      ⟨a.before,⟨false,false⟩⟩ p a.after

inductive History (S : Session) (slot : Slot) : Fs → List Attempt → Fs → Prop where
  | none (disk : Fs) : History S slot disk [] disk
  | more {a rest last} (ran : Attempt.Ran S slot a) (later : History S slot a.after.disk rest last) :
      History S slot a.before (a :: rest) last

/- Metadata that exists describes the file beside it. -/
def Consistent (S : Session) (disk : Fs) (slot : Slot) : Prop :=
  disk.get (S.metaPath slot) ≠ none → ∃ metadata, Described S disk slot metadata

/- The upload saved its metadata, or stopped before File::create, or found none. -/
def Attempt.Careful (S : Session) (slot : Slot) (a : Attempt) : Prop :=
  a.after.noted.saved = true ∨ a.after.noted.created = false ∨ a.before.get (S.metaPath slot) = none

theorem attemptKept {a : Attempt} (ran : a.Ran S slot) :
    Kept S slot (UploadHeader.metadata S a.headers) a.before a.after := by
  obtain ⟨rfl,p,reached⟩ := ran
  have kept := safeStart (safeReaches reached (uploadSafe a.headers))
  refine ⟨kept.meta_,kept.file,kept.dir,fun saved => ?_⟩
  obtain ⟨content,stored,described⟩ := kept.good saved
  exact ⟨content,⟨stored.dir,stored.file,stored.meta_⟩,described⟩

theorem retrieveMissing {disk : Fs} (missing : disk.get (S.metaPath slot) = none) :
    retrieve S disk slot = .notFound := by
  unfold retrieve
  rw [if_neg (by simp [missing])]

theorem retrieveSame {disk after : Fs} (dir : disk.isDir (S.userDirPath slot) = true)
    (still : after.isDir (S.userDirPath slot) = true)
    (meta_ : after.get (S.metaPath slot) = disk.get (S.metaPath slot))
    (file : after.get (S.filePath slot) = disk.get (S.filePath slot)) :
    retrieve S after slot = retrieve S disk slot := by
  simp only [Fs.isDir,beq_iff_eq] at dir still
  simp only [retrieve,Fs.content,dir,still,meta_,file]

theorem describedSame {disk after : Fs} {metadata : MetadataFile}
    (described : Described S disk slot metadata) (still : after.isDir (S.userDirPath slot) = true)
    (meta_ : after.get (S.metaPath slot) = disk.get (S.metaPath slot))
    (file : after.get (S.filePath slot) = disk.get (S.filePath slot)) :
    Described S after slot metadata := by
  obtain ⟨content,stored,size,hash⟩ := described
  refine ⟨content,⟨still,?_,?_⟩,size,hash⟩
  · rw [Fs.contentOf,file,← Fs.contentOf]
    exact stored.file
  · rw [Fs.contentOf,meta_,← Fs.contentOf]
    exact stored.meta_

theorem attemptKeeps {a : Attempt} (ran : a.Ran S slot) (start : Consistent S a.before slot)
    (careful : a.Careful S slot) :
    Consistent S a.after.disk slot ∧
      (a.after.noted.saved = false → retrieve S a.after.disk slot = retrieve S a.before slot) := by
  have kept := attemptKept ran
  cases saved : a.after.noted.saved with
  | true => exact ⟨fun _ => ⟨_,kept.good saved⟩,nofun⟩
  | false =>
    have meta_ := kept.meta_ saved
    cases before : a.before.get (S.metaPath slot) with
    | none =>
      have missing := meta_.trans before
      exact ⟨fun present => absurd missing present,
        fun _ => (retrieveMissing missing).trans (retrieveMissing before).symm⟩
    | some node =>
      have uncreated : a.after.noted.created = false := by
        rcases careful with saved' | uncreated | missing
        · rw [saved] at saved'
          contradiction
        · exact uncreated
        · rw [before] at missing
          contradiction
      have file := kept.file uncreated
      obtain ⟨metadata,described⟩ := start (by simp [before])
      obtain ⟨content,stored,-⟩ := id described
      have still := kept.dir stored.dir
      exact ⟨fun _ => ⟨metadata,describedSame described still meta_ file⟩,
        fun _ => retrieveSame stored.dir still meta_ file⟩

def ChangesNothing (S : Session) (slot : Slot) (attempts : List Attempt) (last : Fs) : Prop :=
  (∀ a ∈ attempts, if a.after.noted.saved then
      Described S a.after.disk slot (UploadHeader.metadata S a.headers)
    else retrieve S a.after.disk slot = retrieve S a.before slot) ∧
  Consistent S last slot

theorem failedUploadsChangeNothing {first last : Fs} {attempts : List Attempt}
    (history : History S slot first attempts last) (start : Consistent S first slot)
    (careful : ∀ a ∈ attempts, a.Careful S slot) : ChangesNothing S slot attempts last := by
  induction history with
  | none disk => exact ⟨by simp,start⟩
  | @more a rest last ran later ih =>
    obtain ⟨consistent,same⟩ := attemptKeeps ran start (careful a List.mem_cons_self)
    obtain ⟨each,final⟩ := ih consistent fun b member => careful b (List.mem_cons_of_mem _ member)
    refine ⟨?_,final⟩
    intro b member
    rcases List.mem_cons.mp member with rfl | member
    · split
      · rename_i saved
        exact (attemptKept ran).good saved
      · rename_i unsaved
        exact same (Bool.eq_false_iff.mpr unsaved)
    · exact each b member

theorem clearKept {s : Watched} {p : Party Unit} {headers : UploadHeader}
    (clear : ∀ q, q <+: S.userDirPath (UploadHeader.slot S headers) →
      before.get q = none ∨ before.isDir q = true)
    (reached : Reaches watching (S.handleUpload headers) ⟨before,⟨false,false⟩⟩ p s) :
    ∀ q, q <+: S.userDirPath (UploadHeader.slot S headers) →
      s.disk.get q = none ∨ s.disk.isDir q = true := by
  have kept : Safe watching (fun s => ∀ q, q <+: S.userDirPath (UploadHeader.slot S headers) →
      s.disk.get q = none ∨ s.disk.isDir q = true) (fun _ _ => True) (S.handleUpload headers)
      ⟨before,⟨false,false⟩⟩ := by
    refine confinedSafe clear (uploadTouches headers) ?_
    rintro s c r ⟨disk,noted⟩ held touches ⟨-,answered⟩ q above
    have file : q ≠ S.filePath (UploadHeader.slot S headers) := by
      rintro rfl
      exact notAbove above
    have meta_ : q ≠ S.metaPath (UploadHeader.slot S headers) := by
      rintro rfl
      exact notAbove above
    split at answered
    · unfold Fs.isDir at held ⊢
      rcases touchEffect touches answered file (absurd · meta_) with same | ⟨-,made,-⟩
      · rw [same]
        exact held q above
      · exact .inr (by simp [made])
    · cases answered
      exact held q above
  exact safeStart (safeReaches reached kept)

theorem uploadTaken {h : Host} (headers : UploadHeader) {content boxes : Bytes}
    (unlocked : FileLock.Unlocked h.locks headers.fileId)
    (ready : SlotReady S h.disk (UploadHeader.slot S headers))
    (size : headers.fileSize.toNat = content.length) (hash : S.sha256Hex content = headers.fileHash)
    (sealed_ : Boxes S (fullReads readChunkSize content) boxes)
    (short : headers.fileId.utf8ByteSize ≤ 256) :
    ∃ output last, Stored S last.disk (UploadHeader.slot S headers) (UploadHeader.metadata S headers)
        content ∧
      Advances Host.handle (S.handleUpload headers) h boxes output (.done (.ok ())) last := by
  obtain ⟨cut,prefix8⟩ := hashCut S content
  rw [hash] at prefix8
  obtain ⟨arc,networkElapsed,nonce,admitted,opened,accepted⟩ :=
    uploadAdmitted headers unlocked ready prefix8
  have small : (UploadResponse.serialize
      ⟨headers.fileId,headers.fileHash,networkElapsed⟩).length < Frame.u32Max := responseSmall hash short
  obtain ⟨_,last,stored,-,finished⟩ := uploadReceived headers arc opened size hash sealed_ small
  exact ⟨_,last,stored,advancesTrans accepted finished⟩

theorem uploadRuns {h : Host} (headers : UploadHeader) {content : Bytes}
    (unlocked : FileLock.Unlocked h.locks headers.fileId)
    (ready : SlotReady S h.disk (UploadHeader.slot S headers))
    (size : headers.fileSize.toNat = content.length) (hash : S.sha256Hex content = headers.fileHash)
    (even : readChunkSize ∣ content.length) (short : headers.fileId.utf8ByteSize ≤ 256) :
    ∃ after : Watched, Reaches watching (S.handleUpload headers) ⟨h.disk,⟨false,false⟩⟩
        (.done (.ok ())) after ∧
      Stored S after.disk (UploadHeader.slot S headers) (UploadHeader.metadata S headers) content := by
  obtain ⟨boxes,drawn,sealed_,-⟩ := chunksSent (S := S) (h := h) (evenFits even)
  obtain ⟨output,last,stored,taken⟩ := uploadTaken headers unlocked ready size hash sealed_ short
  obtain ⟨noted,reached⟩ := advancesReaches Progress.note taken ⟨false,false⟩
  exact ⟨⟨last.disk,noted⟩,reached,stored⟩

theorem uploadCut {h : Host} (headers : UploadHeader) {content sent : Bytes}
    (unlocked : FileLock.Unlocked h.locks headers.fileId)
    (ready : SlotReady S h.disk (UploadHeader.slot S headers))
    (hash : S.sha256Hex content = headers.fileHash) (even : readChunkSize ∣ sent.length)
    (short : sent.length < headers.fileSize.toNat) :
    ∃ (after : Watched) (written rest : Bytes), Reaches watching (S.handleUpload headers)
        ⟨h.disk,⟨false,false⟩⟩ (.done (.err "early eof")) after ∧ after.noted.saved = false ∧
      after.disk.content (S.filePath (UploadHeader.slot S headers)) = some written ∧
      written ++ rest = sent := by
  obtain ⟨cut,prefix8⟩ := hashCut S content
  rw [hash] at prefix8
  obtain ⟨arc,networkElapsed,nonce,admitted,opened,accepted⟩ :=
    uploadAdmitted headers unlocked ready prefix8
  obtain ⟨boxes,-,sealed_,-⟩ := chunksSent (S := S) (h := h) (evenFits even)
  have part : 0 + sent.length ≤ headers.fileSize.toNat := by omega
  obtain ⟨disk,pending,written,buf,wrote,joined,taken⟩ := chunksTaken (S := S) (h := admitted)
    "Upload timed out reading chunk" freshDecBuf [] [] (fileInner S _) opened.file
    (by simp [freshDecBuf]) (.inl ⟨part,even⟩) sealed_
  obtain ⟨noted,reached⟩ := advancesReaches Progress.note
    (advancesTrans accepted (advancesBind taken)) ⟨false,false⟩
  rw [Nat.zero_add,receiveLoop,dif_pos short] at reached
  have cutOff : watching ⟨disk,noted⟩
      (.recv (nonceLen + min readChunkSize (headers.fileSize.toNat - sent.length) + tagLen))
      (.error .eof) ⟨disk,noted⟩ := ⟨rfl,rfl⟩
  have ended : Reaches watching (S.handleUpload headers) ⟨h.disk,⟨false,false⟩⟩
      (.done (.err "early eof")) ⟨disk,noted⟩ := reachesTrans reached (.answer cutOff (.here _ _))
  refine ⟨⟨disk,noted⟩,written,pending,ended,?_,wrote.here,joined⟩
  cases saved : noted.saved with
  | false => rfl
  | true =>
    obtain ⟨content,stored,size,-⟩ := (safeStart (safeReaches ended (uploadSafe headers))).good saved
    have same := stored.file.symm.trans wrote.here
    have counted := congrArg List.length joined
    rw [Option.some.inj same] at size
    simp only [List.nil_append,List.length_append] at counted
    simp only [UploadHeader.metadata] at size
    omega

theorem overwriteLoses {h : Host} (headers : UploadHeader) {content : Bytes}
    (unlocked : FileLock.Unlocked h.locks headers.fileId)
    (ready : SlotReady S h.disk (UploadHeader.slot S headers))
    (size : headers.fileSize.toNat = content.length) (hash : S.sha256Hex content = headers.fileHash)
    (even : readChunkSize ∣ content.length) (short : headers.fileId.utf8ByteSize ≤ 256)
    (readable : MetadataFile.deserialize (UploadHeader.metadata S headers).serialize =
      some (UploadHeader.metadata S headers)) (some_ : content ≠ []) :
    ∃ attempts last, History S (UploadHeader.slot S headers) h.disk attempts last ∧
      ¬ ChangesNothing S (UploadHeader.slot S headers) attempts last := by
  obtain ⟨first,ran,stored⟩ := uploadRuns headers unlocked ready size hash even short
  have again : SlotReady S first.disk (UploadHeader.slot S headers) := by
    refine ⟨clearKept ready.clear ran,?_,?_⟩
    · simp [Fs.isDir,Fs.contentOf.mp stored.file]
    · simp [Fs.isDir,Fs.contentOf.mp stored.meta_]
  have positive : 0 < headers.fileSize.toNat := by
    rw [size]
    exact List.length_pos_of_ne_nil some_
  have nothing : readChunkSize ∣ ([] : Bytes).length := Nat.dvd_zero _
  obtain ⟨second,written,rest,cut,unsaved,left,joined⟩ :=
    uploadCut (h := {h with disk := first.disk}) headers unlocked again hash nothing positive
  have emptied := (List.append_eq_nil_iff.mp joined).1
  have one : Attempt.Ran S (UploadHeader.slot S headers) ⟨S.sessionKey,headers,h.disk,first⟩ :=
    ⟨rfl,_,ran⟩
  have two : Attempt.Ran S (UploadHeader.slot S headers) ⟨S.sessionKey,headers,first.disk,second⟩ :=
    ⟨rfl,_,cut⟩
  refine ⟨[_,_],second.disk,.more one (.more two (.none _)),?_⟩
  rintro ⟨each,-⟩
  have same := each _ (List.mem_cons_of_mem _ List.mem_cons_self)
  simp only [unsaved,Bool.false_eq_true,if_false] at same
  have dir := stored.dir
  simp only [Fs.isDir,beq_iff_eq] at dir
  have was : retrieve S first.disk (UploadHeader.slot S headers) =
      .found (UploadHeader.metadata S headers) content := by
    unfold retrieve
    rw [if_pos ⟨by simp [dir],by simp [Fs.contentOf.mp stored.meta_]⟩]
    simp only [stored.meta_,Option.bind_some,readable,stored.file]
  rw [was] at same
  unfold retrieve at same
  split at same
  · split at same
    · rename_i metadata found described file
      rw [left,emptied] at file
      cases file
      cases same
      contradiction
    · contradiction
  · contradiction

end Session

namespace Overwrite
open Session RoundTrip

def sampleUpload (content : Bytes) : UploadHeader :=
  sentHeader sampleSession "4a43afa64e9342fc8320e63a43eb193b" "dummy.bin" "ronak" content

theorem sampleLoses (content : Bytes) (large : 1024 * 1024 ≤ content.length.toUInt64)
    (bounded : content.length ≤ 8589934592) (even : readChunkSize ∣ content.length)
    (some_ : content ≠ []) :
    ∃ attempts last, History sampleSession (UploadHeader.slot sampleSession (sampleUpload content))
        ⟨[]⟩ attempts last ∧
      ¬ ChangesNothing sampleSession (UploadHeader.slot sampleSession (sampleUpload content))
        attempts last := by
  have prepared := samplePrepared content large bounded
  have size : (sampleUpload content).fileSize.toNat = content.length := sizeKept prepared
  have accepted := validated prepared.accepted
  have readable : MetadataFile.deserialize
      (UploadHeader.metadata sampleSession (sampleUpload content)).serialize =
        some (UploadHeader.metadata sampleSession (sampleUpload content)) :=
    MetadataFile.metadataRead (responseFits (sampleFits content) accepted ⟨[0,0,0,0],rfl⟩).2
  exact overwriteLoses (h := sampleHost ⟨[]⟩) (sampleUpload content) prepared.unlocked
    prepared.ready size rfl even accepted.fileId.2 readable some_

theorem emptyMissing (S : Session) (slot : Slot) : (⟨[]⟩ : Fs).get (S.metaPath slot) = none := by
  simp [Fs.get,metaInner]

theorem emptyConsistent (S : Session) (slot : Slot) : Consistent S ⟨[]⟩ slot :=
  fun present => absurd (emptyMissing S slot) present

/- A mebibyte is stored, and lost to an overwrite that never sends a chunk. -/
theorem failedOverwriteShows : ¬ ∀ (S : Session) (slot : Slot) (first last : Fs)
    (attempts : List Attempt), History S slot first attempts last → Consistent S first slot →
      ChangesNothing S slot attempts last := by
  intro always
  obtain ⟨attempts,last,history,changed⟩ := sampleLoses (List.replicate 1048576 0)
    (by rw [List.length_replicate]; decide) (by rw [List.length_replicate]; decide)
    (by rw [List.length_replicate]; decide) (by rw [ne_eq,List.replicate_eq_nil_iff]; decide)
  exact changed (always _ _ _ _ _ history (emptyConsistent _ _))

/- The stream of a first upload ends after ten chunks, a second one stores the mebibyte. -/
theorem earlyStopChangesNothing : ∃ cut stored : Watched,
    cut.noted.saved = false ∧
    (∃ written, cut.disk.content (sampleSession.filePath
      (UploadHeader.slot sampleSession (sampleUpload (List.replicate 1048576 0)))) = some written) ∧
    Stored sampleSession stored.disk
      (UploadHeader.slot sampleSession (sampleUpload (List.replicate 1048576 0)))
      (UploadHeader.metadata sampleSession (sampleUpload (List.replicate 1048576 0)))
      (List.replicate 1048576 0) ∧
    ChangesNothing sampleSession
      (UploadHeader.slot sampleSession (sampleUpload (List.replicate 1048576 0)))
      [⟨sampleSession.sessionKey,sampleUpload (List.replicate 1048576 0),⟨[]⟩,cut⟩,
        ⟨sampleSession.sessionKey,sampleUpload (List.replicate 1048576 0),cut.disk,stored⟩]
      stored.disk := by
  have prepared := samplePrepared (List.replicate 1048576 0)
    (by rw [List.length_replicate]; decide) (by rw [List.length_replicate]; decide)
  have size : (sampleUpload (List.replicate 1048576 0)).fileSize.toNat = 1048576 :=
    (sizeKept prepared).trans List.length_replicate
  have chunks : readChunkSize ∣ (List.replicate 655360 0 : Bytes).length := by
    rw [List.length_replicate]
    decide
  obtain ⟨cut,written,-,stopped,unsaved,left,-⟩ := uploadCut (h := sampleHost ⟨[]⟩)
    (sampleUpload (List.replicate 1048576 0)) prepared.unlocked prepared.ready rfl chunks
    (by rw [List.length_replicate,size]; decide)
  have missing : cut.disk.get (sampleSession.metaPath
      (UploadHeader.slot sampleSession (sampleUpload (List.replicate 1048576 0)))) = none :=
    ((safeStart (safeReaches stopped (uploadSafe _))).meta_ unsaved).trans (emptyMissing _ _)
  have again : SlotReady sampleSession cut.disk
      (UploadHeader.slot sampleSession (sampleUpload (List.replicate 1048576 0))) := by
    refine ⟨clearKept prepared.ready.clear stopped,?_,?_⟩
    · unfold Fs.isDir
      rw [Fs.contentOf.mp left]
      rfl
    · unfold Fs.isDir
      rw [missing]
      rfl
  obtain ⟨stored,ran,kept⟩ := uploadRuns (h := sampleHost cut.disk)
    (sampleUpload (List.replicate 1048576 0)) prepared.unlocked again (sizeKept prepared) rfl
    (by rw [List.length_replicate]; decide) (validated prepared.accepted).fileId.2
  have one : Attempt.Ran sampleSession
      (UploadHeader.slot sampleSession (sampleUpload (List.replicate 1048576 0)))
      ⟨sampleSession.sessionKey,sampleUpload (List.replicate 1048576 0),⟨[]⟩,cut⟩ :=
    ⟨rfl,_,stopped⟩
  have two : Attempt.Ran sampleSession
      (UploadHeader.slot sampleSession (sampleUpload (List.replicate 1048576 0)))
      ⟨sampleSession.sessionKey,sampleUpload (List.replicate 1048576 0),cut.disk,stored⟩ :=
    ⟨rfl,_,ran⟩
  refine ⟨cut,stored,unsaved,⟨written,left⟩,kept,failedUploadsChangeNothing
    (.more one (.more two (.none _))) (emptyConsistent _ _) ?_⟩
  intro a member
  rcases List.mem_cons.mp member with rfl | member
  · exact .inr (.inr (emptyMissing _ _))
  · cases List.mem_singleton.mp member
    exact .inr (.inr missing)

end Overwrite
end RDrive
