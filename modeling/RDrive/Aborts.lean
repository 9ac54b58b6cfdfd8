import RDrive.Integrity

/-! Where a transfer handler panics, which the release profile turns into an abort of
the whole server: an upload on a hash that cannot be cut at byte 8, a download on a
file that does not end with a full chunk. Nowhere else, whatever a client sends. -/
namespace RDrive
open Crypto Header Party Bytes Program

/- Surroundings that answer as they like but for the disk, and read files as they are. -/
def reading : Env (Port HostSig) Fs := fun disk c r after =>
  match c, r with
  | .here (.fs op), answer => Answers disk op answer after
  | .here (.reads path n), chunks => after = disk ∧ chunks = (disk.content path).map (fullReads n)
  | _, _ => after = disk

section
variable {σ : Type} {env : Env (Port HostSig) σ} {s : σ}

abbrev Calm {α : Type} (env : Env (Port HostSig) σ) (p : Party α) (s : σ) : Prop :=
  Safe env (fun _ => True) (Unbroken fun _ _ => True) p s

theorem hereCalm (c : HostCall) : Calm env (here c) s := ⟨trivial,fun _ _ _ => ⟨trivial,trivial⟩⟩

theorem calmThen {α β : Type} {p : Party α} {f : α → Party β} (first : Calm env p s)
    (later : ∀ a t, Calm env (f a) t) : Calm env (p >>= f) s :=
  unbrokenThen first fun a t _ _ => later a t

theorem doneThen {α β : Type} {f : α → Party β} {a : α} (later : Calm env (f a) s) :
    Calm env ((liftM (Outcome.ok a) : Party α) >>= f) s := later

theorem sendCalm (b : Bytes) : Calm env (send b) s := by
  refine ⟨trivial,fun answer _ _ => ?_⟩
  cases answer <;> exact ⟨trivial,trivial⟩

theorem frameCalm {S : Session} (data : Bytes) : Calm env (S.writeEncryptFrameInto data) s := by
  unfold Session.writeEncryptFrameInto
  split
  · exact ⟨trivial,trivial⟩
  · exact calmThen (hereCalm _) fun nonce t => sendCalm _

theorem requiredCalm (op : Fs.Op) (test : op.Ret → Bool) (message : String) :
    Calm env (do if test (← fs op) then pure () else .fail message) s := by
  refine calmThen (hereCalm _) fun made t => ?_
  split <;> exact ⟨trivial,trivial⟩

theorem shutdownCalm : Calm env shutdown s := by
  refine calmThen (hereCalm _) fun answer t => ?_
  cases answer <;> exact ⟨trivial,trivial⟩

theorem closingCalm {S : Session} (data : Bytes) : Calm env (S.sendClosing data) s :=
  calmThen (frameCalm data) fun _ _ => shutdownCalm

theorem bufWriteCalm (path : Path) (pending data : Bytes) :
    Calm env (Session.bufWrite path pending data) s := by
  have appended : ∀ b t, Calm env (append path b) t := fun b t => requiredCalm (.append path b) id _
  unfold Session.bufWrite
  split
  · refine calmThen (appended _ _) fun _ t => ?_
    split
    · exact calmThen (appended _ _) fun _ _ => ⟨trivial,trivial⟩
    · exact ⟨trivial,trivial⟩
  · split
    · exact calmThen (appended _ _) fun _ _ => ⟨trivial,trivial⟩
    · exact ⟨trivial,trivial⟩

theorem bufFlushCalm (path : Path) (pending : Bytes) : Calm env (Session.bufFlush path pending) s := by
  unfold Session.bufFlush
  split
  · exact ⟨trivial,trivial⟩
  · exact requiredCalm (.append path pending) id _

theorem receiveCalm {S : Session} (text : String) (path : Path) {fileSize received : Nat}
    {decBuf hashed pending : Bytes} (room : decBuf.length = readChunkSize) :
    Calm env (S.receiveLoop text path fileSize decBuf hashed pending received) s := by
  induction left : fileSize - received using Nat.strong_induction_on
    generalizing received decBuf hashed pending s with
  | _ m ih =>
    rw [Session.receiveLoop]
    split
    · refine ⟨trivial,fun answer t _ => ?_⟩
      cases answer with
      | error fault => cases fault <;> exact ⟨trivial,trivial⟩
      | ok encBuf =>
        have asked := encBuf.property
        have chunk : 0 < readChunkSize := by decide
        have decrypted : decryptInto S.cipher encBuf.val decBuf S.sessionKey = _ :=
          decryptFits (by omega) (by omega)
        simp only []
        split
        · exact ⟨trivial,trivial⟩
        · rename_i broken
          rw [decrypted] at broken
          split at broken <;> contradiction
        · rename_i buf decLen got
          have long := (Session.opensWhole got).1
          rw [decrypted] at got
          split at got <;> try contradiction
          rename_i plain opened
          have size := S.cipher.openedLength opened
          simp only [Outcome.ok.injEq,Prod.mk.injEq] at got
          obtain ⟨rfl,rfl⟩ := got
          have full : (plain ++ decBuf.drop plain.length).length = readChunkSize := by
            rw [List.length_append,List.length_drop]
            omega
          rw [sliceOk (Nat.zero_le _) (by rw [full]; omega)]
          refine doneThen ?_
          refine calmThen (bufWriteCalm _ _ _) fun after t => ?_
          exact ih (fileSize - (received + plain.length)) (by omega) full rfl
    · exact ⟨trivial,trivial⟩

end

namespace Session
variable {S : Session}

theorem finishCalm {σ : Type} {env : Env (Port HostSig) σ} {s : σ} (headers : UploadHeader)
    (arc : FileLock.Arc) (networkElapsed : F32) (found : Received) :
    Calm env (S.finishUpload headers arc networkElapsed found) s := by
  unfold finishUpload
  refine calmThen (bufFlushCalm _ _) fun _ t => ?_
  simp only []
  split
  · exact calmThen (hereCalm _) fun _ t => closingCalm _
  · refine calmThen (requiredCalm (.write _ _) id _) fun _ t => ?_
    refine calmThen (closingCalm _) fun _ t => ?_
    refine calmThen (hereCalm _) fun _ t => ?_
    exact calmThen (hereCalm _) fun _ t => hereCalm _

theorem uploadCalm {σ : Type} {env : Env (Port HostSig) σ} {s : σ} {headers : UploadHeader} {cut : Bytes}
    (prefix8 : Hex.cutBefore headers.fileHash 8 = .ok cut) : Calm env (S.handleUpload headers) s := by
  unfold handleUpload
  refine calmThen (hereCalm _) fun arc t => ?_
  refine calmThen (hereCalm _) fun locked t => ?_
  cases locked with
  | false => exact closingCalm _
  | true =>
    refine calmThen (requiredCalm (.createDirAll _) id _) fun _ t => ?_
    rw [prefix8]
    refine doneThen ?_
    refine calmThen (frameCalm _) fun _ t => ?_
    refine calmThen (hereCalm _) fun networkElapsed t => ?_
    refine calmThen (requiredCalm (.create _) id _) fun _ t => ?_
    exact calmThen (receiveCalm _ _ List.length_replicate) fun found t => finishCalm _ _ _ _

theorem sendLoopCalm {σ : Type} {env : Env (Port HostSig) σ} {s : σ} {encBuf : Bytes} {chunks : List Bytes}
    (even : ∀ x ∈ chunks, encBuf.length = nonceLen + x.length + tagLen) :
    Calm env (S.sendLoop encBuf chunks) s := by
  induction chunks generalizing encBuf s with
  | nil => exact ⟨trivial,trivial⟩
  | cons plain rest ih =>
    have fits := even plain List.mem_cons_self
    rw [sendLoop]
    refine calmThen (hereCalm _) fun nonce t => ?_
    have size := S.cipher.sealedLength S.sessionKey nonce plain
    rw [encryptExact fits]
    refine doneThen ?_
    simp only []
    rw [sliceOk (Nat.zero_le _) (by omega)]
    refine doneThen ?_
    refine calmThen (sendCalm _) fun _ t => ih ?_
    intro x member
    rw [size,← even x (List.mem_cons_of_mem _ member),fits]

variable {disk : Fs}

def Still (c : (Port HostSig).Call) : Prop := ∀ disk r after, reading disk c r after → after = disk

theorem looksStill {op : Fs.Op} (looks : Looks op) : Still (.here (.fs op)) :=
  fun _ _ _ answered => (lookAnswer looks answered).2

theorem hereStill {c : HostCall} {f : HostSig.Ret c → Party Unit} (still : Still (.here c))
    (next : ∀ r, reading disk (.here c) r disk → Calm reading (f r) disk) :
    Calm reading (here c >>= f) disk := by
  refine hereSafe trivial fun r after answered => ?_
  cases still _ _ _ answered
  exact next r answered

theorem frameStays (data : Bytes) : Safe reading (fun _ => True) (Unbroken fun _ after => after = disk)
    (S.writeEncryptFrameInto data) disk := by
  have still : Confined Still (S.writeEncryptFrameInto data) :=
    confinedFrame (fun _ _ _ same => same) (fun _ _ _ _ same => same)
  have stays : Safe reading (fun _ => True) (fun _ after => after = disk)
      (S.writeEncryptFrameInto data) disk := stillSafe trivial still
  refine safeMono (safeWeaken (safeBoth (frameCalm data) stays) ?_) fun _ _ => trivial
  intro result after _ both
  cases result with
  | ok done => exact both.2
  | err message => trivial
  | panic => exact both.1

def Servable (S : Session) (disk : Fs) (slot : Slot) : Prop :=
  ∀ metadata content, retrieve S disk slot = .found metadata content →
    readChunkSize ∣ content.length

theorem serveCalm {headers : DownloadHeader} {arc : FileLock.Arc} {metadata : MetadataFile} {cut : Bytes}
    (prefix8 : Hex.cutBefore metadata.fileHash 8 = .ok cut)
    (even : ∀ content, disk.content (S.filePath ⟨S.clientKey,headers.fileKey,headers.fileId⟩) =
      some content → readChunkSize ∣ content.length) :
    Calm reading (S.serveFile headers arc metadata) disk := by
  unfold serveFile
  rw [prefix8]
  refine doneThen ?_
  refine hereStill (fun _ _ _ same => same) fun time _ => ?_
  refine unbrokenThen (frameStays _) ?_
  rintro _ disk _ rfl
  refine hereStill (fun _ _ _ same => same.1) fun chunks answered => ?_
  have read := answered.2
  cases found : disk.content (S.filePath ⟨S.clientKey,headers.fileKey,headers.fileId⟩) with
  | none =>
    rw [found] at read
    subst read
    exact ⟨trivial,trivial⟩
  | some content =>
    rw [found] at read
    subst read
    refine calmThen (sendLoopCalm (evenFits (even content found))) fun _ t => ?_
    refine calmThen (sendCalm _) fun _ t => calmThen shutdownCalm fun _ t => ?_
    refine calmThen (hereCalm _) fun _ t => ?_
    exact calmThen (hereCalm _) fun _ t => hereCalm _

theorem downloadCalm {headers : DownloadHeader}
    (readable : ∀ metadata, (disk.content (S.metaPath ⟨S.clientKey,headers.fileKey,headers.fileId⟩)).bind
      MetadataFile.deserialize = some metadata → ∃ cut, Hex.cutBefore metadata.fileHash 8 = .ok cut)
    (servable : S.Servable disk ⟨S.clientKey,headers.fileKey,headers.fileId⟩) :
    Calm reading (S.handleDownload headers) disk := by
  unfold handleDownload
  refine hereStill (fun _ _ _ same => same) fun arc _ => ?_
  refine hereStill (fun _ _ _ same => same) fun locked _ => ?_
  cases locked with
  | false => exact closingCalm _
  | true =>
    have looks : ∀ p, Looks (.exists_ p) := fun _ => trivial
    refine hereStill (looksStill (looks _)) fun dir answered => ?_
    have there := (lookAnswer (looks _) answered).1
    cases dir with
    | false => exact closingCalm _
    | true =>
      refine hereStill (looksStill (looks _)) fun found answered => ?_
      have described := (lookAnswer (looks _) answered).1
      cases found with
      | false => exact closingCalm _
      | true =>
        have present : (disk.get (S.userDirPath ⟨S.clientKey,headers.fileKey,headers.fileId⟩)).isSome ∧
            (disk.get (S.metaPath ⟨S.clientKey,headers.fileKey,headers.fileId⟩)).isSome :=
          ⟨there.symm,described.symm⟩
        have stays : Still (.here (.fs (.read (S.metaPath ⟨S.clientKey,headers.fileKey,headers.fileId⟩)))) := by
          rintro disk r after (⟨-,rfl⟩ | torn)
          · rfl
          · exact torn.1.elim
        refine hereStill stays fun text answered => ?_
        have read : text = disk.content (S.metaPath ⟨S.clientKey,headers.fileKey,headers.fileId⟩) := by
          rcases answered with ⟨read,-⟩ | torn
          · exact read
          · exact torn.1.elim
        subst read
        cases parsed : (disk.content (S.metaPath ⟨S.clientKey,headers.fileKey,headers.fileId⟩)).bind
            MetadataFile.deserialize with
        | none => exact closingCalm _
        | some metadata =>
          obtain ⟨cut,prefix8⟩ := readable metadata parsed
          refine serveCalm prefix8 fun content file => servable metadata content ?_
          unfold retrieve
          rw [if_pos present,parsed,file]

theorem advancesReading {α : Type} {p q : Party α} {h g : Host} {input output : Bytes}
    (advanced : Duplex.Advances Host.handle p h input output q g) :
    Reaches reading p h.disk q g.disk := by
  suffices followed : ∃ disk, Reaches reading p h.disk q disk ∧ disk = g.disk by
    obtain ⟨_,reached,rfl⟩ := followed
    exact reached
  refine Duplex.advancesSimulated (fun h _ _ (disk : Fs) => disk = h.disk) ?_ ?_ ?_ advanced rfl
  · rintro h _ _ _ c rfl
    refine ⟨(Host.handle h c).2.disk,?_,rfl⟩
    have answers := hostAnswers h c
    cases c with
    | reads path n => exact ⟨rfl,rfl⟩
    | _ => exact answers
  · rintro h _ _ _ b rfl
    exact ⟨h.disk,rfl,rfl⟩
  · rintro h _ _ _ n b rfl
    exact ⟨h.disk,rfl,rfl⟩

theorem neverLocked (fileId : String) : FileLock.Unlocked FileLock.initial fileId := nofun

theorem uploadBreaks {headers : UploadHeader} (broken : Hex.cutBefore headers.fileHash 8 = .panic) :
    ∃ after, Reaches reading (S.handleUpload headers) ⟨[]⟩ (.done .panic) after := by
  obtain ⟨arc,locks,inside⟩ := lockTaken (h := RoundTrip.sampleHost ⟨[]⟩) .upload
    (neverLocked headers.fileId)
  have clear := (RoundTrip.emptyReady S (UploadHeader.slot S headers)).clear
  have panicked : ∃ after, Duplex.Advances Host.handle (S.handleUpload headers)
      (RoundTrip.sampleHost ⟨[]⟩) [] [] (.done .panic) after := by
    unfold handleUpload
    refine ⟨{RoundTrip.sampleHost ⟨[]⟩ with
      locks := locks
      disk := (⟨[]⟩ : Fs).makeDirs (S.userDirPath (UploadHeader.slot S headers)).inits},inside ?_⟩
    refine Duplex.advancesQuiet (Host.createDirAllAdvances clear) ?_
    rw [broken]
    exact .rest _ _
  obtain ⟨after,panicked⟩ := panicked
  exact ⟨_,advancesReading panicked⟩

theorem downloadBreaks {headers : DownloadHeader} {metadata : MetadataFile} {content cut : Bytes}
    (found : retrieve S disk ⟨S.clientKey,headers.fileKey,headers.fileId⟩ = .found metadata content)
    (prefix8 : Hex.cutBefore metadata.fileHash 8 = .ok cut)
    (small : ∀ time, (1 :: DownloadResponse.serialize
      ⟨metadata.filename,metadata.fileSize,metadata.fileHash,time⟩).length ≤ Frame.u32Max)
    (uneven : ¬ readChunkSize ∣ content.length) :
    ∃ after, Reaches reading (S.handleDownload headers) disk (.done .panic) after := by
  unfold retrieve at found
  split at found <;> try contradiction
  rename_i present
  split at found <;> try contradiction
  rename_i parsed file
  cases found
  obtain ⟨arc,nonce,time,sending,started⟩ := downloadStarts (h := RoundTrip.sampleHost disk) headers
    (neverLocked headers.fileId) present.1 parsed file prefix8 small
  have fit : ∀ x ∈ fullReads readChunkSize content, nonceLen + x.length + tagLen ≤ freshEncBuf.length := by
    intro x member
    have size := fullReadsSizes (by decide) x member
    simp only [freshEncBuf,List.length_replicate]
    omega
  have odd : ∃ x ∈ fullReads readChunkSize content,
      nonceLen + x.length + tagLen ≠ freshEncBuf.length := by
    obtain ⟨x,member,size⟩ := fullReadsUneven (by decide) uneven
    refine ⟨x,member,?_⟩
    simp only [freshEncBuf,List.length_replicate]
    omega
  obtain ⟨output,drawn,panicked⟩ := unevenPanics (S := S) (h := sending) fit odd
  exact ⟨_,advancesReading (h := RoundTrip.sampleHost disk)
    (Duplex.advancesTrans started (Duplex.advancesBind panicked))⟩

theorem cutOrPanic (x : String) (n : Nat) :
    (∃ cut, Hex.cutBefore x n = .ok cut) ∨ Hex.cutBefore x n = .panic := by
  unfold Hex.cutBefore
  split
  · exact .inl ⟨_,rfl⟩
  · exact .inr rfl

def Survives (p : Party Unit) (disk : Fs) : Prop := ∀ after, ¬ Reaches reading p disk (.done .panic) after

theorem calmSurvives {p : Party Unit} (calm : Calm reading p disk) : Survives p disk :=
  fun _ reached => (safeReaches reached calm).2

/- No accepted request panics: not on any disk, and not on what accepted uploads leave. -/
def Unbreakable (S : Session) : Prop :=
  (∀ headers : UploadHeader, headers.validate S.maxFileSize = .ok () →
    ∀ disk, Survives (S.handleUpload headers) disk) ∧
  ∀ (headers : DownloadHeader) (start : Fs) (last : Crew (Port HostSig) Unit Store Handling),
    headers.validate = .ok () → (∀ slot b, start.content (S.metaPath slot) ≠ some b) →
    S.Interleaved ⟨⟨start,[]⟩,[]⟩ last → Survives (S.handleDownload headers) last.shared.disk

theorem uploadSurvives (headers : UploadHeader) : (∀ disk, Survives (S.handleUpload headers) disk) ↔
    ∃ cut, Hex.cutBefore headers.fileHash 8 = .ok cut := by
  constructor
  · intro survives
    rcases cutOrPanic headers.fileHash 8 with whole | broken
    · exact whole
    · obtain ⟨after,panicked⟩ := uploadBreaks (S := S) broken
      exact (survives _ after panicked).elim
  · rintro ⟨cut,prefix8⟩ disk
    exact calmSurvives (uploadCalm prefix8)

theorem downloadSurvives (headers : DownloadHeader) {s : Store} (documented : S.Documented s) :
    Survives (S.handleDownload headers) s.disk ↔
      S.Servable s.disk ⟨S.clientKey,headers.fileKey,headers.fileId⟩ := by
  have known : ∀ metadata, (s.disk.content (S.metaPath ⟨S.clientKey,headers.fileKey,headers.fileId⟩)).bind
      MetadataFile.deserialize = some metadata →
      ∃ e, S.Passed e ∧ metadata = UploadHeader.metadata S e.headers := by
    intro metadata parsed
    obtain ⟨b,found,parsed⟩ := Option.bind_eq_some_iff.mp parsed
    obtain ⟨e,member,-,rfl⟩ := documented.2 _ _ found
    have passed := documented.1 e member
    rw [entryRead passed.arrived] at parsed
    exact ⟨e,passed,(Option.some.inj parsed).symm⟩
  have readable : ∀ e, S.Passed e → ∃ cut, Hex.cutBefore e.headers.fileHash 8 = .ok cut := by
    intro e passed
    rw [← passed.hash]
    exact hashCut S _
  constructor
  · intro survives metadata content found
    by_contra uneven
    have parsed : (s.disk.content (S.metaPath ⟨S.clientKey,headers.fileKey,headers.fileId⟩)).bind
        MetadataFile.deserialize = some metadata := by
      unfold retrieve at found
      split at found <;> try contradiction
      split at found <;> try contradiction
      rename_i parsed _
      cases found
      exact parsed
    obtain ⟨e,passed,rfl⟩ := known metadata parsed
    obtain ⟨cut,prefix8⟩ := readable e passed
    have small : ∀ time, (1 :: DownloadResponse.serialize
        ⟨e.headers.fileName,e.headers.fileSize,e.headers.fileHash,time⟩).length ≤ Frame.u32Max := by
      intro time
      have bound : S.Announces [e] e.slot _ := entryAnnounced passed.arrived List.mem_cons_self rfl time
      have small := bound.1
      omega
    obtain ⟨after,panicked⟩ := downloadBreaks found prefix8 small uneven
    exact survives after panicked
  · intro servable
    refine calmSurvives (downloadCalm ?_ servable)
    intro metadata parsed
    obtain ⟨e,passed,rfl⟩ := known metadata parsed
    exact readable e passed

/- Exactly when a request cannot bring the server down. -/
theorem handlersEndure (S : Session) :
    (∀ headers : UploadHeader, headers.validate S.maxFileSize = .ok () →
      ((∀ disk, Survives (S.handleUpload headers) disk) ↔
        ∃ cut, Hex.cutBefore headers.fileHash 8 = .ok cut)) ∧
    ∀ (headers : DownloadHeader) (start : Fs) (last : Crew (Port HostSig) Unit Store Handling),
      headers.validate = .ok () → (∀ slot b, start.content (S.metaPath slot) ≠ some b) →
      S.Interleaved ⟨⟨start,[]⟩,[]⟩ last →
      (Survives (S.handleDownload headers) last.shared.disk ↔
        S.Servable last.shared.disk ⟨S.clientKey,headers.fileKey,headers.fileId⟩) := by
  refine ⟨fun headers _ => uploadSurvives headers,?_⟩
  intro headers start last _ empty ran
  have documented : S.Documented ⟨start,[]⟩ := ⟨nofun,fun slot b found => (empty slot b found).elim⟩
  exact downloadSurvives headers (interleavedKeeps ran documented).1

end Session

namespace Aborts
open Session RoundTrip Overwrite Integrity

def shortHash : UploadHeader := ⟨"4a43afa64e9342fc8320e63a43eb193b","dummy.bin",1048576,"ab","ronak"⟩

theorem shortHashBreaks : ¬ ∀ S : Session, S.Unbreakable := by
  intro always
  have broken : Hex.cutBefore shortHash.fileHash 8 = .panic := by decide +kernel
  obtain ⟨after,panicked⟩ := uploadBreaks (S := sampleSession) broken
  exact (always sampleSession).1 shortHash (by decide) _ after panicked

theorem zerosServable {disk : Fs} (stored : sampleSession.Stored disk
    ⟨sampleSession.clientKey,"ronak","4a43afa64e9342fc8320e63a43eb193b"⟩
    (UploadHeader.metadata sampleSession (sampleUpload zeros)) zeros) :
    sampleSession.Servable disk
      ⟨sampleSession.clientKey,"ronak","4a43afa64e9342fc8320e63a43eb193b"⟩ := by
  intro metadata content found
  unfold retrieve at found
  split at found <;> try contradiction
  split at found <;> try contradiction
  rename_i file
  cases found
  cases stored.file.symm.trans file
  rw [zerosLength]
  decide

/- A hash of eight bytes is taken, and the mebibyte stored under a whole one is served. -/
theorem goodHashEndures : (∀ disk, Survives (sampleSession.handleUpload
      ⟨"4a43afa64e9342fc8320e63a43eb193b","dummy.bin",1048576,"abababab","ronak"⟩) disk) ∧
    ∃ first uploader, sampleSession.Interleaved ⟨⟨⟨[]⟩,[]⟩,[]⟩ ⟨first,[⟨.done (.ok ()),uploader⟩]⟩ ∧
      Survives (sampleSession.handleDownload sampleDownload) first.disk := by
  have ends := handlersEndure sampleSession
  refine ⟨(ends.1 ⟨"4a43afa64e9342fc8320e63a43eb193b","dummy.bin",1048576,"abababab","ronak"⟩
    (by decide)).mpr ⟨_,(by decide +kernel :
      Hex.cutBefore "abababab" 8 = .ok (Postcard.utf8 "abababab"))⟩,?_⟩
  obtain ⟨first,uploader,stored,output,stores,holds,-⟩ := zerosStored
  refine ⟨first,uploader,stores,(ends.2 sampleDownload ⟨[]⟩ _ (by decide) ?_ stores).mpr
    (zerosServable holds)⟩
  intro slot b found
  rw [Fs.contentOf,emptyMissing] at found
  contradiction

end Aborts
end RDrive
