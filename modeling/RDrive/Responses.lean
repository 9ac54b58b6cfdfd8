import RDrive.Clients
import RDrive.Connection
import RDrive.RoundTrip
import RDrive.Alone

/-! What handle_connection may send at each point of a command's exchange, against
what the client that reads there takes it for. -/
namespace RDrive
open Crypto Header Party Bytes Program

inductive Response where
  | ack
  | challenge (nonce : {b : Bytes // b.length = 64})
  | upload (header : UploadResponse)
  | download (header : DownloadResponse)
  | warn (header : WarnHeader)
  | error (header : ErrorHeader)
  | status (header : StatusHeader)
  | echo (header : EchoDebugHeader)
  deriving DecidableEq, Repr

namespace Response

/- Some kinds are tagged, and some travel bare. -/
def encode : Response → Bytes
  | .ack => [1]
  | .challenge nonce => nonce.val
  | .upload header => 1 :: header.serialize
  | .download header => 1 :: header.serialize
  | .warn header => 2 :: header.serialize
  | .error header => 3 :: header.serialize
  | .status header => header.serialize
  | .echo header => header.serialize

end Response

/- The responses of an exchange by their number; a download goes on with chunks. -/
def IsResponse : Command → Nat → Prop
  | .download _, n => n = 0
  | _, _ => True

def MaySend : Command → Nat → Response → Prop
  | .upload _, n, .ack => n = 0
  | .upload _, n, .upload _ => n = 1
  | .upload _, n, .error _ => n ≤ 1
  | .download _, n, .download _ => n = 0
  | .download _, n, .error _ => n = 0
  | .auth _, n, .challenge _ => n = 0
  | .auth _, n, .ack => n = 1
  | .auth _, n, .warn _ => n = 1
  | .auth _, n, .error _ => n ≤ 1
  | .status, n, .status _ => n = 0
  | .status, n, .error _ => n = 0
  | .echo, _, .echo _ => True
  | .echo, n, .error _ => n = 0
  | _, _, _ => False

namespace Session

/- handle_connection from the first command on. -/
def answer (S : Session) (headers : Except String Command) : Party Unit := do
  match headers with
  | .error message =>
    if message.contains "Timeout" then
      let _ ← (S.sendFailed ⟨408,"Request timed out"⟩).attempt
    else if ["eof","early eof","unexpected eof"].any (fun pattern => message.toLower.contains pattern) then
      pure ()
    else .fail message
  | .ok command =>
    if ← isAllowedCost (cost command) then S.dispatch command
    else S.sendFailed ⟨429,"Rate limit exceeded, try again later"⟩

theorem connectionAnswers (S : Session) :
    S.handleConnection = (S.readHeaders.attempt >>= S.answer) := rfl

def noteSend (g : List Bytes) (c : (Port HostSig).Call) (_ : (Port HostSig).Ret c) : List Bytes :=
  match c with
  | .send b => g ++ [b]
  | _ => g

def Silent (c : (Port HostSig).Call) : Prop := ∀ g r, noteSend g c r = g

def Sound (S : Session) (command : Command) (g : List Bytes) : Prop :=
  ∀ n b, g[n]? = some b → IsResponse command n →
    ∃ nonce response, b = Frame.frame S.cipher S.sessionKey nonce (Response.encode response) ∧
      MaySend command n response ∧ response.encode.length ≤ Frame.u32Max

abbrev Sends (S : Session) (command : Command) (p : Party Unit) (g : List Bytes) : Prop :=
  Safe (noting noteSend) (S.Sound command) (Returns fun _ _ => True) p g

section
variable {S : Session} {command : Command} {g : List Bytes}

theorem soundNone : S.Sound command [] := by
  intro n b found
  simp at found

theorem soundAfter (sound : S.Sound command g) {b : Bytes}
    (last : IsResponse command g.length → ∃ nonce response,
      b = Frame.frame S.cipher S.sessionKey nonce (Response.encode response) ∧
        MaySend command g.length response ∧ response.encode.length ≤ Frame.u32Max) :
    S.Sound command (g ++ [b]) := by
  intro n x found point
  rcases Nat.lt_trichotomy n g.length with before | rfl | after
  · rw [List.getElem?_append_left before] at found
    exact sound n x found point
  · simp only [List.getElem?_concat_length,Option.some.injEq] at found
    subst found
    exact last point
  · rw [List.getElem?_eq_none (by rw [List.length_append,List.length_singleton]; omega)] at found
    contradiction

theorem responseSafe (sound : S.Sound command g) (response : Response)
    (allowed : MaySend command g.length response) {data : Bytes} (same : data = response.encode) :
    Safe (noting noteSend) (S.Sound command) (Returns fun _ after => after.length = g.length + 1)
      (S.writeEncryptFrameInto data) g := by
  subst same
  unfold writeEncryptFrameInto
  split
  · exact ⟨sound,trivial⟩
  · rename_i small
    refine ⟨sound,fun nonce after drawn => ?_⟩
    cases drawn
    refine ⟨sound,fun answer after noted => ?_⟩
    cases noted
    have kept : S.Sound command (g ++ [Frame.frame S.cipher S.sessionKey nonce response.encode]) :=
      soundAfter sound fun _ => ⟨nonce,response,rfl,allowed,by omega⟩
    cases answer with
    | ok sent => exact ⟨kept,List.length_append⟩
    | error fault => exact ⟨kept,trivial⟩

theorem lastResponse (sound : S.Sound command g) (response : Response)
    (allowed : MaySend command g.length response) {data : Bytes} (same : data = response.encode) :
    S.Sends command (S.writeEncryptFrameInto data) g :=
  safeWeaken (responseSafe sound response allowed same) fun result _ _ _ => by cases result <;> trivial

theorem responseCloses (sound : S.Sound command g) (response : Response)
    (allowed : MaySend command g.length response) {data : Bytes} (same : data = response.encode) :
    Safe (noting noteSend) (S.Sound command) (Returns fun _ _ => True) (S.sendClosing data) g := by
  refine safeThen (responseSafe sound response allowed same) ?_
  rintro _ t sound -
  refine safeWeaken (unnotedKeeps sound (shutdownConfined fun _ _ => rfl)) fun result _ _ _ => ?_
  cases result <;> trivial

theorem silentThen {α : Type} {p : Party α} {f : α → Party Unit} (sound : S.Sound command g)
    (silent : Confined Silent p) (after : ∀ a, S.Sends command (f a) g) :
    S.Sends command (p >>= f) g := by
  refine safeThen (unnotedKeeps sound silent) ?_
  rintro a t _ rfl
  exact after a

theorem silentLast {p : Party Unit} (sound : S.Sound command g) (silent : Confined Silent p) :
    S.Sends command p g :=
  safeWeaken (unnotedKeeps sound silent) fun result _ _ _ => by cases result <;> trivial

theorem silentHere (c : HostCall) : Confined Silent (here c) := confinedHere c fun _ _ => rfl

theorem failedSends (sound : S.Sound command g) (header : ErrorHeader)
    (allowed : MaySend command g.length (.error header)) : S.Sends command (S.sendFailed header) g :=
  responseCloses sound (.error header) allowed rfl

theorem silentCreate (path : Path) : Confined Silent (createDirAll path) :=
  confinedBind (silentHere _) fun made => by cases made <;> trivial

theorem uploadSends (headers : UploadHeader) :
    S.Sends (.upload headers) (S.handleUpload headers) [] := by
  unfold handleUpload
  refine silentThen soundNone (silentHere _) fun arc => ?_
  refine silentThen soundNone (silentHere _) fun locked => ?_
  split
  · refine silentThen soundNone (silentCreate _) fun _ => ?_
    refine silentThen soundNone (confinedLift _) fun _ => ?_
    refine safeThen (responseSafe soundNone .ack (show MaySend (.upload headers) 0 .ack from rfl) rfl) ?_
    intro _ g sound sent
    refine silentThen sound (silentHere _) fun networkElapsed => ?_
    refine silentThen sound (confinedBind (silentHere _) fun made => ?_) fun _ => ?_
    · cases made <;> trivial
    refine silentThen sound (receiveConfined (fun _ _ _ => rfl) (fun _ _ _ => rfl) _) fun found => ?_
    unfold finishUpload
    refine silentThen sound (bufFlushConfined (fun _ _ _ => rfl) _) fun _ => ?_
    simp only []
    split
    · refine silentThen sound (silentHere _) fun _ => ?_
      exact failedSends sound _ (by rw [sent]; exact Nat.le_refl 1)
    · refine silentThen sound (confinedBind (silentHere _) fun made => ?_) fun _ => ?_
      · cases made <;> trivial
      refine safeThen (responseCloses sound (.upload _) (by rw [sent]; rfl) rfl) ?_
      intro _ g sound _
      exact silentLast sound (confinedBind (silentHere _) fun _ =>
        confinedBind (silentHere _) fun _ => silentHere _)
  · exact failedSends soundNone _ (Nat.zero_le 1)

theorem startedSends {header : DownloadHeader} {p : Party Unit} (sound : S.Sound (.download header) g)
    (started : 0 < g.length) (anything : Confined (fun _ => True) p) :
    S.Sends (.download header) p g := by
  have kept : Safe (noting noteSend) (fun g => S.Sound (.download header) g ∧ 0 < g.length)
      (fun _ _ => True) p g := by
    refine confinedSafe ⟨sound,started⟩ anything ?_
    intro g c r after held _ noted
    cases noted
    cases c with
    | send b =>
      refine ⟨soundAfter held.1 fun point => absurd point (Nat.ne_of_gt held.2),?_⟩
      exact Nat.lt_of_lt_of_le held.2 (by simp [noteSend])
    | recv n => exact held
    | here c => exact held
  refine safeWeaken (safeMono kept fun _ held => held.1) fun result _ _ _ => ?_
  cases result <;> trivial

theorem serveSends (headers : DownloadHeader) (arc : FileLock.Arc) (metadata : MetadataFile) :
    S.Sends (.download headers) (S.serveFile headers arc metadata) [] := by
  unfold serveFile
  refine silentThen soundNone (confinedLift _) fun _ => ?_
  refine silentThen soundNone (silentHere _) fun networkElapsed => ?_
  refine safeThen (responseSafe soundNone (.download _)
    (show MaySend (.download headers) 0 (.download _) from rfl) rfl) ?_
  intro _ g sound sent
  refine silentThen sound (silentHere _) fun chunks => ?_
  cases chunks with
  | none => exact ⟨sound,trivial⟩
  | some chunks =>
    refine startedSends sound (by rw [sent]; exact Nat.succ_pos 0) ?_
    refine confinedBind (sendLoopConfined trivial (fun _ _ => trivial) _ _) fun _ => ?_
    exact closeConfined trivial trivial trivial trivial trivial

theorem downloadSends (headers : DownloadHeader) :
    S.Sends (.download headers) (S.handleDownload headers) [] := by
  have refused : ∀ header, S.Sends (.download headers) (S.sendFailed header) [] :=
    fun header => failedSends soundNone header rfl
  unfold handleDownload
  refine silentThen soundNone (silentHere _) fun arc => ?_
  refine silentThen soundNone (silentHere _) fun locked => ?_
  split
  · refine silentThen soundNone (silentHere _) fun stored => ?_
    split
    · refine silentThen soundNone (silentHere _) fun described => ?_
      split
      · refine silentThen soundNone (silentHere _) fun content => ?_
        split
        · exact refused _
        · exact serveSends headers arc _
      · exact refused _
    · exact refused _
  · exact refused _

theorem refusalSends {flag : UInt8} (sound : S.Sound (.auth flag) g) (challenged : g.length = 1)
    (header : ErrorHeader) : S.Sends (.auth flag) (S.sendFailed header) g :=
  failedSends sound header (by rw [challenged]; exact Nat.le_refl 1)

theorem ackSends {flag : UInt8} (sound : S.Sound (.auth flag) g) (challenged : g.length = 1) :
    S.Sends (.auth flag) (S.writeEncryptFrameInto [1]) g :=
  lastResponse sound .ack (by rw [challenged]; rfl) rfl

theorem createKeySends {flag : UInt8} (sound : S.Sound (.auth flag) g) (challenged : g.length = 1)
    (pubKey : Bytes) : S.Sends (.auth flag) (S.createKeyDirs pubKey) g := by
  unfold createKeyDirs
  refine silentThen sound (silentHere _) fun listed => ?_
  refine silentThen sound (silentHere _) fun isDir => ?_
  split
  · exact refusalSends sound challenged _
  · split
    · exact refusalSends sound challenged _
    · refine silentThen sound (silentHere _) fun stored => ?_
      refine silentThen sound ?_ fun both => ?_
      · unfold andExists
        split
        · exact silentHere _
        · trivial
      · split
        · exact responseCloses sound (.warn _) (by rw [challenged]; rfl) rfl
        · refine silentThen sound (silentHere _) fun keyMade => ?_
          refine silentThen sound (silentHere _) fun storageMade => ?_
          split
          · exact ackSends sound challenged
          · exact refusalSends sound challenged _

theorem registerSends {flag : UInt8} (sound : S.Sound (.auth flag) g) (challenged : g.length = 1)
    (headerBytes : Bytes) : S.Sends (.auth flag) (S.registerKey headerBytes) g := by
  unfold registerKey
  refine silentThen sound (confinedLift _) fun (nonce,signatureNewKey) => ?_
  refine silentThen sound (confinedLift _) fun (signature,newKey) => ?_
  dsimp only
  split
  · exact ⟨sound,trivial⟩
  · exact refusalSends sound challenged _
  · exact createKeySends sound challenged _

theorem renameKeySends {flag : UInt8} (sound : S.Sound (.auth flag) g) (challenged : g.length = 1)
    (oldPubKey newPubKey : Bytes) : S.Sends (.auth flag) (S.renameKeyDirs oldPubKey newPubKey) g := by
  unfold renameKeyDirs
  refine silentThen sound (silentHere _) fun registered => ?_
  split
  · refine silentThen sound (silentHere _) fun keyMoved => ?_
    refine silentThen sound (silentHere _) fun storageMoved => ?_
    split
    · exact ackSends sound challenged
    · exact refusalSends sound challenged _
  · exact ⟨sound,trivial⟩

theorem rotateSends {flag : UInt8} (sound : S.Sound (.auth flag) g) (challenged : g.length = 1)
    (headerBytes : Bytes) : S.Sends (.auth flag) (S.rotateKey headerBytes) g := by
  unfold rotateKey
  refine silentThen sound (confinedLift _) fun (nonce,signatureNewKeyOldKey) => ?_
  refine silentThen sound (confinedLift _) fun (signature,newKeyOldKey) => ?_
  refine silentThen sound (confinedLift _) fun (oldKey,newKey) => ?_
  dsimp only
  split
  · exact ⟨sound,trivial⟩
  · exact refusalSends sound challenged _
  · split
    · exact ⟨sound,trivial⟩
    · exact ⟨sound,trivial⟩
    · exact renameKeySends sound challenged _ _

theorem authSends (flag : UInt8) : S.Sends (.auth flag) (S.handleAuthKeys flag) [] := by
  unfold handleAuthKeys
  refine silentThen soundNone (silentHere _) fun random => ?_
  refine safeThen (responseSafe soundNone (.challenge ⟨_,S.hashes.sha512Length _⟩)
    (show MaySend (.auth flag) 0 (.challenge _) from rfl) rfl) ?_
  intro _ g sound challenged
  have body : Confined Silent S.readEncryptDataInto := readConfined fun _ _ _ => rfl
  split
  · exact silentThen sound body (registerSends sound challenged)
  · split
    · exact silentThen sound body (rotateSends sound challenged)
    · exact refusalSends sound challenged _

theorem statusSends : S.Sends .status S.sendStatus [] := by
  unfold sendStatus
  refine silentThen soundNone (silentHere _) fun uptime => ?_
  refine silentThen soundNone (silentHere _) fun totals => ?_
  refine silentThen soundNone (silentHere _) fun dirs => ?_
  split
  · exact ⟨soundNone,trivial⟩
  · refine silentThen soundNone (silentHere _) fun now => ?_
    exact responseCloses soundNone (.status _) (show MaySend .status 0 (.status _) from rfl) rfl

theorem echoSends (rounds : Nat) (sound : S.Sound .echo g) :
    S.Sends .echo (S.handleEchoPerf rounds) g := by
  induction rounds generalizing g with
  | zero => exact ⟨sound,trivial⟩
  | succ rounds ih =>
    unfold handleEchoPerf
    refine silentThen sound (attemptConfined (readConfined fun _ _ _ => rfl)) fun payload => ?_
    cases payload with
    | error message =>
      simp only []
      split <;> exact ⟨sound,trivial⟩
    | ok payload =>
      simp only []
      split
      · exact ⟨sound,trivial⟩
      · refine silentThen sound (silentHere _) fun processMs => ?_
        refine safeThen (responseSafe sound (.echo _) trivial rfl) ?_
        intro _ g sound _
        exact ih sound

theorem firstError (command : Command) (header : ErrorHeader) :
    MaySend command 0 (.error header) := by
  cases command <;> first | exact rfl | exact Nat.zero_le 1

theorem dispatchSends (command : Command) : S.Sends command (S.dispatch command) [] := by
  have refused : ∀ header, S.Sends command (S.sendFailed header) [] :=
    fun header => failedSends soundNone header (firstError command header)
  cases command with
  | echo =>
    simp only [dispatch]
    split
    · exact echoSends _ soundNone
    · exact refused _
  | auth flags => exact authSends flags
  | upload header =>
    simp only [dispatch]
    split
    · exact uploadSends header
    · exact refused _
    · exact ⟨soundNone,trivial⟩
  | download header =>
    simp only [dispatch]
    split
    · exact downloadSends header
    · exact refused _
    · exact ⟨soundNone,trivial⟩
  | status => exact statusSends

theorem answerSends {headers : Except String Command}
    (asked : ∀ read, headers = .ok read → read = command) : S.Sends command (S.answer headers) [] := by
  have refused : ∀ header, S.Sends command (S.sendFailed header) [] :=
    fun header => failedSends soundNone header (firstError command header)
  cases headers with
  | ok read =>
    cases asked read rfl
    refine silentThen soundNone (silentHere _) fun allowed => ?_
    split
    · exact dispatchSends command
    · exact refused _
  | error message =>
    simp only [answer]
    split
    · refine safeThen (attemptSafe (refused ⟨408,"Request timed out"⟩)) ?_
      intro _ g sound _
      exact ⟨sound,trivial⟩
    · split <;> exact ⟨soundNone,trivial⟩

end

end Session

/- A place where a client function waits for a frame, and what it is to do with a
response that is no error. -/
structure ClientRead (S : Session) (α : Type) where
  client : Party α
  rest : Bytes → Party α
  waits : client = (S.readEncryptDataInto >>= rest)
  takes : Response → Party α → Prop

def ClientRead.Understood {S : Session} {α : Type} (R : ClientRead S α) (response : Response) : Prop :=
  match response with
  | .error e => ∃ what : String, R.rest response.encode = .done (.err s!"{what} failed: {e.code} - {e.message}")
  | response => R.takes response (R.rest response.encode)

namespace Session

def admission (S : Session) (filePath : Path) : ClientRead S String where
  client := S.uploadStream filePath
  rest := _
  waits := rfl
  takes response then_ := response = .ack ∧
    ∃ next, then_ = .call (.here (.reads filePath readChunkSize)) next

def completion (S : Session) : ClientRead S String where
  client := S.uploadOutcome
  rest := _
  waits := rfl
  takes response then_ := ∃ header, response = .upload header ∧ then_ = do
    shutdown
    pure header.fileId

def saving (S : Session) (output : Path) : ClientRead S Downloaded where
  client := S.saveFile output
  rest := _
  waits := rfl
  takes response then_ := ∃ header, response = .download header ∧
    then_ = S.saveResponse output header

def challenged (S : Session) (signing : Signing) (privateKey publicKey : Key32)
    (oldPublicKey : Option Key32) : ClientRead S Unit where
  client := S.awaitChallenge signing privateKey publicKey oldPublicKey
  rest := _
  waits := rfl
  takes response then_ := ∃ nonce, response = .challenge nonce ∧
    then_ = S.answerAuth signing privateKey publicKey oldPublicKey nonce.val

def authorization (S : Session) : ClientRead S Unit where
  client := S.authOutcome
  rest := _
  waits := rfl
  takes response then_ := (response = .ack ∨ ∃ header, response = .warn header) ∧
    then_ = .done (.ok ())

def statusReading (S : Session) : ClientRead S StatusHeader where
  client := do
    let response ← S.readEncryptDataInto
    StatusHeader.deserialize response
  rest := _
  waits := rfl
  takes response then_ := ∃ header, response = .status header ∧ then_ = .done (.ok header)

def sampling (S : Session) (randLens : List Nat) : ClientRead S (List EchoDebugHeader) where
  client := do
    let response ← S.readEncryptDataInto
    let echo ← EchoDebugHeader.deserialize response
    let others ← S.echoSamples randLens
    pure (echo :: others)
  rest := _
  waits := rfl
  takes response then_ := ∃ header, response = .echo header ∧ then_ = do
    let others ← S.echoSamples randLens
    pure (header :: others)

theorem statusAsks (S : Session) : S.getServerStatus =
    (S.writeEncryptFrameInto (Command.serialize .status) >>= fun _ => S.statusReading.client) := rfl

section
variable {S : Session}

theorem errorTagged {e : ErrorHeader} (fits : (Response.error e).encode.length ≤ Frame.u32Max) :
    index (Response.error e).encode 0 = .ok 3 ∧
      ErrorHeader.deserialize (Response.error e).encode.tail = .ok e := by
  refine ⟨rfl,errorRead ?_⟩
  unfold Frame.u32Max at fits
  simp only [Response.encode,List.length_cons] at fits
  omega

theorem admissionTakes (filePath : Path) {response : Response}
    (fits : response.encode.length ≤ Frame.u32Max)
    (sent : response = .ack ∨ ∃ e, response = .error e) :
    (S.admission filePath).Understood response := by
  rcases sent with rfl | ⟨e,rfl⟩
  · exact ⟨rfl,_,rfl⟩
  · obtain ⟨flag,read⟩ := errorTagged fits
    refine ⟨"Upload",?_⟩
    simp only [admission,flag,read,Program.liftDone,Program.bindDone,if_true]
    rfl

theorem completionTakes {response : Response} (fits : response.encode.length ≤ Frame.u32Max)
    (sent : (∃ header, response = .upload header) ∨ ∃ e, response = .error e) :
    S.completion.Understood response := by
  rcases sent with ⟨header,rfl⟩ | ⟨e,rfl⟩
  · have read : UploadResponse.deserialize header.serialize = .ok header := by
      apply Outcome.ofOptionIsOk.mpr
      unfold Frame.u32Max at fits
      simp only [Response.encode,List.length_cons] at fits
      have whole := @uploadResponseRead header (by omega) []
      rw [List.append_nil] at whole
      exact Postcard.fromBytesOf whole
    refine ⟨header,rfl,?_⟩
    have flag : index (Response.upload header).encode 0 = .ok 1 := rfl
    have tail : (Response.upload header).encode.tail = header.serialize := rfl
    simp only [completion,flag,tail,read,Program.liftDone,Program.bindDone]
    rfl
  · obtain ⟨flag,read⟩ := errorTagged fits
    refine ⟨"Upload",?_⟩
    simp only [completion,flag,read,Program.liftDone,Program.bindDone,if_true]
    rfl

theorem savingTakes (output : Path) {response : Response}
    (fits : response.encode.length ≤ Frame.u32Max)
    (sent : (∃ header, response = .download header) ∨ ∃ e, response = .error e) :
    (S.saving output).Understood response := by
  rcases sent with ⟨header,rfl⟩ | ⟨e,rfl⟩
  · have read : DownloadResponse.deserialize header.serialize = .ok header := by
      apply Outcome.ofOptionIsOk.mpr
      unfold Frame.u32Max at fits
      simp only [Response.encode,List.length_cons] at fits
      have whole := @downloadResponseRead header (by omega) []
      rw [List.append_nil] at whole
      exact Postcard.fromBytesOf whole
    refine ⟨header,rfl,?_⟩
    have flag : index (Response.download header).encode 0 = .ok 1 := rfl
    have tail : (Response.download header).encode.tail = header.serialize := rfl
    simp only [saving,flag,tail,read,Program.liftDone,Program.bindDone]
    rfl
  · obtain ⟨flag,read⟩ := errorTagged fits
    refine ⟨"Download",?_⟩
    simp only [saving,flag,read,Program.liftDone,Program.bindDone,if_true]
    rfl

theorem authorizationTakes {response : Response} (fits : response.encode.length ≤ Frame.u32Max)
    (sent : response = .ack ∨ (∃ header, response = .warn header) ∨ ∃ e, response = .error e) :
    S.authorization.Understood response := by
  rcases sent with rfl | ⟨header,rfl⟩ | ⟨e,rfl⟩
  · exact ⟨.inl rfl,rfl⟩
  · have read : WarnHeader.deserialize header.serialize = .ok header := by
      unfold Frame.u32Max at fits
      simp only [Response.encode,List.length_cons] at fits
      exact warnRead (by omega)
    have flag : index (Response.warn header).encode 0 = .ok 2 := rfl
    have tail : (Response.warn header).encode.tail = header.serialize := rfl
    refine ⟨.inr ⟨header,rfl⟩,?_⟩
    simp only [authorization,flag,tail,read,Program.liftDone,Program.bindDone]
    rfl
  · obtain ⟨flag,read⟩ := errorTagged fits
    refine ⟨"Auth",?_⟩
    simp only [authorization,flag,read,Program.liftDone,Program.bindDone]
    rfl

theorem statusTakes {header : StatusHeader} (fits : header.serialize.length ≤ Frame.u32Max) :
    S.statusReading.Understood (.status header) := by
  have read : StatusHeader.deserialize (Response.status header).encode = .ok header := by
    unfold Frame.u32Max at fits
    exact statusRead (by omega)
  refine ⟨header,rfl,?_⟩
  simp only [statusReading,read,Program.liftDone]

theorem samplingTakes (randLens : List Nat) (header : EchoDebugHeader) :
    (S.sampling randLens).Understood (.echo header) := by
  have read : EchoDebugHeader.deserialize (Response.echo header).encode = .ok header := echoRead header
  refine ⟨header,rfl,?_⟩
  simp only [sampling,read,Program.liftDone,Program.bindDone]

theorem decoderText (what : String) (e : ErrorHeader) :
    "Failed to deserialize" ≠ s!"{what} failed: {e.code} - {e.message}" := by
  intro same
  have colon : ':' ∈ (toString " failed: ").toList := by decide
  have named : ':' ∈ (s!"{what} failed: {e.code} - {e.message}").toList := by
    simp [String.toList_append,colon]
  rw [← same] at named
  exact absurd named (by decide)

theorem bareMistakes {α β : Type} {x : Option α} {f : α → Party β} {what : String} {e : ErrorHeader}
    (ends : ∀ a message, f a ≠ .done (.err message)) :
    ((liftM (Outcome.ofOption "Failed to deserialize" x) : Party α) >>= f) ≠
      .done (.err s!"{what} failed: {e.code} - {e.message}") := by
  cases x with
  | some a => exact ends a _
  | none =>
    intro failed
    exact decoderText what e (Outcome.err.inj (Program.done.inj failed))

theorem statusMistakes (e : ErrorHeader) : ¬ S.statusReading.Understood (.error e) := by
  rintro ⟨what,failed⟩
  have plain := Program.bindPure (liftM (StatusHeader.deserialize (Response.error e).encode) :
    Party StatusHeader)
  exact bareMistakes (f := pure) (fun _ _ => nofun) (plain.trans failed)

theorem samplingMistakes (randLens : List Nat) (e : ErrorHeader) :
    ¬ (S.sampling randLens).Understood (.error e) := by
  rintro ⟨what,failed⟩
  refine bareMistakes ?_ failed
  intro echo message
  cases randLens with
  | nil => exact nofun
  | cons randLen rest => exact nofun

theorem challengeMistakes (signing : Signing) (privateKey publicKey : Key32)
    (oldPublicKey : Option Key32) (e : ErrorHeader) :
    ¬ (S.challenged signing privateKey publicKey oldPublicKey).Understood (.error e) := by
  rintro ⟨what,failed⟩
  simp only [challenged,answerAuth] at failed
  rcases Nat.decEq (Response.error e).encode.length 64 with other | size
  · rw [bodyPanics other] at failed
    cases failed
  · let signature := signing.sign privateKey (Response.error e).encode
    have body : ∃ header, authBody (Response.error e).encode signature.val publicKey oldPublicKey =
        .ok header ∧ header.length ≤ 192 := bodyFits size signature.property oldPublicKey
    obtain ⟨header,made,short⟩ := body
    rw [made] at failed
    simp only [Program.liftDone,Program.bindDone,writeEncryptFrameInto] at failed
    rw [if_neg (by unfold Frame.u32Max; omega)] at failed
    cases failed

end

structure Asked where
  filePath : Path
  output : Path
  signing : Signing
  privateKey : Key32
  publicKey : Key32
  oldPublicKey : Option Key32
  randLens : List Nat

def Understands (S : Session) (a : Asked) : Command → Nat → Response → Prop
  | .upload _, 0, response => (S.admission a.filePath).Understood response
  | .upload _, _, response => S.completion.Understood response
  | .download _, _, response => (S.saving a.output).Understood response
  | .auth _, 0, response =>
    (S.challenged a.signing a.privateKey a.publicKey a.oldPublicKey).Understood response
  | .auth _, _, response => S.authorization.Understood response
  | .status, _, response => S.statusReading.Understood response
  | .echo, _, response => (S.sampling a.randLens).Understood response

/- Where the client does not look for a tag. -/
def Bare : Command → Nat → Prop
  | .auth _, n => n = 0
  | .status, _ => True
  | .echo, _ => True
  | _, _ => False

variable {S : Session}

theorem uploadUnderstood {header : UploadHeader} {n : Nat} {response : Response} (a : Asked)
    (fits : response.encode.length ≤ Frame.u32Max) (may : MaySend (.upload header) n response) :
    S.Understands a (.upload header) n response := by
  cases n with
  | zero =>
    have sent : response = .ack ∨ ∃ e, response = .error e := by
      cases response with
      | ack => exact .inl rfl
      | error e => exact .inr ⟨e,rfl⟩
      | upload header => exact absurd may Nat.zero_ne_one
      | _ => exact may.elim
    exact admissionTakes _ fits sent
  | succ n =>
    have sent : (∃ header, response = .upload header) ∨ ∃ e, response = .error e := by
      cases response with
      | ack => exact absurd may (Nat.succ_ne_zero n)
      | error e => exact .inr ⟨e,rfl⟩
      | upload header => exact .inl ⟨header,rfl⟩
      | _ => exact may.elim
    exact completionTakes fits sent

theorem authUnderstood {flags : UInt8} {n : Nat} {response : Response} (a : Asked)
    (fits : response.encode.length ≤ Frame.u32Max) (may : MaySend (.auth flags) n response)
    (well : ¬ ((∃ e, response = .error e) ∧ Bare (.auth flags) n)) :
    S.Understands a (.auth flags) n response := by
  cases n with
  | zero =>
    have sent : ∃ nonce, response = .challenge nonce := by
      cases response with
      | challenge nonce => exact ⟨nonce,rfl⟩
      | ack => exact absurd may Nat.zero_ne_one
      | warn header => exact absurd may Nat.zero_ne_one
      | error e => exact (well ⟨⟨e,rfl⟩,rfl⟩).elim
      | _ => exact may.elim
    obtain ⟨nonce,rfl⟩ := sent
    exact ⟨nonce,rfl,rfl⟩
  | succ n =>
    have sent : response = .ack ∨ (∃ header, response = .warn header) ∨ ∃ e, response = .error e := by
      cases response with
      | ack => exact .inl rfl
      | warn header => exact .inr (.inl ⟨header,rfl⟩)
      | error e => exact .inr (.inr ⟨e,rfl⟩)
      | challenge nonce => exact absurd may (Nat.succ_ne_zero n)
      | _ => exact may.elim
    exact authorizationTakes fits sent

theorem taggedUnderstood {command : Command} {n : Nat} {response : Response} (a : Asked)
    (fits : response.encode.length ≤ Frame.u32Max) (may : MaySend command n response)
    (well : ¬ ((∃ e, response = .error e) ∧ Bare command n)) : S.Understands a command n response := by
  cases command with
  | upload header => exact uploadUnderstood a fits may
  | download header =>
    have sent : (∃ header, response = .download header) ∨ ∃ e, response = .error e := by
      cases response with
      | download header => exact .inl ⟨header,rfl⟩
      | error e => exact .inr ⟨e,rfl⟩
      | _ => exact may.elim
    exact savingTakes _ fits sent
  | auth flags => exact authUnderstood a fits may well
  | status =>
    have sent : ∃ header, response = .status header := by
      cases response with
      | status header => exact ⟨header,rfl⟩
      | error e => exact (well ⟨⟨e,rfl⟩,trivial⟩).elim
      | _ => exact may.elim
    obtain ⟨header,rfl⟩ := sent
    exact statusTakes fits
  | echo =>
    have sent : ∃ header, response = .echo header := by
      cases response with
      | echo header => exact ⟨header,rfl⟩
      | error e => exact (well ⟨⟨e,rfl⟩,trivial⟩).elim
      | _ => exact may.elim
    obtain ⟨header,rfl⟩ := sent
    exact samplingTakes _ header

theorem bareMistaken {command : Command} {n : Nat} (a : Asked) (e : ErrorHeader)
    (bare : Bare command n) : ¬ S.Understands a command n (.error e) := by
  cases command with
  | upload header => exact bare.elim
  | download header => exact bare.elim
  | auth flags =>
    cases bare
    exact challengeMistakes _ _ _ _ e
  | status => exact statusMistakes e
  | echo => exact samplingMistakes _ e

/- Every response the server can send is what its client takes it for, except an
error where the client reads without looking for a tag. -/
theorem responsesUnderstood {command : Command} {headers : Except String Command}
    {q : Party Unit} {sent : List Bytes} (a : Asked)
    (asked : ∀ read, headers = .ok read → read = command)
    (ran : Reaches (noting noteSend) (S.answer headers) [] q sent) :
    ∀ n b, sent[n]? = some b → IsResponse command n →
      ∃ nonce response, b = Frame.frame S.cipher S.sessionKey nonce (Response.encode response) ∧
        MaySend command n response ∧
        (S.Understands a command n response ↔ ¬ ((∃ e, response = .error e) ∧ Bare command n)) := by
  intro n b found point
  obtain ⟨nonce,response,same,may,fits⟩ := safeStart (safeReaches ran (answerSends asked)) n b found point
  refine ⟨nonce,response,same,may,?_,taggedUnderstood a fits may⟩
  rintro understood ⟨⟨e,rfl⟩,bare⟩
  exact bareMistaken a e bare understood

theorem frameData {A : Cipher} {key one two : Bytes} {nonce other : Nonce}
    (same : Frame.frame A key nonce one = Frame.frame A key other two) : one = two := by
  unfold Frame.frame at same
  have boxes := (List.append_inj same (by rw [Frame.be32Length,Frame.be32Length])).2
  have opened := A.openedSealed key nonce one
  rw [boxes,A.openedSealed] at opened
  exact (Option.some.inj opened).symm

end Session

namespace Responses
open Session RoundTrip

def limited : ErrorHeader := ⟨429,"Rate limit exceeded, try again later"⟩

def zeroNonce : Nonce := ⟨List.replicate nonceLen 0,List.length_replicate⟩

theorem frameNotes {S : Session} {data : Bytes} {g : List Bytes}
    (small : data.length ≤ Frame.u32Max) :
    Reaches (noting noteSend) (S.writeEncryptFrameInto data) g (.done (.ok ()))
      (g ++ [Frame.frame S.cipher S.sessionKey zeroNonce data]) := by
  have drawn : noting noteSend g (.here (.draw nonceLen)) zeroNonce g := rfl
  have sent : noting noteSend g (.send (Frame.frame S.cipher S.sessionKey zeroNonce data)) (.ok ())
    (g ++ [Frame.frame S.cipher S.sessionKey zeroNonce data]) := rfl
  unfold writeEncryptFrameInto
  rw [if_neg (by omega)]
  exact .answer drawn (.answer sent (.here _ _))

theorem closingReached {S : Session} {data : Bytes} {g : List Bytes}
    (small : data.length ≤ Frame.u32Max) :
    Reaches (noting noteSend) (S.sendClosing data) g (.done (.ok ()))
      (g ++ [Frame.frame S.cipher S.sessionKey zeroNonce data]) := by
  have closed : noting noteSend (g ++ [Frame.frame S.cipher S.sessionKey zeroNonce data])
    (.here .shutdown) (.ok ()) (g ++ [Frame.frame S.cipher S.sessionKey zeroNonce data]) := rfl
  exact reachesThen (frameNotes small) (shutdownReached closed)

theorem limitedReached (S : Session) (command : Command) :
    Reaches (noting noteSend) (S.answer (.ok command)) [] (.done (.ok ()))
      [Frame.frame S.cipher S.sessionKey zeroNonce (Response.error limited).encode] := by
  have refused : noting noteSend [] (.here (.isAllowedCost (cost command))) false [] := rfl
  have short : (Response.error limited).encode.length ≤ Frame.u32Max := by decide +kernel
  exact .answer refused (closingReached short)

def sampleAsked : Asked := ⟨["dummy.bin"],["out"],echoSigning,
  ⟨List.replicate 32 0,List.length_replicate⟩,⟨List.replicate 32 0,List.length_replicate⟩,none,[]⟩

def sampleDownload : Command := .download ⟨"4a43afa64e9342fc8320e63a43eb193b","ronak"⟩

/- The status client cannot tell a refusal from a status. -/
theorem refusalMistaken : ¬ ∀ (S : Session) (command : Command) (headers : Except String Command)
    (q : Party Unit) (sent : List Bytes) (a : Asked), (∀ read, headers = .ok read → read = command) →
    Reaches (noting noteSend) (S.answer headers) [] q sent →
    ∀ n b, sent[n]? = some b → IsResponse command n →
      ∃ nonce response, b = Frame.frame S.cipher S.sessionKey nonce (Response.encode response) ∧
        MaySend command n response ∧ S.Understands a command n response := by
  intro always
  obtain ⟨nonce,response,same,may,understood⟩ := always sampleSession .status (.ok .status) _ _
    sampleAsked (fun read same => (Except.ok.inj same).symm) (limitedReached _ _) 0 _ rfl trivial
  have data := frameData same
  cases response with
  | status header =>
    have read : StatusHeader.deserialize (Response.error limited).encode = .ok header := by
      rw [data]
      have size : header.serialize.length = 40 := (congrArg List.length data).symm.trans (by decide +kernel)
      exact statusRead (by rw [size]; decide)
    have garbled : StatusHeader.deserialize (Response.error limited).encode =
        .err "Failed to deserialize" := by decide +kernel
    rw [garbled] at read
    contradiction
  | error e => exact statusMistakes e understood
  | _ => exact may

theorem refusalUnderstood : ∃ nonce response,
    Frame.frame sampleSession.cipher sampleSession.sessionKey zeroNonce (Response.error limited).encode =
      Frame.frame sampleSession.cipher sampleSession.sessionKey nonce (Response.encode response) ∧
    sampleSession.Understands sampleAsked sampleDownload 0 response := by
  obtain ⟨nonce,response,same,-,exactly⟩ := responsesUnderstood sampleAsked
    (fun read same => (Except.ok.inj same).symm) (limitedReached sampleSession sampleDownload)
    0 _ rfl rfl
  exact ⟨nonce,response,same,exactly.mpr (by rintro ⟨-,bare⟩; exact bare)⟩

end Responses
end RDrive
