import RDrive.Overwrite

/-! All that a download sees of the disk: the directory of its slot and the two files in
it. Where another slot, or another disk, shows the same there, it runs the same. -/
namespace RDrive
open Crypto Header Party Bytes Program

/- The disk stays what it is, all else answers as it likes. Noted is what goes out, of a
write that fails any part. -/
def visiting (disk : Fs) : Env (Port HostSig) Bytes := fun sent c r after =>
  match c, r with
  | .here (.fs op), answer => answer = (disk.exec op).1 ∧ after = sent
  | .here (.reads path _), chunks => chunks.map List.flatten = disk.content path ∧ after = sent
  | .send b, .ok () => after = sent ++ b
  | .send b, .error _ => ∃ k, after = sent ++ b.take k
  | _, _ => after = sent

def Blind : (Port HostSig).Call → Prop
  | .here (.fs _) => False
  | .here (.reads _ _) => False
  | .here .readServerMap => False
  | .here (.writeServerMap _) => False
  | _ => True

inductive Mirrors (image : Path → Path → Prop) {α : Type} : Party α → Party α → Prop where
  | ended (result : Outcome α) : Mirrors image (.done result) (.done result)
  | blind {c next other} (blind : Blind c) (later : ∀ r, Mirrors image (next r) (other r)) :
      Mirrors image (.call c next) (.call c other)
  | exists_ {p q next other} (pair : image p q) (later : ∀ r, Mirrors image (next r) (other r)) :
      Mirrors image (.call (.here (.fs (.exists_ p))) next) (.call (.here (.fs (.exists_ q))) other)
  | read {p q next other} (pair : image p q) (later : ∀ r, Mirrors image (next r) (other r)) :
      Mirrors image (.call (.here (.fs (.read p))) next) (.call (.here (.fs (.read q))) other)
  | reads {p q n next other} (pair : image p q) (later : ∀ r, Mirrors image (next r) (other r)) :
      Mirrors image (.call (.here (.reads p n)) next) (.call (.here (.reads q n)) other)

section
variable {image : Path → Path → Prop} {α β : Type}

theorem mirrorsSame {p : Party α} (blind : Confined Blind p) : Mirrors image p p := by
  induction p with
  | done result => exact .ended result
  | call c next ih => exact .blind blind.1 fun r => ih r (blind.2 r)

theorem mirrorsBind {p q : Party α} {f g : α → Party β} (first : Mirrors image p q)
    (later : ∀ a, Mirrors image (f a) (g a)) : Mirrors image (p >>= f) (q >>= g) := by
  induction first with
  | ended result =>
    cases result with
    | ok a => exact later a
    | err message => exact .ended (.err message)
    | panic => exact .ended .panic
  | blind blind _ ih => exact .blind blind ih
  | exists_ pair _ ih => exact .exists_ pair ih
  | read pair _ ih => exact .read pair ih
  | reads pair _ ih => exact .reads pair ih

theorem mirrorsBack {p q : Party α} (mirrors : Mirrors image p q) :
    Mirrors (fun a b => image b a) q p := by
  induction mirrors with
  | ended result => exact .ended result
  | blind blind _ ih => exact .blind blind ih
  | exists_ pair _ ih => exact .exists_ pair ih
  | read pair _ ih => exact .read pair ih
  | reads pair _ ih => exact .reads pair ih

theorem blindVisits {disk other : Fs} {c : (Port HostSig).Call} {r : (Port HostSig).Ret c}
    {sent after : Bytes} (blind : Blind c) (answered : visiting disk sent c r after) :
    visiting other sent c r after := by
  cases c with
  | here c => cases c <;> first | exact blind.elim | exact answered
  | recv n => exact answered
  | send b => cases r <;> exact answered

theorem mirrorsRun {disk other : Fs} {p q : Party α} {result : Outcome α} {sent last : Bytes}
    (shows : ∀ a b, image a b → other.get b = disk.get a) (mirrors : Mirrors image p q)
    (ran : Reaches (visiting disk) p sent (.done result) last) :
    Reaches (visiting other) q sent (.done result) last := by
  induction mirrors generalizing sent with
  | ended found =>
    cases ran
    exact .here _ _
  | blind blind _ ih =>
    cases ran with
    | answer answered later => exact .answer (blindVisits blind answered) (ih _ later)
  | @exists_ a b next mirrored pair _ ih =>
    cases ran with
    | answer answered later =>
      obtain ⟨found,rfl⟩ := answered
      refine .answer ⟨?_,rfl⟩ (ih _ later)
      rw [found]
      simp only [Fs.exec,shows a b pair]
  | @read a b next mirrored pair _ ih =>
    cases ran with
    | answer answered later =>
      obtain ⟨found,rfl⟩ := answered
      refine .answer ⟨?_,rfl⟩ (ih _ later)
      rw [found]
      simp only [Fs.exec,Fs.content,shows a b pair]
  | @reads a b n next mirrored pair _ ih =>
    cases ran with
    | answer answered later =>
      obtain ⟨found,rfl⟩ := answered
      refine .answer ⟨?_,rfl⟩ (ih _ later)
      rw [found]
      simp only [Fs.content,shows a b pair]

end

namespace Session
variable {S : Session} {headers : DownloadHeader} {old new sessionKey : Bytes}

section
/- The calls a download makes, for anything that allows them. -/
variable {allowed : (Port HostSig).Call → Prop} (blind : ∀ c, Blind c → allowed c)
include blind

theorem answerConfined (data : Bytes) : Confined allowed (S.writeEncryptFrameInto data) :=
  confinedFrame (blind _ trivial) fun _ => blind _ trivial

theorem refusalConfined (data : Bytes) : Confined allowed (S.sendClosing data) :=
  confinedBind (answerConfined blind data) fun _ => shutdownConfined (blind _ trivial)

theorem serveConfined (arc : FileLock.Arc) (metadata : MetadataFile)
    (file : ∀ n, allowed (.here (.reads (S.filePath ⟨S.clientKey,headers.fileKey,headers.fileId⟩) n))) :
    Confined allowed (S.serveFile headers arc metadata) := by
  unfold serveFile
  refine confinedBind (confinedLift _) fun _ => ?_
  refine confinedBind (confinedHere _ (blind _ trivial)) fun networkElapsed => ?_
  refine confinedBind (answerConfined blind _) fun _ => ?_
  refine confinedBind (confinedHere _ (file _)) fun chunks => ?_
  cases chunks with
  | none => trivial
  | some chunks =>
    refine confinedBind (sendLoopConfined (blind _ trivial) (fun _ _ => blind _ trivial) _ _) fun _ => ?_
    exact closeConfined (blind _ trivial) (blind _ trivial) (blind _ trivial) (blind _ trivial)
      (blind _ trivial)

theorem downloadConfined (headers : DownloadHeader)
    (own : ∀ p, p = S.userDirPath ⟨S.clientKey,headers.fileKey,headers.fileId⟩ ∨
      p = S.metaPath ⟨S.clientKey,headers.fileKey,headers.fileId⟩ → allowed (.here (.fs (.exists_ p))))
    (described : allowed (.here (.fs (.read (S.metaPath ⟨S.clientKey,headers.fileKey,headers.fileId⟩)))))
    (file : ∀ n, allowed (.here (.reads (S.filePath ⟨S.clientKey,headers.fileKey,headers.fileId⟩) n))) :
    Confined allowed (S.handleDownload headers) := by
  unfold handleDownload
  refine confinedBind (confinedHere _ (blind _ trivial)) fun arc => ?_
  refine confinedBind (confinedHere _ (blind _ trivial)) fun locked => ?_
  cases locked with
  | false => exact refusalConfined blind _
  | true =>
    refine confinedBind (confinedHere _ (own _ (.inl rfl))) fun made => ?_
    cases made with
    | false => exact refusalConfined blind _
    | true =>
      refine confinedBind (confinedHere _ (own _ (.inr rfl))) fun saved => ?_
      cases saved with
      | false => exact refusalConfined blind _
      | true =>
        refine confinedBind (confinedHere _ described) fun found => ?_
        split
        · exact refusalConfined blind _
        · exact serveConfined blind arc _ file

end

inductive Beside (S : Session) (a b : Slot) : Path → Path → Prop where
  | dir : Beside S a b (S.userDirPath a) (S.userDirPath b)
  | meta_ : Beside S a b (S.metaPath a) (S.metaPath b)
  | file : Beside S a b (S.filePath a) (S.filePath b)

theorem frameMirrors (sessionKey old new : Bytes) (image : Path → Path → Prop) (data : Bytes) :
    Mirrors image ((S.connected sessionKey old).writeEncryptFrameInto data)
      ((S.connected sessionKey new).writeEncryptFrameInto data) :=
  mirrorsSame (answerConfined (fun _ blind => blind) data)

theorem closingMirrors (sessionKey old new : Bytes) (image : Path → Path → Prop) (data : Bytes) :
    Mirrors image ((S.connected sessionKey old).sendClosing data)
      ((S.connected sessionKey new).sendClosing data) :=
  mirrorsBind (frameMirrors sessionKey old new image data) fun _ =>
    mirrorsSame (shutdownConfined trivial)

theorem sendMirrors (sessionKey old new : Bytes) (image : Path → Path → Prop) (encBuf : Bytes)
    (chunks : List Bytes) : Mirrors image ((S.connected sessionKey old).sendLoop encBuf chunks)
      ((S.connected sessionKey new).sendLoop encBuf chunks) := by
  induction chunks generalizing encBuf with
  | nil => exact .ended _
  | cons plain rest ih =>
    unfold sendLoop
    refine mirrorsBind (.blind trivial fun r => .ended _) fun nonce => ?_
    refine mirrorsBind (.ended _) fun box => mirrorsBind (.ended _) fun chunk => ?_
    exact mirrorsBind (mirrorsSame (sendConfined trivial)) fun _ => ih box.1

theorem serveMirrors (arc : FileLock.Arc) (metadata : MetadataFile) :
    Mirrors (Beside S ⟨old,headers.fileKey,headers.fileId⟩ ⟨new,headers.fileKey,headers.fileId⟩)
      ((S.connected sessionKey old).serveFile headers arc metadata)
      ((S.connected sessionKey new).serveFile headers arc metadata) := by
  unfold serveFile
  refine mirrorsBind (.ended _) fun _ => ?_
  refine mirrorsBind (mirrorsSame (confinedHere _ trivial)) fun networkElapsed => ?_
  refine mirrorsBind (frameMirrors _ _ _ _ _) fun _ => ?_
  refine mirrorsBind (.reads .file fun r => .ended _) fun found => ?_
  split
  · exact .ended _
  · refine mirrorsBind (sendMirrors _ _ _ _ _ _) fun _ => mirrorsSame ?_
    exact closeConfined trivial trivial trivial trivial trivial

theorem downloadMirrors (headers : DownloadHeader) (old new sessionKey : Bytes) :
    Mirrors (Beside S ⟨old,headers.fileKey,headers.fileId⟩ ⟨new,headers.fileKey,headers.fileId⟩)
      ((S.connected sessionKey old).handleDownload headers)
      ((S.connected sessionKey new).handleDownload headers) := by
  unfold handleDownload
  refine mirrorsBind (mirrorsSame (confinedHere _ trivial)) fun arc => ?_
  refine mirrorsBind (mirrorsSame (confinedHere _ trivial)) fun locked => ?_
  cases locked with
  | false => exact closingMirrors _ _ _ _ _
  | true =>
    refine mirrorsBind (.exists_ .dir fun r => .ended _) fun made => ?_
    cases made with
    | false => exact closingMirrors _ _ _ _ _
    | true =>
      refine mirrorsBind (.exists_ .meta_ fun r => .ended _) fun saved => ?_
      cases saved with
      | false => exact closingMirrors _ _ _ _ _
      | true =>
        refine mirrorsBind (.read .meta_ fun r => .ended _) fun described => ?_
        split
        · exact closingMirrors _ _ _ _ _
        · exact serveMirrors arc _

structure SameSlot (S : Session) (before : Fs) (a : Slot) (after : Fs) (b : Slot) : Prop where
  dir : after.get (S.userDirPath b) = before.get (S.userDirPath a)
  meta_ : after.get (S.metaPath b) = before.get (S.metaPath a)
  file : after.get (S.filePath b) = before.get (S.filePath a)

def SameDownload (S : Session) (headers : DownloadHeader) (before : Fs) (old : Bytes) (after : Fs)
    (new : Bytes) : Prop :=
  ∀ sessionKey result sent,
    Reaches (visiting before) ((S.connected sessionKey old).handleDownload headers) [] (.done result) sent ↔
    Reaches (visiting after) ((S.connected sessionKey new).handleDownload headers) [] (.done result) sent

theorem sameDownload {before after : Fs} (same : SameSlot S before
      ⟨old,headers.fileKey,headers.fileId⟩ after ⟨new,headers.fileKey,headers.fileId⟩) :
    SameDownload S headers before old after new := by
  intro sessionKey result sent
  have mirrors := downloadMirrors (S := S) headers old new sessionKey
  constructor
  · refine mirrorsRun ?_ mirrors
    rintro p q (_ | _ | _)
    · exact same.dir
    · exact same.meta_
    · exact same.file
  · refine mirrorsRun ?_ (mirrorsBack mirrors)
    rintro p q (_ | _ | _)
    · exact same.dir.symm
    · exact same.meta_.symm
    · exact same.file.symm

def FindsNothing (S : Session) (headers : DownloadHeader) (key : Bytes) (disk : Fs) : Prop :=
  ∀ sessionKey (h : Host), h.disk = disk → FileLock.Unlocked h.locks headers.fileId →
    Serves (S.connected sessionKey key) h headers .notFound

theorem nothingFound {key : Bytes} {disk : Fs}
    (missing : retrieve S disk ⟨key,headers.fileKey,headers.fileId⟩ = .notFound) :
    FindsNothing S headers key disk := by
  rintro sessionKey h rfl unlocked
  rw [← missing]
  exact downloadServes (S := S.connected sessionKey key) headers unlocked

theorem sameRetrieve {before after : Fs} {a b : Slot} (same : SameSlot S before a after b) :
    retrieve S after b = retrieve S before a := by
  simp only [retrieve,Fs.content,same.dir,same.meta_,same.file]

end Session
end RDrive
