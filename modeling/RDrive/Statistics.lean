import Mathlib.Algebra.Order.BigOperators.Group.List
import Mathlib.Algebra.Order.Group.Nat
import RDrive.Lib.Crew
import RDrive.Overwrite
import RDrive.Replay

/-! SERVER_TRACKER against the transfers it counts: any number of upload and download
handlers, one call of one of them at a time, each answered in any way and each cancelled
at any call. A handler counts its transfer in a step of its own. -/
namespace RDrive
open Crypto Header Party Bytes Program
open FileLock (Kind)

/- total_bandwidth_gb is kept as the bytes themselves, since the sum is to be exact. -/
structure Tracker where
  totalDownload : Nat := 0
  totalUploaded : Nat := 0
  totalBandwidth : Nat := 0
  deriving DecidableEq, Repr

namespace Tracker

def logUpload (t : Tracker) (bytes : Nat) : Tracker :=
  {t with totalBandwidth := t.totalBandwidth + bytes,totalUploaded := t.totalUploaded + 1}

def logDownload (t : Tracker) (bytes : Nat) : Tracker :=
  {t with totalBandwidth := t.totalBandwidth + bytes,totalDownload := t.totalDownload + 1}

end Tracker

namespace Statistics
open Session

/- What one handler did: the size of its file, whether its answer is completely written,
whether it ended between that and its log, and what it logged. -/
structure Account where
  kind : Kind
  sessionKey : Bytes
  size : Nat
  wrote : Bool := false
  failed : Bool := false
  logs : List (Kind × Nat) := []

/- The write that completes a transfer: the success response of an upload, the flush
after the chunks of a download. -/
def completes (A : Cipher) (g : Account) (b : Bytes) : Bool :=
  match g.kind with
  | .upload => match A.opened g.sessionKey (b.drop 4) with
    | some (1 :: _ :: _) => true
    | _ => false
  | .download => b.isEmpty

/- A handler that ends here has written its answer and not counted it. -/
def Account.stop (g : Account) : Account := {g with failed := g.failed || g.wrote && g.logs.isEmpty}

def note (A : Cipher) (g : Account) : (c : (Port HostSig).Call) → (Port HostSig).Ret c → Account
  | .here (.logUpload bytes), _ => {g with logs := (.upload,bytes) :: g.logs}
  | .here (.logDownload bytes), _ => {g with logs := (.download,bytes) :: g.logs}
  | .here (.fs (.read _)), content => match g.kind, content.bind MetadataFile.deserialize with
    | .download, some metadata => {g with size := metadata.fileSize.toNat}
    | _, _ => g
  | .send b, .ok _ => {g with wrote := g.wrote || completes A g b}
  | .send _, .error _ => g.stop
  | .here .shutdown, .error _ => g.stop
  | _, _ => g

/- SERVER_TRACKER.write() lets one log in at a time. -/
def tracked (t : Tracker) : (Port HostSig).Call → Tracker
  | .here (.logUpload bytes) => t.logUpload bytes
  | .here (.logDownload bytes) => t.logDownload bytes
  | _ => t

structure Proper (g : Account) : Prop where
  logs : g.logs = [] ∨ g.logs = [(g.kind,g.size)] ∧ g.wrote = true
  failed : g.failed = true → g.wrote = true ∧ g.logs = []

def Ending (g : Account) : Prop := g.wrote = true → g.logs ≠ [] ∨ g.failed = true

section
variable {A : Cipher} {g : Account} {α : Type}

abbrev Accounts (A : Cipher) (p : Party α) (g : Account) : Prop :=
  Safe (noting (note A)) Proper (fun _ => Ending) p g

structure Fresh (g : Account) : Prop where
  wrote : g.wrote = false
  failed : g.failed = false
  logs : g.logs = []

theorem freshProper (fresh : Fresh g) : Proper g :=
  ⟨.inl fresh.logs,fun failed => absurd (fresh.failed.symm.trans failed) (by decide)⟩

theorem freshEnding (fresh : Fresh g) : Ending g :=
  fun wrote => absurd (fresh.wrote.symm.trans wrote) (by decide)

def Idle (A : Cipher) (g : Account) (c : (Port HostSig).Call) : Prop := ∀ r, note A g c r = g

theorem idleThen {p : Party α} {f : α → Party Unit} (fresh : Fresh g) (idle : Confined (Idle A g) p)
    (after : ∀ a, Accounts A (f a) g) : Accounts A (p >>= f) g := by
  have still : Confined (fun c => ∀ r h, noting (note A) g c r h → h = g) p :=
    confinedWiden idle fun c unnoted r h noted => noted.trans (unnoted r)
  refine safeBind (safeWeaken (idleSafe (freshProper fresh) still) ?_)
  rintro result h - rfl
  cases result with
  | ok a => exact after a
  | err message => exact freshEnding fresh
  | panic => exact freshEnding fresh

theorem idleLast {p : Party Unit} (fresh : Fresh g) (idle : Confined (Idle A g) p) :
    Accounts A p g := by
  have after : Accounts A (p >>= fun a => pure a) g :=
    idleThen fresh idle fun _ => ⟨freshProper fresh,freshEnding fresh⟩
  rwa [bindPure] at after

theorem stopFresh (fresh : Fresh g) : g.stop = g := by
  obtain ⟨kind,sessionKey,size,wrote,failed,logs⟩ := g
  obtain ⟨rfl,rfl,rfl⟩ := fresh
  rfl

theorem sendIdle {b : Bytes} (fresh : Fresh g) (other : completes A g b = false) :
    Idle A g (.send b) := by
  intro r
  cases r with
  | error fault => exact stopFresh fresh
  | ok sent =>
    simp only [note,other,Bool.or_false]

theorem frameIdle {S : Session} {data : Bytes} (fresh : Fresh g)
    (other : ∀ nonce, completes S.cipher g (Frame.frame S.cipher S.sessionKey nonce data) = false) :
    Confined (Idle S.cipher g) (S.writeEncryptFrameInto data) :=
  confinedFrame (fun _ => rfl) fun nonce => sendIdle fresh (other nonce)

theorem shutdownIdle (fresh : Fresh g) : Idle A g (.here .shutdown) := by
  intro r
  cases r with
  | error fault => exact stopFresh fresh
  | ok closed => rfl

theorem closingIdle {S : Session} {data : Bytes} (fresh : Fresh g)
    (other : ∀ nonce, completes S.cipher g (Frame.frame S.cipher S.sessionKey nonce data) = false) :
    Confined (Idle S.cipher g) (S.sendClosing data) :=
  confinedBind (frameIdle fresh other) fun _ => shutdownConfined (shutdownIdle fresh)

theorem frameDropped (A : Cipher) (key : Bytes) (nonce : Nonce) (data : Bytes) :
    (Frame.frame A key nonce data).drop 4 = A.sealed key nonce data := by
  unfold Frame.frame
  exact List.drop_left' (Frame.be32Length _)

def Account.answered (g : Account) : Account := {g with wrote := true}
def Account.counted (g : Account) : Account := {g.answered with logs := [(g.kind,g.size)]}

theorem answeredProper (fresh : Fresh g) : Proper g.answered :=
  ⟨.inl fresh.logs,fun failed => absurd (fresh.failed.symm.trans failed) (by decide)⟩

theorem countedProper (fresh : Fresh g) : Proper g.counted :=
  ⟨.inr ⟨rfl,rfl⟩,fun failed => absurd (fresh.failed.symm.trans failed) (by decide)⟩

theorem countedEnding (g : Account) : Ending g.counted := fun _ => .inl nofun

theorem stoppedProper (fresh : Fresh g) : Proper g.answered.stop :=
  ⟨.inl fresh.logs,fun _ => ⟨rfl,fresh.logs⟩⟩

theorem stoppedEnding (fresh : Fresh g) : Ending g.answered.stop := by
  intro _
  right
  simp only [Account.stop,Account.answered,fresh.logs,List.isEmpty_nil,Bool.and_true,Bool.or_true]

theorem answerThen {b : Bytes} {f : Unit → Party Unit} (fresh : Fresh g)
    (whole : completes A g b = true) (after : Accounts A (f ()) g.answered) :
    Accounts A (send b >>= f) g := by
  refine ⟨freshProper fresh,?_⟩
  rintro answer h rfl
  cases answer with
  | error fault =>
    have same : note A g (.send b) (.error fault) = g := stopFresh fresh
    rw [same]
    exact ⟨freshProper fresh,freshEnding fresh⟩
  | ok sent =>
    have same : note A g (.send b) (.ok sent) = g.answered := by
      simp only [note,whole,Bool.or_true,Account.answered]
    rw [same]
    exact after

theorem uploadLogged (fresh : Fresh g) (kind : g.kind = .upload) :
    Accounts A (logUpload g.size) g.answered := by
  refine ⟨answeredProper fresh,?_⟩
  rintro r _ rfl
  have same : note A g.answered (.here (.logUpload g.size)) r = g.counted := by
    simp only [note,Account.counted,Account.answered,fresh.logs,kind]
  rw [same]
  exact ⟨countedProper fresh,countedEnding g⟩

theorem downloadLogged (fresh : Fresh g) (kind : g.kind = .download) :
    Accounts A (logDownload g.size) g.answered := by
  refine ⟨answeredProper fresh,?_⟩
  rintro r _ rfl
  have same : note A g.answered (.here (.logDownload g.size)) r = g.counted := by
    simp only [note,Account.counted,Account.answered,fresh.logs,kind]
  rw [same]
  exact ⟨countedProper fresh,countedEnding g⟩

theorem closeThen {kind : Kind} {arc : FileLock.Arc} {fileId : String} {log : Party Unit}
    (fresh : Fresh g) (logs : Accounts A log g.answered) :
    Accounts A (do
      dropGuard kind arc
      releaseFileLock fileId
      log) g.answered := by
  refine ⟨answeredProper fresh,?_⟩
  rintro _ _ rfl
  refine ⟨answeredProper fresh,?_⟩
  rintro _ _ rfl
  exact logs

theorem shutdownThen {f : Unit → Party Unit} (fresh : Fresh g)
    (after : Accounts A (f ()) g.answered) : Accounts A (shutdown >>= f) g.answered := by
  refine ⟨answeredProper fresh,?_⟩
  rintro answer _ rfl
  cases answer with
  | error fault => exact ⟨stoppedProper fresh,stoppedEnding fresh⟩
  | ok closed => exact after

end

section
variable {S : Session} {g : Account}

theorem createIdle (path : Path) : Confined (Idle S.cipher g) (createDirAll path) ∧
    Confined (Idle S.cipher g) (create path) := by
  constructor <;> exact confinedBind (confinedHere _ fun _ => rfl) fun made => by cases made <;> trivial

theorem writeIdle (path : Path) (b : Bytes) : Confined (Idle S.cipher g) (write path b) :=
  confinedBind (confinedHere _ fun _ => rfl) fun made => by cases made <;> trivial

theorem hereIdle {c : HostCall} (idle : Idle S.cipher g (.here c)) :
    Confined (Idle S.cipher g) (here c) := confinedHere c idle

theorem responseOther {flag : UInt8} {rest : Bytes} (key : g.sessionKey = S.sessionKey)
    (other : flag ≠ 1 ∨ rest = []) (nonce : Nonce) : completes S.cipher g
      (Frame.frame S.cipher S.sessionKey nonce (flag :: rest)) = false := by
  unfold completes
  rw [frameDropped,key,S.cipher.openedSealed]
  split
  · split
    · rename_i same
      obtain ⟨rfl,rfl⟩ := List.cons.inj (Option.some.inj same)
      simp at other
    · rfl
  · simp [Frame.frame,Frame.be32]

theorem refusalIdle {flag : UInt8} {rest : Bytes} (fresh : Fresh g)
    (key : g.sessionKey = S.sessionKey) (other : flag ≠ 1) :
    Confined (Idle S.cipher g) (S.sendClosing (flag :: rest)) :=
  closingIdle fresh (responseOther key (.inl other))

theorem responseIdle {flag : UInt8} {rest : Bytes} (fresh : Fresh g)
    (key : g.sessionKey = S.sessionKey) (other : flag ≠ 1 ∨ rest = []) :
    Confined (Idle S.cipher g) (S.writeEncryptFrameInto (flag :: rest)) :=
  frameIdle fresh (responseOther key other)

theorem successWhole (nonce : Nonce) (response : UploadResponse) (kind : g.kind = .upload)
    (key : g.sessionKey = S.sessionKey) : completes S.cipher g
      (Frame.frame S.cipher S.sessionKey nonce (1 :: response.serialize)) = true := by
  have some_ : response.serialize ≠ [] := by
    have first := Postcard.varintNonempty (Postcard.utf8 response.fileId).length
    intro none_
    have length := congrArg List.length none_
    simp only [UploadResponse.serialize,Postcard.string,List.length_append,List.length_nil] at length
    omega
  obtain ⟨byte,rest,same⟩ := List.exists_cons_of_ne_nil some_
  unfold completes
  rw [frameDropped,key,S.cipher.openedSealed,kind,same]
  rfl

theorem finishAccounts {headers : UploadHeader} {arc : FileLock.Arc} {networkElapsed : F32}
    {found : Received} (fresh : Fresh g) (kind : g.kind = .upload)
    (key : g.sessionKey = S.sessionKey) (size : g.size = headers.fileSize.toNat) :
    Accounts S.cipher (S.finishUpload headers arc networkElapsed found) g := by
  unfold Session.finishUpload
  refine idleThen fresh (bufFlushConfined (fun _ _ => rfl) _) fun _ => ?_
  dsimp only
  split
  · refine idleThen fresh (hereIdle fun _ => rfl) fun _ => ?_
    exact idleLast fresh (refusalIdle fresh key (by decide))
  · refine idleThen fresh (writeIdle _ _) fun _ => ?_
    unfold Session.sendSuccess Session.sendClosing Session.writeEncryptFrameInto
    rw [bindAssoc]
    split
    · exact ⟨freshProper fresh,freshEnding fresh⟩
    · rw [bindAssoc]
      refine idleThen fresh (hereIdle fun _ => rfl) fun nonce => ?_
      refine answerThen fresh (successWhole nonce _ kind key) ?_
      refine shutdownThen fresh ?_
      rw [← size]
      exact closeThen fresh (uploadLogged fresh kind)

theorem uploadAccounts {headers : UploadHeader} (fresh : Fresh g) (kind : g.kind = .upload)
    (key : g.sessionKey = S.sessionKey) (size : g.size = headers.fileSize.toNat) :
    Accounts S.cipher (S.handleUpload headers) g := by
  unfold Session.handleUpload
  refine idleThen fresh (hereIdle fun _ => rfl) fun arc => ?_
  refine idleThen fresh (hereIdle fun _ => rfl) fun locked => ?_
  split
  · refine idleThen fresh (createIdle _).1 fun _ => ?_
    refine idleThen fresh (confinedLift _) fun _ => ?_
    refine idleThen fresh (responseIdle fresh key (.inr rfl)) fun _ => ?_
    refine idleThen fresh (hereIdle fun _ => rfl) fun networkElapsed => ?_
    refine idleThen fresh (createIdle _).2 fun _ => ?_
    refine idleThen fresh (receiveConfined (fun _ _ => rfl) (fun _ _ => rfl) _) fun found => ?_
    exact finishAccounts fresh kind key size
  · exact idleLast fresh (refusalIdle fresh key (by decide))

theorem closeAccounts {headers : DownloadHeader} {arc : FileLock.Arc} {metadata : MetadataFile}
    (fresh : Fresh g) (kind : g.kind = .download) (size : g.size = metadata.fileSize.toNat) :
    Accounts S.cipher (closeDownload headers arc metadata) g := by
  have whole : completes S.cipher g [] = true := by
    unfold completes
    rw [kind]
    rfl
  unfold closeDownload
  refine answerThen fresh whole ?_
  refine shutdownThen fresh ?_
  rw [← size]
  exact closeThen fresh (downloadLogged fresh kind)

theorem chunkIdle {b : Bytes} (fresh : Fresh g) (kind : g.kind = .download) (some_ : b ≠ []) :
    Idle S.cipher g (.send b) := by
  refine sendIdle fresh ?_
  unfold completes
  rw [kind]
  exact List.isEmpty_eq_false_iff.mpr some_

theorem serveAccounts {headers : DownloadHeader} {arc : FileLock.Arc} {metadata : MetadataFile}
    (fresh : Fresh g) (kind : g.kind = .download) (size : g.size = metadata.fileSize.toNat) :
    Accounts S.cipher (S.serveFile headers arc metadata) g := by
  have framed : ∀ data, Confined (Idle S.cipher g) (S.writeEncryptFrameInto data) := fun data =>
    confinedFrame (fun _ => rfl) fun nonce => chunkIdle fresh kind (by simp [Frame.frame,Frame.be32])
  unfold Session.serveFile
  refine idleThen fresh (confinedLift _) fun _ => ?_
  refine idleThen fresh (hereIdle fun _ => rfl) fun networkElapsed => ?_
  refine idleThen fresh (framed _) fun _ => ?_
  refine idleThen fresh (hereIdle fun _ => rfl) fun found => ?_
  cases found with
  | none => exact ⟨freshProper fresh,freshEnding fresh⟩
  | some chunks =>
    refine idleThen fresh (sendLoopConfined (fun _ => rfl) (fun b => chunkIdle fresh kind) _ _) fun _ => ?_
    exact closeAccounts fresh kind size

theorem downloadAccounts {headers : DownloadHeader} (fresh : Fresh g) (kind : g.kind = .download) :
    Accounts S.cipher (S.handleDownload headers) g := by
  have refused : ∀ {h : Account} (e : ErrorHeader), Fresh h → h.kind = .download →
      Accounts S.cipher (S.sendFailed e) h := by
    intro h e fresh kind
    have chunk : ∀ nonce, completes S.cipher h (Frame.frame S.cipher S.sessionKey nonce
        (3 :: e.serialize)) = false := by
      intro nonce
      unfold completes
      rw [kind]
      exact List.isEmpty_eq_false_iff.mpr (by simp [Frame.frame,Frame.be32])
    exact idleLast fresh (closingIdle fresh chunk)
  unfold Session.handleDownload
  refine idleThen fresh (hereIdle fun _ => rfl) fun arc => ?_
  refine idleThen fresh (hereIdle fun _ => rfl) fun locked => ?_
  split
  · refine idleThen fresh (hereIdle fun _ => rfl) fun dir => ?_
    split
    · refine idleThen fresh (hereIdle fun _ => rfl) fun described => ?_
      split
      · refine hereSafe (freshProper fresh) ?_
        rintro content h rfl
        cases found : (show Option Bytes from content).bind MetadataFile.deserialize with
        | none =>
          have same : note S.cipher g (.here (.fs (.read (S.metaPath
              ⟨S.clientKey,headers.fileKey,headers.fileId⟩)))) content = g := by
            simp only [note,kind,found]
          rw [same]
          exact refused _ fresh kind
        | some metadata =>
          have same : note S.cipher g (.here (.fs (.read (S.metaPath
              ⟨S.clientKey,headers.fileKey,headers.fileId⟩)))) content =
                {g with size := metadata.fileSize.toNat} := by
            simp only [note,kind,found]
          rw [same]
          exact serveAccounts ⟨fresh.wrote,fresh.failed,fresh.logs⟩ kind rfl
      · exact refused _ fresh kind
    · exact refused _ fresh kind
  · exact refused _ fresh kind

end
abbrev Handler := Member (Port HostSig) Unit Account
abbrev Handlers := Crew (Port HostSig) Unit Tracker Account

inductive Joins (S : Session) : Handler → Prop where
  | upload (sessionKey clientKey : Bytes) (headers : UploadHeader) :
      Joins S ⟨(S.connected sessionKey clientKey).handleUpload headers,
        {kind := .upload,sessionKey := sessionKey,size := headers.fileSize.toNat}⟩
  | download (sessionKey clientKey : Bytes) (headers : DownloadHeader) :
      Joins S ⟨(S.connected sessionKey clientKey).handleDownload headers,
        {kind := .download,sessionKey := sessionKey,size := 0}⟩

/- A handler moves or is cut with the account it has before that. -/
inductive Event where
  | joined
  | moved (g : Account) (c : (Port HostSig).Call) (r : (Port HostSig).Ret c)
  | cut (g : Account)

/- Nothing goes wrong between the answer of a handler and its log. -/
def Event.Careful : Event → Prop
  | .moved g (.send _) (.error _) => g.wrote = true → g.logs ≠ []
  | .moved g (.here .shutdown) (.error _) => g.wrote = true → g.logs ≠ []
  | .cut g => g.wrote = true → g.logs ≠ []
  | _ => True

/- The connection lifetime may end a handler at any call, its await points among them. -/
inductive Happens (S : Session) : Event → Handlers → Handlers → Prop where
  | join {t members m} (joins : Joins S m) : Happens S .joined ⟨t,members⟩ ⟨t,m :: members⟩
  | move {t c next g} (before after : List Handler) (r : (Port HostSig).Ret c) :
      Happens S (.moved g c r)
      ⟨t,before ++ ⟨.call c next,g⟩ :: after⟩
      ⟨tracked t c,before ++ ⟨next r,note S.cipher g c r⟩ :: after⟩
  | cut {t c next g} (before after : List Handler) :
      Happens S (.cut g) ⟨t,before ++ ⟨.call c next,g⟩ :: after⟩
      ⟨t,before ++ ⟨.done (.err "deadline has elapsed"),g.stop⟩ :: after⟩

inductive Ran (S : Session) : List Event → Handlers → Prop where
  | start : Ran S [] ⟨{},[]⟩
  | more {events e crew after} (ran : Ran S events crew) (happens : Happens S e crew after) :
      Ran S (e :: events) after

def Ended (crew : Handlers) : Prop := ∀ m ∈ crew.members, ∃ result, m.program = .done result

/- The tracker counts the completely written answers and the bytes of their files. -/
structure Exact (crew : Handlers) : Prop where
  uploads : crew.shared.totalUploaded =
    crew.members.countP fun m => m.notes.wrote && m.notes.kind == .upload
  downloads : crew.shared.totalDownload =
    crew.members.countP fun m => m.notes.wrote && m.notes.kind == .download
  bandwidth : crew.shared.totalBandwidth =
    ((crew.members.filter fun m => m.notes.wrote).map fun m => m.notes.size).sum

def total (f : Account → Nat) (members : List Handler) : Nat := (members.map fun m => f m.notes).sum

def logged (kind : Kind) (g : Account) : Nat := g.logs.countP fun log => log.1 == kind
def loggedBytes (g : Account) : Nat := (g.logs.map Prod.snd).sum
def succeeded (kind : Kind) (g : Account) : Nat := if g.wrote && g.kind == kind then 1 else 0
def succeededBytes (g : Account) : Nat := if g.wrote then g.size else 0

theorem totalCount (p : Account → Bool) (members : List Handler) :
    members.countP (fun m => p m.notes) = total (fun g => if p g then 1 else 0) members := by
  induction members with
  | nil => rfl
  | cons m members ih =>
    have sum : total (fun g => if p g then 1 else 0) (m :: members) =
        (if p m.notes then 1 else 0) + total (fun g => if p g then 1 else 0) members := rfl
    rw [List.countP_cons,ih,sum,Nat.add_comm]

theorem totalBytes (members : List Handler) :
    ((members.filter fun m => m.notes.wrote).map fun m => m.notes.size).sum =
      total succeededBytes members := by
  induction members with
  | nil => rfl
  | cons m members ih =>
    have sum : total succeededBytes (m :: members) =
        succeededBytes m.notes + total succeededBytes members := rfl
    rw [sum,← ih]
    unfold succeededBytes
    cases wrote : m.notes.wrote <;> simp [wrote]

theorem totalMoved {f : Account → Nat} {before after : List Handler} {m n : Handler} {k : Nat}
    (more : f n.notes = f m.notes + k) :
    total f (before ++ n :: after) = total f (before ++ m :: after) + k := by
  unfold total
  simp only [List.map_append,List.map_cons,List.sum_append,List.sum_cons,more]
  omega

structure Tallied (t : Tracker) (members : List Handler) : Prop where
  uploads : t.totalUploaded = total (logged .upload) members
  downloads : t.totalDownload = total (logged .download) members
  bandwidth : t.totalBandwidth = total loggedBytes members

theorem logStep (A : Cipher) (t : Tracker) (g : Account) (c : (Port HostSig).Call)
    (r : (Port HostSig).Ret c) :
    (note A g c r).logs = g.logs ∧ tracked t c = t ∨
    (∃ n, (note A g c r).logs = (.upload,n) :: g.logs ∧ tracked t c = t.logUpload n) ∨
    (∃ n, (note A g c r).logs = (.download,n) :: g.logs ∧ tracked t c = t.logDownload n) := by
  cases c with
  | recv n => exact .inl ⟨rfl,rfl⟩
  | send b => cases r <;> exact .inl ⟨rfl,rfl⟩
  | here c =>
    cases c with
    | logUpload n => exact .inr (.inl ⟨n,rfl,rfl⟩)
    | logDownload n => exact .inr (.inr ⟨n,rfl,rfl⟩)
    | fs op =>
      refine .inl ⟨?_,rfl⟩
      cases op with
      | read path =>
        simp only [note]
        split <;> rfl
      | _ => rfl
    | shutdown => cases r <;> exact .inl ⟨rfl,rfl⟩
    | _ => exact .inl ⟨rfl,rfl⟩

theorem sameTallied {t : Tracker} {before after : List Handler} {m n : Handler}
    (tallied : Tallied t (before ++ m :: after)) (same : n.notes.logs = m.notes.logs) :
    Tallied t (before ++ n :: after) := by
  obtain ⟨uploads,downloads,bandwidth⟩ := tallied
  have each : ∀ f : Account → Nat, f n.notes = f m.notes →
      total f (before ++ n :: after) = total f (before ++ m :: after) := fun f kept => totalMoved (k := 0) kept
  refine ⟨?_,?_,?_⟩
  · rw [each _ (by rw [logged,same,logged])]
    exact uploads
  · rw [each _ (by rw [logged,same,logged])]
    exact downloads
  · rw [each _ (by rw [loggedBytes,same,loggedBytes])]
    exact bandwidth

theorem movedTallied {A : Cipher} {t : Tracker} {before after : List Handler} {p q : Party Unit}
    {g : Account} {c : (Port HostSig).Call} {r : (Port HostSig).Ret c}
    (tallied : Tallied t (before ++ ⟨p,g⟩ :: after)) :
    Tallied (tracked t c) (before ++ ⟨q,note A g c r⟩ :: after) := by
  obtain ⟨uploads,downloads,bandwidth⟩ := id tallied
  have each : ∀ (f : Account → Nat) (k : Nat), f (note A g c r) = f g + k →
      total f (before ++ ⟨q,note A g c r⟩ :: after) = total f (before ++ ⟨p,g⟩ :: after) + k :=
    fun f k more => totalMoved more
  rcases logStep A t g c r with ⟨logs,same⟩ | ⟨n,logs,same⟩ | ⟨n,logs,same⟩
  · rw [same]
    exact sameTallied tallied logs
  · rw [same]
    refine ⟨?_,?_,?_⟩
    · rw [each _ 1 (by simp [logged,logs])]
      exact congrArg (· + 1) uploads
    · rw [each _ 0 (by simp [logged,logs])]
      exact downloads
    · rw [each _ n (by simp [loggedBytes,logs,Nat.add_comm])]
      exact congrArg (· + n) bandwidth
  · rw [same]
    refine ⟨?_,?_,?_⟩
    · rw [each _ 0 (by simp [logged,logs])]
      exact uploads
    · rw [each _ 1 (by simp [logged,logs])]
      exact congrArg (· + 1) downloads
    · rw [each _ n (by simp [loggedBytes,logs,Nat.add_comm])]
      exact congrArg (· + n) bandwidth

theorem stopFailed (g : Account) :
    g.stop.failed = true ↔ g.failed = true ∨ ¬ (g.wrote = true → g.logs ≠ []) := by
  simp only [Account.stop,Bool.or_eq_true,Bool.and_eq_true,List.isEmpty_iff,Classical.not_imp,
    Decidable.not_not]

theorem noteFailed (A : Cipher) (g : Account) (c : (Port HostSig).Call) (r : (Port HostSig).Ret c) :
    (note A g c r).failed = true ↔ g.failed = true ∨ ¬ (Event.moved g c r).Careful := by
  have same : ∀ h : Account, h.failed = g.failed →
      (h.failed = true ↔ g.failed = true ∨ ¬ True) := by
    intro h same
    rw [same,not_true,or_false]
  cases c with
  | recv n => exact same _ rfl
  | send b =>
    cases r with
    | ok sent => exact same _ rfl
    | error fault => exact stopFailed g
  | here c =>
    cases c with
    | fs op =>
      refine same _ ?_
      cases op with
      | read path =>
        simp only [note]
        split <;> rfl
      | _ => rfl
    | shutdown =>
      cases r with
      | ok closed => exact same _ rfl
      | error fault => exact stopFailed g
    | _ => exact same _ rfl

theorem replacedFailed {before after : List Handler} {m n : Handler} {careful : Prop}
    (failed : n.notes.failed = true ↔ m.notes.failed = true ∨ ¬ careful) :
    (∃ x ∈ before ++ n :: after, x.notes.failed = true) ↔
      (∃ x ∈ before ++ m :: after, x.notes.failed = true) ∨ ¬ careful := by
  simp only [List.mem_append,List.mem_cons,or_and_right,exists_or,exists_eq_left,failed]
  by_cases kept : careful <;> simp [kept]

theorem stopProper {g : Account} (proper : Proper g) : Proper g.stop := by
  refine ⟨proper.logs,fun failed => ?_⟩
  rcases (stopFailed g).mp failed with failed | careless
  · exact proper.failed failed
  · obtain ⟨wrote,none_⟩ := Classical.not_imp.mp careless
    exact ⟨wrote,Decidable.not_not.mp none_⟩

theorem stopEnding (g : Account) : Ending g.stop := by
  intro wrote
  by_cases none_ : g.logs = []
  · exact .inr ((stopFailed g).mpr (.inr fun careful => careful wrote none_))
  · exact .inl none_

structure Kept (S : Session) (events : List Event) (crew : Handlers) : Prop where
  tallied : Tallied crew.shared crew.members
  each : ∀ m ∈ crew.members, Accounts S.cipher m.program m.notes
  failures : (∃ m ∈ crew.members, m.notes.failed = true) ↔ ∃ e ∈ events, ¬ e.Careful

theorem joinsFresh {S : Session} {m : Handler} (joins : Joins S m) :
    Fresh m.notes ∧ Accounts S.cipher m.program m.notes := by
  cases joins with
  | upload sessionKey clientKey headers =>
    have fresh : Fresh {kind := .upload,sessionKey := sessionKey,size := headers.fileSize.toNat} :=
      ⟨rfl,rfl,rfl⟩
    exact ⟨fresh,@uploadAccounts (S.connected sessionKey clientKey) _ headers fresh rfl rfl rfl⟩
  | download sessionKey clientKey headers =>
    have fresh : Fresh {kind := .download,sessionKey := sessionKey,size := 0} := ⟨rfl,rfl,rfl⟩
    exact ⟨fresh,@downloadAccounts (S.connected sessionKey clientKey) _ headers fresh rfl⟩

theorem eachReplaced {A : Cipher} {before after : List Handler} {m n : Handler}
    (each : ∀ x ∈ before ++ m :: after, Accounts A x.program x.notes)
    (new : Accounts A n.program n.notes) :
    ∀ x ∈ before ++ n :: after, Accounts A x.program x.notes := by
  intro x member
  simp only [List.mem_append,List.mem_cons] at member each
  rcases member with old | rfl | old
  · exact each x (.inl old)
  · exact new
  · exact each x (.inr (.inr old))

theorem happensKeeps {S : Session} {events : List Event} {e : Event} {crew after : Handlers}
    (happens : Happens S e crew after) (kept : Kept S events crew) : Kept S (e :: events) after := by
  obtain ⟨tallied,each,failures⟩ := kept
  have joined : ∀ P : Prop, (P ↔ ∃ e ∈ events, ¬ e.Careful) →
      (P ∨ ¬ e.Careful ↔ ∃ x ∈ e :: events, ¬ x.Careful) := by
    intro P same
    rw [same]
    simp only [List.mem_cons,exists_eq_or_imp]
    exact or_comm
  cases happens with
  | join joins =>
    obtain ⟨fresh,accounts⟩ := joinsFresh joins
    refine ⟨?_,?_,?_⟩
    · obtain ⟨uploads,downloads,bandwidth⟩ := tallied
      constructor <;>
        simpa only [total,List.map_cons,List.sum_cons,logged,loggedBytes,fresh.logs,List.countP_nil,
          List.map_nil,List.sum_nil,Nat.zero_add]
    · intro x member
      rcases List.mem_cons.mp member with rfl | old
      · exact accounts
      · exact each x old
    · rw [← joined _ failures]
      simp [fresh.failed,Event.Careful]
  | move before after r =>
    have here := each _ (List.mem_append_right _ List.mem_cons_self)
    refine ⟨movedTallied tallied,eachReplaced each (here.2 r _ rfl),?_⟩
    rw [← joined _ failures]
    exact replacedFailed (noteFailed S.cipher _ _ r)
  | cut before after =>
    have here := each _ (List.mem_append_right _ List.mem_cons_self)
    refine ⟨sameTallied tallied rfl,eachReplaced each ⟨stopProper here.1,stopEnding _⟩,?_⟩
    rw [← joined _ failures]
    exact replacedFailed (stopFailed _)

theorem ranKept {S : Session} {events : List Event} {crew : Handlers} (ran : Ran S events crew) :
    Kept S events crew := by
  induction ran with
  | start => exact ⟨⟨rfl,rfl,rfl⟩,nofun,by simp⟩
  | more ran happens ih => exact happensKeeps happens ih

theorem endedLogs {g : Account} (proper : Proper g) (ending : Ending g) (kind : Kind) :
    logged kind g ≤ succeeded kind g ∧
    (g.failed = false → logged kind g = succeeded kind g ∧ loggedBytes g = succeededBytes g) ∧
    (g.failed = true → logged g.kind g < succeeded g.kind g) := by
  rcases proper.logs with none_ | ⟨one,wrote⟩
  · have nothing : logged kind g = 0 := by rw [logged,none_]; rfl
    refine ⟨by rw [nothing]; exact Nat.zero_le _,fun well => ?_,fun failed => ?_⟩
    · have unwritten : g.wrote = false := by
        cases wrote : g.wrote with
        | false => rfl
        | true =>
          rcases ending wrote with some_ | failed
          · exact absurd none_ some_
          · rw [well] at failed
            contradiction
      simp [logged,loggedBytes,succeeded,succeededBytes,none_,unwritten]
    · obtain ⟨wrote,-⟩ := proper.failed failed
      simp [logged,succeeded,none_,wrote]
  · have same : logged kind g = succeeded kind g := by
      simp [logged,succeeded,one,wrote,List.countP_singleton]
    refine ⟨Nat.le_of_eq same,fun _ => ⟨same,?_⟩,fun failed => ?_⟩
    · simp [loggedBytes,succeededBytes,one,wrote]
    · have none_ := (proper.failed failed).2
      rw [one] at none_
      contradiction

theorem soloRan {S : Session} {p q : Party Unit} {g h : Account} {t : Tracker} {events : List Event}
    (reached : Reaches (noting (note S.cipher)) p g q h) (ran : Ran S events ⟨t,[⟨p,g⟩]⟩) :
    ∃ later u, Ran S later ⟨u,[⟨q,h⟩]⟩ := by
  induction reached generalizing events t with
  | here p g => exact ⟨events,t,ran⟩
  | @answer c next r g middle q h answered later ih =>
    cases answered
    exact ih (.more ran (.move [] [] r))

theorem idleReached {A : Cipher} {α : Type} {p q : Party α} {s t : Host} {input output : Bytes}
    {g : Account} (advanced : Duplex.Advances Host.handle p s input output q t)
    (idle : Confined (Idle A g) p) : Reaches (noting (note A)) p g q g := by
  induction advanced with
  | rest p s => exact .here p g
  | here later ih => exact .answer (idle.1 _).symm (ih (idle.2 _))
  | send later ih => exact .answer (idle.1 _).symm (ih (idle.2 _))
  | recv size later ih => exact .answer (idle.1 _).symm (ih (idle.2 _))

theorem madeReached {A : Cipher} {g : Account} {op : Fs.Op} {f : op.Ret → Party Unit} (made : op.Ret)
    (idle : Idle A g (.here (.fs op))) (next : f made = .done (.ok ())) :
    Reaches (noting (note A)) (fs op >>= f) g (.done (.ok ())) g :=
  fsReached (idle made).symm next

section
variable {S : Session} {g : Account} {h : Host} {headers : UploadHeader} {content boxes cut : Bytes}

theorem finishReached {arc : FileLock.Arc} {networkElapsed : F32} {found : Received}
    {written : Bytes} (kind : g.kind = .upload) (key : g.sessionKey = S.sessionKey)
    (hash : S.sha256Hex found.hashed = headers.fileHash)
    (file : h.disk.content (S.filePath (UploadHeader.slot S headers)) = some written)
    (small : (UploadResponse.serialize
      ⟨headers.fileId,headers.fileHash,networkElapsed⟩).length < Frame.u32Max) (nonce : Nonce) :
    Reaches (noting (note S.cipher)) (S.finishUpload headers arc networkElapsed found) g
      (logUpload headers.fileSize.toNat) g.answered := by
  obtain ⟨disk,-,flushed⟩ := bufFlushed (h := h) found.pending (fileInner S _) file
  have tagged : (1 :: UploadResponse.serialize
      ⟨headers.fileId,headers.fileHash,networkElapsed⟩).length ≤ Frame.u32Max := small
  have whole : noting (note S.cipher) g (.send (Frame.frame S.cipher S.sessionKey nonce
      (1 :: UploadResponse.serialize ⟨headers.fileId,headers.fileHash,networkElapsed⟩))) (.ok ())
        g.answered := by
    simp only [noting,note,successWhole nonce _ kind key,Bool.or_true,Account.answered]
  have closed : noting (note S.cipher) g.answered (.here .shutdown) (.ok ()) g.answered := rfl
  have dropped : noting (note S.cipher) g.answered (.here (.dropGuard .upload arc)) () g.answered := rfl
  have released : noting (note S.cipher) g.answered (.here (.releaseFileLock headers.fileId)) ()
    g.answered := rfl
  unfold Session.finishUpload
  refine reachesThen (idleReached flushed (bufFlushConfined (fun _ _ => rfl) _)) ?_
  simp only [hash,ne_eq,not_true_eq_false,if_false]
  refine reachesThen (madeReached true (fun _ => rfl) rfl) ?_
  have closing : Reaches (noting (note S.cipher)) (S.sendClosing (1 :: UploadResponse.serialize
      ⟨headers.fileId,headers.fileHash,networkElapsed⟩)) g (.done (.ok ())) g.answered :=
    reachesThen (frameReached tagged nonce rfl whole) (shutdownReached closed)
  refine reachesThen closing ?_
  exact .answer dropped (.answer released (.here _ _))

theorem uploadReached (kind : g.kind = .upload) (key : g.sessionKey = S.sessionKey)
    (fresh : Fresh g) (size : headers.fileSize.toNat = content.length)
    (hash : S.sha256Hex content = headers.fileHash) (even : readChunkSize ∣ content.length)
    (short : headers.fileId.utf8ByteSize ≤ 256)
    (file : h.disk.content (S.filePath (UploadHeader.slot S headers)) = some [])
    (nonce : Nonce) (networkElapsed : F32) : Reaches (noting (note S.cipher)) (S.handleUpload headers) g
      (logUpload headers.fileSize.toNat) g.answered := by
  obtain ⟨cut,prefix8⟩ := hashCut S content
  rw [hash] at prefix8
  have small : (UploadResponse.serialize
      ⟨headers.fileId,headers.fileHash,networkElapsed⟩).length < Frame.u32Max := responseSmall hash short
  obtain ⟨boxes,drawn,sealed_,-⟩ := chunksSent (S := S) (h := h) (evenFits even)
  have total : headers.fileSize.toNat = 0 + content.length := by omega
  obtain ⟨disk,after,written,wrote,-,received⟩ := chunksReceived (h := h)
    "Upload timed out reading chunk" freshDecBuf [] [] (fileInner S _) file total
    (by simp [freshDecBuf]) sealed_
  have ack : Reaches (noting (note S.cipher)) (S.writeEncryptFrameInto [1]) g (.done (.ok ()))
      (note S.cipher g (.send (Frame.frame S.cipher S.sessionKey nonce [1])) (.ok ())) :=
    frameReached (by decide) nonce rfl rfl
  have same : note S.cipher g (.send (Frame.frame S.cipher S.sessionKey nonce [1])) (.ok ()) = g :=
    sendIdle fresh (responseOther key (.inr rfl) nonce) (.ok ())
  rw [same] at ack
  have held : noting (note S.cipher) g (.here (.holdFileLock headers.fileId)) 0 g := rfl
  have locked : noting (note S.cipher) g (.here (.tryLock .upload 0)) true g := rfl
  have timed : noting (note S.cipher) g (.here .elapsed) networkElapsed g := rfl
  have through := uploadThrough prefix8 (hereReached held) (hereReached locked)
    (madeReached true (fun _ => rfl) rfl) ack (hereReached timed) (madeReached true (fun _ => rfl) rfl)
  refine reachesTrans through ?_
  refine reachesThen (idleReached received (receiveConfined (fun _ _ => rfl) (fun _ _ => rfl) _)) ?_
  exact finishReached (h := {h with disk := disk}) kind key hash wrote.here small nonce

end

theorem countsExactly (S : Session) {events : List Event} {crew : Handlers} (ran : Ran S events crew)
    (ended : Ended crew) : Exact crew ↔ ∀ e ∈ events, e.Careful := by
  obtain ⟨⟨uploads,downloads,bandwidth⟩,each,failures⟩ := ranKept ran
  have final : ∀ m ∈ crew.members, Proper m.notes ∧ Ending m.notes := by
    intro m member
    obtain ⟨result,done_⟩ := ended m member
    have accounts := each m member
    rw [done_] at accounts
    exact accounts
  have written : ∀ kind, crew.members.countP (fun m => m.notes.wrote && m.notes.kind == kind) =
      total (succeeded kind) crew.members := fun kind =>
    totalCount (fun g => g.wrote && g.kind == kind) crew.members
  constructor
  · intro exact_ e member
    by_contra careless
    obtain ⟨m,among,failed⟩ := failures.mpr ⟨e,member,careless⟩
    have below : total (logged m.notes.kind) crew.members <
        total (succeeded m.notes.kind) crew.members := by
      refine List.sum_lt_sum _ _ (fun x among => ?_) ⟨m,among,?_⟩
      · exact (endedLogs (final x among).1 (final x among).2 _).1
      · exact (endedLogs (final m among).1 (final m among).2 m.notes.kind).2.2 failed
    cases kind : m.notes.kind with
    | upload =>
      rw [kind,← written,← uploads,exact_.uploads] at below
      exact Nat.lt_irrefl _ below
    | download =>
      rw [kind,← written,← downloads,exact_.downloads] at below
      exact Nat.lt_irrefl _ below
  · intro careful
    have well : ∀ m ∈ crew.members, m.notes.failed = false := by
      intro m among
      by_contra failed
      obtain ⟨e,member,careless⟩ := failures.mp ⟨m,among,by simpa using failed⟩
      exact careless (careful e member)
    have same : ∀ m ∈ crew.members, ∀ kind, logged kind m.notes = succeeded kind m.notes ∧
        loggedBytes m.notes = succeededBytes m.notes := fun m among kind =>
      (endedLogs (final m among).1 (final m among).2 kind).2.1 (well m among)
    refine ⟨?_,?_,?_⟩
    · rw [uploads,written]
      exact congrArg List.sum (List.map_congr_left fun m among => (same m among _).1)
    · rw [downloads,written]
      exact congrArg List.sum (List.map_congr_left fun m among => (same m among _).1)
    · rw [bandwidth,totalBytes]
      exact congrArg List.sum (List.map_congr_left fun m among => (same m among .upload).2)

def mebibyteUpload : UploadHeader := Overwrite.sampleUpload (List.replicate 1048576 0)

def mebibyteAccount : Account :=
  {kind := .upload,sessionKey := RoundTrip.sampleSession.sessionKey,
    size := mebibyteUpload.fileSize.toNat}

theorem sampleWaits : ∃ events t, Ran RoundTrip.sampleSession events
    ⟨t,[⟨logUpload mebibyteUpload.fileSize.toNat,mebibyteAccount.answered⟩]⟩ := by
  have prepared := RoundTrip.samplePrepared (List.replicate 1048576 0)
    (by rw [List.length_replicate]; decide) (by rw [List.length_replicate]; decide)
  have size : mebibyteUpload.fileSize.toNat = (List.replicate 1048576 (0 : UInt8)).length :=
    RoundTrip.sizeKept prepared
  let h : Host := {RoundTrip.sampleHost ⟨[]⟩ with
    disk := (⟨[]⟩ : Fs).put (RoundTrip.sampleSession.filePath
      (UploadHeader.slot RoundTrip.sampleSession mebibyteUpload)) (.file [])}
  have file : h.disk.content (RoundTrip.sampleSession.filePath
      (UploadHeader.slot RoundTrip.sampleSession mebibyteUpload)) = some [] :=
    Fs.contentPut _ (fileInner _ _) []
  have whole : readChunkSize ∣ (List.replicate 1048576 (0 : UInt8)).length := by
    rw [List.length_replicate]
    decide
  have reached := @uploadReached RoundTrip.sampleSession mebibyteAccount h mebibyteUpload
    (List.replicate 1048576 0) rfl rfl ⟨rfl,rfl,rfl⟩ size rfl whole
    (validated prepared.accepted).fileId.2 file ⟨List.replicate nonceLen 0,List.length_replicate⟩
    ⟨[0,0,0,0],rfl⟩
  have joined : Ran RoundTrip.sampleSession [.joined]
      ⟨{},[⟨RoundTrip.sampleSession.handleUpload mebibyteUpload,mebibyteAccount⟩]⟩ :=
    .more .start (.join (.upload RoundTrip.sampleSession.sessionKey
      RoundTrip.sampleSession.clientKey mebibyteUpload))
  exact soloRan reached joined

/- The lifetime ends there: the client has its success, and nothing counts it. -/
theorem answeredUncounted : ¬ ∀ (S : Session) (events : List Event) (crew : Handlers),
    Ran S events crew → Ended crew → Exact crew := by
  intro always
  obtain ⟨events,t,ran⟩ := sampleWaits
  have cut : Ran RoundTrip.sampleSession (.cut mebibyteAccount.answered :: events)
      ⟨t,[⟨.done (.err "deadline has elapsed"),mebibyteAccount.answered.stop⟩]⟩ :=
    .more ran (.cut [] [])
  have exact_ := always _ _ _ cut (by intro m member; rw [List.mem_singleton.mp member]; exact ⟨_,rfl⟩)
  have none_ : t.totalUploaded = 0 := (ranKept ran).tallied.uploads
  have one := exact_.uploads
  rw [none_] at one
  exact Nat.zero_ne_one one

theorem answeredCounted : ∃ events t, Ran RoundTrip.sampleSession events
    ⟨t,[⟨.done (.ok ()),mebibyteAccount.counted⟩]⟩ ∧ t.totalUploaded = 1 ∧ t.totalDownload = 0 ∧
      t.totalBandwidth = mebibyteUpload.fileSize.toNat := by
  obtain ⟨events,t,ran⟩ := sampleWaits
  have done_ : Ran RoundTrip.sampleSession
      (.moved mebibyteAccount.answered (.here (.logUpload mebibyteUpload.fileSize.toNat)) () :: events)
      ⟨t.logUpload mebibyteUpload.fileSize.toNat,[⟨.done (.ok ()),mebibyteAccount.counted⟩]⟩ :=
    .more ran (.move (c := .here (.logUpload mebibyteUpload.fileSize.toNat)) [] [] ())
  have ended : Ended ⟨t.logUpload mebibyteUpload.fileSize.toNat,
      [⟨.done (.ok ()),mebibyteAccount.counted⟩]⟩ := by
    intro m member
    rw [List.mem_singleton.mp member]
    exact ⟨_,rfl⟩
  have exact_ := (countsExactly RoundTrip.sampleSession done_ ended).mpr fun e member => by
    by_contra careless
    obtain ⟨m,among,failed⟩ := (ranKept done_).failures.mpr ⟨e,member,careless⟩
    rw [List.mem_singleton.mp among] at failed
    exact Bool.false_ne_true failed
  exact ⟨_,_,done_,exact_.uploads,exact_.downloads,
    exact_.bandwidth.trans List.sum_singleton⟩

end Statistics
end RDrive
