import RDrive.Whitelist
import RDrive.Downloads
import RDrive.LockViews
import RDrive.Lib.Unwinding

/-! Uploads and downloads of any number of clients over one disk and one lock table, one
call of one of them at a time: what a client sees, with the requests of the others and
without them. -/
namespace RDrive
open Crypto Header Party Bytes Program FileLock

namespace Session

def Works (S : Session) (slot : Slot) : (Port HostSig).Call → Prop
  | .here (.fs (.exists_ p)) => S.storagePath slot.clientKey <+: p
  | .here (.fs (.read p)) => S.storagePath slot.clientKey <+: p
  | .here (.reads p _) => S.storagePath slot.clientKey <+: p
  | c => S.Touches slot c

variable {S : Session} {slot : Slot}

theorem touchesWorks (c : (Port HostSig).Call) (touches : S.Touches slot c)
    (direct : Direct c) : S.Works slot c := by
  cases c with
  | here c =>
    cases c with
    | fs op => cases op <;> first | exact touches | exact touches.elim
    | reads path n => exact direct.elim
    | _ => trivial
  | _ => trivial

theorem worksCases {op : Fs.Op} {answer : op.Ret} {disk after : Fs} (works : S.Works slot (.here (.fs op)))
    (answered : Answers disk op answer after) : S.Touches slot (.here (.fs op)) ∨ after = disk := by
  cases op with
  | exists_ p => exact .inr (@lookAnswer (.exists_ p) _ _ _ trivial answered).2
  | read p =>
    rcases answered with ⟨-,rfl⟩ | torn
    · exact .inr rfl
    · exact torn.1.elim
  | _ => exact .inl works

theorem closingWorks (data : Bytes) : Confined (S.Works slot) (S.sendClosing data) :=
  confinedClosing trivial (fun _ => trivial) trivial

theorem downloadWorks (headers : DownloadHeader) :
    Confined (S.Works ⟨S.clientKey,headers.fileKey,headers.fileId⟩) (S.handleDownload headers) := by
  refine downloadConfined ?_ headers ?_ (slotParts _).2 fun _ => (slotParts _).1
  · intro c blind
    cases c with
    | here c => cases c <;> first | exact blind.elim | exact trivial
    | _ => trivial
  · rintro p (rfl | rfl)
    · exact slotInStorage _
    · exact (slotParts _).2

/- A client's own files are the same on two disks. Of the directories above them, one disk
may have some that the other does not. -/
structure SameFiles (S : Session) (key : Bytes) (disk other : Fs) : Prop where
  inside : ∀ q, S.storagePath key <+: q → disk.get q = other.get q
  above : ∀ q, q <+: S.getStorageDir → disk.get q = other.get q ∨
    disk.get q = some .dir ∧ other.get q = none

variable {key : Bytes} {disk other after : Fs} {p q : Path}

theorem insideOrAbove (inside : S.storagePath key <+: p) (above : q <+: p) :
    S.storagePath key <+: q ∨ q <+: S.getStorageDir := by
  rcases List.prefix_or_prefix_of_prefix inside above with below | high
  · exact .inl below
  · rcases List.prefix_concat_iff.mp high with whole | high
    · exact .inl (whole ▸ List.prefix_refl _)
    · exact .inr high

theorem aboveDiffers (inside : S.storagePath key <+: p) (above : q <+: S.getStorageDir) : q ≠ p := by
  rintro rfl
  have long := (inside.trans above).length_le
  simp only [storagePath,List.length_append,List.length_singleton] at long
  omega

theorem insideInner (inside : S.storagePath key <+: p) : p ≠ [] := by
  rintro rfl
  exact storageInner key (List.prefix_nil.mp inside)

theorem putFiles (same : SameFiles S key disk other) (inside : S.storagePath key <+: p) (node : Node) :
    SameFiles S key (disk.put p node) (other.put p node) where
  inside q below := by
    by_cases here : q = p
    · rw [here,Fs.getPutSame disk (insideInner inside),Fs.getPutSame other (insideInner inside)]
    · rw [Fs.getPutOther disk here,Fs.getPutOther other here]
      exact same.inside q below
  above q high := by
    rw [Fs.getPutOther disk (aboveDiffers inside high),Fs.getPutOther other (aboveDiffers inside high)]
    exact same.above q high

theorem dropFiles (same : SameFiles S key disk other) (inside : S.storagePath key <+: p) :
    SameFiles S key (disk.drop p) (other.drop p) where
  inside q below := by
    by_cases here : q = p
    · rw [here,Fs.getDropSame disk (insideInner inside),Fs.getDropSame other (insideInner inside)]
    · rw [Fs.getDropOther disk here,Fs.getDropOther other here]
      exact same.inside q below
  above q high := by
    rw [Fs.getDropOther disk (aboveDiffers inside high),Fs.getDropOther other (aboveDiffers inside high)]
    exact same.above q high

theorem clearAlike (same : SameFiles S key disk other) (inside : S.storagePath key <+: p) (high : q <+: p) :
    (disk.get q = none ∨ disk.isDir q = true) ↔ (other.get q = none ∨ other.isDir q = true) := by
  unfold Fs.isDir
  rcases insideOrAbove inside high with below | above
  · rw [same.inside q below]
  · rcases same.above q above with equal | ⟨dir,missing⟩
    · rw [equal]
    · simp [dir,missing]

theorem makeFiles (same : SameFiles S key disk other) (inside : S.storagePath key <+: p) :
    (disk.createDirAll p).1 = (other.createDirAll p).1 ∧
      SameFiles S key (disk.createDirAll p).2 (other.createDirAll p).2 := by
  have clear : (p.inits.all fun q => disk.get q = none ∨ disk.isDir q) =
      p.inits.all fun q => other.get q = none ∨ other.isDir q := by
    rw [Bool.eq_iff_iff]
    simp only [List.all_eq_true,decide_eq_true_eq,List.mem_inits]
    exact forall₂_congr fun q high => clearAlike same inside high
  unfold Fs.createDirAll
  rw [← clear]
  split
  · rename_i free
    refine ⟨rfl,⟨fun q below => ?_,fun q high => ?_⟩⟩
    · rw [Fs.getMakeDirs,Fs.getMakeDirs,same.inside q below]
    · rw [Fs.getMakeDirs,Fs.getMakeDirs]
      rcases same.above q high with equal | ⟨dir,missing⟩
      · exact .inl (by rw [equal])
      · have among : q ∈ p.inits :=
          (List.mem_inits q p).mpr ((high.trans (List.prefix_append _ _)).trans inside)
        exact .inl (by simp [dir,missing,among])
  · exact ⟨rfl,same⟩

theorem execFiles {op : Fs.Op} (same : SameFiles S slot.clientKey disk other)
    (works : S.Works slot (.here (.fs op))) :
    (disk.exec op).1 = (other.exec op).1 ∧ SameFiles S slot.clientKey (disk.exec op).2 (other.exec op).2 := by
  have file := (slotParts (S := S) slot).1
  have meta_ := (slotParts (S := S) slot).2
  have user := slotInStorage (S := S) slot
  cases op with
  | createDirAll p =>
    cases works
    exact makeFiles same user
  | exists_ p => exact ⟨congrArg Option.isSome (same.inside p works),same⟩
  | create p =>
    cases works
    simp only [Fs.exec,Fs.create,Fs.isDir,fileParent,same.inside _ user,same.inside _ file]
    split
    · exact ⟨rfl,putFiles same file _⟩
    · exact ⟨rfl,same⟩
  | append p b =>
    cases works
    simp only [Fs.exec,Fs.append,same.inside _ file]
    split
    · exact ⟨rfl,putFiles same file _⟩
    · exact ⟨rfl,same⟩
  | remove p =>
    cases works
    simp only [Fs.exec,Fs.remove,same.inside _ file]
    split
    · exact ⟨rfl,dropFiles same file⟩
    · exact ⟨rfl,same⟩
  | write p b =>
    cases works
    simp only [Fs.exec,Fs.write,Fs.isDir,metaParent,same.inside _ user,same.inside _ meta_]
    split
    · exact ⟨rfl,putFiles same meta_ _⟩
    · exact ⟨rfl,same⟩
  | read p =>
    refine ⟨?_,same⟩
    simp only [Fs.exec,Fs.content,same.inside p works]
  | _ => exact works.elim

theorem ownAnswers {op : Fs.Op} {answer : op.Ret} (same : SameFiles S slot.clientKey disk other)
    (works : S.Works slot (.here (.fs op))) (answered : Answers disk op answer after) :
    ∃ there, Answers other op answer there ∧ SameFiles S slot.clientKey after there := by
  rcases answered with ⟨rfl,rfl⟩ | torn
  · have both := execFiles same works
    exact ⟨_,.inl ⟨both.1,rfl⟩,both.2⟩
  · cases op with
    | append p b =>
      cases answer with
      | true => exact torn.2.elim
      | false =>
        obtain ⟨k,rfl⟩ := torn.2
        have part : S.Works slot (.here (.fs (.append p (b.take k)))) := works
        exact ⟨_,.inr ⟨trivial,k,rfl⟩,(execFiles same part).2⟩
    | _ => exact torn.1.elim

theorem otherAnswers {op : Fs.Op} {answer : op.Ret} (distinct : Distinct S) (size : key.length = 32)
    (sizeOther : slot.clientKey.length = 32) (foreign : slot.clientKey ≠ key)
    (same : SameFiles S key disk other) (works : S.Works slot (.here (.fs op)))
    (answered : Answers disk op answer after) : SameFiles S key after other := by
  rcases worksCases works answered with touches | rfl
  · have user := slotInStorage (S := S) slot
    have effect : ∀ {q}, q ≠ S.filePath slot → q ≠ S.metaPath slot → after.get q = disk.get q ∨
        disk.get q = none ∧ after.get q = some .dir ∧ q <+: S.userDirPath slot := fun file meta_ =>
      touchEffect touches answered file fun here => absurd here meta_
    constructor
    · intro q below
      have apart : ∀ {p}, S.storagePath slot.clientKey <+: p → ¬ q <+: p := fun inside high =>
        foreign (storageSame distinct sizeOther size inside (below.trans high))
      have differs : ∀ {p}, S.storagePath slot.clientKey <+: p → q ≠ p := fun inside here =>
        apart inside (here ▸ List.prefix_refl _)
      rcases effect (differs (slotParts slot).1) (differs (slotParts slot).2) with kept | ⟨-,-,high⟩
      · rw [kept]
        exact same.inside q below
      · exact absurd high (apart user)
    · intro q high
      rcases effect (aboveDiffers (slotParts slot).1 high) (aboveDiffers (slotParts slot).2 high) with
        kept | ⟨missing,made,-⟩
      · rw [kept]
        exact same.above q high
      · rcases same.above q high with equal | ⟨dir,-⟩
        · exact .inr ⟨made,equal ▸ missing⟩
        · rw [missing] at dir
          contradiction
  · exact same

end Session

namespace Tenants

inductive Request where
  | upload (headers : UploadHeader)
  | download (headers : DownloadHeader)

def Request.command : Request → Command
  | .upload headers => .upload headers
  | .download headers => .download headers

def Request.slot (clientKey : Bytes) : Request → Slot
  | .upload headers => ⟨clientKey,headers.fileKey,headers.fileId⟩
  | .download headers => ⟨clientKey,headers.fileKey,headers.fileId⟩

structure Handler where
  slot : Slot
  program : Party Unit

structure World where
  disk : Fs
  desk : Desk
  handler : Conn → Option Handler

def World.start (disk : Fs) : World := ⟨disk,.start,fun _ => none⟩

def World.now (w : World) (conn : Conn) (h : Handler) : World :=
  {w with handler := Function.update w.handler conn (some h)}

inductive Move where
  | join (sessionKey : Bytes) (request : Request)
  | call (c : (Port HostSig).Call) (r : (Port HostSig).Ret c)
  | leave

structure Event where
  conn : Conn
  move : Move

def lockUse : (c : (Port HostSig).Call) → (Port HostSig).Ret c → Option Use
  | .here (.holdFileLock fileId), _ => some (.hold fileId)
  | .here (.tryLock kind _), got => some (.tryLock kind got)
  | .here (.dropGuard _ _), _ => some .dropGuard
  | .here (.releaseFileLock fileId), _ => some (.release fileId)
  | _, _ => none

def Event.use (e : Event) : Option Use :=
  match e.move with
  | .join _ _ => none
  | .call c r => lockUse c r
  | .leave => some .leave

/- What a call is to the disk. However the reads of a file are cut, they give its content.
A handler has one variable for its Arc; which Arc is in it is the desk's to know. -/
def onDisk (disk : Fs) : (c : (Port HostSig).Call) → (Port HostSig).Ret c → Fs → Prop
  | .here (.fs op), answer, after => Answers disk op answer after
  | .here (.reads path _), chunks, after => chunks.map List.flatten = disk.content path ∧ after = disk
  | .here (.holdFileLock _), variable_, after => variable_ = 0 ∧ after = disk
  | _, _, after => after = disk

def onDesk (conn : Conn) (desk : Desk) : Option Use → Desk → Prop
  | some use, after => Desk.Step conn desk use after
  | none, after => after = desk

/- One step of one connection; `key` is who it was opened by. A handler that ends, or whose
connection's lifetime does, drops what it has. -/
inductive Happens (S : Session) (key : Conn → Bytes) : World → Event → World → Prop where
  | join {w conn sessionKey request} (fresh : w.handler conn = none) :
      Happens S key w ⟨conn,.join sessionKey request⟩ (w.now conn ⟨request.slot (key conn),
        (S.connected sessionKey (key conn)).dispatch request.command⟩)
  | call {w conn slot c next r disk desk} (at_ : w.handler conn = some ⟨slot,.call c next⟩)
      (answered : onDisk w.disk c r disk) (locked : onDesk conn w.desk (lockUse c r) desk) :
      Happens S key w ⟨conn,.call c r⟩ (World.now ⟨disk,desk,w.handler⟩ conn ⟨slot,next r⟩)
  | leave {w conn h} (at_ : w.handler conn = some h) : Happens S key w ⟨conn,.leave⟩
      (World.now ⟨w.disk,w.desk.leaves conn,w.handler⟩ conn ⟨h.slot,.fail "deadline has elapsed"⟩)

def own (key : Conn → Bytes) (client : Bytes) (conn : Conn) : Bool := key conn == client

/- No other client's guard is in the way of this client's tries, and no other client's
handler takes an entry out of the lock table while a handler of this one works with the
lock it names. -/
def Careful (key : Conn → Bytes) (client : Bytes) (w : World) (e : Event) : Prop :=
  ∀ use, e.use = some use → Desk.Careful (own key client) w.desk e.conn use

variable {S : Session} {key : Conn → Bytes} {client : Bytes} {w v u : World} {conn : Conn} {h : Handler}

def Proper (S : Session) (clientKey : Bytes) (h : Handler) : Prop :=
  h.slot.clientKey = clientKey ∧ Confined (S.Works h.slot) h.program

theorem joinProper (sessionKey clientKey : Bytes) (request : Request) :
    Proper S clientKey ⟨request.slot clientKey,(S.connected sessionKey clientKey).dispatch request.command⟩ := by
  refine ⟨by cases request <;> rfl,?_⟩
  change Confined ((S.connected sessionKey clientKey).Works (request.slot clientKey)) _
  cases request with
  | upload headers =>
    simp only [Request.command,Session.dispatch]
    split
    · exact Session.uploadConfined fun c touches direct => Session.touchesWorks c touches direct
    · exact Session.closingWorks _
    · trivial
  | download headers =>
    simp only [Request.command,Session.dispatch]
    split
    · exact Session.downloadWorks headers
    · exact Session.closingWorks _
    · trivial

structure Alike (S : Session) (key : Conn → Bytes) (client : Bytes) (w v : World) : Prop where
  files : S.SameFiles client w.disk v.disk
  locks : Desk.Views (own key client) w.desk v.desk
  handlers : ∀ conn, own key client conn = true → v.handler conn = w.handler conn
  proper : ∀ conn h, w.handler conn = some h → Proper S (key conn) h

theorem startAlike (S : Session) (key : Conn → Bytes) (client : Bytes) (disk : Fs) :
    Alike S key client (.start disk) (.start disk) where
  files := ⟨fun _ _ => rfl,fun _ _ => .inl rfl⟩
  locks := Desk.startViews _
  handlers _ _ := rfl
  proper _ _ found := nomatch found

theorem nowHandler (w : World) (conn : Conn) (h : Handler) : (w.now conn h).handler conn = some h :=
  Function.update_self ..

theorem nowProper (proper : ∀ conn h, w.handler conn = some h → Proper S (key conn) h)
    (at_ : Proper S (key conn) h) (other : Conn) (g : Handler)
    (found : (w.now conn h).handler other = some g) : Proper S (key other) g := by
  simp only [World.now,Function.update_apply] at found
  split at found
  · rename_i here
    rw [here,← Option.some.inj found]
    exact at_
  · exact proper other g found

theorem nowBoth (alike : Alike S key client w v) (at_ : Proper S (key conn) h) :
    Alike S key client (w.now conn h) (v.now conn h) where
  files := alike.files
  locks := alike.locks
  handlers other mine := by
    simp only [World.now,Function.update_apply]
    split
    · rfl
    · exact alike.handlers other mine
  proper := nowProper alike.proper at_

theorem nowOther (alike : Alike S key client w v) (foreign : own key client conn = false)
    (at_ : Proper S (key conn) h) : Alike S key client (w.now conn h) v where
  files := alike.files
  locks := alike.locks
  handlers other mine := by
    have differs : other ≠ conn := fun here => by
      rw [← here,mine] at foreign
      contradiction
    rw [alike.handlers other mine]
    exact (Function.update_of_ne differs ..).symm
  proper := nowProper alike.proper at_

theorem callProper {slot : Slot} {c : (Port HostSig).Call} {next : (Port HostSig).Ret c → Party Unit}
    (alike : Alike S key client w v) (at_ : w.handler conn = some ⟨slot,.call c next⟩) :
    slot.clientKey = key conn ∧ S.Works slot c ∧ ∀ r, Proper S (key conn) ⟨slot,next r⟩ := by
  obtain ⟨owner,confined⟩ := alike.proper conn _ at_
  exact ⟨owner,confined.1,fun r => ⟨owner,confined.2 r⟩⟩

theorem ownOnDisk {slot : Slot} {c : (Port HostSig).Call} {r : (Port HostSig).Ret c} {disk other after : Fs}
    (same : S.SameFiles slot.clientKey disk other) (works : S.Works slot c) (answered : onDisk disk c r after) :
    ∃ there, onDisk other c r there ∧ S.SameFiles slot.clientKey after there := by
  cases c with
  | here c =>
    cases c with
    | fs op => exact Session.ownAnswers same works answered
    | reads path n =>
      obtain ⟨content,rfl⟩ := answered
      have found : after.content path = other.content path := by
        simp only [Fs.content,same.inside path works]
      exact ⟨other,⟨content.trans found,rfl⟩,same⟩
    | holdFileLock fileId =>
      obtain ⟨variable_,rfl⟩ := answered
      exact ⟨other,⟨variable_,rfl⟩,same⟩
    | _ =>
      cases answered
      exact ⟨other,rfl,same⟩
  | _ =>
    cases answered
    exact ⟨other,rfl,same⟩

theorem otherOnDisk {slot : Slot} {c : (Port HostSig).Call} {r : (Port HostSig).Ret c} {disk other after : Fs}
    (distinct : S.Distinct) (size : client.length = 32) (sizeOther : slot.clientKey.length = 32)
    (foreign : slot.clientKey ≠ client) (same : S.SameFiles client disk other) (works : S.Works slot c)
    (answered : onDisk disk c r after) : S.SameFiles client after other := by
  cases c with
  | here c =>
    cases c with
    | fs op => exact Session.otherAnswers distinct size sizeOther foreign same works answered
    | reads path n => exact answered.2 ▸ same
    | holdFileLock fileId => exact answered.2 ▸ same
    | _ => exact answered ▸ same
  | _ => exact answered ▸ same

theorem ownHappens {e : Event} (happens : Happens S key w e u) (careful : Careful key client w e)
    (mine : own key client e.conn = true) (alike : Alike S key client w v) :
    ∃ alone, Happens S key v e alone ∧ Alike S key client u alone := by
  cases happens with
  | join fresh =>
    exact ⟨_,.join ((alike.handlers _ mine).trans fresh),nowBoth alike (joinProper _ _ _)⟩
  | @call conn slot c next r disk desk at_ answered locked =>
    obtain ⟨owner,works,proper⟩ := callProper alike at_
    have client_ : slot.clientKey = client := owner.trans (eq_of_beq mine)
    have atThere := (alike.handlers conn mine).trans at_
    obtain ⟨disk',answeredThere,files⟩ := ownOnDisk (client_ ▸ alike.files) works answered
    have deskThere : ∃ desk', onDesk conn v.desk (lockUse c r) desk' ∧
        Desk.Views (own key client) desk desk' := by
      cases used : lockUse c r with
      | none =>
        rw [used] at locked
        exact ⟨v.desk,rfl,locked ▸ alike.locks⟩
      | some use =>
        rw [used] at locked
        exact Desk.ownStep locked mine (careful use used) alike.locks
    obtain ⟨desk',lockedThere,locks⟩ := deskThere
    have after : Alike S key client ⟨disk,desk,w.handler⟩ ⟨disk',desk',v.handler⟩ :=
      ⟨client_ ▸ files,locks,alike.handlers,alike.proper⟩
    exact ⟨_,.call atThere answeredThere lockedThere,nowBoth after (proper r)⟩
  | @leave conn h at_ =>
    have owner := (alike.proper conn h at_).1
    have after : Alike S key client ⟨w.disk,w.desk.leaves conn,w.handler⟩
        ⟨v.disk,v.desk.leaves conn,v.handler⟩ :=
      ⟨alike.files,Desk.ownLeaves alike.locks mine,alike.handlers,alike.proper⟩
    exact ⟨_,.leave ((alike.handlers conn mine).trans at_),nowBoth after ⟨owner,trivial⟩⟩

theorem otherHappens {e : Event} (distinct : S.Distinct) (sizes : ∀ conn, (key conn).length = 32)
    (size : client.length = 32) (happens : Happens S key w e u) (careful : Careful key client w e)
    (foreign : own key client e.conn = false) (alike : Alike S key client w v) : Alike S key client u v := by
  have differs : key e.conn ≠ client := by simpa [own] using foreign
  cases happens with
  | join fresh => exact nowOther alike foreign (joinProper _ _ _)
  | @call conn slot c next r disk desk at_ answered locked =>
    obtain ⟨owner,works,proper⟩ := callProper alike at_
    have files := otherOnDisk distinct size (owner ▸ sizes conn) (owner ▸ differs) alike.files works answered
    have locks : Desk.Views (own key client) desk v.desk := by
      cases used : lockUse c r with
      | none =>
        rw [used] at locked
        exact locked ▸ alike.locks
      | some use =>
        rw [used] at locked
        exact Desk.otherStep locked foreign (careful use used) alike.locks
    have after : Alike S key client ⟨disk,desk,w.handler⟩ v := ⟨files,locks,alike.handlers,alike.proper⟩
    exact nowOther after foreign (proper r)
  | @leave conn h at_ =>
    have owner := (alike.proper conn h at_).1
    have after : Alike S key client ⟨w.disk,w.desk.leaves conn,w.handler⟩ v :=
      ⟨alike.files,Desk.otherLeaves alike.locks foreign,alike.handlers,alike.proper⟩
    exact nowOther after foreign ⟨owner,trivial⟩

theorem tenantsUnwind (distinct : S.Distinct) (sizes : ∀ conn, (key conn).length = 32)
    (size : client.length = 32) : Unwinding (Traced.Guarded (Careful key client) (Happens S key))
      (Happens S key) (fun e => own key client e.conn) (Alike S key client) where
  matched both mine alike := ownHappens both.2 both.1 mine alike
  unseen both foreign alike := otherHappens distinct sizes size both.2 both.1 foreign alike

/- In any run where the locks of others are never in his way, a client sees what he would
see without the others, call by call; his files are the same in the end. -/
theorem strangersUnseen (S : Session) (key : Conn → Bytes) (client : Bytes) (disk : Fs) (events : List Event)
    (last : World) (distinct : S.Distinct) (sizes : ∀ conn, (key conn).length = 32)
    (size : client.length = 32)
    (ran : Traced (Traced.Guarded (Careful key client) (Happens S key)) (.start disk) events last) :
    ∃ alone, Traced (Happens S key) (.start disk) (events.filter fun e => own key client e.conn) alone ∧
      (∀ conn, own key client conn = true → alone.handler conn = last.handler conn) ∧
      ∀ q, S.storagePath client <+: q → last.disk.get q = alone.disk.get q := by
  obtain ⟨alone,rest,alike⟩ := (tenantsUnwind distinct sizes size).ownRun ran (startAlike S key client disk)
  exact ⟨alone,rest,alike.handlers,alike.files.inside⟩

section
variable {headers : UploadHeader} {sessionKey : Bytes}

def opening (sessionKey : Bytes) (headers : UploadHeader) (conn : Conn) (got : Bool) : List Event :=
  [⟨conn,.join sessionKey (.upload headers)⟩,⟨conn,.call (.here (.holdFileLock headers.fileId)) (0 : Nat)⟩,
    ⟨conn,.call (.here (.tryLock .upload 0)) got⟩]

theorem uploadTries (valid : headers.validate S.maxFileSize = .ok ()) :
    ∃ next : Arc → Bool → Party Unit, S.dispatch (.upload headers) =
        .call (.here (.holdFileLock headers.fileId))
          (fun arc => .call (.here (.tryLock .upload arc)) (next arc)) ∧
      ∀ arc, next arc false = S.sendFailed ⟨409,"File is currently locked by another operation"⟩ := by
  simp only [Session.dispatch,valid]
  exact ⟨_,rfl,fun _ => rfl⟩

theorem openingRuns {got : Bool} {desk : Desk} (valid : headers.validate S.maxFileSize = .ok ())
    (fresh : w.handler conn = none) (unbound : w.desk.arc conn = none)
    (careful : Desk.Careful (own key client) (w.desk.holds conn headers.fileId) conn (.tryLock .upload got))
    (tried : Desk.Step conn (w.desk.holds conn headers.fileId) (.tryLock .upload got) desk) :
    ∃ h, Traced (Traced.Guarded (Careful key client) (Happens S key)) w
        (opening sessionKey headers conn got) (World.now ⟨w.disk,desk,w.handler⟩ conn h) ∧
      (got = false → h.program = (S.connected sessionKey (key conn)).sendFailed
        ⟨409,"File is currently locked by another operation"⟩) := by
  obtain ⟨next,starts,refuses⟩ := @uploadTries (S.connected sessionKey (key conn)) headers valid
  let slot : Slot := ⟨key conn,headers.fileKey,headers.fileId⟩
  refine ⟨⟨slot,next 0 got⟩,?_,fun refused => by rw [refused]; exact refuses 0⟩
  let joined := w.now conn ⟨slot,.call (.here (.holdFileLock headers.fileId))
    fun arc => .call (.here (.tryLock .upload arc)) (next arc)⟩
  let held := World.now ⟨w.disk,w.desk.holds conn headers.fileId,joined.handler⟩ conn
    ⟨slot,.call (.here (.tryLock .upload 0)) (next 0)⟩
  have joins : Happens S key w ⟨conn,.join sessionKey (.upload headers)⟩ joined := by
    have join := @Happens.join S key w conn sessionKey (.upload headers) fresh
    rwa [Request.command,starts] at join
  have holds : Happens S key joined ⟨conn,.call (.here (.holdFileLock headers.fileId)) (0 : Nat)⟩ held :=
    @Happens.call S key joined conn slot (.here (.holdFileLock headers.fileId)) _ (0 : Nat) _ _
      (nowHandler ..) ⟨rfl,rfl⟩ (.hold unbound)
  have tries : Happens S key held ⟨conn,.call (.here (.tryLock .upload 0)) got⟩
      (World.now ⟨w.disk,desk,held.handler⟩ conn ⟨slot,next 0 got⟩) :=
    @Happens.call S key held conn slot (.here (.tryLock .upload 0)) (next 0) got _ _
      (nowHandler ..) rfl tried
  have ends : World.now ⟨w.disk,desk,held.handler⟩ conn ⟨slot,next 0 got⟩ =
      World.now ⟨w.disk,desk,w.handler⟩ conn ⟨slot,next 0 got⟩ := by
    simp [World.now,held,joined]
  rw [← ends]
  refine .more ⟨nofun,joins⟩ (.more ⟨?_,holds⟩ (.more ⟨?_,tries⟩ (.none _)))
  · intro use used
    cases Option.some.inj used
    trivial
  · intro use used
    cases Option.some.inj used
    exact careful

theorem startHeld (conn : Conn) (fileId : FileId) : (Desk.start.holds conn fileId).arc conn = some 0 ∧
    (Desk.start.holds conn fileId).shared.lock 0 = .free ∧
    (Desk.start.holds conn fileId).shared.sharedFileLock fileId = some 0 :=
  ⟨Function.update_self ..,rfl,Function.update_self ..⟩

theorem heldListed {desk : Desk} {conn : Conn} {fileId : FileId} {arc : Arc}
    (listed : desk.shared.sharedFileLock fileId = some arc) :
    (desk.holds conn fileId).arc conn = some arc ∧ (desk.holds conn fileId).shared = desk.shared := by
  simp [Desk.holds,FileLock.holdFileLock,listed]

theorem neverRefused {disk : Fs} {last : World} :
    ¬ Traced (Happens S key) (.start disk) (opening sessionKey headers conn false) last := by
  intro ran
  unfold opening at ran
  cases ran with
  | more joins later =>
    cases joins with
    | join fresh =>
      cases later with
      | more holds later =>
        cases holds with
        | call at_ answered held =>
          cases held with
          | hold unbound =>
            cases later with
            | more tries later =>
              cases tries with
              | call at_ answered tried =>
                cases tried with
                | refuse bound untried busy =>
                  have held := startHeld conn headers.fileId
                  cases Option.some.inj (held.1.symm.trans bound)
                  change tryGuard .upload ((Desk.start.holds conn headers.fileId).shared.lock 0) conn = none
                    at busy
                  rw [held.2.1] at busy
                  exact nomatch busy

end

open Whitelist (sampleServer sampleHeader sampleDistinct sampleValid)

def stranger : Bytes := List.replicate 32 1
def member : Bytes := List.replicate 32 2

def sampleKeys (conn : Conn) : Bytes := if conn = 2 then member else stranger

theorem sampleKeySizes (conn : Conn) : (sampleKeys conn).length = 32 := by
  unfold sampleKeys
  split <;> exact List.length_replicate

theorem memberAlone : own sampleKeys member 1 = false ∧ own sampleKeys member 2 = true := by decide

def written : RwLock Conn := ⟨some 1,[],fun _ => rfl⟩

def uploading : Desk := (Desk.start.holds 1 sampleHeader.fileId).takes 1 .upload 0 written

theorem strangerUploads : ∃ h,
    Traced (Traced.Guarded (Careful sampleKeys member) (Happens sampleServer sampleKeys)) (.start ⟨[]⟩)
      (opening (List.replicate 32 7) sampleHeader 1 true) (World.now ⟨⟨[]⟩,uploading,fun _ => none⟩ 1 h) := by
  have held := startHeld 1 sampleHeader.fileId
  have tried : Desk.Step 1 (Desk.start.holds 1 sampleHeader.fileId) (.tryLock .upload true) uploading :=
    .take held.1 rfl (by rw [held.2.1]; rfl)
  obtain ⟨h,ran,-⟩ := @openingRuns sampleServer sampleKeys member (.start ⟨[]⟩) 1 sampleHeader
    (List.replicate 32 7) true uploading sampleValid rfl rfl
    (fun mine => absurd mine (by decide)) tried
  exact ⟨h,ran⟩

def turns : List Event := opening (List.replicate 32 7) sampleHeader 1 true ++
  (⟨1,.leave⟩ :: opening (List.replicate 32 7) sampleHeader 2 true)

theorem turnsRun : ∃ last,
    Traced (Traced.Guarded (Careful sampleKeys member) (Happens sampleServer sampleKeys)) (.start ⟨[]⟩)
      turns last := by
  obtain ⟨g,uploads⟩ := strangerUploads
  let busy : World := World.now ⟨⟨[]⟩,uploading,fun _ => none⟩ 1 g
  let gone : World := World.now ⟨⟨[]⟩,uploading.leaves 1,busy.handler⟩ 1 ⟨g.slot,.fail "deadline has elapsed"⟩
  have leaves : Happens sampleServer sampleKeys busy ⟨1,.leave⟩ gone := .leave (nowHandler ..)
  have listed : (uploading.leaves 1).shared.sharedFileLock sampleHeader.fileId = some 0 :=
    (startHeld 1 sampleHeader.fileId).2.2
  have held := @heldListed _ 2 _ _ listed
  have free : tryGuard .upload (((uploading.leaves 1).holds 2 sampleHeader.fileId).shared.lock 0) 2 =
      some ⟨some 2,[],fun _ => rfl⟩ := by
    rw [held.2]
    rfl
  have tried : Desk.Step 2 ((uploading.leaves 1).holds 2 sampleHeader.fileId) (.tryLock .upload true) _ :=
    .take held.1 rfl free
  have clear : Desk.Careful (own sampleKeys member) ((uploading.leaves 1).holds 2 sampleHeader.fileId) 2
      (.tryLock .upload true) := fun _ arc bound other _ =>
    Option.some.inj (held.1.symm.trans bound) ▸ Desk.gotClear free other
  obtain ⟨h,ran,-⟩ := @openingRuns sampleServer sampleKeys member gone 2 sampleHeader
    (List.replicate 32 7) true _ sampleValid rfl rfl clear tried
  refine ⟨_,uploads.append (.more ⟨?_,leaves⟩ ran)⟩
  intro use used
  cases Option.some.inj used
  trivial

theorem turnsUnseen : ∃ last,
    Traced (Traced.Guarded (Careful sampleKeys member) (Happens sampleServer sampleKeys)) (.start ⟨[]⟩)
      turns last ∧
    ∃ alone, Traced (Happens sampleServer sampleKeys) (.start ⟨[]⟩)
        (turns.filter fun e => own sampleKeys member e.conn) alone ∧
      (∀ conn, own sampleKeys member conn = true → alone.handler conn = last.handler conn) ∧
      ∀ q, sampleServer.storagePath member <+: q → last.disk.get q = alone.disk.get q := by
  obtain ⟨last,ran⟩ := turnsRun
  exact ⟨last,ran,strangersUnseen sampleServer sampleKeys member ⟨[]⟩ turns last sampleDistinct
    sampleKeySizes List.length_replicate ran⟩

/- The same file_id, though the slots differ. -/
theorem memberRefused : ∃ (last : World) (h : Handler), Traced (Happens sampleServer sampleKeys) (.start ⟨[]⟩)
    (opening (List.replicate 32 7) sampleHeader 1 true ++
      opening (List.replicate 32 7) sampleHeader 2 false) last ∧
    last.handler 2 = some h ∧ h.program = (sampleServer.connected (List.replicate 32 7) member).sendFailed
      ⟨409,"File is currently locked by another operation"⟩ := by
  obtain ⟨g,uploads⟩ := strangerUploads
  have listed : uploading.shared.sharedFileLock sampleHeader.fileId = some 0 :=
    (startHeld 1 sampleHeader.fileId).2.2
  have held := @heldListed _ 2 _ _ listed
  have busy : tryGuard .upload ((uploading.holds 2 sampleHeader.fileId).shared.lock 0) 2 = none := by
    rw [held.2]
    rfl
  have tried : Desk.Step 2 (uploading.holds 2 sampleHeader.fileId) (.tryLock .upload false)
      (uploading.holds 2 sampleHeader.fileId) := .refuse held.1 rfl busy
  obtain ⟨h,refused,reply⟩ := @openingRuns sampleServer sampleKeys stranger
    (World.now ⟨⟨[]⟩,uploading,fun _ => none⟩ 1 g) 2 sampleHeader (List.replicate 32 7) false _ sampleValid
    rfl rfl (fun mine => absurd mine (by decide)) tried
  exact ⟨_,h,uploads.unguarded.append refused.unguarded,nowHandler ..,reply rfl⟩

/- An upload of a stranger makes a member's fail with 409, which it would not do alone. -/
theorem strangerBlocks : ¬ ∀ (S : Session) (key : Conn → Bytes) (client : Bytes) (disk : Fs)
    (events : List Event) (last : World), S.Distinct → (∀ conn, (key conn).length = 32) → client.length = 32 →
      Traced (Happens S key) (.start disk) events last →
      ∃ alone, Traced (Happens S key) (.start disk) (events.filter fun e => own key client e.conn) alone := by
  intro always
  obtain ⟨last,h,ran,-⟩ := memberRefused
  obtain ⟨alone,ran⟩ := always _ _ member _ _ _ sampleDistinct sampleKeySizes List.length_replicate ran
  have others : (opening (List.replicate 32 7) sampleHeader 1 true).filter
      (fun e => own sampleKeys member e.conn) = [] := by
    simp [opening,memberAlone.1]
  have its : (opening (List.replicate 32 7) sampleHeader 2 false).filter
      (fun e => own sampleKeys member e.conn) = opening (List.replicate 32 7) sampleHeader 2 false := by
    simp [opening,memberAlone.2]
  rw [List.filter_append,others,its] at ran
  exact neverRefused ran

end Tenants
end RDrive
