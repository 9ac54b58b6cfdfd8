import RDrive.AuthTrees
import RDrive.Serving
import RDrive.Lib.Pair

/-! An upload under a key and the rotation of that key on another connection, one call of
one of them at a time: where the upload ends up. A file that is open follows its
directory; every other call of the upload names the old one. -/
namespace RDrive
open Crypto Header Party Bytes Program

inductive Mark where
  | made
  | moved
  deriving DecidableEq, Repr

/- The disk, where the upload's open file is by now, and the two calls so far. -/
structure Ground where
  disk : Fs
  handle : Option Path
  log : List Mark

/- What an upload has heard of its content, and whether its success response is
completely written. -/
structure Account where
  received : Bytes
  succeeded : Prop

def Account.hears (g : Account) (b : Bytes) : Account := {g with received := g.received ++ b}
def Account.sends (g : Account) (success : Prop) : Account := {g with succeeded := g.succeeded ∨ success}

namespace Relocation
open Session

def carried (old new p : Path) : Path := if old <+: p then new ++ p.drop old.length else p

def Success (S : Session) (headers : UploadHeader) (b : Bytes) : Prop :=
  ∃ nonce networkElapsed, b = Frame.frame S.cipher S.sessionKey nonce
    (1 :: UploadResponse.serialize ⟨headers.fileId,headers.fileHash,networkElapsed⟩)

/- The upload: the disk is what it is, all else answers as it likes. -/
def uploading (S : Session) (headers : UploadHeader) : Env (Port HostSig) (Ground × Account) :=
  fun ⟨s,g⟩ c r ⟨t,h⟩ =>
    match c, r with
    | .here (.fs (.createDirAll p)), made =>
      Answers s.disk (.createDirAll p) made t.disk ∧ t.handle = s.handle ∧ t.log = s.log ++ [.made] ∧
        h = g
    | .here (.fs (.create p)), made =>
      Answers s.disk (.create p) made t.disk ∧
        t.handle = (if (made : Bool) then some p else s.handle) ∧ t.log = s.log ∧ h = g
    | .here (.fs (.append p b)), done_ =>
      Answers s.disk (.append (s.handle.getD p) b) done_ t.disk ∧ t.handle = s.handle ∧
        t.log = s.log ∧ h = g
    | .here (.fs op), answer =>
      Answers s.disk op answer t.disk ∧ t.handle = s.handle ∧ t.log = s.log ∧ h = g
    | .recv _, answer => t = s ∧ h = g.hears (S.heard answer)
    | .send b, .ok () => t = s ∧ h = g.sends (Success S headers b)
    | _, _ => t = s ∧ h = g

/- The rotation: its client sends this body, or nothing that opens. What is noted is
whether the ACK is completely written. -/
def rotating (S : Session) (body : Bytes) : Env (Port HostSig) (Ground × Prop) :=
  fun ⟨s,g⟩ c r ⟨t,h⟩ =>
    match c, r with
    | .here (.fs (.rename old new)), moved =>
      Answers s.disk (.rename old new) moved t.disk ∧
        t.handle = (if (moved : Bool) then s.handle.map (carried old new) else s.handle) ∧
        t.log = (if (moved : Bool) = true ∧ S.getStorageDir <+: old then s.log ++ [.moved] else s.log) ∧
        h = g
    | .here (.fs op), answer =>
      Answers s.disk op answer t.disk ∧ t.handle = s.handle ∧ t.log = s.log ∧ h = g
    | .recv _, .ok b => (∀ data, S.cipher.opened S.sessionKey b.val = some data → data = body) ∧
        t = s ∧ h = g
    | .send b, .ok () => t = s ∧ h = (g ∨ S.Acks b)
    | _, _ => t = s ∧ h = g

section
variable (S : Session) (old new : Bytes)

def afterMove (disk : Fs) (q : Path) : Option Node :=
  if S.storagePath old = S.storagePath new then disk.get q
  else if S.storagePath new <+: q then disk.get (S.storagePath old ++ q.drop (S.storagePath new).length)
  else if S.storagePath old <+: q then none else disk.get q

def Below (q : Path) : Prop := S.storagePath old <+: q ∨ S.storagePath new <+: q

def ByRotation (s t : Ground) : Prop :=
  (t.log = s.log ∧ t.handle = s.handle ∧ ∀ q, Below S old new q → t.disk.get q = s.disk.get q) ∨
  (.moved ∉ s.log ∧ t.log = s.log ++ [.moved] ∧
    t.handle = s.handle.map (carried (S.storagePath old) (S.storagePath new)) ∧
    ∀ q, Below S old new q → t.disk.get q = afterMove S old new s.disk q)

def ByUpload (s t : Ground) : Prop := (.moved ∈ t.log ↔ .moved ∈ s.log)

def Housed (s : Ground) : Prop := ∀ p, s.handle = some p → S.getStorageDir <+: p

theorem belowMoved (q : Path) :
    Below S old new (S.storagePath old ++ q.drop (S.storagePath new).length) :=
  .inl (List.prefix_append _ _)

theorem rotationTrans {s t u : Ground} (first : ByRotation S old new s t)
    (second : ByRotation S old new t u) : ByRotation S old new s u := by
  rcases first with ⟨logOne,handleOne,diskOne⟩ | ⟨still,logOne,handleOne,diskOne⟩
  · rcases second with ⟨logTwo,handleTwo,diskTwo⟩ | ⟨unmoved,logTwo,handleTwo,diskTwo⟩
    · refine .inl ⟨logTwo.trans logOne,handleTwo.trans handleOne,?_⟩
      exact fun q below => (diskTwo q below).trans (diskOne q below)
    · rw [logOne] at unmoved logTwo
      rw [handleOne] at handleTwo
      refine .inr ⟨unmoved,logTwo,handleTwo,fun q below => ?_⟩
      rw [diskTwo q below]
      unfold afterMove
      split
      · exact diskOne q below
      · split
        · exact diskOne _ (belowMoved S old new q)
        · split
          · rfl
          · exact diskOne q below
  · rcases second with ⟨logTwo,handleTwo,diskTwo⟩ | ⟨unmoved,-,-,-⟩
    · refine .inr ⟨still,logTwo.trans logOne,handleTwo.trans handleOne,?_⟩
      exact fun q below => (diskTwo q below).trans (diskOne q below)
    · rw [logOne] at unmoved
      simp at unmoved

theorem rely : Pair.Rely ByUpload (ByRotation S old new) where
  leftRefl _ := Iff.rfl
  rightRefl _ := .inl ⟨rfl,rfl,fun _ _ => rfl⟩
  leftTrans _ _ _ one two := two.trans one
  rightTrans _ _ _ := rotationTrans S old new

end

section
variable (S : Session) (headers : UploadHeader) (new : Bytes)

def source : Slot := UploadHeader.slot S headers
def target : Slot := ⟨new,headers.fileKey,headers.fileId⟩

def Left (s : Ground) : Prop :=
  s.log = [.made,.moved] ∧ S.storagePath S.clientKey ≠ S.storagePath new

def Gone (disk : Fs) : Prop := ∀ q, S.storagePath S.clientKey <+: q → disk.get q = none

/- Before create_dir_all. -/
def Begun (s : Ground) : Prop := s.log = [] ∨ s.log = [.moved]

def Logged (s : Ground) : Prop :=
  s.log = [.made] ∨ s.log = [.made,.moved] ∨ s.log = [.moved,.made]

/- Between create_dir_all and File::create. -/
structure Made (s : Ground) : Prop where
  logged : Logged s
  away : Left S new s → Gone S s.disk

/- Between File::create and the metadata. -/
structure Filling (written : Bytes) (s : Ground) : Prop where
  logged : Logged s
  away : Left S new s → Gone S s.disk ∧ ∃ p, s.handle = some p ∧ S.storagePath new <+: p
  home : ¬ Left S new s → s.disk.isDir (S.userDirPath (source S headers)) = true ∧
    s.handle = some (S.filePath (source S headers)) ∧
    s.disk.content (S.filePath (source S headers)) = some written

structure Saved (content : Bytes) (s : Ground) : Prop where
  logged : Logged s
  away : Left S new s → Gone S s.disk ∧
    Stored S s.disk (target headers new) (UploadHeader.metadata S headers) content
  home : ¬ Left S new s → Stored S s.disk (source S headers) (UploadHeader.metadata S headers) content

def Announced (content : Bytes) : Prop :=
  content.length = headers.fileSize.toNat ∧ S.sha256Hex content = headers.fileHash

def Point (g : Account) (s : Ground) : Prop :=
  g.succeeded → Announced S headers g.received ∧ Saved S headers new g.received s

end

section
variable {S : Session} {headers : UploadHeader} {new : Bytes} {s t : Ground}

theorem movedOnce (logged : Logged s) (still : .moved ∉ s.log) : s.log = [.made] := by
  rcases logged with log | log | log
  · exact log
  · simp [log] at still
  · simp [log] at still

theorem leftSame (log : t.log = s.log) : Left S new t ↔ Left S new s := by
  unfold Left
  rw [log]

theorem loggedSame (log : t.log = s.log) (logged : Logged s) : Logged t := by
  unfold Logged
  rwa [log]

theorem loggedMoved (log : t.log = s.log ++ [.moved]) (made : s.log = [.made]) : Logged t := by
  rw [made] at log
  exact .inr (.inl log)

theorem unleft (made : s.log = [.made]) : ¬ Left S new s := by
  intro left
  rw [left.1] at made
  contradiction

theorem leftMoved (log : t.log = s.log ++ [.moved]) (made : s.log = [.made]) :
    Left S new t ↔ S.storagePath S.clientKey ≠ S.storagePath new := by
  rw [made] at log
  exact ⟨fun left => left.2,fun differ => ⟨log,differ⟩⟩

theorem stayedStored {slot : Slot} {disk after : Fs} {metadata : MetadataFile} {content : Bytes}
    (stored : Stored S disk slot metadata content)
    (same : ∀ q, S.storagePath slot.clientKey <+: q → after.get q = disk.get q) :
    Stored S after slot metadata content := by
  obtain ⟨dir,file,meta_⟩ := stored
  obtain ⟨inFile,inMeta⟩ := slotParts (S := S) slot
  refine ⟨?_,?_,?_⟩
  · unfold Fs.isDir at dir ⊢
    rwa [same _ (slotInStorage slot)]
  · rw [Fs.contentOf] at file ⊢
    rwa [same _ inFile]
  · rw [Fs.contentOf] at meta_ ⊢
    rwa [same _ inMeta]

theorem movedGet {disk after : Fs} {old : Bytes} (differ : S.storagePath old ≠ S.storagePath new)
    (moved : ∀ q, Below S old new q → after.get q = afterMove S old new disk q) (rest : Path) :
    after.get (S.storagePath new ++ rest) = disk.get (S.storagePath old ++ rest) := by
  rw [moved _ (.inr (List.prefix_append _ _)),afterMove,if_neg differ,if_pos (List.prefix_append _ _),
    List.drop_left]

theorem movedGone {disk after : Fs} {old : Bytes} (differ : S.storagePath old ≠ S.storagePath new)
    (moved : ∀ q, Below S old new q → after.get q = afterMove S old new disk q) {q : Path}
    (below : S.storagePath old <+: q) : after.get q = none := by
  rw [moved q (.inl below),afterMove,if_neg differ,if_neg,if_pos below]
  exact fun above => differ (sameAbove below above (storageDepth old new))

theorem movedStored {disk after : Fs} {metadata : MetadataFile} {content : Bytes}
    (differ : S.storagePath S.clientKey ≠ S.storagePath new)
    (moved : ∀ q, Below S S.clientKey new q → after.get q = afterMove S S.clientKey new disk q)
    (stored : Stored S disk (source S headers) metadata content) :
    Stored S after (target headers new) metadata content := by
  have shape : ∀ rest, after.get (S.userDirPath (target headers new) ++ rest) =
      disk.get (S.userDirPath (source S headers) ++ rest) := by
    intro rest
    have one : S.userDirPath (target headers new) ++ rest = S.storagePath new ++
        (S.sha256Hex (Postcard.utf8 headers.fileKey) :: rest) := by
      simp [userDirPath,storagePath,target]
    have two : S.userDirPath (source S headers) ++ rest = S.storagePath S.clientKey ++
        (S.sha256Hex (Postcard.utf8 headers.fileKey) :: rest) := by
      simp [userDirPath,storagePath,source,UploadHeader.slot]
    rw [one,two]
    exact movedGet differ moved _
  obtain ⟨dir,file,meta_⟩ := stored
  refine ⟨?_,?_,?_⟩
  · have here := shape []
    rw [List.append_nil,List.append_nil] at here
    unfold Fs.isDir at dir ⊢
    rwa [here]
  · rw [Fs.contentOf] at file ⊢
    rw [← file]
    exact shape _
  · rw [Fs.contentOf] at meta_ ⊢
    rw [← meta_]
    exact shape _

theorem movedNowhere {disk after : Fs} (same : S.storagePath S.clientKey = S.storagePath new)
    (moved : ∀ q, Below S S.clientKey new q → after.get q = afterMove S S.clientKey new disk q)
    {q : Path} (below : S.storagePath S.clientKey <+: q) : after.get q = disk.get q := by
  rw [moved q (.inl below),afterMove,if_pos same]

theorem carriedNowhere (p : Path) (path : Path) : carried path path p = p := by
  unfold carried
  split
  · rename_i above
    obtain ⟨rest,rfl⟩ := above
    rw [List.drop_left]
  · rfl

theorem begunLater (step : ByRotation S S.clientKey new s t) (begun : Begun s) : Begun t := by
  unfold Begun
  rcases step with ⟨log,-,-⟩ | ⟨still,log,-,-⟩
  · rwa [log]
  · rcases begun with none_ | moved
    · exact .inr (by rw [log,none_]; rfl)
    · simp [moved] at still

theorem goneSame (disk : ∀ q, Below S S.clientKey new q → t.disk.get q = s.disk.get q)
    (gone : Gone S s.disk) : Gone S t.disk := by
  intro q below
  rw [disk q (.inl below)]
  exact gone q below

theorem goneMoved (differ : S.storagePath S.clientKey ≠ S.storagePath new)
    (disk : ∀ q, Below S S.clientKey new q → t.disk.get q = afterMove S S.clientKey new s.disk q) :
    Gone S t.disk := fun _ below => movedGone differ disk below

theorem madeLater (step : ByRotation S S.clientKey new s t) (made : Made S new s) : Made S new t := by
  obtain ⟨logged,away⟩ := made
  rcases step with ⟨log,-,disk⟩ | ⟨still,log,-,disk⟩
  · exact ⟨loggedSame log logged,fun left => goneSame disk (away ((leftSame log).mp left))⟩
  · have first := movedOnce logged still
    exact ⟨loggedMoved log first,fun left => goneMoved ((leftMoved log first).mp left) disk⟩

theorem fillingLater {written : Bytes} (step : ByRotation S S.clientKey new s t)
    (filling : Filling S headers new written s) : Filling S headers new written t := by
  obtain ⟨logged,away,home⟩ := filling
  have inFile : S.storagePath S.clientKey <+: S.filePath (source S headers)  :=
    (slotParts (S := S) (source S headers)).1
  rcases step with ⟨log,handle,disk⟩ | ⟨still,log,handle,disk⟩
  · refine ⟨loggedSame log logged,fun left => ?_,fun stays => ?_⟩
    · obtain ⟨gone,p,opened,below⟩ := away ((leftSame log).mp left)
      exact ⟨goneSame disk gone,p,handle.trans opened,below⟩
    · obtain ⟨dir,opened,file⟩ := home fun left => stays ((leftSame log).mpr left)
      refine ⟨?_,handle.trans opened,?_⟩
      · unfold Fs.isDir at dir ⊢
        rwa [disk _ (.inl (slotInStorage (source S headers)))]
      · rw [Fs.contentOf] at file ⊢
        rwa [disk _ (.inl inFile)]
  · have first := movedOnce logged still
    obtain ⟨dir,opened,file⟩ := home (unleft first)
    rw [opened] at handle
    refine ⟨loggedMoved log first,fun left => ?_,fun stays => ?_⟩
    · have differ := (leftMoved log first).mp left
      refine ⟨goneMoved differ disk,_,handle,?_⟩
      unfold carried
      rw [if_pos inFile]
      exact List.prefix_append _ _
    · have same : S.storagePath S.clientKey = S.storagePath new := by
        by_contra differ
        exact stays ((leftMoved log first).mpr differ)
      refine ⟨?_,?_,?_⟩
      · unfold Fs.isDir at dir ⊢
        rwa [movedNowhere same disk (slotInStorage (source S headers))]
      · rw [handle,← same,Option.map_some,carriedNowhere]
      · rw [Fs.contentOf] at file ⊢
        rwa [movedNowhere same disk inFile]

theorem savedLater {content : Bytes} (step : ByRotation S S.clientKey new s t)
    (saved : Saved S headers new content s) : Saved S headers new content t := by
  obtain ⟨logged,away,home⟩ := saved
  rcases step with ⟨log,-,disk⟩ | ⟨still,log,-,disk⟩
  · refine ⟨loggedSame log logged,fun left => ?_,fun stays => ?_⟩
    · obtain ⟨gone,stored⟩ := away ((leftSame log).mp left)
      exact ⟨goneSame disk gone,stayedStored stored fun q below => disk q (.inr below)⟩
    · have stored := home fun left => stays ((leftSame log).mpr left)
      exact stayedStored stored fun q below => disk q (.inl below)
  · have first := movedOnce logged still
    have stored := home (unleft first)
    refine ⟨loggedMoved log first,fun left => ?_,fun stays => ?_⟩
    · have differ := (leftMoved log first).mp left
      exact ⟨goneMoved differ disk,movedStored differ disk stored⟩
    · have same : S.storagePath S.clientKey = S.storagePath new := by
        by_contra differ
        exact stays ((leftMoved log first).mpr differ)
      exact stayedStored stored fun q below => movedNowhere same disk below

theorem pointStable : Crew.Stable (ByRotation S S.clientKey new) (Housed S) (Point S headers new) := by
  intro g s t step _ point holds
  obtain ⟨announced,saved⟩ := point holds
  exact ⟨announced,savedLater step saved⟩

end

section
variable {S : Session} {headers : UploadHeader} {new told : Bytes} {α β : Type}
  {u : Crew.Turn Ground Account}

abbrev Fine (S : Session) (headers : UploadHeader) (new : Bytes) (u : Crew.Turn Ground Account) : Prop :=
  Crew.Decent ByUpload (Housed S) (Point S headers new) u

abbrev Uploads (S : Session) (headers : UploadHeader) (new : Bytes)
    (post : α → Crew.Turn Ground Account → Prop) (p : Party α) (u : Crew.Turn Ground Account) : Prop :=
  Safe (Crew.disturbed (uploading S headers) (ByRotation S S.clientKey new) (Housed S))
    (Fine S headers new) (Returns post) p u

def Lasts (S : Session) (new : Bytes) (fact : Ground → Prop) : Prop :=
  ∀ s t, ByRotation S S.clientKey new s t → fact s → fact t

structure At (S : Session) (headers : UploadHeader) (new told : Bytes) (fact : Ground → Prop)
    (u : Crew.Turn Ground Account) : Prop where
  fine : Fine S headers new u
  heard : u.notes.received = told
  unsent : ¬ u.notes.succeeded
  known : fact u.shared

def Still (S : Session) (headers : UploadHeader) (c : (Port HostSig).Call) : Prop :=
  ∀ s g r t h, uploading S headers (s,g) c r (t,h) → t = s ∧ h = g

theorem unsentPoint {g : Account} {s : Ground} (unsent : ¬ g.succeeded) : Point S headers new g s :=
  fun sent => absurd sent unsent

theorem stillKeeps {fact : Ground → Prop} {p : Party α} (lasts : Lasts S new fact)
    (start : At S headers new told fact u) (still : Confined (Still S headers) p) :
    Uploads S headers new (fun _ => At S headers new told fact) p u := by
  have part : Uploads S headers new
      (fun _ v => v.notes.received = told ∧ ¬ v.notes.succeeded ∧ fact v.shared) p u := by
    refine Pair.partSafe (fun g s => g.received = told ∧ ¬ g.succeeded ∧ fact s) start.fine
      ⟨start.heard,start.unsent,start.known⟩ ?_ still ?_
    · exact fun g s t step _ held => ⟨held.1,held.2.1,lasts s t step held.2.2⟩
    · intro s g c r t h still held known answered
      obtain ⟨rfl,rfl⟩ := still s g r t h answered
      exact ⟨Iff.rfl,held,unsentPoint known.2.1,known⟩
  refine safeWeaken part ?_
  rintro (a | message | _) v fine known
  · exact ⟨fine,known.1,known.2.1,known.2.2⟩
  · trivial
  · trivial

theorem fsSilent {op : Fs.Op} {s t : Ground} {g h : Account} {answer : op.Ret}
    (answered : uploading S headers (s,g) (.here (.fs op)) answer (t,h)) : h = g := by
  cases op <;> exact answered.2.2.2

theorem fsUploads {fact : Ground → Prop} {op : Fs.Op} {f : op.Ret → Party β}
    {post : β → Crew.Turn Ground Account → Prop} (lasts : Lasts S new fact)
    (start : At S headers new told fact u)
    (each : ∀ s t answer, Housed S s → fact s →
      uploading S headers (s,u.notes) (.here (.fs op)) answer (t,u.notes) →
      ByUpload s t ∧ Housed S t ∧
        (Fine S headers new ⟨t,u.notes,s⟩ → Uploads S headers new post (f answer) ⟨t,u.notes,s⟩)) :
    Uploads S headers new post (fs op >>= f) u := by
  refine Pair.callSafe fact start.fine (fun s t step _ known => lasts s t step known) start.known ?_
  intro s answer t h held known answered
  cases fsSilent answered
  obtain ⟨grown,housed,next⟩ := each s t answer held known answered
  exact next ⟨grown,housed,unsentPoint start.unsent⟩

theorem sameHoused {s t : Ground} (handle : t.handle = s.handle) (housed : Housed S s) : Housed S t := by
  intro p opened
  rw [handle] at opened
  exact housed p opened

theorem sameMoves {s t : Ground} (log : t.log = s.log) : ByUpload s t := by
  unfold ByUpload
  rw [log]

theorem createDirUploads (start : At S headers new told Begun u) :
    Uploads S headers new (fun _ => At S headers new told (Made S new))
      (createDirAll (S.userDirPath (source S headers))) u := by
  refine fsUploads (fun s t => begunLater) start ?_
  intro s t made housed begun answered
  obtain ⟨-,handle,log,-⟩ := answered
  refine ⟨?_,sameHoused handle housed,fun fine => ?_⟩
  · unfold ByUpload
    rw [log]
    simp
  · have after : Made S new t := by
      rcases begun with none_ | moved
      · rw [none_] at log
        exact ⟨.inl log,fun left => absurd (left.1.symm.trans log) (by decide)⟩
      · rw [moved] at log
        exact ⟨.inr (.inr log),fun left => absurd (left.1.symm.trans log) (by decide)⟩
    cases (show Bool from made) with
    | true => exact ⟨fine,fine,start.heard,start.unsent,after⟩
    | false => exact ⟨fine,trivial⟩

theorem goneParent {disk : Fs} (gone : Gone S disk) :
    disk.isDir (S.userDirPath (source S headers)) = false := by
  have missing := gone _ (slotInStorage (source S headers))
  simp [Fs.isDir,missing]

theorem createUploads (start : At S headers new told (Made S new) u) :
    Uploads S headers new (fun _ => At S headers new told (Filling S headers new []))
      (create (S.filePath (source S headers))) u := by
  refine fsUploads (fun s t => madeLater) start ?_
  intro s t made housed known answered
  obtain ⟨disk,handle,log,-⟩ := answered
  have inStorage : S.getStorageDir <+: S.filePath (source S headers) := by
    simp [filePath,userDirPath,List.append_assoc]
  rcases disk with ⟨rfl,disk⟩ | torn
  · have opens : Housed S t := by
      intro p opened
      rw [handle] at opened
      split at opened
      · cases Option.some.inj opened
        exact inStorage
      · exact housed p opened
    refine ⟨sameMoves log,opens,fun fine => ?_⟩
    cases worked : (s.disk.exec (.create (S.filePath (source S headers)))).1 with
    | false => exact ⟨fine,trivial⟩
    | true =>
      have parent : s.disk.isDir (S.userDirPath (source S headers)) = true ∧
          s.disk.isDir (S.filePath (source S headers)) = false := by
        simp only [Fs.exec,Fs.create,fileParent] at worked
        split at worked
        · rename_i both
          simpa using both
        · contradiction
      have stays : ¬ Left S new s := by
        intro left
        rw [goneParent (known.away left)] at parent
        exact absurd parent.1 (by decide)
      have put : t.disk = s.disk.put (S.filePath (source S headers)) (.file []) := by
        rw [disk]
        simp only [Fs.exec,Fs.create,fileParent,parent]
        rfl
      refine ⟨fine,fine,start.heard,start.unsent,loggedSame log known.logged,?_,fun _ => ⟨?_,?_,?_⟩⟩
      · exact fun left => absurd ((leftSame log).mp left) stays
      · rw [put]
        have dir := parent.1
        unfold Fs.isDir at dir ⊢
        rwa [Fs.getPutOther _ (userDirBesideFile S _)]
      · rw [worked] at handle
        exact handle
      · rw [put]
        exact Fs.contentPut _ (fileInner S _) []
  · exact torn.1.elim

theorem appendFilling {written bytes : Bytes} {s t : Ground} (filling : Filling S headers new written s)
    (handle : t.handle = s.handle) (log : t.log = s.log)
    (disk : t.disk = (s.disk.append (s.handle.getD (S.filePath (source S headers))) bytes).2) :
    Filling S headers new (written ++ bytes) t := by
  obtain ⟨logged,away,home⟩ := filling
  refine ⟨loggedSame log logged,fun left => ?_,fun stays => ?_⟩
  · have differ := ((leftSame log).mp left).2
    obtain ⟨gone,p,opened,below⟩ := away ((leftSame log).mp left)
    refine ⟨?_,p,handle.trans opened,below⟩
    intro q under
    rw [disk,opened,Option.getD_some,Fs.appendElsewhere,gone q under]
    rintro rfl
    exact differ (sameAbove under below (storageDepth S.clientKey new))
  · obtain ⟨dir,opened,file⟩ := home fun left => stays ((leftSame log).mpr left)
    rw [opened,Option.getD_some,Fs.appendFile file] at disk
    refine ⟨?_,handle.trans opened,?_⟩
    · rw [disk]
      unfold Fs.isDir at dir ⊢
      rwa [Fs.getPutOther _ (userDirBesideFile S _)]
    · rw [disk]
      exact Fs.contentPut _ (fileInner S _) _

theorem appendUploads {written : Bytes} (start : At S headers new told (Filling S headers new written) u)
    (bytes : Bytes) : Uploads S headers new
      (fun _ => At S headers new told (Filling S headers new (written ++ bytes)))
      (append (S.filePath (source S headers)) bytes) u := by
  refine fsUploads (fun s t => fillingLater) start ?_
  intro s t done_ housed filling answered
  obtain ⟨disk,handle,log,-⟩ := answered
  refine ⟨sameMoves log,sameHoused handle housed,fun fine => ?_⟩
  cases worked : (show Bool from done_) with
  | false => exact ⟨fine,trivial⟩
  | true =>
    cases worked
    rcases disk with ⟨-,disk⟩ | torn
    · exact ⟨fine,fine,start.heard,start.unsent,appendFilling filling handle log disk⟩
    · exact torn.2.elim

theorem stillHere {c : HostCall} (other : ∀ op, c ≠ .fs op) : Still S headers (.here c) := by
  intro s g r t h answered
  cases c with
  | fs op => exact absurd rfl (other op)
  | _ => exact answered

theorem stillSend {b : Bytes} (other : ¬ Success S headers b) : Still S headers (.send b) := by
  intro s g r t h answered
  cases r with
  | error fault => exact answered
  | ok sent =>
    obtain ⟨same,noted⟩ := answered
    rw [noted]
    simp only [same,other,Account.sends,or_false,and_self]

theorem stillFrame {data : Bytes}
    (other : ∀ networkElapsed, data ≠ 1 :: UploadResponse.serialize
      ⟨headers.fileId,headers.fileHash,networkElapsed⟩) :
    Confined (Still S headers) (S.writeEncryptFrameInto data) := by
  refine confinedFrame (stillHere nofun) fun nonce => stillSend ?_
  rintro ⟨nonce',networkElapsed,same⟩
  exact other networkElapsed (frameOpens same)

theorem stillFailed (e : ErrorHeader) : Confined (Still S headers) (S.sendFailed e) :=
  confinedBind (stillFrame fun _ same => absurd (List.cons.inj same).1 (by decide))
    fun _ => shutdownConfined (stillHere nofun)

theorem stillAck : Confined (Still S headers) (S.writeEncryptFrameInto [1]) := by
  refine stillFrame fun networkElapsed same => ?_
  have first := Postcard.varintNonempty (Postcard.utf8 headers.fileId).length
  have lengths := congrArg List.length same
  simp only [UploadResponse.serialize,Postcard.string,List.length_cons,List.length_nil,
    List.length_append] at lengths
  omega

theorem receiveUploads {text : String} {fileSize : Nat} {decBuf : Bytes}
    (start : At S headers new [] (Filling S headers new []) u) :
    Uploads S headers new (fun found v => (∃ written,
        At S headers new found.hashed (Filling S headers new written) v ∧
        written ++ found.pending = found.hashed) ∧ found.hashed.length = fileSize)
      (S.receiveLoop text (S.filePath (source S headers)) fileSize decBuf [] [] 0) u := by
  refine receiveTold (fun told written => At S headers new told (Filling S headers new written))
    (fun _ _ _ filling => filling.fine) (fun _ _ _ b filling => appendUploads filling b) ?_ text start
    (List.append_nil []) rfl (Nat.zero_le _)
  rintro told written v n r ⟨t,h,before⟩ ⟨fine,heard,unsent,filling⟩ ⟨since,housed,same,noted⟩
  simp only at same noted
  subst same noted
  exact ⟨⟨Iff.rfl,housed,unsentPoint unsent⟩,by rw [← heard]; rfl,unsent,fillingLater since filling⟩

theorem writeUploads {content : Bytes} (start : At S headers new told (Filling S headers new content) u) :
    Uploads S headers new (fun _ => At S headers new told (Saved S headers new content))
      (write (S.metaPath (source S headers)) (UploadHeader.metadata S headers).serialize) u := by
  refine fsUploads (fun s t => fillingLater) start ?_
  intro s t done_ housed filling answered
  obtain ⟨disk,handle,log,-⟩ := answered
  obtain ⟨logged,away,home⟩ := filling
  refine ⟨sameMoves log,sameHoused handle housed,fun fine => ?_⟩
  rcases disk with ⟨rfl,disk⟩ | torn
  · cases worked : (s.disk.exec (.write (S.metaPath (source S headers))
        (UploadHeader.metadata S headers).serialize)).1 with
    | false => exact ⟨fine,trivial⟩
    | true =>
      have parent : s.disk.isDir (S.userDirPath (source S headers)) = true ∧
          s.disk.isDir (S.metaPath (source S headers)) = false := by
        simp only [Fs.exec,Fs.write,metaParent] at worked
        split at worked
        · rename_i both
          simpa using both
        · contradiction
      have stays : ¬ Left S new s := by
        intro left
        rw [goneParent (away left).1] at parent
        exact absurd parent.1 (by decide)
      have put : t.disk = s.disk.put (S.metaPath (source S headers))
          (.file (UploadHeader.metadata S headers).serialize) := by
        rw [disk]
        simp only [Fs.exec,Fs.write,metaParent,parent]
        rfl
      obtain ⟨dir,-,file⟩ := home stays
      refine ⟨fine,fine,start.heard,start.unsent,loggedSame log logged,?_,fun _ => ⟨?_,?_,?_⟩⟩
      · exact fun left => absurd ((leftSame log).mp left) stays
      · rw [put]
        unfold Fs.isDir at dir ⊢
        rwa [Fs.getPutOther _ (userDirBesideMeta S _)]
      · rw [put,Fs.contentOf,Fs.getPutOther _ (fileBesideMeta S _),← Fs.contentOf]
        exact file
      · rw [put]
        exact Fs.contentPut _ (metaInner S _) _
  · exact torn.1.elim

theorem restUploads {p : Party Unit} (fine : Fine S headers new u) (still : Confined (Still S headers) p) :
    Uploads S headers new (fun _ _ => True) p u := by
  have part : Uploads S headers new (fun _ v => Point S headers new v.notes v.shared) p u := by
    refine Pair.partSafe (Point S headers new) fine fine.point ?_ still ?_
    · exact fun g s t step held point => pointStable g s t step held point
    · intro s g c r t h still held point answered
      obtain ⟨rfl,rfl⟩ := still s g r t h answered
      exact ⟨Iff.rfl,held,point,point⟩
  exact safeWeaken part fun result _ _ _ => by cases result <;> trivial

theorem successUploads {networkElapsed : F32} {f : Unit → Party Unit}
    (announced : Announced S headers told) (start : At S headers new told (Saved S headers new told) u)
    (rest : Confined (Still S headers) (f ())) : Uploads S headers new (fun _ _ => True)
      (S.sendSuccess ⟨headers.fileId,headers.fileHash,networkElapsed⟩ >>= f) u := by
  unfold sendSuccess sendClosing writeEncryptFrameInto
  rw [bindAssoc]
  split
  · exact ⟨start.fine,trivial⟩
  · rw [bindAssoc]
    have lasts : Lasts S new (Saved S headers new told) := fun s t => savedLater
    refine safeThen (stillKeeps lasts start (confinedHere _ (stillHere nofun))) ?_
    intro nonce v _ known
    refine Pair.callSafe (Saved S headers new told) known.fine
      (fun s t step _ saved => savedLater step saved) known.known ?_
    intro s answer t h held saved answered
    cases answer with
    | error fault =>
      obtain ⟨rfl,rfl⟩ := answered
      exact ⟨⟨Iff.rfl,held,unsentPoint known.unsent⟩,trivial⟩
    | ok sent =>
      obtain ⟨rfl,rfl⟩ := answered
      rw [← known.heard] at announced saved
      have closes : Confined (Still S headers) (shutdown >>= f) :=
        confinedBind (shutdownConfined (stillHere nofun)) fun _ => rest
      exact restUploads ⟨Iff.rfl,held,fun _ => ⟨announced,saved⟩⟩ closes

theorem finishUploads {arc : FileLock.Arc} {networkElapsed : F32} {found : Received} {written : Bytes}
    (start : At S headers new found.hashed (Filling S headers new written) u)
    (joined : written ++ found.pending = found.hashed)
    (size : found.hashed.length = headers.fileSize.toNat) :
    Uploads S headers new (fun _ _ => True) (S.finishUpload headers arc networkElapsed found) u := by
  unfold finishUpload
  refine safeThen (bufFlushFills
    (fun written => At S headers new found.hashed (Filling S headers new written))
    (fun _ _ filling => filling.fine) (fun _ _ b filling => appendUploads filling b) start) ?_
  intro _ v _ flushed
  rw [joined] at flushed
  dsimp only
  split
  · refine fsUploads (fun s t => fillingLater) flushed ?_
    intro s t removed housed _ answered
    obtain ⟨-,handle,log,-⟩ := answered
    exact ⟨sameMoves log,sameHoused handle housed,fun fine => restUploads fine (stillFailed _)⟩
  · rename_i same
    have hash := Decidable.not_not.mp same
    refine safeThen (writeUploads flushed) ?_
    intro _ w _ saved
    rw [hash]
    refine successUploads ⟨size,hash⟩ saved ?_
    refine confinedBind (confinedHere _ (stillHere nofun)) fun _ => ?_
    refine confinedBind (confinedHere _ (stillHere nofun)) fun _ => ?_
    exact confinedHere _ (stillHere nofun)

theorem uploadUploads {disk : Fs} : Uploads S headers new (fun _ _ => True) (S.handleUpload headers)
    (Crew.Turn.start ⟨disk,none,[]⟩ ⟨[],False⟩) := by
  have begun : At S headers new [] Begun (Crew.Turn.start ⟨disk,none,[]⟩ ⟨[],False⟩) :=
    ⟨⟨Iff.rfl,nofun,unsentPoint id⟩,rfl,id,.inl rfl⟩
  have lasts : Lasts S new Begun := fun s t => begunLater
  have madeLasts : Lasts S new (Made S new) := fun s t => madeLater
  unfold handleUpload
  refine safeThen (stillKeeps lasts begun (confinedHere _ (stillHere nofun))) ?_
  intro arc _ _ held
  refine safeThen (stillKeeps lasts held (confinedHere _ (stillHere nofun))) ?_
  intro locked _ _ begun
  split
  · refine safeThen (createDirUploads begun) ?_
    intro _ _ _ made
    refine safeThen (stillKeeps madeLasts made (confinedLift _)) ?_
    intro _ _ _ made
    refine safeThen (stillKeeps madeLasts made stillAck) ?_
    intro _ _ _ made
    refine safeThen (stillKeeps madeLasts made (confinedHere _ (stillHere nofun))) ?_
    intro networkElapsed _ _ made
    refine safeThen (createUploads made) ?_
    intro _ _ _ filling
    refine safeThen (receiveUploads filling) ?_
    rintro found _ _ ⟨⟨written,filling,joined⟩,size⟩
    exact finishUploads filling joined size
  · exact restUploads begun.fine (stillFailed _)

end
section
variable {R : Session} {body old new : Bytes} {α : Type} {u : Crew.Turn Ground Prop}

abbrev Steady (R : Session) (old new : Bytes) (u : Crew.Turn Ground Prop) : Prop :=
  Crew.Decent (ByRotation R old new) (Housed R) (fun _ _ => True) u

abbrev Rotations (R : Session) (body old new : Bytes) (post : α → Crew.Turn Ground Prop → Prop)
    (p : Party α) (u : Crew.Turn Ground Prop) : Prop :=
  Safe (Crew.disturbed (rotating R body) ByUpload (Housed R)) (Steady R old new) (Returns post) p u

def Calm (R : Session) (body : Bytes) (c : (Port HostSig).Call) : Prop :=
  ∀ s g r t h, rotating R body (s,g) c r (t,h) → t = s

structure Before (R : Session) (old new : Bytes) (u : Crew.Turn Ground Prop) : Prop where
  steady : Steady R old new u
  still : .moved ∉ u.shared.log

theorem stillByUpload {s t : Ground} (step : ByUpload s t) (still : .moved ∉ s.log) : .moved ∉ t.log :=
  fun moved => still (step.mp moved)

theorem sameStep (s : Ground) : ByRotation R old new s s := .inl ⟨rfl,rfl,fun _ _ => rfl⟩

theorem calmKeeps {p : Party α} (start : Before R old new u) (calm : Confined (Calm R body) p) :
    Rotations R body old new (fun _ => Before R old new) p u := by
  have part : Rotations R body old new (fun _ v => .moved ∉ v.shared.log) p u := by
    refine Pair.partSafe (fun _ s => .moved ∉ s.log) start.steady start.still ?_ calm ?_
    · exact fun g s t step _ still => stillByUpload step still
    · intro s g c r t h calm held still answered
      cases calm s g r t h answered
      exact ⟨sameStep s,held,trivial,still⟩
  refine safeWeaken part ?_
  rintro (a | message | _) v steady still
  · exact ⟨steady,still⟩
  · trivial
  · trivial

theorem calmLast {p : Party Unit} (steady : Steady R old new u) (calm : Confined (Calm R body) p) :
    Rotations R body old new (fun _ _ => True) p u := by
  have part : Rotations R body old new (fun _ _ => True) p u := by
    refine Pair.partSafe (fun _ _ => True) steady trivial (fun _ _ _ _ _ _ => trivial) calm ?_
    intro s g c r t h calm held still answered
    cases calm s g r t h answered
    exact ⟨sameStep s,held,trivial,trivial⟩
  exact part

theorem calmHere {c : HostCall} (other : ∀ op, c ≠ .fs op) : Calm R body (.here c) := by
  intro s g r t h answered
  cases c with
  | fs op => exact absurd rfl (other op)
  | _ => exact answered.1

theorem calmSend (b : Bytes) : Calm R body (.send b) := by
  intro s g r t h answered
  cases r <;> exact answered.1

theorem calmRecv (n : Nat) : Calm R body (.recv n) := by
  intro s g r t h answered
  cases r with
  | error fault => exact answered.1
  | ok b => exact answered.2.1

theorem calmFrame (data : Bytes) : Confined (Calm R body) (R.writeEncryptFrameInto data) :=
  confinedFrame (calmHere nofun) fun _ => calmSend _

theorem calmAnswer (both : Prop) [Decidable both] : Confined (Calm R body)
    (if both then R.writeEncryptFrameInto [1]
      else R.sendFailed ⟨500,"Failed to rotate keys, try again later"⟩) := by
  split
  · exact calmFrame _
  · exact confinedBind (calmFrame _) fun _ => shutdownConfined (calmHere nofun)

theorem bodyRead (start : Before R old new u) : Rotations R body old new
    (fun data v => data = body ∧ Before R old new v) R.readEncryptDataInto u := by
  unfold readEncryptDataInto
  have length : Confined (Calm R body) readFrameLength := by
    refine ⟨calmRecv 4,fun answer => ?_⟩
    cases answer with
    | error fault => cases fault <;> trivial
    | ok lenBuf => exact confinedLift _
  refine safeThen (calmKeeps start length) ?_
  intro ciphertextLen v _ before
  split
  · exact ⟨before.steady,trivial⟩
  · refine Pair.callSafe (fun s => .moved ∉ s.log) before.steady
      (fun s t step _ still => stillByUpload step still) before.still ?_
    intro s answer t h held still answered
    have same := calmRecv _ _ _ _ _ _ answered
    subst same
    have steady : Steady R old new ⟨t,h,t⟩ := ⟨sameStep t,held,trivial⟩
    cases answer with
    | error fault => exact ⟨steady,trivial⟩
    | ok box =>
      refine safeLift _ steady fun data opened => ⟨?_,steady,still⟩
      exact answered.1 data ((Outcome.ofOptionIsOk ..).mp opened)

theorem renameMoves (disk : Fs) (worked : (disk.rename (R.storagePath old) (R.storagePath new)).1 = true)
    (q : Path) : (disk.rename (R.storagePath old) (R.storagePath new)).2.get q =
      afterMove R old new disk q :=
  Fs.renameGet (storageInner old) (storageInner new) (storageDepth old new) worked q

theorem storageOutside (key : Bytes) : ¬ R.getStorageDir <+: R.authPath key :=
  fun inside => authOutside key inside (List.prefix_refl _)

theorem belowStorage {q : Path} (below : Below R old new q) : R.getStorageDir <+: q := by
  rcases below with above | above <;> exact (List.prefix_append _ _).trans above

theorem calmLook {op : Fs.Op} (looks : Looks op) : Calm R body (.here (.fs op)) := by
  intro s g r t h answered
  have same : t.disk = s.disk ∧ t.handle = s.handle ∧ t.log = s.log := by
    cases op <;> first
      | exact looks.elim
      | exact ⟨(lookAnswer looks answered.1).2,answered.2.1,answered.2.2.1⟩
  cases s
  cases t
  simp only at same
  obtain ⟨rfl,rfl,rfl⟩ := same
  rfl

theorem authRotates {s t : Ground} {moved : Bool} {g h : Prop} (housed : Housed R s)
    (answered : rotating R body (s,g) (.here (.fs (.rename (R.authPath old) (R.authPath new)))) moved (t,h)) :
    ByRotation R old new s t ∧ t.log = s.log ∧ Housed R t := by
  obtain ⟨disk,handle,log,-⟩ := answered
  rw [if_neg fun both => storageOutside old both.2] at log
  have opened : t.handle = s.handle := by
    rw [handle]
    split
    · cases here : s.handle with
      | none => rfl
      | some p =>
        rw [Option.map_some]
        unfold carried
        rw [if_neg (authOutside old (housed p here))]
    · rfl
  refine ⟨.inl ⟨log,opened,fun q below => ?_⟩,log,sameHoused opened housed⟩
  rcases disk with ⟨-,disk⟩ | torn
  · rw [disk]
    exact Fs.renameBeside s.disk (authInner old) (authInner new) (authDepth old new)
      (authOutside old (belowStorage below)) (authOutside new (belowStorage below))
  · exact torn.1.elim

theorem storageRotates {s t : Ground} {moved : Bool} {g h : Prop} (housed : Housed R s)
    (still : .moved ∉ s.log)
    (answered : rotating R body (s,g) (.here (.fs (.rename (R.storagePath old) (R.storagePath new)))) moved
      (t,h)) : ByRotation R old new s t ∧ Housed R t := by
  obtain ⟨disk,handle,log,-⟩ := answered
  rcases disk with ⟨said,disk⟩ | torn
  · cases worked : moved with
    | false =>
      rw [worked] at handle log said
      have none_ : t.disk = s.disk := by
        rcases Fs.renameEffect s.disk (R.storagePath old) (R.storagePath new) with ⟨-,same⟩ | ⟨done_,-⟩
        · rw [disk]
          exact same
        · exact absurd (said.trans done_) Bool.false_ne_true
      rw [if_neg (by simp)] at handle log
      exact ⟨.inl ⟨log,handle,fun q _ => by rw [none_]⟩,sameHoused handle housed⟩
    | true =>
      rw [worked] at handle log said
      rw [if_pos rfl] at handle
      rw [if_pos ⟨rfl,List.prefix_append _ _⟩] at log
      refine ⟨.inr ⟨still,log,handle,fun q _ => ?_⟩,?_⟩
      · rw [disk]
        exact renameMoves s.disk said.symm q
      · intro p opened
        rw [handle,Option.map_eq_some_iff] at opened
        obtain ⟨was,here,rfl⟩ := opened
        unfold carried
        split
        · rw [storagePath,List.append_assoc]
          exact List.prefix_append _ _
        · exact housed was here
  · exact torn.1.elim

theorem renamesRotate (start : Before R old new u) :
    Rotations R body old new (fun _ _ => True) (R.renameKeyDirs old new) u := by
  unfold renameKeyDirs
  refine safeThen (calmKeeps start (confinedHere _ (calmLook trivial))) ?_
  intro stored v _ before
  split
  · refine Pair.callSafe (fun s => .moved ∉ s.log) before.steady
      (fun s t step _ still => stillByUpload step still) before.still ?_
    intro s keyMoved t h held still answered
    obtain ⟨step,log,housed⟩ := authRotates held answered
    have steady : Steady R old new ⟨t,h,s⟩ := ⟨step,housed,trivial⟩
    refine Pair.callSafe (fun s => .moved ∉ s.log) steady
      (fun s t step _ still => stillByUpload step still) (by rw [log]; exact still) ?_
    intro s storageMoved t h held still answered
    obtain ⟨step,housed⟩ := storageRotates held still answered
    have steady : Steady R old new ⟨t,h,s⟩ := ⟨step,housed,trivial⟩
    exact calmLast steady (calmAnswer _)
  · exact ⟨before.steady,trivial⟩

theorem rotationRotates {disk : Fs} (names : R.Rotates body old new) :
    Rotations R body old new (fun _ _ => True) (R.handleAuthKeys 2)
      (Crew.Turn.start ⟨disk,none,[]⟩ False) := by
  have before : Before R old new (Crew.Turn.start ⟨disk,none,[]⟩ False) :=
    ⟨⟨sameStep _,nofun,trivial⟩,nofun⟩
  unfold handleAuthKeys
  refine safeThen (calmKeeps before (confinedHere _ (calmHere nofun))) ?_
  intro random _ _ before
  refine safeThen (calmKeeps before (calmFrame _)) ?_
  intro _ _ _ before
  rw [if_neg (by decide),if_pos rfl]
  refine safeThen (bodyRead before) ?_
  rintro _ _ _ ⟨rfl,before⟩
  rw [rotatesTo names]
  exact renamesRotate before

end

section
variable {S : Session} {headers : UploadHeader} {new : Bytes} {content : Bytes}

def Downloads (S : Session) (headers : UploadHeader) (new content : Bytes) (disk : Fs) : Prop :=
  ∀ sessionKey (h : Host), h.disk = disk → FileLock.Unlocked h.locks headers.fileId →
    ∃ arc nonce time sending, Duplex.Advances Host.handle
      ((S.connected sessionKey new).dispatch (.download ⟨headers.fileId,headers.fileKey⟩)) h []
      (Frame.frame S.cipher sessionKey nonce (1 :: DownloadResponse.serialize
        ⟨headers.fileName,headers.fileSize,headers.fileHash,time⟩))
      (do
        (S.connected sessionKey new).sendLoop freshEncBuf (fullReads readChunkSize content)
        closeDownload ⟨headers.fileId,headers.fileKey⟩ arc (UploadHeader.metadata S headers)) sending

def Survives (S : Session) (headers : UploadHeader) (new content : Bytes) (disk : Fs) : Prop :=
  Downloads S headers new content disk ∧ Gone S disk

theorem storedRetrieved {disk : Fs} {slot : Slot} (arrived : Arrived headers)
    (stored : Stored S disk slot (UploadHeader.metadata S headers) content) :
    retrieve S disk slot = .found (UploadHeader.metadata S headers) content := by
  have dir := stored.dir
  simp only [Fs.isDir,beq_iff_eq] at dir
  have read : MetadataFile.deserialize (UploadHeader.metadata S headers).serialize =
      some (UploadHeader.metadata S headers) := @entryRead S ⟨slot.clientKey,headers,content⟩ arrived
  unfold retrieve
  rw [if_pos ⟨by simp [dir],by simp [Fs.contentOf.mp stored.meta_]⟩]
  simp only [stored.meta_,Option.bind_some,read,stored.file]

theorem storedDownloads {disk : Fs} (accepted : headers.validate S.maxFileSize = .ok ())
    (arrived : Arrived headers) (announced : Announced S headers content)
    (stored : Stored S disk (target headers new) (UploadHeader.metadata S headers) content) :
    Downloads S headers new content disk := by
  rintro sessionKey h rfl unlocked
  have serves : Serves (S.connected sessionKey new) h ⟨headers.fileId,headers.fileKey⟩
      (.found (UploadHeader.metadata S headers) content) := by
    rw [← storedRetrieved arrived stored]
    exact downloadServes (S := S.connected sessionKey new) ⟨headers.fileId,headers.fileKey⟩ unlocked
  obtain ⟨cut,prefix8⟩ := hashCut S content
  rw [announced.2] at prefix8
  have small : ∀ time, (1 :: DownloadResponse.serialize
      ⟨headers.fileName,headers.fileSize,headers.fileHash,time⟩).length ≤ Frame.u32Max := by
    intro time
    have bound : nonceLen + (1 :: DownloadResponse.serialize
        ⟨headers.fileName,headers.fileSize,headers.fileHash,time⟩).length + tagLen ≤ Frame.u32Max :=
      (@entryAnnounced S [⟨new,headers,content⟩] (target headers new) ⟨new,headers,content⟩
      arrived List.mem_cons_self rfl time).1
    omega
  have started := serves ⟨cut,prefix8⟩ small
  simp only [dispatch,downloadValidated (validated accepted)]
  exact started

theorem savedSurvives {s : Ground} (accepted : headers.validate S.maxFileSize = .ok ())
    (arrived : Arrived headers) (announced : Announced S headers content)
    (saved : Saved S headers new content s) : Survives S headers new content s.disk ↔ Left S new s := by
  constructor
  · rintro ⟨-,gone⟩
    by_contra stays
    have stored := saved.home stays
    have missing := gone _ (slotInStorage (source S headers))
    have dir := stored.dir
    simp [Fs.isDir,missing] at dir
  · intro left
    obtain ⟨gone,stored⟩ := saved.away left
    exact ⟨storedDownloads accepted arrived announced stored,gone⟩

theorem runSaved {body : Bytes} {disk : Fs}
    {last : Pair (Port HostSig) Unit Unit Ground Account Prop} {key client : Bytes}
    (rotates : S.Rotates body S.clientKey new)
    (ran : Pair.Run (uploading S headers) (rotating (S.connected key client) body)
      ⟨⟨disk,none,[]⟩,⟨S.handleUpload headers,⟨[],False⟩⟩,
        ⟨(S.connected key client).handleAuthKeys 2,False⟩⟩ last)
    (succeeded : last.left.notes.succeeded) : Announced S headers last.left.notes.received ∧
      Saved S headers new last.left.notes.received last.shared := by
  obtain ⟨held,uploader,-⟩ := Pair.runKeeps (rely S S.clientKey new) ran nofun
    (safeWeaken uploadUploads fun _ _ _ _ => trivial)
    (safeWeaken (rotationRotates (R := S.connected key client) rotates) fun _ _ _ _ => trivial)
  exact Pair.standsPoint pointStable held uploader succeeded

end

/- An upload that nobody disturbs, step by step. -/
section
variable {S : Session} {headers : UploadHeader} {content : Bytes} {h : Host} {log : List Mark}
  {handle : Option Path} {g : Account}

def Fills (path : Path) (c : (Port HostSig).Call) : Prop :=
  (∃ b, c = .here (.fs (.append path b))) ∨ ∃ n, c = .recv n

theorem partReached {α : Type} {path : Path} {p q : Party α} {s t : Host} {input output : Bytes}
    (advanced : Duplex.Advances Host.handle p s input output q t) (fills : Confined (Fills path) p)
    (g : Account) : ∃ told, Reaches (uploading S headers) p (⟨s.disk,some path,log⟩,g) q
      (⟨t.disk,some path,log⟩,{g with received := told}) := by
  induction advanced generalizing g with
  | rest p s => exact ⟨_,.here _ _⟩
  | @here c next s input output q last later ih =>
    obtain ⟨told,reached⟩ := ih (fills.2 _) g
    rcases fills.1 with ⟨b,same⟩ | ⟨n,same⟩
    · cases same
      exact ⟨told,.answer ⟨.inl ⟨rfl,rfl⟩,rfl,rfl,rfl⟩ reached⟩
    · contradiction
  | send later ih =>
    rcases fills.1 with ⟨b,same⟩ | ⟨n,same⟩ <;> contradiction
  | @recv n next s input output q last b size later ih =>
    obtain ⟨told,reached⟩ := ih (fills.2 _) (g.hears (@S.heard n (.ok ⟨b,size⟩)))
    exact ⟨told,.answer ⟨rfl,rfl⟩ reached⟩

theorem frameTold {data : Bytes} {s : Ground} (small : data.length ≤ Frame.u32Max) (nonce : Nonce) :
    Reaches (uploading S headers) (S.writeEncryptFrameInto data) (s,g) (.done (.ok ()))
      (s,g.sends (Success S headers (Frame.frame S.cipher S.sessionKey nonce data))) := by
  have drawn : uploading S headers (s,g) (.here (.draw nonceLen)) nonce (s,g) := ⟨rfl,rfl⟩
  have sent : uploading S headers (s,g) (.send (Frame.frame S.cipher S.sessionKey nonce data)) (.ok ())
      (s,g.sends (Success S headers (Frame.frame S.cipher S.sessionKey nonce data))) := ⟨rfl,rfl⟩
  exact frameReached small nonce drawn sent

theorem dirsAlone {disk made : Fs} {p : Path} (clear : disk.createDirAll p = (true,made)) :
    Reaches (uploading S headers) (createDirAll p) (⟨disk,handle,log⟩,g) (.done (.ok ()))
      (⟨made,handle,log ++ [.made]⟩,g) := by
  have answered : uploading S headers (⟨disk,handle,log⟩,g) (.here (.fs (.createDirAll p))) true
      (⟨made,handle,log ++ [.made]⟩,g) := by
    refine ⟨.inl ?_,rfl,rfl,rfl⟩
    rw [Fs.exec,clear]
    exact ⟨rfl,rfl⟩
  exact fsReached answered rfl

theorem createsAlone {disk : Fs} {p : Path} (parent : disk.isDir p.dropLast = true)
    (free : disk.isDir p = false) :
    Reaches (uploading S headers) (create p) (⟨disk,handle,log⟩,g) (.done (.ok ()))
      (⟨disk.put p (.file []),some p,log⟩,g) := by
  have created : disk.create p = (true,disk.put p (.file [])) := if_pos ⟨parent,Bool.eq_false_iff.mp free⟩
  have answered : uploading S headers (⟨disk,handle,log⟩,g) (.here (.fs (.create p))) true
      (⟨disk.put p (.file []),some p,log⟩,g) := by
    refine ⟨.inl ?_,rfl,rfl,rfl⟩
    rw [Fs.exec,created]
    exact ⟨rfl,rfl⟩
  exact fsReached answered rfl

theorem savesAlone {disk : Fs} {p : Path} (b : Bytes) (parent : disk.isDir p.dropLast = true)
    (free : disk.isDir p = false) :
    Reaches (uploading S headers) (write p b) (⟨disk,handle,log⟩,g) (.done (.ok ()))
      (⟨disk.put p (.file b),handle,log⟩,g) := by
  have answered : uploading S headers (⟨disk,handle,log⟩,g) (.here (.fs (.write p b))) true
      (⟨disk.put p (.file b),handle,log⟩,g) := by
    refine ⟨.inl ?_,rfl,rfl,rfl⟩
    simp only [Fs.exec,Fs.write,parent,free]
    exact ⟨rfl,rfl⟩
  exact fsReached answered rfl

theorem finishAlone {arc : FileLock.Arc} {networkElapsed : F32} {found : Received} {written : Bytes}
    (hash : S.sha256Hex found.hashed = headers.fileHash)
    (dir : h.disk.isDir (S.userDirPath (source S headers)) = true)
    (file : h.disk.content (S.filePath (source S headers)) = some written)
    (free : h.disk.isDir (S.metaPath (source S headers)) = false)
    (small : (UploadResponse.serialize
      ⟨headers.fileId,headers.fileHash,networkElapsed⟩).length < Frame.u32Max) (nonce : Nonce) :
    ∃ disk h', h'.succeeded ∧
      (∀ q, q ≠ S.filePath (source S headers) → q ≠ S.metaPath (source S headers) →
        disk.get q = h.disk.get q) ∧
      Reaches (uploading S headers) (S.finishUpload headers arc networkElapsed found)
        (⟨h.disk,some (S.filePath (source S headers)),log⟩,g) (.done (.ok ()))
        (⟨disk,some (S.filePath (source S headers)),log⟩,h') := by
  obtain ⟨flushed,wrote,advanced⟩ := bufFlushed (h := h) found.pending (fileInner S _) file
  obtain ⟨told,flushes⟩ := @partReached S headers log _ _ _ _ _ _ _ _ advanced
    (bufFlushConfined (fun b => .inl ⟨b,rfl⟩) _) g
  have tagged : (1 :: UploadResponse.serialize
      ⟨headers.fileId,headers.fileHash,networkElapsed⟩).length ≤ Frame.u32Max := small
  obtain ⟨-,parent,freeKept⟩ := metaRoom wrote dir free
  let metadata := (UploadHeader.metadata S headers).serialize
  let after : Fs := flushed.put (S.metaPath (source S headers)) (.file metadata)
  have success : Success S headers (Frame.frame S.cipher S.sessionKey nonce
      (1 :: UploadResponse.serialize ⟨headers.fileId,headers.fileHash,networkElapsed⟩)) :=
    ⟨nonce,networkElapsed,rfl⟩
  let answered := ({g with received := told} : Account).sends (Success S headers (Frame.frame S.cipher
    S.sessionKey nonce (1 :: UploadResponse.serialize ⟨headers.fileId,headers.fileHash,networkElapsed⟩)))
  have closed : uploading S headers (⟨after,some (S.filePath (source S headers)),log⟩,answered)
      (.here .shutdown) (.ok ()) (⟨after,some (S.filePath (source S headers)),log⟩,answered) := ⟨rfl,rfl⟩
  refine ⟨after,answered,.inr success,?_,?_⟩
  · intro q besideFile besideMeta
    rw [Fs.getPutOther _ besideMeta,wrote.beside q besideFile]
  · unfold finishUpload
    refine reachesThen flushes ?_
    simp only [hash,ne_eq,not_true_eq_false,if_false]
    refine reachesThen (savesAlone metadata parent freeKept) ?_
    refine reachesThen (reachesThen (frameTold tagged nonce) (shutdownReached closed)) ?_
    exact .answer (r := ()) ⟨rfl,rfl⟩ (.answer (r := ()) ⟨rfl,rfl⟩
      (.answer (r := ()) ⟨rfl,rfl⟩ (.here _ _)))

theorem uploadAlone (ready : SlotReady S h.disk (source S headers))
    (size : headers.fileSize.toNat = content.length) (hash : S.sha256Hex content = headers.fileHash)
    (even : readChunkSize ∣ content.length) (short : headers.fileId.utf8ByteSize ≤ 256) (nonce : Nonce)
    (networkElapsed : F32) :
    ∃ disk h', h'.succeeded ∧
      (∀ q, q ≠ S.filePath (source S headers) → q ≠ S.metaPath (source S headers) →
        disk.get q = (h.disk.makeDirs (S.userDirPath (source S headers)).inits).get q) ∧
      Reaches (uploading S headers) (S.handleUpload headers) (⟨h.disk,handle,log⟩,g) (.done (.ok ()))
        (⟨disk,some (S.filePath (source S headers)),log ++ [.made]⟩,h') := by
  obtain ⟨cut,prefix8⟩ := hashCut S content
  rw [hash] at prefix8
  have small : (UploadResponse.serialize
      ⟨headers.fileId,headers.fileHash,networkElapsed⟩).length < Frame.u32Max := responseSmall hash short
  obtain ⟨opened,parent,free⟩ := slotOpened ready
  let made := h.disk.makeDirs (S.userDirPath (source S headers)).inits
  let begun : Fs := made.put (S.filePath (source S headers)) (.file [])
  obtain ⟨boxes,drawn,sealed_,-⟩ := chunksSent (S := S) (h := h) (evenFits even)
  have total : headers.fileSize.toNat = 0 + content.length := by omega
  obtain ⟨disk,after,written,wrote,-,received⟩ := chunksReceived (h := {h with disk := begun})
    "Upload timed out reading chunk" freshDecBuf [] [] (fileInner S _) opened.file total
    (by simp [freshDecBuf]) sealed_
  let acked := g.sends (Success S headers (Frame.frame S.cipher S.sessionKey nonce [1]))
  obtain ⟨told,receives⟩ := @partReached S headers (log ++ [.made]) _ _ _ _ _ _ _ _ received
    (receiveConfined (fun b => .inl ⟨b,rfl⟩) (fun n => .inr ⟨n,rfl⟩) _) acked
  obtain ⟨dir,vacant⟩ := openedKept opened wrote
  obtain ⟨last,h',success,beside,finished⟩ := @finishAlone S headers {h with disk := disk}
    (log ++ [.made]) {acked with received := told} 0 networkElapsed ⟨[] ++ content,after⟩ written hash dir
    wrote.here vacant small nonce
  refine ⟨last,h',success,?_,?_⟩
  · intro q besideFile besideMeta
    rw [beside q besideFile besideMeta,wrote.beside q besideFile,Fs.getPutOther _ besideFile]
  · have held : uploading S headers (⟨h.disk,handle,log⟩,g) (.here (.holdFileLock headers.fileId)) 0
        (⟨h.disk,handle,log⟩,g) := ⟨rfl,rfl⟩
    have locked : uploading S headers (⟨h.disk,handle,log⟩,g) (.here (.tryLock .upload 0)) true
        (⟨h.disk,handle,log⟩,g) := ⟨rfl,rfl⟩
    have timed : uploading S headers (⟨made,handle,log ++ [.made]⟩,acked) (.here .elapsed) networkElapsed
        (⟨made,handle,log ++ [.made]⟩,acked) := ⟨rfl,rfl⟩
    have through := uploadThrough prefix8 (hereReached held) (hereReached locked)
      (dirsAlone (Fs.createDirAllClear ready.clear)) (frameTold (by decide) nonce) (hereReached timed)
      (createsAlone parent free)
    exact reachesTrans through (reachesThen receives finished)

end

/- A rotation that nobody disturbs. -/
section
variable {R : Session} {body old new : Bytes} {s : Ground} {g : Prop}

theorem frameRotates {data : Bytes} (small : data.length ≤ Frame.u32Max) (nonce : Nonce) :
    Reaches (rotating R body) (R.writeEncryptFrameInto data) (s,g) (.done (.ok ()))
      (s,g ∨ R.Acks (Frame.frame R.cipher R.sessionKey nonce data)) := by
  have drawn : rotating R body (s,g) (.here (.draw nonceLen)) nonce (s,g) := ⟨rfl,rfl⟩
  have sent : rotating R body (s,g) (.send (Frame.frame R.cipher R.sessionKey nonce data)) (.ok ())
      (s,g ∨ R.Acks (Frame.frame R.cipher R.sessionKey nonce data)) := ⟨rfl,rfl⟩
  exact frameReached small nonce drawn sent

theorem renamesAlone (there : s.disk.get (R.storagePath old) ≠ none) (nonce : Nonce) (issued : Prop) :
    let keys := s.disk.rename (R.authPath old) (R.authPath new)
    let files := keys.2.rename (R.storagePath old) (R.storagePath new)
    keys.1 = true → files.1 = true → ∃ handle,
      Reaches (rotating R body) (R.renameKeyDirs old new) (s,issued) (.done (.ok ()))
        (⟨files.2,handle,s.log ++ [.moved]⟩,
          issued ∨ R.Acks (Frame.frame R.cipher R.sessionKey nonce [1])) := by
  intro keys files keysMoved filesMoved
  obtain ⟨node,found⟩ := Option.ne_none_iff_exists'.mp there
  let first : Ground := ⟨keys.2,s.handle.map (carried (R.authPath old) (R.authPath new)),s.log⟩
  let last : Ground := ⟨files.2,first.handle.map (carried (R.storagePath old) (R.storagePath new)),
    s.log ++ [.moved]⟩
  have looked : rotating R body (s,issued) (.here (.fs (.exists_ (R.storagePath old)))) true (s,issued) := by
    refine ⟨.inl ⟨?_,rfl⟩,rfl,rfl,rfl⟩
    rw [Fs.exec,found]
    rfl
  have authMoved : rotating R body (s,issued)
      (.here (.fs (.rename (R.authPath old) (R.authPath new)))) true (first,issued) := by
    refine ⟨.inl ⟨keysMoved.symm,rfl⟩,rfl,?_,rfl⟩
    rw [if_neg fun both => storageOutside old both.2]
  have storageMoved : rotating R body (first,issued)
      (.here (.fs (.rename (R.storagePath old) (R.storagePath new)))) true (last,issued) := by
    refine ⟨.inl ⟨filesMoved.symm,rfl⟩,rfl,?_,rfl⟩
    rw [if_pos ⟨rfl,List.prefix_append _ _⟩]
  refine ⟨last.handle,?_⟩
  unfold renameKeyDirs
  have answers : Reaches (rotating R body) (R.writeEncryptFrameInto [1]) (last,issued) (.done (.ok ()))
    (last,issued ∨ R.Acks (Frame.frame R.cipher R.sessionKey nonce [1])) := frameRotates (by decide) nonce
  exact .answer looked (.answer authMoved (.answer storageMoved answers))

theorem rotationAlone (names : R.Rotates body old new)
    (small : nonceLen + body.length + tagLen ≤ Frame.maxFrameLength) (nonce : Nonce)
    (random : {b : Bytes // b.length = 64}) (there : s.disk.get (R.storagePath old) ≠ none) :
    let keys := s.disk.rename (R.authPath old) (R.authPath new)
    let files := keys.2.rename (R.storagePath old) (R.storagePath new)
    keys.1 = true → files.1 = true → ∃ handle acked, acked ∧
      Reaches (rotating R body) (R.handleAuthKeys 2) (s,g) (.done (.ok ()))
        (⟨files.2,handle,s.log ++ [.moved]⟩,acked) := by
  intro keys files keysMoved filesMoved
  let issued : Prop := g ∨ R.Acks (Frame.frame R.cipher R.sessionKey nonce (R.hashes.sha512 random.val))
  let acked : Prop := issued ∨ R.Acks (Frame.frame R.cipher R.sessionKey nonce [1])
  obtain ⟨handle,renamed⟩ := @renamesAlone R body old new s there nonce issued keysMoved filesMoved
  have drawn : rotating R body (s,g) (.here (.draw 64)) random (s,g) := ⟨rfl,rfl⟩
  have length : rotating R body (s,issued) (.recv 4)
      (.ok ⟨Frame.be32 (nonceLen + body.length + tagLen),rfl⟩) (s,issued) := by
    refine ⟨fun data opened => ?_,rfl,rfl⟩
    have size := R.cipher.openedLength opened
    rw [Frame.be32Length] at size
    unfold nonceLen at size
    omega
  have boxed : rotating R body (s,issued) (.recv (nonceLen + body.length + tagLen))
      (.ok ⟨R.cipher.sealed R.sessionKey nonce body,R.cipher.sealedLength R.sessionKey nonce body⟩)
      (s,issued) := by
    refine ⟨fun data opened => ?_,rfl,rfl⟩
    exact Option.some.inj (opened.symm.trans (R.cipher.openedSealed R.sessionKey nonce body))
  refine ⟨handle,acked,.inr ⟨nonce,rfl⟩,?_⟩
  unfold handleAuthKeys
  refine reachesThen (hereReached drawn) ?_
  refine reachesThen (frameRotates (by rw [R.hashes.sha512Length]; decide) nonce) ?_
  rw [if_neg (by decide),if_pos rfl]
  refine reachesThen (bodyReached nonce small length boxed) ?_
  rw [rotatesTo names]
  exact renamed

end

/- An acknowledged upload comes back under the new key, exactly when storage moved after
the upload had made its directory. -/
theorem survivesExactly (S : Session) {headers : UploadHeader} {new key client body : Bytes} {disk : Fs}
    {last : Pair (Port HostSig) Unit Unit Ground Account Prop}
    (accepted : headers.validate S.maxFileSize = .ok ()) (arrived : Arrived headers)
    (rotates : S.Rotates body S.clientKey new)
    (ran : Pair.Run (uploading S headers) (rotating (S.connected key client) body)
      ⟨⟨disk,none,[]⟩,⟨S.handleUpload headers,⟨[],False⟩⟩,
        ⟨(S.connected key client).handleAuthKeys 2,False⟩⟩ last)
    (succeeded : last.left.notes.succeeded) :
    Survives S headers new last.left.notes.received last.shared.disk ↔ Left S new last.shared := by
  obtain ⟨announced,saved⟩ := runSaved rotates ran succeeded
  exact savedSurvives accepted arrived announced saved

open Whitelist RoundTrip AuthTrees

def halls : Fs :=
  ⟨[(sampleServer.storagePath oldKey,.dir),(sampleServer.authPath oldKey,.dir),
    (sampleServer.getStorageDir,.dir),(sampleServer.getAuthorizedClientDir,.dir),
    (["home",".rdrive"],.dir),(["home"],.dir)]⟩

def rotator : Session := sampleServer.connected (List.replicate 32 6) oldKey

def sampleHeaders (content : Bytes) : UploadHeader :=
  sentHeader sampleServer "4a43afa64e9342fc8320e63a43eb193b" "dummy.bin" "ronak" content

def sampleSlot : Slot := ⟨oldKey,"ronak","4a43afa64e9342fc8320e63a43eb193b"⟩

theorem sampleReady (disk : Fs) (clear : ∀ q ∈ (sampleServer.userDirPath sampleSlot).inits,
      disk.get q = none ∨ disk.isDir q = true)
    (file : disk.isDir (sampleServer.filePath sampleSlot) = false)
    (meta_ : disk.isDir (sampleServer.metaPath sampleSlot) = false) :
    SlotReady sampleServer disk sampleSlot :=
  ⟨fun q above => clear q ((List.mem_inits q _).mpr above),file,meta_⟩

theorem sampleArrived (content : Bytes) : Arrived (sampleHeaders content) := by
  unfold Arrived sampleHeaders sentHeader
  simp only [Postcard.utf8Length,hexLength]
  decide

theorem sampleUploads {disk : Fs} {content : Bytes} (handle : Option Path) (log : List Mark)
    (kept : content.length.toUInt64.toNat = content.length) (even : readChunkSize ∣ content.length)
    (ready : SlotReady sampleServer disk sampleSlot) :
    ∃ after h', h'.succeeded ∧
      (∀ q, q ≠ sampleServer.filePath sampleSlot → q ≠ sampleServer.metaPath sampleSlot →
        after.get q = (disk.makeDirs (sampleServer.userDirPath sampleSlot).inits).get q) ∧
      Reaches (uploading sampleServer (sampleHeaders content))
        (sampleServer.handleUpload (sampleHeaders content)) (⟨disk,handle,log⟩,⟨[],False⟩)
        (.done (.ok ())) (⟨after,some (sampleServer.filePath sampleSlot),log ++ [.made]⟩,h') := by
  have short : (sampleHeaders content).fileId.utf8ByteSize ≤ 256 := by
    change "4a43afa64e9342fc8320e63a43eb193b".utf8ByteSize ≤ 256
    decide
  exact @uploadAlone sampleServer (sampleHeaders content) content (sampleHost disk) log handle ⟨[],False⟩
    ready kept rfl even short ⟨List.replicate nonceLen 0,List.length_replicate⟩ ⟨[0,0,0,0],rfl⟩

theorem sampleRotates (disk : Fs) (handle : Option Path) (log : List Mark)
    (there : disk.get (rotator.storagePath oldKey) ≠ none) :
    let keys := disk.rename (rotator.authPath oldKey) (rotator.authPath newKey)
    let files := keys.2.rename (rotator.storagePath oldKey) (rotator.storagePath newKey)
    keys.1 = true → files.1 = true → ∃ handle' acked, acked ∧
      Reaches (rotating rotator Replay.sampleBody) (rotator.handleAuthKeys 2) (⟨disk,handle,log⟩,False)
        (.done (.ok ())) (⟨files.2,handle',log ++ [.moved]⟩,acked) :=
  rotationAlone (s := ⟨disk,handle,log⟩) sampleRotation (by decide +kernel)
    ⟨List.replicate nonceLen 0,List.length_replicate⟩ ⟨List.replicate 64 0,rfl⟩ there

theorem mebibyte : 1024 * 1024 ≤ (List.replicate 1048576 (0 : UInt8)).length.toUInt64 ∧
    (List.replicate 1048576 (0 : UInt8)).length.toUInt64.toNat =
      (List.replicate 1048576 (0 : UInt8)).length ∧
    readChunkSize ∣ (List.replicate 1048576 (0 : UInt8)).length := by
  rw [List.length_replicate]
  decide

abbrev Samples (content : Bytes) :=
  Pair.Run (uploading sampleServer (sampleHeaders content)) (rotating rotator Replay.sampleBody)
    ⟨⟨halls,none,[]⟩,⟨sampleServer.handleUpload (sampleHeaders content),⟨[],False⟩⟩,
      ⟨rotator.handleAuthKeys 2,False⟩⟩

def moved : Fs := ((halls.rename (rotator.authPath oldKey) (rotator.authPath newKey)).2.rename
  (rotator.storagePath oldKey) (rotator.storagePath newKey)).2

theorem sampleStrands {content : Bytes} (kept : content.length.toUInt64.toNat = content.length)
    (even : readChunkSize ∣ content.length) : ∃ ground told acked, told.succeeded ∧ acked ∧
      ground.log = [.moved,.made] ∧
      Samples content ⟨ground,⟨.done (.ok ()),told⟩,⟨.done (.ok ()),acked⟩⟩ := by
  obtain ⟨handle,acked,done_,rotated⟩ := sampleRotates halls none [] (by decide +kernel)
    (by decide +kernel) (by decide +kernel)
  obtain ⟨after,told,succeeded,-,uploaded⟩ := sampleUploads handle [.moved] kept even
    (sampleReady moved (by decide +kernel) (by decide +kernel) (by decide +kernel))
  have first : Samples content
      ⟨⟨moved,handle,[.moved]⟩,⟨sampleServer.handleUpload (sampleHeaders content),⟨[],False⟩⟩,
        ⟨.done (.ok ()),acked⟩⟩ := Pair.rightRuns rotated
  have second := @Pair.leftRuns _ _ Unit _ _ _ (uploading sampleServer (sampleHeaders content))
    (rotating rotator Replay.sampleBody) _ _ ⟨.done (.ok ()),acked⟩ _ _ uploaded
  exact ⟨_,told,acked,succeeded,done_,rfl,first.trans second⟩

theorem rotatedFirstStrands : ¬ ∀ (S : Session) (headers : UploadHeader) (new key client body : Bytes)
    (disk : Fs) (last : Pair (Port HostSig) Unit Unit Ground Account Prop),
    headers.validate S.maxFileSize = .ok () → Arrived headers → S.Rotates body S.clientKey new →
    Pair.Run (uploading S headers) (rotating (S.connected key client) body)
      ⟨⟨disk,none,[]⟩,⟨S.handleUpload headers,⟨[],False⟩⟩,
        ⟨(S.connected key client).handleAuthKeys 2,False⟩⟩ last →
    last.left.program = .done (.ok ()) → last.right.program = .done (.ok ()) →
    last.left.notes.succeeded → last.right.notes →
    Survives S headers new last.left.notes.received last.shared.disk := by
  intro always
  obtain ⟨large,kept,even⟩ := mebibyte
  obtain ⟨ground,told,acked,succeeded,done_,log,ran⟩ := sampleStrands kept even
  have accepted := sampleAccepted sampleServer rfl _ large (Nat.le_of_eq List.length_replicate |>.trans
    (by decide))
  have survives := always sampleServer _ newKey _ _ _ _ _ accepted (sampleArrived _) sampleRotation ran rfl
    rfl succeeded done_
  obtain ⟨announced,saved⟩ := runSaved (S := sampleServer) sampleRotation ran succeeded
  have left := (savedSurvives accepted (sampleArrived _) announced saved).mp survives
  exact absurd (log.symm.trans left.1) (by decide)

theorem sampleTakesAlong {content : Bytes} (kept : content.length.toUInt64.toNat = content.length)
    (even : readChunkSize ∣ content.length) : ∃ ground told acked, told.succeeded ∧ acked ∧
      ground.log = [.made,.moved] ∧
      Samples content ⟨ground,⟨.done (.ok ()),told⟩,⟨.done (.ok ()),acked⟩⟩ := by
  obtain ⟨after,told,succeeded,beside,uploaded⟩ := @sampleUploads halls content none [] kept even
    (sampleReady halls (by decide +kernel) (by decide +kernel) (by decide +kernel))
  have auth : after.isDir (rotator.authPath newKey).dropLast = true := by
    unfold Fs.isDir
    rw [beside _ (by decide +kernel) (by decide +kernel)]
    decide +kernel
  have storage : after.isDir (rotator.storagePath newKey).dropLast = true := by
    unfold Fs.isDir
    rw [beside _ (by decide +kernel) (by decide +kernel)]
    decide +kernel
  have oldAuth : after.get (rotator.authPath oldKey) ≠ none := by
    rw [beside _ (by decide +kernel) (by decide +kernel)]
    decide +kernel
  have oldStorage : after.get (rotator.storagePath oldKey) ≠ none := by
    rw [beside _ (by decide +kernel) (by decide +kernel)]
    decide +kernel
  have newAuth : after.get (rotator.authPath newKey) = none := by
    rw [beside _ (by decide +kernel) (by decide +kernel)]
    decide +kernel
  have newStorage : after.get (rotator.storagePath newKey) = none := by
    rw [beside _ (by decide +kernel) (by decide +kernel)]
    decide +kernel
  have still : ∀ q, rotator.getStorageDir <+: q →
      (after.rename (rotator.authPath oldKey) (rotator.authPath newKey)).2.get q = after.get q :=
    fun q inside => Fs.renameBeside after (authInner oldKey) (authInner newKey) (authDepth oldKey newKey)
      (authOutside oldKey inside) (authOutside newKey inside)
  have keysMoved := Fs.renameFree auth (by decide +kernel) oldAuth newAuth
  have root := still (rotator.storagePath newKey).dropLast (by decide +kernel)
  have source_ := still (rotator.storagePath oldKey) (List.prefix_append _ _)
  have target_ := still (rotator.storagePath newKey) (List.prefix_append _ _)
  have filesMoved := Fs.renameFree (by unfold Fs.isDir at storage ⊢; rwa [root]) (by decide +kernel)
    (source_ ▸ oldStorage) (target_.trans newStorage)
  obtain ⟨handle,acked,done_,rotated⟩ := sampleRotates after (some (sampleServer.filePath sampleSlot))
    [.made] oldStorage (congrArg Prod.fst keysMoved) (congrArg Prod.fst filesMoved)
  have first := @Pair.leftRuns _ _ Unit _ _ _ (uploading sampleServer (sampleHeaders content))
    (rotating rotator Replay.sampleBody) _ _ ⟨rotator.handleAuthKeys 2,False⟩ _ _ uploaded
  have second := @Pair.rightRuns _ Unit _ _ _ _ (uploading sampleServer (sampleHeaders content))
    (rotating rotator Replay.sampleBody) _ _ ⟨.done (.ok ()),told⟩ _ _ rotated
  exact ⟨_,told,acked,succeeded,done_,rfl,first.trans second⟩

theorem uploadedFirstSurvives : ∃ ground told acked,
    Samples (List.replicate 1048576 0) ⟨ground,⟨.done (.ok ()),told⟩,⟨.done (.ok ()),acked⟩⟩ ∧
      told.succeeded ∧ acked ∧
      Survives sampleServer (sampleHeaders (List.replicate 1048576 0)) newKey told.received ground.disk := by
  obtain ⟨large,kept,even⟩ := mebibyte
  obtain ⟨ground,told,acked,succeeded,done_,log,ran⟩ := sampleTakesAlong kept even
  have accepted := sampleAccepted sampleServer rfl _ large (Nat.le_of_eq List.length_replicate |>.trans
    (by decide))
  have left : Left sampleServer newKey ground := ⟨log,by decide +kernel⟩
  exact ⟨ground,told,acked,ran,succeeded,done_,
    (survivesExactly sampleServer accepted (sampleArrived _) sampleRotation ran succeeded).mpr left⟩

end Relocation
end RDrive
