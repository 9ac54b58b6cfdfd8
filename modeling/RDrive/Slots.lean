import RDrive.Rotation
import RDrive.Serving

/-! Where a slot lies, whatever strings name it, and what an upload of it may do to the
slots beside it, however it ends. -/
namespace RDrive
open Crypto Header Party Bytes Program

def Fs.Op.paths : Fs.Op → List Path
  | .createDirAll p => [p]
  | .exists_ p => [p]
  | .isDir p => [p]
  | .create p => [p]
  | .append p _ => [p]
  | .remove p => [p]
  | .write p _ => [p]
  | .read p => [p]
  | .size p => [p]
  | .countDirs p => [p]
  | .rename old new => [old,new]

/- What a call may leave of the disk, whether it works or fails: it makes any of the
directories it is asked for that are missing, or does anything at all at its path. -/
def Leaves (disk : Fs) : Fs.Op → Fs → Prop
  | .createDirAll p, after => ∀ q, after.get q = disk.get q ∨
      disk.get q = none ∧ after.get q = some .dir ∧ q <+: p
  | .rename _ _, _ => True
  | op, after => ∀ q, q ∉ op.paths → after.get q = disk.get q

/- Any call may fail, and all are answered anything. -/
def rough : Env (Port HostSig) Fs := fun disk c _ after =>
  match c with
  | .here (.fs op) => Leaves disk op after
  | _ => after = disk

theorem execLeaves (disk : Fs) (op : Fs.Op) : Leaves disk op (disk.exec op).2 := by
  cases op with
  | createDirAll p => exact Fs.createDirAllEffect disk p
  | create p => exact fun q other => Fs.createElsewhere (by simpa [Fs.Op.paths] using other)
  | append p b => exact fun q other => Fs.appendElsewhere (by simpa [Fs.Op.paths] using other)
  | remove p => exact fun q other => Fs.removeElsewhere (by simpa [Fs.Op.paths] using other)
  | write p b => exact fun q other => Fs.writeElsewhere (by simpa [Fs.Op.paths] using other)
  | rename old new => trivial
  | _ => exact fun q _ => rfl

theorem answersLeaves {disk after : Fs} {op : Fs.Op} {answer : op.Ret}
    (answered : Answers disk op answer after) : Leaves disk op after := by
  rcases answered with ⟨-,rfl⟩ | torn
  · exact execLeaves disk op
  · cases op with
    | append p b =>
      cases answer with
      | true => exact torn.2.elim
      | false =>
        obtain ⟨k,rfl⟩ := torn.2
        exact execLeaves disk (.append p (b.take k))
    | _ => exact torn.1.elim

namespace Session
variable {S : Session} {slot a b : Slot} {before after : Fs}

def Own (S : Session) (slot : Slot) (p : Path) : Prop :=
  p = S.userDirPath slot ∨ p = S.filePath slot ∨ p = S.metaPath slot

def Keeps (S : Session) (slot : Slot) : (Port HostSig).Call → Prop
  | .here (.fs op) => ∀ p ∈ op.paths, S.Own slot p
  | .here (.reads p _) => S.Own slot p
  | .here .readServerMap => False
  | .here (.writeServerMap _) => False
  | _ => True

theorem uploadOwn (headers : UploadHeader) :
    Confined (S.Keeps (UploadHeader.slot S headers)) (S.handleUpload headers) := by
  refine uploadConfined fun c touches direct => ?_
  cases c with
  | here c =>
    cases c with
    | fs op =>
      cases op with
      | createDirAll p => simpa [Keeps,Fs.Op.paths] using .inl touches
      | create p => simpa [Keeps,Fs.Op.paths] using .inr (.inl touches)
      | append p b => simpa [Keeps,Fs.Op.paths] using .inr (.inl touches)
      | remove p => simpa [Keeps,Fs.Op.paths] using .inr (.inl touches)
      | write p b => simpa [Keeps,Fs.Op.paths] using .inr (.inr touches)
      | _ => exact touches.elim
    | _ => first | exact direct.elim | trivial
  | _ => trivial

theorem downloadOwn (headers : DownloadHeader) :
    Confined (S.Keeps ⟨S.clientKey,headers.fileKey,headers.fileId⟩) (S.handleDownload headers) := by
  refine downloadConfined ?_ headers ?_ ?_ fun _ => .inr (.inl rfl)
  · intro c blind
    cases c with
    | here c => cases c <;> first | exact blind.elim | trivial
    | _ => trivial
  · intro p own
    simp only [Keeps,Fs.Op.paths,List.mem_singleton,forall_eq]
    exact own.imp_right .inr
  · simp only [Keeps,Fs.Op.paths,List.mem_singleton,forall_eq]
    exact .inr (.inr rfl)

structure Placed (S : Session) (slot : Slot) : Prop where
  client : Path.join S.getStorageDir (S.sha512Hex slot.clientKey) = some (S.storagePath slot.clientKey)
  dir : Path.join (S.storagePath slot.clientKey) (S.sha256Hex (Postcard.utf8 slot.fileKey)) =
    some (S.userDirPath slot)
  file : Path.join (S.userDirPath slot) (S.sha256Hex (Postcard.utf8 slot.fileId) ++ ".file") =
    some (S.filePath slot)
  meta_ : Path.join (S.userDirPath slot) (S.sha256Hex (Postcard.utf8 slot.fileId) ++ ".meta") =
    some (S.metaPath slot)
  below : ∀ p, S.Own slot p → S.getStorageDir <+: p ∧ p ≠ S.getStorageDir

theorem hexPlain {b : Bytes} {suffix : String} (some_ : b ≠ [])
    (clear : ∀ c ∈ suffix.toList, c ≠ '/' ∧ c ≠ '\x00') : Path.Plain (Hex.encode b ++ suffix) := by
  obtain ⟨c,member⟩ := Hex.encodeSome some_
  apply Path.plainOf
  · rw [String.toList_append,List.mem_append]
    rintro (inside | inside)
    · exact Hex.encodeOther inside (by simp)
    · exact (clear _ inside).1 rfl
  · rw [String.toList_append,List.mem_append]
    rintro (inside | inside)
    · exact Hex.encodeOther inside (by simp)
    · exact (clear _ inside).2 rfl
  · have other := Hex.encodeOther member
    rw [String.toList_append]
    exact Path.namesOf (List.mem_append_left _ member) fun dot => other (by simp [dot])

theorem hashPlain {b : Bytes} (some_ : b ≠ []) : Path.Plain (Hex.encode b) := by
  have plain := @hexPlain b "" some_ (by simp)
  rwa [String.append_empty] at plain

theorem slotPlaced (S : Session) (slot : Slot) : S.Placed slot := by
  have wide : S.hashes.sha512 slot.clientKey ≠ [] :=
    List.ne_nil_of_length_pos (by rw [S.hashes.sha512Length]; decide)
  have some_ : ∀ b, S.hashes.sha256 b ≠ [] :=
    fun b => List.ne_nil_of_length_pos (by rw [S.hashes.sha256Length]; decide)
  have dir : Path.join (S.storagePath slot.clientKey) (S.sha256Hex (Postcard.utf8 slot.fileKey)) =
      some (S.userDirPath slot) := by
    have joined := @Path.joinPlain (S.storagePath slot.clientKey) _
      (hashPlain (some_ (Postcard.utf8 slot.fileKey)))
    rw [sha256Hex,joined]
    simp [storagePath,userDirPath,sha256Hex]
  refine ⟨Path.joinPlain (hashPlain wide),dir,?_,?_,?_⟩
  · exact Path.joinPlain (hexPlain (some_ _) (by simp))
  · exact Path.joinPlain (hexPlain (some_ _) (by simp))
  · rintro p (rfl | rfl | rfl)
    all_goals simp [userDirPath,filePath,metaPath]

structure Uncollided (S : Session) (a b : Slot) : Prop where
  clientKey : S.hashes.sha512 a.clientKey = S.hashes.sha512 b.clientKey → a.clientKey = b.clientKey
  fileKey : S.hashes.sha256 (Postcard.utf8 a.fileKey) = S.hashes.sha256 (Postcard.utf8 b.fileKey) →
    Postcard.utf8 a.fileKey = Postcard.utf8 b.fileKey
  fileId : S.hashes.sha256 (Postcard.utf8 a.fileId) = S.hashes.sha256 (Postcard.utf8 b.fileId) →
    Postcard.utf8 a.fileId = Postcard.utf8 b.fileId

theorem slotSame (uncollided : S.Uncollided a b) {suffix : String}
    (same : S.userDirPath a ++ [S.sha256Hex (Postcard.utf8 a.fileId) ++ suffix] =
      S.userDirPath b ++ [S.sha256Hex (Postcard.utf8 b.fileId) ++ suffix]) : a = b := by
  obtain ⟨dirs,names⟩ := List.append_inj' same rfl
  have dirs := List.append_cancel_left dirs
  simp only [List.cons.injEq,and_true] at dirs names
  have client := uncollided.clientKey (Hex.encodeInjective dirs.1)
  have fileKey := Postcard.utf8Injective (uncollided.fileKey (Hex.encodeInjective dirs.2))
  have fileId := Postcard.utf8Injective
    (uncollided.fileId (Hex.encodeInjective ((String.append_left_inj _).mp names)))
  cases a
  cases b
  simp_all

def Apart (p q : Path) : Prop := ¬ p <+: q ∧ ¬ q <+: p

theorem apartOf {p q : Path} (depth : p.length = q.length) (differ : p ≠ q) : Apart p q :=
  ⟨fun above => differ (above.eq_of_length depth),
    fun above => differ (above.eq_of_length depth.symm).symm⟩

theorem filesApart (uncollided : S.Uncollided a b) (differ : a ≠ b) :
    List.Pairwise Apart [S.filePath a,S.metaPath a,S.filePath b,S.metaPath b] := by
  have depth : ∀ p ∈ [S.filePath a,S.metaPath a,S.filePath b,S.metaPath b],
      p.length = S.getStorageDir.length + 3 := by
    simp [filePath,metaPath,userDirPath]
  have files : S.filePath a ≠ S.filePath b := fun same => differ (slotSame uncollided same)
  have metas : S.metaPath a ≠ S.metaPath b := fun same => differ (slotSame uncollided same)
  have distinct : List.Pairwise (· ≠ ·) [S.filePath a,S.metaPath a,S.filePath b,S.metaPath b] := by
    simp [files,metas,(metaBeside S _ _).symm,metaBeside]
  refine distinct.imp_of_mem fun one other different => ?_
  exact apartOf ((depth _ one).trans (depth _ other).symm) different

def Spared (S : Session) (slot : Slot) (before after : Fs) : Prop :=
  ∀ q, q ≠ S.filePath slot → q ≠ S.metaPath slot → after.get q = before.get q ∨
    before.get q = none ∧ after.get q = some .dir ∧ q <+: S.userDirPath slot

theorem sparedStep {disk : Fs} {op : Fs.Op} (spared : S.Spared slot before disk)
    (touches : S.Touches slot (.here (.fs op))) (left : Leaves disk op after) :
    S.Spared slot before after := by
  intro q file meta_
  have same : after.get q = disk.get q ∨ disk.get q = none ∧ after.get q = some .dir ∧
      q <+: S.userDirPath slot := by
    cases op with
    | createDirAll p => cases touches; exact left q
    | create p => cases touches; exact .inl (left q (by simpa [Fs.Op.paths] using file))
    | append p b => cases touches; exact .inl (left q (by simpa [Fs.Op.paths] using file))
    | remove p => cases touches; exact .inl (left q (by simpa [Fs.Op.paths] using file))
    | write p b => cases touches; exact .inl (left q (by simpa [Fs.Op.paths] using meta_))
    | _ => exact touches.elim
  rcases same with same | ⟨missing,made,above⟩
  · rw [same]
    exact spared q file meta_
  · rcases spared q file meta_ with old | ⟨-,dir,-⟩
    · exact .inr ⟨old.symm.trans missing,made,above⟩
    · rw [missing] at dir
      contradiction

theorem uploadSpares (headers : UploadHeader) (before : Fs) :
    Safe rough (S.Spared (UploadHeader.slot S headers) before) (fun _ _ => True)
      (S.handleUpload headers) before := by
  refine confinedSafe (fun q _ _ => .inl rfl) (uploadTouches headers) ?_
  intro disk c r after spared touches answered
  cases c with
  | here c => cases c <;> first | exact sparedStep spared touches answered | exact answered ▸ spared
  | _ => exact answered ▸ spared

/- A later download: it goes the same on both disks, or finds nothing on either. -/
def Unaffected (S : Session) (before after : Fs) (slot : Slot) : Prop :=
  retrieve S after slot = retrieve S before slot ∧
    (S.SameDownload ⟨slot.fileId,slot.fileKey⟩ before slot.clientKey after slot.clientKey ∨
      S.FindsNothing ⟨slot.fileId,slot.fileKey⟩ slot.clientKey before ∧
        S.FindsNothing ⟨slot.fileId,slot.fileKey⟩ slot.clientKey after)

theorem sparedUnaffected (rooted : before.Rooted) (uncollided : S.Uncollided a b) (differ : a ≠ b)
    (spared : S.Spared a before after) : S.Unaffected before after b := by
  have files : S.filePath a ≠ S.filePath b := fun same => differ (slotSame uncollided same)
  have metas : S.metaPath a ≠ S.metaPath b := fun same => differ (slotSame uncollided same)
  have shallow : ∀ {x : String}, ¬ S.userDirPath b ++ [x] <+: S.userDirPath a := by
    intro x above
    have long := above.length_le
    simp only [userDirPath,List.length_append,List.length_cons,List.length_nil] at long
    omega
  have still : ∀ {x : String}, S.userDirPath b ++ [x] ≠ S.filePath a →
      S.userDirPath b ++ [x] ≠ S.metaPath a →
      after.get (S.userDirPath b ++ [x]) = before.get (S.userDirPath b ++ [x]) := by
    intro x file meta_
    rcases spared _ file meta_ with same | ⟨-,-,above⟩
    · exact same
    · exact absurd above shallow
  have file : after.get (S.filePath b) = before.get (S.filePath b) :=
    still files.symm (metaBeside S b a).symm
  have meta_ : after.get (S.metaPath b) = before.get (S.metaPath b) :=
    still (metaBeside S a b) metas.symm
  have deeper : ∀ x, S.userDirPath b ≠ S.userDirPath a ++ [x] := by
    intro x same
    have depth := congrArg List.length same
    simp [userDirPath] at depth
  rcases spared (S.userDirPath b) (deeper _) (deeper _) with dir | ⟨missing,-,-⟩
  · have same : SameSlot S before b after b := ⟨dir,meta_,file⟩
    exact ⟨sameRetrieve same,.inl (sameDownload same)⟩
  · have unsaved : before.get (S.metaPath b) = none := by
      by_contra there
      have parent := rooted _ there
      rw [metaParent] at parent
      simp [Fs.isDir,missing] at parent
    have nothing : retrieve S before b = .notFound := retrieveMissing unsaved
    have still : retrieve S after b = .notFound := retrieveMissing (meta_.trans unsaved)
    exact ⟨still.trans nothing.symm,.inr ⟨nothingFound nothing,nothingFound still⟩⟩

end Session

namespace Slots
open Session Whitelist Rotation

/- Disjoint and confined. -/
theorem slotsApart (S : Session) (uploading : UploadHeader) (downloading : DownloadHeader) :
    Confined (S.Keeps (UploadHeader.slot S uploading)) (S.handleUpload uploading) ∧
    Confined (S.Keeps ⟨S.clientKey,downloading.fileKey,downloading.fileId⟩)
      (S.handleDownload downloading) ∧
    (∀ slot, S.Placed slot) ∧
    (∀ a b, S.Uncollided a b → a ≠ b →
      List.Pairwise Apart [S.filePath a,S.metaPath a,S.filePath b,S.metaPath b]) ∧
    ∀ (before after : Fs) (stopped : Party Unit) (other : Slot), before.Rooted →
      Reaches rough (S.handleUpload uploading) before stopped after →
      S.Uncollided (UploadHeader.slot S uploading) other → UploadHeader.slot S uploading ≠ other →
      S.Unaffected before after other := by
  refine ⟨uploadOwn uploading,downloadOwn downloading,slotPlaced S,fun a b => filesApart,?_⟩
  intro before after stopped other rooted reached uncollided differ
  exact sparedUnaffected rooted uncollided differ
    (safeStart (safeReaches reached (uploadSpares uploading before)))

theorem uploadMakes (S : Session) (headers : UploadHeader) (disk : Fs) :
    ∃ p, Reaches rough (S.handleUpload headers) disk p
      (disk.createDirAll (S.userDirPath (UploadHeader.slot S headers))).2 := by
  have held : rough disk (.here (.holdFileLock headers.fileId)) (0 : Nat) disk := rfl
  have locked : rough disk (.here (.tryLock .upload (0 : Nat))) true disk := rfl
  have made : rough disk (.here (.fs (.createDirAll (S.userDirPath (UploadHeader.slot S headers)))))
      (disk.createDirAll (S.userDirPath (UploadHeader.slot S headers))).1
      (disk.createDirAll (S.userDirPath (UploadHeader.slot S headers))).2 :=
    execLeaves disk (.createDirAll _)
  exact ⟨_,.answer held (.answer locked (.answer made (.here _ _)))⟩

theorem keptUnaffected : ∃ stopped after,
    Reaches rough (sampleServer.handleUpload sampleHeader) shelf stopped after ∧
    after.isDir (sampleServer.userDirPath (UploadHeader.slot sampleServer sampleHeader)) = true ∧
    sampleServer.Unaffected shelf after kept := by
  obtain ⟨stopped,reached⟩ := uploadMakes sampleServer sampleHeader shelf
  have uncollided : sampleServer.Uncollided (UploadHeader.slot sampleServer sampleHeader) kept :=
    ⟨fun _ => rfl,fun _ => rfl,fun same => absurd same (by decide +kernel)⟩
  have differ : UploadHeader.slot sampleServer sampleHeader ≠ kept :=
    fun same => absurd (congrArg Slot.fileId same) (by decide)
  refine ⟨stopped,_,reached,by decide +kernel,?_⟩
  exact (slotsApart sampleServer sampleHeader ⟨"4a43afa64e9342fc8320e63a43eb193b","ronak"⟩).2.2.2.2 shelf _
    stopped kept (Fs.rootedEntries (by decide +kernel)) reached uncollided differ

end Slots
end RDrive
