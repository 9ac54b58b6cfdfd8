import RDrive.AuthTrees
import RDrive.Downloads

/-! What an acknowledged rotation has done to the whole disk: everything of the old key
lies under the new one, and everything else is where it was. -/
namespace RDrive
open Crypto Header Party Bytes Program

namespace Session
variable {S : Session} {s t : Trial} {disk after : Fs} {body : Option Bytes} {first second : Fate}
  {old new : Bytes}

structure Renamed (S : Session) (disk after : Fs) (first second : Fate) (old new : Bytes) : Prop where
  stored : disk.get (S.storagePath old) ≠ none
  listMoved : (disk.renameBy first (S.authPath old) (S.authPath new)).1 = true
  filesMoved : ((disk.renameBy first (S.authPath old) (S.authPath new)).2.renameBy second
    (S.storagePath old) (S.storagePath new)).1 = true
  after : after = ((disk.renameBy first (S.authPath old) (S.authPath new)).2.renameBy second
    (S.storagePath old) (S.storagePath new)).2

def Tells (S : Session) (disk : Fs) (first second : Fate) (t : Trial) : Prop :=
  t.acked ∨ t.lost → ∃ body old new, t.body = some body ∧ S.Rotates body old new ∧
    S.Renamed disk t.disk first second old new

theorem silent (acked : ¬ t.acked) (lost : ¬ t.lost) : S.Tells disk first second t :=
  fun told => absurd told (by simp [acked,lost])

theorem answerTells {first second : Bool} {e : ErrorHeader} (unacked : ¬ s.acked) (unlost : ¬ s.lost) :
    Safe S.trial (fun _ => True) (fun _ t => t.body = s.body ∧ t.disk = s.disk ∧
      (t.acked ∨ t.lost → first = true ∧ second = true))
    (if first ∧ second then S.writeEncryptFrameInto [1] else S.sendFailed e) s := by
  split
  · rename_i both
    refine safeWeaken (ackEnds unacked unlost) ?_
    rintro _ t _ ⟨disk,body,-⟩
    exact ⟨body,disk,fun _ => both⟩
  · refine safeWeaken (failedStays e) ?_
    rintro _ t _ rfl
    exact ⟨rfl,rfl,by simp [unacked,unlost]⟩

theorem renamesTell (old new : Bytes) : Safe S.trial (fun _ => True)
    (fun _ t => t.body = body ∧ (t.acked ∨ t.lost → S.Renamed disk t.disk first second old new))
    (S.renameKeyDirs old new) (fresh disk body first second) := by
  unfold renameKeyDirs
  refine ⟨trivial,?_⟩
  rintro stored t ⟨rfl,rfl⟩
  simp only [fresh,Fs.exec]
  cases there : disk.get (S.storagePath old) with
  | none => exact ⟨trivial,rfl,by simp⟩
  | some node =>
    refine ⟨trivial,?_⟩
    rintro listMoved t ⟨fate,rest,fates,rfl,rfl⟩
    obtain ⟨rfl,rfl⟩ := List.cons.inj fates
    refine ⟨trivial,?_⟩
    rintro filesMoved t ⟨fate,rest,fates,rfl,rfl⟩
    obtain ⟨rfl,rfl⟩ := List.cons.inj fates
    refine safeWeaken (answerTells id id) ?_
    rintro _ t _ ⟨same,kept,both⟩
    exact ⟨same,fun told => ⟨by simp [there],(both told).1,(both told).2,kept⟩⟩

theorem rotateTells (headerBytes : Bytes) : Safe S.trial (fun _ => True)
    (fun _ => S.Tells disk first second) (S.rotateKey headerBytes)
    (fresh disk (some headerBytes) first second) := by
  have quiet : S.Tells disk first second (fresh disk (some headerBytes) first second) := silent id id
  apply splitEnds fun _ => quiet
  intro one
  apply splitEnds fun _ => quiet
  intro two
  apply splitEnds fun _ => quiet
  intro three
  rw [List.length_drop] at two three
  rw [List.length_drop] at three
  dsimp only
  split
  · exact ⟨trivial,quiet⟩
  · refine safeWeaken (failedStays _) ?_
    rintro _ t _ rfl
    exact quiet
  · rename_i oldPubKey valid
    split
    · exact ⟨trivial,quiet⟩
    · exact ⟨trivial,quiet⟩
    · rename_i newPubKey parsed
      refine safeWeaken (renamesTell oldPubKey newPubKey) ?_
      rintro _ t _ ⟨kept,renamed⟩ told
      exact ⟨_,_,_,kept,⟨by omega,valid,parsed⟩,renamed told⟩

theorem rotationTells : Safe S.trial (fun _ => True) (fun _ => S.Tells disk first second)
    (S.handleAuthKeys 2) (fresh disk none first second) := by
  have quiet : S.Tells disk first second (fresh disk none first second) := silent id id
  unfold handleAuthKeys
  refine staysThen quiet ⟨trivial,?_⟩ ?_
  · rintro random t rfl
    exact ⟨trivial,rfl⟩
  intro random
  refine staysThen quiet (otherStays ?_) ?_
  · rw [S.hashes.sha512Length]
    decide
  intro _
  rw [if_neg (by decide),if_pos rfl]
  exact readThen rfl quiet rotateTells

theorem rotatesSizes {body : Bytes} (names : S.Rotates body old new) :
    old.length = 32 ∧ new.length = 32 := by
  obtain ⟨-,valid,parsed⟩ := names
  obtain ⟨rfl,sizeOld,-⟩ := signatureValid valid
  obtain ⟨rfl,sizeNew⟩ := verifyingKeyOk parsed
  exact ⟨sizeOld,sizeNew⟩

section
variable (distinct : Distinct S) (sizeOld : old.length = 32) (sizeNew : new.length = 32)
  (differ : old ≠ new) (renamed : S.Renamed disk after first second old new)
include distinct sizeOld sizeNew differ renamed

theorem renamedGet (q : Path) : after.get q =
    if S.storagePath new <+: q then disk.get (S.storagePath old ++ q.drop (S.storagePath new).length)
    else if S.storagePath old <+: q then none
    else if S.authPath new <+: q then disk.get (S.authPath old ++ q.drop (S.authPath new).length)
    else if S.authPath old <+: q then none else disk.get q := by
  have apartAuth : ¬ S.authPath old <+: S.authPath new :=
    fun above => differ (authSame distinct sizeOld sizeNew above (List.prefix_refl _))
  have apartAuth' : ¬ S.authPath new <+: S.authPath old :=
    fun above => differ (authSame distinct sizeOld sizeNew (List.prefix_refl _) above)
  have apartFiles : ¬ S.storagePath old <+: S.storagePath new :=
    fun above => differ (storageSame distinct sizeOld sizeNew above (List.prefix_refl _))
  have apartFiles' : ¬ S.storagePath new <+: S.storagePath old :=
    fun above => differ (storageSame distinct sizeOld sizeNew (List.prefix_refl _) above)
  obtain ⟨list,-⟩ := Fs.renamedMoved
    ⟨renamed.listMoved,fun same => apartAuth (same ▸ List.prefix_refl _)⟩
  obtain ⟨files,-⟩ := Fs.renamedMoved
    ⟨renamed.filesMoved,fun same => apartFiles (same ▸ List.prefix_refl _)⟩
  rw [renamed.after,files,Fs.getMoved (storageInner old) (storageInner new) apartFiles apartFiles',list]
  have moved := @Fs.getMoved disk _ _ (authInner old) (authInner new) apartAuth apartAuth'
  split
  · have inside : S.storagePath old <+: S.storagePath old ++ q.drop (S.storagePath new).length :=
      List.prefix_append _ _
    rw [moved,if_neg fun above => storageApart inside above,if_neg fun above => storageApart inside above]
  · rw [moved]

theorem renamedFiles (rest : Path) :
    after.get (S.storagePath new ++ rest) = disk.get (S.storagePath old ++ rest) := by
  rw [renamedGet distinct sizeOld sizeNew differ renamed,if_pos (List.prefix_append _ _),List.drop_left]

theorem renamedGone {q : Path} (below : S.storagePath old <+: q) : after.get q = none := by
  rw [renamedGet distinct sizeOld sizeNew differ renamed,if_neg fun above =>
    differ (storageSame distinct sizeOld sizeNew below above),if_pos below]

theorem renamedListed : after.get (S.authPath new) = disk.get (S.authPath old) ∧
    after.get (S.authPath old) = none := by
  have outside : ∀ a b, ¬ S.storagePath a <+: S.authPath b :=
    fun a b above => storageApart above (List.prefix_refl _)
  have get := renamedGet distinct sizeOld sizeNew differ renamed
  constructor
  · rw [get,if_neg (outside _ _),if_neg (outside _ _),if_pos (List.prefix_refl _),List.drop_length,
      List.append_nil]
  · rw [get,if_neg (outside _ _),if_neg (outside _ _),if_neg fun above =>
      differ (authSame distinct sizeOld sizeNew (List.prefix_refl _) above),if_pos (List.prefix_refl _)]

theorem renamedOthers {key : Bytes} (size : key.length = 32) (notOld : key ≠ old) (notNew : key ≠ new)
    {q : Path} (below : S.storagePath key <+: q ∨ S.authPath key <+: q) : after.get q = disk.get q := by
  rw [renamedGet distinct sizeOld sizeNew differ renamed]
  rcases below with files | list
  · rw [if_neg fun above => notNew (storageSame distinct size sizeNew files above),
      if_neg fun above => notOld (storageSame distinct size sizeOld files above),
      if_neg fun above => storageApart files above,if_neg fun above => storageApart files above]
  · rw [if_neg fun above => storageApart above list,if_neg fun above => storageApart above list,
      if_neg fun above => notNew (authSame distinct size sizeNew list above),
      if_neg fun above => notOld (authSame distinct size sizeOld list above)]

end

theorem renamedVacant (rooted : disk.Rooted) (distinct : Distinct S) (sizeOld : old.length = 32)
    (sizeNew : new.length = 32) (differ : old ≠ new)
    (renamed : S.Renamed disk after first second old new) {rest : Path} (some_ : rest ≠ []) :
    disk.get (S.storagePath new ++ rest) = none := by
  have apart : S.authPath old ≠ S.authPath new :=
    fun same => differ (authDistinct distinct sizeOld sizeNew same)
  have apartFiles : S.storagePath old ≠ S.storagePath new :=
    fun same => differ (storageDistinct distinct sizeOld sizeNew same)
  obtain ⟨-,-,beside⟩ := Fs.renamedAway (authInner old) (authInner new) (authDepth old new)
    ⟨renamed.listMoved,apart⟩
  obtain ⟨-,allowed⟩ := Fs.renamedMoved ⟨renamed.filesMoved,apartFiles⟩
  have kept : ∀ q, S.storagePath new <+: q →
      (disk.renameBy first (S.authPath old) (S.authPath new)).2.get q = disk.get q :=
    fun q inside => beside q (fun above => storageApart inside above) fun above => storageApart inside above
  by_contra there
  have dir := Fs.rootedAbove rooted some_ there
  unfold Fs.isDir at dir
  rw [← kept _ (List.prefix_refl _)] at dir
  rw [← kept _ (List.prefix_append _ _)] at there
  exact there (Fs.renamableBare allowed dir some_)

structure Rotated (S : Session) (before after : Fs) (old new : Bytes) : Prop where
  -- a download under the new key is one under the old key before
  served : ∀ headers, S.SameDownload headers before old after new
  found : ∀ fileKey fileId, retrieve S after ⟨new,fileKey,fileId⟩ = retrieve S before ⟨old,fileKey,fileId⟩
  -- one under the old key finds nothing
  gone : ∀ headers, S.FindsNothing headers old after
  listed : before.get (S.authPath old) ≠ none ∧ after.get (S.authPath new) = before.get (S.authPath old) ∧
    after.get (S.authPath old) = none
  others : ∀ key, key.length = 32 → key ≠ old → key ≠ new →
    ∀ q, S.storagePath key <+: q ∨ S.authPath key <+: q → after.get q = before.get q
  -- nothing of the new key was there to be lost
  vacant : ∀ rest, rest ≠ [] → before.get (S.storagePath new ++ rest) = none

theorem slotPaths (S : Session) (slot : Slot) :
    S.userDirPath slot = S.storagePath slot.clientKey ++ [S.sha256Hex (Postcard.utf8 slot.fileKey)] ∧
    S.metaPath slot = S.storagePath slot.clientKey ++ [S.sha256Hex (Postcard.utf8 slot.fileKey),
      S.sha256Hex (Postcard.utf8 slot.fileId) ++ ".meta"] ∧
    S.filePath slot = S.storagePath slot.clientKey ++ [S.sha256Hex (Postcard.utf8 slot.fileKey),
      S.sha256Hex (Postcard.utf8 slot.fileId) ++ ".file"] := by
  simp [userDirPath,metaPath,filePath,storagePath]

theorem renamedRotated (rooted : disk.Rooted) (distinct : Distinct S) (sizeOld : old.length = 32)
    (sizeNew : new.length = 32) (differ : old ≠ new)
    (renamed : S.Renamed disk after first second old new) : S.Rotated disk after old new := by
  have files := renamedFiles distinct sizeOld sizeNew differ renamed
  have same : ∀ fileKey fileId,
      SameSlot S disk ⟨old,fileKey,fileId⟩ after ⟨new,fileKey,fileId⟩ := by
    intro fileKey fileId
    obtain ⟨dirOld,metaOld,fileOld⟩ := slotPaths S ⟨old,fileKey,fileId⟩
    obtain ⟨dirNew,metaNew,fileNew⟩ := slotPaths S ⟨new,fileKey,fileId⟩
    refine ⟨?_,?_,?_⟩
    · rw [dirOld,dirNew]
      exact files _
    · rw [metaOld,metaNew]
      exact files _
    · rw [fileOld,fileNew]
      exact files _
  obtain ⟨there,-,-⟩ := Fs.renamedAway (authInner old) (authInner new) (authDepth old new)
    ⟨renamed.listMoved,fun same => differ (authDistinct distinct sizeOld sizeNew same)⟩
  refine ⟨fun headers => sameDownload (same _ _),fun _ _ => sameRetrieve (same _ _),?_,
    ⟨there,renamedListed distinct sizeOld sizeNew differ renamed⟩,?_,?_⟩
  · intro headers
    have inside := (slotParts (S := S) ⟨old,headers.fileKey,headers.fileId⟩).2
    exact nothingFound (retrieveMissing (renamedGone distinct sizeOld sizeNew differ renamed inside))
  · exact fun key size notOld notNew q below =>
      renamedOthers distinct sizeOld sizeNew differ renamed size notOld notNew below
  · exact fun rest some_ => renamedVacant rooted distinct sizeOld sizeNew differ renamed some_

theorem renamesAcked (nonce : Nonce) :
    let moved := disk.renameBy first (S.authPath old) (S.authPath new)
    let stored := moved.2.renameBy second (S.storagePath old) (S.storagePath new)
    disk.get (S.storagePath old) ≠ none → moved.1 = true → stored.1 = true → ∃ acked, acked ∧
      Reaches S.trial (S.renameKeyDirs old new) (fresh disk body first second) (.done (.ok ()))
        ⟨stored.2,[],body,acked,False⟩ := by
  intro moved stored there listMoved filesMoved
  obtain ⟨node,found⟩ := Option.ne_none_iff_exists'.mp there
  have looked : S.trial (fresh disk body first second) (.here (.fs (.exists_ (S.storagePath old))))
      true (fresh disk body first second) := by
    simp only [trial,fresh,Fs.exec,found,Option.isSome_some,and_self]
  have authTried : S.trial (fresh disk body first second)
      (.here (.fs (.rename (S.authPath old) (S.authPath new)))) true
      ⟨moved.2,[second],body,False,False⟩ := ⟨first,[second],rfl,listMoved.symm,rfl⟩
  have storageTried : S.trial ⟨moved.2,[second],body,False,False⟩
      (.here (.fs (.rename (S.storagePath old) (S.storagePath new)))) true
      ⟨stored.2,[],body,False,False⟩ := ⟨second,[],rfl,filesMoved.symm,rfl⟩
  refine ⟨False ∨ S.Acks (Frame.frame S.cipher S.sessionKey nonce [1]),.inr ⟨nonce,rfl⟩,?_⟩
  have small : ([1] : Bytes).length ≤ Frame.u32Max := by decide
  unfold renameKeyDirs
  exact .answer looked (.answer authTried (.answer storageTried (frameReached small nonce rfl rfl)))

end Session

namespace Rotation
open Session Whitelist AuthTrees

/- Whatever is acknowledged has happened to the whole disk. -/
theorem ackedMovesAll (S : Session) (distinct : Distinct S) {disk : Fs} (rooted : disk.Rooted)
    (first second : Fate) {result : Outcome Unit} {t : Trial}
    (ended : Reaches S.trial (S.handleAuthKeys 2) (fresh disk none first second) (.done result) t)
    (told : t.acked ∨ t.lost) : ∃ body old new, t.body = some body ∧ S.Rotates body old new ∧
      (old ≠ new → S.Rotated disk t.disk old new) := by
  obtain ⟨body,old,new,read,names,renamed⟩ := (safeReaches ended rotationTells).2 told
  obtain ⟨sizeOld,sizeNew⟩ := rotatesSizes names
  exact ⟨body,old,new,read,names,fun differ =>
    renamedRotated rooted distinct sizeOld sizeNew differ renamed⟩

def kept : Slot := ⟨oldKey,"ronak","c8a5a04dba635ab9"⟩

def shelf : Fs :=
  ⟨[(sampleServer.metaPath kept,.file [3]),(sampleServer.filePath kept,.file [0]),
    (sampleServer.userDirPath kept,.dir),(sampleServer.storagePath oldKey,.dir),
    (sampleServer.authPath oldKey,.dir),(sampleServer.getStorageDir,.dir),
    (sampleServer.getAuthorizedClientDir,.dir),(["home",".rdrive"],.dir),(["home"],.dir)]⟩

theorem shelfMoves : ∃ t, Reaches sampleServer.trial (sampleServer.handleAuthKeys 2)
    (fresh shelf none .works .works) (.done (.ok ())) t ∧ t.acked ∧
    ∃ old new, old ≠ new ∧ sampleServer.Rotated shelf t.disk old new := by
  obtain ⟨acked,said,renamed⟩ := @renamesAcked sampleServer shelf (some Replay.sampleBody) .works .works
    oldKey newKey ⟨List.replicate 12 0,rfl⟩ (by decide +kernel) (by decide +kernel) (by decide +kernel)
  have ended := rotationBegins sampleRotation (by decide +kernel) ⟨List.replicate 12 0,rfl⟩
    ⟨List.replicate 64 0,rfl⟩ renamed
  obtain ⟨body,old,new,read,names,moved⟩ := ackedMovesAll sampleServer sampleDistinct
    (Fs.rootedEntries (by decide +kernel)) .works .works ended (.inl said)
  refine ⟨_,ended,said,old,new,?_,moved ?_⟩
  all_goals
    cases Option.some.inj read
    cases Outcome.ok.inj (names.2.1.symm.trans sampleRotation.2.1)
    cases Outcome.ok.inj (names.2.2.symm.trans sampleRotation.2.2)
    decide

end Rotation
end RDrive
