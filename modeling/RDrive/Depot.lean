import RDrive.Lib.Object
import RDrive.Transfer
import Mathlib.Data.Finset.Card

/-! What the server is for, apart from its protocol and its disk: the keys it knows, and
under each of them the files it was given. -/
namespace RDrive

deriving instance DecidableEq for Slot

structure Held where
  fileName : String
  content : Bytes
  deriving DecidableEq, Repr

/- The keys with a directory in authorized_keys, those with one in storage, and the files. -/
structure Depot where
  listed : Finset Bytes
  stored : Finset Bytes
  files : Slot → Option Held

namespace Depot

inductive Request where
  | register (key : Bytes)
  | rotate (old new : Bytes)
  | push (slot : Slot) (held : Held)
  | pull (slot : Slot)
  | status
  deriving DecidableEq

inductive Reply where
  | done
  | refused
  | file (held : Held)
  | clients (count : UInt64)
  -- no answer and no error: the client has panicked, or waits for ever
  | lost
  deriving DecidableEq

def rotated (d : Depot) (old new : Bytes) : Depot where
  listed := insert new (d.listed.erase old)
  stored := insert new (d.stored.erase old)
  files slot :=
    if slot.clientKey = new then d.files {slot with clientKey := old}
    else if slot.clientKey = old then none
    else d.files slot

/- Whether anybody may register, or only keys that are listed. -/
def answer (open_ : Bool) (d : Depot) : Request → Reply
  | .register key => if open_ ∨ key ∈ d.listed then .done else .refused
  | .rotate old _ => if old ∈ d.stored then .done else .refused
  | .push _ _ => .done
  | .pull slot =>
    match d.files slot with
    | some held => .file held
    | none => .refused
  | .status => .clients d.stored.card.toUInt64

def next (open_ : Bool) (d : Depot) : Request → Depot
  | .register key =>
    if open_ ∨ key ∈ d.listed then
      {d with listed := insert key d.listed, stored := insert key d.stored}
    else d
  | .rotate old new => if old ∈ d.stored then d.rotated old new else d
  | .push slot held => {d with
      stored := insert slot.clientKey d.stored
      files := Function.update d.files slot (some held)}
  | .pull _ => d
  | .status => d

/- The keys, file keys and file ids it is used with, and the files it can deliver. -/
structure Trade where
  key : Bytes → Prop
  fileKey : String → Prop
  fileId : String → Prop
  fits : Slot → Held → Prop
  rekeyed : ∀ slot held key, fits slot held → fits {slot with clientKey := key} held

namespace Trade

structure Known (T : Trade) (slot : Slot) : Prop where
  clientKey : T.key slot.clientKey
  fileKey : T.fileKey slot.fileKey
  fileId : T.fileId slot.fileId

/- A rotation is from a registered key to one without files. -/
def meant (T : Trade) (d : Depot) : Request → Prop
  | .register key => T.key key
  | .rotate old new => T.key old ∧ T.key new ∧ old ≠ new ∧
      (old ∈ d.stored → old ∈ d.listed ∧ ∀ slot, slot.clientKey = new → d.files slot = none)
  | .push slot held => T.Known slot ∧ T.fits slot held
  | .pull slot => T.Known slot
  | .status => True

end Trade

def object (T : Trade) (open_ : Bool) : Object Depot Request Reply :=
  ⟨T.meant,answer open_,next open_⟩

structure Sound (T : Trade) (d : Depot) : Prop where
  listed : ∀ key ∈ d.listed, T.key key
  stored : ∀ key ∈ d.stored, T.key key
  files : ∀ slot held, d.files slot = some held →
    slot.clientKey ∈ d.stored ∧ T.Known slot ∧ T.fits slot held

variable {T : Trade} {d : Depot} {slot : Slot} {held : Held} {open_ : Bool} {request : Request}
  {old new : Bytes}

theorem pushedFile : (d.next open_ (.push slot held)).files slot = some held := Function.update_self ..

theorem answerFound (found : d.files slot = some held) : d.answer open_ (.pull slot) = .file held := by
  simp only [answer,found]

theorem answerMissing (missing : d.files slot = none) : d.answer open_ (.pull slot) = .refused := by
  simp only [answer,missing]

theorem answersFile : d.answer open_ (.pull slot) = .file held ↔ d.files slot = some held := by
  refine ⟨fun told => ?_,answerFound⟩
  cases found : d.files slot with
  | none =>
    rw [answerMissing found] at told
    contradiction
  | some kept =>
    rw [answerFound found,Reply.file.injEq] at told
    rw [told]

theorem answersRefused : d.answer open_ (.pull slot) = .refused ↔ d.files slot = none := by
  refine ⟨fun told => ?_,answerMissing⟩
  cases found : d.files slot with
  | none => rfl
  | some kept =>
    rw [answerFound found] at told
    contradiction

theorem rotatedFile (found : (d.rotated old new).files slot = some held) :
    slot.clientKey = new ∧ d.files {slot with clientKey := old} = some held ∨
      slot.clientKey ≠ new ∧ slot.clientKey ≠ old ∧ d.files slot = some held := by
  simp only [rotated] at found
  split at found
  · rename_i mine
    exact .inl ⟨mine,found⟩
  · rename_i notNew
    split at found
    · contradiction
    · rename_i notOld
      exact .inr ⟨notNew,notOld,found⟩

theorem soundRotated (sound : Sound T d) (key : T.key new) : Sound T (d.rotated old new) where
  listed k member := by
    rcases Finset.mem_insert.mp member with rfl | among
    · exact key
    · exact sound.listed k (Finset.mem_of_mem_erase among)
  stored k member := by
    rcases Finset.mem_insert.mp member with rfl | among
    · exact key
    · exact sound.stored k (Finset.mem_of_mem_erase among)
  files slot held found := by
    rcases rotatedFile found with ⟨rfl,was⟩ | ⟨-,notOld,was⟩
    · obtain ⟨-,known,fits⟩ := sound.files _ held was
      exact ⟨Finset.mem_insert_self _ _,⟨key,known.fileKey,known.fileId⟩,
        T.rekeyed {slot with clientKey := old} held slot.clientKey fits⟩
    · obtain ⟨stored,known,fits⟩ := sound.files slot held was
      exact ⟨Finset.mem_insert_of_mem (Finset.mem_erase.mpr ⟨notOld,stored⟩),known,fits⟩

theorem soundNext (sound : Sound T d) (meant : T.meant d request) : Sound T (d.next open_ request) := by
  cases request with
  | register key =>
    simp only [next]
    split
    · refine ⟨fun k member => ?_,fun k member => ?_,fun slot held found => ?_⟩
      · rcases Finset.mem_insert.mp member with rfl | among
        · exact meant
        · exact sound.listed k among
      · rcases Finset.mem_insert.mp member with rfl | among
        · exact meant
        · exact sound.stored k among
      · obtain ⟨stored,rest⟩ := sound.files slot held found
        exact ⟨Finset.mem_insert_of_mem stored,rest⟩
    · exact sound
  | rotate old new =>
    simp only [next]
    split
    · exact soundRotated sound meant.2.1
    · exact sound
  | push slot held =>
    refine ⟨sound.listed,fun k member => ?_,fun other kept found => ?_⟩
    · rcases Finset.mem_insert.mp member with rfl | among
      · exact meant.1.clientKey
      · exact sound.stored k among
    · by_cases same : other = slot
      · subst same
        simp only [next,Function.update_self,Option.some.injEq] at found
        exact ⟨Finset.mem_insert_self _ _,meant.1,found ▸ meant.2⟩
      · simp only [next,Function.update_of_ne same] at found
        obtain ⟨stored,rest⟩ := sound.files other kept found
        exact ⟨Finset.mem_insert_of_mem stored,rest⟩
  | pull slot => exact sound
  | status => exact sound

def follow (slot : Slot) : Request → Slot
  | .rotate old new => if slot.clientKey = old then {slot with clientKey := new} else slot
  | _ => slot

def followAll (slot : Slot) (requests : List Request) : Slot := requests.foldl follow slot

def Spares : Slot → List Request → Prop
  | _, [] => True
  | slot, request :: rest => (∀ held, request ≠ .push slot held) ∧ Spares (follow slot request) rest

theorem followNext (found : d.files slot = some held) (sound : Sound T d) (meant : T.meant d request)
    (other : ∀ held, request ≠ .push slot held) :
    (d.next open_ request).files (follow slot request) = some held := by
  cases request with
  | register key =>
    simp only [next,follow]
    split
    · exact found
    · exact found
  | rotate old new =>
    have stored := (sound.files slot held found).1
    simp only [next,follow]
    by_cases mine : slot.clientKey = old
    · subst mine
      rw [if_pos stored,if_pos rfl]
      exact (if_pos rfl).trans found
    · rw [if_neg mine]
      split
      · rename_i there
        have notNew : slot.clientKey ≠ new := by
          intro same
          rw [(meant.2.2.2 there).2 slot same] at found
          contradiction
        exact (if_neg notNew).trans ((if_neg mine).trans found)
      · exact found
  | push slot' kept =>
    have differ : slot ≠ slot' := by
      rintro rfl
      exact other kept rfl
    exact (Function.update_of_ne differ _ _).trans found
  | pull slot' => exact found
  | status => exact found

theorem followKept {requests : List Request} (found : d.files slot = some held) (sound : Sound T d)
    (orderly : (object T open_).Orderly d requests) (spares : Spares slot requests) :
    ((object T open_).after d requests).files (followAll slot requests) = some held := by
  induction requests generalizing d slot with
  | nil => exact found
  | cons request rest ih =>
    exact ih (followNext found sound orderly.1 spares.1) (soundNext sound orderly.1) orderly.2 spares.2

theorem nextFile (sound : Sound T d) (found : (d.next open_ request).files slot = some held) :
    request = .push slot held ∨
      ∃ was, d.files was = some held ∧ follow was request = slot ∧ ∀ kept, request ≠ .push was kept := by
  cases request with
  | register key =>
    refine .inr ⟨slot,?_,rfl,by simp⟩
    simp only [next] at found
    split at found
    · exact found
    · exact found
  | rotate old new =>
    simp only [next] at found
    split at found
    · rcases rotatedFile found with ⟨rfl,was⟩ | ⟨-,notOld,was⟩
      · exact .inr ⟨_,was,if_pos rfl,by simp⟩
      · exact .inr ⟨slot,was,if_neg notOld,by simp⟩
    · rename_i unstored
      have notOld : slot.clientKey ≠ old := by
        rintro rfl
        exact unstored (sound.files slot held found).1
      exact .inr ⟨slot,found,if_neg notOld,by simp⟩
  | push other kept =>
    by_cases same : slot = other
    · subst same
      rw [pushedFile] at found
      exact .inl (by rw [Option.some.inj found])
    · refine .inr ⟨slot,?_,rfl,?_⟩
      · exact (Function.update_of_ne same _ _).symm.trans found
      · rintro _ again
        cases again
        exact same rfl
  | pull other => exact .inr ⟨slot,found,rfl,by simp⟩
  | status => exact .inr ⟨slot,found,rfl,by simp⟩

def LastPushed (requests : List Request) (slot : Slot) (held : Held) : Prop :=
  ∃ origin first between, requests = first ++ .push origin held :: between ∧
    followAll origin between = slot ∧ Spares origin between

theorem filesCome {requests : List Request} (sound : Sound T d)
    (orderly : (object T open_).Orderly d requests)
    (found : ((object T open_).after d requests).files slot = some held) :
    (∃ was, d.files was = some held ∧ followAll was requests = slot ∧ Spares was requests) ∨
      LastPushed requests slot held := by
  induction requests generalizing d with
  | nil => exact .inl ⟨slot,found,rfl,trivial⟩
  | cons request rest ih =>
    rcases ih (soundNext sound orderly.1) orderly.2 found with ⟨there,held,follows,spares⟩ | later
    · rcases nextFile sound held with rfl | ⟨was,before,moves,other⟩
      · exact .inr ⟨there,[],rest,rfl,follows,spares⟩
      · subst moves
        exact .inl ⟨was,before,follows,other,spares⟩
    · obtain ⟨origin,first,between,rfl,follows,spares⟩ := later
      exact .inr ⟨origin,request :: first,between,rfl,follows,spares⟩

theorem followThere {requests : List Request} (found : d.files slot = some held) (sound : Sound T d)
    (orderly : (object T open_).Orderly d requests) :
    ∃ kept, ((object T open_).after d requests).files (followAll slot requests) = some kept := by
  induction requests generalizing d slot held with
  | nil => exact ⟨held,found⟩
  | cons request rest ih =>
    by_cases pushed : ∃ kept, request = .push slot kept
    · obtain ⟨kept,rfl⟩ := pushed
      have there : (d.next open_ (.push slot kept)).files slot = some kept := pushedFile
      have fine : Sound T (d.next open_ (.push slot kept)) := soundNext sound orderly.1
      exact ih there fine orderly.2
    · have other : ∀ kept, request ≠ .push slot kept := fun kept same => pushed ⟨kept,same⟩
      exact ih (followNext found sound orderly.1 other) (soundNext sound orderly.1) orderly.2

theorem soundAfter {requests : List Request} (sound : Sound T d)
    (orderly : (object T open_).Orderly d requests) : Sound T ((object T open_).after d requests) := by
  induction requests generalizing d with
  | nil => exact sound
  | cons request rest ih => exact ih (soundNext sound orderly.1) orderly.2

theorem pushedThen {origin : Slot} {first between : List Request} (sound : Sound T d)
    (orderly : (object T open_).Orderly d (first ++ .push origin held :: between)) :
    ∃ there, there.files origin = some held ∧ Sound T there ∧ (object T open_).Orderly there between ∧
      (object T open_).after d (first ++ .push origin held :: between) =
        (object T open_).after there between := by
  obtain ⟨start,meant,rest⟩ := (Object.orderlyAppend _).mp orderly
  have before := soundAfter sound start
  refine ⟨((object T open_).after d first).next open_ (.push origin held),pushedFile,
    soundNext before meant,rest,?_⟩
  rw [Object.afterAppend]
  rfl

section
variable {requests : List Request} (nothing : ∀ slot, d.files slot = none) (sound : Sound T d)
  (orderly : (object T open_).Orderly d requests)
include nothing sound orderly

theorem filesExactly : ((object T open_).after d requests).files slot = some held ↔
    LastPushed requests slot held := by
  constructor
  · intro found
    rcases filesCome sound orderly found with ⟨was,before,-⟩ | pushed
    · rw [nothing was] at before
      contradiction
    · exact pushed
  · rintro ⟨origin,first,between,rfl,rfl,spares⟩
    obtain ⟨there,found,fine,rest,same⟩ := pushedThen sound orderly
    rw [same]
    exact followKept found fine rest spares

theorem filesNever : ((object T open_).after d requests).files slot = none ↔
    ∀ origin held first between, requests = first ++ .push origin held :: between →
      followAll origin between ≠ slot := by
  constructor
  · rintro missing origin held first between rfl rfl
    obtain ⟨there,found,fine,rest,same⟩ := pushedThen sound orderly
    obtain ⟨kept,last⟩ := followThere found fine rest
    rw [same,last] at missing
    contradiction
  · intro never
    by_contra there
    obtain ⟨held,found⟩ := Option.ne_none_iff_exists'.mp there
    obtain ⟨origin,first,between,pushed,follows,-⟩ := (filesExactly nothing sound orderly).mp found
    exact never origin held first between pushed follows

end

end Depot
end RDrive
