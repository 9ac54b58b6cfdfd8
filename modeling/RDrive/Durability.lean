import RDrive.Downloads
import RDrive.Relocation
import RDrive.ResponseLimits
import RDrive.Lib.Authors
import RDrive.Lib.Guild

/-! All commands of all clients side by side, one call at a time in any order, each
client and each failing call as they like. A file that is open follows the directories
above it, and its next bytes go where it left off, whoever else writes to it. What was
stored under a success response is there until somebody touches it. -/
namespace RDrive
open Crypto Header Party Bytes Program
open Relocation (carried Success Announced source)

/- A file that was opened: where it lies by now, unless it was removed, what was written
through it, and the metadata that was saved for it. -/
structure Opened where
  path : Option Path
  written : Bytes
  filed : Option Bytes

/- The disk, the files that were ever opened, and what was done to the paths: the author
of an event is the number of its open file. -/
structure Yard where
  disk : Fs
  opened : List Opened
  journal : List (Authors.Event Nat Path (Path × Path))

/- One connection's handler: the command it has decoded, the file it has opened, what it
heard since, and whether a success response of its is completely written. -/
structure Work where
  sessionKey : Bytes
  clientKey : Bytes
  command : Option Command
  writer : Option Nat
  heard : Bytes
  succeeded : Prop

namespace Yard

def opens (s : Yard) (p : Path) : Yard :=
  ⟨(s.disk.create p).2,s.opened ++ [⟨some p,[],none⟩],s.journal ++ [.took s.opened.length p]⟩

def writes (s : Yard) (w : Nat) (b : Bytes) : Yard :=
  match s.opened[w]? with
  | none => s
  | some file =>
    let opened := s.opened.set w {file with written := file.written ++ b}
    match file.path with
    | none => {s with opened := opened}
    | some p => ⟨s.disk.writeAt p file.written.length b,opened,s.journal ++ [.added w p]⟩

def removes (s : Yard) (p : Path) : Yard :=
  ⟨(s.disk.remove p).2,s.opened.map fun file => if file.path = some p then {file with path := none} else file,
    s.journal ++ [.cleared p]⟩

def files (s : Yard) (w : Nat) (p : Path) (b : Bytes) : Yard :=
  ⟨(s.disk.write p b).2,s.opened.modify w fun file => {file with filed := some b},
    s.journal ++ [.took w p]⟩

/- A file written by nobody's upload, or only in part. -/
def spoils (s : Yard) (p : Path) (b : Bytes) : Yard :=
  {s with
    disk := (s.disk.write p b).2
    journal := s.journal ++ [.cleared p]}

def moves (s : Yard) (old new : Path) : Yard :=
  ⟨(s.disk.rename old new).2,s.opened.map fun file => {file with path := file.path.map (carried old new)},
    s.journal ++ [.moved (old,new)]⟩

def makes (s : Yard) (p : Path) : Yard := {s with disk := (s.disk.createDirAll p).2}

end Yard

namespace Durability
open Session

def decoded (b : Bytes) : Option Command :=
  match Command.deserialize b with
  | .ok command => some command
  | _ => none

def Hears (S : Session) (g : Work) {n : Nat} (answer : (Port HostSig).Ret (.recv n)) : Work :=
  {g with
    heard := g.heard ++ (S.connected g.sessionKey g.clientKey).heard answer
    command := g.command <|> decoded ((S.connected g.sessionKey g.clientKey).heard answer)}

def Sends (S : Session) (g : Work) (b : Bytes) : Work :=
  {g with succeeded := g.succeeded ∨ ∃ headers, g.command = some (.upload headers) ∧
    Success (S.connected g.sessionKey g.clientKey) headers b}

/- The server: a call that changes the disk does so or fails, and an append, a write or a
mkdir -p that fails may have done a part. All else answers as it likes. -/
def working (S : Session) : Env (Port HostSig) (Yard × Work) := fun (s,g) c r (t,h) =>
  match c, r with
  | .here (.fs (.create p)), true => (s.disk.create p).1 = true ∧ t = s.opens p ∧
      h = {g with
        writer := some s.opened.length
        heard := []}
  | .here (.fs (.append _ b)), done_ => h = g ∧ match g.writer with
      | none => t = s
      | some w => ∃ k, (done_ = true → b.length ≤ k) ∧ t = s.writes w (b.take k)
  | .here (.fs (.remove p)), true => (s.disk.remove p).1 = true ∧ t = s.removes p ∧ h = g
  | .here (.fs (.write p b)), done_ => h = g ∧ ((s.disk.write p b).1 = true ∧ (match done_, g.writer with
      | true, some w => t = s.files w p b
      | true, none => t = s.spoils p b
      | false, _ => ∃ k, t = s.spoils p (b.take k)) ∨ done_ = false ∧ t = s)
  | .here (.fs (.rename old new)), true => (s.disk.rename old new).1 = true ∧ t = s.moves old new ∧ h = g
  | .here (.fs (.createDirAll p)), made => h = g ∧ ∃ q, q <+: p ∧ t = s.makes q ∧
      (made = true → q = p ∧ (s.disk.createDirAll p).1 = true)
  | .recv _, answer => t = s ∧ h = Hears S g answer
  | .send b, .ok () => t = s ∧ h = Sends S g b
  | _, _ => t = s ∧ h = g

def origin : Path × Path → Path → Option Path := fun (old,new) q =>
  if old = new then some q
  else if new <+: q then some (old ++ q.drop new.length)
  else if old <+: q then none
  else some q

abbrev author (s : Yard) : Path → Option Nat := Authors.author origin s.journal

structure Shows (S : Session) (s : Yard) : Prop where
  bodies : ∀ slot w, author s (S.filePath slot) = some w →
    ∃ file : Opened, s.opened[w]? = some file ∧
    file.path = some (S.filePath slot) ∧ s.disk.content (S.filePath slot) = some file.written
  docs : ∀ slot w, author s (S.metaPath slot) = some w →
    ∃ (file : Opened) (b : Bytes), s.opened[w]? = some file ∧
    file.filed = some b ∧ s.disk.content (S.metaPath slot) = some b
  placed : ∀ (w : Nat) (file : Opened) (p : Path), s.opened[w]? = some file → file.path = some p → ∃ slot, p = S.filePath slot
  housed : ∀ slot b, s.disk.content (S.filePath slot) = some b → s.disk.isDir (S.userDirPath slot) = true

structure Finished (S : Session) (headers : UploadHeader) (g : Work) (w : Nat) (s : Yard) : Prop where
  admitted : Admitted S.maxFileSize headers
  writer : g.writer = some w
  file : ∃ file : Opened, s.opened[w]? = some file ∧ file.written = g.heard ∧
    file.filed = some (UploadHeader.metadata S headers).serialize
  announced : Announced S headers g.heard
  opened : .took w (S.filePath ⟨g.clientKey,headers.fileKey,headers.fileId⟩) ∈ s.journal
  saved : .took w (S.metaPath ⟨g.clientKey,headers.fileKey,headers.fileId⟩) ∈ s.journal

structure Point (S : Session) (g : Work) (s : Yard) : Prop where
  known : ∀ w, g.writer = some w → w < s.opened.length
  finished : g.succeeded → ∃ headers w, g.command = some (.upload headers) ∧ Finished S headers g w s

structure Leaves (w : Nat) (s t : Yard) : Prop where
  written : (t.opened[w]?).map Opened.written = (s.opened[w]?).map Opened.written
  filed : (t.opened[w]?).map Opened.filed = (s.opened[w]?).map Opened.filed

structure ByOthers (g : Work) (s t : Yard) : Prop where
  more : s.opened.length ≤ t.opened.length
  later : s.journal <+: t.journal
  leaves : ∀ w, g.writer = some w → w < s.opened.length → Leaves w s t

def Apart (g h : Work) : Prop := ∀ w, g.writer = some w → h.writer ≠ some w

section
variable {S : Session} {s t : Yard} {g h : Work}

structure Shifts (S : Session) (old new : Path) : Prop where
  inner : old ≠ []
  target : new ≠ []
  depth : old.length = new.length
  back : ∀ slot : Slot, (∃ other : Slot, other.fileId = slot.fileId ∧ ∀ rest,
      origin (old,new) (S.userDirPath slot ++ rest) = some (S.userDirPath other ++ rest) ∧
      carried old new (S.userDirPath other ++ rest) = S.userDirPath slot ++ rest) ∨
    ∀ rest, origin (old,new) (S.userDirPath slot ++ rest) = none
  forth : ∀ slot, ∃ other, carried old new (S.filePath slot) = S.filePath other

theorem slotShape (slot : Slot) (rest : Path) : S.userDirPath slot ++ rest =
    S.storagePath slot.clientKey ++ (S.sha256Hex (Postcard.utf8 slot.fileKey) :: rest) := by
  simp [userDirPath,storagePath]

theorem storageAbove (key : Bytes) (slot : Slot) (rest : Path) :
    S.storagePath key <+: S.userDirPath slot ++ rest ↔ S.storagePath key = S.storagePath slot.clientKey := by
  rw [slotShape]
  constructor
  · exact fun above => sameAbove above (List.prefix_append _ _) (storageDepth key slot.clientKey)
  · intro same
    rw [same]
    exact List.prefix_append _ _

theorem stayedBack {old new : Path} {slot : Slot}
    (same : ∀ rest, origin (old,new) (S.userDirPath slot ++ rest) = some (S.userDirPath slot ++ rest) ∧
      carried old new (S.userDirPath slot ++ rest) = S.userDirPath slot ++ rest) :
    ∃ other : Slot, other.fileId = slot.fileId ∧ ∀ rest,
      origin (old,new) (S.userDirPath slot ++ rest) = some (S.userDirPath other ++ rest) ∧
      carried old new (S.userDirPath other ++ rest) = S.userDirPath slot ++ rest := ⟨slot,rfl,same⟩

theorem storageShifts (a b : Bytes) : Shifts S (S.storagePath a) (S.storagePath b) where
  inner := storageInner a
  target := storageInner b
  depth := storageDepth a b
  back slot := by
    by_cases same : S.storagePath a = S.storagePath b
    · refine .inl (stayedBack fun rest => ⟨by rw [origin,if_pos same],?_⟩)
      rw [same]
      exact Relocation.carriedNowhere _ _
    · by_cases into : S.storagePath b = S.storagePath slot.clientKey
      · refine .inl ⟨⟨a,slot.fileKey,slot.fileId⟩,rfl,fun rest => ⟨?_,?_⟩⟩
        · rw [origin,if_neg same,if_pos ((storageAbove b slot rest).mpr into),slotShape,← into,
            List.drop_left,slotShape ⟨a,slot.fileKey,slot.fileId⟩]
        · rw [carried,if_pos ((storageAbove a ⟨a,slot.fileKey,slot.fileId⟩ rest).mpr rfl),slotShape,
            List.drop_left,slotShape,into]
      · by_cases out_ : S.storagePath a = S.storagePath slot.clientKey
        · refine .inr fun rest => ?_
          rw [origin,if_neg same,if_neg (mt (storageAbove b slot rest).mp into),
            if_pos ((storageAbove a slot rest).mpr out_)]
        · refine .inl (stayedBack fun rest => ⟨?_,?_⟩)
          · rw [origin,if_neg same,if_neg (mt (storageAbove b slot rest).mp into),
              if_neg (mt (storageAbove a slot rest).mp out_)]
          · rw [carried,if_neg (mt (storageAbove a slot rest).mp out_)]
  forth slot := by
    by_cases under : S.storagePath a = S.storagePath slot.clientKey
    · refine ⟨⟨b,slot.fileKey,slot.fileId⟩,?_⟩
      unfold filePath
      rw [carried,if_pos ((storageAbove a slot _).mpr under),slotShape,← under,List.drop_left,slotShape]
    · exact ⟨slot,by rw [carried,filePath,if_neg (mt (storageAbove a slot _).mp under)]⟩

theorem authShifts (a b : Bytes) : Shifts S (S.authPath a) (S.authPath b) where
  inner := authInner a
  target := authInner b
  depth := authDepth a b
  back slot := by
    have inside : ∀ rest, S.getStorageDir <+: S.userDirPath slot ++ rest := by
      intro rest
      rw [userDirPath,List.append_assoc]
      exact List.prefix_append _ _
    refine .inl (stayedBack fun rest => ⟨?_,?_⟩)
    · rw [origin,if_neg (authOutside b (inside rest)),if_neg (authOutside a (inside rest)),ite_self]
    · rw [carried,if_neg (authOutside a (inside rest))]
  forth slot := by
    refine ⟨slot,?_⟩
    rw [carried,if_neg]
    apply authOutside a
    rw [filePath,userDirPath,List.append_assoc]
    exact List.prefix_append _ _

theorem movedGet {old new : Path} (shifts : Shifts S old new)
    (worked : (s.disk.rename old new).1 = true) (q : Path) :
    (s.moves old new).disk.get q = (origin (old,new) q).bind s.disk.get := by
  change (s.disk.rename old new).2.get q = _
  rw [Fs.renameGet shifts.inner shifts.target shifts.depth worked]
  by_cases same : old = new
  · rw [if_pos same,origin,if_pos same,Option.bind_some]
  · by_cases into : new <+: q
    · rw [if_neg same,if_pos into,origin,if_neg same,if_pos into,Option.bind_some]
    · by_cases out_ : old <+: q
      · rw [if_neg same,if_neg into,if_pos out_,origin,if_neg same,if_neg into,if_pos out_,Option.bind_none]
      · rw [if_neg same,if_neg into,if_neg out_,origin,if_neg same,if_neg into,if_neg out_,Option.bind_some]

theorem movedContent {old new q p : Path} (shifts : Shifts S old new)
    (worked : (s.disk.rename old new).1 = true) (found : origin (old,new) q = some p) :
    (s.moves old new).disk.content q = s.disk.content p := by
  unfold Fs.content
  rw [movedGet shifts worked,found,Option.bind_some]

theorem userDirBesides (slot other : Slot) :
    S.userDirPath slot ≠ S.filePath other ∧ S.userDirPath slot ≠ S.metaPath other := by
  constructor <;> intro same <;> have lengths := congrArg List.length same <;>
    simp [filePath,metaPath,userDirPath] at lengths

structure Beside (p : Path) (s t : Yard) : Prop where
  author : ∀ q, q ≠ p → author t q = author s q
  disk : ∀ q, q ≠ p → t.disk.get q = s.disk.get q

theorem besideContent {p q : Path} (beside : Beside p s t) (other : q ≠ p) :
    t.disk.content q = s.disk.content q := by
  unfold Fs.content
  rw [beside.disk q other]

def Keeps (p : Path) (s t : Yard) : Prop := ∀ (w : Nat) (file : Opened), s.opened[w]? = some file →
  ∃ after : Opened, t.opened[w]? = some after ∧ (∀ q, file.path = some q → q ≠ p → after.path = some q ∧
    after.written = file.written) ∧ (file.filed ≠ none → after.filed = file.filed)

theorem besideShows {p : Path} (shows_ : Shows S s) (beside : Beside p s t) (keeps : Keeps p s t)
    (dirs : ∀ slot, s.disk.isDir (S.userDirPath slot) = true → t.disk.isDir (S.userDirPath slot) = true)
    (body : ∀ slot w, S.filePath slot = p → author t p = some w → ∃ file : Opened,
      t.opened[w]? = some file ∧ file.path = some p ∧ t.disk.content p = some file.written)
    (doc : ∀ slot w, S.metaPath slot = p → author t p = some w → ∃ (file : Opened) (b : Bytes),
      t.opened[w]? = some file ∧ file.filed = some b ∧ t.disk.content p = some b)
    (placed : ∀ (w : Nat) (file : Opened) (q : Path), t.opened[w]? = some file → file.path = some q →
      ∃ slot, q = S.filePath slot)
    (housed : ∀ slot b, S.filePath slot = p → t.disk.content p = some b →
      t.disk.isDir (S.userDirPath slot) = true) : Shows S t where
  bodies slot w mine := by
    by_cases here : S.filePath slot = p
    · rw [here] at mine ⊢
      exact body slot w here mine
    · rw [beside.author _ here] at mine
      obtain ⟨file,found,path,content⟩ := shows_.bodies slot w mine
      obtain ⟨after,still,same,-⟩ := keeps w file found
      obtain ⟨pathSame,writtenSame⟩ := same _ path here
      exact ⟨after,still,pathSame,by rw [besideContent beside here,content,writtenSame]⟩
  docs slot w mine := by
    by_cases here : S.metaPath slot = p
    · rw [here] at mine ⊢
      exact doc slot w here mine
    · rw [beside.author _ here] at mine
      obtain ⟨file,b,found,filed,content⟩ := shows_.docs slot w mine
      obtain ⟨after,still,-,same⟩ := keeps w file found
      exact ⟨after,b,still,(same (by simp [filed])).trans filed,(besideContent beside here).trans content⟩
  placed := placed
  housed slot b found := by
    by_cases here : S.filePath slot = p
    · exact housed slot b here (here ▸ found)
    · rw [besideContent beside here] at found
      exact dirs slot (shows_.housed slot b found)

theorem dirsBeside {p : Path} (disk : ∀ q, q ≠ p → t.disk.get q = s.disk.get q) {other : Slot}
    (kind : p = S.filePath other ∨ p = S.metaPath other) (slot : Slot)
    (dir : s.disk.isDir (S.userDirPath slot) = true) : t.disk.isDir (S.userDirPath slot) = true := by
  unfold Fs.isDir at dir ⊢
  rw [disk]
  · exact dir
  · rcases kind with rfl | rfl
    · exact (userDirBesides slot other).1
    · exact (userDirBesides slot other).2

theorem opensShows {other : Slot} (shows_ : Shows S s)
    (worked : (s.disk.create (S.filePath other)).1 = true) : Shows S (s.opens (S.filePath other)) := by
  have parent : s.disk.isDir (S.userDirPath other) = true := by
    unfold Fs.create at worked
    rw [fileParent] at worked
    split at worked
    · rename_i free
      exact free.1
    · cases worked
  have disk : ∀ q, q ≠ S.filePath other → (s.opens (S.filePath other)).disk.get q = s.disk.get q :=
    fun q beside => Fs.createElsewhere beside
  have content : (s.opens (S.filePath other)).disk.content (S.filePath other) = some [] := by
    simp only [Yard.opens,Fs.create] at worked ⊢
    split
    · exact Fs.contentPut _ (fileInner S other) []
    · rename_i taken
      rw [if_neg taken] at worked
      cases worked
  have dirs := dirsBeside (t := s.opens (S.filePath other)) disk (.inl rfl)
  refine besideShows shows_ ⟨?_,disk⟩ ?_ dirs ?_ ?_ ?_ ?_
  · intro q beside
    simp only [Yard.opens,author,Authors.authorThen,Authors.apply,if_neg beside]
  · intro w file found
    exact ⟨file,by rw [Yard.opens,List.getElem?_append_left (List.getElem?_eq_some_iff.mp found).1,found],
      fun q path _ => ⟨path,rfl⟩,fun _ => rfl⟩
  · intro slot w _ mine
    simp only [Yard.opens,author,Authors.authorThen,Authors.apply,if_true,Option.some.injEq] at mine
    exact ⟨⟨some (S.filePath other),[],none⟩,by simp [Yard.opens,← mine],rfl,content⟩
  · intro slot w here
    exact absurd here (metaBeside S other slot)
  · intro w file q found path
    rw [Yard.opens,List.getElem?_append] at found
    split at found
    · exact shows_.placed w file q found path
    · rw [List.mem_singleton.mp (List.mem_of_getElem? found)] at path
      exact ⟨other,(Option.some.inj path).symm⟩
  · intro slot b here _
    have same : S.userDirPath slot = S.userDirPath other := by
      rw [← fileParent,here,fileParent]
    rw [same]
    exact dirs other parent

theorem writtenKeeps {p : Path} {w : Nat} {file : Opened} {b : Bytes} (found : s.opened[w]? = some file)
    (lies : file.path = some p ∨ file.path = none)
    (opened : t.opened = s.opened.set w {file with written := file.written ++ b}) : Keeps p s t := by
  have small := (List.getElem?_eq_some_iff.mp found).1
  intro v was among
  rw [opened]
  by_cases mine : w = v
  · subst mine
    cases Option.some.inj (found.symm.trans among)
    refine ⟨_,List.getElem?_set_self small,fun q path other => ?_,fun _ => rfl⟩
    rcases lies with here | gone
    · exact absurd (Option.some.inj (path.symm.trans here)) other
    · rw [path] at gone
      cases gone
  · exact ⟨was,by rw [List.getElem?_set_ne mine,among],fun q path _ => ⟨path,rfl⟩,fun _ => rfl⟩

theorem writtenPlaced (shows_ : Shows S s) {w v : Nat} {file after : Opened} {b : Bytes} {q : Path}
    (found : s.opened[w]? = some file)
    (among : (s.opened.set w {file with written := file.written ++ b})[v]? = some after)
    (path : after.path = some q) : ∃ slot, q = S.filePath slot := by
  rw [List.getElem?_set,if_pos (List.getElem?_eq_some_iff.mp found).1] at among
  split at among
  · cases Option.some.inj among
    exact shows_.placed w file q found path
  · exact shows_.placed v after q among path

theorem writesShows (shows_ : Shows S s) (w : Nat) (b : Bytes) : Shows S (s.writes w b) := by
  unfold Yard.writes
  split
  · exact shows_
  · rename_i file found
    have small := (List.getElem?_eq_some_iff.mp found).1
    dsimp only
    split
    · rename_i gone
      refine besideShows (p := []) shows_ ⟨fun _ _ => rfl,fun _ _ => rfl⟩
        (writtenKeeps found (.inr gone) rfl) (fun _ dir => dir) ?_ ?_
        (fun _ _ _ => writtenPlaced shows_ found) ?_
      · exact fun slot _ here => absurd here (fileInner S slot)
      · exact fun slot _ here => absurd here (metaInner S slot)
      · exact fun slot _ here => absurd here (fileInner S slot)
    · rename_i p here
      obtain ⟨other,rfl⟩ := shows_.placed w file p found here
      refine besideShows shows_ ⟨?_,fun q beside => Fs.writeAtElsewhere beside⟩
        (writtenKeeps found (.inl here) rfl) (fun slot dir => (Fs.writeAtDir _ _ _ _ _).trans dir) ?_ ?_
        (fun _ _ _ => writtenPlaced shows_ found) ?_
      · intro q beside
        simp only [author,Authors.authorThen,Authors.apply]
        rw [if_neg fun both => beside both.1]
      · intro slot v _ mine
        simp only [author,Authors.authorThen,Authors.apply,true_and] at mine
        split at mine
        · cases mine
        · rename_i known
          have known := Decidable.not_not.mp known
          cases Option.some.inj (known.symm.trans mine)
          obtain ⟨was,among,-,content⟩ := shows_.bodies other w known
          cases Option.some.inj (found.symm.trans among)
          refine ⟨_,List.getElem?_set_self small,here,?_⟩
          rw [Fs.writeAtEnd content]
          exact Fs.contentPut _ (fileInner S other) _
      · exact fun slot _ same => absurd same (metaBeside S other slot)
      · intro slot bytes same after
        obtain ⟨old,content⟩ := Fs.writeAtFound after
        rw [← same] at content
        exact (Fs.writeAtDir _ _ _ _ _).trans (shows_.housed slot old content)

theorem removesShows {other : Slot} (shows_ : Shows S s)
    (worked : (s.disk.remove (S.filePath other)).1 = true) : Shows S (s.removes (S.filePath other)) := by
  have disk : ∀ q, q ≠ S.filePath other → (s.removes (S.filePath other)).disk.get q = s.disk.get q :=
    fun q beside => Fs.removeElsewhere beside
  have missing : (s.removes (S.filePath other)).disk.content (S.filePath other) = none := by
    simp only [Yard.removes,Fs.remove] at worked ⊢
    split
    · simp [Fs.content,Fs.getDropSame _ (fileInner S other)]
    · rename_i taken
      split at worked
      · rename_i b found
        exact (taken b found).elim
      · cases worked
  refine besideShows shows_ ⟨?_,disk⟩ ?_ (dirsBeside (t := s.removes _) disk (.inl rfl)) ?_ ?_ ?_ ?_
  · intro q beside
    simp only [Yard.removes,author,Authors.authorThen,Authors.apply,if_neg beside]
  · intro w file found
    refine ⟨_,by rw [Yard.removes,List.getElem?_map,found,Option.map_some],fun q path other => ?_,?_⟩
    · rw [if_neg fun here => other (Option.some.inj (path.symm.trans here))]
      exact ⟨path,rfl⟩
    · intro _
      split <;> rfl
  · intro slot w _ mine
    simp [Yard.removes,author,Authors.authorThen,Authors.apply] at mine
  · exact fun slot _ same => absurd same (metaBeside S other slot)
  · intro w file q found path
    rw [Yard.removes,List.getElem?_map,Option.map_eq_some_iff] at found
    obtain ⟨was,among,rfl⟩ := found
    split at path
    · cases path
    · exact shows_.placed w was q among path
  · intro slot b _ there
    rw [missing] at there
    cases there

theorem writeContent {disk : Fs} {p : Path} {b : Bytes} (inner : p ≠ [])
    (worked : (disk.write p b).1 = true) : (disk.write p b).2.content p = some b := by
  unfold Fs.write at worked ⊢
  split
  · exact Fs.contentPut _ inner b
  · rename_i taken
    rw [if_neg taken] at worked
    cases worked

theorem filesShows {other : Slot} {w : Nat} {b : Bytes} (shows_ : Shows S s)
    (known : w < s.opened.length) (fresh : ∀ file, s.opened[w]? = some file → file.filed = none)
    (worked : (s.disk.write (S.metaPath other) b).1 = true) : Shows S (s.files w (S.metaPath other) b) := by
  have disk : ∀ q, q ≠ S.metaPath other → (s.files w (S.metaPath other) b).disk.get q = s.disk.get q :=
    fun q beside => Fs.writeElsewhere beside
  have found := List.getElem?_eq_getElem known
  refine besideShows shows_ ⟨?_,disk⟩ ?_ (dirsBeside (t := s.files _ _ _) disk (.inr rfl)) ?_ ?_ ?_ ?_
  · intro q beside
    simp only [Yard.files,author,Authors.authorThen,Authors.apply,if_neg beside]
  · intro v file among
    by_cases mine : w = v
    · subst mine
      refine ⟨{file with filed := some b},?_,fun q path _ => ⟨path,rfl⟩,fun filed => ?_⟩
      · simp [Yard.files,among]
      · exact absurd (fresh file among) filed
    · exact ⟨file,by simp [Yard.files,mine,among],fun q path _ => ⟨path,rfl⟩,
        fun _ => rfl⟩
  · exact fun slot _ same => absurd same.symm (metaBeside S slot other)
  · intro slot v _ mine
    simp only [Yard.files,author,Authors.authorThen,Authors.apply,if_true,Option.some.injEq] at mine
    subst mine
    refine ⟨{s.opened[w] with filed := some b},b,?_,rfl,?_⟩
    · simp [Yard.files,found]
    · exact writeContent (metaInner S other) worked
  · intro v file q among path
    rw [Yard.files,List.getElem?_modify,Option.map_eq_map,Option.map_eq_some_iff] at among
    obtain ⟨was,there,rfl⟩ := among
    refine shows_.placed v was q there ?_
    split at path <;> exact path
  · exact fun slot _ same => absurd same.symm (metaBeside S slot other)

theorem spoilsShows {other : Slot} (shows_ : Shows S s) (b : Bytes) :
    Shows S (s.spoils (S.metaPath other) b) := by
  have disk : ∀ q, q ≠ S.metaPath other → (s.spoils (S.metaPath other) b).disk.get q = s.disk.get q :=
    fun q beside => Fs.writeElsewhere beside
  refine besideShows shows_ ⟨?_,disk⟩ ?_ (dirsBeside (t := s.spoils _ _) disk (.inr rfl)) ?_ ?_ ?_ ?_
  · intro q beside
    simp only [Yard.spoils,author,Authors.authorThen,Authors.apply,if_neg beside]
  · exact fun w file found => ⟨file,found,fun q path _ => ⟨path,rfl⟩,fun _ => rfl⟩
  · exact fun slot _ same => absurd same.symm (metaBeside S slot other)
  · intro slot w _ mine
    simp [Yard.spoils,author,Authors.authorThen,Authors.apply] at mine
  · exact shows_.placed
  · exact fun slot _ same => absurd same.symm (metaBeside S slot other)

theorem makesContent (disk : Fs) (p q : Path) :
    (disk.createDirAll p).2.content q = disk.content q := by
  unfold Fs.content
  rcases Fs.createDirAllEffect disk p q with same | ⟨missing,made,-⟩
  · rw [same]
  · rw [missing,made]

theorem makesShows (shows_ : Shows S s) (p : Path) : Shows S (s.makes p) where
  bodies slot w mine := by
    obtain ⟨file,found,path,content⟩ := shows_.bodies slot w mine
    exact ⟨file,found,path,(makesContent _ _ _).trans content⟩
  docs slot w mine := by
    obtain ⟨file,b,found,filed,content⟩ := shows_.docs slot w mine
    exact ⟨file,b,found,filed,(makesContent _ _ _).trans content⟩
  placed := shows_.placed
  housed slot b found := by
    have dir := shows_.housed slot b ((makesContent _ _ _).symm.trans found)
    exact Fs.createDirAllStays dir

/- What lies in a slot after the rename was in a slot before. -/
theorem shiftsFrom {old new : Path} (shifts : Shifts S old new) (slot : Slot) :
    (∃ other, origin (old,new) (S.userDirPath slot) = some (S.userDirPath other) ∧
      origin (old,new) (S.filePath slot) = some (S.filePath other) ∧
      carried old new (S.filePath other) = S.filePath slot ∧
      origin (old,new) (S.metaPath slot) = some (S.metaPath other)) ∨
    origin (old,new) (S.filePath slot) = none ∧ origin (old,new) (S.metaPath slot) = none := by
  rcases shifts.back slot with ⟨other,same,back⟩ | nowhere
  · have dir := (back []).1
    rw [List.append_nil,List.append_nil] at dir
    obtain ⟨file,into⟩ := back [S.sha256Hex (Postcard.utf8 slot.fileId) ++ ".file"]
    have doc := (back [S.sha256Hex (Postcard.utf8 slot.fileId) ++ ".meta"]).1
    rw [← same] at file into doc
    refine .inl ⟨other,dir,?_,?_,?_⟩
    · rw [filePath,filePath,← same]
      exact file
    · rw [filePath,filePath,← same]
      exact into
    · rw [metaPath,metaPath,← same]
      exact doc
  · exact .inr ⟨nowhere _,nowhere _⟩

theorem movesShows {old new : Path} (shifts : Shifts S old new) (shows_ : Shows S s)
    (worked : (s.disk.rename old new).1 = true) : Shows S (s.moves old new) where
  bodies slot w mine := by
    simp only [Yard.moves,author,Authors.authorThen,Authors.apply] at mine
    rcases shiftsFrom shifts slot with ⟨other,-,from_,into,-⟩ | ⟨nowhere,-⟩
    · rw [from_,Option.bind_some] at mine
      obtain ⟨file,found,path,content⟩ := shows_.bodies other w mine
      refine ⟨{file with path := file.path.map (carried old new)},?_,?_,?_⟩
      · rw [Yard.moves,List.getElem?_map,found,Option.map_some]
      · rw [path,Option.map_some,into]
      · exact (movedContent shifts worked from_).trans content
    · rw [nowhere] at mine
      cases mine
  docs slot w mine := by
    simp only [Yard.moves,author,Authors.authorThen,Authors.apply] at mine
    rcases shiftsFrom shifts slot with ⟨other,-,-,-,from_⟩ | ⟨-,nowhere⟩
    · rw [from_,Option.bind_some] at mine
      obtain ⟨file,b,found,filed,content⟩ := shows_.docs other w mine
      refine ⟨{file with path := file.path.map (carried old new)},b,?_,filed,?_⟩
      · rw [Yard.moves,List.getElem?_map,found,Option.map_some]
      · exact (movedContent shifts worked from_).trans content
    · rw [nowhere] at mine
      cases mine
  placed w file q found path := by
    rw [Yard.moves,List.getElem?_map,Option.map_eq_some_iff] at found
    obtain ⟨was,among,rfl⟩ := found
    obtain ⟨p,there,rfl⟩ := Option.map_eq_some_iff.mp path
    obtain ⟨slot,rfl⟩ := shows_.placed w was p among there
    exact shifts.forth slot
  housed slot b found := by
    rcases shiftsFrom shifts slot with ⟨other,above,from_,-,-⟩ | ⟨nowhere,-⟩
    · have content := (movedContent shifts worked from_).symm.trans found
      have dir := shows_.housed other b content
      unfold Fs.isDir at dir ⊢
      rw [movedGet shifts worked,above,Option.bind_some]
      exact dir
    · rw [Fs.contentOf,movedGet shifts worked,nowhere] at found
      cases found

theorem leavesSome {w : Nat} {file : Opened} (leaves : Leaves w s t) (found : s.opened[w]? = some file) :
    ∃ after : Opened, t.opened[w]? = some after ∧ after.written = file.written ∧
      after.filed = file.filed := by
  obtain ⟨written,filed⟩ := leaves
  rw [found,Option.map_some] at written filed
  obtain ⟨after,there,same⟩ := Option.map_eq_some_iff.mp written
  rw [there,Option.map_some] at filed
  exact ⟨after,there,same,Option.some.inj filed⟩

theorem othersLater {p : Authors.Event Nat Path (Path × Path)} (step : ByOthers g s t)
    (member : p ∈ s.journal) : p ∈ t.journal := step.later.subset member

theorem finishedLater {headers : UploadHeader} {w : Nat} (step : ByOthers g s t) (known : w < s.opened.length)
    (finished : Finished S headers g w s) : Finished S headers g w t := by
  obtain ⟨admitted,writer,⟨file,found,written,filed⟩,announced,opened,saved⟩ := finished
  obtain ⟨after,there,same,same'⟩ := leavesSome (step.leaves w writer known) found
  exact ⟨admitted,writer,⟨after,there,same.trans written,same'.trans filed⟩,announced,othersLater step opened,
    othersLater step saved⟩

def pact (S : Session) : Pact Yard Work where
  rely := ByOthers
  valid := Shows S
  point := Point S
  apart := Apart
  refl_ _ _ := ⟨le_refl _,List.prefix_refl _,fun _ _ _ => ⟨rfl,rfl⟩⟩
  trans_ g s t u one two := by
    refine ⟨one.more.trans two.more,one.later.trans two.later,fun w mine known => ?_⟩
    have first := one.leaves w mine known
    have second := two.leaves w mine (by have := one.more; omega)
    exact ⟨second.written.trans first.written,second.filed.trans first.filed⟩
  stable g s t step _ point := by
    refine ⟨fun w mine => lt_of_lt_of_le (point.known w mine) step.more,fun sent => ?_⟩
    obtain ⟨headers,w,command,finished⟩ := point.finished sent
    exact ⟨headers,w,command,finishedLater step (point.known w finished.writer) finished⟩
  symm_ g h apart w mine same := apart w same mine

inductive Effect (s : Yard) (g : Work) : (Port HostSig).Call → Yard → Work → Prop where
  | idle {c} : Effect s g c s g
  | talks {c h} (off : OffDisk c) (writer : h.writer = g.writer) : Effect s g c s h
  | opens {p} (worked : (s.disk.create p).1 = true) : Effect s g (.here (.fs (.create p))) (s.opens p)
      {g with
        writer := some s.opened.length
        heard := []}
  | writes {p b w} (k : Nat) (mine : g.writer = some w) :
      Effect s g (.here (.fs (.append p b))) (s.writes w (b.take k)) g
  | removes {p} (worked : (s.disk.remove p).1 = true) :
      Effect s g (.here (.fs (.remove p))) (s.removes p) g
  | files {p b w} (mine : g.writer = some w) (worked : (s.disk.write p b).1 = true) :
      Effect s g (.here (.fs (.write p b))) (s.files w p b) g
  | spoils {p b} (part : Bytes) : Effect s g (.here (.fs (.write p b))) (s.spoils p part) g
  | moves {old new} (worked : (s.disk.rename old new).1 = true) :
      Effect s g (.here (.fs (.rename old new))) (s.moves old new) g
  | makes {p} (q : Path) : Effect s g (.here (.fs (.createDirAll p))) (s.makes q) g

theorem appendEffect {p : Path} {b : Bytes} {done_ : Bool}
    (answered : working S (s,g) (.here (.fs (.append p b))) done_ (t,h)) :
    Effect s g (.here (.fs (.append p b))) t h := by
  obtain ⟨rfl,wrote⟩ := answered
  cases mine : h.writer with
  | none =>
    rw [mine] at wrote
    cases wrote
    exact .idle
  | some w =>
    rw [mine] at wrote
    obtain ⟨k,-,rfl⟩ := wrote
    exact .writes k mine

theorem writeEffect {p : Path} {b : Bytes} {done_ : Bool}
    (answered : working S (s,g) (.here (.fs (.write p b))) done_ (t,h)) :
    Effect s g (.here (.fs (.write p b))) t h := by
  obtain ⟨rfl,⟨worked,wrote⟩ | ⟨-,rfl⟩⟩ := answered
  · cases done_ with
    | false =>
      obtain ⟨k,rfl⟩ := wrote
      exact .spoils _
    | true =>
      cases mine : h.writer with
      | none =>
        rw [mine] at wrote
        cases wrote
        exact .spoils _
      | some w =>
        rw [mine] at wrote
        cases wrote
        exact .files mine worked
  · exact .idle

theorem diskEffect {op : Fs.Op} {r : (Port HostSig).Ret (.here (.fs op))}
    (answered : working S (s,g) (.here (.fs op)) r (t,h)) :
    Effect s g (.here (.fs op)) t h := by
  have idle : (t,h) = (s,g) → Effect s g (.here (.fs op)) t h := by
    intro same
    cases same
    exact .idle
  cases op with
  | create p =>
    cases r with
    | false => exact idle (Prod.ext answered.1 answered.2)
    | true =>
      obtain ⟨worked,rfl,rfl⟩ := answered
      exact .opens worked
  | append p b => exact appendEffect answered
  | remove p =>
    cases r with
    | false => exact idle (Prod.ext answered.1 answered.2)
    | true =>
      obtain ⟨worked,rfl,rfl⟩ := answered
      exact .removes worked
  | write p b => exact writeEffect answered
  | rename old new =>
    cases r with
    | false => exact idle (Prod.ext answered.1 answered.2)
    | true =>
      obtain ⟨worked,rfl,rfl⟩ := answered
      exact .moves worked
  | createDirAll p =>
    obtain ⟨rfl,q,-,rfl,-⟩ := answered
    exact .makes q
  | _ => exact idle (Prod.ext answered.1 answered.2)

theorem effects {c : (Port HostSig).Call} {r : (Port HostSig).Ret c}
    (answered : working S (s,g) c r (t,h)) : Effect s g c t h := by
  cases c with
  | recv n =>
    obtain ⟨rfl,rfl⟩ := answered
    exact .talks nofun rfl
  | send b =>
    cases r with
    | error fault =>
      obtain ⟨rfl,rfl⟩ := answered
      exact .idle
    | ok sent =>
      obtain ⟨rfl,rfl⟩ := answered
      exact .talks nofun rfl
  | here c =>
    cases c with
    | fs op => exact diskEffect answered
    | _ =>
      obtain ⟨rfl,rfl⟩ := answered
      exact .idle

theorem laterThen {events : List (Authors.Event Nat Path (Path × Path))} (e) : events <+: events ++ [e] :=
  List.prefix_append _ _

theorem mappedKind {k : Work} {f : Opened → Opened} (same : ∀ file, (f file).written = file.written ∧
    (f file).filed = file.filed) (opened : t.opened = s.opened.map f) (later : s.journal <+: t.journal) :
    ByOthers k s t := by
  refine ⟨by rw [opened,List.length_map],later,fun w _ _ => ⟨?_,?_⟩⟩
  · rw [opened,List.getElem?_map,Option.map_map]
    congr 1
    funext file
    exact (same file).1
  · rw [opened,List.getElem?_map,Option.map_map]
    congr 1
    funext file
    exact (same file).2

theorem quietKind {k : Work} (opened : t.opened = s.opened) (later : s.journal <+: t.journal) :
    ByOthers k s t :=
  ⟨by rw [opened],later,fun w _ _ => ⟨by rw [opened],by rw [opened]⟩⟩

theorem writesKind {k : Work} {w : Nat} (b : Bytes) (others : k.writer ≠ some w) :
    ByOthers k s (s.writes w b) := by
  unfold Yard.writes
  split
  · exact ⟨le_refl _,List.prefix_refl _,fun _ _ _ => ⟨rfl,rfl⟩⟩
  · rename_i file found
    have unlike : ∀ v, k.writer = some v → ∀ after : Opened,
        (s.opened.set w after)[v]? = s.opened[v]? := by
      intro v theirs after
      have apart : w ≠ v := fun same => others (same ▸ theirs)
      rw [List.getElem?_set_ne apart]
    dsimp only
    split
    · refine ⟨by simp,List.prefix_refl _,fun v theirs _ => ?_⟩
      exact ⟨by rw [unlike v theirs],by rw [unlike v theirs]⟩
    · refine ⟨by simp,laterThen _,fun v theirs _ => ?_⟩
      exact ⟨by rw [unlike v theirs],by rw [unlike v theirs]⟩

theorem filesKind {k : Work} {w : Nat} (p : Path) (b : Bytes) (others : k.writer ≠ some w) :
    ByOthers k s (s.files w p b) := by
  refine ⟨by simp [Yard.files],laterThen _,fun v theirs _ => ?_⟩
  have unlike : w ≠ v := fun same => others (same ▸ theirs)
  have same : (s.files w p b).opened[v]? = s.opened[v]? := by
    simp [Yard.files,unlike]
  exact ⟨by rw [same],by rw [same]⟩

theorem effectKind {c : (Port HostSig).Call} (effect : Effect s g c t h) {k : Work} (apart : Apart g k)
    (point : Point S k s) : ByOthers k s t ∧ Apart h k := by
  cases effect with
  | idle => exact ⟨quietKind rfl (List.prefix_refl _),apart⟩
  | talks _ writer =>
    refine ⟨quietKind rfl (List.prefix_refl _),fun w mine => apart w ?_⟩
    rw [← writer]
    exact mine
  | opens worked =>
    refine ⟨⟨?_,laterThen _,fun w _ known => ?_⟩,fun w mine same => ?_⟩
    · simp [Yard.opens]
    · simp only [Yard.opens]
      exact ⟨by rw [List.getElem?_append_left known],by rw [List.getElem?_append_left known]⟩
    · cases Option.some.inj mine
      exact absurd (point.known _ same) (lt_irrefl _)
  | writes n mine => exact ⟨writesKind _ (apart _ mine),apart⟩
  | removes worked =>
    exact ⟨mappedKind (fun file => by split <;> exact ⟨rfl,rfl⟩) rfl (laterThen _),apart⟩
  | files mine worked => exact ⟨filesKind _ _ (apart _ mine),apart⟩
  | spoils part => exact ⟨quietKind rfl (laterThen _),apart⟩
  | @moves old new worked =>
    exact ⟨mappedKind (f := fun file => {file with path := file.path.map (carried old new)})
      (fun file => ⟨rfl,rfl⟩) rfl (laterThen _),apart⟩
  | makes q => exact ⟨quietKind rfl (List.prefix_refl _),apart⟩

def Permitted (S : Session) : (Port HostSig).Call → Prop
  | .here (.fs (.create p)) => ∃ slot, p = S.filePath slot
  | .here (.fs (.remove p)) => ∃ slot, p = S.filePath slot
  | .here (.fs (.write p _)) => ∃ slot, p = S.metaPath slot
  | .here (.fs (.rename old new)) => Shifts S old new
  | _ => True

def Unsaved (g : Work) (s : Yard) : Prop :=
  ∀ w, g.writer = some w → ∀ file : Opened, s.opened[w]? = some file → file.filed = none

theorem effectShows {c : (Port HostSig).Call} (effect : Effect s g c t h) (permitted : Permitted S c)
    (shows_ : Shows S s) (known : ∀ w, g.writer = some w → w < s.opened.length)
    (unsaved : (∃ p b, c = .here (.fs (.write p b))) → Unsaved g s) : Shows S t := by
  cases effect with
  | idle => exact shows_
  | talks _ _ => exact shows_
  | opens worked =>
    obtain ⟨slot,rfl⟩ := permitted
    exact opensShows shows_ worked
  | @writes p b w k mine => exact writesShows shows_ w _
  | removes worked =>
    obtain ⟨slot,rfl⟩ := permitted
    exact removesShows shows_ worked
  | @files p b w mine worked =>
    obtain ⟨slot,rfl⟩ := permitted
    exact filesShows shows_ (known w mine) (unsaved ⟨_,_,rfl⟩ w mine) worked
  | spoils part =>
    obtain ⟨slot,rfl⟩ := permitted
    exact spoilsShows shows_ part
  | moves worked => exact movesShows permitted shows_ worked
  | makes q => exact makesShows shows_ q

theorem effectKnown {c : (Port HostSig).Call} (effect : Effect s g c t h)
    (known : ∀ w, g.writer = some w → w < s.opened.length) (w : Nat) (mine : h.writer = some w) :
    w < t.opened.length := by
  cases effect with
  | idle => exact known w mine
  | talks _ writer => exact known w (writer ▸ mine)
  | opens worked =>
    cases Option.some.inj mine
    simp [Yard.opens]
  | @writes p b v k _ =>
    have small := known w mine
    unfold Yard.writes
    split
    · exact small
    · dsimp only
      split <;> simpa using small
  | removes worked => simpa [Yard.removes] using known w mine
  | files _ worked => simpa [Yard.files] using known w mine
  | spoils part => exact known w mine
  | moves worked => simpa [Yard.moves] using known w mine
  | makes q => exact known w mine

theorem unsentDecent {c : (Port HostSig).Call} {r : (Port HostSig).Ret c}
    (answered : working S (s,g) c r (t,h)) (permitted : Permitted S c) (shows_ : Shows S s)
    (point : Point S g s) (unsaved : (∃ p b, c = .here (.fs (.write p b))) → Unsaved g s)
    (unsent : ¬ h.succeeded) : Guild.Decent (pact S) ⟨t,h,s,g⟩ where
  valid := effectShows (effects answered) permitted shows_ point.known unsaved
  point := ⟨effectKnown (effects answered) point.known,fun sent => absurd sent unsent⟩
  kind _ apart theirs := effectKind (effects answered) apart theirs

end

section
variable {S : Session} {headers : UploadHeader} {told : Bytes} {fact : Work → Yard → Prop} {α β : Type}
  {s t : Yard} {g h : Work} {u : Shift Yard Work}

abbrev Decent (S : Session) (u : Shift Yard Work) : Prop := Guild.Decent (pact S) u

abbrev Works (S : Session) (post : α → Shift Yard Work → Prop) (p : Party α) (u : Shift Yard Work) : Prop :=
  Safe (Guild.disturbed (working S) (pact S)) (Decent S) (Returns post) p u

structure Whose (S : Session) (g : Work) : Prop where
  sessionKey : g.sessionKey = S.sessionKey
  clientKey : g.clientKey = S.clientKey

structure Serves (S : Session) (headers : UploadHeader) (g : Work) : Prop where
  whose : Whose S g
  admitted : Admitted S.maxFileSize headers
  command : g.command = some (.upload headers)

structure At (S : Session) (headers : UploadHeader) (told : Bytes) (fact : Work → Yard → Prop)
    (u : Shift Yard Work) : Prop where
  decent : Decent S u
  serves : Serves S headers u.notes
  heard : u.notes.heard = told
  unsent : ¬ u.notes.succeeded
  known : fact u.notes u.shared

def Lasts (fact : Work → Yard → Prop) : Prop := ∀ g s t, ByOthers g s t → fact g s → fact g t

def Holding (written : Bytes) (filed : Option Bytes) (paths : List Path) (g : Work) (s : Yard) : Prop :=
  ∃ w, g.writer = some w ∧ (∃ file : Opened, s.opened[w]? = some file ∧ file.written = written ∧
    file.filed = filed) ∧ ∀ p ∈ paths, .took w p ∈ s.journal

theorem holdingLasts (written : Bytes) (filed : Option Bytes) (paths : List Path) :
    Lasts (Holding written filed paths) := by
  rintro g s t step ⟨w,writer,⟨file,found,same,same'⟩,took⟩
  have known := (List.getElem?_eq_some_iff.mp found).1
  obtain ⟨after,there,still,still'⟩ := leavesSome (step.leaves w writer known) found
  exact ⟨w,writer,⟨after,there,still.trans same,still'.trans same'⟩,fun p member =>
    othersLater step (took p member)⟩

theorem trueLasts : Lasts fun _ _ => True := fun _ _ _ _ _ => trivial

def Still (S : Session) (c : (Port HostSig).Call) : Prop :=
  ∀ s g r t h, Whose S g → working S (s,g) c r (t,h) → t = s ∧ h = g

theorem stillHere {c : HostCall} (other : ∀ op, c ≠ .fs op) : Still S (.here c) := by
  intro s g r t h _ answered
  cases c with
  | fs op => exact absurd rfl (other op)
  | _ => exact answered

theorem stillSend {b : Bytes} (other : ∀ headers, ¬ Success S headers b) : Still S (.send b) := by
  intro s g r t h whose answered
  cases r with
  | error fault => exact answered
  | ok sent =>
    obtain ⟨same,notes⟩ := answered
    have none_ : ¬ ∃ headers, g.command = some (.upload headers) ∧
        Success (S.connected g.sessionKey g.clientKey) headers b := by
      rintro ⟨headers,-,success⟩
      rw [whose.sessionKey,whose.clientKey] at success
      exact other headers success
    refine ⟨same,?_⟩
    rw [notes,Sends]
    simp only [none_,or_false]

theorem stillFrame {data : Bytes} (other : ∀ response, data ≠ 1 :: UploadResponse.serialize response) :
    Confined (Still S) (S.writeEncryptFrameInto data) := by
  refine confinedFrame (stillHere nofun) fun nonce => stillSend ?_
  rintro headers ⟨nonce',networkElapsed,same⟩
  exact other _ (frameOpens same)

theorem stillFailed (e : ErrorHeader) : Confined (Still S) (S.sendFailed e) :=
  confinedBind (stillFrame fun _ same => absurd (List.cons.inj same).1 (by decide))
    fun _ => shutdownConfined (stillHere nofun)

theorem stillAck : Confined (Still S) (S.writeEncryptFrameInto [1]) := by
  refine stillFrame fun response same => ?_
  have first := Postcard.varintNonempty (Postcard.utf8 response.fileId).length
  have lengths := congrArg List.length same
  simp only [UploadResponse.serialize,Postcard.string,List.length_cons,List.length_nil,
    List.length_append] at lengths
  omega

theorem stillKeeps {p : Party α} (lasts : Lasts fact) (start : At S headers told fact u)
    (still : Confined (Still S) p) : Works S (fun _ => At S headers told fact) p u := by
  have part : Works S (fun _ v => Serves S headers v.notes ∧ v.notes.heard = told ∧
      ¬ v.notes.succeeded ∧ fact v.notes v.shared) p u := by
    refine Guild.partSafe (fun g s => Serves S headers g ∧ g.heard = told ∧ ¬ g.succeeded ∧ fact g s)
      start.decent ⟨start.serves,start.heard,start.unsent,start.known⟩ ?_ still ?_
    · exact fun g s t step _ held => ⟨held.1,held.2.1,held.2.2.1,lasts g s t step held.2.2.2⟩
    · intro s g c r t h still held point known answered
      obtain ⟨rfl,rfl⟩ := still s g r t h known.1.whose answered
      exact ⟨Guild.startDecent held point,known⟩
  refine safeWeaken part ?_
  rintro (a | message | _) v decent known
  · exact ⟨decent,known.1,known.2.1,known.2.2.1,known.2.2.2⟩
  · trivial
  · trivial

theorem restWorks {p : Party Unit} (decent : Decent S u) (whose : Whose S u.notes)
    (still : Confined (Still S) p) : Works S (fun _ _ => True) p u := by
  have part : Works S (fun _ v => Whose S v.notes) p u := by
    refine Guild.partSafe (fun g _ => Whose S g) decent whose (fun _ _ _ _ _ held => held) still ?_
    intro s g c r t h still held point whose answered
    obtain ⟨rfl,rfl⟩ := still s g r t h whose answered
    exact ⟨Guild.startDecent held point,whose⟩
  exact safeWeaken part fun result _ _ _ => by cases result <;> trivial

theorem fsNotes {op : Fs.Op} {r : op.Ret} (answered : working S (s,g) (.here (.fs op)) r (t,h)) :
    h.command = g.command ∧ h.sessionKey = g.sessionKey ∧ h.clientKey = g.clientKey ∧
      h.succeeded = g.succeeded := by
  cases effects answered with
  | talks off _ => exact absurd rfl (off op)
  | _ => exact ⟨rfl,rfl,rfl,rfl⟩

theorem fsWorks {op : Fs.Op} {f : op.Ret → Party β} {post : β → Shift Yard Work → Prop} (lasts : Lasts fact)
    (start : At S headers told fact u) (permitted : Permitted S (.here (.fs op)))
    (unsaved : (∃ p b, op = .write p b) → ∀ g s, fact g s → Unsaved g s)
    (each : ∀ s t h answer, fact u.notes s → working S (s,u.notes) (.here (.fs op)) answer (t,h) →
      Decent S ⟨t,h,s,u.notes⟩ → Serves S headers h → ¬ h.succeeded →
      Works S post (f answer) ⟨t,h,s,u.notes⟩) : Works S post (fs op >>= f) u := by
  refine Guild.callSafe (fact u.notes) start.decent (fun s t step _ known => lasts _ s t step known)
    start.known ?_
  intro s answer t h held point known answered
  obtain ⟨command,sessionKey,clientKey,succeeded⟩ := fsNotes answered
  have unsent : ¬ h.succeeded := by
    rw [succeeded]
    exact start.unsent
  refine each s t h answer known answered (unsentDecent answered permitted held point ?_ unsent)
    ⟨⟨sessionKey.trans start.serves.whose.sessionKey,clientKey.trans start.serves.whose.clientKey⟩,
      start.serves.admitted,command.trans start.serves.command⟩ unsent
  rintro ⟨p,b,same⟩
  exact unsaved ⟨p,b,HostCall.fs.inj (PortCall.here.inj same)⟩ _ _ known

theorem makesWorks (p : Path) (start : At S headers told (fun _ _ => True) u) :
    Works S (fun _ => At S headers told fun _ _ => True) (createDirAll p) u := by
  refine fsWorks trueLasts start trivial (fun none_ => by simp at none_) ?_
  intro s t h made _ answered decent serves unsent
  have heard : h.heard = told := by
    rw [answered.1]
    exact start.heard
  cases (show Bool from made) with
  | true => exact ⟨decent,decent,serves,heard,unsent,trivial⟩
  | false => exact ⟨decent,trivial⟩

theorem opensWorks (start : At S headers told (fun _ _ => True) u) :
    Works S (fun _ => At S headers [] (Holding [] none [S.filePath (source S headers)]))
      (create (S.filePath (source S headers))) u := by
  refine fsWorks trueLasts start ⟨_,rfl⟩ (fun none_ => by simp at none_) ?_
  intro s t h made _ answered decent serves unsent
  cases made with
  | false => exact ⟨decent,trivial⟩
  | true =>
    obtain ⟨-,rfl,rfl⟩ := answered
    refine ⟨decent,decent,serves,rfl,unsent,s.opened.length,rfl,
      ⟨⟨some (S.filePath (source S headers)),[],none⟩,by simp [Yard.opens],rfl,rfl⟩,?_⟩
    · intro p member
      rw [List.mem_singleton.mp member]
      simp [Yard.opens]

theorem writesHolding {w : Nat} {file : Opened} (found : s.opened[w]? = some file) (b : Bytes) :
    ∃ after : Opened, (s.writes w b).opened[w]? = some after ∧ after.written = file.written ++ b ∧
      after.filed = file.filed := by
  have small := (List.getElem?_eq_some_iff.mp found).1
  unfold Yard.writes
  rw [found]
  dsimp only
  split
  · exact ⟨_,List.getElem?_set_self small,rfl,rfl⟩
  · exact ⟨_,List.getElem?_set_self small,rfl,rfl⟩

theorem writesLater (s : Yard) (w : Nat) (b : Bytes) : s.journal <+: (s.writes w b).journal := by
  unfold Yard.writes
  split
  · exact List.prefix_refl _
  · dsimp only
    split
    · exact List.prefix_refl _
    · exact laterThen _

theorem appendWorks {written : Bytes} {paths : List Path} (path : Path)
    (start : At S headers told (Holding written none paths) u) (b : Bytes) :
    Works S (fun _ => At S headers told (Holding (written ++ b) none paths)) (append path b) u := by
  refine fsWorks (holdingLasts _ _ _) start trivial (fun none_ => by simp at none_) ?_
  intro s t h done_ held answered decent serves unsent
  obtain ⟨w,writer,⟨file,found,same,filed⟩,took⟩ := held
  obtain ⟨rfl,wrote⟩ := answered
  cases done_ with
  | false => exact ⟨decent,trivial⟩
  | true =>
    rw [writer] at wrote
    obtain ⟨k,whole,rfl⟩ := wrote
    rw [List.take_of_length_le (whole rfl)] at decent ⊢
    obtain ⟨after,there,added,still⟩ := writesHolding found b
    refine ⟨decent,decent,serves,start.heard,unsent,w,writer,⟨after,there,?_,still.trans filed⟩,?_⟩
    · rw [added,same]
    · exact fun p member => (writesLater s w b).subset (took p member)

theorem receiveWorks {text : String} {path : Path} {fileSize : Nat} {decBuf : Bytes} {paths : List Path}
    (start : At S headers [] (Holding [] none paths) u) :
    Works S (fun found v => (∃ written, At S headers found.hashed (Holding written none paths) v ∧
        written ++ found.pending = found.hashed) ∧ found.hashed.length = fileSize)
      (S.receiveLoop text path fileSize decBuf [] [] 0) u := by
  refine receiveTold (fun told written => At S headers told (Holding written none paths))
    (fun _ _ _ filling => filling.decent) (fun _ _ _ b filling => appendWorks path filling b) ?_ text start
    (List.append_nil []) rfl (Nat.zero_le _)
  rintro told written ⟨s',g,_,_⟩ n r ⟨t,h,s,k⟩ ⟨decent,serves,heard,unsent,holding⟩
    ⟨since,held,noted,answered⟩
  dsimp only at since held noted answered serves heard unsent holding
  subst noted
  have point := (pact S).stable _ _ _ since held decent.point
  have decent := unsentDecent answered trivial held point (fun none_ => by simp at none_)
    (by rw [answered.2]; exact unsent)
  obtain ⟨rfl,rfl⟩ := answered
  refine ⟨decent,⟨⟨serves.whose.sessionKey,serves.whose.clientKey⟩,serves.admitted,?_⟩,?_,unsent,?_⟩
  · change (k.command <|> _) = _
    rw [serves.command]
    rfl
  · change k.heard ++ _ = _
    rw [heard,serves.whose.sessionKey,serves.whose.clientKey]
    rfl
  · obtain ⟨w,writer,rest⟩ := holdingLasts _ _ _ _ _ _ since holding
    exact ⟨w,writer,rest⟩

theorem savesWorks {content b : Bytes}
    (start : At S headers told (Holding content none [S.filePath (source S headers)]) u) :
    Works S (fun _ => At S headers told (Holding content (some b)
        [S.filePath (source S headers),S.metaPath (source S headers)]))
      (write (S.metaPath (source S headers)) b) u := by
  refine fsWorks (holdingLasts _ _ _) start ⟨_,rfl⟩ ?_ ?_
  · rintro _ g s ⟨w,writer,⟨file,found,-,filed⟩,-⟩ v mine other among
    cases Option.some.inj (writer.symm.trans mine)
    cases Option.some.inj (found.symm.trans among)
    exact filed
  · intro s t h done_ held answered decent serves unsent
    obtain ⟨w,writer,⟨file,found,same,-⟩,took⟩ := held
    obtain ⟨rfl,⟨-,wrote⟩ | ⟨failed,-⟩⟩ := answered
    · cases done_ with
      | false => exact ⟨decent,trivial⟩
      | true =>
        rw [writer] at wrote
        refine ⟨decent,decent,serves,start.heard,unsent,w,writer,⟨{file with filed := some b},?_,same,rfl⟩,?_⟩
        · simp [wrote,Yard.files,found]
        · intro p member
          rw [wrote]
          simp only [Yard.files,List.mem_append,List.mem_singleton]
          rcases List.mem_cons.mp member with rfl | member
          · exact .inl (took _ List.mem_cons_self)
          · exact .inr (by rw [List.mem_singleton.mp member])
    · rw [failed]
      exact ⟨decent,trivial⟩

theorem successWorks {networkElapsed : F32} {f : Unit → Party Unit} (announced : Announced S headers told)
    (start : At S headers told (Holding told (some (UploadHeader.metadata S headers).serialize)
      [S.filePath (source S headers),S.metaPath (source S headers)]) u)
    (rest : Confined (Still S) (f ())) : Works S (fun _ _ => True)
      (S.sendSuccess ⟨headers.fileId,headers.fileHash,networkElapsed⟩ >>= f) u := by
  unfold sendSuccess sendClosing writeEncryptFrameInto
  rw [bindAssoc]
  split
  · exact ⟨start.decent,trivial⟩
  · rw [bindAssoc]
    refine safeThen (stillKeeps (holdingLasts _ _ _) start (confinedHere _ (stillHere nofun))) ?_
    intro nonce v _ known
    refine Guild.callSafe (Holding told (some (UploadHeader.metadata S headers).serialize)
        [S.filePath (source S headers),S.metaPath (source S headers)] v.notes) known.decent
      (fun s t step _ holding => holdingLasts _ _ _ _ _ _ step holding) known.known ?_
    intro s answer t h held point holding answered
    cases answer with
    | error fault =>
      obtain ⟨rfl,rfl⟩ := answered
      exact ⟨Guild.startDecent held point,trivial⟩
    | ok sent =>
      have effect := effects answered
      obtain ⟨rfl,notes⟩ := answered
      have same : h.command = v.notes.command ∧ h.sessionKey = v.notes.sessionKey ∧
          h.clientKey = v.notes.clientKey ∧ h.heard = v.notes.heard ∧ h.writer = v.notes.writer := by
        rw [notes]
        exact ⟨rfl,rfl,rfl,rfl,rfl⟩
      obtain ⟨command,sessionKey,clientKey,heard,writer⟩ := same
      have owner := clientKey.trans known.serves.whose.clientKey
      have told_ := heard.trans known.heard
      have point : Point S h t := by
        refine ⟨fun w mine => point.known w (writer ▸ mine),fun _ => ?_⟩
        obtain ⟨w,mine,⟨file,found,written,filed⟩,took⟩ := holding
        refine ⟨headers,w,command.trans known.serves.command,known.serves.admitted,writer.trans mine,
          ⟨file,found,written.trans told_.symm,filed⟩,?_,?_,?_⟩
        · rw [told_]
          exact announced
        · rw [owner]
          exact took _ List.mem_cons_self
        · rw [owner]
          exact took _ (List.mem_cons_of_mem _ List.mem_cons_self)
      have closes : Confined (Still S) (shutdown >>= f) :=
        confinedBind (shutdownConfined (stillHere nofun)) fun _ => rest
      exact restWorks ⟨held,point,fun k apart theirs => effectKind effect apart theirs⟩
        ⟨sessionKey.trans known.serves.whose.sessionKey,owner⟩ closes

theorem finishWorks {arc : FileLock.Arc} {networkElapsed : F32} {found : Received} {written : Bytes}
    (start : At S headers found.hashed (Holding written none [S.filePath (source S headers)]) u)
    (joined : written ++ found.pending = found.hashed)
    (size : found.hashed.length = headers.fileSize.toNat) :
    Works S (fun _ _ => True) (S.finishUpload headers arc networkElapsed found) u := by
  unfold finishUpload
  refine safeThen (bufFlushFills
    (fun written => At S headers found.hashed (Holding written none [S.filePath (source S headers)]))
    (fun _ _ filling => filling.decent) (fun _ _ b filling => appendWorks _ filling b) start) ?_
  intro _ v _ flushed
  rw [joined] at flushed
  dsimp only
  split
  · refine fsWorks (holdingLasts _ _ _) flushed ⟨_,rfl⟩ (fun none_ => by simp at none_) ?_
    intro s t h removed _ answered decent serves unsent
    exact restWorks decent serves.whose (stillFailed _)
  · rename_i same
    have hash := Decidable.not_not.mp same
    refine safeThen (savesWorks flushed) ?_
    intro _ w _ saved
    rw [hash]
    refine successWorks ⟨size,hash⟩ saved ?_
    refine confinedBind (confinedHere _ (stillHere nofun)) fun _ => ?_
    refine confinedBind (confinedHere _ (stillHere nofun)) fun _ => ?_
    exact confinedHere _ (stillHere nofun)

theorem uploadWorks (start : At S headers told (fun _ _ => True) u) :
    Works S (fun _ _ => True) (S.handleUpload headers) u := by
  unfold handleUpload
  refine safeThen (stillKeeps trueLasts start (confinedHere _ (stillHere nofun))) ?_
  intro arc _ _ begun
  refine safeThen (stillKeeps trueLasts begun (confinedHere _ (stillHere nofun))) ?_
  intro locked _ _ begun
  split
  · refine safeThen (makesWorks _ begun) ?_
    intro _ _ _ made
    refine safeThen (stillKeeps trueLasts made (confinedLift _)) ?_
    intro _ _ _ made
    refine safeThen (stillKeeps trueLasts made stillAck) ?_
    intro _ _ _ made
    refine safeThen (stillKeeps trueLasts made (confinedHere _ (stillHere nofun))) ?_
    intro networkElapsed _ _ made
    refine safeThen (opensWorks made) ?_
    intro _ _ _ opened
    refine safeThen (receiveWorks opened) ?_
    rintro found _ _ ⟨⟨written,filling,joined⟩,size⟩
    exact finishWorks filling joined size
  · exact restWorks begun.decent begun.serves.whose (stillFailed _)

end

def Aside (S : Session) : (Port HostSig).Call → Prop
  | .here (.fs (.create _)) => False
  | .here (.fs (.append _ _)) => False
  | .here (.fs (.remove _)) => False
  | .here (.fs (.write _ _)) => False
  | .here (.fs (.rename old new)) => Shifts S old new
  | _ => True

section
variable {S : Session} {u : Shift Yard Work}

theorem frameAside (data : Bytes) : Confined (Aside S) (S.writeEncryptFrameInto data) :=
  confinedFrame trivial fun _ => trivial

theorem closingAside (data : Bytes) : Confined (Aside S) (S.sendClosing data) :=
  confinedClosing trivial (fun _ => trivial) trivial

theorem createAside (pubKey : Bytes) : Confined (Aside S) (S.createKeyDirs pubKey) := by
  unfold createKeyDirs
  refine confinedBind (confinedHere _ trivial) fun listed => ?_
  refine confinedBind (confinedHere _ trivial) fun isDir => ?_
  split
  · exact closingAside _
  · split
    · exact closingAside _
    · refine confinedBind (confinedHere _ trivial) fun stored => ?_
      have looked : Confined (Aside S) (andExists stored (S.authPath pubKey)) := by
        unfold andExists
        split
        · exact confinedHere _ trivial
        · trivial
      refine confinedBind looked fun both => ?_
      split
      · exact closingAside _
      · refine confinedBind (confinedHere _ trivial) fun keyMade => ?_
        refine confinedBind (confinedHere _ trivial) fun storageMade => ?_
        split
        · exact frameAside _
        · exact closingAside _

theorem renameAside (old new : Bytes) : Confined (Aside S) (S.renameKeyDirs old new) := by
  unfold renameKeyDirs
  refine confinedBind (confinedHere _ trivial) fun stored => ?_
  split
  · refine confinedBind (confinedHere _ (authShifts old new)) fun keyMoved => ?_
    refine confinedBind (confinedHere _ (storageShifts old new)) fun storageMoved => ?_
    split
    · exact frameAside _
    · exact closingAside _
  · trivial

theorem authAside (flag : UInt8) : Confined (Aside S) (S.handleAuthKeys flag) := by
  unfold handleAuthKeys
  refine confinedBind (confinedHere _ trivial) fun random => ?_
  refine confinedBind (frameAside _) fun _ => ?_
  split
  · refine confinedBind (readConfined fun _ => trivial) fun headerBytes => ?_
    unfold registerKey
    refine confinedBind (confinedLift _) fun (nonce,signatureNewKey) => ?_
    refine confinedBind (confinedLift _) fun (signature,newKey) => ?_
    simp only []
    split
    · trivial
    · exact closingAside _
    · exact createAside _
  · split
    · refine confinedBind (readConfined fun _ => trivial) fun headerBytes => ?_
      unfold rotateKey
      refine confinedBind (confinedLift _) fun (nonce,signatureNewKeyOldKey) => ?_
      refine confinedBind (confinedLift _) fun (signature,newKeyOldKey) => ?_
      refine confinedBind (confinedLift _) fun (oldKey,newKey) => ?_
      simp only []
      split
      · trivial
      · exact closingAside _
      · split
        · trivial
        · trivial
        · exact renameAside _ _
    · exact closingAside _

theorem echoAside (rounds : Nat) : Confined (Aside S) (S.handleEchoPerf rounds) :=
  echoConfined (fun _ => trivial) trivial (fun _ => frameAside _) rounds

theorem downloadAside (headers : DownloadHeader) : Confined (Aside S) (S.handleDownload headers) := by
  refine downloadConfined ?_ headers (fun _ _ => trivial) trivial fun _ => trivial
  intro c blind
  cases c with
  | here c =>
    cases c with
    | fs op => exact blind.elim
    | _ => trivial
  | _ => trivial

theorem statusAside : Confined (Aside S) S.sendStatus := by
  unfold sendStatus
  refine confinedBind (confinedHere _ trivial) fun uptime => ?_
  refine confinedBind (confinedHere _ trivial) fun totals => ?_
  refine confinedBind (confinedHere _ trivial) fun dirs => ?_
  split
  · trivial
  · refine confinedBind (confinedHere _ trivial) fun now => ?_
    exact closingAside _

theorem asideNotes {c : (Port HostSig).Call} {r : (Port HostSig).Ret c} {s t : Yard} {g h : Work}
    (answered : working S (s,g) c r (t,h)) (other : ∀ headers, g.command ≠ some (.upload headers))
    (silent : g.command = none → ∀ n, c ≠ .recv n) (unsent : ¬ g.succeeded) :
    h.command = g.command ∧ ¬ h.succeeded := by
  cases c with
  | recv n =>
    obtain ⟨-,rfl⟩ := answered
    refine ⟨?_,unsent⟩
    change (g.command <|> _) = _
    cases known : g.command with
    | none => exact absurd rfl (silent known n)
    | some command => rfl
  | send b =>
    cases r with
    | error fault =>
      obtain ⟨-,rfl⟩ := answered
      exact ⟨rfl,unsent⟩
    | ok sent =>
      obtain ⟨-,rfl⟩ := answered
      refine ⟨rfl,?_⟩
      rintro (before | ⟨headers,command,-⟩)
      · exact unsent before
      · exact other headers command
  | here c =>
    cases c with
    | fs op =>
      obtain ⟨command,-,-,succeeded⟩ := fsNotes answered
      rw [command,succeeded]
      exact ⟨rfl,unsent⟩
    | _ =>
      obtain ⟨-,rfl⟩ := answered
      exact ⟨rfl,unsent⟩

theorem asideWorks {p : Party Unit} (decent : Decent S u) (other : ∀ headers, u.notes.command ≠ some (.upload headers))
    (unsent : ¬ u.notes.succeeded)
    (aside : Confined (fun c => Aside S c ∧ (u.notes.command = none → ∀ n, c ≠ .recv n)) p) :
    Works S (fun _ _ => True) p u := by
  have part : Works S (fun _ v => v.notes.command = u.notes.command ∧ ¬ v.notes.succeeded) p u := by
    refine Guild.partSafe (fun g _ => g.command = u.notes.command ∧ ¬ g.succeeded) decent
      ⟨rfl,unsent⟩ ?_ aside ?_
    · intro g s t _ _ held
      exact held
    rintro s g c r t h ⟨among,silent⟩ held point ⟨same,unsent⟩ answered
    have later : h.command = u.notes.command ∧ ¬ h.succeeded := by
      rw [← same] at silent other ⊢
      exact asideNotes answered other silent unsent
    have permitted : Permitted S c := by
      cases c with
      | here c =>
        cases c with
        | fs op => cases op <;> first | exact trivial | exact among.elim | exact among
        | _ => trivial
      | _ => trivial
    refine ⟨unsentDecent answered permitted held point ?_ later.2,later⟩
    rintro ⟨p,b,rfl⟩
    exact among.elim
  exact safeWeaken part fun result _ _ _ => by cases result <;> trivial

theorem dispatchWorks {command : Command} (decent : Decent S u) (whose : Whose S u.notes)
    (unsent : ¬ u.notes.succeeded) (mine : u.notes.command = some command)
    (arrived : ∃ plain, Frame.Fits plain ∧ Command.deserialize plain = .ok command) :
    Works S (fun _ _ => True) (S.dispatch command) u := by
  have aside : ∀ {p : Party Unit}, (∀ headers, command ≠ .upload headers) → Confined (Aside S) p →
      Works S (fun _ _ => True) p u := by
    intro p other aside
    refine asideWorks decent (fun headers same => ?_) unsent (confinedWiden aside fun c among =>
      ⟨among,fun none_ => ?_⟩)
    · rw [mine] at same
      exact other headers (Option.some.inj same)
    · rw [mine] at none_
      cases none_
  cases command with
  | echo =>
    refine aside (by simp) ?_
    simp only [dispatch]
    split
    · exact echoAside _
    · exact closingAside _
  | auth flags => exact aside (by simp) (authAside flags)
  | upload headers =>
    simp only [dispatch]
    split
    · rename_i valid
      exact uploadWorks ⟨decent,⟨whose,⟨arrived,valid⟩,mine⟩,rfl,unsent,trivial⟩
    · exact restWorks decent whose (stillFailed _)
    · exact ⟨decent,trivial⟩
  | download headers =>
    refine aside (by simp) ?_
    simp only [dispatch]
    split
    · exact downloadAside headers
    · exact closingAside _
    · trivial
  | status => exact aside (by simp) statusAside

def Ends (S : Session) : Outcome Command → Shift Yard Work → Prop
  | .ok command, v => (Whose S v.notes ∧ ¬ v.notes.succeeded) ∧ v.notes.command = some command
  | .err _, v => (Whose S v.notes ∧ ¬ v.notes.succeeded) ∧ v.notes.command = none
  | .panic, _ => True

theorem readWorks {n : Nat} {next : (Port HostSig).Ret (.recv n) → Party α}
    {post : Outcome α → Shift Yard Work → Prop} (decent : Decent S u) (whose : Whose S u.notes)
    (unsent : ¬ u.notes.succeeded) (none_ : u.notes.command = none)
    (each : ∀ answer v, Decent S v → (Whose S v.notes ∧ ¬ v.notes.succeeded) →
      v.notes.command = decoded (S.heard answer) →
      Safe (Guild.disturbed (working S) (pact S)) (Decent S) post (next answer) v) :
    Safe (Guild.disturbed (working S) (pact S)) (Decent S) post (.call (PortCall.recv n) next) u := by
  refine Guild.callSafe (fun _ => True) decent (fun _ _ _ _ _ => trivial) trivial ?_
  intro s answer t h held point _ answered
  have later := unsentDecent answered trivial held point (fun none_ => by simp at none_)
    (by rw [answered.2]; exact unsent)
  obtain ⟨rfl,rfl⟩ := answered
  refine each answer _ later ⟨⟨whose.sessionKey,whose.clientKey⟩,unsent⟩ ?_
  change (u.notes.command <|> decoded _) = _
  rw [none_,whose.sessionKey,whose.clientKey]
  rfl

theorem nothingDecoded : decoded [] = none := by decide

theorem heardOk {n : Nat} (box : {b : Bytes // b.length = n}) :
    S.heard (n := n) (.ok box) = (S.cipher.opened S.sessionKey box.val).getD [] := rfl

theorem lengthUnheard (lenBuf : {b : Bytes // b.length = 4}) : S.heard (n := 4) (.ok lenBuf) = [] := by
  rw [heardOk]
  cases opened : S.cipher.opened S.sessionKey lenBuf.val with
  | none => rfl
  | some plain =>
    have size := S.cipher.openedLength opened
    rw [lenBuf.property] at size
    unfold nonceLen at size
    omega

theorem headersWorks (decent : Decent S u) (whose : Whose S u.notes) (unsent : ¬ u.notes.succeeded)
    (none_ : u.notes.command = none) :
    Safe (Guild.disturbed (working S) (pact S)) (Decent S) (Ends S) S.readHeaders u := by
  unfold readHeaders
  refine safeBind ?_
  unfold readEncryptDataInto
  refine safeBind ?_
  unfold readFrameLength
  refine readWorks decent whose unsent none_ ?_
  intro answer v decent reading command
  have undecoded : v.notes.command = none := by
    rw [command]
    cases answer with
    | error fault => exact nothingDecoded
    | ok lenBuf => rw [lengthUnheard,nothingDecoded]
  cases answer with
  | error fault => cases fault <;> exact ⟨decent,reading,undecoded⟩
  | ok lenBuf =>
    change Safe _ _ _ (.done (Frame.admitLength (Frame.fromBe32 lenBuf.val))) v
    cases Frame.admitLength (Frame.fromBe32 lenBuf.val) with
    | err message => exact ⟨decent,reading,undecoded⟩
    | panic => exact ⟨decent,trivial⟩
    | ok ciphertextLen =>
      refine ⟨decent,?_⟩
      change Safe _ _ _ (if ciphertextLen < nonceLen + tagLen then _ else _) v
      split
      · exact ⟨decent,reading,undecoded⟩
      · refine readWorks decent reading.1 reading.2 undecoded ?_
        intro answer w decent reading command
        cases answer with
        | error fault => exact ⟨decent,reading,command.trans nothingDecoded⟩
        | ok box =>
          change Safe _ _ _ (.done (Outcome.ofOption "aead::Error" (S.cipher.opened S.sessionKey box.val))) w
          rw [heardOk] at command
          cases opened : S.cipher.opened S.sessionKey box.val with
          | none =>
            rw [opened] at command
            exact ⟨decent,reading,command.trans nothingDecoded⟩
          | some plain =>
            rw [opened] at command
            refine ⟨decent,?_⟩
            change Safe (Guild.disturbed (working S) (pact S)) (Decent S) (Ends S)
              (.done (Command.deserialize plain)) w
            unfold decoded at command
            cases read : Command.deserialize plain with
            | ok found =>
              simp only [Option.getD_some,read] at command
              exact ⟨decent,reading,command⟩
            | err message =>
              simp only [Option.getD_some,read] at command
              exact ⟨decent,reading,command⟩
            | panic => exact ⟨decent,trivial⟩

structure Asked (S : Session) (result : Except String Command) (v : Shift Yard Work) : Prop where
  told : ∀ command, result = .ok command →
    ((Whose S v.notes ∧ ¬ v.notes.succeeded) ∧ v.notes.command = some command) ∧
      ∃ plain, Frame.Fits plain ∧ Command.deserialize plain = .ok command
  untold : ∀ message, result = .error message → (Whose S v.notes ∧ ¬ v.notes.succeeded) ∧
    v.notes.command = none

theorem connectionWorks (decent : Decent S u) (whose : Whose S u.notes) (unsent : ¬ u.notes.succeeded)
    (none_ : u.notes.command = none) : Works S (fun _ _ => True) S.handleConnection u := by
  rw [connectionAnswers]
  have ends := safeBoth (attemptEnds (headersWorks decent whose unsent none_))
    (attemptReturns (@headersFit S _ (Guild.disturbed (working S) (pact S)) u))
  have asked : Works S (Asked S) S.readHeaders.attempt u := by
    refine safeWeaken (safeMono ends fun _ both => both.1) ?_
    rintro (result | message | _) v _ both
    · exact ⟨fun command same => ⟨both.1.1 command same,both.2 command same⟩,both.1.2⟩
    · trivial
    · trivial
  refine safeThen asked ?_
  rintro (message | command) v decent known
  · obtain ⟨⟨whose,unsent⟩,none_⟩ := known.untold message rfl
    refine restWorks decent whose ?_
    simp only [answer]
    split
    · exact confinedBind (attemptConfined (stillFailed _)) fun _ => trivial
    · split <;> trivial
  · obtain ⟨⟨⟨whose,unsent⟩,mine⟩,arrived⟩ := known.told command rfl
    have asks : Confined (fun c : (Port HostSig).Call => c = .here (.isAllowedCost (cost command)))
      (isAllowedCost (cost command)) := confinedHere _ rfl
    refine safeThen (Guild.partSafe (fun g _ => (Whose S g ∧ ¬ g.succeeded) ∧ g.command = some command)
      decent ⟨⟨whose,unsent⟩,mine⟩ (fun _ _ _ _ _ held => held) asks ?_) ?_
    · rintro s g c r t h rfl held point known ⟨rfl,rfl⟩
      exact ⟨Guild.startDecent held point,known⟩
    · rintro allowed w decent ⟨⟨whose,unsent⟩,mine⟩
      split
      · exact dispatchWorks decent whose unsent mine arrived
      · exact restWorks decent whose (stillFailed _)

end

def Arrives (S : Session) (m : Member (Port HostSig) Unit Work) : Prop :=
  ∃ sessionKey clientKey, m = ⟨(S.connected sessionKey clientKey).handleConnection,
    ⟨sessionKey,clientKey,none,none,[],False⟩⟩

theorem emptyShows {S : Session} {disk : Fs} (tree : disk.Rooted) : Shows S ⟨disk,[],[]⟩ where
  bodies _ _ mine := by cases mine
  docs _ _ mine := by cases mine
  placed w file p found := by simp at found
  housed slot b found := by
    have parent := tree (S.filePath slot) (by simp [Fs.contentOf.mp found])
    rwa [fileParent] at parent

theorem samePact (S : Session) (sessionKey clientKey : Bytes) :
    pact (S.connected sessionKey clientKey) = pact S := by
  have valid : Shows (S.connected sessionKey clientKey) = Shows S := by
    funext s
    exact propext ⟨fun held => ⟨held.bodies,held.docs,held.placed,held.housed⟩,
      fun held => ⟨held.bodies,held.docs,held.placed,held.housed⟩⟩
  have finished : Finished (S.connected sessionKey clientKey) = Finished S := by
    funext headers g w s
    exact propext ⟨fun f => ⟨f.admitted,f.writer,f.file,f.announced,f.opened,f.saved⟩,
      fun f => ⟨f.admitted,f.writer,f.file,f.announced,f.opened,f.saved⟩⟩
  have point : Point (S.connected sessionKey clientKey) = Point S := by
    funext g s
    exact propext ⟨fun p => ⟨p.known,finished ▸ p.finished⟩,fun p => ⟨p.known,finished.symm ▸ p.finished⟩⟩
  unfold pact
  congr 1

theorem arrivesWorks {S : Session} {m : Member (Port HostSig) Unit Work} {s : Yard} (arrives : Arrives S m)
    (shows_ : Shows S s) : Safe (Guild.disturbed (working S) (pact S)) (Guild.Decent (pact S))
      (Returns fun _ _ => True) m.program (Guild.start s m.notes) := by
  obtain ⟨sessionKey,clientKey,rfl⟩ := arrives
  have fresh : Point S (⟨sessionKey,clientKey,none,none,[],False⟩ : Work) s :=
    ⟨by simp,fun sent => sent.elim⟩
  have decent : Guild.Decent (pact S) (Guild.start s (⟨sessionKey,clientKey,none,none,[],False⟩ : Work)) :=
    Guild.startDecent shows_ fresh
  have works := connectionWorks (S := S.connected sessionKey clientKey)
    ((samePact S sessionKey clientKey).symm ▸ decent) ⟨rfl,rfl⟩ id rfl
  unfold Works Decent at works
  rw [samePact] at works
  exact works

/- In every state of every run: an upload whose success response is out lies whole wherever
its file and its metadata were carried, as long as both are its own. -/
theorem acknowledgedStays {S : Session} {disk : Fs} {last : Crew (Port HostSig) Unit Yard Work}
    {m : Member (Port HostSig) Unit Work} (tree : disk.Rooted)
    (ran : Crew.Run (working S) (Arrives S) ⟨⟨disk,[],[]⟩,[]⟩ last) (member : m ∈ last.members)
    (succeeded : m.notes.succeeded) :
    ∃ headers w, m.notes.command = some (.upload headers) ∧ Announced S headers m.notes.heard ∧
      .took w (S.filePath ⟨m.notes.clientKey,headers.fileKey,headers.fileId⟩) ∈ last.shared.journal ∧
      .took w (S.metaPath ⟨m.notes.clientKey,headers.fileKey,headers.fileId⟩) ∈ last.shared.journal ∧
      ∀ (here : Slot) (p q : Path), Authors.Holds origin w last.shared.journal p (S.filePath here) →
        Authors.Holds origin w last.shared.journal q (S.metaPath here) →
        Stored S last.shared.disk here (UploadHeader.metadata S headers) m.notes.heard ∧
        retrieve S last.shared.disk here = .found (UploadHeader.metadata S headers) m.notes.heard := by
  have meets : ∀ m k, Arrives S m → Apart m.notes k := by
    rintro m k ⟨_,_,rfl⟩ w mine
    exact absurd mine (by simp)
  have orderly : Guild.Orderly (working S) (pact S) (Returns fun _ _ => True) last :=
    Guild.runOrderly meets (fun m s joins held => arrivesWorks joins held) ran (emptyShows tree)
  have shows_ : Shows S last.shared := orderly.valid
  have point : Point S m.notes last.shared := Guild.standsPoint orderly.valid (orderly.stands m member)
  obtain ⟨headers,w,command,finished⟩ := point.finished succeeded
  refine ⟨headers,w,command,finished.announced,finished.opened,finished.saved,?_⟩
  intro here p q body doc
  obtain ⟨file,found,written,filed⟩ := finished.file
  obtain ⟨lies,among,-,content⟩ := shows_.bodies here w (Authors.authorExactly.mpr ⟨p,body⟩)
  cases Option.some.inj (found.symm.trans among)
  obtain ⟨described,b,among,saved,meta_⟩ := shows_.docs here w (Authors.authorExactly.mpr ⟨q,doc⟩)
  cases Option.some.inj (found.symm.trans among)
  cases Option.some.inj (filed.symm.trans saved)
  rw [written] at content
  have dir := shows_.housed here _ content
  refine ⟨⟨dir,content,meta_⟩,?_⟩
  have there := dir
  simp only [Fs.isDir,beq_iff_eq] at there
  unfold retrieve
  rw [if_pos ⟨by simp [there],by simp [Fs.contentOf.mp meta_]⟩]
  simp only [meta_,Option.bind_some,filedRead finished.admitted,content]

/- An upload that nobody disturbs. -/
section
open RoundTrip
variable {S : Session} {headers : UploadHeader} {content : Bytes} {disk : Fs} {s : Yard} {g : Work}

theorem frameWorked {data : Bytes} (small : data.length ≤ Frame.u32Max) (nonce : Nonce) :
    Reaches (working S) (S.writeEncryptFrameInto data) (s,g) (.done (.ok ()))
      (s,Sends S g (Frame.frame S.cipher S.sessionKey nonce data)) := by
  have drawn : working S (s,g) (.here (.draw nonceLen)) nonce (s,g) := ⟨rfl,rfl⟩
  have sent : working S (s,g) (.send (Frame.frame S.cipher S.sessionKey nonce data)) (.ok ())
      (s,Sends S g (Frame.frame S.cipher S.sessionKey nonce data)) := ⟨rfl,rfl⟩
  exact frameReached small nonce drawn sent

theorem closingWorked {data : Bytes} (small : data.length ≤ Frame.u32Max) (nonce : Nonce) :
    Reaches (working S) (S.sendClosing data) (s,g) (.done (.ok ()))
      (s,Sends S g (Frame.frame S.cipher S.sessionKey nonce data)) := by
  have closed : working S (s,Sends S g (Frame.frame S.cipher S.sessionKey nonce data)) (.here .shutdown)
      (.ok ()) (s,Sends S g (Frame.frame S.cipher S.sessionKey nonce data)) := ⟨rfl,rfl⟩
  exact reachesThen (frameWorked small nonce) (shutdownReached closed)

theorem commandWorked {command : Command} (fits : Frame.Fits command.serialize) (nonce : Nonce) :
    Reaches (working S) S.readHeaders.attempt (s,⟨S.sessionKey,S.clientKey,none,none,[],False⟩)
      (.done (.ok (.ok command)))
      (s,⟨S.sessionKey,S.clientKey,some command,none,command.serialize,False⟩) := by
  have read : Command.deserialize command.serialize = .ok command := by
    apply commandRead
    unfold Frame.Fits Frame.maxFrameLength at fits
    omega
  let fresh : Work := ⟨S.sessionKey,S.clientKey,none,none,[],False⟩
  have length : working S (s,fresh) (.recv 4)
      (.ok ⟨Frame.be32 (nonceLen + command.serialize.length + tagLen),rfl⟩) (s,fresh) := by
    refine ⟨rfl,?_⟩
    have silent := @lengthUnheard S ⟨Frame.be32 (nonceLen + command.serialize.length + tagLen),rfl⟩
    change fresh = {fresh with
      heard := [] ++ S.heard (n := 4) (.ok ⟨Frame.be32 _,rfl⟩)
      command := none <|> decoded (S.heard (n := 4) (.ok ⟨Frame.be32 _,rfl⟩))}
    rw [silent]
    rfl
  have boxed : working S (s,fresh) (.recv (nonceLen + command.serialize.length + tagLen))
      (.ok ⟨S.cipher.sealed S.sessionKey nonce command.serialize,
        S.cipher.sealedLength S.sessionKey nonce command.serialize⟩)
      (s,⟨S.sessionKey,S.clientKey,some command,none,command.serialize,False⟩) := by
    refine ⟨rfl,?_⟩
    have told : S.heard (n := nonceLen + command.serialize.length + tagLen)
        (.ok ⟨S.cipher.sealed S.sessionKey nonce command.serialize,
          S.cipher.sealedLength S.sessionKey nonce command.serialize⟩) = command.serialize := by
      rw [heardOk,S.cipher.openedSealed]
      rfl
    change _ = {fresh with
      heard := [] ++ S.heard (n := nonceLen + command.serialize.length + tagLen) (.ok ⟨_,_⟩)
      command := none <|> decoded (S.heard (n := nonceLen + command.serialize.length + tagLen) (.ok ⟨_,_⟩))}
    rw [told]
    simp only [List.nil_append,decoded,read]
    rfl
  have reads : Reaches (working S) S.readHeaders (s,fresh) (.done (.ok command))
      (s,⟨S.sessionKey,S.clientKey,some command,none,command.serialize,False⟩) := by
    unfold readHeaders
    refine reachesThen (bodyReached nonce fits length boxed) ?_
    rw [read]
    exact .here _ _
  exact attemptReached reads

theorem fillWorked {α : Type} {path : Path} {p q : Party α} {h k : Host} {input output : Bytes}
    (advanced : Duplex.Advances Host.handle p h input output q k) (fills : Confined (Relocation.Fills path) p)
    {written : Bytes} (heard : Bytes) (lies : h.disk.content path = some written) (inner : path ≠ [])
    {command : Command} (events : List (Authors.Event Nat Path (Path × Path))) (sent : Prop) :
    ∃ after told n, k.disk.content path = some after ∧
      Reaches (working S) p (⟨h.disk,[⟨some path,written,none⟩],events⟩,
        ⟨S.sessionKey,S.clientKey,some command,some 0,heard,sent⟩) q
        (⟨k.disk,[⟨some path,after,none⟩],events ++ List.replicate n (.added 0 path)⟩,
          ⟨S.sessionKey,S.clientKey,some command,some 0,told,sent⟩) := by
  induction advanced generalizing written heard events with
  | rest p h => exact ⟨written,heard,0,lies,by rw [List.replicate_zero,List.append_nil]; exact .here _ _⟩
  | @here c next h input output q last later ih =>
    rcases fills.1 with ⟨b,same⟩ | ⟨n,same⟩
    · cases same
      have appended : h.disk.append path b = (true,h.disk.put path (.file (written ++ b))) :=
        Fs.appendFile lies b
      have exec : Host.handle h (.fs (.append path b)) =
          (true,{h with disk := h.disk.put path (.file (written ++ b))}) := by
        simp only [Host.handle,Fs.exec,appended]
      rw [exec] at later ih
      obtain ⟨after,told,n,lies_,reached⟩ := ih (fills.2 _) heard
        (Fs.contentPut _ inner _) (events ++ [.added 0 path])
      refine ⟨after,told,n + 1,lies_,?_⟩
      rw [List.append_assoc,List.singleton_append] at reached
      refine .answer ⟨rfl,b.length,fun _ => le_refl _,?_⟩ reached
      simp only [Yard.writes,List.getElem?_cons_zero,List.take_length,Fs.writeAtEnd lies,List.set_cons_zero]
    · contradiction
  | send later ih =>
    rcases fills.1 with ⟨b,same⟩ | ⟨n,same⟩ <;> contradiction
  | @recv n next h input output q last b size later ih =>
    obtain ⟨after,told,n,lies_,reached⟩ := ih (fills.2 _)
      (heard ++ @S.heard _ (.ok ⟨b,size⟩)) lies events
    exact ⟨after,told,n,lies_,.answer ⟨rfl,rfl⟩ reached⟩

theorem savedWorked {s : Yard} {g : Work} {p : Path} (b : Bytes) (writer : g.writer = some 0)
    (parent : s.disk.isDir p.dropLast = true) (free : s.disk.isDir p = false) :
    Reaches (working S) (write p b) (s,g) (.done (.ok ())) (s.files 0 p b,g) := by
  have worked : (s.disk.write p b).1 = true := by
    simp only [Fs.write,parent,free]
    rfl
  have answered : working S (s,g) (.here (.fs (.write p b))) true (s.files 0 p b,g) := by
    refine ⟨rfl,.inl ⟨worked,?_⟩⟩
    rw [writer]
  exact fsReached answered rfl

theorem finishWorked {h : Host} {arc : FileLock.Arc} {networkElapsed : F32} {found : Received}
    {written heard : Bytes} (hash : S.sha256Hex found.hashed = headers.fileHash)
    (dir : h.disk.isDir (S.userDirPath (UploadHeader.slot S headers)) = true)
    (file : h.disk.content (S.filePath (UploadHeader.slot S headers)) = some written)
    (free : h.disk.isDir (S.metaPath (UploadHeader.slot S headers)) = false)
    (small : (UploadResponse.serialize
      ⟨headers.fileId,headers.fileHash,networkElapsed⟩).length < Frame.u32Max) (nonce : Nonce)
    (events : List (Authors.Event Nat Path (Path × Path))) (sent : Prop) :
    ∃ n last h', h'.succeeded ∧
      last.journal = events ++ List.replicate n (.added 0 (S.filePath (UploadHeader.slot S headers))) ++
        [.took 0 (S.metaPath (UploadHeader.slot S headers))] ∧
      Reaches (working S) (S.finishUpload headers arc networkElapsed found)
        (⟨h.disk,[⟨some (S.filePath (UploadHeader.slot S headers)),written,none⟩],events⟩,
          ⟨S.sessionKey,S.clientKey,some (.upload headers),some 0,heard,sent⟩) (.done (.ok ())) (last,h') := by
  obtain ⟨flushed,wrote,advanced⟩ := bufFlushed (h := h) found.pending (fileInner S _) file
  obtain ⟨after,told,n,lies,flushes⟩ := @fillWorked S _ _ _ _ _ _ _ _ advanced
    (bufFlushConfined (fun b => .inl ⟨b,rfl⟩) _) _ heard file (fileInner S _) (.upload headers) events sent
  have tagged : (1 :: UploadResponse.serialize
      ⟨headers.fileId,headers.fileHash,networkElapsed⟩).length ≤ Frame.u32Max := small
  obtain ⟨-,parent,freeKept⟩ := metaRoom wrote dir free
  let metadata := (UploadHeader.metadata S headers).serialize
  let filled : Yard := ⟨flushed,[⟨some (S.filePath (UploadHeader.slot S headers)),after,none⟩],
    events ++ List.replicate n (.added 0 (S.filePath (UploadHeader.slot S headers)))⟩
  let waits : Work := ⟨S.sessionKey,S.clientKey,some (.upload headers),some 0,told,sent⟩
  have success : Success S headers (Frame.frame S.cipher S.sessionKey nonce
      (1 :: UploadResponse.serialize ⟨headers.fileId,headers.fileHash,networkElapsed⟩)) :=
    ⟨nonce,networkElapsed,rfl⟩
  refine ⟨n,filled.files 0 (S.metaPath (UploadHeader.slot S headers)) metadata,
    Sends S waits (Frame.frame S.cipher S.sessionKey nonce
      (1 :: UploadResponse.serialize ⟨headers.fileId,headers.fileHash,networkElapsed⟩)),
    .inr ⟨headers,rfl,success⟩,rfl,?_⟩
  unfold finishUpload
  refine reachesThen flushes ?_
  simp only [hash,ne_eq,not_true_eq_false,if_false]
  refine reachesThen (savedWorked (s := filled) (g := waits) metadata rfl parent freeKept) ?_
  refine reachesThen (closingWorked tagged nonce) ?_
  exact .answer (r := ()) ⟨rfl,rfl⟩ (.answer (r := ()) ⟨rfl,rfl⟩
    (.answer (r := ()) ⟨rfl,rfl⟩ (.here _ _)))

theorem dirsWorked {disk made : Fs} {opened : List Opened} {g : Work} {p : Path}
    {journal : List (Authors.Event Nat Path (Path × Path))} (clear : disk.createDirAll p = (true,made)) :
    Reaches (working S) (createDirAll p) (⟨disk,opened,journal⟩,g) (.done (.ok ()))
      (⟨made,opened,journal⟩,g) := by
  have answered : working S (⟨disk,opened,journal⟩,g) (.here (.fs (.createDirAll p))) true
      (⟨made,opened,journal⟩,g) := by
    refine ⟨rfl,_,List.prefix_refl _,?_,fun _ => ⟨rfl,congrArg Prod.fst clear⟩⟩
    simp only [Yard.makes,clear]
  exact fsReached answered rfl

theorem createWorked {made : Fs} {g : Work} {p : Path} (parent : made.isDir p.dropLast = true)
    (free : made.isDir p = false) :
    Reaches (working S) (create p) (⟨made,[],[]⟩,g) (.done (.ok ()))
      (⟨made.put p (.file []),[⟨some p,[],none⟩],[.took 0 p]⟩,
        {g with
          writer := some 0
          heard := []}) := by
  have created : made.create p = (true,made.put p (.file [])) := if_pos ⟨parent,Bool.eq_false_iff.mp free⟩
  have answered : working S (⟨made,[],[]⟩,g) (.here (.fs (.create p))) true
      (⟨made.put p (.file []),[⟨some p,[],none⟩],[.took 0 p]⟩,
        {g with
          writer := some 0
          heard := []}) := by
    refine ⟨congrArg Prod.fst created,?_,rfl⟩
    simp only [Yard.opens,created]
    rfl
  exact fsReached answered rfl

theorem uploadWorked {h : Host} (told : Bytes) (ready : SlotReady S h.disk (UploadHeader.slot S headers))
    (size : headers.fileSize.toNat = content.length) (hash : S.sha256Hex content = headers.fileHash)
    (even : readChunkSize ∣ content.length) (short : headers.fileId.utf8ByteSize ≤ 256) (nonce : Nonce)
    (networkElapsed : F32) :
    ∃ n last h', h'.succeeded ∧
      last.journal = [.took 0 (S.filePath (UploadHeader.slot S headers))] ++
        List.replicate n (.added 0 (S.filePath (UploadHeader.slot S headers))) ++
        [.took 0 (S.metaPath (UploadHeader.slot S headers))] ∧
      Reaches (working S) (S.handleUpload headers)
        (⟨h.disk,[],[]⟩,⟨S.sessionKey,S.clientKey,some (.upload headers),none,told,False⟩)
        (.done (.ok ())) (last,h') := by
  obtain ⟨cut,prefix8⟩ := hashCut S content
  rw [hash] at prefix8
  have small : (UploadResponse.serialize
      ⟨headers.fileId,headers.fileHash,networkElapsed⟩).length < Frame.u32Max := responseSmall hash short
  obtain ⟨opened,parent,free⟩ := slotOpened ready
  let path := S.filePath (UploadHeader.slot S headers)
  let made := h.disk.makeDirs (S.userDirPath (UploadHeader.slot S headers)).inits
  let begun : Fs := made.put path (.file [])
  obtain ⟨boxes,drawn,sealed_,-⟩ := chunksSent (S := S) (h := h) (evenFits even)
  have total : headers.fileSize.toNat = 0 + content.length := by omega
  obtain ⟨disk,after,written,wrote,-,received⟩ := chunksReceived (h := {h with disk := begun})
    "Upload timed out reading chunk" freshDecBuf [] [] (fileInner S _) opened.file total
    (by simp [freshDecBuf]) sealed_
  let asked : Work := ⟨S.sessionKey,S.clientKey,some (.upload headers),none,told,False⟩
  let acked := Sends S asked (Frame.frame S.cipher S.sessionKey nonce [1])
  obtain ⟨filled,heard,n,lies,receives⟩ := @fillWorked S _ _ _ _ _ _ _ _ received
    (receiveConfined (fun b => .inl ⟨b,rfl⟩) (fun n => .inr ⟨n,rfl⟩) _) _ [] opened.file (fileInner S _)
    (.upload headers) [.took 0 path] acked.succeeded
  obtain ⟨dir,vacant⟩ := openedKept opened wrote
  obtain ⟨more,last,h',succeeded,journal,finished⟩ := @finishWorked S headers {h with disk := disk} 0
    networkElapsed ⟨[] ++ content,after⟩ filled heard hash dir lies vacant small nonce
    ([.took 0 path] ++ List.replicate n (.added 0 path)) acked.succeeded
  refine ⟨n + more,last,h',succeeded,?_,?_⟩
  · rw [journal,List.append_assoc [_] (List.replicate n _),List.replicate_append_replicate]
  · have held : working S (⟨h.disk,[],[]⟩,asked) (.here (.holdFileLock headers.fileId)) 0
        (⟨h.disk,[],[]⟩,asked) := ⟨rfl,rfl⟩
    have locked : working S (⟨h.disk,[],[]⟩,asked) (.here (.tryLock .upload 0)) true
        (⟨h.disk,[],[]⟩,asked) := ⟨rfl,rfl⟩
    have timed : working S (⟨made,[],[]⟩,acked) (.here .elapsed) networkElapsed (⟨made,[],[]⟩,acked) :=
      ⟨rfl,rfl⟩
    have through := uploadThrough prefix8 (hereReached held) (hereReached locked)
      (dirsWorked (Fs.createDirAllClear ready.clear)) (frameWorked (by decide) nonce) (hereReached timed)
      (createWorked parent free)
    exact reachesTrans through (reachesThen receives finished)

theorem connectionWorked {h : Host} (fits : Frame.Fits (Command.serialize (.upload headers)))
    (accepted : headers.validate S.maxFileSize = .ok ())
    (ready : SlotReady S h.disk (UploadHeader.slot S headers))
    (size : headers.fileSize.toNat = content.length) (hash : S.sha256Hex content = headers.fileHash)
    (even : readChunkSize ∣ content.length) (short : headers.fileId.utf8ByteSize ≤ 256) (nonce : Nonce)
    (networkElapsed : F32) :
    ∃ n last h', h'.succeeded ∧
      last.journal = [.took 0 (S.filePath (UploadHeader.slot S headers))] ++
        List.replicate n (.added 0 (S.filePath (UploadHeader.slot S headers))) ++
        [.took 0 (S.metaPath (UploadHeader.slot S headers))] ∧
      Reaches (working S) S.handleConnection
        (⟨h.disk,[],[]⟩,⟨S.sessionKey,S.clientKey,none,none,[],False⟩) (.done (.ok ())) (last,h') := by
  obtain ⟨n,last,h',succeeded,journal,uploaded⟩ := uploadWorked
    (Command.serialize (.upload headers)) ready size hash even short nonce networkElapsed
  refine ⟨n,last,h',succeeded,journal,?_⟩
  let asked : Work := ⟨S.sessionKey,S.clientKey,some (.upload headers),none,
    Command.serialize (.upload headers),False⟩
  have allowed : working S (⟨h.disk,[],[]⟩,asked) (.here (.isAllowedCost (cost (.upload headers)))) true
      (⟨h.disk,[],[]⟩,asked) := ⟨rfl,rfl⟩
  rw [connectionAnswers]
  refine reachesThen (commandWorked fits nonce) (.answer allowed ?_)
  simp only [dispatch,accepted]
  exact uploaded

theorem workedHolds {p q : Path} (beside : p ≠ q) {n : Nat}
    {events : List (Authors.Event Nat Path (Path × Path))}
    (journal : events = [.took 0 p] ++ List.replicate n (.added 0 p) ++ [.took 0 q]) :
    Authors.Holds origin 0 events p p ∧ Authors.Holds origin 0 events q q := by
  subst journal
  refine ⟨⟨[],_,rfl,.spared ?_ ?_⟩,⟨_,[],rfl,.here⟩⟩
  · induction n with
    | zero => exact .here
    | succ n ih =>
      rw [List.replicate_succ']
      exact .spared ih (by simp [Authors.Spares])
  · exact beside

end

open RoundTrip Whitelist AuthTrees
open Relocation (halls sampleHeaders sampleSlot sampleReady mebibyte)

theorem mebibyteStays : ∃ (last : Crew (Port HostSig) Unit Yard Work) (m : Member (Port HostSig) Unit Work)
    (headers : UploadHeader) (w : Nat), Crew.Run (working sampleServer) (Arrives sampleServer)
      ⟨⟨halls,[],[]⟩,[]⟩ last ∧ m ∈ last.members ∧ m.notes.succeeded ∧
    Authors.Holds origin w last.shared.journal (sampleServer.filePath sampleSlot)
      (sampleServer.filePath sampleSlot) ∧
    Announced sampleServer headers m.notes.heard ∧
    retrieve sampleServer last.shared.disk sampleSlot =
      .found (UploadHeader.metadata sampleServer headers) m.notes.heard := by
  obtain ⟨large,kept,even⟩ := mebibyte
  let content : Bytes := List.replicate 1048576 0
  let nonce : Nonce := ⟨List.replicate nonceLen 0,List.length_replicate⟩
  have accepted := sampleAccepted sampleServer rfl content large (Nat.le_of_eq List.length_replicate |>.trans
    (by decide))
  obtain ⟨n,yard,work,succeeded,journal,connected⟩ := @connectionWorked sampleServer (sampleHeaders content)
    content (sampleHost halls) (serverFits sampleServer content) accepted
    (sampleReady halls (by decide +kernel) (by decide +kernel) (by decide +kernel)) kept rfl even
    (by change "4a43afa64e9342fc8320e63a43eb193b".utf8ByteSize ≤ 256; decide) nonce ⟨[0,0,0,0],rfl⟩
  let m : Member (Port HostSig) Unit Work := ⟨.done (.ok ()),work⟩
  have ran : Crew.Run (working sampleServer) (Arrives sampleServer) ⟨⟨halls,[],[]⟩,[]⟩ ⟨yard,[m]⟩ :=
    .head (.join ⟨sampleServer.handleConnection,
      ⟨sampleServer.sessionKey,sampleServer.clientKey,none,none,[],False⟩⟩ ⟨_,_,rfl⟩)
      (@Crew.soloRuns _ _ _ _ _ _ [] [] _ _ _ _ connected)
  have tree : halls.Rooted := Fs.rootedEntries (by decide +kernel)
  obtain ⟨headers,w,command,announced,opened,-,stays⟩ := acknowledgedStays tree ran
    (List.mem_singleton_self m) succeeded
  obtain ⟨body,doc⟩ := workedHolds (fileBesideMeta sampleServer _) journal
  have mine : w = 0 := by
    change _ ∈ yard.journal at opened
    rw [journal] at opened
    simp only [List.mem_append,List.mem_singleton,List.mem_replicate,Authors.Event.took.injEq] at opened
    rcases opened with (same | other) | same
    · exact same.1
    · cases other.2
    · exact same.1
  subst mine
  exact ⟨_,m,headers,0,ran,List.mem_singleton_self m,succeeded,body,announced,
    (stays sampleSlot _ _ body doc).2⟩

end Durability
end RDrive
