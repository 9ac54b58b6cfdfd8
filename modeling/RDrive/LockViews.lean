import RDrive.FileLock

/-! What one client can tell of SHARED_FILE_LOCK, when the handlers of others use it too.
A handler keeps its Arc in a variable, and a guard until it drops it. -/
namespace RDrive.FileLock

structure Desk where
  shared : State
  arc : Conn → Option Arc
  guard : Conn → Option Kind

inductive Use where
  | hold (fileId : FileId)
  | tryLock (kind : Kind) (got : Bool)
  | dropGuard
  | release (fileId : FileId)
  | leave
  deriving DecidableEq, Repr

namespace Desk

def dropped (s : Desk) (conn : Conn) : Desk :=
  match s.arc conn, s.guard conn with
  | some arc, some kind => {s with
    shared := s.shared.relock arc (FileLock.dropGuard kind (s.shared.lock arc) conn)
    guard := Function.update s.guard conn none}
  | _, _ => s

def holds (s : Desk) (conn : Conn) (fileId : FileId) : Desk := {s with
  shared := (holdFileLock s.shared fileId).1
  arc := Function.update s.arc conn (some (holdFileLock s.shared fileId).2)}

def takes (s : Desk) (conn : Conn) (kind : Kind) (arc : Arc) (taken : RwLock Conn) : Desk := {s with
  shared := s.shared.relock arc taken
  guard := Function.update s.guard conn (some kind)}

def releases (s : Desk) (fileId : FileId) : Desk := {s with shared := releaseFileLock s.shared fileId}

def leaves (s : Desk) (conn : Conn) : Desk :=
  {s.dropped conn with arc := Function.update s.arc conn none}

/- The variable is bound once and tried once; when its handler is gone, so is its guard. -/
inductive Step (conn : Conn) : Desk → Use → Desk → Prop where
  | hold {s fileId} (unbound : s.arc conn = none) : Step conn s (.hold fileId) (s.holds conn fileId)
  | take {s arc kind taken} (bound : s.arc conn = some arc) (untried : s.guard conn = none)
      (got : tryGuard kind (s.shared.lock arc) conn = some taken) :
      Step conn s (.tryLock kind true) (s.takes conn kind arc taken)
  | refuse {s arc kind} (bound : s.arc conn = some arc) (untried : s.guard conn = none)
      (busy : tryGuard kind (s.shared.lock arc) conn = none) : Step conn s (.tryLock kind false) s
  | drop {s} : Step conn s .dropGuard (s.dropped conn)
  | release {s fileId} : Step conn s (.release fileId) (s.releases fileId)
  | leave {s} : Step conn s .leave (s.leaves conn)

structure Sound (s : Desk) : Prop where
  tabled : ∀ {fileId arc}, s.shared.sharedFileLock fileId = some arc → arc < s.shared.nextArc
  handed : ∀ {conn arc}, s.arc conn = some arc → arc < s.shared.nextArc
  single : ∀ {one other arc}, s.shared.sharedFileLock one = some arc →
    s.shared.sharedFileLock other = some arc → one = other
  writer : ∀ {arc conn}, (s.shared.lock arc).writer = some conn →
    s.arc conn = some arc ∧ s.guard conn = some .upload
  reader : ∀ {arc conn}, conn ∈ (s.shared.lock arc).readers →
    s.arc conn = some arc ∧ s.guard conn = some .download
  nodup : ∀ arc, (s.shared.lock arc).readers.Nodup
  writes : ∀ {conn arc}, s.arc conn = some arc → s.guard conn = some .upload →
    (s.shared.lock arc).writer = some conn
  guarded : ∀ {conn}, s.arc conn = none → s.guard conn = none

def start : Desk := ⟨initial,fun _ => none,fun _ => none⟩

theorem startSound : Sound start where
  tabled found := nomatch found
  handed bound := nomatch bound
  single found := nomatch found
  writer written := nomatch written
  reader listed := nomatch listed
  nodup _ := List.nodup_nil
  writes bound := nomatch bound
  guarded _ := rfl

variable {s : Desk} {conn : Conn} {fileId : FileId} {arc : Arc} {kind : Kind}

theorem held (s : State) (fileId : FileId) :
    (∃ arc, s.sharedFileLock fileId = some arc ∧ holdFileLock s fileId = (s,arc)) ∨
    s.sharedFileLock fileId = none ∧ holdFileLock s fileId =
      ({s with
        sharedFileLock := Function.update s.sharedFileLock fileId (some s.nextArc)
        lock := Function.update s.lock s.nextArc .free
        nextArc := s.nextArc + 1},s.nextArc) := by
  unfold holdFileLock
  cases found : s.sharedFileLock fileId with
  | some arc => exact .inl ⟨arc,rfl,rfl⟩
  | none => exact .inr ⟨rfl,rfl⟩

def lists (s : Desk) (fileId : FileId) : Desk := {s with shared := {s.shared with
  sharedFileLock := Function.update s.shared.sharedFileLock fileId (some s.shared.nextArc)
  lock := Function.update s.shared.lock s.shared.nextArc .free
  nextArc := s.shared.nextArc + 1}}

def binds (s : Desk) (conn : Conn) (arc : Arc) : Desk :=
  {s with arc := Function.update s.arc conn (some arc)}

theorem holdsBinds (s : Desk) (conn : Conn) (fileId : FileId) :
    (∃ arc, s.shared.sharedFileLock fileId = some arc ∧ s.holds conn fileId = s.binds conn arc) ∨
    s.shared.sharedFileLock fileId = none ∧
      s.holds conn fileId = (s.lists fileId).binds conn s.shared.nextArc := by
  rcases held s.shared fileId with ⟨arc,found,same⟩ | ⟨missing,fresh⟩
  · exact .inl ⟨arc,found,by rw [holds,same]; rfl⟩
  · exact .inr ⟨missing,by rw [holds,fresh]; rfl⟩

theorem listsEntry (s : Desk) (one other : FileId) :
    (s.lists one).shared.sharedFileLock other =
      if other = one then some s.shared.nextArc else s.shared.sharedFileLock other :=
  Function.update_apply ..

theorem listsLock (s : Desk) (fileId : FileId) {arc : Arc} (old : arc ≠ s.shared.nextArc) :
    (s.lists fileId).shared.lock arc = s.shared.lock arc := Function.update_of_ne old ..

theorem listsNew (s : Desk) (fileId : FileId) : (s.lists fileId).shared.lock s.shared.nextArc = .free :=
  Function.update_self ..

theorem listsSound (sound : Sound s) : Sound (s.lists fileId) where
  tabled {other arc} found := by
    rw [listsEntry] at found
    split at found
    · cases Option.some.inj found
      exact Nat.lt_succ_self _
    · exact Nat.lt_succ_of_lt (sound.tabled found)
  handed bound := Nat.lt_succ_of_lt (sound.handed bound)
  single {one other arc} first second := by
    rw [listsEntry] at first second
    split at first <;> split at second
    · rename_i a b
      rw [a,b]
    · cases Option.some.inj first
      exact absurd (sound.tabled second) (Nat.lt_irrefl _)
    · cases Option.some.inj second
      exact absurd (sound.tabled first) (Nat.lt_irrefl _)
    · exact sound.single first second
  writer {arc conn} written := by
    by_cases new : arc = s.shared.nextArc
    · rw [new,listsNew] at written
      contradiction
    · rw [listsLock s fileId new] at written
      exact sound.writer written
  reader {arc conn} listed := by
    by_cases new : arc = s.shared.nextArc
    · rw [new,listsNew] at listed
      contradiction
    · rw [listsLock s fileId new] at listed
      exact sound.reader listed
  nodup arc := by
    by_cases new : arc = s.shared.nextArc
    · rw [new,listsNew]
      exact List.nodup_nil
    · rw [listsLock s fileId new]
      exact sound.nodup arc
  writes {conn arc} bound wrote := by
    rw [listsLock s fileId (Nat.ne_of_lt (sound.handed bound))]
    exact sound.writes bound wrote
  guarded := sound.guarded

theorem bindsArc (s : Desk) (conn other : Conn) (arc : Arc) :
    (s.binds conn arc).arc other = if other = conn then some arc else s.arc other :=
  Function.update_apply ..

theorem bindsSound (sound : Sound s) (unbound : s.arc conn = none)
    (found : s.shared.sharedFileLock fileId = some arc) : Sound (s.binds conn arc) := by
  have unguarded := sound.guarded unbound
  refine ⟨sound.tabled,?_,sound.single,?_,?_,sound.nodup,?_,?_⟩
  · intro other x bound
    rw [bindsArc] at bound
    split at bound
    · cases Option.some.inj bound
      exact sound.tabled found
    · exact sound.handed bound
  · intro x other written
    obtain ⟨bound,wrote⟩ := sound.writer written
    refine ⟨?_,wrote⟩
    rw [bindsArc,if_neg,bound]
    rintro rfl
    rw [unbound] at bound
    contradiction
  · intro x other listed
    obtain ⟨bound,read⟩ := sound.reader listed
    refine ⟨?_,read⟩
    rw [bindsArc,if_neg,bound]
    rintro rfl
    rw [unbound] at bound
    contradiction
  · intro other x bound wrote
    rw [bindsArc] at bound
    split at bound
    · rename_i same
      rw [same] at wrote
      exact absurd (unguarded.symm.trans wrote) nofun
    · exact sound.writes bound wrote
  · intro other bound
    rw [bindsArc] at bound
    split at bound
    · contradiction
    · exact sound.guarded bound

theorem holdsSound (sound : Sound s) (unbound : s.arc conn = none) : Sound (s.holds conn fileId) := by
  rcases holdsBinds s conn fileId with ⟨arc,found,same⟩ | ⟨-,same⟩
  · rw [same]
    exact bindsSound sound unbound found
  · rw [same]
    have entry : (s.lists fileId).shared.sharedFileLock fileId = some s.shared.nextArc := by
      rw [listsEntry,if_pos rfl]
    exact bindsSound (listsSound sound) unbound entry

theorem holdsEntry (s : Desk) (conn : Conn) (one other : FileId) :
    (s.holds conn one).shared.sharedFileLock other =
      if other = one then some (holdFileLock s.shared one).2 else s.shared.sharedFileLock other := by
  rcases held s.shared one with ⟨arc,found,same⟩ | ⟨-,fresh⟩
  · rw [holds,same]
    split
    · rename_i here
      rw [here,found]
    · rfl
  · rw [holds,fresh]
    exact Function.update_apply ..

theorem holdsShared (sound : Sound s) {other : Conn} (bound : s.arc other = some arc) :
    (holdFileLock s.shared fileId).2 = arc ↔ s.shared.sharedFileLock fileId = some arc := by
  rcases held s.shared fileId with ⟨_,found,same⟩ | ⟨missing,fresh⟩
  · rw [same,found,Option.some.injEq]
  · rw [fresh,missing]
    exact ⟨fun same => absurd (sound.handed bound) (same ▸ Nat.lt_irrefl _),nofun⟩

theorem holdsUnlisted (sound : Sound s) {other : FileId} (elsewhere : other ≠ fileId) :
    s.shared.sharedFileLock other ≠ some (holdFileLock s.shared fileId).2 := by
  intro entry
  rcases held s.shared fileId with ⟨_,found,same⟩ | ⟨-,fresh⟩
  · rw [same] at entry
    exact elsewhere (sound.single entry found)
  · rw [fresh] at entry
    exact absurd (sound.tabled entry) (Nat.lt_irrefl _)

theorem holdsOwners (sound : Sound s) {other : Conn} {conn : Conn}
    (owner : ((s.holds conn fileId).shared.lock (holdFileLock s.shared fileId).2).writer = some other ∨
      other ∈ ((s.holds conn fileId).shared.lock (holdFileLock s.shared fileId).2).readers) :
    s.arc other = some (holdFileLock s.shared fileId).2 := by
  unfold holds at owner
  rcases held s.shared fileId with ⟨_,found,same⟩ | ⟨missing,fresh⟩
  · rw [same] at owner ⊢
    exact owner.elim (fun written => (sound.writer written).1) fun listed => (sound.reader listed).1
  · rw [fresh] at owner
    simp only [Function.update_self] at owner
    rcases owner with written | listed <;> contradiction

theorem relocked (s : State) (arc other : Arc) (lock : RwLock Conn) :
    (s.relock arc lock).lock other = if other = arc then lock else s.lock other :=
  Function.update_apply ..

theorem tryExact {lock taken : RwLock Conn} (got : tryGuard kind lock conn = some taken) :
    lock.writer = none ∧
      (kind = .upload ∧ lock.readers = [] ∧ taken.writer = some conn ∧ taken.readers = [] ∨
        kind = .download ∧ taken.writer = none ∧ taken.readers = conn :: lock.readers) := by
  cases kind with
  | upload =>
    obtain ⟨unwritten,unread,written,read⟩ := RwLock.tryWriteExact got
    exact ⟨unwritten,.inl ⟨rfl,unread,written,read⟩⟩
  | download =>
    obtain ⟨unwritten,written,read⟩ := RwLock.tryReadExact got
    exact ⟨unwritten,.inr ⟨rfl,written,read⟩⟩

structure Turned (conn : Conn) (guard : Option Kind) (lock after : RwLock Conn) : Prop where
  writer : ∀ other, after.writer = some other →
    other = conn ∧ guard = some .upload ∨ other ≠ conn ∧ lock.writer = some other
  reader : ∀ other ∈ after.readers,
    other = conn ∧ guard = some .download ∨ other ≠ conn ∧ other ∈ lock.readers
  nodup : after.readers.Nodup
  mine : guard = some .upload → after.writer = some conn
  others : ∀ other, other ≠ conn → lock.writer = some other → after.writer = some other

def turns (s : Desk) (conn : Conn) (arc : Arc) (guard : Option Kind) (after : RwLock Conn) : Desk := {s with
  shared := s.shared.relock arc after
  guard := Function.update s.guard conn guard}

theorem turnsGuard (s : Desk) (conn other : Conn) (arc : Arc) (guard : Option Kind) (after : RwLock Conn) :
    (s.turns conn arc guard after).guard other = if other = conn then guard else s.guard other :=
  Function.update_apply ..

theorem turnsLock (s : Desk) (conn : Conn) (arc x : Arc) (guard : Option Kind) (after : RwLock Conn) :
    (s.turns conn arc guard after).shared.lock x = if x = arc then after else s.shared.lock x :=
  relocked ..

theorem turnsOther {guard : Option Kind} {after : RwLock Conn} {other : Conn} (differ : other ≠ conn)
    {x : Arc} (owned : s.arc other = some x ∧ s.guard other = some kind) :
    (s.turns conn arc guard after).arc other = some x ∧
      (s.turns conn arc guard after).guard other = some kind :=
  ⟨owned.1,by rw [turnsGuard,if_neg differ]; exact owned.2⟩

theorem turnsSound {guard : Option Kind} {after : RwLock Conn} (sound : Sound s)
    (bound : s.arc conn = some arc) (turned : Turned conn guard (s.shared.lock arc) after) :
    Sound (s.turns conn arc guard after) := by
  have mine : (s.turns conn arc guard after).guard conn = guard := by rw [turnsGuard,if_pos rfl]
  -- whoever owns a guard on another lock is somebody else
  have apart : ∀ {x : Arc} {other : Conn}, x ≠ arc → s.arc other = some x → other ≠ conn := by
    rintro x _ elsewhere theirs rfl
    exact elsewhere (Option.some.inj (theirs.symm.trans bound))
  refine ⟨sound.tabled,sound.handed,sound.single,?_,?_,?_,?_,?_⟩
  · intro x other written
    rw [turnsLock] at written
    split at written
    · rename_i here
      rcases turned.writer other written with ⟨rfl,wrote⟩ | ⟨differ,written⟩
      · exact ⟨here ▸ bound,mine.trans wrote⟩
      · exact turnsOther differ (sound.writer (here ▸ written))
    · rename_i elsewhere
      exact turnsOther (apart elsewhere (sound.writer written).1) (sound.writer written)
  · intro x other listed
    rw [turnsLock] at listed
    split at listed
    · rename_i here
      rcases turned.reader other listed with ⟨rfl,read⟩ | ⟨differ,listed⟩
      · exact ⟨here ▸ bound,mine.trans read⟩
      · exact turnsOther differ (sound.reader (here ▸ listed))
    · rename_i elsewhere
      exact turnsOther (apart elsewhere (sound.reader listed).1) (sound.reader listed)
  · intro x
    rw [turnsLock]
    split
    · exact turned.nodup
    · exact sound.nodup x
  · intro other x theirs wrote
    rw [turnsGuard] at wrote
    rw [turnsLock]
    split at wrote
    · rename_i self
      subst self
      cases Option.some.inj (bound.symm.trans theirs)
      rw [if_pos rfl]
      exact turned.mine wrote
    · rename_i differ
      have written := sound.writes theirs wrote
      split
      · rename_i here
        exact turned.others other differ (here ▸ written)
      · exact written
  · intro other unbound
    rw [turnsGuard,if_neg]
    · exact sound.guarded unbound
    · rintro rfl
      exact absurd (unbound.symm.trans bound) nofun

theorem tryTurned {lock taken : RwLock Conn} (unread : conn ∉ lock.readers) (nodup : lock.readers.Nodup)
    (got : tryGuard kind lock conn = some taken) : Turned conn (some kind) lock taken := by
  have unwritten := (tryExact got).1
  have none_ : ∀ other, lock.writer = some other → taken.writer = some other := by
    intro other written
    rw [unwritten] at written
    contradiction
  rcases (tryExact got).2 with ⟨rfl,-,wrote,empty⟩ | ⟨rfl,free,read⟩
  · refine ⟨fun other written => ?_,?_,?_,fun _ => wrote,fun other _ => none_ other⟩
    · exact .inl ⟨Option.some.inj (written.symm.trans wrote),rfl⟩
    · rw [empty]
      exact nofun
    · rw [empty]
      exact List.nodup_nil
  · refine ⟨?_,?_,?_,nofun,fun other _ => none_ other⟩
    · rw [free]
      exact nofun
    · rw [read]
      intro other listed
      rcases List.mem_cons.mp listed with self | listed
      · exact .inl ⟨self,rfl⟩
      · exact .inr ⟨fun self => unread (self ▸ listed),listed⟩
    · rw [read]
      exact List.nodup_cons.mpr ⟨unread,nodup⟩

theorem takesSound {taken : RwLock Conn} (sound : Sound s) (bound : s.arc conn = some arc)
    (untried : s.guard conn = none) (got : tryGuard kind (s.shared.lock arc) conn = some taken) :
    Sound (s.takes conn kind arc taken) := by
  have unread : conn ∉ (s.shared.lock arc).readers := fun listed =>
    absurd (untried.symm.trans (sound.reader listed).2) nofun
  exact turnsSound sound bound (tryTurned unread (sound.nodup arc) got)

theorem dropTurned {lock : RwLock Conn} (nodup : lock.readers.Nodup)
    (written : ∀ other, lock.writer = some other → (other = conn ↔ kind = .upload))
    (listed : conn ∈ lock.readers → kind = .download) :
    Turned conn none lock (FileLock.dropGuard kind lock conn) := by
  cases kind with
  | upload =>
    refine ⟨nofun,fun other read => .inr ⟨?_,read⟩,nodup,nofun,fun other differ wrote => ?_⟩
    · rintro rfl
      exact absurd (listed read) nofun
    · exact absurd ((written other wrote).mpr rfl) differ
  | download =>
    refine ⟨fun other wrote => .inr ⟨?_,wrote⟩,fun other read => .inr ?_,nodup.erase conn,nofun,
      fun _ _ wrote => wrote⟩
    · rintro rfl
      exact absurd ((written other wrote).mp rfl) nofun
    · exact nodup.mem_erase_iff.mp read

theorem droppedExact (s : Desk) (conn : Conn) : s.dropped conn = s ∧ (s.arc conn = none ∨ s.guard conn = none) ∨
    ∃ arc kind, s.arc conn = some arc ∧ s.guard conn = some kind ∧ s.dropped conn = {s with
      shared := s.shared.relock arc (FileLock.dropGuard kind (s.shared.lock arc) conn)
      guard := Function.update s.guard conn none} := by
  unfold dropped
  cases bound : s.arc conn with
  | none => exact .inl ⟨rfl,.inl rfl⟩
  | some arc =>
    cases guarded : s.guard conn with
    | none => exact .inl ⟨rfl,.inr rfl⟩
    | some kind => exact .inr ⟨arc,kind,rfl,rfl,rfl⟩

theorem droppedArc (s : Desk) (conn : Conn) : (s.dropped conn).arc = s.arc := by
  rcases droppedExact s conn with ⟨same,-⟩ | ⟨_,_,-,-,same⟩ <;> rw [same]

theorem droppedGuard (sound : Sound s) (conn other : Conn) :
    (s.dropped conn).guard other = if other = conn then none else s.guard other := by
  rcases droppedExact s conn with ⟨same,nothing⟩ | ⟨arc,kind,-,-,same⟩
  · rw [same]
    split
    · rename_i self
      rw [self]
      exact nothing.elim sound.guarded id
    · rfl
  · rw [same]
    exact Function.update_apply ..

theorem droppedSound (sound : Sound s) (conn : Conn) : Sound (s.dropped conn) := by
  rcases droppedExact s conn with ⟨same,-⟩ | ⟨arc,kind,bound,guarded,same⟩
  · rw [same]
    exact sound
  · rw [same]
    refine turnsSound sound bound (dropTurned (sound.nodup arc) ?_ ?_)
    · intro other written
      constructor
      · rintro rfl
        exact Option.some.inj (guarded.symm.trans (sound.writer written).2)
      · rintro rfl
        exact RwLock.oneWriter written (sound.writes bound guarded)
    · intro listed
      exact Option.some.inj (guarded.symm.trans (sound.reader listed).2)

theorem unboundSound (sound : Sound s) (untaken : s.guard conn = none) :
    Sound {s with arc := Function.update s.arc conn none} := by
  have others : ∀ {other x}, Function.update s.arc conn none other = some x → s.arc other = some x := by
    intro other x bound
    rw [Function.update_apply] at bound
    split at bound
    · contradiction
    · exact bound
  have owners : ∀ {other x kind'}, s.arc other = some x ∧ s.guard other = some kind' →
      Function.update s.arc conn none other = some x ∧ s.guard other = some kind' := by
    rintro other x kind' ⟨bound,guarded⟩
    refine ⟨?_,guarded⟩
    rw [Function.update_of_ne,bound]
    rintro rfl
    exact absurd (untaken.symm.trans guarded) nofun
  refine ⟨sound.tabled,fun bound => sound.handed (others bound),sound.single,
    fun written => owners (sound.writer written),fun listed => owners (sound.reader listed),
    sound.nodup,fun bound => sound.writes (others bound),?_⟩
  intro other unbound
  change Function.update s.arc conn none other = none at unbound
  rw [Function.update_apply] at unbound
  split at unbound
  · rename_i self
    rw [self]
    exact untaken
  · exact sound.guarded unbound

theorem leavesSound (sound : Sound s) (conn : Conn) : Sound (s.leaves conn) := by
  have left := unboundSound (droppedSound sound conn) ((droppedGuard sound conn conn).trans (if_pos rfl))
  rw [droppedArc] at left
  exact left

theorem releasesSound (sound : Sound s) (fileId : FileId) : Sound (s.releases fileId) := by
  have entries : ∀ {other x}, (s.releases fileId).shared.sharedFileLock other = some x →
      s.shared.sharedFileLock other = some x := by
    intro other x found
    change Function.update s.shared.sharedFileLock fileId none other = some x at found
    rw [Function.update_apply] at found
    split at found
    · contradiction
    · exact found
  exact ⟨fun found => sound.tabled (entries found),sound.handed,
    fun one other => sound.single (entries one) (entries other),sound.writer,sound.reader,sound.nodup,
    sound.writes,sound.guarded⟩

def Both (own : Conn → Bool) (s t : Desk) (conn : Conn) (x y : Arc) : Prop :=
  own conn = true ∧ s.arc conn = some x ∧ t.arc conn = some y

/- With the others and without them: the client's handlers share the same locks with each
other, find the same guards of their own on them, and the same ones are in the table. -/
structure Views (own : Conn → Bool) (s t : Desk) : Prop where
  left : Sound s
  right : Sound t
  strangers : ∀ conn, own conn = false → t.arc conn = none
  guard : ∀ conn, own conn = true → s.guard conn = t.guard conn
  bound : ∀ conn, own conn = true → (s.arc conn = none ↔ t.arc conn = none)
  shared : ∀ {conn x y other x' y'}, Both own s t conn x y → Both own s t other x' y' → (x = x' ↔ y = y')
  lock : ∀ {conn x y}, Both own s t conn x y → (s.shared.lock x).only own = t.shared.lock y
  listed : ∀ {conn x y} fileId, Both own s t conn x y →
    (s.shared.sharedFileLock fileId = some x ↔ t.shared.sharedFileLock fileId = some y)

theorem startViews (own : Conn → Bool) : Views own start start where
  left := startSound
  right := startSound
  strangers _ _ := rfl
  guard _ _ := rfl
  bound _ _ := Iff.rfl
  shared one := nomatch one.2.1
  lock one := nomatch one.2.1
  listed _ one := nomatch one.2.1

/- No stranger's guard is in the way of the client's try, and no stranger takes an entry out
of the table whose lock a handler of the client works with. -/
def Careful (own : Conn → Bool) (s : Desk) (conn : Conn) : Use → Prop
  | .tryLock kind _ => own conn = true → ∀ arc, s.arc conn = some arc → ∀ other, own other = false →
    (s.shared.lock arc).writer ≠ some other ∧ (kind = .upload → other ∉ (s.shared.lock arc).readers)
  | .release fileId => own conn = false → ∀ other arc, own other = true → s.arc other = some arc →
    s.shared.sharedFileLock fileId ≠ some arc
  | _ => True

theorem gotClear {lock taken : RwLock Conn} (got : tryGuard kind lock conn = some taken) (other : Conn) :
    lock.writer ≠ some other ∧ (kind = .upload → other ∉ lock.readers) := by
  cases kind with
  | upload =>
    obtain ⟨unwritten,unread,-⟩ := RwLock.tryWriteExact got
    rw [unwritten,unread]
    exact ⟨nofun,fun _ => List.not_mem_nil⟩
  | download =>
    rw [(RwLock.tryReadExact got).1]
    exact ⟨nofun,nofun⟩

variable {own : Conn → Bool} {t u : Desk} {use : Use}

theorem viewsKept (views : Views own s t) (sound : Sound u)
    (arc : ∀ conn, own conn = true → u.arc conn = s.arc conn)
    (guard : ∀ conn, own conn = true → u.guard conn = s.guard conn)
    (lock : ∀ {conn x y}, Both own s t conn x y →
      (u.shared.lock x).only own = (s.shared.lock x).only own)
    (listed : ∀ {conn x y} fileId, Both own s t conn x y →
      (u.shared.sharedFileLock fileId = some x ↔ s.shared.sharedFileLock fileId = some x)) :
    Views own u t := by
  have before : ∀ {conn x y}, Both own u t conn x y → Both own s t conn x y := by
    rintro conn x y ⟨mine,here,there⟩
    exact ⟨mine,(arc conn mine) ▸ here,there⟩
  refine ⟨sound,views.right,views.strangers,?_,?_,?_,?_,?_⟩
  · exact fun conn mine => (guard conn mine).trans (views.guard conn mine)
  · intro conn mine
    rw [arc conn mine]
    exact views.bound conn mine
  · exact fun one other => views.shared (before one) (before other)
  · exact fun both => (lock (before both)).trans (views.lock (before both))
  · exact fun fileId both => (listed fileId (before both)).trans (views.listed fileId (before both))

theorem otherConn (mine : own conn = true) {other : Conn} (foreign : own other = false) : conn ≠ other := by
  rintro rfl
  rw [mine] at foreign
  contradiction

theorem otherHolds (views : Views own s t) (other : own conn = false) (unbound : s.arc conn = none) :
    Views own (s.holds conn fileId) t := by
  refine viewsKept views (holdsSound views.left unbound) ?_ (fun _ _ => rfl) ?_ ?_
  · exact fun _ mine => Function.update_of_ne (otherConn mine other) ..
  · rintro o x y ⟨-,bound,-⟩
    exact congrArg _ (holdKeepsLock (views.left.handed bound))
  · rintro o x y file ⟨-,bound,-⟩
    rw [holdsEntry]
    split
    · rename_i here
      rw [here,Option.some.injEq]
      exact holdsShared views.left bound
    · exact Iff.rfl

theorem otherTakes {taken : RwLock Conn} (views : Views own s t) (other : own conn = false)
    (bound : s.arc conn = some arc) (untried : s.guard conn = none)
    (got : tryGuard kind (s.shared.lock arc) conn = some taken) : Views own (s.takes conn kind arc taken) t := by
  refine viewsKept views (takesSound views.left bound untried got) (fun _ _ => rfl) ?_ ?_ fun _ _ => Iff.rfl
  · exact fun _ mine => Function.update_of_ne (otherConn mine other) ..
  · intro o x y _
    change ((s.shared.relock arc taken).lock x).only own = _
    rw [relocked]
    split
    · rename_i here
      rw [here]
      cases kind with
      | upload => exact RwLock.onlyOtherWrite other got
      | download => exact RwLock.onlyOtherRead other got
    · rfl

theorem otherDrops (views : Views own s t) (other : own conn = false) : Views own (s.dropped conn) t := by
  rcases droppedExact s conn with ⟨same,-⟩ | ⟨arc,kind,bound,guarded,same⟩
  · rw [same]
    exact views
  refine viewsKept views (droppedSound views.left conn) ?_ ?_ ?_ ?_
  · exact fun _ _ => by rw [same]
  · intro o mine
    rw [droppedGuard views.left,if_neg (otherConn mine other)]
  · intro o x y _
    rw [same]
    change ((s.shared.relock arc _).lock x).only own = _
    rw [relocked]
    split
    · rename_i here
      rw [here]
      cases kind with
      | upload => exact RwLock.onlyOtherDropWrite other (views.left.writes bound guarded)
      | download => exact RwLock.onlyOtherDropRead other
    · rfl
  · exact fun _ _ => by rw [same]; exact Iff.rfl

theorem otherReleases (views : Views own s t)
    (careful : ∀ o arc, own o = true → s.arc o = some arc → s.shared.sharedFileLock fileId ≠ some arc) :
    Views own (s.releases fileId) t := by
  refine viewsKept views (releasesSound views.left fileId) (fun _ _ => rfl) (fun _ _ => rfl)
    (fun _ => rfl) ?_
  rintro o x y file ⟨mine,bound,-⟩
  change Function.update s.shared.sharedFileLock fileId none file = some x ↔ _
  rw [Function.update_apply]
  split
  · rename_i here
    rw [here]
    exact iff_of_false nofun (careful o x mine bound)
  · exact Iff.rfl

theorem otherLeaves (views : Views own s t) (other : own conn = false) : Views own (s.leaves conn) t := by
  have dropped := otherDrops views other
  refine viewsKept dropped (leavesSound views.left conn) ?_ (fun _ _ => rfl) (fun _ => rfl)
    fun _ _ => Iff.rfl
  intro o mine
  rw [droppedArc]
  exact Function.update_of_ne (otherConn mine other) ..

theorem otherStep (step : Step conn s use u) (other : own conn = false) (careful : Careful own s conn use)
    (views : Views own s t) : Views own u t := by
  cases step with
  | hold unbound => exact otherHolds views other unbound
  | take bound untried got => exact otherTakes views other bound untried got
  | refuse => exact views
  | drop => exact otherDrops views other
  | release => exact otherReleases views (careful other)
  | leave => exact otherLeaves views other

theorem handedAlike (views : Views own s t) (conn : Conn) :
    ((s.holds conn fileId).shared.lock (holdFileLock s.shared fileId).2).only own =
      (t.holds conn fileId).shared.lock (holdFileLock t.shared fileId).2 := by
  by_cases friend : ∃ o x, own o = true ∧ s.arc o = some x ∧ s.shared.sharedFileLock fileId = some x
  · obtain ⟨o,x,mine,bound,found⟩ := friend
    obtain ⟨y,boundThere⟩ := Option.ne_none_iff_exists'.mp
      fun none_ => absurd (((views.bound o mine).mpr none_).symm.trans bound) nofun
    have both : Both own s t o x y := ⟨mine,bound,boundThere⟩
    have foundThere := (views.listed fileId both).mp found
    have here : holdFileLock s.shared fileId = (s.shared,x) := by rw [holdFileLock,found]
    have there : holdFileLock t.shared fileId = (t.shared,y) := by rw [holdFileLock,foundThere]
    simp only [holds,here,there]
    exact views.lock both
  · have nobody : ∀ o, own o = true → s.arc o ≠ some (holdFileLock s.shared fileId).2 :=
      fun o mine bound => friend ⟨o,_,mine,bound,(holdsShared views.left bound).mp rfl⟩
    have nobodyThere : ∀ o, t.arc o ≠ some (holdFileLock t.shared fileId).2 := by
      intro o boundThere
      cases mine : own o with
      | false => exact absurd ((views.strangers o mine).symm.trans boundThere) nofun
      | true =>
        obtain ⟨x,bound⟩ := Option.ne_none_iff_exists'.mp
          fun none_ => absurd (((views.bound o mine).mp none_).symm.trans boundThere) nofun
        have listedThere := (holdsShared views.right boundThere).mp rfl
        exact friend ⟨o,x,mine,bound,(views.listed fileId ⟨mine,bound,boundThere⟩).mpr listedThere⟩
    rw [RwLock.onlyFree own]
    · apply RwLock.ext
      · symm
        exact Option.eq_none_iff_forall_ne_some.mpr fun o written =>
          nobodyThere o (holdsOwners views.right (.inl written))
      · symm
        exact List.eq_nil_iff_forall_not_mem.mpr fun o listed =>
          nobodyThere o (holdsOwners views.right (.inr listed))
    · intro o written
      rw [Bool.eq_false_iff]
      exact fun mine => nobody o mine (holdsOwners views.left (.inl written))
    · intro o listed
      rw [Bool.eq_false_iff]
      exact fun mine => nobody o mine (holdsOwners views.left (.inr listed))

theorem holdsArc (s : Desk) (conn : Conn) (fileId : FileId) (o : Conn) : (s.holds conn fileId).arc o =
    if o = conn then some (holdFileLock s.shared fileId).2 else s.arc o :=
  Function.update_apply ..

/- A pair of Arcs is the new one, or one from before. -/
theorem bothHolds {o : Conn} {x y : Arc}
    (both : Both own (s.holds conn fileId) (t.holds conn fileId) o x y) :
    x = (holdFileLock s.shared fileId).2 ∧ y = (holdFileLock t.shared fileId).2 ∨ Both own s t o x y := by
  obtain ⟨mine,here,there⟩ := both
  rw [holdsArc] at here there
  split at here
  · rename_i self
    rw [if_pos self] at there
    exact .inl ⟨(Option.some.inj here).symm,(Option.some.inj there).symm⟩
  · rename_i differ
    rw [if_neg differ] at there
    exact .inr ⟨mine,here,there⟩

theorem newShared (views : Views own s t) {o : Conn} {x y : Arc} (both : Both own s t o x y) :
    (holdFileLock s.shared fileId).2 = x ↔ (holdFileLock t.shared fileId).2 = y :=
  (holdsShared views.left both.2.1).trans
    ((views.listed fileId both).trans (holdsShared views.right both.2.2).symm)

theorem ownHolds (views : Views own s t) (mine : own conn = true) (unbound : s.arc conn = none) :
    Views own (s.holds conn fileId) (t.holds conn fileId) := by
  have unboundThere := (views.bound conn mine).mp unbound
  refine ⟨holdsSound views.left unbound,holdsSound views.right unboundThere,?_,views.guard,?_,?_,?_,?_⟩
  · intro o foreign
    rw [holdsArc,if_neg (otherConn mine foreign).symm]
    exact views.strangers o foreign
  · intro o friend
    rw [holdsArc,holdsArc]
    split
    · exact iff_of_false nofun nofun
    · exact views.bound o friend
  · intro o x y o' x' y' one other
    rcases bothHolds one with ⟨rfl,rfl⟩ | one <;> rcases bothHolds other with ⟨rfl,rfl⟩ | other
    · exact iff_of_true rfl rfl
    · exact newShared views other
    · exact eq_comm.trans ((newShared views one).trans eq_comm)
    · exact views.shared one other
  · intro o x y both
    rcases bothHolds both with ⟨rfl,rfl⟩ | both
    · exact handedAlike views conn
    · have here : (s.holds conn fileId).shared.lock x = s.shared.lock x :=
        holdKeepsLock (views.left.handed both.2.1)
      have there : (t.holds conn fileId).shared.lock y = t.shared.lock y :=
        holdKeepsLock (views.right.handed both.2.2)
      rw [here,there]
      exact views.lock both
  · intro o x y file both
    rw [holdsEntry,holdsEntry]
    rcases bothHolds both with ⟨rfl,rfl⟩ | both
    · split
      · exact iff_of_true rfl rfl
      · rename_i elsewhere
        exact iff_of_false (holdsUnlisted views.left elsewhere) (holdsUnlisted views.right elsewhere)
    · split
      · rw [Option.some.injEq,Option.some.injEq]
        exact newShared views both
      · exact views.listed file both

theorem tryAlike {lock : RwLock Conn} (mine : own conn = true)
    (writer : ∀ o, own o = false → lock.writer ≠ some o)
    (readers : kind = .upload → ∀ o, own o = false → o ∉ lock.readers) :
    tryGuard kind (lock.only own) conn = (tryGuard kind lock conn).map (RwLock.only own) := by
  have writerOwn : ∀ o, lock.writer = some o → own o = true := by
    intro o written
    by_contra stranger
    exact writer o (Bool.eq_false_iff.mpr stranger) written
  cases kind with
  | upload =>
    refine RwLock.onlyTryWrite mine writerOwn fun o listed => ?_
    by_contra stranger
    exact readers rfl o (Bool.eq_false_iff.mpr stranger) listed
  | download => exact RwLock.onlyTryRead mine writerOwn

theorem relockViews {lock lockThere : RwLock Conn} {guard : Option Kind} {x y : Arc}
    (views : Views own s t) (both : Both own s t conn x y) (same : lock.only own = lockThere)
    (sound : Sound {s with shared := s.shared.relock x lock, guard := Function.update s.guard conn guard})
    (soundThere : Sound {t with
      shared := t.shared.relock y lockThere
      guard := Function.update t.guard conn guard}) :
    Views own {s with shared := s.shared.relock x lock, guard := Function.update s.guard conn guard}
      {t with shared := t.shared.relock y lockThere, guard := Function.update t.guard conn guard} := by
  refine ⟨sound,soundThere,views.strangers,?_,views.bound,views.shared,?_,views.listed⟩
  · intro o friend
    change Function.update s.guard conn guard o = Function.update t.guard conn guard o
    rw [Function.update_apply,Function.update_apply]
    split
    · rfl
    · exact views.guard o friend
  · intro o x' y' other
    change ((s.shared.relock x lock).lock x').only own = (t.shared.relock y lockThere).lock y'
    rw [relocked,relocked]
    have shared := views.shared other both
    by_cases here : x' = x
    · rw [if_pos here,if_pos (shared.mp here)]
      exact same
    · rw [if_neg here,if_neg fun there => here (shared.mpr there)]
      exact views.lock other

theorem boundThere (views : Views own s t) (mine : own conn = true) {x : Arc} (bound : s.arc conn = some x) :
    ∃ y, Both own s t conn x y := by
  obtain ⟨y,there⟩ := Option.ne_none_iff_exists'.mp
    fun none_ => absurd (((views.bound conn mine).mpr none_).symm.trans bound) nofun
  exact ⟨y,mine,bound,there⟩

theorem ownTakes {taken : RwLock Conn} (views : Views own s t) (mine : own conn = true)
    (careful : Careful own s conn (.tryLock kind true)) (bound : s.arc conn = some arc)
    (untried : s.guard conn = none) (got : tryGuard kind (s.shared.lock arc) conn = some taken) :
    ∃ v, Step conn t (.tryLock kind true) v ∧ Views own (s.takes conn kind arc taken) v := by
  obtain ⟨y,both⟩ := boundThere views mine bound
  have free := careful mine arc bound
  have gotThere : tryGuard kind (t.shared.lock y) conn = some (taken.only own) := by
    rw [← views.lock both,tryAlike mine (fun o other => (free o other).1)
      (fun upload o other => (free o other).2 upload),got]
    rfl
  have untriedThere : t.guard conn = none := (views.guard conn mine).symm.trans untried
  exact ⟨_,.take both.2.2 untriedThere gotThere,relockViews views both rfl
    (takesSound views.left bound untried got) (takesSound views.right both.2.2 untriedThere gotThere)⟩

theorem ownRefused (views : Views own s t) (mine : own conn = true)
    (careful : Careful own s conn (.tryLock kind false)) (bound : s.arc conn = some arc)
    (untried : s.guard conn = none) (busy : tryGuard kind (s.shared.lock arc) conn = none) :
    ∃ v, Step conn t (.tryLock kind false) v ∧ Views own s v := by
  obtain ⟨y,both⟩ := boundThere views mine bound
  have free := careful mine arc bound
  have busyThere : tryGuard kind (t.shared.lock y) conn = none := by
    rw [← views.lock both,tryAlike mine (fun o other => (free o other).1)
      (fun upload o other => (free o other).2 upload),busy]
    rfl
  exact ⟨t,.refuse both.2.2 ((views.guard conn mine).symm.trans untried) busyThere,views⟩

theorem ownDrops (views : Views own s t) (mine : own conn = true) :
    Views own (s.dropped conn) (t.dropped conn) := by
  rcases droppedExact s conn with ⟨same,nothing⟩ | ⟨x,kind,bound,guarded,same⟩
  · have nothingThere : t.dropped conn = t := by
      rcases droppedExact t conn with ⟨same,-⟩ | ⟨y,kind,bound,guarded,-⟩
      · exact same
      · rcases nothing with unbound | unguarded
        · exact absurd (((views.bound conn mine).mp unbound).symm.trans bound) nofun
        · exact absurd (unguarded.symm.trans ((views.guard conn mine).trans guarded)) nofun
    rw [same,nothingThere]
    exact views
  · obtain ⟨y,both⟩ := boundThere views mine bound
    have sound := droppedSound views.left conn
    have soundThere := droppedSound views.right conn
    have there : t.dropped conn = {t with
        shared := t.shared.relock y (FileLock.dropGuard kind (t.shared.lock y) conn)
        guard := Function.update t.guard conn none} := by
      unfold dropped
      rw [both.2.2,← views.guard conn mine,guarded]
    rw [same] at sound ⊢
    rw [there] at soundThere ⊢
    refine relockViews views both ?_ sound soundThere
    rw [← views.lock both]
    cases kind with
    | upload => exact RwLock.onlyDropWrite
    | download => exact RwLock.onlyDropRead

theorem ownReleases (views : Views own s t) : Views own (s.releases fileId) (t.releases fileId) := by
  refine ⟨releasesSound views.left fileId,releasesSound views.right fileId,views.strangers,views.guard,
    views.bound,views.shared,views.lock,?_⟩
  intro o x y file both
  change Function.update s.shared.sharedFileLock fileId none file = some x ↔
    Function.update t.shared.sharedFileLock fileId none file = some y
  rw [Function.update_apply,Function.update_apply]
  split
  · exact iff_of_false nofun nofun
  · exact views.listed file both

theorem ownLeaves (views : Views own s t) (mine : own conn = true) :
    Views own (s.leaves conn) (t.leaves conn) := by
  have dropped := ownDrops views mine
  have arcs : ∀ (d : Desk) o, (d.leaves conn).arc o = if o = conn then none else (d.dropped conn).arc o := by
    intro d o
    rw [droppedArc]
    exact Function.update_apply ..
  have before : ∀ {o x y}, Both own (s.leaves conn) (t.leaves conn) o x y →
      Both own (s.dropped conn) (t.dropped conn) o x y := by
    rintro o x y ⟨friend,here,there⟩
    rw [arcs] at here there
    split at here
    · contradiction
    · rename_i differ
      rw [if_neg differ] at there
      exact ⟨friend,here,there⟩
  refine ⟨leavesSound views.left conn,leavesSound views.right conn,?_,dropped.guard,?_,
    fun one other => dropped.shared (before one) (before other),fun both => dropped.lock (before both),
    fun file both => dropped.listed file (before both)⟩
  · intro o foreign
    rw [arcs]
    split
    · rfl
    · exact dropped.strangers o foreign
  · intro o friend
    rw [arcs,arcs]
    split
    · exact iff_of_true rfl rfl
    · exact dropped.bound o friend

theorem ownStep (step : Step conn s use u) (mine : own conn = true) (careful : Careful own s conn use)
    (views : Views own s t) : ∃ v, Step conn t use v ∧ Views own u v := by
  cases step with
  | hold unbound => exact ⟨_,.hold ((views.bound conn mine).mp unbound),ownHolds views mine unbound⟩
  | take bound untried got => exact ownTakes views mine careful bound untried got
  | refuse bound untried busy => exact ownRefused views mine careful bound untried busy
  | drop => exact ⟨_,.drop,ownDrops views mine⟩
  | release => exact ⟨_,.release,ownReleases views⟩
  | leave => exact ⟨_,.leave,ownLeaves views mine⟩

end Desk
end RDrive.FileLock
