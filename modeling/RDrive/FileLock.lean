import RDrive.Lib.Runs
import RDrive.Lib.RwLock

/-! SHARED_FILE_LOCK under any number of handle_upload and handle_download runs.
Only what touches the table or a lock is a step; the transfer itself is the time
between tryLock and the end of the critical section. hold_file_lock and the try
have no await between them, so a cancellation is a `leave` of a critical section. -/
namespace RDrive.FileLock
open Runs

abbrev FileId := String
abbrev Arc := Nat
abbrev Conn := Nat

inductive Kind where
  | upload
  | download
  deriving DecidableEq, Repr

inductive Phase where
  | idle
  | holding (kind : Kind) (fileId : FileId) (arc : Arc)
  | refused (fileId : FileId)
  | critical (kind : Kind) (fileId : FileId) (arc : Arc)
  | dropped (fileId : FileId)
  | ended
  deriving DecidableEq, Repr

structure State where
  sharedFileLock : FileId → Option Arc
  lock : Arc → RwLock Conn
  nextArc : Arc
  phase : Conn → Phase

def initial : State := ⟨fun _ => none,fun _ => .free,0,fun _ => .idle⟩

def holdFileLock (s : State) (fileId : FileId) : State × Arc :=
  match s.sharedFileLock fileId with
  | some arc => (s,arc)
  | none =>
    ({s with
      sharedFileLock := Function.update s.sharedFileLock fileId (some s.nextArc)
      lock := Function.update s.lock s.nextArc .free
      nextArc := s.nextArc + 1},s.nextArc)

def releaseFileLock (s : State) (fileId : FileId) : State :=
  {s with sharedFileLock := Function.update s.sharedFileLock fileId none}

def tryGuard (kind : Kind) (lock : RwLock Conn) (conn : Conn) : Option (RwLock Conn) :=
  match kind with
  | .upload => lock.tryWrite conn
  | .download => lock.tryRead conn

def dropGuard (kind : Kind) (lock : RwLock Conn) (conn : Conn) : RwLock Conn :=
  match kind with
  | .upload => lock.dropWrite
  | .download => lock.dropRead conn

def State.enter (s : State) (conn : Conn) (phase : Phase) : State :=
  {s with phase := Function.update s.phase conn phase}

def State.relock (s : State) (arc : Arc) (lock : RwLock Conn) : State :=
  {s with lock := Function.update s.lock arc lock}

inductive Action where
  | hold (conn : Conn) (kind : Kind) (fileId : FileId)
  | tryLock (conn : Conn)
  | reply409 (conn : Conn)
  | leave (conn : Conn)
  | finish (conn : Conn)
  | release (conn : Conn)
  deriving DecidableEq, Repr

def step (s : State) : Action → Option State
  | .hold conn kind fileId =>
    match s.phase conn with
    | .idle =>
      let (held,arc) := holdFileLock s fileId
      some (held.enter conn (.holding kind fileId arc))
    | _ => none
  | .tryLock conn =>
    match s.phase conn with
    | .holding kind fileId arc =>
      match tryGuard kind (s.lock arc) conn with
      | some taken => some ((s.relock arc taken).enter conn (.critical kind fileId arc))
      | none => some (s.enter conn (.refused fileId))
    | _ => none
  -- 409 is sent, or sending it fails; either way the entry stays in the table
  | .reply409 conn =>
    match s.phase conn with
    | .refused _ => some (s.enter conn .ended)
    | _ => none
  -- any early return, `?` or cancellation: the guard goes, the entry stays
  | .leave conn =>
    match s.phase conn with
    | .critical kind _ arc =>
      some ((s.relock arc (dropGuard kind (s.lock arc) conn)).enter conn .ended)
    | _ => none
  -- drop(guard) on the success path, before release_file_lock
  | .finish conn =>
    match s.phase conn with
    | .critical kind fileId arc =>
      some ((s.relock arc (dropGuard kind (s.lock arc) conn)).enter conn (.dropped fileId))
    | _ => none
  | .release conn =>
    match s.phase conn with
    | .dropped fileId => some ((releaseFileLock s fileId).enter conn .ended)
    | _ => none

def InSection (s : State) (conn : Conn) (kind : Kind) (fileId : FileId) : Prop :=
  ∃ arc, s.phase conn = .critical kind fileId arc

def MutualExclusion (s : State) : Prop :=
  ∀ conn other kind fileId, conn ≠ other → InSection s conn .upload fileId →
    ¬ InSection s other kind fileId

def Uses (s : State) (conn : Conn) (fileId : FileId) (arc : Arc) : Prop :=
  ∃ kind, s.phase conn = .holding kind fileId arc ∨ s.phase conn = .critical kind fileId arc

/- An entry is removed only while nobody else works with a lock of that file. -/
def ReleaseUnshared (s : State) : Action → Prop
  | .release conn => ∀ fileId, s.phase conn = .dropped fileId → ∀ other arc, ¬ Uses s other fileId arc
  | _ => True

@[simp] theorem enterSame (s : State) (conn phase) : (s.enter conn phase).phase conn = phase := by
  simp [State.enter]
@[simp] theorem enterOther (s : State) {conn other : Conn} (different : other ≠ conn) (phase) :
    (s.enter conn phase).phase other = s.phase other := by
  simp [State.enter,different]
@[simp] theorem enterTable (s : State) (conn phase) :
    (s.enter conn phase).sharedFileLock = s.sharedFileLock := rfl
@[simp] theorem enterLock (s : State) (conn phase) : (s.enter conn phase).lock = s.lock := rfl
@[simp] theorem enterNext (s : State) (conn phase) : (s.enter conn phase).nextArc = s.nextArc := rfl
@[simp] theorem relockSame (s : State) (arc lock) : (s.relock arc lock).lock arc = lock := by
  simp [State.relock]
@[simp] theorem relockOther (s : State) {arc other : Arc} (different : other ≠ arc) (lock) :
    (s.relock arc lock).lock other = s.lock other := by
  simp [State.relock,different]
@[simp] theorem relockPhase (s : State) (arc lock) : (s.relock arc lock).phase = s.phase := rfl
@[simp] theorem relockTable (s : State) (arc lock) :
    (s.relock arc lock).sharedFileLock = s.sharedFileLock := rfl
@[simp] theorem relockNext (s : State) (arc lock) : (s.relock arc lock).nextArc = s.nextArc := rfl

inductive Stepped (s : State) : Action → State → Prop where
  | hold {conn kind fileId} (idle : s.phase conn = .idle) :
      Stepped s (.hold conn kind fileId)
        ((holdFileLock s fileId).1.enter conn (.holding kind fileId (holdFileLock s fileId).2))
  | take {conn kind fileId arc taken} (at_ : s.phase conn = .holding kind fileId arc)
      (got : tryGuard kind (s.lock arc) conn = some taken) :
      Stepped s (.tryLock conn) ((s.relock arc taken).enter conn (.critical kind fileId arc))
  | refuse {conn kind fileId arc} (at_ : s.phase conn = .holding kind fileId arc)
      (busy : tryGuard kind (s.lock arc) conn = none) :
      Stepped s (.tryLock conn) (s.enter conn (.refused fileId))
  | reply409 {conn fileId} (at_ : s.phase conn = .refused fileId) :
      Stepped s (.reply409 conn) (s.enter conn .ended)
  | leave {conn kind fileId arc} (at_ : s.phase conn = .critical kind fileId arc) :
      Stepped s (.leave conn)
        ((s.relock arc (dropGuard kind (s.lock arc) conn)).enter conn .ended)
  | finish {conn kind fileId arc} (at_ : s.phase conn = .critical kind fileId arc) :
      Stepped s (.finish conn)
        ((s.relock arc (dropGuard kind (s.lock arc) conn)).enter conn (.dropped fileId))
  | release {conn fileId} (at_ : s.phase conn = .dropped fileId) :
      Stepped s (.release conn) ((releaseFileLock s fileId).enter conn .ended)

theorem stepped {s next : State} {action : Action} (h : step s action = some next) :
    Stepped s action next := by
  cases action with
  | hold conn kind fileId =>
    simp only [step] at h
    split at h <;> try contradiction
    cases Option.some.inj h
    exact .hold (by assumption)
  | tryLock conn =>
    simp only [step] at h
    split at h <;> try contradiction
    split at h <;> cases Option.some.inj h
    · exact .take (by assumption) (by assumption)
    · exact .refuse (by assumption) (by assumption)
  | reply409 conn =>
    simp only [step] at h
    split at h <;> try contradiction
    cases Option.some.inj h
    exact .reply409 (by assumption)
  | leave conn =>
    simp only [step] at h
    split at h <;> try contradiction
    cases Option.some.inj h
    exact .leave (by assumption)
  | finish conn =>
    simp only [step] at h
    split at h <;> try contradiction
    cases Option.some.inj h
    exact .finish (by assumption)
  | release conn =>
    simp only [step] at h
    split at h <;> try contradiction
    cases Option.some.inj h
    exact .release (by assumption)

/- The table names the lock of every connection that works, and a lock records
every guard on it. Locks not handed out yet are out of the table's reach. -/
structure Coherent (s : State) : Prop where
  mapped : ∀ {conn fileId arc}, Uses s conn fileId arc → s.sharedFileLock fileId = some arc
  allocated : ∀ {fileId arc}, s.sharedFileLock fileId = some arc → arc < s.nextArc
  writing : ∀ {conn fileId arc}, s.phase conn = .critical .upload fileId arc →
    (s.lock arc).writer = some conn
  reading : ∀ {conn fileId arc}, s.phase conn = .critical .download fileId arc →
    conn ∈ (s.lock arc).readers

def Phase.Away : Phase → Prop
  | .holding _ _ _ | .critical _ _ _ => False
  | _ => True

theorem initialCoherent : Coherent initial where
  mapped := by rintro conn fileId arc ⟨kind,held | inside⟩ <;> contradiction
  allocated := by intro fileId arc found; contradiction
  writing := by intro conn fileId arc inside; contradiction
  reading := by intro conn fileId arc inside; contradiction

theorem usesCritical {s : State} {conn kind fileId arc}
    (inside : s.phase conn = .critical kind fileId arc) : Uses s conn fileId arc :=
  ⟨kind,.inr inside⟩

theorem usesHolding {s : State} {conn kind fileId arc}
    (held : s.phase conn = .holding kind fileId arc) : Uses s conn fileId arc :=
  ⟨kind,.inl held⟩

theorem usesOther {s : State} {conn other : Conn} {phase fileId arc} (different : other ≠ conn) :
    Uses (s.enter conn phase) other fileId arc ↔ Uses s other fileId arc := by
  simp [Uses,different]

theorem criticalAllocated {s : State} (good : Coherent s) {conn kind fileId arc}
    (inside : s.phase conn = .critical kind fileId arc) : arc < s.nextArc :=
  good.allocated (good.mapped (usesCritical inside))

theorem holdFound {s : State} {fileId} (good : Coherent s) :
    (holdFileLock s fileId).1.sharedFileLock fileId = some (holdFileLock s fileId).2 ∧
    (holdFileLock s fileId).2 < (holdFileLock s fileId).1.nextArc := by
  unfold holdFileLock
  cases found : s.sharedFileLock fileId with
  | some arc => exact ⟨found,good.allocated found⟩
  | none => simp

theorem holdKeepsTable {s : State} {fileId other arc}
    (found : s.sharedFileLock other = some arc) :
    (holdFileLock s fileId).1.sharedFileLock other = some arc := by
  unfold holdFileLock
  cases missing : s.sharedFileLock fileId with
  | some held => exact found
  | none =>
    have different : other ≠ fileId := by rintro rfl; simp [missing] at found
    simp [different,found]

theorem holdPhase (s : State) (fileId) : (holdFileLock s fileId).1.phase = s.phase := by
  unfold holdFileLock
  cases s.sharedFileLock fileId <;> rfl

theorem holdKeepsLock {s : State} {fileId arc} (handedOut : arc < s.nextArc) :
    (holdFileLock s fileId).1.lock arc = s.lock arc := by
  unfold holdFileLock
  cases s.sharedFileLock fileId with
  | some held => rfl
  | none => simp [Nat.ne_of_lt handedOut]

theorem holdAllocated {s : State} {fileId other arc} (good : Coherent s)
    (found : (holdFileLock s fileId).1.sharedFileLock other = some arc) :
    arc < (holdFileLock s fileId).1.nextArc := by
  unfold holdFileLock at found ⊢
  cases missing : s.sharedFileLock fileId with
  | some held => simp only [missing] at found ⊢; exact good.allocated found
  | none =>
    simp only [missing,Function.update_apply] at found ⊢
    split at found
    · cases Option.some.inj found; exact Nat.lt_succ_self _
    · exact Nat.lt_succ_of_lt (good.allocated found)

theorem holdCoherent {s : State} (good : Coherent s) {conn kind fileId} :
    Coherent ((holdFileLock s fileId).1.enter conn
      (.holding kind fileId (holdFileLock s fileId).2)) where
  mapped := by
    intro other otherId arc uses
    by_cases same : other = conn
    · subst other
      obtain ⟨otherKind,held | inside⟩ := uses
      · simp only [enterSame,Phase.holding.injEq] at held
        obtain ⟨-,rfl,rfl⟩ := held
        exact (holdFound good).1
      · simp at inside
    · rw [usesOther same] at uses
      have before : Uses s other otherId arc := by simpa only [Uses,holdPhase] using uses
      exact holdKeepsTable (good.mapped before)
  allocated := holdAllocated good
  writing := by
    intro other otherId arc inside
    by_cases same : other = conn
    · subst other; simp at inside
    · rw [enterOther _ same,holdPhase] at inside
      rw [enterLock,holdKeepsLock (criticalAllocated good inside)]
      exact good.writing inside
  reading := by
    intro other otherId arc inside
    by_cases same : other = conn
    · subst other; simp at inside
    · rw [enterOther _ same,holdPhase] at inside
      rw [enterLock,holdKeepsLock (criticalAllocated good inside)]
      exact good.reading inside

theorem awayUses {s : State} {conn : Conn} {phase fileId arc} (away : phase.Away)
    (uses : Uses (s.enter conn phase) conn fileId arc) : False := by
  obtain ⟨kind,held | inside⟩ := uses
  · rw [enterSame] at held; subst phase; exact away
  · rw [enterSame] at inside; subst phase; exact away

theorem enterCoherent {s : State} (good : Coherent s) {conn : Conn} {phase} (away : phase.Away) :
    Coherent (s.enter conn phase) where
  mapped := by
    intro other fileId arc uses
    by_cases same : other = conn
    · subst other; exact (awayUses away uses).elim
    · exact good.mapped ((usesOther same).mp uses)
  allocated := good.allocated
  writing := by
    intro other fileId arc inside
    by_cases same : other = conn
    · subst other; exact (awayUses away (usesCritical inside)).elim
    · rw [enterOther _ same] at inside
      exact good.writing inside
  reading := by
    intro other fileId arc inside
    by_cases same : other = conn
    · subst other; exact (awayUses away (usesCritical inside)).elim
    · rw [enterOther _ same] at inside
      exact good.reading inside

theorem dropCoherent {s : State} (good : Coherent s) {conn : Conn} {kind fileId arc phase}
    (inside : s.phase conn = .critical kind fileId arc) (away : phase.Away) :
    Coherent ((s.relock arc (dropGuard kind (s.lock arc) conn)).enter conn phase) where
  mapped := (enterCoherent good away).mapped
  allocated := good.allocated
  writing := by
    intro other otherId otherArc critical
    by_cases same : other = conn
    · subst other; exact (awayUses away (usesCritical critical)).elim
    rw [enterOther _ same,relockPhase] at critical
    rw [enterLock]
    have written := good.writing critical
    by_cases sameArc : otherArc = arc
    · subst otherArc
      rw [relockSame]
      cases kind with
      | upload => exact absurd (RwLock.oneWriter written (good.writing inside)) same
      | download => exact written
    · rw [relockOther _ sameArc]; exact written
  reading := by
    intro other otherId otherArc critical
    by_cases same : other = conn
    · subst other; exact (awayUses away (usesCritical critical)).elim
    rw [enterOther _ same,relockPhase] at critical
    rw [enterLock]
    have listed := good.reading critical
    by_cases sameArc : otherArc = arc
    · subst otherArc
      rw [relockSame]
      cases kind with
      | upload => exact listed
      | download => exact (List.mem_erase_of_ne same).mpr listed
    · rw [relockOther _ sameArc]; exact listed

theorem takeCoherent {s : State} (good : Coherent s) {conn : Conn} {kind fileId arc taken}
    (held : s.phase conn = .holding kind fileId arc)
    (got : tryGuard kind (s.lock arc) conn = some taken) :
    Coherent ((s.relock arc taken).enter conn (.critical kind fileId arc)) where
  mapped := by
    intro other otherId otherArc uses
    by_cases same : other = conn
    · subst other
      obtain ⟨otherKind,waits | inside⟩ := uses
      · simp at waits
      · simp only [enterSame,Phase.critical.injEq] at inside
        obtain ⟨-,rfl,rfl⟩ := inside
        exact good.mapped (usesHolding held)
    · exact good.mapped ((usesOther same).mp uses)
  allocated := good.allocated
  writing := by
    intro other otherId otherArc inside
    rw [enterLock]
    by_cases same : other = conn
    · subst other
      simp only [enterSame,Phase.critical.injEq] at inside
      obtain ⟨rfl,rfl,rfl⟩ := inside
      rw [relockSame]
      exact (RwLock.tryWriteExact got).2.2.1
    rw [enterOther _ same,relockPhase] at inside
    have written := good.writing inside
    by_cases sameArc : otherArc = arc
    · subst otherArc
      cases kind with
      | upload => simp [(RwLock.tryWriteExact got).1] at written
      | download => simp [(RwLock.tryReadExact got).1] at written
    · rw [relockOther _ sameArc]; exact written
  reading := by
    intro other otherId otherArc inside
    rw [enterLock]
    by_cases same : other = conn
    · subst other
      simp only [enterSame,Phase.critical.injEq] at inside
      obtain ⟨rfl,rfl,rfl⟩ := inside
      rw [relockSame,(RwLock.tryReadExact got).2.2]
      exact List.mem_cons_self
    rw [enterOther _ same,relockPhase] at inside
    have listed := good.reading inside
    by_cases sameArc : otherArc = arc
    · subst otherArc
      rw [relockSame]
      cases kind with
      | upload => simp [(RwLock.tryWriteExact got).2.1] at listed
      | download =>
        rw [(RwLock.tryReadExact got).2.2]
        exact List.mem_cons_of_mem _ listed
    · rw [relockOther _ sameArc]; exact listed

/- The one step that needs the guard: nobody else still relies on the entry. -/
theorem releaseCoherent {s : State} (good : Coherent s) {conn : Conn} {fileId}
    (alone : ∀ other arc, ¬ Uses s other fileId arc) :
    Coherent ((releaseFileLock s fileId).enter conn .ended) where
  mapped := by
    intro other otherId arc uses
    by_cases same : other = conn
    · subst other; exact (awayUses (show Phase.ended.Away from trivial) uses).elim
    have before : Uses s other otherId arc := (usesOther same).mp uses
    have different : otherId ≠ fileId := by rintro rfl; exact alone other arc before
    simpa [releaseFileLock,different] using good.mapped before
  allocated := by
    intro otherId arc found
    simp only [enterTable,releaseFileLock,Function.update_apply] at found
    split at found
    · contradiction
    · exact good.allocated found
  writing := (enterCoherent good trivial : Coherent (s.enter conn .ended)).writing
  reading := (enterCoherent good trivial : Coherent (s.enter conn .ended)).reading

theorem stepCoherent {s next : State} {action : Action} (taken : step s action = some next)
    (unshared : ReleaseUnshared s action) (good : Coherent s) : Coherent next := by
  cases stepped taken with
  | hold idle => exact holdCoherent good
  | take held got => exact takeCoherent good held got
  | refuse held busy => exact enterCoherent good trivial
  | reply409 at_ => exact enterCoherent good trivial
  | leave inside => exact dropCoherent good inside trivial
  | finish inside => exact dropCoherent good inside trivial
  | release at_ => exact releaseCoherent good (unshared _ at_)

theorem runCoherent {s : State} {acts : List Action} (ran : run step initial acts = some s)
    (unshared : Always step ReleaseUnshared initial acts) : Coherent s :=
  runKeepsWhile stepCoherent ran unshared initialCoherent

theorem coherentExcludes {s : State} (good : Coherent s) : MutualExclusion s := by
  rintro conn other kind fileId different ⟨arc,inside⟩ ⟨otherArc,otherInside⟩
  have sameArc : otherArc = arc := Option.some.inj
    ((good.mapped (usesCritical otherInside)).symm.trans (good.mapped (usesCritical inside)))
  subst otherArc
  have written := good.writing inside
  cases kind with
  | upload => exact different (RwLock.oneWriter written (good.writing otherInside))
  | download => exact RwLock.noReaderBesideWriter written (good.reading otherInside)

/- Two downloads share a lock; the first to finish removes its entry, and an
upload is handed a fresh lock while the second download still reads. -/
def overtaken : List Action :=
  let fileId := "4a43afa64e9342fc8320e63a43eb193b"
  [.hold 0 .download fileId,.tryLock 0,.hold 1 .download fileId,.tryLock 1,
    .finish 0,.release 0,.hold 2 .upload fileId,.tryLock 2]

theorem overtakenEnds :
    (run step initial overtaken).map (fun s => (s.phase 1,s.phase 2)) =
      some (.critical .download "4a43afa64e9342fc8320e63a43eb193b" 0,
        .critical .upload "4a43afa64e9342fc8320e63a43eb193b" 1) := by decide

theorem exclusionFails :
    ¬ ∀ (acts : List Action) (s : State), run step initial acts = some s → MutualExclusion s := by
  intro always
  obtain ⟨s,ran,phases⟩ := Option.map_eq_some_iff.mp overtakenEnds
  obtain ⟨reads,writes⟩ := Prod.mk.injEq _ _ _ _ ▸ phases
  exact always overtaken s ran 2 1 .download _ (by decide) ⟨1,writes⟩ ⟨0,reads⟩

theorem exclusiveWhileUnshared {s : State} {acts : List Action}
    (ran : run step initial acts = some s)
    (unshared : Always step ReleaseUnshared initial acts) : MutualExclusion s :=
  coherentExcludes (runCoherent ran unshared)

/- One upload runs to its end while a download of the same file is turned away. -/
def turnedAway : List Action :=
  let fileId := "4a43afa64e9342fc8320e63a43eb193b"
  [.hold 0 .upload fileId,.tryLock 0,.hold 1 .download fileId,.tryLock 1,.finish 0,.release 0]

theorem turnedAwayUnshared : Always step ReleaseUnshared initial turnedAway := by
  refine ⟨trivial,fun s1 h1 => ⟨trivial,fun s2 h2 => ⟨trivial,fun s3 h3 => ⟨trivial,fun s4 h4 =>
    ⟨trivial,fun s5 h5 => ⟨?_,fun _ _ => trivial⟩⟩⟩⟩⟩⟩
  cases Option.some.inj h1
  cases Option.some.inj h2
  cases Option.some.inj h3
  cases Option.some.inj h4
  cases Option.some.inj h5
  rintro fileId - other arc ⟨kind,held | inside⟩
  · rcases other with _ | _ | other <;> contradiction
  · rcases other with _ | _ | other <;> contradiction

theorem exclusiveWhileTurnedAway :
    ∃ s, run step initial turnedAway = some s ∧ MutualExclusion s := by
  cases ran : run step initial turnedAway with
  | none => exact absurd (congrArg Option.isSome ran) (by decide)
  | some s => exact ⟨s,rfl,exclusiveWhileUnshared ran turnedAwayUnshared⟩

end RDrive.FileLock
