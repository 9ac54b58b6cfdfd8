import RDrive.FileLock

/-! What stays in SHARED_FILE_LOCK. An entry is made before anything about the
request is checked; only the success paths take it out again. -/
namespace RDrive.FileLock
open Runs

/- The file_id a handler works on, from hold_file_lock until it has ended. -/
def Phase.running : Phase → Option FileId
  | .idle => none
  | .holding _ fileId _ => some fileId
  | .refused fileId => some fileId
  | .critical _ fileId _ => some fileId
  | .dropped fileId => some fileId
  | .ended => none

def Listed (s : State) : Prop :=
  ∀ fileId, s.sharedFileLock fileId ≠ none → ∃ conn, (s.phase conn).running = some fileId

def Covered (s : State) (conn : Conn) (fileId : FileId) : Prop :=
  s.sharedFileLock fileId = none ∨
    ∃ other, other ≠ conn ∧ (s.phase other).running = some fileId

/- A handler that ends without release_file_lock is covered when it does. -/
def EndsCovered (s : State) : Action → Prop
  | .reply409 conn => ∀ fileId, s.phase conn = .refused fileId → Covered s conn fileId
  | .leave conn => ∀ kind fileId arc, s.phase conn = .critical kind fileId arc → Covered s conn fileId
  | _ => True

theorem initialListed : Listed initial := by
  intro fileId found
  exact absurd rfl found

theorem enterRunning {s : State} {conn : Conn} {phase : Phase}
    (same : phase.running = (s.phase conn).running) (other : Conn) :
    ((s.enter conn phase).phase other).running = (s.phase other).running := by
  by_cases here : other = conn
  · subst other
    rw [enterSame,same]
  · rw [enterOther s here]

theorem onwardListed {s : State} {conn : Conn} {phase : Phase}
    (same : phase.running = (s.phase conn).running) (listed : Listed s) :
    Listed (s.enter conn phase) := by
  intro fileId found
  obtain ⟨other,runs⟩ := listed fileId found
  exact ⟨other,(enterRunning same other).trans runs⟩

theorem endedListed {s : State} {conn : Conn} {fileId : FileId}
    (runs : (s.phase conn).running = some fileId) (listed : Listed s) :
    Listed (s.enter conn .ended) ↔ Covered s conn fileId := by
  constructor
  · intro after
    by_cases missing : s.sharedFileLock fileId = none
    · exact .inl missing
    · obtain ⟨other,runsOther⟩ := after fileId missing
      have different : other ≠ conn := by
        rintro rfl
        simp [Phase.running] at runsOther
      rw [enterOther s different] at runsOther
      exact .inr ⟨other,different,runsOther⟩
  · intro covered key found
    obtain ⟨other,runsOther⟩ := listed key found
    by_cases here : other = conn
    · subst other
      cases Option.some.inj (runsOther.symm.trans runs)
      rcases covered with missing | ⟨taker,different,takes⟩
      · exact absurd missing found
      · exact ⟨taker,by rwa [enterOther s different]⟩
    · exact ⟨other,by rwa [enterOther s here]⟩

theorem holdListed {s : State} {conn : Conn} {kind : Kind} {fileId : FileId}
    (idle : s.phase conn = .idle) (listed : Listed s) :
    Listed ((holdFileLock s fileId).1.enter conn
      (.holding kind fileId (holdFileLock s fileId).2)) := by
  intro key found
  by_cases own : key = fileId
  · subst key
    exact ⟨conn,by simp [Phase.running]⟩
  · have before : s.sharedFileLock key ≠ none := by
      unfold holdFileLock at found
      cases missing : s.sharedFileLock fileId with
      | some arc => simpa [missing] using found
      | none => simpa [missing,own] using found
    obtain ⟨other,runs⟩ := listed key before
    have different : other ≠ conn := by
      rintro rfl
      simp [idle,Phase.running] at runs
    exact ⟨other,by rwa [enterOther _ different,holdPhase]⟩

theorem releaseListed {s : State} {conn : Conn} {fileId : FileId}
    (at_ : s.phase conn = .dropped fileId) (listed : Listed s) :
    Listed ((releaseFileLock s fileId).enter conn .ended) := by
  intro key found
  have other : key ≠ fileId := by
    rintro rfl
    simp [releaseFileLock] at found
  have before : s.sharedFileLock key ≠ none := by simpa [releaseFileLock,other] using found
  obtain ⟨runner,runs⟩ := listed key before
  have different : runner ≠ conn := by
    rintro rfl
    simp only [at_,Phase.running,Option.some.injEq] at runs
    exact other runs.symm
  exact ⟨runner,by rwa [enterOther _ different]⟩

theorem stepListed {s next : State} {action : Action} (taken : step s action = some next)
    (listed : Listed s) : Listed next ↔ EndsCovered s action := by
  cases stepped taken with
  | hold idle => exact iff_of_true (holdListed idle listed) trivial
  | take held got =>
    exact iff_of_true (onwardListed (by simp [held,Phase.running]) listed) trivial
  | refuse held busy =>
    exact iff_of_true (onwardListed (by simp [held,Phase.running]) listed) trivial
  | @reply409 conn fileId at_ =>
    have runs : (s.phase conn).running = some fileId := by simp [at_,Phase.running]
    refine (endedListed runs listed).trans ?_
    simp [EndsCovered,at_]
  | @leave conn kind fileId arc inside =>
    have runs : (s.phase conn).running = some fileId := by simp [inside,Phase.running]
    refine (endedListed runs listed).trans ?_
    simp [EndsCovered,inside]
  | finish inside =>
    exact iff_of_true (onwardListed (by simp [inside,Phase.running]) listed) trivial
  | release at_ => exact iff_of_true (releaseListed at_ listed) trivial

theorem emptyWhenOver {s : State} (listed : Listed s)
    (ended : ∀ conn, (s.phase conn).running = none) (fileId : FileId) :
    s.sharedFileLock fileId = none := by
  by_contra found
  obtain ⟨conn,runs⟩ := listed fileId found
  rw [ended conn] at runs
  contradiction

/- A download of a file that is not there: 404, and the entry stays for good. -/
def notFound : List Action :=
  let fileId := "4a43afa64e9342fc8320e63a43eb193b"
  [.hold 0 .download fileId,.tryLock 0,.leave 0]

theorem notFoundLeaks :
    ¬ ∀ (acts : List Action) (s : State), run step initial acts = some s →
      Listed s ∧ ((∀ conn, (s.phase conn).running = none) →
        ∀ fileId, s.sharedFileLock fileId = none) := by
  intro always
  have entry : (run step initial notFound).map
      (fun s => s.sharedFileLock "4a43afa64e9342fc8320e63a43eb193b") = some (some 0) := by decide
  obtain ⟨s,ran,-⟩ := Option.map_eq_some_iff.mp entry
  have listed := (always notFound s ran).1
  cases Option.some.inj ran
  obtain ⟨conn,runs⟩ := listed "4a43afa64e9342fc8320e63a43eb193b" (by simp)
  cases conn <;> contradiction

theorem leaksExactlyUncovered {acts : List Action} {s : State}
    (ran : run step initial acts = some s) :
    (Throughout step Listed initial acts ↔ Always step EndsCovered initial acts) ∧
    (Always step EndsCovered initial acts → (∀ conn, (s.phase conn).running = none) →
      ∀ fileId, s.sharedFileLock fileId = none) := by
  refine ⟨throughoutExactly stepListed ran initialListed,?_⟩
  intro covered ended
  have keep : ∀ {s : State} {action next}, step s action = some next → EndsCovered s action →
      Listed s → Listed next := fun taken guarded listed => (stepListed taken listed).mpr guarded
  exact emptyWhenOver (runKeepsWhile keep ran covered initialListed) ended

/- The turned-away download replies after the upload has released the entry. -/
theorem turnedAwayLeavesNothing :
    ∃ s, run step initial (turnedAway ++ [.reply409 1]) = some s ∧
      ∀ fileId, s.sharedFileLock fileId = none := by
  cases ran : run step initial (turnedAway ++ [.reply409 1]) with
  | none => exact absurd (congrArg Option.isSome ran) (by decide)
  | some s =>
    refine ⟨s,rfl,(leaksExactlyUncovered ran).2 ?_ ?_⟩
    · refine ⟨trivial,fun s1 h1 => ⟨trivial,fun s2 h2 => ⟨trivial,fun s3 h3 => ⟨trivial,fun s4 h4 =>
        ⟨trivial,fun s5 h5 => ⟨trivial,fun s6 h6 => ⟨?_,fun _ _ => trivial⟩⟩⟩⟩⟩⟩⟩
      cases Option.some.inj h1
      cases Option.some.inj h2
      cases Option.some.inj h3
      cases Option.some.inj h4
      cases Option.some.inj h5
      cases Option.some.inj h6
      intro fileId refused
      cases Phase.refused.inj refused
      exact .inl (by decide)
    · cases Option.some.inj ran
      intro conn
      rcases conn with _ | _ | conn <;> rfl

end RDrive.FileLock
