import RDrive.Catalog

/-! Several client processes with one catalog.map. Each reads it whole and writes it
whole: push reads before its upload, pull after its download. -/
namespace RDrive.SharedCatalog
open Catalog

inductive Job where
  | push (fileName : String) (answer : Option Nat) (uuid : String)
  | pull (fileId : String)

/- How a process ended: with the push of an id, with the pull of an id that was in the
catalog and the number of its write, or without either. -/
inductive Ended where
  | pushed (fileId : String)
  | pulled (now : String) (write : Nat)
  | neither

/- A copy of the catalog goes with the number of writes there were when it was read. -/
inductive Stage where
  | begun
  | uploading (copy : Catalog) (fileId : String) (read : Nat)
  | downloaded
  | updating (copy : Catalog) (fileId : String) (read : Nat)
  | ended (how : Ended)

structure Process where
  job : Job
  stage : Stage

structure World where
  disk : Option Catalog
  writes : Nat
  processes : List Process

/- What the network and the clock say to the process that moves. -/
structure Turn where
  process : Nat
  transferred : Bool
  now : String

def World.put (w : World) (i : Nat) (p : Process) : World := {w with processes := w.processes.set i p}

def World.write (w : World) (c : Catalog) : World := {w with disk := some c,writes := w.writes + 1}

def advance (w : World) (turn : Turn) (p : Process) : Option (World × Stage) :=
  match p.job,p.stage with
  | .push fileName answer uuid,.begun =>
    let catalog := readOrCreate w.disk
    match catalog.chooseId fileName answer uuid with
    | .error _ => some (w,.ended .neither)
    | .ok fileId => some (w,.uploading catalog fileId w.writes)
  | .push _ _ _,.uploading copy fileId read =>
    if turn.transferred then some (w,.updating copy fileId read) else some (w,.ended .neither)
  | .push fileName _ _,.updating copy fileId _ =>
    some (w.write (copy.updateOnPush turn.now fileName fileId),.ended (.pushed fileId))
  | .pull _,.begun => if turn.transferred then some (w,.downloaded) else some (w,.ended .neither)
  | .pull fileId,.downloaded =>
    match w.disk with
    | some catalog => some (w,.updating catalog fileId w.writes)
    | none => some (w,.ended .neither)
  | .pull fileId,.updating copy _ _ =>
    some (w.write (copy.updateOnPull turn.now fileId),
      .ended (if (copy.fileMap fileId).isSome then .pulled turn.now (w.writes + 1) else .neither))
  | _,_ => none

def step (w : World) (turn : Turn) : Option World := do
  let p ← w.processes[turn.process]?
  let (next,stage) ← advance w turn p
  some (next.put turn.process {p with stage := stage})

def start (disk : Option Catalog) (jobs : List Job) : World := ⟨disk,0,jobs.map fun job => ⟨job,.begun⟩⟩

/- Every push that succeeded is in the catalog under its name, and for every pull of a
catalogued id its time is there, or that of a pull of the same id that wrote later. -/
structure NothingLost (w : World) : Prop where
  pushes : ∀ fileName answer uuid fileId,
    ⟨.push fileName answer uuid,.ended (.pushed fileId)⟩ ∈ w.processes →
    ((readOrCreate w.disk).fileMap fileId).isSome ∧ fileId ∈ (readOrCreate w.disk).tracked fileName
  pulls : ∀ fileId now write, ⟨.pull fileId,.ended (.pulled now write)⟩ ∈ w.processes →
    ∃ meta_ later, (readOrCreate w.disk).fileMap fileId = some meta_ ∧ write ≤ later ∧
      ⟨.pull fileId,.ended (.pulled meta_.lastPull later)⟩ ∈ w.processes

/- Nobody has written since the process that writes now read its copy. -/
def Unwritten (w : World) (turn : Turn) : Prop :=
  match w.processes[turn.process]? with
  | some ⟨_,.updating _ _ read⟩ => read = w.writes
  | _ => True

theorem advanceCases {w next : World} {turn : Turn} {p : Process} {stage : Stage}
    (advanced : advance w turn p = some (next,stage)) :
    (next = w ∧ (∀ how, stage = .ended how → how = .neither) ∧
      ∀ copy fileId read, stage = .uploading copy fileId read ∨ stage = .updating copy fileId read →
        (copy = readOrCreate w.disk ∧ read = w.writes) ∨ p.stage = .uploading copy fileId read) ∨
    (∃ fileName answer uuid copy fileId read,
      p = ⟨.push fileName answer uuid,.updating copy fileId read⟩ ∧
      next = w.write (copy.updateOnPush turn.now fileName fileId) ∧ stage = .ended (.pushed fileId)) ∨
    (∃ fileId copy target read, p = ⟨.pull fileId,.updating copy target read⟩ ∧
      next = w.write (copy.updateOnPull turn.now fileId) ∧
      stage = .ended (if (copy.fileMap fileId).isSome then .pulled turn.now (w.writes + 1)
        else .neither)) := by
  obtain ⟨job,before⟩ := p
  cases job with
  | push fileName answer uuid =>
    cases before with
    | begun =>
      simp only [advance] at advanced
      split at advanced <;> obtain ⟨rfl,rfl⟩ := Prod.mk.inj (Option.some.inj advanced)
      · exact .inl ⟨rfl,by simp,by simp⟩
      · refine .inl ⟨rfl,by simp,?_⟩
        intro copy fileId read holds
        simp only [Stage.uploading.injEq,reduceCtorEq,or_false] at holds
        exact .inl ⟨holds.1.symm,holds.2.2.symm⟩
    | uploading copy fileId read =>
      simp only [advance] at advanced
      split at advanced <;> obtain ⟨rfl,rfl⟩ := Prod.mk.inj (Option.some.inj advanced)
      · refine .inl ⟨rfl,by simp,?_⟩
        intro copy fileId read holds
        simp only [Stage.updating.injEq,reduceCtorEq,false_or] at holds
        obtain ⟨rfl,rfl,rfl⟩ := holds
        exact .inr rfl
      · exact .inl ⟨rfl,by simp,by simp⟩
    | updating copy fileId read =>
      obtain ⟨rfl,rfl⟩ := Prod.mk.inj (Option.some.inj advanced)
      exact .inr (.inl ⟨fileName,answer,uuid,copy,fileId,read,rfl,rfl,rfl⟩)
    | downloaded => contradiction
    | ended how => contradiction
  | pull fileId =>
    cases before with
    | begun =>
      simp only [advance] at advanced
      split at advanced <;> obtain ⟨rfl,rfl⟩ := Prod.mk.inj (Option.some.inj advanced) <;>
        exact .inl ⟨rfl,by simp,by simp⟩
    | downloaded =>
      simp only [advance] at advanced
      split at advanced <;> obtain ⟨rfl,rfl⟩ := Prod.mk.inj (Option.some.inj advanced)
      · rename_i found
        refine .inl ⟨rfl,by simp,?_⟩
        intro copy target read holds
        simp only [Stage.updating.injEq,reduceCtorEq,false_or] at holds
        exact .inl ⟨by rw [found]; exact holds.1.symm,holds.2.2.symm⟩
      · exact .inl ⟨rfl,by simp,by simp⟩
    | updating copy target read =>
      obtain ⟨rfl,rfl⟩ := Prod.mk.inj (Option.some.inj advanced)
      exact .inr (.inr ⟨fileId,copy,target,read,rfl,rfl,rfl⟩)
    | uploading copy target read => contradiction
    | ended how => contradiction

theorem stays {l : List Process} {i : Nat} {p q x : Process} (here : l[i]? = some p) (member : x ∈ l)
    (other : x ≠ p) : x ∈ l.set i q := by
  obtain ⟨j,there⟩ := List.getElem?_of_mem member
  have apart : i ≠ j := by
    rintro rfl
    exact other (Option.some.inj (there.symm.trans here))
  exact List.mem_of_getElem? ((List.getElem?_set_ne apart).trans there)

structure Kept (w : World) : Prop where
  nothingLost : NothingLost w
  earlier : ∀ fileId now write, ⟨.pull fileId,.ended (.pulled now write)⟩ ∈ w.processes →
    write ≤ w.writes
  copies : ∀ p ∈ w.processes, ∀ copy fileId read,
    p.stage = .uploading copy fileId read ∨ p.stage = .updating copy fileId read →
    read ≤ w.writes ∧ (read = w.writes → copy = readOrCreate w.disk)

theorem stepCases {w next : World} {turn : Turn} (taken : step w turn = some next) :
    ∃ p middle stage, w.processes[turn.process]? = some p ∧ advance w turn p = some (middle,stage) ∧
      next = middle.put turn.process {p with stage := stage} := by
  simp only [step,bind,Option.bind_eq_some_iff] at taken
  obtain ⟨p,here,⟨middle,stage⟩,advanced,same⟩ := taken
  exact ⟨p,middle,stage,here,advanced,(Option.some.inj same).symm⟩

theorem writeKept {w : World} {i : Nat} {p : Process} {how : Ended} {c : Catalog} (kept : Kept w)
    (here : w.processes[i]? = some p) (working : ∀ other, p.stage ≠ .ended other)
    (keeps : (readOrCreate w.disk).Keeps c)
    (lastPulls : ∀ id meta_, (readOrCreate w.disk).fileMap id = some meta_ →
      ∃ after, c.fileMap id = some after ∧ (after.lastPull = meta_.lastPull ∨
        p.job = .pull id ∧ how = .pulled after.lastPull (w.writes + 1)))
    (ownPush : ∀ fileName answer uuid fileId, p.job = .push fileName answer uuid →
      how = .pushed fileId → (c.fileMap fileId).isSome ∧ fileId ∈ c.tracked fileName)
    (ownPull : ∀ fileId now write, p.job = .pull fileId → how = .pulled now write →
      write = w.writes + 1 ∧ ∃ after, c.fileMap fileId = some after ∧ after.lastPull = now) :
    Kept ((w.write c).put i {p with stage := .ended how}) := by
  have others : ∀ x, x ∈ w.processes.set i {p with stage := .ended how} →
      x = {p with stage := .ended how} ∨ x ∈ w.processes := fun x member =>
    (List.mem_or_eq_of_mem_set member).symm
  have own : ({p with stage := .ended how} : Process) ∈
      w.processes.set i {p with stage := .ended how} :=
    List.mem_of_getElem? (List.getElem?_set_self (List.getElem?_eq_some_iff.mp here).1)
  refine ⟨⟨?_,?_⟩,?_,?_⟩
  · intro fileName answer uuid fileId member
    rcases others _ member with same | before
    · obtain ⟨job,ended⟩ := Process.mk.inj same
      exact ownPush fileName answer uuid fileId job.symm (Stage.ended.inj ended).symm
    · obtain ⟨there,listed⟩ := kept.nothingLost.pushes fileName answer uuid fileId before
      obtain ⟨meta_,found⟩ := Option.isSome_iff_exists.mp there
      obtain ⟨later,after,-⟩ := keeps.entry fileId meta_ found
      exact ⟨Option.isSome_iff_exists.mpr ⟨later,after⟩,keeps.listed fileName fileId listed⟩
  · intro fileId now write member
    rcases others _ member with same | before
    · obtain ⟨job,ended⟩ := Process.mk.inj same
      obtain ⟨rfl,after,found,rfl⟩ :=
        ownPull fileId now write job.symm (Stage.ended.inj ended).symm
      exact ⟨after,w.writes + 1,found,Nat.le_refl _,member⟩
    · obtain ⟨meta_,later,found,order,wrote⟩ := kept.nothingLost.pulls fileId now write before
      obtain ⟨after,there,same | ⟨job,last⟩⟩ := lastPulls fileId meta_ found
      · refine ⟨after,later,there,order,?_⟩
        rw [same]
        refine stays here wrote ?_
        rintro rfl
        exact working _ rfl
      · refine ⟨after,w.writes + 1,there,?_,?_⟩
        · exact Nat.le_succ_of_le (kept.earlier fileId now write before)
        · rw [← last,← job]
          exact own
  · intro fileId now write member
    rcases others _ member with same | before
    · obtain ⟨job,ended⟩ := Process.mk.inj same
      exact Nat.le_of_eq (ownPull fileId now write job.symm (Stage.ended.inj ended).symm).1
    · exact Nat.le_succ_of_le (kept.earlier fileId now write before)
  · intro x member copy fileId read holds
    rcases others _ member with rfl | before
    · rcases holds with holds | holds <;> cases holds
    · have old := (kept.copies x before copy fileId read holds).1
      refine ⟨Nat.le_succ_of_le old,?_⟩
      rintro rfl
      exact absurd old (Nat.not_succ_le_self _)

theorem quietKept {w : World} {i : Nat} {p : Process} {stage : Stage} (kept : Kept w)
    (here : w.processes[i]? = some p) (working : ∀ other, p.stage ≠ .ended other)
    (quiet : ∀ how, stage = .ended how → how = .neither)
    (copies : ∀ copy fileId read, stage = .uploading copy fileId read ∨
      stage = .updating copy fileId read →
      (copy = readOrCreate w.disk ∧ read = w.writes) ∨ p.stage = .uploading copy fileId read) :
    Kept (w.put i {p with stage := stage}) := by
  have others : ∀ x, x ∈ w.processes.set i {p with stage := stage} →
      x = {p with stage := stage} ∨ x ∈ w.processes := fun x member =>
    (List.mem_or_eq_of_mem_set member).symm
  refine ⟨⟨?_,?_⟩,?_,?_⟩
  · intro fileName answer uuid fileId member
    rcases others _ member with same | before
    · cases quiet _ (Process.mk.inj same).2.symm
    · exact kept.nothingLost.pushes fileName answer uuid fileId before
  · intro fileId now write member
    rcases others _ member with same | before
    · cases quiet _ (Process.mk.inj same).2.symm
    · obtain ⟨meta_,later,found,order,wrote⟩ := kept.nothingLost.pulls fileId now write before
      refine ⟨meta_,later,found,order,stays here wrote ?_⟩
      rintro rfl
      exact working _ rfl
  · intro fileId now write member
    rcases others _ member with same | before
    · cases quiet _ (Process.mk.inj same).2.symm
    · exact kept.earlier fileId now write before
  · intro x member copy fileId read holds
    rcases others _ member with rfl | before
    · rcases copies copy fileId read holds with ⟨rfl,rfl⟩ | held
      · exact ⟨Nat.le_refl _,fun _ => rfl⟩
      · exact kept.copies p (List.mem_of_getElem? here) copy fileId read (.inl held)
    · exact kept.copies x before copy fileId read holds

theorem advancing {w : World} {turn : Turn} {p : Process} {result : World × Stage}
    (advanced : advance w turn p = some result) : ∀ how, p.stage ≠ .ended how := by
  obtain ⟨job,before⟩ := p
  rintro how rfl
  cases job <;> contradiction

theorem stepKept {w next : World} {turn : Turn} (taken : step w turn = some next)
    (unwritten : Unwritten w turn) (kept : Kept w) : Kept next := by
  obtain ⟨p,middle,stage,here,advanced,rfl⟩ := stepCases taken
  rcases advanceCases advanced with ⟨rfl,quiet,copies⟩ |
    ⟨fileName,answer,uuid,copy,fileId,read,rfl,rfl,rfl⟩ | ⟨fileId,copy,target,read,rfl,rfl,rfl⟩
  · exact quietKept kept here (advancing advanced) quiet copies
  · have current : copy = readOrCreate w.disk :=
      (kept.copies _ (List.mem_of_getElem? here) copy fileId read (.inr rfl)).2
        (by unfold Unwritten at unwritten; rw [here] at unwritten; exact unwritten)
    subst current
    refine writeKept kept here (by simp) (pushKeeps _ turn.now fileName fileId) ?_ ?_ (by simp)
    · intro id meta_ found
      obtain ⟨later,after,-⟩ := (pushKeeps _ turn.now fileName fileId).entry id meta_ found
      exact ⟨later,after,.inl (pushLastPull _ turn.now fileName found after)⟩
    · intro name answer' uuid' id job how
      cases job
      cases how
      exact ⟨by rw [pushedMap]; rfl,pushedListed _ turn.now fileName fileId⟩
  · have current : copy = readOrCreate w.disk :=
      (kept.copies _ (List.mem_of_getElem? here) copy target read (.inr rfl)).2
        (by unfold Unwritten at unwritten; rw [here] at unwritten; exact unwritten)
    subst current
    refine writeKept kept here (by simp) (pullKeeps _ turn.now fileId) ?_ (by simp) ?_
    · intro id meta_ found
      by_cases same : id = fileId
      · subst same
        exact ⟨_,pulledMap turn.now found,.inr ⟨rfl,by rw [found]; rfl⟩⟩
      · exact ⟨meta_,(pulledMapOther _ turn.now same).trans found,.inl rfl⟩
    · intro id now write job how
      cases job
      split at how
      · rename_i there
        obtain ⟨meta_,found⟩ := Option.isSome_iff_exists.mp there
        cases how
        exact ⟨rfl,_,pulledMap turn.now found,rfl⟩
      · contradiction

theorem startKept (disk : Option Catalog) (jobs : List Job) : Kept (start disk jobs) := by
  have begun : ∀ p ∈ (start disk jobs).processes, p.stage = .begun := by
    intro p member
    obtain ⟨job,-,rfl⟩ := List.mem_map.mp member
    rfl
  refine ⟨⟨?_,?_⟩,?_,?_⟩
  · intro fileName answer uuid fileId member
    cases begun _ member
  · intro fileId now write member
    cases begun _ member
  · intro fileId now write member
    cases begun _ member
  · intro p member copy fileId read holds
    rw [begun p member] at holds
    rcases holds with holds | holds <;> cases holds

/- Where nobody writes between a process's read and its write, in no order of their
steps do the processes lose what others wrote. -/
theorem nothingLostUnwritten {disk : Option Catalog} {jobs : List Job} {turns : List Turn}
    (unwritten : Runs.Always step Unwritten (start disk jobs) turns) :
    Runs.Throughout step NothingLost (start disk jobs) turns :=
  Runs.throughoutWhile stepKept Kept.nothingLost unwritten (startKept disk jobs)

theorem pushedThenPulled : Runs.Throughout step NothingLost
    (start none [.push "notes" none "4a43",.pull "4a43"])
    [⟨0,true,"mon"⟩,⟨0,true,"mon"⟩,⟨0,true,"tue"⟩,⟨1,true,"tue"⟩,⟨1,true,"wed"⟩,⟨1,true,"wed"⟩] := by
  refine nothingLostUnwritten ⟨trivial,fun _ one => ?_⟩
  cases Option.some.inj one
  refine ⟨trivial,fun _ two => ?_⟩
  cases Option.some.inj two
  refine ⟨rfl,fun _ three => ?_⟩
  cases Option.some.inj three
  refine ⟨trivial,fun _ four => ?_⟩
  cases Option.some.inj four
  refine ⟨trivial,fun _ five => ?_⟩
  cases Option.some.inj five
  exact ⟨rfl,fun _ _ => trivial⟩

def Job.command (transferred : Bool) (now : String) : Job → ClientCommand
  | .push fileName answer uuid => .push fileName answer uuid transferred now
  | .pull fileId => .pull fileId transferred now

def EndsAlone (w : World) (turn : Turn) (job : Job) (disk : Option Catalog) : Prop :=
  ∃ n last, Runs.run step w (List.replicate n turn) = some last ∧ last.disk = disk ∧
    ∃ how, last.processes[turn.process]? = some ⟨job,.ended how⟩

theorem endsNow {w : World} {turn : Turn} {job : Job} {how : Ended}
    (here : w.processes[turn.process]? = some ⟨job,.ended how⟩) : EndsAlone w turn job w.disk :=
  ⟨0,w,rfl,rfl,how,here⟩

theorem endsLater {w next : World} {turn : Turn} {job : Job} {stage after : Stage}
    {disk : Option Catalog} (here : w.processes[turn.process]? = some ⟨job,stage⟩)
    (advanced : advance w turn ⟨job,stage⟩ = some (next,after)) (same : next.processes = w.processes)
    (later : ∀ u : World, u.processes[turn.process]? = some ⟨job,after⟩ → u.disk = next.disk →
      EndsAlone u turn job disk) : EndsAlone w turn job disk := by
  have inside := (List.getElem?_eq_some_iff.mp here).1
  have moved : (next.put turn.process ⟨job,after⟩).processes[turn.process]? = some ⟨job,after⟩ := by
    simp only [World.put,same]
    exact List.getElem?_set_self inside
  obtain ⟨n,last,ran,ended⟩ := later _ moved rfl
  refine ⟨n + 1,last,?_,ended⟩
  have first : step w turn = some (next.put turn.process ⟨job,after⟩) := by
    simp only [step,here,bind,Option.bind_some,advanced]
  rw [List.replicate_succ,Runs.run,first]
  exact ran

theorem aloneExecutes {w : World} {i : Nat} {job : Job} (here : w.processes[i]? = some ⟨job,.begun⟩)
    (transferred : Bool) (now : String) : EndsAlone w ⟨i,transferred,now⟩ job
      (ClientCommand.execute w.disk (job.command transferred now)).2 := by
  cases job with
  | push fileName answer uuid =>
    simp only [Job.command,ClientCommand.execute]
    cases chosen : (readOrCreate w.disk).chooseId fileName answer uuid with
    | error e =>
      refine endsLater here (by simp only [advance,chosen]; rfl) rfl fun u ended disk => ?_
      exact disk ▸ endsNow ended
    | ok fileId =>
      refine endsLater here (by simp only [advance,chosen]; rfl) rfl fun u uploading disk => ?_
      cases transferred with
      | false =>
        refine endsLater uploading rfl rfl fun v ended kept => ?_
        exact (kept.trans disk) ▸ endsNow ended
      | true =>
        refine endsLater uploading rfl rfl fun v updating _ => ?_
        refine endsLater updating rfl rfl fun x ended written => ?_
        have same : x.disk = some ((readOrCreate w.disk).updateOnPush now fileName fileId) := written
        have last := endsNow ended
        rwa [same] at last
  | pull fileId =>
    cases transferred with
    | false =>
      refine endsLater here rfl rfl fun u ended disk => ?_
      exact disk ▸ endsNow ended
    | true =>
      refine endsLater here rfl rfl fun u downloaded disk => ?_
      simp only [Job.command,ClientCommand.execute,if_true]
      cases found : w.disk with
      | none =>
        have missing : u.disk = none := disk.trans found
        refine endsLater downloaded (by simp only [advance,missing]; rfl) rfl fun v ended kept => ?_
        have same : v.disk = none := kept.trans missing
        have last := endsNow ended
        rwa [same] at last
      | some catalog =>
        have there : u.disk = some catalog := disk.trans found
        refine endsLater downloaded (by simp only [advance,there]; rfl) rfl fun v updating _ => ?_
        refine endsLater updating rfl rfl fun x ended written => ?_
        have same : x.disk = some (catalog.updateOnPull now fileId) := written
        have last := endsNow ended
        rwa [same] at last

/- Two pushes of new files that overlap: the second to write takes the first one's id away. -/
theorem overlapLoses :
    ∃ last, Runs.run step (start none [.push "notes" none "4a43",.push "plans" none "cf7a"])
        [⟨0,true,"mon"⟩,⟨1,true,"mon"⟩,⟨0,true,"mon"⟩,⟨1,true,"mon"⟩,⟨0,true,"tue"⟩,
          ⟨1,true,"wed"⟩] = some last ∧
      (∀ p ∈ last.processes, ∃ fileId, p.stage = .ended (.pushed fileId)) ∧ ¬ NothingLost last := by
  refine ⟨_,rfl,?_,?_⟩
  · intro p member
    rcases List.mem_cons.mp member with rfl | member
    · exact ⟨"4a43",rfl⟩
    · cases List.mem_singleton.mp member
      exact ⟨"cf7a",rfl⟩
  · intro kept
    have lost := (kept.pushes "notes" none "4a43" "4a43" List.mem_cons_self).1
    exact absurd lost (by decide +kernel)

end RDrive.SharedCatalog
