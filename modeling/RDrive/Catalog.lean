import RDrive.Lib.Runs
import Mathlib.Data.List.Nodup

/-! The client's catalog of what it pushed (lib.rs), and the parts of push and pull in
client.rs that read and write it. The file catalog.map holds a catalog or is missing;
its JSON form is lossless and the disk does not fail. -/
namespace RDrive

structure FileHistory where
  name : String
  lastPush : String
  lastPull : String
  deriving DecidableEq, Repr

structure Catalog where
  fileMap : String → Option FileHistory
  fileIndex : String → Option (List String)

namespace Catalog

def empty : Catalog := ⟨fun _ => none,fun _ => none⟩

def readOrCreate (disk : Option Catalog) : Catalog := disk.getD empty

def updateOnPush (c : Catalog) (timestamp fileName fileId : String) : Catalog :=
  let meta_ := match c.fileMap fileId with
    | some meta_ => {meta_ with lastPush := timestamp}
    | none => ⟨fileName,timestamp,"never"⟩
  let tracked := match c.fileIndex fileName with
    | some tracked => if fileId ∈ tracked then tracked else tracked ++ [fileId]
    | none => [fileId]
  { fileMap := Function.update c.fileMap fileId (some meta_)
    fileIndex := Function.update c.fileIndex fileName (some tracked) }

def updateOnPull (c : Catalog) (timestamp fileId : String) : Catalog :=
  match c.fileMap fileId with
  | some meta_ =>
    {c with fileMap := Function.update c.fileMap fileId (some {meta_ with lastPull := timestamp})}
  | none => c

end Catalog

inductive PushError where
  | notInFileMap (uuid : String)
  | notANumber
  | outOfRange
  deriving DecidableEq, Repr

def PushError.text : PushError → String
  | .notInFileMap uuid => s!"Couldn't find in file map {uuid}"
  | .notANumber => "Invalid input, expected a number"
  | .outOfRange => "Invalid input, number out of range"

namespace Catalog

/- The lines shown before the question, one for each id. -/
def listTracked (c : Catalog) : List String → Except PushError (List String)
  | [] => .ok []
  | uuid :: rest =>
    match c.fileMap uuid with
    | none => .error (.notInFileMap uuid)
    | some info => do
      let lines ← c.listTracked rest
      .ok (s!"{uuid} | pushed ({info.lastPush}) | pulled ({info.lastPull})" :: lines)

/- The id under which push uploads: a fresh one, or the one the user picks from those
of the same file name. The answer is none where it is not a number. -/
def chooseId (c : Catalog) (fileName : String) (answer : Option Nat) (uuid : String) :
    Except PushError String :=
  match c.fileIndex fileName with
  | none => .ok uuid
  | some tracked => do
    let _ ← c.listTracked tracked
    match answer with
    | none => .error .notANumber
    | some 0 => .ok uuid
    | some (n + 1) =>
      match tracked[n]? with
      | some fileId => .ok fileId
      | none => .error .outOfRange

def tracked (c : Catalog) (name : String) : List String := (c.fileIndex name).getD []

theorem pushedMap (c : Catalog) (now name id : String) : (c.updateOnPush now name id).fileMap id =
    some (match c.fileMap id with
      | some meta_ => {meta_ with lastPush := now}
      | none => ⟨name,now,"never"⟩) := Function.update_self ..

theorem pushedMapOther (c : Catalog) (now name : String) {id other : String} (different : other ≠ id) :
    (c.updateOnPush now name id).fileMap other = c.fileMap other := Function.update_of_ne different ..

theorem pushedIndexOther (c : Catalog) (now id : String) {name other : String}
    (different : other ≠ name) : (c.updateOnPush now name id).tracked other = c.tracked other := by
  simp only [tracked,updateOnPush,Function.update_of_ne different]

theorem pushedIndex (c : Catalog) (now name id : String) : (c.updateOnPush now name id).tracked name =
    if id ∈ c.tracked name then c.tracked name else c.tracked name ++ [id] := by
  simp only [tracked,updateOnPush,Function.update_self,Option.getD_some]
  split
  · rename_i found
    simp only [found,Option.getD_some]
  · rename_i absent
    simp [absent]

theorem pushedListed (c : Catalog) (now name id : String) :
    id ∈ (c.updateOnPush now name id).tracked name := by
  rw [pushedIndex]
  split
  · assumption
  · exact List.mem_append_right _ (List.mem_singleton_self id)

theorem pulledIndex (c : Catalog) (now id name : String) :
    (c.updateOnPull now id).tracked name = c.tracked name := by
  unfold updateOnPull
  split <;> rfl

theorem pulledMap {c : Catalog} {id : String} {meta_ : FileHistory} (now : String)
    (found : c.fileMap id = some meta_) :
    (c.updateOnPull now id).fileMap id = some {meta_ with lastPull := now} := by
  simp only [updateOnPull,found,Function.update_self]

theorem pulledMapOther (c : Catalog) (now : String) {id other : String} (different : other ≠ id) :
    (c.updateOnPull now id).fileMap other = c.fileMap other := by
  unfold updateOnPull
  split
  · exact Function.update_of_ne different ..
  · rfl

structure Keeps (c next : Catalog) : Prop where
  entry : ∀ id meta_, c.fileMap id = some meta_ →
    ∃ later, next.fileMap id = some later ∧ later.name = meta_.name
  listed : ∀ name id, id ∈ c.tracked name → id ∈ next.tracked name

theorem pushKeeps (c : Catalog) (now name id : String) : c.Keeps (c.updateOnPush now name id) := by
  constructor
  · intro other meta_ found
    by_cases same : other = id
    · subst same
      rw [pushedMap,found]
      exact ⟨_,rfl,rfl⟩
    · rw [pushedMapOther c now name same]
      exact ⟨meta_,found,rfl⟩
  · intro other listed member
    by_cases same : other = name
    · subst same
      rw [pushedIndex]
      split
      · exact member
      · exact List.mem_append_left _ member
    · rwa [pushedIndexOther c now id same]

theorem pushLastPull (c : Catalog) (now name : String) {id other : String} {meta_ later : FileHistory}
    (before : c.fileMap other = some meta_)
    (after : (c.updateOnPush now name id).fileMap other = some later) :
    later.lastPull = meta_.lastPull := by
  by_cases same : other = id
  · subst same
    rw [pushedMap,before] at after
    cases Option.some.inj after
    rfl
  · rw [pushedMapOther c now name same,before] at after
    cases Option.some.inj after
    rfl

theorem pullKeeps (c : Catalog) (now id : String) : c.Keeps (c.updateOnPull now id) := by
  constructor
  · intro other meta_ found
    by_cases same : other = id
    · subst same
      exact ⟨_,pulledMap now found,rfl⟩
    · exact ⟨meta_,(pulledMapOther c now same).trans found,rfl⟩
  · intro name listed member
    rwa [pulledIndex]

structure Consistent (c : Catalog) : Prop where
  listed : ∀ id name, id ∈ c.tracked name ↔ ∃ meta_, c.fileMap id = some meta_ ∧ meta_.name = name
  once : ∀ name, (c.tracked name).Nodup

theorem emptyConsistent : empty.Consistent := by
  constructor
  · intro id name
    simp [tracked,empty]
  · intro name
    exact List.nodup_nil

theorem listTrackedFinds {c : Catalog} {ids : List String} {missing : String}
    (failed : c.listTracked ids = .error (.notInFileMap missing)) :
    missing ∈ ids ∧ c.fileMap missing = none := by
  induction ids with
  | nil => contradiction
  | cons uuid rest ih =>
    unfold listTracked at failed
    split at failed
    · rename_i absent
      cases failed
      exact ⟨List.mem_cons_self,absent⟩
    · cases shown : c.listTracked rest with
      | ok lines =>
        rw [shown] at failed
        contradiction
      | error e =>
        rw [shown] at failed
        cases failed
        obtain ⟨member,absent⟩ := ih shown
        exact ⟨List.mem_cons_of_mem _ member,absent⟩

theorem chooseCases (c : Catalog) (name : String) (answer : Option Nat) (uuid : String) :
    (∃ id, c.chooseId name answer uuid = .ok id ∧ (id = uuid ∨ id ∈ c.tracked name)) ∨
      c.chooseId name answer uuid = .error .notANumber ∨
      c.chooseId name answer uuid = .error .outOfRange ∨
      ∃ missing ∈ c.tracked name, c.fileMap missing = none ∧
        c.chooseId name answer uuid = .error (.notInFileMap missing) := by
  unfold chooseId tracked
  split
  · exact .inl ⟨uuid,rfl,.inl rfl⟩
  · rename_i tracked found
    rw [found,Option.getD_some]
    cases shown : c.listTracked tracked with
    | error e =>
      cases e with
      | notInFileMap missing =>
        obtain ⟨member,absent⟩ := listTrackedFinds shown
        exact .inr (.inr (.inr ⟨missing,member,absent,rfl⟩))
      | notANumber => exact .inr (.inl rfl)
      | outOfRange => exact .inr (.inr (.inl rfl))
    | ok lines =>
      match answer with
      | none => exact .inr (.inl rfl)
      | some 0 => exact .inl ⟨uuid,rfl,.inl rfl⟩
      | some (n + 1) =>
        cases picked : tracked[n]? with
        | none => exact .inr (.inr (.inl (by simp [picked,bind,Except.bind])))
        | some id =>
          exact .inl ⟨id,by simp [picked,bind,Except.bind],.inr (List.mem_of_getElem? picked)⟩

theorem chooseSource {c : Catalog} {name uuid id : String} {answer : Option Nat}
    (chosen : c.chooseId name answer uuid = .ok id) : id = uuid ∨ id ∈ c.tracked name := by
  rcases chooseCases c name answer uuid with ⟨other,same,source⟩ | failed | failed | ⟨_,_,_,failed⟩
  · cases same.symm.trans chosen
    exact source
  all_goals
    rw [failed] at chosen
    contradiction

theorem lookupSucceeds {c : Catalog} (consistent : c.Consistent) (name : String)
    (answer : Option Nat) (uuid missing : String) :
    c.chooseId name answer uuid ≠ .error (.notInFileMap missing) := by
  intro failed
  rcases chooseCases c name answer uuid with ⟨id,same,-⟩ | other | other | ⟨id,listed,absent,other⟩
  · cases same.symm.trans failed
  · cases other.symm.trans failed
  · cases other.symm.trans failed
  · obtain ⟨meta_,found,-⟩ := (consistent.listed id name).mp listed
    rw [absent] at found
    contradiction

theorem pushNamed {c : Catalog} (consistent : c.Consistent) (now : String) {name id : String}
    (known : c.fileMap id = none ∨ id ∈ c.tracked name) :
    ∃ meta_, (c.updateOnPush now name id).fileMap id = some meta_ ∧ meta_.name = name := by
  rcases known with fresh | listed
  · exact ⟨_,pushedMap c now name id,by rw [fresh]⟩
  · obtain ⟨meta_,found,own⟩ := (consistent.listed id name).mp listed
    exact ⟨_,pushedMap c now name id,by rw [found]; exact own⟩

theorem pushListed (c : Catalog) (now name id other listed : String) :
    other ∈ (c.updateOnPush now name id).tracked listed ↔
      other ∈ c.tracked listed ∨ (other = id ∧ listed = name) := by
  by_cases here : listed = name
  · subst here
    rw [pushedIndex]
    split
    · rename_i already
      exact ⟨.inl,fun both => both.elim (fun old => old) fun same => same.1 ▸ already⟩
    · simp
  · rw [pushedIndexOther c now id here]
    simp [here]

theorem pushConsistent {c : Catalog} (consistent : c.Consistent) (now : String) {name id : String}
    (known : c.fileMap id = none ∨ id ∈ c.tracked name) :
    (c.updateOnPush now name id).Consistent := by
  constructor
  · intro other listed
    rw [pushListed]
    by_cases same : other = id
    · subst same
      obtain ⟨meta_,found,own⟩ := pushNamed consistent now known
      constructor
      · rintro (already | ⟨-,rfl⟩)
        · refine ⟨meta_,found,?_⟩
          obtain ⟨before,there,name_⟩ := (consistent.listed other listed).mp already
          obtain ⟨later,after,kept⟩ := (pushKeeps c now name other).entry other before there
          cases Option.some.inj (found.symm.trans after)
          exact kept.trans name_
        · exact ⟨meta_,found,own⟩
      · rintro ⟨later,after,named⟩
        cases Option.some.inj (found.symm.trans after)
        exact .inr ⟨rfl,named.symm.trans own⟩
    · rw [pushedMapOther c now name same,← consistent.listed other listed]
      simp [same]
  · intro listed
    by_cases here : listed = name
    · subst here
      rw [pushedIndex]
      split
      · exact consistent.once listed
      · rename_i absent
        refine List.Nodup.append (consistent.once listed) (List.nodup_singleton id) ?_
        intro x old new
        cases List.mem_singleton.mp new
        exact absent old
    · rw [pushedIndexOther c now id here]
      exact consistent.once listed

theorem pullConsistent {c : Catalog} (consistent : c.Consistent) (now id : String) :
    (c.updateOnPull now id).Consistent := by
  constructor
  · intro other listed
    rw [pulledIndex,consistent.listed other listed]
    by_cases same : other = id
    · subst same
      cases found : c.fileMap other with
      | none => simp [updateOnPull,found]
      | some meta_ => simp [pulledMap now found]
    · rw [pulledMapOther c now same]
  · intro listed
    rw [pulledIndex]
    exact consistent.once listed

end Catalog

inductive ClientCommand where
  | push (fileName : String) (answer : Option Nat) (uuid : String) (uploaded : Bool) (now : String)
  | pull (fileId : String) (downloaded : Bool) (now : String)

namespace ClientCommand
open Catalog

/- From start to end with nobody else there: what push says, if it stops before the
transfer, and the file after it. -/
def execute (disk : Option Catalog) : ClientCommand → Option PushError × Option Catalog
  | .push fileName answer uuid uploaded now =>
    let catalog := readOrCreate disk
    match catalog.chooseId fileName answer uuid with
    | .error e => (some e,disk)
    | .ok fileId =>
      if uploaded then (none,some (catalog.updateOnPush now fileName fileId)) else (none,disk)
  | .pull fileId downloaded now =>
    if downloaded then
      match disk with
      | some catalog => (none,some (catalog.updateOnPull now fileId))
      | none => (none,none)
    else (none,disk)

def executeAll (disk : Option Catalog) (commands : List ClientCommand) : Option Catalog :=
  commands.foldl (fun disk command => (execute disk command).2) disk

def drawn : ClientCommand → Option String
  | .push _ _ uuid _ _ => some uuid
  | .pull _ _ _ => none

def isPush : ClientCommand → Bool
  | .push .. => true
  | .pull .. => false

theorem executeCases (disk : Option Catalog) (command : ClientCommand) :
    readOrCreate (execute disk command).2 = readOrCreate disk ∨
      (∃ now name id, readOrCreate (execute disk command).2 =
          (readOrCreate disk).updateOnPush now name id ∧ command.isPush = true ∧
        (command.drawn = some id ∨ id ∈ (readOrCreate disk).tracked name)) ∨
      (∃ now id, readOrCreate (execute disk command).2 = (readOrCreate disk).updateOnPull now id ∧
        command.isPush = false) := by
  cases command with
  | push fileName answer uuid uploaded now =>
    cases chosen : (readOrCreate disk).chooseId fileName answer uuid with
    | error e => exact .inl (by simp only [execute,chosen])
    | ok id =>
      cases uploaded with
      | false => exact .inl (by simp [execute,chosen])
      | true =>
        have written : (execute disk (.push fileName answer uuid true now)).2 =
            some ((readOrCreate disk).updateOnPush now fileName id) := by
          simp only [execute,chosen,if_true]
        refine .inr (.inl ⟨now,fileName,id,by rw [written]; rfl,rfl,?_⟩)
        exact (chooseSource chosen).imp (fun same => congrArg some same.symm) fun listed => listed
  | pull fileId downloaded now =>
    cases downloaded with
    | false => exact .inl rfl
    | true =>
      cases disk with
      | none => exact .inl rfl
      | some catalog => exact .inr (.inr ⟨now,fileId,rfl,rfl⟩)

def Unused (c : Catalog) (commands : List ClientCommand) : Prop :=
  ∀ uuid ∈ commands.filterMap drawn, c.fileMap uuid = none

theorem executeConsistent {disk : Option Catalog} {command : ClientCommand} {rest : List ClientCommand}
    (consistent : (readOrCreate disk).Consistent)
    (unused : Unused (readOrCreate disk) (command :: rest))
    (fresh : ((command :: rest).filterMap drawn).Nodup) :
    (readOrCreate (execute disk command).2).Consistent ∧
      Unused (readOrCreate (execute disk command).2) rest := by
  have later : ∀ uuid ∈ rest.filterMap drawn, uuid ∈ (command :: rest).filterMap drawn := by
    intro uuid member
    obtain ⟨other,among,same⟩ := List.mem_filterMap.mp member
    exact List.mem_filterMap.mpr ⟨other,List.mem_cons_of_mem _ among,same⟩
  rcases executeCases disk command with same | ⟨now,name,id,same,-,source⟩ | ⟨now,id,same,-⟩
  · rw [same]
    exact ⟨consistent,fun uuid member => unused uuid (later uuid member)⟩
  · have known : (readOrCreate disk).fileMap id = none ∨ id ∈ (readOrCreate disk).tracked name := by
      refine source.imp_left fun own => unused id ?_
      exact List.mem_filterMap.mpr ⟨command,List.mem_cons_self,own⟩
    rw [same]
    refine ⟨pushConsistent consistent now known,?_⟩
    intro uuid member
    have other : uuid ≠ id := by
      rintro rfl
      rcases source with own | listed
      · rw [List.filterMap_cons_some own] at fresh
        exact (List.nodup_cons.mp fresh).1 member
      · obtain ⟨meta_,found,-⟩ := (consistent.listed uuid name).mp listed
        rw [unused uuid (later uuid member)] at found
        contradiction
    rw [pushedMapOther _ now name other]
    exact unused uuid (later uuid member)
  · rw [same]
    refine ⟨pullConsistent consistent now id,?_⟩
    intro uuid member
    have absent := unused uuid (later uuid member)
    by_cases here : uuid = id
    · subst here
      simp only [updateOnPull,absent]
    · rw [pulledMapOther _ now here]
      exact absent

theorem executeAllConsistent {disk : Option Catalog} {commands : List ClientCommand}
    (consistent : (readOrCreate disk).Consistent) (unused : Unused (readOrCreate disk) commands)
    (fresh : (commands.filterMap drawn).Nodup) :
    (readOrCreate (executeAll disk commands)).Consistent := by
  induction commands generalizing disk with
  | nil => exact consistent
  | cons command rest ih =>
    obtain ⟨next,unusedNext⟩ := executeConsistent consistent unused fresh
    refine ih next unusedNext ?_
    cases own : command.drawn with
    | none => rwa [List.filterMap_cons_none own] at fresh
    | some uuid =>
      rw [List.filterMap_cons_some own] at fresh
      exact (List.nodup_cons.mp fresh).2

theorem executeKeeps (disk : Option Catalog) (command : ClientCommand) :
    (readOrCreate disk).Keeps (readOrCreate (execute disk command).2) ∧
      (command.isPush = true → ∀ id meta_ later, (readOrCreate disk).fileMap id = some meta_ →
        (readOrCreate (execute disk command).2).fileMap id = some later →
        later.lastPull = meta_.lastPull) := by
  rcases executeCases disk command with same | ⟨now,name,id,same,-,-⟩ | ⟨now,id,same,isPull⟩
  · rw [same]
    refine ⟨⟨fun id meta_ found => ⟨meta_,found,rfl⟩,fun name id listed => listed⟩,?_⟩
    intro _ id meta_ later before after
    cases Option.some.inj (before.symm.trans after)
    rfl
  · rw [same]
    exact ⟨pushKeeps _ now name id,fun _ other meta_ later before after =>
      pushLastPull _ now name before after⟩
  · rw [same]
    refine ⟨pullKeeps _ now id,?_⟩
    intro isPush
    rw [isPull] at isPush
    contradiction

/- From a missing or empty catalog on, one client after the other. -/
theorem catalogConsistent (commands : List ClientCommand) (fresh : (commands.filterMap drawn).Nodup) :
    let c := readOrCreate (executeAll none commands)
    (∀ id name, id ∈ c.tracked name ↔ ∃ meta_, c.fileMap id = some meta_ ∧ meta_.name = name) ∧
    (∀ id name other, id ∈ c.tracked name → id ∈ c.tracked other → name = other) ∧
    (∀ name, (c.tracked name).Nodup) ∧
    (∀ name answer uuid missing, c.chooseId name answer uuid ≠ .error (.notInFileMap missing)) ∧
    ∀ command, let next := readOrCreate (execute (executeAll none commands) command).2
      c.Keeps next ∧ (command.isPush = true → ∀ id meta_ later, c.fileMap id = some meta_ →
        next.fileMap id = some later → later.lastPull = meta_.lastPull) := by
  intro c
  have consistent : c.Consistent := executeAllConsistent emptyConsistent (fun _ _ => rfl) fresh
  refine ⟨consistent.listed,?_,consistent.once,lookupSucceeds consistent,executeKeeps _⟩
  intro id name other here there
  obtain ⟨meta_,found,named⟩ := (consistent.listed id name).mp here
  obtain ⟨same,again,namedToo⟩ := (consistent.listed id other).mp there
  cases Option.some.inj (found.symm.trans again)
  exact named.symm.trans namedToo

theorem overwrittenConsistent :
    let commands := [.push "notes" none "4a43" true "mon",.push "notes" (some 1) "cf7a" true "tue",
      .pull "4a43" true "wed"]
    let c := readOrCreate (executeAll none commands)
    (∀ id name, id ∈ c.tracked name ↔ ∃ meta_, c.fileMap id = some meta_ ∧ meta_.name = name) ∧
    (∀ id name other, id ∈ c.tracked name → id ∈ c.tracked other → name = other) ∧
    (∀ name, (c.tracked name).Nodup) ∧
    (∀ name answer uuid missing, c.chooseId name answer uuid ≠ .error (.notInFileMap missing)) ∧
    ∀ command, let next := readOrCreate (execute (executeAll none commands) command).2
      c.Keeps next ∧ (command.isPush = true → ∀ id meta_ later, c.fileMap id = some meta_ →
        next.fileMap id = some later → later.lastPull = meta_.lastPull) :=
  catalogConsistent _ (by decide)

end ClientCommand
end RDrive
