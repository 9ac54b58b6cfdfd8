import RDrive.Lib.Outcome
import Mathlib.Data.List.Infix
import Mathlib.Data.List.Dedup

/-! A tree of directories and files, kept as its list of paths, with the calls a
program makes on it. Every call is atomic; what it answers is whether it did its
work, or what it found. The root always exists. -/
namespace RDrive

abbrev Path := List String

inductive Node where
  | dir
  | file (content : Bytes)
  deriving DecidableEq, Repr

structure Fs where
  entries : List (Path × Node)
  deriving DecidableEq, Repr

namespace Fs

def get (fs : Fs) (p : Path) : Option Node :=
  if p = [] then some .dir else (fs.entries.find? (fun e => e.1 = p)).map Prod.snd

def put (fs : Fs) (p : Path) (node : Node) : Fs := ⟨(p,node) :: fs.entries⟩

def drop (fs : Fs) (p : Path) : Fs := ⟨fs.entries.filter (fun e => e.1 ≠ p)⟩

def isDir (fs : Fs) (p : Path) : Bool := fs.get p == some .dir

def content (fs : Fs) (p : Path) : Option Bytes :=
  match fs.get p with
  | some (.file b) => some b
  | _ => none

def bare (fs : Fs) (p : Path) : Bool :=
  fs.entries.all (fun e => e.1 = p ∨ ¬ p <+: e.1)

def makeDirs (fs : Fs) : List Path → Fs
  | [] => fs
  | p :: rest => makeDirs (if fs.get p = none then fs.put p .dir else fs) rest

def createDirAll (fs : Fs) (p : Path) : Bool × Fs :=
  if p.inits.all (fun q => fs.get q = none ∨ fs.isDir q) then (true,fs.makeDirs p.inits)
  else (false,fs)

/- File::create: an existing file loses its content. -/
def create (fs : Fs) (p : Path) : Bool × Fs :=
  if fs.isDir p.dropLast ∧ ¬ fs.isDir p then (true,fs.put p (.file [])) else (false,fs)

def append (fs : Fs) (p : Path) (b : Bytes) : Bool × Fs :=
  match fs.get p with
  | some (.file old) => (true,fs.put p (.file (old ++ b)))
  | _ => (false,fs)

def remove (fs : Fs) (p : Path) : Bool × Fs :=
  match fs.get p with
  | some (.file _) => (true,fs.drop p)
  | _ => (false,fs)

def write (fs : Fs) (p : Path) (b : Bytes) : Bool × Fs :=
  if fs.isDir p.dropLast ∧ ¬ fs.isDir p then (true,fs.put p (.file b)) else (false,fs)

def moved (fs : Fs) (old new : Path) : Fs :=
  ⟨(fs.entries.filter (fun e => ¬ new <+: e.1)).map
    (fun e => if old <+: e.1 then (new ++ e.1.drop old.length,e.2) else e)⟩

/- POSIX rename: the source must exist, the target must be absent, a file in
place of a file, or an empty directory in place of a directory. -/
def renamable (fs : Fs) (old new : Path) : Bool :=
  fs.isDir new.dropLast && !decide (old <+: new) &&
    match fs.get old, fs.get new with
    | none, _ => false
    | some _, none => true
    | some .dir, some .dir => fs.bare new
    | some (.file _), some (.file _) => true
    | some _, some _ => false

def rename (fs : Fs) (old new : Path) : Bool × Fs :=
  if old = new ∧ fs.get old ≠ none then (true,fs)
  else if fs.renamable old new then (true,fs.moved old new)
  else (false,fs)

/- A write at an offset: the bytes from there on are replaced, a gap before it is zeros. -/
def overlay (old : Bytes) (offset : Nat) (b : Bytes) : Bytes :=
  if b = [] then old
  else old.take offset ++ List.replicate (offset - old.length) 0 ++ b ++ old.drop (offset + b.length)

def writeAt (fs : Fs) (p : Path) (offset : Nat) (b : Bytes) : Fs :=
  match fs.get p with
  | some (.file old) => fs.put p (.file (overlay old offset b))
  | _ => fs

def countDirs (fs : Fs) (p : Path) : Option Nat :=
  if fs.isDir p then
    some ((fs.entries.map Prod.fst).dedup.countP
      (fun q => q.dropLast = p ∧ q ≠ [] ∧ fs.isDir q))
  else none

inductive Op where
  | createDirAll (p : Path)
  | exists_ (p : Path)
  | isDir (p : Path)
  | create (p : Path)
  | append (p : Path) (b : Bytes)
  | remove (p : Path)
  | write (p : Path) (b : Bytes)
  | read (p : Path)
  | size (p : Path)
  | countDirs (p : Path)
  | rename (old new : Path)
  deriving DecidableEq, Repr

abbrev Op.Ret : Op → Type
  | .read _ => Option Bytes
  | .size _ | .countDirs _ => Option Nat
  | _ => Bool

def exec (fs : Fs) : (op : Op) → op.Ret × Fs
  | .createDirAll p => fs.createDirAll p
  | .exists_ p => ((fs.get p).isSome,fs)
  | .isDir p => (fs.isDir p,fs)
  | .create p => fs.create p
  | .append p b => fs.append p b
  | .remove p => fs.remove p
  | .write p b => fs.write p b
  | .read p => (fs.content p,fs)
  | .countDirs p => (fs.countDirs p,fs)
  | .size p => ((fs.content p).map List.length,fs)
  | .rename old new => fs.rename old new

theorem getRoot (fs : Fs) : fs.get [] = some .dir := rfl

@[simp] theorem getPutSame (fs : Fs) {p : Path} (inner : p ≠ []) (node : Node) :
    (fs.put p node).get p = some node := by
  simp [get,put,inner]

@[simp] theorem getPutOther (fs : Fs) {p q : Path} (different : q ≠ p) (node : Node) :
    (fs.put p node).get q = fs.get q := by
  have apart : ¬ p = q := fun same => different same.symm
  simp [get,put,apart]

theorem getDropOther (fs : Fs) {p q : Path} (different : q ≠ p) :
    (fs.drop p).get q = fs.get q := by
  unfold get drop
  split
  · rfl
  · congr 1
    rw [List.find?_filter]
    congr 1
    funext e
    by_cases same : e.1 = q
    · simp [same,different]
    · simp [same]

theorem getDropSame (fs : Fs) {p : Path} (inner : p ≠ []) : (fs.drop p).get p = none := by
  simp [get,drop,inner]

theorem getMakeDirs (fs : Fs) (dirs : List Path) (q : Path) :
    (fs.makeDirs dirs).get q = if q ∈ dirs ∧ fs.get q = none then some .dir else fs.get q := by
  induction dirs generalizing fs with
  | nil => simp [makeDirs]
  | cons p rest ih =>
    rw [makeDirs,ih]
    by_cases same : q = p
    · subst same
      cases found : fs.get q with
      | some node => simp [found]
      | none =>
        have inner : q ≠ [] := by rintro rfl; simp [getRoot] at found
        simp [getPutSame fs inner]
    · have unchanged : (if fs.get p = none then fs.put p .dir else fs).get q = fs.get q := by
        split
        · exact getPutOther fs same .dir
        · rfl
      simp [unchanged,same]

theorem createDirAllClear {fs : Fs} {p : Path}
    (clear : ∀ q, q <+: p → fs.get q = none ∨ fs.isDir q = true) :
    fs.createDirAll p = (true,fs.makeDirs p.inits) := by
  unfold createDirAll
  rw [if_pos]
  simpa [List.mem_inits] using clear

theorem madeDir {fs : Fs} {p q : Path} (clear : ∀ q, q <+: p → fs.get q = none ∨ fs.isDir q = true)
    (above : q <+: p) : (fs.makeDirs p.inits).isDir q = true := by
  have free := clear q above
  simp only [isDir,beq_iff_eq,getMakeDirs,List.mem_inits] at free ⊢
  rcases free with missing | found
  · rw [if_pos ⟨above,missing⟩]
  · rw [if_neg (by simp [found]),found]

theorem emptyClear (q : Path) : (⟨[]⟩ : Fs).get q = none ∨ (⟨[]⟩ : Fs).isDir q = true := by
  rcases Classical.em (q = []) with rfl | inner
  · exact .inr rfl
  · exact .inl (by simp [get,inner])

theorem madeAbove {fs : Fs} {p q : Path} (clear : ∀ q, q <+: p → fs.get q = none ∨ fs.isDir q = true)
    (above : q <+: p) : (fs.createDirAll p).2.isDir q = true := by
  rw [createDirAllClear clear]
  exact madeDir clear above

theorem emptyMade {p q : Path} (above : q <+: p) : ((⟨[]⟩ : Fs).createDirAll p).2.isDir q = true :=
  madeAbove (fun q _ => emptyClear q) above

theorem madeElsewhere {fs : Fs} {p q : Path} (beside : ¬ q <+: p) :
    (fs.makeDirs p.inits).get q = fs.get q := by
  rw [getMakeDirs,if_neg (by simp [List.mem_inits,beside])]

theorem contentOf {fs : Fs} {p : Path} {b : Bytes} :
    fs.content p = some b ↔ fs.get p = some (.file b) := by
  unfold content
  split
  · rename_i found; simp [found]
  · rename_i other
    constructor
    · intro absurd_; contradiction
    · intro found; exact (other b found).elim

theorem contentPut (fs : Fs) {p : Path} (inner : p ≠ []) (b : Bytes) :
    (fs.put p (.file b)).content p = some b := contentOf.mpr (getPutSame fs inner _)

theorem appendFile {fs : Fs} {p : Path} {old : Bytes} (found : fs.content p = some old) (b : Bytes) :
    fs.append p b = (true,fs.put p (.file (old ++ b))) := by
  unfold append
  rw [contentOf.mp found]

theorem overlayEnd (old b : Bytes) : overlay old old.length b = old ++ b := by
  unfold overlay
  split
  · rename_i none_
    rw [none_,List.append_nil]
  · rw [List.take_length,Nat.sub_self,List.replicate_zero,List.append_nil,
      List.drop_eq_nil_of_le (Nat.le_add_right _ _),List.append_nil]

theorem writeAtEnd {fs : Fs} {p : Path} {old : Bytes} (found : fs.content p = some old) (b : Bytes) :
    fs.writeAt p old.length b = fs.put p (.file (old ++ b)) := by
  unfold writeAt
  rw [contentOf.mp found]
  simp only [overlayEnd]

theorem writeAtElsewhere {fs : Fs} {p q : Path} {offset : Nat} {b : Bytes} (beside : q ≠ p) :
    (fs.writeAt p offset b).get q = fs.get q := by
  unfold writeAt
  split
  · exact getPutOther fs beside _
  · rfl

theorem writeAtFound {fs : Fs} {p q : Path} {offset : Nat} {b c : Bytes}
    (after : (fs.writeAt p offset b).content q = some c) : ∃ old, fs.content q = some old := by
  unfold writeAt at after
  split at after
  · rename_i old found
    by_cases same : q = p
    · exact ⟨old,contentOf.mpr (same ▸ found)⟩
    · rw [contentOf,getPutOther fs same,← contentOf] at after
      exact ⟨c,after⟩
  · exact ⟨c,after⟩

theorem writeAtDir (fs : Fs) (p q : Path) (offset : Nat) (b : Bytes) :
    (fs.writeAt p offset b).isDir q = fs.isDir q := by
  unfold writeAt
  split
  · rename_i old found
    by_cases same : q = p
    · subst same
      have inner : q ≠ [] := by
        rintro rfl
        simp [getRoot] at found
      simp [isDir,getPutSame fs inner,found]
    · simp [isDir,getPutOther fs same]
  · rfl

theorem createDirAllMade {fs : Fs} {p : Path} (made : (fs.createDirAll p).1 = true) :
    (fs.createDirAll p).2.isDir p = true := by
  unfold createDirAll at made ⊢
  split at made
  · rename_i clear
    rw [if_pos clear]
    refine madeDir ?_ (List.prefix_refl p)
    simpa [List.mem_inits] using clear
  · contradiction

theorem createDirAllKeeps {fs : Fs} {p q : Path} {node : Node} (found : fs.get q = some node) :
    (fs.createDirAll p).2.get q = some node := by
  unfold createDirAll
  split
  · rw [getMakeDirs,if_neg (by simp [found]),found]
  · exact found

theorem createDirAllStays {fs : Fs} {p q : Path} (dir : fs.isDir q = true) :
    (fs.createDirAll p).2.isDir q = true := by
  simp only [isDir,beq_iff_eq] at dir ⊢
  exact createDirAllKeeps dir

theorem createDirAllElsewhere {fs : Fs} {p q : Path} (beside : ¬ q <+: p) :
    (fs.createDirAll p).2.get q = fs.get q := by
  unfold createDirAll
  split
  · exact madeElsewhere beside
  · rfl

theorem appendElsewhere {fs : Fs} {p q : Path} {b : Bytes} (beside : q ≠ p) :
    (fs.append p b).2.get q = fs.get q := by
  unfold append
  split
  · exact getPutOther fs beside _
  · rfl

theorem removeElsewhere {fs : Fs} {p q : Path} (beside : q ≠ p) :
    (fs.remove p).2.get q = fs.get q := by
  unfold remove
  split
  · exact getDropOther fs beside
  · rfl

theorem createElsewhere {fs : Fs} {p q : Path} (beside : q ≠ p) :
    (fs.create p).2.get q = fs.get q := by
  unfold create
  split
  · exact getPutOther fs beside _
  · rfl

theorem writeElsewhere {fs : Fs} {p q : Path} {b : Bytes} (beside : q ≠ p) :
    (fs.write p b).2.get q = fs.get q := by
  unfold write
  split
  · exact getPutOther fs beside _
  · rfl

theorem createDirAllEffect (fs : Fs) (p q : Path) : (fs.createDirAll p).2.get q = fs.get q ∨
    fs.get q = none ∧ (fs.createDirAll p).2.get q = some .dir ∧ q <+: p := by
  unfold createDirAll
  split
  · rw [getMakeDirs]
    split
    · rename_i made
      exact .inr ⟨made.2,rfl,(List.mem_inits q p).mp made.1⟩
    · exact .inl rfl
  · exact .inl rfl

theorem findMoved (fs : Fs) (old new q : Path) :
    (((fs.moved old new).entries.find? (fun e => e.1 = q)).map Prod.snd) =
      (fs.entries.find? (fun e => ¬ new <+: e.1 ∧
        (if old <+: e.1 then new ++ e.1.drop old.length else e.1) = q)).map Prod.snd := by
  unfold moved
  rw [List.find?_map,List.find?_filter,Option.map_map]
  have same : ∀ e : Path × Node, (if old <+: e.1 then (new ++ e.1.drop old.length,e.2) else e) =
      ((if old <+: e.1 then new ++ e.1.drop old.length else e.1),e.2) := by
    intro e
    split <;> rfl
  simp only [Function.comp_def,same,Bool.decide_and,decide_not]
  simp

theorem landsOnto {old new : Path} (outside : ¬ old <+: new) (apart : ¬ new <+: old) (rest p : Path) :
    (¬ new <+: p ∧ (if old <+: p then new ++ p.drop old.length else p) = new ++ rest) ↔
      p = old ++ rest := by
  constructor
  · intro ⟨beside,same⟩
    split at same
    · rename_i below
      obtain ⟨x,parts⟩ := below
      rw [← parts,List.drop_left] at same
      rw [← parts,List.append_cancel_left same]
    · exact absurd ⟨rest,same.symm⟩ beside
  · intro same
    rw [same,if_pos (List.prefix_append old rest),List.drop_left]
    refine ⟨?_,rfl⟩
    intro above
    rcases List.prefix_or_prefix_of_prefix above (List.prefix_append old rest) with h | h
    · exact apart h
    · exact outside h

theorem landsElsewhere {old new q : Path} (beside : ¬ new <+: q) (below : old <+: q) (p : Path) :
    ¬ (¬ new <+: p ∧ (if old <+: p then new ++ p.drop old.length else p) = q) := by
  rintro ⟨-,same⟩
  split at same
  · exact beside ⟨_,same⟩
  · rename_i free
    rw [same] at free
    exact free below

theorem landsBeside {old new q : Path} (beside : ¬ new <+: q) (free : ¬ old <+: q) (p : Path) :
    (¬ new <+: p ∧ (if old <+: p then new ++ p.drop old.length else p) = q) ↔ p = q := by
  constructor
  · intro ⟨_,same⟩
    split at same
    · exact absurd ⟨_,same⟩ beside
    · exact same
  · intro same
    rw [same,if_neg free]
    exact ⟨beside,rfl⟩

theorem getMoved {fs : Fs} {old new : Path} (inner : old ≠ []) (target : new ≠ [])
    (outside : ¬ old <+: new) (apart : ¬ new <+: old) (q : Path) :
    (fs.moved old new).get q =
      if new <+: q then fs.get (old ++ q.drop new.length)
      else if old <+: q then none else fs.get q := by
  rcases List.eq_nil_or_concat q with rfl | ⟨_,_,filled⟩
  · simp [inner,target,get]
  have some_ : q ≠ [] := by simp [filled]
  clear filled
  unfold get
  rw [if_neg some_,findMoved]
  split
  · rename_i under
    obtain ⟨rest,rfl⟩ := under
    rw [List.drop_left,if_neg (by simp [inner])]
    congr 2
    funext e
    rw [decide_eq_decide]
    exact landsOnto outside apart rest e.1
  · rename_i beside
    split
    · rename_i below
      rw [Option.map_eq_none_iff,List.find?_eq_none]
      intro e _ found
      exact landsElsewhere beside below e.1 (of_decide_eq_true found)
    · rename_i free
      congr 2
      funext e
      rw [decide_eq_decide]
      exact landsBeside beside free e.1

theorem renameEffect (fs : Fs) (old new : Path) :
    ((fs.rename old new).1 = false ∧ (fs.rename old new).2 = fs) ∨
    ((fs.rename old new).1 = true ∧
      (fs.rename old new).2 = if old = new then fs else fs.moved old new) := by
  unfold rename
  split
  · rename_i same
    exact .inr ⟨rfl,by rw [if_pos same.1]⟩
  · rename_i moves
    split
    · rename_i allowed
      refine .inr ⟨rfl,?_⟩
      rw [if_neg]
      intro same
      rw [not_and] at moves
      have missing := Decidable.not_not.mp (moves same)
      simp [renamable,missing] at allowed
    · exact .inl ⟨rfl,rfl⟩

theorem renameGet {fs : Fs} {old new : Path} (inner : old ≠ []) (target : new ≠ [])
    (depth : old.length = new.length) (worked : (fs.rename old new).1 = true) (q : Path) :
    (fs.rename old new).2.get q =
      if old = new then fs.get q
      else if new <+: q then fs.get (old ++ q.drop new.length)
      else if old <+: q then none else fs.get q := by
  rcases renameEffect fs old new with ⟨failed,-⟩ | ⟨-,moved⟩
  · rw [failed] at worked
    contradiction
  · rw [moved]
    split
    · rfl
    · rename_i differ
      exact getMoved inner target (fun above => differ (above.eq_of_length depth))
        (fun above => differ (above.eq_of_length depth.symm).symm) q

theorem renameBeside (fs : Fs) {old new q : Path} (inner : old ≠ []) (target : new ≠ [])
    (depth : old.length = new.length) (besideOld : ¬ old <+: q) (besideNew : ¬ new <+: q) :
    (fs.rename old new).2.get q = fs.get q := by
  rcases renameEffect fs old new with ⟨-,same⟩ | ⟨worked,-⟩
  · rw [same]
  · rw [renameGet inner target depth worked,if_neg besideNew,if_neg besideOld,ite_self]

theorem renameOnto {fs : Fs} {old new : Path} (parent : fs.isDir new.dropLast = true)
    (outside : ¬ old <+: new) (dir : fs.isDir old = true)
    (free : fs.get new = none ∨ fs.isDir new = true)
    (empty : ∀ rest, rest ≠ [] → fs.get (new ++ rest) = none) : (fs.rename old new).1 = true := by
  have bare : fs.bare new = true := by
    unfold bare
    rw [List.all_eq_true]
    intro e among
    simp only [decide_eq_true_eq]
    by_contra both
    obtain ⟨differ,inside⟩ := not_or.mp both
    obtain ⟨rest,same⟩ := not_not.mp inside
    have some_ : rest ≠ [] := by
      rintro rfl
      exact differ (by rw [← same,List.append_nil])
    have missing := empty rest some_
    rw [same,get,if_neg (by simp [← same,some_]),Option.map_eq_none_iff,List.find?_eq_none] at missing
    exact missing e among (decide_eq_true rfl)
  have differ : ¬ (old = new ∧ fs.get old ≠ none) := fun both => outside (both.1 ▸ List.prefix_refl _)
  simp only [isDir,beq_iff_eq] at dir free
  have allowed : fs.renamable old new = true := by
    rcases free with missing | there
    · simp [renamable,parent,outside,dir,missing]
    · simp [renamable,parent,outside,dir,there,bare]
  rw [rename,if_neg differ,if_pos allowed]

def Rooted (fs : Fs) : Prop := ∀ p, fs.get p ≠ none → fs.isDir p.dropLast = true

theorem rootedEntries {fs : Fs} (each : ∀ e ∈ fs.entries, fs.isDir e.1.dropLast = true) :
    fs.Rooted := by
  intro p there
  by_cases root : p = []
  · subst root
    rfl
  · rw [get,if_neg root,ne_eq,Option.map_eq_none_iff,← ne_eq] at there
    obtain ⟨e,found⟩ := Option.ne_none_iff_exists'.mp there
    have named := List.find?_some found
    rw [← of_decide_eq_true named]
    exact each e (List.mem_of_find?_eq_some found)

theorem rootedAbove {fs : Fs} (rooted : fs.Rooted) {p rest : Path} (some_ : rest ≠ [])
    (there : fs.get (p ++ rest) ≠ none) : fs.isDir p = true := by
  induction rest using List.reverseRecOn with
  | nil => contradiction
  | append_singleton above last ih =>
    have parent := rooted _ there
    rw [← List.append_assoc,List.dropLast_concat] at parent
    by_cases direct : above = []
    · rwa [direct,List.append_nil] at parent
    · simp only [isDir,beq_iff_eq] at parent
      exact ih direct (by simp [parent])

theorem renamableBare {fs : Fs} {old new rest : Path} (allowed : fs.renamable old new = true)
    (dir : fs.isDir new = true) (some_ : rest ≠ []) : fs.get (new ++ rest) = none := by
  simp only [isDir,beq_iff_eq] at dir
  simp only [renamable,dir,Bool.and_eq_true] at allowed
  obtain ⟨-,free⟩ := allowed
  have free : fs.bare new = true := by
    cases found : fs.get old with
    | none => simp [found] at free
    | some node =>
      cases node with
      | file b => simp [found] at free
      | dir => simpa [found] using free
  simp only [bare,List.all_eq_true,decide_eq_true_eq] at free
  rw [get,if_neg (by simp [some_]),Option.map_eq_none_iff,List.find?_eq_none]
  intro e among named
  rcases free e among with same | beside
  · rw [of_decide_eq_true named] at same
    exact some_ (List.append_right_eq_self.mp same)
  · exact beside (of_decide_eq_true named ▸ List.prefix_append new rest)

theorem renameFree {fs : Fs} {old new : Path} (parent : fs.isDir new.dropLast = true)
    (outside : ¬ old <+: new) (found : fs.get old ≠ none) (free : fs.get new = none) :
    fs.rename old new = (true,fs.moved old new) := by
  have differ : ¬ (old = new ∧ fs.get old ≠ none) := fun both => outside (both.1 ▸ List.prefix_refl _)
  obtain ⟨node,there⟩ := Option.ne_none_iff_exists'.mp found
  have allowed : fs.renamable old new = true := by
    simp [renamable,parent,outside,there,free]
  rw [rename,if_neg differ,if_pos allowed]

theorem putRooted {fs : Fs} {p : Path} {node : Node} (rooted : fs.Rooted)
    (parent : fs.isDir p.dropLast = true) (kept : fs.isDir p = true → node = .dir) :
    (fs.put p node).Rooted := by
  intro q there
  by_cases same : q = p
  · subst same
    cases q using List.reverseRecOn with
    | nil => rfl
    | append_singleton above last =>
      have shorter : (above ++ [last]).dropLast ≠ above ++ [last] := by simp
      unfold isDir at parent ⊢
      rwa [getPutOther fs shorter]
  · rw [getPutOther fs same] at there
    have dir := rooted q there
    by_cases below : q.dropLast = p
    · rw [below] at dir ⊢
      cases kept dir
      cases p with
      | nil => rfl
      | cons x rest => simp [isDir,getPutSame fs (show x :: rest ≠ [] by simp)]
    · unfold isDir at dir ⊢
      rwa [getPutOther fs below]

theorem createDirAllRooted {fs : Fs} (rooted : fs.Rooted) (p : Path) : (fs.createDirAll p).2.Rooted := by
  unfold createDirAll
  split
  · rename_i clear
    have clear : ∀ q, q <+: p → fs.get q = none ∨ fs.isDir q = true := by
      simpa [List.mem_inits] using clear
    intro q there
    by_cases above : q <+: p
    · exact madeDir clear ((List.dropLast_prefix q).trans above)
    · dsimp only at there ⊢
      rw [madeElsewhere above] at there
      have dir := rooted q there
      simp only [isDir,beq_iff_eq] at dir ⊢
      rw [getMakeDirs,dir]
      simp
  · exact rooted

theorem removeRooted {fs : Fs} (rooted : fs.Rooted) (p : Path) : (fs.remove p).2.Rooted := by
  unfold remove
  split
  · rename_i b found
    have inner : p ≠ [] := by
      rintro rfl
      simp [getRoot] at found
    intro q there
    have other : q ≠ p := by
      rintro rfl
      exact there (getDropSame fs inner)
    rw [getDropOther fs other] at there
    have dir := rooted q there
    have beside : q.dropLast ≠ p := by
      intro same
      simp [isDir,same,found] at dir
    unfold isDir at dir ⊢
    rwa [getDropOther fs beside]
  · exact rooted

theorem renameRooted {fs : Fs} (rooted : fs.Rooted) {old new : Path} (inner : old ≠ [])
    (target : new ≠ []) (apart : ¬ new <+: old) : (fs.rename old new).2.Rooted := by
  unfold rename
  split
  · exact rooted
  split
  · rename_i allowed
    have parts := allowed
    simp only [renamable,Bool.and_eq_true,Bool.not_eq_true',decide_eq_false_iff_not] at parts
    obtain ⟨⟨parent,outside⟩,-⟩ := parts
    have moved := @getMoved fs old new inner target outside apart
    have above : ∀ {q : Path}, q.dropLast <+: q := fun {q} => List.dropLast_prefix q
    intro q there
    dsimp only at there ⊢
    by_cases below : new <+: q
    · obtain ⟨rest,rfl⟩ := below
      cases rest using List.reverseRecOn with
      | nil =>
        -- the target itself: its parent is outside both trees
        rw [List.append_nil]
        have free : ¬ new <+: new.dropLast := by
          intro longer
          have size := longer.length_le
          have some_ := List.length_pos_iff.mpr target
          rw [List.length_dropLast] at size
          omega
        have free' : ¬ old <+: new.dropLast := fun longer => outside (longer.trans above)
        unfold isDir at parent ⊢
        rwa [moved,if_neg free,if_neg free']
      | append_singleton front last =>
        rw [moved,if_pos (List.prefix_append _ _),List.drop_left] at there
        have dir := rooted _ there
        rw [← List.append_assoc,List.dropLast_concat] at dir ⊢
        unfold isDir at dir ⊢
        rwa [moved,if_pos (List.prefix_append _ _),List.drop_left]
    · rw [moved,if_neg below] at there
      split at there
      · contradiction
      · rename_i beside
        have dir := rooted q there
        unfold isDir at dir ⊢
        rwa [moved,if_neg fun longer => below (longer.trans above),
          if_neg fun longer => beside (longer.trans above)]
  · exact rooted

def Op.Fair : Op → Prop
  | .rename old new => old ≠ [] ∧ new ≠ [] ∧ ¬ new <+: old
  | _ => True

theorem execRooted {fs : Fs} (rooted : fs.Rooted) {op : Op} (fair : op.Fair) :
    (fs.exec op).2.Rooted := by
  cases op with
  | createDirAll p => exact createDirAllRooted rooted p
  | create p =>
    simp only [exec,create]
    split
    · rename_i free
      exact putRooted rooted free.1 fun dir => absurd dir free.2
    · exact rooted
  | append p b =>
    simp only [exec,append]
    split
    · rename_i old found
      exact putRooted rooted (rooted p (by simp [found])) fun dir => by simp [isDir,found] at dir
    · exact rooted
  | remove p => exact removeRooted rooted p
  | write p b =>
    simp only [exec,write]
    split
    · rename_i free
      exact putRooted rooted free.1 fun dir => absurd dir free.2
    · exact rooted
  | rename old new => exact renameRooted rooted fair.1 fair.2.1 fair.2.2
  | _ => exact rooted

end Fs
end RDrive
