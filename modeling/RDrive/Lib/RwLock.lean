import Mathlib.Data.List.Basic

/-! A reader/writer lock that is only ever tried, never waited for. Guards are
recorded by their owner. A value with a writer and a reader cannot be built. -/
namespace RDrive

@[ext] structure RwLock (ι : Type) where
  writer : Option ι
  readers : List ι
  exclusive : writer ≠ none → readers = []

namespace RwLock
variable {ι : Type}

def free : RwLock ι := ⟨none,[],fun _ => rfl⟩

def tryWrite (lock : RwLock ι) (who : ι) : Option (RwLock ι) :=
  match lock.writer, lock.readers with
  | none, [] => some ⟨some who,[],fun _ => rfl⟩
  | _, _ => none

def tryRead (lock : RwLock ι) (who : ι) : Option (RwLock ι) :=
  match lock.writer with
  | none => some ⟨none,who :: lock.readers,fun taken => (taken rfl).elim⟩
  | some _ => none

def dropWrite (lock : RwLock ι) : RwLock ι :=
  ⟨none,lock.readers,fun taken => (taken rfl).elim⟩

def dropRead [DecidableEq ι] (lock : RwLock ι) (who : ι) : RwLock ι :=
  ⟨lock.writer,lock.readers.erase who,fun taken => by simp [lock.exclusive taken]⟩

theorem tryWriteExact {lock next : RwLock ι} {who : ι} (h : lock.tryWrite who = some next) :
    lock.writer = none ∧ lock.readers = [] ∧ next.writer = some who ∧ next.readers = [] := by
  unfold tryWrite at h
  split at h
  · rename_i unwritten unread
    cases Option.some.inj h
    exact ⟨unwritten,unread,rfl,rfl⟩
  · contradiction

theorem tryReadExact {lock next : RwLock ι} {who : ι} (h : lock.tryRead who = some next) :
    lock.writer = none ∧ next.writer = none ∧ next.readers = who :: lock.readers := by
  unfold tryRead at h
  split at h
  · rename_i unwritten
    cases Option.some.inj h
    exact ⟨unwritten,rfl,rfl⟩
  · contradiction

theorem tryWriteFree {lock : RwLock ι} (unwritten : lock.writer = none) (unread : lock.readers = [])
    (who : ι) : ∃ next, lock.tryWrite who = some next := by
  unfold tryWrite
  split
  · exact ⟨_,rfl⟩
  · rename_i taken
    exact (taken unwritten unread).elim

theorem tryReadFree {lock : RwLock ι} (unwritten : lock.writer = none) (who : ι) :
    ∃ next, lock.tryRead who = some next := by
  unfold tryRead
  split
  · exact ⟨_,rfl⟩
  · rename_i held
    rw [unwritten] at held
    contradiction

theorem oneWriter {lock : RwLock ι} {a b : ι} (ha : lock.writer = some a)
    (hb : lock.writer = some b) : a = b := Option.some.inj (ha.symm.trans hb)

theorem noReaderBesideWriter {lock : RwLock ι} {a b : ι} (ha : lock.writer = some a)
    (hb : b ∈ lock.readers) : False := by
  have unread := lock.exclusive (by simp [ha])
  simp [unread] at hb

def only (own : ι → Bool) (lock : RwLock ι) : RwLock ι :=
  ⟨lock.writer.filter own,lock.readers.filter own,fun taken => by
    have written : lock.writer ≠ none := by
      intro none_
      simp [none_] at taken
    simp [lock.exclusive written]⟩

variable {own : ι → Bool} {lock next : RwLock ι} {who : ι}

theorem onlyFree (own : ι → Bool) (writer : ∀ o, lock.writer = some o → own o = false)
    (readers : ∀ o ∈ lock.readers, own o = false) : lock.only own = free := by
  apply RwLock.ext
  · cases written : lock.writer with
    | none => simp [only,written,free]
    | some o => simp [only,written,free,writer o written]
  · simpa [only,free] using readers

theorem onlyTryWrite (mine : own who = true) (writer : ∀ o, lock.writer = some o → own o = true)
    (readers : ∀ o ∈ lock.readers, own o = true) :
    (lock.only own).tryWrite who = (lock.tryWrite who).map (only own) := by
  have same : lock.only own = lock := by
    apply RwLock.ext
    · cases written : lock.writer with
      | none => simp [only,written]
      | some o => simp [only,written,writer o written]
    · simpa [only] using readers
  rw [same]
  unfold tryWrite
  split
  · simp [only,Option.filter_some,mine]
  · rfl

theorem onlyTryRead (mine : own who = true) (writer : ∀ o, lock.writer = some o → own o = true) :
    (lock.only own).tryRead who = (lock.tryRead who).map (only own) := by
  unfold tryRead
  cases written : lock.writer with
  | none => simp [only,written,mine]
  | some o => simp [only,written,Option.filter_some,writer o written]

theorem onlyOtherWrite (other : own who = false) (got : lock.tryWrite who = some next) :
    next.only own = lock.only own := by
  obtain ⟨unwritten,unread,written,read⟩ := tryWriteExact got
  apply RwLock.ext
  · simp [only,unwritten,written,other]
  · simp [only,unread,read]

theorem onlyOtherRead (other : own who = false) (got : lock.tryRead who = some next) :
    next.only own = lock.only own := by
  obtain ⟨unwritten,written,read⟩ := tryReadExact got
  apply RwLock.ext
  · simp [only,unwritten,written]
  · simp [only,read,other]

theorem onlyDropWrite : lock.dropWrite.only own = (lock.only own).dropWrite := by
  apply RwLock.ext <;> simp [only,dropWrite]

theorem onlyOtherDropWrite (other : own who = false) (held : lock.writer = some who) :
    lock.dropWrite.only own = lock.only own := by
  apply RwLock.ext <;> simp [only,dropWrite,held,Option.filter_some,other]

variable [DecidableEq ι]

theorem onlyDropRead : (lock.dropRead who).only own = (lock.only own).dropRead who := by
  apply RwLock.ext <;> simp [only,dropRead,List.erase_filter]

theorem onlyOtherDropRead (other : own who = false) : (lock.dropRead who).only own = lock.only own := by
  have absent : who ∉ lock.readers.filter own := by simp [other]
  apply RwLock.ext
  · rfl
  · change (lock.readers.erase who).filter own = lock.readers.filter own
    rw [← List.erase_filter,List.erase_of_not_mem absent]

end RwLock
end RDrive
