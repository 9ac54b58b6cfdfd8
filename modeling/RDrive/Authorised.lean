import RDrive.Doings

/-! Who has storage: all commands of all clients side by side, one call at a time in any
order, connections that are dropped anywhere, and the administrator's directories in
authorized_keys in between. The list is closed. -/
namespace RDrive.Authorised
open Crypto Header Party Bytes Program Session Durability

abbrev Handler := Member (Port HostSig) Unit (Work × Doings)

/- The disk with its open files, the keys that were authorised so far (by the administrator,
or by an acknowledged rotation from such a key), and the connections. -/
structure World where
  yard : Yard
  granted : Bytes → Prop
  members : List Handler

abbrev theirs (S : Session) (g : Work) : Session := S.connected g.sessionKey g.clientKey

def Finds (disk : Fs) (c : (Port HostSig).Call) (r : (Port HostSig).Ret c) : Prop :=
  match c, r with
  | .here (.fs (.exists_ p)), true => disk.get p ≠ none
  | .here (.fs (.isDir p)), true => disk.isDir p = true
  | .here (.fs (.read p)), some _ => disk.content p ≠ none
  | .here (.reads p _), some _ => disk.content p ≠ none
  | _, _ => True

def watched (S : Session) : Env (Port HostSig) (Yard × (Work × Doings)) := fun (s,(g,d)) c r (t,(h,e)) =>
  working S (s,g) c r (t,h) ∧ Finds s.disk c r ∧ e = notes (theirs S g) d c r

def running (m : Handler) : Prop := ∃ c next, m.program = .call c next

def Leaves (S : Session) (m : Handler) (key : Bytes) : Prop :=
  running m ∧ ∃ new, m.notes.2.renames = [(S.authPath key,S.authPath new,true)]

def Comes (S : Session) (m : Handler) (old key : Bytes) : Prop :=
  running m ∧ ¬ m.notes.2.acked ∧ old.length = 32 ∧
    m.notes.2.renames.head? = some (S.authPath old,S.authPath key,true)

/- A registration that found the key's directory, an upload of the key that has its file
open, and a rotation onto it that is not acknowledged go on as if the key were listed. -/
def Relies (S : Session) (m : Handler) (key : Bytes) : Prop :=
  running m ∧ (m.notes.2.found = some (S.authPath key) ∨
    m.notes.2.opened = true ∧ m.notes.1.clientKey = key ∨ ∃ old, Comes S m old key)

def Leaving (S : Session) (w : World) (key : Bytes) : Prop := ∃ m ∈ w.members, Leaves S m key

def Arriving (S : Session) (w : World) (key : Bytes) : Prop :=
  ∃ m ∈ w.members, ∃ old, w.granted old ∧ Comes S m old key

def passed (S : Session) (granted : Bytes → Prop) (d : Doings) (key : Bytes) : Prop :=
  granted key ∨ d.acked ∧ ∃ old, granted old ∧ Moved S d old key

/- A call is told with its caller and the other connections. -/
inductive Event where
  | grant (key : Bytes)
  | join (sessionKey clientKey : Bytes)
  | call (others : List Handler) (g : Work) (d : Doings) (c : (Port HostSig).Call) (r : (Port HostSig).Ret c)
  | cut (d : Doings)

inductive Step (S : Session) : World → Event → World → Prop where
  | grant {s granted members} (key : Bytes) (size : key.length = 32) :
      Step S ⟨s,granted,members⟩ (.grant key)
        ⟨s.makes (S.authPath key),fun k => granted k ∨ k = key,members⟩
  | join {s granted members} (sessionKey clientKey : Bytes) (size : clientKey.length = 32) :
      Step S ⟨s,granted,members⟩ (.join sessionKey clientKey) ⟨s,granted,
        ⟨(S.connected sessionKey clientKey).handleConnection,
          (⟨sessionKey,clientKey,none,none,[],False⟩,begun)⟩ :: members⟩
  | call {s granted before after c next g d r t h e} (answered : watched S (s,(g,d)) c r (t,(h,e))) :
      Step S ⟨s,granted,before ++ ⟨.call c next,(g,d)⟩ :: after⟩ (.call (before ++ after) g d c r)
        ⟨t,passed S granted e,before ++ ⟨next r,(h,e)⟩ :: after⟩
  | cut {s granted before after m} :
      Step S ⟨s,granted,before ++ m :: after⟩ (.cut m.notes.2) ⟨s,granted,before ++ after⟩

/- An upload makes its directory and opens its file while its key is listed; a key is rotated
away while nobody relies on it; a rotation is not torn apart. -/
def Careful (S : Session) (s : Yard) : Event → Prop
  | .grant _ => True
  | .join _ _ => True
  | .cut d => Settled d
  | .call others g d c r => Heeds d c r ∧ match c, r with
    | .here (.fs (.createDirAll p)), _ =>
      (∃ slot : Slot, slot.clientKey = g.clientKey ∧ p = S.userDirPath slot) →
        Listed S s.disk g.clientKey
    | .here (.fs (.create _)), _ => Listed S s.disk g.clientKey
    | .here (.fs (.rename p _)), true =>
      ∀ key : Bytes, key.length = 32 → p = S.authPath key → ∀ m ∈ others, ¬ Relies S m key
    | _, _ => True

abbrev Run (S : Session) (ok : Yard → Event → Prop) :=
  Relation.ReflTransGen fun w next => ∃ event, Step S w event next ∧ ok w.yard event

structure Stands (S : Session) (disk : Fs) (granted : Bytes → Prop) (m : Handler) : Prop where
  size : m.notes.1.clientKey.length = 32
  ruled : Keeps (theirs S m.notes.1) m.program m.notes.2
  acked : m.notes.2.acked → 2 ≤ m.notes.2.renames.length
  relied : ∀ key : Bytes, key.length = 32 → Relies S m key → Listed S disk key
  granted : ∀ old new : Bytes, Comes S m old new → granted old

structure Sound (S : Session) (w : World) : Prop where
  stored : ∀ (key : Bytes) (q : Path), key.length = 32 → S.storagePath key <+: q →
    w.yard.disk.get q ≠ none → Listed S w.yard.disk key ∨ Leaving S w key
  dirs : ∀ key : Bytes, key.length = 32 → w.yard.disk.get (S.authPath key) ≠ none →
    Listed S w.yard.disk key
  granted : ∀ key : Bytes, key.length = 32 → Listed S w.yard.disk key → w.granted key ∨ Arriving S w key
  each : ∀ m ∈ w.members, Stands S w.yard.disk w.granted m

section
variable {S : Session} {t : Yard} {g h : Work} {d e : Doings} {w : World} {disk after : Fs}
  {granted : Bytes → Prop} {c : (Port HostSig).Call} {r : (Port HostSig).Ret c}
  {next : (Port HostSig).Ret c → Party Unit}

structure Grows (S : Session) (disk after : Fs) : Prop where
  list : ∀ key : Bytes, key.length = 32 → after.get (S.authPath key) = disk.get (S.authPath key)
  fresh : ∀ (key : Bytes) (q : Path), key.length = 32 → S.storagePath key <+: q → after.get q ≠ none →
    disk.get q ≠ none ∨ Listed S disk key

theorem waits {before after : List Handler} {m n : Handler} (member : n ∈ before ++ after) :
    n ∈ before ++ m :: after := by
  simp only [List.mem_append,List.mem_cons] at member ⊢
  tauto

variable {s : Yard} {before later : List Handler} {result : Work × Doings}

theorem listMoved (distinct : Distinct S) {old new : Bytes} (sizeOld : old.length = 32) (sizeNew : new.length = 32)
    (worked : (disk.rename (S.authPath old) (S.authPath new)).1 = true) (key : Bytes) (size : key.length = 32) :
    (disk.rename (S.authPath old) (S.authPath new)).2.get (S.authPath key) =
      if key = new then disk.get (S.authPath old) else if key = old then none else disk.get (S.authPath key) := by
  rw [Fs.renameGet (authInner old) (authInner new) (authDepth old new) worked]
  by_cases here : key = new
  · subst here
    rw [if_pos rfl,if_pos (List.prefix_refl _),List.drop_length,List.append_nil]
    split
    · rename_i same
      rw [same]
    · rfl
  · have outside : ¬ S.authPath new <+: S.authPath key :=
      fun above => here (authSame distinct size sizeNew (List.prefix_refl _) above)
    rw [if_neg here,if_neg outside]
    by_cases from_ : key = old
    · subst from_
      have differ : S.authPath key ≠ S.authPath new := fun same => outside (by rw [same])
      rw [if_pos rfl,if_neg differ,if_pos (List.prefix_refl _)]
    · have beside : ¬ S.authPath old <+: S.authPath key :=
        fun above => from_ (authSame distinct size sizeOld (List.prefix_refl _) above)
      rw [if_neg from_,if_neg beside,ite_self]

theorem storageMoved (distinct : Distinct S) {old new key : Bytes} {q : Path} (sizeNew : new.length = 32)
    (worked : (disk.rename (S.storagePath old) (S.storagePath new)).1 = true) (size : key.length = 32)
    (inside : S.storagePath key <+: q)
    (there : (disk.rename (S.storagePath old) (S.storagePath new)).2.get q ≠ none) :
    key = new ∨ key ≠ old ∧ disk.get q ≠ none := by
  by_cases here : key = new
  · exact .inl here
  · right
    rw [Fs.renameGet (storageInner old) (storageInner new) (storageDepth old new) worked] at there
    have outside : ¬ S.storagePath new <+: q :=
      fun above => here (storageSame distinct size sizeNew inside above)
    rw [if_neg outside] at there
    by_cases same : S.storagePath old = S.storagePath new
    · refine ⟨?_,by rwa [if_pos same] at there⟩
      rintro rfl
      exact outside (same ▸ inside)
    · rw [if_neg same] at there
      by_cases from_ : S.storagePath old <+: q
      · rw [if_pos from_] at there
        exact absurd rfl there
      · rw [if_neg from_] at there
        refine ⟨?_,there⟩
        rintro rfl
        exact from_ inside

structure Tidy (S : Session) (disk : Fs) (granted : Bytes → Prop) : Prop where
  stored : ∀ (key : Bytes) (q : Path), key.length = 32 → S.storagePath key <+: q → disk.get q ≠ none →
    Listed S disk key
  dirs : ∀ key : Bytes, key.length = 32 → disk.get (S.authPath key) ≠ none → Listed S disk key
  granted : ∀ key : Bytes, key.length = 32 → Listed S disk key → granted key

end

/- One connection runs and nobody else is there. -/
section
variable {S : Session} {ok : Yard → Event → Prop} {s t : Yard} {g : Work} {d : Doings}

def aloneEnv (S : Session) (ok : Yard → Event → Prop) : Env (Port HostSig) (Yard × (Work × Doings)) :=
  fun (s,(g,d)) c r after => watched S (s,(g,d)) c r after ∧ ok s (.call [] g d c r)

def Calm (c : (Port HostSig).Call) : Prop :=
  (∀ op, c ≠ .here (.fs op)) ∧ (∀ p n, c ≠ .here (.reads p n)) ∧ ∀ b, c ≠ .send b

theorem calmAnswered (calm : ∀ s g d c r, Calm c → ok s (.call [] g d c r)) {c : HostCall} {r : HostSig.Ret c}
    (onDisk : ∀ op, c ≠ .fs op) (onFile : ∀ p n, c ≠ .reads p n) :
    aloneEnv S ok (s,(g,d)) (.here c) r (s,(g,d)) := by
  have none_ : Calm (.here c) := ⟨fun op same => onDisk op (PortCall.here.inj same),
    fun p n same => onFile p n (PortCall.here.inj same),nofun⟩
  refine ⟨?_,calm _ _ _ _ _ none_⟩
  cases c with
  | fs op => exact absurd rfl (onDisk op)
  | reads p n => exact absurd rfl (onFile p n)
  | _ => exact ⟨⟨rfl,rfl⟩,trivial,rfl⟩

theorem carefulCalm (s : Yard) (g : Work) (d : Doings) (c : (Port HostSig).Call) (r : (Port HostSig).Ret c)
    (calm : Calm c) : Careful S s (.call [] g d c r) := by
  obtain ⟨onDisk,onFile,silent⟩ := calm
  cases c with
  | send b => exact absurd rfl (silent b)
  | recv n => exact ⟨trivial,trivial⟩
  | here c =>
    cases c with
    | fs op => exact absurd rfl (onDisk op)
    | _ => exact ⟨trivial,trivial⟩

theorem frameSent {data : Bytes} (small : data.length ≤ Frame.u32Max) (nonce : Nonce) :
    Reaches (aloneEnv S (Careful S)) ((theirs S g).writeEncryptFrameInto data) (s,(g,d)) (.done (.ok ()))
      (s,(Sends S g (Frame.frame S.cipher g.sessionKey nonce data),
        notes (theirs S g) d (.send (Frame.frame S.cipher g.sessionKey nonce data)) (.ok ()))) := by
  refine frameReached (S := theirs S g) small nonce (calmAnswered carefulCalm nofun nofun) ?_
  exact ⟨⟨⟨rfl,rfl⟩,trivial,rfl⟩,trivial,trivial⟩

end

open AuthTrees Whitelist

theorem sampleFits : Frame.Fits (Command.serialize (.upload sampleHeader)) := by
  unfold Frame.Fits
  decide +kernel

end RDrive.Authorised
