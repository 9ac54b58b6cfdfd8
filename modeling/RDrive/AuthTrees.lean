import RDrive.Replay
import RDrive.Whitelist

/-! handle_auth_keys and its two calls on the two trees, each of which may fail: what
is left of them when the client gets no ACK. -/
namespace RDrive
open Crypto Header Party Bytes Program

/- What becomes of a create_dir_all or a rename: its work, where POSIX allows it, or a
failure of its own. A create_dir_all that fails may have made directories above. -/
inductive Fate where
  | works
  | fails (made : Nat)
  deriving DecidableEq, Repr

namespace Fs

def createDirAllBy (fs : Fs) (fate : Fate) (p : Path) : Bool × Fs :=
  match fate with
  | .works => fs.createDirAll p
  | .fails made =>
    let above := p.inits.take (min made p.length)
    (false,if above.all (fun q => fs.get q = none ∨ fs.isDir q) then fs.makeDirs above else fs)

def renameBy (fs : Fs) (fate : Fate) (old new : Path) : Bool × Fs :=
  match fate with
  | .works => fs.rename old new
  | .fails _ => (false,fs)

def Same (a b : Fs) : Prop := ∀ q, a.get q = b.get q

/- The directories a create_dir_all gets to. -/
def Fate.dirs (p : Path) : Fate → List Path
  | .works => p.inits
  | .fails made => p.inits.take (min made p.length)

def Adds (fs : Fs) (fate : Fate) (p : Path) : Prop :=
  (∀ q ∈ Fate.dirs p fate, fs.get q = none ∨ fs.isDir q = true) ∧
    ∃ q ∈ Fate.dirs p fate, fs.get q = none

def Moves (fs : Fs) (fate : Fate) (old new : Path) : Prop :=
  (fs.renameBy fate old new).1 = true ∧ old ≠ new

theorem createdBy (fs : Fs) (fate : Fate) (p : Path) : (fs.createDirAllBy fate p).2 =
    if (Fate.dirs p fate).all (fun q => fs.get q = none ∨ fs.isDir q) then
      fs.makeDirs (Fate.dirs p fate) else fs := by
  cases fate with
  | works =>
    simp only [createDirAllBy,createDirAll,Fate.dirs]
    exact apply_ite Prod.snd _ _ _
  | fails made => rfl

theorem createdKeeps {fs : Fs} {fate : Fate} {p q : Path} (found : fs.get q ≠ none) :
    (fs.createDirAllBy fate p).2.get q = fs.get q := by
  rw [createdBy]
  split
  · rw [getMakeDirs,if_neg fun both => found both.2]
  · rfl

theorem createdSame (fs : Fs) (fate : Fate) (p : Path) :
    fs.Same (fs.createDirAllBy fate p).2 ↔ ¬ fs.Adds fate p := by
  rw [createdBy]
  constructor
  · intro same adds
    obtain ⟨clear,q,among,missing⟩ := adds
    have after := same q
    rw [if_pos (by simpa using clear),getMakeDirs,if_pos ⟨among,missing⟩,missing] at after
    contradiction
  · intro none_ q
    split
    · rename_i clear
      rw [getMakeDirs]
      split
      · rename_i added
        exact absurd ⟨by simpa using clear,q,added.1,added.2⟩ none_
      · rfl
    · rfl

theorem createdBoth (fs : Fs) (first second : Fate) (p q : Path) :
    let made := (fs.createDirAllBy first p).2
    fs.Same (made.createDirAllBy second q).2 ↔ ¬ fs.Adds first p ∧ ¬ made.Adds second q := by
  intro made
  constructor
  · intro same
    have none_ : ¬ fs.Adds first p := by
      rw [← createdSame]
      intro r
      cases missing : fs.get r with
      | some node => rw [createdKeeps (by simp [missing]),missing]
      | none =>
        by_contra added
        have kept : (made.createDirAllBy second q).2.get r = made.get r :=
          createdKeeps fun gone => added gone.symm
        rw [← same r,missing] at kept
        exact added kept
    refine ⟨none_,?_⟩
    rw [← createdSame]
    intro r
    rw [← same r]
    exact ((createdSame fs first p).mpr none_ r).symm
  · intro ⟨one,two⟩ r
    rw [(createdSame fs first p).mpr one r,(createdSame made second q).mpr two r]

theorem renamedStill {fs : Fs} {fate : Fate} {old new : Path} (still : ¬ fs.Moves fate old new) :
    (fs.renameBy fate old new).2 = fs := by
  cases fate with
  | fails made => rfl
  | works =>
    rcases renameEffect fs old new with ⟨-,same⟩ | ⟨said,moved⟩
    · exact same
    · have equal : old = new := by
        by_contra different
        exact still ⟨said,different⟩
      simp only [renameBy]
      rw [moved,if_pos equal]

theorem renamedMoved {fs : Fs} {fate : Fate} {old new : Path} (moves : fs.Moves fate old new) :
    (fs.renameBy fate old new).2 = fs.moved old new ∧ fs.renamable old new = true := by
  obtain ⟨said,different⟩ := moves
  cases fate with
  | fails made => contradiction
  | works =>
    simp only [renameBy,rename,different,false_and,if_false] at said ⊢
    split at said <;> try contradiction
    rename_i allowed
    rw [if_pos allowed]
    exact ⟨rfl,allowed⟩

theorem renamedAway {fs : Fs} {fate : Fate} {old new : Path} (inner : old ≠ []) (target : new ≠ [])
    (depth : old.length = new.length) (moves : fs.Moves fate old new) :
    fs.get old ≠ none ∧ (fs.renameBy fate old new).2.get old = none ∧
      ∀ q, ¬ old <+: q → ¬ new <+: q → (fs.renameBy fate old new).2.get q = fs.get q := by
  obtain ⟨moved,allowed⟩ := renamedMoved moves
  have outside : ¬ old <+: new := fun above => moves.2 (above.eq_of_length depth)
  have apart : ¬ new <+: old := fun above => moves.2 (above.eq_of_length depth.symm).symm
  rw [moved]
  refine ⟨fun missing => by simp [renamable,missing] at allowed,?_,?_⟩
  · rw [getMoved inner target outside apart,if_neg apart,if_pos (List.prefix_refl _)]
  · intro q besideOld besideNew
    rw [getMoved inner target outside apart,if_neg besideNew,if_neg besideOld]

end Fs

namespace Session
variable {S : Session}

theorem renamedBoth (disk : Fs) (first second : Fate) (old new : Bytes) :
    let moved := (disk.renameBy first (S.authPath old) (S.authPath new)).2
    disk.Same (moved.renameBy second (S.storagePath old) (S.storagePath new)).2 ↔
      ¬ disk.Moves first (S.authPath old) (S.authPath new) ∧
        ¬ moved.Moves second (S.storagePath old) (S.storagePath new) := by
  intro moved
  constructor
  · intro same
    have beside : (moved.renameBy second (S.storagePath old) (S.storagePath new)).2.get
        (S.authPath old) = moved.get (S.authPath old) := by
      by_cases moves : moved.Moves second (S.storagePath old) (S.storagePath new)
      · exact (Fs.renamedAway (storageInner old) (storageInner new) (storageDepth old new) moves).2.2
          _ (fun above => storageApart above (List.prefix_refl _))
          (fun above => storageApart above (List.prefix_refl _))
      · rw [Fs.renamedStill moves]
    have still : ¬ disk.Moves first (S.authPath old) (S.authPath new) := by
      intro moves
      obtain ⟨there,gone,-⟩ :=
        Fs.renamedAway (authInner old) (authInner new) (authDepth old new) moves
      rw [same (S.authPath old),beside] at there
      exact there gone
    refine ⟨still,?_⟩
    intro moves
    obtain ⟨there,gone,-⟩ :=
      Fs.renamedAway (storageInner old) (storageInner new) (storageDepth old new) moves
    rw [← same (S.storagePath old)] at gone
    rw [show moved = disk from Fs.renamedStill still] at there
    exact there gone
  · intro ⟨one,two⟩ q
    rw [Fs.renamedStill two,show moved = disk from Fs.renamedStill one]

def Acks (S : Session) (b : Bytes) : Prop :=
  ∃ nonce, b = Frame.frame S.cipher S.sessionKey nonce [1]

end Session

/- What the disk still has in store for the calls to come, the body that was read last,
and whether an ACK went out or was lost in its write. -/
structure Trial where
  disk : Fs
  fates : List Fate
  body : Option Bytes
  acked : Prop
  lost : Prop

namespace Session

def trial (S : Session) : Env (Port HostSig) Trial := fun s c r t =>
  match c, r with
  | .here (.fs (.createDirAll p)), made => ∃ fate rest, s.fates = fate :: rest ∧
      made = (s.disk.createDirAllBy fate p).1 ∧
      t = {s with disk := (s.disk.createDirAllBy fate p).2,fates := rest}
  | .here (.fs (.rename old new)), moved => ∃ fate rest, s.fates = fate :: rest ∧
      moved = (s.disk.renameBy fate old new).1 ∧
      t = {s with disk := (s.disk.renameBy fate old new).2,fates := rest}
  | .here (.fs op), answer =>
    answer = (s.disk.exec op).1 ∧ t = {s with disk := (s.disk.exec op).2}
  | .recv _, .ok b => t = {s with body := S.cipher.opened S.sessionKey b.val}
  | .send b, .ok () => t = {s with acked := s.acked ∨ S.Acks b}
  | .send b, .error _ => t = {s with lost := s.lost ∨ S.Acks b}
  | _, _ => t = s

variable {S : Session} {s : Trial}

theorem lookTried {α : Type} (op : Fs.Op) {f : op.Ret → Party α} {post : Outcome α → Trial → Prop}
    (looks : Looks op) (next : Safe S.trial (fun _ => True) post (f (s.disk.exec op).1) s) :
    Safe S.trial (fun _ => True) post (fs op >>= f) s := by
  refine ⟨trivial,?_⟩
  intro answer t answered
  have step : answer = (s.disk.exec op).1 ∧ t = s := by
    cases op <;> first | exact looks.elim | exact answered
  obtain ⟨rfl,rfl⟩ := step
  exact next

theorem frameNoAck {data : Bytes} {nonce : Nonce} (other : data.length ≠ 1) :
    ¬ S.Acks (Frame.frame S.cipher S.sessionKey nonce data) := by
  intro ⟨nonce',same⟩
  have lengths := congrArg List.length same
  simp only [Frame.frame,List.length_append,Frame.be32Length,Aead.sealedLength] at lengths
  simp only [List.length_singleton] at lengths
  omega

theorem otherStays {data : Bytes} (other : data.length ≠ 1) :
    Safe S.trial (fun _ => True) (fun _ t => t = s) (S.writeEncryptFrameInto data) s := by
  unfold writeEncryptFrameInto
  split
  · exact ⟨trivial,rfl⟩
  · refine ⟨trivial,?_⟩
    rintro nonce t rfl
    have unacked : ¬ S.Acks (Frame.frame S.cipher S.sessionKey nonce data) := frameNoAck other
    refine ⟨trivial,?_⟩
    rintro (fault | _) u rfl
    · exact ⟨trivial,by simp only [unacked,or_false]⟩
    · exact ⟨trivial,by simp only [unacked,or_false]⟩

theorem taggedLength (tag : UInt8) (code : UInt16) (message : String) :
    (tag :: (Postcard.varint code.toNat ++ Postcard.string message)).length ≠ 1 := by
  have code := Postcard.varintNonempty code.toNat
  simp only [List.length_cons,List.length_append]
  omega

theorem closingStays {data : Bytes} (other : data.length ≠ 1) :
    Safe S.trial (fun _ => True) (fun _ t => t = s) (S.sendClosing data) s := by
  refine safeBind (safeWeaken (otherStays other) ?_)
  rintro (_ | _ | _) t _ rfl
  · refine ⟨trivial,?_⟩
    rintro (fault | _) u rfl <;> exact ⟨trivial,rfl⟩
  · rfl
  · rfl

theorem failedStays (e : ErrorHeader) :
    Safe S.trial (fun _ => True) (fun _ t => t = s) (S.sendFailed e) s :=
  closingStays (taggedLength 3 e.code e.message)

theorem warnStays (w : WarnHeader) :
    Safe S.trial (fun _ => True) (fun _ t => t = s) (S.sendWarn w) s :=
  closingStays (taggedLength 2 w.code w.message)

theorem ackEnds (unacked : ¬ s.acked) (unlost : ¬ s.lost) : Safe S.trial (fun _ => True)
    (fun _ t => t.disk = s.disk ∧ t.body = s.body ∧ (t.acked ↔ ¬ t.lost))
    (S.writeEncryptFrameInto [1]) s := by
  unfold writeEncryptFrameInto
  rw [if_neg (by decide)]
  refine ⟨trivial,?_⟩
  rintro nonce t rfl
  have acks : S.Acks (Frame.frame S.cipher S.sessionKey nonce [1]) := ⟨nonce,rfl⟩
  refine ⟨trivial,?_⟩
  rintro (fault | _) u rfl
  · exact ⟨trivial,rfl,rfl,by simp [acks,unacked]⟩
  · exact ⟨trivial,rfl,rfl,by simp [acks,unlost]⟩

theorem answerEnds (before : Fs) {first second : Bool} {e : ErrorHeader} (unacked : ¬ s.acked)
    (unlost : ¬ s.lost) : Safe S.trial (fun _ => True)
    (fun _ t => t.body = s.body ∧ ((¬ t.acked → before.Same t.disk) ↔
      (first = true ∧ second = true ∧ ¬ t.lost) ∨ before.Same s.disk))
    (if first ∧ second then S.writeEncryptFrameInto [1] else S.sendFailed e) s := by
  split
  · rename_i both
    refine safeWeaken (ackEnds unacked unlost) ?_
    intro _ t _ ended
    obtain ⟨disk,body,acked⟩ := ended
    refine ⟨body,?_⟩
    rw [disk]
    simp only [both.1,both.2,true_and]
    by_cases lost : t.lost <;> simp [acked,lost]
  · rename_i half
    refine safeWeaken (failedStays e) ?_
    rintro _ t _ rfl
    refine ⟨rfl,?_⟩
    have notBoth : ¬ (first = true ∧ second = true ∧ ¬ t.lost) := fun all => half ⟨all.1,all.2.1⟩
    simp [unacked,notBoth]

structure Admits (S : Session) (disk : Fs) (key : Bytes) : Prop where
  listed : S.enableClientWhitelist = false → disk.get (S.authPath key) ≠ none
  isDir : disk.get (S.authPath key) ≠ none → disk.isDir (S.authPath key) = true
  missing : disk.get (S.storagePath key) = none ∨ disk.get (S.authPath key) = none

def CreatesWhole (S : Session) (disk : Fs) (key : Bytes) (first second : Fate) (lost : Prop) : Prop :=
  let made := disk.createDirAllBy first (S.authPath key)
  let stored := made.2.createDirAllBy second (S.storagePath key)
  (made.1 = true ∧ stored.1 = true ∧ ¬ lost) ∨
    (¬ disk.Adds first (S.authPath key) ∧ ¬ made.2.Adds second (S.storagePath key))

def RenamesWhole (S : Session) (disk : Fs) (old new : Bytes) (first second : Fate) (lost : Prop) :
    Prop :=
  let moved := disk.renameBy first (S.authPath old) (S.authPath new)
  let stored := moved.2.renameBy second (S.storagePath old) (S.storagePath new)
  (moved.1 = true ∧ stored.1 = true ∧ ¬ lost) ∨
    (¬ disk.Moves first (S.authPath old) (S.authPath new) ∧
      ¬ moved.2.Moves second (S.storagePath old) (S.storagePath new))

variable {disk : Fs} {body : Option Bytes} {first second : Fate}

def fresh (disk : Fs) (body : Option Bytes) (first second : Fate) : Trial :=
  ⟨disk,[first,second],body,False,False⟩

theorem renameEnds (old new : Bytes) : Safe S.trial (fun _ => True)
    (fun _ t => t.body = body ∧ ((¬ t.acked → disk.Same t.disk) ↔
      (disk.get (S.storagePath old) ≠ none → S.RenamesWhole disk old new first second t.lost)))
    (S.renameKeyDirs old new) (fresh disk body first second) := by
  unfold renameKeyDirs
  refine ⟨trivial,?_⟩
  rintro stored t ⟨rfl,rfl⟩
  simp only [fresh,Fs.exec]
  cases there : disk.get (S.storagePath old) with
  | none => exact ⟨trivial,rfl,by simp [Fs.Same]⟩
  | some node =>
    refine ⟨trivial,?_⟩
    rintro keyMoved t ⟨fate,rest,fates,rfl,rfl⟩
    obtain ⟨rfl,rfl⟩ := List.cons.inj fates
    refine ⟨trivial,?_⟩
    rintro storageMoved t ⟨fate,rest,fates,rfl,rfl⟩
    obtain ⟨rfl,rfl⟩ := List.cons.inj fates
    refine safeWeaken (answerEnds disk id id) ?_
    rintro _ t _ ⟨kept,whole⟩
    refine ⟨kept,whole.trans ?_⟩
    simp only [ne_eq,reduceCtorEq,not_false_eq_true,true_implies]
    exact or_congr Iff.rfl (renamedBoth disk first second old new)

theorem turnedDown {p : Party Unit} {t : Trial} {whole : Trial → Prop} (vacuous : ∀ u, whole u)
    (start : t = fresh disk body first second)
    (stays : Safe S.trial (fun _ => True) (fun _ u => u = t) p t) : Safe S.trial (fun _ => True)
    (fun _ u => u.body = body ∧ ((¬ u.acked → disk.Same u.disk) ↔ whole u)) p t := by
  subst start
  refine safeWeaken stays ?_
  rintro _ u _ rfl
  exact ⟨rfl,by simp [Fs.Same,fresh,vacuous]⟩

theorem madeEnds (key : Bytes) {whole : Trial → Prop} (let_ : ∀ t, whole t ↔
    S.CreatesWhole disk key first second t.lost) : Safe S.trial (fun _ => True)
    (fun _ t => t.body = body ∧ ((¬ t.acked → disk.Same t.disk) ↔ whole t)) (do
      let keyMade ← fs (.createDirAll (S.authPath key))
      let storageMade ← fs (.createDirAll (S.storagePath key))
      if keyMade ∧ storageMade then S.writeEncryptFrameInto [1]
      else S.sendFailed ⟨500,"Failed to create auth key or user storage directory, try again later"⟩)
    (fresh disk body first second) := by
  refine ⟨trivial,?_⟩
  rintro keyMade t ⟨fate,rest,fates,rfl,rfl⟩
  obtain ⟨rfl,rfl⟩ := List.cons.inj fates
  refine ⟨trivial,?_⟩
  rintro storageMade t ⟨fate,rest,fates,rfl,rfl⟩
  obtain ⟨rfl,rfl⟩ := List.cons.inj fates
  refine safeWeaken (answerEnds disk id id) ?_
  rintro _ t _ ⟨kept,ends⟩
  refine ⟨kept,(ends.trans ?_).trans (let_ t).symm⟩
  exact or_congr Iff.rfl (Fs.createdBoth disk first second (S.authPath key) (S.storagePath key))

theorem createEnds (key : Bytes) : Safe S.trial (fun _ => True)
    (fun _ t => t.body = body ∧ ((¬ t.acked → disk.Same t.disk) ↔
      (S.Admits disk key → S.CreatesWhole disk key first second t.lost)))
    (S.createKeyDirs key) (fresh disk body first second) := by
  unfold createKeyDirs
  apply lookTried (.exists_ _) trivial
  apply lookTried (.isDir _) trivial
  split
  · rename_i closed
    refine turnedDown (fun u admits => ?_) rfl (failedStays _)
    simp only [Fs.exec,fresh,Option.isSome_eq_false_iff,Option.isNone_iff_eq_none] at closed
    exact absurd closed.2 (admits.listed closed.1)
  · rename_i let_
    split
    · rename_i file
      refine turnedDown (fun u admits => ?_) rfl (failedStays _)
      simp only [Fs.exec,fresh] at file
      have there : disk.get (S.authPath key) ≠ none := Option.isSome_iff_ne_none.mp file.1
      rw [admits.isDir there] at file
      exact absurd file.2 Bool.noConfusion
    · rename_i dir
      simp only [Fs.exec,fresh,not_and,Bool.not_eq_false] at let_ dir
      have listed : S.enableClientWhitelist = false → disk.get (S.authPath key) ≠ none :=
        fun closed => Option.isSome_iff_ne_none.mp (let_ closed)
      have isDir : disk.get (S.authPath key) ≠ none → disk.isDir (S.authPath key) = true :=
        fun there => dir (Option.isSome_iff_ne_none.mpr there)
      apply lookTried (.exists_ _) trivial
      unfold andExists
      cases stored : disk.get (S.storagePath key) with
      | none =>
        simp only [Fs.exec,fresh,stored]
        exact madeEnds key fun t => imp_iff_right ⟨listed,isDir,.inl stored⟩
      | some node =>
        simp only [Fs.exec,fresh,stored]
        apply lookTried (.exists_ _) trivial
        cases auth : disk.get (S.authPath key) with
        | none =>
          simp only [Fs.exec,auth]
          exact madeEnds key fun t => imp_iff_right ⟨listed,isDir,.inr auth⟩
        | some node =>
          simp only [Fs.exec,auth]
          refine turnedDown (fun u admits => ?_) rfl (warnStays _)
          rcases admits.missing with missing | missing
          · rw [stored] at missing
            contradiction
          · rw [auth] at missing
            contradiction

def Registers (S : Session) (body key : Bytes) : Prop := 128 ≤ body.length ∧
  validateSignature S.ed25519 ((body.drop 64).drop 64) ((body.drop 64).take 64) (body.take 64) = .ok key

def Rotates (S : Session) (body old new : Bytes) : Prop := 160 ≤ body.length ∧
  validateSignature S.ed25519 (((body.drop 64).drop 64).take 32) ((body.drop 64).take 64)
    (body.take 64) = .ok old ∧
  verifyingKey S.ed25519 (((body.drop 64).drop 64).drop 32) = .ok new

structure AuthWhole (S : Session) (flag : UInt8) (disk : Fs) (first second : Fate) (body : Bytes)
    (lost : Prop) : Prop where
  creates : flag = 1 → ∀ key, S.Registers body key → S.Admits disk key →
    S.CreatesWhole disk key first second lost
  renames : flag = 2 → ∀ old new, S.Rotates body old new → disk.get (S.storagePath old) ≠ none →
    S.RenamesWhole disk old new first second lost

theorem untouched {whole : Prop} (vacuous : whole) : (fresh disk body first second).body = body ∧
    ((¬ (fresh disk body first second).acked → disk.Same (fresh disk body first second).disk) ↔
      whole) :=
  ⟨rfl,fun _ => vacuous,fun _ _ _ => rfl⟩

theorem splitEnds {b : Bytes} {mid : Nat} {f : Bytes × Bytes → Party Unit}
    {post : Outcome Unit → Trial → Prop} (beyond : b.length < mid → post .panic s)
    (next : mid ≤ b.length → Safe S.trial (fun _ => True) post (f (b.take mid,b.drop mid)) s) :
    Safe S.trial (fun _ => True) post ((liftM (splitAt b mid) : Party (Bytes × Bytes)) >>= f) s := by
  by_cases inside : mid ≤ b.length
  · rw [splitAtOk inside]
    exact next inside
  · rw [splitAtPanics (by omega)]
    exact ⟨trivial,beyond (by omega)⟩

theorem registerEnds (headerBytes : Bytes) : Safe S.trial (fun _ => True)
    (fun _ t => t.body = body ∧ ((¬ t.acked → disk.Same t.disk) ↔
      ∀ key, S.Registers headerBytes key → S.Admits disk key →
        S.CreatesWhole disk key first second t.lost))
    (S.registerKey headerBytes) (fresh disk body first second) := by
  apply splitEnds
  · exact fun short => untouched fun key names => absurd names.1 (by omega)
  intro _
  apply splitEnds
  · rw [List.length_drop]
    exact fun short => untouched fun key names => absurd names.1 (by omega)
  rw [List.length_drop]
  intro _
  dsimp only
  split
  · rename_i refused
    exact ⟨trivial,untouched fun key names => nomatch refused.symm.trans names.2⟩
  · rename_i e refused
    exact turnedDown (fun _ key names => nomatch refused.symm.trans names.2) rfl (failedStays _)
  · rename_i pubKey valid
    refine safeWeaken (createEnds pubKey) ?_
    rintro _ t _ ⟨kept,ends⟩
    refine ⟨kept,ends.trans ⟨?_,fun all => all pubKey ⟨by omega,valid⟩⟩⟩
    intro whole key names
    cases Outcome.ok.inj (valid.symm.trans names.2)
    exact whole

theorem rotateEnds (headerBytes : Bytes) : Safe S.trial (fun _ => True)
    (fun _ t => t.body = body ∧ ((¬ t.acked → disk.Same t.disk) ↔
      ∀ old new, S.Rotates headerBytes old new → disk.get (S.storagePath old) ≠ none →
        S.RenamesWhole disk old new first second t.lost))
    (S.rotateKey headerBytes) (fresh disk body first second) := by
  apply splitEnds
  · exact fun short => untouched fun old new names => absurd names.1 (by omega)
  intro _
  apply splitEnds
  · rw [List.length_drop]
    exact fun short => untouched fun old new names => absurd names.1 (by omega)
  intro _
  apply splitEnds
  · rw [List.length_drop,List.length_drop]
    exact fun short => untouched fun old new names => absurd names.1 (by omega)
  rw [List.length_drop,List.length_drop]
  intro _
  dsimp only
  split
  · rename_i refused
    exact ⟨trivial,untouched fun old new names => nomatch refused.symm.trans names.2.1⟩
  · rename_i e refused
    exact turnedDown (fun _ old new names => nomatch refused.symm.trans names.2.1) rfl (failedStays _)
  · rename_i oldPubKey valid
    split
    · rename_i refused
      exact ⟨trivial,untouched fun old new names => nomatch refused.symm.trans names.2.2⟩
    · rename_i e refused
      exact ⟨trivial,untouched fun old new names => nomatch refused.symm.trans names.2.2⟩
    · rename_i newPubKey parsed
      refine safeWeaken (renameEnds oldPubKey newPubKey) ?_
      rintro _ t _ ⟨kept,ends⟩
      refine ⟨kept,ends.trans ⟨?_,fun all => all oldPubKey newPubKey ⟨by omega,valid,parsed⟩⟩⟩
      intro whole old new names
      cases Outcome.ok.inj (valid.symm.trans names.2.1)
      cases Outcome.ok.inj (parsed.symm.trans names.2.2)
      exact whole

variable {α β : Type} {whole : Trial → Prop}

theorem staysThen {p : Party α} {f : α → Party β} (held : whole s)
    (stays : Safe S.trial (fun _ => True) (fun _ t => t = s) p s)
    (next : ∀ a, Safe S.trial (fun _ => True) (fun _ => whole) (f a) s) :
    Safe S.trial (fun _ => True) (fun _ => whole) (p >>= f) s := by
  refine safeBind (safeWeaken stays ?_)
  rintro (a | message | _) t _ rfl
  · exact next a
  · exact held
  · exact held

theorem readThen {f : Bytes → Party β} (blank : s.body = none) (held : whole s)
    (next : ∀ data, Safe S.trial (fun _ => True) (fun _ => whole) (f data) {s with body := some data}) :
    Safe S.trial (fun _ => True) (fun _ => whole) (S.readEncryptDataInto >>= f) s := by
  have cleared : {s with body := none} = s := by rw [← blank]
  unfold readEncryptDataInto
  rw [bindAssoc]
  refine staysThen held ?_ ?_
  · refine ⟨trivial,?_⟩
    intro answer t read
    cases answer with
    | error fault =>
      cases read
      cases fault <;> exact ⟨trivial,rfl⟩
    | ok lenBuf =>
      have closed : S.cipher.opened S.sessionKey lenBuf.val = none := by
        unfold Aead.opened
        rw [if_neg (by rw [lenBuf.property]; decide)]
      have step : t = {s with body := S.cipher.opened S.sessionKey lenBuf.val} := read
      rw [closed,cleared] at step
      exact ⟨trivial,step⟩
  · intro ciphertextLen
    split
    · exact ⟨trivial,held⟩
    · refine ⟨trivial,?_⟩
      intro answer t read
      cases answer with
      | error fault =>
        cases read
        exact ⟨trivial,held⟩
      | ok encryptedBuf =>
        have step : t = {s with body := S.cipher.opened S.sessionKey encryptedBuf.val} := read
        rw [step]
        change Safe S.trial (fun _ => True) (fun _ => whole)
          ((liftM (Outcome.ofOption "aead::Error" (S.cipher.opened S.sessionKey encryptedBuf.val)) :
            Party Bytes) >>= f) _
        cases opened : S.cipher.opened S.sessionKey encryptedBuf.val with
        | none =>
          rw [cleared]
          exact ⟨trivial,held⟩
        | some data => exact next data

/- Without an ACK both trees are as they were, exactly when the calls of the body stood or
fell together. -/
def Ends (S : Session) (flag : UInt8) (disk : Fs) (first second : Fate) (t : Trial) : Prop :=
  (¬ t.acked → disk.Same t.disk) ↔
    ∀ body, t.body = some body → S.AuthWhole flag disk first second body t.lost

theorem authEnds (flag : UInt8) : Safe S.trial (fun _ => True)
    (fun _ => S.Ends flag disk first second) (S.handleAuthKeys flag) (fresh disk none first second) := by
  have idle : S.Ends flag disk first second (fresh disk none first second) :=
    (untouched fun body read => nomatch read).2
  unfold handleAuthKeys
  refine staysThen idle ⟨trivial,?_⟩ ?_
  · rintro random t rfl
    exact ⟨trivial,rfl⟩
  intro random
  refine staysThen idle (otherStays ?_) ?_
  · rw [S.hashes.sha512Length]
    decide
  intro _
  split
  · rename_i registers
    subst registers
    refine readThen rfl idle ?_
    intro data
    refine safeWeaken (registerEnds data) ?_
    rintro _ t _ ⟨kept,ends⟩
    refine ends.trans ⟨?_,?_⟩
    · intro whole body read
      cases Option.some.inj (kept.symm.trans read)
      exact ⟨fun _ => whole,nofun⟩
    · exact fun all => (all data kept).creates rfl
  · split
    · rename_i rotates
      subst rotates
      refine readThen rfl idle ?_
      intro data
      refine safeWeaken (rotateEnds data) ?_
      rintro _ t _ ⟨kept,ends⟩
      refine ends.trans ⟨?_,?_⟩
      · intro whole body read
        cases Option.some.inj (kept.symm.trans read)
        exact ⟨nofun,fun _ => whole⟩
      · exact fun all => (all data kept).renames rfl
    · refine safeWeaken (failedStays _) ?_
      rintro _ t _ rfl
      exact idle

theorem framePassed {data : Bytes} (other : data.length ≠ 1) (small : data.length ≤ Frame.u32Max)
    (nonce : Nonce) : Reaches S.trial (S.writeEncryptFrameInto data) s (.done (.ok ())) s := by
  have unacked : ¬ S.Acks (Frame.frame S.cipher S.sessionKey nonce data) := frameNoAck other
  have sent : S.trial s (.send (Frame.frame S.cipher S.sessionKey nonce data)) (.ok ()) s := by
    simp only [trial,unacked,or_false]
  exact frameReached small nonce rfl sent

theorem renamesTried {old new : Bytes} (nonce : Nonce) :
    let moved := disk.renameBy first (S.authPath old) (S.authPath new)
    let stored := moved.2.renameBy second (S.storagePath old) (S.storagePath new)
    disk.get (S.storagePath old) ≠ none → ¬ (moved.1 = true ∧ stored.1 = true) →
    Reaches S.trial (S.renameKeyDirs old new) (fresh disk body first second) (.done (.ok ()))
      ⟨stored.2,[],body,False,False⟩ := by
  intro moved stored there half
  obtain ⟨node,found⟩ := Option.ne_none_iff_exists'.mp there
  have looked : S.trial (fresh disk body first second) (.here (.fs (.exists_ (S.storagePath old))))
      true (fresh disk body first second) := by
    simp only [trial,fresh,Fs.exec,found,Option.isSome_some,and_self]
  have authTried : S.trial (fresh disk body first second)
      (.here (.fs (.rename (S.authPath old) (S.authPath new)))) moved.1
      ⟨moved.2,[second],body,False,False⟩ := ⟨first,[second],rfl,rfl,rfl⟩
  have storageTried : S.trial ⟨moved.2,[second],body,False,False⟩
      (.here (.fs (.rename (S.storagePath old) (S.storagePath new)))) stored.1
      ⟨stored.2,[],body,False,False⟩ := ⟨second,[],rfl,rfl,rfl⟩
  unfold renameKeyDirs
  refine .answer looked (.answer authTried (.answer storageTried ?_))
  change Reaches S.trial (if moved.1 = true ∧ stored.1 = true then S.writeEncryptFrameInto [1]
    else S.sendFailed ⟨500,"Failed to rotate keys, try again later"⟩) _ _ _
  rw [if_neg half]
  refine reachesThen (framePassed (taggedLength 3 _ _) (by decide +kernel) nonce) ?_
  exact shutdownReached rfl

theorem rotatesTo {headerBytes old new : Bytes} (names : S.Rotates headerBytes old new) :
    S.rotateKey headerBytes = S.renameKeyDirs old new := by
  obtain ⟨long,valid,parsed⟩ := names
  have one : splitAt headerBytes 64 = .ok (headerBytes.take 64,headerBytes.drop 64) :=
    splitAtOk (by omega)
  have two : splitAt (headerBytes.drop 64) 64 =
      .ok ((headerBytes.drop 64).take 64,(headerBytes.drop 64).drop 64) :=
    splitAtOk (by rw [List.length_drop]; omega)
  have three : splitAt ((headerBytes.drop 64).drop 64) 32 =
      .ok (((headerBytes.drop 64).drop 64).take 32,((headerBytes.drop 64).drop 64).drop 32) :=
    splitAtOk (by rw [List.length_drop,List.length_drop]; omega)
  unfold rotateKey
  simp only [one,two,three,Program.liftDone,Program.bindDone,valid,parsed]

theorem rotationBegins {headerBytes old new : Bytes} {q : Party Unit} {t : Trial}
    (names : S.Rotates headerBytes old new)
    (small : nonceLen + headerBytes.length + tagLen ≤ Frame.maxFrameLength) (nonce : Nonce)
    (random : {b : Bytes // b.length = 64})
    (renames : Reaches S.trial (S.renameKeyDirs old new) (fresh disk (some headerBytes) first second) q t) :
    Reaches S.trial (S.handleAuthKeys 2) (fresh disk none first second) q t := by
  have rotated : Reaches S.trial (S.rotateKey headerBytes) (fresh disk (some headerBytes) first second)
      q t := by
    rw [rotatesTo names]
    exact renames
  have drawn : Reaches S.trial (draw 64) (fresh disk none first second) (.done (.ok random))
      (fresh disk none first second) := hereReached rfl
  have issued : Reaches S.trial (S.writeEncryptFrameInto (S.hashes.sha512 random.val))
      (fresh disk none first second) (.done (.ok ())) (fresh disk none first second) := by
    apply framePassed _ _ nonce
    · rw [S.hashes.sha512Length]
      decide
    · rw [S.hashes.sha512Length]
      decide
  have boxed : S.trial {fresh disk none first second with
        body := S.cipher.opened S.sessionKey (Frame.be32 (nonceLen + headerBytes.length + tagLen))}
      (.recv (nonceLen + headerBytes.length + tagLen))
      (.ok ⟨S.cipher.sealed S.sessionKey nonce headerBytes,
        S.cipher.sealedLength S.sessionKey nonce headerBytes⟩)
      (fresh disk (some headerBytes) first second) := by
    simp only [trial,S.cipher.openedSealed S.sessionKey nonce headerBytes,fresh]
  exact reachesThen drawn (reachesThen issued (reachesThen (bodyReached nonce small rfl boxed) rotated))

theorem rotationTried (disk : Fs) (first second : Fate) {headerBytes old new : Bytes}
    (names : S.Rotates headerBytes old new)
    (small : nonceLen + headerBytes.length + tagLen ≤ Frame.maxFrameLength) (nonce : Nonce)
    (random : {b : Bytes // b.length = 64}) :
    let moved := disk.renameBy first (S.authPath old) (S.authPath new)
    let stored := moved.2.renameBy second (S.storagePath old) (S.storagePath new)
    disk.get (S.storagePath old) ≠ none → ¬ (moved.1 = true ∧ stored.1 = true) →
    Reaches S.trial (S.handleAuthKeys 2) (fresh disk none first second) (.done (.ok ()))
      ⟨stored.2,[],some headerBytes,False,False⟩ := by
  intro moved stored there half
  exact rotationBegins names small nonce random (renamesTried nonce there half)

end Session

namespace AuthTrees
open Session Whitelist

/- Auth is all or nothing on both trees without an ACK. -/
theorem wholeExactly (S : Session) (flag : UInt8) (disk : Fs) (first second : Fate)
    {result : Outcome Unit} {t : Trial}
    (ended : Reaches S.trial (S.handleAuthKeys flag) (fresh disk none first second) (.done result) t) :
    (¬ t.acked → disk.Same t.disk) ↔
      ∀ body, t.body = some body → S.AuthWhole flag disk first second body t.lost :=
  (safeReaches ended (authEnds flag)).2

def oldKey : Bytes := List.replicate 32 9
def newKey : Bytes := List.replicate 32 8

def trees : Fs :=
  ⟨[(sampleServer.storagePath newKey ++ ["dummy.file"],.file [0]),
    (sampleServer.storagePath newKey,.dir),(sampleServer.storagePath oldKey,.dir),
    (sampleServer.authPath newKey,.dir),(sampleServer.authPath oldKey,.dir),
    (sampleServer.getStorageDir,.dir),(sampleServer.getAuthorizedClientDir,.dir),
    (["home",".rdrive"],.dir),(["home"],.dir)]⟩

theorem sampleRotation : sampleServer.Rotates Replay.sampleBody oldKey newKey :=
  ⟨by decide +kernel,by decide +kernel,by decide +kernel⟩

/- authorized_keys moved, storage did not, and the client was told to try again. -/
theorem halfRotated : ¬ ∀ (S : Session) (flag : UInt8) (disk : Fs) (first second : Fate)
    (result : Outcome Unit) (t : Trial) (body : Bytes),
    (flag = 1 ∧ ∃ key, S.Registers body key) ∨ (flag = 2 ∧ ∃ old new, S.Rotates body old new) →
    Reaches S.trial (S.handleAuthKeys flag) (fresh disk none first second) (.done result) t →
    t.body = some body → ¬ t.acked → disk.Same t.disk := by
  intro always
  have ended := rotationTried trees .works .works sampleRotation (by decide +kernel)
    ⟨List.replicate 12 0,rfl⟩ ⟨List.replicate 64 0,rfl⟩ (by decide +kernel) (by decide +kernel)
  have same := always _ 2 _ _ _ _ _ _ (.inr ⟨rfl,_,_,sampleRotation⟩) ended rfl id
  exact absurd (same (sampleServer.authPath oldKey)) (by decide +kernel)

theorem noneRotated : ∃ t, Reaches sampleServer.trial (sampleServer.handleAuthKeys 2)
    (fresh trees none (.fails 0) (.fails 0)) (.done (.ok ())) t ∧ (¬ t.acked → trees.Same t.disk) := by
  have ended := rotationTried trees (.fails 0) (.fails 0) sampleRotation (by decide +kernel)
    ⟨List.replicate 12 0,rfl⟩ ⟨List.replicate 64 0,rfl⟩ (by decide +kernel) (by decide)
  refine ⟨_,ended,(wholeExactly sampleServer 2 trees (.fails 0) (.fails 0) ended).mpr ?_⟩
  intro body read
  refine ⟨nofun,fun _ old new _ _ => .inr ⟨?_,?_⟩⟩
  · exact fun moves => nomatch moves.1
  · exact fun moves => nomatch moves.1

end AuthTrees
end RDrive
