import RDrive.Transfer

/-! One handler against anyone: client, clock, limiter and locks answer as they
like, and a write to an open file that fails may leave any part of its bytes. Only the
disk is what it is. An observer takes notes of the calls. -/
namespace RDrive
open Crypto Party Program Bytes

/- What is left of a call that is cut off or fails halfway: a part of its bytes, or of the
directories above. -/
def Torn (disk : Fs) : (op : Fs.Op) → op.Ret → Fs → Prop
  | .append p b, false, after => ∃ k, after = (disk.append p (b.take k)).2
  | .write p b, false, after => ∃ k, after = (disk.write p (b.take k)).2
  | .createDirAll p, false, after => ∃ k, after = (disk.createDirAll (p.take k)).2
  | _, _, _ => False

def Appends : Fs.Op → Prop
  | .append _ _ => True
  | _ => False

/- A handler's disk: of its calls only the writes to an open file are torn. -/
def Answers (disk : Fs) (op : Fs.Op) (answer : op.Ret) (after : Fs) : Prop :=
  answer = (disk.exec op).1 ∧ after = (disk.exec op).2 ∨ Appends op ∧ Torn disk op answer after

structure Seen (G : Type) where
  disk : Fs
  noted : G

abbrev Note (G : Type) := G → (c : (Port HostSig).Call) → (Port HostSig).Ret c → G

def alone {G : Type} (note : Note G) : Env (Port HostSig) (Seen G) := fun s c r after =>
  after.noted = note s.noted c r ∧
    match c, r with
    | .here (.fs op), answer => Answers s.disk op answer after.disk
    | _, _ => after.disk = s.disk

def OffDisk (c : (Port HostSig).Call) : Prop := ∀ op, c ≠ .here (.fs op)

def Quiet {G : Type} (note : Note G) (c : (Port HostSig).Call) : Prop :=
  OffDisk c ∧ ∀ g r, note g c r = g

section
variable {G α β : Type} {note : Note G} {allowed : (Port HostSig).Call → Prop} {inv : Seen G → Prop}
  {s : Seen G}

theorem confinedHere (c : HostCall) (among : allowed (.here c)) : Confined allowed (here c) :=
  ⟨among,fun _ => trivial⟩

theorem confinedLift (x : Outcome α) : Confined allowed (liftM x : Party α) := trivial

theorem liftThen {x : Outcome α} {f : α → Party β} (later : ∀ a, x = .ok a → Confined allowed (f a)) :
    Confined allowed ((liftM x : Party α) >>= f) := by
  cases x with
  | ok a => exact later a rfl
  | err message => trivial
  | panic => trivial

theorem offDiskStep {after : Seen G} {c : (Port HostSig).Call} {r : (Port HostSig).Ret c}
    (off : OffDisk c) (answered : alone note s c r after) :
    after.disk = s.disk := by
  obtain ⟨-,kept⟩ := answered
  split at kept
  · exact absurd rfl (off _)
  · exact kept

theorem quietSame {after : Seen G} {c : (Port HostSig).Call} {r : (Port HostSig).Ret c}
    (quiet : Quiet note c) (answered : alone note s c r after) : after = s := by
  have disk := offDiskStep quiet.1 answered
  have noted := answered.1.trans (quiet.2 s.noted r)
  cases after
  cases s
  simp_all

theorem hereSafe {σ : Type} {env : Env (Port HostSig) σ} {inv : σ → Prop} {s : σ} {c : HostCall}
    {f : HostSig.Ret c → Party β} {post : Outcome β → σ → Prop} (held : inv s)
    (each : ∀ r after, env s (.here c) r after → Safe env inv post (f r) after) :
    Safe env inv post (here c >>= f) s := ⟨held,each⟩

theorem hereReached {σ : Type} {env : Env (Port HostSig) σ} {s after : σ} {c : HostCall}
    {r : HostSig.Ret c} (answered : env s (.here c) r after) :
    Reaches env (here c) s (.done (.ok r)) after := .answer answered (.here _ _)

theorem frameReached {S : Session} {σ : Type} {env : Env (Port HostSig) σ} {s middle t : σ}
    {data : Bytes} (small : data.length ≤ Frame.u32Max) (nonce : Nonce)
    (drawn : env s (.here (.draw nonceLen)) nonce middle)
    (sent : env middle (.send (Frame.frame S.cipher S.sessionKey nonce data)) (.ok ()) t) :
    Reaches env (S.writeEncryptFrameInto data) s (.done (.ok ())) t := by
  unfold Session.writeEncryptFrameInto
  rw [if_neg (by omega)]
  exact .answer drawn (.answer sent (.here _ _))

theorem shutdownReached {σ : Type} {env : Env (Port HostSig) σ} {s after : σ}
    (answered : env s (.here .shutdown) (.ok ()) after) :
    Reaches env shutdown s (.done (.ok ())) after := .answer answered (.here _ _)

theorem fsReached {σ : Type} {env : Env (Port HostSig) σ} {s after : σ} {op : Fs.Op}
    {f : op.Ret → Party Unit} {made : op.Ret} (answered : env s (.here (.fs op)) made after)
    (next : f made = .done (.ok ())) : Reaches env (fs op >>= f) s (.done (.ok ())) after := by
  refine reachesTrans (reachesBind (hereReached answered)) ?_
  change Reaches env (f made) after (.done (.ok ())) after
  rw [next]
  exact .here _ _

theorem fsSafe {op : Fs.Op} {f : op.Ret → Party β} {post : Outcome β → Seen G → Prop} (held : inv s)
    (each : ∀ answer disk, Answers s.disk op answer disk →
      Safe (alone note) inv post (f answer) ⟨disk,note s.noted (.here (.fs op)) answer⟩) :
    Safe (alone note) inv post (fs op >>= f) s := by
  refine ⟨held,?_⟩
  rintro answer ⟨disk,noted⟩ ⟨rfl,answers⟩
  exact each answer disk answers

def Looks : Fs.Op → Prop
  | .exists_ _ => True
  | .isDir _ => True
  | .size _ => True
  | .countDirs _ => True
  | _ => False

theorem lookAnswer {op : Fs.Op} {disk after : Fs} {answer : op.Ret} (looks : Looks op)
    (answered : Answers disk op answer after) : answer = (disk.exec op).1 ∧ after = disk := by
  rcases answered with ⟨rfl,rfl⟩ | torn
  · cases op <;> first | exact ⟨rfl,rfl⟩ | exact looks.elim
  · cases op <;> first | exact torn.1.elim | exact looks.elim

theorem quietKeeps {p : Party α} (held : inv s) (quiet : Confined (Quiet note) p) :
    Safe (alone note) inv (Returns fun _ after => after = s) p s := by
  induction p with
  | done result =>
    cases result with
    | ok a => exact ⟨held,rfl⟩
    | err message => exact ⟨held,trivial⟩
    | panic => exact ⟨held,trivial⟩
  | call c next ih =>
    refine ⟨held,fun r after answered => ?_⟩
    cases quietSame quiet.1 answered
    exact ih r (quiet.2 r)

theorem quietSafe {p : Party α} (held : inv s) (quiet : Confined (Quiet note) p) :
    Safe (alone note) inv (Returns fun _ _ => True) p s :=
  safeWeaken (quietKeeps held quiet) fun result _ _ _ => by cases result <;> trivial

theorem sendConfined {b : Bytes} (sending : allowed (.send b)) : Confined allowed (send b) := by
  refine ⟨sending,fun answer => ?_⟩
  cases answer <;> trivial

theorem confinedFrame {S : Session} {data : Bytes} (drawing : allowed (.here (.draw nonceLen)))
    (sending : ∀ nonce : Nonce, allowed (.send (Frame.frame S.cipher S.sessionKey nonce data))) :
    Confined allowed (S.writeEncryptFrameInto data) := by
  unfold Session.writeEncryptFrameInto
  split
  · trivial
  · exact confinedBind (confinedHere _ drawing) fun nonce => sendConfined (sending nonce)

theorem shutdownConfined (closing : allowed (.here .shutdown)) : Confined allowed shutdown := by
  refine confinedBind (confinedHere _ closing) fun answer => ?_
  cases answer <;> trivial

theorem confinedClosing {S : Session} {data : Bytes} (drawing : allowed (.here (.draw nonceLen)))
    (sending : ∀ nonce : Nonce, allowed (.send (Frame.frame S.cipher S.sessionKey nonce data)))
    (closing : allowed (.here .shutdown)) : Confined allowed (S.sendClosing data) :=
  confinedBind (confinedFrame drawing sending) fun _ => shutdownConfined closing

theorem Session.frameOpens {S : Session} {one other : Nonce} {a b : Bytes}
    (same : Frame.frame S.cipher S.sessionKey one a = Frame.frame S.cipher S.sessionKey other b) :
    a = b := by
  have sealed_ := (List.append_inj same (by rw [Frame.be32Length,Frame.be32Length])).2
  have opens := S.cipher.openedSealed S.sessionKey one a
  rw [sealed_,S.cipher.openedSealed] at opens
  exact (Option.some.inj opens).symm

theorem readConfined {S : Session} (receiving : ∀ n, allowed (.recv n)) :
    Confined allowed S.readEncryptDataInto := by
  have length : Confined allowed Session.readFrameLength := by
    refine ⟨receiving 4,fun answer => ?_⟩
    cases answer with
    | error fault => cases fault <;> trivial
    | ok lenBuf => exact confinedLift _
  unfold Session.readEncryptDataInto
  refine confinedBind length fun len => ?_
  split
  · trivial
  · refine ⟨receiving len,fun answer => ?_⟩
    cases answer with
    | error fault => trivial
    | ok box => exact confinedLift _

theorem frameOffDisk (S : Session) (data : Bytes) : Confined OffDisk (S.writeEncryptFrameInto data) :=
  confinedFrame nofun fun _ => nofun

theorem readsOffDisk (S : Session) : Confined OffDisk S.readEncryptDataInto :=
  readConfined fun _ => nofun

section
variable {path : Path} (appending : ∀ b, allowed (.here (.fs (.append path b))))
include appending

theorem appendConfined (b : Bytes) : Confined allowed (append path b) := by
  refine confinedBind (confinedHere _ (appending b)) fun made => ?_
  cases made <;> trivial

theorem bufWriteConfined (pending data : Bytes) :
    Confined allowed (Session.bufWrite path pending data) := by
  unfold Session.bufWrite
  split
  · refine confinedBind (appendConfined appending _) fun _ => ?_
    split
    · exact confinedBind (appendConfined appending _) fun _ => trivial
    · trivial
  · split
    · exact confinedBind (appendConfined appending _) fun _ => trivial
    · trivial

theorem bufFlushConfined (pending : Bytes) : Confined allowed (Session.bufFlush path pending) := by
  unfold Session.bufFlush
  split
  · trivial
  · exact appendConfined appending _

theorem receiveConfined {S : Session} (receiving : ∀ n, allowed (.recv n)) (text : String)
    {fileSize received : Nat} {decBuf hashed pending : Bytes} :
    Confined allowed (S.receiveLoop text path fileSize decBuf hashed pending received) := by
  induction left : fileSize - received using Nat.strong_induction_on
    generalizing received decBuf hashed pending with
  | _ m ih =>
    rw [Session.receiveLoop]
    split
    · refine ⟨receiving _,fun answer => ?_⟩
      cases answer with
      | error fault => cases fault <;> trivial
      | ok encBuf =>
        simp only []
        split
        · trivial
        · trivial
        · rename_i buf decLen opened
          have long := (Session.opensWhole opened).1
          have asked := encBuf.property
          have chunk : 0 < readChunkSize := by decide
          refine confinedBind (confinedLift _) fun dec => ?_
          refine confinedBind (bufWriteConfined appending _ _) fun after => ?_
          exact ih (fileSize - (received + decLen)) (by omega) rfl
    · trivial

end

theorem sendLoopBoxes {S : Session} (drawing : allowed (.here (.draw nonceLen)))
    (chunks : List Bytes) {encBuf : Bytes}
    (sending : ∀ (nonce : Nonce) plain, encBuf.length = nonceLen + plain.length + tagLen →
      allowed (.send (S.cipher.sealed S.sessionKey nonce plain))) :
    Confined allowed (S.sendLoop encBuf chunks) := by
  induction chunks generalizing encBuf with
  | nil => trivial
  | cons plain rest ih =>
    unfold Session.sendLoop
    refine confinedBind (confinedHere _ drawing) fun nonce => ?_
    refine liftThen fun found filled => ?_
    obtain ⟨after,n⟩ := found
    obtain ⟨size,rfl,rfl⟩ := encryptFilled filled
    have whole := S.cipher.sealedLength S.sessionKey nonce plain
    refine liftThen fun chunk cut => ?_
    have chunk_ : chunk = S.cipher.sealed S.sessionKey nonce plain := by
      rw [(sliceParts cut).1,List.drop_zero,← whole,List.take_length]
    subst chunk_
    refine confinedBind (sendConfined (sending nonce plain size)) fun _ => ih fun other data fits => ?_
    exact sending other data (size.trans (whole.symm.trans fits))

theorem sendLoopConfined {S : Session} (drawing : allowed (.here (.draw nonceLen)))
    (sending : ∀ b, b ≠ [] → allowed (.send b)) (chunks : List Bytes) (encBuf : Bytes) :
    Confined allowed (S.sendLoop encBuf chunks) := by
  refine sendLoopBoxes drawing chunks fun nonce plain _ => sending _ ?_
  have size := S.cipher.sealedLength S.sessionKey nonce plain
  intro empty
  rw [empty,List.length_nil] at size
  unfold nonceLen at size
  omega

theorem closeConfined {headers : Header.DownloadHeader} {arc : FileLock.Arc} {metadata : MetadataFile}
    (flushing : allowed (.send [])) (closing : allowed (.here .shutdown))
    (dropping : allowed (.here (.dropGuard .download arc)))
    (releasing : allowed (.here (.releaseFileLock headers.fileId)))
    (logging : allowed (.here (.logDownload metadata.fileSize.toNat))) :
    Confined allowed (Session.closeDownload headers arc metadata) := by
  refine confinedBind (sendConfined flushing) fun _ => ?_
  refine confinedBind (shutdownConfined closing) fun _ => ?_
  refine confinedBind (confinedHere _ dropping) fun _ => ?_
  exact confinedBind (confinedHere _ releasing) fun _ => confinedHere _ logging

section
/- A file that an append leaves longer by its bytes: what the buffered writes and the
receive loop then leave of it. -/
variable {σ : Type} {env : Env (Port HostSig) σ} {inv : σ → Prop} {path : Path}
  (Fills : Bytes → σ → Prop) (kept : ∀ b w, Fills b w → inv w)
  (appends : ∀ old w b, Fills old w →
    Safe env inv (Returns fun _ => Fills (old ++ b)) (append path b) w)
include kept appends

theorem bufWriteFills {w : σ} {written pending data : Bytes} (filling : Fills written w) :
    Safe env inv (Returns fun after w => ∃ written', Fills written' w ∧
      written' ++ after = written ++ pending ++ data) (Session.bufWrite path pending data) w := by
  unfold Session.bufWrite
  split
  · refine safeThen (appends _ _ _ filling) ?_
    intro _ t _ flushed
    split
    · refine safeThen (appends _ _ _ flushed) ?_
      intro _ u held direct
      exact ⟨held,_,direct,by simp⟩
    · exact ⟨kept _ _ flushed,_,flushed,rfl⟩
  · split
    · rename_i small large
      have empty : pending = [] := by
        apply List.eq_nil_of_length_eq_zero
        omega
      subst empty
      refine safeThen (appends _ _ _ filling) ?_
      intro _ t held direct
      exact ⟨held,_,direct,by simp⟩
    · exact ⟨kept _ _ filling,_,filling,by simp⟩

theorem bufFlushFills {w : σ} {written pending : Bytes} (filling : Fills written w) :
    Safe env inv (Returns fun _ => Fills (written ++ pending)) (Session.bufFlush path pending) w := by
  unfold Session.bufFlush
  split
  · rename_i empty
    subst empty
    rw [List.append_nil]
    exact ⟨kept _ _ filling,filling⟩
  · exact appends _ _ _ filling

end

theorem decryptOpens {A : Cipher} {key input output buf dec : Bytes} {n : Nat}
    (decrypted : decryptInto A input output key = .ok (buf,n))
    (cut : slice buf 0 n = .ok dec) : A.opened key input = some dec := by
  obtain ⟨size,long⟩ := Session.opensWhole decrypted
  have room : input.length - nonceLen - tagLen ≤ output.length := by
    unfold decryptInto at decrypted
    rw [if_neg (by omega)] at decrypted
    dsimp only at decrypted
    split at decrypted <;> try contradiction
    omega
  rw [decryptFits long room] at decrypted
  split at decrypted <;> try contradiction
  rename_i text opened
  simp only [Outcome.ok.injEq,Prod.mk.injEq] at decrypted
  obtain ⟨rfl,rfl⟩ := decrypted
  rw [opened,(sliceParts cut).1]
  simp

def Session.heard (S : Session) {n : Nat} (answer : (Port HostSig).Ret (.recv n)) : Bytes :=
  match answer with
  | .ok box => (S.cipher.opened S.sessionKey box.val).getD []
  | .error _ => []

section
variable {σ : Type} {env : Env (Port HostSig) σ} {inv : σ → Prop} {path : Path} {S : Session}

theorem receiveTold (Fills : Bytes → Bytes → σ → Prop) (kept : ∀ told b w, Fills told b w → inv w)
    (appends : ∀ told old w b, Fills told old w →
      Safe env inv (Returns fun _ => Fills told (old ++ b)) (append path b) w)
    (reads : ∀ told written w n r after, Fills told written w → env w (.recv n) r after →
      Fills (told ++ S.heard r) written after) (text : String) {w : σ}
    {fileSize received : Nat} {decBuf hashed pending written : Bytes} (filling : Fills hashed written w)
    (joined : written ++ pending = hashed) (size : hashed.length = received)
    (bounded : received ≤ fileSize) :
    Safe env inv (Returns fun found w => (∃ written, Fills found.hashed written w ∧
        written ++ found.pending = found.hashed) ∧ found.hashed.length = fileSize)
      (S.receiveLoop text path fileSize decBuf hashed pending received) w := by
  induction left : fileSize - received using Nat.strong_induction_on
    generalizing received decBuf hashed pending written w with
  | _ m ih =>
    rw [Session.receiveLoop]
    split
    · rename_i more
      refine ⟨kept _ _ _ filling,?_⟩
      intro answer after answered
      have filling := reads _ _ _ _ _ _ filling answered
      cases answer with
      | error fault =>
        cases fault <;> exact ⟨kept _ _ _ filling,trivial⟩
      | ok encBuf =>
        simp only []
        split
        · exact ⟨kept _ _ _ filling,trivial⟩
        · exact ⟨kept _ _ _ filling,trivial⟩
        · rename_i buf decLen opened
          have long := (Session.opensWhole opened).1
          have asked := encBuf.property
          refine safeThen (safeLift (fun dec t => Fills (hashed ++ dec) written t ∧
            dec.length = decLen) (kept _ _ _ filling) fun dec cut => ⟨?_,?_⟩) ?_
          · have told : S.heard (n := encBuf.val.length) (.ok ⟨encBuf.val,rfl⟩) = dec := by
              simp only [Session.heard,decryptOpens opened cut,Option.getD_some]
            rw [← told]
            exact filling
          · exact (sliceParts cut).2
          · rintro dec t _ ⟨filling,cut⟩
            refine safeThen (bufWriteFills (Fills (hashed ++ dec)) (kept _) (appends _) filling) ?_
            rintro after u _ ⟨written',filled,rejoined⟩
            have chunk : 0 < readChunkSize := by decide
            refine ih (fileSize - (received + decLen)) (by omega) filled ?_ ?_ (by omega) rfl
            · rw [rejoined,joined]
            · rw [List.length_append,size,cut]
    · exact ⟨kept _ _ _ filling,⟨_,filling,joined⟩,by simp only [size]; omega⟩

theorem receiveFills (Fills : Bytes → σ → Prop) (kept : ∀ b w, Fills b w → inv w)
    (appends : ∀ old w b, Fills old w →
      Safe env inv (Returns fun _ => Fills (old ++ b)) (append path b) w)
    (reads : ∀ written w n r after, Fills written w → env w (.recv n) r after → Fills written after)
    (text : String) {w : σ} {fileSize received : Nat} {decBuf hashed pending written : Bytes}
    (filling : Fills written w) (joined : written ++ pending = hashed) (size : hashed.length = received)
    (bounded : received ≤ fileSize) :
    Safe env inv (Returns fun found w => (∃ written, Fills written w ∧
        written ++ found.pending = found.hashed) ∧ found.hashed.length = fileSize)
      (S.receiveLoop text path fileSize decBuf hashed pending received) w :=
  receiveTold (fun _ => Fills) (fun _ => kept) (fun _ => appends) (fun _ => reads) text filling joined size
    bounded

end

theorem hostAnswers (h : Host) (c : HostCall) : match c, (Host.handle h c).1 with
    | .fs op, answer => Answers h.disk op answer (Host.handle h c).2.disk
    | _, _ => (Host.handle h c).2.disk = h.disk := by
  cases c with
  | fs op => exact .inl ⟨rfl,rfl⟩
  | tryLock kind arc =>
    simp only [Host.handle]
    split <;> rfl
  | _ => rfl

theorem advancesReaches (note : Note G) {p q : Party α} {h g : Host} {input output : Bytes}
    (advanced : Duplex.Advances Host.handle p h input output q g) (noted : G) :
    ∃ last, Reaches (alone note) p ⟨h.disk,noted⟩ q ⟨g.disk,last⟩ := by
  suffices followed : ∃ t : Seen G, Reaches (alone note) p ⟨h.disk,noted⟩ q t ∧ t.disk = g.disk by
    obtain ⟨⟨disk,last⟩,reached,rfl⟩ := followed
    exact ⟨last,reached⟩
  refine Duplex.advancesSimulated (t := ⟨h.disk,noted⟩)
    (fun h _ _ (s : Seen G) => s.disk = h.disk) ?_ ?_ ?_ advanced rfl
  · rintro h _ _ ⟨_,noted⟩ c rfl
    refine ⟨⟨(Host.handle h c).2.disk,note noted (.here c) (Host.handle h c).1⟩,⟨rfl,?_⟩,rfl⟩
    have answers := hostAnswers h c
    cases c <;> exact answers
  · rintro h _ _ ⟨_,noted⟩ b rfl
    exact ⟨⟨h.disk,note noted (.send b) (.ok ())⟩,⟨rfl,rfl⟩,rfl⟩
  · rintro h _ _ ⟨_,noted⟩ n b rfl
    exact ⟨⟨h.disk,note noted (.recv n) (.ok b)⟩,⟨rfl,rfl⟩,rfl⟩

end

end RDrive
