import RDrive.KeyFiles
import RDrive.Relocation
import RDrive.ResponseLimits

/-! The server's half of rdrive key -r: what it has renamed, and what it has said of that,
wherever it is stopped. -/
namespace RDrive.KeyFiles
open Crypto Header Party Bytes Program Handshake Session

/- The server's disk, and the renames that have worked. -/
structure Storage where
  disk : Fs
  renamed : List (Path × Path)

def Renamed (s : Storage) (old new : Path) : Bool → Storage → Prop
  | true, t => (s.disk.rename old new).1 = true ∧
      t = ⟨(s.disk.rename old new).2,s.renamed ++ [(old,new)]⟩
  | false, t => t = s

def storing : Env (Port HostSig) Storage := fun s c r t =>
  match c, r with
  | .here (.fs (.rename old new)), done_ => Renamed s old new done_ t
  | .here (.fs op), reply => Answers s.disk op reply t.disk ∧ t.renamed = s.renamed
  | _, _ => t = s

abbrev serverRuns : Env (Port HostSig) (Traffic × Storage) := joint (noting traffic) storing

def Moved (S : Session) (old : Bytes) (s : Storage) : Prop := ∃ place, (S.storagePath old,place) ∈ s.renamed

inductive Placed (S : Session) (before : Fs) (old new : Bytes) (s : Storage) : Prop where
  | stays (unmoved : ¬ Moved S old s)
      (same : ∀ q, S.getStorageDir <+: q → s.disk.get q = before.get q)
  | moved (moved : Moved S old s)
      (there : ∀ rest, s.disk.get (S.storagePath new ++ rest) = before.get (S.storagePath old ++ rest))
      (gone : S.storagePath old ≠ S.storagePath new → s.disk.get (S.storagePath old) = none)

structure Vouches (S : Session) (sessionKey : Bytes) (before : Fs) (old new : Bytes) (sent : Bytes)
    (s : Storage) : Prop where
  placed : Placed S before old new s
  done_ : Approves S sessionKey sent → Moved S old s

def Sized (frames : List Bytes) : Prop :=
  ∀ data ∈ frames, 0 < data.length ∧ data.length ≤ Frame.maxFrameLength

section
variable {S : Session} {sessionKey : Bytes} {before : Fs} {old new : Bytes} {frames : List Bytes}
  {s : Storage} {α : Type} {p : Party α} {g : Traffic} {input : Bytes} {data : Bytes}

theorem sizedMore (sized : Sized frames) (some_ : 0 < data.length)
    (bounded : data.length ≤ Frame.maxFrameLength) : Sized (frames ++ [data]) := by
  intro d member
  rcases List.mem_append.mp member with inside | last
  · exact sized d inside
  · cases List.mem_singleton.mp last
    exact ⟨some_,bounded⟩

theorem streamMore (frames : List Bytes) (data : Bytes) :
    stream (frames ++ [data]) = stream frames ++ rawFrame data := by
  simp [stream]

theorem fewSilent (sized : Sized frames) (few : frames.length < 4) :
    ¬ Approves S sessionKey (stream frames) := by
  rintro ⟨_,_,_,_,_,begins,-⟩
  have length := (streamBegins sized begins).length_le
  simp only [List.length_cons,List.length_nil] at length
  omega

theorem refusalSilent {more last : Bytes} (sized : Sized (frames ++ [last])) (four : frames.length = 3)
    (opened : S.cipher.opened sessionKey last = some (3 :: more)) :
    ¬ Approves S sessionKey (stream (frames ++ [last])) := by
  rintro ⟨hello,m,challenge,other,rsp,begins,opens,tagged⟩
  have told : [hello,m,challenge] ++ [other] = frames ++ [last] :=
    (streamBegins sized begins).eq_of_length (by simp [four])
  obtain ⟨-,same⟩ := List.append_inj told four.symm
  cases List.cons.inj same |>.1
  cases Option.some.inj (opens.symm.trans opened)
  simp at tagged

theorem freshUnmoved (S : Session) (old : Bytes) (before : Fs) : ¬ Moved S old ⟨before,[]⟩ := by
  rintro ⟨place,member⟩
  cases member

theorem freshPlaced (S : Session) (old new : Bytes) (before : Fs) : Placed S before old new ⟨before,[]⟩ :=
  .stays (freshUnmoved S old before) fun _ _ => rfl

theorem vouchesFew (placed : Placed S before old new s) (sized : Sized frames) (few : frames.length < 4) :
    Vouches S sessionKey before old new (stream frames) s :=
  ⟨placed,fun approves => absurd approves (fewSilent sized few)⟩

end

section
variable {S : Session} {before : Fs} {old new : Bytes} {s t : Storage}

theorem storageMoved (same : ∀ q, S.getStorageDir <+: q → s.disk.get q = before.get q)
    (renamed : Renamed s (S.storagePath old) (S.storagePath new) true t) : Placed S before old new t := by
  obtain ⟨worked,rfl⟩ := renamed
  have lies := Fs.renameGet (storageInner old) (storageInner new) (storageDepth old new) worked
  have moved : Moved S old ⟨(s.disk.rename (S.storagePath old) (S.storagePath new)).2,
      s.renamed ++ [(S.storagePath old,S.storagePath new)]⟩ := ⟨S.storagePath new,by simp⟩
  have inside : ∀ key rest, S.getStorageDir <+: S.storagePath key ++ rest := fun key rest =>
    (List.prefix_append _ _).trans (List.prefix_append _ _)
  refine .moved moved (fun rest => ?_) fun differ => ?_
  · rw [← same _ (inside old rest)]
    dsimp only
    rw [lies]
    split
    · rename_i alike
      rw [alike]
    · rw [if_pos (List.prefix_append _ _),List.drop_left]
  · dsimp only
    rw [lies,if_neg differ,if_neg,if_pos (List.prefix_refl _)]
    exact fun above => differ (above.eq_of_length (storageDepth new old)).symm

theorem authMoved (unmoved : ¬ Moved S old s)
    (same : ∀ q, S.getStorageDir <+: q → s.disk.get q = before.get q) {done_ : Bool}
    (renamed : Renamed s (S.authPath old) (S.authPath new) done_ t) :
    ¬ Moved S old t ∧ ∀ q, S.getStorageDir <+: q → t.disk.get q = before.get q := by
  cases done_ with
  | false =>
    cases (renamed : t = s)
    exact ⟨unmoved,same⟩
  | true =>
    obtain ⟨-,rfl⟩ := renamed
    constructor
    · rintro ⟨place,member⟩
      rcases List.mem_append.mp member with there | last
      · exact unmoved ⟨place,there⟩
      · have named := congrArg Prod.fst (List.mem_singleton.mp last)
        refine Relocation.storageOutside (R := S) old ?_
        rw [← show S.storagePath old = S.authPath old from named]
        exact List.prefix_append _ _
    · intro q inside
      rw [← same q inside]
      exact Fs.renameBeside s.disk (authInner old) (authInner new) (authDepth old new)
        (authOutside old inside) (authOutside new inside)

end

abbrev serving (input : Bytes) : Env (Port HostSig) (Traffic × Storage) :=
  within (fun t => t.1.received <+: input) serverRuns

section
variable {S : Session} {sessionKey clientKey : Bytes} {before : Fs} {old new : Bytes} {frames : List Bytes}
  {s : Storage} {α : Type} {p : Party α} {g : Traffic} {input data : Bytes} {inv : Traffic → Prop}
  {held : Traffic × Storage → Prop} {post : α → Traffic → Prop}

theorem offDiskStores {c : (Port HostSig).Call} (off : OffDisk c) : ∀ s r t, storing s c r t → t = s := by
  intro s r t stored
  cases c with
  | recv n => exact stored
  | send b => exact stored
  | here c =>
    cases c with
    | fs op => exact absurd rfl (off op)
    | _ => exact stored

theorem offDiskServes (off : Confined OffDisk p) (safe : Safe (noting traffic) inv (Returns post) p g)
    (heard : g.received <+: input) (keeps : ∀ h, inv h → held (h,s)) :
    Safe (serving input) held (Returns fun a t => post a t.1 ∧ t.2 = s ∧ t.1.received <+: input) p (g,s) := by
  have still : Safe storing (fun t => t = s) (fun _ t => t = s) p s :=
    stillSafe rfl (confinedWiden off fun _ => offDiskStores)
  have both : Safe serverRuns (fun t => inv t.1 ∧ t.2 = s)
      (fun result t => Returns post result t.1 ∧ t.2 = s) p (g,s) :=
    safeBoth (jointLeft safe) (jointRight still)
  refine safeWeaken (safeMono (withinSafe both heard) ?_) ?_
  · rintro ⟨h,_⟩ ⟨⟨noted,rfl⟩,-⟩
    exact keeps h noted
  · rintro (a | message | _) t - ⟨⟨ended,same⟩,within_⟩
    · exact ⟨ended,same,within_⟩
    · trivial
    · trivial

theorem headersOffDisk (T : Session) : Confined OffDisk T.readHeaders.attempt :=
  attemptConfined (confinedBind (readsOffDisk T) fun _ => confinedLift _)

theorem tells (sent : g.sent = stream frames) (sized : Sized frames) (fits : Frame.Fits data)
    (heard : g.received <+: input) (start : Vouches S sessionKey before old new (stream frames) s)
    (later : ∀ box, S.cipher.opened sessionKey box = some data → Sized (frames ++ [box]) →
      Vouches S sessionKey before old new (stream (frames ++ [box])) s) :
    Safe (serving input) (fun t => Vouches S sessionKey before old new t.1.sent t.2)
      (Returns fun _ t => ∃ box, S.cipher.opened sessionKey box = some data ∧ Sized (frames ++ [box]) ∧
        t.1.sent = stream (frames ++ [box]) ∧ t.1.received = g.received ∧ t.2 = s)
      ((S.connected sessionKey clientKey).writeEncryptFrameInto data) (g,s) := by
  have more : ∀ box : Bytes, box.length = nonceLen + data.length + tagLen → Sized (frames ++ [box]) := by
    intro box size
    unfold Frame.Fits at fits
    exact sizedMore sized (by unfold nonceLen at size; omega) (by omega)
  have said : ∀ b box : Bytes, S.cipher.opened sessionKey box = some data →
      box.length = nonceLen + data.length + tagLen →
      Vouches S sessionKey before old new (g.sent ++ rawFrame box) s := by
    intro b box opened size
    rw [sent,← streamMore]
    exact later box opened (more box size)
  rw [← sent] at start
  have writes := @sealNoted (S.connected sessionKey clientKey) g
    (fun h => Vouches S sessionKey before old new h.sent s) data start (fun _ => start) said
  refine safeWeaken (offDiskServes (frameOffDisk _ data) writes heard fun _ vouches => vouches) ?_
  rintro (⟨⟩ | message | _) ⟨t,_⟩ - ended
  · obtain ⟨⟨b,box,opened,size,noted⟩,same,-⟩ := ended
    dsimp only at noted same
    subst noted same
    refine ⟨box,opened,more box size,?_,rfl,rfl⟩
    dsimp only
    rw [sent,streamMore]
  · trivial
  · trivial

theorem tellsLast {a b c : Bytes} (sent : g.sent = stream [a,b,c]) (sized : Sized [a,b,c])
    (fits : Frame.Fits data) (heard : g.received <+: input) (placed : Placed S before old new s)
    (true_ : Moved S old s ∨ ∃ more, data = 3 :: more) :
    Safe (serving input) (fun t => Vouches S sessionKey before old new t.1.sent t.2)
      (Returns fun _ _ => True) ((S.connected sessionKey clientKey).writeEncryptFrameInto data) (g,s) := by
  refine safeWeaken (tells sent sized fits heard (vouchesFew placed sized (by simp)) ?_) ?_
  · intro box opened more
    refine ⟨placed,fun approves => ?_⟩
    rcases true_ with moved | ⟨rest,rfl⟩
    · exact moved
    · exact absurd approves (refusalSilent more rfl opened)
  · rintro (⟨⟩ | message | _) _ - - <;> trivial

theorem tellsFew (sent : g.sent = stream frames) (sized : Sized frames) (few : frames.length < 3)
    (fits : Frame.Fits data) (heard : g.received <+: input) (placed : Placed S before old new s) :
    Safe (serving input) (fun t => Vouches S sessionKey before old new t.1.sent t.2)
      (Returns fun _ t => ∃ box, Sized (frames ++ [box]) ∧ t.1.sent = stream (frames ++ [box]) ∧
        t.1.received = g.received ∧ t.2 = s)
      ((S.connected sessionKey clientKey).writeEncryptFrameInto data) (g,s) := by
  refine safeWeaken (tells sent sized fits heard (vouchesFew placed sized (by omega)) ?_) ?_
  · intro box opened more
    refine vouchesFew placed more ?_
    rw [List.length_append,List.length_singleton]
    omega
  · rintro (⟨⟩ | message | _) t - ended
    · obtain ⟨box,-,more,noted,received,same⟩ := ended
      exact ⟨box,more,noted,received,same⟩
    · trivial
    · trivial

theorem closingVouches {v : Traffic × Storage} (safe : Safe (serving input)
      (fun t => Vouches S sessionKey before old new t.1.sent t.2) (Returns fun _ _ => True)
      ((S.connected sessionKey clientKey).writeEncryptFrameInto data) v) :
    Safe (serving input) (fun t => Vouches S sessionKey before old new t.1.sent t.2)
      (Returns fun _ _ => True) ((S.connected sessionKey clientKey).sendClosing data) v := by
  refine safeThen safe ?_
  rintro _ ⟨g,s⟩ vouches -
  refine hereSafe vouches ?_
  rintro closed ⟨h,t⟩ ⟨⟨noted,stored⟩,-⟩
  cases (noted : h = g)
  cases (stored : t = s)
  cases closed <;> exact ⟨vouches,trivial⟩

theorem renamesVouch {a b c : Bytes} (sent : g.sent = stream [a,b,c]) (sized : Sized [a,b,c])
    (heard : g.received <+: input) : Safe (serving input)
      (fun t => Vouches S sessionKey before old new t.1.sent t.2) (Returns fun _ _ => True)
      ((S.connected sessionKey clientKey).renameKeyDirs old new) (g,⟨before,[]⟩) := by
  have quiet : ∀ {s}, Placed S before old new s → Vouches S sessionKey before old new g.sent s := by
    intro s placed
    rw [sent]
    exact vouchesFew placed sized (by simp)
  have first := freshPlaced S old new before
  have whole : Frame.Fits [1] := frameSmall 1
  have refusal : Frame.Fits (3 :: ErrorHeader.serialize ⟨500,"Failed to rotate keys, try again later"⟩) :=
    shortFits 3 500 (by decide)
  unfold renameKeyDirs
  refine hereSafe (quiet first) ?_
  rintro there ⟨h,s⟩ ⟨⟨noted,stored⟩,within_⟩
  cases (noted : h = g)
  obtain ⟨disk,renamed⟩ := s
  have looks : Looks (.exists_ ((S.connected sessionKey clientKey).storagePath old)) := trivial
  obtain ⟨-,same⟩ := lookAnswer looks stored.1
  cases (same : disk = before)
  cases (stored.2 : renamed = [])
  cases there with
  | false => exact ⟨quiet first,trivial⟩
  | true =>
    refine hereSafe (quiet first) ?_
    rintro keyMoved ⟨h,t⟩ ⟨⟨noted,stored⟩,-⟩
    cases (noted : h = g)
    obtain ⟨unmoved,same⟩ := authMoved (freshUnmoved S old before) (fun _ _ => rfl) stored
    have second : Placed S before old new t := .stays unmoved same
    refine hereSafe (quiet second) ?_
    rintro storageMoved_ ⟨h,u⟩ ⟨⟨noted,stored⟩,-⟩
    cases (noted : h = g)
    cases storageMoved_ with
    | false =>
      cases (stored : u = t)
      split
      · rename_i both
        cases both.2
      · exact closingVouches (tellsLast sent sized refusal heard second (.inr ⟨_,rfl⟩))
    | true =>
      have third := storageMoved same stored
      have moved : Moved S old u := by
        obtain ⟨-,rfl⟩ := stored
        exact ⟨S.storagePath new,List.mem_append.mpr (.inr List.mem_cons_self)⟩
      split
      · exact tellsLast sent sized whole heard third (.inl moved)
      · exact closingVouches (tellsLast sent sized refusal heard third (.inl moved))

end

structure Scripted (S : Session) (sessionKey : Bytes) (oldPub newPub : Key32) (input : Bytes) : Prop where
  asks : ∀ {hello packet box}, Begins input [hello,packet,box] →
    S.cipher.opened sessionKey box = some (authRequest (some oldPub))
  signs : ∀ {hello packet box last}, Begins input [hello,packet,box,last] → ∃ nonce signature : Bytes,
    nonce.length = 64 ∧ signature.length = 64 ∧
    S.cipher.opened sessionKey last = some (nonce ++ signature ++ oldPub.val ++ newPub.val)

section
variable {S : Session} {sessionKey clientKey : Bytes} {before : Fs} {oldPub newPub : Key32}
  {frames : List Bytes} {g : Traffic} {input : Bytes}

theorem nextBegins {bytes box : Bytes} (received : g.received = stream frames) (sized : Sized frames)
    (framed : Framed bytes box []) (heard : g.received ++ bytes <+: input) :
    Begins input (frames ++ [box]) := by
  rw [received] at heard
  exact beginsMore (streamThen sized ⟨[],framed,trivial⟩) heard

theorem rotateVouches {a b c nonce signature : Bytes} (nonceSize : nonce.length = 64)
    (signatureSize : signature.length = 64) (sent : g.sent = stream [a,b,c]) (sized : Sized [a,b,c])
    (heard : g.received <+: input) : Safe (serving input)
      (fun t => Vouches S sessionKey before oldPub.val newPub.val t.1.sent t.2) (Returns fun _ _ => True)
      ((S.connected sessionKey clientKey).rotateKey (nonce ++ signature ++ oldPub.val ++ newPub.val))
      (g,⟨before,[]⟩) := by
  have fresh := freshPlaced S oldPub.val newPub.val before
  have quiet : Vouches S sessionKey before oldPub.val newPub.val g.sent ⟨before,[]⟩ := by
    rw [sent]
    exact vouchesFew fresh sized (by simp)
  have parts : ∀ {one two : Bytes} {n : Nat}, one.length = n → splitAt (one ++ two) n = .ok (one,two) := by
    intro one two n size
    rw [splitAtOk (by rw [List.length_append]; omega),List.take_left' size,List.drop_left' size]
  unfold rotateKey
  rw [List.append_assoc,List.append_assoc,parts nonceSize,Program.liftDone,Program.bindDone]
  dsimp only
  rw [parts signatureSize,Program.liftDone,Program.bindDone]
  dsimp only
  rw [parts oldPub.property,Program.liftDone,Program.bindDone]
  dsimp only
  split
  · exact ⟨quiet,trivial⟩
  · rename_i e invalid
    exact closingVouches (tellsLast sent sized (shortFits 3 401 (invalidShort invalid)) heard fresh
      (.inr ⟨_,rfl⟩))
  · rename_i oldPubKey valid
    obtain ⟨rfl,-⟩ := signatureValid valid
    split
    · exact ⟨quiet,trivial⟩
    · exact ⟨quiet,trivial⟩
    · rename_i newPubKey parsed
      obtain ⟨rfl,-⟩ := verifyingKeyOk parsed
      exact renamesVouch sent sized heard

/- handle_auth_keys, on the body that comes. -/
theorem authVouches {a b hello packet box : Bytes} (script : Scripted S sessionKey oldPub newPub input)
    (sent : g.sent = stream [a,b]) (sized : Sized [a,b]) (received : g.received = stream [hello,packet,box])
    (framed : Sized [hello,packet,box]) (heard : g.received <+: input) : Safe (serving input)
      (fun t => Vouches S sessionKey before oldPub.val newPub.val t.1.sent t.2) (Returns fun _ _ => True)
      ((S.connected sessionKey clientKey).handleAuthKeys 2) (g,⟨before,[]⟩) := by
  have fresh := freshPlaced S oldPub.val newPub.val before
  have quiet : ∀ {h : Traffic} {frames : List Bytes}, h.sent = stream frames → Sized frames →
      frames.length < 4 → Vouches S sessionKey before oldPub.val newPub.val h.sent ⟨before,[]⟩ := by
    intro h frames sent sized few
    rw [sent]
    exact vouchesFew fresh sized few
  unfold handleAuthKeys
  have draws := @drawNoted g (fun h => h.sent = g.sent) 64 rfl fun _ => rfl
  refine safeThen (offDiskServes (confinedHere _ nofun) draws heard fun h same =>
    quiet (same.trans sent) sized (by simp)) ?_
  rintro random ⟨h,_⟩ - ⟨noted,same,-⟩
  dsimp only at noted same
  subst noted same
  have whole : Frame.Fits (S.hashes.sha512 random.val) := by
    have size := S.hashes.sha512Length random.val
    unfold Frame.Fits nonceLen tagLen Frame.maxFrameLength
    omega
  refine safeThen (tellsFew sent sized (by simp) whole heard fresh) ?_
  rintro _ ⟨h,_⟩ - ⟨challenge,three,told,same,rfl⟩
  dsimp only at told same
  rw [if_neg (by decide),if_pos rfl]
  have opens := @openNoted (S.connected sessionKey clientKey) h (fun t => t.sent = h.sent) fun _ => rfl
  refine safeThen (offDiskServes (readsOffDisk _) opens (same ▸ heard) fun t kept =>
    quiet (kept.trans told) three (by simp)) ?_
  rintro body ⟨t,_⟩ - ⟨⟨bytes,last,next,opened,noted⟩,rfl,within_⟩
  dsimp only at noted within_
  subst noted
  have four := nextBegins (same.trans received) framed next within_
  obtain ⟨nonce,signature,nonceSize,signatureSize,signed⟩ := script.signs four
  cases Option.some.inj (signed.symm.trans opened)
  exact rotateVouches nonceSize signatureSize told three within_

theorem commandNoted (T : Session) (g : Traffic) : Safe (noting traffic) (fun h => h.sent = g.sent)
    (Returns fun result h => (∀ command, result = .ok command → ∃ bytes box data, Framed bytes box [] ∧
      T.cipher.opened T.sessionKey box = some data ∧ Command.deserialize data = .ok command ∧
      h = {g with received := g.received ++ bytes}) ∧ h.sent = g.sent) T.readHeaders.attempt g := by
  have headers : Safe (noting traffic) (fun h => h.sent = g.sent)
      (Returns fun command h => ∃ bytes box data, Framed bytes box [] ∧
        T.cipher.opened T.sessionKey box = some data ∧ Command.deserialize data = .ok command ∧
        h = {g with received := g.received ++ bytes}) T.readHeaders g := by
    refine safeThen (openNoted fun _ => rfl) ?_
    rintro data h kept ⟨bytes,box,next,opened,noted⟩
    exact safeLift _ kept fun command decoded => ⟨bytes,box,data,next,opened,decoded,noted⟩
  refine safeWeaken (attemptReturns headers) ?_
  rintro (result | message | _) h kept returned
  · exact ⟨returned,kept⟩
  · trivial
  · trivial

/- handle_connection, after the two frames each way of a handshake. -/
theorem connectionVouches {a b hello packet : Bytes} (script : Scripted S sessionKey oldPub newPub input)
    (sent : g.sent = stream [a,b]) (sized : Sized [a,b]) (received : g.received = stream [hello,packet])
    (framed : Sized [hello,packet]) (heard : g.received <+: input) : Safe (serving input)
      (fun t => Vouches S sessionKey before oldPub.val newPub.val t.1.sent t.2) (Returns fun _ _ => True)
      (S.connected sessionKey clientKey).handleConnection (g,⟨before,[]⟩) := by
  have fresh := freshPlaced S oldPub.val newPub.val before
  have quiet : ∀ {h : Traffic}, h.sent = g.sent →
      Vouches S sessionKey before oldPub.val newPub.val h.sent ⟨before,[]⟩ := by
    intro h same
    rw [same,sent]
    exact vouchesFew fresh sized (by simp)
  have told : ∀ {h : Traffic} {data : Bytes}, h.sent = g.sent → h.received <+: input → Frame.Fits data →
      Safe (serving input) (fun t => Vouches S sessionKey before oldPub.val newPub.val t.1.sent t.2)
        (Returns fun _ _ => True) ((S.connected sessionKey clientKey).sendClosing data)
        (h,⟨before,[]⟩) := by
    intro h data same within_ fits
    refine closingVouches ?_
    refine safeWeaken (tellsFew (same.trans sent) sized (by simp) fits within_ fresh) ?_
    rintro (⟨⟩ | message | _) _ - - <;> trivial
  rw [connectionAnswers]
  refine safeThen (offDiskServes (headersOffDisk _) (commandNoted _ g) heard fun h same => quiet same) ?_
  rintro result ⟨h,_⟩ - ⟨⟨read,same⟩,rfl,within_⟩
  dsimp only at same within_ read
  cases result with
  | error message =>
    simp only [Session.answer]
    split
    · refine safeThen (attemptSafe (told same within_ (shortFits 3 408 (by decide)))) ?_
      rintro _ t held -
      exact ⟨held,trivial⟩
    · split
      · exact ⟨quiet same,trivial⟩
      · exact ⟨quiet same,trivial⟩
  | ok command =>
    obtain ⟨bytes,box,data,next,opened,decoded,rfl⟩ := read command rfl
    have three := nextBegins received framed next within_
    cases Option.some.inj ((script.asks three).symm.trans opened)
    have rotation : Command.deserialize (authRequest (some oldPub)) = .ok (.auth 2) :=
      commandRead (by simp [Command.serialize,Postcard.varint])
    cases Outcome.ok.inj (decoded.symm.trans rotation)
    have all_ : g.received ++ bytes = stream [hello,packet,box] := by
      rw [received,next.stream,List.append_nil]
      exact (streamMore [hello,packet] box).symm
    simp only [Session.answer]
    refine hereSafe (quiet rfl) ?_
    rintro allowed ⟨h,s⟩ ⟨⟨noted,stored⟩,within_⟩
    cases (noted : h = _)
    cases (stored : s = _)
    cases allowed with
    | false => exact told rfl within_ (shortFits 3 429 (by decide))
    | true =>
      exact authVouches script sent sized all_ (sizedMore framed next.some_ next.bounded) within_

end

section
variable {P : Primitives} {K : ServerKeys} {S : Session} {before : Fs} {oldPub newPub : Key32}
  {input : Bytes} {q : Party Unit} {t : Traffic × Storage}

def answeredKey (P : Primitives) (hello : ClientHello) (x25519Pri : Key32) : Bytes :=
  P.hashes.sha256 (saltedKey (P.x25519.diffieHellman x25519Pri hello.x22519Key))

theorem greetReplies (P : Primitives) (K : ServerKeys) : Safe (noting traffic) (Replies P K)
    (Returns fun met g => (∃ hello x25519Pri nonce random,
      Concludes P K g hello x25519Pri nonce random met.2 ∧ met.1 = answeredKey P hello x25519Pri) ∧
      OnlyTwo g.received) (greetClient P K) noTraffic := by
  unfold greetClient
  refine safeThen (attemptReturns (serverReplies P K)) ?_
  intro result g held returned
  cases result with
  | error e => exact ⟨held,trivial⟩
  | ok met =>
    obtain ⟨sharedKey,clientKey⟩ := met
    obtain ⟨⟨hello,x25519Pri,nonce,random,concludes,shared⟩,only⟩ := returned _ rfl
    dsimp only at shared concludes ⊢
    rw [serverSalts,Program.liftDone,Program.bindDone,shared]
    exact ⟨held,⟨hello,x25519Pri,nonce,random,concludes,rfl⟩,only⟩

theorem answerSized (hello : ClientHello) (x25519Pri nonce : Key32) (random : Bytes) :
    Sized [(Handshake.answer P K hello x25519Pri nonce).serialize,P.hashes.sha512 random] := by
  intro data member
  rcases List.mem_pair.mp member with rfl | rfl
  · rw [ServerHello.length]
    decide
  · rw [P.hashes.sha512Length]
    decide

theorem repliesVouch {g : Traffic} {s : Storage} {old new sessionKey : Bytes} (replies : Replies P K g)
    (placed : Placed S before old new s) : Vouches S sessionKey before old new g.sent s := by
  cases replies with
  | silent sent =>
    have none_ : Vouches S sessionKey before old new (stream []) s :=
      vouchesFew placed (by simp [Sized]) (by decide)
    rw [sent]
    exact none_
  | @answered hello x25519Pri nonce _ sent =>
    rw [sent]
    exact vouchesFew placed (fun data member => answerSized hello x25519Pri nonce [] data
      (List.mem_cons.mpr (.inl (List.mem_singleton.mp member)))) (by simp)
  | @challenged hello x25519Pri nonce random _ sent =>
    rw [sent]
    exact vouchesFew placed (answerSized hello x25519Pri nonce random) (by simp)

theorem greetOffDisk (P : Primitives) (K : ServerKeys) : Confined OffDisk (greetClient P K) := by
  refine confinedBind (attemptConfined (serverConfined P (fun _ => nofun) (fun _ => nofun)
    (fun _ => nofun) K)) fun result => ?_
  cases result with
  | error e => trivial
  | ok met => exact confinedBind (confinedLift _) fun _ => trivial

theorem servedSince {α : Type} {p q : Party α} {s t : Traffic × Storage}
    (ran : Reaches serverRuns p s q t) : s.1.Since t.1 := by
  induction ran with
  | here p s => exact sinceSelf _
  | answer answered later ih => exact sinceTrans (sinceStep answered.1) ih

theorem serverStands (ran : Reaches serverRuns (serveConnection P K S) (noTraffic,⟨before,[]⟩) q t)
    (heard : t.1.received <+: input)
    (script : ∀ {hello x25519Pri nonce a b}, Answered P K t.1 hello x25519Pri nonce → Begins input [a,b] →
      Scripted S (answeredKey P hello x25519Pri) oldPub newPub input) :
    (¬ Moved S oldPub.val t.2 ∧ ∀ sessionKey, Vouches S sessionKey before oldPub.val newPub.val t.1.sent t.2) ∨
    ∃ hello x25519Pri nonce a b, Answered P K t.1 hello x25519Pri nonce ∧ Begins input [a,b] ∧
      Vouches S (answeredKey P hello x25519Pri) before oldPub.val newPub.val t.1.sent t.2 := by
  have fresh := freshPlaced S oldPub.val newPub.val before
  have still : Safe storing (fun s => s = ⟨before,[]⟩) (fun _ s => s = ⟨before,[]⟩) (greetClient P K)
      ⟨before,[]⟩ := stillSafe rfl (confinedWiden (greetOffDisk P K) fun _ => offDiskStores)
  rcases reachesSplit ran with ⟨q',stopped,-⟩ | ⟨met,⟨g,s⟩,first,onward⟩
  · have replies := safeStart (safeReaches stopped (jointLeft (greetReplies P K)))
    have same := safeStart (safeReaches stopped (jointRight still))
    have here : t.2 = ⟨before,[]⟩ := same
    refine .inl ⟨?_,fun sessionKey => repliesVouch replies ?_⟩
    · rw [here]
      exact freshUnmoved S oldPub.val before
    · rw [here]
      exact fresh
  obtain ⟨sessionKey,clientKey⟩ := met
  have same := safeStart (safeReaches first (jointRight still))
  dsimp only at same
  subst same
  obtain ⟨-,⟨hello,x25519Pri,nonce,random,concludes,key⟩,one,other,only,oneSize,otherSize⟩ :=
    safeReaches first (jointLeft (greetReplies P K))
  dsimp only at concludes key only
  subst key
  have answered := answeredSince concludes.answered (servedSince onward)
  have sized : Sized [one,other] := by
    intro data member
    rcases List.mem_pair.mp member with rfl | rfl
    · exact oneSize
    · exact otherSize
  have back : ∀ u c r v, serverRuns u c r v → v.1.received <+: input → u.1.received <+: input :=
    fun _ _ _ _ step later => (sinceStep step.1).received.trans later
  obtain ⟨served,came⟩ := reachesWithin back onward heard
  have begins : Begins input [one,other] := by
    refine beginsMore ?_ came
    dsimp only
    rw [only]
    exact streamWhole sized
  have vouches := safeStart (safeReaches served (connectionVouches (script answered begins) concludes.said
    (answerSized _ _ _ _) only sized came))
  exact .inr ⟨hello,x25519Pri,nonce,one,other,answered,begins,vouches⟩

end

end RDrive.KeyFiles
