import RDrive.Framing

/-! What download_client leaves at its output path: the file that it verified, or as much
of it as was written by the time it gave up. The server's stream may end anywhere and any
way, and the disk may be full at any byte. -/
namespace RDrive
open Crypto Header Duplex Party Bytes Program

/- A client that reads from a stream up to its end, where it is closed, stalls or breaks.
Its disk takes so many more bytes: a write past them leaves what fits, and fails. -/
structure Fill where
  host : Host
  input : Bytes
  ending : Fault
  room : Nat
  removes : Bool

namespace Fill

def onDisk (s : Fill) (disk : Fs) : Fill := {s with host := {s.host with disk := disk}}

end Fill

def filling : Env (Port HostSig) Fill := fun s c r t =>
  match c, r with
  | .here (.fs (.append p b)), answer =>
    answer = (decide (b.length ≤ s.room) && (s.host.disk.append p (b.take s.room)).1) ∧
      t = {s.onDisk (s.host.disk.append p (b.take s.room)).2 with room := s.room - b.length}
  | .here (.fs (.remove p)), answer =>
    answer = (s.removes && (s.host.disk.remove p).1) ∧
      t = if s.removes then s.onDisk (s.host.disk.remove p).2 else s
  | .here c, answer =>
    answer = (Host.handle s.host c).1 ∧ t = {s with host := (Host.handle s.host c).2}
  | .send _, answer => answer = .ok () ∧ t = s
  | .recv n, .ok b => b.val = s.input.take n ∧ t = {s with input := s.input.drop n}
  | .recv n, .error fault => fault = s.ending ∧ s.input.length < n ∧ t = {s with input := []}

theorem fillEnd {s : Fill} {n : Nat} (short : s.input.length < n) :
    filling s (.recv n) (.error s.ending) {s with input := []} := ⟨rfl,short,rfl⟩

theorem fillRead {s : Fill} {n : Nat} {b more : Bytes} (size : b.length = n)
    (stream : s.input = b ++ more) : filling s (.recv n) (.ok ⟨b,size⟩) {s with input := more} := by
  subst size
  refine ⟨?_,?_⟩
  · rw [stream,List.take_left]
  · rw [stream,List.drop_left]

theorem fillingDetermined : Determined filling := by
  intro s c r t other u one two
  cases c with
  | send b =>
    obtain ⟨rfl,rfl⟩ := one
    obtain ⟨rfl,rfl⟩ := two
    exact ⟨rfl,rfl⟩
  | recv n =>
    cases r with
    | ok b =>
      obtain ⟨bytes,rfl⟩ := one
      have enough := b.property
      rw [bytes,List.length_take] at enough
      cases other with
      | ok b' =>
        obtain ⟨bytes',rfl⟩ := two
        exact ⟨congrArg Except.ok (Subtype.ext (bytes.trans bytes'.symm)),rfl⟩
      | error fault =>
        obtain ⟨-,short,-⟩ := two
        omega
    | error fault =>
      obtain ⟨rfl,short,rfl⟩ := one
      cases other with
      | ok b =>
        obtain ⟨bytes,-⟩ := two
        have enough := b.property
        rw [bytes,List.length_take] at enough
        omega
      | error fault =>
        obtain ⟨rfl,-,rfl⟩ := two
        exact ⟨rfl,rfl⟩
  | here c =>
    cases c with
    | fs op => cases op <;> exact ⟨one.1.trans two.1.symm,one.2.trans two.2.symm⟩
    | _ => exact ⟨one.1.trans two.1.symm,one.2.trans two.2.symm⟩

section
variable {s : Fill} {path : Path} {old b : Bytes}

theorem appendFits (found : s.host.disk.content path = some old) (fits : b.length ≤ s.room) :
    Reaches filling (append path b) s (.done (.ok ()))
      {s.onDisk (s.host.disk.put path (.file (old ++ b))) with room := s.room - b.length} := by
  have done := Fs.appendFile found b
  have answered : filling s (.here (.fs (.append path b))) true
      {s.onDisk (s.host.disk.put path (.file (old ++ b))) with room := s.room - b.length} := by
    refine ⟨?_,?_⟩
    · rw [List.take_of_length_le fits,done]
      simp [fits]
    · rw [List.take_of_length_le fits,done]
  exact reachesThen (hereReached answered) (.here _ _)

theorem appendTorn (found : s.host.disk.content path = some old) (full : s.room < b.length) :
    Reaches filling (append path b) s (.done (.err "write_all"))
      {s.onDisk (s.host.disk.put path (.file (old ++ b.take s.room))) with room := 0} := by
  have done := Fs.appendFile found (b.take s.room)
  have answered : filling s (.here (.fs (.append path b))) false
      {s.onDisk (s.host.disk.put path (.file (old ++ b.take s.room))) with room := 0} := by
    refine ⟨?_,?_⟩
    · simp [show ¬ b.length ≤ s.room by omega]
    · rw [done,Nat.sub_eq_zero_of_le (by omega)]
  exact reachesThen (hereReached answered) (.here _ _)

end

namespace Session
variable {S : Session}

/- What of so many bytes has left the BufWriter: all but the last of them, up to its size. -/
def flushed (n : Nat) : Nat := (n - 1) / bufCapacity * bufCapacity

theorem flushedMono {m n : Nat} (le : m ≤ n) : flushed m ≤ flushed n :=
  Nat.mul_le_mul_right _ (Nat.div_le_div_right (by omega))

theorem flushedLe (n : Nat) : flushed n ≤ n :=
  (Nat.div_mul_le_self (n - 1) bufCapacity).trans (Nat.sub_le n 1)

theorem flushedMore {n k : Nat} (aligned : readChunkSize ∣ n) (some_ : 0 < k)
    (small : k ≤ readChunkSize) :
    flushed (n + k) = if bufCapacity < n - flushed n + k then n else flushed n := by
  obtain ⟨q,rfl⟩ := aligned
  unfold flushed bufCapacity readChunkSize at *
  split <;> omega

/- What of a file a stream brings, up to the first box that is cut short or does not open. -/
def arrivedOf (S : Session) : List Nat → Bytes → Bytes
  | [], _ => []
  | plainText :: sizes, input =>
    let cipherText := nonceLen + plainText + tagLen
    if input.length < cipherText then []
    else
      match S.cipher.opened S.sessionKey (input.take cipherText) with
      | none => []
      | some plain => plain ++ S.arrivedOf sizes (input.drop cipherText)

def arrived (S : Session) (fileSize : Nat) (input : Bytes) : Bytes :=
  S.arrivedOf (plainSizes fileSize) input

theorem arrivedNone (input : Bytes) : S.arrived 0 input = [] := by
  unfold arrived
  rw [plainSizesNone]
  rfl

theorem arrivedShort {left : Nat} {input : Bytes} (positive : 0 < left)
    (short : input.length < nonceLen + min readChunkSize left + tagLen) : S.arrived left input = [] := by
  unfold arrived
  rw [plainSizesMore positive]
  exact if_pos short

theorem arrivedMore {left : Nat} {box later : Bytes} (positive : 0 < left)
    (size : box.length = nonceLen + min readChunkSize left + tagLen) :
    S.arrived left (box ++ later) =
      match S.cipher.opened S.sessionKey box with
      | none => []
      | some plain => plain ++ S.arrived (left - min readChunkSize left) later := by
  unfold arrived
  rw [plainSizesMore positive,arrivedOf]
  rw [if_neg (by rw [List.length_append]; omega),← size,List.take_left,List.drop_left]

theorem arrivedStarts {fileSize : Nat} {input rest : Bytes} {chunks : List Bytes}
    (starts : S.Starts fileSize input chunks rest) : S.arrived fileSize input = chunks.flatten := by
  obtain ⟨⟨boxes,rfl,unsealed⟩,sizes⟩ := starts
  unfold arrived
  rw [← sizes]
  clear sizes
  induction unsealed with
  | none => rfl
  | @more box plain later boxes opened unsealed ih =>
    have size : nonceLen + plain.length + tagLen = box.length := by
      have := S.cipher.openedLength opened
      omega
    rw [List.map_cons,arrivedOf,List.append_assoc]
    rw [size,if_neg (by rw [List.length_append]; omega),List.take_left,List.drop_left,opened]
    dsimp only
    rw [ih,List.flatten_cons]

theorem sealedArrive {content boxes : Bytes} (sealed_ : Boxes S (fullReads readChunkSize content) boxes)
    (rest : Bytes) : S.arrived content.length (boxes ++ rest) = content := by
  rw [arrivedStarts (boxesStart sealed_ rest),fullReadsJoined (by decide)]

section
variable {s : Fill} {path : Path} {old pending data : Bytes}

theorem chunkKept (small : data.length ≤ readChunkSize)
    (fits : ¬ bufCapacity < pending.length + data.length) :
    Reaches filling (bufWrite path pending data) s (.done (.ok (pending ++ data))) s := by
  unfold bufWrite
  rw [if_neg fits,if_neg (by unfold bufCapacity readChunkSize at *; omega)]
  exact .here _ _

theorem chunkFlushes (small : data.length ≤ readChunkSize)
    (full : bufCapacity < pending.length + data.length)
    (found : s.host.disk.content path = some old) (fits : pending.length ≤ s.room) :
    Reaches filling (bufWrite path pending data) s (.done (.ok data))
      {s.onDisk (s.host.disk.put path (.file (old ++ pending))) with
        room := s.room - pending.length} := by
  unfold bufWrite
  rw [if_pos full,if_neg (by unfold bufCapacity readChunkSize at *; omega)]
  exact reachesThen (appendFits found fits) (.here _ _)

theorem chunkTorn (full : bufCapacity < pending.length + data.length)
    (found : s.host.disk.content path = some old) (out : s.room < pending.length) :
    Reaches filling (bufWrite path pending data) s (.done (.err "write_all"))
      {s.onDisk (s.host.disk.put path (.file (old ++ pending.take s.room))) with room := 0} := by
  unfold bufWrite
  rw [if_pos full]
  exact reachesBind (appendTorn found out)

end

structure Filled (path : Path) (limit fileSize : Nat) (all : Bytes) (s : Fill)
    (result : Outcome Received) (t : Fill) : Prop where
  wrote : Wrote path s.host.disk t.host.disk (all.take (min limit (flushed all.length)))
  removes : t.removes = s.removes
  whole : all.length = fileSize → flushed fileSize ≤ limit →
    result = .ok ⟨all,all.drop (flushed fileSize)⟩ ∧ t.room + flushed fileSize = limit
  broken : ¬ (all.length = fileSize ∧ flushed fileSize ≤ limit) → ∃ message, result = .err message

section
variable {text : String} {path : Path} {fileSize received limit : Nat} {decBuf hashed pending old : Bytes}
  {s u t : Fill} {result : Outcome Received}

theorem heldBack (joined : old ++ pending = hashed) (begun : old.length = flushed hashed.length)
    (more : Nat) : hashed.take (min (old.length + more) (flushed hashed.length)) = old := by
  rw [← begun,Nat.min_eq_right (by omega),← joined,List.take_left]

theorem filledStop {message : String} (found : s.host.disk.content path = some old)
    (joined : old ++ pending = hashed) (begun : old.length = flushed hashed.length)
    (more : hashed.length < fileSize) (input : Bytes) :
    Filled path (old.length + s.room) fileSize hashed s (.err message) {s with input := input} := by
  refine ⟨?_,rfl,fun all => absurd all (by omega),fun _ => ⟨_,rfl⟩⟩
  rw [heldBack joined begun]
  exact ⟨found,fun _ _ => rfl⟩

theorem filledAfter {all written : Bytes} (wrote : Wrote path s.host.disk u.host.disk written)
    (later : Filled path limit fileSize all u result t) (removes : u.removes = s.removes) :
    Filled path limit fileSize all s result t :=
  ⟨wroteTrans wrote later.wrote,later.removes.trans removes,later.whole,later.broken⟩

theorem filledTorn {message : String} {all : Bytes} (inner : path ≠ [])
    (joined : old ++ pending = hashed) (out : s.room < pending.length) (begins : hashed <+: all)
    (due : hashed.length ≤ flushed all.length) :
    Filled path (old.length + s.room) fileSize all s (.err message)
      {s.onDisk (s.host.disk.put path (.file (old ++ pending.take s.room))) with room := 0} := by
  have length := congrArg List.length joined
  rw [List.length_append] at length
  refine ⟨?_,rfl,fun whole enough => ?_,fun _ => ⟨_,rfl⟩⟩
  · obtain ⟨rest,rfl⟩ := begins
    rw [Nat.min_eq_left (by omega),List.take_append_of_le_length (by omega),← joined,
      List.take_length_add_append]
    exact appendWrote _ inner _
  · rw [← whole] at enough
    omega

theorem roundCut (more : received < fileSize)
    (short : s.input.length < nonceLen + min readChunkSize (fileSize - received) + tagLen) :
    ∃ message, Reaches filling (S.receiveLoop text path fileSize decBuf hashed pending received) s
      (.done (.err message)) {s with input := []} := by
  have ended := fillEnd short
  rw [receiveLoop,dif_pos more]
  cases fault : s.ending <;> rw [fault] at ended <;> exact ⟨_,.answer ended (.here _ _)⟩

theorem turnFills {plain all : Bytes} {next : Bytes → Party Received} (inner : path ≠ [])
    (found : u.host.disk.content path = some old) (joined : old ++ pending = hashed)
    (begun : old.length = flushed hashed.length) (aligned : readChunkSize ∣ hashed.length)
    (some_ : 0 < plain.length) (small : plain.length ≤ readChunkSize) (begins : hashed ++ plain <+: all)
    (later : ∀ (left waiting : Bytes) (v : Fill), v.host.disk.content path = some left →
      left ++ waiting = hashed ++ plain → left.length = flushed (hashed ++ plain).length →
      v.input = u.input → ∃ result t, Reaches filling (next waiting) v (.done result) t ∧
        Filled path (left.length + v.room) fileSize all v result t) :
    ∃ result t, Reaches filling (bufWrite path pending plain >>= next) u (.done result) t ∧
      Filled path (old.length + u.room) fileSize all u result t := by
  have lengths := congrArg List.length joined
  rw [List.length_append] at lengths
  have flushes := flushedMore aligned some_ small
  rw [← List.length_append] at flushes
  by_cases due : bufCapacity < pending.length + plain.length
  · rw [if_pos (by omega)] at flushes
    by_cases fits : pending.length ≤ u.room
    · obtain ⟨result,t,reached,filled⟩ := later (old ++ pending) plain
        {u.onDisk (u.host.disk.put path (.file (old ++ pending))) with room := u.room - pending.length}
        (Fs.contentPut _ inner _) (congrArg (· ++ plain) joined) (by rw [joined,flushes]) rfl
      dsimp only at filled
      rw [List.length_append,show old.length + pending.length + (u.room - pending.length) =
        old.length + u.room by omega] at filled
      exact ⟨result,t,reachesThen (chunkFlushes small due found fits) reached,
        filledAfter (appendWrote u.host.disk inner (old ++ pending)) filled rfl⟩
    · have torn := chunkTorn due found (not_le.mp fits)
      refine ⟨_,_,reachesBind torn,filledTorn inner joined (not_le.mp fits) ?_ ?_⟩
      · exact (List.prefix_append _ _).trans begins
      · rw [← flushes]
        exact flushedMono begins.length_le
  · rw [if_neg (by omega)] at flushes
    obtain ⟨result,t,reached,filled⟩ := later old (pending ++ plain) u found
      (by rw [← List.append_assoc,joined]) (by rw [flushes,begun]) rfl
    exact ⟨result,t,reachesThen (chunkKept small due) reached,filled⟩

theorem filledWhole (found : s.host.disk.content path = some old) (joined : old ++ pending = hashed)
    (begun : old.length = flushed hashed.length) (whole : hashed.length = fileSize) :
    Filled path (old.length + s.room) fileSize hashed s (.ok ⟨hashed,pending⟩) s := by
  have fits : flushed fileSize ≤ old.length + s.room := by
    rw [← whole,← begun]
    exact Nat.le_add_right _ _
  refine ⟨?_,rfl,fun _ _ => ⟨?_,?_⟩,fun cut => absurd ⟨whole,fits⟩ cut⟩
  · rw [heldBack joined begun]
    exact ⟨found,fun _ _ => rfl⟩
  · rw [← whole,← begun,← joined,List.drop_left]
  · rw [← whole,← begun,Nat.add_comm]

theorem loopFills (text : String) (inner : path ≠ []) (found : s.host.disk.content path = some old)
    (space : decBuf.length = readChunkSize) (joined : old ++ pending = hashed)
    (begun : old.length = flushed hashed.length) (length : hashed.length = received)
    (aligned : received < fileSize → readChunkSize ∣ received) (bound : received ≤ fileSize) :
    ∃ result t, Reaches filling (S.receiveLoop text path fileSize decBuf hashed pending received) s
        (.done result) t ∧
      Filled path (old.length + s.room) fileSize
        (hashed ++ S.arrived (fileSize - received) s.input) s result t := by
  induction left : fileSize - received using Nat.strong_induction_on
    generalizing received decBuf hashed pending old s with
  | _ m ih =>
    subst left length
    by_cases more : hashed.length < fileSize
    · have positive : 0 < fileSize - hashed.length := by omega
      have chunk : 0 < readChunkSize := by decide
      by_cases short :
          s.input.length < nonceLen + min readChunkSize (fileSize - hashed.length) + tagLen
      · obtain ⟨message,cut⟩ := @roundCut S text path fileSize _ decBuf hashed pending s more short
        refine ⟨_,_,cut,?_⟩
        rw [arrivedShort positive short,List.append_nil]
        exact filledStop found joined begun more []
      · obtain ⟨box,later,size,stream⟩ := frontTaken short
        have read := fillRead size stream
        rw [stream,arrivedMore positive size]
        cases opened : S.cipher.opened S.sessionKey box with
        | none =>
          refine ⟨_,_,roundRefused more space size opened read,?_⟩
          rw [List.append_nil]
          exact filledStop found joined begun more later
        | some plain =>
          have plainSize := S.cipher.openedLength opened
          obtain ⟨buf,full,round⟩ := @roundOpened S text path fileSize _ decBuf hashed pending box _
            filling _ _ plain more space size opened read
          have onward : fileSize - hashed.length - min readChunkSize (fileSize - hashed.length) =
              fileSize - (hashed.length + plain.length) := by omega
          have alignedNext : hashed.length + plain.length < fileSize →
              readChunkSize ∣ hashed.length + plain.length := by
            intro further
            rw [show plain.length = readChunkSize by omega]
            exact Nat.dvd_add_self_right.mpr (aligned more)
          dsimp only
          rw [onward,← List.append_assoc]
          obtain ⟨result,t,reached,filled⟩ : ∃ result t,
              Reaches filling (bufWrite path pending plain >>= fun after => S.receiveLoop text path
                fileSize buf (hashed ++ plain) after (hashed.length + plain.length))
                {s with input := later} (.done result) t ∧
              Filled path (old.length + s.room) fileSize
                (hashed ++ plain ++ S.arrived (fileSize - (hashed.length + plain.length)) later)
                {s with input := later} result t := by
            refine turnFills inner found joined begun (aligned more) (by omega) (by omega)
              (List.prefix_append _ _) fun left waiting v holds parts length input => ?_
            have ends := @ih _ (by omega) _ buf (hashed ++ plain) waiting left v holds full parts length
              List.length_append alignedNext (by omega) rfl
            rwa [input] at ends
          have same : Wrote path s.host.disk s.host.disk old := ⟨found,fun _ _ => rfl⟩
          refine ⟨result,t,reachesTrans round reached,?_⟩
          exact filledAfter (u := {s with input := later}) same filled rfl
    · refine ⟨.ok ⟨hashed,pending⟩,s,?_,?_⟩
      · rw [receiveLoop,dif_neg more]
        exact .here _ _
      · rw [show fileSize - hashed.length = 0 by omega,arrivedNone,List.append_nil]
        exact filledWhole found joined begun (by omega)

end

section
variable {s : Fill} {path : Path} {old pending hashed : Bytes}

theorem flushFits (inner : path ≠ []) (holds : s.host.disk.content path = some old)
    (fits : pending.length ≤ s.room) (joined : old ++ pending = hashed) :
    ∃ t, Reaches filling (bufFlush path pending) s (.done (.ok ())) t ∧
      t.host.disk.content path = some hashed ∧ t.removes = s.removes := by
  unfold bufFlush
  split
  · rename_i none_
    rw [none_,List.append_nil] at joined
    exact ⟨s,.here _ _,joined ▸ holds,rfl⟩
  · rw [← joined]
    exact ⟨_,appendFits holds fits,Fs.contentPut _ inner _,rfl⟩

theorem flushTorn (holds : s.host.disk.content path = some old) (out : s.room < pending.length) :
    Reaches filling (bufFlush path pending) s (.done (.err "write_all"))
      {s.onDisk (s.host.disk.put path (.file (old ++ pending.take s.room))) with room := 0} := by
  unfold bufFlush
  rw [if_neg (by rintro none_; rw [none_] at out; exact absurd out (Nat.not_lt_zero _))]
  exact appendTorn holds out

theorem removeFill (inner : path ≠ []) (holds : s.host.disk.content path = some old) :
    ∃ t, Reaches filling (fs (.remove path)) s (.done (.ok (s.removes))) t ∧
      (s.removes = true → t.host.disk.get path = none) ∧
      (s.removes = false → t.host.disk.content path = some old) := by
  have done : s.host.disk.remove path = (true,s.host.disk.drop path) := by
    unfold Fs.remove
    rw [Fs.contentOf.mp holds]
  refine ⟨if s.removes then s.onDisk (s.host.disk.drop path) else s,hereReached ⟨?_,?_⟩,?_,?_⟩
  · rw [done,Bool.and_true]
  · rw [done]
  · intro may
    rw [if_pos may]
    exact Fs.getDropSame _ inner
  · intro may
    rw [if_neg (by simp [may])]
    exact holds

end

/- What of the file is on the disk when the download fails, unless it is removed: all that
was flushed, as far as there was room. -/
def leftOver (S : Session) (fileSize room : Nat) (input : Bytes) : Bytes :=
  let data := S.arrived fileSize input
  data.take (min room (if data.length = fileSize then fileSize else flushed data.length))

def Brings (S : Session) (fileSize room : Nat) (input : Bytes) : Prop :=
  (S.arrived fileSize input).length = fileSize ∧ fileSize ≤ room

inductive Left (S : Session) (response : DownloadResponse) (path : Path) (s : Fill) :
    Outcome Downloaded → Fs → Prop where
  | saved {disk} (brings : S.Brings response.fileSize.toNat s.room s.input)
      (same : S.sha256Hex (S.arrived response.fileSize.toNat s.input) = response.fileHash)
      (holds : disk.content path = some (S.arrived response.fileSize.toNat s.input)) :
      Left S response path s (.ok ⟨path,response⟩) disk
  | removed {disk message} (brings : S.Brings response.fileSize.toNat s.room s.input)
      (removes : s.removes = true) (gone : disk.get path = none) :
      Left S response path s (.err message) disk
  | stays {disk message} (broken : S.Brings response.fileSize.toNat s.room s.input →
        S.sha256Hex (S.arrived response.fileSize.toNat s.input) ≠ response.fileHash ∧ s.removes = false)
      (holds : disk.content path =
        some (S.leftOver response.fileSize.toNat s.room s.input)) :
      Left S response path s (.err message) disk

section
variable {s t : Fill} {path output : Path} {response : DownloadResponse} {room : Nat} {input : Bytes}

theorem flushedBrings {fileSize : Nat} (brings : S.Brings fileSize room input) :
    (S.arrived fileSize input).length = fileSize ∧ flushed fileSize ≤ room :=
  ⟨brings.1,(flushedLe fileSize).trans brings.2⟩

theorem stoppedLeft {message : String}
    (stopped : ¬ ((S.arrived response.fileSize.toNat s.input).length = response.fileSize.toNat ∧
      flushed response.fileSize.toNat ≤ s.room))
    (holds : t.host.disk.content path = some ((S.arrived response.fileSize.toNat s.input).take
      (min s.room (flushed (S.arrived response.fileSize.toNat s.input).length)))) :
    S.Left response path s (.err message) t.host.disk := by
  refine .stays (fun brings => absurd (flushedBrings brings) stopped) ?_
  rw [holds]
  unfold leftOver
  dsimp only
  split
  · rename_i whole
    have le := flushedLe response.fileSize.toNat
    rw [whole]
    rw [Nat.min_eq_left (by omega),Nat.min_eq_left (by omega)]
  · rfl

theorem finishLeft (inner : path ≠ [])
    (whole : (S.arrived response.fileSize.toNat s.input).length = response.fileSize.toNat)
    (space : t.room + flushed response.fileSize.toNat = s.room) (removes : t.removes = s.removes)
    (holds : t.host.disk.content path =
      some ((S.arrived response.fileSize.toNat s.input).take (flushed response.fileSize.toNat))) :
    ∃ result u, Reaches filling (S.finishDownload path response
        ⟨S.arrived response.fileSize.toNat s.input,
          (S.arrived response.fileSize.toNat s.input).drop (flushed response.fileSize.toNat)⟩)
        t (.done result) u ∧ S.Left response path s result u.host.disk := by
  generalize data_ : S.arrived response.fileSize.toNat s.input = data at whole holds ⊢
  have le := flushedLe response.fileSize.toNat
  unfold finishDownload
  by_cases fits : response.fileSize.toNat ≤ s.room
  · have brings : S.Brings response.fileSize.toNat s.room s.input := ⟨by rw [data_,whole],fits⟩
    obtain ⟨u,flushes,full,kept⟩ := flushFits inner holds (by rw [List.length_drop]; omega)
      (List.take_append_drop (flushed response.fileSize.toNat) data)
    by_cases same : S.sha256Hex data = response.fileHash
    · refine ⟨_,u,reachesThen flushes ?_,.saved brings (data_ ▸ same) (data_ ▸ full)⟩
      dsimp only
      rw [if_neg (not_not.mpr same)]
      exact .here _ _
    · obtain ⟨v,removed,gone,stays⟩ := removeFill inner full
      refine ⟨.err s!"✗ Hash mismatch: expected {response.fileHash} but computed {S.sha256Hex data}",v,
        reachesThen flushes ?_,?_⟩
      · dsimp only
        rw [if_pos same]
        exact reachesThen removed (.here _ _)
      · rw [kept,removes] at gone stays
        cases may : s.removes with
        | true => exact .removed brings may (gone may)
        | false =>
          refine .stays (fun _ => ⟨data_ ▸ same,may⟩) ?_
          rw [stays may,leftOver,data_,if_pos whole,Nat.min_eq_right fits,← whole,List.take_length]
  · have out : t.room < (data.drop (flushed response.fileSize.toNat)).length := by
      rw [List.length_drop]
      omega
    refine ⟨_,_,reachesBind (flushTorn holds out),.stays (fun brings => absurd brings.2 fits) ?_⟩
    rw [leftOver,data_]
    dsimp only
    rw [if_pos whole,Nat.min_eq_left (by omega),← space,Nat.add_comm,List.take_add]
    exact Fs.contentPut _ inner _

end

structure Tidy (S : Session) (output : Path) (response : DownloadResponse) (before : Fs)
    (result : Outcome Downloaded) (after : Fs) : Prop where
  failed : ∀ message path, result = .err message → Path.join output response.fileName = some path →
    after.get path = before.get path ∨ after.get path = none
  saved : ∀ d, result = .ok d → Path.join output response.fileName = some d.outputPath ∧
    ∃ content, after.content d.outputPath = some content ∧
      content.length = response.fileSize.toNat ∧ S.sha256Hex content = response.fileHash

/- download_client ends, and what it leaves is fine. -/
def CleansUp (S : Session) (fileId fileKey : String) (output : Path) (response : DownloadResponse)
    (s : Fill) : Prop :=
  ∃ result t, Reaches filling (S.downloadClient fileId fileKey output) s (.done result) t ∧
    result ≠ .panic ∧ S.Tidy output response s.host.disk result t.host.disk

def Grants (data : Bytes) (response : DownloadResponse) : Prop :=
  ∃ flag body, data = flag :: body ∧
    (flag = 1 ∨ flag = 2 ∧ ∃ warn, WarnHeader.deserialize body = .ok warn) ∧
    DownloadResponse.deserialize body = .ok response

def Clears (S : Session) (response : DownloadResponse) (path : Path) (disk : Fs) (room : Nat)
    (removes : Bool) (rest : Bytes) : Prop :=
  S.Brings response.fileSize.toNat room rest ∧
    (S.sha256Hex (S.arrived response.fileSize.toNat rest) = response.fileHash ∨ removes = true) ∨
  disk.content path = some (S.leftOver response.fileSize.toNat room rest)

section
variable {s t : Fill} {path output : Path} {response : DownloadResponse} {data rest : Bytes}
  {fileId fileKey : String} {result : Outcome Downloaded}

theorem leftTidy {before after : Fs} (place : Path.join output response.fileName = some path)
    (left : S.Left response path s result after) : S.Tidy output response before result after ↔
      S.Clears response path before s.room s.removes s.input := by
  cases left with
  | saved brings same holds =>
    refine iff_of_true ⟨nofun,fun d saved => ?_⟩ (.inl ⟨brings,.inl same⟩)
    cases saved
    exact ⟨place,_,holds,brings.1,same⟩
  | removed brings removes gone =>
    refine iff_of_true ⟨fun message other _ elsewhere => .inr ?_,nofun⟩ (.inl ⟨brings,.inr removes⟩)
    rw [Option.some.inj (elsewhere.symm.trans place)]
    exact gone
  | stays broken holds =>
    have node := Fs.contentOf.mp holds
    constructor
    · intro tidy
      rcases tidy.failed _ path rfl place with same | gone
      · exact .inr (Fs.contentOf.mpr (same.symm.trans node))
      · rw [node] at gone
        contradiction
    · rintro (⟨brings,cleared⟩ | there)
      · obtain ⟨other,fixed_⟩ := broken brings
        rcases cleared with same | removes
        · exact absurd same other
        · rw [fixed_] at removes
          contradiction
      · refine ⟨fun message other _ elsewhere => .inl ?_,nofun⟩
        rw [Option.some.inj (elsewhere.symm.trans place),node,Fs.contentOf.mp there]

theorem cleansRun (ran : Reaches filling (S.downloadClient fileId fileKey output) s (.done result) t) :
    S.CleansUp fileId fileKey output response s ↔
      result ≠ .panic ∧ S.Tidy output response s.host.disk result t.host.disk := by
  constructor
  · rintro ⟨other,u,also,ends⟩
    obtain ⟨rfl,rfl⟩ := determinedEnd fillingDetermined ran also
    exact ends
  · exact fun ends => ⟨result,t,ran,ends⟩

theorem failedEarly {message : String}
    (ran : Reaches filling (S.downloadClient fileId fileKey output) s (.done (.err message)) t)
    (same : t.host.disk = s.host.disk) : S.CleansUp fileId fileKey output response s := by
  rw [cleansRun ran]
  exact ⟨nofun,fun _ _ _ _ => .inl (by rw [same]),nofun⟩

theorem frameFill (small : data.length ≤ Frame.u32Max) :
    Reaches filling (S.writeEncryptFrameInto data) s (.done (.ok ()))
      {s with host := {s.host with drawn := s.host.drawn + 1}} := by
  unfold writeEncryptFrameInto
  rw [if_neg (by omega)]
  have drawn : Reaches filling (draw nonceLen) s (.done (.ok (s.host.random s.host.drawn nonceLen)))
      {s with host := {s.host with drawn := s.host.drawn + 1}} := hereReached ⟨rfl,rfl⟩
  exact reachesThen drawn (.answer ⟨rfl,rfl⟩ (.here _ _))

theorem bodyFill (carries : S.Carries s.input data rest) :
    Reaches filling S.readEncryptDataInto s (.done (.ok data)) {s with input := rest} := by
  obtain ⟨box,framed,opened⟩ := carries
  obtain ⟨four,later,size,stream⟩ := frontTaken fun short => framedShort short framed
  rw [stream,framedHead size] at framed
  obtain ⟨admitted,rfl⟩ := framed
  have length : Reaches filling readFrameLength s
      (.done (Frame.admitLength (Frame.fromBe32 four))) {s with input := box ++ rest} :=
    reachesThen (recvReached (fillRead size stream)) (.here _ _)
  have body : Reaches filling (readExact box.length) {s with input := box ++ rest}
      (.done (.ok ⟨box,rfl⟩)) {s with input := rest} := .answer (fillRead rfl rfl) (.here _ _)
  have long := S.cipher.openedLength opened
  rw [admitted] at length
  unfold readEncryptDataInto
  refine reachesThen length ?_
  rw [if_neg (by omega)]
  refine reachesThen body ?_
  simp only [opened,Outcome.ofOption,Program.liftDone]
  exact .here _ _

theorem grantedFill (carries : S.Carries s.input data rest) (grants : Grants data response) :
    Reaches filling (S.saveFile output) s (S.saveResponse output response) {s with input := rest} := by
  obtain ⟨flag,body,rfl,flagged,read⟩ := grants
  unfold saveFile
  refine reachesThen (bodyFill carries) ?_
  have first : index (flag :: body) 0 = .ok flag := rfl
  simp only [first,Program.liftDone,Program.bindDone,List.tail_cons]
  rcases flagged with rfl | ⟨rfl,warn,warned⟩
  · rw [if_neg (by decide),if_neg (by decide),if_neg (by decide)]
    simp only [read,Program.bindDone]
    exact .here _ _
  · rw [if_neg (by decide),if_pos rfl,if_neg (by decide)]
    simp only [warned,read,Program.bindDone]
    exact .here _ _

theorem responseFill (carries : S.Carries s.input data rest) (grants : Grants data response)
    (asked : (Command.serialize (.download ⟨fileId,fileKey⟩)).length ≤ Frame.u32Max) (output : Path) :
    Reaches filling (S.downloadClient fileId fileKey output) s (S.saveResponse output response)
      {s with host := {s.host with drawn := s.host.drawn + 1},input := rest} :=
  reachesThen (frameFill asked) (grantedFill carries grants)

theorem createFill (parent : s.host.disk.isDir path.dropLast = true)
    (free : s.host.disk.isDir path = false) : Reaches filling (create path) s (.done (.ok ()))
      (s.onDisk (s.host.disk.put path (.file []))) := by
  have answered : filling s (.here (.fs (.create path))) true
      (s.onDisk (s.host.disk.put path (.file []))) := by
    have made : s.host.disk.create path = (true,s.host.disk.put path (.file [])) :=
      if_pos ⟨parent,by simp [free]⟩
    refine ⟨?_,?_⟩ <;> simp only [Host.handle,Fs.exec,made]
    rfl
  exact reachesThen (hereReached answered) (.here _ _)

theorem createFails (taken : ¬ (s.host.disk.isDir path.dropLast = true ∧ s.host.disk.isDir path = false)) :
    Reaches filling (create path) s (.done (.err "File::create")) s := by
  have answered : filling s (.here (.fs (.create path))) false s := by
    have failed : s.host.disk.create path = (false,s.host.disk) := if_neg (by simpa using taken)
    refine ⟨?_,?_⟩ <;> simp only [Host.handle,Fs.exec,failed]
  exact reachesThen (hereReached answered) (.here _ _)

theorem saveLeft (place : Path.join output response.fileName = some path)
    (parent : s.host.disk.isDir path.dropLast = true) (free : s.host.disk.isDir path = false) :
    ∃ result t, Reaches filling (S.saveResponse output response) s (.done result) t ∧
      S.Left response path s result t.host.disk := by
  have inner : path ≠ [] := Path.joinInner place
  have created := createFill parent free
  obtain ⟨found,t,looped,filled⟩ := loopFills (S := S)
    (s := s.onDisk (s.host.disk.put path (.file []))) "Client download timed out reading chunk" inner
    (Fs.contentPut _ inner _) (List.length_replicate : freshDecBuf.length = readChunkSize)
    (List.append_nil []) rfl rfl (fun _ => Nat.dvd_zero _) (Nat.zero_le response.fileSize.toNat)
  replace filled : Filled path s.room response.fileSize.toNat
      (S.arrived response.fileSize.toNat s.input) (s.onDisk (s.host.disk.put path (.file []))) found t := by
    have limit : ([] : Bytes).length + (s.onDisk (s.host.disk.put path (.file []))).room = s.room :=
      Nat.zero_add _
    rw [limit] at filled
    exact filled
  have holds := filled.wrote.here
  have begun : Reaches filling (S.saveResponse output response) s
      (.done found >>= S.finishDownload path response) t := by
    unfold saveResponse
    rw [place]
    exact reachesThen created (reachesBind looped)
  by_cases whole : (S.arrived response.fileSize.toNat s.input).length = response.fileSize.toNat ∧
      flushed response.fileSize.toNat ≤ s.room
  · obtain ⟨rfl,space⟩ := filled.whole whole.1 whole.2
    rw [whole.1,Nat.min_eq_right whole.2] at holds
    rw [Program.bindDone] at begun
    obtain ⟨result,u,finished,left⟩ := finishLeft inner whole.1 space filled.removes holds
    exact ⟨result,u,reachesTrans begun finished,left⟩
  · obtain ⟨message,rfl⟩ := filled.broken whole
    rw [Program.bindErr] at begun
    exact ⟨.err message,t,begun,stoppedLeft whole holds⟩

theorem leftCalm {disk : Fs} (left : S.Left response path s result disk) : result ≠ .panic := by
  cases left <;> exact nofun

theorem createdCleans (carries : S.Carries s.input data rest) (grants : Grants data response)
    (asked : (Command.serialize (.download ⟨fileId,fileKey⟩)).length ≤ Frame.u32Max)
    (place : Path.join output response.fileName = some path)
    (parent : s.host.disk.isDir path.dropLast = true) (free : s.host.disk.isDir path = false) :
    S.CleansUp fileId fileKey output response s ↔
      S.Clears response path s.host.disk s.room s.removes rest := by
  have granted := responseFill carries grants asked output
  obtain ⟨result,t,saved,left⟩ := saveLeft (S := S)
    (s := {s with host := {s.host with drawn := s.host.drawn + 1},input := rest}) place parent free
  rw [cleansRun (reachesTrans granted saved),leftTidy place left]
  exact and_iff_right (leftCalm left)

theorem unaskedCleans (long : ¬ (Command.serialize (.download ⟨fileId,fileKey⟩)).length ≤ Frame.u32Max) :
    S.CleansUp fileId fileKey output response s := by
  have refused : Reaches filling (S.downloadClient fileId fileKey output) s
      (.done (.err s!"Too large content: {(Command.serialize (.download ⟨fileId,fileKey⟩)).length} bytes"))
      s := by
    unfold downloadClient writeEncryptFrameInto
    rw [if_pos (by omega)]
    exact .here _ _
  exact failedEarly refused rfl

theorem uncreatedCleans (carries : S.Carries s.input data rest) (grants : Grants data response)
    (asked : (Command.serialize (.download ⟨fileId,fileKey⟩)).length ≤ Frame.u32Max)
    (uncreated : ∀ path, Path.join output response.fileName = some path →
      ¬ (s.host.disk.isDir path.dropLast = true ∧ s.host.disk.isDir path = false)) :
    S.CleansUp fileId fileKey output response s := by
  have granted := responseFill carries grants asked output
  unfold saveResponse at granted
  cases place : Path.join output response.fileName with
  | none =>
    rw [place] at granted
    exact failedEarly granted rfl
  | some path =>
    rw [place] at granted
    have failed := createFails (s := {s with host := {s.host with drawn := s.host.drawn + 1},input := rest})
      (uncreated path place)
    exact failedEarly (reachesTrans granted (reachesBind failed)) rfl

end

end Session

namespace Leftovers
open Session RoundTrip

theorem leavesExactly (S : Session) (fileId fileKey : String) (output : Path)
    (response : DownloadResponse) (s : Fill) {data rest : Bytes} (carries : S.Carries s.input data rest)
    (grants : Grants data response) :
    S.CleansUp fileId fileKey output response s ↔
      ((Command.serialize (.download ⟨fileId,fileKey⟩)).length ≤ Frame.u32Max →
        ∀ path, Path.join output response.fileName = some path →
          s.host.disk.isDir path.dropLast = true → s.host.disk.isDir path = false →
          S.Clears response path s.host.disk s.room s.removes rest) := by
  by_cases asked : (Command.serialize (.download ⟨fileId,fileKey⟩)).length ≤ Frame.u32Max
  · by_cases created : ∃ path, Path.join output response.fileName = some path ∧
        s.host.disk.isDir path.dropLast = true ∧ s.host.disk.isDir path = false
    · obtain ⟨path,place,parent,free⟩ := created
      rw [createdCleans carries grants asked place parent free]
      constructor
      · intro clears _ other elsewhere _ _
        cases place.symm.trans elsewhere
        exact clears
      · exact fun all => all asked path place parent free
    · refine iff_of_true (uncreatedCleans carries grants asked ?_) ?_
      · exact fun path place both => created ⟨path,place,both⟩
      · exact fun _ path place parent free => absurd ⟨path,place,parent,free⟩ created
  · exact iff_of_true (unaskedCleans asked) fun small => absurd small asked

def twoBytes : Bytes := [1,2]

def twoResponse : DownloadResponse :=
  ⟨"dummy.bin",2,sampleSession.sha256Hex twoBytes,(sampleHost ⟨[]⟩).clock 0⟩

def zeroNonce : Nonce := ⟨List.replicate nonceLen 0,rfl⟩

def sampleFill (rest : Bytes) : Fill where
  host := sampleHost ⟨[(["home","dummy.bin"],.file [7]),(["home"],.dir)]⟩
  input := Frame.frame sampleSession.cipher sampleSession.sessionKey zeroNonce
    (1 :: twoResponse.serialize) ++ rest
  ending := .eof
  room := 100
  removes := true

theorem sampleCarries (rest : Bytes) : sampleSession.Carries (sampleFill rest).input
    (1 :: twoResponse.serialize) rest := carriesFrame (by decide +kernel) zeroNonce rest

theorem sampleGrants : Grants (1 :: twoResponse.serialize) twoResponse :=
  ⟨1,_,rfl,.inl rfl,responseDecoded (by decide +kernel)⟩

/- The server closes the connection after its response: the file that was there is empty. -/
theorem cutStreamEmpties : ¬ ∀ (S : Session) (fileId fileKey : String) (output : Path)
    (response : DownloadResponse) (s : Fill) (data rest : Bytes), S.Carries s.input data rest →
    Grants data response → S.CleansUp fileId fileKey output response s := by
  intro always
  have cleans := always sampleSession "" "" ["home"] twoResponse (sampleFill []) _ _ (sampleCarries [])
    sampleGrants
  have place : Path.join ["home"] twoResponse.fileName = some ["home","dummy.bin"] := by decide +kernel
  rw [createdCleans (sampleCarries []) sampleGrants (by decide +kernel) place (by decide) (by decide)]
    at cleans
  rcases cleans with ⟨brings,-⟩ | there
  · exact absurd brings.1 (by decide +kernel)
  · exact absurd there (by decide +kernel)

theorem wholeFileSaved : sampleSession.CleansUp "" "" ["home"] twoResponse (sampleFill
    (sampleSession.cipher.sealed sampleSession.sessionKey zeroNonce twoBytes)) := by
  have arrives : sampleSession.arrived 2
      (sampleSession.cipher.sealed sampleSession.sessionKey zeroNonce twoBytes) = twoBytes := by
    have reads : fullReads readChunkSize twoBytes = [twoBytes] := by
      rw [fullReadsMore (by decide) (by decide),
        show twoBytes.drop readChunkSize = [] from List.drop_eq_nil_of_le (by decide),fullReadsEnd]
      rfl
    have boxes : Boxes sampleSession (fullReads readChunkSize twoBytes)
        (sampleSession.cipher.sealed sampleSession.sessionKey zeroNonce twoBytes ++ []) :=
      reads ▸ .more zeroNonce .none
    have arrive := sealedArrive boxes []
    rwa [List.append_nil,List.append_nil] at arrive
  refine (leavesExactly sampleSession "" "" ["home"] twoResponse _ (sampleCarries _) sampleGrants).mpr ?_
  intro _ path _ _ _
  refine .inl ⟨⟨?_,by decide⟩,.inl ?_⟩
  · exact congrArg List.length arrives
  · exact congrArg sampleSession.sha256Hex arrives

end Leftovers
end RDrive
