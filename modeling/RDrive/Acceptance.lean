import RDrive.Overwrite

/-! What handle_upload accepts: it answers success exactly when the stream begins with
the file in sealed chunks. The server works on the slot alone, and the stream may end
anywhere; nothing else fails. -/
namespace RDrive
open Crypto Header Duplex Party Bytes Program

/- ceil(fileSize / READ_CHUNK_SIZE) chunks, all of them full but the last. -/
def chunkCount (fileSize : Nat) : Nat := (fileSize + (readChunkSize - 1)) / readChunkSize

def plainSizes (fileSize : Nat) : List Nat :=
  List.replicate (fileSize / readChunkSize) readChunkSize ++
    if fileSize % readChunkSize = 0 then [] else [fileSize % readChunkSize]

def chunkReads (fileSize : Nat) : List Nat :=
  (plainSizes fileSize).map fun plainText => nonceLen + plainText + tagLen

theorem plainSizesNone : plainSizes 0 = [] := by
  simp [plainSizes]

theorem plainSizesMore {n : Nat} (positive : 0 < n) : plainSizes n =
    min readChunkSize n :: plainSizes (n - min readChunkSize n) := by
  have chunk : 0 < readChunkSize := by decide
  rcases Nat.lt_or_ge n readChunkSize with short | whole
  · rw [Nat.min_eq_right (by omega),Nat.sub_self,plainSizesNone]
    unfold plainSizes
    rw [Nat.div_eq_of_lt short,Nat.mod_eq_of_lt short,if_neg (by omega)]
    rfl
  · rw [Nat.min_eq_left whole]
    have split_ : n = n - readChunkSize + readChunkSize := by omega
    have quotient : n / readChunkSize = (n - readChunkSize) / readChunkSize + 1 := by
      conv => lhs; rw [split_]
      exact Nat.add_div_right _ chunk
    have remainder : n % readChunkSize = (n - readChunkSize) % readChunkSize := by
      conv => lhs; rw [split_]
      exact Nat.add_mod_right _ _
    unfold plainSizes
    rw [quotient,remainder,List.replicate_succ,List.cons_append]

theorem plainSizesSum (n : Nat) : (plainSizes n).sum = n := by
  have parts := Nat.div_add_mod n readChunkSize
  unfold plainSizes
  rw [List.sum_append,List.sum_replicate_nat,Nat.mul_comm]
  split
  · rw [List.sum_nil]
    omega
  · rw [List.sum_singleton]
    exact parts

theorem plainSizesCount (n : Nat) : (plainSizes n).length = chunkCount n := by
  have chunk : readChunkSize = 65536 := rfl
  unfold plainSizes chunkCount
  rw [List.length_append,List.length_replicate,chunk]
  split
  · rw [List.length_nil]
    omega
  · rw [List.length_singleton]
    omega

theorem fullReadsPlain (b : Bytes) :
    (fullReads readChunkSize b).map List.length = plainSizes b.length := by
  have positive : 0 < readChunkSize := by decide
  induction size : b.length using Nat.strong_induction_on generalizing b with
  | _ m ih =>
    cases m with
    | zero =>
      rw [List.eq_nil_of_length_eq_zero size,fullReadsEnd,plainSizesNone,List.map_nil]
    | succ k =>
      have some_ : b ≠ [] := List.ne_nil_of_length_eq_add_one size
      have left : (b.drop readChunkSize).length = k + 1 - min readChunkSize (k + 1) := by
        rw [List.length_drop]
        omega
      have rest := ih _ (by omega) (b.drop readChunkSize) left
      rw [fullReadsMore some_ positive,List.map_cons,plainSizesMore (Nat.succ_pos k),rest,
        List.length_take,size]

namespace Session
variable {S : Session}

/- Boxes that open under the session key one after the other, as what encrypt_into
seals does. -/
inductive Unsealed (S : Session) : List Bytes → Bytes → Prop where
  | none : Unsealed S [] []
  | more {box plain rest boxes} (opened : S.cipher.opened S.sessionKey box = some plain)
      (later : Unsealed S rest boxes) : Unsealed S (plain :: rest) (box ++ boxes)

theorem boxesUnsealed {chunks : List Bytes} {boxes : Bytes} (sealed_ : Boxes S chunks boxes) :
    Unsealed S chunks boxes := by
  induction sealed_ with
  | none => exact .none
  | more nonce later ih => exact .more (S.cipher.openedSealed S.sessionKey nonce _) ih

theorem unsealedLength {chunks : List Bytes} {boxes : Bytes} (unsealed : Unsealed S chunks boxes) :
    boxes.length = (chunks.map List.length).sum + 28 * chunks.length := by
  induction unsealed with
  | none => rfl
  | more opened later ih =>
    have size := S.cipher.openedLength opened
    simp only [List.length_append,List.map_cons,List.sum_cons,List.length_cons,ih,size]
    unfold nonceLen tagLen
    omega

theorem unsealedUnique {chunks others : List Bytes} {boxes more rest left : Bytes}
    (one : Unsealed S chunks boxes) (two : Unsealed S others more)
    (sizes : chunks.map List.length = others.map List.length) (joined : boxes ++ rest = more ++ left) :
    chunks = others ∧ rest = left := by
  induction one generalizing others more with
  | none =>
    cases two with
    | none => exact ⟨rfl,joined⟩
    | more opened later => contradiction
  | @more box plain chunks boxes opened later ih =>
    cases two with
    | none => contradiction
    | @more other same others more openedToo laterToo =>
      obtain ⟨size,sizes⟩ := List.cons.inj sizes
      have one := S.cipher.openedLength opened
      have two := S.cipher.openedLength openedToo
      rw [List.append_assoc,List.append_assoc] at joined
      obtain ⟨rfl,after⟩ := List.append_inj joined (by omega)
      obtain ⟨rfl,rest⟩ := ih laterToo sizes after
      exact ⟨by rw [Option.some.inj (opened.symm.trans openedToo)],rest⟩

structure Starts (S : Session) (fileSize : Nat) (input : Bytes) (chunks : List Bytes) (rest : Bytes) :
    Prop where
  boxes : ∃ boxes, input = boxes ++ rest ∧ Unsealed S chunks boxes
  sizes : chunks.map List.length = plainSizes fileSize

variable {fileSize : Nat} {input rest : Bytes} {chunks : List Bytes}

theorem startsLength (starts : S.Starts fileSize input chunks rest) :
    ∃ taken, input = taken ++ rest ∧ taken.length = fileSize + 28 * chunkCount fileSize ∧
      chunks.flatten.length = fileSize := by
  obtain ⟨⟨boxes,joined,unsealed⟩,sizes⟩ := starts
  have count := congrArg List.length sizes
  rw [List.length_map,plainSizesCount] at count
  have length := unsealedLength unsealed
  rw [sizes,plainSizesSum,count] at length
  exact ⟨boxes,joined,length,by rw [List.length_flatten,sizes,plainSizesSum]⟩

theorem startsUnique {others : List Bytes} {more : Bytes} (one : S.Starts fileSize input chunks rest)
    (two : S.Starts fileSize input others more) : chunks = others ∧ rest = more := by
  obtain ⟨⟨boxes,rfl,unsealed⟩,sizes⟩ := one
  obtain ⟨⟨boxes',joined,unsealed'⟩,sizes'⟩ := two
  exact unsealedUnique unsealed unsealed' (sizes.trans sizes'.symm) joined

theorem boxesStart {content boxes : Bytes} (sealed_ : Boxes S (fullReads readChunkSize content) boxes)
    (rest : Bytes) :
    S.Starts content.length (boxes ++ rest) (fullReads readChunkSize content) rest :=
  ⟨⟨boxes,rfl,boxesUnsealed sealed_⟩,fullReadsPlain content⟩

theorem startsNone : S.Starts 0 input [] input :=
  ⟨⟨[],rfl,.none⟩,plainSizesNone.symm⟩

theorem startsMore (positive : 0 < fileSize) {box more : Bytes}
    (size : box.length = nonceLen + min readChunkSize fileSize + tagLen) :
    S.Starts fileSize (box ++ more) chunks rest ↔
      ∃ plain later, chunks = plain :: later ∧ S.cipher.opened S.sessionKey box = some plain ∧
        S.Starts (fileSize - min readChunkSize fileSize) more later rest := by
  constructor
  · intro ⟨⟨boxes,joined,unsealed⟩,sizes⟩
    rw [plainSizesMore positive] at sizes
    cases unsealed with
    | none => contradiction
    | @more first plain later boxes opened unsealed =>
      obtain ⟨head,sizes⟩ := List.cons.inj sizes
      have firstSize := S.cipher.openedLength opened
      rw [List.append_assoc] at joined
      obtain ⟨rfl,rfl⟩ := List.append_inj joined (by omega)
      exact ⟨plain,later,rfl,opened,⟨boxes,rfl,unsealed⟩,sizes⟩
  · intro ⟨plain,later,same,opened,⟨boxes,joined,unsealed⟩,sizes⟩
    subst same
    have plainSize := S.cipher.openedLength opened
    refine ⟨⟨box ++ boxes,?_,.more opened unsealed⟩,?_⟩
    · rw [joined,List.append_assoc]
    · rw [List.map_cons,sizes,plainSizesMore positive,show plain.length = min readChunkSize fileSize by omega]

theorem startsShort (positive : 0 < fileSize)
    (short : input.length < nonceLen + min readChunkSize fileSize + tagLen) :
    ¬ S.Starts fileSize input chunks rest := by
  intro ⟨⟨boxes,joined,unsealed⟩,sizes⟩
  rw [plainSizesMore positive] at sizes
  cases unsealed with
  | none => contradiction
  | @more first plain later boxes opened unsealed =>
    have head := (List.cons.inj sizes).1
    have firstSize := S.cipher.openedLength opened
    rw [joined] at short
    simp only [List.length_append] at short
    omega

end Session

/- A server that reads from a stream up to its end, what it wrote to its client, and
which reads it made; a read of nothing leaves no trace. -/
structure Feed where
  host : Host
  input : Bytes
  output : Bytes
  asked : List Nat

def feeding : Env (Port HostSig) Feed := fun s c r t =>
  match c, r with
  | .here c, answer =>
    answer = (Host.handle s.host c).1 ∧ t = {s with host := (Host.handle s.host c).2}
  | .send b, answer => answer = .ok () ∧ t = {s with output := s.output ++ b}
  | .recv n, .ok b => b.val = s.input.take n ∧
      t = {s with input := s.input.drop n,asked := if n = 0 then s.asked else s.asked ++ [n]}
  | .recv n, .error fault => fault = .eof ∧ s.input.length < n ∧
      t = {s with input := [],asked := s.asked ++ [n]}

theorem fedEnd {s : Feed} {n : Nat} (short : s.input.length < n) :
    feeding s (.recv n) (.error .eof) {s with input := [],asked := s.asked ++ [n]} := ⟨rfl,short,rfl⟩

theorem fedRead {s : Feed} {n : Nat} {b more : Bytes} (size : b.length = n) (positive : 0 < n)
    (stream : s.input = b ++ more) :
    feeding s (.recv n) (.ok ⟨b,size⟩) {s with input := more,asked := s.asked ++ [n]} := by
  subst size
  refine ⟨?_,?_⟩
  · rw [stream,List.take_left]
  · rw [stream,List.drop_left,if_neg (by omega)]

theorem feedingDetermined : Determined feeding := by
  intro s c r t other u one two
  cases c with
  | here c =>
    obtain ⟨rfl,rfl⟩ := one
    obtain ⟨rfl,rfl⟩ := two
    exact ⟨rfl,rfl⟩
  | send b =>
    obtain ⟨rfl,rfl⟩ := one
    obtain ⟨rfl,rfl⟩ := two
    exact ⟨rfl,rfl⟩
  | recv n =>
    cases r with
    | ok b =>
      obtain ⟨bytes,rfl⟩ := one
      have enough := b.property
      rw [bytes,List.length_take] at enough
      cases other with
      | ok b' =>
        obtain ⟨bytes',rfl⟩ := two
        exact ⟨congrArg Except.ok (Subtype.ext (bytes.trans bytes'.symm)),rfl⟩
      | error fault =>
        obtain ⟨-,short,-⟩ := two
        omega
    | error fault =>
      obtain ⟨rfl,short,rfl⟩ := one
      cases other with
      | ok b =>
        obtain ⟨bytes,-⟩ := two
        have enough := b.property
        rw [bytes,List.length_take] at enough
        omega
      | error fault =>
        obtain ⟨rfl,-,rfl⟩ := two
        exact ⟨rfl,rfl⟩

theorem quietFed {α : Type} {p q : Party α} {h last : Host} {output : Bytes}
    (advanced : Advances Host.handle p h [] output q last) (input before : Bytes) (asked : List Nat) :
    Reaches feeding p ⟨h,input,before,asked⟩ q ⟨last,input,before ++ output,asked⟩ := by
  let follows : Host → Bytes → Bytes → Feed → Prop := fun s left out t =>
    left = [] ∧ t.host = s ∧ t.input = input ∧ t.output ++ out = before ++ output ∧ t.asked = asked
  obtain ⟨u,reached,-,host,stream,written,reads⟩ := @advancesSimulated _ _ _ _ Host.handle feeding follows
    (fun s left out t c following => by
      obtain ⟨none_,rfl,stream,written,reads⟩ := following
      exact ⟨{t with host := (Host.handle t.host c).2},⟨rfl,rfl⟩,none_,rfl,stream,written,reads⟩)
    (fun s left out t b following => by
      obtain ⟨none_,host,stream,written,reads⟩ := following
      refine ⟨{t with output := t.output ++ b},⟨rfl,rfl⟩,none_,host,stream,?_,reads⟩
      rw [← written,List.append_assoc])
    (fun s left out t n b following => by
      obtain ⟨none_,host,stream,written,reads⟩ := following
      obtain ⟨empty,rest⟩ := List.append_eq_nil_iff.mp none_
      have zero : n = 0 := by rw [← b.property,empty]; rfl
      subst zero
      exact ⟨t,⟨empty,rfl⟩,rest,host,stream,written,reads⟩)
    _ _ _ _ _ _ advanced ⟨h,input,before,asked⟩ ⟨rfl,rfl,rfl,rfl,rfl⟩
  rw [List.append_nil] at written
  cases u
  simp only at host stream written reads
  subst host stream written reads
  exact reached

namespace Session
variable {S : Session}

def LoopEnds (S : Session) (path : Path) (s : Feed) (old hashed pending : Bytes) (left : Nat)
    (result : Outcome Received) (t : Feed) : Prop :=
  (∃ chunks disk written after, S.Starts left s.input chunks t.input ∧
    Wrote path s.host.disk disk written ∧ written ++ after = old ++ pending ++ chunks.flatten ∧
    result = .ok ⟨hashed ++ chunks.flatten,after⟩ ∧
    t = ⟨{s.host with disk := disk},t.input,s.output,s.asked ++ chunkReads left⟩) ∨
  ((∀ chunks rest, ¬ S.Starts left s.input chunks rest) ∧ (∃ message, result = .err message) ∧
    t.output = s.output ∧ ∃ made, made <+: chunkReads left ∧ t.asked = s.asked ++ made)

theorem chunkReadsMore {n : Nat} (positive : 0 < n) : chunkReads n =
    (nonceLen + min readChunkSize n + tagLen) :: chunkReads (n - min readChunkSize n) := by
  unfold chunkReads
  rw [plainSizesMore positive,List.map_cons]

section
variable {text : String} {path : Path} {fileSize received : Nat} {decBuf hashed pending old : Bytes}
  {h : Host} {input box later before : Bytes} {asked : List Nat}

theorem streamCut (more : received < fileSize)
    (short : input.length < nonceLen + min readChunkSize (fileSize - received) + tagLen) :
    Reaches feeding (S.receiveLoop text path fileSize decBuf hashed pending received)
      ⟨h,input,before,asked⟩ (.done (.err "early eof"))
      ⟨h,[],before,asked ++ [nonceLen + min readChunkSize (fileSize - received) + tagLen]⟩ := by
  have ended := fedEnd (s := ⟨h,input,before,asked⟩) short
  rw [receiveLoop,dif_pos more]
  exact .answer ended (.here _ _)

theorem roundRefused {σ : Type} {env : Env (Port HostSig) σ} {s t : σ} (more : received < fileSize)
    (room : decBuf.length = readChunkSize)
    (size : box.length = nonceLen + min readChunkSize (fileSize - received) + tagLen)
    (closed : S.cipher.opened S.sessionKey box = none)
    (answered : env s (.recv (nonceLen + min readChunkSize (fileSize - received) + tagLen))
      (.ok ⟨box,size⟩) t) :
    Reaches env (S.receiveLoop text path fileSize decBuf hashed pending received) s
      (.done (.err "aead::Error")) t := by
  have refused : decryptInto S.cipher box decBuf S.sessionKey = .err "aead::Error" := by
    rw [decryptFits (by omega) (by omega),closed]
  rw [receiveLoop,dif_pos more]
  refine .answer answered ?_
  dsimp only
  split
  · rename_i message got
    rw [refused] at got
    cases got
    exact .here _ _
  · rename_i got
    rw [refused] at got
    contradiction
  · rename_i buf decLen got
    rw [refused] at got
    contradiction

theorem roundOpened {σ : Type} {env : Env (Port HostSig) σ} {s t : σ} {plain : Bytes}
    (more : received < fileSize) (room : decBuf.length = readChunkSize)
    (size : box.length = nonceLen + min readChunkSize (fileSize - received) + tagLen)
    (opened : S.cipher.opened S.sessionKey box = some plain)
    (answered : env s (.recv (nonceLen + min readChunkSize (fileSize - received) + tagLen))
      (.ok ⟨box,size⟩) t) :
    ∃ buf, buf.length = readChunkSize ∧
      Reaches env (S.receiveLoop text path fileSize decBuf hashed pending received) s
        (bufWrite path pending plain >>= fun after =>
          S.receiveLoop text path fileSize buf (hashed ++ plain) after (received + plain.length)) t := by
  have plainSize := S.cipher.openedLength opened
  have fits : plain.length ≤ decBuf.length := by omega
  have whole : decryptInto S.cipher box decBuf S.sessionKey =
      .ok (plain ++ decBuf.drop plain.length,plain.length) := boxOpened S.cipher opened fits
  refine ⟨plain ++ decBuf.drop plain.length,
    by simp only [List.length_append,List.length_drop]; omega,?_⟩
  conv => arg 2; rw [receiveLoop,dif_pos more]
  refine .answer answered ?_
  dsimp only
  split
  · rename_i message got
    rw [whole] at got
    contradiction
  · rename_i got
    rw [whole] at got
    contradiction
  · rename_i buf decLen got
    rw [whole] at got
    cases got
    rw [sliceOk (by omega) (by simp),Program.liftDone,Program.bindDone]
    simp only [List.take_left,List.drop_zero]
    exact .here _ _

theorem chunkRefused (more : received < fileSize) (room : decBuf.length = readChunkSize)
    (size : box.length = nonceLen + min readChunkSize (fileSize - received) + tagLen)
    (closed : S.cipher.opened S.sessionKey box = none) :
    Reaches feeding (S.receiveLoop text path fileSize decBuf hashed pending received)
      ⟨h,box ++ later,before,asked⟩ (.done (.err "aead::Error"))
      ⟨h,later,before,asked ++ [nonceLen + min readChunkSize (fileSize - received) + tagLen]⟩ :=
  roundRefused more room size closed
    (fedRead (s := ⟨h,box ++ later,before,asked⟩) size (by unfold nonceLen; omega) rfl)

theorem chunkFed {plain : Bytes} (inner : path ≠ []) (found : h.disk.content path = some old)
    (more : received < fileSize) (room : decBuf.length = readChunkSize)
    (size : box.length = nonceLen + min readChunkSize (fileSize - received) + tagLen)
    (opened : S.cipher.opened S.sessionKey box = some plain) :
    ∃ disk after written buf, Wrote path h.disk disk written ∧
      written ++ after = old ++ pending ++ plain ∧ buf.length = readChunkSize ∧
      Reaches feeding (S.receiveLoop text path fileSize decBuf hashed pending received)
        ⟨h,box ++ later,before,asked⟩
        (S.receiveLoop text path fileSize buf (hashed ++ plain) after (received + plain.length))
        ⟨{h with disk := disk},later,before,
          asked ++ [nonceLen + min readChunkSize (fileSize - received) + tagLen]⟩ := by
  obtain ⟨disk,after,written,wrote,joined,advanced⟩ := bufWritten pending plain inner found
  have read := fedRead (s := ⟨h,box ++ later,before,asked⟩) size (by unfold nonceLen; omega) rfl
  obtain ⟨buf,full,round⟩ := @roundOpened S text path fileSize received decBuf hashed pending box _
    feeding _ _ plain more room size opened read
  have quiet := quietFed advanced later before
    (asked ++ [nonceLen + min readChunkSize (fileSize - received) + tagLen])
  rw [List.append_nil] at quiet
  exact ⟨disk,after,written,buf,wrote,joined,full,
    reachesTrans round (reachesThen quiet (.here _ _))⟩

theorem endsAfter {plain after written : Bytes} {disk : Fs} {left : Nat} {result : Outcome Received}
    {t : Feed} (positive : 0 < left) (size : box.length = nonceLen + min readChunkSize left + tagLen)
    (opened : S.cipher.opened S.sessionKey box = some plain)
    (wrote : Wrote path h.disk disk written) (joined : written ++ after = old ++ pending ++ plain)
    (ends : S.LoopEnds path
      ⟨{h with disk := disk},later,before,asked ++ [nonceLen + min readChunkSize left + tagLen]⟩
      written (hashed ++ plain) after (left - min readChunkSize left) result t) :
    S.LoopEnds path ⟨h,box ++ later,before,asked⟩ old hashed pending left result t := by
  rcases ends with ⟨chunks,last,writtenLast,afterLast,starts,wroteLast,joinedLast,rfl,same⟩ |
    ⟨never,failed,output,made,among,reads⟩
  · refine .inl ⟨plain :: chunks,last,writtenLast,afterLast,
      (startsMore positive size).mpr ⟨plain,chunks,rfl,opened,starts⟩,wroteTrans wrote wroteLast,?_,?_,?_⟩
    · rw [joinedLast,joined,List.flatten_cons,List.append_assoc _ plain]
    · rw [List.flatten_cons,List.append_assoc]
    · rw [same,chunkReadsMore positive,List.append_assoc,List.singleton_append]
  · refine .inr ⟨?_,failed,output,(nonceLen + min readChunkSize left + tagLen) :: made,?_,?_⟩
    · intro chunks rest starts
      obtain ⟨_,more,_,_,onward⟩ := (startsMore positive size).mp starts
      exact never more rest onward
    · rw [chunkReadsMore positive,List.cons_prefix_cons]
      exact ⟨rfl,among⟩
    · rw [reads,List.append_assoc,List.singleton_append]

theorem endsWhole (found : h.disk.content path = some old) :
    S.LoopEnds path ⟨h,input,before,asked⟩ old hashed pending 0 (.ok ⟨hashed,pending⟩)
      ⟨h,input,before,asked⟩ := by
  refine .inl ⟨[],h.disk,old,pending,startsNone,⟨found,fun _ _ => rfl⟩,?_,?_,?_⟩
  · rw [List.flatten_nil,List.append_nil]
  · rw [List.flatten_nil,List.append_nil]
  · unfold chunkReads
    rw [plainSizesNone,List.map_nil,List.append_nil]

theorem loopFed (inner : path ≠ []) (found : h.disk.content path = some old)
    (room : decBuf.length = readChunkSize) :
    ∃ result t, Reaches feeding (S.receiveLoop text path fileSize decBuf hashed pending received)
        ⟨h,input,before,asked⟩ (.done result) t ∧
      S.LoopEnds path ⟨h,input,before,asked⟩ old hashed pending (fileSize - received) result t := by
  induction left : fileSize - received using Nat.strong_induction_on
    generalizing received decBuf hashed pending old h input asked with
  | _ m ih =>
    subst left
    by_cases more : received < fileSize
    · have positive : 0 < fileSize - received := by omega
      have chunk : 0 < readChunkSize := by decide
      by_cases short : input.length < nonceLen + min readChunkSize (fileSize - received) + tagLen
      · refine ⟨_,_,streamCut more short,.inr ⟨?_,⟨_,rfl⟩,rfl,_,?_,rfl⟩⟩
        · exact fun chunks rest => startsShort positive short
        · rw [chunkReadsMore positive]
          exact List.prefix_append [_] _
      · obtain ⟨box,later,size,rfl⟩ := frontTaken short
        cases opened : S.cipher.opened S.sessionKey box with
        | none =>
          refine ⟨_,_,chunkRefused more room size opened,.inr ⟨?_,⟨_,rfl⟩,rfl,_,?_,rfl⟩⟩
          · intro chunks rest starts
            obtain ⟨plain,_,-,opens,-⟩ := (startsMore positive size).mp starts
            rw [opened] at opens
            contradiction
          · rw [chunkReadsMore positive]
            exact List.prefix_append [_] _
        | some plain =>
          have plainSize := S.cipher.openedLength opened
          obtain ⟨disk,after,written,buf,wrote,joined,roomNext,round⟩ := @chunkFed S text path fileSize
            received decBuf hashed pending old h box later before asked plain inner found more room
            size opened
          have next : fileSize - received - min readChunkSize (fileSize - received) =
              fileSize - (received + plain.length) := by omega
          obtain ⟨result,t,reached,ends⟩ := @ih (fileSize - (received + plain.length)) (by omega)
            (received + plain.length) buf (hashed ++ plain) after written {h with disk := disk} later
            (asked ++ [nonceLen + min readChunkSize (fileSize - received) + tagLen]) wrote.here
            roomNext rfl
          refine ⟨result,t,reachesTrans round reached,?_⟩
          rw [← next] at ends
          exact endsAfter positive size opened wrote joined ends
    · refine ⟨.ok ⟨hashed,pending⟩,⟨h,input,before,asked⟩,?_,?_⟩
      · rw [receiveLoop,dif_neg more]
        exact .here _ _
      · rw [show fileSize - received = 0 by omega]
        exact endsWhole found

end

theorem uploadMismatched {h : Host} {headers : UploadHeader} (arc : FileLock.Arc)
    (networkElapsed : F32) (found : Received) {written : Bytes}
    (mismatch : S.sha256Hex found.hashed ≠ headers.fileHash)
    (file : h.disk.content (S.filePath (UploadHeader.slot S headers)) = some written) :
    ∃ nonce last, Advances Host.handle (S.finishUpload headers arc networkElapsed found) h []
      (Frame.frame S.cipher S.sessionKey nonce (3 :: ErrorHeader.serialize ⟨406,"File hash mismatch"⟩))
      (.done (.ok ())) last := by
  obtain ⟨disk,wrote,flushed⟩ := bufFlushed (h := h) found.pending (fileInner S _) file
  obtain ⟨nonce,sent⟩ := closingWritten (S := S) (h := {h with
    disk := (disk.exec (.remove (S.filePath (UploadHeader.slot S headers)))).2})
    (3 :: ErrorHeader.serialize ⟨406,"File hash mismatch"⟩) (by decide +kernel)
  refine ⟨nonce,{h with
    disk := (disk.exec (.remove (S.filePath (UploadHeader.slot S headers)))).2
    drawn := h.drawn + 1},?_⟩
  unfold finishUpload
  refine advancesQuiet flushed ?_
  dsimp only
  rw [if_pos mismatch]
  exact advancesQuiet (Host.fsAdvances _) sent

def Succeeds (S : Session) (headers : UploadHeader) (output : Bytes) : Prop :=
  ∃ first second networkElapsed, output = Frame.frame S.cipher S.sessionKey first [1] ++
    Frame.frame S.cipher S.sessionKey second
      (1 :: UploadResponse.serialize ⟨headers.fileId,headers.fileHash,networkElapsed⟩)

theorem ackAlone {headers : UploadHeader} (nonce : Nonce) :
    ¬ S.Succeeds headers (Frame.frame S.cipher S.sessionKey nonce [1]) := by
  intro ⟨first,second,networkElapsed,same⟩
  have lengths := congrArg List.length same
  simp only [Frame.frame,List.length_append,Frame.be32Length,Aead.sealedLength] at lengths
  omega

theorem ackRefused {headers : UploadHeader} (one two : Nonce) (e : ErrorHeader) :
    ¬ S.Succeeds headers (Frame.frame S.cipher S.sessionKey one [1] ++
      Frame.frame S.cipher S.sessionKey two (3 :: e.serialize)) := by
  intro ⟨first,second,networkElapsed,same⟩
  have sizes : (Frame.frame S.cipher S.sessionKey one [1]).length =
      (Frame.frame S.cipher S.sessionKey first [1]).length := by
    simp only [Frame.frame,List.length_append,Frame.be32Length,Aead.sealedLength]
  have tags := frameOpens (List.append_inj same sizes).2
  exact absurd (List.cons.inj tags).1 (by decide)

/- How handle_upload ends on a stream. -/
structure UploadEnds (S : Session) (headers : UploadHeader) (input : Bytes) (t : Feed) : Prop where
  rounds : t.asked <+: chunkReads headers.fileSize.toNat
  outcome : (∃ chunks, S.Starts headers.fileSize.toNat input chunks t.input ∧
      S.sha256Hex chunks.flatten = headers.fileHash ∧ S.Succeeds headers t.output ∧
      Stored S t.host.disk (UploadHeader.slot S headers) (UploadHeader.metadata S headers)
        chunks.flatten) ∨
    ((∀ chunks rest, S.Starts headers.fileSize.toNat input chunks rest →
        S.sha256Hex chunks.flatten ≠ headers.fileHash) ∧ ¬ S.Succeeds headers t.output)

variable {h : Host} {headers : UploadHeader}

theorem uploadFed (input : Bytes) {cut : Bytes}
    (unlocked : FileLock.Unlocked h.locks headers.fileId)
    (ready : SlotReady S h.disk (UploadHeader.slot S headers))
    (prefix8 : Hex.cutBefore headers.fileHash 8 = .ok cut) (short : headers.fileId.utf8ByteSize ≤ 256) :
    ∃ result t, Reaches feeding (S.handleUpload headers) ⟨h,input,[],[]⟩ (.done result) t ∧
      S.UploadEnds headers input t := by
  obtain ⟨arc,networkElapsed,ack,admitted,opened,accepted⟩ := uploadAdmitted headers unlocked ready prefix8
  have start := quietFed accepted input [] []
  rw [List.nil_append] at start
  obtain ⟨result,t,looped,ends⟩ := @loopFed S "Upload timed out reading chunk"
    (S.filePath (UploadHeader.slot S headers)) headers.fileSize.toNat 0 freshDecBuf [] [] [] admitted
    input (Frame.frame S.cipher S.sessionKey ack [1]) [] (fileInner S _) opened.file
    List.length_replicate
  rw [Nat.sub_zero] at ends
  rcases ends with ⟨chunks,disk,written,after,starts,wrote,joined,rfl,same⟩ |
    ⟨never,⟨message,rfl⟩,output,made,among,reads⟩
  · obtain ⟨dirKept,freeKept⟩ := openedKept opened wrote
    by_cases hash : S.sha256Hex chunks.flatten = headers.fileHash
    · have small : (UploadResponse.serialize
          ⟨headers.fileId,headers.fileHash,networkElapsed⟩).length < Frame.u32Max :=
        responseSmall hash short
      obtain ⟨nonce,last,stored,-,finished⟩ := uploadFinished (h := {admitted with disk := disk}) arc
        ⟨[] ++ chunks.flatten,after⟩ hash dirKept wrote.here freeKept small
      have fed := quietFed finished t.input (Frame.frame S.cipher S.sessionKey ack [1])
        (chunkReads headers.fileSize.toNat)
      rw [same] at looped
      refine ⟨_,_,reachesTrans start (reachesThen looped fed),List.prefix_refl _,
        .inl ⟨chunks,starts,hash,⟨ack,nonce,networkElapsed,rfl⟩,?_⟩⟩
      rwa [joined] at stored
    · obtain ⟨nonce,last,finished⟩ := uploadMismatched (h := {admitted with disk := disk}) arc
        networkElapsed ⟨[] ++ chunks.flatten,after⟩ hash wrote.here
      have fed := quietFed finished t.input (Frame.frame S.cipher S.sessionKey ack [1])
        (chunkReads headers.fileSize.toNat)
      rw [same] at looped
      refine ⟨_,_,reachesTrans start (reachesThen looped fed),List.prefix_refl _,
        .inr ⟨?_,ackRefused ack nonce _⟩⟩
      intro others rest also
      rwa [(startsUnique also starts).1]
  · refine ⟨_,_,reachesTrans start (reachesBind looped),?_,.inr ⟨?_,?_⟩⟩
    · rw [reads]
      exact among
    · exact fun chunks rest starts => absurd starts (never chunks rest)
    · rw [output]
      exact ackAlone ack

end Session

namespace Acceptance
open Session RoundTrip Overwrite

theorem acceptsExactly (S : Session) (h : Host) (headers : UploadHeader) (input : Bytes)
    (valid : headers.validate S.maxFileSize = .ok ())
    (ascii : ∀ byte ∈ Postcard.utf8 headers.fileHash, byte < 128)
    (long : 8 ≤ (Postcard.utf8 headers.fileHash).length)
    (unlocked : FileLock.Unlocked h.locks headers.fileId)
    (ready : SlotReady S h.disk (UploadHeader.slot S headers)) :
    ∃ result t, Reaches feeding (S.handleUpload headers) ⟨h,input,[],[]⟩ (.done result) t ∧
      (∀ other u, Reaches feeding (S.handleUpload headers) ⟨h,input,[],[]⟩ (.done other) u →
        other = result ∧ u = t) ∧
      t.asked <+: chunkReads headers.fileSize.toNat ∧
      t.asked.length ≤ chunkCount headers.fileSize.toNat ∧
      (S.Succeeds headers t.output ↔ ∃ chunks rest,
        S.Starts headers.fileSize.toNat input chunks rest ∧
        S.sha256Hex chunks.flatten = headers.fileHash) ∧
      (S.Succeeds headers t.output → ∃ chunks taken,
        S.Starts headers.fileSize.toNat input chunks t.input ∧ input = taken ++ t.input ∧
        taken.length = headers.fileSize.toNat + 28 * chunkCount headers.fileSize.toNat ∧
        chunks.flatten.length = headers.fileSize.toNat ∧
        Stored S t.host.disk (UploadHeader.slot S headers) (UploadHeader.metadata S headers)
          chunks.flatten) := by
  obtain ⟨result,t,reached,rounds,outcome⟩ :=
    uploadFed input unlocked ready (Hex.asciiCut ascii long) (validated valid).fileId.2
  refine ⟨result,t,reached,?_,rounds,?_,?_,?_⟩
  · exact fun other u also => determinedEnd feedingDetermined also reached
  · have fewer := rounds.length_le
    unfold chunkReads at fewer
    rwa [List.length_map,plainSizesCount] at fewer
  · rcases outcome with ⟨chunks,starts,hash,succeeds,-⟩ | ⟨never,refused⟩
    · exact ⟨fun _ => ⟨chunks,t.input,starts,hash⟩,fun _ => succeeds⟩
    · exact ⟨fun succeeds => absurd succeeds refused,
        fun ⟨chunks,rest,starts,hash⟩ => absurd hash (never chunks rest starts)⟩
  · intro succeeds
    rcases outcome with ⟨chunks,starts,-,-,stored⟩ | ⟨-,refused⟩
    · obtain ⟨taken,joined,size,whole⟩ := startsLength starts
      exact ⟨chunks,taken,starts,joined,size,whole,stored⟩
    · exact absurd succeeds refused

theorem sampleBoxes {content : Bytes} (even : readChunkSize ∣ content.length) :
    ∃ boxes, Boxes sampleSession (fullReads readChunkSize content) boxes := by
  obtain ⟨boxes,-,sealed_,-⟩ := chunksSent (S := sampleSession) (h := sampleHost ⟨[]⟩) (evenFits even)
  exact ⟨boxes,sealed_⟩

theorem sampleHash (content : Bytes) :
    (∀ byte ∈ Postcard.utf8 (sampleUpload content).fileHash, byte < 128) ∧
      8 ≤ (Postcard.utf8 (sampleUpload content).fileHash).length := by
  have size := Hex.encodeLength (sampleSession.hashes.sha256 content)
  rw [sampleSession.hashes.sha256Length] at size
  exact ⟨Hex.encodeAscii _,by change 8 ≤ (Postcard.utf8 (Hex.encode _)).length; omega⟩

theorem mebibyteBytesTaken : ∃ input result t, Reaches feeding
    (sampleSession.handleUpload (sampleUpload (List.replicate 1048576 0)))
      ⟨sampleHost ⟨[]⟩,input,[],[]⟩ (.done result) t ∧
    sampleSession.Succeeds (sampleUpload (List.replicate 1048576 0)) t.output := by
  have prepared := samplePrepared (List.replicate 1048576 0) (by rw [List.length_replicate]; decide)
    (by rw [List.length_replicate]; decide)
  have size : (sampleUpload (List.replicate 1048576 0)).fileSize.toNat =
      (List.replicate 1048576 (0 : UInt8)).length := sizeKept prepared
  obtain ⟨boxes,sealed_⟩ := @sampleBoxes (List.replicate 1048576 0) (by rw [List.length_replicate]; decide)
  obtain ⟨result,t,reached,-,-,-,accepts,-⟩ := acceptsExactly sampleSession (sampleHost ⟨[]⟩)
    (sampleUpload (List.replicate 1048576 0)) (boxes ++ [0]) prepared.accepted
    (sampleHash _).1 (sampleHash _).2 prepared.unlocked prepared.ready
  refine ⟨_,result,t,reached,accepts.mpr
    ⟨fullReads readChunkSize (List.replicate 1048576 0),[0],?_,?_⟩⟩
  · rw [size]
    exact boxesStart sealed_ [0]
  · rw [fullReadsJoined (by decide)]
    rfl

end Acceptance
end RDrive
