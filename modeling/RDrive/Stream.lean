import RDrive.Transfer

/-! What one side does with whole frames and whole chunk streams on a machine
where nothing fails: the frame and the chunk are sealed by one end and opened by
the other, and the two loops agree on where the chunks are. -/
namespace RDrive
open Crypto Duplex Party Bytes

theorem fullReadsEnd (n : Nat) : fullReads n [] = [] := by
  rw [fullReads,dif_pos (.inl rfl)]

theorem fullReadsMore {n : Nat} {b : Bytes} (some_ : b ≠ []) (positive : 0 < n) :
    fullReads n b = b.take n :: fullReads n (b.drop n) := by
  rw [fullReads,dif_neg (by simp [some_]; omega)]

theorem fullReadsSizes {n : Nat} {b : Bytes} (positive : 0 < n) :
    ∀ x ∈ fullReads n b, x.length ≤ n := by
  induction size : b.length using Nat.strong_induction_on generalizing b with
  | _ m ih =>
    cases b with
    | nil => simp [fullReadsEnd]
    | cons first rest =>
      rw [fullReadsMore (by simp) positive]
      intro x member
      rcases List.mem_cons.mp member with rfl | later
      · exact List.length_take_le n _
      · have smaller : ((first :: rest).drop n).length < m := by
          simp only [List.length_drop,List.length_cons] at size ⊢
          omega
        exact ih _ smaller rfl x later

theorem fullReadsJoined {n : Nat} {b : Bytes} (positive : 0 < n) : (fullReads n b).flatten = b := by
  induction size : b.length using Nat.strong_induction_on generalizing b with
  | _ m ih =>
    by_cases none_ : b = []
    · rw [none_,fullReadsEnd,List.flatten_nil]
    · have long := List.length_pos_of_ne_nil none_
      have smaller : (b.drop n).length < m := by rw [List.length_drop]; omega
      rw [fullReadsMore none_ positive,List.flatten_cons,ih _ smaller rfl,List.take_append_drop]

theorem fullReadsSome {n : Nat} {b : Bytes} (positive : 0 < n) : ∀ x ∈ fullReads n b, x ≠ [] := by
  induction size : b.length using Nat.strong_induction_on generalizing b with
  | _ m ih =>
    by_cases none_ : b = []
    · simp [none_,fullReadsEnd]
    · have long := List.length_pos_of_ne_nil none_
      have smaller : (b.drop n).length < m := by rw [List.length_drop]; omega
      rw [fullReadsMore none_ positive]
      intro x member
      rcases List.mem_cons.mp member with rfl | later
      · simp [none_]
        omega
      · exact ih _ smaller rfl x later

theorem fullReadsFront {n : Nat} {b : Bytes} (positive : 0 < n) :
    ∀ x ∈ (fullReads n b).dropLast, x.length = n := by
  induction size : b.length using Nat.strong_induction_on generalizing b with
  | _ m ih =>
    by_cases none_ : b = []
    · simp [none_,fullReadsEnd]
    · have long := List.length_pos_of_ne_nil none_
      have smaller : (b.drop n).length < m := by rw [List.length_drop]; omega
      rw [fullReadsMore none_ positive]
      by_cases ended : b.drop n = []
      · simp [ended,fullReadsEnd]
      · have more : fullReads n (b.drop n) ≠ [] := by
          rw [fullReadsMore ended positive]
          exact List.cons_ne_nil _ _
        have whole : n < b.length := by
          have := List.length_pos_of_ne_nil ended
          rw [List.length_drop] at this
          omega
        rw [List.dropLast_cons_of_ne_nil more]
        intro x member
        rcases List.mem_cons.mp member with rfl | later
        · rw [List.length_take]
          omega
        · exact ih _ smaller rfl x later

theorem fullReadsEven {n : Nat} {b : Bytes} (positive : 0 < n) (even : n ∣ b.length) :
    ∀ x ∈ fullReads n b, x.length = n := by
  induction size : b.length using Nat.strong_induction_on generalizing b with
  | _ m ih =>
    cases b with
    | nil => simp [fullReadsEnd]
    | cons first rest =>
      have whole : n ≤ (first :: rest).length := Nat.le_of_dvd (by simp) even
      rw [fullReadsMore (by simp) positive]
      intro x member
      rcases List.mem_cons.mp member with rfl | later
      · rw [List.length_take]; exact Nat.min_eq_left whole
      · have smaller : ((first :: rest).drop n).length < m := by
          simp only [List.length_drop,List.length_cons] at size ⊢
          omega
        have remaining : n ∣ ((first :: rest).drop n).length := by
          rw [List.length_drop]
          exact Nat.dvd_sub even (Nat.dvd_refl n)
        exact ih _ smaller remaining rfl x later

theorem fullReadsUneven {n : Nat} {b : Bytes} (positive : 0 < n) (uneven : ¬ n ∣ b.length) :
    ∃ x ∈ fullReads n b, x.length ≠ n := by
  induction size : b.length using Nat.strong_induction_on generalizing b with
  | _ m ih =>
    have some_ : b ≠ [] := by rintro rfl; exact uneven (by simp)
    have long := List.length_pos_of_ne_nil some_
    rw [fullReadsMore some_ positive]
    rcases Nat.lt_or_ge b.length n with short | whole
    · exact ⟨b.take n,List.mem_cons_self,by simp only [List.length_take]; omega⟩
    · have smaller : (b.drop n).length < m := by simp only [List.length_drop]; omega
      have remaining : ¬ n ∣ (b.drop n).length := by
        rw [List.length_drop]
        intro divides
        exact uneven ((Nat.dvd_sub_iff_left whole (Nat.dvd_refl n)).mp divides)
      obtain ⟨x,member,odd⟩ := ih _ smaller remaining rfl
      exact ⟨x,List.mem_cons_of_mem _ member,odd⟩

namespace Session
variable {S : Session} {h : Host}

theorem frameWritten (data : Bytes) (small : data.length ≤ Frame.u32Max) :
    ∃ nonce, Advances Host.handle (S.writeEncryptFrameInto data) h []
      (Frame.frame S.cipher S.sessionKey nonce data) (.done (.ok ()))
      {h with drawn := h.drawn + 1} := by
  refine ⟨h.random h.drawn nonceLen,?_⟩
  unfold writeEncryptFrameInto
  rw [if_neg (by omega)]
  exact advancesQuiet (Host.drawAdvances nonceLen) (Host.sendAdvances _)

theorem closingWritten (data : Bytes) (small : data.length ≤ Frame.u32Max) :
    ∃ nonce, Advances Host.handle (S.sendClosing data) h []
      (Frame.frame S.cipher S.sessionKey nonce data) (.done (.ok ()))
      {h with drawn := h.drawn + 1} := by
  obtain ⟨nonce,written⟩ := frameWritten (S := S) (h := h) data small
  exact ⟨nonce,advancesLast written Host.shutdownAdvances⟩

/- Stated for any four bytes, as frameLengthOf is. -/
theorem frameLengthTaken {lenBuf : Bytes} (four : lenBuf.length = 4) :
    Advances Host.handle readFrameLength h lenBuf []
      (.done (Frame.admitLength (Frame.fromBe32 lenBuf))) h :=
  advancesRead four (.rest _ _)

theorem lengthAdmitted {len : Nat} (positive : 0 < len) (bounded : len ≤ Frame.maxFrameLength) :
    Frame.admitLength (Frame.fromBe32 (Frame.be32 len)) = .ok len := by
  rw [Frame.fromBe32Of,Frame.frameFits bounded,Frame.admitLength,if_neg (by omega)]

theorem frameTaken {data : Bytes} {nonce : Nonce}
    (small : nonceLen + data.length + tagLen ≤ Frame.maxFrameLength) :
    Advances Host.handle S.readEncryptDataInto h (Frame.frame S.cipher S.sessionKey nonce data) []
      (.done (.ok data)) h := by
  have size := S.cipher.sealedLength S.sessionKey nonce data
  have length := frameLengthTaken (h := h) (Frame.be32Length (nonceLen + data.length + tagLen))
  rw [lengthAdmitted (by unfold nonceLen; omega) small] at length
  unfold readEncryptDataInto Frame.frame
  refine advancesReads length ?_
  rw [if_neg (by omega)]
  refine advancesLast (Host.readExactAdvances size) ?_
  rw [S.cipher.openedSealed]
  exact .rest _ _

/- The chunks of a file, sealed one by one under whatever nonces were drawn. -/
inductive Boxes (S : Session) : List Bytes → Bytes → Prop where
  | none : Boxes S [] []
  | more {plain rest boxes} (nonce : Nonce) (later : Boxes S rest boxes) :
      Boxes S (plain :: rest) (S.cipher.sealed S.sessionKey nonce plain ++ boxes)

theorem chunkSent {encBuf plain : Bytes} (rest : List Bytes)
    (fits : encBuf.length = nonceLen + plain.length + tagLen) :
    ∃ nonce buf, buf.length = encBuf.length ∧
      ∀ {input output q t}, Advances Host.handle (S.sendLoop buf rest)
        {h with drawn := h.drawn + 1} input output q t →
      Advances Host.handle (S.sendLoop encBuf (plain :: rest)) h input
        (S.cipher.sealed S.sessionKey nonce plain ++ output) q t := by
  have size := S.cipher.sealedLength S.sessionKey (h.random h.drawn nonceLen) plain
  refine ⟨h.random h.drawn nonceLen,S.cipher.sealed S.sessionKey (h.random h.drawn nonceLen) plain,
    by omega,?_⟩
  intro input output q t later
  rw [sendLoop]
  refine advancesQuiet (Host.drawAdvances nonceLen) ?_
  rw [encryptExact fits,Program.liftDone,Program.bindDone]
  simp only []
  rw [sliceOk (by omega) (by omega),Program.liftDone,Program.bindDone,← size,List.take_length]
  exact advancesWrites (Host.sendAdvances _) later

theorem chunksSent {encBuf : Bytes} {reads : List Bytes}
    (even : ∀ x ∈ reads, encBuf.length = nonceLen + x.length + tagLen) :
    ∃ boxes drawn, Boxes S reads boxes ∧ Advances Host.handle (S.sendLoop encBuf reads) h [] boxes
      (.done (.ok ())) {h with drawn := drawn} := by
  induction reads generalizing encBuf h with
  | nil => exact ⟨[],h.drawn,.none,.rest _ _⟩
  | cons plain rest ih =>
    obtain ⟨nonce,buf,same,onward⟩ := chunkSent (S := S) (h := h) rest
      (even plain List.mem_cons_self)
    have rest_ : ∀ x ∈ rest, buf.length = nonceLen + x.length + tagLen := by
      intro x member
      rw [same]
      exact even x (List.mem_cons_of_mem _ member)
    obtain ⟨boxes,drawn,sealed_,advanced⟩ := ih rest_
    exact ⟨_,drawn,.more nonce sealed_,onward advanced⟩

theorem evenFits {content : Bytes} (even : readChunkSize ∣ content.length) :
    ∀ x ∈ fullReads readChunkSize content, freshEncBuf.length = nonceLen + x.length + tagLen := by
  intro x member
  rw [fullReadsEven (by decide) even x member]
  simp only [freshEncBuf,List.length_replicate]
  omega

/- A chunk shorter than the rest of the buffer has the tag copied into too long a slice. -/
theorem unevenPanics {encBuf : Bytes} {reads : List Bytes}
    (fit : ∀ x ∈ reads, nonceLen + x.length + tagLen ≤ encBuf.length)
    (uneven : ∃ x ∈ reads, nonceLen + x.length + tagLen ≠ encBuf.length) :
    ∃ output drawn, Advances Host.handle (S.sendLoop encBuf reads) h [] output
      (.done .panic) {h with drawn := drawn} := by
  induction reads generalizing encBuf h with
  | nil => obtain ⟨x,member,-⟩ := uneven; cases member
  | cons plain rest ih =>
    rcases Nat.lt_or_eq_of_le (fit plain List.mem_cons_self) with slack | exact_
    · refine ⟨[],h.drawn + 1,?_⟩
      rw [sendLoop]
      refine advancesQuiet (Host.drawAdvances nonceLen) ?_
      rw [encryptSlackPanics slack]
      exact .rest _ _
    · obtain ⟨nonce,buf,same,onward⟩ := chunkSent (S := S) (h := h) rest exact_.symm
      have fitRest : ∀ x ∈ rest, nonceLen + x.length + tagLen ≤ buf.length := by
        intro x member
        rw [same]
        exact fit x (List.mem_cons_of_mem _ member)
      have unevenRest : ∃ x ∈ rest, nonceLen + x.length + tagLen ≠ buf.length := by
        obtain ⟨x,member,odd⟩ := uneven
        rcases List.mem_cons.mp member with rfl | later
        · exact absurd exact_ odd
        · exact ⟨x,later,by rwa [same]⟩
      obtain ⟨output,drawn,advanced⟩ := ih fitRest unevenRest
      exact ⟨_,drawn,onward advanced⟩

structure Wrote (path : Path) (before after : Fs) (bytes : Bytes) : Prop where
  here : after.content path = some bytes
  beside : ∀ q, q ≠ path → after.get q = before.get q

theorem wroteTrans {path : Path} {first second third : Fs} {a b : Bytes}
    (one : Wrote path first second a) (two : Wrote path second third b) :
    Wrote path first third b :=
  ⟨two.here,fun q different => (two.beside q different).trans (one.beside q different)⟩

theorem appendWrote (disk : Fs) {path : Path} (inner : path ≠ []) (b : Bytes) :
    Wrote path disk (disk.put path (.file b)) b :=
  ⟨Fs.contentPut disk inner b,fun _ different => Fs.getPutOther disk different _⟩

theorem bufWritten {path : Path} {old : Bytes} (pending data : Bytes) (inner : path ≠ [])
    (found : h.disk.content path = some old) :
    ∃ disk after written, Wrote path h.disk disk written ∧ written ++ after = old ++ pending ++ data ∧
      Advances Host.handle (bufWrite path pending data) h [] [] (.done (.ok after))
        {h with disk := disk} := by
  unfold bufWrite
  split
  · have flushed := appendWrote h.disk inner (old ++ pending)
    split
    · have direct := appendWrote (h.disk.put path (.file (old ++ pending))) inner
        (old ++ pending ++ data)
      refine ⟨_,[],_,wroteTrans flushed direct,by simp,?_⟩
      refine advancesQuiet (Host.appendAdvances found pending) ?_
      exact advancesQuiet (Host.appendAdvances flushed.here data) (.rest _ _)
    · refine ⟨_,data,_,flushed,rfl,?_⟩
      exact advancesQuiet (Host.appendAdvances found pending) (.rest _ _)
  · split
    · rename_i small large
      have empty : pending = [] := by
        apply List.eq_nil_of_length_eq_zero
        omega
      subst empty
      refine ⟨_,[],_,appendWrote h.disk inner (old ++ data),by simp,?_⟩
      exact advancesQuiet (Host.appendAdvances found data) (.rest _ _)
    · exact ⟨h.disk,_,old,⟨found,fun _ _ => rfl⟩,by simp,.rest _ _⟩

theorem bufFlushed {path : Path} {old : Bytes} (pending : Bytes) (inner : path ≠ [])
    (found : h.disk.content path = some old) :
    ∃ disk, Wrote path h.disk disk (old ++ pending) ∧
      Advances Host.handle (bufFlush path pending) h [] [] (.done (.ok ())) {h with disk := disk} := by
  unfold bufFlush
  split
  · rename_i empty
    subst empty
    exact ⟨h.disk,⟨by simpa using found,fun _ _ => rfl⟩,.rest _ _⟩
  · exact ⟨_,appendWrote _ inner _,Host.appendAdvances found pending⟩

theorem boxOpened (A : Cipher) {key box plain decBuf : Bytes}
    (opened : A.opened key box = some plain) (room : plain.length ≤ decBuf.length) :
    decryptInto A box decBuf key = .ok (plain ++ decBuf.drop plain.length,plain.length) := by
  have size := A.openedLength opened
  rw [decryptFits (by omega) (by omega),opened]

theorem chunkReceived (text : String) (hashed pending : Bytes) (nonce : Nonce) {path : Path}
    {fileSize received : Nat} {decBuf old plain : Bytes} (inner : path ≠ [])
    (found : h.disk.content path = some old) (more : received < fileSize)
    (asked : plain.length = min readChunkSize (fileSize - received))
    (room : decBuf.length = readChunkSize) :
    ∃ disk after written buf, Wrote path h.disk disk written ∧
      written ++ after = old ++ pending ++ plain ∧ buf.length = readChunkSize ∧
      ∀ {input output q t}, Advances Host.handle (S.receiveLoop text path fileSize buf
        (hashed ++ plain) after (received + plain.length)) {h with disk := disk} input output q t →
      Advances Host.handle (S.receiveLoop text path fileSize decBuf hashed pending received) h
        (S.cipher.sealed S.sessionKey nonce plain ++ input) output q t := by
  have size := S.cipher.sealedLength S.sessionKey nonce plain
  have fits : plain.length ≤ decBuf.length := by omega
  obtain ⟨disk,after,written,wrote,joined,advanced⟩ :=
    bufWritten pending plain inner found
  refine ⟨disk,after,written,plain ++ decBuf.drop plain.length,wrote,joined,
    by simp only [List.length_append,List.length_drop]; omega,?_⟩
  intro input output q t later
  rw [receiveLoop,dif_pos more]
  have boxed : (S.cipher.sealed S.sessionKey nonce plain).length =
      nonceLen + min readChunkSize (fileSize - received) + tagLen := by omega
  refine .recv boxed ?_
  simp only []
  have opened : decryptInto S.cipher (S.cipher.sealed S.sessionKey nonce plain) decBuf S.sessionKey =
      .ok (plain ++ decBuf.drop plain.length,plain.length) :=
        boxOpened S.cipher (S.cipher.openedSealed S.sessionKey nonce plain) fits
  split
  · rename_i message refused
    rw [opened] at refused
    contradiction
  · rename_i refused
    rw [opened] at refused
    contradiction
  · rename_i buf decLen got
    rw [opened] at got
    cases got
    rw [sliceOk (by omega) (by simp),Program.liftDone,Program.bindDone]
    simp only [List.take_left,List.drop_zero]
    exact advancesQuiet advanced later

theorem chunkAsked {fileSize received : Nat} {sent : Bytes} (long : 0 < sent.length)
    (part : received + sent.length ≤ fileSize ∧ readChunkSize ∣ sent.length ∨
      received + sent.length = fileSize) :
    (sent.take readChunkSize).length = min readChunkSize (fileSize - received) := by
  rw [List.length_take]
  rcases part with ⟨within,whole⟩ | total
  · have := Nat.le_of_dvd long whole
    omega
  · omega

theorem chunkCounted (received : Nat) (sent : Bytes) :
    received + (sent.take readChunkSize).length + (sent.drop readChunkSize).length =
      received + sent.length := by
  rw [Nat.add_assoc,← List.length_append,List.take_append_drop]

theorem partAfter {fileSize received : Nat} {sent : Bytes}
    (part : received + sent.length ≤ fileSize ∧ readChunkSize ∣ sent.length ∨
      received + sent.length = fileSize) :
    received + (sent.take readChunkSize).length + (sent.drop readChunkSize).length ≤ fileSize ∧
        readChunkSize ∣ (sent.drop readChunkSize).length ∨
      received + (sent.take readChunkSize).length + (sent.drop readChunkSize).length = fileSize := by
  rw [chunkCounted,List.length_drop]
  rcases part with ⟨within,whole⟩ | total
  · exact .inl ⟨within,Nat.dvd_sub whole (Nat.dvd_refl _)⟩
  · exact .inr total

theorem chunksTaken (text : String) (decBuf hashed pending : Bytes) {path : Path}
    {fileSize received : Nat} {old sent boxes : Bytes} (inner : path ≠ [])
    (found : h.disk.content path = some old) (room : decBuf.length = readChunkSize)
    (part : received + sent.length ≤ fileSize ∧ readChunkSize ∣ sent.length ∨
      received + sent.length = fileSize)
    (sealed_ : Boxes S (fullReads readChunkSize sent) boxes) :
    ∃ disk after written buf, Wrote path h.disk disk written ∧
      written ++ after = old ++ pending ++ sent ∧
      Advances Host.handle (S.receiveLoop text path fileSize decBuf hashed pending received) h
        boxes [] (S.receiveLoop text path fileSize buf (hashed ++ sent) after
          (received + sent.length)) {h with disk := disk} := by
  have positive : 0 < readChunkSize := by decide
  induction size : sent.length using Nat.strong_induction_on
    generalizing sent h decBuf hashed pending old boxes received with
  | _ m ih =>
    rcases Classical.em (sent = []) with rfl | some_
    · rw [fullReadsEnd] at sealed_
      cases sealed_
      cases size
      refine ⟨h.disk,pending,old,decBuf,⟨found,fun _ _ => rfl⟩,by simp,?_⟩
      rw [List.append_nil,List.length_nil,Nat.add_zero]
      exact .rest _ _
    · have long := List.length_pos_of_ne_nil some_
      rw [fullReadsMore some_ positive] at sealed_
      generalize whole : sent.take readChunkSize :: fullReads readChunkSize (sent.drop readChunkSize) =
        chunks at sealed_
      cases sealed_ with
      | none => contradiction
      | more nonce later =>
        rename_i plain remaining boxes
        obtain ⟨rfl,rfl⟩ := List.cons.inj whole
        have asked := chunkAsked long part
        obtain ⟨disk,after,written,buf,wrote,joined,roomNext,onward⟩ :=
          chunkReceived (S := S) text hashed pending nonce inner found (by omega) asked room
        have smaller : (sent.drop readChunkSize).length < m := by
          rw [List.length_drop]
          omega
        obtain ⟨diskLast,last,writtenLast,bufLast,wroteLast,joinedLast,advanced⟩ :=
          ih _ smaller (h := {h with disk := disk}) buf (hashed ++ sent.take readChunkSize) after
            wrote.here roomNext (partAfter part) later rfl
        refine ⟨diskLast,last,writtenLast,bufLast,wroteTrans wrote wroteLast,?_,?_⟩
        · rw [joinedLast,joined,List.append_assoc,List.take_append_drop]
        · rw [chunkCounted] at advanced
          have all := onward advanced
          rw [List.append_assoc,List.take_append_drop] at all
          rwa [← size]

theorem chunksReceived (text : String) (decBuf hashed pending : Bytes) {path : Path}
    {fileSize received : Nat} {old rest boxes : Bytes} (inner : path ≠ [])
    (found : h.disk.content path = some old) (total : fileSize = received + rest.length)
    (room : decBuf.length = readChunkSize) (sealed_ : Boxes S (fullReads readChunkSize rest) boxes) :
    ∃ disk after written, Wrote path h.disk disk written ∧
      written ++ after = old ++ pending ++ rest ∧
      Advances Host.handle (S.receiveLoop text path fileSize decBuf hashed pending received) h
        boxes [] (.done (.ok ⟨hashed ++ rest,after⟩)) {h with disk := disk} := by
  obtain ⟨disk,after,written,buf,wrote,joined,taken⟩ := chunksTaken (S := S) text decBuf hashed pending
    inner found room (.inr total.symm) sealed_
  refine ⟨disk,after,written,wrote,joined,?_⟩
  rw [total] at taken ⊢
  have ended : S.receiveLoop text path (received + rest.length) buf (hashed ++ rest) after
      (received + rest.length) = .done (.ok ⟨hashed ++ rest,after⟩) := by
    rw [receiveLoop,dif_neg (Nat.lt_irrefl _)]
    rfl
  rwa [ended] at taken

end Session
end RDrive
