import RDrive.Frame

/-! Whole streams of frames: all writes of one end share a pool, so do all reads
of the other, and the transport delivers the bytes in pieces of any size. -/
namespace RDrive.Frame
open Crypto Bytes

structure Sent where
  nonce : Nonce
  data : Bytes

def writeFrames (A : Cipher) (key : Bytes) : List Sent → Bytes → Outcome Written
  | [], pool => .ok ⟨[],pool⟩
  | sent :: rest, pool => do
    let first ← writeEncryptFrameInto A sent.data key sent.nonce pool
    let later ← writeFrames A key rest first.pool
    .ok ⟨first.frame ++ later.frame,later.pool⟩

structure ReadPieces where
  payload : Bytes
  rest : List Bytes
  pool : Bytes

def ReadPieces.joined (read : ReadPieces) : Read := ⟨read.payload,read.rest.flatten,read.pool⟩

/- readEncryptDataInto where both of its reads gather what the transport delivers. -/
def readPieces (A : Cipher) (key : Bytes) (pieces : List Bytes) (pool : Bytes) :
    Outcome ReadPieces := do
  let (lenBuf,rest) ← Segments.readExact pieces 4
  let ciphertextLen ← admitLength (fromBe32 lenBuf)
  if ciphertextLen < nonceLen + tagLen then
    .err s!"Frame length too short for encrypted header: {ciphertextLen}"
  else
    let plaintextLen := ciphertextLen - nonceLen - tagLen
    let requiredLen := ciphertextLen + plaintextLen
    let pool := grow pool requiredLen
    let (encryptedChunk,decryptedChunk) ← splitAt pool ciphertextLen
    let _ ← slice encryptedChunk 0 ciphertextLen
    let (encryptedBuf,rest) ← Segments.readExact rest ciphertextLen
    let decryptedBuf ← slice decryptedChunk 0 plaintextLen
    let (decryptedBuf,_) ← decryptInto A encryptedBuf decryptedBuf key
    .ok ⟨decryptedBuf,rest,encryptedBuf ++ decryptedBuf ++ decryptedChunk.drop plaintextLen⟩

structure ReadAll where
  payloads : List Bytes
  rest : List Bytes
  pool : Bytes

def readFrames (A : Cipher) (key : Bytes) : Nat → List Bytes → Bytes → Outcome ReadAll
  | 0, pieces, pool => .ok ⟨[],pieces,pool⟩
  | count + 1, pieces, pool => do
    let first ← readPieces A key pieces pool
    let later ← readFrames A key count first.rest first.pool
    .ok ⟨first.payload :: later.payloads,later.rest,later.pool⟩

def Fits (data : Bytes) : Prop := nonceLen + data.length + tagLen ≤ maxFrameLength

section
variable {A : Cipher} {key pool : Bytes}

theorem piecesLength (pieces : List Bytes) :
    (do let (lenBuf,rest) ← Segments.readExact pieces 4
        let len ← admitLength (fromBe32 lenBuf)
        .ok (len,rest.flatten)) = readFrameLength pieces.flatten := by
  unfold readFrameLength
  rw [← Segments.readExactJoined]
  cases Segments.readExact pieces 4 <;> rfl

theorem piecesJoined (pieces : List Bytes) :
    (do let read ← readPieces A key pieces pool; .ok read.joined) =
      readEncryptDataInto A key pieces.flatten pool := by
  unfold readEncryptDataInto readPieces
  rw [← piecesLength]
  cases first : Segments.readExact pieces 4 with
  | err message => rfl
  | panic => rfl
  | ok found =>
    obtain ⟨lenBuf,rest⟩ := found
    simp only [Outcome.bindOk]
    cases admitted : admitLength (fromBe32 lenBuf) with
    | err message => rfl
    | panic => rfl
    | ok len =>
      simp only [Outcome.bindOk]
      split
      · rfl
      cases splitAt (grow pool (len + (len - nonceLen - tagLen))) len with
      | err message => rfl
      | panic => rfl
      | ok chunks =>
        obtain ⟨encryptedChunk,decryptedChunk⟩ := chunks
        simp only [Outcome.bindOk]
        cases slice encryptedChunk 0 len with
        | err message => rfl
        | panic => rfl
        | ok whole =>
          simp only [Outcome.bindOk]
          rw [← Segments.readExactJoined]
          cases Segments.readExact rest len with
          | err message => rfl
          | panic => rfl
          | ok box =>
            simp only [Outcome.bindOk,Segments.joined]
            cases slice decryptedChunk 0 (len - nonceLen - tagLen) with
            | err message => rfl
            | panic => rfl
            | ok buffer =>
              simp only [Outcome.bindOk]
              cases decryptInto A box.1 buffer key <;> rfl

theorem piecesRead {pieces : List Bytes} {read : Read}
    (flat : readEncryptDataInto A key pieces.flatten pool = .ok read) :
    ∃ found, readPieces A key pieces pool = .ok found ∧ found.joined = read := by
  rw [← piecesJoined,Outcome.bindIsOk] at flat
  obtain ⟨found,got,same⟩ := flat
  exact ⟨found,got,Outcome.ok.inj same⟩

theorem piecesRefused {pieces : List Bytes} {message : String}
    (flat : readEncryptDataInto A key pieces.flatten pool = .err message) :
    readPieces A key pieces pool = .err message := by
  rw [← piecesJoined] at flat
  cases got : readPieces A key pieces pool with
  | ok found => simp [got] at flat
  | err other => simpa [got] using flat
  | panic => simp [got] at flat

theorem writtenParts {sent : Sent} {wrote : Written}
    (written : writeEncryptFrameInto A sent.data key sent.nonce pool = .ok wrote) :
    sent.data.length ≤ u32Max ∧ wrote.frame = frame A key sent.nonce sent.data := by
  rcases Nat.lt_or_ge u32Max sent.data.length with large | small
  · rw [tooLargeContent large] at written
    contradiction
  · obtain ⟨after,exact_⟩ : ∃ after, writeEncryptFrameInto A sent.data key sent.nonce pool =
        .ok ⟨frame A key sent.nonce sent.data,after⟩ := writtenFrame small
    cases exact_.symm.trans written
    exact ⟨small,rfl⟩

theorem writeFramesMore {sent : Sent} {rest : List Sent} {wrote : Written}
    (written : writeFrames A key (sent :: rest) pool = .ok wrote) :
    ∃ first later, writeEncryptFrameInto A sent.data key sent.nonce pool = .ok first ∧
      writeFrames A key rest first.pool = .ok later ∧
      wrote = ⟨first.frame ++ later.frame,later.pool⟩ := by
  simp only [writeFrames,Outcome.bindIsOk] at written
  obtain ⟨first,wroteFirst,later,wroteLater,last⟩ := written
  exact ⟨first,later,wroteFirst,wroteLater,(Outcome.ok.inj last).symm⟩

theorem frameOfPieces {sent : Sent} {wrote : Written} {pieces : List Bytes} {rest : Bytes}
    (readPool : Bytes) (fits : Fits sent.data)
    (written : writeEncryptFrameInto A sent.data key sent.nonce pool = .ok wrote)
    (delivered : pieces.flatten = wrote.frame ++ rest) :
    ∃ read, readPieces A key pieces readPool = .ok read ∧ read.payload = sent.data ∧
      read.rest.flatten = rest := by
  obtain ⟨after,flat⟩ : ∃ after, readEncryptDataInto A key
      (frame A key sent.nonce sent.data ++ rest) readPool = .ok ⟨sent.data,rest,after⟩ :=
    frameRead fits
  rw [← (writtenParts written).2,← delivered] at flat
  obtain ⟨read,got,same⟩ := piecesRead flat
  have parts := Read.mk.inj same
  exact ⟨read,got,parts.1,parts.2.1⟩

theorem longRefused {sent : Sent} {wrote : Written} {pieces : List Bytes} {rest : Bytes}
    (readPool : Bytes) (long : ¬ Fits sent.data)
    (written : writeEncryptFrameInto A sent.data key sent.nonce pool = .ok wrote)
    (delivered : pieces.flatten = wrote.frame ++ rest) :
    ∃ message, readPieces A key pieces readPool = .err message := by
  obtain ⟨small,framed⟩ := writtenParts written
  have beyond : maxFrameLength < nonceLen + sent.data.length + tagLen := Nat.not_le.mp long
  have range : nonceLen + sent.data.length + tagLen < 4294967296 + (nonceLen + tagLen) := by
    unfold u32Max at small
    omega
  have four : readExact pieces.flatten 4 = .ok (be32 (nonceLen + sent.data.length + tagLen),
      A.sealed key sent.nonce sent.data ++ rest) := by
    rw [delivered,framed,frame,List.append_assoc]
    exact readExactAppend (be32Length _)
  suffices refused : ∃ message,
      readEncryptDataInto A key pieces.flatten readPool = .err message by
    obtain ⟨message,flat⟩ := refused
    exact ⟨message,piecesRefused flat⟩
  rcases longLength beyond range with ⟨message,refused⟩ | ⟨len,short,admitted⟩
  · have length := frameLengthRefused four refused
    exact ⟨message,by simp only [readEncryptDataInto,length,Outcome.bindErr]⟩
  · refine ⟨s!"Frame length too short for encrypted header: {len}",?_⟩
    unfold readEncryptDataInto
    rw [frameLengthOf four admitted]
    simp only [Outcome.bindOk]
    rw [if_pos short]

theorem framesWritten (A : Cipher) (key pool : Bytes) {sent : List Sent}
    (small : ∀ x ∈ sent, x.data.length ≤ u32Max) : ∃ wrote, writeFrames A key sent pool = .ok wrote := by
  induction sent generalizing pool with
  | nil => exact ⟨_,rfl⟩
  | cons one others ih =>
    obtain ⟨after,written⟩ : ∃ after, writeEncryptFrameInto A one.data key one.nonce pool =
        .ok ⟨frame A key one.nonce one.data,after⟩ := writtenFrame (small one List.mem_cons_self)
    obtain ⟨later,wroteLater⟩ := ih after fun x member => small x (List.mem_cons_of_mem _ member)
    refine ⟨⟨frame A key one.nonce one.data ++ later.frame,later.pool⟩,?_⟩
    simp only [writeFrames,written,wroteLater,Outcome.bindOk]

theorem writeFramesParts {before rest : List Sent} {wrote : Written}
    (written : writeFrames A key (before ++ rest) pool = .ok wrote) :
    ∃ first last, writeFrames A key before pool = .ok first ∧
      writeFrames A key rest first.pool = .ok last ∧
      wrote = ⟨first.frame ++ last.frame,last.pool⟩ := by
  induction before generalizing pool wrote with
  | nil => exact ⟨⟨[],pool⟩,wrote,rfl,written,rfl⟩
  | cons sent before ih =>
    obtain ⟨one,later,wroteOne,wroteLater,rfl⟩ := writeFramesMore written
    obtain ⟨first,last,wroteFirst,wroteLast,rfl⟩ := ih wroteLater
    refine ⟨⟨one.frame ++ first.frame,first.pool⟩,last,?_,wroteLast,by simp⟩
    simp only [writeFrames,wroteOne,wroteFirst,Outcome.bindOk]

theorem framesRead {sent : List Sent} {wrote : Written} {pieces : List Bytes} {rest : Bytes}
    (readPool : Bytes) (fit : ∀ x ∈ sent, Fits x.data)
    (written : writeFrames A key sent pool = .ok wrote)
    (delivered : pieces.flatten = wrote.frame ++ rest) :
    ∃ read, readFrames A key sent.length pieces readPool = .ok read ∧
      read.payloads = sent.map Sent.data ∧ read.rest.flatten = rest := by
  induction sent generalizing pool wrote pieces readPool with
  | nil =>
    cases Outcome.ok.inj written
    exact ⟨⟨[],pieces,readPool⟩,rfl,rfl,delivered⟩
  | cons one others ih =>
    obtain ⟨first,later,wroteFirst,wroteLater,rfl⟩ := writeFramesMore written
    simp only [List.append_assoc] at delivered
    obtain ⟨head,gotHead,payload,left⟩ :=
      frameOfPieces readPool (fit one List.mem_cons_self) wroteFirst delivered
    obtain ⟨tail,gotTail,payloads,leftLast⟩ :=
      ih head.pool (fun x member => fit x (List.mem_cons_of_mem _ member)) wroteLater left
    refine ⟨⟨head.payload :: tail.payloads,tail.rest,tail.pool⟩,?_,?_,leftLast⟩
    · simp only [List.length_cons,readFrames,gotHead,gotTail,Outcome.bindOk]
    · simp only [List.map_cons,payload,payloads]

end

/- Up to the first payload over the limit, reads and frames go one to one. -/
theorem streamComesBack {A : Cipher} {key writePool : Bytes} {sent : List Sent}
    {wrote : Written} {pieces : List Bytes} (readPool : Bytes)
    (written : writeFrames A key sent writePool = .ok wrote)
    (delivered : pieces.flatten = wrote.frame) {before rest : List Sent}
    (parts : sent = before ++ rest) (fit : ∀ x ∈ before, Fits x.data) :
    ∃ first last read, writeFrames A key before writePool = .ok first ∧
      writeFrames A key rest first.pool = .ok last ∧ wrote.frame = first.frame ++ last.frame ∧
      readFrames A key before.length pieces readPool = .ok read ∧
      read.payloads = before.map Sent.data ∧ read.rest.flatten = last.frame ∧
      ∀ long after, rest = long :: after → ¬ Fits long.data →
        ∃ message, readPieces A key read.rest read.pool = .err message := by
  subst sent
  obtain ⟨first,last,wroteFirst,wroteLast,rfl⟩ := writeFramesParts written
  obtain ⟨read,got,payloads,left⟩ := framesRead readPool fit wroteFirst delivered
  refine ⟨first,last,read,wroteFirst,wroteLast,rfl,got,payloads,left,?_⟩
  intro long after isLong beyond
  subst rest
  obtain ⟨one,later,wroteOne,-,rfl⟩ := writeFramesMore wroteLast
  exact longRefused read.pool beyond wroteOne left

theorem twoFramesComeBack :
    ∃ pieces read, pieces.length = 3 ∧
      readFrames clearCipher [] 2 pieces [7,7,7] = .ok read ∧ read.payloads = [[1,2],[3]] := by
  let nonce : Nonce := ⟨List.replicate 12 9,rfl⟩
  let sent : List Sent := [⟨nonce,[1,2]⟩,⟨nonce,[3]⟩]
  have fit : ∀ x ∈ sent, Fits x.data := by
    intro x member
    rcases List.mem_pair.mp member with rfl | rfl <;> (unfold Fits; decide)
  have small : ∀ x ∈ sent, x.data.length ≤ u32Max := by
    intro x member
    rcases List.mem_pair.mp member with rfl | rfl <;> decide
  obtain ⟨wrote,written⟩ := framesWritten clearCipher [] [5] small
  have cut : [wrote.frame.take 2,(wrote.frame.drop 2).take 40,(wrote.frame.drop 2).drop 40].flatten =
      wrote.frame := by
    simp only [List.flatten_cons,List.flatten_nil,List.append_nil,List.take_append_drop]
  have whole : sent = sent ++ [] := (List.append_nil sent).symm
  obtain ⟨first,last,read,-,-,-,got,payloads,-⟩ := streamComesBack [7,7,7] written cut whole fit
  exact ⟨_,read,rfl,got,payloads⟩

end RDrive.Frame
