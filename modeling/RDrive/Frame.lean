import RDrive.Crypto

/-! The encrypted frames of protocol_v1.rs: a big-endian length and a sealed box.
Reader and writer work in place in a pool that the caller owns and that may be
of any length and content. -/
namespace RDrive.Frame
open Crypto Bytes

/- 1024 * 1024 * 16, and u32::MAX. -/
def maxFrameLength : Nat := 16777216
def u32Max : Nat := 4294967295

def be32 (n : Nat) : Bytes :=
  [(n / 16777216).toUInt8,(n / 65536).toUInt8,(n / 256).toUInt8,n.toUInt8]

def fromBe32 : Bytes → Nat
  | [a,b,c,d] => a.toNat * 16777216 + b.toNat * 65536 + c.toNat * 256 + d.toNat
  | _ => 0

theorem fromBe32Of (n : Nat) : fromBe32 (be32 n) = n % 4294967296 := by
  simp only [be32,fromBe32,Nat.toUInt8,UInt8.toNat_ofNat']
  omega

theorem be32Length (n : Nat) : (be32 n).length = 4 := rfl

def resize (b : Bytes) (n : Nat) : Bytes := b.take n ++ List.replicate (n - b.length) 0

theorem resizeLength (b : Bytes) (n : Nat) : (resize b n).length = n := by
  simp [resize]
  omega

def grow (pool : Bytes) (n : Nat) : Bytes := if pool.length < n then resize pool n else pool

theorem growEnough (pool : Bytes) (n : Nat) : n ≤ (grow pool n).length := by
  unfold grow
  split
  · exact Nat.le_of_eq (resizeLength pool n).symm
  · omega

def admitLength (len : Nat) : Outcome Nat :=
  if len = 0 ∨ maxFrameLength < len then .err s!"Invalid frame length: {len}" else .ok len

def readFrameLength (stream : Bytes) : Outcome (Nat × Bytes) := do
  let (lenBuf,rest) ← readExact stream 4
  let len ← admitLength (fromBe32 lenBuf)
  .ok (len,rest)

structure Read where
  payload : Bytes
  rest : Bytes
  pool : Bytes

def readEncryptDataInto (A : Cipher) (key stream pool : Bytes) : Outcome Read := do
  let (ciphertextLen,rest) ← readFrameLength stream
  if ciphertextLen < nonceLen + tagLen then
    .err s!"Frame length too short for encrypted header: {ciphertextLen}"
  else
    let plaintextLen := ciphertextLen - nonceLen - tagLen
    let requiredLen := ciphertextLen + plaintextLen
    let pool := grow pool requiredLen
    let (encryptedChunk,decryptedChunk) ← splitAt pool ciphertextLen
    let _ ← slice encryptedChunk 0 ciphertextLen
    let (encryptedBuf,rest) ← readExact rest ciphertextLen
    let decryptedBuf ← slice decryptedChunk 0 plaintextLen
    let (decryptedBuf,_) ← decryptInto A encryptedBuf decryptedBuf key
    .ok ⟨decryptedBuf,rest,encryptedBuf ++ decryptedBuf ++ decryptedChunk.drop plaintextLen⟩

structure Written where
  frame : Bytes
  pool : Bytes

def writeEncryptFrameInto (A : Cipher) (data key : Bytes) (nonce : Nonce) (pool : Bytes) :
    Outcome Written := do
  let plaintextLen := data.length
  if u32Max < plaintextLen then .err s!"Too large content: {plaintextLen} bytes"
  else
    let ciphertextLen := nonceLen + plaintextLen + tagLen
    let totalFrameLen := 4 + ciphertextLen
    let pool := grow pool totalFrameLen
    let lenBytes ← copyFromSlice (← slice pool 0 4) (be32 ciphertextLen)
    let (body,_) ← encryptInto A data (← slice pool 4 totalFrameLen) key nonce
    let pool := lenBytes ++ body ++ pool.drop totalFrameLen
    let frame ← slice pool 0 totalFrameLen
    .ok ⟨frame,pool⟩

/- What a frame is, with no pool in it. -/
def frame (A : Cipher) (key : Bytes) (nonce : Nonce) (data : Bytes) : Bytes :=
  be32 (nonceLen + data.length + tagLen) ++ A.sealed key nonce data

theorem writtenFrame {A : Cipher} {data key pool : Bytes} {nonce : Nonce}
    (small : data.length ≤ u32Max) :
    ∃ after, writeEncryptFrameInto A data key nonce pool = .ok ⟨frame A key nonce data,after⟩ := by
  have room := growEnough pool (4 + (nonceLen + data.length + tagLen))
  have head : (((grow pool (4 + (nonceLen + data.length + tagLen))).take 4).drop 0).length = 4 := by
    simp only [List.drop_zero,List.length_take]
    omega
  have body : (((grow pool (4 + (nonceLen + data.length + tagLen))).take
      (4 + (nonceLen + data.length + tagLen))).drop 4).length =
      nonceLen + data.length + tagLen := by
    simp; omega
  have total : (be32 (nonceLen + data.length + tagLen) ++ A.sealed key nonce data).length =
      4 + (nonceLen + data.length + tagLen) := by
    simp [be32Length,A.sealedLength]
  refine ⟨be32 (nonceLen + data.length + tagLen) ++ A.sealed key nonce data ++
    (grow pool (4 + (nonceLen + data.length + tagLen))).drop
      (4 + (nonceLen + data.length + tagLen)),?_⟩
  unfold writeEncryptFrameInto
  rw [if_neg (by omega)]
  simp only []
  rw [sliceOk (by omega) (by omega),sliceOk (by omega) room]
  simp only [Outcome.bindOk]
  rw [copyOk head,encryptExact body]
  simp only [Outcome.bindOk]
  rw [sliceOk (by omega) (by simp only [List.length_append] at total ⊢; omega)]
  simp only [Outcome.bindOk,List.drop_zero,frame]
  rw [← total,List.take_left]

theorem tooLargeContent {A : Cipher} {data key pool : Bytes} {nonce : Nonce}
    (large : u32Max < data.length) :
    writeEncryptFrameInto A data key nonce pool =
      .err s!"Too large content: {data.length} bytes" := by
  unfold writeEncryptFrameInto
  rw [if_pos large]

theorem frameFits {len : Nat} (bounded : len ≤ maxFrameLength) : len % 4294967296 = len :=
  Nat.mod_eq_of_lt (Nat.lt_of_le_of_lt bounded (by decide))

/- Stated for any four bytes, so that no closed length is ever computed with. -/
theorem frameLengthOf {stream lenBuf rest : Bytes} (four : readExact stream 4 = .ok (lenBuf,rest))
    {len : Nat} (admitted : admitLength (fromBe32 lenBuf) = .ok len) :
    readFrameLength stream = .ok (len,rest) := by
  unfold readFrameLength
  rw [four]
  simp only [Outcome.bindOk,admitted]

theorem frameLengthRefused {stream lenBuf rest : Bytes} {message : String}
    (four : readExact stream 4 = .ok (lenBuf,rest))
    (refused : admitLength (fromBe32 lenBuf) = .err message) :
    readFrameLength stream = .err message := by
  unfold readFrameLength
  rw [four]
  simp only [Outcome.bindOk,refused,Outcome.bindErr]

theorem longLength {n : Nat} (long : maxFrameLength < n)
    (range : n < 4294967296 + (nonceLen + tagLen)) :
    (∃ message, admitLength (fromBe32 (be32 n)) = .err message) ∨
      ∃ len, len < nonceLen + tagLen ∧ admitLength (fromBe32 (be32 n)) = .ok len := by
  rw [fromBe32Of]
  generalize wrapped : n % 4294967296 = len
  unfold admitLength
  split
  · exact .inl ⟨_,rfl⟩
  · rename_i inRange
    have short : len < nonceLen + tagLen := by
      unfold maxFrameLength at long inRange
      omega
    exact .inr ⟨len,short,rfl⟩

theorem frameLengthRead {len : Nat} (positive : 0 < len) (bounded : len ≤ maxFrameLength)
    (rest : Bytes) : readFrameLength (be32 len ++ rest) = .ok (len,rest) := by
  have four : readExact (be32 len ++ rest) 4 = .ok (be32 len,rest) :=
    readExactAppend (be32Length len)
  apply frameLengthOf four
  rw [fromBe32Of,frameFits bounded,admitLength,if_neg (by omega)]

/- What a read amounts to, with no pool in it. -/
def readBox (A : Cipher) (key stream : Bytes) : Outcome (Bytes × Bytes) := do
  let (len,rest) ← readFrameLength stream
  if len < nonceLen + tagLen then .err s!"Frame length too short for encrypted header: {len}"
  else
    let (box,rest) ← readExact rest len
    let text ← Outcome.ofOption "aead::Error" (A.opened key box)
    .ok (text,rest)

theorem poolUnseen {A : Cipher} {key stream pool : Bytes} :
    (do let read ← readEncryptDataInto A key stream pool; .ok (read.payload,read.rest)) =
      readBox A key stream := by
  unfold readEncryptDataInto readBox
  cases readFrameLength stream with
  | err message => rfl
  | panic => rfl
  | ok found =>
    obtain ⟨len,rest⟩ := found
    simp only [Outcome.bindOk]
    split
    · rfl
    -- the pool is cut where the box ends, and what is behind it takes the whole text
    have room := growEnough pool (len + (len - nonceLen - tagLen))
    have first : len ≤ ((grow pool (len + (len - nonceLen - tagLen))).take len).length := by
      rw [List.length_take]
      omega
    have second : len - nonceLen - tagLen ≤
        ((grow pool (len + (len - nonceLen - tagLen))).drop len).length := by
      rw [List.length_drop]
      omega
    rw [splitAtOk (by omega)]
    simp only [Outcome.bindOk]
    rw [sliceOk (by omega) first]
    simp only [Outcome.bindOk]
    cases got : readExact rest len with
    | err message => rfl
    | panic => rfl
    | ok taken =>
      obtain ⟨box,later⟩ := taken
      have size := (readExactParts got).2
      have buffer : ((((grow pool (len + (len - nonceLen - tagLen))).drop len).take
          (len - nonceLen - tagLen)).drop 0).length = box.length - nonceLen - tagLen := by
        rw [List.drop_zero,List.length_take]
        omega
      simp only [Outcome.bindOk]
      rw [sliceOk (by omega) second]
      simp only [Outcome.bindOk]
      rw [decryptFits (by omega) (Nat.le_of_eq buffer.symm)]
      cases opened : A.opened key box with
      | none => rfl
      | some text =>
        have textSize := A.openedLength opened
        simp only [Outcome.bindOk,Outcome.ofOption]
        rw [List.drop_of_length_le (by omega),List.append_nil]

theorem boxRead {A : Cipher} {key box rest pool : Bytes}
    (long : nonceLen + tagLen ≤ box.length) (bounded : box.length ≤ maxFrameLength) :
    (∀ text, A.opened key box = some text → ∃ after,
      readEncryptDataInto A key (be32 box.length ++ (box ++ rest)) pool = .ok ⟨text,rest,after⟩) ∧
    (A.opened key box = none →
      readEncryptDataInto A key (be32 box.length ++ (box ++ rest)) pool = .err "aead::Error") := by
  have positive : 0 < box.length := Nat.lt_of_lt_of_le (by decide) long
  have seen := @poolUnseen A key (be32 box.length ++ (box ++ rest)) pool
  have length := frameLengthRead positive bounded (box ++ rest)
  have taken : readExact (box ++ rest) box.length = .ok (box,rest) := readExactAppend rfl
  simp only [readBox,length,Outcome.bindOk,if_neg (Nat.not_lt.mpr long),taken] at seen
  constructor
  · intro text opened
    rw [opened] at seen
    obtain ⟨⟨payload,left,after⟩,got,same⟩ := Outcome.bindIsOk.mp seen
    cases Outcome.ok.inj same
    exact ⟨after,got⟩
  · intro refused
    rw [refused] at seen
    cases got : readEncryptDataInto A key (be32 box.length ++ (box ++ rest)) pool with
    | ok read => simp [got,Outcome.ofOption] at seen
    | err message => simpa [got,Outcome.ofOption] using seen
    | panic => simp [got,Outcome.ofOption] at seen

theorem frameRead {A : Cipher} {key data rest pool : Bytes} {nonce : Nonce}
    (small : nonceLen + data.length + tagLen ≤ maxFrameLength) :
    ∃ after, readEncryptDataInto A key (frame A key nonce data ++ rest) pool =
      .ok ⟨data,rest,after⟩ := by
  have size := A.sealedLength key nonce data
  have long : nonceLen + tagLen ≤ (A.sealed key nonce data).length := by omega
  have bounded : (A.sealed key nonce data).length ≤ maxFrameLength := by omega
  have read := @boxRead A key (A.sealed key nonce data) rest pool long bounded
  replace read := read.1 data (A.openedSealed key nonce data)
  rw [size] at read
  simpa only [frame,List.append_assoc] using read

end RDrive.Frame
