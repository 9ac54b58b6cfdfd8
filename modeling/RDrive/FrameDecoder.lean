import RDrive.FrameStream

/-! The frame decoder on arbitrary bytes: a stream in any pieces, a pool of any length
and content. -/
namespace RDrive.Frame
open Crypto Bytes

structure Boxed (A : Cipher) (key stream : Bytes) (len : Nat) (text : Bytes) : Prop where
  head : 4 ≤ stream.length
  spelled : fromBe32 (stream.take 4) = len
  long : nonceLen + tagLen ≤ len
  bounded : len ≤ maxFrameLength
  whole : 4 + len ≤ stream.length
  opened : A.opened key ((stream.drop 4).take len) = some text

section
variable {A : Cipher} {key stream pool text : Bytes} {len : Nat}

theorem admitIsOk {n : Nat} : admitLength n = .ok len ↔ n = len ∧ 0 < len ∧ len ≤ maxFrameLength := by
  unfold admitLength
  split
  · rename_i outside
    constructor
    · intro refused
      contradiction
    · rintro ⟨rfl,some_,bounded⟩
      omega
  · rename_i inside
    rw [Outcome.ok.injEq]
    omega

theorem lengthIsOk {rest : Bytes} : readFrameLength stream = .ok (len,rest) ↔
    4 ≤ stream.length ∧ fromBe32 (stream.take 4) = len ∧ 0 < len ∧ len ≤ maxFrameLength ∧
      rest = stream.drop 4 := by
  unfold readFrameLength
  rw [Outcome.bindIsOk]
  constructor
  · rintro ⟨⟨lenBuf,left⟩,four,later⟩
    obtain ⟨enough,rfl,rfl⟩ := readExactIsOk.mp four
    obtain ⟨n,admitted,same⟩ := Outcome.bindIsOk.mp later
    cases Outcome.ok.inj same
    obtain ⟨spelled,some_,bounded⟩ := admitIsOk.mp admitted
    exact ⟨enough,spelled,some_,bounded,rfl⟩
  · rintro ⟨enough,spelled,some_,bounded,rfl⟩
    refine ⟨(stream.take 4,stream.drop 4),readExactIsOk.mpr ⟨enough,rfl,rfl⟩,?_⟩
    exact Outcome.bindIsOk.mpr ⟨len,admitIsOk.mpr ⟨spelled,some_,bounded⟩,rfl⟩

theorem boxIsOk {rest : Bytes} : readBox A key stream = .ok (text,rest) ↔
    ∃ len, Boxed A key stream len text ∧ rest = stream.drop (4 + len) := by
  unfold readBox
  rw [Outcome.bindIsOk]
  constructor
  · rintro ⟨⟨len,left⟩,length,later⟩
    obtain ⟨head,spelled,-,bounded,rfl⟩ := lengthIsOk.mp length
    have long : ¬ len < nonceLen + tagLen := by
      intro short
      simp only [if_pos short] at later
      contradiction
    simp only [if_neg long] at later
    obtain ⟨⟨box,after⟩,boxed,last⟩ := Outcome.bindIsOk.mp later
    obtain ⟨enough,rfl,rfl⟩ := readExactIsOk.mp boxed
    obtain ⟨found,opened,same⟩ := Outcome.bindIsOk.mp last
    cases Outcome.ok.inj same
    rw [List.length_drop] at enough
    refine ⟨len,⟨head,spelled,Nat.le_of_not_lt long,bounded,by omega,?_⟩,List.drop_drop⟩
    exact Outcome.ofOptionIsOk.mp opened
  · rintro ⟨len,boxed,rfl⟩
    have some_ : 0 < len := Nat.lt_of_lt_of_le (by decide) boxed.long
    refine ⟨(len,stream.drop 4),lengthIsOk.mpr ⟨boxed.head,boxed.spelled,some_,boxed.bounded,rfl⟩,?_⟩
    have whole := boxed.whole
    have enough : len ≤ (stream.drop 4).length := by
      rw [List.length_drop]
      omega
    simp only []
    rw [if_neg (Nat.not_lt.mpr boxed.long),readExactIsOk.mpr ⟨enough,rfl,rfl⟩]
    simp only [Outcome.bindOk,boxed.opened,Outcome.ofOption,List.drop_drop]

theorem boxNeverPanics : readBox A key stream ≠ .panic := by
  intro panics
  unfold readBox readFrameLength readExact admitLength at panics
  split at panics
  · simp only [Outcome.bindOk] at panics
    split at panics
    · contradiction
    simp only [Outcome.bindOk] at panics
    split at panics
    · contradiction
    split at panics
    · simp only [Outcome.bindOk] at panics
      revert panics
      cases A.opened key _ <;> exact nofun
    · contradiction
  · contradiction

theorem piecesUnseen (pieces : List Bytes) :
    (do let read ← readPieces A key pieces pool
        .ok (read.payload,read.rest.flatten)) = readBox A key pieces.flatten := by
  rw [← @poolUnseen A key pieces.flatten pool,← piecesJoined]
  cases readPieces A key pieces pool <;> rfl

theorem boxedLength (boxed : Boxed A key stream len text) :
    text.length = len - nonceLen - tagLen := by
  have size := A.openedLength boxed.opened
  have whole := boxed.whole
  rw [List.length_take,List.length_drop] at size
  omega

end

/- Whatever the pieces the stream arrives in, and whatever the pool was before. -/
theorem decoderExact (A : Cipher) (key : Bytes) (pieces : List Bytes) (pool : Bytes) :
    readPieces A key pieces pool ≠ .panic ∧
    (∀ text, (∃ left after, readPieces A key pieces pool = .ok ⟨text,left,after⟩) ↔
      ∃ len, Boxed A key pieces.flatten len text) ∧
    (∀ read, readPieces A key pieces pool = .ok read →
      ∃ len, Boxed A key pieces.flatten len read.payload ∧
        read.rest.flatten = pieces.flatten.drop (4 + len) ∧ read.payload.length = len - 28) ∧
    ((∀ len text, ¬ Boxed A key pieces.flatten len text) →
      ∃ message, readPieces A key pieces pool = .err message) ∧
    (∀ other, (do let read ← readPieces A key pieces other; .ok (read.payload,read.rest.flatten)) =
      (do let read ← readPieces A key pieces pool; .ok (read.payload,read.rest.flatten))) := by
  have seen := @piecesUnseen A key pool pieces
  have reads : ∀ read, readPieces A key pieces pool = .ok read →
      readBox A key pieces.flatten = .ok (read.payload,read.rest.flatten) := by
    intro read got
    rw [← seen,got]
    rfl
  refine ⟨?_,fun text => ⟨?_,?_⟩,?_,?_,fun other => ?_⟩
  · intro panics
    rw [panics] at seen
    exact boxNeverPanics seen.symm
  · rintro ⟨left,after,got⟩
    obtain ⟨len,boxed,-⟩ := boxIsOk.mp (reads _ got)
    exact ⟨len,boxed⟩
  · rintro ⟨len,boxed⟩
    rw [boxIsOk.mpr ⟨len,boxed,rfl⟩,Outcome.bindIsOk] at seen
    obtain ⟨⟨payload,left,after⟩,got,same⟩ := seen
    cases (Prod.mk.inj (Outcome.ok.inj same)).1
    exact ⟨left,after,got⟩
  · intro read got
    obtain ⟨len,boxed,rest⟩ := boxIsOk.mp (reads read got)
    exact ⟨len,boxed,rest,boxedLength boxed⟩
  · intro never
    rcases got : readPieces A key pieces pool with ⟨found⟩ | ⟨message⟩ | _
    · obtain ⟨len,boxed,-⟩ := boxIsOk.mp (reads found got)
      exact absurd boxed (never len found.payload)
    · exact ⟨message,rfl⟩
    · rw [got] at seen
      exact absurd seen.symm boxNeverPanics
  · rw [seen,piecesUnseen]

end RDrive.Frame
