import RDrive.Layers

/-! The two readers of layer.rs that keep no layers in memory: one streams over the file,
one goes to an offset. What either finds is what to_layers cuts. -/
namespace RDrive
open Crypto

namespace Layers

/- take(limit).read_to_end(&mut buffer): reads until one of them returns nothing. -/
def readToEnd (limit : Nat) (reader : BufReader) (buffer : Bytes) : Outcome (Bytes × BufReader) :=
  if buffer.length < limit then
    match reader.read (limit - buffer.length) with
    | none => .err "failed to read"
    | some (chunk,reader) =>
      if chunk = [] then .ok (buffer,reader) else readToEnd limit reader (buffer ++ chunk)
  else .ok (buffer,reader)
termination_by limit - buffer.length
decreasing_by
  rename_i some_
  have := List.length_pos_of_ne_nil some_
  simp only [List.length_append]
  omega

theorem readToEndReads {limit : Nat} {reader : BufReader} {buffer : Bytes}
    (answered : Answered reader.answers) (bounded : buffer.length ≤ limit) :
    ∃ answers, Answered answers ∧ readToEnd limit reader buffer =
      .ok ((buffer ++ reader.rest).take limit,⟨(buffer ++ reader.rest).drop limit,answers⟩) := by
  induction left : limit - buffer.length using Nat.strong_induction_on generalizing reader buffer with
  | _ m ih =>
    rw [readToEnd]
    split
    · rename_i more
      obtain ⟨chunk,after,read,size,rest,later,ended⟩ :=
        @readAnswered reader (limit - buffer.length) answered (by omega)
      rw [read]
      simp only []
      split
      · rename_i nothing
        have none_ := ended nothing
        subst nothing
        have left : after.rest = [] := rest.symm.trans none_
        refine ⟨after.answers,later,?_⟩
        rw [none_,List.append_nil,List.take_of_length_le bounded,List.drop_eq_nil_of_le bounded,← left]
      · rename_i some_
        have positive := List.length_pos_of_ne_nil some_
        have both : (buffer ++ chunk).length ≤ limit := by
          rw [List.length_append]
          omega
        have smaller : limit - (buffer ++ chunk).length < m := by
          rw [List.length_append]
          omega
        obtain ⟨answers,remaining,same⟩ := ih _ smaller later both rfl
        refine ⟨answers,remaining,?_⟩
        rw [same,rest,List.append_assoc]
    · rename_i full
      have whole : buffer.length = limit := by omega
      refine ⟨reader.answers,answered,?_⟩
      rw [List.take_left' whole,List.drop_left' whole]

theorem readToEndTaken {limit : Nat} {reader after : BufReader} {start buffer : Bytes}
    (read : readToEnd limit reader start = .ok (buffer,after)) :
    start ++ reader.rest = buffer ++ after.rest := by
  induction left : limit - start.length using Nat.strong_induction_on generalizing reader start with
  | _ m ih =>
    rw [readToEnd] at read
    split at read
    · split at read <;> try contradiction
      rename_i chunk next taken
      split at read
      · rename_i nothing
        obtain ⟨rfl,rfl⟩ := Prod.mk.inj (Outcome.ok.inj read)
        rw [readTaken taken,nothing,List.nil_append]
      · rename_i some_
        have positive := List.length_pos_of_ne_nil some_
        have smaller : limit - (start ++ chunk).length < m := by
          rw [List.length_append]
          omega
        rw [← ih _ smaller read rfl,readTaken taken,List.append_assoc]
    · obtain ⟨rfl,rfl⟩ := Prod.mk.inj (Outcome.ok.inj read)
      rfl

variable (H : Hashes)

def readFileLayerLoop (reader : BufReader) (layersMeta : List LayerMeta) (memOffset : Nat) :
    Outcome (List LayerMeta) :=
  match _read : readToEnd layerSize reader [] with
  | .err e => .err e
  | .panic => .panic
  | .ok (buffer,reader) =>
    if _ended : buffer.length = 0 then .ok layersMeta
    else
      readFileLayerLoop reader (layersMeta ++ [⟨sha256Hex H buffer,memOffset⟩]) (memOffset + buffer.length)
termination_by reader.rest.length
decreasing_by
  have taken := congrArg List.length (readToEndTaken _read)
  simp only [List.nil_append,List.length_append] at taken
  omega

def readFileLayer (reader : BufReader) : Outcome (List LayerMeta) := readFileLayerLoop H reader [] 0

/- An open file and a reader somewhere in it. Its file system knows offsets up to maxOffset,
an i64 at most. -/
structure BufFile where
  content : Bytes
  reader : BufReader
  maxOffset : Nat
  lseek : maxOffset < 2 ^ 63
  fits : content.length ≤ maxOffset

/- Seeking beyond the end is no error and leaves nothing to read, up to the largest offset. -/
def BufFile.seek (f : BufFile) (offset : Nat) : Outcome BufReader :=
  if offset ≤ f.maxOffset then .ok ⟨f.content.drop offset,f.reader.answers⟩
  else .err "Invalid argument (os error 22)"

def readDataLayer (f : BufFile) (memOffset : Nat) : Outcome (Option Layer) := do
  let reader ← f.seek memOffset
  let (buffer,_) ← readToEnd layerSize reader []
  if buffer.length = 0 then .ok none else .ok (some ⟨buffer,⟨sha256Hex H buffer,memOffset⟩⟩)

theorem readFileLayerLoopReads {reader : BufReader} (answered : Answered reader.answers)
    (layersMeta : List LayerMeta) (memOffset : Nat) : readFileLayerLoop H reader layersMeta memOffset =
      .ok (layersMeta ++ (layersOf H memOffset (fullReads layerSize reader.rest)).map Layer.layerMeta) := by
  induction size : reader.rest.length using Nat.strong_induction_on
    generalizing reader layersMeta memOffset with
  | _ m ih =>
    obtain ⟨answers,remaining,read⟩ := @readToEndReads layerSize reader [] answered (Nat.zero_le _)
    rw [List.nil_append] at read
    rw [readFileLayerLoop]
    split
    · rename_i failed
      rw [read] at failed
      contradiction
    · rename_i failed
      rw [read] at failed
      contradiction
    · rename_i buffer after made
      obtain ⟨rfl,rfl⟩ := Prod.mk.inj (Outcome.ok.inj (read.symm.trans made))
      by_cases none_ : reader.rest = []
      · rw [dif_pos (by rw [none_,List.take_nil,List.length_nil]),none_,fullReadsEnd]
        simp only [layersOf,List.map_nil,List.append_nil]
      · have positive := List.length_pos_of_ne_nil none_
        have room := layerPositive
        have taken : (reader.rest.take layerSize).length ≠ 0 := by
          rw [List.length_take]
          omega
        have smaller : (reader.rest.drop layerSize).length < m := by
          rw [List.length_drop]
          omega
        rw [dif_neg taken,fullReadsMore none_ layerPositive,ih _ smaller remaining _ _ rfl,
          List.append_assoc]
        rfl

def layerAt (content : Bytes) (memOffset : Nat) : Layer :=
  let data := (content.drop memOffset).take layerSize
  ⟨data,⟨sha256Hex H data,memOffset⟩⟩

theorem readDataLayerReads {f : BufFile} {memOffset : Nat} (answered : Answered f.reader.answers)
    (known : memOffset ≤ f.maxOffset) : readDataLayer H f memOffset =
      .ok (if memOffset < f.content.length then some (layerAt H f.content memOffset) else none) := by
  obtain ⟨answers,-,read⟩ := @readToEndReads layerSize ⟨f.content.drop memOffset,f.reader.answers⟩ []
    answered (Nat.zero_le _)
  rw [List.nil_append] at read
  have room := layerPositive
  have sought : f.seek memOffset = .ok ⟨f.content.drop memOffset,f.reader.answers⟩ := if_pos known
  unfold readDataLayer
  rw [sought,Outcome.bindOk,read,Outcome.bindOk]
  have size : ((f.content.drop memOffset).take layerSize).length =
      min layerSize (f.content.length - memOffset) := by
    rw [List.length_take,List.length_drop]
  simp only [size]
  split
  · rw [if_neg (by omega)]
  · rw [if_pos (by omega)]
    rfl

/- to_layers cuts at the multiples of LAYER_SIZE before the end of the file. -/
theorem layersExactly (memOffset : Nat) (content : Bytes) (layer : Layer) :
    layer ∈ layersOf H memOffset (fullReads layerSize content) ↔ ∃ i, i * layerSize < content.length ∧
      layer = {layerAt H content (i * layerSize) with
        layerMeta := ⟨sha256Hex H (layerAt H content (i * layerSize)).data,memOffset + i * layerSize⟩} := by
  induction size : content.length using Nat.strong_induction_on generalizing content memOffset with
  | _ m ih =>
    have room := layerPositive
    by_cases none_ : content = []
    · subst none_
      rw [fullReadsEnd,layersOf]
      constructor
      · exact fun member => absurd member List.not_mem_nil
      · rintro ⟨i,inside,-⟩
        rw [← size] at inside
        exact absurd inside (Nat.not_lt_zero _)
    · have positive := List.length_pos_of_ne_nil none_
      have smaller : (content.drop layerSize).length < m := by
        rw [List.length_drop]
        omega
      rw [fullReadsMore none_ layerPositive,layersOf,List.mem_cons,ih _ smaller _ _ rfl]
      constructor
      · rintro (rfl | ⟨i,inside,same⟩)
        · refine ⟨0,by omega,?_⟩
          simp only [layerAt,Nat.zero_mul,List.drop_zero,Nat.add_zero]
        · rw [List.length_drop] at inside
          have whole : (content.take layerSize).length = layerSize := by
            rw [List.length_take]
            omega
          refine ⟨i + 1,by rw [Nat.succ_mul]; omega,?_⟩
          rw [same,whole,Nat.succ_mul]
          simp only [layerAt,List.drop_drop]
          rw [Nat.add_comm layerSize (i * layerSize),Nat.add_assoc memOffset,
            Nat.add_comm layerSize (i * layerSize)]
      · rintro ⟨i,inside,same⟩
        cases i with
        | zero =>
          left
          rw [same]
          simp only [layerAt,Nat.zero_mul,List.drop_zero,Nat.add_zero]
        | succ i =>
          right
          rw [Nat.succ_mul] at inside
          have whole : (content.take layerSize).length = layerSize := by
            rw [List.length_take]
            omega
          refine ⟨i,by rw [List.length_drop]; omega,?_⟩
          rw [same,whole,Nat.succ_mul]
          simp only [layerAt,List.drop_drop]
          rw [Nat.add_comm layerSize (i * layerSize),Nat.add_assoc memOffset,
            Nat.add_comm layerSize (i * layerSize)]

theorem layersAt (content : Bytes) (layer : Layer) : layer ∈ layersOf H 0 (fullReads layerSize content) ↔
    ∃ i, i * layerSize < content.length ∧ layer = layerAt H content (i * layerSize) := by
  rw [layersExactly]
  simp only [Nat.zero_add]
  rfl

theorem layerAtBytes (content : Bytes) (memOffset : Nat) : (layerAt H content memOffset).data =
    (content.take (min (memOffset + layerSize) content.length)).drop memOffset := by
  rw [List.drop_take,layerAt]
  rcases Nat.le_total (memOffset + layerSize) content.length with inside | beyond
  · rw [Nat.min_eq_left inside,Nat.add_sub_cancel_left]
  · have short : (content.drop memOffset).length ≤ content.length - memOffset := by rw [List.length_drop]
    rw [Nat.min_eq_right beyond,List.take_of_length_le short,List.take_of_length_le]
    rw [List.length_drop]
    omega

theorem readDataLayerFails {f : BufFile} {memOffset : Nat} (beyond : f.maxOffset < memOffset) :
    readDataLayer H f memOffset = .err "Invalid argument (os error 22)" := by
  have sought : f.seek memOffset = .err "Invalid argument (os error 22)" :=
    if_neg (Nat.not_le.mpr beyond)
  unfold readDataLayer
  rw [sought]
  rfl

/- What read_data_layer is to find at an offset of a file that to_layers cut into layers. -/
structure Finds (f : BufFile) (layers : List Layer) (o : Nat) : Prop where
  layer : ∀ layer ∈ layers, layer.layerMeta.memOffset = o → readDataLayer H f o = .ok (some layer)
  none : readDataLayer H f o = .ok none ↔ f.content.length ≤ o
  some : o < f.content.length → ∃ layer, readDataLayer H f o = .ok (some layer) ∧
    layer.data = (f.content.take (min (o + layerSize) f.content.length)).drop o

theorem findsKnown {f : BufFile} {o : Nat} (answered : Answered f.reader.answers)
    (known : o ≤ f.maxOffset) : Finds H f (layersOf H 0 (fullReads layerSize f.content)) o := by
  have found := readDataLayerReads H answered known
  refine ⟨?_,?_,?_⟩
  · rintro layer member rfl
    obtain ⟨i,inside,rfl⟩ := (layersAt H f.content layer).mp member
    exact found.trans (by rw [if_pos (by exact inside)]; rfl)
  · rw [found]
    split
    · rename_i inside
      exact iff_of_false nofun (Nat.not_le.mpr inside)
    · rename_i beyond
      exact iff_of_true rfl (Nat.not_lt.mp beyond)
  · intro inside
    exact ⟨_,found.trans (by rw [if_pos inside]),layerAtBytes H f.content o⟩

theorem findsNone {f : BufFile} {layers : List Layer} {o : Nat} (beyond : f.maxOffset < o) :
    ¬ Finds H f layers o := by
  intro finds
  have past : f.content.length ≤ o := f.fits.trans (Nat.le_of_lt beyond)
  have none_ := finds.none.mpr past
  rw [readDataLayerFails H beyond] at none_
  contradiction

/- The three readers find one and the same list of layers, where the offset is one of
the file system's. -/
theorem readersAgree (content : Bytes) (first second : Nat → Option Nat) (answeredFirst : Answered first)
    (answeredSecond : Answered second) :
    ∃ layers, toLayers H ⟨content,first⟩ = .ok layers ∧
      readFileLayer H ⟨content,second⟩ = .ok (layers.map Layer.layerMeta) ∧
      ∀ f : BufFile, f.content = content → Answered f.reader.answers →
        (∀ layer ∈ layers, layer.layerMeta.memOffset ≤ f.maxOffset) ∧
        ∀ o, Finds H f layers o ↔ o ≤ f.maxOffset := by
  have streamed := @readFileLayerLoopReads H ⟨content,second⟩ answeredSecond [] 0
  refine ⟨_,toLayersReads H answeredFirst,streamed,?_⟩
  rintro f rfl answered
  refine ⟨?_,fun o => ⟨?_,findsKnown H answered⟩⟩
  · intro layer member
    obtain ⟨i,inside,rfl⟩ := (layersAt H f.content layer).mp member
    exact (Nat.le_of_lt inside).trans f.fits
  · intro finds
    by_contra beyond
    exact findsNone H (Nat.lt_of_not_le beyond) finds

def threeBytes : BufFile where
  content := [1,2,3]
  reader := ⟨[1,2,3],fun _ => some 2⟩
  maxOffset := 2 ^ 63 - 1
  lseek := by decide
  fits := by decide

theorem readersAgreeByteByByte :
    ∃ layers, toLayers padHashes ⟨[1,2,3],fun _ => some 1⟩ = .ok layers ∧
      readFileLayer padHashes ⟨[1,2,3],fun _ => some 2⟩ = .ok (layers.map Layer.layerMeta) ∧
      Finds padHashes threeBytes layers 0 ∧ Finds padHashes threeBytes layers 3 ∧
      ¬ Finds padHashes threeBytes layers (2 ^ 63) := by
  obtain ⟨layers,cut,streamed,each⟩ := readersAgree padHashes [1,2,3] (fun _ => some 1) (fun _ => some 2)
    (fun _ => nofun) fun _ => nofun
  obtain ⟨-,finds⟩ := each threeBytes rfl fun _ => nofun
  exact ⟨layers,cut,streamed,(finds 0).mpr (by decide),(finds 3).mpr (by decide),
    mt (finds (2 ^ 63)).mp (by decide)⟩

theorem farOffsetFails :
    readDataLayer padHashes threeBytes (2 ^ 63) = .err "Invalid argument (os error 22)" ∧
      ¬ (readDataLayer padHashes threeBytes (2 ^ 63) = .ok none ↔
        threeBytes.content.length ≤ 2 ^ 63) := by
  have failed : readDataLayer padHashes threeBytes (2 ^ 63) = .err "Invalid argument (os error 22)" :=
    readDataLayerFails padHashes (by decide)
  refine ⟨failed,fun same => ?_⟩
  have none_ := same.mpr (by decide)
  rw [failed] at none_
  contradiction

end Layers
end RDrive
