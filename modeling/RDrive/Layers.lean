import RDrive.Stream

/-! layer.rs: a file cut into layers of 64 MiB, and written back from layers that
arrive in any order. A read of the file fills as much of the buffer as it likes. -/
namespace RDrive
open Crypto

namespace Layers

def layerSize : Nat := 1024 * 1024 * 64

structure LayerMeta where
  hash : String
  memOffset : Nat

structure Layer where
  data : Bytes
  layerMeta : LayerMeta

/- An open file: what is left of it, and how much each read to come returns, at
least one byte and at most its buffer, or that it fails. -/
structure BufReader where
  rest : Bytes
  answers : Nat → Option Nat

def BufReader.read (r : BufReader) (room : Nat) : Option (Bytes × BufReader) :=
  (r.answers 0).map fun wish =>
    let n := min room (max 1 wish)
    (r.rest.take n,⟨r.rest.drop n,fun k => r.answers (k + 1)⟩)

structure Filling where
  reader : BufReader
  hasher : Bytes
  buffer : Bytes
  bytesRead : Nat

/- The inner loop of to_layers. -/
def fillLayer (f : Filling) : Outcome Filling :=
  if f.bytesRead < layerSize then
    match f.reader.read (f.buffer.length - f.bytesRead) with
    | none => .err "failed to read chunk"
    | some (chunk,reader) =>
      let n := chunk.length
      if n = 0 then .ok {f with reader := reader}
      else do
        let buffer := f.buffer.take f.bytesRead ++ chunk ++ f.buffer.drop (f.bytesRead + n)
        let part ← Bytes.slice buffer f.bytesRead (f.bytesRead + n)
        fillLayer ⟨reader,f.hasher ++ part,buffer,f.bytesRead + n⟩
  else .ok f
termination_by layerSize - f.bytesRead

theorem readTaken {r after : BufReader} {room : Nat} {chunk : Bytes}
    (read : r.read room = some (chunk,after)) : r.rest = chunk ++ after.rest := by
  obtain ⟨wish,-,same⟩ := Option.map_eq_some_iff.mp read
  obtain ⟨rfl,rfl⟩ := Prod.mk.inj same
  exact (List.take_append_drop _ _).symm

theorem fillTaken {f g : Filling} (filled : fillLayer f = .ok g) :
    g.reader.rest.length + g.bytesRead = f.reader.rest.length + f.bytesRead := by
  induction f using fillLayer.induct with
  | case1 f more failed =>
    rw [fillLayer,if_pos more,failed] at filled
    contradiction
  | case2 f more chunk reader read n none_ =>
    rw [fillLayer,if_pos more,read] at filled
    simp only [n] at none_
    simp only [if_pos none_] at filled
    cases Outcome.ok.inj filled
    rw [readTaken read,List.length_append,none_,Nat.zero_add]
  | case3 f more chunk reader read n some_ buffer ih =>
    rw [fillLayer,if_pos more,read] at filled
    simp only [n] at some_
    simp only [if_neg some_] at filled
    obtain ⟨part,-,filled⟩ := Outcome.bindIsOk.mp filled
    have taken := ih part filled
    rw [taken,readTaken read,List.length_append]
    simp only [n]
    omega
  | case4 f full =>
    rw [fillLayer,if_neg full] at filled
    cases Outcome.ok.inj filled
    rfl

variable (H : Hashes)

def sha256Hex (b : Bytes) : String := Hex.encode (H.sha256 b)

def toLayersLoop (reader : BufReader) (layers : List Layer) (memOffset : Nat) :
    Outcome (List Layer) :=
  match _filled : fillLayer ⟨reader,[],List.replicate layerSize 0,0⟩ with
  | .err e => .err e
  | .panic => .panic
  | .ok f =>
    if _ended : f.bytesRead = 0 then .ok layers
    else
      let layer := ⟨f.buffer.take f.bytesRead,⟨sha256Hex H f.hasher,memOffset⟩⟩
      toLayersLoop f.reader (layers ++ [layer]) (memOffset + f.bytesRead)
termination_by reader.rest.length
decreasing_by
  have taken := fillTaken _filled
  simp only [Nat.add_zero] at taken
  omega

def toLayers (reader : BufReader) : Outcome (List Layer) := toLayersLoop H reader [] 0

/- A writer that holds back what is smaller than its capacity. -/
structure BufWriter where
  capacity : Nat
  buf : Bytes
  file : Bytes

def BufWriter.flush (w : BufWriter) : BufWriter := {w with file := w.file ++ w.buf,buf := []}

def BufWriter.writeAll (w : BufWriter) (data : Bytes) : BufWriter :=
  let w := if w.capacity < w.buf.length + data.length then w.flush else w
  if w.capacity ≤ data.length then {w with file := w.file ++ data}
  else {w with buf := w.buf ++ data}

def sortByOffset (layers : List Layer) : List Layer :=
  layers.mergeSort fun a b => a.layerMeta.memOffset ≤ b.layerMeta.memOffset

/- The file that from_layers leaves at its path, where every write succeeds. -/
def fromLayers (layers : List Layer) : Bytes :=
  let writer : BufWriter := ⟨layerSize * 2,[],[]⟩
  ((sortByOffset layers).foldl (fun w layer => w.writeAll layer.data) writer).flush.file

def filling (reader : BufReader) (front : Bytes) : Filling :=
  ⟨reader,front,front ++ List.replicate (layerSize - front.length) 0,front.length⟩

def Answered (answers : Nat → Option Nat) : Prop := ∀ k, answers k ≠ none

theorem readAnswered {r : BufReader} {room : Nat} (answered : Answered r.answers) (some_ : 0 < room) :
    ∃ chunk after, r.read room = some (chunk,after) ∧ chunk.length ≤ room ∧
      r.rest = chunk ++ after.rest ∧ Answered after.answers ∧ (chunk = [] → r.rest = []) := by
  obtain ⟨wish,first⟩ := Option.ne_none_iff_exists'.mp (answered 0)
  have read : r.read room = some (r.rest.take (min room (max 1 wish)),
      ⟨r.rest.drop (min room (max 1 wish)),fun k => r.answers (k + 1)⟩) := by
    rw [BufReader.read,first]
    rfl
  refine ⟨_,_,read,?_,readTaken read,fun k => answered (k + 1),?_⟩
  · rw [List.length_take]
    omega
  · intro nothing
    rcases List.take_eq_nil_iff.mp nothing with zero | ended
    · omega
    · exact ended

theorem bufferRoom (reader : BufReader) (front : Bytes) :
    (filling reader front).buffer.length - (filling reader front).bytesRead =
      layerSize - front.length := by
  simp only [filling,List.length_append,List.length_replicate]
  omega

theorem fillFull {reader : BufReader} {front : Bytes} (full : layerSize ≤ front.length) :
    fillLayer (filling reader front) = .ok (filling reader front) := by
  rw [fillLayer]
  exact if_neg (Nat.not_lt.mpr full)

theorem fillEnd {reader after : BufReader} {front : Bytes} (more : front.length < layerSize)
    (read : reader.read (layerSize - front.length) = some ([],after)) :
    fillLayer (filling reader front) = .ok (filling after front) := by
  rw [fillLayer,if_pos (by exact more),bufferRoom]
  simp only [filling,read,List.length_nil,if_true]

theorem fillMore {reader after : BufReader} {front chunk : Bytes} (some_ : chunk ≠ [])
    (size : chunk.length ≤ layerSize - front.length)
    (read : reader.read (layerSize - front.length) = some (chunk,after)) :
    fillLayer (filling reader front) = fillLayer (filling after (front ++ chunk)) := by
  have positive := List.length_pos_of_ne_nil some_
  have more : front.length < layerSize := by omega
  have written : (front ++ List.replicate (layerSize - front.length) (0 : UInt8)).take front.length ++
      chunk ++ (front ++ List.replicate (layerSize - front.length) 0).drop
        (front.length + chunk.length) =
      front ++ chunk ++ List.replicate (layerSize - (front ++ chunk).length) 0 := by
    rw [List.take_left,List.drop_append,List.drop_replicate,List.length_append,
      List.drop_eq_nil_of_le (Nat.le_add_right _ _),List.nil_append,Nat.add_sub_cancel_left,
      Nat.sub_sub]
  have part : Bytes.slice (front ++ chunk ++ List.replicate (layerSize - (front ++ chunk).length) 0)
      front.length (front.length + chunk.length) = .ok chunk := by
    rw [Bytes.sliceOk (Nat.le_add_right _ _) (by simp only [List.length_append]; omega),
      List.take_left' (by rw [List.length_append]),List.drop_left]
  rw [fillLayer,if_pos (by exact more),bufferRoom]
  simp only [filling,read,if_neg (Nat.ne_of_gt positive)]
  rw [written,part,Outcome.bindOk,List.length_append]

theorem fillLayerFills {reader : BufReader} {front : Bytes} (answered : Answered reader.answers)
    (bounded : front.length ≤ layerSize) :
    ∃ answers, Answered answers ∧ fillLayer (filling reader front) =
      .ok (filling ⟨(front ++ reader.rest).drop layerSize,answers⟩
        ((front ++ reader.rest).take layerSize)) := by
  induction left : layerSize - front.length using Nat.strong_induction_on
    generalizing reader front with
  | _ m ih =>
    rcases Nat.lt_or_ge front.length layerSize with more | full
    · obtain ⟨chunk,after,read,size,rest,later,ended⟩ :=
        @readAnswered reader (layerSize - front.length) answered (by omega)
      by_cases nothing : chunk = []
      · subst nothing
        have none_ := ended rfl
        refine ⟨after.answers,later,?_⟩
        rw [fillEnd more read,none_,List.append_nil,List.take_of_length_le bounded,
          List.drop_eq_nil_of_le bounded,← (show after.rest = [] from rest.symm.trans none_)]
      · have positive := List.length_pos_of_ne_nil nothing
        have both : (front ++ chunk).length ≤ layerSize := by
          rw [List.length_append]
          omega
        have smaller : layerSize - (front ++ chunk).length < m := by
          rw [List.length_append]
          omega
        obtain ⟨answers,remaining,filled⟩ := ih _ smaller later both rfl
        refine ⟨answers,remaining,?_⟩
        rw [fillMore nothing size read,filled,rest,List.append_assoc]
    · have whole : front.length = layerSize := Nat.le_antisymm bounded full
      refine ⟨reader.answers,answered,?_⟩
      rw [fillFull full,List.take_left' whole,List.drop_left' whole]

theorem layerPositive : 0 < layerSize := by decide

def layersOf : Nat → List Bytes → List Layer
  | _,[] => []
  | memOffset,data :: rest =>
    ⟨data,⟨sha256Hex H data,memOffset⟩⟩ :: layersOf (memOffset + data.length) rest

theorem toLayersLoopReads {reader : BufReader} (answered : Answered reader.answers)
    (layers : List Layer) (memOffset : Nat) : toLayersLoop H reader layers memOffset =
      .ok (layers ++ layersOf H memOffset (fullReads layerSize reader.rest)) := by
  induction size : reader.rest.length using Nat.strong_induction_on
    generalizing reader layers memOffset with
  | _ m ih =>
    obtain ⟨answers,remaining,filled⟩ :=
      @fillLayerFills reader [] answered (Nat.zero_le _)
    rw [List.nil_append] at filled
    have start : filling reader [] = ⟨reader,[],List.replicate layerSize 0,0⟩ := rfl
    rw [start] at filled
    rw [toLayersLoop]
    split
    · rename_i failed
      rw [filled] at failed
      contradiction
    · rename_i failed
      rw [filled] at failed
      contradiction
    · rename_i f made
      cases Outcome.ok.inj (filled.symm.trans made)
      simp only [filling,List.take_left]
      by_cases none_ : reader.rest = []
      · rw [dif_pos (by rw [none_,List.take_nil,List.length_nil]),none_,fullReadsEnd]
        simp only [layersOf,List.append_nil]
      · have positive := List.length_pos_of_ne_nil none_
        have taken : (reader.rest.take layerSize).length ≠ 0 := by
          have room := layerPositive
          rw [List.length_take]
          omega
        have smaller : (reader.rest.drop layerSize).length < m := by
          have room := layerPositive
          rw [List.length_drop]
          omega
        rw [dif_neg taken,fullReadsMore none_ layerPositive,ih _ smaller remaining _ _ rfl,
          List.append_assoc]
        rfl

theorem toLayersReads {content : Bytes} {answers : Nat → Option Nat} (answered : Answered answers) :
    toLayers H ⟨content,answers⟩ = .ok (layersOf H 0 (fullReads layerSize content)) :=
  toLayersLoopReads H answered [] 0

theorem layersData (memOffset : Nat) (pieces : List Bytes) :
    (layersOf H memOffset pieces).map Layer.data = pieces := by
  induction pieces generalizing memOffset with
  | nil => rfl
  | cons data rest ih => rw [layersOf,List.map_cons,ih]

theorem layersHashed (memOffset : Nat) (pieces : List Bytes) :
    ∀ layer ∈ layersOf H memOffset pieces, layer.layerMeta.hash = sha256Hex H layer.data := by
  induction pieces generalizing memOffset with
  | nil => simp [layersOf]
  | cons data rest ih =>
    intro layer member
    rcases List.mem_cons.mp member with rfl | later
    · rfl
    · exact ih _ layer later

theorem layersStart (memOffset : Nat) (pieces : List Bytes) {i : Nat} {layer : Layer}
    (here : (layersOf H memOffset pieces)[i]? = some layer) :
    layer.layerMeta.memOffset =
      memOffset + (((layersOf H memOffset pieces).take i).map fun l => l.data.length).sum := by
  induction pieces generalizing memOffset i with
  | nil => simp [layersOf] at here
  | cons data rest ih =>
    rw [layersOf] at here ⊢
    cases i with
    | zero =>
      cases Option.some.inj here
      simp
    | succ i =>
      rw [List.getElem?_cons_succ] at here
      rw [ih _ here,List.take_succ_cons,List.map_cons,List.sum_cons,Nat.add_assoc]

theorem layersAbove (memOffset : Nat) (pieces : List Bytes) :
    ∀ layer ∈ layersOf H memOffset pieces, memOffset ≤ layer.layerMeta.memOffset := by
  intro layer member
  obtain ⟨i,here⟩ := List.getElem?_of_mem member
  rw [layersStart H memOffset pieces here]
  exact Nat.le_add_right _ _

theorem layersIncrease (memOffset : Nat) {pieces : List Bytes} (some_ : ∀ x ∈ pieces, x ≠ []) :
    (layersOf H memOffset pieces).Pairwise fun a b =>
      a.layerMeta.memOffset < b.layerMeta.memOffset := by
  induction pieces generalizing memOffset with
  | nil => exact List.Pairwise.nil
  | cons data rest ih =>
    have positive := List.length_pos_of_ne_nil (some_ data List.mem_cons_self)
    refine List.Pairwise.cons ?_ (ih _ fun x member => some_ x (List.mem_cons_of_mem _ member))
    intro layer later
    have above := layersAbove H _ rest layer later
    simp only []
    omega

theorem sortedBack {layers shuffled : List Layer}
    (ordered : layers.Pairwise fun a b => a.layerMeta.memOffset < b.layerMeta.memOffset)
    (same : shuffled.Perm layers) : sortByOffset shuffled = layers := by
  have sorted : (sortByOffset shuffled).Pairwise fun a b =>
      a.layerMeta.memOffset ≤ b.layerMeta.memOffset := by
    have pairs := @List.pairwise_mergeSort Layer
      (fun a b => decide (a.layerMeta.memOffset ≤ b.layerMeta.memOffset))
      (fun a b c first second => by simp only [decide_eq_true_eq] at *; omega)
      (fun a b => by simp only [Bool.or_eq_true,decide_eq_true_eq]; omega) shuffled
    exact pairs.imp fun h => decide_eq_true_eq.mp h
  have among : (sortByOffset shuffled).Perm layers := (List.mergeSort_perm shuffled _).trans same
  refine among.eq_of_pairwise ?_ sorted (ordered.imp Nat.le_of_lt)
  intro a b inSorted inLayers below above
  have distinct : (layers.map fun layer => layer.layerMeta.memOffset).Nodup :=
    List.pairwise_map.mpr (ordered.imp Nat.ne_of_lt)
  exact List.inj_on_of_nodup_map distinct (among.subset inSorted) inLayers
    (Nat.le_antisymm below above)

theorem flushHolds (w : BufWriter) : w.flush.file ++ w.flush.buf = w.file ++ w.buf := by
  simp [BufWriter.flush]

theorem writeAllHolds (w : BufWriter) (data : Bytes) :
    (w.writeAll data).file ++ (w.writeAll data).buf = w.file ++ w.buf ++ data := by
  unfold BufWriter.writeAll
  by_cases full : w.capacity < w.buf.length + data.length <;>
    by_cases large : w.capacity ≤ data.length
  · simp [full,large,BufWriter.flush]
  · simp [full,large,BufWriter.flush]
  · -- nothing waits in the buffer, since there is no room beside the data
    have empty : w.buf = [] := List.eq_nil_of_length_eq_zero (by omega)
    simp only [if_neg full,if_pos large]
    rw [empty,List.append_nil,List.append_nil]
  · simp [full,large]

theorem writerHolds (w : BufWriter) (layers : List Layer) :
    let written := layers.foldl (fun w layer => w.writeAll layer.data) w
    written.file ++ written.buf = w.file ++ w.buf ++ (layers.map Layer.data).flatten := by
  induction layers generalizing w with
  | nil => simp
  | cons layer rest ih =>
    simp only [List.foldl_cons,List.map_cons,List.flatten_cons] at ih ⊢
    rw [ih,writeAllHolds]
    simp only [List.append_assoc]

theorem fromLayersWrites (layers : List Layer) :
    fromLayers layers = ((sortByOffset layers).map Layer.data).flatten := by
  have held := writerHolds ⟨layerSize * 2,[],[]⟩ (sortByOffset layers)
  have flushed := flushHolds ((sortByOffset layers).foldl (fun w layer => w.writeAll layer.data)
    ⟨layerSize * 2,[],[]⟩)
  simp only [BufWriter.flush,List.append_nil,List.nil_append] at held flushed
  unfold fromLayers
  simp only [BufWriter.flush]
  exact held

/- What to_layers promises of the layers of one content. -/
structure Cut (content : Bytes) (layers : List Layer) : Prop where
  start : ∀ i layer, layers[i]? = some layer →
    layer.layerMeta.memOffset = ((layers.take i).map fun l => l.data.length).sum
  increase : layers.Pairwise fun a b => a.layerMeta.memOffset < b.layerMeta.memOffset
  full : ∀ layer ∈ layers.dropLast, layer.data.length = layerSize
  last : ∀ layer ∈ layers.getLast?, layer.data ≠ [] ∧ layer.data.length ≤ layerSize
  hashed : ∀ layer ∈ layers, layer.layerMeta.hash = sha256Hex H layer.data
  back : ∀ shuffled, shuffled.Perm layers → fromLayers shuffled = content

theorem layersCut (content : Bytes) : Cut H content (layersOf H 0 (fullReads layerSize content)) := by
  have pieces := layersData H 0 (fullReads layerSize content)
  have some_ : ∀ x ∈ fullReads layerSize content, x ≠ [] := fullReadsSome layerPositive
  have increase := layersIncrease H 0 some_
  exact {
    start := by
      intro i layer here
      rw [layersStart H 0 _ here,Nat.zero_add]
    increase := increase
    full := by
      intro layer member
      have front : layer.data ∈ (fullReads layerSize content).dropLast := by
        rw [← pieces,← List.map_dropLast]
        exact List.mem_map_of_mem member
      exact fullReadsFront layerPositive _ front
    last := by
      intro layer member
      have among : layer.data ∈ fullReads layerSize content := by
        rw [← pieces]
        exact List.mem_map_of_mem (List.mem_of_mem_getLast? member)
      exact ⟨some_ _ among,fullReadsSizes layerPositive _ among⟩
    hashed := layersHashed H 0 _
    back := by
      intro shuffled same
      rw [fromLayersWrites,sortedBack increase same,pieces,fullReadsJoined layerPositive] }

theorem layersRebuild (content : Bytes) (answers : Nat → Option Nat) (answered : Answered answers) :
    ∃ layers, toLayers H ⟨content,answers⟩ = .ok layers ∧ Cut H content layers :=
  ⟨_,toLayersReads H answered,layersCut H content⟩

theorem rebuiltByteByByte :
    ∃ layers, toLayers padHashes ⟨[1,2,3],fun _ => some 1⟩ = .ok layers ∧
      Cut padHashes [1,2,3] layers :=
  layersRebuild padHashes [1,2,3] (fun _ => some 1) fun _ => nofun

end Layers
end RDrive
