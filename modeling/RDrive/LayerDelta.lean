import RDrive.LayerReaders

/-! compare_layers: which layers of a file the other side does not have, and what can be
told from there being none. -/
namespace RDrive
open Crypto

namespace Layers

/- The source calls it is_changed; it holds of the layers that are not. -/
def isChanged (des : List Layer) (srcLayer : Layer) : Bool :=
  des.any fun desLayer => desLayer.layerMeta.memOffset = srcLayer.layerMeta.memOffset &&
    desLayer.layerMeta.hash = srcLayer.layerMeta.hash

def compareLayers (src des : List Layer) : List Layer :=
  src.foldl (fun changedLayer srcLayer =>
    if isChanged des srcLayer then changedLayer else changedLayer ++ [srcLayer]) []

/- For each offset of `layers`, the layer that was sent, or else the one that was there. -/
def patched (layers delta old : List Layer) : List Layer :=
  layers.filterMap fun layer =>
    (delta.find? fun d => d.layerMeta.memOffset = layer.layerMeta.memOffset).or
      (old.find? fun o => o.layerMeta.memOffset = layer.layerMeta.memOffset)

theorem comparedFilter (src des : List Layer) :
    compareLayers src des = src.filter fun layer => !isChanged des layer := by
  have collects : ∀ changed, src.foldl (fun changedLayer srcLayer =>
      if isChanged des srcLayer then changedLayer else changedLayer ++ [srcLayer]) changed =
        changed ++ src.filter fun layer => !isChanged des layer := by
    induction src with
    | nil => simp
    | cons layer rest ih =>
      intro changed
      rw [List.foldl_cons,ih,List.filter_cons]
      split <;> rename_i found
      · rw [if_neg (by simp [found])]
      · rw [if_pos (by simpa using found),List.append_assoc,List.singleton_append]
  exact collects []

variable (H : Hashes)

def Collisionless (new old : Bytes) : Prop :=
  ∀ x ∈ fullReads layerSize new, ∀ y ∈ fullReads layerSize old, H.sha256 x = H.sha256 y → x = y

def cut (content : Bytes) : List Layer := layersOf H 0 (fullReads layerSize content)

variable {H} {new old content : Bytes} {layer other : Layer}

theorem cutAt (member : layer ∈ cut H content) : layer = layerAt H content layer.layerMeta.memOffset := by
  obtain ⟨i,-,same⟩ := (layersAt H content layer).mp member
  rw [same]
  rfl

theorem cutPiece (member : layer ∈ cut H content) : layer.data ∈ fullReads layerSize content := by
  have pieces := layersData H 0 (fullReads layerSize content)
  rw [← pieces]
  exact List.mem_map_of_mem member

theorem cutUnique (member : layer ∈ cut H content) (otherMember : other ∈ cut H content)
    (same : other.layerMeta.memOffset = layer.layerMeta.memOffset) : other = layer := by
  rw [cutAt member,cutAt otherMember,same]

theorem cutSame (member : layer ∈ cut H new) (otherMember : other ∈ cut H old)
    (offset : other.layerMeta.memOffset = layer.layerMeta.memOffset) (bytes : other.data = layer.data) :
    other = layer := by
  have hash := layersHashed H 0 _ layer member
  have otherHash := layersHashed H 0 _ other otherMember
  obtain ⟨data,hash_,start⟩ := layer
  obtain ⟨data',hash_',start'⟩ := other
  simp only at hash otherHash offset bytes
  rw [hash,otherHash,offset,bytes]

theorem hashSame (apart : Collisionless H new old) (member : layer ∈ cut H new)
    (otherMember : other ∈ cut H old) (hash : other.layerMeta.hash = layer.layerMeta.hash) :
    other.data = layer.data := by
  rw [layersHashed H 0 _ layer member,layersHashed H 0 _ other otherMember] at hash
  exact (apart _ (cutPiece member) _ (cutPiece otherMember) (Hex.encodeInjective hash).symm).symm

theorem foundExactly (apart : Collisionless H new old) (member : layer ∈ cut H new) :
    isChanged (cut H old) layer = true ↔ layer ∈ cut H old := by
  unfold isChanged
  rw [List.any_eq_true]
  simp only [Bool.and_eq_true,decide_eq_true_eq]
  constructor
  · rintro ⟨o,there,offset,hash⟩
    rw [← cutSame member there offset (hashSame apart member there hash)]
    exact there
  · exact fun there => ⟨layer,there,rfl,rfl⟩

theorem deltaMember (apart : Collisionless H new old) (member : layer ∈ cut H new) :
    layer ∈ compareLayers (cut H new) (cut H old) ↔ layer ∉ cut H old := by
  rw [comparedFilter,List.mem_filter,Bool.not_eq_true',← Bool.not_eq_true,foundExactly apart member]
  exact and_iff_right member

theorem findUnique {layers : List Layer} (member : layer ∈ layers)
    (unique : ∀ o ∈ layers, o.layerMeta.memOffset = layer.layerMeta.memOffset → o = layer) :
    layers.find? (fun o => o.layerMeta.memOffset = layer.layerMeta.memOffset) = some layer := by
  cases found : layers.find? (fun o => o.layerMeta.memOffset = layer.layerMeta.memOffset) with
  | none => exact absurd (List.find?_eq_none.mp found layer member) (by simp)
  | some o =>
    have offset : o.layerMeta.memOffset = layer.layerMeta.memOffset := by
      simpa using List.find?_some found
    rw [unique o (List.mem_of_find?_eq_some found) offset]

theorem patchedBack (apart : Collisionless H new old) :
    patched (cut H new) (compareLayers (cut H new) (cut H old)) (cut H old) = cut H new := by
  unfold patched
  have each : ∀ layer ∈ cut H new,
      ((compareLayers (cut H new) (cut H old)).find? fun d =>
          d.layerMeta.memOffset = layer.layerMeta.memOffset).or
        ((cut H old).find? fun o => o.layerMeta.memOffset = layer.layerMeta.memOffset) = some layer := by
    intro layer member
    have sub : ∀ d ∈ compareLayers (cut H new) (cut H old), d ∈ cut H new := by
      intro d sent
      rw [comparedFilter] at sent
      exact (List.mem_filter.mp sent).1
    by_cases there : layer ∈ cut H old
    · have unsent : (compareLayers (cut H new) (cut H old)).find? (fun d =>
          d.layerMeta.memOffset = layer.layerMeta.memOffset) = none := by
        rw [List.find?_eq_none]
        intro d sent offset
        have same := cutUnique member (sub d sent) (of_decide_eq_true offset)
        subst same
        exact (deltaMember apart member).mp sent there
      rw [unsent,Option.none_or]
      exact findUnique there fun o among => cutUnique there among
    · rw [findUnique ((deltaMember apart member).mpr there) fun d sent => cutUnique member (sub d sent)]
      rfl
  rw [List.filterMap_congr each,List.filterMap_some]

theorem deltaBytes (apart : Collisionless H new old) : compareLayers (cut H new) (cut H old) =
    (cut H new).filter fun layer => ¬ ∃ o ∈ cut H old,
      o.layerMeta.memOffset = layer.layerMeta.memOffset ∧ o.data = layer.data := by
  rw [comparedFilter]
  refine List.filter_congr fun layer member => ?_
  rw [Bool.eq_iff_iff,Bool.not_eq_true',← Bool.not_eq_true,foundExactly apart member,decide_eq_true_eq,
    not_iff_not]
  constructor
  · exact fun there => ⟨layer,there,rfl,rfl⟩
  · rintro ⟨o,there,offset,bytes⟩
    rw [← cutSame member there offset bytes]
    exact there

/- The delta is what the old file does not have at its place, and it is enough. -/
theorem deltaSufficient (H : Hashes) (new old : Bytes) (first second : Nat → Option Nat)
    (answeredFirst : Answered first) (answeredSecond : Answered second) (apart : Collisionless H new old) :
    ∃ newLayers oldLayers, toLayers H ⟨new,first⟩ = .ok newLayers ∧
      toLayers H ⟨old,second⟩ = .ok oldLayers ∧
      compareLayers newLayers oldLayers = newLayers.filter (fun layer => ¬ ∃ o ∈ oldLayers,
        o.layerMeta.memOffset = layer.layerMeta.memOffset ∧ o.data = layer.data) ∧
      fromLayers (patched newLayers (compareLayers newLayers oldLayers) oldLayers) = new := by
  refine ⟨cut H new,cut H old,toLayersReads H answeredFirst,toLayersReads H answeredSecond,
    deltaBytes apart,?_⟩
  rw [patchedBack apart]
  exact (layersCut H new).back _ (List.Perm.refl _)

theorem oneLayer {b : Bytes} (some_ : b ≠ []) (short : b.length ≤ layerSize) :
    fullReads layerSize b = [b] := by
  rw [fullReadsMore some_ layerPositive,List.take_of_length_le short,List.drop_eq_nil_of_le short,
    fullReadsEnd]

theorem sampleApart : Collisionless padHashes [1,2] [1,3,4] := by
  intro x inNew y inOld same
  rw [oneLayer (by decide) (by decide)] at inNew inOld
  rw [List.mem_singleton.mp inNew,List.mem_singleton.mp inOld] at same
  exact absurd same (by decide)

theorem shorterFilePatched : ∃ newLayers oldLayers,
    toLayers padHashes ⟨[1,2],fun _ => some 1⟩ = .ok newLayers ∧
    toLayers padHashes ⟨[1,3,4],fun _ => some 2⟩ = .ok oldLayers ∧
    compareLayers newLayers oldLayers = newLayers.filter (fun layer => ¬ ∃ o ∈ oldLayers,
      o.layerMeta.memOffset = layer.layerMeta.memOffset ∧ o.data = layer.data) ∧
    fromLayers (patched newLayers (compareLayers newLayers oldLayers) oldLayers) = [1,2] :=
  deltaSufficient padHashes [1,2] [1,3,4] (fun _ => some 1) (fun _ => some 2) (fun _ => nofun)
    (fun _ => nofun) sampleApart

theorem layersAmong : (∀ layer ∈ cut H new, layer ∈ cut H old) ↔
    new = old ∨ new <+: old ∧ layerSize ∣ new.length := by
  have room := layerPositive
  constructor
  · intro among
    have pieces : ∀ i, i * layerSize < new.length → i * layerSize < old.length ∧
        (new.drop (i * layerSize)).take layerSize = (old.drop (i * layerSize)).take layerSize := by
      intro i inside
      have there := among _ ((layersAt H new _).mpr ⟨i,inside,rfl⟩)
      obtain ⟨k,inOld,same⟩ := (layersAt H old _).mp there
      have offset : i * layerSize = k * layerSize := congrArg (fun l => l.layerMeta.memOffset) same
      rw [← offset] at inOld same
      exact ⟨inOld,congrArg Layer.data same⟩
    have front : new <+: old := by
      rw [List.prefix_iff_getElem?]
      intro j inside
      have place := Nat.div_add_mod j layerSize
      have rest := Nat.mod_lt j room
      rw [Nat.mul_comm] at place
      obtain ⟨-,same⟩ := pieces (j / layerSize) (by omega)
      have byte := congrArg (fun b => b[j % layerSize]?) same
      simp only [List.getElem?_take_of_lt rest,List.getElem?_drop,place] at byte
      rw [← byte,List.getElem?_eq_getElem inside]
    by_cases whole : layerSize ∣ new.length
    · exact .inr ⟨front,whole⟩
    · left
      have place := Nat.div_add_mod new.length layerSize
      have rest := Nat.mod_lt new.length room
      have some_ : new.length % layerSize ≠ 0 := fun none_ => whole (Nat.dvd_of_mod_eq_zero none_)
      rw [Nat.mul_comm] at place
      obtain ⟨inOld,same⟩ := pieces (new.length / layerSize) (by omega)
      have lengths := congrArg List.length same
      simp only [List.length_take,List.length_drop] at lengths
      exact front.eq_of_length (by omega)
  · rintro (rfl | ⟨⟨tail,rfl⟩,whole⟩) layer member
    · exact member
    · obtain ⟨i,inside,rfl⟩ := (layersAt H new _).mp member
      have fits : i * layerSize + layerSize ≤ new.length := by
        obtain ⟨k,size⟩ := whole
        rw [size,Nat.mul_comm layerSize k] at inside ⊢
        have := Nat.lt_of_mul_lt_mul_right inside
        calc i * layerSize + layerSize = (i + 1) * layerSize := by rw [Nat.succ_mul]
          _ ≤ k * layerSize := Nat.mul_le_mul_right _ this
      refine (layersAt H (new ++ tail) _).mpr ⟨i,by rw [List.length_append]; omega,?_⟩
      unfold layerAt
      rw [List.drop_append_of_le_length (by omega),
        List.take_append_of_le_length (by rw [List.length_drop]; omega)]

theorem emptyExactly (H : Hashes) (new old : Bytes) (first second : Nat → Option Nat)
    (answeredFirst : Answered first) (answeredSecond : Answered second) (apart : Collisionless H new old) :
    ∃ newLayers oldLayers, toLayers H ⟨new,first⟩ = .ok newLayers ∧
      toLayers H ⟨old,second⟩ = .ok oldLayers ∧
      (compareLayers newLayers oldLayers = [] ↔ new = old ∨ new <+: old ∧ layerSize ∣ new.length) := by
  refine ⟨cut H new,cut H old,toLayersReads H answeredFirst,toLayersReads H answeredSecond,?_⟩
  rw [← layersAmong,comparedFilter,List.filter_eq_nil_iff]
  refine forall₂_congr fun layer member => ?_
  rw [Bool.not_eq_true',Bool.not_eq_false,foundExactly apart member]

theorem shorterFileTold : ∃ newLayers oldLayers,
    toLayers padHashes ⟨[1,2],fun _ => some 1⟩ = .ok newLayers ∧
    toLayers padHashes ⟨[1,3,4],fun _ => some 2⟩ = .ok oldLayers ∧
    (compareLayers newLayers oldLayers = [] ↔
      ([1,2] : Bytes) = [1,3,4] ∨ ([1,2] : Bytes) <+: [1,3,4] ∧ layerSize ∣ 2) :=
  emptyExactly padHashes [1,2] [1,3,4] (fun _ => some 1) (fun _ => some 2) (fun _ => nofun)
    (fun _ => nofun) sampleApart

theorem emptyDeltaMisses : ¬ ∀ (H : Hashes) (new old : Bytes) (first second : Nat → Option Nat)
    (newLayers oldLayers : List Layer), Answered first → Answered second → Collisionless H new old →
      toLayers H ⟨new,first⟩ = .ok newLayers → toLayers H ⟨old,second⟩ = .ok oldLayers →
      (compareLayers newLayers oldLayers = [] ↔ new = old) := by
  intro always
  have answered : Answered fun _ => some 1 := fun _ => nofun
  have apart : Collisionless padHashes [] [0] := by
    intro x inNew
    rw [fullReadsEnd] at inNew
    exact nomatch inNew
  have none_ : cut padHashes [] = [] := by rw [cut,fullReadsEnd]; rfl
  have equal := always padHashes [] [0] _ _ _ _ answered answered apart (toLayersReads padHashes answered)
    (toLayersReads padHashes answered)
  exact absurd (equal.mp (by change compareLayers (cut padHashes []) _ = []; rw [none_]; rfl)) nofun

end Layers
end RDrive
