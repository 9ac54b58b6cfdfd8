import RDrive.Connection
import RDrive.Overwrite

/-! A client key's directory in authorized_keys and its directory in storage, and
that no two keys share one. -/
namespace RDrive
open Crypto Header Party Program

namespace Session

/- No two keys get the same directory name: neither hash collides on keys. -/
structure Distinct (S : Session) : Prop where
  sha512 : ∀ a b : Bytes, a.length = 32 → b.length = 32 →
    S.hashes.sha512 a = S.hashes.sha512 b → a = b
  sha256 : ∀ a b : Bytes, a.length = 32 → b.length = 32 →
    S.hashes.sha256 (Postcard.utf8 (Hex.encode a)) = S.hashes.sha256 (Postcard.utf8 (Hex.encode b)) →
    a = b

variable {S : Session} {a b : Bytes} {p : Path}

theorem storageDistinct (distinct : Distinct S) (sizeA : a.length = 32) (sizeB : b.length = 32)
    (same : S.storagePath a = S.storagePath b) : a = b := by
  have names := (List.cons.inj (List.append_cancel_left same)).1
  exact distinct.sha512 a b sizeA sizeB (Hex.encodeInjective names)

theorem authDistinct (distinct : Distinct S) (sizeA : a.length = 32) (sizeB : b.length = 32)
    (same : S.authPath a = S.authPath b) : a = b := by
  have names := (List.cons.inj (List.append_cancel_left same)).1
  exact distinct.sha256 a b sizeA sizeB (Hex.encodeInjective names)

theorem sameAbove {p q r : Path} (above : p <+: r) (other : q <+: r) (depth : p.length = q.length) :
    p = q := (List.prefix_of_prefix_length_le above other (by omega)).eq_of_length depth

theorem storageDepth (a b : Bytes) : (S.storagePath a).length = (S.storagePath b).length := by
  simp [storagePath]

theorem authDepth (a b : Bytes) : (S.authPath a).length = (S.authPath b).length := by
  simp [authPath]

theorem storageSame (distinct : Distinct S) (sizeA : a.length = 32) (sizeB : b.length = 32)
    (above : S.storagePath a <+: p) (other : S.storagePath b <+: p) : a = b :=
  storageDistinct distinct sizeA sizeB (sameAbove above other (storageDepth a b))

theorem authSame (distinct : Distinct S) (sizeA : a.length = 32) (sizeB : b.length = 32)
    (above : S.authPath a <+: p) (other : S.authPath b <+: p) : a = b :=
  authDistinct distinct sizeA sizeB (sameAbove above other (authDepth a b))

theorem authOutside (key : Bytes) (inside : S.getStorageDir <+: p) : ¬ S.authPath key <+: p := by
  intro above
  obtain ⟨rest,rfl⟩ := inside
  obtain ⟨other,same⟩ := above
  unfold authPath getStorageDir getAuthorizedClientDir at same
  simp only [List.append_assoc] at same
  have names := List.append_cancel_left same
  simp at names

theorem storageApart (above : S.storagePath a <+: p) (other : S.authPath b <+: p) : False :=
  authOutside b ((List.prefix_append _ _).trans above) other

theorem storageInner (a : Bytes) : S.storagePath a ≠ [] := by simp [storagePath]
theorem authInner (a : Bytes) : S.authPath a ≠ [] := by simp [authPath]

theorem slotInStorage (slot : Slot) : S.storagePath slot.clientKey <+: S.userDirPath slot := by
  unfold storagePath userDirPath
  rw [List.prefix_append_right_inj]
  simp

theorem slotParts (slot : Slot) : S.storagePath slot.clientKey <+: S.filePath slot ∧
    S.storagePath slot.clientKey <+: S.metaPath slot :=
  ⟨(slotInStorage slot).trans (List.prefix_append _ _),
    (slotInStorage slot).trans (List.prefix_append _ _)⟩

end Session

namespace Whitelist
open Session RoundTrip

def unhex (byte : UInt8) : Nat := if byte < 58 then byte.toNat - 48 else byte.toNat - 87

def packHex : Bytes → Bytes
  | high :: low :: rest => (unhex high * 16 + unhex low).toUInt8 :: packHex rest
  | _ => []

theorem unhexDigit {n : Nat} (small : n < 16) : unhex (Hex.digitByte n) = n := by
  have all : ∀ i : Fin 16, unhex (Hex.digitByte i) = i := by decide
  exact all ⟨n,small⟩

theorem packEncode (b : Bytes) : packHex (Postcard.utf8 (Hex.encode b)) = b := by
  rw [Hex.encodeUtf8]
  induction b with
  | nil => rfl
  | cons byte rest ih =>
    have bound := byte.toNat_lt
    simp only [List.flatMap_cons,List.cons_append,List.nil_append,packHex,ih]
    rw [unhexDigit (by omega),unhexDigit (by omega)]
    have whole : byte.toNat / 16 * 16 + byte.toNat % 16 = byte.toNat := by omega
    rw [whole]
    simp

def keyHashes : Hashes where
  sha256 b := padTo 32 (packHex b)
  sha512 := padTo 64
  sha256Length _ := padLength 32 _
  sha512Length := padHashes.sha512Length

theorem padInjective {n : Nat} {a b : Bytes} (same : padTo n a = padTo n b)
    (size : a.length = b.length) (fits : a.length ≤ n) : a = b := by
  unfold padTo at same
  rw [List.take_of_length_le fits,List.take_of_length_le (size ▸ fits)] at same
  exact (List.append_inj same size).1

def sampleServer : Session := {sampleSession with hashes := keyHashes}

theorem sampleDistinct : Distinct sampleServer where
  sha512 a b sizeA sizeB same := padInjective same (sizeA.trans sizeB.symm) (by omega)
  sha256 a b sizeA sizeB same := by
    have packed : padTo 32 (packHex (Postcard.utf8 (Hex.encode a))) =
        padTo 32 (packHex (Postcard.utf8 (Hex.encode b))) := same
    rw [packEncode,packEncode] at packed
    exact padInjective packed (sizeA.trans sizeB.symm) (by omega)

def sampleHeader : UploadHeader :=
  ⟨"4a43afa64e9342fc8320e63a43eb193b","dummy.bin",1048576,"c8a5a04dba635ab9","ronak"⟩

theorem sampleValid : sampleHeader.validate sampleServer.maxFileSize = .ok () := by decide

end Whitelist
end RDrive
