import RDrive.RoundTrip

/-! Where the chunks of a stream are, when a read may return less than it was asked
for. The sender seals what one read returned; the receiver cuts every 64 KiB. What
sealing does with a buffer that is too long is left out: any function that keeps
the documented contract will do. -/
namespace RDrive
open Crypto Header Duplex Party Bytes

/- "The output buffer must be at least input.len() + NONCE_LEN + TAG_LEN bytes long." -/
def SealsInto (A : Cipher) (encrypt : Bytes → Bytes → Bytes → Nonce → Outcome (Bytes × Nat)) :
    Prop :=
  ∀ input output key nonce, nonceLen + input.length + tagLen ≤ output.length →
    ∃ buf, encrypt input output key nonce = .ok (buf,nonceLen + input.length + tagLen) ∧
      buf.length = output.length ∧
      buf.take (nonceLen + input.length + tagLen) = A.sealed key nonce input

/- What AsyncRead::read may return for a file, up to its end. -/
structure ReadAs (n : Nat) (content : Bytes) (reads : List Bytes) : Prop where
  joined : reads.flatten = content
  sizes : ∀ x ∈ reads, 0 < x.length ∧ x.length ≤ n

/- Every read filled the buffer, except the one that reached the end of the file. -/
def Fills (n : Nat) (reads : List Bytes) : Prop := ∀ x ∈ reads.dropLast, x.length = n

theorem fillsTail {n : Nat} {x : Bytes} {rest : List Bytes} (fills : Fills n (x :: rest)) :
    Fills n rest := by
  intro y member
  cases rest with
  | nil => cases member
  | cons z others => exact fills y (List.mem_cons_of_mem _ member)

theorem fillsFull {n : Nat} {content : Bytes} {reads : List Bytes}
    (read : ReadAs n content reads) (fills : Fills n reads) : fullReads n content = reads := by
  induction reads generalizing content with
  | nil =>
    cases read.joined
    exact fullReadsEnd n
  | cons x rest ih =>
    obtain ⟨positive,bounded⟩ := read.sizes x List.mem_cons_self
    have remaining := ih ⟨rfl,fun y member => read.sizes y (List.mem_cons_of_mem _ member)⟩
      (fillsTail fills)
    cases read.joined
    have some_ : x ++ rest.flatten ≠ [] := by
      have := List.ne_nil_of_length_pos positive
      simp [this]
    rw [List.flatten_cons,fullReadsMore some_ (by omega)]
    cases rest with
    | nil =>
      rw [List.flatten_nil,List.append_nil,List.take_of_length_le bounded,
        List.drop_eq_nil_of_le bounded,fullReadsEnd]
    | cons y others =>
      have whole : x.length = n := fills x (by simp)
      rw [List.take_left' whole,List.drop_left' whole,remaining]

namespace Session

/- sendLoop with another function in the place of encrypt_into. -/
def sendLoopWith (S : Session) (encrypt : Bytes → Bytes → Bytes → Nonce → Outcome (Bytes × Nat))
    (encBuf : Bytes) : List Bytes → Party Unit
  | [] => pure ()
  | plain :: rest => do
    let nonce ← draw nonceLen
    let (encBuf,encLen) ← encrypt plain encBuf S.sessionKey nonce
    let chunk ← slice encBuf 0 encLen
    send chunk
    S.sendLoopWith encrypt encBuf rest

theorem sendLoopSame (S : Session) (encBuf : Bytes) (reads : List Bytes) :
    S.sendLoop encBuf reads = S.sendLoopWith (encryptInto S.cipher) encBuf reads := by
  induction reads generalizing encBuf with
  | nil => rfl
  | cons plain rest ih =>
    simp only [sendLoop,sendLoopWith,ih]

def boxesFrom (S : Session) (h : Host) : List Bytes → List Bytes
  | [] => []
  | plain :: rest => S.cipher.sealed S.sessionKey (h.random h.drawn nonceLen) plain ::
      S.boxesFrom {h with drawn := h.drawn + 1} rest

variable {S : Session} {encrypt : Bytes → Bytes → Bytes → Nonce → Outcome (Bytes × Nat)}

theorem sentWith (contract : SealsInto S.cipher encrypt) {h : Host} {encBuf : Bytes}
    {reads : List Bytes} (fit : ∀ x ∈ reads, nonceLen + x.length + tagLen ≤ encBuf.length) :
    Advances Host.handle (S.sendLoopWith encrypt encBuf reads) h [] (S.boxesFrom h reads).flatten
      (.done (.ok ())) {h with drawn := h.drawn + reads.length} := by
  induction reads generalizing encBuf h with
  | nil => exact .rest _ _
  | cons plain rest ih =>
    obtain ⟨buf,written,same,front⟩ := contract plain encBuf S.sessionKey
      (h.random h.drawn nonceLen) (fit plain List.mem_cons_self)
    have room := fit plain List.mem_cons_self
    have later := @ih {h with drawn := h.drawn + 1} buf
      (fun x member => by rw [same]; exact fit x (List.mem_cons_of_mem _ member))
    rw [sendLoopWith,boxesFrom,List.flatten_cons,List.length_cons]
    refine advancesQuiet (Host.drawAdvances nonceLen) ?_
    rw [written,Program.liftDone,Program.bindDone]
    simp only []
    rw [sliceOk (by omega) (by omega),Program.liftDone,Program.bindDone,front,List.drop_zero]
    refine advancesWrites (Host.sendAdvances _) ?_
    simp only [Nat.add_assoc,Nat.add_comm 1] at later
    exact later

/- No piece of the stream that starts where a box does opens, but the box itself. -/
def Unforged (S : Session) : List Bytes → Prop
  | [] => True
  | box :: rest => (∀ n, n ≤ (box ++ rest.flatten).length →
      (S.cipher.opened S.sessionKey ((box ++ rest.flatten).take n)).isSome = true → n = box.length) ∧
    S.Unforged rest

theorem boxesSealed (S : Session) (h : Host) (reads : List Bytes) :
    Boxes S reads (S.boxesFrom h reads).flatten := by
  induction reads generalizing h with
  | nil => exact .none
  | cons plain rest ih => exact .more _ (ih _)

def Decodes (S : Session) (text : String) (path : Path) (content stream : Bytes) (g : Host) : Prop :=
  ∃ found g', Advances Host.handle
      (S.receiveLoop text path content.length freshDecBuf [] [] 0) g stream []
      (.done (.ok found)) g' ∧
    found.hashed = content ∧
    ∃ written, g'.disk.content path = some written ∧ written ++ found.pending = content

theorem filledDecodes {content : Bytes} {reads : List Bytes} {h g : Host} {path : Path}
    (text : String) (read : ReadAs readChunkSize content reads) (inner : path ≠ [])
    (created : g.disk.content path = some []) (fills : Fills readChunkSize reads) :
    S.Decodes text path content (S.boxesFrom h reads).flatten g := by
  have sealed_ := boxesSealed S h reads
  rw [← fillsFull read fills] at sealed_
  obtain ⟨disk,after,written,wrote,joined,advanced⟩ := chunksReceived (h := g) text freshDecBuf [] []
    inner created (Nat.zero_add _).symm (List.length_replicate) sealed_
  rw [fillsFull read fills] at advanced
  exact ⟨_,_,advanced,rfl,written,wrote.here,joined⟩

theorem askedNext {g g' : Host} {path : Path} {text : String} {decBuf hashed pending box more : Bytes}
    {fileSize received : Nat} {found : Received} (missing : received < fileSize)
    (room : decBuf.length = readChunkSize)
    (unforged : ∀ n, n ≤ (box ++ more).length →
      (S.cipher.opened S.sessionKey ((box ++ more).take n)).isSome = true → n = box.length)
    (ran : Advances Host.handle (S.receiveLoop text path fileSize decBuf hashed pending received) g
      (box ++ more) [] (.done (.ok found)) g') :
    box.length = nonceLen + min readChunkSize (fileSize - received) + tagLen := by
  rw [receiveLoop,dif_pos missing] at ran
  generalize joined : box ++ more = stream at ran unforged
  cases ran with
  | recv size later =>
    rename_i input b
    have cut : (b ++ input).take b.length = b := List.take_left
    cases opened : S.cipher.opened S.sessionKey b with
    | none =>
      simp only [] at later
      split at later
      · cases later
      · cases later
      · rename_i buf decLen got
        rw [decryptFits (by omega) (by omega),opened] at got
        contradiction
    | some plain =>
      have next := unforged b.length (by simp) (by rw [cut,opened]; rfl)
      omega

theorem decodesFills {reads : List Bytes} {h g g' : Host} {path : Path} {text : String}
    {decBuf hashed pending old : Bytes} {fileSize received : Nat} {found : Received}
    (inner : path ≠ []) (present : g.disk.content path = some old)
    (room : decBuf.length = readChunkSize)
    (sizes : ∀ x ∈ reads, 0 < x.length ∧ x.length ≤ readChunkSize)
    (total : fileSize = received + reads.flatten.length)
    (unforged : S.Unforged (S.boxesFrom h reads))
    (ran : Advances Host.handle (S.receiveLoop text path fileSize decBuf hashed pending received) g
      (S.boxesFrom h reads).flatten [] (.done (.ok found)) g') : Fills readChunkSize reads := by
  induction reads generalizing decBuf hashed pending old received g h with
  | nil => nofun
  | cons plain rest ih =>
    obtain ⟨positive,bounded⟩ := sizes plain List.mem_cons_self
    have size := S.cipher.sealedLength S.sessionKey (h.random h.drawn nonceLen) plain
    rw [List.flatten_cons,List.length_append] at total
    rw [boxesFrom,List.flatten_cons] at ran
    have asked := askedNext (by omega) room unforged.1 ran
    obtain ⟨disk,after,written,buf,wrote,-,roomNext,onward⟩ := chunkReceived (S := S) text hashed
      pending (h.random h.drawn nonceLen) inner present (by omega)
      (by omega : plain.length = min readChunkSize (fileSize - received)) room
    have round := onward (.rest _ _)
    rw [List.append_nil] at round
    obtain ⟨output,none_,later⟩ := advancesOnward round ran
    rw [List.nil_append] at none_
    cases none_
    have others := ih wrote.here roomNext (fun x member => sizes x (List.mem_cons_of_mem _ member))
      (by omega) unforged.2 later
    cases rest with
    | nil => nofun
    | cons next last =>
      have more := (sizes next (by simp)).1
      intro x member
      rw [List.dropLast_cons_cons] at member
      rcases List.mem_cons.mp member with rfl | member
      · simp only [List.flatten_cons,List.length_append] at total
        omega
      · exact others x member

/- Whatever the reads were, the sender gets through; the receiver takes the file from
its stream exactly where all reads but the last filled the buffer. -/
theorem decodedExactly {content : Bytes} {reads : List Bytes} (contract : SealsInto S.cipher encrypt)
    (read : ReadAs readChunkSize content reads) (h : Host) :
    Advances Host.handle (S.sendLoopWith encrypt freshEncBuf reads) h []
      (S.boxesFrom h reads).flatten (.done (.ok ())) {h with drawn := h.drawn + reads.length} ∧
    ∀ (text : String) (path : Path) (g : Host), path ≠ [] → g.disk.content path = some [] →
      (Fills readChunkSize reads → S.Decodes text path content (S.boxesFrom h reads).flatten g) ∧
      (S.Unforged (S.boxesFrom h reads) →
        S.Decodes text path content (S.boxesFrom h reads).flatten g → Fills readChunkSize reads) := by
  have fit : ∀ x ∈ reads, nonceLen + x.length + tagLen ≤ freshEncBuf.length := by
    intro x member
    have := (read.sizes x member).2
    simp only [freshEncBuf,List.length_replicate]
    omega
  refine ⟨sentWith contract fit,?_⟩
  intro text path g inner created
  refine ⟨filledDecodes text read inner created,?_⟩
  rintro unforged ⟨found,g',ran,-⟩
  exact decodesFills inner created List.length_replicate read.sizes
    (by rw [read.joined,Nat.zero_add]) unforged ran

end Session

namespace Chunks
open Session RoundTrip

/- A tag that shows what it is the tag of: the length and the nonce. -/
def lengthCipher : Cipher where
  encrypt _ nonce text := (text,padTo tagLen (Frame.be32 text.length ++ nonce))
  decrypt _ nonce cipher tag :=
    if tag = padTo tagLen (Frame.be32 cipher.length ++ nonce) then some cipher else none
  cipherLength _ _ _ := rfl
  tagLength _ _ _ := padLength _ _
  textLength {_ _ _ tag _} opened := by
    split at opened
    · rw [Option.some.inj opened]
    · contradiction
  opens _ _ _ := if_pos rfl

def sealInto (A : Cipher) (input output key : Bytes) (nonce : Nonce) : Outcome (Bytes × Nat) :=
  .ok (A.sealed key nonce input ++ output.drop (nonceLen + input.length + tagLen),
    nonceLen + input.length + tagLen)

theorem sealIntoKeeps (A : Cipher) : SealsInto A (sealInto A) := by
  intro input output key nonce room
  have size := A.sealedLength key nonce input
  refine ⟨_,rfl,?_,List.take_left' size⟩
  rw [List.length_append,List.length_drop,size]
  omega

def sampleSender : Session := {sampleSession with cipher := lengthCipher}

def onesHost : Host := {sampleHost ⟨[]⟩ with random := fun _ n => ⟨List.replicate n 1,List.length_replicate⟩}

def createdHost : Host := {sampleHost ⟨[]⟩ with disk := ⟨[(["dummy.bin"],.file [])]⟩}

theorem twoReads : ReadAs readChunkSize [1,2] [[1],[2]] := ⟨rfl,by decide⟩

theorem shortReadFails : ¬ ∀ (S : Session) (encrypt : Bytes → Bytes → Bytes → Nonce →
      Outcome (Bytes × Nat)) (content : Bytes) (reads : List Bytes) (h : Host),
    SealsInto S.cipher encrypt → ReadAs readChunkSize content reads →
    ∀ (stream : Bytes) (h' : Host), Advances Host.handle (S.sendLoopWith encrypt freshEncBuf reads) h []
        stream (.done (.ok ())) h' →
      ∀ (text : String) (path : Path) (g : Host), path ≠ [] → g.disk.content path = some [] →
        S.Decodes text path content stream g := by
  intro always
  have fit : ∀ x ∈ ([[1],[2]] : List Bytes), nonceLen + x.length + tagLen ≤ freshEncBuf.length := by
    intro x member
    have bounded := (twoReads.sizes x member).2
    simp only [freshEncBuf,List.length_replicate]
    omega
  obtain ⟨found,g',ran,-⟩ := always sampleSender _ _ _ onesHost (sealIntoKeeps lengthCipher) twoReads _ _
    (sentWith (sealIntoKeeps lengthCipher) fit) "" ["dummy.bin"] createdHost (by simp) rfl
  have unforged : sampleSender.Unforged (sampleSender.boxesFrom onesHost [[1],[2]]) := by
    simp only [boxesFrom,Unforged]
    decide +kernel
  have fills := decodesFills (by simp) rfl List.length_replicate twoReads.sizes rfl unforged ran
  exact absurd (fills [1] (by simp)) (by decide)

theorem oneReadDecodes : sampleSender.Decodes "" ["dummy.bin"] [1,2,3]
    (sampleSender.boxesFrom onesHost [[1,2,3]]).flatten createdHost := by
  have read : ReadAs readChunkSize [1,2,3] [[1,2,3]] := ⟨rfl,by decide⟩
  exact ((decodedExactly (sealIntoKeeps lengthCipher) read onesHost).2 "" ["dummy.bin"] createdHost
    (by simp) rfl).1 nofun

end Chunks
end RDrive
