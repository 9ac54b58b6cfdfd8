import RDrive.Serving
import Mathlib.Data.Set.Function

/-! A download that its client accepts is the whole content of one upload to its slot:
the client's own checks, against what the server's handlers do in any interleaving. -/
namespace RDrive
open Crypto Header Party Bytes Program

def received : Note Bytes := fun g c r =>
  match c, r with
  | .recv _, .ok b => g ++ b.val
  | _, _ => g

namespace Session
variable {S : Session} {w : Seen Bytes}

def FirstFrame (S : Session) (data stream : Bytes) : Prop :=
  ∃ lenBuf box more, stream = lenBuf ++ box ++ more ∧ lenBuf.length = 4 ∧
    box.length = Frame.fromBe32 lenBuf ∧ S.cipher.opened S.sessionKey box = some data

theorem firstFrameMore {data stream : Bytes} (first : S.FirstFrame data stream) (more : Bytes) :
    S.FirstFrame data (stream ++ more) := by
  obtain ⟨lenBuf,box,rest,same,four,size,opened⟩ := first
  exact ⟨lenBuf,box,rest ++ more,by rw [same,List.append_assoc],four,size,opened⟩

theorem firstFrameIs {data sent stream more : Bytes} {nonce : Nonce}
    (small : nonceLen + sent.length + tagLen ≤ Frame.u32Max) (first : S.FirstFrame data stream)
    (begins : stream <+: Frame.frame S.cipher S.sessionKey nonce sent ++ more) : data = sent := by
  obtain ⟨lenBuf,box,rest,rfl,four,size,opened⟩ := first
  obtain ⟨after,same⟩ := begins
  rw [Frame.frame,List.append_assoc,List.append_assoc,List.append_assoc] at same
  obtain ⟨length,same⟩ := List.append_inj same (four.trans (Frame.be32Length _).symm)
  have fits : nonceLen + sent.length + tagLen < 4294967296 := by
    unfold Frame.u32Max at small
    omega
  rw [length,Frame.fromBe32Of,Nat.mod_eq_of_lt fits] at size
  obtain ⟨rfl,-⟩ := List.append_inj same (size.trans (S.cipher.sealedLength _ _ _).symm)
  rw [S.cipher.openedSealed] at opened
  exact (Option.some.inj opened).symm

theorem firstFrameKept {α : Type} {data : Bytes} {p : Party α} (first : S.FirstFrame data w.noted) :
    Safe (alone received) (fun t => S.FirstFrame data t.noted) (fun _ _ => True) p w := by
  refine confinedSafe first (confinedAny p) ?_
  intro s c r after first _ answered
  rw [answered.1]
  unfold received
  split
  · exact firstFrameMore first _
  · exact first

theorem lengthRead {disk : Fs} : Safe (alone received) (fun _ => True)
    (Returns fun len t => t.noted.length = 4 ∧ Frame.fromBe32 t.noted = len) readFrameLength
    ⟨disk,[]⟩ := by
  refine ⟨trivial,?_⟩
  rintro answer t ⟨noted,-⟩
  cases answer with
  | error fault => cases fault <;> exact ⟨trivial,trivial⟩
  | ok lenBuf =>
    refine safeLift _ trivial fun len admitted => ?_
    unfold Frame.admitLength at admitted
    split at admitted <;> try contradiction
    have whole : t.noted = lenBuf.val := noted.trans (List.nil_append _)
    rw [whole]
    exact ⟨lenBuf.property,Outcome.ok.inj admitted⟩

theorem firstFrameRead {disk : Fs} : Safe (alone received) (fun _ => True)
    (Returns fun data t => S.FirstFrame data t.noted) S.readEncryptDataInto ⟨disk,[]⟩ := by
  unfold readEncryptDataInto
  refine safeThen lengthRead ?_
  rintro len t _ ⟨four,length⟩
  split
  · exact ⟨trivial,trivial⟩
  · refine ⟨trivial,?_⟩
    rintro answer u ⟨noted,-⟩
    cases answer with
    | error fault => exact ⟨trivial,trivial⟩
    | ok box =>
      refine safeLift _ trivial fun data opened => ?_
      refine ⟨t.noted,box.val,[],?_,four,box.property.trans length.symm,Outcome.ofOptionIsOk.mp opened⟩
      rw [noted,List.append_nil]
      rfl

def Holds (path : Path) (b : Bytes) (t : Seen Bytes) : Prop := t.disk.content path = some b

theorem appendHolds {path : Path} {old : Bytes} (inner : path ≠ []) (b : Bytes)
    (holds : Holds path old w) : Safe (alone received) (fun _ => True)
      (Returns fun _ => Holds path (old ++ b)) (append path b) w := by
  refine fsSafe trivial ?_
  rintro answer disk (⟨rfl,rfl⟩ | torn)
  · simp only [Fs.exec,Fs.appendFile holds]
    exact ⟨trivial,Fs.contentPut _ inner _⟩
  · cases answer with
    | true => exact torn.2.elim
    | false => exact ⟨trivial,trivial⟩

def Verified (S : Session) (response : DownloadResponse) (d : Downloaded) (t : Seen Bytes) : Prop :=
  d.response = response ∧ ∃ content, Holds d.outputPath content t ∧
    S.sha256Hex content = response.fileHash

theorem finishVerifies {path : Path} {response : DownloadResponse} {found : Received} {written : Bytes}
    (inner : path ≠ []) (holds : Holds path written w) (joined : written ++ found.pending = found.hashed) :
    Safe (alone received) (fun _ => True) (Returns (S.Verified response))
      (S.finishDownload path response found) w := by
  unfold finishDownload
  refine safeThen (bufFlushFills (Holds path) (fun _ _ _ => trivial)
    (fun _ _ b holds => appendHolds inner b holds) holds) ?_
  intro _ t _ holds
  rw [joined] at holds
  simp only []
  split
  · refine hereSafe trivial fun _ _ _ => ?_
    exact ⟨trivial,trivial⟩
  · rename_i same
    exact ⟨trivial,rfl,found.hashed,holds,Decidable.not_not.mp same⟩

theorem createHolds {path : Path} (inner : path ≠ []) : Safe (alone received) (fun _ => True)
    (Returns fun _ => Holds path []) (create path) w := by
  refine fsSafe trivial ?_
  rintro answer disk (⟨rfl,rfl⟩ | torn)
  · simp only [Fs.exec,Fs.create]
    split
    · exact ⟨trivial,Fs.contentPut _ inner _⟩
    · exact ⟨trivial,trivial⟩
  · exact torn.1.elim

theorem receiveHolds (text : String) {path : Path} (inner : path ≠ []) {fileSize : Nat} {decBuf : Bytes}
    (holds : Holds path [] w) : Safe (alone received) (fun _ => True)
      (Returns fun found t => (∃ written, Holds path written t ∧
        written ++ found.pending = found.hashed) ∧ found.hashed.length = fileSize)
      (S.receiveLoop text path fileSize decBuf [] [] 0) w := by
  refine receiveFills (Holds path) (fun _ _ _ => trivial) (fun _ _ b holds => appendHolds inner b holds)
    ?_ text holds rfl rfl (Nat.zero_le _)
  intro written t n r after holds answered
  unfold Holds at holds ⊢
  rwa [offDiskStep (c := .recv n) nofun answered]

theorem responseSaved (output : Path) (response : DownloadResponse) : Safe (alone received)
    (fun _ => True) (Returns (S.Verified response)) (S.saveResponse output response) w := by
  unfold saveResponse
  split
  · exact ⟨trivial,trivial⟩
  · rename_i outputPath place
    have inner : outputPath ≠ [] := Path.joinInner place
    refine safeThen (createHolds inner) ?_
    intro _ u _ holds
    refine safeThen (receiveHolds _ inner holds) ?_
    rintro found v _ ⟨⟨written,holds,joined⟩,-⟩
    exact finishVerifies inner holds joined

def Offers (data : Bytes) (response : DownloadResponse) : Prop :=
  data.head? ≠ some 3 ∧ DownloadResponse.deserialize data.tail = .ok response

/- download_client from the flag on. -/
theorem responseVerifies {data : Bytes} {flag : UInt8} (output : Path) (head : data.head? = some flag)
    (offered : flag ≠ 3) : Safe (alone received) (fun _ => True)
    (Returns fun d t => ∃ response, Offers data response ∧ S.Verified response d t)
    (if flag ≠ 2 ∧ flag ≠ 1 then .fail s!"Unknown header byte: {flag}"
      else do
        let response ← DownloadResponse.deserialize data.tail
        S.saveResponse output response) w := by
  have offers : data.head? ≠ some 3 := by
    rw [head]
    exact fun same => offered (Option.some.inj same)
  split
  · exact ⟨trivial,trivial⟩
  · refine safeThen (safeLift (fun response _ => DownloadResponse.deserialize data.tail = .ok response)
      trivial fun _ read => read) ?_
    intro response t _ read
    refine safeWeaken (responseSaved output response) ?_
    intro result last _ verified
    cases result with
    | ok d => exact ⟨response,⟨offers,read⟩,verified⟩
    | err message => trivial
    | panic => trivial

theorem saveVerifies {disk : Fs} (output : Path) : Safe (alone received) (fun _ => True)
    (Returns fun d t => ∃ data response, S.FirstFrame data t.noted ∧ Offers data response ∧
      S.Verified response d t) (S.saveFile output) ⟨disk,[]⟩ := by
  unfold saveFile
  refine safeThen firstFrameRead ?_
  intro data t _ first
  suffices rest : Safe (alone received) (fun _ => True)
      (Returns fun d t => ∃ response, Offers data response ∧ S.Verified response d t) _ t by
    refine safeWeaken (safeMono (safeBoth rest (safeNoted (firstFrameKept first))) fun _ _ => trivial) ?_
    intro result u _ both
    cases result with
    | ok d =>
      obtain ⟨⟨response,offers,verified⟩,first⟩ := both
      exact ⟨data,response,first,offers,verified⟩
    | err message => trivial
    | panic => trivial
  refine safeThen (safeLift (fun flag _ => data.head? = some flag) trivial ?_) ?_
  · intro flag read
    unfold index at read
    cases data with
    | nil => contradiction
    | cons first tail => exact congrArg some (Outcome.ok.inj read)
  · intro flag u _ head
    split
    · refine safeThen (safeLift (fun _ _ => True) trivial fun _ _ => trivial) ?_
      exact fun _ _ _ _ => ⟨trivial,trivial⟩
    · rename_i offered
      extract_lets go
      by_cases warned : flag = 2
      · rw [if_pos warned]
        refine safeThen (safeLift (fun _ _ => True) trivial fun _ _ => trivial) ?_
        exact fun _ _ _ _ => responseVerifies output head offered
      · rw [if_neg warned]
        exact responseVerifies output head offered

theorem clientVerifies {disk : Fs} (fileId fileKey : String) (output : Path) :
    Safe (alone received) (fun _ => True)
      (Returns fun d t => ∃ data response, S.FirstFrame data t.noted ∧ Offers data response ∧
        S.Verified response d t) (S.downloadClient fileId fileKey output) ⟨disk,[]⟩ := by
  unfold downloadClient
  have quiet : Confined (Quiet received) (S.writeEncryptFrameInto
      (Command.serialize (.download ⟨fileId,fileKey⟩))) :=
    confinedFrame ⟨nofun,fun _ _ => rfl⟩ (fun _ => ⟨nofun,fun _ _ => rfl⟩)
  refine safeThen (quietKeeps trivial quiet) ?_
  rintro _ _ _ rfl
  exact saveVerifies output

structure Collisionless (S : Session) (passed : List Entry) (slot : Slot) (saved : Option Bytes) :
    Prop where
  sha256 : Set.InjOn S.hashes.sha256 {b | saved = some b ∨ b = Postcard.utf8 slot.fileKey ∨
    b = Postcard.utf8 slot.fileId ∨ ∃ e ∈ passed, b = e.content ∨
      b = Postcard.utf8 e.headers.fileKey ∨ b = Postcard.utf8 e.headers.fileId}
  sha512 : Set.InjOn S.hashes.sha512 {b | b = slot.clientKey ∨ ∃ e ∈ passed, b = e.clientKey}

theorem slotNamed {passed : List Entry} {slot : Slot} {saved : Option Bytes} {e : Entry}
    (ideal : S.Collisionless passed slot saved) (member : e ∈ passed)
    (same : S.metaPath e.slot = S.metaPath slot) : e.slot = slot := by
  obtain ⟨dirs,names⟩ := List.append_inj' same rfl
  have dirs := List.append_cancel_left dirs
  simp only [List.cons.injEq,and_true] at dirs names
  have client := ideal.sha512 (.inr ⟨e,member,rfl⟩) (.inl rfl) (Hex.encodeInjective dirs.1)
  have fileKey := ideal.sha256 (.inr (.inr (.inr ⟨e,member,.inr (.inl rfl)⟩))) (.inr (.inl rfl))
    (Hex.encodeInjective dirs.2)
  have fileId := ideal.sha256 (.inr (.inr (.inr ⟨e,member,.inr (.inr rfl)⟩))) (.inr (.inr (.inl rfl)))
    (Hex.encodeInjective ((String.append_left_inj _).mp names))
  cases slot
  simp only [Entry.slot] at client fileKey fileId ⊢
  rw [client,Postcard.utf8Injective fileKey,Postcard.utf8Injective fileId]

theorem responseReads (S : Session) {e : Entry} (arrived : Arrived e.headers) (time : F32) :
    DownloadResponse.deserialize (DownloadResponse.serialize
      ⟨e.headers.fileName,e.headers.fileSize,e.headers.fileHash,time⟩) =
      .ok ⟨e.headers.fileName,e.headers.fileSize,e.headers.fileHash,time⟩ := by
  have small : S.Announces [e] e.slot _ := entryAnnounced arrived List.mem_cons_self rfl time
  have small := small.1
  simp only [List.length_cons,nonceLen,tagLen,Frame.u32Max] at small
  have read := downloadResponseRead (h := ⟨e.headers.fileName,e.headers.fileSize,e.headers.fileHash,time⟩)
    (by omega) []
  rw [List.append_nil] at read
  exact Outcome.ofOptionIsOk.mpr (Postcard.fromBytesOf read)

theorem acceptedDownloadWhole {last : Crew (Port HostSig) Unit Store Handling}
    {m : Member (Port HostSig) Unit Handling} {disk clientDisk : Fs} {fileId fileKey : String}
    {output : Path} {d : Downloaded} {seen : Seen Bytes}
    (empty : ∀ slot b, disk.content (S.metaPath slot) ≠ some b)
    (ran : S.Interleaved ⟨⟨disk,[]⟩,[]⟩ last) (member : m ∈ last.members)
    (serves : m.notes.request = .download ⟨fileId,fileKey⟩)
    (returned : Reaches (alone received)
      ((S.connected m.notes.sessionKey m.notes.clientKey).downloadClient fileId fileKey output)
      ⟨clientDisk,[]⟩ (.done (.ok d)) seen)
    (delivered : seen.noted <+: m.notes.sent)
    (ideal : S.Collisionless last.shared.passed ⟨m.notes.clientKey,fileKey,fileId⟩
      (seen.disk.content d.outputPath)) :
    ∃ e ∈ last.shared.passed, e.slot = ⟨m.notes.clientKey,fileKey,fileId⟩ ∧
      seen.disk.content d.outputPath = some e.content ∧
      S.sha256Hex e.content = e.headers.fileHash ∧ e.content.length = e.headers.fileSize.toNat := by
  obtain ⟨documented,truthful⟩ := interleavedKeeps ran ⟨nofun,fun slot b found => (empty slot b found).elim⟩
  have verified := (safeReaches returned (clientVerifies fileId fileKey output)).2
  obtain ⟨data,response,first,offers,-,content,holds,hash⟩ := verified
  rcases truthful m member _ serves with silent | ⟨nonce,told,more,sent,small,told_⟩
  · obtain ⟨lenBuf,box,more,same,four,-⟩ := first
    rw [silent,List.prefix_nil] at delivered
    rw [delivered] at same
    have none_ := congrArg List.length same
    simp only [List.length_append,List.length_nil] at none_
    omega
  · rw [sent] at delivered
    have same : data = told := firstFrameIs small first delivered
    subst same
    rcases told_ with refused | ⟨e,found,time,path,rfl⟩
    · exact (offers.1 refused).elim
    · have passed := documented.1 e found
      have read := offers.2
      rw [List.tail_cons,responseReads S passed.arrived time] at read
      cases Outcome.ok.inj read
      have agreed : S.hashes.sha256 content = S.hashes.sha256 e.content :=
        Hex.encodeInjective (hash.trans passed.hash.symm)
      have whole : content = e.content :=
        ideal.sha256 (.inl holds) (.inr (.inr (.inr ⟨e,found,.inl rfl⟩))) agreed
      exact ⟨e,found,slotNamed ideal found path,whole ▸ holds,passed.hash,passed.size⟩

end Session

namespace Integrity
open Session RoundTrip Overwrite Duplex

theorem advancesReceived {α : Type} {p q : Party α} {h g : Host} {input output : Bytes}
    (advanced : Advances Host.handle p h input output q g) :
    Reaches (alone received) p ⟨h.disk,[]⟩ q ⟨g.disk,input⟩ := by
  suffices followed : ∃ t : Seen Bytes, Reaches (alone received) p ⟨h.disk,[]⟩ q t ∧
      t.disk = g.disk ∧ t.noted ++ [] = input by
    obtain ⟨⟨disk,noted⟩,reached,rfl,rfl⟩ := followed
    rwa [List.append_nil]
  refine advancesSimulated (t := ⟨h.disk,[]⟩)
    (fun h rest _ (t : Seen Bytes) => t.disk = h.disk ∧ t.noted ++ rest = input)
    ?_ ?_ ?_ advanced ⟨rfl,rfl⟩
  · rintro h rest _ ⟨_,noted⟩ c ⟨rfl,whole⟩
    refine ⟨⟨(Host.handle h c).2.disk,noted⟩,⟨rfl,?_⟩,rfl,whole⟩
    have answers := hostAnswers h c
    cases c <;> exact answers
  · rintro h rest _ ⟨_,noted⟩ b ⟨rfl,whole⟩
    exact ⟨⟨h.disk,noted⟩,⟨rfl,rfl⟩,rfl,whole⟩
  · rintro h rest _ ⟨_,noted⟩ n b ⟨rfl,whole⟩
    exact ⟨⟨h.disk,noted ++ b.val⟩,⟨rfl,rfl⟩,rfl,by rw [List.append_assoc]; exact whole⟩

def Blank (b : Bytes) : Prop := ∀ byte ∈ b, byte = 0

theorem blankNone : Blank [] := fun _ member => absurd member List.not_mem_nil

theorem blankOpens {key box : Bytes} (blank : Blank box) :
    Blank ((clearCipher.opened key box).getD []) := by
  cases opened : clearCipher.opened key box with
  | none => exact nofun
  | some text =>
    simp only [Aead.opened,clearCipher] at opened
    split at opened <;> try contradiction
    split at opened <;> try contradiction
    cases Option.some.inj opened
    exact fun byte member => blank byte (List.mem_of_mem_drop (List.mem_of_mem_take member))

theorem blankContent {g : Handling} (blank : ∀ box ∈ g.boxes, Blank box) :
    Blank (g.content clearCipher) := by
  intro byte member
  obtain ⟨box,among,inside⟩ := List.mem_flatMap.mp member
  exact blankOpens (blank box among) byte inside

structure Blanked (start : Handling) (passed : List Entry) (total : Bytes) (h : Host)
    (input output : Bytes) (t : Store × Handling) : Prop where
  disk : t.1.disk = h.disk
  sent : t.2.sent ++ output = total
  request : t.2.request = start.request
  sessionKey : t.2.sessionKey = start.sessionKey
  clientKey : t.2.clientKey = start.clientKey
  input : Blank input
  boxes : ∀ box ∈ t.2.boxes, Blank box
  record : ∀ e ∈ t.1.passed, e ∈ passed ∨
    Blank e.content ∧ e.clientKey = start.clientKey ∧ start.request = .upload e.headers

theorem advancesBlank {p q : Party Unit} {h g : Host} {input output : Bytes} {start : Handling}
    {s : Store} (advanced : Advances Host.handle p h input output q g) (disk : s.disk = h.disk)
    (blank : Blank input) (silent : start.sent = []) (fresh : start.boxes = []) :
    ∃ t, Reaches (handled clearCipher) p (s,start) q t ∧
      Blanked start s.passed output g [] [] t := by
  refine advancesSimulated (Blanked start s.passed output) ?_ ?_ ?_ advanced
    ⟨disk,by rw [silent,List.nil_append],rfl,rfl,rfl,blank,by rw [fresh]; exact nofun,
      fun _ member => .inl member⟩
  · rintro h i o ⟨⟨_,passed⟩,n⟩ c ⟨rfl,sent,request,sessionKey,clientKey,input,boxes,record⟩
    have answers := hostAnswers h c
    cases c with
    | fs op =>
      refine ⟨(⟨_,recorded clearCipher n op (Host.handle h (.fs op)).1 passed⟩,n),
        ⟨rfl,answers,rfl⟩,rfl,sent,request,sessionKey,clientKey,input,boxes,?_⟩
      intro e member
      unfold recorded at member
      split at member
      · split at member
        · rename_i headers upload
          rcases List.mem_cons.mp member with rfl | member
          · exact .inr ⟨blankContent boxes,clientKey,by rw [← request]; exact upload⟩
          · exact record e member
        · exact record e member
      · exact record e member
    | _ => exact ⟨_,⟨rfl,rfl⟩,answers.symm,sent,request,sessionKey,clientKey,input,boxes,record⟩
  · rintro h i o ⟨⟨_,passed⟩,n⟩ b ⟨rfl,sent,request,sessionKey,clientKey,input,boxes,record⟩
    exact ⟨(⟨h.disk,passed⟩,{n with sent := n.sent ++ b}),⟨rfl,rfl⟩,rfl,
      (List.append_assoc _ _ _).trans sent,request,sessionKey,clientKey,input,boxes,record⟩
  · rintro h i o ⟨⟨_,passed⟩,n⟩ k b ⟨rfl,sent,request,sessionKey,clientKey,input,boxes,record⟩
    refine ⟨(⟨h.disk,passed⟩,{n with boxes := n.boxes ++ [b.val]}),⟨rfl,rfl⟩,rfl,sent,request,
      sessionKey,clientKey,fun byte member => input byte (List.mem_append_right _ member),?_,record⟩
    intro box member
    rcases List.mem_append.mp member with member | member
    · exact boxes box member
    · cases List.mem_singleton.mp member
      exact fun byte member => input byte (List.mem_append_left _ member)

theorem zeroBoxes {reads : List Bytes} (blank : ∀ x ∈ reads, Blank x) :
    ∃ boxes, Boxes sampleSession reads boxes ∧ Blank boxes := by
  induction reads with
  | nil => exact ⟨[],.none,blankNone⟩
  | cons plain rest ih =>
    obtain ⟨boxes,sealed_,zero⟩ := ih fun x member => blank x (List.mem_cons_of_mem _ member)
    refine ⟨_,.more ⟨List.replicate nonceLen 0,List.length_replicate⟩ sealed_,?_⟩
    intro byte member
    simp only [Aead.sealed,sampleSession,clearCipher,List.mem_append,List.mem_replicate] at member
    rcases member with ((⟨-,zero⟩ | inside) | ⟨-,zero⟩) | later
    · exact zero
    · exact blank plain List.mem_cons_self byte inside
    · exact zero
    · exact zero byte later

@[irreducible] def zeros : Bytes := List.replicate 1048576 0

theorem zerosLength : zeros.length = 1048576 := by
  unfold zeros
  exact List.length_replicate

theorem zerosBlank : Blank zeros := by
  unfold zeros
  exact fun byte member => (List.mem_replicate.mp member).2

theorem blankWhole {b : Bytes} (blank : Blank b) (size : b.length = zeros.length) : b = zeros := by
  rw [zerosLength] at size
  unfold zeros
  exact List.eq_replicate_iff.mpr ⟨size,blank⟩

theorem readsBlank {n : Nat} {b : Bytes} (blank : Blank b) : ∀ x ∈ fullReads n b, Blank x := by
  induction size : b.length using Nat.strong_induction_on generalizing b with
  | _ m ih =>
    unfold fullReads
    split
    · exact nofun
    · rename_i more
      obtain ⟨some_,positive⟩ := not_or.mp more
      have long := List.length_pos_of_ne_nil some_
      intro x member
      rcases List.mem_cons.mp member with rfl | later
      · exact fun byte inside => blank byte (List.mem_of_mem_take inside)
      · refine ih (b.drop n).length (by rw [List.length_drop]; omega) ?_ rfl x later
        exact fun byte inside => blank byte (List.mem_of_mem_drop inside)

def asks (request : Request) : Handling :=
  ⟨sampleSession.sessionKey,sampleSession.clientKey,request,[],[]⟩

def sampleDownload : DownloadHeader := ⟨"4a43afa64e9342fc8320e63a43eb193b","ronak"⟩

theorem bodyFits {before body after limit : Nat} (fits : before + body + after ≤ limit) :
    body ≤ limit := by omega

theorem uploadJoins : sampleSession.Joins
    ⟨sampleSession.handleUpload (sampleUpload zeros),asks (.upload (sampleUpload zeros))⟩ := by
  have prepared := samplePrepared zeros (by rw [zerosLength]; decide) (by rw [zerosLength]; decide)
  have fits := sampleFits zeros
  unfold Fits at fits
  have small : (Command.serialize (.upload (sampleUpload zeros))).length ≤ Frame.maxFrameLength := by
    unfold sampleUpload
    exact bodyFits fits
  have bound : Frame.maxFrameLength < 2 ^ 64 := by decide
  exact ⟨rfl,⟨prepared.accepted,_,small,commandRead (by omega)⟩,rfl,rfl⟩

theorem downloadJoins : sampleSession.Joins
    ⟨sampleSession.handleDownload sampleDownload,asks (.download sampleDownload)⟩ := by
  have prepared := samplePrepared zeros (by rw [zerosLength]; decide) (by rw [zerosLength]; decide)
  have accepted := validated prepared.accepted
  have small : (Command.serialize (.download sampleDownload)).length ≤ Frame.maxFrameLength := by
    unfold sampleDownload
    exact bodyFits (downloadRequestFits sampleSession accepted)
  have bound : Frame.maxFrameLength < 2 ^ 64 := by decide
  exact ⟨rfl,⟨downloadValidated accepted,_,small,commandRead (by omega)⟩,rfl,rfl⟩

theorem zerosStored : ∃ (first : Store) (uploader : Handling) (stored : Host) (output : Bytes),
    sampleSession.Interleaved ⟨⟨⟨[]⟩,[]⟩,[]⟩ ⟨first,[⟨.done (.ok ()),uploader⟩]⟩ ∧
    sampleSession.Stored first.disk
      ⟨sampleSession.clientKey,"ronak","4a43afa64e9342fc8320e63a43eb193b"⟩
      (UploadHeader.metadata sampleSession (sampleUpload zeros)) zeros ∧
    Blanked (asks (.upload (sampleUpload zeros))) [] output stored [] [] (first,uploader) := by
  have prepared := samplePrepared zeros (by rw [zerosLength]; decide) (by rw [zerosLength]; decide)
  have kept : zeros.length.toUInt64.toNat = zeros.length := sizeKept prepared
  obtain ⟨boxes,sealed_,zero⟩ := zeroBoxes (readsBlank (n := readChunkSize) zerosBlank)
  obtain ⟨output,stored,holds,taken⟩ := uploadTaken (h := sampleHost ⟨[]⟩) (sampleUpload zeros)
    prepared.unlocked prepared.ready kept rfl sealed_ (validated prepared.accepted).fileId.2
  have uploads : ∃ t, Reaches (handled clearCipher) (sampleSession.handleUpload (sampleUpload zeros))
      (⟨⟨[]⟩,[]⟩,asks (.upload (sampleUpload zeros))) (.done (.ok ())) t ∧
      Blanked (asks (.upload (sampleUpload zeros))) [] output stored [] [] t :=
    advancesBlank taken rfl zero rfl rfl
  obtain ⟨⟨first,uploader⟩,uploaded,after⟩ := uploads
  have disk : first.disk = stored.disk := after.disk
  have stores : sampleSession.Interleaved
      ⟨⟨⟨[]⟩,[]⟩,[] ++ ⟨sampleSession.handleUpload (sampleUpload zeros),
        asks (.upload (sampleUpload zeros))⟩ :: []⟩
      ⟨first,[] ++ ⟨.done (.ok ()),uploader⟩ :: []⟩ := Crew.soloRuns uploaded
  refine ⟨first,uploader,stored,output,.head (.join _ uploadJoins) stores,?_,after⟩
  rw [disk]
  exact holds

theorem mebibyteServed : ∃ (last : Crew (Port HostSig) Unit Store Handling)
    (m : Member (Port HostSig) Unit Handling) (seen : Seen Bytes) (d : Downloaded),
    sampleSession.Interleaved ⟨⟨⟨[]⟩,[]⟩,[]⟩ last ∧ m ∈ last.members ∧
    m.notes.request = .download sampleDownload ∧
    m.notes.sessionKey = sampleSession.sessionKey ∧ m.notes.clientKey = sampleSession.clientKey ∧
    Reaches (alone received) (sampleSession.downloadClient sampleDownload.fileId
      sampleDownload.fileKey []) ⟨⟨[]⟩,[]⟩ (.done (.ok d)) seen ∧
    seen.noted <+: m.notes.sent ∧ seen.disk.content d.outputPath = some zeros ∧
    ∀ e ∈ last.shared.passed, e = ⟨sampleSession.clientKey,sampleUpload zeros,zeros⟩ := by
  have prepared := samplePrepared zeros (by rw [zerosLength]; decide) (by rw [zerosLength]; decide)
  have kept : zeros.length.toUInt64.toNat = zeros.length := sizeKept prepared
  have accepted := validated prepared.accepted
  obtain ⟨first,uploader,stored,output,stores,holds,after⟩ := zerosStored
  have found : sampleSession.Stored (sampleHost first.disk).disk
      ⟨sampleSession.clientKey,"ronak","4a43afa64e9342fc8320e63a43eb193b"⟩
      (UploadHeader.metadata sampleSession (sampleUpload zeros)) zeros := holds
  have writable : Writable (sampleHost ⟨[]⟩).disk [] "dummy.bin" :=
    ⟨rfl,by simp [Fs.isDir,Fs.get,sampleHost]⟩
  obtain ⟨nonce,time,stream,last,saved,asked,served,written,saved_⟩ := downloadSides
    prepared.plain (sampleFits zeros) (by rw [zerosLength]; decide) accepted kept found prepared.unlocked
    writable
  have downloads : ∃ t, Reaches (handled clearCipher) (sampleSession.handleDownload sampleDownload)
      (first,asks (.download sampleDownload)) (.done (.ok ())) t ∧
      Blanked (asks (.download sampleDownload)) first.passed stream last [] [] t :=
    advancesBlank served rfl blankNone rfl rfl
  obtain ⟨⟨second,downloader⟩,downloaded,later⟩ := downloads
  have fetches : sampleSession.Interleaved
      ⟨first,[] ++ ⟨sampleSession.handleDownload sampleDownload,asks (.download sampleDownload)⟩ ::
        [⟨.done (.ok ()),uploader⟩]⟩
      ⟨second,[] ++ ⟨.done (.ok ()),downloader⟩ :: [⟨.done (.ok ()),uploader⟩]⟩ :=
    Crew.soloRuns downloaded
  have ran := stores.trans (.head (.join _ downloadJoins) fetches)
  have documented : sampleSession.Documented ⟨⟨[]⟩,[]⟩ := by
    refine ⟨fun _ member => absurd member List.not_mem_nil,fun slot b found => ?_⟩
    rw [Fs.contentOf,emptyMissing] at found
    contradiction
  have whole := (interleavedKeeps ran documented).1.1
  refine ⟨_,⟨.done (.ok ()),downloader⟩,_,_,ran,List.mem_cons_self,later.request,later.sessionKey,
    later.clientKey,advancesReceived (advancesTrans asked written),?_,saved_,?_⟩
  · have sent := later.sent
    rw [List.append_nil] at sent
    rw [List.nil_append,← sent]
  · intro e member
    have size := (whole e member).size
    rcases later.record e member with old | ⟨-,-,impossible⟩
    · rcases after.record e old with none_ | ⟨blank,owner,request⟩
      · contradiction
      · have headers : sampleUpload zeros = e.headers := Request.upload.inj request
        rw [← headers] at size
        have content := blankWhole blank (size.trans kept)
        calc e = ⟨e.clientKey,e.headers,e.content⟩ := rfl
          _ = ⟨(asks (.upload (sampleUpload zeros))).clientKey,sampleUpload zeros,zeros⟩ := by
            rw [owner,← headers,content]
    · contradiction

theorem blankPadded {n : Nat} {b : Bytes} (blank : Blank b) : Blank (padTo n b) := by
  intro byte member
  rcases List.mem_append.mp member with front | fill
  · exact blank byte (List.mem_of_mem_take front)
  · exact (List.mem_replicate.mp fill).2

def Hashed (b : Bytes) : Prop :=
  b = zeros ∨ b = Postcard.utf8 "ronak" ∨ b = Postcard.utf8 "4a43afa64e9342fc8320e63a43eb193b"

theorem hashedApart {a b : Bytes} (one : Hashed a) (two : Hashed b) (same : padTo 32 a = padTo 32 b) :
    a = b := by
  have ronak : ¬ Blank (padTo 32 (Postcard.utf8 "ronak")) := fun blank =>
    absurd (blank 114 (by decide +kernel)) (by decide)
  have fileId : ¬ Blank (padTo 32 (Postcard.utf8 "4a43afa64e9342fc8320e63a43eb193b")) := fun blank =>
    absurd (blank 52 (by decide +kernel)) (by decide)
  have names : padTo 32 (Postcard.utf8 "ronak") ≠
      padTo 32 (Postcard.utf8 "4a43afa64e9342fc8320e63a43eb193b") := by decide +kernel
  have zero := blankPadded (n := 32) zerosBlank
  rcases one with rfl | rfl | rfl <;> rcases two with rfl | rfl | rfl
  · rfl
  · exact absurd (same ▸ zero) ronak
  · exact absurd (same ▸ zero) fileId
  · exact absurd (same ▸ zero) ronak
  · rfl
  · exact absurd same names
  · exact absurd (same ▸ zero) fileId
  · exact absurd same.symm names
  · rfl

theorem sampleCollisionless {passed : List Entry} {saved : Option Bytes} (kept : saved = some zeros)
    (only : ∀ e ∈ passed, e = ⟨sampleSession.clientKey,sampleUpload zeros,zeros⟩) :
    sampleSession.Collisionless passed
      ⟨sampleSession.clientKey,sampleDownload.fileKey,sampleDownload.fileId⟩ saved where
  sha256 := by
    have each : ∀ b, (saved = some b ∨ b = Postcard.utf8 sampleDownload.fileKey ∨
        b = Postcard.utf8 sampleDownload.fileId ∨ ∃ e ∈ passed, b = e.content ∨
          b = Postcard.utf8 e.headers.fileKey ∨ b = Postcard.utf8 e.headers.fileId) → Hashed b := by
      rintro b (rfl | rfl | rfl | ⟨e,member,among⟩)
      · exact .inl (Option.some.inj kept)
      · exact .inr (.inl rfl)
      · exact .inr (.inr rfl)
      · rw [only e member] at among
        exact among
    exact fun a one b two same => hashedApart (each a one) (each b two) same
  sha512 := by
    have each : ∀ b, (b = sampleSession.clientKey ∨ ∃ e ∈ passed, b = e.clientKey) →
        b = sampleSession.clientKey := by
      rintro b (rfl | ⟨e,member,rfl⟩)
      · rfl
      · rw [only e member]
    exact fun a one b two _ => (each a one).trans (each b two).symm

theorem mebibyteAccepted : ∃ (last : Crew (Port HostSig) Unit Store Handling) (seen : Seen Bytes)
    (d : Downloaded), seen.disk.content d.outputPath = some zeros ∧
      ∃ e ∈ last.shared.passed,
        e.slot = ⟨sampleSession.clientKey,sampleDownload.fileKey,sampleDownload.fileId⟩ ∧
        seen.disk.content d.outputPath = some e.content ∧
        sampleSession.sha256Hex e.content = e.headers.fileHash ∧
        e.content.length = e.headers.fileSize.toNat := by
  obtain ⟨last,m,seen,d,ran,member,request,sessionKey,clientKey,client,delivered,kept,only⟩ :=
    mebibyteServed
  have returned : Reaches (alone received)
      ((sampleSession.connected m.notes.sessionKey m.notes.clientKey).downloadClient
        sampleDownload.fileId sampleDownload.fileKey []) ⟨⟨[]⟩,[]⟩ (.done (.ok d)) seen := by
    rw [sessionKey,clientKey]
    exact client
  have ideal := sampleCollisionless kept only
  rw [← clientKey] at ideal ⊢
  refine ⟨last,seen,d,kept,acceptedDownloadWhole ?_ ran member request returned delivered ideal⟩
  intro slot b found
  rw [Fs.contentOf,emptyMissing] at found
  contradiction

end Integrity
end RDrive
