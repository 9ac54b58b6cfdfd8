import RDrive.Lib.Crew
import RDrive.Overwrite

/-! Uploads and downloads of any clients side by side, one call at a time in any
order. The disk is shared; locks, clock, limiter and the clients answer as they like.
Each metadata file belongs to some upload that passed its hash check. -/
namespace RDrive
open Crypto Header Party Bytes Program Crew

inductive Request where
  | upload (headers : UploadHeader)
  | download (headers : DownloadHeader)

/- One connection's handler: what it serves, and what went over the wire. -/
structure Handling where
  sessionKey : Bytes
  clientKey : Bytes
  request : Request
  boxes : List Bytes
  sent : Bytes

def Handling.content (A : Cipher) (g : Handling) : Bytes :=
  g.boxes.flatMap fun box => (A.opened g.sessionKey box).getD []

/- An upload whose metadata was written, with the content it received. -/
structure Entry where
  clientKey : Bytes
  headers : UploadHeader
  content : Bytes

def Entry.slot (e : Entry) : Slot := ⟨e.clientKey,e.headers.fileKey,e.headers.fileId⟩

structure Store where
  disk : Fs
  passed : List Entry

/- Metadata written by an upload is put on record. -/
def recorded (A : Cipher) (g : Handling) : (op : Fs.Op) → op.Ret → List Entry → List Entry
  | .write _ _, true, passed =>
    match g.request with
    | .upload headers => ⟨g.clientKey,headers,g.content A⟩ :: passed
    | .download _ => passed
  | _, _, passed => passed

def handled (A : Cipher) : Env (Port HostSig) (Store × Handling) := fun (s,g) c r (t,h) =>
  match c, r with
  | .send b, _ => t = s ∧ h = {g with sent := g.sent ++ b}
  | .recv _, .ok box => t = s ∧ h = {g with boxes := g.boxes ++ [box.val]}
  | .recv _, .error _ => t = s ∧ h = g
  | .here (.fs op), answer =>
    h = g ∧ Answers s.disk op answer t.disk ∧ t.passed = recorded A g op answer s.passed
  | .here _, _ => t = s ∧ h = g

namespace Session

def Grows (s t : Store) : Prop := s.passed ⊆ t.passed

def Arrived (headers : UploadHeader) : Prop :=
  (Postcard.utf8 headers.fileName).length + (Postcard.utf8 headers.fileHash).length ≤
    Frame.maxFrameLength

structure Passed (S : Session) (e : Entry) : Prop where
  arrived : Arrived e.headers
  hash : S.sha256Hex e.content = e.headers.fileHash
  size : e.content.length = e.headers.fileSize.toNat

def Documented (S : Session) (s : Store) : Prop :=
  (∀ e ∈ s.passed, S.Passed e) ∧
    ∀ slot b, s.disk.content (S.metaPath slot) = some b →
      ∃ e ∈ s.passed, S.metaPath e.slot = S.metaPath slot ∧
        b = (UploadHeader.metadata S e.headers).serialize

def Announces (S : Session) (passed : List Entry) (slot : Slot) (data : Bytes) : Prop :=
  nonceLen + data.length + tagLen ≤ Frame.u32Max ∧ (data.head? = some 3 ∨
    ∃ e ∈ passed, ∃ time, S.metaPath e.slot = S.metaPath slot ∧ data = 1 ::
      DownloadResponse.serialize ⟨e.headers.fileName,e.headers.fileSize,e.headers.fileHash,time⟩)

def Truthful (S : Session) (g : Handling) (s : Store) : Prop :=
  ∀ headers, g.request = .download headers → g.sent = [] ∨
    ∃ nonce data more, g.sent = Frame.frame S.cipher g.sessionKey nonce data ++ more ∧
      Announces S s.passed ⟨g.clientKey,headers.fileKey,headers.fileId⟩ data

abbrev serving (S : Session) : Env (Port HostSig) (Turn Store Handling) :=
  disturbed (handled S.cipher) Grows S.Documented
abbrev Upheld (S : Session) : Turn Store Handling → Prop := Decent Grows S.Documented S.Truthful

variable {S : Session} {headers : UploadHeader} {plain : Bytes} {g h : Handling} {s t : Store}
  {u : Turn Store Handling}

theorem truthfulLater : Stable Grows S.Documented S.Truthful := by
  intro g s t grown _ truthful request asked
  rcases truthful request asked with silent | ⟨nonce,data,more,sent,small,told⟩
  · exact .inl silent
  · refine .inr ⟨nonce,data,more,sent,small,?_⟩
    rcases told with refused | ⟨e,member,found⟩
    · exact .inl refused
    · exact .inr ⟨e,grown member,found⟩

theorem suffixesDiffer (a b : String) : a ++ ".file" ≠ b ++ ".meta" := by
  intro same
  have file : ".file".toList = ['.','f','i','l','e'] := by decide +kernel
  have meta_ : ".meta".toList = ['.','m','e','t','a'] := by decide +kernel
  have chars := congrArg String.toList same
  rw [String.toList_append,String.toList_append,file,meta_] at chars
  exact absurd (List.append_inj_right' chars rfl) (by decide)

theorem metaBeside (S : Session) (slot other : Slot) : S.metaPath other ≠ S.filePath slot := by
  intro same
  have last := congrArg List.getLast? same
  simp only [metaPath,filePath,List.getLast?_append,List.getLast?_singleton,Option.some_or,
    Option.some.injEq] at last
  exact suffixesDiffer _ _ last.symm

structure Working (S : Session) (headers : UploadHeader) (plain : Bytes) (g : Handling) : Prop where
  request : g.request = .upload headers
  sessionKey : g.sessionKey = S.sessionKey
  clientKey : g.clientKey = S.clientKey
  content : g.content S.cipher = plain

def Minor (S : Session) (slot : Slot) : (Port HostSig).Call → Prop
  | .recv _ => False
  | .here (.fs (.write _ _)) => False
  | c => S.Touches slot c

theorem minorMeta {slot other : Slot} {op : Fs.Op} {answer : op.Ret} {disk after : Fs}
    (minor : S.Minor slot (.here (.fs op))) (answered : Answers disk op answer after) {b : Bytes}
    (found : after.content (S.metaPath other) = some b) : disk.content (S.metaPath other) = some b := by
  have touches : S.Touches slot (.here (.fs op)) := by
    cases op <;> first | exact minor | exact minor.elim
  have unwritten : S.metaPath other = S.metaPath slot → ∀ b, op ≠ .write (S.metaPath other) b := by
    rintro _ b rfl
    exact minor.elim
  rw [Fs.contentOf] at found ⊢
  rcases touchEffect touches answered (metaBeside S slot other) unwritten with same | ⟨-,made,-⟩
  · rw [← same,found]
  · rw [found] at made
    cases Option.some.inj made

theorem minorKeeps {slot : Slot} {c : (Port HostSig).Call} {r : (Port HostSig).Ret c}
    (minor : S.Minor slot c) (documented : S.Documented s) (working : Working S headers plain g)
    (answered : handled S.cipher (s,g) c r (t,h)) :
    Grows s t ∧ S.Documented t ∧ S.Truthful h t ∧ Working S headers plain h := by
  have vague : ∀ {h}, Working S headers plain h → S.Truthful h t := by
    intro h working request asked
    rw [working.request] at asked
    contradiction
  cases c with
  | recv n => exact minor.elim
  | send b =>
    obtain ⟨rfl,rfl⟩ := answered
    have still : Working S headers plain {g with sent := g.sent ++ b} :=
      ⟨working.request,working.sessionKey,working.clientKey,working.content⟩
    exact ⟨fun _ member => member,documented,vague still,still⟩
  | here c =>
    cases c with
    | fs op =>
      obtain ⟨rfl,answers,record⟩ := answered
      have same : t.passed = s.passed := by
        rw [record]
        cases op <;> first | rfl | exact minor.elim
      refine ⟨?_,⟨?_,?_⟩,vague working,working⟩
      · rw [Grows,same]
        exact fun _ member => member
      · rw [same]
        exact documented.1
      · intro other b found
        rw [same]
        exact documented.2 other b (minorMeta minor answers found)
    | _ =>
      obtain ⟨rfl,rfl⟩ := answered
      exact ⟨fun _ member => member,documented,vague working,working⟩

theorem minorSafe {α : Type} {p : Party α} {slot : Slot} (sound : S.Upheld u)
    (working : Working S headers plain u.notes) (minor : Confined (S.Minor slot) p) :
    Safe S.serving S.Upheld (Returns fun _ v => Working S headers plain v.notes) p u := by
  refine callsKeep truthfulLater sound working minor ?_
  intro s g c r t h among documented _ working answered
  exact minorKeeps among documented working answered

theorem workingTruthful (working : Working S headers plain g) : S.Truthful g s := by
  intro request asked
  rw [working.request] at asked
  contradiction

theorem boxTracked (box : Bytes) (working : Working S headers plain g) :
    Working S headers (plain ++ (S.cipher.opened S.sessionKey box).getD [])
      {g with boxes := g.boxes ++ [box]} where
  request := working.request
  sessionKey := working.sessionKey
  clientKey := working.clientKey
  content := by
    have content := working.content
    rw [Handling.content,working.sessionKey] at content
    simp only [Handling.content,working.sessionKey,List.flatMap_append,content,
      List.flatMap_singleton]

theorem readTracks {n : Nat} {answer : (Port HostSig).Ret (.recv n)}
    (working : Working S headers plain u.notes) {v : Crew.Turn Store Handling}
    (answered : S.serving u (.recv n) answer v) :
    S.Upheld v ∧ Working S headers (plain ++ S.heard answer) v.notes := by
  obtain ⟨since,valid,answered⟩ := answered
  cases answer with
  | error fault =>
    obtain ⟨same,notes⟩ := answered
    have working : Working S headers (plain ++ []) v.notes := by
      rw [notes,List.append_nil]
      exact working
    exact ⟨⟨same ▸ fun _ member => member,same ▸ valid,workingTruthful working⟩,working⟩
  | ok encBuf =>
    obtain ⟨same,notes⟩ := answered
    have tracked := boxTracked encBuf.val working
    rw [← notes] at tracked
    exact ⟨⟨same ▸ fun _ member => member,same ▸ valid,workingTruthful tracked⟩,tracked⟩

theorem receiveTracks (text : String) {fileSize : Nat} {decBuf : Bytes}
    (sound : S.Upheld u) (working : Working S headers [] u.notes) :
    Safe S.serving S.Upheld
      (Returns fun found v => Working S headers found.hashed v.notes ∧ found.hashed.length = fileSize)
      (S.receiveLoop text (S.filePath (UploadHeader.slot S headers)) fileSize decBuf [] [] 0) u := by
  refine safeWeaken (receiveTold
    (fun plain written v => S.Upheld v ∧ Working S headers plain v.notes) (fun _ _ _ both => both.1)
    ?_ ?_ text ⟨sound,working⟩ (List.append_nil []) rfl (Nat.zero_le _)) ?_
  · rintro plain _ v b ⟨sound,working⟩
    have minor : Confined (S.Minor (UploadHeader.slot S headers))
        (append (S.filePath (UploadHeader.slot S headers)) b) := appendConfined (fun _ => rfl) b
    refine safeWeaken (minorSafe sound working minor) ?_
    rintro (_ | message | _) w sound working
    · exact ⟨sound,working⟩
    · trivial
    · trivial
  · exact fun _ _ _ _ _ _ both answered => readTracks both.2 answered
  · rintro (found | message | _) w _ ended
    · obtain ⟨⟨written,⟨-,working⟩,-⟩,size⟩ := ended
      exact ⟨working,size⟩
    · trivial
    · trivial

theorem saveKeeps {made : Bool} (passed : S.Passed ⟨S.clientKey,headers,plain⟩)
    (documented : S.Documented s) (working : Working S headers plain g)
    (answered : handled S.cipher (s,g) (.here (.fs (.write (S.metaPath (UploadHeader.slot S headers))
      (UploadHeader.metadata S headers).serialize))) made (t,h)) :
    Grows s t ∧ S.Documented t ∧ S.Truthful h t ∧ Working S headers plain h := by
  obtain ⟨rfl,answers,record⟩ := answered
  suffices kept : Grows s t ∧ S.Documented t from ⟨kept.1,kept.2,workingTruthful working,working⟩
  rcases answers with ⟨written,disk⟩ | torn
  · simp only [Fs.exec,Fs.write] at written disk
    split at disk
    · rename_i free
      rw [if_pos free] at written
      subst written
      simp only [recorded,working.request,working.clientKey,working.content] at record
      have mine : ⟨S.clientKey,headers,plain⟩ ∈ t.passed := by
        rw [record]
        exact List.mem_cons_self
      have others : s.passed ⊆ t.passed := by
        rw [record]
        exact List.subset_cons_self _ _
      refine ⟨others,?_,?_⟩
      · intro e member
        rw [record] at member
        rcases List.mem_cons.mp member with rfl | member
        · exact passed
        · exact documented.1 e member
      · intro other b found
        rw [disk] at found
        by_cases same : S.metaPath other = S.metaPath (UploadHeader.slot S headers)
        · rw [same,Fs.contentPut _ (metaInner S _)] at found
          exact ⟨_,mine,same.symm,(Option.some.inj found).symm⟩
        · rw [Fs.contentOf,Fs.getPutOther _ same,← Fs.contentOf] at found
          obtain ⟨e,member,described⟩ := documented.2 other b found
          exact ⟨e,others member,described⟩
    · rename_i taken
      rw [if_neg taken] at written
      subst written
      have record : t.passed = s.passed := record
      refine ⟨?_,?_,?_⟩
      · rw [Grows,record]
        exact fun _ member => member
      · rw [record]
        exact documented.1
      · rw [record,disk]
        exact documented.2
  · exact torn.1.elim

def Closing (S : Session) (headers : UploadHeader) (c : (Port HostSig).Call) : Prop :=
  S.Minor (UploadHeader.slot S headers) c ∨
    c = .here (.fs (.write (S.metaPath (UploadHeader.slot S headers))
      (UploadHeader.metadata S headers).serialize))

theorem frameMinor {slot : Slot} (data : Bytes) :
    Confined (S.Minor slot) (S.writeEncryptFrameInto data) :=
  confinedFrame trivial (fun _ => trivial)

theorem closingMinor {slot : Slot} (data : Bytes) : Confined (S.Minor slot) (S.sendClosing data) :=
  confinedBind (frameMinor data) fun _ => shutdownConfined trivial

theorem finishTracks {arc : FileLock.Arc} {networkElapsed : F32} {found : Received}
    (arrived : Arrived headers) (sound : S.Upheld u) (working : Working S headers found.hashed u.notes)
    (size : found.hashed.length = headers.fileSize.toNat) :
    Safe S.serving S.Upheld (Returns fun _ v => Working S headers found.hashed v.notes)
      (S.finishUpload headers arc networkElapsed found) u := by
  unfold finishUpload
  refine safeThen (minorSafe sound working (bufFlushConfined (fun _ => rfl) _)) ?_
  intro _ v sound working
  simp only []
  split
  · refine minorSafe sound working (?_ : Confined (S.Minor (UploadHeader.slot S headers)) _)
    exact confinedBind (confinedHere _ rfl) fun _ => closingMinor _
  · rename_i same
    have passed : S.Passed ⟨S.clientKey,headers,found.hashed⟩ :=
      ⟨arrived,Decidable.not_not.mp same,size⟩
    have saved : Confined (S.Closing headers) (write (S.metaPath (UploadHeader.slot S headers))
        (UploadHeader.metadata S headers).serialize) := by
      refine confinedBind (confinedHere _ (.inr rfl)) fun made => ?_
      cases made <;> trivial
    refine callsKeep truthfulLater sound working (confinedBind saved fun _ => ?_) ?_
    · refine confinedWiden (confinedBind (closingMinor _) fun _ => ?_) fun _ => .inl
      refine confinedBind (confinedHere _ trivial) fun _ => ?_
      exact confinedBind (confinedHere _ trivial) fun _ => confinedHere _ trivial
    · rintro s g c r t h (minor | rfl) documented _ working answered
      · exact minorKeeps minor documented working answered
      · exact saveKeeps passed documented working answered

theorem uploadTracks (arrived : Arrived headers) (sound : S.Upheld u)
    (working : Working S headers [] u.notes) :
    Safe S.serving S.Upheld (Returns fun _ _ => True) (S.handleUpload headers) u := by
  have early : ∀ {β : Type} {p : Party β} {u : Turn Store Handling}, S.Upheld u →
      Working S headers [] u.notes → Confined (S.Minor (UploadHeader.slot S headers)) p →
      Safe S.serving S.Upheld (Returns fun _ v => Working S headers [] v.notes) p u :=
    fun sound working minor => minorSafe sound working minor
  unfold handleUpload
  refine safeThen (early sound working (confinedHere _ trivial)) ?_
  intro arc u sound working
  refine safeThen (early sound working (confinedHere _ trivial)) ?_
  intro locked u sound working
  cases locked with
  | false =>
    refine safeWeaken (early sound working (closingMinor _)) ?_
    intro result _ _ _
    cases result <;> trivial
  | true =>
    refine safeThen (early sound working (confinedBind (confinedHere _ rfl) fun made => by
      cases made <;> trivial)) ?_
    intro _ u sound working
    refine safeThen (early sound working (confinedLift _)) ?_
    intro _ u sound working
    refine safeThen (early sound working (frameMinor _)) ?_
    intro _ u sound working
    refine safeThen (early sound working (confinedHere _ trivial)) ?_
    intro networkElapsed u sound working
    refine safeThen (early sound working (confinedBind (confinedHere _ rfl) fun made => by
      cases made <;> trivial)) ?_
    intro _ u sound working
    refine safeThen (receiveTracks _ sound working) ?_
    rintro found u sound ⟨working,size⟩
    refine safeWeaken (finishTracks arrived sound working size) ?_
    intro result _ _ _
    cases result <;> trivial

def Passive : (Port HostSig).Call → Prop
  | .recv _ => False
  | .send _ => False
  | .here (.fs (.exists_ _)) => True
  | .here (.fs (.read _)) => True
  | .here (.fs _) => False
  | .here _ => True

theorem passiveSame {A : Cipher} {c : (Port HostSig).Call} {r : (Port HostSig).Ret c}
    (passive : Passive c) (answered : handled A (s,g) c r (t,h)) : t = s ∧ h = g := by
  cases c with
  | recv n => exact passive.elim
  | send b => exact passive.elim
  | here c =>
    cases c with
    | fs op =>
      obtain ⟨notes,answers,record⟩ := answered
      have disk : t.disk = s.disk := by
        rcases answers with ⟨-,after⟩ | torn
        · cases op <;> first | exact after | exact passive.elim
        · cases op <;> first | exact torn.1.elim | exact passive.elim
      have same : t.passed = s.passed := by
        rw [record]
        cases op <;> first | rfl | exact passive.elim
      refine ⟨?_,notes⟩
      cases s
      cases t
      simp_all
    | _ => exact answered

theorem passiveStep {c : (Port HostSig).Call} {r : (Port HostSig).Ret c} {v : Turn Store Handling}
    (sound : S.Upheld u) (passive : Passive c) (answered : S.serving u c r v) :
    S.Upheld v ∧ v.shared = v.before ∧ v.notes = u.notes ∧ Grows u.shared v.shared := by
  obtain ⟨grown,valid,answered⟩ := answered
  obtain ⟨same,notes⟩ := passiveSame passive answered
  refine ⟨⟨same ▸ fun _ member => member,same ▸ valid,?_⟩,same,notes,same ▸ grown⟩
  rw [notes,same]
  exact truthfulLater _ _ _ grown valid sound.point

theorem passiveSafe {α : Type} {p : Party α} {fact : Handling → Prop} (sound : S.Upheld u)
    (known : fact u.notes) (passive : Confined Passive p) :
    Safe S.serving S.Upheld (Returns fun _ v => fact v.notes) p u := by
  refine callsKeep truthfulLater sound known passive ?_
  intro s g c r t h among documented truthful known answered
  obtain ⟨rfl,rfl⟩ := passiveSame among answered
  exact ⟨fun _ member => member,documented,truthful,known⟩

structure Unanswered (S : Session) (headers : DownloadHeader) (g : Handling) : Prop where
  request : g.request = .download headers
  sessionKey : g.sessionKey = S.sessionKey
  clientKey : g.clientKey = S.clientKey
  silent : g.sent = []

def Told (g : Handling) : Prop := g.sent ≠ []

variable {asking : DownloadHeader}

theorem announcesLater {passed more : List Entry} {slot : Slot} {data : Bytes} (grown : passed ⊆ more)
    (told : S.Announces passed slot data) : S.Announces more slot data := by
  obtain ⟨small,refused | ⟨e,member,found⟩⟩ := told
  · exact ⟨small,.inl refused⟩
  · exact ⟨small,.inr ⟨e,grown member,found⟩⟩

theorem announceSafe {data : Bytes} (sound : S.Upheld u) (asked : Unanswered S asking u.notes)
    (told : S.Announces u.shared.passed ⟨S.clientKey,asking.fileKey,asking.fileId⟩ data) :
    Safe S.serving S.Upheld (Returns fun _ v => Told v.notes) (S.writeEncryptFrameInto data) u := by
  unfold writeEncryptFrameInto
  split
  · exact ⟨sound,trivial⟩
  · refine ⟨sound,?_⟩
    intro nonce v answered
    obtain ⟨drawn,-,notes,grown⟩ := passiveStep (c := .here (.draw nonceLen)) sound trivial answered
    refine ⟨drawn,?_⟩
    rintro answer w ⟨later,valid,answered⟩
    obtain ⟨same_,sent⟩ := answered
    rw [notes] at sent
    have frame : w.notes.sent = Frame.frame S.cipher w.notes.sessionKey nonce data ++ [] := by
      rw [sent]
      simp only [asked.silent,asked.sessionKey,List.nil_append,List.append_nil]
    have sound : S.Upheld w := by
      refine ⟨same_ ▸ fun _ member => member,same_ ▸ valid,?_⟩
      intro request known
      refine .inr ⟨nonce,data,[],frame,?_⟩
      have request_ : request = asking := by
        rw [sent] at known
        rw [asked.request] at known
        exact (Request.download.inj known).symm
      have owner : w.notes.clientKey = S.clientKey := by
        rw [sent]
        exact asked.clientKey
      rw [request_,owner]
      refine announcesLater ?_ told
      rw [same_]
      exact fun _ member => later (grown member)
    cases answer with
    | error fault => exact ⟨sound,trivial⟩
    | ok done =>
      refine ⟨sound,?_⟩
      intro silent
      rw [frame] at silent
      simp [Frame.frame,Frame.be32] at silent

theorem toldSafe {α : Type} {p : Party α} (sound : S.Upheld u) (told : Told u.notes)
    (calls : Confined (fun c => Passive c ∨ ∃ b, c = .send b) p) :
    Safe S.serving S.Upheld (Returns fun _ v => Told v.notes) p u := by
  refine callsKeep truthfulLater sound told calls ?_
  rintro s g c r t h (passive | ⟨b,rfl⟩) documented truthful told answered
  · obtain ⟨rfl,rfl⟩ := passiveSame passive answered
    exact ⟨fun _ member => member,documented,truthful,told⟩
  · obtain ⟨rfl,rfl⟩ := answered
    refine ⟨fun _ member => member,documented,?_,?_⟩
    · intro request asked
      rcases truthful request asked with silent | ⟨nonce,data,more,sent,announced⟩
      · exact absurd silent told
      · refine .inr ⟨nonce,data,more ++ b,?_,announced⟩
        simp only [sent,List.append_assoc]
    · intro silent
      exact told (List.append_eq_nil_iff.mp silent).1

theorem stringBound {x : String} (fits : (Postcard.utf8 x).length ≤ Frame.maxFrameLength) :
    (Postcard.string x).length ≤ 4 + (Postcard.utf8 x).length := by
  have large : Frame.maxFrameLength < 128 ^ 4 := by decide
  exact shortString (k := 3) (by rw [Postcard.utf8Length] at fits; omega)

theorem sizeBound (n : UInt64) : (Postcard.varint n.toNat).length ≤ 10 :=
  Postcard.varintLength (k := 9) (by have := n.toNat_lt; omega)

theorem refusalAnnounced {passed : List Entry} {slot : Slot} (code : UInt16) {message : String}
    (short : message.utf8ByteSize < 128) :
    S.Announces passed slot (3 :: ErrorHeader.serialize ⟨code,message⟩) := by
  refine ⟨?_,.inl rfl⟩
  have string := shortString (s := message) (k := 0) (by omega)
  have number := Postcard.varintLength (n := code.toNat) (k := 2) (by have := code.toNat_lt; omega)
  simp only [ErrorHeader.serialize,List.length_cons,List.length_append,nonceLen,tagLen,Frame.u32Max]
  omega

theorem entryRead {e : Entry} (arrived : Arrived e.headers) :
    MetadataFile.deserialize (UploadHeader.metadata S e.headers).serialize =
      some (UploadHeader.metadata S e.headers) := by
  apply MetadataFile.metadataRead
  unfold Arrived at arrived
  have name := stringBound (x := e.headers.fileName) (by omega)
  have hash := stringBound (x := e.headers.fileHash) (by omega)
  have size := sizeBound e.headers.fileSize
  have key := shortString (s := S.sha256Hex (Postcard.utf8 e.headers.fileKey)) (k := 0)
    (by rw [hexLength]; decide)
  rw [hexLength] at key
  have bound : Frame.maxFrameLength < 2 ^ 32 := by decide
  simp only [MetadataFile.serialize,UploadHeader.metadata,List.length_append]
  omega

theorem entryAnnounced {passed : List Entry} {slot : Slot} {e : Entry} (arrived : Arrived e.headers)
    (member : e ∈ passed) (same : S.metaPath e.slot = S.metaPath slot) (time : F32) :
    S.Announces passed slot (1 :: DownloadResponse.serialize
      ⟨e.headers.fileName,e.headers.fileSize,e.headers.fileHash,time⟩) := by
  refine ⟨?_,.inr ⟨e,member,time,same,rfl⟩⟩
  unfold Arrived at arrived
  have name := stringBound (x := e.headers.fileName) (by omega)
  have hash := stringBound (x := e.headers.fileHash) (by omega)
  have size := sizeBound e.headers.fileSize
  have four := time.property
  have bound : Frame.maxFrameLength + 100 < Frame.u32Max := by decide
  simp only [DownloadResponse.serialize,List.length_cons,List.length_append,nonceLen,tagLen]
  omega

theorem serveTracks {arc : FileLock.Arc} {e : Entry} (sound : S.Upheld u) (asked : Unanswered S asking u.notes)
    (arrived : Arrived e.headers) (member : e ∈ u.shared.passed)
    (same : S.metaPath e.slot = S.metaPath ⟨S.clientKey,asking.fileKey,asking.fileId⟩) :
    Safe S.serving S.Upheld (Returns fun _ _ => True)
      (S.serveFile asking arc (UploadHeader.metadata S e.headers)) u := by
  unfold serveFile
  refine safeThen (safeLift (fun _ v => v = u) sound fun _ _ => rfl) ?_
  rintro _ _ _ rfl
  refine hereSafe sound ?_
  intro time v answered
  obtain ⟨sound,-,notes,grown⟩ := passiveStep (c := .here .elapsed) sound trivial answered
  rw [← notes] at asked
  refine safeThen (announceSafe sound asked (entryAnnounced arrived (grown member) same time)) ?_
  intro _ w sound told
  refine safeThen (toldSafe sound told (confinedHere _ (.inl trivial))) ?_
  intro chunks w sound told
  cases chunks with
  | none => exact ⟨sound,trivial⟩
  | some chunks =>
    have rest : Confined (fun c => Passive c ∨ ∃ b, c = .send b) (do
        S.sendLoop freshEncBuf chunks
        closeDownload asking arc (UploadHeader.metadata S e.headers)) := by
      refine confinedBind (sendLoopConfined (.inl trivial) (fun b _ => .inr ⟨b,rfl⟩) _ _) fun _ => ?_
      exact closeConfined (.inr ⟨[],rfl⟩) (.inl trivial) (.inl trivial) (.inl trivial) (.inl trivial)
    refine safeWeaken (toldSafe sound told rest) ?_
    intro result _ _ _
    cases result <;> trivial

theorem refusalTracks (sound : S.Upheld u) (asked : Unanswered S asking u.notes) (code : UInt16)
    {message : String} (short : message.utf8ByteSize < 128) :
    Safe S.serving S.Upheld (Returns fun _ _ => True) (S.sendFailed ⟨code,message⟩) u := by
  have closing : Safe S.serving S.Upheld (Returns fun _ v => Told v.notes)
      (S.sendFailed ⟨code,message⟩) u := by
    refine safeThen (announceSafe sound asked (refusalAnnounced code short)) ?_
    intro _ w sound told
    exact toldSafe sound told (shutdownConfined (.inl trivial))
  refine safeWeaken closing ?_
  intro result _ _ _
  cases result <;> trivial

theorem downloadTracks (sound : S.Upheld u) (asked : Unanswered S asking u.notes) :
    Safe S.serving S.Upheld (Returns fun _ _ => True) (S.handleDownload asking) u := by
  unfold handleDownload
  refine safeThen (passiveSafe sound asked (confinedHere _ trivial)) ?_
  intro arc u sound asked
  refine safeThen (passiveSafe sound asked (confinedHere _ trivial)) ?_
  intro locked u sound asked
  cases locked with
  | false => exact refusalTracks sound asked _ (by decide)
  | true =>
    refine safeThen (passiveSafe sound asked (confinedHere (.fs (.exists_ _)) trivial)) ?_
    intro dir u sound asked
    cases dir with
    | false => exact refusalTracks sound asked _ (by decide)
    | true =>
      refine safeThen (passiveSafe sound asked (confinedHere (.fs (.exists_ _)) trivial)) ?_
      intro found u sound asked
      cases found with
      | false => exact refusalTracks sound asked _ (by decide)
      | true =>
        refine hereSafe sound ?_
        intro text v answered
        obtain ⟨sound,shared,notes,-⟩ := passiveStep (c := .here (.fs (.read _))) sound trivial answered
        rw [← notes] at asked
        cases parsed : text.bind MetadataFile.deserialize with
        | none => exact refusalTracks sound asked _ (by decide)
        | some metadata =>
          obtain ⟨b,rfl,described⟩ := Option.bind_eq_some_iff.mp parsed
          have read : v.shared.disk.content (S.metaPath ⟨S.clientKey,asking.fileKey,asking.fileId⟩) =
              some b := by
            rw [shared]
            rcases answered.2.2.2.1 with ⟨read,-⟩ | torn
            · exact read.symm
            · exact torn.1.elim
          obtain ⟨e,member,same,rfl⟩ := sound.valid.2 _ _ read
          have arrived := (sound.valid.1 e member).arrived
          rw [entryRead arrived] at described
          cases Option.some.inj described
          exact serveTracks sound asked arrived member same

def handler (S : Session) (g : Handling) : Party Unit :=
  match g.request with
  | .upload headers => (S.connected g.sessionKey g.clientKey).handleUpload headers
  | .download headers => (S.connected g.sessionKey g.clientKey).handleDownload headers

def Accepts (S : Session) : Request → Prop
  | .upload headers => headers.validate S.maxFileSize = .ok () ∧
      ∃ plain, plain.length ≤ Frame.maxFrameLength ∧ Command.deserialize plain = .ok (.upload headers)
  | .download headers => headers.validate = .ok () ∧
      ∃ plain, plain.length ≤ Frame.maxFrameLength ∧
        Command.deserialize plain = .ok (.download headers)

structure Joins (S : Session) (m : Member (Port HostSig) Unit Handling) : Prop where
  program : m.program = S.handler m.notes
  accepted : S.Accepts m.notes.request
  boxes : m.notes.boxes = []
  sent : m.notes.sent = []

theorem connectedDocumented (sessionKey clientKey : Bytes) :
    (S.connected sessionKey clientKey).Documented = S.Documented := by
  funext s
  have passed : ∀ e, (S.connected sessionKey clientKey).Passed e = S.Passed e := fun e =>
    propext ⟨fun p => ⟨p.arrived,p.hash,p.size⟩,fun p => ⟨p.arrived,p.hash,p.size⟩⟩
  unfold Documented
  simp only [passed]
  rfl

theorem handlerTracks {m : Member (Port HostSig) Unit Handling} (joins : S.Joins m)
    (documented : S.Documented s) :
    Safe S.serving S.Upheld (Returns fun _ _ => True) m.program (Turn.start s m.notes) := by
  have same := connectedDocumented (S := S) m.notes.sessionKey m.notes.clientKey
  have upheld : S.Truthful m.notes s →
      (S.connected m.notes.sessionKey m.notes.clientKey).Upheld (Turn.start s m.notes) :=
    fun truthful => ⟨fun _ member => member,same ▸ documented,truthful⟩
  rw [joins.program,Upheld,serving,← same]
  unfold handler
  split
  · rename_i headers request
    have accepted := joins.accepted
    rw [request] at accepted
    obtain ⟨-,plain,small,decoded⟩ := accepted
    have arrived : Arrived headers := by
      have shorter := uploadShorter decoded
      unfold Arrived
      omega
    have working : (S.connected m.notes.sessionKey m.notes.clientKey).Working headers [] m.notes :=
      ⟨request,rfl,rfl,by rw [Handling.content,joins.boxes]; rfl⟩
    have truthful : S.Truthful m.notes s := by
      intro other asked
      rw [request] at asked
      contradiction
    exact uploadTracks (u := Turn.start s m.notes) arrived (upheld truthful) working
  · rename_i headers request
    have asked : (S.connected m.notes.sessionKey m.notes.clientKey).Unanswered headers m.notes :=
      ⟨request,rfl,rfl,joins.sent⟩
    exact downloadTracks (u := Turn.start s m.notes) (upheld fun _ _ => .inl joins.sent) asked

abbrev Interleaved (S : Session) := Crew.Run (handled S.cipher) S.Joins

theorem interleavedKeeps {last : Crew (Port HostSig) Unit Store Handling}
    (ran : S.Interleaved ⟨s,[]⟩ last) (documented : S.Documented s) :
    S.Documented last.shared ∧ ∀ m ∈ last.members, S.Truthful m.notes last.shared := by
  refine runKeeps ?_ ?_ truthfulLater (fun m s => handlerTracks) ran documented
  · exact fun _ _ member => member
  · exact fun _ _ _ one two _ member => two (one member)

end Session
end RDrive
