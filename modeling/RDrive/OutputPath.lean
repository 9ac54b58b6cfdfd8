import RDrive.Integrity

/-! Where download_client puts what it downloads: the server names the file, and the
name is joined to the output directory as it comes. -/
namespace RDrive
open Crypto Header Duplex Party Bytes Program

def AtPath (path : Path) : (Port HostSig).Call → Prop
  | .here (.fs (.create p)) => p = path
  | .here (.fs (.append p _)) => p = path
  | .here (.fs (.remove p)) => p = path
  | .here (.fs _) => False
  | _ => True

theorem atPathEffect {path q : Path} {disk after : Fs} {op : Fs.Op} {answer : op.Ret}
    (among : AtPath path (.here (.fs op))) (answered : Answers disk op answer after) (beside : q ≠ path) :
    after.get q = disk.get q := by
  rcases answered with ⟨-,rfl⟩ | torn
  · cases op <;> try exact among.elim
    · cases among
      exact Fs.createElsewhere beside
    · cases among
      exact Fs.appendElsewhere beside
    · cases among
      exact Fs.removeElsewhere beside
  · cases op <;> try exact torn.1.elim
    rename_i p b
    cases among
    cases answer with
    | true => exact torn.2.elim
    | false =>
      obtain ⟨k,rfl⟩ := torn.2
      exact Fs.appendElsewhere beside

namespace Session
open RoundTrip Integrity
variable {S : Session} {disk : Fs} {output : Path}

theorem firstFrameSame {one other stream : Bytes} (first : S.FirstFrame one stream)
    (second : S.FirstFrame other stream) : one = other := by
  obtain ⟨lenBuf,box,more,rfl,four,size,opened⟩ := first
  obtain ⟨lenBuf',box',more',same,four',size',opened'⟩ := second
  rw [List.append_assoc,List.append_assoc] at same
  obtain ⟨rfl,rest⟩ := List.append_inj same (four.trans four'.symm)
  obtain ⟨rfl,-⟩ := List.append_inj rest (size.trans size'.symm)
  exact Option.some.inj (opened.symm.trans opened')

def Announced (S : Session) (response : DownloadResponse) (stream : Bytes) : Prop :=
  ∃ data, S.FirstFrame data stream ∧ Offers data response

theorem announcedSame {one other : DownloadResponse} {stream : Bytes}
    (first : S.Announced one stream) (second : S.Announced other stream) : one = other := by
  obtain ⟨data,framed,-,read⟩ := first
  obtain ⟨data',framed',-,read'⟩ := second
  cases firstFrameSame framed framed'
  exact Outcome.ok.inj (read.symm.trans read')

theorem saveAtPath (response : DownloadResponse) {path : Path}
    (place : Path.join output response.fileName = some path) :
    Confined (AtPath path) (S.saveResponse output response) := by
  unfold saveResponse
  rw [place]
  have made : Confined (AtPath path) (create path) := by
    refine confinedBind (confinedHere _ rfl) fun made => ?_
    cases made <;> trivial
  refine confinedBind made fun _ => ?_
  refine confinedBind (receiveConfined (fun _ => rfl) (fun _ => trivial) _) fun found => ?_
  unfold finishDownload
  refine confinedBind (bufFlushConfined (fun _ => rfl) _) fun _ => ?_
  dsimp only
  split
  · exact confinedBind (confinedHere _ rfl) fun _ => trivial
  · trivial

def OnlyNamed (S : Session) (output : Path) (disk : Fs) (t : Seen Bytes) : Prop :=
  ∀ p, t.disk.get p ≠ disk.get p → ∃ response, S.Announced response t.noted ∧
    Path.join output response.fileName = some p

theorem unchangedNamed {t : Seen Bytes} (same : t.disk = disk) : S.OnlyNamed output disk t := by
  intro p changed
  rw [same] at changed
  exact absurd rfl changed

theorem responseNamed {response : DownloadResponse} {data : Bytes} {t : Seen Bytes}
    (first : S.FirstFrame data t.noted) (offers : Offers data response) (same : t.disk = disk) :
    Safe (alone received) (S.OnlyNamed output disk) (fun _ _ => True)
      (S.saveResponse output response) t := by
  cases place : Path.join output response.fileName with
  | none =>
    unfold saveResponse
    rw [place]
    exact ⟨unchangedNamed same,trivial⟩
  | some path =>
    have beside : Safe (alone received) (fun u => ∀ q, q ≠ path → u.disk.get q = disk.get q)
        (fun _ _ => True) (S.saveResponse output response) t := by
      refine confinedSafe (fun q _ => by rw [same]) (saveAtPath response place) ?_
      rintro u c r after held among ⟨-,answered⟩ q apart
      split at answered
      · rw [atPathEffect among answered apart]
        exact held q apart
      · rw [answered]
        exact held q apart
    refine safeWeaken (safeMono (safeBoth beside (firstFrameKept first)) ?_) fun _ _ _ _ => trivial
    intro u both p changed
    refine ⟨response,⟨data,both.2,offers⟩,?_⟩
    by_contra apart
    refine changed (both.1 p ?_)
    intro equal
    exact apart (equal ▸ place)

theorem frameNamed : Safe (alone received) (S.OnlyNamed output disk)
    (Returns fun data t => S.FirstFrame data t.noted ∧ t.disk = disk) S.readEncryptDataInto
    ⟨disk,[]⟩ := by
  have off : Confined OffDisk S.readEncryptDataInto := readConfined fun _ => nofun
  have kept : Safe (alone received) (fun t => t.disk = disk) (fun _ _ => True) S.readEncryptDataInto
      ⟨disk,[]⟩ := by
    refine confinedSafe rfl off ?_
    intro t c r after same off answered
    rw [offDiskStep off answered,same]
  refine safeWeaken (safeMono (safeBoth (safeNoted kept) firstFrameRead) fun t both =>
    unchangedNamed both.1) ?_
  intro result t _ both
  cases result with
  | ok data => exact ⟨both.2,both.1⟩
  | err message => trivial
  | panic => trivial

theorem saveNamed : Safe (alone received) (S.OnlyNamed output disk) (Returns fun _ _ => True)
    (S.saveFile output) ⟨disk,[]⟩ := by
  have last : ∀ {data : Bytes} {flag : UInt8} {t : Seen Bytes}, S.FirstFrame data t.noted →
      t.disk = disk → data.head? = some flag → flag ≠ 3 →
      Safe (alone received) (S.OnlyNamed output disk) (Returns fun _ _ => True)
        (if flag ≠ 2 ∧ flag ≠ 1 then .fail s!"Unknown header byte: {flag}"
          else do
            let response ← DownloadResponse.deserialize data.tail
            S.saveResponse output response) t := by
    intro data flag t first same head offered
    have offers : data.head? ≠ some 3 := by
      rw [head]
      exact fun equal => offered (Option.some.inj equal)
    split
    · exact ⟨unchangedNamed same,trivial⟩
    · refine safeThen (safeLift (fun response u => DownloadResponse.deserialize data.tail = .ok response ∧
        u = t) (unchangedNamed same) fun response read => ⟨read,rfl⟩) ?_
      rintro response _ _ ⟨read,rfl⟩
      refine safeWeaken (responseNamed first ⟨offers,read⟩ same) ?_
      intro result _ _ _
      cases result <;> trivial
  unfold saveFile
  refine safeThen frameNamed ?_
  rintro data t named ⟨first,same⟩
  refine safeThen (safeLift (fun flag u => data.head? = some flag ∧ u = t) named ?_) ?_
  · intro flag read
    unfold index at read
    cases data with
    | nil => contradiction
    | cons first tail => exact ⟨congrArg some (Outcome.ok.inj read),rfl⟩
  · rintro flag u _ ⟨head,rfl⟩
    split
    · refine safeThen (safeLift (fun _ v => v = u) named fun _ _ => rfl) ?_
      rintro _ _ _ rfl
      exact ⟨named,trivial⟩
    · rename_i offered
      extract_lets go
      by_cases warned : flag = 2
      · rw [if_pos warned]
        refine safeThen (safeLift (fun _ v => v = u) named fun _ _ => rfl) ?_
        rintro _ _ _ rfl
        exact last first same head offered
      · rw [if_neg warned]
        exact last first same head offered

theorem clientNamed (fileId fileKey : String) : Safe (alone received) (S.OnlyNamed output disk)
    (Returns fun _ _ => True) (S.downloadClient fileId fileKey output) ⟨disk,[]⟩ := by
  unfold downloadClient
  have quiet : Confined (Quiet received) (S.writeEncryptFrameInto
      (Command.serialize (.download ⟨fileId,fileKey⟩))) :=
    confinedFrame ⟨nofun,fun _ _ => rfl⟩ (fun _ => ⟨nofun,fun _ _ => rfl⟩)
  refine safeThen (quietKeeps (unchangedNamed rfl) quiet) ?_
  rintro _ _ _ rfl
  exact saveNamed

/- Only a direct child of the output directory is touched, whatever else the server does
once it has sent this response. -/
def StaysInside (S : Session) (output : Path) (response : DownloadResponse) : Prop :=
  ∀ (fileId fileKey : String) (disk : Fs) (q : Party Downloaded) (t : Seen Bytes),
    Reaches (alone received) (S.downloadClient fileId fileKey output) ⟨disk,[]⟩ q t →
    S.Announced response t.noted → ∀ p, t.disk.get p ≠ disk.get p → p ≠ [] ∧ p.dropLast = output

end Session

/- The name is of no file, or its directory part leads back to the output directory. -/
def Harmless (output : Path) (fileName : String) : Prop :=
  ¬ Path.NamesFile fileName ∨ Path.dirOf output fileName = output

namespace Session
open RoundTrip Integrity
variable {S : Session}

theorem harmlessStays {output : Path} {response : DownloadResponse}
    (harmless : Harmless output response.fileName) : S.StaysInside output response := by
  intro fileId fileKey disk q t reached announced p changed
  have named := safeStart (safeReaches reached (clientNamed fileId fileKey))
  obtain ⟨other,announcedToo,place⟩ := named p changed
  cases announcedSame announced announcedToo
  refine ⟨Path.joinInner place,?_⟩
  rw [Path.joinParent place]
  rcases harmless with nameless | inside
  · unfold Path.join at place
    rw [if_neg nameless] at place
    contradiction
  · exact inside

theorem fileMade {h : Host} {output path : Path} (response : DownloadResponse) (nonce : Nonce)
    (small : nonceLen + (1 :: response.serialize).length + tagLen ≤ Frame.maxFrameLength)
    (place : Path.join output response.fileName = some path)
    (parent : h.disk.isDir path.dropLast = true) (free : h.disk.isDir path = false) :
    ∃ q, Advances Host.handle (S.saveFile output) h
      (Frame.frame S.cipher S.sessionKey nonce (1 :: response.serialize)) [] q
      {h with disk := h.disk.put path (.file [])} := by
  have decoded : DownloadResponse.deserialize response.serialize = .ok response :=
    responseDecoded small
  have flag : index (1 :: response.serialize) 0 = .ok 1 := rfl
  refine ⟨S.receiveLoop "Client download timed out reading chunk" path response.fileSize.toNat
    freshDecBuf [] [] 0 >>= S.finishDownload path response,?_⟩
  unfold saveFile
  refine advancesTaken (frameTaken small) ?_
  simp only [flag,Program.liftDone,Program.bindDone,List.tail_cons,decoded]
  rw [if_neg (by decide),if_neg (by decide),if_neg (by decide)]
  unfold saveResponse
  rw [place]
  exact advancesQuiet (Host.createAdvances parent free) (.rest _ _)

theorem announcedFrame {response : DownloadResponse} {nonce : Nonce}
    (small : nonceLen + (1 :: response.serialize).length + tagLen ≤ Frame.maxFrameLength) :
    S.Announced response (Frame.frame S.cipher S.sessionKey nonce (1 :: response.serialize)) := by
  refine ⟨1 :: response.serialize,⟨_,_,[],(List.append_nil _).symm,Frame.be32Length _,?_,
    S.cipher.openedSealed S.sessionKey nonce _⟩,by simp,responseDecoded small⟩
  rw [Frame.fromBe32Of,Frame.frameFits small,Aead.sealedLength]

theorem placeTouched {output path : Path} {response : DownloadResponse}
    (small : nonceLen + (1 :: response.serialize).length + tagLen ≤ Frame.maxFrameLength)
    (place : Path.join output response.fileName = some path) :
    ∃ disk q t, Reaches (alone received) (S.downloadClient "" "" output) ⟨disk,[]⟩ q t ∧
      S.Announced response t.noted ∧ t.disk.get path ≠ disk.get path := by
  have inner : path ≠ [] := Path.joinInner place
  have parent : ((⟨[]⟩ : Fs).createDirAll path.dropLast).2.isDir path.dropLast = true :=
    Fs.emptyMade (List.prefix_refl _)
  have missing : ((⟨[]⟩ : Fs).createDirAll path.dropLast).2.get path = none := by
    rw [Fs.createDirAllElsewhere]
    · simp [Fs.get,inner]
    · intro above
      have := above.length_le
      rw [List.length_dropLast] at this
      have := List.length_pos_of_ne_nil inner
      omega
  have free : ((⟨[]⟩ : Fs).createDirAll path.dropLast).2.isDir path = false := by
    simp [Fs.isDir,missing]
  obtain ⟨nonce,asked⟩ := frameWritten (S := S)
    (h := sampleHost ((⟨[]⟩ : Fs).createDirAll path.dropLast).2)
    (Command.serialize (.download ⟨"",""⟩)) (by decide +kernel)
  obtain ⟨q,made⟩ := fileMade (S := S)
    (h := {sampleHost ((⟨[]⟩ : Fs).createDirAll path.dropLast).2 with drawn := 1})
    response nonce small place parent free
  refine ⟨_,q,_,advancesReceived (advancesThen asked made),announcedFrame small,?_⟩
  change (Fs.put _ path (.file [])).get path ≠ ((⟨[]⟩ : Fs).createDirAll path.dropLast).2.get path
  rw [Fs.getPutSame _ inner,missing]
  exact Option.some_ne_none _

end Session

namespace OutputPath
open Session RoundTrip

theorem staysExactly (S : Session) (output : Path) (response : DownloadResponse)
    (small : nonceLen + (1 :: response.serialize).length + tagLen ≤ Frame.maxFrameLength) :
    S.StaysInside output response ↔ Harmless output response.fileName := by
  constructor
  · intro stays
    by_contra harmful
    unfold Harmless at harmful
    rw [not_or,not_not] at harmful
    have place : Path.join output response.fileName =
        some (Path.dirOf output response.fileName ++ [String.ofList (Path.lastOf response.fileName)]) :=
      if_pos harmful.1
    obtain ⟨disk,q,t,reached,announced,changed⟩ := placeTouched (S := S) small place
    have child := (stays "" "" disk q t reached announced _ changed).2
    rw [List.dropLast_concat] at child
    exact harmful.2 child
  · exact harmlessStays

theorem plainHarmless {output : Path} {fileName : String} (plain : Path.Plain fileName) :
    Harmless output fileName := .inr (Path.plainDir plain)

def sampleResponse (fileName : String) : DownloadResponse :=
  ⟨fileName,1048576,"c8a5a04dba635ab9",(sampleHost ⟨[]⟩).clock 0⟩

/- A name that an upload may have goes above the output directory. -/
theorem nameClimbs : ¬ ∀ (S : Session) (headers : UploadHeader) (output : Path)
    (response : DownloadResponse), headers.validate S.maxFileSize = .ok () →
    response.fileName = headers.fileName →
    nonceLen + (1 :: response.serialize).length + tagLen ≤ Frame.maxFrameLength →
    S.StaysInside output response := by
  intro always
  have place : Path.join ["home","downloads"] (sampleResponse "../dummy.bin").fileName =
      some ["home","dummy.bin"] := by decide +kernel
  have small : nonceLen + (1 :: (sampleResponse "../dummy.bin").serialize).length + tagLen ≤
      Frame.maxFrameLength := by decide +kernel
  have stays := always sampleSession
    ⟨"4a43afa64e9342fc8320e63a43eb193b","../dummy.bin",1048576,"c8a5a04dba635ab9","ronak"⟩
    ["home","downloads"] (sampleResponse "../dummy.bin") (by decide +kernel) rfl small
  obtain ⟨disk,q,t,reached,announced,changed⟩ := placeTouched (S := sampleSession) small place
  exact absurd (stays "" "" disk q t reached announced _ changed).2 (by decide)

theorem plainStays : sampleSession.StaysInside ["home","downloads"] (sampleResponse "dummy.bin") :=
  (staysExactly sampleSession ["home","downloads"] (sampleResponse "dummy.bin")
    (by decide +kernel)).mpr (plainHarmless ⟨by decide,by decide⟩)

end OutputPath
end RDrive
