import RDrive.Reflection
import RDrive.Overwrite
import RDrive.Chunks

/-! An upload over a network that keeps every frame and every chunk it has seen and gives any
of them to either end, in any order and any number of times. What the server stores is what
the client announced, and the client is told so only if it is stored, unless the client was
given back what it had sealed itself. -/
namespace RDrive.Untampered
open Crypto Header Party Bytes Program Crew Tapped Session

/- What the network has seen, and what the client has accepted of it. -/
structure Wire where
  tap : Tap
  taken : List Bytes

/- What the server's handler has accepted, and its disk. -/
structure Handling where
  heard : List Bytes
  seen : Watched

def Reads (content : Bytes) : (c : (Port HostSig).Call) → (Port HostSig).Ret c → Prop
  | .here (.fs (.size _)), size => ∀ n, size = some n → n = content.length
  | .here (.fs (.read _)), found => ∀ b, found = some b → b = content
  | _, _ => True

def clientSide (S : Session) (content : Bytes) : Env (Port HostSig) (Wire × Unit) := fun (s,_) c r (t,_) =>
  tapped S .client (s.tap,s.taken) c r (t.tap,t.taken) ∧ Reads content c r

def serverSide (S : Session) : Env (Port HostSig) (Wire × Handling) := fun (s,g) c r (t,h) =>
  tapped S .server (s.tap,g.heard) c r (t.tap,h.heard) ∧ t.taken = s.taken ∧ watching g.seen c r h.seen

def ByClient (s t : Wire) : Prop := By .client s.tap t.tap ∧ s.taken <+: t.taken
def ByServer (s t : Wire) : Prop := By .server s.tap t.tap ∧ t.taken = s.taken

theorem wireRely : Pair.Rely ByClient ByServer where
  leftRefl _ := ⟨byRefl _ _,List.prefix_refl _⟩
  rightRefl _ := ⟨byRefl _ _,rfl⟩
  leftTrans _ _ _ one two := ⟨byTrans _ _ _ _ one.1 two.1,one.2.trans two.2⟩
  rightTrans _ _ _ one two := ⟨byTrans _ _ _ _ one.1 two.1,two.2.trans one.2⟩

structure Asks (S : Session) (headers : UploadHeader) (c : Bytes) : Prop where
  opened : Opens S c (Command.serialize (.upload headers))
  small : (Command.serialize (.upload headers)).length ≤ Frame.u32Max

structure Sound (S : Session) (headers : UploadHeader) (s : Wire) : Prop where
  asked : s.tap.byClient = [] ∨ ∃ c more, s.tap.byClient = c :: more ∧ Asks S headers c
  waited : 2 ≤ s.tap.byClient.length → s.taken ≠ []
  inside : s.taken ⊆ s.tap.sent

/- The client was given back what it had sealed itself. -/
def Reflected (s : Wire) : Prop := ∃ box ∈ s.taken, box ∈ s.tap.byClient

section Client
variable {S : Session} {headers : UploadHeader} {content c : Bytes} {α : Type}
  {u : Turn Tap (List Bytes)}

abbrev AtClient (S : Session) (headers : UploadHeader) : Turn Tap (List Bytes) → Prop :=
  Decent (By .client) (fun _ => True) fun g s => Sound S headers ⟨s,g⟩

abbrev Talks (S : Session) (headers : UploadHeader) (post : α → Turn Tap (List Bytes) → Prop)
    (p : Party α) (u : Turn Tap (List Bytes)) : Prop :=
  Safe (disturbed (tapped S .client) (By .server) fun _ => True) (AtClient S headers) (Returns post) p u

structure Underway (c : Bytes) (g : List Bytes) (s : Tap) : Prop where
  asked : ∃ more, s.byClient = c :: more
  inside : g ⊆ s.sent

theorem underwayLasts (g : List Bytes) : Lasts (By .server) (fun _ => True) (Underway c g) := by
  intro s t by_ _ known
  exact ⟨by_.1 ▸ known.asked,List.Subset.trans known.inside (sentLater by_)⟩

theorem underwaySound {g : List Bytes} {s : Tap} (asks : Asks S headers c)
    (some_ : g ≠ []) (known : Underway c g s) : Sound S headers ⟨s,g⟩ := by
  obtain ⟨more,same⟩ := known.asked
  exact ⟨.inr ⟨c,more,same,asks⟩,fun _ => some_,known.inside⟩

theorem talksOn {p : Party α} (asks : Asks S headers c)
    (start : AtClient S headers u) (known : Underway c u.notes u.shared) (some_ : u.notes ≠ []) :
    Talks S headers (fun _ v => Underway c v.notes v.shared ∧ v.notes ≠ []) p u := by
  refine Pair.partSafe (fun g s => Underway c g s ∧ g ≠ []) start ⟨known,some_⟩ ?_ (confinedAny p) ?_
  · exact fun g s t by_ held known => ⟨underwayLasts g s t by_ held known.1,known.2⟩
  · rintro s g call r t h - - ⟨known,some_⟩ answered
    obtain ⟨by_,more,rfl,seen,-⟩ := tappedBy answered
    obtain ⟨first,same⟩ := known.asked
    obtain ⟨last,after⟩ := by_.1
    have later : Underway c (g ++ more) t :=
      ⟨⟨first ++ last,by rw [← after,same,List.cons_append]⟩,insideLater by_ known.inside seen⟩
    have nonempty : g ++ more ≠ [] := fun none_ => some_ (List.append_eq_nil_iff.mp none_).1
    exact ⟨by_,trivial,underwaySound asks nonempty later,later,nonempty⟩

def Told (S : Session) (headers : UploadHeader) (g : List Bytes) (fileId : String) : Prop :=
  (Command.serialize (.upload headers)).length ≤ Frame.u32Max ∧
    ∃ box data rsp, box ∈ g ∧ Opens S box data ∧ (data[0]? = some 1 ∨ data[0]? = some 2) ∧
      UploadResponse.deserialize data.tail = .ok rsp ∧ rsp.fileId = fileId

theorem closesTold {fileId : String} (asks : Asks S headers c) (start : AtClient S headers u)
    (known : Underway c u.notes u.shared) (some_ : u.notes ≠ []) (told : Told S headers u.notes fileId) :
    Talks S headers (fun fileId v => Told S headers v.notes fileId) (do
      shutdown
      pure fileId) u := by
  refine Pair.callSafe (Underway c u.notes) start (underwayLasts u.notes) known ?_
  rintro s closed t h held known answered
  cases answered
  have still : AtClient S headers ⟨s,u.notes,s⟩ := ⟨byRefl _ _,trivial,underwaySound asks some_ known⟩
  cases closed with
  | error fault => exact ⟨still,trivial⟩
  | ok closed => exact ⟨still,told⟩

theorem outcomeTalks (asks : Asks S headers c)
    (start : AtClient S headers u) (known : Underway c u.notes u.shared) (some_ : u.notes ≠ []) :
    Talks S headers (fun fileId v => Told S headers v.notes fileId) S.uploadOutcome u := by
  unfold uploadOutcome
  refine bodyThen ⟨byRefl _,underwayLasts u.notes,start,known,fun s _ => underwaySound asks some_⟩ ?_ ?_
  · intro s box data _ known inside _
    exact underwaySound asks (by simp)
      ⟨known.asked,List.append_subset.mpr ⟨known.inside,by simpa using inside⟩⟩
  intro box data v decent took
  have mine : box ∈ v.notes := by simp [took.notes]
  have onward : Underway c v.notes v.shared := by
    refine ⟨took.known.asked,?_⟩
    rw [took.notes]
    exact List.append_subset.mpr ⟨took.known.inside,by simpa using took.inside⟩
  have told : data[0]? = some 1 ∨ data[0]? = some 2 →
      Talks S headers (fun fileId v => Told S headers v.notes fileId) (do
        let rsp ← (liftM (UploadResponse.deserialize data.tail) : Party UploadResponse)
        shutdown
        pure rsp.fileId) v := by
    intro tagged
    refine safeThen (safeLift (fun rsp w => w = v ∧ Told S headers w.notes rsp.fileId) decent ?_) ?_
    · exact fun rsp read => ⟨rfl,asks.small,box,data,rsp,mine,took.opened,tagged,read,rfl⟩
    · rintro rsp _ decent ⟨rfl,told⟩
      exact closesTold asks decent onward (List.ne_nil_of_mem mine) told
  cases tagged : data[0]? with
  | none =>
    simp only [index,tagged]
    exact ⟨decent,trivial⟩
  | some flag =>
    rw [tagged] at told
    simp only [index,tagged,liftDone,bindDone]
    split
    · refine safeThen (safeLift (fun _ _ => True) decent fun _ _ => trivial) ?_
      exact fun _ _ decent _ => ⟨decent,trivial⟩
    split
    · rename_i two
      subst two
      cases WarnHeader.deserialize data.tail with
      | ok warn => exact told (.inr rfl)
      | err message => exact ⟨decent,trivial⟩
      | panic => exact ⟨decent,trivial⟩
    · rename_i other
      split
      · exact ⟨decent,trivial⟩
      · rename_i fine
        have one : flag = 1 := by
          by_contra different
          exact fine ⟨other,different⟩
        exact told (.inl (congrArg some one))

theorem streamTalks {path : Path} (asks : Asks S headers c)
    (start : AtClient S headers u) (client : u.shared.byClient = [c]) (fresh : u.notes = []) :
    Talks S headers (fun fileId v => Told S headers v.notes fileId) (S.uploadStream path) u := by
  have lasts : Lasts (By .server) (fun _ => True) fun s => s.byClient = [c] :=
    fun s t by_ _ known => by_.1.trans known
  unfold uploadStream
  refine bodyThen ⟨byRefl _,lasts,start,client,fun s _ known => ?_⟩ ?_ ?_
  · exact ⟨.inr ⟨c,[],known,asks⟩,by simp [known],by simp [fresh]⟩
  · intro s box data _ known inside _
    rw [fresh]
    exact ⟨.inr ⟨c,[],known,asks⟩,fun _ => by simp,by simpa using inside⟩
  intro box data v decent took
  have same : v.notes = [box] := by rw [took.notes,fresh]; rfl
  have known : Underway c v.notes v.shared :=
    ⟨⟨[],took.known⟩,by rw [same]; simpa using took.inside⟩
  have chunks : ∀ f : Option (List Bytes) → Party String, f none = .fail "File::open" →
      (∀ chunks, f (some chunks) = (do S.sendLoop freshEncBuf chunks; S.uploadOutcome)) →
      Talks S headers (fun fileId v => Told S headers v.notes fileId) (reads path readChunkSize >>= f) v := by
    intro f missing found_
    refine safeThen (talksOn asks decent known (by simp [same])) ?_
    rintro found w decent ⟨known,some_⟩
    cases found with
    | none =>
      rw [missing]
      exact ⟨decent,trivial⟩
    | some chunks =>
      rw [found_]
      refine safeThen (talksOn asks decent known some_) ?_
      exact fun _ w decent since => outcomeTalks asks decent since.1 since.2
  cases tagged : data[0]? with
  | none =>
    simp only [index,tagged]
    exact ⟨decent,trivial⟩
  | some flag =>
    simp only [index,tagged,liftDone,bindDone]
    split
    · refine safeThen (safeLift (fun _ _ => True) decent fun _ _ => trivial) ?_
      exact fun _ _ decent _ => ⟨decent,trivial⟩
    split
    · cases WarnHeader.deserialize data.tail with
      | ok warn => exact chunks _ rfl fun _ => rfl
      | err message => exact ⟨decent,trivial⟩
      | panic => exact ⟨decent,trivial⟩
    · exact chunks _ rfl fun _ => rfl

theorem quietSound {s : Tap} (client : s.byClient = []) : Sound S headers ⟨s,[]⟩ :=
  ⟨.inl client,by simp [client],by simp⟩

/- upload_client once its file is hashed. -/
theorem requestTalks {path : Path} {s : Tap} (client : s.byClient = []) :
    Talks S headers (fun fileId v => Told S headers v.notes fileId) (do
      S.writeEncryptFrameInto (Command.serialize (.upload headers))
      S.uploadStream path) ⟨s,[],s⟩ := by
  have lasts : Lasts (By .server) (fun _ => True) fun s => s.byClient = [] :=
    fun s t by_ _ known => by_.1.trans known
  have start : AtClient S headers ⟨s,[],s⟩ := ⟨byRefl _ _,trivial,quietSound client⟩
  by_cases small : (Command.serialize (.upload headers)).length ≤ Frame.u32Max
  · refine frameThen ⟨byRefl _,lasts,start,client,fun s _ => quietSound⟩ ?_
    intro s c _ known opened
    have asks : Asks S headers c := ⟨opened,small⟩
    have one : (s.seals [c] .client).byClient = [c] := by simp [Tap.seals,known]
    have decent : AtClient S headers ⟨s.seals [c] .client,[],s⟩ :=
      ⟨sealsBy _,trivial,.inr ⟨c,[],one,asks⟩,by simp [one],by simp⟩
    exact ⟨decent,streamTalks asks decent one rfl⟩
  · unfold writeEncryptFrameInto
    rw [if_pos (by omega)]
    exact ⟨start,trivial⟩

end Client

section Run
variable {S : Session} {headers : UploadHeader} {content : Bytes} {α : Type}

theorem clientGrows {p : Party α} {u : Turn Wire Unit} (grown : ByClient u.before u.shared) :
    Safe (disturbed (clientSide S content) ByServer (Sound S headers))
      (fun u => ByClient u.before u.shared) (fun _ _ => True) p u := by
  refine confinedSafe grown (confinedAny p) ?_
  rintro u c r v - - ⟨-,-,answered,-⟩
  obtain ⟨by_,more,same,-⟩ := tappedBy answered
  exact ⟨by_,more,same.symm⟩

def clientView (u : Turn Wire Unit) : Turn Tap (List Bytes) := ⟨u.shared.tap,u.shared.taken,u.before.tap⟩

theorem clientThrough {p : Party α} {post : α → Turn Tap (List Bytes) → Prop} {u : Turn Wire Unit}
    (grown : ByClient u.before u.shared) (talks : Talks S headers post p (clientView u)) :
    Safe (disturbed (clientSide S content) ByServer (Sound S headers))
      (Decent ByClient (Sound S headers) fun _ _ => True)
      (Returns fun a v => post a (clientView v)) p u := by
  have follows : ∀ u c r v, AtClient S headers (clientView u) →
      disturbed (clientSide S content) ByServer (Sound S headers) u c r v →
      disturbed (tapped S .client) (By .server) (fun _ => True) (clientView u) c r (clientView v) := by
    rintro u c r v - ⟨since,-,answered,-⟩
    rw [since.2] at answered
    exact ⟨since.1,trivial,answered⟩
  refine safeWeaken (safeMono (safeBoth (safeThrough follows talks) (clientGrows grown)) ?_) ?_
  · exact fun v held => ⟨held.2,held.1.point,trivial⟩
  · rintro (a | message | _) v _ both
    · exact both.1
    · trivial
    · trivial

/- upload_client, whatever the server does meanwhile. -/
theorem clientSafe {path : Path} {fileName : String} (fileKey fileId : String)
    (named : path.getLast? = some fileName) :
    Safe (disturbed (clientSide S content) ByServer
        (Sound S (RoundTrip.sentHeader S fileId fileName fileKey content)))
      (Decent ByClient (Sound S (RoundTrip.sentHeader S fileId fileName fileKey content)) fun _ _ => True)
      (Returns fun id v => Told S (RoundTrip.sentHeader S fileId fileName fileKey content) v.shared.taken id)
      (S.uploadClient path fileKey fileId)
      (Turn.start ⟨.quiet,[]⟩ ()) := by
  have start : Decent ByClient (Sound S (RoundTrip.sentHeader S fileId fileName fileKey content))
      (fun _ _ => True) (Turn.start (⟨.quiet,[]⟩ : Wire) ()) :=
    ⟨wireRely.leftRefl _,quietSound rfl,trivial⟩
  have keeps : ∀ s t : Wire, ByServer s t →
      Sound S (RoundTrip.sentHeader S fileId fileName fileKey content) t →
      s.tap.byClient = [] ∧ s.taken = [] → t.tap.byClient = [] ∧ t.taken = [] :=
    fun s t by_ _ known => ⟨by_.1.1.trans known.1,by_.2.trans known.2⟩
  unfold uploadClient
  simp only [named]
  refine Pair.callSafe (fun s => s.tap.byClient = [] ∧ s.taken = []) start keeps ⟨rfl,rfl⟩ ?_
  rintro s size ⟨tap,taken⟩ _ held known ⟨answered,reads⟩
  cases answered
  have decent : Decent ByClient (Sound S (RoundTrip.sentHeader S fileId fileName fileKey content))
      (fun _ _ => True) ⟨s,(),s⟩ := ⟨wireRely.leftRefl _,held,trivial⟩
  cases (size : Option Nat) with
  | none => exact ⟨decent,trivial⟩
  | some n =>
  cases reads n rfl
  refine Pair.callSafe (fun s => s.tap.byClient = [] ∧ s.taken = []) decent keeps known ?_
  rintro s found ⟨tap,taken⟩ _ held known ⟨answered,reads⟩
  cases answered
  have decent : Decent ByClient (Sound S (RoundTrip.sentHeader S fileId fileName fileKey content))
      (fun _ _ => True) ⟨s,(),s⟩ := ⟨wireRely.leftRefl _,held,trivial⟩
  cases (found : Option Bytes) with
  | none => exact ⟨decent,trivial⟩
  | some b =>
  cases reads b rfl
  have talks := @requestTalks S (RoundTrip.sentHeader S fileId fileName fileKey content) path s.tap known.1
  rw [← known.2] at talks
  exact clientThrough (u := ⟨s,(),s⟩) decent.grown talks

end Run

section Server
variable {S : Session} {headers : UploadHeader} {α β : Type} {u : Turn Wire Handling} {s t : Wire}
  {g : Handling} {disk : Fs}

def Fine (headers : UploadHeader) (saved : Bool) (data : Bytes) : Prop :=
  data = [1] ∨ (∃ rest, data = 3 :: rest) ∨ saved = true ∧ ∃ networkElapsed,
    data = 1 :: UploadResponse.serialize ⟨headers.fileId,headers.fileHash,networkElapsed⟩

def Said (S : Session) (headers : UploadHeader) (g : Handling) (s : Wire) : Prop :=
  ∀ box ∈ s.tap.byServer, ∀ data, Opens S box data → Fine headers g.seen.noted.saved data

structure Handled (S : Session) (headers : UploadHeader) (g : Handling) : Prop where
  kept : g.seen.noted.saved = true →
    Described S g.seen.disk (UploadHeader.slot S headers) (UploadHeader.metadata S headers)

def ServerPoint (S : Session) (headers : UploadHeader) (g : Handling) (s : Wire) : Prop :=
  Reflected s ∨ Said S headers g s ∧ Handled S headers g

theorem reflectedLater (by_ : ByClient s t ∨ ByServer s t) (reflected : Reflected s) : Reflected t := by
  obtain ⟨box,taken,own⟩ := reflected
  rcases by_ with by_ | by_
  · exact ⟨box,by_.2.subset taken,by_.1.1.subset own⟩
  · exact ⟨box,by_.2 ▸ taken,by_.1.1 ▸ own⟩

theorem pointStable : Stable ByClient (Sound S headers) (ServerPoint S headers) := by
  rintro g s t by_ - (reflected | ⟨said,handled⟩)
  · exact .inl (reflectedLater (.inl by_) reflected)
  · refine .inr ⟨fun box mine => said box ?_,handled⟩
    rw [← by_.1.2.1]
    exact mine

theorem soundLater (by_ : ByServer s t) (sound : Sound S headers s) : Sound S headers t where
  asked := by rw [by_.1.1]; exact sound.asked
  waited := by rw [by_.1.1,by_.2]; exact sound.waited
  inside := by rw [by_.2]; exact List.Subset.trans sound.inside (sentLater by_.1)

theorem serverBy {c : (Port HostSig).Call} {r : (Port HostSig).Ret c} {h : Handling}
    (answered : serverSide S (s,g) c r (t,h)) : ByServer s t := by
  obtain ⟨tapped_,taken,-⟩ := answered
  exact ⟨(tappedBy tapped_).1,taken⟩

abbrev aroundServer (S : Session) (headers : UploadHeader) : Env (Port HostSig) (Turn Wire Handling) :=
  disturbed (serverSide S) ByClient (Sound S headers)

abbrev AtServer (S : Session) (headers : UploadHeader) : Turn Wire Handling → Prop :=
  Decent ByServer (Sound S headers) (ServerPoint S headers)

abbrev Serves (S : Session) (headers : UploadHeader) (post : α → Turn Wire Handling → Prop) (p : Party α)
    (u : Turn Wire Handling) : Prop :=
  Safe (aroundServer S headers) (AtServer S headers) (Returns post) p u

theorem reflectedOn {p : Party α} (start : AtServer S headers u) (reflected : Reflected u.shared) :
    Serves S headers (fun _ _ => True) p u := by
  refine safeWeaken (Pair.partSafe (fun _ => Reflected) start reflected ?_ (confinedAny p) ?_) ?_
  · exact fun _ s t by_ _ => reflectedLater (.inl by_)
  · rintro s g c r t h - held reflected answered
    have by_ := serverBy answered
    have later := reflectedLater (.inr by_) reflected
    exact ⟨by_,soundLater by_ held,.inl later,later⟩
  · rintro (_ | _ | _) _ _ _ <;> trivial

def Tells (S : Session) (headers : UploadHeader) (saved : Bool) (c : (Port HostSig).Call) : Prop :=
  ∀ b, c = .send b → ∃ nonce data, b = Frame.frame S.cipher S.sessionKey nonce data ∧
    Fine headers saved data

theorem savedStays {c : (Port HostSig).Call} {r : (Port HostSig).Ret c} {w v : Watched}
    (answered : watching w c r v) (saved : w.noted.saved = true) : v.noted.saved = true := by
  rw [answered.1]
  unfold Progress.note
  split <;> simp [saved]

theorem fineLater {saved later : Bool} {data : Bytes} (mono : saved = true → later = true)
    (fine : Fine headers saved data) : Fine headers later data := by
  rcases fine with ack | refusal | ⟨yes,success⟩
  · exact .inl ack
  · exact .inr (.inl refusal)
  · exact .inr (.inr ⟨mono yes,success⟩)

theorem saidCall {c : (Port HostSig).Call} {r : (Port HostSig).Ret c} {h : Handling} {saved : Bool}
    (flagged : saved = true → g.seen.noted.saved = true) (tells : Tells S headers saved c)
    (said : Said S headers g s) (answered : serverSide S (s,g) c r (t,h)) : Said S headers h t := by
  obtain ⟨tapped_,-,watched⟩ := answered
  have mono := savedStays watched
  have still : t.tap.byServer = s.tap.byServer → Said S headers h t := by
    intro same box mine data opened
    rw [same] at mine
    exact fineLater mono (said box mine data opened)
  cases c with
  | send b =>
    obtain ⟨nonce,data,rfl,fine⟩ := tells b rfl
    have after : t.tap = s.tap.seals (boxes S (Frame.frame S.cipher S.sessionKey nonce data)) .server :=
      congrArg Prod.fst tapped_
    rw [boxesFramed] at after
    intro box mine plain opened
    rw [after] at mine
    rcases List.mem_append.mp mine with old | new
    · exact fineLater mono (said box old plain opened)
    · cases List.mem_singleton.mp new
      cases Option.some.inj (opened.symm.trans (S.cipher.openedSealed S.sessionKey nonce data))
      exact fineLater (fun yes => mono (flagged yes)) fine
  | recv n =>
    cases r with
    | error fault =>
      have same : t.tap = s.tap := congrArg Prod.fst tapped_
      exact still (by rw [same])
    | ok b =>
      have same : t.tap = s.tap := congrArg Prod.fst tapped_.2
      exact still (by rw [same])
  | here c =>
    have rest : t.tap = s.tap → Said S headers h t := fun same => still (by rw [same])
    cases c with
    | fs op =>
      cases op with
      | rename old new =>
        obtain rfl | rfl := Bool.eq_false_or_eq_true (show Bool from r)
        · have same : t.tap = s.tap.renames old new .server := congrArg Prod.fst tapped_
          exact still (by rw [same]; rfl)
        · exact rest (congrArg Prod.fst tapped_)
      | _ => exact rest (congrArg Prod.fst tapped_)
    | _ => exact rest (congrArg Prod.fst tapped_)

structure Telling (S : Session) (headers : UploadHeader) (saved : Bool) (u : Turn Wire Handling) : Prop where
  said : Said S headers u.notes u.shared
  flagged : saved = true → u.notes.seen.noted.saved = true

theorem saidStable (by_ : ByClient s t) (said : Said S headers g s) : Said S headers g t := by
  intro box mine
  rw [by_.1.2.1] at mine
  exact said box mine

theorem tellsSafe {p : Party α} {saved : Bool} (telling : Telling S headers saved u)
    (confined : Confined (Tells S headers saved) p) :
    Safe (aroundServer S headers) (Telling S headers saved)
      (Returns fun _ => Telling S headers saved) p u := by
  refine safeWeaken (safeNoted (confinedSafe telling confined ?_)) ?_
  · rintro u c r v telling tells ⟨since,-,answered⟩
    refine ⟨saidCall telling.flagged tells (saidStable since telling.said) answered,fun yes => ?_⟩
    exact savedStays answered.2.2 (telling.flagged yes)
  · rintro (a | message | _) v _ told
    · exact told
    · trivial
    · trivial

theorem tellsHere (saved : Bool) (c : HostCall) : Confined (Tells S headers saved) (here c) :=
  confinedHere c (by rintro b ⟨⟩)

theorem tellsFrame {saved : Bool} {data : Bytes} (fine : Fine headers saved data) :
    Confined (Tells S headers saved) (S.writeEncryptFrameInto data) := by
  refine confinedFrame (by rintro b ⟨⟩) fun nonce => ?_
  rintro b ⟨⟩
  exact ⟨nonce,data,rfl,fine⟩

theorem tellsClosing {saved : Bool} {data : Bytes} (fine : Fine headers saved data) :
    Confined (Tells S headers saved) (S.sendClosing data) :=
  confinedBind (tellsFrame fine) fun _ => shutdownConfined (by rintro b ⟨⟩)

abbrev Speaks (S : Session) (headers : UploadHeader) (p : Party α) (u : Turn Wire Handling) : Prop :=
  Safe (aroundServer S headers) (Telling S headers false) (Returns fun _ _ => True) p u

theorem tellsThen {p : Party α} {f : α → Party β} (telling : Telling S headers false u)
    (confined : Confined (Tells S headers false) p)
    (later : ∀ a v, Telling S headers false v → Speaks S headers (f a) v) : Speaks S headers (p >>= f) u :=
  safeThen (tellsSafe telling confined) fun a v _ => later a v

theorem tellsLast {p : Party α} (telling : Telling S headers false u)
    (confined : Confined (Tells S headers false) p) : Speaks S headers p u := by
  refine safeWeaken (tellsSafe telling confined) ?_
  rintro (a | message | _) _ _ _ <;> trivial

theorem finishSpeaks (arc : FileLock.Arc) (networkElapsed : F32) (found : Received)
    (telling : Telling S headers false u) :
    Speaks S headers (S.finishUpload headers arc networkElapsed found) u := by
  unfold finishUpload
  refine tellsThen telling (bufFlushConfined (fun _ => by rintro b ⟨⟩) _) ?_
  intro _ v telling
  simp only []
  split
  · refine tellsLast telling (confinedBind (tellsHere false _) fun _ => ?_)
    exact tellsClosing (.inr (.inl ⟨_,rfl⟩))
  rename_i same
  have wrote : Safe (aroundServer S headers) (Telling S headers false)
      (Returns fun _ => Telling S headers true) (write (S.metaPath (UploadHeader.slot S headers))
        (UploadHeader.metadata S headers).serialize) v := by
    refine hereSafe telling ?_
    rintro made w ⟨since,-,answered⟩
    have tells : Tells S headers false (.here (.fs (.write (S.metaPath (UploadHeader.slot S headers))
        (UploadHeader.metadata S headers).serialize))) := by rintro b ⟨⟩
    have said := saidCall telling.flagged tells (saidStable since telling.said) answered
    have noted := answered.2.2.1
    cases (made : Bool) with
    | true => exact ⟨⟨said,by simp⟩,said,fun _ => by rw [noted]; simp [Progress.note]⟩
    | false => exact ⟨⟨said,by simp⟩,trivial⟩
  refine safeThen wrote ?_
  intro _ w _ telling
  have success : Confined (Tells S headers true) (do
      S.sendSuccess ⟨headers.fileId,S.sha256Hex found.hashed,networkElapsed⟩
      dropGuard .upload arc
      releaseFileLock headers.fileId
      logUpload headers.fileSize.toNat) := by
    refine confinedBind (tellsClosing (.inr (.inr ⟨rfl,networkElapsed,?_⟩))) fun _ => ?_
    · rw [Decidable.not_not.mp same]
    refine confinedBind (tellsHere true _) fun _ => ?_
    exact confinedBind (tellsHere true _) fun _ => tellsHere true _
  refine safeWeaken (safeMono (tellsSafe telling success) fun v told => ⟨told.said,by simp⟩) ?_
  rintro (a | message | _) _ _ _ <;> trivial

theorem uploadSpeaks (telling : Telling S headers false u) : Speaks S headers (S.handleUpload headers) u := by
  have made : ∀ c : HostCall, ∀ f : HostSig.Ret c → Party Unit, (∀ r, ∃ x : Outcome Unit, f r = .done x) →
      Confined (Tells S headers false) (here c >>= f) := by
    intro c f ends
    refine confinedBind (tellsHere false c) fun r => ?_
    obtain ⟨x,same⟩ := ends r
    rw [same]
    trivial
  unfold handleUpload
  refine tellsThen telling (tellsHere false _) fun arc v telling => ?_
  refine tellsThen telling (tellsHere false _) fun locked v telling => ?_
  cases locked with
  | false => exact tellsLast telling (tellsClosing (.inr (.inl ⟨_,rfl⟩)))
  | true =>
    refine tellsThen telling (made _ _ fun r => ?_) fun _ v telling => ?_
    · cases (r : Bool) <;> exact ⟨_,rfl⟩
    refine tellsThen telling (confinedLift _) fun _ v telling => ?_
    refine tellsThen telling (tellsFrame (.inl rfl)) fun _ v telling => ?_
    refine tellsThen telling (tellsHere false _) fun networkElapsed v telling => ?_
    refine tellsThen telling (made _ _ fun r => ?_) fun _ v telling => ?_
    · cases (r : Bool) <;> exact ⟨_,rfl⟩
    refine tellsThen telling (receiveConfined (fun _ => by rintro b ⟨⟩) (fun _ => by rintro b ⟨⟩) _) ?_
    exact fun found v telling => finishSpeaks arc networkElapsed found telling

theorem serverGrows {p : Party α} (grown : ByServer u.before u.shared) (sound : Sound S headers u.shared) :
    Safe (aroundServer S headers) (fun u => ByServer u.before u.shared ∧ Sound S headers u.shared)
      (fun _ _ => True) p u := by
  refine confinedSafe ⟨grown,sound⟩ (confinedAny p) ?_
  rintro u c r v - - ⟨-,held,answered⟩
  exact ⟨serverBy answered,soundLater (serverBy answered) held⟩

theorem uploadServes (start : AtServer S headers u) (said : Said S headers u.notes u.shared)
    (unsaved : u.notes.seen = ⟨disk,⟨false,false⟩⟩) :
    Serves S headers (fun _ _ => True) (S.handleUpload headers) u := by
  have follows : ∀ u c r v, Kept S (UploadHeader.slot S headers) (UploadHeader.metadata S headers) disk
      u.notes.seen → aroundServer S headers u c r v → watching u.notes.seen c r v.notes.seen :=
    fun _ _ _ _ _ answered => answered.2.2.2.2
  have disk_ := @uploadSafe S disk headers
  rw [← unsaved] at disk_
  have kept := safeThrough follows disk_
  have telling : Telling S headers false u := ⟨said,by simp⟩
  refine safeWeaken (safeMono (safeBoth (safeBoth (uploadSpeaks telling) kept)
    (serverGrows start.grown start.valid)) ?_) ?_
  · exact fun v held => ⟨held.2.1,held.2.2,.inr ⟨held.1.1.said,⟨held.1.2.good⟩⟩⟩
  · rintro (a | message | _) _ _ _ <;> trivial

structure Calm (S : Session) (headers : UploadHeader) (disk : Fs) (g : Handling) (s : Wire) : Prop where
  said : Said S headers g s
  seen : g.seen = ⟨disk,⟨false,false⟩⟩

theorem calmPoint (calm : Calm S headers disk g s) : ServerPoint S headers g s :=
  .inr ⟨calm.said,⟨fun saved => by simp [calm.seen] at saved⟩⟩

def Aside (S : Session) (headers : UploadHeader) (c : (Port HostSig).Call) : Prop :=
  Tells S headers false c ∧ Quiet Progress.note c

theorem asideServes {p : Party α} (start : AtServer S headers u) (calm : Calm S headers disk u.notes u.shared)
    (aside : Confined (Aside S headers) p) :
    Serves S headers (fun _ v => Calm S headers disk v.notes v.shared) p u := by
  refine Pair.partSafe (Calm S headers disk) start calm ?_ aside ?_
  · exact fun g s t by_ _ calm => ⟨saidStable by_ calm.said,calm.seen⟩
  · rintro s g c r t h ⟨tells,quiet⟩ sound calm answered
    have by_ := serverBy answered
    have later : Calm S headers disk h t :=
      ⟨saidCall (by simp) tells calm.said answered,(quietSame quiet answered.2.2).trans calm.seen⟩
    exact ⟨by_,soundLater by_ sound,calmPoint later,later⟩

theorem refusalAside {data : Bytes} : Confined (Aside S headers) (S.sendClosing (3 :: data)) := by
  refine confinedClosing ⟨by rintro b ⟨⟩,Progress.quiet nofun⟩ (fun nonce => ⟨?_,Progress.quiet nofun⟩)
    ⟨by rintro b ⟨⟩,Progress.quiet nofun⟩
  rintro b ⟨⟩
  exact ⟨nonce,3 :: data,rfl,.inr (.inl ⟨data,rfl⟩)⟩

theorem asideLast {p : Party Unit} (start : AtServer S headers u)
    (calm : Calm S headers disk u.notes u.shared) (aside : Confined (Aside S headers) p) :
    Serves S headers (fun _ _ => True) p u := by
  refine safeWeaken (asideServes start calm aside) ?_
  rintro (a | message | _) _ _ _ <;> trivial

def Commanded (S : Session) (command : Command) (s : Wire) : Prop :=
  s.tap.byServer = [] ∧ ∃ box data, box ∈ s.tap.byClient ∧ Opens S box data ∧
    Command.deserialize data = .ok command

def diskView (u : Turn Wire Handling) : Watched := u.notes.seen

def serverView (u : Turn Wire Handling) : Turn Tap (List Bytes) := ⟨u.shared.tap,u.notes.heard,u.before.tap⟩

theorem headersHeard : Safe (disturbed (tapped S .server) (By .client) fun _ => True)
    (Decent (By .server) (fun _ => True) fun _ s => s.byServer = [])
    (fun result v => ∀ command, result = .ok command → ∃ box data, box ∈ v.shared.byClient ∧
      Opens S box data ∧ Command.deserialize data = .ok command)
    S.readHeaders (Turn.start .quiet []) := by
  have knows : Knows (By .server) (By .client) (fun _ => True) (fun _ s => s.byServer = [])
      (fun s => s.byServer = []) (Turn.start .quiet []) :=
    ⟨byRefl _,fun _ _ by_ _ alone => by_.2.1.trans alone,⟨byRefl _ _,trivial,rfl⟩,rfl,fun _ _ alone => alone⟩
  unfold readHeaders
  refine safeBind (safeWeaken (bodyTalks knows fun _ _ _ _ alone _ _ => alone) ?_)
  rintro (data | message | _) v decent ⟨took,-⟩
  · obtain ⟨box,took⟩ := took data rfl
    have own := took.inside
    rw [Tap.sent,took.known,List.append_nil] at own
    refine ⟨decent,?_⟩
    exact fun command read => ⟨box,data,own,took.opened,read⟩
  · rintro _ ⟨⟩
  · rintro _ ⟨⟩

def atFirst (disk : Fs) : Turn Wire Handling := Turn.start ⟨.quiet,[]⟩ ⟨[],⟨disk,⟨false,false⟩⟩⟩

theorem headersServe : Serves S headers
    (fun result v => Calm S headers disk v.notes v.shared ∧
      ∀ command, result = .ok command → Commanded S command v.shared)
    S.readHeaders.attempt (atFirst disk) := by
  have hears : ∀ u c r v, Decent (By .server) (fun _ => True) (fun _ s => s.byServer = []) (serverView u) →
      aroundServer S headers u c r v →
      disturbed (tapped S .server) (By .client) (fun _ => True) (serverView u) c r (serverView v) :=
    fun _ _ _ _ _ answered => ⟨answered.1.1,trivial,answered.2.2.1⟩
  have heard := attemptEnds (safeThrough (u := atFirst disk) hears headersHeard)
  have watches : ∀ (u : Turn Wire Handling) c r v, diskView u = ⟨disk,⟨false,false⟩⟩ →
      aroundServer S headers u c r v → watching (diskView u) c r (diskView v) :=
    fun _ _ _ _ _ answered => answered.2.2.2.2
  have quiet : Confined (Quiet Progress.note) S.readHeaders.attempt := by
    refine attemptConfined (confinedBind (readConfined fun n => Progress.quiet nofun) fun data => ?_)
    exact confinedLift _
  have kept : Safe watching (fun w => w = ⟨disk,⟨false,false⟩⟩) (Returns fun _ w => w = ⟨disk,⟨false,false⟩⟩)
      S.readHeaders.attempt (diskView (atFirst disk)) := quietKeeps rfl quiet
  have still := safeThrough watches kept
  have grows := @serverGrows S headers _ (atFirst disk) S.readHeaders.attempt (wireRely.rightRefl _)
    (quietSound rfl)
  have calm : ∀ v : Turn Wire Handling, v.shared.tap.byServer = [] → v.notes.seen = ⟨disk,⟨false,false⟩⟩ →
      Calm S headers disk v.notes v.shared := by
    intro v alone seen
    exact ⟨fun box mine => by simp [alone] at mine,seen⟩
  refine safeMono (safeWeaken (safeBoth (safeBoth heard still) grows) ?_) ?_
  · rintro (result | message | _) v held told
    · refine ⟨calm v held.1.1.point held.1.2,?_⟩
      rintro command rfl
      exact ⟨held.1.1.point,told.1.1.1 command rfl command rfl⟩
    · trivial
    · trivial
  · exact fun v held => ⟨held.2.1,held.2.2,calmPoint (calm v held.1.1.point held.1.2)⟩

theorem commandSame {command : Command} (sound : Sound S headers s) (asked : Commanded S command s) :
    Reflected s ∨ command = .upload headers := by
  obtain ⟨alone,box,data,own,opened,read⟩ := asked
  rcases sound.asked with none_ | ⟨c,more,same,asks⟩
  · simp [none_] at own
  rw [same] at own
  rcases List.mem_cons.mp own with rfl | later
  · right
    cases Option.some.inj (opened.symm.trans asks.opened)
    have small := asks.small
    rw [commandRead (by unfold Frame.u32Max at small; omega)] at read
    exact (Outcome.ok.inj read).symm
  · left
    have two : 2 ≤ s.tap.byClient.length := by
      have := List.length_pos_of_mem later
      rw [same,List.length_cons]
      omega
    obtain ⟨first,rest,taken⟩ := List.exists_cons_of_ne_nil (sound.waited two)
    have inside := sound.inside (show first ∈ s.taken by simp [taken])
    rw [Tap.sent,alone,List.append_nil] at inside
    exact ⟨first,by simp [taken],inside⟩

theorem answerServes (start : AtServer S headers u) (calm : Calm S headers disk u.notes u.shared)
    {result : Except String Command}
    (asked : ∀ command, result = .ok command → Commanded S command u.shared) :
    Serves S headers (fun _ _ => True) (S.answer result) u := by
  cases result with
  | error message =>
    refine asideLast start calm ?_
    simp only [answer]
    split
    · exact confinedBind (attemptConfined refusalAside) fun _ => trivial
    · split <;> trivial
  | ok command =>
    rcases commandSame start.valid (asked command rfl) with reflected | rfl
    · exact reflectedOn start reflected
    simp only [answer]
    have costs : Confined (Aside S headers) (isAllowedCost (cost (.upload headers))) :=
      confinedHere _ ⟨by rintro b ⟨⟩,Progress.quiet (by rintro op ⟨⟩)⟩
    refine safeThen (asideServes start calm costs) ?_
    intro allowed v decent calm
    cases allowed with
    | false => exact asideLast decent calm refusalAside
    | true =>
      simp only [dispatch,if_true]
      cases headers.validate S.maxFileSize with
      | ok _ => exact uploadServes decent calm.said calm.seen
      | err message => exact asideLast decent calm refusalAside
      | panic => exact ⟨decent,trivial⟩

/- handle_connection, whatever the client does meanwhile. -/
theorem serverSafe (S : Session) (headers : UploadHeader) (disk : Fs) :
    Serves S headers (fun _ _ => True) S.handleConnection (atFirst disk) := by
  rw [connectionAnswers]
  exact safeThen headersServe fun result v decent heard => answerServes decent heard.1 heard.2

end Server

def uploading (S : Session) (disk : Fs) (path : Path) (fileKey fileId : String) :
    Pair (Port HostSig) String Unit Wire Unit Handling :=
  ⟨⟨.quiet,[]⟩,⟨S.uploadClient path fileKey fileId,()⟩,⟨S.handleConnection,⟨[],⟨disk,⟨false,false⟩⟩⟩⟩⟩

abbrev Ran (S : Session) (content : Bytes) (disk : Fs) (path : Path) (fileKey fileId : String)
    (last : Pair (Port HostSig) String Unit Wire Unit Handling) : Prop :=
  Pair.Run (clientSide S content) (serverSide S) (uploading S disk path fileKey fileId) last

section
variable {S : Session} {headers : UploadHeader} {s : Wire} {g : Handling} {fileId : String}

theorem toldSaved (sound : Sound S headers s) (said : Said S headers g s) (foreign : ¬ Reflected s)
    (told : Told S headers s.taken fileId) : fileId = headers.fileId ∧ g.seen.noted.saved = true := by
  obtain ⟨small,box,data,rsp,taken,opened,tagged,read,rfl⟩ := told
  have other : box ∈ s.tap.byServer := by
    refine (List.mem_append.mp (sound.inside taken)).resolve_left fun own => ?_
    exact foreign ⟨box,taken,own⟩
  rcases said box other data opened with rfl | ⟨rest,rfl⟩ | ⟨saved,networkElapsed,rfl⟩
  · -- an ACK is no UploadResponse
    have shut : UploadResponse.deserialize [] = .err "Failed to deserialize" := rfl
    simp [shut] at read
  · simp at tagged
  · refine ⟨?_,saved⟩
    have fits : (UploadResponse.serialize ⟨headers.fileId,headers.fileHash,networkElapsed⟩).length <
        2 ^ 64 := by
      have four := networkElapsed.property
      simp only [Command.serialize,UploadHeader.serialize,List.length_append,Frame.u32Max] at small
      simp only [UploadResponse.serialize,List.length_append]
      omega
    have body := uploadResponseRead fits []
    rw [List.append_nil] at body
    have decoded : UploadResponse.deserialize (UploadResponse.serialize
        ⟨headers.fileId,headers.fileHash,networkElapsed⟩) =
          .ok ⟨headers.fileId,headers.fileHash,networkElapsed⟩ :=
      Outcome.ofOptionIsOk.mpr (Postcard.fromBytesOf body)
    cases Outcome.ok.inj (read.symm.trans decoded)
    rfl

end

/- In every run, whatever the network does: if the client was never given back what it had
sealed itself, metadata that the server has saved is the client's and describes the file
beside it, and the client is told its file is stored only when it is. -/
theorem uploadUntampered (S : Session) (content : Bytes) (disk : Fs) {path : Path} {fileName : String}
    (fileKey fileId : String) (named : path.getLast? = some fileName)
    {last : Pair (Port HostSig) String Unit Wire Unit Handling}
    (ran : Ran S content disk path fileKey fileId last)
    (foreign : ∀ box ∈ last.shared.taken, box ∉ last.shared.tap.byClient) :
    (last.right.notes.seen.noted.saved = true → Described S last.right.notes.seen.disk
      ⟨S.clientKey,fileKey,fileId⟩
      ⟨fileName,content.length.toUInt64,S.sha256Hex content,S.sha256Hex (Postcard.utf8 fileKey)⟩) ∧
    ∀ told, last.left.program = .done (.ok told) →
      told = fileId ∧ last.right.notes.seen.noted.saved = true := by
  have client := @clientSafe S content path fileName fileKey fileId named
  have server := serverSafe S (RoundTrip.sentHeader S fileId fileName fileKey content) disk
  have unreflected : ¬ Reflected last.shared := fun ⟨box,taken,own⟩ => foreign box taken own
  obtain ⟨sound,-,right⟩ := Pair.runKeeps wireRely ran (quietSound rfl)
    (safeWeaken client fun _ _ _ _ => trivial) (safeWeaken server fun _ _ _ _ => trivial)
  obtain ⟨said,handled⟩ := (Pair.standsPoint pointStable sound right).resolve_left unreflected
  refine ⟨handled.kept,?_⟩
  intro told ended
  obtain ⟨u,-,since,safe⟩ := Pair.leftEnds wireRely ran (quietSound rfl) client
    (safeWeaken server fun _ _ _ _ => trivial)
  rw [ended] at safe
  have heard := safe.2
  simp only [Returns] at heard
  rw [← since.2] at heard
  exact toldSaved sound said unreflected heard

/- A run in which every frame gets through; its chunk may be given to the server as often as the
file has it. -/
section
variable {S : Session} {plain : Bytes} {α : Type} {p q : Party α} {x y : Tap × List Bytes} {h g : Host}

theorem clientReached (content : Bytes) (reached : Reaches (tapped S .client) p x q y)
    (free : Confined (fun c => ∀ r, Reads content c r) p) :
    Reaches (clientSide S content) p (⟨x.1,x.2⟩,()) q (⟨y.1,y.2⟩,()) := by
  induction reached with
  | here p s => exact .here _ _
  | answer answered later ih => exact .answer ⟨answered,free.1 _⟩ (ih (free.2 _))

theorem watchedQuiet {c : (Port HostSig).Call} (quiet : Quiet Progress.note c) (w : Watched)
    (r : (Port HostSig).Ret c) : watching w c r w := by
  refine ⟨(quiet.2 _ _).symm,?_⟩
  split
  · exact absurd rfl (quiet.1 _)
  · rfl

theorem serverReached (taken : List Bytes) (w : Watched) (reached : Reaches (tapped S .server) p x q y)
    (quiet : Confined (Quiet Progress.note) p) :
    Reaches (serverSide S) p (⟨x.1,taken⟩,⟨x.2,w⟩) q (⟨y.1,taken⟩,⟨y.2,w⟩) := by
  induction reached with
  | here p s => exact .here _ _
  | answer answered later ih =>
    exact .answer ⟨answered,rfl,watchedQuiet quiet.1 w _⟩ (ih (quiet.2 _))

def Local : HostCall → Prop
  | .fs _ => False
  | _ => True

theorem localReached {c : HostCall} (local_ : Local c) (r : HostSig.Ret c) (u : Wire × Handling) :
    Reaches (serverSide S) (here c) u (.done (.ok r)) u := by
  refine hereReached ?_
  cases c <;> first | exact local_.elim | exact ⟨rfl,rfl,rfl,rfl⟩

theorem hereTapped (s : Tap) (heard : List Bytes) (c : HostCall) (r : HostSig.Ret c) : ∃ renamed,
    tapped S .server (s,heard) (.here c) r (⟨s.byClient,s.byServer,renamed⟩,heard) := by
  cases c with
  | fs op =>
    cases op with
    | rename old new =>
      obtain rfl | rfl := Bool.eq_false_or_eq_true (show Bool from r)
      · exact ⟨s.renamed ++ [(old,new)],rfl⟩
      · exact ⟨s.renamed,rfl⟩
    | _ => exact ⟨s.renamed,rfl⟩
  | _ => exact ⟨s.renamed,rfl⟩

structure Silently (tap : Tap) (taken heard : List Bytes) (disk : Fs) (u : Wire × Handling) : Prop where
  client : u.1.tap.byClient = tap.byClient
  server : u.1.tap.byServer = tap.byServer
  taken : u.1.taken = taken
  heard : u.2.heard = heard
  disk : u.2.seen.disk = disk

theorem silentReached {tap : Tap} {taken heard : List Bytes} {u : Wire × Handling}
    (start : Silently tap taken heard h.disk u) (advanced : Duplex.Advances Host.handle p h [] [] q g) :
    ∃ v, Reaches (serverSide S) p u q v ∧ Silently tap taken heard g.disk v := by
  have nothing : frames S [] = [] := framesShort (by decide)
  suffices followed : ∃ v, Reaches (serverSide S) p u q v ∧
      (([] : Bytes) = [] ∧ ([] : Bytes) = [] ∧ Silently tap taken heard g.disk v) by
    obtain ⟨v,reached,-,-,silently⟩ := followed
    exact ⟨v,reached,silently⟩
  refine Duplex.advancesSimulated (fun (h : Host) (input output : Bytes) (u : Wire × Handling) =>
    input = [] ∧ output = [] ∧ Silently tap taken heard h.disk u) ?_ ?_ ?_ advanced ⟨rfl,rfl,start⟩
  · rintro h _ _ ⟨s,g⟩ c ⟨rfl,rfl,silently⟩
    obtain ⟨renamed,tapped_⟩ := hereTapped (S := S) s.tap g.heard c (Host.handle h c).1
    have answers := hostAnswers h c
    rw [← silently.disk] at answers
    refine ⟨(⟨⟨s.tap.byClient,s.tap.byServer,renamed⟩,s.taken⟩,⟨g.heard,⟨(Host.handle h c).2.disk,_⟩⟩),
      ⟨tapped_,rfl,rfl,?_⟩,rfl,rfl,silently.client,silently.server,silently.taken,silently.heard,rfl⟩
    cases c <;> exact answers
  · rintro h _ output ⟨s,g⟩ b ⟨rfl,none_,silently⟩
    obtain ⟨rfl,rfl⟩ := List.append_eq_nil_iff.mp none_
    refine ⟨(⟨s.tap.seals [] .server,s.taken⟩,g),⟨?_,rfl,rfl,rfl⟩,rfl,rfl,silently.client,?_,silently.taken,
      silently.heard,silently.disk⟩
    · have silent : boxes S [] = [] := by
        have shut : ¬ (S.cipher.opened S.sessionKey []).isSome := by
          intro opens
          simp [frames,opens] at nothing
        rw [boxes,List.drop_nil,if_neg shut,nothing]
      change (s.tap.seals [] .server,g.heard) = (s.tap.seals (boxes S []) .server,g.heard)
      rw [silent]
    · simpa [Tap.seals] using silently.server
  · rintro h input _ ⟨s,g⟩ n b ⟨none_,rfl,silently⟩
    obtain ⟨empty,rfl⟩ := List.append_eq_nil_iff.mp none_
    refine ⟨(s,g),⟨⟨?_,?_⟩,rfl,rfl,rfl⟩,rfl,rfl,silently⟩
    · rw [empty,nothing]
      exact List.nil_subset _
    · rw [empty,nothing,List.append_nil]

theorem roundReached (text : String) (hashed pending : Bytes) {path : Path} {fileSize received : Nat}
    {decBuf old box plain : Bytes} {tap : Tap} {taken : List Bytes} {disk : Fs} {s : Wire} {g : Handling}
    (start : Silently tap taken g.heard disk (s,g)) (seen : box ∈ tap.sent) (opened : Opens S box plain)
    (inner : path ≠ []) (found : disk.content path = some old) (more : received < fileSize)
    (asked : plain.length = min readChunkSize (fileSize - received)) (room : decBuf.length = readChunkSize) :
    ∃ after written buf disk' v, Wrote path disk disk' written ∧ written ++ after = old ++ pending ++ plain ∧
      buf.length = readChunkSize ∧ Silently tap taken (g.heard ++ [box]) disk' v ∧
      Reaches (serverSide S) (S.receiveLoop text path fileSize decBuf hashed pending received) (s,g)
        (S.receiveLoop text path fileSize buf (hashed ++ plain) after (received + plain.length)) v := by
  have size := S.cipher.openedLength opened
  have boxed : box.length = nonceLen + min readChunkSize (fileSize - received) + tagLen := by
    omega
  obtain ⟨disk',after,written,wrote,joined,advanced⟩ :=
    bufWritten (h := RoundTrip.sampleHost disk) pending plain inner found
  have heard : Silently tap taken (g.heard ++ [box]) disk (s,⟨g.heard ++ [box],g.seen⟩) :=
    ⟨start.client,start.server,start.taken,rfl,start.disk⟩
  obtain ⟨v,reached,silently⟩ := silentReached (S := S) heard advanced
  refine ⟨after,written,plain ++ decBuf.drop plain.length,disk',v,wrote,joined,
    by simp only [List.length_append,List.length_drop]; omega,silently,?_⟩
  have took : serverSide S (s,g) (.recv (nonceLen + min readChunkSize (fileSize - received) + tagLen))
      (.ok ⟨box,boxed⟩) (s,⟨g.heard ++ [box],g.seen⟩) := by
    have only := framesOpened opened
    refine ⟨⟨?_,?_⟩,rfl,rfl,rfl⟩
    · rw [only]
      have there : s.tap.sent = tap.sent := by rw [Tap.sent,Tap.sent,start.client,start.server]
      simpa [there] using seen
    · rw [only]
  rw [receiveLoop,dif_pos more]
  refine .answer took ?_
  simp only []
  have decrypted := boxOpened S.cipher opened (show plain.length ≤ decBuf.length by omega)
  split
  · rename_i message refused
    rw [decrypted] at refused
    contradiction
  · rename_i refused
    rw [decrypted] at refused
    contradiction
  · rename_i buf decLen got
    rw [decrypted] at got
    cases got
    rw [sliceOk (by omega) (by simp),Program.liftDone,Program.bindDone]
    simp only [List.take_left,List.drop_zero]
    exact reachesThen reached (.here _ _)

theorem chunksReached (text : String) {path : Path} {fileSize : Nat} {tap : Tap} {taken : List Bytes}
    (inner : path ≠ []) (rest : Bytes)
    (seen : ∀ x ∈ fullReads readChunkSize rest, ∃ box ∈ tap.sent, Opens S box x)
    (hashed pending decBuf old : Bytes) (received : Nat) (disk : Fs) (s : Wire) (g : Handling)
    (start : Silently tap taken g.heard disk (s,g)) (found : disk.content path = some old)
    (total : fileSize = received + rest.length) (room : decBuf.length = readChunkSize) :
    ∃ after written disk' heard v, Wrote path disk disk' written ∧ written ++ after = old ++ pending ++ rest ∧
      Silently tap taken heard disk' v ∧
      Reaches (serverSide S) (S.receiveLoop text path fileSize decBuf hashed pending received) (s,g)
        (.done (.ok ⟨hashed ++ rest,after⟩)) v := by
  have positive : 0 < readChunkSize := by decide
  induction size : rest.length using Nat.strong_induction_on
    generalizing rest hashed pending decBuf old received disk s g with
  | _ m ih =>
    rcases Classical.em (rest = []) with rfl | some_
    · refine ⟨pending,old,disk,g.heard,_,⟨found,fun _ _ => rfl⟩,by simp,start,?_⟩
      rw [receiveLoop,dif_neg (by simp at total; omega),List.append_nil]
      exact .here _ _
    · have long := List.length_pos_of_ne_nil some_
      rw [fullReadsMore some_ positive] at seen
      obtain ⟨box,inside,opened⟩ := seen _ List.mem_cons_self
      have asked : (rest.take readChunkSize).length = min readChunkSize (fileSize - received) := by
        rw [List.length_take]
        omega
      obtain ⟨after,written,buf,disk',⟨s',g'⟩,wrote,joined,roomNext,silently,reached⟩ :=
        roundReached text hashed pending start inside opened inner found (by omega) asked room
      have smaller : (rest.drop readChunkSize).length < m := by
        rw [List.length_drop]
        omega
      have totalNext : fileSize =
          received + (rest.take readChunkSize).length + (rest.drop readChunkSize).length := by
        rw [Nat.add_assoc,← List.length_append,List.take_append_drop]
        exact total
      have next : Silently tap taken g'.heard disk' (s',g') :=
        ⟨silently.client,silently.server,silently.taken,rfl,silently.disk⟩
      obtain ⟨last,writtenLast,diskLast,heard,v,wroteLast,joinedLast,ended,later⟩ :=
        ih _ smaller _ (fun x member => seen x (List.mem_cons_of_mem _ member))
          (hashed ++ rest.take readChunkSize) after buf written _ disk' s' g' next wrote.here totalNext
          roomNext rfl
      refine ⟨last,writtenLast,diskLast,heard,v,wroteTrans wrote wroteLast,?_,ended,?_⟩
      · rw [joinedLast,joined,List.append_assoc,List.take_append_drop]
      · rw [List.append_assoc,List.take_append_drop] at later
        exact reachesTrans reached later

end

section
variable {S : Session} {content plain : Bytes} {path : Path} {fileKey fileId fileName : String} {tap : Tap}
  {taken : List Bytes} {disk : Fs} {s : Wire} {g : Handling}

theorem requestReached (named : path.getLast? = some fileName) (one : Nonce)
    (small : (Command.serialize (.upload (RoundTrip.sentHeader S fileId fileName fileKey content))).length ≤
      Frame.u32Max) :
    let asking := S.cipher.sealed S.sessionKey one
      (Command.serialize (.upload (RoundTrip.sentHeader S fileId fileName fileKey content)))
    Reaches (clientSide S content) (S.uploadClient path fileKey fileId) (⟨.quiet,[]⟩,()) (S.uploadStream path)
      (⟨⟨[asking],[],[]⟩,[]⟩,()) := by
  intro asking
  have sized : clientSide S content (⟨.quiet,[]⟩,()) (.here (.fs (.size path))) (some content.length)
      (⟨.quiet,[]⟩,()) := ⟨rfl,fun n same => (Option.some.inj same).symm⟩
  have read_ : clientSide S content (⟨.quiet,[]⟩,()) (.here (.fs (.read path))) (some content)
      (⟨.quiet,[]⟩,()) := ⟨rfl,fun b same => (Option.some.inj same).symm⟩
  have asks := clientReached content (sealedReached S .client small one .quiet [])
    (confinedFrame (fun _ => trivial) fun _ _ => trivial)
  unfold uploadClient
  rw [named]
  refine reachesThen (hereReached sized) ?_
  simp only []
  refine reachesThen (reachesThen (hereReached read_) (.here _ _)) ?_
  exact reachesThen asks (.here _ _)

theorem admittedReached {headers : UploadHeader} {cut : Bytes} (one two : Nonce)
    (accepted : headers.validate S.maxFileSize = .ok ())
    (prefix8 : Hex.cutBefore headers.fileHash 8 = .ok cut)
    (fits : nonceLen + (Command.serialize (.upload headers)).length + tagLen ≤ Frame.maxFrameLength)
    (ready : SlotReady S disk (UploadHeader.slot S headers)) (arc : FileLock.Arc) (networkElapsed : F32) :
    let asking := S.cipher.sealed S.sessionKey one (Command.serialize (.upload headers))
    let ack := S.cipher.sealed S.sessionKey two [1]
    ∃ disk' v, Session.Opened S disk' (UploadHeader.slot S headers) ∧
      Silently ⟨[asking],[ack],[]⟩ [] [asking] disk' v ∧
      Reaches (serverSide S) S.handleConnection (⟨⟨[asking],[],[]⟩,[]⟩,⟨[],⟨disk,⟨false,false⟩⟩⟩)
        (S.receiveLoop "Upload timed out reading chunk" (S.filePath (UploadHeader.slot S headers))
          headers.fileSize.toNat freshDecBuf [] [] 0 >>= S.finishUpload headers arc networkElapsed) v := by
  intro asking ack
  have commanded : Reaches (tapped S .server) S.readHeaders (⟨[asking],[],[]⟩,[])
      (.done (.ok (.upload headers))) (⟨[asking],[],[]⟩,[asking]) := by
    unfold readHeaders
    refine reachesThen (acceptedReached fits List.mem_cons_self) ?_
    rw [commandRead (by unfold Frame.maxFrameLength at fits; omega),Program.liftDone]
    exact .here _ _
  have quiet : Confined (Quiet Progress.note) S.readHeaders :=
    confinedBind (readConfined fun n => Progress.quiet nofun) fun data => confinedLift _
  have heard := serverReached [] (⟨disk,⟨false,false⟩⟩ : Watched) commanded quiet
  obtain ⟨opened,parent,free⟩ := slotOpened (h := RoundTrip.sampleHost disk) ready
  have start : Silently ⟨[asking],[],[]⟩ [] [asking] disk
      (⟨⟨[asking],[],[]⟩,[]⟩,⟨[asking],⟨disk,⟨false,false⟩⟩⟩) := ⟨rfl,rfl,rfl,rfl,rfl⟩
  obtain ⟨⟨s,g⟩,made,start⟩ := silentReached (S := S) (h := RoundTrip.sampleHost disk) start
    (Host.createDirAllAdvances ready.clear)
  have acked := serverReached s.taken g.seen
    (sealedReached S .server (show [1].length ≤ Frame.u32Max by decide) two s.tap g.heard) (frameQuiet [1])
  have told : Silently ⟨[asking],[ack],[]⟩ [] [asking] _
      (⟨s.tap.seals [ack] .server,s.taken⟩,⟨g.heard,g.seen⟩) :=
    ⟨start.client,congrArg (· ++ [ack]) start.server,start.taken,start.heard,start.disk⟩
  obtain ⟨v,created,told⟩ := silentReached (S := S) (h := {RoundTrip.sampleHost disk with
    disk := disk.makeDirs (S.userDirPath (UploadHeader.slot S headers)).inits}) told
    (Host.createAdvances parent free)
  refine ⟨_,v,opened,told,?_⟩
  rw [connectionAnswers]
  refine reachesThen (attemptReached heard) ?_
  refine reachesThen (localReached (by trivial) true _) ?_
  simp only [dispatch,accepted,if_true]
  have held : Local (.holdFileLock headers.fileId) := trivial
  have locked : Local (.tryLock .upload arc) := trivial
  have timed : Local .elapsed := trivial
  exact uploadThrough prefix8 (localReached held arc _) (localReached locked true _) made acked
    (localReached timed networkElapsed _) created

theorem streamReached (two three : Nonce) (chunk : plain.length = readChunkSize)
    (alone_ : boxes S (S.cipher.sealed S.sessionKey three plain) = [S.cipher.sealed S.sessionKey three plain])
    (seen : S.cipher.sealed S.sessionKey two [1] ∈ tap.sent) :
    Reaches (clientSide S content) (S.uploadStream path) (⟨tap,[]⟩,()) S.uploadOutcome
      (⟨tap.seals [S.cipher.sealed S.sessionKey three plain] .client,
        [S.cipher.sealed S.sessionKey two [1]]⟩,()) := by
  have heard := clientReached content (acceptedReached (g := []) (show nonceLen + [(1 : UInt8)].length +
    tagLen ≤ Frame.maxFrameLength by decide) seen) (readConfined fun n => fun _ => trivial)
  have opened : clientSide S content (⟨tap,[S.cipher.sealed S.sessionKey two [1]]⟩,())
      (.here (.reads path readChunkSize)) (some [plain])
      (⟨tap,[S.cipher.sealed S.sessionKey two [1]]⟩,()) := ⟨rfl,trivial⟩
  have drew : clientSide S content (⟨tap,[S.cipher.sealed S.sessionKey two [1]]⟩,())
      (.here (.draw nonceLen)) three (⟨tap,[S.cipher.sealed S.sessionKey two [1]]⟩,()) := ⟨rfl,trivial⟩
  have size := S.cipher.sealedLength S.sessionKey three plain
  have sent : clientSide S content (⟨tap,[S.cipher.sealed S.sessionKey two [1]]⟩,())
      (.send (S.cipher.sealed S.sessionKey three plain)) (.ok ())
      (⟨tap.seals [S.cipher.sealed S.sessionKey three plain] .client,
        [S.cipher.sealed S.sessionKey two [1]]⟩,()) := by
    refine ⟨?_,trivial⟩
    rw [← alone_]
    rfl
  have sealed_ : Reaches (clientSide S content) (S.sendLoop freshEncBuf [plain])
      (⟨tap,[S.cipher.sealed S.sessionKey two [1]]⟩,()) (.done (.ok ()))
      (⟨tap.seals [S.cipher.sealed S.sessionKey three plain] .client,
        [S.cipher.sealed S.sessionKey two [1]]⟩,()) := by
    have fits : freshEncBuf.length = nonceLen + plain.length + tagLen := by
      simp only [freshEncBuf,List.length_replicate]
      omega
    rw [sendLoop]
    refine reachesThen (hereReached drew) ?_
    rw [encryptExact fits,Program.liftDone,Program.bindDone]
    simp only []
    rw [sliceOk (by omega) (by omega),Program.liftDone,Program.bindDone,← size,List.take_length]
    exact .answer sent (.here _ _)
  unfold uploadStream
  refine reachesThen heard ?_
  have flag : index [1] 0 = .ok 1 := rfl
  simp only [flag,Program.liftDone,Program.bindDone]
  rw [if_neg (by decide),if_neg (by decide)]
  refine reachesThen (hereReached opened) ?_
  simp only []
  exact reachesThen sealed_ (.here _ _)

theorem finishedReached {headers : UploadHeader} (four : Nonce)
    (size : headers.fileSize.toNat = content.length) (hash : headers.fileHash = S.sha256Hex content)
    (opened : Session.Opened S disk (UploadHeader.slot S headers))
    (seen : ∀ x ∈ fullReads readChunkSize content, ∃ box ∈ tap.sent, Opens S box x)
    (start : Silently tap taken g.heard disk (s,g)) (arc : FileLock.Arc) (networkElapsed : F32)
    (small : (1 :: UploadResponse.serialize
      ⟨headers.fileId,headers.fileHash,networkElapsed⟩).length ≤ Frame.u32Max) :
    let success := S.cipher.sealed S.sessionKey four
      (1 :: UploadResponse.serialize ⟨headers.fileId,headers.fileHash,networkElapsed⟩)
    ∃ heard disk' v, Silently ⟨tap.byClient,tap.byServer ++ [success],[]⟩ taken heard disk' v ∧
      Reaches (serverSide S) (S.receiveLoop "Upload timed out reading chunk"
          (S.filePath (UploadHeader.slot S headers)) headers.fileSize.toNat freshDecBuf [] [] 0 >>=
            S.finishUpload headers arc networkElapsed) (s,g) (.done (.ok ())) v := by
  intro success
  obtain ⟨after,written,disk',heard,v,wrote,joined,silently,received⟩ :=
    chunksReached "Upload timed out reading chunk" (fileInner S (UploadHeader.slot S headers)) content seen
      [] [] freshDecBuf [] 0 disk s g start opened.file
      (show headers.fileSize.toNat = 0 + content.length by omega) List.length_replicate
  obtain ⟨dirKept,freeKept⟩ := openedKept opened wrote
  obtain ⟨flushed,wroteLast,flushes⟩ :=
    bufFlushed (h := RoundTrip.sampleHost disk') after (fileInner S _) wrote.here
  obtain ⟨w,flushedReached,silently⟩ :=
    silentReached (S := S) (h := RoundTrip.sampleHost disk') silently flushes
  obtain ⟨-,parent,free⟩ := metaRoom wroteLast dirKept freeKept
  obtain ⟨⟨s,g⟩,saved,silently⟩ := silentReached (S := S)
    (h := {RoundTrip.sampleHost disk' with disk := flushed}) silently (Host.writeAdvances parent free)
  have told := serverReached s.taken g.seen (sealedReached S .server small four s.tap g.heard) (frameQuiet _)
  refine ⟨heard,_,(⟨s.tap.seals [success] .server,s.taken⟩,g),⟨silently.client,
    congrArg (· ++ [success]) silently.server,silently.taken,silently.heard,silently.disk⟩,?_⟩
  refine reachesThen received ?_
  unfold finishUpload
  refine reachesThen flushedReached ?_
  have same : S.sha256Hex content = headers.fileHash := hash.symm
  simp only [List.nil_append,same,ne_eq,not_true_eq_false,if_false]
  have closed : Reaches (serverSide S) shutdown (⟨s.tap.seals [success] .server,s.taken⟩,g)
      (.done (.ok ())) (⟨s.tap.seals [success] .server,s.taken⟩,g) :=
    reachesThen (localReached (c := .shutdown) trivial (Except.ok ()) _) (.here _ _)
  refine reachesThen saved (reachesThen (reachesThen told closed) ?_)
  refine reachesThen (localReached (by trivial) () _) ?_
  exact reachesThen (localReached (by trivial) () _) (localReached (c := .logUpload _) trivial () _)

theorem outcomeReached {response : UploadResponse} {four : Nonce}
    (small : nonceLen + (1 :: response.serialize).length + tagLen ≤ Frame.maxFrameLength)
    (seen : S.cipher.sealed S.sessionKey four (1 :: response.serialize) ∈ tap.sent) :
    Reaches (clientSide S content) S.uploadOutcome (⟨tap,taken⟩,()) (.done (.ok response.fileId))
      (⟨tap,taken ++ [S.cipher.sealed S.sessionKey four (1 :: response.serialize)]⟩,()) := by
  have heard := clientReached content (acceptedReached (g := taken) small seen)
    (readConfined fun n => fun _ => trivial)
  have fits : response.serialize.length < 2 ^ 64 := by
    simp only [List.length_cons,Frame.maxFrameLength] at small
    omega
  have body := uploadResponseRead fits []
  rw [List.append_nil] at body
  have decoded : UploadResponse.deserialize response.serialize = .ok response :=
    Outcome.ofOptionIsOk.mpr (Postcard.fromBytesOf body)
  have flag : index (1 :: response.serialize) 0 = .ok 1 := rfl
  unfold uploadOutcome
  refine reachesThen heard ?_
  simp only [flag,Program.liftDone,Program.bindDone,List.tail_cons,decoded]
  rw [if_neg (by decide),if_neg (by decide),if_neg (by decide)]
  refine reachesThen (shutdownReached ?_) (.here _ _)
  exact ⟨rfl,trivial⟩

theorem uploadRuns (fileKey fileId : String) (one two three four : Nonce) (networkElapsed : F32)
    (named : path.getLast? = some fileName)
    (accepted : (RoundTrip.sentHeader S fileId fileName fileKey content).validate S.maxFileSize = .ok ())
    (fits : RoundTrip.Fits S fileId fileName fileKey content)
    (kept : content.length.toUInt64.toNat = content.length)
    (ready : SlotReady S disk (UploadHeader.slot S (RoundTrip.sentHeader S fileId fileName fileKey content)))
    (chunk : plain.length = readChunkSize) (alike : ∀ x ∈ fullReads readChunkSize content, x = plain)
    (alone_ : boxes S (S.cipher.sealed S.sessionKey three plain) =
      [S.cipher.sealed S.sessionKey three plain]) :
    let asking := S.cipher.sealed S.sessionKey one
      (Command.serialize (.upload (RoundTrip.sentHeader S fileId fileName fileKey content)))
    let ack := S.cipher.sealed S.sessionKey two [1]
    let box := S.cipher.sealed S.sessionKey three plain
    let success := S.cipher.sealed S.sessionKey four
      (1 :: UploadResponse.serialize ⟨fileId,S.sha256Hex content,networkElapsed⟩)
    ∃ tap g, tap.byClient = [asking,box] ∧ Ran S content disk path fileKey fileId
      ⟨⟨tap,[ack,success]⟩,⟨.done (.ok fileId),()⟩,⟨.done (.ok ()),g⟩⟩ := by
  intro asking ack box success
  have small : (Command.serialize (.upload (RoundTrip.sentHeader S fileId fileName fileKey content))).length ≤
      Frame.u32Max := by
    unfold RoundTrip.Fits Frame.maxFrameLength at fits
    unfold Frame.u32Max
    omega
  have short : (UploadResponse.serialize ⟨fileId,S.sha256Hex content,networkElapsed⟩).length ≤ 327 :=
    responseLength (Header.validated accepted).fileId.2
  have response : nonceLen + (1 :: UploadResponse.serialize
      ⟨fileId,S.sha256Hex content,networkElapsed⟩).length + tagLen ≤ Frame.maxFrameLength := by
    simp only [List.length_cons,nonceLen,tagLen,Frame.maxFrameLength]
    omega
  obtain ⟨cut,prefix8⟩ := hashCut S content
  have asks := @requestReached S content path fileKey fileId fileName named one small
  obtain ⟨disk',⟨s,g⟩,opened,told,admitted⟩ :=
    admittedReached one two accepted prefix8 fits ready 0 networkElapsed
  have issued : ack ∈ s.tap.sent := by
    have server : s.tap.byServer = [ack] := told.server
    simp [Tap.sent,server]
  have streams := @streamReached S content plain path s.tap two three chunk alone_ issued
  have start : Silently ⟨[asking,box],[ack],[]⟩ [ack] g.heard disk' (⟨s.tap.seals [box] .client,[ack]⟩,g) :=
    ⟨congrArg (· ++ [box]) told.client,told.server,rfl,rfl,told.disk⟩
  have seen : ∀ x ∈ fullReads readChunkSize content, ∃ b ∈ Tap.sent ⟨[asking,box],[ack],[]⟩, Opens S b x := by
    intro x member
    rw [alike x member]
    exact ⟨box,by simp [Tap.sent],S.cipher.openedSealed S.sessionKey three plain⟩
  have tagged : (1 :: UploadResponse.serialize ⟨fileId,S.sha256Hex content,networkElapsed⟩).length ≤
      Frame.u32Max := by
    rw [List.length_cons]
    unfold Frame.u32Max
    omega
  obtain ⟨heard,disk'',⟨t,h⟩,finished,received⟩ := @finishedReached S content ⟨[asking,box],[ack],[]⟩ [ack]
    disk' _ g (RoundTrip.sentHeader S fileId fileName fileKey content) four kept rfl opened seen start 0
    networkElapsed tagged
  have client : t.tap.byClient = [asking,box] := finished.client
  have server : t.tap.byServer = [ack,success] := finished.server
  have outcome := @outcomeReached S content t.tap [ack] ⟨fileId,S.sha256Hex content,networkElapsed⟩ four
    response (by simp [Tap.sent,server,success])
  refine ⟨t.tap,h,client,?_⟩
  have untaken : s = ⟨s.tap,[]⟩ := congrArg (Wire.mk s.tap) told.taken
  have taken : t = ⟨t.tap,[ack]⟩ := congrArg (Wire.mk t.tap) finished.taken
  rw [untaken] at admitted
  rw [taken] at received
  exact (Pair.leftRuns asks).trans ((Pair.rightRuns admitted).trans ((Pair.leftRuns streams).trans
    ((Pair.rightRuns received).trans (Pair.leftRuns outcome))))

end

open RoundTrip Chunks

theorem alikeZeros (m : Nat) (even : readChunkSize ∣ m) :
    ∀ x ∈ fullReads readChunkSize (List.replicate m 0), x = List.replicate readChunkSize 0 := by
  intro x member
  have size := fullReadsEven (by decide) (by rwa [List.length_replicate]) x member
  refine List.eq_replicate_iff.mpr ⟨size,fun b inside => ?_⟩
  have joined := fullReadsJoined (n := readChunkSize) (b := List.replicate m (0 : UInt8)) (by decide)
  have among := List.mem_flatten.mpr ⟨x,member,inside⟩
  rw [joined] at among
  exact (List.mem_replicate.mp among).2

theorem lengthAlone (key : Bytes) (nonce : Nonce) {plain : Bytes} (long : 4 ≤ plain.length)
    (bounded : plain.length < 2 ^ 32) :
    lengthCipher.opened key ((lengthCipher.sealed key nonce plain).drop 4) = none := by
  have size := lengthCipher.sealedLength key nonce plain
  have last : (lengthCipher.sealed key nonce plain).drop (nonceLen + plain.length) =
      padTo tagLen (Frame.be32 plain.length ++ nonce.val) :=
    List.drop_left' (by rw [List.length_append,nonce.property]; rfl)
  have front : ∀ n (rest : Bytes), (padTo tagLen (Frame.be32 n ++ rest)).take 4 = Frame.be32 n := by
    intro n rest
    have four := Frame.be32Length n
    have room : 4 ≤ ((Frame.be32 n ++ rest).take tagLen).length := by
      rw [List.length_take,List.length_append,four]
      simp only [tagLen]
      omega
    rw [padTo,List.take_append_of_le_length room,List.take_take,Nat.min_eq_left (by decide)]
    exact List.take_left' four
  cases opened : lengthCipher.opened key ((lengthCipher.sealed key nonce plain).drop 4) with
  | none => rfl
  | some text =>
    have shorter := lengthCipher.openedLength opened
    rw [List.length_drop,size] at shorter
    unfold Aead.opened at opened
    rw [List.length_drop,size] at opened
    rw [if_pos (by omega)] at opened
    have tail : nonceLen + plain.length + tagLen - 4 - nonceLen - tagLen = plain.length - 4 := by omega
    have there : 4 + (nonceLen + (plain.length - 4)) = nonceLen + plain.length := by omega
    simp only [List.drop_drop,tail,there,last] at opened
    simp only [lengthCipher] at opened
    split at opened
    · rename_i same
      have lengths := congrArg (fun tag => Frame.fromBe32 (tag.take 4)) same
      simp only [front,Frame.fromBe32Of,List.length_take] at lengths
      omega
    · contradiction

theorem chunkAlone (nonce : Nonce) :
    boxes sampleSender (sampleSender.cipher.sealed sampleSender.sessionKey nonce
      (List.replicate readChunkSize 0)) =
    [sampleSender.cipher.sealed sampleSender.sessionKey nonce (List.replicate readChunkSize 0)] := by
  have shut : sampleSender.cipher.opened sampleSender.sessionKey ((sampleSender.cipher.sealed
      sampleSender.sessionKey nonce (List.replicate readChunkSize 0)).drop 4) = none :=
    lengthAlone sampleSender.sessionKey nonce (by rw [List.length_replicate]; decide)
      (by rw [List.length_replicate]; decide)
  rw [boxes,shut]
  exact framesOpened (sampleSender.cipher.openedSealed _ _ _)

theorem sealedApart (S : Session) {one other : Nonce} {data text : Bytes} (apart : data.head? ≠ text.head?) :
    S.cipher.sealed S.sessionKey one data ≠ S.cipher.sealed S.sessionKey other text := by
  intro same
  have opened := S.cipher.openedSealed S.sessionKey one data
  rw [same,S.cipher.openedSealed] at opened
  exact apart (congrArg List.head? (Option.some.inj opened).symm)

theorem mebibyteUntampered : ∃ last : Pair (Port HostSig) String Unit Wire Unit Handling,
    Ran sampleSender (List.replicate 1048576 0) ⟨[]⟩ ["dummy.bin"] "ronak"
      "4a43afa64e9342fc8320e63a43eb193b" last ∧
    last.left.program = .done (.ok "4a43afa64e9342fc8320e63a43eb193b") ∧
    Described sampleSender last.right.notes.seen.disk
      ⟨sampleSender.clientKey,"ronak","4a43afa64e9342fc8320e63a43eb193b"⟩
      ⟨"dummy.bin",(1048576 : Nat).toUInt64,sampleSender.sha256Hex (List.replicate 1048576 0),
        sampleSender.sha256Hex (Postcard.utf8 "ronak")⟩ := by
  have size : (List.replicate 1048576 (0 : UInt8)).length = 1048576 := List.length_replicate
  have accepted := sampleAccepted sampleSender rfl (List.replicate 1048576 0) (by rw [size]; decide)
    (by rw [size]; decide)
  obtain ⟨tap,g,client,ran⟩ := @uploadRuns sampleSender (List.replicate 1048576 0)
    (List.replicate readChunkSize 0) ["dummy.bin"] "dummy.bin" ⟨[]⟩ "ronak"
    "4a43afa64e9342fc8320e63a43eb193b" (flatNonce 1) (flatNonce 2) (flatNonce 3) (flatNonce 4)
    ⟨[0,0,0,0],rfl⟩ rfl accepted (serverFits _ _) (by rw [size]; decide)
    (emptyReady _ _) List.length_replicate (alikeZeros _ (by decide)) (chunkAlone _)
  have asks : ∀ headers : UploadHeader, (Command.serialize (.upload headers)).head? = some 2 := by
    intro headers
    simp [Command.serialize,Postcard.varint]
  have zeros : (List.replicate readChunkSize (0 : UInt8)).head? = some 0 := by
    rw [List.head?_replicate,if_neg (by decide)]
  have foreign : ∀ box ∈ [sampleSender.cipher.sealed sampleSender.sessionKey (flatNonce 2) [1],
      sampleSender.cipher.sealed sampleSender.sessionKey (flatNonce 4) (1 :: UploadResponse.serialize
        ⟨"4a43afa64e9342fc8320e63a43eb193b",sampleSender.sha256Hex (List.replicate 1048576 0),
          ⟨[0,0,0,0],rfl⟩⟩)],
      box ∉ tap.byClient := by
    rw [client]
    intro box answer own
    have first : ∃ nonce rest,
        box = sampleSender.cipher.sealed sampleSender.sessionKey nonce (1 :: rest) := by
      rcases List.mem_cons.mp answer with rfl | answer
      · exact ⟨_,[],rfl⟩
      · cases List.mem_singleton.mp answer
        exact ⟨_,_,rfl⟩
    obtain ⟨nonce,rest,rfl⟩ := first
    rcases List.mem_cons.mp own with same | own
    · exact sealedApart _ (by rw [asks]; simp) same
    · exact sealedApart _ (by rw [zeros]; simp) (List.mem_singleton.mp own)
  obtain ⟨described,told⟩ := uploadUntampered sampleSender (List.replicate 1048576 0) ⟨[]⟩ "ronak"
    "4a43afa64e9342fc8320e63a43eb193b" rfl ran foreign
  have saved := described (told _ rfl).2
  rw [size] at saved
  exact ⟨_,ran,rfl,saved⟩

end RDrive.Untampered
