import RDrive.Responses
import RDrive.Lib.Pair

/-! Two ends of one session, and between them a network that keeps every frame and every chunk
it has seen and gives any of them to either end, any number of times, or anything that does
not open. It cannot forge: what nobody has sealed does not open. -/
namespace RDrive.Tapped
open Crypto Header Party Bytes Program Crew

inductive Side where
  | client
  | server
  deriving DecidableEq, Repr

/- What each end has sealed, and the renames that have worked. -/
structure Tap where
  byClient : List Bytes
  byServer : List Bytes
  renamed : List (Path × Path)

namespace Tap

def quiet : Tap := ⟨[],[],[]⟩
def sent (s : Tap) : List Bytes := s.byClient ++ s.byServer

def seals (s : Tap) (more : List Bytes) : Side → Tap
  | .client => {s with byClient := s.byClient ++ more}
  | .server => {s with byServer := s.byServer ++ more}

def renames (s : Tap) (old new : Path) : Side → Tap
  | .client => s
  | .server => {s with renamed := s.renamed ++ [(old,new)]}

end Tap

abbrev Opens (S : Session) (box data : Bytes) : Prop := S.cipher.opened S.sessionKey box = some data

/- What has been read, if it opens under the session key: a frame or a chunk. -/
def frames (S : Session) (box : Bytes) : List Bytes :=
  if (S.cipher.opened S.sessionKey box).isSome then [box] else []

/- What has been sealed in a write: a frame behind its length, or else a chunk of a file,
which has none. -/
def boxes (S : Session) (b : Bytes) : List Bytes :=
  if (S.cipher.opened S.sessionKey (b.drop 4)).isSome then [b.drop 4] else frames S b

/- What is read may be anything, but if it opens then one of the two has sealed it. -/
def tapped (S : Session) (side : Side) : Env (Port HostSig) (Tap × List Bytes) := fun s c r t =>
  match c, r with
  | .recv _, .ok b => frames S b.val ⊆ s.1.sent ∧ t = (s.1,s.2 ++ frames S b.val)
  | .send b, _ => t = (s.1.seals (boxes S b) side,s.2)
  | .here (.fs (.rename old new)), true => t = (s.1.renames old new side,s.2)
  | _, _ => t = s

def By : Side → Tap → Tap → Prop
  | .client, s, t => s.byClient <+: t.byClient ∧ t.byServer = s.byServer ∧ t.renamed = s.renamed
  | .server, s, t => t.byClient = s.byClient ∧ s.byServer <+: t.byServer ∧ s.renamed <+: t.renamed

section
variable {S : Session} {side : Side} {s t : Tap} {g h : List Bytes} {c : (Port HostSig).Call}
  {r : (Port HostSig).Ret c}

theorem byRefl (side : Side) (s : Tap) : By side s s := by
  cases side with
  | client => exact ⟨List.prefix_refl _,rfl,rfl⟩
  | server => exact ⟨rfl,List.prefix_refl _,List.prefix_refl _⟩

theorem byTrans (side : Side) (s t u : Tap) (first : By side s t) (second : By side t u) : By side s u := by
  cases side with
  | client => exact ⟨first.1.trans second.1,second.2.1.trans first.2.1,second.2.2.trans first.2.2⟩
  | server => exact ⟨second.1.trans first.1,first.2.1.trans second.2.1,first.2.2.trans second.2.2⟩

theorem sidesRely : Pair.Rely (By .client) (By .server) :=
  ⟨byRefl .client,byRefl .server,byTrans .client,byTrans .server⟩

theorem sentLater (by_ : By side s t) : s.sent ⊆ t.sent := by
  unfold Tap.sent
  cases side with
  | client =>
    rw [by_.2.1]
    exact List.append_subset.mpr
      ⟨List.subset_append_of_subset_left _ by_.1.subset,List.subset_append_right _ _⟩
  | server =>
    rw [by_.1]
    exact List.append_subset.mpr
      ⟨List.subset_append_left _ _,List.subset_append_of_subset_right _ by_.2.1.subset⟩

theorem insideLater {more : List Bytes} (by_ : By side s t) (held : g ⊆ s.sent) (seen : more ⊆ s.sent) :
    g ++ more ⊆ t.sent :=
  List.Subset.trans (List.append_subset.mpr ⟨held,seen⟩) (sentLater by_)

theorem sealsBy (more : List Bytes) : By side s (s.seals more side) := by
  cases side with
  | client => exact ⟨List.prefix_append _ _,rfl,rfl⟩
  | server => exact ⟨rfl,List.prefix_append _ _,List.prefix_refl _⟩

theorem renamesBy (old new : Path) : By side s (s.renames old new side) := by
  cases side with
  | client => exact byRefl _ _
  | server => exact ⟨rfl,List.prefix_refl _,List.prefix_append _ _⟩

def Receives (c : (Port HostSig).Call) : Prop := ∃ n, c = .recv n

theorem tappedBy (answered : tapped S side (s,g) c r (t,h)) : By side s t ∧
    ∃ more, h = g ++ more ∧ more ⊆ s.sent ∧ (¬ Receives c → more = []) := by
  have still : (t,h) = (s,g) → By side s t ∧ ∃ more, h = g ++ more ∧ more ⊆ s.sent ∧
      (¬ Receives c → more = []) := by
    rintro ⟨⟩
    exact ⟨byRefl _ _,[],(List.append_nil g).symm,List.nil_subset _,fun _ => rfl⟩
  have silent : ∀ {u}, By side s u → (t,h) = (u,g) → By side s t ∧
      ∃ more, h = g ++ more ∧ more ⊆ s.sent ∧ (¬ Receives c → more = []) := by
    rintro u by_ ⟨⟩
    exact ⟨by_,[],(List.append_nil g).symm,List.nil_subset _,fun _ => rfl⟩
  cases c with
  | recv n =>
    cases r with
    | error fault => exact still answered
    | ok b =>
      obtain ⟨seen,same⟩ := answered
      cases same
      exact ⟨byRefl _ _,_,rfl,seen,fun other => absurd ⟨n,rfl⟩ other⟩
  | send b => exact silent (sealsBy (boxes S b)) answered
  | here c =>
    cases c with
    | fs op =>
      cases op with
      | rename old new =>
        obtain rfl | rfl := Bool.eq_false_or_eq_true (show Bool from r)
        · exact silent (renamesBy old new) answered
        · exact still answered
      | _ => exact still answered
    | _ => exact still answered

end

section
variable {S : Session} {side : Side} {own others : Tap → Tap → Prop} {valid : Tap → Prop}
  {point : List Bytes → Tap → Prop} {fact : Tap → Prop} {u : Turn Tap (List Bytes)} {box data : Bytes}

theorem framesOpened (opened : Opens S box data) : frames S box = [box] := by
  rw [frames,opened]
  rfl

theorem framesShut (shut : S.cipher.opened S.sessionKey box = none) : frames S box = [] := by
  rw [frames,shut]
  rfl

theorem boxesFramed (nonce : Nonce) (data : Bytes) : boxes S (Frame.frame S.cipher S.sessionKey nonce data) =
    [S.cipher.sealed S.sessionKey nonce data] := by
  have drops : (Frame.frame S.cipher S.sessionKey nonce data).drop 4 =
      S.cipher.sealed S.sessionKey nonce data := List.drop_left' (Frame.be32Length _)
  rw [boxes,drops,S.cipher.openedSealed]
  rfl

theorem framesShort (short : box.length < nonceLen + tagLen) : frames S box = [] :=
  framesShut (if_neg (by omega))

def Lasts (others : Tap → Tap → Prop) (valid fact : Tap → Prop) : Prop :=
  ∀ s t, others s t → valid t → fact s → fact t

structure Knows (own others : Tap → Tap → Prop) (valid : Tap → Prop) (point : List Bytes → Tap → Prop)
    (fact : Tap → Prop) (u : Turn Tap (List Bytes)) : Prop where
  rests : ∀ s, own s s
  lasts : Lasts others valid fact
  start : Decent own valid point u
  known : fact u.shared
  silent : ∀ s, valid s → fact s → point u.notes s

structure Took (S : Session) (g : List Bytes) (fact : Tap → Prop) (box data : Bytes)
    (v : Turn Tap (List Bytes)) : Prop where
  known : fact v.shared
  inside : box ∈ v.shared.sent
  opened : Opens S box data
  notes : v.notes = g ++ [box]

theorem bodyTalks (knows : Knows own others valid point fact u)
    (heard : ∀ s box data, valid s → fact s → box ∈ s.sent →
      Opens S box data → point (u.notes ++ [box]) s) :
    Safe (disturbed (tapped S side) others valid) (Decent own valid point)
      (fun result v => (∀ data, result = .ok data → ∃ box, Took S u.notes fact box data v) ∧ fact v.shared)
      S.readEncryptDataInto u := by
  have decent : ∀ s, valid s → fact s → Decent own valid point ⟨s,u.notes,s⟩ :=
    fun s held known => ⟨knows.rests s,held,knows.silent s held known⟩
  have length : Safe (disturbed (tapped S side) others valid) (Decent own valid point)
      (fun _ v => fact v.shared ∧ v.notes = u.notes) Session.readFrameLength u := by
    unfold Session.readFrameLength
    refine Pair.callSafe fact knows.start knows.lasts knows.known ?_
    rintro s (fault | four) t h held known answered
    · cases answered
      cases fault <;> exact ⟨decent s held known,known,rfl⟩
    · -- four bytes are no frame, whatever they are
      have none_ : frames S four.val = [] := framesShort (by rw [four.property]; decide)
      obtain ⟨-,same⟩ := answered
      rw [none_,List.append_nil] at same
      cases same
      exact ⟨decent s held known,known,rfl⟩
  unfold Session.readEncryptDataInto
  refine safeBind (safeWeaken length ?_)
  rintro (len | message | _) v start ⟨known,same⟩
  · dsimp only [Onward]
    split
    · exact ⟨start,by simp,known⟩
    refine Pair.callSafe fact start knows.lasts known ?_
    rw [same]
    rintro s (fault | box) t h held known answered
    · cases answered
      exact ⟨decent s held known,by simp,known⟩
    · obtain ⟨seen,after⟩ := answered
      change Safe _ _ _ (liftM (Outcome.ofOption "aead::Error" (S.cipher.opened S.sessionKey box.val))) _
      cases opened : S.cipher.opened S.sessionKey box.val with
      | none =>
        rw [framesShut opened,List.append_nil] at after
        cases after
        refine ⟨decent s held known,?_,known⟩
        rintro _ ⟨⟩
      | some data =>
        rw [framesOpened opened] at seen after
        cases after
        have inside : box.val ∈ s.sent := seen List.mem_cons_self
        refine ⟨⟨knows.rests s,held,heard s box.val data held known inside opened⟩,?_,known⟩
        rintro _ ⟨⟩
        exact ⟨box.val,known,inside,opened,rfl⟩
  · exact ⟨by simp,known⟩
  · exact ⟨by simp,known⟩

theorem bodyThen {β : Type} {f : Bytes → Party β} {post : β → Turn Tap (List Bytes) → Prop}
    (knows : Knows own others valid point fact u)
    (heard : ∀ s box data, valid s → fact s → box ∈ s.sent →
      Opens S box data → point (u.notes ++ [box]) s)
    (next : ∀ box data v, Decent own valid point v → Took S u.notes fact box data v →
      Safe (disturbed (tapped S side) others valid) (Decent own valid point) (Returns post) (f data) v) :
    Safe (disturbed (tapped S side) others valid) (Decent own valid point) (Returns post)
      (S.readEncryptDataInto >>= f) u := by
  refine safeBind (safeWeaken (bodyTalks knows heard) ?_)
  rintro (data | message | _) v decent ⟨took,-⟩
  · obtain ⟨box,took⟩ := took data rfl
    exact next box data v decent took
  · trivial
  · trivial

theorem frameThen {β : Type} {f : Unit → Party β} {post : β → Turn Tap (List Bytes) → Prop}
    (knows : Knows own others valid point fact u)
    (said : ∀ s box, valid s → fact s → Opens S box data →
      Decent own valid point ⟨s.seals [box] side,u.notes,s⟩ ∧
      Safe (disturbed (tapped S side) others valid) (Decent own valid point) (Returns post) (f ())
        ⟨s.seals [box] side,u.notes,s⟩) :
    Safe (disturbed (tapped S side) others valid) (Decent own valid point) (Returns post)
      (S.writeEncryptFrameInto data >>= f) u := by
  unfold Session.writeEncryptFrameInto
  split
  · exact ⟨knows.start,trivial⟩
  refine Pair.callSafe fact knows.start knows.lasts knows.known ?_
  rintro s nonce t h held known answered
  cases answered
  have decent : Decent own valid point ⟨s,u.notes,s⟩ :=
    ⟨knows.rests s,held,knows.silent s held known⟩
  refine Pair.callSafe fact decent knows.lasts known ?_
  rintro s r t h held known answered
  have after : (t,h) = (s.seals [S.cipher.sealed S.sessionKey nonce data] side,u.notes) := by
    rw [← boxesFramed nonce data]
    exact answered
  cases after
  obtain ⟨told,later⟩ := said s _ held known (S.cipher.openedSealed S.sessionKey nonce data)
  -- a write that fails may have got out all the same
  cases r with
  | error fault => exact ⟨told,trivial⟩
  | ok done_ => exact later

theorem frameTalks (knows : Knows own others valid point fact u)
    (said : ∀ s box, valid s → fact s → Opens S box data →
      Decent own valid point ⟨s.seals [box] side,u.notes,s⟩) :
    Safe (disturbed (tapped S side) others valid) (Decent own valid point) (Returns fun _ _ => True)
      (S.writeEncryptFrameInto data) u := by
  rw [← Program.bindPure (S.writeEncryptFrameInto data)]
  refine frameThen knows fun s box held known opened => ?_
  have told := said s box held known opened
  exact ⟨told,told,trivial⟩

end

def meet {α : Type} (S : Session) (client : Party α) :
    Pair (Port HostSig) α Unit Tap (List Bytes) (List Bytes) :=
  ⟨.quiet,⟨client,[]⟩,⟨S.handleConnection,[]⟩⟩

abbrev Ran {α : Type} (S : Session) (client : Party α)
    (last : Pair (Port HostSig) α Unit Tap (List Bytes) (List Bytes)) : Prop :=
  Pair.Run (tapped S .client) (tapped S .server) (meet S client) last

def Heard : Side → List Bytes → Tap → Prop
  | .client, g, s => g ⊆ s.sent
  | .server, g, s => g ⊆ s.sent ∧ ∀ first ∈ g.head?, first ∈ s.byClient

section
variable {S : Session} {α β : Type} {side : Side} {s t : Tap} {g h : List Bytes} {c : (Port HostSig).Call}
  {r : (Port HostSig).Ret c} {u : Turn Tap (List Bytes)}

theorem heardLater {end_ : Side} (by_ : By side s t) (heard : Heard end_ g s) : Heard end_ g t := by
  cases end_ with
  | client => exact List.Subset.trans heard (sentLater by_)
  | server =>
    refine ⟨List.Subset.trans heard.1 (sentLater by_),fun first head => ?_⟩
    cases side with
    | client => exact by_.1.subset (heard.2 first head)
    | server => exact by_.1 ▸ heard.2 first head

theorem clientGenuine (client : Party α) :
    Safe (disturbed (tapped S .client) (By .server) fun _ => True)
      (Decent (By .client) (fun _ => True) (Heard .client)) (fun _ _ => True) client
      (Turn.start .quiet []) := by
  have start : Decent (By .client) (fun _ => True) (Heard .client) (Turn.start .quiet []) :=
    ⟨byRefl _ _,trivial,List.nil_subset _⟩
  refine safeWeaken (Pair.partSafe (Heard .client) start start.point ?_ (confinedAny client) ?_)
    fun _ _ _ _ => trivial
  · exact fun g s t by_ _ heard => heardLater by_ heard
  · rintro s g c r t h - - heard answered
    obtain ⟨by_,more,rfl,seen,-⟩ := tappedBy answered
    have later : Heard .client (g ++ more) t := insideLater by_ heard seen
    exact ⟨by_,trivial,later,later⟩

theorem heardOn {p : Party β} {allowed : (Port HostSig).Call → Prop} (heard : Heard .server u.notes u.shared)
    (grown : By .server u.before u.shared) (confined : Confined allowed p)
    (settled : u.notes ≠ [] ∨ ∀ c, allowed c → ¬ Receives c) :
    Safe (disturbed (tapped S .server) (By .client) fun _ => True)
      (Decent (By .server) (fun _ => True) (Heard .server)) (fun _ _ => True) p u := by
  have start : Decent (By .server) (fun _ => True) (Heard .server) u := ⟨grown,trivial,heard⟩
  refine safeWeaken (Pair.partSafe (fun g s => Heard .server g s ∧
    (g ≠ [] ∨ ∀ c, allowed c → ¬ Receives c)) start ⟨heard,settled⟩ ?_ confined ?_) fun _ _ _ _ => trivial
  · exact fun g s t by_ _ known => ⟨heardLater by_ known.1,known.2⟩
  · rintro s g c r t h among - ⟨heard,settled⟩ answered
    obtain ⟨by_,more,rfl,seen,quiet⟩ := tappedBy answered
    have inside := insideLater by_ heard.1 seen
    have later : Heard .server (g ++ more) t ∧
        (g ++ more ≠ [] ∨ ∀ c, allowed c → ¬ Receives c) := by
      rcases settled with some_ | still
      · have nonempty : g ++ more ≠ [] := fun none_ => some_ (List.append_eq_nil_iff.mp none_).1
        refine ⟨⟨inside,fun box head => ?_⟩,.inl nonempty⟩
        rw [List.head?_append_of_ne_nil _ some_] at head
        exact (heardLater by_ heard).2 box head
      · rw [quiet (still c among),List.append_nil]
        exact ⟨heardLater by_ heard,.inr still⟩
    exact ⟨by_,trivial,later.1,later⟩

theorem serverGenuine (S : Session) : Safe (disturbed (tapped S .server) (By .client) fun _ => True)
    (Decent (By .server) (fun _ => True) (Heard .server)) (fun _ _ => True) S.handleConnection
    (Turn.start .quiet []) := by
  have start : Decent (By .server) (fun _ => True) (Heard .server) (Turn.start .quiet []) :=
    ⟨byRefl _ _,trivial,List.nil_subset _,by simp [Turn.start]⟩
  have lasts : Lasts (By .client) (fun _ => True) fun s => s.byServer = [] :=
    fun s t by_ _ known => by_.2.1.trans known
  have headers : Safe (disturbed (tapped S .server) (By .client) fun _ => True)
      (Decent (By .server) (fun _ => True) (Heard .server)) (Returns fun _ v => v.notes ≠ [])
      S.readHeaders (Turn.start .quiet []) := by
    have knows : Knows (By .server) (By .client) (fun _ => True) (Heard .server) (fun s => s.byServer = [])
        (Turn.start .quiet []) :=
      ⟨byRefl .server,lasts,start,rfl,fun s _ _ => ⟨List.nil_subset _,by simp [Turn.start]⟩⟩
    refine bodyThen knows ?_ ?_
    · -- the server has sent nothing yet, so whatever opens is the client's
      intro s box data _ alone inside _
      refine ⟨List.cons_subset.mpr ⟨inside,List.nil_subset _⟩,fun first head => ?_⟩
      rw [Tap.sent,alone,List.append_nil] at inside
      cases head
      exact inside
    · intro box data v decent took
      exact safeLift _ decent fun _ _ => by simp [took.notes]
  rw [Session.connectionAnswers]
  refine safeBind (safeWeaken (attemptReturns headers) ?_)
  rintro (result | message | _) v decent returned
  · cases result with
    | ok command => exact heardOn decent.point decent.grown (confinedAny _) (.inl (returned command rfl))
    | error message =>
      have quiet : Confined (fun c => ¬ Receives c) (S.answer (.error message)) := by
        simp only [Session.answer]
        split
        · refine confinedBind (attemptConfined (confinedClosing ?_ (fun nonce => ?_) ?_)) fun _ => trivial
          · simp [Receives]
          · simp [Receives]
          · simp [Receives]
        · split <;> trivial
      exact heardOn decent.point decent.grown quiet (.inr fun c among => among)
  · trivial
  · trivial

theorem ranGenuine {client : Party α} {last : Pair (Port HostSig) α Unit Tap (List Bytes) (List Bytes)}
    (ran : Ran S client last) :
    Heard .client last.left.notes last.shared ∧ Heard .server last.right.notes last.shared := by
  obtain ⟨-,left,right⟩ := Pair.runKeeps sidesRely ran trivial (clientGenuine client) (serverGenuine S)
  have stable : ∀ side end_, Stable (By side) (fun _ => True) (Heard end_) :=
    fun side end_ g s t by_ _ heard => heardLater by_ heard
  exact ⟨Pair.standsPoint (stable _ _) trivial left,Pair.standsPoint (stable _ _) trivial right⟩

end

end RDrive.Tapped
