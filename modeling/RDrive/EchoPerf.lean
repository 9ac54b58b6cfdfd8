import RDrive.Clients
import RDrive.RoundTrip
import RDrive.Lib.Window

/-! client_echo_perf with its clocks and figures, and what it makes of an honest server: the
handshakes it samples first, and then one echo after the other. -/
namespace RDrive.EchoPerf
open Crypto Header Duplex Party Bytes Session Program

def maxRecord : Nat := 4096
def handshakePortCap : Nat := 8192
def lh : Nat := 1024 * 1024
def hi : Nat := 14 * 1024 * 1024

/- What comes of a handshake of the first part, with its latency in microseconds. -/
inductive Attempt where
  | ok (elapsedUs : Nat)
  | outOfPorts
  | err

structure Handshakes where
  hss : Nat := 0
  hsf : Nat := 0
  latencies : List Nat := []

/- The attempts of which the time admits the next one. -/
def sampleHandshakes (h : Handshakes) : List Attempt → Handshakes
  | [] => h
  | attempt :: rest =>
    if h.hss < handshakePortCap then
      match attempt with
      | .ok elapsedUs => sampleHandshakes ⟨h.hss + 1,h.hsf,h.latencies ++ [elapsedUs]⟩ rest
      | .outOfPorts => h
      | .err => sampleHandshakes {h with hsf := h.hsf + 1} rest
    else h

/- latencies[(latencies.len() * k) / 100] -/
def percentile (sorted : List Nat) (k : Nat) : Outcome Nat :=
  match sorted[(sorted.length * k) / 100]? with
  | some x => .ok x
  | none => .panic

def divide (n d : Nat) : Outcome Nat := if d = 0 then .panic else .ok (n / d)

structure HandshakeReport where
  hss : Nat
  hsf : Nat
  handshakePerSec : Nat
  p50 : Nat
  p95 : Nat
  p99 : Nat

/- sample_elapsed_ms is in seconds, in spite of its name. -/
def handshakeReport (sampleElapsedMs : Nat) (h : Handshakes) : Outcome HandshakeReport := do
  let handshakePerSec ← divide h.hss sampleElapsedMs
  let latencies := h.latencies.mergeSort fun a b => a ≤ b
  let p50 ← percentile latencies 50
  let p95 ← percentile latencies 95
  let p99 ← percentile latencies 99
  .ok ⟨h.hss,h.hsf,handshakePerSec,p50,p95,p99⟩

/- The figures of the second part; milliseconds are u128. -/
structure Record where
  recordCount : Nat := 0
  payloadAcc : UInt32 := 0
  finalAvgSt : Nat := 0
  finalAvgNt : Nat := 0
  recordProcessTime : List Nat := List.replicate maxRecord 0
  recordRtt : List Nat := List.replicate maxRecord 0
  latencies : List Nat := []
  mismatches : List (String × String) := []

/- Sums wrap, as they do in a release build. -/
def average (record : List Nat) (recordCount : Nat) : Nat :=
  ((record.take (min (recordCount + 1) maxRecord)).sum % 2 ^ 128) / min (recordCount + 1) maxRecord

def Record.add (r : Record) (computePayloadHash : String) (echo : EchoDebugHeader) (rtt : BitVec 128) :
    Record :=
  let recordProcessTime := r.recordProcessTime.set (r.recordCount % maxRecord) echo.processMs.toNat
  let recordRtt := r.recordRtt.set (r.recordCount % maxRecord) rtt.toNat
  let avgSt := average recordProcessTime r.recordCount
  let avgNt := average recordRtt r.recordCount
  { recordCount := r.recordCount + 1
    payloadAcc := r.payloadAcc + echo.payloadLen / (1024 * 1024)
    finalAvgSt := avgSt
    finalAvgNt := avgNt
    recordProcessTime := recordProcessTime
    recordRtt := recordRtt
    latencies := r.latencies ++ [avgNt]
    mismatches := if computePayloadHash ≠ Hex.encode echo.payloadHash.val
      then r.mismatches ++ [(computePayloadHash,Hex.encode echo.payloadHash.val)] else r.mismatches }

structure Report where
  handshakes : HandshakeReport
  recordCount : Nat
  payloadAcc : UInt32
  finalAvgSt : Nat
  finalAvgNt : Nat
  p50 : Nat
  p95 : Nat
  p99 : Nat
  mismatches : List (String × String)

/- .await.context(..)? -/
def context {α : Type} (text : String) (p : Party α) : Party α := do
  match ← p.attempt with
  | .ok a => pure a
  | .error _ => .fail text

def echoRound (S : Session) (r : Record) (randLen : Nat) : Party Record := do
  let randPayload ← draw randLen
  context "Failed to send echo payload" (S.writeEncryptFrameInto randPayload.val)
  let response ← context "Failed to read echo response" S.readEncryptDataInto
  let echo ← EchoDebugHeader.deserialize response
  let rtt ← elapsedMs
  pure (r.add (S.sha256Hex randPayload.val) echo rtt)

/- A round for each payload length drawn before the time is up. -/
def echoLoop (S : Session) (r : Record) : List Nat → Party Record
  | [] => pure r
  | randLen :: rest => do
    let r ← echoRound S r randLen
    echoLoop S r rest

def printStats (handshakes : HandshakeReport) (r : Record) : Party Report := do
  let latencies := r.latencies.mergeSort fun a b => a ≤ b
  let p50 ← percentile latencies 50
  let p95 ← percentile latencies 95
  let p99 ← percentile latencies 99
  shutdown
  pure ⟨handshakes,r.recordCount,r.payloadAcc,r.finalAvgSt,r.finalAvgNt,p50,p95,p99,r.mismatches⟩

/- Both parts; the handshake of the connection that they share comes in between. -/
def clientEchoPerf (S : Session) (sampleElapsedMs : Nat) (attempts : List Attempt) (randLens : List Nat) :
    Party Report := do
  let handshakes ← handshakeReport sampleElapsedMs (sampleHandshakes {} attempts)
  S.writeEncryptFrameInto (Command.serialize .echo)
  let r ← echoLoop S {} randLens
  printStats handshakes r

structure Sample where
  sent : String
  echo : EchoDebugHeader
  rtt : BitVec 128

/- What the calls of a round show: the text of the last frame that went out and of the last
that came in, and the reading of the clock that ends the round. -/
structure Round where
  sent : Bytes
  response : Bytes
  rtt : BitVec 128

structure Rounds where
  sent : Bytes := []
  response : Bytes := []
  rounds : List Round := []

def Rounds.note (S : Session) : Rounds → (c : (Port HostSig).Call) → (Port HostSig).Ret c → Rounds
  | g, .send b, _ => {g with sent := (S.cipher.opened S.sessionKey (b.drop 4)).getD []}
  | g, .recv _, answer => {g with response := S.heard answer}
  | g, .here .elapsedMs, rtt => {g with rounds := g.rounds ++ [⟨g.sent,g.response,rtt⟩]}
  | g, _, _ => g

structure Measured (S : Session) (round : Round) (sample : Sample) : Prop where
  sent : sample.sent = S.sha256Hex round.sent
  echo : EchoDebugHeader.deserialize round.response = .ok sample.echo
  rtt : sample.rtt = round.rtt

def addAll (r : Record) (samples : List Sample) : Record :=
  samples.foldl (fun r s => r.add s.sent s.echo s.rtt) r

def mean (values : List Nat) : Nat :=
  ((Window.last maxRecord values).sum % 2 ^ 128) / min values.length maxRecord

structure Figures (samples : List Sample) (report : Report) : Prop where
  recordCount : report.recordCount = samples.length
  payloadAcc : report.payloadAcc.toNat =
    (samples.map fun s => s.echo.payloadLen.toNat / (1024 * 1024)).sum % 2 ^ 32
  finalAvgSt : report.finalAvgSt = mean (samples.map fun s => s.echo.processMs.toNat)
  finalAvgNt : report.finalAvgNt = mean (samples.map fun s => s.rtt.toNat)
  mismatches : report.mismatches = (samples.filter fun s => s.sent ≠ Hex.encode s.echo.payloadHash.val).map
    fun s => (s.sent,Hex.encode s.echo.payloadHash.val)

/- The averages of the round trips up to each of them: what the percentiles are taken of. -/
def means (samples : List Sample) : List Nat :=
  (List.range samples.length).map fun i => mean ((samples.map fun s => s.rtt.toNat).take (i + 1))

structure Percentiles (values : List Nat) (p50 p95 p99 : Nat) : Prop where
  half : Window.Rank (values.length * 50 / 100) values p50
  most : Window.Rank (values.length * 95 / 100) values p95
  nearly : Window.Rank (values.length * 99 / 100) values p99
  ordered : p50 ≤ p95 ∧ p95 ≤ p99

section
variable {values record : List Nat} {p50 p95 p99 k : Nat} {samples : List Sample} {r : Record} {S : Session}

theorem percentileFound {x : Nat} (found : percentile values k = .ok x) :
    values[(values.length * k) / 100]? = some x := by
  unfold percentile at found
  split at found
  · rename_i y here
    cases Outcome.ok.inj found
    exact here
  · cases found

theorem percentileThere (some_ : values ≠ []) (below : k < 100) : ∃ x, percentile values k = .ok x := by
  have positive := List.length_pos_of_ne_nil some_
  have inside : values.length * k / 100 < values.length := by
    rw [Nat.div_lt_iff_lt_mul (by decide)]
    exact Nat.mul_lt_mul_of_pos_left below positive
  unfold percentile
  rw [List.getElem?_eq_getElem inside]
  exact ⟨_,rfl⟩

theorem percentilesOf (half : percentile (values.mergeSort fun a b => a ≤ b) 50 = .ok p50)
    (most : percentile (values.mergeSort fun a b => a ≤ b) 95 = .ok p95)
    (nearly : percentile (values.mergeSort fun a b => a ≤ b) 99 = .ok p99) :
    Percentiles values p50 p95 p99 := by
  have half := percentileFound half
  have most := percentileFound most
  have nearly := percentileFound nearly
  rw [List.length_mergeSort] at half most nearly
  exact ⟨Window.sortedRank half,Window.sortedRank most,Window.sortedRank nearly,
    Window.sortedMonotone half most (Nat.div_le_div_right (Nat.mul_le_mul_left _ (by decide))),
    Window.sortedMonotone most nearly (Nat.div_le_div_right (Nat.mul_le_mul_left _ (by decide)))⟩

structure Sampled (h : Handshakes) (tried : Nat) : Prop where
  hss : h.hss = h.latencies.length
  capped : h.hss ≤ handshakePortCap
  tried : h.hss + h.hsf ≤ tried

theorem sampledAll {h : Handshakes} {tried : Nat} (attempts : List Attempt) (sampled : Sampled h tried) :
    Sampled (sampleHandshakes h attempts) (tried + attempts.length) := by
  induction attempts generalizing h tried with
  | nil => exact sampled
  | cons attempt rest ih =>
    have more : tried + (attempt :: rest).length = tried + 1 + rest.length := by
      rw [List.length_cons]
      omega
    obtain ⟨counted,capped,within⟩ := sampled
    have same : Sampled h (tried + (attempt :: rest).length) := ⟨counted,capped,by omega⟩
    unfold sampleHandshakes
    split
    · rename_i room
      cases attempt with
      | ok elapsedUs =>
        rw [more]
        refine ih ⟨?_,room,?_⟩
        · rw [List.length_append,List.length_singleton,← counted]
        · dsimp only
          omega
      | outOfPorts => exact same
      | err =>
        rw [more]
        refine ih ⟨counted,capped,?_⟩
        dsimp only
        omega
    · exact same

theorem averageHeld {count : Nat} (held : Window.Holds maxRecord record values)
    (counted : values.length = count + 1) : average record count = mean values := by
  unfold average mean
  rw [← counted,(Window.heldPerm held).sum_nat]

structure Kept (samples : List Sample) (r : Record) : Prop where
  recordCount : r.recordCount = samples.length
  payloadAcc : r.payloadAcc.toNat =
    (samples.map fun s => s.echo.payloadLen.toNat / (1024 * 1024)).sum % 2 ^ 32
  finalAvgSt : r.finalAvgSt = mean (samples.map fun s => s.echo.processMs.toNat)
  finalAvgNt : r.finalAvgNt = mean (samples.map fun s => s.rtt.toNat)
  recordProcessTime : Window.Holds maxRecord r.recordProcessTime (samples.map fun s => s.echo.processMs.toNat)
  recordRtt : Window.Holds maxRecord r.recordRtt (samples.map fun s => s.rtt.toNat)
  latencies : r.latencies = means samples
  mismatches : r.mismatches = (samples.filter fun s => s.sent ≠ Hex.encode s.echo.payloadHash.val).map
    fun s => (s.sent,Hex.encode s.echo.payloadHash.val)

theorem keptNothing : Kept [] {} := by
  have empty : Window.Holds maxRecord (List.replicate maxRecord 0) ([] : List Nat) := by
    have held := Window.holdsNothing (List.replicate maxRecord 0)
    rwa [List.length_replicate] at held
  have none_ : mean [] = 0 := by simp [mean,Window.last]
  exact ⟨rfl,rfl,none_.symm,none_.symm,empty,empty,rfl,rfl⟩

theorem recordedHere (held : Window.Holds maxRecord record values) (x : Nat) :
    Window.Holds maxRecord (record.set (values.length % maxRecord) x) (values ++ [x]) := by
  have next := Window.recordHolds (by decide) held x
  unfold Window.record at next
  rwa [held.places] at next

theorem meansNext (samples : List Sample) (s : Sample) :
    means (samples ++ [s]) = means samples ++ [mean ((samples ++ [s]).map fun s => s.rtt.toNat)] := by
  unfold means
  rw [List.length_append,List.length_singleton,List.range_succ,List.map_append,List.map_singleton]
  refine congrArg₂ (· ++ ·) ?_ ?_
  · apply List.map_congr_left
    intro i member
    have inside := List.mem_range.mp member
    rw [List.map_append,List.take_append_of_le_length (by rw [List.length_map]; omega)]
  · rw [List.take_of_length_le (by simp)]

theorem keptNext (kept : Kept samples r) (s : Sample) :
    Kept (samples ++ [s]) (r.add s.sent s.echo s.rtt) := by
  have process := recordedHere kept.recordProcessTime s.echo.processMs.toNat
  have rtt := recordedHere kept.recordRtt s.rtt.toNat
  rw [List.length_map,← kept.recordCount] at process rtt
  have counted : ∀ f : Sample → Nat, (samples.map f ++ [f s]).length = r.recordCount + 1 := by
    simp [kept.recordCount]
  have avgSt := averageHeld process (counted _)
  have avgNt := averageHeld rtt (counted _)
  have both : ∀ f : Sample → Nat, (samples ++ [s]).map f = samples.map f ++ [f s] := by simp
  refine ⟨?_,?_,?_,?_,?_,?_,?_,?_⟩
  · simp [Record.add,kept.recordCount]
  · have mebibyte : (1024 * 1024 : UInt32).toNat = 1024 * 1024 := rfl
    simp only [Record.add,UInt32.toNat_add,UInt32.toNat_div,mebibyte,kept.payloadAcc,List.map_append,
      List.map_cons,List.map_nil,List.sum_append,List.sum_cons,List.sum_nil,Nat.add_zero]
    exact Nat.mod_add_mod _ _ _
  · rw [both]
    exact avgSt
  · rw [both]
    exact avgNt
  · rw [both]
    exact process
  · rw [both]
    exact rtt
  · rw [meansNext,both,← kept.latencies]
    exact congrArg (r.latencies ++ [·]) avgNt
  · simp only [Record.add,kept.mismatches,List.filter_append,List.map_append]
    split
    · rename_i odd
      simp [odd]
    · rename_i same
      simp [Decidable.not_not.mp same]

theorem keptAll (kept : Kept samples r) (more : List Sample) : Kept (samples ++ more) (addAll r more) := by
  induction more generalizing samples r with
  | nil => rwa [List.append_nil]
  | cons s rest ih =>
    have next := ih (keptNext kept s)
    rwa [List.append_assoc] at next

variable {σ : Type} {env : Env (Port HostSig) σ} {s t : σ} {g g' : Rounds} {randLens : List Nat}

theorem liftedOk {α : Type} {x : Outcome α} {a : α}
    (ran : Reaches env (liftM x : Party α) s (.done (.ok a)) t) : x = .ok a ∧ t = s := by
  cases ran
  exact ⟨rfl,rfl⟩

theorem contextReached {α : Type} {text : String} {p : Party α} {a : α}
    (ran : Reaches env (context text p) s (.done (.ok a)) t) : Reaches env p s (.done (.ok a)) t := by
  unfold context at ran
  obtain ⟨answer,u,first,later⟩ := reachesParts ran
  obtain ⟨p',reached,ended⟩ := reachesAttempt first
  cases answer with
  | error message => cases later
  | ok b =>
    cases later
    rwa [attemptOk ended.symm] at reached

theorem hereNoted {c : HostCall} {r : HostSig.Ret c}
    (ran : Reaches (noting (Rounds.note S)) (here c) g (.done (.ok r)) g') :
    g' = Rounds.note S g (.here c) r := by
  obtain _ | ⟨noted,last⟩ := ran
  cases last
  exact noted

theorem frameSent {data : Bytes} (ran : Reaches (noting (Rounds.note S)) (S.writeEncryptFrameInto data) g
    (.done (.ok ())) g') : g' = {g with sent := data} := by
  unfold writeEncryptFrameInto at ran
  split at ran
  · cases ran
  obtain ⟨nonce,u,drawn,sent⟩ := reachesParts ran
  obtain rfl := hereNoted drawn
  obtain _ | ⟨rfl,last⟩ := sent
  have text : S.cipher.opened S.sessionKey ((Frame.frame S.cipher S.sessionKey nonce data).drop 4) =
      some data := by
    unfold Frame.frame
    rw [List.drop_left' (Frame.be32Length _)]
    exact S.cipher.openedSealed S.sessionKey nonce data
  rename_i answer
  cases answer with
  | error fault => cases last
  | ok =>
    cases last
    simp only [Rounds.note,text,Option.getD_some]

theorem responseRead {response : Bytes} (ran : Reaches (noting (Rounds.note S)) S.readEncryptDataInto g
    (.done (.ok response)) g') : g' = {g with response := response} := by
  unfold readEncryptDataInto at ran
  obtain ⟨len,u,first,ran⟩ := reachesParts ran
  unfold readFrameLength at first
  obtain ⟨lenBuf,v,asked,admitted⟩ := reachesParts first
  obtain _ | ⟨rfl,last⟩ := asked
  cases last
  have same : u = {g with response := u.response} := by
    cases lenBuf with
    | error fault => cases fault <;> cases admitted
    | ok buf => rw [(liftedOk admitted).2]; rfl
  split at ran
  · cases ran
  obtain ⟨box,w,taken,opened⟩ := reachesParts ran
  obtain _ | ⟨rfl,last⟩ := taken
  rename_i answer
  cases answer with
  | error fault => cases last
  | ok b =>
    cases last
    cases found : S.cipher.opened S.sessionKey box.val with
    | none =>
      rw [found] at opened
      cases opened
    | some text =>
      rw [found] at opened
      cases opened
      rw [same]
      simp only [Rounds.note,Session.heard,found,Option.getD_some]

theorem roundAdds {r r' : Record} {randLen : Nat}
    (ran : Reaches (noting (Rounds.note S)) (echoRound S r randLen) g (.done (.ok r')) g') :
    ∃ round sample, g'.rounds = g.rounds ++ [round] ∧ round.sent.length = randLen ∧
      Measured S round sample ∧ r' = r.add sample.sent sample.echo sample.rtt := by
  unfold echoRound at ran
  obtain ⟨randPayload,g₁,drawn,ran⟩ := reachesParts ran
  obtain ⟨_,g₂,sent,ran⟩ := reachesParts ran
  obtain ⟨response,g₃,answered,ran⟩ := reachesParts ran
  obtain ⟨echo,g₄,read,ran⟩ := reachesParts ran
  obtain ⟨rtt,g₅,clocked,ran⟩ := reachesParts ran
  cases ran
  obtain ⟨found,rfl⟩ := liftedOk read
  rw [hereNoted clocked,responseRead (contextReached answered),frameSent (contextReached sent),
    hereNoted drawn]
  exact ⟨⟨randPayload.val,response,rtt⟩,⟨S.sha256Hex randPayload.val,echo,rtt⟩,rfl,randPayload.property,
    ⟨rfl,found,rfl⟩,rfl⟩

theorem loopAdds {r r' : Record}
    (ran : Reaches (noting (Rounds.note S)) (echoLoop S r randLens) g (.done (.ok r')) g') :
    ∃ (rounds : List Round) (samples : List Sample), g'.rounds = g.rounds ++ rounds ∧
      rounds.map (fun round => round.sent.length) = randLens ∧ List.Forall₂ (Measured S) rounds samples ∧
      r' = addAll r samples := by
  induction randLens generalizing r g with
  | nil =>
    cases ran
    exact ⟨[],[],(List.append_nil _).symm,rfl,.nil,rfl⟩
  | cons randLen rest ih =>
    obtain ⟨next,u,first,later⟩ := reachesParts ran
    obtain ⟨round,sample,noted,size,measured,rfl⟩ := roundAdds first
    obtain ⟨rounds,samples,more,sizes,others,rfl⟩ := ih later
    refine ⟨round :: rounds,sample :: samples,?_,?_,.cons measured others,rfl⟩
    · rw [more,noted,List.append_assoc,List.singleton_append]
    · rw [List.map_cons,size,sizes]

structure HandshakeFigures (sampleElapsedMs : Nat) (h : Handshakes) (report : HandshakeReport) : Prop where
  elapsed : sampleElapsedMs ≠ 0
  hss : report.hss = h.latencies.length
  capped : report.hss ≤ handshakePortCap
  hsf : report.hsf = h.hsf
  handshakePerSec : report.handshakePerSec = h.latencies.length / sampleElapsedMs
  percentiles : Percentiles h.latencies report.p50 report.p95 report.p99

theorem handshakesReported {n tried : Nat} {h : Handshakes} {report : HandshakeReport}
    (sampled : Sampled h tried) (reported : handshakeReport n h = .ok report) :
    HandshakeFigures n h report := by
  unfold handshakeReport at reported
  simp only [Outcome.bindIsOk] at reported
  obtain ⟨perSec,divided,p50,half,p95,most,p99,nearly,ended⟩ := reported
  unfold divide at divided
  split at divided
  · cases divided
  · rename_i elapsed
    cases Outcome.ok.inj divided
    cases Outcome.ok.inj ended
    exact ⟨elapsed,sampled.hss,sampled.capped,rfl,congrArg (· / n) sampled.hss,percentilesOf half most nearly⟩

theorem printed {handshakes : HandshakeReport} {report : Report} (kept : Kept samples r)
    (ran : Reaches env (printStats handshakes r) s (.done (.ok report)) t) : report.handshakes = handshakes ∧
      Figures samples report ∧ Percentiles (means samples) report.p50 report.p95 report.p99 := by
  unfold printStats at ran
  obtain ⟨p50,s₁,half,ran⟩ := reachesParts ran
  obtain ⟨p95,s₂,most,ran⟩ := reachesParts ran
  obtain ⟨p99,s₃,nearly,ran⟩ := reachesParts ran
  obtain ⟨_,s₄,-,ran⟩ := reachesParts ran
  cases ran
  refine ⟨rfl,⟨kept.recordCount,kept.payloadAcc,kept.finalAvgSt,kept.finalAvgNt,kept.mismatches⟩,?_⟩
  have ranks := percentilesOf (liftedOk half).1 (liftedOk most).1 (liftedOk nearly).1
  rwa [kept.latencies] at ranks

theorem printStatsStays {handshakes : HandshakeReport} {report : Report}
    (ran : Reaches (noting (Rounds.note S)) (printStats handshakes r) g (.done (.ok report)) g') :
    g' = g := by
  unfold printStats at ran
  obtain ⟨p50,g₁,half,ran⟩ := reachesParts ran
  obtain ⟨p95,g₂,most,ran⟩ := reachesParts ran
  obtain ⟨p99,g₃,nearly,ran⟩ := reachesParts ran
  obtain ⟨_,g₄,closed,ended⟩ := reachesParts ran
  cases ended
  unfold shutdown at closed
  obtain ⟨answer,g₅,asked,closed⟩ := reachesParts closed
  have same : g' = g₅ := by rcases answer with _ | _ <;> cases closed; rfl
  rw [same,hereNoted asked,(liftedOk nearly).2,(liftedOk most).2,(liftedOk half).2]
  rfl

/- Whatever is answered: a report is of the rounds there were, at least one, as they were sent,
read and timed, and each of its figures is what it says. The last 4096 rounds count in the
averages. -/
theorem reportExact {sampleElapsedMs : Nat} {attempts : List Attempt} {report : Report}
    (ran : Reaches (noting (Rounds.note S)) (clientEchoPerf S sampleElapsedMs attempts randLens) {}
      (.done (.ok report)) g) :
    HandshakeFigures sampleElapsedMs (sampleHandshakes {} attempts) report.handshakes ∧
      g.rounds.map (fun round => round.sent.length) = randLens ∧ randLens ≠ [] ∧
      ∃ samples : List Sample, List.Forall₂ (Measured S) g.rounds samples ∧ Figures samples report ∧
        Percentiles (means samples) report.p50 report.p95 report.p99 := by
  unfold clientEchoPerf at ran
  obtain ⟨handshakes,g₁,shaken,ran⟩ := reachesParts ran
  obtain ⟨_,g₂,requested,ran⟩ := reachesParts ran
  obtain ⟨r,g₃,looped,ran⟩ := reachesParts ran
  obtain ⟨reported,rfl⟩ := liftedOk shaken
  obtain rfl := frameSent requested
  obtain ⟨rounds,samples,noted,sizes,measured,rfl⟩ := loopAdds looped
  have kept := keptAll keptNothing samples
  rw [List.nil_append] at kept noted
  obtain ⟨rfl,figures,percentiles⟩ := printed kept ran
  obtain rfl := printStatsStays ran
  have sampled : Sampled {} 0 := ⟨rfl,Nat.zero_le _,Nat.le_refl _⟩
  have first := handshakesReported (sampledAll attempts sampled) reported
  rw [← noted] at sizes measured
  refine ⟨first,sizes,?_,samples,measured,figures,percentiles⟩
  rintro rfl
  rw [List.map_eq_nil_iff.mp sizes] at measured
  cases measured
  cases percentiles.half.member

end

def echoMeeting (S : Session) (client server : Host) (sampleElapsedMs : Nat) (attempts : List Attempt)
    (randLens : List Nat) : Link HostSig Host Host Report Unit :=
  ⟨⟨clientEchoPerf S sampleElapsedMs attempts randLens,client⟩,⟨S.handleConnection,server⟩,[],[]⟩

/- A machine that has drawn so many times and looked at its clock so many times since. -/
def spent (h : Host) (draws ticks : Nat) : Host := {h with
  drawn := h.drawn + draws
  ticks := h.ticks + ticks}

/- The rounds of two machines: what the client draws, the server's echo of it, and what the
client's clock says then. Each round takes a payload and a nonce there and a nonce here. -/
def exchanged (S : Session) (client server : Host) : List Nat → List Sample
  | [] => []
  | randLen :: rest =>
    let payload := (client.random client.drawn randLen).val
    ⟨S.sha256Hex payload,S.echoOf payload (server.millis server.ticks),client.millis client.ticks⟩ ::
      exchanged S (spent client 2 1) (spent server 1 1) rest

def Returned (S : Session) (randLen : Nat) (sample : Sample) : Prop :=
  ∃ payload : Bytes, payload.length = randLen ∧ sample.sent = S.sha256Hex payload ∧
    sample.echo.payloadLen = randLen.toUInt32 ∧ sample.echo.payloadHash.val = S.hashes.sha256 payload

theorem exchangedReturned (S : Session) (client server : Host) (randLens : List Nat) :
    List.Forall₂ (Returned S) randLens (exchanged S client server randLens) := by
  induction randLens generalizing client server with
  | nil => exact .nil
  | cons randLen rest ih =>
    have size := (client.random client.drawn randLen).property
    exact .cons ⟨_,size,rfl,congrArg Nat.toUInt32 size,rfl⟩ (ih _ _)

section
variable {S : Session} {h : Host} {r : Record} {randLen : Nat} {randLens : List Nat}

theorem contextAdvances {α : Type} {p : Party α} {a : α} {text : String} {input output t}
    (advanced : Advances Host.handle p h input output (.done (.ok a)) t) :
    Advances Host.handle (context text p) h input output (.done (.ok a)) t :=
  advancesLast (advancesAttempt advanced) (.rest _ _)

theorem payloadFits (short : randLen ≤ hi) : nonceLen + randLen + tagLen ≤ Frame.maxFrameLength ∧
    randLen ≤ Frame.u32Max := by
  unfold hi at short
  unfold nonceLen tagLen Frame.maxFrameLength Frame.u32Max
  omega

theorem echoFits (echo : EchoDebugHeader) :
    nonceLen + echo.serialize.length + tagLen ≤ Frame.maxFrameLength := by
  have len := Postcard.varintLength (n := echo.payloadLen.toNat) (k := 4)
    (Nat.lt_of_lt_of_le echo.payloadLen.toNat_lt (by decide))
  have time := Postcard.varintLength (n := echo.processMs.toNat) (k := 18)
    (Nat.lt_of_lt_of_le echo.processMs.isLt (by decide))
  have hash := echo.payloadHash.property
  simp only [EchoDebugHeader.serialize,List.length_append]
  unfold nonceLen tagLen Frame.maxFrameLength
  omega

def awaitEcho (S : Session) (r : Record) (randPayload : Bytes) : Party Record := do
  let response ← context "Failed to read echo response" S.readEncryptDataInto
  let echo ← EchoDebugHeader.deserialize response
  let rtt ← elapsedMs
  pure (r.add (S.sha256Hex randPayload) echo rtt)

theorem payloadSent (r : Record) (short : randLen ≤ hi) : ∃ nonce : Nonce,
    Advances Host.handle (echoRound S r randLen) h []
      (Frame.frame S.cipher S.sessionKey nonce (h.random h.drawn randLen).val)
      (awaitEcho S r (h.random h.drawn randLen).val) (spent h 2 0) := by
  obtain ⟨nonce,sent⟩ := frameWritten (S := S) (h := {h with drawn := h.drawn + 1})
    (h.random h.drawn randLen).val (by rw [(h.random h.drawn randLen).property]; exact (payloadFits short).2)
  refine ⟨nonce,?_⟩
  unfold echoRound
  exact advancesQuiet (Host.drawAdvances randLen) (advancesLast (contextAdvances sent) (.rest _ _))

theorem echoTaken (r : Record) (payload : Bytes) (echo : EchoDebugHeader) (nonce : Nonce) :
    Advances Host.handle (awaitEcho S r payload) h
      (Frame.frame S.cipher S.sessionKey nonce echo.serialize) []
      (.done (.ok (r.add (S.sha256Hex payload) echo (h.millis h.ticks)))) (spent h 0 1) := by
  unfold awaitEcho
  refine advancesTaken (contextAdvances (frameTaken (echoFits echo))) ?_
  rw [echoRead,Program.liftDone,Program.bindDone]
  exact .here (.rest _ _)

theorem longPayload {payload : Bytes} (long : lh ≤ payload.length) :
    handleEchoPerf.quit.contains payload = false := by
  have words : ∀ word ∈ handleEchoPerf.quit, word.length ≤ 4 := by decide
  rw [List.contains_eq_mem,decide_eq_false_iff_not]
  intro member
  have := words payload member
  unfold lh at long
  omega

theorem echoAnswered {payload : Bytes} (long : lh ≤ payload.length) (short : payload.length ≤ hi)
    (nonce : Nonce) (rounds : Nat) : ∃ other : Nonce, Advances Host.handle (S.handleEchoPerf (rounds + 1)) h
      (Frame.frame S.cipher S.sessionKey nonce payload)
      (Frame.frame S.cipher S.sessionKey other (S.echoOf payload (h.millis h.ticks)).serialize)
      (S.handleEchoPerf rounds) (spent h 1 1) := by
  have small := echoFits (S.echoOf payload (h.millis h.ticks))
  obtain ⟨other,sent⟩ := frameWritten (S := S) (h := {h with ticks := h.ticks + 1})
    (S.echoOf payload (h.millis h.ticks)).serialize
    (by unfold Frame.maxFrameLength at small; unfold Frame.u32Max; omega)
  refine ⟨other,?_⟩
  rw [handleEchoPerf]
  refine advancesTaken (advancesAttempt (frameTaken (payloadFits short).1)) ?_
  simp only [longPayload long,Bool.false_eq_true,if_false]
  have clocked : Advances Host.handle elapsedMs h [] [] (.done (.ok (h.millis h.ticks)))
      {h with ticks := h.ticks + 1} := .here (.rest _ _)
  exact advancesQuiet clocked (advancesLast sent (.rest _ _))

theorem roundsMeet (sizes : ∀ n ∈ randLens, lh ≤ n ∧ n ≤ hi) (r : Record) (rounds : Nat)
    (client server : Host) (f : Record → Party Report) :
    ∃ client' server', Reach Host.handle Host.handle
      ⟨⟨echoLoop S r randLens >>= f,client⟩,⟨S.handleEchoPerf (randLens.length + rounds),server⟩,[],[]⟩
      ⟨⟨f (addAll r (exchanged S client server randLens)),client'⟩,
        ⟨S.handleEchoPerf rounds,server'⟩,[],[]⟩ := by
  induction randLens generalizing r client server with
  | nil =>
    refine ⟨client,server,?_⟩
    rw [List.length_nil,Nat.zero_add]
    exact Runs.leadsRefl _
  | cons randLen rest ih =>
    obtain ⟨⟨long,short⟩,others⟩ := List.forall_mem_cons.mp sizes
    obtain ⟨nonce,sent⟩ := payloadSent (S := S) (h := client) r short
    let payload := (client.random client.drawn randLen).val
    have size : payload.length = randLen := (client.random client.drawn randLen).property
    rw [← size] at long short
    obtain ⟨other,answered⟩ := echoAnswered (S := S) (h := server) long short nonce (rest.length + rounds)
    let echo := S.echoOf payload (server.millis server.ticks)
    let next := r.add (S.sha256Hex payload) echo (client.millis client.ticks)
    have taken := echoTaken (S := S) (h := spent client 2 0) r payload echo other
    obtain ⟨client',server',later⟩ := ih others next (spent client 2 1) (spent server 1 1)
    have whole : Advances Host.handle (awaitEcho S r payload >>= fun r => echoLoop S r rest)
        (spent client 2 0) (Frame.frame S.cipher S.sessionKey other echo.serialize) []
        (echoLoop S next rest) (spent client 2 1) := advancesTaken taken (.rest _ _)
    refine ⟨client',server',?_⟩
    rw [List.length_cons,Nat.add_right_comm]
    exact Runs.leadsTrans (leftTurn (advancesBind (advancesBind sent))) (Runs.leadsTrans (rightTurn answered)
      (Runs.leadsTrans (leftTurn (advancesBind whole)) later))

theorem eofText : "Read error: early eof".toLower.contains "eof" = true ∧
    "Read error: early eof".contains "Timeout" = false := by
  constructor
  · have lower : "Read error: early eof".toLower = "Read error: early eof".map Char.toLower := rfl
    have small : "Read error: early eof".toLower.toList = "read error: early eof".toList := by
      rw [lower,String.toList_map]
      decide
    rw [String.contains_string_iff,small]
    exact ⟨"read error: early ".toList,[],by decide⟩
  · rw [String.contains_string_eq_false_iff]
    decide

theorem echoLeft (rounds : Nat) : ∃ next, S.handleEchoPerf (rounds + 1) = .call (PortCall.recv 4) next ∧
    next (.error .eof) = .done (.ok ()) := by
  refine ⟨_,rfl,?_⟩
  have gone : handleEchoPerf.gone.any
      (fun pattern => "Read error: early eof".toLower.contains pattern) = true :=
    List.any_eq_true.mpr ⟨"eof",List.mem_cons_self,eofText.1⟩
  exact if_pos gone

theorem connectionLeft (S : Session) : ∃ next, S.handleConnection = .call (PortCall.recv 4) next ∧
    next (.error .eof) = .done (.ok ()) := by
  refine ⟨_,rfl,?_⟩
  have gone : ["eof","early eof","unexpected eof"].any
      (fun pattern => "Read error: early eof".toLower.contains pattern) = true :=
    List.any_eq_true.mpr ⟨"eof",List.mem_cons_self,eofText.1⟩
  have slow : ¬ "Read error: early eof".contains "Timeout" = true := by
    rw [eofText.2]
    decide
  exact (if_neg slow).trans (if_pos gone)

variable {client server : Host} {sampleElapsedMs : Nat} {attempts : List Attempt}

theorem echoRequested {handshakes : HandshakeReport} (enabled : S.enableEcho = true)
    (shaken : handshakeReport sampleElapsedMs (sampleHandshakes {} attempts) = .ok handshakes) :
    Reach Host.handle Host.handle (echoMeeting S client server sampleElapsedMs attempts randLens)
      ⟨⟨echoLoop S {} randLens >>= printStats handshakes,spent client 1 0⟩,
        ⟨S.handleEchoPerf S.echoRounds,server⟩,[],[]⟩ := by
  have one : (Command.serialize .echo).length ≤ 1 := Postcard.varintLength (k := 0) (by decide)
  have small : nonceLen + (Command.serialize .echo).length + tagLen ≤ Frame.maxFrameLength := by
    unfold nonceLen tagLen Frame.maxFrameLength
    omega
  obtain ⟨nonce,sent⟩ := frameWritten (S := S) (h := client) (Command.serialize .echo)
    (by unfold Frame.u32Max; omega)
  have asked : Advances Host.handle (clientEchoPerf S sampleElapsedMs attempts randLens) client []
      (Frame.frame S.cipher S.sessionKey nonce (Command.serialize .echo))
      (echoLoop S {} randLens >>= printStats handshakes) (spent client 1 0) := by
    unfold clientEchoPerf
    rw [shaken,Program.liftDone,Program.bindDone]
    exact advancesLast sent (.rest _ _)
  have dispatched : Advances Host.handle (S.dispatch .echo) server [] []
      (S.handleEchoPerf S.echoRounds) server := by
    unfold dispatch
    rw [if_pos enabled]
    exact .rest _ _
  exact Runs.leadsTrans (leftTurn asked) (rightTurn (commandTaken small dispatched))

theorem percentilesThere {values : List Nat} (some_ : values ≠ []) : ∃ p50 p95 p99,
    percentile (values.mergeSort fun a b => a ≤ b) 50 = .ok p50 ∧
    percentile (values.mergeSort fun a b => a ≤ b) 95 = .ok p95 ∧
    percentile (values.mergeSort fun a b => a ≤ b) 99 = .ok p99 := by
  have sorted : (values.mergeSort fun a b => a ≤ b) ≠ [] := by
    rw [← List.length_pos_iff,List.length_mergeSort,List.length_pos_iff]
    exact some_
  obtain ⟨p50,half⟩ := percentileThere sorted (k := 50) (by decide)
  obtain ⟨p95,most⟩ := percentileThere sorted (k := 95) (by decide)
  obtain ⟨p99,nearly⟩ := percentileThere sorted (k := 99) (by decide)
  exact ⟨p50,p95,p99,half,most,nearly⟩

theorem statsPrinted (handshakes : HandshakeReport) {samples : List Sample} (kept : Kept samples r)
    (some_ : samples ≠ []) : ∃ report, Advances Host.handle (printStats handshakes r) h [] []
      (.done (.ok report)) h ∧ report.handshakes = handshakes ∧ Figures samples report ∧
        Percentiles (means samples) report.p50 report.p95 report.p99 := by
  have latencies : r.latencies ≠ [] := by
    rw [kept.latencies,← List.length_pos_iff,means,List.length_map,List.length_range,List.length_pos_iff]
    exact some_
  obtain ⟨p50,p95,p99,half,most,nearly⟩ := percentilesThere latencies
  have ranks := percentilesOf half most nearly
  rw [kept.latencies] at ranks
  refine ⟨⟨handshakes,r.recordCount,r.payloadAcc,r.finalAvgSt,r.finalAvgNt,p50,p95,p99,r.mismatches⟩,?_,rfl,
    ⟨kept.recordCount,kept.payloadAcc,kept.finalAvgSt,kept.finalAvgNt,kept.mismatches⟩,ranks⟩
  unfold printStats
  simp only [half,most,nearly,Program.liftDone,Program.bindDone]
  exact advancesQuiet Host.shutdownAdvances (.rest _ _)

theorem statsMissing (handshakes : HandshakeReport) : printStats handshakes {} = .done .panic := by
  unfold printStats
  rw [List.mergeSort_nil]
  rfl

theorem returnedMatch {samples : List Sample} (returned : List.Forall₂ (Returned S) randLens samples) :
    (samples.filter fun s => s.sent ≠ Hex.encode s.echo.payloadHash.val) = [] := by
  induction returned with
  | nil => rfl
  | cons own _ ih =>
    obtain ⟨payload,-,sent,-,hash⟩ := own
    rw [List.filter_cons_of_neg (by simp [sent,hash,Session.sha256Hex]),ih]

def Nothing (sampleElapsedMs : Nat) (attempts : List Attempt) (randLens : List Nat) : Prop :=
  sampleElapsedMs = 0 ∨ (sampleHandshakes {} attempts).latencies = [] ∨ randLens = []

theorem shakenOr (sampleElapsedMs : Nat) (h : Handshakes) :
    (sampleElapsedMs ≠ 0 ∧ h.latencies ≠ [] ∧ ∃ report, handshakeReport sampleElapsedMs h = .ok report) ∨
      (sampleElapsedMs = 0 ∨ h.latencies = []) ∧ handshakeReport sampleElapsedMs h = .panic := by
  unfold handshakeReport divide
  rcases Classical.em (sampleElapsedMs = 0) with zero | elapsed
  · exact .inr ⟨.inl zero,by rw [if_pos zero]; rfl⟩
  rw [if_neg elapsed]
  rcases Classical.em (h.latencies = []) with none_ | some_
  · refine .inr ⟨.inr none_,?_⟩
    rw [none_,List.mergeSort_nil]
    rfl
  · obtain ⟨p50,p95,p99,half,most,nearly⟩ := percentilesThere some_
    refine .inl ⟨elapsed,some_,?_⟩
    simp only [half,most,nearly,Outcome.bindOk]
    exact ⟨_,rfl⟩

/- In every order of steps: the server ends well, and the client panics if it has nothing to take the
percentiles of, and otherwise reports the rounds, each echo with its own payload's length and hash.
The client has drawn one nonce before the first of them. -/
/- The server reads the end of the stream once the client is done. -/
theorem meetingEnds {start final : Link HostSig Host Host Report Unit} {result : Outcome Report}
    {waiting : Party Unit} {c s : Host} (complete : Complete Host.handle Host.handle start final)
    (reached : Reach Host.handle Host.handle start ⟨⟨.done result,c⟩,⟨waiting,s⟩,[],[]⟩)
    (left : ∃ next, waiting = .call (PortCall.recv 4) next ∧ next (.error .eof) = .done (.ok ())) :
    final.left.program = .done result ∧ final.right.program = .done (.ok ()) := by
  obtain ⟨next,rfl,ended⟩ := left
  have closed : Reach Host.handle Host.handle ⟨⟨.done result,c⟩,⟨.call (PortCall.recv 4) next,s⟩,[],[]⟩
      ⟨⟨.done result,c⟩,⟨next (.error .eof),s⟩,[],[]⟩ := rightEof rfl (by decide)
  rw [ended] at closed
  have same := completeUnique _ _ ⟨Runs.leadsTrans reached closed,finishedStuck _ _ rfl rfl⟩ complete
  rw [← same]
  exact ⟨rfl,rfl⟩

theorem echoesBack (enabled : S.enableEcho = true) (sizes : ∀ n ∈ randLens, lh ≤ n ∧ n ≤ hi)
    (room : randLens.length < S.echoRounds) {final : Link HostSig Host Host Report Unit}
    (complete : Complete Host.handle Host.handle
      (echoMeeting S client server sampleElapsedMs attempts randLens) final) :
    final.right.program = .done (.ok ()) ∧
      (Nothing sampleElapsedMs attempts randLens ∧ final.left.program = .done .panic ∨
        ∃ report samples, final.left.program = .done (.ok report) ∧
          samples = exchanged S (spent client 1 0) server randLens ∧
          List.Forall₂ (Returned S) randLens samples ∧ Figures samples report ∧ report.mismatches = [] ∧
          HandshakeFigures sampleElapsedMs (sampleHandshakes {} attempts) report.handshakes ∧
          Percentiles (means samples) report.p50 report.p95 report.p99) := by
  rcases shakenOr sampleElapsedMs (sampleHandshakes {} attempts) with ⟨elapsed,some_,handshakes,shaken⟩ |
    ⟨nothing,panicked⟩
  · have requested := @echoRequested S randLens client server _ _ _ enabled shaken
    obtain ⟨rounds,rounds_⟩ := Nat.exists_eq_add_of_lt room
    rw [rounds_,Nat.add_assoc] at requested
    obtain ⟨last,keeper,echoed⟩ := roundsMeet sizes {} (rounds + 1) (spent client 1 0)
      server (printStats handshakes)
    have reached := Runs.leadsTrans requested echoed
    have kept := keptAll keptNothing (exchanged S (spent client 1 0) server randLens)
    have returned := exchangedReturned S (spent client 1 0) server randLens
    rw [List.nil_append] at kept
    rcases Classical.em (randLens = []) with rfl | some_
    · rw [exchanged,addAll,List.foldl_nil,statsMissing] at reached
      obtain ⟨left,right⟩ := meetingEnds complete reached (echoLeft rounds)
      exact ⟨right,.inl ⟨.inr (.inr rfl),left⟩⟩
    · have samples : exchanged S (spent client 1 0) server randLens ≠ [] := by
        intro none_
        rw [none_] at returned
        cases returned
        contradiction
      obtain ⟨report,printed,same,figures,percentiles⟩ := statsPrinted (h := last) handshakes kept samples
      obtain ⟨left,right⟩ := meetingEnds complete (Runs.leadsTrans reached (leftTurn printed))
        (echoLeft rounds)
      have sampled : Sampled {} 0 := ⟨rfl,Nat.zero_le _,Nat.le_refl _⟩
      have shaken := handshakesReported (sampledAll attempts sampled) shaken
      refine ⟨right,.inr ⟨report,_,left,rfl,returned,figures,?_,same ▸ shaken,percentiles⟩⟩
      rw [figures.mismatches,returnedMatch returned,List.map_nil]
  · have stopped : clientEchoPerf S sampleElapsedMs attempts randLens = .done .panic := by
      unfold clientEchoPerf
      rw [panicked]
      rfl
    have start : Reach Host.handle Host.handle (echoMeeting S client server sampleElapsedMs attempts randLens)
        ⟨⟨.done .panic,client⟩,⟨S.handleConnection,server⟩,[],[]⟩ := by
      rw [echoMeeting,stopped]
      exact Runs.leadsRefl _
    obtain ⟨left,right⟩ := meetingEnds complete start (connectionLeft S)
    exact ⟨right,.inl ⟨nothing.elim .inl fun none_ => .inr (.inl none_),left⟩⟩

theorem oneRound {handshakes : HandshakeReport} (short : randLen ≤ hi)
    (shaken : handshakeReport sampleElapsedMs (sampleHandshakes {} attempts) = .ok handshakes) :
    ∃ report input output last, Advances Host.handle
      (clientEchoPerf S sampleElapsedMs attempts [randLen]) client input output
      (.done (.ok report)) last := by
  have one : (Command.serialize .echo).length ≤ 1 := Postcard.varintLength (k := 0) (by decide)
  obtain ⟨nonce,requested⟩ := frameWritten (S := S) (h := client) (Command.serialize .echo)
    (by unfold Frame.u32Max; omega)
  let asking : Host := spent client 1 0
  let payload := (asking.random asking.drawn randLen).val
  obtain ⟨other,sent⟩ := payloadSent (S := S) (h := asking) {} short
  let echo := S.echoOf payload (asking.millis asking.ticks)
  have taken := echoTaken (S := S) (h := spent asking 2 0) {} payload echo other
  have kept := keptNext keptNothing
    ⟨S.sha256Hex payload,echo,asking.millis asking.ticks⟩
  obtain ⟨report,printed,-⟩ := statsPrinted (h := spent asking 2 1) handshakes kept (by simp)
  have looped : Advances Host.handle (echoLoop S {} [randLen]) asking _ _ (.done (.ok _)) _ :=
    advancesThen (advancesTrans sent taken) (.rest _ _)
  have whole : Advances Host.handle (do
      S.writeEncryptFrameInto (Command.serialize .echo)
      let r ← echoLoop S {} [randLen]
      printStats handshakes r) client _ _ (.done (.ok report)) _ :=
    advancesThen requested (advancesThen looped printed)
  unfold clientEchoPerf
  rw [shaken,Program.liftDone,Program.bindDone]
  exact ⟨report,_,_,_,whole⟩

end

open RoundTrip

def echoServer : Session := {sampleSession with
  enableEcho := true
  echoRounds := 4}

theorem sampleShaken : ∃ report, handshakeReport 1 (sampleHandshakes {} [.err,.ok 1500]) = .ok report := by
  rcases shakenOr 1 (sampleHandshakes {} [.err,.ok 1500]) with ⟨-,-,reported⟩ | ⟨zero | none_,-⟩
  · exact reported
  · contradiction
  · contradiction

theorem sampleReport : ∃ (report : Report) (g : Rounds) (samples : List Sample),
    g.rounds.map (fun round => round.sent.length) = [lh] ∧
    List.Forall₂ (Measured echoServer) g.rounds samples ∧ Figures samples report ∧
    report.recordCount = 1 ∧ report.handshakes.handshakePerSec = 1 := by
  obtain ⟨handshakes,shaken⟩ := sampleShaken
  obtain ⟨report,input,output,last,ran⟩ := @oneRound echoServer lh (sampleHost ⟨[]⟩) _ _ _ (by decide) shaken
  obtain ⟨g,reached,-⟩ := @advancesSimulated _ _ _ _ Host.handle (noting (Rounds.note echoServer))
    (fun _ _ _ _ => True) (fun _ _ _ _ _ _ => ⟨_,rfl,trivial⟩) (fun _ _ _ _ _ _ => ⟨_,rfl,trivial⟩)
    (fun _ _ _ _ _ _ _ => ⟨_,rfl,trivial⟩) _ _ _ _ _ _ ran {} trivial
  obtain ⟨shaken,sizes,-,samples,measured,figures,-⟩ := reportExact reached
  refine ⟨report,g,samples,sizes,measured,figures,?_,shaken.handshakePerSec⟩
  rw [figures.recordCount,← measured.length_eq,← List.length_map,sizes,List.length_singleton]

theorem sampleEchoes : ∃ final report, Complete Host.handle Host.handle
    (echoMeeting echoServer (sampleHost ⟨[]⟩) (sampleHost ⟨[]⟩) 1 [.err,.ok 1500] [lh,hi]) final ∧
    final.right.program = .done (.ok ()) ∧ final.left.program = .done (.ok report) ∧
    report.recordCount = 2 ∧ report.payloadAcc.toNat = 15 ∧ report.mismatches = [] := by
  obtain ⟨final,complete⟩ := completes Host.handle Host.handle
    (echoMeeting echoServer (sampleHost ⟨[]⟩) (sampleHost ⟨[]⟩) 1 [.err,.ok 1500] [lh,hi])
  obtain ⟨right,⟨nothing,-⟩ | ⟨report,samples,left,-,returned,figures,matched,-⟩⟩ :=
    echoesBack rfl (by decide) (by decide) complete
  · rcases nothing with zero | none_ | none_ <;> contradiction
  · obtain _ | ⟨⟨_,-,-,one,-⟩,_ | ⟨⟨_,-,-,two,-⟩,_ | _⟩⟩ := returned
    refine ⟨final,report,complete,right,left,figures.recordCount,?_,matched⟩
    rw [figures.payloadAcc,List.map_cons,List.map_cons,List.map_nil,one,two]
    decide

end RDrive.EchoPerf
