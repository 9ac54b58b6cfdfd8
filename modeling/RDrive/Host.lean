import RDrive.Lib.Duplex
import RDrive.Lib.Fs
import RDrive.FileLock
import RDrive.Frame
import RDrive.Header
import Mathlib.Data.List.Basic

/-! What a connection handler or a client function asks of its own machine: random
bytes, the clock, the rate limiter, the file locks, the tracker, the disk and, on the
client, the record of trusted servers and the user. -/
namespace RDrive
open FileLock (Arc Kind)

/- AuthServerMap of lib.rs: a text for each socket address. The flow label of an IPv6
address is left out, as it is in the printed form; the JSON of server.map is not modelled. -/
inductive SocketAddr where
  | v4 (ip : BitVec 32) (port : UInt16)
  | v6 (ip : BitVec 128) (port : UInt16) (scopeId : UInt32)
  deriving DecidableEq, Repr

structure AuthServerMap where
  serverMap : List (SocketAddr × String)
  deriving DecidableEq, Repr

namespace AuthServerMap

def get (m : AuthServerMap) (address : SocketAddr) : Option String := m.serverMap.lookup address

def insert (m : AuthServerMap) (address : SocketAddr) (text : String) : AuthServerMap :=
  ⟨(address,text) :: m.serverMap⟩

@[simp] theorem getInserted (m : AuthServerMap) (address : SocketAddr) (text : String) :
    (m.insert address text).get address = some text := by
  simp [insert,get]

@[simp] theorem getOther (m : AuthServerMap) {address other : SocketAddr} (different : other ≠ address)
    (text : String) : (m.insert address text).get other = m.get other := by
  have unlike : (other == address) = false := beq_false_of_ne different
  simp [insert,get,List.lookup_cons,unlike]

end AuthServerMap

/- What client_handshake_helper asks its user; the key texts are printed as fingerprints. -/
inductive Question where
  | keyChanged (serverIp : SocketAddr) (existing presented : String)
  | unknownServer (serverIp : SocketAddr) (presented : String)
  deriving DecidableEq, Repr

namespace Question

def serverIp : Question → SocketAddr
  | .keyChanged serverIp _ _ => serverIp
  | .unknownServer serverIp _ => serverIp

def presented : Question → String
  | .keyChanged _ _ presented => presented
  | .unknownServer _ presented => presented

end Question

/- char::is_whitespace, and str::trim with it. -/
def whitespace (c : Char) : Bool :=
  let n := c.toNat
  (9 ≤ n && n ≤ 13) || n = 32 || n = 133 || n = 160 || n = 5760 || (8192 ≤ n && n ≤ 8202) ||
    n = 8232 || n = 8233 || n = 8239 || n = 8287 || n = 12288

def trim (s : String) : List Char :=
  ((s.toList.dropWhile whitespace).reverse.dropWhile whitespace).reverse

/- input.trim().eq_ignore_ascii_case("y") -/
def accepts (input : String) : Bool := trim input == ['y'] || trim input == ['Y']

example : accepts " Y\r\n" = true ∧ accepts "yes\n" = false ∧ accepts "" = false := by decide

inductive HostCall where
  | draw (n : Nat)
  | elapsed
  | isAllowedCost (tenths : Nat)
  | holdFileLock (fileId : String)
  | tryLock (kind : Kind) (arc : Arc)
  | dropGuard (kind : Kind) (arc : Arc)
  | releaseFileLock (fileId : String)
  | logUpload (bytes : Nat)
  | logDownload (bytes : Nat)
  -- the tracker's three totals, the uptime and the wall clock, for a status
  | tracker
  | uptimeHrs
  | timestamp
  | elapsedMs
  | shutdown
  | fs (op : Fs.Op)
  -- the results of reading a file to its end, one read after the other
  | reads (path : Path) (bufferLen : Nat)
  -- AuthServerMap::read_or_create and write on server.map
  | readServerMap
  | writeServerMap (map : AuthServerMap)
  -- the line the user types, if standard input can be read
  | ask (question : Question)
  deriving DecidableEq, Repr

abbrev HostSig : Signature where
  Call := HostCall
  Ret
    | .draw n => {b : Bytes // b.length = n}
    | .elapsed => Header.F32
    | .isAllowedCost _ => Bool
    | .holdFileLock _ => Arc
    | .tryLock _ _ => Bool
    | .dropGuard _ _ => Unit
    | .releaseFileLock _ => Unit
    | .logUpload _ => Unit
    | .logDownload _ => Unit
    | .tracker => UInt64 × UInt64 × UInt64
    | .uptimeHrs => {b : Bytes // b.length = 8}
    | .timestamp => String
    | .elapsedMs => BitVec 128
    | .shutdown => Except Fault Unit
    | .fs op => op.Ret
    | .reads _ _ => Option (List Bytes)
    | .readServerMap => Option AuthServerMap
    | .writeServerMap _ => Bool
    | .ask _ => Option String

abbrev Party := Program (Port HostSig)

namespace Party

def here (c : HostCall) : Party (HostSig.Ret c) := .call (PortCall.here c) fun r => .done (.ok r)

def draw (n : Nat) : Party {b : Bytes // b.length = n} := here (.draw n)
def elapsed : Party Header.F32 := here .elapsed
def isAllowedCost (tenths : Nat) : Party Bool := here (.isAllowedCost tenths)
def holdFileLock (fileId : String) : Party Arc := here (.holdFileLock fileId)
def tryLock (kind : Kind) (arc : Arc) : Party Bool := here (.tryLock kind arc)
def dropGuard (kind : Kind) (arc : Arc) : Party Unit := here (.dropGuard kind arc)
def releaseFileLock (fileId : String) : Party Unit := here (.releaseFileLock fileId)
def logUpload (bytes : Nat) : Party Unit := here (.logUpload bytes)
def logDownload (bytes : Nat) : Party Unit := here (.logDownload bytes)
def tracker : Party (UInt64 × UInt64 × UInt64) := here .tracker
def uptimeHrs : Party {b : Bytes // b.length = 8} := here .uptimeHrs
def timestamp : Party String := here .timestamp
def elapsedMs : Party (BitVec 128) := here .elapsedMs
def fs (op : Fs.Op) : Party op.Ret := here (.fs op)
def reads (path : Path) (bufferLen : Nat) : Party (Option (List Bytes)) :=
  here (.reads path bufferLen)
def readServerMap : Party (Option AuthServerMap) := here .readServerMap
def writeServerMap (map : AuthServerMap) : Party Bool := here (.writeServerMap map)
def ask (question : Question) : Party (Option String) := here (.ask question)

def Fault.text : Fault → String
  | .eof => "early eof"
  | .timedOut => "deadline has elapsed"
  | .io message => message

def recv (n : Nat) : Party (Except Fault {b : Bytes // b.length = n}) :=
  .call (PortCall.recv n) fun r => .done (.ok r)

/- read_exact(..).await? -/
def readExact (n : Nat) : Party {b : Bytes // b.length = n} :=
  .call (PortCall.recv n) fun
    | .ok b => .done (.ok b)
    | .error fault => .done (.err (Fault.text fault))

/- write_all(..).await?, or the same under timeout(..).await?? -/
def send (b : Bytes) : Party Unit :=
  .call (PortCall.send b) fun
    | .ok () => .done (.ok ())
    | .error fault => .done (.err (Fault.text fault))

/- flush().await? and shutdown().await?: no bytes of their own, but they may fail. -/
def flush : Party Unit := send []
def shutdown : Party Unit := do
  match ← here .shutdown with
  | .ok () => pure ()
  | .error fault => .fail (Fault.text fault)

/- The calls on files whose failure ends the function. -/
def createDirAll (path : Path) : Party Unit := do
  if ← fs (.createDirAll path) then pure () else .fail "create_dir_all"
def create (path : Path) : Party Unit := do
  if ← fs (.create path) then pure () else .fail "File::create"
def append (path : Path) (b : Bytes) : Party Unit := do
  if ← fs (.append path b) then pure () else .fail "write_all"
def write (path : Path) (b : Bytes) : Party Unit := do
  if ← fs (.write path b) then pure () else .fail "fs::write"
def read (path : Path) : Party Bytes := do
  match ← fs (.read path) with
  | some b => pure b
  | none => .fail "fs::read"

end Party

/- Reads that fill their buffer except at the end of the file. -/
def fullReads (n : Nat) (b : Bytes) : List Bytes :=
  if _full : b = [] ∨ n = 0 then [] else b.take n :: fullReads n (b.drop n)
termination_by b.length
decreasing_by
  have := List.length_pos_of_ne_nil (not_or.mp _full).1
  simp
  omega

structure Host where
  disk : Fs
  locks : FileLock.State
  random : Nat → (n : Nat) → {b : Bytes // b.length = n}
  drawn : Nat
  clock : Nat → Header.F32
  ticks : Nat
  millis : Nat → BitVec 128
  uptime : {b : Bytes // b.length = 8}
  now : String
  uploaded : List Nat
  downloaded : List Nat
  serverMap : AuthServerMap := ⟨[]⟩

namespace Host

/- This connection's name in the lock records. -/
def conn : FileLock.Conn := 0

/- A machine where nothing fails and no limit is reached. Nobody is at its terminal:
standard input is at its end. -/
def handle (h : Host) : (c : HostCall) → HostSig.Ret c × Host
  | .draw n => (h.random h.drawn n,{h with drawn := h.drawn + 1})
  | .elapsed => (h.clock h.ticks,{h with ticks := h.ticks + 1})
  | .isAllowedCost _ => (true,h)
  | .holdFileLock fileId =>
    let (locks,arc) := FileLock.holdFileLock h.locks fileId
    (arc,{h with locks := locks})
  | .tryLock kind arc =>
    match FileLock.tryGuard kind (h.locks.lock arc) conn with
    | some taken => (true,{h with locks := h.locks.relock arc taken})
    | none => (false,h)
  | .dropGuard kind arc =>
    ((),{h with locks := h.locks.relock arc (FileLock.dropGuard kind (h.locks.lock arc) conn)})
  | .releaseFileLock fileId => ((),{h with locks := FileLock.releaseFileLock h.locks fileId})
  | .logUpload bytes => ((),{h with uploaded := bytes :: h.uploaded})
  | .logDownload bytes => ((),{h with downloaded := bytes :: h.downloaded})
  | .tracker => ((h.uploaded.length.toUInt64,h.downloaded.length.toUInt64,
      ((h.uploaded ++ h.downloaded).sum / (1024 * 1024 * 1024)).toUInt64),h)
  | .uptimeHrs => (h.uptime,h)
  | .timestamp => (h.now,h)
  | .elapsedMs => (h.millis h.ticks,{h with ticks := h.ticks + 1})
  | .shutdown => (.ok (),h)
  | .fs op =>
    let (answer,disk) := h.disk.exec op
    (answer,{h with disk := disk})
  | .reads path bufferLen => ((h.disk.content path).map (fullReads bufferLen),h)
  | .readServerMap => (some h.serverMap,h)
  | .writeServerMap map => (true,{h with serverMap := map})
  | .ask _ => (some "",h)

open Duplex Party
variable {h : Host}

theorem drawAdvances (n : Nat) : Advances handle (draw n) h [] []
    (.done (.ok (h.random h.drawn n))) {h with drawn := h.drawn + 1} := .here (.rest _ _)

theorem elapsedAdvances : Advances handle elapsed h [] []
    (.done (.ok (h.clock h.ticks))) {h with ticks := h.ticks + 1} := .here (.rest _ _)

theorem fsAdvances (op : Fs.Op) : Advances handle (fs op) h [] []
    (.done (.ok (h.disk.exec op).1)) {h with disk := (h.disk.exec op).2} := .here (.rest _ _)

theorem sendAdvances (b : Bytes) : Advances handle (send b) h [] b (.done (.ok ())) h :=
  advancesSent (.rest _ _)

theorem shutdownAdvances : Advances handle shutdown h [] [] (.done (.ok ())) h := .here (.rest _ _)

theorem readExactAdvances {n : Nat} {b : Bytes} (size : b.length = n) :
    Advances handle (readExact n) h b [] (.done (.ok ⟨b,size⟩)) h := advancesRead size (.rest _ _)

theorem readsAdvances (path : Path) (n : Nat) : Advances handle (reads path n) h [] []
    (.done (.ok ((h.disk.content path).map (fullReads n)))) h := .here (.rest _ _)

theorem appendAdvances {path : Path} {old : Bytes} (found : h.disk.content path = some old)
    (b : Bytes) : Advances handle (append path b) h [] [] (.done (.ok ()))
      {h with disk := h.disk.put path (.file (old ++ b))} := by
  have done := Fs.appendFile found b
  refine advancesQuiet (fsAdvances (.append path b)) ?_
  simp only [Fs.exec,done]
  exact .rest _ _

theorem createDirAllAdvances {path : Path}
    (clear : ∀ q, q <+: path → h.disk.get q = none ∨ h.disk.isDir q = true) :
    Advances handle (createDirAll path) h [] [] (.done (.ok ()))
      {h with disk := h.disk.makeDirs path.inits} := by
  refine advancesQuiet (fsAdvances (.createDirAll path)) ?_
  simp only [Fs.exec,Fs.createDirAllClear clear]
  exact .rest _ _

theorem createAdvances {path : Path} (parent : h.disk.isDir path.dropLast = true)
    (free : h.disk.isDir path = false) : Advances handle (create path) h [] [] (.done (.ok ()))
      {h with disk := h.disk.put path (.file [])} := by
  refine advancesQuiet (fsAdvances (.create path)) ?_
  simp only [Fs.exec,Fs.create,parent,free]
  exact .rest _ _

theorem writeAdvances {path : Path} {b : Bytes} (parent : h.disk.isDir path.dropLast = true)
    (free : h.disk.isDir path = false) : Advances handle (write path b) h [] [] (.done (.ok ()))
      {h with disk := h.disk.put path (.file b)} := by
  refine advancesQuiet (fsAdvances (.write path b)) ?_
  simp only [Fs.exec,Fs.write,parent,free]
  exact .rest _ _

theorem readAdvances {path : Path} {b : Bytes} (found : h.disk.content path = some b) :
    Advances handle (read path) h [] [] (.done (.ok b)) h := by
  refine advancesQuiet (fsAdvances (.read path)) ?_
  simp only [Fs.exec,found]
  exact .rest _ _

end Host
end RDrive
