import RDrive.AuthTrees
import RDrive.Durability

/-! Which calls on the two trees handle_connection makes, by what its calls before found
and did: the order in which a registration, a rotation and an upload go about it. -/
namespace RDrive
open Crypto Header Party Bytes Program

/- What a connection's handler did so far: the directory of authorized_keys it found, whether
it opened a file, its renames with their answers, and whether the ACK for them is out. -/
structure Doings where
  found : Option Path
  opened : Bool
  renames : List (Path × Path × Bool)
  acked : Prop

namespace Authorised
open Session Durability

def begun : Doings := ⟨none,false,[],False⟩

/- authorized_keys holds a directory for the key. -/
def Listed (S : Session) (disk : Fs) (key : Bytes) : Prop := disk.isDir (S.authPath key) = true

structure Moved (S : Session) (d : Doings) (old new : Bytes) : Prop where
  sizeOld : old.length = 32
  sizeNew : new.length = 32
  renames : d.renames = [(S.authPath old,S.authPath new,true),(S.storagePath old,S.storagePath new,true)]

def notes (S : Session) (d : Doings) (c : (Port HostSig).Call) (r : (Port HostSig).Ret c) : Doings :=
  match c, r with
  | .here (.fs (.isDir p)), true => {d with found := some p}
  | .here (.fs (.create _)), true => {d with opened := true}
  | .here (.fs (.rename old new)), worked => {d with renames := d.renames ++ [(old,new,worked)]}
  | .send b, .ok () => {d with acked := d.acked ∨ S.Acks b ∧ ∃ old new, Moved S d old new}
  | _, _ => d

/- No rename that worked waits for its ACK. -/
def Settled (d : Doings) : Prop := ∀ move ∈ d.renames, move.2.2 = true → d.acked

/- The second rename does as the first did, and the ACK for them gets out. -/
def Heeds (d : Doings) (c : (Port HostSig).Call) (r : (Port HostSig).Ret c) : Prop :=
  match c, r with
  | .here (.fs (.rename _ _)), worked => ∀ move ∈ d.renames, move.2.2 = worked
  | .send _, .error _ => Settled d
  | _, _ => True

def heeding (S : Session) : Env (Port HostSig) Doings := fun d c r e => Heeds d c r ∧ e = notes S d c r

/- The calls of handle_connection, by what it did before: in its client's own storage once it
opened a file there, for a key whose directory it found, and the two renames of a rotation. -/
def Permits (S : Session) (d : Doings) : (Port HostSig).Call → Prop
  | .here (.fs (.createDirAll p)) =>
    (∃ slot : Slot, slot.clientKey = S.clientKey ∧ p = S.userDirPath slot) ∨
    ∃ key : Bytes, key.length = 32 ∧ d.found = some (S.authPath key) ∧
      (p = S.authPath key ∨ p = S.storagePath key)
  | .here (.fs (.create p)) => S.storagePath S.clientKey <+: p
  | .here (.fs (.append _ _)) => d.opened = true
  | .here (.fs (.remove p)) => d.opened = true ∧ S.storagePath S.clientKey <+: p
  | .here (.fs (.write p _)) => d.opened = true ∧ S.storagePath S.clientKey <+: p
  | .here (.fs (.read p)) => S.storagePath S.clientKey <+: p
  | .here (.reads p _) => S.storagePath S.clientKey <+: p
  | .here (.fs (.rename p q)) => d.found = none ∧ d.opened = false ∧
    ∃ old new : Bytes, old.length = 32 ∧ new.length = 32 ∧
      (d.renames = [] ∧ p = S.authPath old ∧ q = S.authPath new ∨
      (∃ worked, d.renames = [(S.authPath old,S.authPath new,worked)]) ∧
        p = S.storagePath old ∧ q = S.storagePath new)
  | _ => True

section
variable {S : Session} {d : Doings} {α : Type}

abbrev Keeps (S : Session) (p : Party α) (d : Doings) : Prop :=
  Ruled (heeding S) (Permits S) (fun _ => Settled) p d

def Asks (S : Session) (d : Doings) (c : (Port HostSig).Call) : Prop :=
  Permits S d c ∧ ∀ r after, heeding S d c r after → after = d

end

end Authorised
end RDrive
