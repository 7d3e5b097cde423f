import EnvelopeClient.IoFault

/-!
# The two directions of a transport

`Inbound` is what the peer has written and the connection has not read. `Outbound` is what the
connection has written and the peer has not read; it may hold only so many bytes, and a write that
finds no room waits. On either side the next operation can be made to fail.
-/

namespace EnvelopeClient

/-- A fault laid in wait for the next operation. -/
inductive Trap where
  | fails (fault : IoFault)
  /-- The operation moves no bytes. -/
  | zero

/-- From the peer to the connection. -/
structure Inbound where
  /-- Written and not read yet, the oldest first. -/
  unread : List UInt8
  /-- Whether the peer will write no more. -/
  ended : Bool
  trap : Option Trap

/-- What one read comes to. -/
inductive ReadResult where
  | bytes (chunk : List UInt8)
  | ended
  | failed (fault : IoFault)
  /-- There is nothing to read yet. -/
  | waiting

namespace Inbound

/-- Nothing written yet. -/
def empty : Inbound := ⟨[], false, none⟩

/-- The peer writes. -/
def write (p : Inbound) (bytes : List UInt8) : Inbound := { p with unread := p.unread ++ bytes }

/-- The connection reads what there is, but no more than it has room for. -/
def read (p : Inbound) (room : Nat) : ReadResult × Inbound :=
  match p.trap with
  | some (.fails fault) => (.failed fault, { p with trap := none })
  | some .zero => (.ended, { p with trap := none })
  | none =>
    if p.unread.isEmpty then (if p.ended then .ended else .waiting, p)
    else (.bytes (p.unread.take room), { p with unread := p.unread.drop room })

end Inbound

/-- From the connection to the peer. -/
structure Outbound where
  /-- How many unread bytes there is room for; `none` is no limit. -/
  capacity : Option Nat
  /-- Written and not read yet, the oldest first. -/
  unread : List UInt8
  /-- Whether the connection will write no more. -/
  ended : Bool
  /-- Whether the peer will read no more. -/
  abandoned : Bool
  writeTrap : Option Trap
  flushTrap : Option Trap
  shutdownTrap : Option Trap

/-- What writing a text comes to. -/
inductive WriteResult where
  | done
  /-- There was no room for the rest. -/
  | blocked (left : List UInt8)
  | failed (fault : IoFault)

namespace Outbound

/-- Nothing written yet. -/
def empty (capacity : Option Nat) : Outbound := ⟨capacity, [], false, false, none, none, none⟩

/-- Room for more bytes, at most `wanted`. -/
def room (p : Outbound) (wanted : Nat) : Nat :=
  match p.capacity with
  | none => wanted
  | some capacity => min wanted (capacity - p.unread.length)

/-- Writes as much as there is room for. -/
def fill (p : Outbound) (bytes : List UInt8) : WriteResult × Outbound :=
  if bytes.isEmpty then (.done, p)
  else if p.ended || p.abandoned then (.failed (.ofKind .brokenPipe), p)
  else
    let n := p.room bytes.length
    let p := { p with unread := p.unread ++ bytes.take n }
    match bytes.drop n with
    | [] => (.done, p)
    | left => (.blocked left, p)

/-- Writes a text, or goes on writing it. An interrupted write is tried again; one that moves no
bytes is a failure. -/
def write (p : Outbound) (bytes : List UInt8) : WriteResult × Outbound :=
  if bytes.isEmpty then (.done, p)
  else
    match p.writeTrap with
    | none => p.fill bytes
    | some trap =>
      let p := { p with writeTrap := none }
      match trap with
      | .zero => (.failed (.ofKind .writeZero), p)
      | .fails fault =>
        if fault.kind = .interrupted then p.fill bytes else (.failed fault, p)

/-- Flushes what was written. -/
def flush (p : Outbound) : Option IoFault × Outbound :=
  match p.flushTrap with
  | some (.fails fault) => (some fault, { p with flushTrap := none })
  | _ => (none, { p with flushTrap := none })

/-- Ends writing in good order. -/
def shutdown (p : Outbound) : Option IoFault × Outbound :=
  match p.shutdownTrap with
  | some (.fails fault) => (some fault, { p with shutdownTrap := none })
  | _ => (none, { p with shutdownTrap := none, ended := true })

/-- The peer reads all there is. -/
def drain (p : Outbound) : List UInt8 × Outbound :=
  (p.unread, { p with unread := [] })

end Outbound

end EnvelopeClient
