import ProtoBridge.Lib.Machine
import ProtoBridge.Lib.SortedMap
import ProtoBridge.Rdma.Types

/-!
# The local memory of an engine

The registered regions, the map of nonzero bytes and the waits for signals, with 64-bit addresses that wrap.
The map is only written by `WriteMemory` and `Store`, so whatever an engine does to its memory is a sequence
of the calls here: local writes, stored fragments and the commits of atomics and signals.
-/

namespace ProtoBridge.Rdma

open Lib

/-- Why a call is refused. The last one is no check of the source: it stands for an `erase` whose end is in
front of its beginning. -/
inductive MemoryAbort
  | badRegistration
  | notDrained
  | outsideRegistration
  | unaligned
  | reversedRange
  deriving DecidableEq

/-- `Region`. -/
structure MemoryRegion where
  base : UInt64
  bytes : UInt64
  deriving DecidableEq

/-- `Wait`. -/
structure SignalWait where
  id : Nat
  address : UInt64
  value : UInt64
  comparison : Comparison
  deriving DecidableEq

/-- A word with this value lets the wait end. -/
def SignalWait.test (w : SignalWait) (actual : UInt64) : Bool := w.comparison.test actual w.value

/-- A callback in the simulator. -/
structure PollEvent where
  time : Nat
  wait : SignalWait
  value : UInt64
  deriving DecidableEq

/-- The history: what was written, and what became of the waits. -/
inductive MemoryObs
  | wrote (address : UInt64) (data : List UInt8)
  | registered (w : SignalWait)
  | cancelled (id : Nat)
  | ready (time : Nat) (w : SignalWait) (value : UInt64)
  | fired (e : PollEvent)
  deriving DecidableEq

/-- The memory, its waits, and the simulator as far as their callbacks are concerned. -/
structure LocalMemory where
  signalPoll : Nat
  regions : List (UInt32 × MemoryRegion) := []
  memory : SortedMap Nat UInt8 := .empty
  waits : List SignalWait := []
  nextWait : Nat := 1
  now : Nat := 0
  events : List PollEvent := []
  log : List MemoryObs := []

namespace LocalMemory

def record (σ : LocalMemory) (e : MemoryObs) : LocalMemory := { σ with log := σ.log ++ [e] }

/-! ## Registration -/

/-- `InRegion`. -/
def inRegion (σ : LocalMemory) (key : UInt32) (address bytes : UInt64) : Bool :=
  match σ.regions.lookup key with
  | none => false
  | some r =>
      address ≥ r.base && address - r.base ≤ r.bytes && bytes ≤ r.bytes - (address - r.base)

/-- `InAnyRegion`. -/
def inAnyRegion (σ : LocalMemory) (address bytes : UInt64) : Bool :=
  σ.regions.any fun entry => σ.inRegion entry.1 address bytes

/-- `RegisterMemory`. -/
def registerMemory (σ : LocalMemory) (address bytes : UInt64) (key : UInt32) :
    Except MemoryAbort LocalMemory :=
  if key = 0 ∨ bytes = 0 ∨ bytes > 0xffffffffffffffff - address ∨ (σ.regions.lookup key).isSome then
    .error .badRegistration
  else .ok { σ with regions := σ.regions ++ [(key, ⟨address, bytes⟩)] }

/-- `UnregisterMemory`; `busy` is `HasPending() || m_receiveReserved`. -/
def unregisterMemory (σ : LocalMemory) (key : UInt32) (busy : Bool) : Except MemoryAbort LocalMemory :=
  if busy ∨ σ.waits ≠ [] then .error .notDrained
  else .ok { σ with regions := σ.regions.filter fun entry => entry.1 ≠ key }

/-! ## Reading -/

/-- `ReadMemory`. -/
def readMemory (σ : LocalMemory) (address : UInt64) (bytes : UInt32) : Except MemoryAbort (List UInt8) :=
  if σ.inAnyRegion address bytes.toUInt64 then
    let found := (σ.memory.entries.drop (σ.memory.lowerBound address.toNat)).takeWhile
      fun entry => entry.1 - address.toNat < bytes.toNat
    .ok (found.foldl (fun result entry => result.set (entry.1 - address.toNat) entry.2)
      (List.replicate bytes.toNat 0))
  else .error .outsideRegistration

/-- `ReadWord`. -/
def readWord (σ : LocalMemory) (address : UInt64) : Except MemoryAbort UInt64 :=
  if address % 8 ≠ 0 then .error .unaligned
  else do
    let bytes ← σ.readMemory address 8
    .ok (joinWord fun i => bytes.getD i 0)

/-- The `zero` of `Payload`. -/
def payloadZero (σ : LocalMemory) (address : UInt64) (bytes : UInt32) : Bool :=
  match (σ.memory.entries.drop (σ.memory.lowerBound address.toNat)).head? with
  | none => true
  | some first => decide (first.1 - address.toNat ≥ bytes.toNat)

/-- `Payload`. -/
def payload (σ : LocalMemory) (address : UInt64) (bytes : UInt32) :
    Except MemoryAbort (List UInt8 × Bool) :=
  if σ.payloadZero address bytes then .ok (List.replicate bytes.toNat 0, true)
  else do
    let data ← σ.readMemory address bytes
    .ok (data, false)

/-! ## Waits -/

/-- `Schedule`, of the callback of a wait. -/
def schedule (σ : LocalMemory) (w : SignalWait) (value : UInt64) : LocalMemory :=
  let σ := σ.record (.ready σ.now w value)
  if σ.signalPoll < horizon - σ.now then
    { σ with events := σ.events ++ [⟨σ.now + σ.signalPoll, w, value⟩] }
  else σ

/-- The loop of `CheckWaits`: the waits that are ready, and the others. -/
def splitWaits (σ : LocalMemory) :
    List SignalWait → Except MemoryAbort (List (SignalWait × UInt64) × List SignalWait)
  | [] => .ok ([], [])
  | w :: rest => do
      let actual ← σ.readWord w.address
      let (ready, waiting) ← splitWaits σ rest
      if w.test actual then .ok ((w, actual) :: ready, waiting)
      else .ok (ready, w :: waiting)

/-- `CheckWaits`. -/
def checkWaits (σ : LocalMemory) : Except MemoryAbort LocalMemory := do
  let (ready, waiting) ← σ.splitWaits σ.waits
  .ok (ready.foldl (fun σ p => σ.schedule p.1 p.2) { σ with waits := waiting })

/-- `WaitSignal`. -/
def waitSignal (σ : LocalMemory) (address : UInt64) (comparison : Comparison) (value : UInt64) :
    Except MemoryAbort LocalMemory := do
  let _ ← σ.readWord address
  let w : SignalWait := ⟨σ.nextWait, address, value, comparison⟩
  let σ := { σ with nextWait := σ.nextWait + 1, waits := σ.waits ++ [w] }
  (σ.record (.registered w)).checkWaits

/-- `CancelSignalWait`. -/
def cancelSignalWait (σ : LocalMemory) (id : Nat) : LocalMemory :=
  { σ with waits := σ.waits.filter fun w => w.id ≠ id }.record (.cancelled id)

/-! ## Writing -/

/-- `m_memory.erase` from the first key that is not below `first` to the first that is not below `last`. -/
def eraseKeys (memory : SortedMap Nat UInt8) (first last : UInt64) :
    Except MemoryAbort (SortedMap Nat UInt8) :=
  if h : memory.lowerBound first.toNat ≤ memory.lowerBound last.toNat then .ok (memory.eraseRange _ _ h)
  else .error .reversedRange

/-- The loop of `WriteMemory`. -/
def writeBytes (memory : SortedMap Nat UInt8) (address : UInt64) (bytes : List UInt8) :
    SortedMap Nat UInt8 :=
  (List.range bytes.length).foldl (fun memory i =>
    let byte := bytes.getD i 0
    if byte ≠ 0 then memory.set (address + UInt64.ofNat i).toNat byte else memory) memory

/-- `WriteMemory`. -/
def writeMemory (σ : LocalMemory) (address : UInt64) (bytes : List UInt8) :
    Except MemoryAbort LocalMemory :=
  let size := UInt64.ofNat bytes.length
  if σ.inAnyRegion address size then do
    let memory ← eraseKeys σ.memory address (address + size)
    ({ σ with memory := writeBytes memory address bytes }.record (.wrote address bytes)).checkWaits
  else .error .outsideRegistration

/-- `WriteWord`. -/
def writeWord (σ : LocalMemory) (address value : UInt64) : Except MemoryAbort LocalMemory :=
  if address % 8 ≠ 0 then .error .unaligned
  else σ.writeMemory address (wordBytes value)

/-- `CopyData`, into a buffer of zeros. -/
def copyData (packet : List UInt8) (bytes : Nat) : List UInt8 :=
  packet.take bytes ++ List.replicate (bytes - packet.length) 0

/-- `Store`. -/
def store (σ : LocalMemory) (address : UInt64) (packet : List UInt8) (bytes : UInt32) (zero : Bool) :
    Except MemoryAbort LocalMemory :=
  if zero then do
    let memory ← eraseKeys σ.memory address (address + bytes.toUInt64)
    ({ σ with memory }.record (.wrote address (List.replicate bytes.toNat 0))).checkWaits
  else σ.writeMemory address (copyData packet bytes.toNat)

end LocalMemory

/-! ## Runs -/

/-- A call, a callback that runs, or time that passes. -/
inductive MemoryAct
  | registerMemory (address bytes : UInt64) (key : UInt32)
  | unregisterMemory (key : UInt32) (busy : Bool)
  | writeMemory (address : UInt64) (bytes : List UInt8)
  | writeWord (address value : UInt64)
  | store (address : UInt64) (packet : List UInt8) (bytes : UInt32) (zero : Bool)
  | waitSignal (address : UInt64) (comparison : Comparison) (value : UInt64)
  | cancelSignalWait (id : Nat)
  | fire (i : Nat)
  | advance (time : Nat)

/-- The addresses that a call writes. -/
def MemoryAct.Covers : MemoryAct → Nat → Prop
  | .writeMemory address bytes, x => address.toNat ≤ x ∧ x < address.toNat + bytes.length
  | .writeWord address _, x => address.toNat ≤ x ∧ x < address.toNat + 8
  | .store address _ bytes _, x => address.toNat ≤ x ∧ x < address.toNat + bytes.toNat
  | _, _ => False

namespace LocalMemory

def exec (σ : LocalMemory) : MemoryAct → Except MemoryAbort LocalMemory
  | .registerMemory address bytes key => σ.registerMemory address bytes key
  | .unregisterMemory key busy => σ.unregisterMemory key busy
  | .writeMemory address bytes => σ.writeMemory address bytes
  | .writeWord address value => σ.writeWord address value
  | .store address packet bytes zero => σ.store address packet bytes zero
  | .waitSignal address comparison value => σ.waitSignal address comparison value
  | .cancelSignalWait id => .ok (σ.cancelSignalWait id)
  | .fire i =>
      match σ.events[i]? with
      | none => .ok σ
      | some e => .ok ({ σ with now := e.time, events := σ.events.eraseIdx i }.record (.fired e))
  | .advance time => .ok { σ with now := time }

/-- A vector has less than 2^64 bytes, `StartPiece` stores only what is inside of a request, whose range does
not wrap, and the simulator runs its events in the order of their times. -/
def enabled (σ : LocalMemory) : MemoryAct → Prop
  | .writeMemory _ bytes => bytes.length < 2 ^ 64
  | .store address _ bytes _ => address.toNat + bytes.toNat < 2 ^ 64
  | .fire i => ∃ e, σ.events[i]? = some e ∧ ∀ e' ∈ σ.events, e.time ≤ e'.time
  | .advance time => σ.now ≤ time ∧ time ≤ horizon ∧ ∀ e ∈ σ.events, time ≤ e.time
  | _ => True

end LocalMemory

/-- The runs of the memory of an engine, for any interleaving of calls. -/
def memoryMachine (signalPoll : Nat) : Machine LocalMemory MemoryAct MemoryAbort where
  init σ := σ = { signalPoll }
  enabled := LocalMemory.enabled
  exec := LocalMemory.exec

/-! ## The dense memory -/

namespace Dense

/-- The array after a write. -/
def write (bytes : Nat → UInt8) (address : Nat) (data : List UInt8) : Nat → UInt8 := fun x =>
  if address ≤ x ∧ x < address + data.length then data.getD (x - address) 0 else bytes x

/-- The bytes of a range. -/
def read (bytes : Nat → UInt8) (address size : Nat) : List UInt8 :=
  (List.range size).map fun i => bytes (address + i)

/-- The word at an address. -/
def word (bytes : Nat → UInt8) (address : Nat) : UInt64 := joinWord fun i => bytes (address + i)

/-- The array after what a history has written. -/
def ofLog (log : List MemoryObs) : Nat → UInt8 :=
  log.foldl (fun bytes e => match e with
    | .wrote address data => write bytes address.toNat data
    | _ => bytes) fun _ => 0

end Dense

end ProtoBridge.Rdma
