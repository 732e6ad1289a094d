import Amaterasu.Library.CircularQueue
import Amaterasu.Process.Defs
import Mathlib.Data.Nat.Bitwise

/-! The request queue and `ATARead` of `ata.c`, with the device and the interrupt line. System
calls run with interrupts off (the gates have type `0xe`), so a call is interrupted at `sleep`
only: a sleeping call is two steps, a polling call is one. A `struct Process *` is a number, 0
the null pointer. -/

namespace Amaterasu
open Function

/-- `struct ATARequestQueueEntry`. -/
structure AtaRequest where
  isWrite : Bool
  lba : Nat
  sizeOfBytes : Int
  isComplete : Bool
  buffer : BitVec 64
  process : Nat
deriving DecidableEq, Repr

def ataRequestQueueCapacity : Nat := 10

/-- `struct ATARequestQueue`: `HeadIndex`, `Size` and `queueBody`. -/
abbrev AtaRequestQueue := CircularQueue AtaRequest

/-- `ATARequestQueuePush`; `none` is the result -1. -/
def ataRequestQueuePush (q : AtaRequestQueue) (entry : AtaRequest) :
    Option (AtaRequestQueue × Nat) :=
  if q.size = ataRequestQueueCapacity then none
  else
    let pushedIndex := (q.head + q.size) % ataRequestQueueCapacity
    some ({ q with size := q.size + 1, body := update q.body pushedIndex entry }, pushedIndex)

def ataRequestQueueFront (q : AtaRequestQueue) : AtaRequest := q.body q.head

def ataRequestQueuePop (q : AtaRequestQueue) : AtaRequestQueue :=
  if q.size = 0 then q
  else { q with head := (q.head + 1) % ataRequestQueueCapacity, size := q.size - 1 }

/-! ## The device -/

/-- The registers `ATASendRequest` writes before the command. -/
structure TaskFile where
  device : Nat
  sectorCount : Nat
  lbaLow : Nat
  lbaMid : Nat
  lbaHigh : Nat

/-- The register values of `ATASendRequest`; `/` and `%` of C round toward zero. -/
def AtaRequest.taskFile (request : AtaRequest) : TaskFile :=
  let sectorCount : Int :=
    if request.sizeOfBytes.tmod 512 = 0 then request.sizeOfBytes.tdiv 512
    else request.sizeOfBytes.tdiv 512 + 1
  { device := 0xe0 ||| ((request.lba >>> 24) &&& 0x0f)
    sectorCount := (sectorCount % 256).toNat
    lbaLow := request.lba % 256
    lbaMid := (request.lba >>> 8) % 256
    lbaHigh := (request.lba >>> 16) % 256 }

structure AtaCommand where
  lba : Nat
  sectors : Nat
deriving DecidableEq, Repr

/-- How the device reads the registers at `READ SECTORS`: a 28-bit address, and a count in which
0 stands for 256. -/
def TaskFile.command (t : TaskFile) : AtaCommand where
  lba := (t.device &&& 0x0f) * 2 ^ 24 + t.lbaHigh * 2 ^ 16 + t.lbaMid * 2 ^ 8 + t.lbaLow
  sectors := if t.sectorCount = 0 then 256 else t.sectorCount

def AtaRequest.command (request : AtaRequest) : AtaCommand := request.taskFile.command

/-- The device serves one command at a time; `position` counts the words taken from the port. -/
inductive AtaDevice
  | idle
  | busy (command : AtaCommand)
  | ready (command : AtaCommand) (position : Nat)
  | failed
deriving DecidableEq, Repr

section Port
variable (disk : Nat → BitVec 8) (floating : Nat → BitVec 16)

/-- The word `InShort` returns after `i` further words; `floating` is what the port shows when
there is no data. -/
def AtaDevice.word (d : AtaDevice) (i : Nat) : BitVec 16 :=
  match d with
  | .ready c position =>
    if position + i < c.sectors * 256 then
      disk (c.lba * 512 + 2 * (position + i) + 1) ++ disk (c.lba * 512 + 2 * (position + i))
    else floating (position + i)
  | _ => floating i

end Port

def AtaDevice.advance (d : AtaDevice) (n : Nat) : AtaDevice :=
  match d with
  | .ready c position => .ready c (position + n)
  | d => d

/-! ## The copy loop -/

/-- The number of rounds of the copy loop. -/
def AtaRequest.words (request : AtaRequest) : Nat := ((request.sizeOfBytes + 1).tdiv 2).toNat

/-- The stores of the copy loop, where `w i` is the word of round `i`. -/
def AtaRequest.copy (request : AtaRequest) (w : Nat → BitVec 16) :
    List (BitVec 64 × BitVec 8) :=
  (List.range request.words).flatMap fun i =>
    let data := w i
    (request.buffer + BitVec.ofNat 64 (2 * i), data.setWidth 8) ::
      if i ≠ request.words - 1 ∨ request.sizeOfBytes.tmod 2 = 0 then
        [(request.buffer + BitVec.ofNat 64 (2 * i + 1), (data >>> 8).setWidth 8)]
      else []

/-! ## The system -/

/-- The arguments of an `ATARead`, and the process that makes it. -/
structure AtaCall where
  process : Nat
  lba : Nat
  sizeOfBytes : Int
  buffer : BitVec 64
deriving DecidableEq, Repr

/-- The entry `ATARead` pushes. -/
def AtaCall.request (c : AtaCall) : AtaRequest :=
  ⟨false, c.lba, c.sizeOfBytes, false, c.buffer, c.process⟩

/-- A finished `ATARead`: what it returned and what it stored, in order. -/
structure AtaOutcome where
  call : AtaCall
  result : Int
  stores : List (BitVec 64 × BitVec 8)

structure AtaSystem where
  queue : AtaRequestQueue
  device : AtaDevice
  interrupt : Bool
  state : Nat → ProcessState
  asleep : Nat → Option AtaCall
  outcomes : List AtaOutcome

namespace AtaSystem

/-- `ATAInit`; the rest of the queue is whatever memory holds. -/
def ataInit (body : Nat → AtaRequest) : AtaSystem where
  queue := ⟨0, 0, body⟩
  device := .idle
  interrupt := false
  state _ := .running
  asleep _ := none
  outcomes := []

def ataSendRequest (s : AtaSystem) (index : Nat) : AtaSystem :=
  let request := s.queue.body index
  if request.isWrite then s else { s with device := .busy request.command }

/-- The device finishes the command it serves, or fails it, and raises its interrupt. -/
def settle (s : AtaSystem) (ok : Bool) : Option AtaSystem :=
  match s.device with
  | .busy c => some { s with device := if ok then .ready c 0 else .failed, interrupt := true }
  | _ => none

/-- `ATAPollingUntilReady`, with `ok` for what becomes of a command still in service; `none` is
the wait that never ends. -/
def ataPollingUntilReady (s : AtaSystem) (ok : Bool) : Option AtaSystem :=
  match s.device with
  | .idle => none
  | .busy _ => s.settle ok
  | .ready c position => if position < c.sectors * 256 then some s else none
  | .failed => some s

/-- `ATAHandler` up to the end-of-interrupt command. -/
def ataHandler (s : AtaSystem) : AtaSystem :=
  let request := ataRequestQueueFront s.queue
  { s with state := update s.state request.process .running, interrupt := false }

section Steps
variable (disk : Nat → BitVec 8) (floating : Nat → BitVec 16)

/-- `ATARead` from the wait on, in the call `c`. The request it serves is the front one. -/
def serve (s : AtaSystem) (c : AtaCall) : AtaSystem :=
  let request := ataRequestQueueFront s.queue
  if s.device = .failed then { s with outcomes := ⟨c, -1, []⟩ :: s.outcomes }
  else
    let stores := if request.isWrite then [] else request.copy (s.device.word disk floating)
    let device := if request.isWrite then s.device else s.device.advance request.words
    let queue := { s.queue with
      body := update s.queue.body s.queue.head { request with isComplete := true } }
    let queue := ataRequestQueuePop queue
    let s := { s with queue := queue, device := device }
    let s := if queue.size ≥ 1 then s.ataSendRequest queue.head else s
    { s with outcomes := ⟨c, request.sizeOfBytes, stores⟩ :: s.outcomes }

/-- `ATARead` up to the wait: the push, and the command when nothing else is queued. -/
def submit (s : AtaSystem) (c : AtaCall) : Option AtaSystem :=
  match ataRequestQueuePush s.queue c.request with
  | none => none
  | some (queue, pushedIndex) =>
    let s := { s with queue := queue }
    some (if queue.size = 1 then s.ataSendRequest pushedIndex else s)

def refuse (s : AtaSystem) (c : AtaCall) : AtaSystem :=
  { s with outcomes := ⟨c, -1, []⟩ :: s.outcomes }

inductive Event
  | read (c : AtaCall)
  | poll (c : AtaCall) (ok : Bool)
  | settle (ok : Bool)
  | handler
  | resume (p : Nat)

/-- One step: a process makes a sleeping or a polling call, the device answers, its interrupt is
taken, or a woken process goes on. `none` is an event that cannot happen. -/
def step (s : AtaSystem) : Event → Option AtaSystem
  | .read c =>
    if (s.asleep c.process).isSome then none
    else match s.submit c with
      | none => some (s.refuse c)
      | some s => some { s with
        state := update s.state c.process .sleep
        asleep := update s.asleep c.process (some c) }
  | .poll c ok =>
    if (s.asleep c.process).isSome then none
    else match s.submit c with
      | none => some (s.refuse c)
      | some s => (s.ataPollingUntilReady ok).map fun s => s.serve disk floating c
  | .settle ok => s.settle ok
  | .handler => if s.interrupt then some s.ataHandler else none
  | .resume p =>
    match s.asleep p, s.state p with
    | some c, .running => some ({ s with asleep := update s.asleep p none }.serve disk floating c)
    | _, _ => none

end Steps

end AtaSystem
end Amaterasu
