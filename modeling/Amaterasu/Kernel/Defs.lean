import Amaterasu.Ata.Defs
import Amaterasu.Console.Screen
import Amaterasu.KHeap.Defs
import Amaterasu.Library.Access
import Amaterasu.Process.Fork

/-! What the C code of a system call works on. Memory is seen through the page table of the
process that makes the call, the frame buffer too. The queue, the heap's records, the process
records, the cursor and the TSS are the kernel's own objects and are kept apart from it. The error
is a page fault or a loop that never ends: both are the end of everything. -/

namespace Amaterasu
open PageWalk

/-- The fields of `partitions[0]` by which files are read. -/
structure Partition where
  sectorsOfCluster : BitVec 8
  rootDirStartLBA : BitVec 32
  dataStartLBA : BitVec 32

/-- `fb`, and the glyphs in the table and behind it. -/
structure Display extends FrameBuffer where
  base : BitVec 64
  fontBitMap : Nat → Nat → Nat → Bool

/-- What system calls find and leave as it is. -/
structure Environment where
  disk : Nat → BitVec 8
  floating : Nat → BitVec 16
  partition : Partition
  returnFromSysFork : BitVec 64
  display : Display

/-- `current` is the number of `currentProcess` in `ata`, `process` its record. `frames` is what
the coming calls of `AllocatePageFrames(1)` return; `answers` tells whether the coming commands
that are polled for succeed. The latest child comes first. -/
structure Kernel where
  ram : Ram
  rsp0 : BitVec 64
  heap : KHeap
  frames : List (BitVec 64)
  ata : AtaSystem
  answers : List Bool
  current : Nat
  process : Process
  children : List Process
  cursorX : BitVec 32
  cursorY : BitVec 32

abbrev KernelM := EStateM Unit Kernel

def onRam {α : Type} (x : Accessing α) : KernelM α :=
  Program.onPart Kernel.ram (fun k r => { k with ram := r }) x

/-! ## Memory -/

def load (la : BitVec 64) : KernelM (BitVec 8) := onRam (Ram.load la)

def loadShort (la : BitVec 64) : KernelM (BitVec 16) := do
  let m ← onRam (Ram.loadAll la 2)
  return m 1 ++ m 0

def loadInt (la : BitVec 64) : KernelM (BitVec 32) := do
  let m ← onRam (Ram.loadAll la 4)
  return m 3 ++ m 2 ++ m 1 ++ m 0

def loadWord (la : BitVec 64) : KernelM (BitVec 64) := do
  let m ← onRam (Ram.loadAll la 8)
  return m.readWord 0

def storeWords (la : BitVec 64) (ws : List (BitVec 64)) : KernelM Unit :=
  onRam (Ram.storeAll (Ram.wordsBytes la ws))

def memcpy (dst src size : BitVec 64) : KernelM Unit := onRam (Ram.copy dst src size.toNat)

/-! ## The kernel's own objects -/

def kmalloc (size : BitVec 32) : KernelM (BitVec 64) := fun k =>
  match k.heap.kmalloc size.toNat with
  | none => .error () k
  | some (heap, addr) => .ok (BitVec.ofNat 64 addr) { k with heap := heap }

def kfree (addr : BitVec 64) : KernelM Unit :=
  modify fun k => { k with heap := k.heap.kfree addr.toNat }

def switchKernelStack (ring0rsp : BitVec 64) : KernelM Unit :=
  modify fun k => { k with rsp0 := ring0rsp }

/-! ## The screen -/

/-- The element of the frame buffer for a pixel. -/
def Display.element (display : Display) (x y : BitVec 32) : BitVec 64 :=
  display.base + 4 * BitVec.ofNat 64 ((display.horizontalResolution * y).toNat + x.toNat)

/-- `DrawPixel`. -/
def Display.stores (display : Display) (d : Drawn) : List (BitVec 64 × BitVec 8) :=
  let p := display.element d.x d.y
  [(p + 2, d.pixel.r), (p + 1, d.pixel.g), (p, d.pixel.b)]

def putc (display : Display) (c : BitVec 8) : KernelM Unit := do
  let k ← get
  let s := Screen.putc display.fontBitMap ⟨k.cursorX, k.cursorY, [], []⟩ c
  onRam (Ram.storeAll (s.drawn.flatMap display.stores))
  modify fun k => { k with cursorX := s.cursorX, cursorY := s.cursorY }

def puts (display : Display) : List (BitVec 8) → KernelM Unit
  | [] => return
  | c :: str =>
    if c = 0 then return
    else do
      putc display c
      puts display str

/-! ## `ATARead` -/

/-- Where a system call is when it gives the processor back. -/
inductive Progress
  | returned (ret : BitVec 64)
  /-- In `sleep`, with what it does once it has been woken. -/
  | sleeping (rest : KernelM (BitVec 64))
  /-- In the new program of a successful `sysExec`. -/
  | entered
  /-- In `Schedule`, as a zombie. -/
  | exited

/-- `ATARead` up to the wait; `none` when the queue is full. -/
def ataSubmit (lba sizeOfBytes : BitVec 32) (buffer : BitVec 64) : KernelM (Option AtaCall) :=
  fun k =>
    let c : AtaCall := ⟨k.current, lba.toNat, sizeOfBytes.toInt, buffer⟩
    match k.ata.submit c with
    | none => .ok none { k with ata := k.ata.refuse c }
    | some ata => .ok (some c) { k with ata := ata }

section Disk
variable (env : Environment)

/-- `ATARead` from the wait on, in the call `c`. -/
def ataServe (c : AtaCall) : KernelM (BitVec 32) := do
  let k ← get
  let ata := k.ata.serve env.disk env.floating c
  let o := ata.outcomes.headD ⟨c, -1, []⟩
  if k.ata.device = .failed then puts env.display [0x45, 0x52, 0x52, 0x4f, 0x52, 0x0a]
  onRam (Ram.storeAll o.stores)
  modify fun k => { k with ata := ata }
  return BitVec.ofInt 32 o.result

/-- `ATARead` with `enablePoll`. -/
def ataReadPoll (lba sizeOfBytes : BitVec 32) (buffer : BitVec 64) : KernelM (BitVec 32) := do
  match ← ataSubmit lba sizeOfBytes buffer with
  | none => return -1
  | some c =>
    let k ← get
    match k.ata.ataPollingUntilReady (k.answers.headD true) with
    | none => throw ()
    | some ata =>
      set { k with ata := ata, answers := k.answers.tail }
      ataServe env c

/-- `sleep` up to the switch. -/
def ataSleep (c : AtaCall) : KernelM Unit := modify fun k => { k with
  ata := { k.ata with
    state := Function.update k.ata.state c.process .sleep
    asleep := Function.update k.ata.asleep c.process (some c) } }

def ataWake (c : AtaCall) : KernelM Unit := modify fun k => { k with
  ata := { k.ata with asleep := Function.update k.ata.asleep c.process none } }

/-- `ATARead` without `enablePoll`; `rest` is what the caller does with the result. -/
def ataRead (lba sizeOfBytes : BitVec 32) (buffer : BitVec 64)
    (rest : BitVec 32 → KernelM (BitVec 64)) : KernelM Progress := do
  match ← ataSubmit lba sizeOfBytes buffer with
  | none => return .returned (← rest (-1))
  | some c =>
    ataSleep c
    return .sleeping do
      ataWake c
      rest (← ataServe env c)

end Disk

/-- A small screen, with its frame buffer at 2 GiB. -/
def smallDisplay : Display := ⟨⟨640, 480⟩, 0x80000000, fun _ _ _ => false⟩

end Amaterasu
