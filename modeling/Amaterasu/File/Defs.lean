import Amaterasu.Kernel.Defs

/-! `strncmp` and `strnlength` of `util.c`, and the FAT directory of `file.c`. `GetFileInfo` is cut
where it waits for the disk: `readRootDir…` is what it does first, `searchRootDir` the rest. The
record that `GetFileInfo` fills through `file` is its result here; the caller stores it. -/

namespace Amaterasu
open PageWalk

/-- `strncmp` from character `i` on, with `left` characters to go. -/
def strncmp (a b : BitVec 64) (i : Nat) : Nat → KernelM (BitVec 32)
  | 0 => return 0
  | left + 1 => do
    let x ← load (a + BitVec.ofNat 64 i)
    let y ← load (b + BitVec.ofNat 64 i)
    if x ≠ y then return 1 else strncmp a b (i + 1) left

/-- `strnlength` from character `length` on; an `int` counts no further than `left` characters
more. -/
def strnlength (a : BitVec 64) (length : Nat) : Nat → KernelM Nat
  | 0 => throw ()
  | left + 1 => do
    let c ← load (a + BitVec.ofNat 64 length)
    if c = 0 then return length else strnlength a (length + 1) left

def intMax : Nat := 2 ^ 31 - 1

structure File where
  start : BitVec 64
  size : BitVec 64
deriving DecidableEq

def loadFile (file : BitVec 64) : KernelM File := do
  let start ← loadWord file
  let size ← loadWord (file + 8)
  return ⟨start, size⟩

def storeFile (file : BitVec 64) (f : File) : KernelM Unit := storeWords file [f.start, f.size]

section Disk
variable (env : Environment)

/-- The loop over the entries of the sector at `buffer`, from entry `i` on. -/
def searchEntries (filename buffer : BitVec 64) (length i : Nat) : Nat → KernelM (Option File)
  | 0 => return none
  | left + 1 => do
    let entry := buffer + BitVec.ofNat 64 (32 * i)
    if (← load entry) = 0 then searchEntries filename buffer length (i + 1) left
    else if (← strncmp filename entry 0 length) ≠ 0 then
      searchEntries filename buffer length (i + 1) left
    else
      let clusterHead ← loadShort (entry + 26)
      let filesize ← loadInt (entry + 28)
      let cluster := env.partition.sectorsOfCluster.setWidth 32 * (clusterHead.setWidth 32 - 2)
      return some ⟨(env.partition.dataStartLBA + cluster).setWidth 64, filesize.setWidth 64⟩

/-- `GetFileInfo` from the return of `ATARead` on; the sector is at `buffer`. -/
def searchRootDir (filename buffer : BitVec 64) : KernelM (Option File) := do
  let length ← strnlength filename 0 (intMax + 1)
  searchEntries env filename buffer length 0 16

/-- `GetFileInfo` with `enablePoll`; `buffer` is the address of its local array. -/
def getFileInfoPoll (filename buffer : BitVec 64) : KernelM (Option File) := do
  let _ ← ataReadPoll env env.partition.rootDirStartLBA 512 buffer
  searchRootDir env filename buffer

/-- `GetFileInfo` without `enablePoll`. -/
def getFileInfo (filename file buffer : BitVec 64) : KernelM Progress :=
  ataRead env env.partition.rootDirStartLBA 512 buffer fun _ => do
    match ← searchRootDir env filename buffer with
    | none => return 0
    | some f =>
      storeFile file f
      return 1

/-- `ReadFile` with `enablePoll`. -/
def readFilePoll (file : File) (buffer : BitVec 64) : KernelM (BitVec 32) :=
  ataReadPoll env (file.start.setWidth 32) (file.size.setWidth 32) buffer

/-- `ReadFile` without `enablePoll`, as the last call of `SyscallHandler`. -/
def readFile (file : File) (buffer : BitVec 64) : KernelM Progress :=
  ataRead env (file.start.setWidth 32) (file.size.setWidth 32) buffer fun ret =>
    return ret.signExtend 64

end Disk
end Amaterasu
