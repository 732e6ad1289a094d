import Amaterasu.File.Defs

/-! `sysExec`. It is cut where the file is in its buffer, `execImage` is the rest, and where the
headers have been read. -/

namespace Amaterasu
open Cpu Function

/-! ## The headers of `elf.h` -/

/-- The field `e_entry` of `struct Elf64_Ehdr`, as an offset. -/
def eEntry : BitVec 64 := 24
def ePhoff : BitVec 64 := 32

/-- The fields of `struct Elf64_Phdr`, as offsets. -/
def pOffset : BitVec 64 := 8
def pVaddr : BitVec 64 := 16
def pFilesz : BitVec 64 := 32
def pMemsz : BitVec 64 := 40

/-! ## The call -/

def csSegmentSelectorUser : BitVec 64 := 27
def ssSegmentSelectorUser : BitVec 64 := 35

/-- The registers with which the new program starts. -/
def execRegisters (entryPoint : BitVec 64) : Context where
  reg := update (update (fun _ => 0) .rsp 0xfffffffffffffff8) .rbp 0xfffffffffffffff8
  rip := entryPoint
  cs := csSegmentSelectorUser
  rflags := 0x202
  ss := ssSegmentSelectorUser

/-- `sysExec` from the copy on, up to the jump to `return_from_sys_exec`. -/
def execSegment (rsp buffer entryPoint textSegmentSize textSegmentOffset : BitVec 64) :
    KernelM Unit := do
  let processMemory := (← get).process.processMemory
  memcpy processMemory.textSegmentPageFrame (buffer + textSegmentOffset) textSegmentSize
  storeWords rsp (interruptStack (execRegisters entryPoint))
  switchKernelStack (processMemory.kernelStackPageFrame - 8 + pageSize)
  kfree buffer

/-- `sysExec` from the ELF header in `buffer` on. -/
def execImage (rsp buffer : BitVec 64) : KernelM Unit := do
  let entryPoint ← loadWord (buffer + eEntry)
  let phoff ← loadWord (buffer + ePhoff)
  let phdr := buffer + phoff
  let textSegmentSize ← loadWord (phdr + pMemsz)
  let textSegmentOffset ← loadWord (phdr + pOffset)
  execSegment rsp buffer entryPoint textSegmentSize textSegmentOffset

/-- `sysExec`; false is the result -1, true is the jump. `sector` is the address of the local array
of `GetFileInfo`. -/
def sysExec (env : Environment) (sector rsp filename : BitVec 64) : KernelM Bool := do
  match ← getFileInfoPoll env filename sector with
  | none => return false
  | some file =>
    let buffer ← kmalloc (file.size.setWidth 32)
    if buffer = 0 then return false
    else if (← readFilePoll env file buffer).signExtend 64 ≠ file.size then return false
    else
      execImage rsp buffer
      return true

end Amaterasu
