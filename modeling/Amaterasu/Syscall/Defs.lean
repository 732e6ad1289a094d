import Amaterasu.Process.Exec
import Amaterasu.Process.PagedFork

/-! `SyscallHandler`. -/

namespace Amaterasu
open PageWalk

def syscallRead : BitVec 64 := 0
def syscallPut : BitVec 64 := 1
def syscallOpen : BitVec 64 := 2
def syscallExec : BitVec 64 := 59
def syscallExit : BitVec 64 := 60
def syscallAtaRead : BitVec 64 := 61
def syscallFork : BitVec 64 := 62

/-- Locals of the C code: the address of the array of `GetFileInfo`, and what `ret` holds when
nothing has been assigned to it. -/
structure Locals where
  sector : BitVec 64
  ret : BitVec 64

/-- `sysExit` up to the switch. -/
def sysExit : KernelM Unit := modify fun k => { k with
  ata := { k.ata with state := Function.update k.ata.state k.current .zombie } }

def sysForkKernel (env : Environment) (rsp : BitVec 64) : KernelM (BitVec 32) := do
  let k ← get
  let r ← onRam (Paged.sysFork env.returnFromSysFork k.frames rsp k.process)
  modify fun k => { k with frames := r.2.2, children := r.2.1 :: k.children }
  return r.1

def syscallHandler (env : Environment) (locals : Locals)
    (syscallId rsp arg1 arg2 arg3 : BitVec 64) : KernelM Progress := do
  if syscallId = syscallRead then
    let file ← loadFile arg1
    readFile env file arg2
  else if syscallId = syscallPut then
    putc env.display (arg1.setWidth 8)
    return .returned locals.ret
  else if syscallId = syscallOpen then
    getFileInfo env arg1 arg2 locals.sector
  else if syscallId = syscallExec then
    if ← sysExec env locals.sector rsp arg1 then return .entered else return .returned locals.ret
  else if syscallId = syscallExit then
    sysExit
    return .exited
  else if syscallId = syscallAtaRead then
    ataRead env (arg1.setWidth 32) (arg2.setWidth 32) arg3 fun ret => return ret.signExtend 64
  else if syscallId = syscallFork then
    return .returned ((← sysForkKernel env rsp).signExtend 64)
  else return .returned locals.ret

end Amaterasu
