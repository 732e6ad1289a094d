import Amaterasu.Library.BuddyBlock
import Amaterasu.Library.BuddyPool
import Amaterasu.Library.TidyPool
import Amaterasu.Library.LinkedLists
import Amaterasu.Library.CircularQueue
import Amaterasu.Library.Ring
import Amaterasu.Library.RingTurns
import Amaterasu.Library.Runs
import Amaterasu.Library.Regions
import Amaterasu.Library.ByteMemory
import Amaterasu.Library.FatVolume
import Amaterasu.Library.EventTimer
import Amaterasu.Library.BitField
import Amaterasu.Library.PageWalk
import Amaterasu.Library.Cpu
import Amaterasu.Library.Suspension
import Amaterasu.Library.Program
import Amaterasu.Library.Access
import Amaterasu.Library.DirectMap
import Amaterasu.Util
import Amaterasu.PhysicalMemory.Defs
import Amaterasu.PhysicalMemory.Lists
import Amaterasu.PhysicalMemory.FreeLists
import Amaterasu.PhysicalMemory.Allocate
import Amaterasu.PhysicalMemory.Init
import Amaterasu.PhysicalMemory.Free
import Amaterasu.PhysicalMemory.Runs
import Amaterasu.PhysicalMemory.FrameZero
import Amaterasu.PhysicalMemory.Descriptors
import Amaterasu.PhysicalMemory.Grant
import Amaterasu.PhysicalMemory.Orders
import Amaterasu.PhysicalMemory.Recovery
import Amaterasu.KHeap.Defs
import Amaterasu.KHeap.Blocks
import Amaterasu.KHeap.FreeLists
import Amaterasu.KHeap.Alloc
import Amaterasu.KHeap.Grant
import Amaterasu.KHeap.Free
import Amaterasu.KHeap.Runs
import Amaterasu.KHeap.Stray
import Amaterasu.KHeap.Buffer
import Amaterasu.RequestedOrder
import Amaterasu.Allocators
import Amaterasu.Process.Defs
import Amaterasu.Ata.Defs
import Amaterasu.Ata.Transfer
import Amaterasu.Ata.Queue
import Amaterasu.Ata.Registers
import Amaterasu.Ata.Loop
import Amaterasu.Ata.Runs
import Amaterasu.Ata.Trace
import Amaterasu.Ata.Dispatch
import Amaterasu.Ata.Ledger
import Amaterasu.Paging.Defs
import Amaterasu.Paging.Walk
import Amaterasu.Paging.FullWalk
import Amaterasu.Descriptors
import Amaterasu.Process.PageTable
import Amaterasu.Process.AddressSpace
import Amaterasu.Process.Fork
import Amaterasu.Process.PagedFork
import Amaterasu.Process.ForkMemory
import Amaterasu.Process.UserMemory
import Amaterasu.Process.Resume
import Amaterasu.Process.Duplicate
import Amaterasu.Process.KernelStack
import Amaterasu.Multitasking.Defs
import Amaterasu.Multitasking.Switch
import Amaterasu.Multitasking.Frames
import Amaterasu.Multitasking.Tasks
import Amaterasu.Multitasking.Isolation
import Amaterasu.Multitasking.Turns
import Amaterasu.Multitasking.Fork
import Amaterasu.Multitasking.Runs
import Amaterasu.Multitasking.Boot
import Amaterasu.Multitasking.Transparency
import Amaterasu.Multitasking.Confinement
import Amaterasu.Scheduler.Defs
import Amaterasu.Queue
import Amaterasu.Scheduler.Ring
import Amaterasu.Scheduler.System
import Amaterasu.Scheduler.Search
import Amaterasu.Scheduler.Wakeup
import Amaterasu.Scheduler.Pids
import Amaterasu.Process.ForkFailure
import Amaterasu.Scheduler.Current
import Amaterasu.Scheduler.Fairness
import Amaterasu.Kernel.Defs
import Amaterasu.Kernel.Access
import Amaterasu.File.Defs
import Amaterasu.File.Read
import Amaterasu.File.BootRecord
import Amaterasu.Kernel.Stores
import Amaterasu.File.Directory
import Amaterasu.File.DriveInit
import Amaterasu.File.Volume
import Amaterasu.Process.Exec
import Amaterasu.Process.ExecBounds
import Amaterasu.Process.ExecImage
import Amaterasu.Process.ForkFaults
import Amaterasu.Process.ExecFile
import Amaterasu.Process.SavedFrame
import Amaterasu.Syscall.Defs
import Amaterasu.Syscall.Confined
import Amaterasu.Syscall.ExecFailure
import Amaterasu.Console.Screen
import Amaterasu.Console.Picture
import Amaterasu.Console.Keyboard
import Amaterasu.Interrupts.Pic
import Amaterasu.Interrupts.Board
import Amaterasu.Interrupts.Timer
import Amaterasu.Interrupts.Clock
