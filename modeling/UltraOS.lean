import UltraOS.ACPI
import UltraOS.Common.Conversions
import UltraOS.Common.RecursiveSpinLock
import UltraOS.Common.RedBlackTree.Moves
import UltraOS.Common.RefPtr
import UltraOS.Common.Sort
import UltraOS.Core.KernelSymbolTable
import UltraOS.Core.Syscall.UserPointers
import UltraOS.Core.Syscall.VirtualFree
import UltraOS.FileSystem.DiskCache.Requests
import UltraOS.FileSystem.FAT32.Accounting
import UltraOS.FileSystem.FAT32.Files.Identity
import UltraOS.FileSystem.FAT32.Files.Emptiness
import UltraOS.FileSystem.Pipe.Waiters
import UltraOS.FileSystem.Utilities
import UltraOS.FileSystem.VFS
import UltraOS.Memory.AddressSpace
import UltraOS.Memory.HeapAllocator.Run
import UltraOS.Memory.MemoryMap.Generate
import UltraOS.Memory.Utilities
import UltraOS.Memory.VirtualAllocator.Run
import UltraOS.Multitasking.IOStreams
import UltraOS.Multitasking.Mutex
import UltraOS.Multitasking.Scheduler.Invulnerability
import UltraOS.Multitasking.Scheduler.Order
import UltraOS.Multitasking.TaskLoader
import UltraOS.Userland.LibC.Malloc.Run
import UltraOS.Userland.LibC.Printf.Conformance
import UltraOS.Userland.LibC.String
import UltraOS.WindowManager.Rect
