import X86Kernel.Core
import X86Kernel.Libk
import X86Kernel.Lib.Run
import X86Kernel.Lib.Outcome
import X86Kernel.Lib.Window
import X86Kernel.Lib.ColorTree
import X86Kernel.Lib.Gap
import X86Kernel.Lib.Probe
import X86Kernel.Lib.Assoc
import X86Kernel.Lib.Linked
import X86Kernel.Lib.Stretch
import X86Kernel.Lib.Tiling
import X86Kernel.Lib.Summary
import X86Kernel.Lib.HalfUp
import X86Kernel.Lib.Unfolding
import X86Kernel.Lib.Stack
import X86Kernel.Lib.Owners
import X86Kernel.Utils.RingQueue
import X86Kernel.Utils.FlatHashmap
import X86Kernel.Utils.FlatHashmap.Table
import X86Kernel.Utils.FlatHashmap.Occupancy
import X86Kernel.Utils.FlatHashmap.Rehash
import X86Kernel.Utils.FlatHashmap.Destroy
import X86Kernel.Utils.FlatHashmap.Foreach
import X86Kernel.Utils.FlatHashmap.Refines
import X86Kernel.Utils.FlatHashmap.Growth
import X86Kernel.Utils.RbTree
import X86Kernel.Utils.RbTree.Layout
import X86Kernel.Utils.RbTree.Walk
import X86Kernel.Utils.RbTree.Insert
import X86Kernel.Utils.RbTree.Delete
import X86Kernel.Utils.RbTree.Runs
import X86Kernel.Utils.RbTree.Contents
import X86Kernel.Utils.RbTree.Search
import X86Kernel.Utils.RbTree.Traversal
import X86Kernel.Utils.RbTree.Free
import X86Kernel.Utils.RbTree.Augment
import X86Kernel.Utils.RbTree.Summaries
import X86Kernel.Memory.VirtRegion
import X86Kernel.Memory.VirtRegion.Registry
import X86Kernel.Memory.VirtRegion.LowRegions
import X86Kernel.Memory.FrameAlloc
import X86Kernel.Memory.FrameAlloc.Intact
import X86Kernel.Memory.FrameAlloc.Runs
import X86Kernel.Memory.FrameAlloc.Footprint
import X86Kernel.Boot.BootData
import X86Kernel.Boot.Paging
import X86Kernel.Memory.BitmapAlloc
import X86Kernel.Memory.BitmapAlloc.AllocPages
import X86Kernel.Memory.BitmapAlloc.Init
import X86Kernel.Memory.BitmapAlloc.Hint
import X86Kernel.Memory.PfnHandler
import X86Kernel.Memory.Paging
import X86Kernel.Memory.Paging.Shortage
import X86Kernel.Memory.PfnHandler.EarlyMap
import X86Kernel.Memory.Paging.Unmap
import X86Kernel.Memory.Paging.Flags
import X86Kernel.Memory.Heap
import X86Kernel.Memory.Heap.FreeLists
import X86Kernel.Memory.Heap.FreeBlocks
import X86Kernel.Memory.Heap.Buddy
import X86Kernel.Memory.Heap.Undo
import X86Kernel.Memory.Heap.Slab
import X86Kernel.Memory.Heap.AllocSlab
import X86Kernel.Memory.Heap.FreeSlab
import X86Kernel.Memory.Heap.SlabRuns
import X86Kernel.Memory.Heap.ObjSizes
import X86Kernel.Memory.Heap.Tally
import X86Kernel.Memory.Heap.Ledger
import X86Kernel.Memory.Heap.SlabFrame
import X86Kernel.Memory.Heap.Calls
import X86Kernel.Memory.Heap.Outline
import X86Kernel.Memory.Heap.AddBuddies
import X86Kernel.Memory.Heap.Kmalloc
import X86Kernel.Memory.Heap.Growth
import X86Kernel.Memory.Heap.State
import X86Kernel.Memory.Heap.Krealloc
import X86Kernel.Memory.Manager
import X86Kernel.Memory.Manager.Mapping
import X86Kernel.Memory.Manager.Accounting
import X86Kernel.Memory.Manager.Release
import X86Kernel.Memory.Manager.BumpAlloc
import X86Kernel.Memory.Manager.HandOver
import X86Kernel.Memory.Manager.HeapRegion
import X86Kernel.Memory.Manager.Regions
import X86Kernel.Memory.Manager.InitMemory
import X86Kernel.Vfs.Mount
import X86Kernel.Ext2.Fetch
import X86Kernel.Ext2.BlockTree
import X86Kernel.Ext2.Refusal
import X86Kernel.Vfs.Path
import X86Kernel.Vfs.Path.Transparent
import X86Kernel.Vfs.Path.DirScan
import X86Kernel.Vfs.Path.Directory
import X86Kernel.Vfs.Path.LongNames
import X86Kernel.Vfs.Path.Files
import X86Kernel.Block.Ide
import X86Kernel.Block.Ide.Status
import X86Kernel.Block.Ide.Ports
import X86Kernel.Block.Ide.Prdt
import X86Kernel.Block.Ide.Transfer
import X86Kernel.Block.Disk
import X86Kernel.Block.Partition
import X86Kernel.Block.Buffer
import X86Kernel.Block.Capacity
import X86Kernel.Ext2.ReadBytes
import X86Kernel.Ext2.Superblock
import X86Kernel.Ext2.Inode
import X86Kernel.Drivers.Pit
import X86Kernel.Drivers.Pit.Clock
import X86Kernel.Drivers.Tty
import X86Kernel.Libk.Printf
import X86Kernel.Firmware.Acpi
import X86Kernel.Firmware.Pci
import X86Kernel.Firmware.PciOps
import X86Kernel.Interrupts.Stubs
import X86Kernel.Interrupts.Irq
import X86Kernel.Threads.Spinlock
import X86Kernel.Drivers.Ps2
import X86Kernel.Drivers.Pic
import X86Kernel.KernelMain
import X86Kernel.KernelMain.Console
