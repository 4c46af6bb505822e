import FeatherOS.Library.Run
import FeatherOS.Library.LinkedTree
import FeatherOS.Library.SearchTree
import FeatherOS.Library.RedBlack
import FeatherOS.Kmalloc
import FeatherOS.Vma.Model
import FeatherOS.Vma.Insert
import FeatherOS.Library.Bitmap
import FeatherOS.Memory.Model
import FeatherOS.Memory.Frames
import FeatherOS.Memory.Statistics
import FeatherOS.Memory.LowMemory
import FeatherOS.Memory.Search
import FeatherOS.Memory.Marking
import FeatherOS.Library.RadixTable
import FeatherOS.Paging.Model
import FeatherOS.Paging.Refinement
import FeatherOS.Paging.Translation
import FeatherOS.Vma.Mmap
import FeatherOS.Vma.Placement
import FeatherOS.Library.ByteMemory
import FeatherOS.Library.Chain
import FeatherOS.Slab.Model
import FeatherOS.Slab.Layout
import FeatherOS.Slab.Views
import FeatherOS.Slab.Changes
import FeatherOS.Slab.Calls
import FeatherOS.Slab.System
import FeatherOS.Slab.Ledger
import FeatherOS.Slab.Blocks
import FeatherOS.Slab.Consistency
import FeatherOS.Slab.Reclaim
import FeatherOS.Slab.Containment
import FeatherOS.Fifo.Model
import FeatherOS.Fifo.Stream
import FeatherOS.Process.Model
import FeatherOS.Process.Pids
import FeatherOS.Process.Table
import FeatherOS.Library.Cyclic
import FeatherOS.Library.Probing
import FeatherOS.Hash.Model
import FeatherOS.Hash.Probes
import FeatherOS.Hash.Refinement
import FeatherOS.Hash.StringMap
import FeatherOS.Library.TreeRemoval
import FeatherOS.Vma.Munmap
import FeatherOS.Vma.Erase
import FeatherOS.Vma.Walks
import FeatherOS.Vma.Unmapped
import FeatherOS.Paging.Supply
import FeatherOS.Vma.Backing
import FeatherOS.Vma.AllOrNothing
import FeatherOS.Sched.Model
import FeatherOS.Sched.Queue
import FeatherOS.Sched.Invariant
import FeatherOS.Sched.Current
import FeatherOS.Sched.Runnable
import FeatherOS.Library.Buckets
import FeatherOS.Timer.Model
import FeatherOS.Timer.Wheel
import FeatherOS.Timer.Pending
import FeatherOS.Timer.OnTime
import FeatherOS.Buffer.Chains
import FeatherOS.Sched.Ageing
import FeatherOS.Sched.Preemption
import FeatherOS.Sched.Minimum
import FeatherOS.Sched.Counters
import FeatherOS.Sched.Divisors
import FeatherOS.Sched.Load
import FeatherOS.Sched.Descents
import FeatherOS.Sched.Acyclic
import FeatherOS.Buffer.Model
import FeatherOS.Buffer.Session
import FeatherOS.Library.CachedStore
import FeatherOS.Buffer.WriteBack
import FeatherOS.Buffer.Coherence
import FeatherOS.Library.DoublyLinked
import FeatherOS.Requests.Model
import FeatherOS.Requests.Fifo
import FeatherOS.Ramdisk.Model
import FeatherOS.Ramdisk.Sectors
import FeatherOS.Ramdisk.Registry
import FeatherOS.Ata.Model
import FeatherOS.Ata.Transfers
import FeatherOS.Library.Extents
import FeatherOS.Tmpfs.Model
import FeatherOS.Tmpfs.Session
import FeatherOS.Tmpfs.Blocks
import FeatherOS.Tmpfs.Accounting
import FeatherOS.Tmpfs.Contents
import FeatherOS.Vfs.Model
import FeatherOS.Vfs.Transparency
import FeatherOS.Vfs.Lifetime
import FeatherOS.Library.Threads
import FeatherOS.Sync.RwLock
import FeatherOS.Sync.Semaphore
import FeatherOS.Sync.Condvar
import FeatherOS.Sync.IrqLock
import FeatherOS.Sync.Mutex
import FeatherOS.Net.SkBuff
import FeatherOS.Net.SkbOrder
import FeatherOS.Net.Socket
import FeatherOS.Net.Records
import FeatherOS.Net.Transmit
import FeatherOS.Net.Bounds
import FeatherOS.Library.Fields
import FeatherOS.Net.Stream
import FeatherOS.Net.Listening
import FeatherOS.Library.FirstMatch
import FeatherOS.Net.Lookup
import FeatherOS.Library.EndAround
import FeatherOS.Net.Ip
import FeatherOS.Net.Frame
import FeatherOS.Net.Datagram
import FeatherOS.Net.Lossless
import FeatherOS.Library.Shifting
import FeatherOS.Net.Routes
import FeatherOS.Paging.Vmalloc
import FeatherOS.Paging.Vmm
import FeatherOS.Paging.Window
import FeatherOS.Paging.DirectTables
import FeatherOS.Paging.VmallocMap
import FeatherOS.Paging.Faults
import FeatherOS.Paging.UserAccess
import FeatherOS.Paging.DirectMap
import FeatherOS.Paging.Ranges
import FeatherOS.Process.Stacks
import FeatherOS.Library.WordStack
import FeatherOS.Process.Switch
import FeatherOS.Process.Resume
import FeatherOS.Memory.Heap
import FeatherOS.Library.Replay
import FeatherOS.Containers.Vector
import FeatherOS.Containers.LinkedList
import FeatherOS.Containers.Ring
import FeatherOS.Vfs.Dentries
import FeatherOS.Syscall.Files
import FeatherOS.Library.Lines
import FeatherOS.Syscall.Keyboard
import FeatherOS.Library.TextRows
import FeatherOS.Console.Vga
import FeatherOS.Console.Readline
import FeatherOS.Console.Serial
import FeatherOS.Vma.Lookup
import FeatherOS.Vma.Removal
import FeatherOS.Library.StableSort
import FeatherOS.Sched.Sorting
import FeatherOS.Sched.Dequeue
import FeatherOS.Library.RunningBest
import FeatherOS.Net.LongestPrefix
import FeatherOS.Net.SingleBit
import FeatherOS.Net.WellFormed
import FeatherOS.Net.AddressParse
import FeatherOS.Net.AddressPrint
import FeatherOS.Memory.Strings
import FeatherOS.Vfs.PathJoin
import FeatherOS.Vfs.FindMount
import FeatherOS.Vfs.CacheBound
import FeatherOS.Library.NamedTree
import FeatherOS.Vfs.PathWalk
import FeatherOS.Library.OpenFiles
import FeatherOS.Vfs.Handles
import FeatherOS.Memory.Memmove
import FeatherOS.Library.KeyedSlots
import FeatherOS.Net.ArpCache
import FeatherOS.Net.Arp
import FeatherOS.Library.BoundedFifo
import FeatherOS.Net.Queues
import FeatherOS.Input.Keyboard
import FeatherOS.Input.Mouse
import FeatherOS.Library.Words
import FeatherOS.Library.DigitalLine
import FeatherOS.Framebuffer.Line
import FeatherOS.Library.FixedScale
import FeatherOS.Framebuffer.Stretch
import FeatherOS.Library.SavedRegisters
import FeatherOS.Arch.Entry
import FeatherOS.Library.BlankRuns
import FeatherOS.Userland.ParseLine
import FeatherOS.Library.Numerals
import FeatherOS.Console.NumberText
import FeatherOS.Console.Printf
import FeatherOS.Console.Rendering
import FeatherOS.Console.PrintedRight
import FeatherOS.Library.ByteImage
import FeatherOS.Library.TracedMemory
import FeatherOS.Exec.Elf
import FeatherOS.Exec.Segments
import FeatherOS.Exec.Loading
import FeatherOS.Exec.Placement
import FeatherOS.Exec.Hostile
