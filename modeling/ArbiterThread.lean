import ArbiterThread.Lib.Exec
import ArbiterThread.Lib.Bytes
import ArbiterThread.Lib.Rings
import ArbiterThread.Lib.LinkedList
import ArbiterThread.Lib.Spans
import ArbiterThread.Lib.Transitions
import ArbiterThread.Lib.Server
import ArbiterThread.Common.Lists
import ArbiterThread.Label
import ArbiterThread.Malloc.State
import ArbiterThread.Malloc.Alloc
import ArbiterThread.Malloc.Sbrk
import ArbiterThread.Malloc.Free
import ArbiterThread.Malloc.Frame
import ArbiterThread.Malloc.Quiet
import ArbiterThread.Malloc.Section
import ArbiterThread.Malloc.Lock
import ArbiterThread.Malloc.Units
import ArbiterThread.Malloc.Placement
import ArbiterThread.Malloc.UnitLookup
import ArbiterThread.Malloc.Fresh
import ArbiterThread.Malloc.Mapped
import ArbiterThread.Malloc.Heap
import ArbiterThread.Malloc.Tidy
import ArbiterThread.Malloc.Holds
import ArbiterThread.Malloc.Steps
import ArbiterThread.Malloc.Bins
import ArbiterThread.Malloc.Cut
import ArbiterThread.Malloc.Merge
import ArbiterThread.Malloc.Search
import ArbiterThread.Malloc.Tops
import ArbiterThread.Malloc.Arena
import ArbiterThread.Malloc.Counters
import ArbiterThread.Malloc.Obtain
import ArbiterThread.Malloc.Request
import ArbiterThread.Malloc.Release
import ArbiterThread.Malloc.Resize
import ArbiterThread.Malloc.Realloc
import ArbiterThread.Malloc.Run
import ArbiterThread.Malloc.Walk
import ArbiterThread.Malloc.Service
import ArbiterThread.Malloc.Failure
import ArbiterThread.Malloc.Remnants
import ArbiterThread.Malloc.Store
import ArbiterThread.Arbiter.Rpc
import ArbiterThread.Arbiter.Datagram
import ArbiterThread.Arbiter.Category
import ArbiterThread.Arbiter.Protection
import ArbiterThread.Arbiter.Registry
import ArbiterThread.Arbiter.Lookup
import ArbiterThread.Arbiter.Uninit
import ArbiterThread.Arbiter.Outsiders
import ArbiterThread.Arbiter.Answers
import ArbiterThread.Arbiter.Monitor
import ArbiterThread.Kernel.Control
import ArbiterThread.Kernel.Futex
import ArbiterThread.Kernel.Ring
import ArbiterThread.Kernel.Vm
import ArbiterThread.Kernel.Grants
import ArbiterThread.Kernel.Sharing
import ArbiterThread.Kernel.Segment
import ArbiterThread.Kernel.Areas
import ArbiterThread.Kernel.VmCalls
import ArbiterThread.Kernel.Propagate
import ArbiterThread.Kernel.Unmap
import ArbiterThread.Kernel.Break
import ArbiterThread.Kernel.Mmap
import ArbiterThread.Kernel.Protect
import ArbiterThread.Client.Create
import ArbiterThread.Client.Stubs
import ArbiterThread.Client.Session
