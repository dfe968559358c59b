import Zircon.Types
import Zircon.Lib.StdAlgorithm
import Zircon.Lib.BitField
import Zircon.Lib.ExceptFold
import Zircon.Lib.IntervalLabels
import Zircon.Lib.Align
import Zircon.Lib.Dyadic
import Zircon.Topology.SystemTopology
import Zircon.PowerManagement.EnergyModel
import Zircon.PowerManagement.PowerState
import Zircon.Object.JobPolicy
import Zircon.Object.Resource
import Zircon.Memalloc.Range
import Zircon.Memalloc.Algorithm
import Zircon.Lib.NodeList
import Zircon.Memalloc.Pool
import Zircon.Memalloc.PoolRuns
import Zircon.Memalloc.PoolTypes
import Zircon.Lib.WavlTree
import Zircon.Sched.RunQueue
import Zircon.Sched.Runs
import Zircon.Sched.Accounting
import Zircon.Sched.Affine
import Zircon.Object.Fifo
import Zircon.Vm.SlotPageStorage
import Zircon.Pow2RangeAllocator
import Zircon.Pow2RangeAllocator.Buddy
import Zircon.Devicetree.Walk
import Zircon.Devicetree.Match
import Zircon.Vm.RegionList
import Zircon.Vm.ContentSizeManager
import Zircon.Vm.PmmArena
import Zircon.Memalloc.PoolAllocate
import Zircon.Memalloc.PoolUpdate
import Zircon.Memalloc.PoolTruncate
import Zircon.Kernel.Timer
import Zircon.Lib.ScanLeft
import Zircon.Vm.PageList
import Zircon.Vm.PageListCov
import Zircon.Vm.PageListOps
import Zircon.Vm.PageListOverwrite
import Zircon.Vm.PageListTree
import Zircon.Vm.PageListTraversal
import Zircon.Vm.PageListMove
import Zircon.Vm.PageListPopulate
import Zircon.Devicetree.NodePath
import Zircon.Devicetree.Property
import Zircon.Lib.RingBuffer
import Zircon.PersistentDebuglog
import Zircon.Lib.RangeSearch
import Zircon.VirtualAlloc.RawBitmap
import Zircon.VirtualAlloc.Alloc
import Zircon.VirtualAlloc.Guards
import Zircon.Lib.Text
import Zircon.BootOptions.ParseInt
import Zircon.BootOptions.Values
import Zircon.BootOptions.SetMany
import Zircon.BootOptions.KernelOptions
import Zircon.Memalloc.FindContaining
import Zircon.Lib.Merge
import Zircon.Memalloc.RangeStream
import Zircon.Lib.LeadingZeros
import Zircon.Cmpctmalloc.Buckets
import Zircon.Cmpctmalloc.Memalign
import Zircon.Lib.QueueRun
import Zircon.Object.MBuf
import Zircon.Object.MBufStream
import Zircon.Object.MBufDatagram
import Zircon.Object.Socket
import Zircon.Object.SocketInv
import Zircon.Object.SocketFifo
import Zircon.SpscBuffer.Basic
import Zircon.SpscBuffer.Fifo
