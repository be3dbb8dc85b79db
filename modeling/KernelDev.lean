import KernelDev.Lib.Execution
import KernelDev.Lib.ObjectCache
import KernelDev.Lib.FdTable
import KernelDev.Lib.Selection
import KernelDev.Lib.Pipeline
import KernelDev.Lib.MarkedCells
import KernelDev.Lib.Decimal
import KernelDev.Lib.RequestFormat
import KernelDev.Lib.ProcWrite
import KernelDev.Wire.Kstrto
import KernelDev.Rms.State
import KernelDev.Rms.Operations
import KernelDev.Rms.Effects
import KernelDev.Rms.RateMonotonic
import KernelDev.Rms.System
import KernelDev.Rms.CurrentTask
import KernelDev.Rms.RunningTask
import KernelDev.Rms.PidMap
import KernelDev.Rms.Records
import KernelDev.Rms.Releases
import KernelDev.Rms.DispatcherThread
import KernelDev.Rms.StrictRelease
import KernelDev.Rms.SleepWake
import KernelDev.Rms.TimerLifetime
import KernelDev.Rms.TaskSet
import KernelDev.Rms.Admission
import KernelDev.Profiler.Buffer
import KernelDev.Profiler.Monitor
import KernelDev.Profiler.HandOver
import KernelDev.Loader.Load
import KernelDev.Runtime.Cleanup
import KernelDev.Runtime.Spinlock
import KernelDev.Runtime.Packet
import KernelDev.Runtime.Confinement
import KernelDev.Rms.Write
import KernelDev.Profiler.Sampler
import KernelDev.Profiler.Sampling
import KernelDev.Profiler.Accounting
import KernelDev.Profiler.Write
import KernelDev.Profiler.Membership
import KernelDev.Wire.Grammar
import KernelDev.Wire.Clients
import KernelDev.Wire.Retry
import KernelDev.Rms.Unload
import KernelDev.Profiler.Unload
import KernelDev.Unload
import KernelDev.Runtime.Coherence
import KernelDev.Runtime.FieldTransmute
import KernelDev.Lib.Slots
import KernelDev.Runtime.CleanupTable
import KernelDev.Lib.Memory
import KernelDev.Lib.Emplace
import KernelDev.Loader.Maps
import KernelDev.Loader.Object
import KernelDev.Loader.Process
import KernelDev.Lib.Join
import KernelDev.Loader.Programs
import KernelDev.Lib.Ratios
import KernelDev.Rms.Utilization
import KernelDev.Lib.Sums
import KernelDev.Lib.OnesComplement
import KernelDev.Runtime.Checksum
import KernelDev.Lib.WriteBuffer
import KernelDev.Wire.Buffer
import KernelDev.Lib.Writes
import KernelDev.Lib.ProcRead
import KernelDev.Lib.Listing
import KernelDev.Lib.Disclosure
import KernelDev.Lib.Overrun
import KernelDev.Rms.Read
import KernelDev.Profiler.Read
import KernelDev.Wire.Reads
import KernelDev.Rms.Overflow
import KernelDev.Lib.Ring
import KernelDev.Profiler.Ring
import KernelDev.Profiler.Reserved
import KernelDev.Lib.Ipv4
import KernelDev.Runtime.Headers
import KernelDev.Blocker.Filter
import KernelDev.Loader.FixMaps
import KernelDev.Loader.Descriptors
import KernelDev.Lib.Comparison
import KernelDev.Lib.Utf8
import KernelDev.Runtime.Strcmp
import KernelDev.Profiler.MonitorSteps
import KernelDev.Lib.Paging
import KernelDev.Profiler.Mmap
import KernelDev.Loader.Relocs
import KernelDev.Loader.Sections
import KernelDev.Loader.Construct
import KernelDev.Lib.LinkRing
import KernelDev.Lists.ListHead
import KernelDev.Lib.Traversal
import KernelDev.Lists.Family
import KernelDev.Lists.ForEach
import KernelDev.Lists.Records
import KernelDev.Rms.ListNodes
import KernelDev.Rms.InMemory
import KernelDev.Lib.Session
import KernelDev.Rms.Session
import KernelDev.Profiler.Session
import KernelDev.Profiler.InMemory
import KernelDev.Wire.Apps
import KernelDev.Rms.Schedulability
import KernelDev.Rms.Dispatches
import KernelDev.Loader.RustOut
import KernelDev.Loader.MapLookup
