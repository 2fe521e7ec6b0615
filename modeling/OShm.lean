import OShm.Lib.Transition
import OShm.Lib.ChainedTable
import OShm.Kernel.Task
import OShm.Kernel.KvStore
import OShm.Kernel.Fork
import OShm.Kernel.System
import OShm.Kernel.KvIsolation
import OShm.Kernel.KvRefinement
import OShm.Kernel.KvLifecycle
import OShm.Lib.Ledger
import OShm.Kernel.ForkUnwind
import OShm.Vdso.Vtask
import OShm.Vdso.Exposure
import OShm.Vdso.SharedMm
import OShm.Vdso.CallerIdentity
import OShm.Vdso.MapVdso
import OShm.Vdso.AddressAgreement
import OShm.Vdso.Placement
import OShm.Net.Attrs
import OShm.Net.Socket
import OShm.Net.Thread
import OShm.Net.Accounting
import OShm.Net.Priority
import OShm.Net.AttrSafety
import OShm.Lib.CLayout
import OShm.Acpi.Mytb
import OShm.Lib.PathString
import OShm.Lib.Dict
import OShm.Gptfs.Path
import OShm.Gptfs.Ops
import OShm.Gptfs.Tree
import OShm.Gptfs.Refinement
import OShm.Gptfs.Consistency
import OShm.Gptfs.Size
import OShm.Gptfs.Requests
import OShm.Gptfs.Isolation
import OShm.Lib.ByteFile
import OShm.Ramfs.Path
import OShm.Ramfs.Flush
import OShm.Ramfs.WriteBack
import OShm.Ramfs.Persisted
import OShm.Lib.Program
import OShm.Lib.PathWalk
import OShm.Ramfs.Namei
import OShm.Ramfs.Vfs
import OShm.Ramfs.FlushPaths
import OShm.Ramfs.FlushNames
import OShm.Ramfs.FlushClean
import OShm.Ramfs.LinkedDisk
import OShm.Ramfs.PlainDisk
import OShm.Ramfs.Atomic
import OShm.Ramfs.FailedFlush
import OShm.Ramfs.FlushCompare
import OShm.Ramfs.VfsCalls
import OShm.Ramfs.FlushPlain
import OShm.Ramfs.FlushOutcome
import OShm.Ramfs.Binding
import OShm.Ramfs.FlushLeak
import OShm.Ramfs.WriteChain
import OShm.Lib.Ancestry
import OShm.Ramfs.Dcache
import OShm.Ramfs.Reopen
import OShm.Ramfs.Proc
import OShm.Ramfs.Rebind
import OShm.Lib.CBuffer
import OShm.Ramfs.BindCommand
import OShm.Tcpdump.Capture
import OShm.Lib.FlatMemory
import OShm.Lib.Descent
import OShm.Acpi.MyAcpi
import OShm.Acpi.Walk
import OShm.Acpi.ChangeTable
import OShm.Lib.RowScan
import OShm.Nccl.Report
import OShm.Nccl.Compare
import OShm.Acpi.MyAddAcpi
import OShm.Kernel.KvBuckets
import OShm.Ramfs.CopyContent
import OShm.Lib.Digits
import OShm.Ramfs.TmpNames
import OShm.Lib.AtomicObject
import OShm.Lib.LinkedChain
import OShm.Kernel.KvLocking
import OShm.Kernel.KvLinearizable
import OShm.Kernel.KvProgress
import OShm.Lib.OwnedHeap
import OShm.Ramfs.Mount
import OShm.Ramfs.MountRefinement
import OShm.Ramfs.MountOptions
import OShm.Ramfs.BindRace
import OShm.Ramfs.Inodes
import OShm.Ramfs.InodeLinks
import OShm.Ramfs.SimpleOps
import OShm.Ramfs.InodeRuns
import OShm.Vdso.Vvar
import OShm.Vdso.VvarCoherence
import OShm.Vdso.MapOnce
import OShm.Lib.RefCount
import OShm.Net.Layer
import OShm.Net.LayerSafety
import OShm.Net.LayerRuns
import OShm.Ramfs.Snapshots
import OShm.Lib.Custody
import OShm.Ramfs.FlushCustody
