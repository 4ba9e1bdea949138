import NvmeVirt.Ftl.Safety
import NvmeVirt.Ftl.Traversal
import NvmeVirt.Ftl.Collection
import NvmeVirt.Fdp.Stats
import NvmeVirt.Fdp.Range
import NvmeVirt.Fdp.Addresses
import NvmeVirt.Fdp.LogPages
import NvmeVirt.Fdp.WriteCredits
import NvmeVirt.Fdp.Read
import NvmeVirt.Fdp.Refusal
import NvmeVirt.Fdp.FreeLines
import NvmeVirt.Fdp.Symmetry
import NvmeVirt.Fdp.Assertions
import NvmeVirt.Conv.FreeLines
import NvmeVirt.Admin.Protocol
import NvmeVirt.Zns.Balance
import NvmeVirt.Zns.Report
import NvmeVirt.Zns.Addressing
import NvmeVirt.Kv.Values
import NvmeVirt.Kv.BatchStores
import NvmeVirt.Kv.IterHandles
import NvmeVirt.Kv.Acyclic
import NvmeVirt.Kv.Allocators
import NvmeVirt.Io.Lists
import NvmeVirt.Nvme.DataPath
import NvmeVirt.Nvme.PrpWalk
import NvmeVirt.Fdp.Causality
import NvmeVirt.Io.Completions
import NvmeVirt.Io.FailedWrites
import NvmeVirt.Io.Slots
import NvmeVirt.Io.WriteBuffer
import NvmeVirt.Io.CqDoorbell
import NvmeVirt.Io.Interrupts
import NvmeVirt.Io.QueueLife
