import RadosNkv.Service.DoNotPush
import RadosNkv.TwoTier.Handshake
import RadosNkv.HostShim.Orphans
import RadosNkv.HostShim.NvmeKvClient
import RadosNkv.Weights.Integrity
import RadosNkv.Weights.ValueCap
import RadosNkv.Weights.Faults
import RadosNkv.Weights.Interleaving
import RadosNkv.TwoTier.DmabufSink
import RadosNkv.Wasm.ModuleInsert
import RadosNkv.Executor.BackendAgreement
import RadosNkv.Executor.FillOnce
import RadosNkv.Worker.Queue
import RadosNkv.Executor.Snapshot
import RadosNkv.Worker.Identity
import RadosNkv.Worker.ResultHits
import RadosNkv.Front.Reentry
import RadosNkv.Front.BulkHolds
import RadosNkv.Forwarder.Bounce
import RadosNkv.Forwarder.Completion
import RadosNkv.EndToEnd.KeyIdentity
import RadosNkv.EndToEnd.PutGet
import RadosNkv.VfuHost.Sgl
import RadosNkv.EndToEnd.Builtins
import RadosNkv.Weights.ManifestOrder
import RadosNkv.Weights.Identity
import RadosNkv.Rkv.KeyList
import RadosNkv.Rkv.Daemon
import RadosNkv.Weights.GpuLoad
