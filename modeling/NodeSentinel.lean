import NodeSentinel.Agent.Creep
import NodeSentinel.Agent.DisplayLimit
import NodeSentinel.Agent.Division
import NodeSentinel.Agent.Harm
import NodeSentinel.Agent.Monotone
import NodeSentinel.Agent.NetworkRun
import NodeSentinel.Agent.Normal
import NodeSentinel.Agent.Signal
import NodeSentinel.Agent.Steady
import NodeSentinel.Agent.Sustained
import NodeSentinel.Agent.Throttle
import NodeSentinel.Agent.ThrottlePct
import NodeSentinel.Cgroup.CPUStat
import NodeSentinel.Cgroup.Scopes
import NodeSentinel.Cgroup.Watcher
import NodeSentinel.Cgroup.NameHistory
import NodeSentinel.Cgroup.Refresh
import NodeSentinel.Cgroup.Runtime
import NodeSentinel.Controller.ActivePolicy
import NodeSentinel.Controller.Bookkeeping
import NodeSentinel.Controller.Bounds
import NodeSentinel.Controller.Cancel
import NodeSentinel.Controller.Cap
import NodeSentinel.Controller.ClusterView
import NodeSentinel.Controller.DryRun
import NodeSentinel.Controller.Isolation
import NodeSentinel.Controller.Ledger
import NodeSentinel.Controller.LedgerKey
import NodeSentinel.Controller.Ownership
import NodeSentinel.Controller.Records
import NodeSentinel.Controller.Restart
import NodeSentinel.Controller.Roundtrip
import NodeSentinel.Controller.Spacing
import NodeSentinel.Controller.Summary
import NodeSentinel.Controller.Threshold
import NodeSentinel.Ebpf.BlkioMonitor
import NodeSentinel.Ebpf.ReadAndDelete
import NodeSentinel.Ebpf.ReadTimeline
import NodeSentinel.Ebpf.RunqLatency
import NodeSentinel.Ebpf.SchedRun
import NodeSentinel.Metrics.BestLag
import NodeSentinel.Metrics.History
import NodeSentinel.Server.Prometheus
