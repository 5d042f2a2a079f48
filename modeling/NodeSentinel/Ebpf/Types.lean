import NodeSentinel.Data.Literal

/-!
# What the observers read

`ebpf/types.go`: one interval's reading of a cgroup, the per-CPU copies summed up.
Counters are natural numbers; the sums of raw latencies, which only means are made
of, are left out.
-/

/-- Run-queue latencies of a cgroup, as a log2 histogram of microseconds. -/
structure CgroupLatency where
  cgroupID : ℕ
  slots : List ℕ
  count : ℕ
deriving Repr, DecidableEq

/-- On-CPU time of a cgroup. -/
structure CgroupCPUTime where
  cgroupID : ℕ
  onCpuNs : ℕ
deriving Repr, DecidableEq

/-- `TimelineBuckets`, `NUM_BUCKETS`. -/
def timelineBuckets : ℕ := 64

/-- `TimelineBucketNs`, `BUCKET_NS`. -/
def timelineBucketNs : ℕ := 100000000

/-- The sub-interval timeline of a cgroup, oldest bucket first. -/
structure CgroupTimeline where
  cgroupID : ℕ
  runqLatNs : List ℕ
  runqCount : List ℕ
  cpuNs : List ℕ
  ctxSwitch : List ℕ
deriving Repr, DecidableEq

/-- Block-I/O latencies and throughput of a cgroup. -/
structure CgroupBlkio where
  cgroupID : ℕ
  slots : List ℕ
  count : ℕ
  bytes : ℕ
deriving Repr, DecidableEq

/-- Network counters of a cgroup. -/
structure CgroupNet where
  cgroupID : ℕ
  retransmits : ℕ
  txBytes : ℕ
  txSegs : ℕ
deriving Repr, DecidableEq
