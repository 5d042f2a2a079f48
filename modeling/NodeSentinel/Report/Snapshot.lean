import Mathlib

/-!
# The contention snapshot

The agent's judgement of one interval, as the controller and the local surfaces
read it.  `K` stands for `float64`.  The wall-clock text of a snapshot is only
printed and has no field here.
-/

/-- The verdict texts of `fairShareVerdict`, with the share they print. -/
inductive Verdict (K : Type*) where
  /-- `"system / unattributed"` -/
  | unattributed
  /-- `"no request (best-effort)"` -/
  | noRequest
  /-- `"no request data"` -/
  | noRequestData
  /-- `"OVER fair share (%.1f%%)"` -/
  | overFairShare (fair : K)
  /-- `"within request (%.1f%%)"` -/
  | withinRequest (fair : K)
deriving Repr, DecidableEq

/-- A cgroup ranked by CPU time, judged against its fair share. -/
structure Offender (K : Type*) where
  pod : String
  cpuMs : K
  intensity : K
  reqMilli : ℤ
  throttlePct : K
  correlPct : K
  confidence : K
  verdict : Verdict K
deriving Repr, DecidableEq

/-- A cgroup ranked by disk throughput. -/
structure IOOffender (K : Type*) where
  pod : String
  mb : K
  sharePct : K
  ops : ℕ
  confidence : K
deriving Repr, DecidableEq

/-- A cgroup ranked by network TX throughput. -/
structure NetOffender (K : Type*) where
  pod : String
  mb : K
  sharePct : K
  segs : ℕ
  confidence : K
deriving Repr, DecidableEq

/-- A pod waiting for a CPU or for the disk. -/
structure Victim (K : Type*) where
  pod : String
  p50us : K
  p99us : K
  degradation : K
  events : ℕ
deriving Repr, DecidableEq

/-- A pod whose TCP segments are being retransmitted. -/
structure NetVictim (K : Type*) where
  pod : String
  retransmits : ℕ
  ratePct : K
  degradation : K
  segs : ℕ
deriving Repr, DecidableEq

/-- The agent's judgement for one interval. -/
structure Snapshot (K : Type*) where
  nodeName : String
  healthy : Bool
  cgroupsSeen : ℕ
  runqWarnUs : K
  minSamples : ℤ
  confidenceMin : K
  maxConfidence : K
  offenders : List (Offender K)
  victims : List (Victim K)
  ioMaxConfidence : K
  ioOffenders : List (IOOffender K)
  ioVictims : List (Victim K)
  netMaxConfidence : K
  netOffenders : List (NetOffender K)
  netVictims : List (NetVictim K)
deriving Repr, DecidableEq
