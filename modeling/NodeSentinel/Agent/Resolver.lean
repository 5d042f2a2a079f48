import Mathlib

/-!
# Pod identities and `cpu.stat`

What the judgement asks of the cgroup resolver.  The cache behind it is shared with the
goroutines that refresh it, so two lookups of a cgroup may answer differently: `Resolver`
gives the lookups of an interval by where they are made.
-/

/-- `PodID`. -/
structure PodID where
  ns : String
  pod : String
  container : String
  requestMilliCPU : ℤ
deriving Repr, DecidableEq

/-- `PodID.String`. -/
def PodID.string (p : PodID) : String :=
  if p.ns = "" then "unknown" else p.ns ++ "/" ++ p.pod ++ "/" ++ p.container

/-- `CPUStat`: the CFS periods of a cgroup, and those in which it was throttled. -/
structure CPUStat where
  nrPeriods : ℕ
  nrThrottled : ℕ
deriving Repr, DecidableEq

/-- `monoSub`: a difference that is 0 after a counter reset. -/
def monoSub (cur prev : ℕ) : ℕ := if cur < prev then 0 else cur - prev

namespace CPUStat

/-- `Sub`: the delta of an interval. -/
def sub (s prev : CPUStat) : CPUStat where
  nrPeriods := monoSub s.nrPeriods prev.nrPeriods
  nrThrottled := monoSub s.nrThrottled prev.nrThrottled

/-- `ThrottledFraction`. -/
def throttledFraction {K : Type} [Field K] (s : CPUStat) : K :=
  if s.nrPeriods = 0 then 0 else s.nrThrottled / s.nrPeriods

end CPUStat

/-- The lookups of an interval: of the loop that sums up the requests, of `label`, of the
loop over the offenders, and of `ReadCPUStat`. -/
structure Resolver where
  request : ℕ → Option PodID
  named : ℕ → Option PodID
  pod : ℕ → Option PodID
  cpuStat : ℕ → Option CPUStat

namespace Resolver

/-- The lookups in a cache that does not change meanwhile. -/
def steady (cache : ℕ → Option PodID) (cpuStat : ℕ → Option CPUStat) : Resolver :=
  ⟨cache, cache, cache, cpuStat⟩

/-- `label`: the pod identity of a cgroup, or a system fallback. -/
def label (res : Resolver) (cg : ℕ) : String :=
  match res.named cg with
  | some pod => pod.string
  | none => "system(cg:" ++ toString cg ++ ")"

end Resolver
