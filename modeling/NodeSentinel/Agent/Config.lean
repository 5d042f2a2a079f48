import NodeSentinel.Data.Literal

/-!
# The tuning of the agent

The fields of `Config` the judgement reads, with their defaults.  Durations are in
nanoseconds.  A negative `TopN` would make the slices it cuts panic; it is a natural
number here.
-/

/-- `Config`. -/
structure Config (K : Type) where
  nodeName : String
  topN : ℕ
  minSamples : ℤ
  runqWarn : ℤ
  deviationFactor : K
  baselineAlpha : K
  baselineWarmup : ℤ
  confidenceThreshold : K
  ioWarn : ℤ
  minOps : ℤ
  retransWarn : ℤ
  retransRateWarn : K
  minSegs : ℤ

/-- `DefaultConfig`. -/
def defaultConfig (K : Type) [Field K] : Config K where
  nodeName := ""
  topN := 20
  minSamples := 100
  runqWarn := 5 * 1000000
  deviationFactor := 3
  baselineAlpha := 15 / 100
  baselineWarmup := 3
  confidenceThreshold := 7 / 10
  ioWarn := 20 * 1000000
  minOps := 20
  retransWarn := 10
  retransRateWarn := 1 / 100
  minSegs := 50

/-- `Duration.Microseconds`. -/
def microseconds (d : ℤ) : ℤ := d.tdiv 1000

/-- The conversion of an `int` to `uint64`. -/
def uint64 (z : ℤ) : ℕ := (z % 2 ^ 64).toNat
