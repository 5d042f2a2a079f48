import NodeSentinel.Controller.Remediator
import NodeSentinel.Data.Duration
import NodeSentinel.Data.Float64

/-!
# NodeHealthPolicy

`policy.go`: the controller reads its mode and its parameters from a custom resource.  The
object is untyped, so parsing falls back to zero values; the schema of the CRD is what the API
server checks before.
-/

/-! ## Unstructured objects -/

/-- A value of an unstructured object. -/
inductive Unstructured where
  | null
  | bool (b : Bool)
  | int (n : ℤ)
  | float (q : ℚ)
  | string (s : String)
  | array (items : List Unstructured)
  | object (fields : List (String × Unstructured))

namespace Unstructured

/-- A field of an object; one that is missing reads as `null`. -/
def get : Unstructured → String → Unstructured
  | object fields, key => (fields.lookup key).getD null
  | _, _ => null

/-- A field of a field. -/
def path (v : Unstructured) (keys : List String) : Unstructured := keys.foldl get v

/-! ### The types of a schema -/

def IsObject (v : Unstructured) : Prop := ∃ fields, v = object fields

def IsArray (p : Unstructured → Prop) (v : Unstructured) : Prop := ∃ items, v = array items ∧ ∀ x ∈ items, p x

def IsString (v : Unstructured) : Prop := ∃ s, v = string s

def IsBoolean (v : Unstructured) : Prop := ∃ b, v = bool b

def IsInteger (v : Unstructured) : Prop := ∃ n : ℤ, v = int n ∨ v = float n

/-- A number between a minimum and a maximum. -/
def IsNumber (min max : ℚ) (v : Unstructured) : Prop :=
  ∃ q, min ≤ q ∧ q ≤ max ∧ (v = float q ∨ ∃ n : ℤ, v = int n ∧ q = n)

/-- One of some texts. -/
def IsEnum (texts : List String) (v : Unstructured) : Prop := ∃ s ∈ texts, v = string s

/-- A property that may be left out. -/
def Optional (p : Unstructured → Prop) (v : Unstructured) : Prop := v = null ∨ p v

/-- What the schema of the CRD admits. -/
structure Admitted (obj : Unstructured) : Prop where
  object : obj.IsObject
  spec : Optional IsObject (obj.path ["spec"])
  mode : Optional (IsEnum ["observe", "alert", "enforce"]) (obj.path ["spec", "mode"])
  priority : Optional IsInteger (obj.path ["spec", "priority"])
  attribution : Optional IsObject (obj.path ["spec", "attribution"])
  confidenceThreshold :
    Optional (IsNumber 0 1) (obj.path ["spec", "attribution", "confidenceThreshold"])
  remediation : Optional IsObject (obj.path ["spec", "remediation"])
  resize : Optional IsBoolean (obj.path ["spec", "remediation", "resize"])
  cooldown : Optional IsString (obj.path ["spec", "remediation", "cooldown"])
  restoreAfter : Optional IsString (obj.path ["spec", "remediation", "restoreAfter"])
  namespaces : Optional (IsArray IsString) (obj.path ["spec", "remediation", "namespaces"])
  status : Optional IsObject (obj.path ["status"])

/-! ### Type assertions -/

/-- `v.(bool)`. -/
def asBool : Unstructured → Option Bool
  | bool b => some b
  | _ => none

/-- `v.(string)`. -/
def asString : Unstructured → Option String
  | string s => some s
  | _ => none

theorem asString_eq_some {v : Unstructured} {s : String} : v.asString = some s ↔ v = .string s := by
  cases v <;> simp [asString]

end Unstructured

/-! ## Parsing -/

/-- `ModeObserve`, `ModeAlert` and `ModeEnforce`. -/
def modeObserve : String := "observe"

@[inherit_doc modeObserve]
def modeAlert : String := "alert"

@[inherit_doc modeObserve]
def modeEnforce : String := "enforce"

/-- `NodeHealthPolicy`. -/
structure NodeHealthPolicy where
  name : String
  mode : String
  priority : ℤ
  confidenceThreshold : ℚ
  resize : Bool
  /-- Whether `spec.remediation.resize` was given. -/
  resizeSet : Bool
  cooldown : Time
  restoreAfter : Time
  namespaces : List String
deriving Repr, DecidableEq

/-- `toFloat`: an integer becomes the nearest `float64`. -/
def Unstructured.toFloat : Unstructured → ℚ
  | .float q => q
  | .int n => n.toFloat64
  | _ => 0

/-- `int` of a `float64`: rounded towards zero, and what does not fit becomes the least integer, as
on amd64. -/
def truncInt64 (q : ℚ) : ℤ :=
  let t := q.num.tdiv q.den
  if -2 ^ 63 ≤ t ∧ t < 2 ^ 63 then t else -2 ^ 63

/-- `toInt`. -/
def Unstructured.toInt (v : Unstructured) : ℤ := truncInt64 v.toFloat

/-- `toDuration`. -/
def Unstructured.toDuration : Unstructured → Time
  | .string s => if s = "" then 0 else (parseDuration s).getD 0
  | _ => 0

/-- `toStringSlice`. -/
def Unstructured.toStringSlice : Unstructured → List String
  | .array items => items.filterMap Unstructured.asString
  | _ => []

/-- `parsePolicy`.  Where the source leaves a block out because it is no object, the block's
fields read as `null` here, and the coercions give the zero values that stay in the source. -/
def parsePolicy (obj : Unstructured) : NodeHealthPolicy :=
  let spec := obj.get "spec"
  let attr := spec.get "attribution"
  let rem := spec.get "remediation"
  { name := ((obj.get "metadata").get "name").asString.getD ""
    mode := match (spec.get "mode").asString with
      | some m => if m != "" then m else modeObserve
      | none => modeObserve
    priority := (spec.get "priority").toInt
    confidenceThreshold := (attr.get "confidenceThreshold").toFloat
    resize := (rem.get "resize").asBool.getD false
    resizeSet := (rem.get "resize").asBool.isSome
    cooldown := (rem.get "cooldown").toDuration
    restoreAfter := (rem.get "restoreAfter").toDuration
    namespaces := (rem.get "namespaces").toStringSlice }

/-- `ToConfig`: the configuration, and whether remediation is active. -/
def NodeHealthPolicy.toConfig (p : NodeHealthPolicy) : RemediationConfig × Bool :=
  let cfg : RemediationConfig := {
    cooldown := p.cooldown
    restoreAfter := p.restoreAfter
    namespaces := p.namespaces
    confidenceThreshold := p.confidenceThreshold }
  if p.mode = modeAlert then ({ cfg with resize := false }, true)
  else if p.mode = modeEnforce then
    ({ cfg with resize := if p.resizeSet then p.resize else true }, true)
  else (cfg, false)

/-- `configureFromPolicy`: the remediator of a policy, with its ledger in `ns`, if remediation is
active. -/
def configureFromPolicy (obj : Unstructured) (ns : String) : Option Remediator :=
  let (cfg, active) := (parsePolicy obj).toConfig
  if !active then none
  else
    let rem := newRemediator cfg
    some (if cfg.resize then rem.enablePersistence ns else rem)

/-! ## What a policy says -/

namespace Unstructured

variable (obj : Unstructured)

/-- `spec.mode`. -/
def mode : Unstructured := obj.path ["spec", "mode"]

/-- `spec.remediation.resize`. -/
def resize : Unstructured := obj.path ["spec", "remediation", "resize"]

/-- `spec.remediation.namespaces`. -/
def namespaces : Unstructured := obj.path ["spec", "remediation", "namespaces"]

/-- `spec.remediation.cooldown` when it parses to a positive duration, and 5 minutes
otherwise. -/
def cooldown : Time :=
  match obj.path ["spec", "remediation", "cooldown"] with
  | .string s => match parseDuration s with
      | some d => if 0 < d then d else 5 * minute
      | none => 5 * minute
  | _ => 5 * minute

end Unstructured

/-! ## What a remediator takes over from its policy -/

/-- A remediator that a policy has configured. -/
structure Configured (obj : Unstructured) (r : Remediator) : Prop where
  mode : obj.mode = .string modeAlert ∨ obj.mode = .string modeEnforce
  resize : r.cfg.resize = true → obj.mode = .string modeEnforce ∧ obj.resize ≠ .bool false
  namespaces : ∀ items, obj.namespaces = .array items → items ≠ [] →
    ∀ ns, r.allows ns = true → .string ns ∈ items
  cooldown : r.cfg.cooldown = obj.cooldown

section

variable {obj : Unstructured}

/-- A mode that is not the default is the one that was given. -/
theorem parsePolicy_mode {m : String} (hm : m ≠ modeObserve) (h : (parsePolicy obj).mode = m) :
    obj.mode = .string m := by
  simp only [parsePolicy] at h
  split at h
  · next hs =>
      split at h
      · exact Unstructured.asString_eq_some.mp (h ▸ hs)
      · exact absurd h.symm hm
  · exact absurd h.symm hm

theorem toDuration_of_pos {v : Unstructured} : (if v.toDuration ≤ 0 then 5 * minute else v.toDuration) =
    match v with
    | .string s => match parseDuration s with
        | some d => if 0 < d then d else 5 * minute
        | none => 5 * minute
    | _ => 5 * minute := by
  cases v with
  | string s =>
      by_cases hs : s = ""
      · subst hs
        simp [Unstructured.toDuration, show parseDuration "" = none from rfl]
      · cases hd : parseDuration s with
        | none => simp [Unstructured.toDuration, hs, hd]
        | some d =>
            by_cases hpos : 0 < d
            · simp [Unstructured.toDuration, hs, hd, hpos, not_le.mpr hpos]
            · simp [Unstructured.toDuration, hs, hd, hpos, not_lt.mp hpos]
  | _ => simp [Unstructured.toDuration]

theorem newRemediator_allows {cfg : RemediationConfig} {ns : String} (hne : cfg.namespaces ≠ [])
    (h : (newRemediator cfg).allows ns = true) : ns ∈ cfg.namespaces := by
  have hpos := List.length_pos_iff.mpr hne
  simpa [newRemediator, Remediator.allows, hpos] using h

/-- A list of texts is read as it is. -/
theorem mem_toStringSlice {v : Unstructured} {items : List Unstructured} (hv : Unstructured.Optional (Unstructured.IsArray Unstructured.IsString) v)
    (h : v = .array items) (hne : items ≠ []) :
    v.toStringSlice ≠ [] ∧ ∀ ns ∈ v.toStringSlice, .string ns ∈ items := by
  subst h
  constructor
  · obtain ⟨v, rest, rfl⟩ := List.exists_cons_of_ne_nil hne
    rcases hv with hv | ⟨items, hv, hstr⟩
    · cases hv
    · obtain rfl := (Unstructured.array.inj hv).symm
      obtain ⟨s, rfl⟩ := hstr v (by simp)
      simp [Unstructured.toStringSlice, Unstructured.asString]
  · intro ns hns
    obtain ⟨v, hv, hs⟩ := List.mem_filterMap.mp hns
    exact Unstructured.asString_eq_some.mp hs ▸ hv

namespace NodeHealthPolicy

variable (p : NodeHealthPolicy)

@[simp] theorem toConfig_cooldown : p.toConfig.1.cooldown = p.cooldown := by
  unfold toConfig
  split
  · rfl
  · split <;> rfl

@[simp] theorem toConfig_namespaces : p.toConfig.1.namespaces = p.namespaces := by
  unfold toConfig
  split
  · rfl
  · split <;> rfl

theorem mode_of_toConfig (h : p.toConfig.2 = true) : p.mode = modeAlert ∨ p.mode = modeEnforce := by
  unfold toConfig at h
  split at h
  · exact .inl ‹_›
  · split at h
    · exact .inr ‹_›
    · cases h

/-- The `/resize` tier is for `enforce`, and can be given up. -/
theorem resize_of_toConfig (h : p.toConfig.1.resize = true) :
    p.mode = modeEnforce ∧ (p.resizeSet = true → p.resize = true) := by
  unfold toConfig at h
  split at h
  · cases h
  · split at h
    · next hmode =>
        refine ⟨hmode, fun hset ↦ ?_⟩
        simpa [hset] using h
    · cases h

end NodeHealthPolicy

/-- A remediator is `NewRemediator` of its policy, if only its ledger is left aside. -/
theorem configureFromPolicy_eq_some {ns : String} {r : Remediator} (h : configureFromPolicy obj ns = some r) :
    (parsePolicy obj).toConfig.2 = true ∧ r.cfg = (newRemediator (parsePolicy obj).toConfig.1).cfg ∧
      r.nsAllow = (newRemediator (parsePolicy obj).toConfig.1).nsAllow := by
  simp only [configureFromPolicy] at h
  split at h
  · cases h
  · next hactive =>
      have hactive : (parsePolicy obj).toConfig.2 = true := by simpa using hactive
      obtain rfl := Option.some.inj h
      split <;> exact ⟨hactive, rfl, rfl⟩

theorem configured {ns : String} {r : Remediator} (hobj : obj.Admitted)
    (h : configureFromPolicy obj ns = some r) : Configured obj r := by
  obtain ⟨hactive, hcfg, hallow⟩ := configureFromPolicy_eq_some h
  have hallows : ∀ ns, r.allows ns = (newRemediator (parsePolicy obj).toConfig.1).allows ns := by
    intro ns
    simp only [Remediator.allows, hallow]
  constructor
  · exact (NodeHealthPolicy.mode_of_toConfig _ hactive).imp (parsePolicy_mode (by decide))
      (parsePolicy_mode (by decide))
  · intro hres
    rw [hcfg] at hres
    obtain ⟨hmode, hset⟩ := NodeHealthPolicy.resize_of_toConfig _ hres
    refine ⟨parsePolicy_mode (by decide) hmode, fun hfalse ↦ ?_⟩
    have hb : ((obj.get "spec").get "remediation").get "resize" = .bool false := hfalse
    simp [parsePolicy, hb, Unstructured.asBool] at hset
  · intro items hitems hne ns hns
    obtain ⟨hne', hmem⟩ := mem_toStringSlice hobj.namespaces hitems hne
    have hparsed : (parsePolicy obj).toConfig.1.namespaces = obj.namespaces.toStringSlice :=
      NodeHealthPolicy.toConfig_namespaces _
    rw [hallows] at hns
    exact hmem ns (hparsed ▸ newRemediator_allows (hparsed ▸ hne') hns)
  · rw [hcfg]
    simp only [newRemediator, NodeHealthPolicy.toConfig_cooldown]
    exact toDuration_of_pos

end
