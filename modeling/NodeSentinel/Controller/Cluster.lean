import Mathlib

/-!
# The cluster the controller acts on

The part of the Kubernetes API that the controller touches: pods with their
containers' CPU requests and limits, Events, and the ConfigMap that holds the
throttle ledger.

## What is transcribed and what is ours

* `ThrottleState`, `PersistedThrottle` and the names of their fields are the
  source's (`resize.go`, `persist.go`).
* Quantities, times and JSON texts are represented by what they denote: a CPU
  quantity by its number of nano-CPUs, a `time.Time` by its nanoseconds since the
  epoch, a ConfigMap value by what `json.Unmarshal` makes of it.
* The operations on pods are the API server's documented behaviour.
-/

/-! ## Names -/

/-- A character of a DNS-1123 label. -/
def dnsLabelChar (c : Char) : Bool := ('a' ≤ c && c ≤ 'z') || ('0' ≤ c && c ≤ '9') || c == '-'

/-- A namespace name: a DNS label. -/
def IsDNSLabel (s : String) : Prop :=
  s.toList ≠ [] ∧ s.toList.length ≤ 63 ∧ ∀ c ∈ s.toList, dnsLabelChar c

/-- A pod name: a DNS subdomain. -/
def IsDNSSubdomain (s : String) : Prop :=
  s.toList ≠ [] ∧ s.toList.length ≤ 253 ∧ ∀ c ∈ s.toList, dnsLabelChar c ∨ c = '.'

instance (s : String) : Decidable (IsDNSLabel s) :=
  haveI : Decidable (∀ c ∈ s.toList, dnsLabelChar c) := List.decidableBAll _ _
  inferInstanceAs (Decidable (_ ∧ _ ∧ _))

instance (s : String) : Decidable (IsDNSSubdomain s) :=
  haveI : Decidable (∀ c ∈ s.toList, dnsLabelChar c ∨ c = '.') := List.decidableBAll _ _
  inferInstanceAs (Decidable (_ ∧ _ ∧ _))

theorem IsDNSLabel.notMem {s : String} (h : IsDNSLabel s) {c : Char} (hc : dnsLabelChar c = false) :
    c ∉ s.toList := fun hm ↦ by simpa [hc] using h.2.2 c hm

theorem IsDNSSubdomain.notMem {s : String} (h : IsDNSSubdomain s) {c : Char}
    (hc : dnsLabelChar c = false) (hdot : c ≠ '.') : c ∉ s.toList := fun hm ↦ by
  simpa [hc, hdot] using h.2.2 c hm

/-! ## Quantities, times and texts -/

/-- A CPU quantity, in nano-CPUs. -/
abbrev Quantity := ℕ

/-- A text that should denote a CPU quantity, up to what `resource.ParseQuantity` reads
in it; `none` is a text it rejects. -/
abbrev CPUText := Option Quantity

/-- `Quantity.String`: a text that denotes the quantity. -/
def Quantity.string (q : Quantity) : CPUText := some q

/-- An instant, in nanoseconds since the epoch; a duration, in nanoseconds. -/
abbrev Time := ℤ

/-- `Time.MarshalJSON` accepts the years 0 to 9999 only. -/
def Time.InJSONRange (t : Time) : Prop :=
  -62167219200000000000 ≤ t ∧ t < 253402300800000000000

instance (t : Time) : Decidable t.InJSONRange := inferInstanceAs (Decidable (_ ∧ _))

/-! ## Pods -/

/-- A container of a pod spec: its CPU request and limit, where they are set. -/
structure Container where
  name : String
  cpuRequest : Option Quantity
  cpuLimit : Option Quantity
deriving Repr, DecidableEq

/-- A pod: one incarnation of its name, with containers of distinct names. -/
@[ext]
structure Pod where
  uid : ℕ
  containers : List Container
  nodup : (containers.map Container.name).Nodup
deriving Repr, DecidableEq

namespace Container

/-- Set the CPU limit of a container called `name`. -/
def setCPULimit (name : String) (q : Quantity) (c : Container) : Container :=
  if c.name = name then { c with cpuLimit := some q } else c

@[simp] theorem setCPULimit_name (name : String) (q : Quantity) (c : Container) :
    (c.setCPULimit name q).name = c.name := by
  unfold setCPULimit; split <;> rfl

theorem setCPULimit_of_ne {name : String} {c : Container} (h : c.name ≠ name) (q : Quantity) :
    c.setCPULimit name q = c := by simp [setCPULimit, h]

theorem setCPULimit_setCPULimit (name : String) (q q' : Quantity) (c : Container) :
    (c.setCPULimit name q).setCPULimit name q' = c.setCPULimit name q' := by
  by_cases h : c.name = name <;> simp [setCPULimit, h]

/-- Setting the limit a container already has changes nothing. -/
theorem setCPULimit_self {name : String} {q : Quantity} {c : Container}
    (h : c.name = name → c.cpuLimit = some q) : c.setCPULimit name q = c := by
  by_cases hn : c.name = name
  · rw [setCPULimit, if_pos hn, ← h hn]
  · exact setCPULimit_of_ne hn q

end Container

namespace Pod

/-- The container of a given name. -/
def container? (p : Pod) (name : String) : Option Container :=
  p.containers.find? fun c ↦ c.name = name

/-- Set the CPU limit of one container. -/
def setCPULimit (p : Pod) (name : String) (q : Quantity) : Pod where
  uid := p.uid
  containers := p.containers.map (Container.setCPULimit name q)
  nodup := by simpa [Function.comp_def] using p.nodup

theorem setCPULimit_setCPULimit (p : Pod) (name : String) (q q' : Quantity) :
    (p.setCPULimit name q).setCPULimit name q' = p.setCPULimit name q' := by
  simp [setCPULimit, Function.comp_def, Container.setCPULimit_setCPULimit]

/-- Looking a container up by name finds it: names are distinct. -/
theorem container?_eq_some_iff {p : Pod} {name : String} {c : Container} :
    p.container? name = some c ↔ c ∈ p.containers ∧ c.name = name := by
  constructor
  · intro h
    exact ⟨List.mem_of_find?_eq_some h, by simpa using List.find?_some h⟩
  · rintro ⟨hc, rfl⟩
    cases h : p.container? c.name with
    | none => simpa using List.find?_eq_none.mp h c hc
    | some d =>
        have hd : d ∈ p.containers := List.mem_of_find?_eq_some h
        have hn : d.name = c.name := by simpa using List.find?_some h
        rw [List.inj_on_of_nodup_map p.nodup hd hc hn]

theorem container?_setCPULimit (p : Pod) (name name' : String) (q : Quantity) :
    (p.setCPULimit name q).container? name' =
      (p.container? name').map (Container.setCPULimit name q) := by
  simp [container?, setCPULimit, List.find?_map]

/-- Setting the limit the container already has changes nothing. -/
theorem setCPULimit_self {p : Pod} {name : String} {q : Quantity} {c : Container}
    (h : p.container? name = some c) (hq : c.cpuLimit = some q) : p.setCPULimit name q = p := by
  ext1
  · rfl
  · refine (List.map_congr_left fun d hd ↦ Container.setCPULimit_self fun hn ↦ ?_).trans
      (List.map_id _)
    have hdc := container?_eq_some_iff.mpr ⟨hd, hn⟩
    rw [h, Option.some.injEq] at hdc
    rw [← hdc, hq]

end Pod

/-- The pods of a cluster by namespace and name; the API server admits valid names
only. -/
structure Cluster where
  pod : String → String → Option Pod
  named : ∀ ns name, (pod ns name).isSome → IsDNSLabel ns ∧ IsDNSSubdomain name

namespace Cluster

/-- Replace the pod `ns/name`, where there is one. -/
def modify (C : Cluster) (ns name : String) (f : Pod → Option Pod) : Cluster where
  pod a b := if a = ns ∧ b = name then (C.pod a b).bind f else C.pod a b
  named a b h := by
    refine C.named a b ?_
    split at h
    · cases hp : C.pod a b <;> simp_all
    · exact h

/-- Set the CPU limit of one container. -/
def setCPULimit (C : Cluster) (ns name container : String) (q : Quantity) : Cluster :=
  C.modify ns name fun p ↦ some (p.setCPULimit container q)

/-- Delete a pod. -/
def delete (C : Cluster) (ns name : String) : Cluster := C.modify ns name fun _ ↦ none

/-- Create a pod under a name that is free. -/
def create (C : Cluster) (ns name : String) (h : IsDNSLabel ns ∧ IsDNSSubdomain name) (p : Pod) :
    Cluster where
  pod a b := if a = ns ∧ b = name then some p else C.pod a b
  named a b hab := by
    split at hab
    · next hab' => rw [hab'.1, hab'.2]; exact h
    · exact C.named a b hab

/-- The cluster without pods. -/
def empty : Cluster := ⟨fun _ _ ↦ none, by simp⟩

theorem pod_setCPULimit (C : Cluster) (ns name container a b : String) (q : Quantity) :
    (C.setCPULimit ns name container q).pod a b =
      if a = ns ∧ b = name then (C.pod a b).map (Pod.setCPULimit · container q)
      else C.pod a b := by
  simp only [setCPULimit, modify]
  split
  · cases C.pod a b <;> rfl
  · rfl

/-- A container of a pod of the cluster. -/
def container? (C : Cluster) (ns name container : String) : Option Container :=
  (C.pod ns name).bind (Pod.container? · container)

theorem container?_of_pod {C : Cluster} {ns name : String} {p : Pod} (h : C.pod ns name = some p)
    (container : String) : C.container? ns name container = p.container? container := by
  simp [container?, h]

/-- The container whose limit is set. -/
theorem container?_setCPULimit_self (C : Cluster) (ns name container : String) (q : Quantity) :
    (C.setCPULimit ns name container q).container? ns name container =
      (C.container? ns name container).map fun c ↦ { c with cpuLimit := some q } := by
  cases hp : C.pod ns name with
  | none => simp [container?, pod_setCPULimit, hp]
  | some p =>
      simp only [container?, pod_setCPULimit, hp, and_self, if_true, Option.map_some,
        Option.bind_some, Pod.container?_setCPULimit]
      refine Option.map_congr fun c hc ↦ ?_
      simp [Container.setCPULimit, (Pod.container?_eq_some_iff.mp hc).2]

/-- The other containers of the cluster. -/
theorem container?_setCPULimit_of_ne {C : Cluster} {ns name container a b c : String} {q : Quantity}
    (h : ¬ (a = ns ∧ b = name ∧ c = container)) :
    (C.setCPULimit ns name container q).container? a b c = C.container? a b c := by
  by_cases hab : a = ns ∧ b = name
  · obtain ⟨rfl, rfl⟩ := hab
    have hc : c ≠ container := fun hc ↦ h ⟨rfl, rfl, hc⟩
    cases hp : C.pod a b with
    | none => simp [container?, pod_setCPULimit, hp]
    | some p =>
        simp only [container?, pod_setCPULimit, hp, and_self, if_true, Option.map_some,
          Option.bind_some, Pod.container?_setCPULimit]
        refine (Option.map_congr fun d hd ↦ ?_).trans Option.map_id'
        exact Container.setCPULimit_of_ne ((Pod.container?_eq_some_iff.mp hd).2.trans_ne hc) q
  · simp [container?, pod_setCPULimit, hab]

theorem pod_delete (C : Cluster) (ns name a b : String) :
    (C.delete ns name).pod a b = if a = ns ∧ b = name then none else C.pod a b := by
  simp only [delete, modify]
  split
  · cases C.pod a b <;> rfl
  · rfl

end Cluster

/-! ## Records, Events and the ledger -/

/-- A `/resize` throttle in flight. -/
structure ThrottleState where
  ns : String
  pod : String
  container : String
  originalCPULimit : CPUText
  restoreAt : Time
deriving Repr, DecidableEq

/-- The form of a `ThrottleState` on the ConfigMap. -/
structure PersistedThrottle where
  ns : String
  pod : String
  container : String
  originalCPULimit : CPUText
  restoreAt : Time
deriving Repr, DecidableEq

/-- The text under one key of a ConfigMap: the JSON form of a `PersistedThrottle`, whose
time can be written, or anything else. -/
inductive Raw where
  | json (p : PersistedThrottle) (h : p.restoreAt.InJSONRange)
  | other
deriving Repr, DecidableEq

/-- `json.Marshal`, whose error is dropped: a time it rejects leaves the empty text. -/
def Raw.marshal (p : PersistedThrottle) : Raw :=
  if h : p.restoreAt.InJSONRange then .json p h else .other

/-- `json.Unmarshal`. -/
def Raw.unmarshal : Raw → Option PersistedThrottle
  | .json p _ => some p
  | .other => none

/-- What reads back as `p` is the text of `p`. -/
theorem Raw.unmarshal_eq_some {raw : Raw} {p : PersistedThrottle} :
    raw.unmarshal = some p ↔ p.restoreAt.InJSONRange ∧ raw = .marshal p := by
  constructor
  · intro h
    cases raw with
    | json q hq =>
        obtain rfl := Option.some.inj h
        exact ⟨hq, by simp [marshal, hq]⟩
    | other => cases h
  · rintro ⟨hp, rfl⟩
    simp [marshal, hp, unmarshal]

/-- The ledger ConfigMap; a nil `Data` is the empty map. -/
structure ConfigMap where
  data : Finmap fun _ : String ↦ Raw
deriving DecidableEq

/-- The resource a pod is an offender of: `"cpu"`, `"disk"` or `"net"`. -/
inductive Resource where
  | cpu
  | disk
  | net
deriving Repr, DecidableEq

/-- The reason text of an action, by its arguments: `"confident %s noisy-neighbour
(%.0f%% >= %.0f%% confidence) on node %s"`, the confidences times 100. -/
structure Why where
  resource : Resource
  confidence : ℚ
  confidenceMin : ℚ
  nodeName : String
deriving Repr, DecidableEq

/-- The text of an Event, by its format string and arguments. -/
inductive Message where
  /-- `"node-sentinel: throttled %s CPU limit %s→%s (%s); restoring at %s"` -/
  | throttled (key : String) (origLimit newLimit : CPUText) (why : Why) (restoreAt : Time)
  /-- `"node-sentinel: restored %s CPU limit to %s (throttle window elapsed)"` -/
  | restored (key : String) (originalCPULimit : CPUText)
  /-- `"node-sentinel: " + key + " is a " + why + " — throttling recommended"` -/
  | recommended (key : String) (why : Why)
deriving Repr, DecidableEq

/-- A Warning Event on a pod, anchored to its UID where the pod was found. -/
structure Event where
  ns : String
  pod : String
  uid : Option ℕ
  reason : String
  message : Message
  time : Time
deriving Repr, DecidableEq

/-- The errors of an API call that the controller tells apart. -/
inductive ApiError where
  | notFound
  | alreadyExists
  | failed
deriving Repr, DecidableEq
