import NodeSentinel.Controller.Semantics

/-!
# Keys

A pod has one key in the remediator's maps, `"ns/pod"`, and one in the ledger,
`"ns_pod"`.  The names the API server admits contain neither separator, so both keys
determine the pod: the fact the comment of `cmKey` appeals to.
-/

/-- The name of a pod that can exist. -/
def PodName (ns name : String) : Prop := IsDNSLabel ns ∧ IsDNSSubdomain name

instance (ns name : String) : Decidable (PodName ns name) := inferInstanceAs (Decidable (_ ∧ _))

theorem Cluster.podName {C : Cluster} {ns name : String} {p : Pod} (h : C.pod ns name = some p) :
    PodName ns name := C.named ns name (by simp [h])

/-- Names without a slash can be read off the key. -/
theorem podKey_inj_of_notMem {ns name ns' name' : String} (hns : '/' ∉ ns.toList)
    (hname : '/' ∉ name.toList) : podKey ns name = podKey ns' name' ↔ ns = ns' ∧ name = name' := by
  constructor
  · intro he
    have hl := congrArg String.toList he
    simp only [podKey, String.toList_append] at hl
    rw [List.append_assoc, List.append_assoc] at hl
    obtain ⟨h₁, -, h₂⟩ := (List.append_cons_inj_of_notMem hns hname).mp hl
    exact ⟨String.ext h₁, String.ext h₂⟩
  · rintro ⟨rfl, rfl⟩; rfl

namespace PodName

variable {ns name ns' name' : String}

theorem podKey_inj (h : PodName ns name) :
    podKey ns name = podKey ns' name' ↔ ns = ns' ∧ name = name' :=
  podKey_inj_of_notMem (h.1.notMem rfl) (h.2.notMem rfl (by decide))

/-- The key of a pod does not contain the ledger's separator. -/
theorem notMem_podKey (h : PodName ns name) : '_' ∉ (podKey ns name).toList := by
  simp only [podKey, String.toList_append, List.mem_append, not_or]
  exact ⟨⟨h.1.notMem rfl, by decide⟩, h.2.notMem rfl (by decide)⟩

end PodName

/-- A key without the ledger's separator can be read back from its ledger key. -/
theorem map_cmKey {k : String} (h : '_' ∉ k.toList) :
    (cmKey k).map (fun c ↦ if c = '_' then '/' else c) = k := by
  refine String.ext ?_
  simp only [cmKey, String.toList_map, List.map_map]
  refine (List.map_congr_left fun c hc ↦ ?_).trans (List.map_id _)
  have hne : c ≠ '_' := fun he ↦ h (he ▸ hc)
  by_cases hs : c = '/' <;> simp [hs, hne]

/-- `cmKey` is unique, as its comment says. -/
theorem ledgerKey_inj {k k' : String} (h : '_' ∉ k.toList) (h' : '_' ∉ k'.toList) :
    cmKey k = cmKey k' ↔ k = k' :=
  ⟨fun he ↦ by rw [← map_cmKey h, he, map_cmKey h'], congrArg cmKey⟩

/-- A key of the remediator's maps that belongs to a pod that can exist. -/
def IsPodKey (k : String) : Prop := ∃ ns name, PodName ns name ∧ k = podKey ns name

theorem PodName.isPodKey {ns name : String} (h : PodName ns name) : IsPodKey (podKey ns name) :=
  ⟨ns, name, h, rfl⟩

theorem IsPodKey.cmKey_inj {k k' : String} (h : IsPodKey k) (h' : IsPodKey k') :
    cmKey k = cmKey k' ↔ k = k' := by
  obtain ⟨ns, name, hn, rfl⟩ := h
  obtain ⟨ns', name', hn', rfl⟩ := h'
  exact ledgerKey_inj hn.notMem_podKey hn'.notMem_podKey

/-- A record names a pod that can exist. -/
def ThrottleState.Named (st : ThrottleState) : Prop := PodName st.ns st.pod

theorem ThrottleState.Named.isPodKey {st : ThrottleState} (h : st.Named) : IsPodKey st.key :=
  PodName.isPodKey h
