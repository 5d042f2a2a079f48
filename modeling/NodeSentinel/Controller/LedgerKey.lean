import NodeSentinel.Controller.Keys

/-!
# Ledger keys

`cmKey` "maps a pod key to a valid ConfigMap data key", its comment says, and appeals to both
names being DNS labels.  A pod name is a DNS subdomain, of up to 253 characters: its characters
are still those of a ConfigMap key, but the namespace and the separator come on top of a length
that may be used up already.  What the API server asks of a key is transcribed from its
documented validation.
-/

/-- A character of a ConfigMap key. -/
def configMapKeyChar (c : Char) : Bool :=
  ('a' ≤ c && c ≤ 'z') || ('A' ≤ c && c ≤ 'Z') || ('0' ≤ c && c ≤ '9') || c == '-' || c == '.' ||
    c == '_'

/-- A key that the API server accepts in a ConfigMap: no path component either. -/
structure IsConfigMapKey (key : String) : Prop where
  nonempty : key.toList ≠ []
  length_le : key.toList.length ≤ 253
  chars : ∀ c ∈ key.toList, configMapKeyChar c
  ne_dot : key.toList ≠ ['.']
  ne_dots : ¬ ['.', '.'] <+: key.toList

theorem configMapKeyChar_of_dnsLabelChar {c : Char} (h : dnsLabelChar c) : configMapKeyChar c := by
  simp only [dnsLabelChar, Bool.or_eq_true] at h
  simp only [configMapKeyChar, Bool.or_eq_true]
  tauto

/-- Where there is no slash, `cmKey` replaces nothing. -/
theorem cmKey_of_notMem {s : String} (h : '/' ∉ s.toList) : cmKey s = s := by
  refine String.ext ?_
  rw [cmKey, String.toList_map]
  refine (List.map_congr_left fun c hc ↦ ?_).trans (List.map_id s.toList)
  rw [id, ite_eq_right_iff]
  rintro rfl
  exact absurd hc h

theorem cmKey_append (s t : String) : cmKey (s ++ t) = cmKey s ++ cmKey t := by
  refine String.ext ?_
  simp only [cmKey, String.toList_map, String.toList_append, List.map_append]

namespace PodName

variable {ns name : String}

/-- The ledger key of a pod: its two names with the separator of the ledger. -/
theorem cmKey_podKey (h : PodName ns name) : cmKey (podKey ns name) = ns ++ "_" ++ name := by
  have hslash : cmKey "/" = "_" := by decide +kernel
  rw [podKey, cmKey_append, cmKey_append, hslash, cmKey_of_notMem (h.1.notMem rfl),
    cmKey_of_notMem (h.2.notMem rfl (by decide))]

theorem toList_cmKey (h : PodName ns name) :
    (cmKey (podKey ns name)).toList = ns.toList ++ '_' :: name.toList := by
  rw [h.cmKey_podKey, String.toList_append, String.toList_append, List.append_assoc]
  rfl

/-- Both names have only characters of a key, and so has the separator. -/
theorem chars_cmKey (h : PodName ns name) : ∀ c ∈ (cmKey (podKey ns name)).toList,
    configMapKeyChar c := by
  rw [h.toList_cmKey, List.forall_mem_append, List.forall_mem_cons]
  refine ⟨fun c hc ↦ configMapKeyChar_of_dnsLabelChar (h.1.2.2 c hc), rfl, fun c hc ↦ ?_⟩
  rcases h.2.2.2 c hc with hc | rfl
  · exact configMapKeyChar_of_dnsLabelChar hc
  · rfl

theorem length_cmKey (h : PodName ns name) :
    (cmKey (podKey ns name)).toList.length = ns.length + 1 + name.length := by
  rw [h.toList_cmKey, List.length_append, List.length_cons, String.length_toList,
    String.length_toList]
  omega

/-- The length is all that can be wrong with the ledger key of a pod. -/
theorem isConfigMapKey_iff (h : PodName ns name) :
    IsConfigMapKey (cmKey (podKey ns name)) ↔ ns.length + 1 + name.length ≤ 253 := by
  rw [← h.length_cmKey]
  refine ⟨IsConfigMapKey.length_le, fun hlen ↦ ?_⟩
  -- the key begins with a character of the namespace, which has no dot
  obtain ⟨c, l, hns⟩ := List.exists_cons_of_ne_nil h.1.1
  have hkey : (cmKey (podKey ns name)).toList = c :: (l ++ '_' :: name.toList) := by
    rw [h.toList_cmKey, hns, List.cons_append]
  have hdot : c ≠ '.' := by
    rintro rfl
    exact h.1.notMem rfl (hns ▸ List.mem_cons_self)
  refine ⟨?_, hlen, h.chars_cmKey, ?_, ?_⟩
  · rw [hkey]
    exact List.cons_ne_nil _ _
  · rw [hkey]
    exact fun he ↦ hdot (List.head_eq_of_cons_eq he)
  · rw [hkey, List.cons_prefix_cons]
    exact fun hp ↦ hdot hp.1.symm

/-- Two pods do not share a ledger key. -/
theorem cmKey_podKey_inj {ns' name' : String} (h : PodName ns name) (h' : PodName ns' name') :
    cmKey (podKey ns name) = cmKey (podKey ns' name') ↔ ns = ns' ∧ name = name' := by
  rw [ledgerKey_inj h.notMem_podKey h'.notMem_podKey, h.podKey_inj]

end PodName

/-! ## What the ledger needs of a key -/

/-- The pod can be written to the ledger, and no other pod loses its entry by it. -/
structure LedgerKey (ns name : String) : Prop where
  accepted : IsConfigMapKey (cmKey (podKey ns name))
  unique : ∀ ns' name', PodName ns' name' →
    cmKey (podKey ns' name') = cmKey (podKey ns name) → ns' = ns ∧ name' = name
  keeps : ∀ (cm : ConfigMap) (raw : Raw) (ns' name' : String), PodName ns' name' →
    ¬ (ns' = ns ∧ name' = name) →
    (cm.data.insert (cmKey (podKey ns name)) raw).lookup (cmKey (podKey ns' name')) =
      cm.data.lookup (cmKey (podKey ns' name'))

/-- The names of a pod leave room for the separator in a key. -/
theorem ledgerKey_iff {ns name : String} (h : PodName ns name) :
    LedgerKey ns name ↔ ns.length + 1 + name.length ≤ 253 := by
  rw [← h.isConfigMapKey_iff]
  refine ⟨LedgerKey.accepted, fun hkey ↦ ⟨hkey, ?_, ?_⟩⟩
  · intro ns' name' h' he
    exact (h'.cmKey_podKey_inj h).mp he
  · intro cm raw ns' name' h' hne
    refine Finmap.lookup_insert_of_ne _ fun he ↦ hne ?_
    exact (h'.cmKey_podKey_inj h).mp he

/-- A pod with a short name. -/
theorem shortName_ledgerKey : PodName "shop" "db.a-0" ∧ LedgerKey "shop" "db.a-0" :=
  have h : PodName "shop" "db.a-0" := by decide +kernel
  ⟨h, (ledgerKey_iff h).mpr (by decide)⟩

/-- A pod name of `n` letters. -/
def longName (n : ℕ) : String := String.ofList (List.replicate n 'a')

theorem length_longName (n : ℕ) : (longName n).length = n := by
  rw [longName, String.length_ofList, List.length_replicate]

theorem isDNSSubdomain_longName {n : ℕ} (h₀ : 0 < n) (hn : n ≤ 253) :
    IsDNSSubdomain (longName n) := by
  rw [IsDNSSubdomain, String.length_toList, length_longName, longName, String.toList_ofList]
  refine ⟨?_, hn, fun c hc ↦ ?_⟩
  · rw [ne_eq, List.replicate_eq_nil_iff]
    exact h₀.ne'
  · rw [List.eq_of_mem_replicate hc]
    exact .inl rfl

/-- The longest pod name there is leaves no room for a namespace. -/
theorem longName_not_ledgerKey : ¬ ∀ ns name, PodName ns name → LedgerKey ns name := by
  intro hall
  have h : PodName "shop" (longName 253) :=
    ⟨by decide +kernel, isDNSSubdomain_longName (by decide) le_rfl⟩
  have hlen := h.isConfigMapKey_iff.mp (hall "shop" (longName 253) h).accepted
  rw [length_longName] at hlen
  omega
