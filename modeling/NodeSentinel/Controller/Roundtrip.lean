import NodeSentinel.Controller.Ledger

/-!
# The ledger is read back

`persist` and `forget` one at a time, and `Recover` in a process that starts afresh: the
ledger is a map from pods to records, each call edits the entry of its pod, and `Recover`
finds the map again.  The names need not be DNS names; that they contain no separator of the
keys is enough.
-/

open Function (update)

/-! ## Names -/

/-- A name without the separators of the keys. -/
structure PlainName (s : String) : Prop where
  ne_empty : s ≠ ""
  slash : '/' ∉ s.toList
  underscore : '_' ∉ s.toList

/-- A pod with such names. -/
structure PlainPod (ns pod : String) : Prop where
  ns : PlainName ns
  pod : PlainName pod

namespace PlainPod

variable {ns pod ns' pod' : String}

theorem notMem_podKey (h : PlainPod ns pod) : '_' ∉ (podKey ns pod).toList := by
  simp only [podKey, String.toList_append, List.mem_append, not_or]
  exact ⟨⟨h.ns.underscore, by decide⟩, h.pod.underscore⟩

/-- The ledger key of a pod determines it. -/
theorem cmKey_inj (h : PlainPod ns pod) (h' : PlainPod ns' pod') :
    cmKey (podKey ns pod) = cmKey (podKey ns' pod') ↔ ns = ns' ∧ pod = pod' := by
  rw [ledgerKey_inj h.notMem_podKey h'.notMem_podKey]
  exact podKey_inj_of_notMem h.ns.slash h.pod.slash

end PlainPod

/-! ## One call -/

namespace World

/-- The world with other entries in the ledger. -/
def setLedger (w : World) (r : Remediator) (data : Finmap fun _ : String ↦ Raw) : World :=
  { w with configMap := update w.configMap r.stateNS (some ⟨data⟩) }

variable {r : Remediator} {w w' : World} {data data' : Finmap fun _ : String ↦ Raw}

@[simp] theorem ledger_setLedger : (w.setLedger r data).ledger r = data := ledger_update w r ⟨data⟩

@[simp] theorem setLedger_setLedger : (w.setLedger r data).setLedger r data' = w.setLedger r data' := by
  simp [setLedger]

theorem setLedger_ledger {cm : ConfigMap} (h : w.configMap r.stateNS = some cm) :
    w.setLedger r (w.ledger r) = w := by
  have hcm : some (ConfigMap.mk cm.data) = w.configMap r.stateNS := h.symm
  simp only [setLedger, ledger_of_eq h, hcm, Function.update_eq_self]

end World

section Calls

variable {r : Remediator} {w w' : World}

/-- An API call that is served. -/
theorem exec_reliable {α : Type} {x : Except ApiError α × World} {ans : Except ApiError α} :
    (∃ ch : Choice, Policy.reliable w ch.ok ∧ some (ch.api w x) = some (ans, w')) ↔ x = (ans, w') := by
  rw [exec_api]
  simp [Policy.reliable]

/-- A call that has one outcome: the program goes on with its answer. -/
theorem runs_served {α : Type} {e : Act} {k : Resp e → Ctl α} {b : α} {x : Resp e × World}
    (h : ∀ ans w₁, Exec .reliable e w ans w₁ ↔ x = (ans, w₁)) :
    System.Runs (Exec .reliable) (perform e >>= k) w (.pure b) w' ↔
      System.Runs (Exec .reliable) (k x.1) x.2 (.pure b) w' := by
  rw [Prog.perform_bind, System.runs_act]
  constructor
  · rintro ⟨ans, w₁, hx, hk⟩
    obtain rfl := (h ans w₁).mp hx
    exact hk
  · intro hk
    exact ⟨x.1, x.2, (h x.1 x.2).mpr rfl, hk⟩

theorem runs_getConfigMap {α : Type} {k : Except ApiError ConfigMap → Ctl α} {b : α} :
    System.Runs (Exec .reliable) (perform (.getConfigMap r.stateNS) >>= k) w (.pure b) w' ↔
      System.Runs (Exec .reliable) (k (w.getConfigMap r.stateNS)) w (.pure b) w' :=
  runs_served (e := .getConfigMap r.stateNS) (x := (w.getConfigMap r.stateNS, w)) fun _ _ ↦
    exec_reliable

/-- The ledger is fetched, or created. -/
theorem runs_stateConfigMap {res : Except ApiError ConfigMap} :
    System.Runs (Exec .reliable) (stateConfigMap r) w (.pure res) w' ↔
      res = .ok ⟨w.ledger r⟩ ∧ w' = w.setLedger r (w.ledger r) := by
  unfold stateConfigMap
  rw [runs_getConfigMap]
  cases hcm : w.configMap r.stateNS with
  | some cm =>
      rw [World.setLedger_ledger hcm, World.ledger_of_eq hcm]
      simp only [World.getConfigMap, hcm]
      exact System.runs_pure.trans (and_congr_left' eq_comm)
  | none =>
      rw [World.ledger_of_none hcm]
      simp only [World.getConfigMap, hcm]
      rw [runs_served (e := .createConfigMap r.stateNS)
        (x := w.createConfigMap r.stateNS) fun _ _ ↦ exec_reliable]
      simp only [World.createConfigMap, hcm]
      exact System.runs_pure.trans (and_congr_left' eq_comm)

/-- The release of the mutex. -/
theorem runs_unlockPersist :
    System.Runs (Exec .reliable) (perform .unlockPersist) w (.pure ⟨⟩) w' ↔
      w' = { w with persistMu := false } := by
  constructor
  · intro h
    obtain ⟨ans, w₁, hx, hk⟩ := System.runs_act.mp h
    obtain ⟨-, rfl⟩ := Prod.mk.inj (exec_local hx)
    exact (System.runs_pure.mp hk).2
  · rintro rfl
    exact .act ⟨{}, rfl, rfl⟩ (.refl _ _)

/-- A ledger section whose body turns the ledger it gets into `f` of it. -/
theorem runs_section {body : ConfigMap → Ctl Unit} {f : ConfigMap → ConfigMap}
    (hbody : ∀ {cm : ConfigMap} {w w' : World}, w.configMap r.stateNS = some cm →
      (System.Runs (Exec .reliable) (body cm) w (.pure ⟨⟩) w' ↔
        w' = { w.setLedger r (f cm).data with persistMu := false })) :
    System.Runs (Exec .reliable) (do
      perform .lockPersist
      match ← stateConfigMap r with
      | .error _ => perform .unlockPersist
      | .ok cm => body cm) w (.pure ⟨⟩) w' ↔
    w.persistMu = false ∧ w' = w.setLedger r (f ⟨w.ledger r⟩).data := by
  -- once the mutex is held, the section fetches the ledger and runs its body
  have hinside : ∀ {v v' : World}, System.Runs (Exec .reliable) (do
      match ← stateConfigMap r with
      | .error _ => perform .unlockPersist
      | .ok cm => body cm) v (.pure ⟨⟩) v' ↔
      v' = { v.setLedger r (f ⟨v.ledger r⟩).data with persistMu := false } := by
    intro v v'
    rw [System.runs_bind]
    constructor
    · rintro ⟨res, w₂, hst, hk⟩
      obtain ⟨rfl, rfl⟩ := runs_stateConfigMap.mp hst
      simpa using (hbody (by simp [World.setLedger])).mp hk
    · rintro rfl
      refine ⟨_, _, runs_stateConfigMap.mpr ⟨rfl, rfl⟩, ?_⟩
      exact (hbody (by simp [World.setLedger])).mpr (by simp)
  rw [Prog.perform_bind, System.runs_act]
  constructor
  · rintro ⟨ans, w₁, hx, hk⟩
    obtain ⟨hmu, rfl⟩ := exec_lockPersist hx
    obtain rfl := hinside.mp hk
    refine ⟨hmu, ?_⟩
    simp [World.setLedger, World.ledger, hmu]
  · rintro ⟨hmu, rfl⟩
    refine ⟨⟨⟩, { w with persistMu := true }, ⟨{}, rfl, by simp [exec, hmu]⟩, hinside.mpr ?_⟩
    simp [World.setLedger, World.ledger, hmu]

/-- What a section ends with: the ledger is written back, and the mutex released. -/
theorem runs_update {cm cm' : ConfigMap} (hcm : w.configMap r.stateNS = some cm) :
    System.Runs (Exec .reliable) (do
      let _ ← perform (.updateConfigMap r.stateNS cm')
      perform .unlockPersist) w (.pure ⟨⟩) w' ↔
    w' = { w.setLedger r cm'.data with persistMu := false } := by
  rw [runs_served (e := .updateConfigMap r.stateNS cm')
    (x := w.updateConfigMap r.stateNS cm') fun _ _ ↦ exec_reliable]
  simp only [World.updateConfigMap, hcm]
  exact runs_unlockPersist

theorem runs_persist (hns : r.stateNS ≠ "") {key : String} {st : ThrottleState} :
    System.Runs (Exec .reliable) (persist r key st) w (.pure ⟨⟩) w' ↔
      w.persistMu = false ∧ w' = w.setLedger r ((ConfigMap.mk (w.ledger r)).edit key (some st)).data := by
  rw [persist, if_neg hns]
  exact runs_section (f := fun cm ↦ cm.edit key (some st)) runs_update

theorem runs_forget (hns : r.stateNS ≠ "") {key : String} :
    System.Runs (Exec .reliable) (forget r key) w (.pure ⟨⟩) w' ↔
      w.persistMu = false ∧ w' = w.setLedger r ((ConfigMap.mk (w.ledger r)).edit key none).data := by
  rw [forget, if_neg hns]
  refine runs_section (f := fun cm ↦ cm.edit key none) fun {cm w w'} hcm ↦ ?_
  by_cases hk : cmKey key ∈ cm.data
  · simp only [hk, not_true_eq_false, if_false]
    exact runs_update hcm
  · -- there is nothing to erase
    have hsame : (cm.edit key none).data = w.ledger r := by
      rw [World.ledger_of_eq hcm]
      refine Finmap.ext_lookup fun a ↦ ?_
      by_cases ha : a = cmKey key
      · rw [ha]
        exact (Finmap.lookup_erase _ _).trans (Finmap.lookup_eq_none.mpr hk).symm
      · exact Finmap.lookup_erase_ne ha
    simp only [hk, not_false_eq_true, if_true, hsame]
    rw [World.setLedger_ledger hcm]
    exact runs_unlockPersist

end Calls

/-! ## Histories -/

/-- A call on the ledger. -/
inductive LedgerOp where
  /-- `persist` of a record under the key of its pod. -/
  | put (st : ThrottleState)
  /-- `forget` of a pod. -/
  | erase (ns pod : String)
deriving Repr, DecidableEq

namespace LedgerOp

/-- The pod it is about. -/
def pod : LedgerOp → String × String
  | put st => (st.ns, st.pod)
  | erase ns pod => (ns, pod)

/-- The record it leaves. -/
def record : LedgerOp → Option ThrottleState
  | put st => some st
  | erase _ _ => none

/-- The program of the call. -/
def prog (r : Remediator) : LedgerOp → Ctl Unit
  | put st => persist r st.key st
  | erase ns pod => forget r (podKey ns pod)

/-- Plain names, and a time JSON can write. -/
def Plain (op : LedgerOp) : Prop :=
  PlainPod op.pod.1 op.pod.2 ∧ ∀ st, op.record = some st → st.restoreAt.InJSONRange

theorem Plain.put {st : ThrottleState} (h : PlainPod st.ns st.pod) (ht : st.restoreAt.InJSONRange) :
    (LedgerOp.put st).Plain := by
  refine ⟨h, ?_⟩
  rintro _ ⟨⟩
  exact ht

theorem Plain.erase {ns pod : String} (h : PlainPod ns pod) : (LedgerOp.erase ns pod).Plain := by
  refine ⟨h, ?_⟩
  rintro _ ⟨⟩

end LedgerOp

/-- The record that was last persisted for a pod, unless it has been forgotten since. -/
def lastRecord (ops : List LedgerOp) (ns pod : String) : Option ThrottleState :=
  (ops.reverse.find? fun op ↦ op.pod = (ns, pod)).bind LedgerOp.record

/-- The calls run one at a time, each to its end, and every API call is served. -/
inductive LedgerRun (r : Remediator) : List LedgerOp → World → World → Prop
  | nil (w : World) : LedgerRun r [] w w
  | snoc {ops : List LedgerOp} {op : LedgerOp} {w w₁ w₂ : World} (h : LedgerRun r ops w w₁)
      (hop : System.Runs (Exec .reliable) (op.prog r) w₁ (.pure ⟨⟩) w₂) :
      LedgerRun r (ops ++ [op]) w w₂

/-- `Recover` in a process that starts in `w` returns, and has then exactly the records
of `m`. -/
def Recovers (r : Remediator) (w : World) (m : String → String → Option ThrottleState) : Prop :=
  (∃ w', System.Runs (Exec .reliable) (recover r) w.reset (.pure ⟨⟩) w') ∧
  ∀ w', System.Runs (Exec .reliable) (recover r) w.reset (.pure ⟨⟩) w' →
    ∀ k st, w'.throttled.lookup k = some st ↔ ∃ ns pod, k = podKey ns pod ∧ m ns pod = some st

section Histories

variable {r : Remediator} {w w' : World} {ops : List LedgerOp} {op : LedgerOp}

theorem lastRecord_snoc (ns pod : String) : lastRecord (ops ++ [op]) ns pod =
    if op.pod = (ns, pod) then op.record else lastRecord ops ns pod := by
  by_cases h : op.pod = (ns, pod) <;> simp [lastRecord, h]

/-- A call edits the entry of its pod. -/
theorem runs_op (hns : r.stateNS ≠ "") :
    System.Runs (Exec .reliable) (op.prog r) w (.pure ⟨⟩) w' ↔ w.persistMu = false ∧
      w' = w.setLedger r
        ((ConfigMap.mk (w.ledger r)).edit (podKey op.pod.1 op.pod.2) op.record).data := by
  cases op with
  | put st => exact runs_persist hns
  | erase ns pod => exact runs_forget hns

/-- A call leaves the entries of the other pods as they are. -/
theorem runs_op_of_ne (hns : r.stateNS ≠ "")
    (h : System.Runs (Exec .reliable) (op.prog r) w (.pure ⟨⟩) w') {key : String}
    (hkey : key ≠ cmKey (podKey op.pod.1 op.pod.2)) :
    (w'.ledger r).lookup key = (w.ledger r).lookup key := by
  obtain ⟨-, rfl⟩ := (runs_op hns).mp h
  rw [World.ledger_setLedger, ConfigMap.lookup_edit, if_neg hkey]

/-- The ledger after some calls. -/
structure Encodes (r : Remediator) (w : World) (ops : List LedgerOp) : Prop where
  lookup : ∀ {ns pod}, PlainPod ns pod →
    (w.ledger r).lookup (cmKey (podKey ns pod)) = (lastRecord ops ns pod).map ThrottleState.raw
  only : ∀ {key raw}, (w.ledger r).lookup key = some raw →
    ∃ ns pod, PlainPod ns pod ∧ key = cmKey (podKey ns pod)

theorem Encodes.nil (h : w.ledger r = ∅) : Encodes r w [] where
  lookup _ := by simp [h, lastRecord]
  only hraw := by simp [h] at hraw

theorem Encodes.snoc (hns : r.stateNS ≠ "") (h : Encodes r w ops) (hop : op.Plain)
    (hrun : System.Runs (Exec .reliable) (op.prog r) w (.pure ⟨⟩) w') : Encodes r w' (ops ++ [op]) := by
  obtain ⟨-, rfl⟩ := (runs_op hns).mp hrun
  constructor
  · intro ns pod hpod
    rw [World.ledger_setLedger, ConfigMap.lookup_edit, lastRecord_snoc]
    by_cases heq : op.pod = (ns, pod)
    · simp [heq]
    · have hne : cmKey (podKey ns pod) ≠ cmKey (podKey op.pod.1 op.pod.2) := by
        intro hkey
        obtain ⟨rfl, rfl⟩ := (hpod.cmKey_inj hop.1).mp hkey
        exact heq rfl
      rw [if_neg hne, if_neg heq]
      exact h.lookup hpod
  · intro key raw hraw
    rw [World.ledger_setLedger, ConfigMap.lookup_edit] at hraw
    split at hraw
    · exact ⟨_, _, hop.1, ‹_›⟩
    · exact h.only hraw

theorem LedgerRun.encodes (hns : r.stateNS ≠ "") (hw : w.ledger r = ∅) (h : LedgerRun r ops w w')
    (hops : ∀ op ∈ ops, op.Plain) : Encodes r w' ops := by
  induction h with
  | nil => exact .nil hw
  | snoc _ hop ih =>
      have hinit := ih hw fun op hmem ↦ hops op (List.mem_append_left _ hmem)
      exact hinit.snoc hns (hops _ (by simp)) hop

/-- Nothing keeps the calls from running. -/
theorem LedgerRun.exists (hns : r.stateNS ≠ "") (hmu : w.persistMu = false) (ops : List LedgerOp) :
    ∃ w', LedgerRun r ops w w' ∧ w'.persistMu = false := by
  induction ops using List.reverseRecOn with
  | nil => exact ⟨w, .nil w, hmu⟩
  | append_singleton ops op ih =>
      obtain ⟨w₁, h, hmu₁⟩ := ih
      exact ⟨_, .snoc h ((runs_op hns).mpr ⟨hmu₁, rfl⟩), hmu₁⟩

theorem lastRecord_eq_some {ns pod : String} {st : ThrottleState} (h : lastRecord ops ns pod = some st) :
    .put st ∈ ops ∧ st.ns = ns ∧ st.pod = pod := by
  obtain ⟨op, hop, hst⟩ := Option.bind_eq_some_iff.mp h
  have hmem := List.mem_reverse.mp (List.mem_of_find?_eq_some hop)
  have hpod : op.pod = (ns, pod) := by simpa using List.find?_some hop
  cases op with
  | put st' =>
      obtain rfl := Option.some.inj hst
      obtain ⟨rfl, rfl⟩ := Prod.mk.inj hpod
      exact ⟨hmem, rfl, rfl⟩
  | erase => cases hst

/-- `Recover` goes through the entries of the ledger in some order. -/
theorem runs_recover (hns : r.stateNS ≠ "") :
    System.Runs (Exec .reliable) (recover r) w (.pure ⟨⟩) w' ↔
      ∃ scan : List (Sigma fun _ : String ↦ Raw), (scan : Multiset _) = (w.ledger r).entries ∧
        w' = { w with throttled := scan.foldl World.recoverEntry w.throttled } := by
  rw [recover, if_neg hns, runs_getConfigMap]
  cases hcm : w.configMap r.stateNS with
  | none =>
      simp only [World.getConfigMap, hcm, World.ledger_of_none hcm]
      constructor
      · intro hk
        exact ⟨[], rfl, (System.runs_pure.mp hk).2⟩
      · rintro ⟨scan, hscan, rfl⟩
        obtain rfl := Multiset.coe_eq_zero _ |>.mp hscan
        exact .refl _ _
  | some cm =>
      simp only [World.getConfigMap, hcm, World.ledger_of_eq hcm]
      constructor
      · intro hk
        obtain ⟨ans, w₁, hx, hk⟩ := System.runs_act.mp hk
        obtain ⟨scan, hscan, rfl⟩ := exec_recoverThrottled hx
        exact ⟨scan, hscan, (System.runs_pure.mp hk).2⟩
      · rintro ⟨scan, hscan, rfl⟩
        refine .act (r := ⟨⟩) ⟨{ scan := scan }, rfl, ?_⟩ (.refl _ _)
        simp [exec, hscan]

/-- `Recover` finds the records of the history again. -/
theorem Encodes.recovers {r' : Remediator} (hns : r.stateNS ≠ "") (hr : r'.stateNS = r.stateNS)
    (h : Encodes r w ops) (hops : ∀ op ∈ ops, op.Plain) : Recovers r' w (lastRecord ops) := by
  have hledger : w.reset.ledger r' = w.ledger r := by simp [World.ledger, World.reset, hr]
  -- what is entered for a pod that has a record
  have hrecord : ∀ {ns pod st}, lastRecord ops ns pod = some st →
      PlainPod ns pod ∧ st.raw.record = some st ∧ st.key = podKey ns pod := by
    intro ns pod st hlast
    obtain ⟨hmem, rfl, rfl⟩ := lastRecord_eq_some hlast
    obtain ⟨hpod, htime⟩ := hops _ hmem
    exact ⟨hpod, ThrottleState.record_raw_of_ne hpod.ns.ne_empty hpod.pod.ne_empty (htime st rfl), rfl⟩
  -- every entry is the text of such a record
  have hentry : ∀ {e : Sigma fun _ : String ↦ Raw}, e ∈ (w.ledger r).entries →
      ∃ ns pod st, lastRecord ops ns pod = some st ∧ e.2.record = some st ∧ st.key = podKey ns pod := by
    rintro ⟨key, raw⟩ he
    have hraw := Finmap.mem_lookup_iff.mpr he
    obtain ⟨ns, pod, hpod, rfl⟩ := h.only hraw
    obtain ⟨st, hst, rfl⟩ := Option.map_eq_some_iff.mp ((h.lookup hpod).symm.trans hraw)
    exact ⟨ns, pod, st, hst, (hrecord hst).2⟩
  have hrecover := @runs_recover r' w.reset
  rw [hr, hledger] at hrecover
  refine ⟨⟨_, (hrecover hns).mpr ⟨_, Multiset.coe_toList _, rfl⟩⟩, fun w' hrun k st ↦ ?_⟩
  obtain ⟨scan, hscan, rfl⟩ := (hrecover hns).mp hrun
  have hmem : ∀ {e}, e ∈ scan ↔ e ∈ (w.ledger r).entries := by
    intro e
    rw [← hscan, Multiset.mem_coe]
  constructor
  · intro hlookup
    rcases World.lookup_foldl_recoverEntry hlookup with hnone | ⟨e, he, hst, rfl⟩
    · simp [World.reset] at hnone
    · obtain ⟨ns, pod, st', hlast, hst', hkey⟩ := hentry (hmem.mp he)
      obtain rfl := Option.some.inj (hst.symm.trans hst')
      exact ⟨ns, pod, hkey, hlast⟩
  · rintro ⟨ns, pod, rfl, hlast⟩
    obtain ⟨hpod, hraw, hkey⟩ := hrecord hlast
    refine World.lookup_foldl_recoverEntry_of_unique ?_ (.inr ⟨⟨cmKey (podKey ns pod), st.raw⟩, ?_, hraw, hkey⟩)
    · intro e he st' hst' hkey'
      obtain ⟨ns', pod', st'', hlast', hst'', hkey''⟩ := hentry (hmem.mp he)
      obtain rfl := Option.some.inj (hst'.symm.trans hst'')
      obtain ⟨rfl, rfl⟩ := (podKey_inj_of_notMem hpod.ns.slash hpod.pod.slash).mp (hkey'.symm.trans hkey'')
      exact Option.some.inj (hlast'.symm.trans hlast)
    · refine hmem.mpr (Finmap.mem_lookup_iff.mp ?_)
      rw [h.lookup hpod, hlast, Option.map_some]
      rfl

/-- The ledger is a faithful encoding: after any calls, `Recover` finds the last record of each
pod that was not forgotten since, and a call changes the entry of no other pod. -/
theorem recovers_lastRecord {r' : Remediator} (hns : r.stateNS ≠ "") (hr : r'.stateNS = r.stateNS)
    (hmu : w.persistMu = false) (hcm : w.configMap r.stateNS = none ∨ w.configMap r.stateNS = some ⟨∅⟩)
    (hops : ∀ op ∈ ops, op.Plain) :
    (∃ w', LedgerRun r ops w w') ∧
    (∀ w', LedgerRun r ops w w' → Recovers r' w' (lastRecord ops)) ∧
    ∀ (op : LedgerOp) (w₁ w₂ : World), op.Plain →
      System.Runs (Exec .reliable) (op.prog r) w₁ (.pure ⟨⟩) w₂ → ∀ ns pod, PlainPod ns pod → (ns, pod) ≠ op.pod →
        (w₂.ledger r).lookup (cmKey (podKey ns pod)) = (w₁.ledger r).lookup (cmKey (podKey ns pod)) := by
  have hempty : w.ledger r = ∅ := by
    rcases hcm with hcm | hcm
    · exact World.ledger_of_none hcm
    · exact World.ledger_of_eq hcm
  refine ⟨?_, fun w' h ↦ (h.encodes hns hempty hops).recovers hns hr hops, ?_⟩
  · obtain ⟨w', h, -⟩ := LedgerRun.exists hns hmu ops
    exact ⟨w', h⟩
  · intro op w₁ w₂ hop hrun ns pod hpod hne
    refine runs_op_of_ne hns hrun fun hkey ↦ hne ?_
    obtain ⟨rfl, rfl⟩ := (hpod.cmKey_inj hop.1).mp hkey
    rfl

/-- One pod is throttled twice, the second time with a later end, and another one is
throttled and restored. -/
def throttledTwice : List LedgerOp :=
  [.put (webRecord 100), .put ⟨"web", "b", "app", some 400, 150⟩, .put (webRecord 200),
    .erase "web" "b"]

theorem throttledTwice_recovers : ∃ w', LedgerRun webRemediator throttledTwice (.fresh .web) w' ∧
    Recovers webRemediator w' (lastRecord throttledTwice) ∧
    lastRecord throttledTwice "web" "a" = some (webRecord 200) ∧
    lastRecord throttledTwice "web" "b" = none := by
  have hweb : PlainName "web" := ⟨by decide, by decide, by decide⟩
  have ha : PlainName "a" := ⟨by decide, by decide, by decide⟩
  have hb : PlainName "b" := ⟨by decide, by decide, by decide⟩
  have hplain : ∀ op ∈ throttledTwice, op.Plain := by
    intro op hop
    simp only [throttledTwice, List.mem_cons, List.not_mem_nil, or_false] at hop
    rcases hop with rfl | rfl | rfl | rfl
    · exact .put ⟨hweb, ha⟩ (by decide)
    · exact .put ⟨hweb, hb⟩ (by decide)
    · exact .put ⟨hweb, ha⟩ (by decide)
    · exact .erase ⟨hweb, hb⟩
  obtain ⟨⟨w', h⟩, hrecovers, -⟩ := recovers_lastRecord (w := .fresh .web) (r := webRemediator)
    (by decide) rfl rfl (.inl rfl) hplain
  exact ⟨w', h, hrecovers w' h, by decide, by decide⟩

end Histories
