import NodeSentinel.Controller.Keys

/-!
# The ledger follows the memory

A change of `r.throttled` and the ledger section that follows it are two critical
sections under two mutexes.  `Tracked` is the invariant that ties them: for every pod
the ledger holds what the memory holds, or a call in flight is about to write just
that.  It survives any interleaving in which no call writes over the ledger entry of
a record that has changed since, unless the call that changed it is still to write.

The restore loop can break this: it deletes a record from the memory, `Remediate`
throttles the pod again and persists the new record, and then `forget` of the old one
erases it.
-/

open Function (update)

universe u

/-! ## Memory and ledger -/

/-- The entries of the ledger. -/
def World.ledger (w : World) (r : Remediator) : Finmap fun _ : String ↦ Raw :=
  ((w.configMap r.stateNS).map ConfigMap.data).getD ∅

theorem World.ledger_of_eq {w : World} {r : Remediator} {cm : ConfigMap}
    (h : w.configMap r.stateNS = some cm) : w.ledger r = cm.data := by simp [ledger, h]

@[simp] theorem World.ledger_update (w : World) (r : Remediator) (cm : ConfigMap) :
    World.ledger { w with configMap := Function.update w.configMap r.stateNS (some cm) } r =
      cm.data := World.ledger_of_eq (by simp)

theorem World.ledger_of_none {w : World} {r : Remediator}
    (h : w.configMap r.stateNS = none) : w.ledger r = ∅ := by simp [ledger, h]

/-- The ledger has exactly one entry per record, under the key of the same pod and with
a text that reads back as the record; every record is under the key of its pod. -/
structure Agree (r : Remediator) (w : World) : Prop where
  keyed : ∀ {k st}, w.throttled.lookup k = some st → st.Named ∧ k = st.key
  saved : ∀ {k st}, w.throttled.lookup k = some st →
    ∃ raw, (w.ledger r).lookup (cmKey k) = some raw ∧ raw.unmarshal = some st.persisted
  only : ∀ {key raw}, (w.ledger r).lookup key = some raw →
    ∃ st, w.throttled.lookup st.key = some st ∧ key = cmKey st.key

/-- The text of a record reads back as the record. -/
theorem ThrottleState.unmarshal_eq_some {st : ThrottleState} {raw : Raw} :
    raw.unmarshal = some st.persisted ↔ st.restoreAt.InJSONRange ∧ raw = st.raw :=
  Raw.unmarshal_eq_some

/-- What a ledger section writes: the entry of one pod. -/
theorem ConfigMap.lookup_edit (cm : ConfigMap) (k : String) (v : Option ThrottleState)
    (key : String) : (cm.edit k v).data.lookup key =
      if key = cmKey k then v.map ThrottleState.raw else cm.data.lookup key := by
  cases v with
  | none =>
      split
      · next h => subst h; simp [edit]
      · next h => simp [edit, Finmap.lookup_erase_ne h]
  | some st =>
      split
      · next h => subst h; simp [edit]
      · next h => simp [edit, Finmap.lookup_insert_of_ne _ h]

/-! ## Reading the ledger back -/

/-- The record `Recover` makes of a ledger entry, if it makes one. -/
def Raw.record (raw : Raw) : Option ThrottleState :=
  match raw.unmarshal with
  | none => none
  | some p =>
      if p.ns = "" ∨ p.pod = "" then none
      else some ⟨p.ns, p.pod, p.container, p.originalCPULimit, p.restoreAt⟩

/-- `Recover` finds a record that names a pod again. -/
theorem ThrottleState.record_raw_of_ne {st : ThrottleState} (hns : st.ns ≠ "") (hpod : st.pod ≠ "")
    (hr : st.restoreAt.InJSONRange) : st.raw.record = some st := by
  have hraw : st.raw.unmarshal = some st.persisted := unmarshal_eq_some.mpr ⟨hr, rfl⟩
  simp [Raw.record, hraw, persisted, hns, hpod]

theorem ThrottleState.record_raw {st : ThrottleState} (hn : st.Named)
    (hr : st.restoreAt.InJSONRange) : st.raw.record = some st :=
  record_raw_of_ne (fun he ↦ hn.1.1 (by simp [he])) (fun he ↦ hn.2.1 (by simp [he])) hr

namespace World

theorem recoverEntry_eq (m : Finmap fun _ : String ↦ ThrottleState)
    (e : Sigma fun _ : String ↦ Raw) :
    recoverEntry m e = e.2.record.elim m fun st ↦ m.insert st.key st := by
  rw [recoverEntry, Raw.record]
  cases e.2.unmarshal with
  | none => rfl
  | some p => by_cases hp : p.ns = "" ∨ p.pod = "" <;> simp [hp, ThrottleState.key]

variable {scan : List (Sigma fun _ : String ↦ Raw)} {m : Finmap fun _ : String ↦ ThrottleState}
  {k : String} {st : ThrottleState}

/-- What `Recover` enters comes from the ledger. -/
theorem lookup_foldl_recoverEntry (h : (scan.foldl recoverEntry m).lookup k = some st) :
    m.lookup k = some st ∨ ∃ e ∈ scan, e.2.record = some st ∧ k = st.key := by
  induction scan generalizing m with
  | nil => exact .inl h
  | cons e scan ih =>
      rcases ih h with hm | ⟨e', he', hst⟩
      · rw [recoverEntry_eq] at hm
        cases hr : e.2.record with
        | none => rw [hr] at hm; exact .inl hm
        | some st' =>
            rw [hr, Option.elim_some] at hm
            rcases Finmap.lookup_insert_eq_some hm with ⟨rfl, rfl⟩ | ⟨-, hm⟩
            · exact .inr ⟨e, .head _, hr, rfl⟩
            · exact .inl hm
      · exact .inr ⟨e', .tail _ he', hst⟩

/-- An entry that no other entry of its pod contradicts is entered, in whatever order
the entries are visited. -/
theorem lookup_foldl_recoverEntry_of_unique
    (huniq : ∀ e ∈ scan, ∀ st', e.2.record = some st' → st'.key = k → st' = st)
    (h : m.lookup k = some st ∨ ∃ e ∈ scan, e.2.record = some st ∧ st.key = k) :
    (scan.foldl recoverEntry m).lookup k = some st := by
  induction scan generalizing m with
  | nil => simpa using h
  | cons e scan ih =>
      refine ih (fun e' he' ↦ huniq e' (.tail _ he')) ?_
      rw [recoverEntry_eq]
      cases hr : e.2.record with
      | none =>
          rcases h with hm | ⟨e', he', hst, hk⟩
          · exact .inl hm
          · rcases List.mem_cons.mp he' with rfl | he'
            · rw [hr] at hst; cases hst
            · exact .inr ⟨e', he', hst, hk⟩
      | some st' =>
          by_cases hk' : st'.key = k
          · obtain rfl := huniq e (.head _) st' hr hk'
            exact .inl (hk' ▸ Finmap.lookup_insert _)
          · rcases h with hm | ⟨e', he', hst, hk⟩
            · exact .inl ((Finmap.lookup_insert_of_ne _ (Ne.symm hk')).trans hm)
            · rcases List.mem_cons.mp he' with rfl | he'
              · rw [hr] at hst
                exact absurd (Option.some.inj hst ▸ hk) hk'
              · exact .inr ⟨e', he', hst, hk⟩

end World

/-! ## Sections in flight -/

namespace Phase

/-- The call is still to write that the record under `k` has become `v`. -/
def Pending : Phase → String → Option ThrottleState → Prop
  | ledger stage k' v' _, k, v => stage ≠ .leaving ∧ k' = k ∧ v' = v
  | _, _, _ => False

/-- The call holds `persistMu`. -/
def Inside : Phase → Prop
  | ledger stage _ _ _ => stage ≠ .waiting
  | _ => False

/-- What a call knows about the records it handles and about the ledger. -/
def Tracks (P : ThrottleState → Prop) (r : Remediator) (w : World) : Phase → Prop
  | lowered ns pod _ _ _ => PodName ns pod
  | stamped st => st.Named
  | restoring rest => ∀ st ∈ rest, st.Named
  | restored _ st rest => ∀ st' ∈ st :: rest, st'.Named
  | ledger stage k v rest =>
      (IsPodKey k ∧ (∀ st ∈ v, st.Named ∧ k = st.key ∧ P st) ∧
        ∀ st ∈ rest, st.Named) ∧
      match stage with
      | .loaded cm => w.configMap r.stateNS = some cm
      | .rereading => w.configMap r.stateNS ≠ none
      | _ => True
  | starting | recovering _ => False
  | _ => True

variable {φ : Phase} {P : ThrottleState → Prop} {r : Remediator} {w : World}

theorem Final.not_pending (h : φ.Final) {k : String} {v : Option ThrottleState} :
    ¬ φ.Pending k v := by
  cases φ <;> first | exact h.elim | exact id

@[simp] theorem pending_ledger {stage : Stage} {k k' : String} {v v' : Option ThrottleState}
    {rest : List ThrottleState} :
    (ledger stage k v rest).Pending k' v' ↔ stage ≠ .leaving ∧ k = k' ∧ v = v' := Iff.rfl

@[simp] theorem inside_ledger {stage : Stage} {k : String} {v : Option ThrottleState}
    {rest : List ThrottleState} : (ledger stage k v rest).Inside ↔ stage ≠ .waiting := Iff.rfl

/-- A call outside its ledger section knows nothing that the ledger's owner can change. -/
theorem Tracks.of_not_inside (h : φ.Tracks P r w) (hi : ¬ φ.Inside) (w' : World) :
    φ.Tracks P r w' := by
  cases φ with
  | ledger stage k v rest =>
      obtain rfl : stage = .waiting := by simpa using hi
      exact h
  | _ => exact h

theorem Tracks.congr {w' : World} (h : φ.Tracks P r w) (hC : w'.configMap = w.configMap) :
    φ.Tracks P r w' := by
  cases φ with
  | ledger stage k v rest => cases stage <;> simp_all [Tracks]
  | _ => exact h

theorem afterLedger_tracks {v : Option ThrottleState} {rest : List ThrottleState}
    (h : ∀ st ∈ rest, st.Named) (w : World) : (afterLedger v rest).Tracks P r w := by
  cases v with
  | none => exact h
  | some st => trivial

theorem afterLedger_not_inside {v : Option ThrottleState} {rest : List ThrottleState} :
    ¬ (afterLedger v rest).Inside := by
  cases v <;> exact id

end Phase

/-! ## The invariant -/

variable {ι : Type u} [DecidableEq ι]

/-- Memory and ledger agree up to the sections in flight; `P` holds of every record. -/
structure Tracked (P : ThrottleState → Prop) (r : Remediator) (w : World) (φ : ι → Phase) :
    Prop where
  keyed : ∀ {k st}, w.throttled.lookup k = some st → st.Named ∧ k = st.key ∧ P st
  stored : ∀ {key raw}, (w.ledger r).lookup key = some raw →
    ∃ st : ThrottleState, st.Named ∧ P st ∧ key = cmKey st.key ∧ raw = st.raw
  synced : ∀ {k}, IsPodKey k →
    (w.ledger r).lookup (cmKey k) = (w.throttled.lookup k).map ThrottleState.raw ∨
      ∃ i, (φ i).Pending k (w.throttled.lookup k)
  unique : ∀ {i j}, (φ i).Inside → (φ j).Inside → i = j
  held : ∀ {i}, (φ i).Inside → w.persistMu = true
  tracks : ∀ i, (φ i).Tracks P r w

/-- A section writes what the memory still holds, or the call that changed the memory
since is still to write; `P` holds of the records that are entered. -/
def writesInOrder (P : ThrottleState → Prop) (w : World) (φ : ι → Phase) (i : ι) : Act → Prop
  | .setThrottled _ st => P st
  | .updateConfigMap _ _ => ∀ k v, (φ i).Pending k v →
      v = w.throttled.lookup k ∨ ∃ j ≠ i, (φ j).Pending k (w.throttled.lookup k)
  | _ => True

namespace Tracked

variable {P : ThrottleState → Prop} {r : Remediator} {w w' : World} {φ : ι → Phase} {i : ι}
  {ψ : Phase}

omit [DecidableEq ι] in
theorem not_inside_of_ne (h : Tracked P r w φ) (hi : (φ i).Inside) {j : ι} (hj : j ≠ i) :
    ¬ (φ j).Inside := fun hjn ↦ hj (h.unique hjn hi)

/-- Transitions that change neither the memory nor the ledger nor the lock. -/
theorem move (h : Tracked P r w φ) (hT : w'.throttled = w.throttled)
    (hC : w'.configMap = w.configMap) (hM : w'.persistMu = w.persistMu) (hψ : ψ.Tracks P r w)
    (hp : ∀ {k v}, (φ i).Pending k v → ψ.Pending k v) (hin : ψ.Inside → (φ i).Inside) :
    Tracked P r w' (update φ i ψ) := by
  have hL : w'.ledger r = w.ledger r := by rw [World.ledger, World.ledger, hC]
  have hins : ∀ j, (update φ i ψ j).Inside → (φ j).Inside :=
    (Function.forall_update_iff φ fun j s ↦ s.Inside → (φ j).Inside).mpr ⟨hin, fun _ _ ↦ id⟩
  refine ⟨hT ▸ h.keyed, hL ▸ h.stored, fun {k} hk ↦ ?_,
    fun ha hb ↦ h.unique (hins _ ha) (hins _ hb), fun ha ↦ hM ▸ h.held (hins _ ha), ?_⟩
  · rw [hL, hT]
    refine (h.synced hk).imp_right fun ⟨j, hj⟩ ↦ ⟨j, ?_⟩
    by_cases hji : j = i
    · subst hji; simpa using hp hj
    · simpa [hji] using hj
  · exact (Function.forall_update_iff φ fun _ s ↦ s.Tracks P r w').mpr
      ⟨hψ.congr hC, fun j _ ↦ (h.tracks j).congr hC⟩

/-- The memory changes; the call now has to write the change. -/
theorem change (h : Tracked P r w φ) {k : String} {v : Option ThrottleState}
    {rest : List ThrottleState} (hT : ∀ k', w'.throttled.lookup k' =
      if k' = k then v else w.throttled.lookup k')
    (hC : w'.configMap = w.configMap) (hM : w'.persistMu = w.persistMu) (hk : IsPodKey k)
    (hv : ∀ st ∈ v, st.Named ∧ k = st.key ∧ P st)
    (hrest : ∀ st ∈ rest, st.Named) (hfree : ∀ {k v}, ¬ (φ i).Pending k v) :
    Tracked P r w' (update φ i (.ledger .waiting k v rest)) := by
  have hL : w'.ledger r = w.ledger r := by rw [World.ledger, World.ledger, hC]
  have hins : ∀ j, (update φ i (.ledger .waiting k v rest) j).Inside → (φ j).Inside :=
    (Function.forall_update_iff φ fun j s ↦ s.Inside → (φ j).Inside).mpr
      ⟨fun hin ↦ absurd rfl (Phase.inside_ledger.mp hin), fun _ _ ↦ id⟩
  refine ⟨fun {k' st} hst ↦ ?_, hL ▸ h.stored, fun {k'} hk' ↦ ?_,
    fun ha hb ↦ h.unique (hins _ ha) (hins _ hb), fun ha ↦ hM ▸ h.held (hins _ ha), ?_⟩
  · rw [hT] at hst
    split at hst
    · next he => subst he; exact hv st hst
    · exact h.keyed hst
  · rw [hL, hT]
    split
    · next he => subst he; exact .inr ⟨i, by simp⟩
    · refine (h.synced hk').imp_right fun ⟨j, hj⟩ ↦ ⟨j, ?_⟩
      have hji : j ≠ i := fun he ↦ hfree (he ▸ hj)
      simpa [hji] using hj
  · exact (Function.forall_update_iff φ fun _ s ↦ s.Tracks P r w').mpr
      ⟨⟨⟨hk, hv, hrest⟩, trivial⟩, fun j _ ↦ (h.tracks j).congr hC⟩

/-- A call enters its ledger section. -/
theorem lock (h : Tracked P r w φ) {k : String} {v : Option ThrottleState}
    {rest : List ThrottleState} (hφ : φ i = .ledger .waiting k v rest)
    (hM : w.persistMu = false) :
    Tracked P r { w with persistMu := true } (update φ i (.ledger .locked k v rest)) := by
  have hout : ∀ j, ¬ (φ j).Inside := fun j hj ↦ by simp [h.held hj] at hM
  have hins : ∀ j, (update φ i (.ledger .locked k v rest) j).Inside → j = i :=
    (Function.forall_update_iff φ fun j s ↦ s.Inside → j = i).mpr
      ⟨fun _ ↦ rfl, fun j _ hj ↦ (hout j hj).elim⟩
  have hi := h.tracks i
  rw [hφ] at hi
  refine ⟨h.keyed, h.stored, fun {k} hk ↦ ?_, fun ha hb ↦ (hins _ ha).trans (hins _ hb).symm,
    fun _ ↦ rfl, ?_⟩
  · refine (h.synced hk).imp_right fun ⟨j, hj⟩ ↦ ⟨j, ?_⟩
    by_cases hji : j = i
    · subst hji; rw [hφ] at hj; simpa using hj
    · simpa [hji] using hj
  · exact (Function.forall_update_iff φ fun _ s ↦ s.Tracks P r _).mpr
      ⟨hi, fun j _ ↦ (h.tracks j).congr rfl⟩

/-- A call leaves its ledger section, having written its change, or having found that
there is no entry to erase. -/
theorem unlock (h : Tracked P r w φ) {stage : Stage} {k : String} {v : Option ThrottleState}
    {rest : List ThrottleState} (hφ : φ i = .ledger stage k v rest)
    (hs : stage = .leaving ∨ ∃ cm, stage = .loaded cm ∧ v = none ∧ cmKey k ∉ cm.data) :
    Tracked P r { w with persistMu := false } (update φ i (Phase.afterLedger v rest)) := by
  have hin : (φ i).Inside := by
    rw [hφ, Phase.inside_ledger]
    rcases hs with rfl | ⟨_, rfl, -⟩ <;> exact nofun
  have hout : ∀ j, ¬ (update φ i (Phase.afterLedger v rest) j).Inside :=
    (Function.forall_update_iff φ fun _ s ↦ ¬ s.Inside).mpr
      ⟨Phase.afterLedger_not_inside, fun _ hj ↦ h.not_inside_of_ne hin hj⟩
  have hi := h.tracks i
  rw [hφ] at hi
  refine ⟨h.keyed, h.stored, fun {k'} hk' ↦ ?_, fun ha ↦ (hout _ ha).elim,
    fun ha ↦ (hout _ ha).elim, ?_⟩
  · obtain hl | ⟨j, hj⟩ := h.synced hk'
    · exact .inl hl
    · by_cases hji : j = i
      · -- the section in flight for `k` is this one: it erases, and nothing is there
        subst hji
        rw [hφ, Phase.pending_ledger] at hj
        obtain ⟨hne, rfl, hv⟩ := hj
        rcases hs with rfl | ⟨cm, rfl, rfl, hcm⟩
        · exact absurd rfl hne
        · refine .inl ?_
          change (w.ledger r).lookup (cmKey k) = Option.map _ (w.throttled.lookup k)
          rw [← hv, World.ledger_of_eq hi.2, Finmap.lookup_eq_none.mpr hcm, Option.map_none]
      · exact .inr ⟨j, by simpa [hji] using hj⟩
  · exact (Function.forall_update_iff φ fun _ s ↦ s.Tracks P r _).mpr
      ⟨Phase.afterLedger_tracks hi.1.2.2 _, fun j _ ↦ (h.tracks j).congr rfl⟩

/-- The owner of the lock changes the ConfigMap and stays inside. -/
theorem inside (h : Tracked P r w φ) {cm : ConfigMap}
    (hC : w' = { w with configMap := update w.configMap r.stateNS (some cm) })
    (hin : (φ i).Inside) (hψ : ψ.Tracks P r w')
    (hstored : ∀ {key raw}, cm.data.lookup key = some raw →
      ∃ st : ThrottleState, st.Named ∧ P st ∧ key = cmKey st.key ∧ raw = st.raw)
    (hsynced : ∀ {k}, IsPodKey k → cm.data.lookup (cmKey k) =
      (w.throttled.lookup k).map ThrottleState.raw ∨
        ∃ j, (update φ i ψ j).Pending k (w.throttled.lookup k)) :
    Tracked P r w' (update φ i ψ) := by
  subst hC
  have hL := w.ledger_update r cm
  have hins : ∀ j, (update φ i ψ j).Inside → j = i :=
    (Function.forall_update_iff φ fun j s ↦ s.Inside → j = i).mpr
      ⟨fun _ ↦ rfl, fun j _ hj ↦ h.unique hj hin⟩
  refine ⟨h.keyed, hL ▸ hstored, fun hk ↦ hL ▸ hsynced hk,
    fun ha hb ↦ (hins _ ha).trans (hins _ hb).symm, fun _ ↦ h.held hin, ?_⟩
  exact (Function.forall_update_iff φ fun _ s ↦ s.Tracks P r _).mpr
    ⟨hψ, fun j hj ↦ (h.tracks j).of_not_inside (h.not_inside_of_ne hin hj) _⟩

/-- The ledger is created empty. -/
theorem create (h : Tracked P r w φ) {k : String} {v : Option ThrottleState}
    {rest : List ThrottleState} (hφ : φ i = .ledger .creating k v rest)
    (hC : w.configMap r.stateNS = none) :
    Tracked P r { w with configMap := update w.configMap r.stateNS (some ⟨∅⟩) }
      (update φ i (.ledger (.loaded ⟨∅⟩) k v rest)) := by
  have hi := h.tracks i
  rw [hφ] at hi
  refine h.inside rfl (by simp [hφ]) ⟨hi.1, by simp⟩ (fun hl ↦ by simp at hl) fun {k'} hk' ↦ ?_
  have hs := h.synced hk'
  rw [World.ledger_of_none hC] at hs
  refine hs.imp_right fun ⟨j, hj⟩ ↦ ⟨j, ?_⟩
  by_cases hji : j = i
  · subst hji; rw [hφ] at hj; simpa using hj
  · simpa [hji] using hj

/-- A section writes its change, in order. -/
theorem write (h : Tracked P r w φ) {cm : ConfigMap} {k : String} {v : Option ThrottleState}
    {rest : List ThrottleState} (hφ : φ i = .ledger (.loaded cm) k v rest)
    (hg : v = w.throttled.lookup k ∨ ∃ j ≠ i, (φ j).Pending k (w.throttled.lookup k)) :
    Tracked P r { w with configMap := update w.configMap r.stateNS (some (cm.edit k v)) }
      (update φ i (.ledger .leaving k v rest)) := by
  have hi := h.tracks i
  rw [hφ] at hi
  obtain ⟨⟨hk, hv, hrest⟩, hcm⟩ := hi
  refine h.inside rfl (by simp [hφ]) ⟨⟨hk, hv, hrest⟩, trivial⟩ (fun {key raw} hl ↦ ?_)
    fun {k'} hk' ↦ ?_
  · rw [ConfigMap.lookup_edit] at hl
    split at hl
    · next he =>
        obtain ⟨st, hst, rfl⟩ := Option.map_eq_some_iff.mp hl
        obtain ⟨hnamed, rfl, hP⟩ := hv st hst
        exact ⟨st, hnamed, hP, he, rfl⟩
    · exact h.stored (World.ledger_of_eq hcm ▸ hl)
  · have hpend : ∀ j, j ≠ i → (φ j).Pending k' (w.throttled.lookup k') →
        ∃ j, (update φ i (.ledger .leaving k v rest) j).Pending k' (w.throttled.lookup k') :=
      fun j hji hj ↦ ⟨j, by simpa [hji] using hj⟩
    rw [ConfigMap.lookup_edit]
    split
    · next he =>
        obtain rfl := (hk'.cmKey_inj hk).mp he
        rcases hg with rfl | ⟨j, hji, hj⟩
        · exact .inl rfl
        · exact .inr (hpend j hji hj)
    · next he =>
        rcases h.synced hk' with hl | ⟨j, hj⟩
        · exact .inl (World.ledger_of_eq hcm ▸ hl)
        · refine .inr (hpend j ?_ hj)
          rintro rfl
          rw [hφ, Phase.pending_ledger] at hj
          exact he (congrArg cmKey hj.2.1.symm)

/-- Transitions outside the ledger sections. -/
theorem outside (h : Tracked P r w φ) (hT : w'.throttled = w.throttled)
    (hC : w'.configMap = w.configMap) (hM : w'.persistMu = w.persistMu) (hψ : ψ.Tracks P r w)
    (hp : ∀ {k v}, ¬ (φ i).Pending k v) (hin : ¬ ψ.Inside) : Tracked P r w' (update φ i ψ) :=
  h.move hT hC hM hψ (fun h' ↦ (hp h').elim) fun h' ↦ (hin h').elim

/-- Every transition of a served call preserves the invariant, if it writes in order. -/
theorem act (h : Tracked P r w φ) (hns : r.stateNS ≠ "") {e : Act} {s : Phase} (hφ : φ i = s)
    (hg : writesInOrder P w φ i e) (ht : Phase.Trans r .reliable w s e w' ψ) :
    Tracked P r w' (update φ i ψ) := by
  have hi := h.tracks i
  rw [hφ] at hi
  cases ht with
  | stay => exact h.move rfl rfl rfl hi (hφ ▸ id) (hφ ▸ id)
  | clearCooldown => exact h.move rfl rfl rfl hi (hφ ▸ id) (hφ ▸ id)
  | event => exact h.move rfl rfl rfl hi (hφ ▸ id) (hφ ▸ id)
  | skip _ hf => exact h.outside rfl rfl rfl trivial (hφ ▸ hf.final.not_pending) id
  | unthrottled _ hf => exact h.outside rfl rfl rfl trivial (hφ ▸ hf.final.not_pending) id
  | cooldown => exact h.outside rfl rfl rfl trivial (hφ ▸ id) id
  | read hat =>
      refine h.outside rfl rfl rfl trivial (hφ ▸ ?_) id
      rcases hat with rfl | ⟨_, rfl⟩ <;> exact id
  | lower _ _ _ _ _ hp =>
      exact h.outside rfl rfl rfl (w.cluster.podName hp) (hφ ▸ id) id
  | stamp => exact h.outside rfl rfl rfl hi (hφ ▸ id) id
  | record st =>
      rw [if_neg hns]
      refine h.change (fun k' ↦ ?_) rfl rfl hi.isPodKey ?_ (by simp) (hφ ▸ id)
      · split
        · next he => subst he; exact Finmap.lookup_insert _
        · next he => exact Finmap.lookup_insert_of_ne _ he
      · rintro _ ⟨⟩
        exact ⟨hi, rfl, hg⟩
  | sweep => exact h.outside rfl rfl rfl trivial (hφ ▸ id) id
  | collect hd =>
      refine h.outside rfl rfl rfl (fun st hst ↦ ?_) (hφ ▸ id) id
      obtain ⟨⟨k, hk⟩, -⟩ := World.mem_due.mp (hd ▸ Multiset.mem_coe.mpr hst)
      exact (h.keyed hk).1
  | lift => exact h.outside rfl rfl rfl hi (hφ ▸ id) id
  | gone => exact h.outside rfl rfl rfl hi (hφ ▸ id) id
  | keep => exact h.outside rfl rfl rfl (fun st hst ↦ hi st (.tail _ hst)) (hφ ▸ id) id
  | drop _ st rest =>
      rw [if_neg hns]
      have hst : st.Named := hi st (.head _)
      refine h.change (fun k' ↦ ?_) rfl rfl hst.isPodKey (by simp)
        (fun st' hst' ↦ hi st' (.tail _ hst')) (hφ ▸ id)
      split
      · next he => subst he; exact Finmap.lookup_erase _ _
      · next he => exact Finmap.lookup_erase_ne he
  | lock k v rest hM => exact h.lock hφ hM
  | load _ _ hs hcm =>
      refine h.move rfl rfl rfl ⟨hi.1, hcm⟩ ?_ ?_
      · rw [hφ]
        exact fun ⟨_, hp⟩ ↦ ⟨nofun, hp⟩
      · rw [hφ]
        rcases hs with rfl | rfl <;> exact nofun
  | miss => exact h.move rfl rfl rfl ⟨hi.1, trivial⟩ (hφ ▸ fun ⟨_, hp⟩ ↦ ⟨nofun, hp⟩) (hφ ▸ nofun)
  | create _ _ hcm => exact h.create hφ hcm
  | race _ hcm => exact h.move rfl rfl rfl ⟨hi.1, hcm⟩ (hφ ▸ fun ⟨_, hp⟩ ↦ ⟨nofun, hp⟩) (hφ ▸ nofun)
  | abandon _ _ hf =>
      rcases hf with hf | ⟨rfl, hcm⟩
      · cases hf
      · exact absurd hcm hi.2
  | write _ _ _ => exact h.write hφ (hg _ _ (hφ ▸ ⟨nofun, rfl, rfl⟩))
  | writeFails _ hf =>
      rcases hf with hf | hcm
      · cases hf
      · exact absurd (hi.2.symm.trans hcm) nofun
  | unlock hs => exact h.unlock hφ hs
  | begin => exact hi.elim
  | begin_none => exact hi.elim
  | recover => exact hi.elim

omit [DecidableEq ι] in
/-- The clock is not part of it. -/
theorem tick (h : Tracked P r w φ) (t : Time) : Tracked P r { w with clock := t } φ :=
  ⟨h.keyed, h.stored, h.synced, h.unique, h.held, fun i ↦ (h.tracks i).congr rfl⟩

omit [DecidableEq ι] in
/-- Where no section is in flight, memory and ledger agree. -/
theorem agree (h : Tracked P r w φ) (hP : ∀ st, P st → st.restoreAt.InJSONRange)
    (hp : ∀ i k v, ¬ (φ i).Pending k v) : Agree r w where
  keyed hst := ⟨(h.keyed hst).1, (h.keyed hst).2.1⟩
  saved {k st} hst := by
    obtain ⟨hn, rfl, hPst⟩ := h.keyed hst
    refine ⟨st.raw, ?_, ThrottleState.unmarshal_eq_some.mpr ⟨hP st hPst, rfl⟩⟩
    rw [(h.synced hn.isPodKey).resolve_right fun ⟨i, hi⟩ ↦ hp i _ _ hi, hst, Option.map_some]
  only {key raw} hraw := by
    obtain ⟨st, hst, -, rfl, -⟩ := h.stored hraw
    rw [(h.synced hst.isPodKey).resolve_right fun ⟨i, hi⟩ ↦ hp i _ _ hi] at hraw
    obtain ⟨st', hst', -⟩ := Option.map_eq_some_iff.mp hraw
    have hk := (h.keyed hst').2.1
    exact ⟨st', hk ▸ hst', congrArg cmKey hk⟩

omit [DecidableEq ι] in
/-- Memory and ledger may agree at the start. -/
theorem of_agree (h : Agree r w) (hP : ∀ st : ThrottleState, st.restoreAt.InJSONRange → P st)
    (hφ : ∀ i, φ i = .idle) : Tracked P r w φ where
  keyed {k st} hst := by
    obtain ⟨hn, rfl⟩ := h.keyed hst
    obtain ⟨raw, -, hraw⟩ := h.saved hst
    exact ⟨hn, rfl, hP st (ThrottleState.unmarshal_eq_some.mp hraw).1⟩
  stored {key raw} hl := by
    obtain ⟨st, hst, rfl⟩ := h.only hl
    obtain ⟨raw', hl', hraw⟩ := h.saved hst
    obtain rfl := Option.some.inj (hl'.symm.trans hl)
    obtain ⟨hrange, hr⟩ := ThrottleState.unmarshal_eq_some.mp hraw
    exact ⟨st, (h.keyed hst).1, hP st hrange, rfl, hr⟩
  synced {k} hk := by
    refine .inl ?_
    cases hst : w.throttled.lookup k with
    | some st =>
        obtain ⟨raw, hl, hraw⟩ := h.saved hst
        rw [hl, (ThrottleState.unmarshal_eq_some.mp hraw).2, Option.map_some]
    | none =>
        rw [Option.map_none, Option.eq_none_iff_forall_ne_some]
        intro raw hraw
        obtain ⟨st, hst', he⟩ := h.only hraw
        rw [(hk.cmKey_inj (h.keyed hst').1.isPodKey).mp he, hst'] at hst
        cases hst
  unique {i _} hi := by rw [hφ i] at hi; exact hi.elim
  held {i} hi := by rw [hφ i] at hi; exact hi.elim
  tracks i := by rw [hφ i]; trivial

end Tracked

/-! ## The result -/

section Result

variable (κ : Type u) [DecidableEq κ]

/-- The restore loop, in slot `none`, runs next to any number of report handlers; every
API call is served. -/
def loopAndReports : Scenario (Option κ) where
  pol := .reliable
  calls i call := match i, call with
    | none, .sweep => true
    | some _, .report _ => true
    | _, _ => false
  moves _ m := match m with
    | .tick _ => true
    | _ => false

/-- The runs of `loopAndReports` in which the ledger sections write in order, and times
that JSON can express. -/
def loopAndReportsInOrder : Scenario (Option κ) :=
  { loopAndReports κ with guard := writesInOrder fun st ↦ st.restoreAt.InJSONRange }

variable {κ} {r : Remediator}

theorem Tracked.isInductive (hns : r.stateNS ≠ "") :
    System.Inductive ((loopAndReportsInOrder κ).system r) (Phase.protocol r) Phase.Final
      (Tracked (fun st ↦ st.restoreAt.InJSONRange) r) := by
  refine Scenario.inductive_final (fun {w φ i call} h hf hcall ↦ ?_)
    (fun h hg ht ↦ h.act hns rfl hg ht) (fun {c m c'} h hm hap ↦ ?_)
  · have hnone : ∀ {k v}, ¬ (φ i).Pending k v := hf.not_pending
    cases call with
    | report s => exact h.outside rfl rfl rfl trivial hnone id
    | sweep => exact h.outside rfl rfl rfl trivial hnone id
    | startup => cases i <;> cases hcall
  · cases m with
    | tick t =>
        obtain ⟨-, rfl⟩ := Move.apply_tick hap
        exact h.tick t
    | delete => cases hm
    | create => cases hm
    | edit => cases hm
    | restart => cases hm

/-- In every run whose ledger sections write in order, memory and ledger agree whenever
no call is in flight. -/
theorem loopAndReportsInOrder_agree (hns : r.stateNS ≠ "") {w : World} (hw : Agree r w)
    {c : State (Option κ)}
    (hr : ((loopAndReportsInOrder κ).system r).Reachable w.quiet c) (hq : c.Quiet) :
    Agree r c.world :=
  have hinv := (World.invariant_quiet (.of_agree hw (fun _ ↦ id) fun _ ↦ rfl)).reachable
    (Tracked.isInductive hns) hr
  hinv.global.agree (fun _ ↦ id) fun i _ _ ↦ (hinv.quiet hq i).not_pending

end Result

/-! ## A record throttled again while the old one is being forgotten -/

theorem Agree.fresh (r : Remediator) (C : Cluster) : Agree r (.fresh C) where
  keyed h := by simp [World.fresh] at h
  saved h := by simp [World.fresh] at h
  only h := by simp [World.ledger, World.fresh] at h

/-- The record of a throttle of the pod. -/
def webRecord (restoreAt : Time) : ThrottleState := ⟨"web", "a", "app", some 200, restoreAt⟩

/-- The throttle. -/
def webThrottle : LimitChange := ⟨"web", "a", "app", 1, some 200, 100, 0⟩

/-- The pod is throttled, and restored after its window. -/
def throttleAndRestore : List (Cmd (Option Unit)) :=
  .call (some ()) .web :: Cmd.acts (some ()) 15 ++ .move (.tick (11 * minute)) ::
    .call none .sweep :: .act none {} :: .act none { due := [webRecord (10 * minute)] } :: Cmd.acts none 5

/-- Whether a section writes what the memory holds. -/
def writesCurrent {ι : Type u} (w : World) (φ : ι → Phase) (i : ι) : Act → Bool
  | .setThrottled _ st => decide st.restoreAt.InJSONRange
  | .updateConfigMap _ _ => match φ i with
      | .ledger _ k v _ => v == w.throttled.lookup k
      | _ => true
  | _ => true

omit [DecidableEq ι] in
theorem writesInOrder_of_writesCurrent {w : World} {φ : ι → Phase} {i : ι} {e : Act}
    (h : writesCurrent w φ i e) :
    writesInOrder (fun st ↦ st.restoreAt.InJSONRange) w φ i e := by
  cases e with
  | setThrottled key st => simpa [writesCurrent, writesInOrder] using h
  | updateConfigMap ns cm =>
      intro k v hp
      refine .inl ?_
      cases hφ : φ i with
      | ledger stage k' v' rest =>
          simp only [hφ, Phase.pending_ledger, writesCurrent, beq_iff_eq] at hp h
          rw [← hp.2.1, ← hp.2.2, h]
      | _ => exact (hφ ▸ hp :).elim
  | _ => trivial

/-- A whole throttle and its restore are a run in order, and leave both sides empty. -/
theorem throttleAndRestore_agree :
    ∃ c : State (Option Unit),
      ((loopAndReportsInOrder Unit).system webRemediator).Reachable (World.fresh .web).quiet c ∧
      c.Quiet ∧ c.world.history.length = 3 ∧ Agree webRemediator c.world := by
  obtain ⟨c, hr, hq, hlen⟩ := Scenario.exists_reachable (loopAndReportsInOrder Unit) webRemediator
    writesCurrent (fun _ _ _ _ ↦ writesInOrder_of_writesCurrent)
    (throttleAndRestore ++ Cmd.acts none 4) (World.fresh .web).quiet
    (fun c ↦ (∀ i, (c.prog i).isPure) ∧ c.world.history.length = 3) (by decide +kernel)
  have hq := Configuration.quiet_of_isPure hq
  exact ⟨c, hr, hq, hlen,
    loopAndReportsInOrder_agree (by decide) (.fresh webRemediator .web) hr hq⟩

/-- The pod is throttled again before `forget`: the new record loses its entry. -/
theorem throttledAgain_not_agree :
    ¬ ∀ c : State (Option Unit),
      ((loopAndReports Unit).system webRemediator).Reachable (World.fresh .web).quiet c →
      c.Quiet → Agree webRemediator c.world := by
  intro h
  obtain ⟨c, hr, hq, hst, hl⟩ := Scenario.exists_reachable (loopAndReports Unit) webRemediator
    (fun _ _ _ _ ↦ true) (fun _ _ _ _ _ ↦ trivial)
    (throttleAndRestore ++ .call (some ()) .web :: Cmd.acts (some ()) 14 ++ Cmd.acts none 4)
    (World.fresh .web).quiet
    (fun c ↦ (∀ i, (c.prog i).isPure) ∧
      c.world.throttled.lookup (webRecord (21 * minute)).key = some (webRecord (21 * minute)) ∧
      (c.world.ledger webRemediator).lookup (cmKey (webRecord (21 * minute)).key) = none)
    (by decide +kernel)
  obtain ⟨raw, hraw, -⟩ := (h c hr (Configuration.quiet_of_isPure hq)).saved hst
  exact absurd (hl.symm.trans hraw) nofun
