import NodeSentinel.Data.History
import NodeSentinel.Metrics.Baseline

/-!
# A baseline and its history

What a tracker knows of a key, in terms of the calls that were made: the key is forgotten 13
rounds after it was last observed, and what is learned of it is a fold over the observations since
it was last unknown.
-/

/-- A call of a method of `Baseline`. -/
inductive BaselineCall (K : Type*) where
  | observe (key : ℕ) (current : K) (update : Bool)
  | deviation (key : ℕ) (current : K)
  | prune
deriving DecidableEq

variable {K : Type*}

/-- The tracker after a call. -/
def Baseline.call [Field K] (b : Baseline K) : BaselineCall K → Baseline K
  | .observe key current update => b.observe key current update
  | .deviation _ _ => b
  | .prune => b.prune

/-- The tracker after some calls. -/
def Baseline.run [Field K] (b : Baseline K) (calls : List (BaselineCall K)) : Baseline K :=
  calls.foldl call b

namespace BaselineCall

/-- An observation of a key. -/
def Observes (key : ℕ) : BaselineCall K → Prop
  | observe key' _ _ => key' = key
  | _ => False

instance (key : ℕ) : DecidablePred (Observes (K := K) key)
  | observe key' _ _ => inferInstanceAs (Decidable (key' = key))
  | deviation _ _ => .isFalse id
  | prune => .isFalse id

/-- Whether a call can matter to a key. -/
def concerns (key : ℕ) : BaselineCall K → Bool
  | observe key' _ _ => key' = key
  | deviation _ _ => false
  | prune => true

/-- The value of an observation of a key, and whether it updates what is learned. -/
def observation (key : ℕ) : BaselineCall K → Option (K × Bool)
  | observe key' current update => if key' = key then some (current, update) else none
  | _ => none

/-- The end of a round. -/
def isPrune : BaselineCall K → Bool
  | prune => true
  | _ => false

end BaselineCall

/-! ## What a history says of a key -/

/-- How many rounds have ended since a key was last observed. -/
def RoundsSince (key n : ℕ) (calls : List (BaselineCall K)) : Prop :=
  ∃ e after, LastOf (BaselineCall.Observes key) calls e after ∧
    after.countP BaselineCall.isPrune = n

/-- The key was observed, and at most 12 rounds have ended since. -/
def TrackedKey (key : ℕ) (calls : List (BaselineCall K)) : Prop :=
  ∃ n ≤ 12, RoundsSince key n calls

/-- The key has been tracked since an observation of `first` that found no entry, and there were the
observations `later` since. -/
def Incarnation (key : ℕ) (first : K) (later : List (K × Bool)) (calls : List (BaselineCall K)) : Prop :=
  ∃ before update after, calls = before ++ .observe key first update :: after ∧
    ¬ TrackedKey key before ∧
    (∀ mid, mid <+: after → TrackedKey key (before ++ .observe key first update :: mid)) ∧
    later = after.filterMap (BaselineCall.observation key)

/-- The moving average of an incarnation. -/
def learned [Field K] (alpha first : K) (later : List (K × Bool)) : K :=
  later.foldl (fun E x ↦ if x.2 then alpha * x.1 + (1 - alpha) * E else E) first

section Calls

variable {key n m : ℕ} {calls : List (BaselineCall K)} {e : BaselineCall K} {first current : K}
  {update : Bool} {later : List (K × Bool)}

theorem roundsSince_observe :
    RoundsSince key n (calls ++ [.observe key current update]) ↔ n = 0 := by
  have hobs : BaselineCall.Observes key (.observe key current update) := rfl
  unfold RoundsSince
  simp only [LastOf.concat_of_pos hobs]
  constructor
  · rintro ⟨_, _, ⟨rfl, rfl⟩, rfl⟩
    rfl
  · rintro rfl
    exact ⟨_, _, ⟨rfl, rfl⟩, rfl⟩

/-- Any other call counts if it ends a round. -/
theorem roundsSince_concat (he : ¬ e.Observes key) : RoundsSince key n (calls ++ [e]) ↔
    ∃ m, RoundsSince key m calls ∧ n = m + if e.isPrune then 1 else 0 := by
  unfold RoundsSince
  simp only [LastOf.concat_of_neg he]
  constructor
  · rintro ⟨o, _, ⟨after, rfl, hl⟩, rfl⟩
    refine ⟨_, ⟨o, after, hl, rfl⟩, ?_⟩
    rw [List.countP_append, List.countP_singleton]
  · rintro ⟨_, ⟨o, after, hl, rfl⟩, rfl⟩
    refine ⟨o, _, ⟨after, rfl, hl⟩, ?_⟩
    rw [List.countP_append, List.countP_singleton]

theorem RoundsSince.unique (h : RoundsSince key n calls) (h' : RoundsSince key m calls) : m = n := by
  obtain ⟨_, _, hl, rfl⟩ := h
  obtain ⟨_, _, hl', rfl⟩ := h'
  rw [(hl.unique hl').2]

theorem trackedKey_observe : TrackedKey key (calls ++ [.observe key current update]) :=
  ⟨0, Nat.zero_le _, roundsSince_observe.mpr rfl⟩

/-- A key is not found again without being observed. -/
theorem TrackedKey.of_concat (he : ¬ e.Observes key) (h : TrackedKey key (calls ++ [e])) :
    TrackedKey key calls := by
  obtain ⟨_, hle, hn⟩ := h
  obtain ⟨m, hm, rfl⟩ := (roundsSince_concat he).mp hn
  exact ⟨m, (Nat.le_add_right _ _).trans hle, hm⟩

theorem trackedKey_concat (he : ¬ e.Observes key) (hp : e.isPrune = false) :
    TrackedKey key (calls ++ [e]) ↔ TrackedKey key calls := by
  refine ⟨.of_concat he, ?_⟩
  rintro ⟨m, hle, hm⟩
  exact ⟨m, hle, (roundsSince_concat he).mpr ⟨m, hm, by simp [hp]⟩⟩

namespace Incarnation

theorem trackedKey (h : Incarnation key first later calls) : TrackedKey key calls := by
  obtain ⟨before, update, after, rfl, -, htracked, -⟩ := h
  exact htracked after List.prefix_rfl

/-- An incarnation starts, or goes on. -/
theorem concat_iff : Incarnation key first later (calls ++ [e]) ↔
    ((∃ update, e = .observe key first update) ∧ ¬ TrackedKey key calls ∧ later = []) ∨
    ∃ later', Incarnation key first later' calls ∧ TrackedKey key (calls ++ [e]) ∧
      later = later' ++ (e.observation key).toList := by
  constructor
  · rintro ⟨before, update, after, hsplit, hnew, htracked, rfl⟩
    rcases concat_eq_split_iff.mp hsplit with ⟨rfl, rfl, rfl⟩ | ⟨after, rfl, rfl⟩
    · exact .inl ⟨⟨update, rfl⟩, hnew, rfl⟩
    · refine .inr ⟨_, ⟨before, update, after, rfl, hnew, fun mid hmid ↦ htracked mid ?_, rfl⟩, ?_, ?_⟩
      · exact hmid.trans (List.prefix_append _ _)
      · simpa using htracked _ List.prefix_rfl
      · rw [List.filterMap_append]
        cases h : e.observation key <;> simp [h]
  · rintro (⟨⟨update, rfl⟩, hnew, rfl⟩ | ⟨_, ⟨before, update, after, rfl, hnew, htracked, rfl⟩, hlast, rfl⟩)
    · refine ⟨calls, update, [], rfl, hnew, fun mid hmid ↦ ?_, rfl⟩
      rw [List.prefix_nil.mp hmid]
      exact trackedKey_observe
    · refine ⟨before, update, after ++ [e], by simp, hnew, fun mid hmid ↦ ?_, ?_⟩
      · rcases List.prefix_concat_iff.mp hmid with rfl | hmid
        · simpa using hlast
        · exact htracked mid hmid
      · rw [List.filterMap_append]
        cases h : e.observation key <;> simp [h]

/-- There is one incarnation at a time. -/
theorem unique {first' : K} {later' : List (K × Bool)} (h : Incarnation key first later calls)
    (h' : Incarnation key first' later' calls) : first' = first ∧ later' = later := by
  induction calls using List.reverseRecOn generalizing later later' with
  | nil =>
      obtain ⟨before, _, _, hsplit, -⟩ := h
      simp at hsplit
  | append_singleton calls e ih =>
      rcases concat_iff.mp h with ⟨⟨update, rfl⟩, hnew, rfl⟩ | ⟨l, hl, -, rfl⟩
      · rcases concat_iff.mp h' with ⟨⟨_, he⟩, -, rfl⟩ | ⟨_, hl', -⟩
        · cases he
          exact ⟨rfl, rfl⟩
        · exact absurd hl'.trackedKey hnew
      · rcases concat_iff.mp h' with ⟨-, hnew, -⟩ | ⟨l', hl', -, rfl⟩
        · exact absurd hl.trackedKey hnew
        · obtain ⟨rfl, rfl⟩ := ih hl hl'
          exact ⟨rfl, rfl⟩

end Incarnation

end Calls

/-! ## The entry of a key -/

section Entry

variable [Field K] {alpha : K} {warmup : ℤ} {key : ℕ} {calls : List (BaselineCall K)}
  {e : BaselineCall K} {a : Avg K}

/-- What the fields of an entry count. -/
structure AvgRecords (alpha : K) (key : ℕ) (calls : List (BaselineCall K)) (a : Avg K) : Prop where
  rounds : RoundsSince key (if a.touched then 0 else a.misses + 1) calls
  touched : a.touched = true → a.misses = 0
  misses : a.misses < pruneAfterMisses
  incarnation : ∃ first later, Incarnation key first later calls ∧
    a.samples = later.length + 1 ∧ a.value = learned alpha first later

/-- A key has an entry exactly while it is tracked, and the entry records its history. -/
def Reflects (alpha : K) (key : ℕ) (calls : List (BaselineCall K)) : Option (Avg K) → Prop
  | none => ¬ TrackedKey key calls
  | some a => AvgRecords alpha key calls a

theorem AvgRecords.trackedKey (h : AvgRecords alpha key calls a) : TrackedKey key calls := by
  refine ⟨_, ?_, h.rounds⟩
  have hmisses : a.misses < 12 := h.misses
  split
  · exact Nat.zero_le _
  · exact hmisses

theorem learned_concat {first : K} {later : List (K × Bool)} {x : K × Bool} :
    learned alpha first (later ++ [x]) =
      if x.2 then alpha * x.1 + (1 - alpha) * learned alpha first later
      else learned alpha first later := by
  rw [learned, List.foldl_append]
  rfl

/-- A call that concerns other keys only. -/
theorem Reflects.other {o : Option (Avg K)} (h : Reflects alpha key calls o)
    (he : e.concerns key = false) : Reflects alpha key (calls ++ [e]) o := by
  have hobs : ¬ e.Observes key := by
    cases e <;> simp_all [BaselineCall.concerns, BaselineCall.Observes]
  have hprune : e.isPrune = false := by
    cases e <;> simp_all [BaselineCall.concerns, BaselineCall.isPrune]
  have hnone : e.observation key = none := by
    cases e <;> simp_all [BaselineCall.concerns, BaselineCall.observation]
  have htracked : TrackedKey key (calls ++ [e]) ↔ TrackedKey key calls :=
    trackedKey_concat hobs hprune
  cases o with
  | none => exact fun ht ↦ h (htracked.mp ht)
  | some a =>
      obtain ⟨hrounds, htouched, hmisses, first, later, hinc, hsamples, hvalue⟩ := h
      refine ⟨?_, htouched, hmisses, first, later, ?_, hsamples, hvalue⟩
      · exact (roundsSince_concat hobs).mpr ⟨_, hrounds, by simp [hprune]⟩
      · exact Incarnation.concat_iff.mpr
          (.inr ⟨later, hinc, htracked.mpr hinc.trackedKey, by simp [hnone]⟩)

/-- An observation makes an entry, or adds to the one there is. -/
theorem Reflects.observe {b : Baseline K} {current : K} {update : Bool}
    (h : Reflects b.alpha key calls (b.state key)) :
    Reflects b.alpha key (calls ++ [.observe key current update])
      ((b.observe key current update).state key) := by
  simp only [Baseline.observe, Function.update_self]
  cases hb : b.state key with
  | none =>
      rw [hb] at h
      refine ⟨roundsSince_observe.mpr rfl, fun _ ↦ rfl, pruneAfterMisses_pos, current, [], ?_, rfl, rfl⟩
      exact Incarnation.concat_iff.mpr (.inl ⟨⟨update, rfl⟩, h, rfl⟩)
  | some a =>
      rw [hb] at h
      obtain ⟨-, -, -, first, later, hinc, hsamples, hvalue⟩ := h
      refine ⟨roundsSince_observe.mpr rfl, fun _ ↦ rfl, pruneAfterMisses_pos, first,
        later ++ [(current, update)], ?_, ?_, ?_⟩
      · refine Incarnation.concat_iff.mpr (.inr ⟨later, hinc, trackedKey_observe, ?_⟩)
        simp [BaselineCall.observation]
      · simp [Avg.observe, hsamples]
      · rw [learned_concat, ← hvalue]
        rfl

/-- The end of a round removes the entry of a key that 12 rounds have ended without. -/
theorem Reflects.prune {o : Option (Avg K)} (h : Reflects alpha key calls o) :
    Reflects alpha key (calls ++ [.prune]) (o.bind Avg.prune) := by
  have hobs : ¬ BaselineCall.Observes key (.prune : BaselineCall K) := id
  cases o with
  | none => exact fun ht ↦ h (ht.of_concat hobs)
  | some a =>
      obtain ⟨hrounds, htouched, hmisses, first, later, hinc, hsamples, hvalue⟩ := h
      have hnext := (roundsSince_concat hobs).mpr ⟨_, hrounds, rfl⟩
      -- what is kept is still of the same incarnation
      have hkept : ∀ a', a'.value = a.value → a'.samples = a.samples → a'.touched = false →
          a'.misses < pruneAfterMisses →
          RoundsSince key (a'.misses + 1) (calls ++ [.prune]) →
            AvgRecords alpha key (calls ++ [.prune]) a' := by
        intro a' hv hs ht hm hr
        refine ⟨by rwa [ht], fun h ↦ absurd h (by simp [ht]), hm, first, later, ?_,
          hs.trans hsamples, hv.trans hvalue⟩
        exact Incarnation.concat_iff.mpr
          (.inr ⟨later, hinc, ⟨_, hm, hr⟩, by simp [BaselineCall.observation]⟩)
      rw [Option.bind_some, Avg.prune]
      split_ifs with ht hout
      · rw [if_pos ht] at hnext
        refine hkept _ rfl rfl rfl hmisses ?_
        rw [htouched ht]
        exact hnext
      · rintro ⟨n, hle, hn⟩
        rw [if_neg ht] at hnext
        obtain rfl := hn.unique hnext
        have hlast : 12 ≤ a.misses + 1 := hout
        simp only [BaselineCall.isPrune, if_true] at hle
        omega
      · rw [if_neg ht] at hnext
        exact hkept _ rfl rfl (by simpa using ht) (not_le.mp hout) hnext

@[simp] theorem Baseline.run_alpha (b : Baseline K) : (b.run calls).alpha = b.alpha := by
  induction calls using List.reverseRecOn with
  | nil => rfl
  | append_singleton calls e ih =>
      rw [run, List.foldl_append]
      cases e <;> exact ih

@[simp] theorem Baseline.run_warmup (b : Baseline K) : (b.run calls).warmup = b.warmup := by
  induction calls using List.reverseRecOn with
  | nil => rfl
  | append_singleton calls e ih =>
      rw [run, List.foldl_append]
      cases e <;> exact ih

theorem Baseline.run_concat (b : Baseline K) : b.run (calls ++ [e]) = (b.run calls).call e := by
  rw [run, List.foldl_append]
  rfl

/-- A call that does not concern a key leaves its entry alone. -/
theorem Baseline.call_state_of_not {b : Baseline K} (he : e.concerns key = false) :
    (b.call e).state key = b.state key := by
  cases e with
  | observe key' current update =>
      refine observe_state_of_ne (fun h ↦ ?_) update
      simp [BaselineCall.concerns, h] at he
  | deviation key' current => rfl
  | prune => cases he

/-- What a call makes of an entry depends on nothing else. -/
theorem Baseline.call_state_congr {b b' : Baseline K} (halpha : b'.alpha = b.alpha)
    (hs : b'.state key = b.state key) : (b'.call e).state key = (b.call e).state key := by
  cases e with
  | observe key' current update =>
      by_cases h : key' = key
      · subst h
        simp only [call, observe, Function.update_self, halpha, hs]
      · rw [call, call, observe_state_of_ne (Ne.symm h), observe_state_of_ne (Ne.symm h), hs]
  | deviation key' current => exact hs
  | prune => exact congrArg (Option.bind · Avg.prune) hs

/-- What a tracker has of a key is what its history says. -/
theorem reflects_run (alpha : K) (warmup : ℤ) (key : ℕ) (calls : List (BaselineCall K)) :
    Reflects alpha key calls (((Baseline.new alpha warmup).run calls).state key) := by
  induction calls using List.reverseRecOn with
  | nil =>
      rintro ⟨_, _, _, _, hl, -⟩
      exact LastOf.not_nil hl
  | append_singleton calls e ih =>
      have halpha : ((Baseline.new alpha warmup).run calls).alpha = alpha := Baseline.run_alpha _
      rw [Baseline.run_concat]
      generalize (Baseline.new alpha warmup).run calls = b at ih halpha ⊢
      subst halpha
      by_cases he : e.concerns key = true
      · cases e with
        | observe key' current update =>
            obtain rfl : key' = key := by simpa [BaselineCall.concerns] using he
            exact Reflects.observe ih
        | deviation key' current => cases he
        | prune => exact ih.prune
      · rw [Bool.not_eq_true] at he
        rw [Baseline.call_state_of_not he]
        exact ih.other he

end Entry

/-! ## What a tracker answers -/

section Refines

variable [Field K] {alpha : K} {warmup : ℤ} {key : ℕ} {calls calls' : List (BaselineCall K)}

theorem isSome_state_iff :
    (((Baseline.new alpha warmup).run calls).state key).isSome ↔ TrackedKey key calls := by
  have h := reflects_run alpha warmup key calls
  cases hs : ((Baseline.new alpha warmup).run calls).state key with
  | none =>
      rw [hs] at h
      exact iff_of_false (by simp) h
  | some a =>
      rw [hs] at h
      exact iff_of_true rfl h.trackedKey

/-- A ratio is given of a current incarnation with enough observations and a positive average. -/
theorem deviation_run_iff [LinearOrder K] {current ratio : K} :
    ((Baseline.new alpha warmup).run calls).deviation key current = some ratio ↔
      ∃ first later, Incarnation key first later calls ∧ warmup ≤ (later.length + 1 : ℕ) ∧
        0 < learned alpha first later ∧ ratio = current / learned alpha first later := by
  have h := reflects_run alpha warmup key calls
  rw [Baseline.deviation_eq_some_iff, Baseline.run_warmup]
  constructor
  · rintro ⟨a, hs, hwarm, hpos, rfl⟩
    rw [hs] at h
    obtain ⟨-, -, -, first, later, hinc, hsamples, hvalue⟩ := h
    rw [hsamples] at hwarm
    rw [hvalue] at hpos ⊢
    exact ⟨first, later, hinc, hwarm, hpos, rfl⟩
  · rintro ⟨first, later, hinc, hwarm, hpos, rfl⟩
    obtain ⟨a, hs⟩ := Option.isSome_iff_exists.mp (isSome_state_iff.mpr hinc.trackedKey)
    rw [hs] at h
    obtain ⟨-, -, -, first', later', hinc', hsamples, hvalue⟩ := h
    obtain ⟨rfl, rfl⟩ := hinc.unique hinc'
    rw [← hsamples] at hwarm
    rw [← hvalue] at hpos ⊢
    exact ⟨a, hs, hwarm, hpos, rfl⟩

/-- Calls on other keys do not matter. -/
theorem run_filter_state (b : Baseline K) (key : ℕ) (calls : List (BaselineCall K)) :
    (b.run (calls.filter (·.concerns key))).state key = (b.run calls).state key := by
  induction calls using List.reverseRecOn with
  | nil => rfl
  | append_singleton calls e ih =>
      rw [List.filter_append, Baseline.run_concat]
      cases he : e.concerns key with
      | true =>
          rw [List.filter_cons_of_pos he, List.filter_nil, Baseline.run_concat]
          exact Baseline.call_state_congr (by simp) ih
      | false =>
          rw [List.filter_cons_of_neg (by simp [he]), List.filter_nil, List.append_nil,
            Baseline.call_state_of_not he]
          exact ih

/-- A tracker refines its history: the key is tracked while at most 12 rounds have ended since its
last observation, a deviation is the ratio to the average of the current incarnation, and only the
calls that concern the key matter. -/
theorem baseline_refines_history [LinearOrder K] (alpha : K) (warmup : ℤ) (key : ℕ)
    (calls : List (BaselineCall K)) :
    ((((Baseline.new alpha warmup).run calls).state key).isSome ↔ TrackedKey key calls) ∧
    (∀ current ratio, ((Baseline.new alpha warmup).run calls).deviation key current = some ratio ↔
      ∃ first later, Incarnation key first later calls ∧ warmup ≤ (later.length + 1 : ℕ) ∧
        0 < learned alpha first later ∧ ratio = current / learned alpha first later) ∧
    ∀ calls', calls'.filter (·.concerns key) = calls.filter (·.concerns key) →
      ((Baseline.new alpha warmup).run calls').state key =
          ((Baseline.new alpha warmup).run calls).state key ∧
        ∀ current, ((Baseline.new alpha warmup).run calls').deviation key current =
          ((Baseline.new alpha warmup).run calls).deviation key current := by
  refine ⟨isSome_state_iff, fun _ _ ↦ deviation_run_iff, fun calls' h ↦ ?_⟩
  have hstate : ((Baseline.new alpha warmup).run calls').state key =
      ((Baseline.new alpha warmup).run calls).state key := by
    rw [← run_filter_state, h, run_filter_state]
  exact ⟨hstate, fun _ ↦ Baseline.deviation_congr (by simp) hstate⟩

end Refines
