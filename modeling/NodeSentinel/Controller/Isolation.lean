import NodeSentinel.Controller.Attribution
import NodeSentinel.Controller.Roundtrip
import NodeSentinel.Effect.View

/-!
# One pod at a time

What `Remediate` does to a pod depends on that pod alone: on what the cluster, the memory and the
ledger hold of it, on its own rows and on how the API calls about it are served.  The other pods of
the snapshot may be any, in any order, and the calls about them may fail.
-/

open Function (update)

/-- What there is about one pod. -/
structure PodView where
  clock : Time
  /-- The pod, with its limits. -/
  pod : Option Pod
  /-- The Events on it. -/
  events : List Event
  /-- Its entry in `r.lastActed`. -/
  acted : Option Time
  /-- Its entry in `r.throttled`. -/
  throttle : Option ThrottleState
  /-- Its entry in the ledger. -/
  entry : Option Raw
deriving DecidableEq

/-- What a world holds of one pod. -/
def World.podView (w : World) (r : Remediator) (ns pod : String) : PodView where
  clock := w.clock
  pod := w.cluster.pod ns pod
  events := w.events.filter fun ev ↦ ev.ns = ns ∧ ev.pod = pod
  acted := w.lastActed (podKey ns pod)
  throttle := w.throttled.lookup (podKey ns pod)
  entry := (w.ledger r).lookup (cmKey (podKey ns pod))

/-- The pod that an API call is about. -/
def Act.calls? : Act → Option (String × String)
  | .getPod ns name => some (ns, name)
  | .patchCPULimit _ ns pod _ _ => some (ns, pod)
  | .createEvent ev => some (ev.ns, ev.pod)
  | _ => none

/-- A world, with the number of API calls so far about one pod, and about others. -/
structure Counted where
  own : ℕ
  others : ℕ
  world : World

namespace Counted

/-- Serve an action.  Which calls about the pod succeed is told by `own`, and which calls about
other pods by `others`; those on the ledger do. -/
def serve (ns pod : String) (own others : ℕ → Bool) (e : Act) (c : Counted) :
    Option (Resp e × Counted) :=
  match e.calls? with
  | none => (exec {} e c.world).map fun x ↦ (x.1, { c with world := x.2 })
  | some a =>
      if a = (ns, pod) then (exec { ok := own c.own } e c.world).map fun x ↦
        (x.1, { c with own := c.own + 1, world := x.2 })
      else (exec { ok := others c.others } e c.world).map fun x ↦
        (x.1, { c with others := c.others + 1, world := x.2 })

/-- What is seen of one pod, while nobody is in a section of the ledger. -/
def viewOf (r : Remediator) (ns pod : String) : Prog.View Counted (ℕ × PodView) where
  valid c := c.world.persistMu = false
  see c := (c.own, c.world.podView r ns pod)

end Counted

/-- `Remediate`, with some API calls about the pod and about others failing. -/
def remediateServed (r : Remediator) (s : Snapshot ℚ) (ns pod : String) (own others : ℕ → Bool)
    (w : World) : Option World :=
  ((remediate r s).run (Counted.serve ns pod own others) ⟨0, 0, w⟩).map fun x ↦ x.2.world

/-! ## Actions about a pod -/

/-- The actions of a report about one pod, its ledger section apart. -/
def Act.About (ns pod : String) : Act → Prop
  | .getPod ns' name => (ns', name) = (ns, pod)
  | .patchCPULimit .throttle ns' pod' _ _ => (ns', pod') = (ns, pod)
  | .createEvent ev => (ev.ns, ev.pod) = (ns, pod)
  | .now => True
  | .isThrottled key | .takeCooldown key _ _ | .clearCooldown key | .setThrottled key _ =>
      key = podKey ns pod
  | _ => False

/-- What an answer tells of the name of a pod. -/
def Act.Tells (ns pod : String) : (e : Act) → Resp e → Prop
  | .getPod _ _, .ok _ => PodName ns pod
  | _, _ => True

section

variable {r : Remediator} {ns pod ns' pod' : String} {e : Act} {w w₁ w₂ : World} {ch : Choice}

theorem World.podView_eq_iff : w₁.podView r ns pod = w₂.podView r ns pod ↔
    w₁.clock = w₂.clock ∧ w₁.cluster.pod ns pod = w₂.cluster.pod ns pod ∧
      w₁.events.filter (fun ev ↦ ev.ns = ns ∧ ev.pod = pod) =
        w₂.events.filter (fun ev ↦ ev.ns = ns ∧ ev.pod = pod) ∧
      w₁.lastActed (podKey ns pod) = w₂.lastActed (podKey ns pod) ∧
      w₁.throttled.lookup (podKey ns pod) = w₂.throttled.lookup (podKey ns pod) ∧
      (w₁.ledger r).lookup (cmKey (podKey ns pod)) = (w₂.ledger r).lookup (cmKey (podKey ns pod)) := by
  simp only [World.podView, PodView.mk.injEq]

/-- The outcome of an action that changes nothing about the pod. -/
structure Unseen (r : Remediator) (ns pod : String) (w w' : World) : Prop where
  mutex : w'.persistMu = w.persistMu
  view : w'.podView r ns pod = w.podView r ns pod

theorem Unseen.refl : Unseen r ns pod w w := ⟨rfl, rfl⟩

/-- The outcomes of an action in two worlds that hold the same of the pod. -/
structure Twin (r : Remediator) (ns pod : String) (w₁ w₂ : World) {α : Type} (x₁ x₂ : α × World) :
    Prop where
  answer : x₁.1 = x₂.1
  mutex₁ : x₁.2.persistMu = w₁.persistMu
  mutex₂ : x₂.2.persistMu = w₂.persistMu
  view : x₁.2.podView r ns pod = x₂.2.podView r ns pod

/-- A pod that is found has the name of a pod. -/
theorem exec_tells {ans : Resp e} (he : e.About ns pod) (hx : exec ch e w = some (ans, w₁)) :
    e.Tells ns pod ans := by
  cases e with
  | getPod ns' name =>
      obtain ⟨rfl, rfl⟩ := Prod.mk.inj he
      cases ans with
      | error err => trivial
      | ok p =>
          have hget : Exec .unreliable (.getPod ns' name) w (.ok p) w₁ := ⟨ch, rfl, hx⟩
          exact Cluster.podName ((exec_getPod hget).2 p rfl)
  | _ => trivial

/-- An action about another pod changes nothing about the pod. -/
theorem exec_about_hidden (hpod : PodName ns pod) (hne : (ns', pod') ≠ (ns, pod)) (he : e.About ns' pod')
    (ch : Choice) (w : World) : ∃ x, exec ch e w = some x ∧ Unseen r ns pod w x.2 := by
  have hkey : podKey ns pod ≠ podKey ns' pod' := by
    intro h
    obtain ⟨rfl, rfl⟩ := hpod.podKey_inj.mp h
    exact hne rfl
  have hapi : ∀ {α : Type} (x : Except ApiError α × World), Unseen r ns pod w x.2 →
      ∃ y, some (ch.api w x) = some y ∧ Unseen r ns pod w y.2 := by
    intro α x hx
    refine ⟨_, rfl, ?_⟩
    unfold Choice.api
    split
    · exact hx
    · exact .refl
  cases e with
  | getPod => exact hapi _ .refl
  | patchCPULimit site ns₁ pod₁ container cpu =>
      cases site with
      | restore st => exact he.elim
      | throttle =>
          obtain ⟨rfl, rfl⟩ := Prod.mk.inj he
          refine hapi _ ?_
          unfold World.patchCPULimit
          split
          · exact .refl
          · split
            · refine ⟨rfl, World.podView_eq_iff.mpr ⟨rfl, ?_, rfl, rfl, rfl, rfl⟩⟩
              rw [Cluster.pod_setCPULimit, if_neg]
              rintro ⟨rfl, rfl⟩
              exact hne rfl
            · exact .refl
  | createEvent ev =>
      obtain ⟨rfl, rfl⟩ := Prod.mk.inj he
      refine hapi _ ⟨rfl, World.podView_eq_iff.mpr ⟨rfl, rfl, ?_, rfl, rfl, rfl⟩⟩
      refine List.filter_cons_of_neg ?_
      simpa using hne
  | now => exact ⟨_, rfl, .refl⟩
  | isThrottled key => exact ⟨_, rfl, .refl⟩
  | takeCooldown key now cooldown =>
      obtain rfl : key = podKey ns' pod' := he
      refine ⟨_, rfl, ?_⟩
      have htake : Unseen r ns pod w { w with lastActed := update w.lastActed (podKey ns' pod') (some now) } :=
        ⟨rfl, World.podView_eq_iff.mpr ⟨rfl, rfl, rfl, Function.update_of_ne hkey .., rfl, rfl⟩⟩
      unfold World.takeCooldown
      split
      · split
        · exact .refl
        · exact htake
      · exact htake
  | clearCooldown key =>
      obtain rfl : key = podKey ns' pod' := he
      exact ⟨_, rfl, rfl, World.podView_eq_iff.mpr ⟨rfl, rfl, rfl, Function.update_of_ne hkey .., rfl, rfl⟩⟩
  | setThrottled key st =>
      obtain rfl : key = podKey ns' pod' := he
      exact ⟨_, rfl, rfl, World.podView_eq_iff.mpr
        ⟨rfl, rfl, rfl, rfl, Finmap.lookup_insert_of_ne _ hkey, rfl⟩⟩
  | _ => exact he.elim

/-- An action about the pod does the same where the same is held of it. -/
theorem exec_about_alike (he : e.About ns pod) (ch : Choice)
    (hv : w₁.podView r ns pod = w₂.podView r ns pod) :
    ∃ x₁ x₂, exec ch e w₁ = some x₁ ∧ exec ch e w₂ = some x₂ ∧ Twin r ns pod w₁ w₂ x₁ x₂ := by
  obtain ⟨hclock, hcluster, hevents, hacted, hthrottle, hentry⟩ := World.podView_eq_iff.mp hv
  have hapi : ∀ {α : Type} (x₁ x₂ : Except ApiError α × World), Twin r ns pod w₁ w₂ x₁ x₂ →
      ∃ y₁ y₂, some (ch.api w₁ x₁) = some y₁ ∧ some (ch.api w₂ x₂) = some y₂ ∧
        Twin r ns pod w₁ w₂ y₁ y₂ := by
    intro α x₁ x₂ hx
    refine ⟨_, _, rfl, rfl, ?_⟩
    unfold Choice.api
    split
    · exact hx
    · exact ⟨rfl, rfl, rfl, hv⟩
  cases e with
  | getPod ns₁ name =>
      obtain ⟨rfl, rfl⟩ := Prod.mk.inj he
      refine hapi _ _ ⟨?_, rfl, rfl, hv⟩
      simp only [World.getPod, hcluster]
  | patchCPULimit site ns₁ pod₁ container cpu =>
      cases site with
      | restore st => exact he.elim
      | throttle =>
          obtain ⟨rfl, rfl⟩ := Prod.mk.inj he
          refine hapi _ _ ?_
          unfold World.patchCPULimit
          rw [← hcluster]
          cases hp : w₁.cluster.pod ns₁ pod₁ with
          | none => exact ⟨rfl, rfl, rfl, hv⟩
          | some p =>
              dsimp only
              split
              · refine ⟨rfl, rfl, rfl, World.podView_eq_iff.mpr ⟨hclock, ?_, hevents, hacted, hthrottle, hentry⟩⟩
                dsimp only
                rw [Cluster.pod_setCPULimit, Cluster.pod_setCPULimit, hcluster]
              · exact ⟨rfl, rfl, rfl, hv⟩
  | createEvent ev =>
      obtain ⟨rfl, rfl⟩ := Prod.mk.inj he
      refine hapi _ _ ⟨rfl, rfl, rfl, World.podView_eq_iff.mpr ⟨hclock, hcluster, ?_, hacted, hthrottle, hentry⟩⟩
      have hown : ∀ evs : List Event, (ev :: evs).filter (fun ev' ↦ ev'.ns = ev.ns ∧ ev'.pod = ev.pod) =
          ev :: evs.filter fun ev' ↦ ev'.ns = ev.ns ∧ ev'.pod = ev.pod :=
        fun evs ↦ List.filter_cons_of_pos (by simp)
      exact (hown _).trans ((congrArg (ev :: ·) hevents).trans (hown _).symm)
  | now => exact ⟨_, _, rfl, rfl, hclock, rfl, rfl, hv⟩
  | isThrottled key =>
      obtain rfl : key = podKey ns pod := he
      refine ⟨_, _, rfl, rfl, ?_, rfl, rfl, hv⟩
      dsimp only
      rw [hthrottle]
  | takeCooldown key now cooldown =>
      obtain rfl : key = podKey ns pod := he
      refine ⟨_, _, rfl, rfl, ?_⟩
      have htake : Twin r ns pod w₁ w₂
          (true, { w₁ with lastActed := update w₁.lastActed (podKey ns pod) (some now) })
          (true, { w₂ with lastActed := update w₂.lastActed (podKey ns pod) (some now) }) :=
        ⟨rfl, rfl, rfl, World.podView_eq_iff.mpr ⟨hclock, hcluster, hevents, by simp, hthrottle, hentry⟩⟩
      unfold World.takeCooldown
      rw [← hacted]
      cases w₁.lastActed (podKey ns pod) with
      | none => exact htake
      | some last =>
          dsimp only
          split
          · exact ⟨rfl, rfl, rfl, hv⟩
          · exact htake
  | clearCooldown key =>
      obtain rfl : key = podKey ns pod := he
      exact ⟨_, _, rfl, rfl, rfl, rfl, rfl, World.podView_eq_iff.mpr
        ⟨hclock, hcluster, hevents, by simp, hthrottle, hentry⟩⟩
  | setThrottled key st =>
      obtain rfl : key = podKey ns pod := he
      exact ⟨_, _, rfl, rfl, rfl, rfl, rfl, World.podView_eq_iff.mpr
        ⟨hclock, hcluster, hevents, hacted, by simp, hentry⟩⟩
  | _ => exact he.elim

/-- Such an action is an API call about the pod, or none. -/
theorem Act.About.calls?_eq (he : e.About ns pod) : e.calls? = none ∨ e.calls? = some (ns, pod) := by
  cases e with
  | getPod => exact .inr (congrArg some he)
  | patchCPULimit site =>
      cases site with
      | throttle => exact .inr (congrArg some he)
      | restore => exact he.elim
  | createEvent => exact .inr (congrArg some he)
  | _ => exact .inl rfl

end

/-! ## The handling of a target -/

namespace Counted

variable {r : Remediator} {ns pod ns' pod' : String} {own others others' : ℕ → Bool} {e : Act}

/-- An action about another pod leaves the number of calls about the pod. -/
theorem serve_other (own others : ℕ → Bool) (hne : (ns', pod') ≠ (ns, pod)) (he : e.About ns' pod')
    (c : Counted) :
    ∃ ch n, serve ns pod own others e c = (exec ch e c.world).map fun x ↦ (x.1, ⟨c.own, n, x.2⟩) := by
  unfold serve
  rcases he.calls?_eq with h | h
  · rw [h]
    exact ⟨{}, c.others, rfl⟩
  · rw [h]
    dsimp only
    rw [if_neg hne]
    exact ⟨_, _, rfl⟩

/-- How an action about the pod is served depends on the number of calls about it. -/
theorem serve_own (he : e.About ns pod) (own : ℕ → Bool) (n : ℕ) : ∃ ch n', ∀ others m w,
    serve ns pod own others e ⟨n, m, w⟩ = (exec ch e w).map fun x ↦ (x.1, ⟨n', m, x.2⟩) := by
  unfold serve
  rcases he.calls?_eq with h | h
  · rw [h]
    exact ⟨{}, n, fun _ _ _ ↦ rfl⟩
  · rw [h]
    exact ⟨{ ok := own n }, n + 1, fun _ _ _ ↦ if_pos rfl⟩

/-- A section of the ledger is served as without failures. -/
theorem run_serve {α : Type} {p : Ctl α} {w w' : World} {a : α} (hp : p.Issues Act.OnLedger)
    (h : System.Runs (Exec .reliable) p w (.pure a) w') (n m : ℕ) :
    p.run (serve ns pod own others) ⟨n, m, w⟩ = some (a, ⟨n, m, w'⟩) := by
  generalize hq : (Prog.pure a : Ctl α) = q at h
  induction h with
  | refl =>
      subst hq
      rfl
  | @act e k ans w w₁ w' p' hx _ ih =>
      obtain ⟨ch, hok, hx⟩ := hx
      have hserve : serve ns pod own others e ⟨n, m, w⟩ = some (ans, ⟨n, m, w₁⟩) := by
        have hexec : exec {} e w = exec ch e w := by
          obtain ⟨ok, due, scan⟩ := ch
          obtain rfl : ok = true := hok
          cases e <;> first | rfl | exact hp.1.elim
        have hcalls : e.calls? = none := by
          cases e <;> first | rfl | exact hp.1.elim
        rw [serve, hcalls, hexec, hx]
        rfl
      rw [Prog.run_act hserve]
      exact ih (hp.2 ans) hq

end Counted

/-- The blocks of the handling of a target: its actions, and the ledger section once the pod is known
to exist. -/
inductive TargetBlock (r : Remediator) (ns pod : String) : ⦃α : Type⦄ → Ctl α → (α → Prop) → Prop
  | action (e : Act) (he : e.About ns pod) : TargetBlock r ns pod (perform e) (e.Tells ns pod)
  | ledger (st : ThrottleState) (hpod : PodName ns pod) :
      TargetBlock r ns pod (persist r (podKey ns pod) st) fun _ ↦ True

namespace TargetBlock

variable {r : Remediator} {ns pod ns' pod' : String} {own others others' : ℕ → Bool} {α : Type}
  {p : Ctl α} {Q : α → Prop}

/-- What `persist` leaves is seen of the pod of its key alone. -/
theorem run_persist (own others : ℕ → Bool) (ns pod key : String) (st : ThrottleState) {c : Counted}
    (hc : c.world.persistMu = false) :
    ∃ w', (persist r key st).run (Counted.serve ns pod own others) c = some ((), { c with world := w' }) ∧
      w'.persistMu = false ∧
      w'.podView r ns pod = { c.world.podView r ns pod with
        entry := if r.stateNS ≠ "" ∧ cmKey (podKey ns pod) = cmKey key then some st.raw
          else (c.world.podView r ns pod).entry } := by
  by_cases hns : r.stateNS = ""
  · refine ⟨c.world, ?_, hc, ?_⟩
    · rw [persist, if_pos hns]
      rfl
    · simp [hns]
  · refine ⟨_, Counted.run_serve persist_issues ((runs_persist hns).mpr ⟨hc, rfl⟩) _ _, hc, ?_⟩
    simp only [World.podView, World.ledger_setLedger, ConfigMap.lookup_edit, hns, ne_eq, not_false_eq_true,
      true_and]
    rfl

/-- A block of another pod is hidden. -/
theorem hidden (hpod : PodName ns pod) (hne : (ns', pod') ≠ (ns, pod)) (h : TargetBlock r ns' pod' p Q) :
    p.Hidden (Counted.serve ns pod own others) (Counted.viewOf r ns pod) Q := by
  intro c hc
  cases h with
  | action e he =>
      obtain ⟨ch, n, hserve⟩ := Counted.serve_other own others hne he c
      obtain ⟨⟨ans, w'⟩, hx, hmu, hview⟩ := exec_about_hidden (r := r) hpod hne he ch c.world
      rw [hx] at hserve
      refine ⟨ans, ⟨c.own, n, w'⟩, Prog.run_act hserve, exec_tells he hx, hmu.trans hc, ?_⟩
      exact congrArg (Prod.mk c.own) hview
  | ledger st hpod' =>
      obtain ⟨w', hrun, hmu, hview⟩ := run_persist (r := r) own others ns pod (podKey ns' pod') st hc
      refine ⟨(), _, hrun, trivial, hmu, congrArg (Prod.mk c.own) (hview.trans ?_)⟩
      rw [if_neg]
      rintro ⟨-, hkey⟩
      obtain ⟨rfl, rfl⟩ := hpod.podKey_inj.mp ((hpod.isPodKey.cmKey_inj hpod'.isPodKey).mp hkey)
      exact hne rfl

/-- A block of the pod itself does the same in worlds that hold the same of it. -/
theorem alike (h : TargetBlock r ns pod p Q) : p.Alike (Counted.serve ns pod own others)
    (Counted.serve ns pod own others') (Counted.viewOf r ns pod) p Q := by
  rintro ⟨n, m₁, w₁⟩ ⟨n₂, m₂, w₂⟩ hw₁ hw₂ hsee
  obtain ⟨rfl, hv⟩ := Prod.mk.inj hsee
  cases h with
  | action e he =>
      obtain ⟨ch, n', hserve⟩ := Counted.serve_own he own n
      obtain ⟨⟨ans, w₁'⟩, ⟨ans', w₂'⟩, hx₁, hx₂, htwin⟩ := exec_about_alike he ch hv
      obtain rfl : ans = ans' := htwin.answer
      refine ⟨ans, ⟨n', m₁, w₁'⟩, ⟨n', m₂, w₂'⟩, Prog.run_act ?_, Prog.run_act ?_, exec_tells he hx₁,
        htwin.mutex₁.trans hw₁, htwin.mutex₂.trans hw₂, congrArg (Prod.mk n') htwin.view⟩
      · rw [hserve, hx₁]
        rfl
      · rw [hserve, hx₂]
        rfl
  | ledger st hpod =>
      obtain ⟨w₁', hrun₁, hmu₁, hview₁⟩ := run_persist (r := r) own others ns pod (podKey ns pod) st hw₁
      obtain ⟨w₂', hrun₂, hmu₂, hview₂⟩ := run_persist (r := r) own others' ns pod (podKey ns pod) st hw₂
      refine ⟨(), _, _, hrun₁, hrun₂, trivial, hmu₁, hmu₂, congrArg (Prod.mk n) ?_⟩
      rw [hview₁, hview₂]
      dsimp only
      rw [hv]

end TargetBlock

section

variable {r : Remediator} {t : Target ℚ} {s : Snapshot ℚ}

open Prog (ComposedOf)

/-- An action about the pod comes first. -/
theorem TargetBlock.act {ns pod : String} {α : Type} {e : Act} {f : Resp e → Ctl α} (he : e.About ns pod)
    (hf : ∀ ans, e.Tells ns pod ans → (f ans).ComposedOf (TargetBlock r ns pod)) :
    ComposedOf (TargetBlock r ns pod) (perform e >>= f) := .bind (.action e he) hf

theorem emitEvent_composed {m : Message} :
    (emitEvent t m).ComposedOf (TargetBlock r t.ns t.pod) := by
  refine TargetBlock.act rfl fun _ _ ↦ TargetBlock.act trivial fun _ _ ↦ TargetBlock.act rfl fun ans _ ↦ ?_
  exact .pure ans

theorem throttle_composed {why : Why} : (throttle r t why).ComposedOf (TargetBlock r t.ns t.pod) := by
  refine TargetBlock.act rfl fun ans htells ↦ ?_
  cases ans with
  | error err => exact .pure false
  | ok pod =>
      cases hroom : pod.room t.container with
      | none =>
          simp only [hroom]
          exact .pure false
      | some lr =>
          simp only [hroom]
          refine TargetBlock.act rfl fun ans _ ↦ ?_
          cases ans with
          | error err => exact .pure false
          | ok _ =>
              refine TargetBlock.act trivial fun now _ ↦ TargetBlock.act rfl fun _ _ ↦ .bind (.ledger _ htells) fun _ _ ↦ ?_
              exact emitEvent_composed.seq fun _ ↦ .pure true

theorem eventTier_composed {why : Why} :
    (eventTier t why).ComposedOf (TargetBlock r t.ns t.pod) := by
  refine emitEvent_composed.seq fun ans ↦ ?_
  cases ans with
  | ok u => exact .pure ()
  | error err => exact TargetBlock.act rfl fun _ _ ↦ .pure ()

theorem act_composed : (act r t s).ComposedOf (TargetBlock r t.ns t.pod) := by
  rw [act_eq]
  split
  · exact .pure ()
  · split
    · refine throttle_composed.seq fun done ↦ ?_
      cases done with
      | true => exact .pure ()
      | false => exact eventTier_composed
    · exact eventTier_composed

/-- The handling of a target is composed of its blocks. -/
theorem remediateOne_composed : (remediateOne r s t).ComposedOf (TargetBlock r t.ns t.pod) := by
  unfold remediateOne
  split
  · exact .pure ()
  · refine TargetBlock.act rfl fun throttled _ ↦ ?_
    cases throttled with
    | true => exact .pure ()
    | false =>
        refine TargetBlock.act trivial fun now _ ↦ TargetBlock.act rfl fun ok _ ↦ ?_
        cases ok with
        | false => exact .pure ()
        | true => exact act_composed

end

/-! ## The rows of a pod -/

/-- Whether a label is of the pod. -/
def labelOf (ns pod label : String) : Bool := (splitPod label).any fun x ↦ (x.1, x.2.1) = (ns, pod)

/-- Two snapshots of a node with the same rows of the pod, in the same order. -/
structure Snapshot.SameRows (ns pod : String) (s s' : Snapshot ℚ) : Prop where
  nodeName : s.nodeName = s'.nodeName
  confidenceMin : s.confidenceMin = s'.confidenceMin
  rows : ∀ resource, (s.rows resource).filter (fun row ↦ labelOf ns pod row.1) =
    (s'.rows resource).filter fun row ↦ labelOf ns pod row.1

/-- Whether a target is the pod. -/
def Target.of (ns pod : String) (t : Target ℚ) : Bool := (t.ns, t.pod) = (ns, pod)

section

variable {r : Remediator} {ns pod : String} {own others others' : ℕ → Bool} {s s' : Snapshot ℚ} {w : World}

/-- A row of the pod names it as a target. -/
theorem filter_addTarget (gate : ℚ) (resource : Resource) (label : String) (conf : ℚ) :
    (addTarget gate resource label conf).filter (Target.of ns pod) =
      if labelOf ns pod label then addTarget gate resource label conf else none := by
  unfold addTarget labelOf
  by_cases hgate : conf < gate
  · simp [hgate]
  · rw [if_neg hgate]
    cases splitPod label with
    | none => rfl
    | some x => rfl

/-- The targets that are the pod come from its rows. -/
theorem filter_confidentTargets (s : Snapshot ℚ) (gate : ℚ) :
    (confidentTargets s gate).filter (Target.of ns pod) =
      [Resource.cpu, .disk, .net].flatMap fun resource ↦
        ((s.rows resource).filter fun row ↦ labelOf ns pod row.1).filterMap fun row ↦
          addTarget (if gate ≤ 0 then s.confidenceMin else gate) resource row.1 row.2 := by
  rw [confidentTargets_eq, List.filter_flatMap]
  congr 1
  funext resource
  rw [List.filter_filterMap, List.filterMap_filter]
  congr 1
  funext row
  exact filter_addTarget _ _ _ _

theorem Snapshot.SameRows.filter_eq (h : s.SameRows ns pod s') (gate : ℚ) :
    (confidentTargets s gate).filter (Target.of ns pod) =
      (confidentTargets s' gate).filter (Target.of ns pod) := by
  rw [filter_confidentTargets, filter_confidentTargets, h.confidenceMin]
  simp only [h.rows]

theorem Snapshot.SameRows.remediateOne_eq (h : s.SameRows ns pod s') : remediateOne r s = remediateOne r s' := by
  funext t
  unfold remediateOne act
  rw [h.nodeName, h.confidenceMin]

/-- Two reports with the same rows of a pod are alike to it. -/
theorem remediate_alike (hpod : PodName ns pod) (hs : s.SameRows ns pod s') :
    (remediate r s).Alike (Counted.serve ns pod own others) (Counted.serve ns pod own others')
      (Counted.viewOf r ns pod) (remediate r s') fun _ ↦ True := by
  unfold remediate
  rw [hs.remediateOne_eq]
  have hother : ∀ others t, ¬ Target.of ns pod t → (remediateOne r s' t).Hidden
      (Counted.serve ns pod own others) (Counted.viewOf r ns pod) fun _ ↦ True := by
    intro others t ht
    have hne : (t.ns, t.pod) ≠ (ns, pod) := by simpa [Target.of] using ht
    exact remediateOne_composed.hidden fun _ _ _ hb ↦ hb.hidden hpod hne
  refine Prog.Alike.forM (q := Target.of ns pod) ?_ (hother others) (hother others') (hs.filter_eq _)
  intro t ht
  obtain ⟨rfl, rfl⟩ : t.ns = ns ∧ t.pod = pod := by simpa [Target.of] using ht
  exact remediateOne_composed.alike fun _ _ _ hb ↦ hb.alike

/-- What `Remediate` does to a pod does not depend on the other pods. -/
theorem remediate_isolated (hpod : PodName ns pod) (hs : s.SameRows ns pod s') (hw : w.persistMu = false)
    (own others others' : ℕ → Bool) : ∃ w₁ w₂,
      remediateServed r s ns pod own others w = some w₁ ∧
      remediateServed r s' ns pod own others' w = some w₂ ∧
      w₁.podView r ns pod = w₂.podView r ns pod := by
  have h : (remediate r s).Alike (Counted.serve ns pod own others) (Counted.serve ns pod own others')
    (Counted.viewOf r ns pod) (remediate r s') fun _ ↦ True := remediate_alike hpod hs
  obtain ⟨_, c₁, c₂, hrun₁, hrun₂, -, -, -, hsee⟩ := h ⟨0, 0, w⟩ ⟨0, 0, w⟩ hw hw rfl
  refine ⟨c₁.world, c₂.world, ?_, ?_, (Prod.mk.inj hsee).2⟩
  · rw [remediateServed, hrun₁]
    rfl
  · rw [remediateServed, hrun₂]
    rfl

end

theorem webPairNamed : PodName "web" "b" := by decide +kernel

/-- The second pod. -/
def secondPod : Pod := ⟨2, [⟨"app", some 100, some 200⟩], List.nodup_singleton "app"⟩

/-- A cluster of two pods. -/
def Cluster.webPair : Cluster := Cluster.web.create "web" "b" webPairNamed secondPod

/-- A report that names the two pods. -/
def pairReport : Snapshot ℚ := .ofLabels ["web/b/app", "web/a/app"]

/-- A report that names the first of them before others, the second one twice. -/
def crowdReport : Snapshot ℚ := .ofLabels ["web/a/app", "web/c/app", "system", "web/b/app", "web/b/app"]

theorem pairReport_sameRows : pairReport.SameRows "web" "a" crowdReport := by
  refine ⟨rfl, rfl, fun resource ↦ ?_⟩
  cases resource <;> decide +kernel

/-- The pod is throttled in either report, whether or not the calls about the other pods succeed. -/
theorem crowdReport_throttled : ((remediateServed webRemediator crowdReport "web" "a" (fun _ ↦ true)
    (fun _ ↦ false) (.fresh .webPair)).all fun w ↦
      (w.podView webRemediator "web" "a").throttle.isSome) := by
  decide +kernel

theorem webRemediator_isolated : ∃ w₁ w₂,
    remediateServed webRemediator pairReport "web" "a" (fun _ ↦ true) (fun _ ↦ true) (.fresh .webPair) =
      some w₁ ∧
    remediateServed webRemediator crowdReport "web" "a" (fun _ ↦ true) (fun _ ↦ false) (.fresh .webPair) =
      some w₂ ∧
    w₁.podView webRemediator "web" "a" = w₂.podView webRemediator "web" "a" ∧
    (w₁.podView webRemediator "web" "a").throttle.isSome := by
  obtain ⟨w₁, w₂, h₁, h₂, hview⟩ := remediate_isolated (r := webRemediator) webNamed pairReport_sameRows
    (w := .fresh .webPair) rfl (fun _ ↦ true) (fun _ ↦ true) fun _ ↦ false
  refine ⟨w₁, w₂, h₁, h₂, hview, ?_⟩
  have hthrottled := crowdReport_throttled
  rwa [h₂, Option.all_some, ← hview] at hthrottled
