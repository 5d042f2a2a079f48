import NodeSentinel.Controller.Semantics

/-!
# What a throttle writes

`throttle` lowers the CPU limit of a container to its request, where the request is set and lies
below the limit.  A request of 0 does too, and a limit of 0 is no limit, so such a throttle takes
the cap away.  In all other pods it writes a positive limit below the one it found, or nothing.
-/

/-- The CPU limit of a container of the cluster. -/
def Cluster.cpuLimit (C : Cluster) (ns name container : String) : Option Quantity :=
  (C.container? ns name container).bind Container.cpuLimit

/-- What `throttle` has done since `w` where a run of it has come to `p'`: the limits it has
written are positive and below those they replace, in the named container only; and where there is
no such limit nothing is written, and the Event tier is asked for. -/
structure Caps (t : Target ℚ) (w : World) (p' : Ctl Bool) (w' : World) : Prop where
  limit : ∃ new, w'.history = new ++ w.history ∧ ∀ x, Change.throttled x ∈ new →
    x.ns = t.ns ∧ x.pod = t.pod ∧ x.container = t.container ∧
      x.old = w.cluster.cpuLimit t.ns t.pod t.container ∧ 0 < x.new ∧ ∃ l, x.old = some l ∧ x.new < l
  others : ∀ ns name container, ¬ (ns = t.ns ∧ name = t.pod ∧ container = t.container) →
    w'.cluster.container? ns name container = w.cluster.container? ns name container
  fallback : (¬ ∃ l q, w.cluster.cpuLimit t.ns t.pod t.container = some l ∧ 0 < q ∧ q < l) →
    w'.cluster = w.cluster ∧ w'.history = w.history ∧ ∀ done, p' = .pure done → done = false

/-- The container of a target asks for no CPU, and has a limit. -/
def Requestless (t : Target ℚ) (w : World) : Prop :=
  ∃ c, w.cluster.container? t.ns t.pod t.container = some c ∧ c.cpuRequest = some 0 ∧
    ∃ l, c.cpuLimit = some l ∧ 0 < l

/-! ## After the patch -/

/-- No action sets a limit. -/
def unpatching : Protocol Act Resp Unit where
  allowed _ e :=
    match e with
    | .patchCPULimit _ _ _ _ _ => False
    | _ => True
  next _ _ _ := ()

/-- From one world to the other no limit was set. -/
structure Unpatched (w w' : World) : Prop where
  cluster : w'.cluster = w.cluster
  history : ∃ new, w'.history = new ++ w.history ∧ ∀ x, Change.throttled x ∉ new

section

variable {pol : Policy} {r : Remediator} {t : Target ℚ} {w w₁ w' : World}

theorem Unpatched.of_eq (hC : w'.cluster = w.cluster) (hH : w'.history = w.history) :
    Unpatched w w' := ⟨hC, [], hH, fun _ ↦ List.not_mem_nil⟩

theorem Unpatched.trans (h : Unpatched w w₁) (h' : Unpatched w₁ w') : Unpatched w w' := by
  obtain ⟨new, hnew, hx⟩ := h.history
  obtain ⟨new', hnew', hx'⟩ := h'.history
  refine ⟨h'.cluster.trans h.cluster, new' ++ new, ?_, fun x hmem ↦ ?_⟩
  · rw [hnew', hnew, List.append_assoc]
  · exact (List.mem_append.mp hmem).elim (hx' x) (hx x)

/-- An action that is no patch. -/
theorem exec_unpatched {e : Act} {ans : Resp e} (ha : unpatching.allowed () e)
    (hx : Exec pol e w ans w') : Unpatched w w' := by
  cases e with
  | patchCPULimit => exact ha.elim
  | getPod | createEvent | getConfigMap =>
      rcases exec_api.mp hx with ⟨-, h⟩ | ⟨-, -, rfl⟩
      · obtain ⟨-, rfl⟩ := Prod.mk.inj h
        exact .of_eq rfl rfl
      · exact .of_eq rfl rfl
  | createConfigMap ns =>
      rcases exec_api.mp hx with ⟨-, h⟩ | ⟨-, -, rfl⟩
      · unfold World.createConfigMap at h
        split at h <;> obtain ⟨-, rfl⟩ := Prod.mk.inj h <;> exact .of_eq rfl rfl
      · exact .of_eq rfl rfl
  | updateConfigMap ns cm =>
      rcases exec_api.mp hx with ⟨-, h⟩ | ⟨-, -, rfl⟩
      · unfold World.updateConfigMap at h
        split at h <;> obtain ⟨-, rfl⟩ := Prod.mk.inj h <;> exact .of_eq rfl rfl
      · exact .of_eq rfl rfl
  | now | isThrottled | clearCooldown | deleteThrottled | unlockPersist =>
      obtain ⟨-, rfl⟩ := Prod.mk.inj (exec_local hx)
      exact .of_eq rfl rfl
  | setThrottled key st =>
      obtain ⟨-, rfl⟩ := Prod.mk.inj (exec_local hx)
      exact ⟨rfl, [.recorded st], rfl, by simp⟩
  | takeCooldown =>
      rcases exec_takeCooldown hx with ⟨-, rfl⟩ | ⟨-, -, rfl⟩
      · exact .of_eq rfl rfl
      · exact .of_eq rfl rfl
  | dueThrottles =>
      obtain ⟨-, rfl⟩ := exec_dueThrottles hx
      exact .of_eq rfl rfl
  | recoverThrottled =>
      obtain ⟨_, -, rfl⟩ := exec_recoverThrottled hx
      exact .of_eq rfl rfl
  | lockPersist =>
      obtain ⟨-, rfl⟩ := exec_lockPersist hx
      exact .of_eq rfl rfl

theorem persist_unpatching {key : String} {st : ThrottleState} :
    (persist r key st).Follows unpatching () fun _ _ ↦ True := by
  refine (persist_issues.follows fun e h ↦ ⟨?_, fun _ ↦ rfl⟩).mono fun _ _ _ ↦ trivial
  cases e <;> trivial

/-! ## Runs of `throttle` -/

/-- A patch sets the limit it is to set, or fails and changes nothing. -/
theorem exec_patchCPULimit {site : PatchSite} {ns name container : String} {q : Quantity} {pod : Pod}
    {c : Container} {ans : Except ApiError Unit} (hpod : w.cluster.pod ns name = some pod)
    (hc : pod.container? container = some c)
    (h : Exec pol (.patchCPULimit site ns name container q.string) w ans w') :
    (ans = .ok () ∧ w' = w.patch site (w.limitChange ns name pod c q)) ∨
      ((∃ err, ans = .error err) ∧ w' = w) := by
  rcases exec_api.mp h with ⟨-, h⟩ | ⟨-, rfl, rfl⟩
  · rcases World.patchCPULimit_cases h with ⟨pod', c', q', hpod', hc', hq, rfl, rfl⟩ |
      ⟨-, rfl, rfl⟩ | ⟨_, -, -, rfl, rfl⟩
    · obtain rfl := Option.some.inj (hpod.symm.trans hpod')
      obtain rfl := Option.some.inj (hc.symm.trans hc')
      obtain rfl := Option.some.inj hq
      exact .inl ⟨rfl, rfl⟩
    · exact .inr ⟨⟨_, rfl⟩, rfl⟩
    · exact .inr ⟨⟨_, rfl⟩, rfl⟩
  · exact .inr ⟨⟨_, rfl⟩, rfl⟩

/-- Where a run of `throttle` can be: it has written nothing and does not return `true`, or it has
lowered the limit of the named container to its request. -/
theorem throttle_runs {why : Why} {p' : Ctl Bool}
    (h : System.Runs (Exec pol) (throttle r t why) w p' w') :
    (w' = w ∧ ∀ done, p' = .pure done → done = false) ∨
    ∃ pod c l q, w.cluster.pod t.ns t.pod = some pod ∧ pod.container? t.container = some c ∧
      c.cpuLimit = some l ∧ c.cpuRequest = some q ∧ q < l ∧
      Unpatched (w.patch .throttle (w.limitChange t.ns t.pod pod c q)) w' := by
  -- where the Event tier is asked for
  have hstop : ∀ {w : World}, System.Runs (Exec pol) (Prog.pure false : Ctl Bool) w p' w' →
      w' = w ∧ ∀ done, p' = .pure done → done = false := by
    intro w h
    cases h
    exact ⟨rfl, fun _ he ↦ (Prog.pure.inj he).symm⟩
  unfold throttle at h
  rw [Prog.perform_bind] at h
  cases h with
  | refl => exact .inl ⟨rfl, fun _ he ↦ by cases he⟩
  | @act _ _ ans _ _ _ _ hx hk =>
      obtain ⟨rfl, hpod⟩ := exec_getPod hx
      cases ans with
      | error err => exact .inl (hstop hk)
      | ok pod =>
          cases hroom : pod.room t.container with
          | none =>
              simp only [hroom] at hk
              exact .inl (hstop hk)
          | some x =>
              obtain ⟨limit, request⟩ := x
              simp only [hroom, Prog.perform_bind] at hk
              obtain ⟨c, hc, hlimit, hrequest, hlt⟩ := Pod.room_eq_some hroom
              cases hk with
              | refl => exact .inl ⟨rfl, fun _ he ↦ by cases he⟩
              | act hx hk =>
                  rcases exec_patchCPULimit (hpod pod rfl) hc hx with ⟨rfl, rfl⟩ | ⟨⟨err, rfl⟩, rfl⟩
                  · refine .inr ⟨pod, c, limit, request, hpod pod rfl, hc, hlimit, hrequest, hlt, ?_⟩
                    obtain ⟨-, h, -⟩ := hk.follows (P := unpatching) (s := ()) (Q := fun _ _ ↦ True)
                      (I := fun _ v ↦ Unpatched (World.patch _ .throttle _) v)
                      (fun h ha hx ↦ h.trans (exec_unpatched ha hx))
                      ⟨trivial, fun now ↦ ⟨trivial, fun _ ↦ persist_unpatching.bind fun _ _ _ ↦
                        ⟨trivial, fun _ ↦ ⟨trivial, fun _ ↦ ⟨trivial, fun _ ↦ trivial⟩⟩⟩⟩⟩
                      (.of_eq rfl rfl)
                    exact h
                  · exact .inl (hstop hk)

/-- A request of 0 becomes the limit. -/
theorem exists_throttle_zero (r : Remediator) (why : Why) (h : Requestless t w) :
    ∃ x, x.new = 0 ∧
      ∃ p', System.Runs (Exec .unreliable) (throttle r t why) w p' (w.patch .throttle x) := by
  obtain ⟨⟨name, request, limit⟩, hcontainer, rfl, l, rfl, hpos⟩ := h
  obtain ⟨pod, hpod, hc⟩ := Option.bind_eq_some_iff.mp hcontainer
  have hroom : pod.room t.container = some (l, 0) := by
    rw [Pod.room, hc]
    exact if_neg hpos.not_ge
  have hget : Exec .unreliable (.getPod t.ns t.pod) w (.ok pod) w :=
    exec_api.mpr (.inl ⟨rfl, by rw [World.getPod, hpod]⟩)
  have hpatch : Exec .unreliable (.patchCPULimit .throttle t.ns t.pod t.container (Quantity.string 0)) w
      (.ok ()) (w.patch .throttle (w.limitChange t.ns t.pod pod ⟨name, some 0, some l⟩ 0)) := by
    refine exec_api.mpr (.inl ⟨rfl, ?_⟩)
    obtain rfl := (Pod.container?_eq_some_iff.mp hc).2
    rw [World.patchCPULimit, hpod]
    dsimp only
    rw [hc]
    rfl
  refine ⟨w.limitChange t.ns t.pod pod ⟨name, some 0, some l⟩ 0, rfl, ?_⟩
  unfold throttle
  simp only [Prog.perform_bind]
  exact ⟨_, .act hget (by simp only [hroom]; exact .act hpatch (.refl _ _))⟩

/-- Such a throttle caps nothing. -/
theorem not_caps_of_requestless (r : Remediator) (why : Why) (h : Requestless t w) :
    ¬ ∀ p' w', System.Runs (Exec .unreliable) (throttle r t why) w p' w' → Caps t w p' w' := by
  intro hcaps
  obtain ⟨x, hx, p', hr⟩ := exists_throttle_zero r why h
  obtain ⟨new, hnew, hpos⟩ := (hcaps p' _ hr).limit
  have hone : new ++ w.history = [.throttled x] ++ w.history := hnew.symm
  have hmem : Change.throttled x ∈ new := by
    rw [List.append_cancel_right hone]
    exact List.mem_singleton_self _
  have hlt := (hpos x hmem).2.2.2.2.1
  rw [hx] at hlt
  exact absurd hlt (lt_irrefl _)

/-- The container that is patched is the one that is named. -/
theorem cpuLimit_of_pod {pod : Pod} {c : Container} (hpod : w.cluster.pod t.ns t.pod = some pod)
    (hc : pod.container? t.container = some c) :
    w.cluster.container? t.ns t.pod t.container = some c ∧
      w.cluster.cpuLimit t.ns t.pod t.container = c.cpuLimit := by
  have hcontainer := (Cluster.container?_of_pod hpod t.container).trans hc
  exact ⟨hcontainer, by rw [Cluster.cpuLimit, hcontainer, Option.bind_some]⟩

/-- A patch to a positive request. -/
theorem caps_of_patch {pod : Pod} {c : Container} {l q : Quantity} {p' : Ctl Bool}
    (hpod : w.cluster.pod t.ns t.pod = some pod) (hc : pod.container? t.container = some c)
    (hlimit : c.cpuLimit = some l) (hpos : 0 < q) (hlt : q < l)
    (h : Unpatched (w.patch .throttle (w.limitChange t.ns t.pod pod c q)) w') : Caps t w p' w' := by
  obtain ⟨-, hold⟩ := cpuLimit_of_pod hpod hc
  have hname : c.name = t.container := (Pod.container?_eq_some_iff.mp hc).2
  constructor
  · obtain ⟨new, hnew, hnone⟩ := h.history
    refine ⟨new ++ [.throttled (w.limitChange t.ns t.pod pod c q)], ?_, fun x hx ↦ ?_⟩
    · rw [hnew, List.append_assoc]
      rfl
    · rcases List.mem_append.mp hx with hx | hx
      · exact absurd hx (hnone x)
      · obtain rfl := Change.throttled.inj (List.mem_singleton.mp hx)
        exact ⟨rfl, rfl, hname, hold.symm, hpos, l, hlimit, hlt⟩
  · intro ns name container hne
    rw [h.cluster]
    refine Cluster.container?_setCPULimit_of_ne fun heq ↦ hne ?_
    exact ⟨heq.1, heq.2.1, heq.2.2.trans hname⟩
  · intro hnone
    exact absurd ⟨l, q, hold.trans hlimit, hpos, hlt⟩ hnone

end

/-! ## A pod without a request -/

/-- A cluster of one pod, whose container has a limit and a request of 0. -/
def Cluster.requestless : Cluster :=
  Cluster.empty.create "web" "a" webNamed ⟨1, [⟨"app", some 0, some 200⟩], by decide⟩
