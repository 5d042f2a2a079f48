import NodeSentinel.Ebpf.Drain

/-!
# The network monitor

`net_monitor.bpf.c` with the read of `net.go`.  A retransmission is charged to the cgroup of its
socket, and so is what is handed to TCP, on whatever CPU; what is read of a cgroup is what its
sockets have done since the last read.  The map may have no room for a cgroup, which is then not
read at all.
-/

/-- A call of `handle_tcp_retransmit` or `handle_tcp_sendmsg`, for a socket of a cgroup. -/
structure NetCall (n : ℕ) where
  cpu : Fin n
  cgroup : ℕ
  event : NetEvent

variable {n : ℕ}

/-- What a call does to `net_stats_map`. -/
def NetCall.kernelEvent (c : NetCall n) : KernelEvent n NetStats :=
  ⟨c.cpu, c.cgroup, netMonitor c.event⟩

/-- `net_stats_map` after the calls since it was last drained. -/
def netMap (calls : List (NetCall n)) : CounterMap n NetStats :=
  .ofEvents (calls.map NetCall.kernelEvent)

/-- What `NetObserver.Read` returns of it. -/
def readNetMap (calls : List (NetCall n)) : List CgroupNet := (netMap calls).read.map readNet

/-! ## What the sockets do -/

/-- Whether something is sent for the first time. -/
def NetEvent.isSend : NetEvent → Bool
  | .retransmit => false
  | .sendmsg _ => true

/-- The bytes that are handed to TCP. -/
def NetEvent.size : NetEvent → ℕ
  | .retransmit => 0
  | .sendmsg size => size

section Counts

variable (calls : List (NetCall n)) (cg : ℕ)

/-- The segments of a cgroup that are sent again. -/
def retransmissions : ℕ := calls.countP fun c ↦ c.cgroup = cg ∧ c.event.isSend = false

/-- The calls of `tcp_sendmsg` of a cgroup. -/
def sends : ℕ := calls.countP fun c ↦ c.cgroup = cg ∧ c.event.isSend = true

/-- The bytes that a cgroup hands to TCP. -/
def bytesSent : ℕ := (calls.map fun c ↦ if c.cgroup = cg then c.event.size else 0).sum

/-- The bytes that all of them do. -/
def allBytesSent : ℕ := (calls.map fun c ↦ c.event.size).sum

/-- What the calls add to the counters of a cgroup. -/
theorem eventTotal_netCalls (f : NetStats) :
    eventTotal (calls.map NetCall.kernelEvent) cg f = match f with
      | .retransmits => retransmissions calls cg
      | .txBytes => bytesSent calls cg
      | .txSegs => sends calls cg := by
  induction calls with
  | nil => cases f <;> rfl
  | cons c calls ih =>
      rw [List.map_cons, eventTotal, List.map_cons, List.sum_cons]
      rw [eventTotal] at ih
      rw [ih]
      obtain ⟨cpu, cgroup, event⟩ := c
      by_cases hc : cgroup = cg <;> cases event <;> cases f <;>
        simp [NetCall.kernelEvent, amount, netMonitor, retransmissions, sends, bytesSent,
          NetEvent.isSend, NetEvent.size, hc, Nat.add_comm]

end Counts

/-- What is to be read of a cgroup. -/
def netReading (calls : List (NetCall n)) (cg : ℕ) : CgroupNet :=
  ⟨cg, retransmissions calls cg, bytesSent calls cg, sends calls cg⟩

/-! ## What is read -/

section Read

variable {calls : List (NetCall n)} {r : CgroupNet} {cg : ℕ}

theorem readNet_stored (h : cg ∈ netMap calls) :
    readNet (cg, (netMap calls).stored cg) = netReading calls cg := by
  have hcounts := CounterMap.counts_ofEvents (calls.map NetCall.kernelEvent)
  have hstored : ∀ f, (netMap calls).stored cg f = _ := fun f ↦
    (hcounts.sums h f).trans (eventTotal_netCalls calls cg f)
  rw [readNet]
  dsimp only
  rw [hstored, hstored, hstored]
  rfl

/-- A reading is exact, and every cgroup with an element has one. -/
theorem mem_readNetMap :
    r ∈ readNetMap calls ↔ r.cgroupID ∈ netMap calls ∧ r = netReading calls r.cgroupID := by
  rw [readNetMap, List.mem_map]
  constructor
  · rintro ⟨⟨cg, g⟩, he, rfl⟩
    obtain ⟨hm, hg⟩ := CounterMap.mem_read.mp he
    dsimp only at hm hg
    subst hg
    exact ⟨hm, readNet_stored hm⟩
  · rintro ⟨hm, hr⟩
    exact ⟨_, CounterMap.mem_read.mpr ⟨hm, rfl⟩, (readNet_stored hm).trans hr.symm⟩

theorem readNetMap_nodup (calls : List (NetCall n)) :
    ((readNetMap calls).map CgroupNet.cgroupID).Nodup := by
  have hkeys : (readNetMap calls).map CgroupNet.cgroupID = (netMap calls).keys := by
    rw [readNetMap, CounterMap.read, List.map_map, List.map_map]
    rfl
  rw [hkeys]
  exact (netMap calls).keys_nodup

/-- While few cgroups have sockets, each of them is read. -/
theorem netReading_mem (hroom : (calls.map NetCall.cgroup).toFinset.card < maxCgroups)
    {c : NetCall n} (hc : c ∈ calls) : netReading calls c.cgroup ∈ readNetMap calls := by
  refine mem_readNetMap.mpr ⟨?_, rfl⟩
  refine CounterMap.mem_ofEvents (e := c.kernelEvent) ?_ (List.mem_map_of_mem hc)
  rwa [List.map_map]

/-- And so are all bytes. -/
theorem sum_readNetMap (hroom : (calls.map NetCall.cgroup).toFinset.card < maxCgroups) :
    ((readNetMap calls).map CgroupNet.txBytes).sum = allBytesSent calls := by
  have hamount : ∀ c : NetCall n, amount c.kernelEvent.adds NetStats.txBytes = c.event.size := by
    rintro ⟨cpu, cgroup, event⟩
    cases event <;> simp [NetCall.kernelEvent, amount, netMonitor, NetEvent.size]
  have hreadings : (readNetMap calls).map CgroupNet.txBytes =
      ((readNetMap calls).map CgroupNet.cgroupID).map fun cg ↦
        eventTotal (calls.map NetCall.kernelEvent) cg .txBytes := by
    rw [List.map_map]
    refine List.map_congr_left fun r hr ↦ ?_
    rw [Function.comp_apply, eventTotal_netCalls, (mem_readNetMap.mp hr).2]
    rfl
  rw [hreadings, ← List.sum_toFinset _ (readNetMap_nodup calls), sum_eventTotal, List.map_map]
  refine congrArg List.sum (List.map_congr_left fun c hc ↦ ?_)
  rw [Function.comp_apply, hamount]
  exact if_pos (List.mem_toFinset.mpr (List.mem_map_of_mem (netReading_mem hroom hc)))

end Read
