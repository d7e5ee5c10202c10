import VibeRtos.Proof.Agreement

/-!
# When a sleeper wakes

The sleep list is sorted by absolute expiry, and the tick handler takes off its front up to
the first expiry that the tick counter has not reached. Both compare plain 32-bit numbers,
so an expiry behind the wrap of the counter counts as long past.

`Doze` is one thread's view of the system while it sleeps: ticks, other threads that go to
sleep or are restarted out of it, and whatever else the kernel does that leaves the sleep
list alone.
-/

namespace VibeRtos

open Links Kernel

/-! ## The sleepers -/

/-- The sleep list holds `ys`, by expiry, and none of them is in a run queue. -/
structure Dozers (k : Kernel) (ys : List Tid) : Prop where
  placed : ∃ qs, Placed k qs ys
  quiet : ∀ u ∈ ys, ¬ (k.thr u).state.Active
  sorted : ys.Pairwise fun u v => (k.thr u).timeout ≤ (k.thr v).timeout
  /-- the idle thread is there to fall back on -/
  idle : ∀ i, k.idle = some i → (k.thr i).state.Active

/-- Only the states of READY and RUNNING threads differ. -/
def Alike (k k' : Kernel) : Prop :=
  ∀ u, ∃ st, k'.thr u = { k.thr u with state := st }
    ∧ (st.Active ↔ (k.thr u).state.Active) ∧ (¬ (k.thr u).state.Active → st = (k.thr u).state)

variable {cfg : Config} {k k' k'' : Kernel} {ys : List Tid} {qs : Prio → List Tid} {t u : Tid}

theorem Alike.refl (k : Kernel) : Alike k k :=
  fun u => ⟨(k.thr u).state, rfl, Iff.rfl, fun _ => rfl⟩

theorem Alike.trans (h : Alike k k') (h' : Alike k' k'') : Alike k k'' := by
  intro u
  obtain ⟨st, hst, hact, hsame⟩ := h u
  obtain ⟨st', hst', hact', hsame'⟩ := h' u
  rw [hst] at hst' hact' hsame'
  exact ⟨st', hst',
    hact'.trans hact, fun hna => (hsame' fun ha => hna (hact.mp ha)).trans (hsame hna)⟩

theorem Alike.active (h : Alike k k') (u : Tid) :
    (k'.thr u).state.Active ↔ (k.thr u).state.Active := by
  obtain ⟨st, hst, hact, -⟩ := h u
  rw [hst]
  exact hact

theorem Alike.same (h : Alike k k') (hu : ¬ (k.thr u).state.Active) : k'.thr u = k.thr u := by
  obtain ⟨st, hst, -, hsame⟩ := h u
  rw [hst, hsame hu]

/-- The time slice makes a running thread READY. -/
theorem timeslice_alike (cfg : Config) (k : Kernel) : Alike k (k.schedTimesliceTick cfg) := by
  obtain ⟨-, -, -, -, -, -, -, hthr⟩ := schedTimesliceTick_frame cfg k
  intro u
  rcases hthr with hsame | ⟨cur, -, hrun, hcur⟩
  · rw [hsame]
    exact Alike.refl k u
  · rw [hcur]
    by_cases huc : u = cur
    · subst huc
      rw [Function.update_self]
      exact ⟨.ready, rfl, ⟨fun _ => Or.inr hrun, fun _ => Or.inl rfl⟩,
        fun hna => absurd (Or.inr hrun) hna⟩
    · rw [Function.update_of_ne huc]
      exact Alike.refl k u

/-- A thread is chosen from the run queues. -/
theorem Placed.reschedule_alike (h : Placed k qs ys)
    (hidle : ∀ i, k.idle = some i → (k.thr i).state.Active) : Alike k k.schedReschedule := by
  have hswitch : ∀ v, (k.thr v).state.Active → Alike k (k.switchTo v) := by
    intro v hv u
    obtain ⟨st, hst, hcase⟩ := switchTo_thr k v u
    refine ⟨st, hst, ?_⟩
    rcases hcase with ⟨hold, hnew⟩ | ⟨-, hna, hsame⟩
    · have hact : (k.thr u).state.Active := by
        rcases hold with rfl | hact
        · exact hv
        · exact hact
      exact ⟨⟨fun _ => hact, fun _ => hnew⟩, fun hna => absurd hact hna⟩
    · rw [hsame]
      exact ⟨Iff.rfl, fun _ => rfl⟩
  unfold schedReschedule
  split
  · exact Alike.refl k
  · rcases h.queues.next with ⟨-, hnext⟩ | ⟨p, v, rest, hq, -, hnext⟩
    · rw [hnext]
      cases hi : k.idle with
      | none => exact Alike.refl k
      | some i =>
          dsimp only
          split
          · exact Alike.refl k
          · exact hswitch i (hidle i hi)
    · rw [hnext]
      dsimp only
      split
      · exact Alike.refl k
      · have hmem : v ∈ qs p := by
          rw [hq]
          exact List.mem_cons_self
        exact hswitch v ((h.agree v p).mp hmem).1

/-- Somebody is ready as long as the idle thread is. -/
theorem Placed.reschedulable (h : Placed k qs ys)
    (hidle : ∀ i, k.idle = some i → (k.thr i).state.Active) : Reschedulable k := by
  cases hi : k.idle with
  | none => exact Or.inr (Or.inr (Or.inl hi))
  | some i =>
      refine Or.inr (Or.inl fun hzero => ?_)
      have hin : i ∈ qs (k.thr i).priority := (h.agree i _).mpr ⟨hidle i hi, rfl⟩
      have hset := (h.queues.mask (k.thr i).priority).mpr (List.ne_nil_of_mem hin)
      rw [hzero] at hset
      exact absurd hset (by simp)

/-! ## A tick -/

/-- What a run of the tick handler does to the sleepers. -/
structure Ticked (k k' : Kernel) (ys : List Tid) : Prop where
  dozers : Dozers k' (dozing k (k.tickCount + 1) ys)
  woken : ∀ u ∈ expiring k (k.tickCount + 1) ys, (k'.thr u).state.Active
  asleep : ∀ u ∈ dozing k (k.tickCount + 1) ys, k'.thr u = k.thr u
  count : k'.tickCount = k.tickCount + 1

theorem schedReschedule_frame (k : Kernel) : k.schedReschedule.sleepNode = k.sleepNode
    ∧ k.schedReschedule.sleepList = k.sleepList ∧ k.schedReschedule.tickCount = k.tickCount
    ∧ k.schedReschedule.idle = k.idle := by
  unfold schedReschedule
  split
  · exact ⟨rfl, rfl, rfl, rfl⟩
  · split
    · exact ⟨rfl, rfl, rfl, rfl⟩
    · rename_i next _
      split
      · exact ⟨rfl, rfl, rfl, rfl⟩
      · obtain ⟨-, -, -, hnode, hlist, -, hidle, -, hticks, -⟩ := switchTo_frame k next
        exact ⟨hnode, hlist, hticks, hidle⟩

theorem wakeLoop_frame (now : UInt32) : ∀ (fuel : Nat) (k : Kernel) (o : Option Tid),
    (wakeLoop now fuel k o).tickCount = k.tickCount ∧ (wakeLoop now fuel k o).idle = k.idle
  | 0, _, _ => ⟨rfl, rfl⟩
  | _ + 1, _, none => ⟨rfl, rfl⟩
  | fuel + 1, k, some t => by
      rw [wakeLoop]
      split
      · exact wakeLoop_frame now fuel ((k.sleepRemove t).schedEnqueue t) (k.sleepNode t).next
      · exact ⟨rfl, rfl⟩

/-- **A tick** wakes the front of the sleep list. -/
theorem Dozers.tick (h : Dozers k ys) : Ticked k (sysTickHandler cfg k) ys := by
  obtain ⟨qs, hp⟩ := h.placed
  let k₁ : Kernel := { k with tickCount := k.tickCount + 1 }
  have hp1 : Placed k₁ qs ys :=
    hp.congr (fun _ => Iff.rfl) (fun _ => rfl) (fun _ hs => hs) rfl rfl rfl rfl rfl
  have hlen : ys.length < walkBound := by
    refine lt_of_le_of_lt hp.sleepers.nodup.length_le_card ?_
    rw [Fintype.card_fin]
    decide
  have hquiet : ∀ u ∈ expiring k₁ (k.tickCount + 1) ys, ¬ (k₁.thr u).state.Active :=
    fun u hu => h.quiet u ((List.takeWhile_sublist _).subset hu)
  obtain ⟨qs₂, hp2, hthr2⟩ := hp1.wakeLoop hlen hquiet
  have hwake : k₁.schedWakeExpired (k.tickCount + 1)
      = wakeLoop (k.tickCount + 1) walkBound k₁ ys.head? := by
    rw [schedWakeExpired, hp1.sleepers.head]
  obtain ⟨hcount2, hidle2⟩ := wakeLoop_frame (k.tickCount + 1) walkBound k₁ ys.head?
  generalize hk2 : wakeLoop (k.tickCount + 1) walkBound k₁ ys.head? = k₂ at *
  have hidle : ∀ i, k₂.idle = some i → (k₂.thr i).state.Active := by
    intro i hi
    rw [hthr2]
    split
    · exact Or.inl rfl
    · exact h.idle i (hidle2.symm.trans hi)
  -- the time slice and the choice of the next thread
  obtain ⟨-, hnode3, hlist3, -, hidle3, -, hcount3, -⟩ := schedTimesliceTick_frame cfg k₂
  have halike3 := timeslice_alike cfg k₂
  obtain ⟨qs₃, ys₃, hp3⟩ : Sound (k₂.schedTimesliceTick cfg) := Sound.timeslice ⟨qs₂, _, hp2⟩
  generalize hk3 : k₂.schedTimesliceTick cfg = k₃ at *
  obtain rfl : ys₃ = dozing k (k.tickCount + 1) ys := by
    refine hp3.sleepers.unique ?_
    rw [hnode3, hlist3]
    exact hp2.sleepers
  have hidle' : ∀ i, k₃.idle = some i → (k₃.thr i).state.Active := fun i hi =>
    (halike3.active i).mpr (hidle i (hidle3.symm.trans hi))
  have hfinal : sysTickHandler cfg k = k₃.schedReschedule := by
    rw [← hk3, ← hwake]
    rfl
  have hp4 := hp3.reschedule (hp3.reschedulable hidle')
  have halike := halike3.trans (hp3.reschedule_alike hidle')
  obtain ⟨-, -, hcount4, hidle4⟩ := schedReschedule_frame k₃
  rw [hfinal]
  generalize k₃.schedReschedule = k₄ at *
  -- no sleeper behind the front has changed
  have hnot : ∀ u ∈ dozing k (k.tickCount + 1) ys, u ∉ expiring k (k.tickCount + 1) ys := by
    intro u hu hu'
    have hnd := hp.sleepers.nodup
    rw [← expiring_append_dozing k (k.tickCount + 1) ys] at hnd
    exact (List.nodup_append.mp hnd).2.2 u hu' u hu rfl
  have hsub : ∀ u ∈ dozing k (k.tickCount + 1) ys, u ∈ ys :=
    fun u hu => (List.dropWhile_sublist _).subset hu
  have hasleep : ∀ u ∈ dozing k (k.tickCount + 1) ys, k₄.thr u = k.thr u := by
    intro u hu
    have hout : u ∉ expiring k₁ (k.tickCount + 1) ys := hnot u hu
    have hsame : k₂.thr u = k.thr u := by
      rw [hthr2, if_neg hout]
    have hna : ¬ (k₂.thr u).state.Active := by
      rw [hsame]
      exact h.quiet u (hsub u hu)
    rw [halike.same hna, hsame]
  refine ⟨⟨⟨qs₃, hp4⟩, fun u hu => ?_, ?_, fun i hi => ?_⟩, fun u hu => ?_, hasleep, ?_⟩
  · rw [hasleep u hu]
    exact h.quiet u (hsub u hu)
  · refine List.Pairwise.imp_of_mem ?_ (h.sorted.sublist (List.dropWhile_sublist _))
    intro u v hu hv hle
    rw [hasleep u hu, hasleep v hv]
    exact hle
  · have hi3 : k₂.idle = some i := by rw [← hidle3, ← hidle4, hi]
    exact (halike.active i).mpr (hidle i hi3)
  · rw [halike.active u, hthr2]
    have hu' : u ∈ expiring k₁ (k.tickCount + 1) ys := hu
    rw [if_pos hu']
    exact Or.inl rfl
  · rw [hcount4, hcount3, hcount2]

/-! ## Going to sleep, and being restarted -/

/-- A thread goes to sleep: it is among the sleepers, with its expiry. -/
theorem Dozers.sleep (h : Dozers k ys) (hact : (k.thr u).state.Active) (hidle : k.idle ≠ some u)
    (cfg : Config) (ms : UInt32) :
    ∃ ys', Dozers (threadSleep cfg k u ms) ys' ∧ (∀ v, v ∈ ys' ↔ v = u ∨ v ∈ ys)
      ∧ (threadSleep cfg k u ms).thr = Function.update k.thr u { k.thr u with
          timeout := k.tickCount + msToTicks cfg ms, state := .sleeping }
      ∧ (threadSleep cfg k u ms).tickCount = k.tickCount := by
  obtain ⟨qs, hp⟩ := h.placed
  have hu : u ∉ ys := fun hin => h.quiet u hin hact
  obtain ⟨qs', haway⟩ := hp.dequeue hact
  obtain ⟨ys₁, hp'⟩ := haway.sleep hu (k.tickCount + msToTicks cfg ms)
  obtain ⟨pre, post, rfl, hrep, hpre, hpost⟩ :=
    sleep_rep haway.sleepers hu (k.tickCount + msToTicks cfg ms)
  obtain rfl : ys₁ = pre ++ u :: post := hp'.sleepers.unique hrep
  have hthr : (threadSleep cfg k u ms).thr = Function.update k.thr u { k.thr u with
      timeout := k.tickCount + msToTicks cfg ms, state := .sleeping } := rfl
  have hself : (threadSleep cfg k u ms).thr u = { k.thr u with
      timeout := k.tickCount + msToTicks cfg ms, state := .sleeping } := by
    rw [hthr, Function.update_self]
  have hother : ∀ v ∈ pre ++ post, (threadSleep cfg k u ms).thr v = k.thr v := fun v hv => by
    have hvu : v ≠ u := fun he => hu (he ▸ hv)
    rw [hthr, Function.update_of_ne hvu]
  refine ⟨pre ++ u :: post,
    ⟨⟨qs', hp'⟩, fun v hv => ?_, ?_, fun i hi => ?_⟩, fun v => ?_, hthr, rfl⟩
  · rcases List.mem_cons.mp (List.perm_middle.mem_iff.mp hv) with rfl | hv
    · rw [hself]
      exact not_active_sleeping
    · rw [hother v hv]
      exact h.quiet v hv
  · exact insert_by_expiry h.sorted hpre (longer_behind h.sorted hpost) (by rw [hself]) hother
  · have hiu : i ≠ u := fun he => hidle (he ▸ hi)
    rw [hthr, Function.update_of_ne hiu]
    exact h.idle i hi
  · rw [List.perm_middle.mem_iff, List.mem_cons]

/-- A sleeper is restarted. -/
theorem Dozers.restart (h : Dozers k ys) (hs : (k.thr u).state = .sleeping) :
    Dozers (threadRestart k u) (ys.erase u) ∧ (∀ v, v ≠ u → (threadRestart k u).thr v = k.thr v)
      ∧ (threadRestart k u).tickCount = k.tickCount := by
  obtain ⟨qs, hp⟩ := h.placed
  have hin : u ∈ ys := hp.asleep u hs
  have hna : ¬ (k.thr u).state.Active := h.quiet u hin
  obtain ⟨qs', hp'⟩ := (((hp.away hna).sleepRemove hin).modThread fun th =>
    { th with priority := th.basePriority, state := .suspended, timeout := 0 }).enqueue
  have hres : threadRestart k u = ((k.sleepRemove u).modThread u fun th =>
      { th with priority := th.basePriority, state := .suspended, timeout := 0 }).schedEnqueue
        u := by
    unfold threadRestart
    rw [if_neg (by rw [hs]; decide), if_pos hs]
  have hother : ∀ v, v ≠ u → (threadRestart k u).thr v = k.thr v := by
    intro v hv
    rw [hres, schedEnqueue_thr, Function.update_of_ne hv, modThread_of_ne _ _ _ hv]
    rfl
  have hne : ∀ v ∈ ys.erase u, v ≠ u ∧ v ∈ ys := fun v hv =>
    hp.sleepers.nodup.mem_erase_iff.mp hv
  refine ⟨⟨⟨qs', ?_⟩, fun v hv => ?_, ?_, fun i hi => ?_⟩, hother, ?_⟩
  · rw [hres]
    exact hp'
  · rw [hother v (hne v hv).1]
    exact h.quiet v (hne v hv).2
  · refine List.Pairwise.imp_of_mem ?_ (h.sorted.sublist List.erase_sublist)
    intro v w hv hw hle
    rw [hother v (hne v hv).1, hother w (hne w hw).1]
    exact hle
  · by_cases hiu : i = u
    · subst hiu
      rw [hres, schedEnqueue_thr, Function.update_self]
      exact Or.inl rfl
    · rw [hother i hiu]
      rw [hres] at hi
      exact h.idle i hi
  · rw [hres]
    rfl

/-! ## What a sleeper sees -/

/-- Something happens elsewhere: the same threads are asleep until the same ticks, and the run
queues agree with the thread states. -/
structure Elsewhere (k k' : Kernel) : Prop where
  count : k'.tickCount = k.tickCount
  placed : ∃ qs, Placed k' qs (listNodes k.sleepNode k.sleepList)
  sleepers : ∀ u ∈ listNodes k.sleepNode k.sleepList,
    ¬ (k'.thr u).state.Active ∧ (k'.thr u).timeout = (k.thr u).timeout
  idle : ∀ i, k'.idle = some i → (k'.thr i).state.Active

/-- `k` becomes `k'`, with `n` runs of the tick handler, and nobody touches the sleeping `t`. -/
inductive Doze (cfg : Config) (t : Tid) : Nat → Kernel → Kernel → Prop where
  | refl (k : Kernel) : Doze cfg t 0 k k
  | tick {n : Nat} {k k' : Kernel} :
    Doze cfg t n k k' → Doze cfg t (n + 1) k (sysTickHandler cfg k')
  | sleep {n : Nat} {k k' : Kernel} (u : Tid) (ms : UInt32) : Doze cfg t n k k' → u ≠ t →
      (k'.thr u).state.Active → k'.idle ≠ some u → Doze cfg t n k (threadSleep cfg k' u ms)
  | restart {n : Nat} {k k' : Kernel} (u : Tid) : Doze cfg t n k k' → u ≠ t →
      (k'.thr u).state = .sleeping → Doze cfg t n k (threadRestart k' u)
  | elsewhere {n : Nat} {k k' k'' : Kernel} : Doze cfg t n k k' → Elsewhere k' k'' →
      Doze cfg t n k k''

/-- The thread is in run queue `p`. -/
def InQueue (k : Kernel) (t : Tid) (p : Prio) : Prop := t ∈ listNodes k.schedNode (k.runQueues p)

/-- `t` stays out of the run queues through the next `n - 1` ticks, and is enqueued by the `n`-th,
whatever happens in between. -/
def SleepsFor (cfg : Config) (t : Tid) (n : Nat) (k : Kernel) : Prop :=
  ∀ m k', Doze cfg t m k k' → m < n → (∀ p, ¬ InQueue k' t p)
    ∧ (m + 1 = n → InQueue (sysTickHandler cfg k') t ((sysTickHandler cfg k').thr t).priority)

theorem Dozers.inQueue (h : Dozers k ys) (t : Tid) (p : Prio) :
    InQueue k t p ↔ (k.thr t).state.Active ∧ (k.thr t).priority = p := by
  obtain ⟨qs, hp⟩ := h.placed
  rw [← hp.agree t p, InQueue,
    (hp.queues.rep p).nodes (length_le_walkBound (hp.queues.rep p).nodup)]

theorem Dozers.listNodes (h : Dozers k ys) : listNodes k.sleepNode k.sleepList = ys := by
  obtain ⟨qs, hp⟩ := h.placed
  exact hp.listNodes

theorem Dozers.elsewhere (h : Dozers k ys) (he : Elsewhere k k') : Dozers k' ys := by
  obtain ⟨-, hplaced, hsleepers, hidle⟩ := he
  rw [h.listNodes] at hplaced hsleepers
  refine ⟨hplaced, fun u hu => (hsleepers u hu).1, ?_, hidle⟩
  refine h.sorted.imp_of_mem fun {u v} hu hv hle => ?_
  rw [(hsleepers u hu).2, (hsleepers v hv).2]
  exact hle

/-- Whoever is due is at the front. -/
theorem mem_expiring {now : UInt32} : ∀ {ys : List Tid},
    (ys.Pairwise fun u v => (k.thr u).timeout ≤ (k.thr v).timeout) → t ∈ ys →
    (k.thr t).timeout ≤ now → t ∈ expiring k now ys
  | [], _, ht, _ => absurd ht List.not_mem_nil
  | y :: ys, hsorted, ht, hdue => by
      obtain ⟨hfirst, hrest⟩ := List.pairwise_cons.mp hsorted
      have hy : (k.thr y).timeout ≤ now := by
        rcases List.mem_cons.mp ht with rfl | ht
        · exact hdue
        · exact UInt32.le_trans (hfirst t ht) hdue
      have hcons : expiring k now (y :: ys) = y :: expiring k now ys := by
        simp [expiring, hy]
      rw [hcons]
      rcases List.mem_cons.mp ht with rfl | ht
      · exact List.mem_cons_self
      · exact List.mem_cons_of_mem _ (mem_expiring hrest ht hdue)

/-- Whoever is not due is left asleep. -/
theorem mem_dozing {now : UInt32} (ht : t ∈ ys) (hlate : ¬ (k.thr t).timeout ≤ now) :
    t ∈ dozing k now ys := by
  rw [← expiring_append_dozing k now ys] at ht
  rcases List.mem_append.mp ht with hexp | hdoz
  · have hdue := List.mem_takeWhile_imp hexp
    exact absurd (of_decide_eq_true hdue) hlate
  · exact hdoz

/-- The thread sleeps until the counter is at `expiry`; the counter is `m` ticks past `start`. -/
structure Sleeping (t : Tid) (start expiry : UInt32) (m : Nat) (k : Kernel) : Prop where
  dozers : ∃ ys, Dozers k ys ∧ t ∈ ys
  expiry : (k.thr t).timeout = expiry
  count : k.tickCount.toNat = (start.toNat + m) % 2 ^ 32

variable {start expiry : UInt32} {m n : Nat}

theorem Sleeping.out (h : Sleeping t start expiry m k) (p : Prio) : ¬ InQueue k t p := by
  obtain ⟨ys, hd, ht⟩ := h.dozers
  rw [hd.inQueue t p]
  exact fun hin => hd.quiet t ht hin.1

/-- The tick that reaches the expiry enqueues the thread. -/
theorem Sleeping.wakes (h : Sleeping t start expiry m k) (hdue : expiry ≤ k.tickCount + 1) :
    InQueue (sysTickHandler cfg k) t ((sysTickHandler cfg k).thr t).priority := by
  obtain ⟨ys, hd, ht⟩ := h.dozers
  obtain ⟨hd', hwoken, -, -⟩ : Ticked k (sysTickHandler cfg k) ys := hd.tick
  rw [hd'.inQueue]
  refine ⟨hwoken t (mem_expiring hd.sorted ht ?_), rfl⟩
  rw [h.expiry]
  exact hdue

theorem count_succ (h : k.tickCount.toNat = (start.toNat + m) % 2 ^ 32) :
    (k.tickCount + 1).toNat = (start.toNat + (m + 1)) % 2 ^ 32 := by
  have hone : (1 : UInt32).toNat = 1 := rfl
  rw [UInt32.toNat_add, h, hone]
  omega

/-- An earlier tick leaves it asleep. -/
theorem Sleeping.tick (h : Sleeping t start expiry m k) (hlate : ¬ expiry ≤ k.tickCount + 1) :
    Sleeping t start expiry (m + 1) (sysTickHandler cfg k) := by
  obtain ⟨ys, hd, ht⟩ := h.dozers
  obtain ⟨hd', -, hasleep, hcount⟩ : Ticked k (sysTickHandler cfg k) ys := hd.tick
  have hin : t ∈ dozing k (k.tickCount + 1) ys := mem_dozing ht (by rw [h.expiry]; exact hlate)
  refine ⟨⟨_, hd', hin⟩, ?_, ?_⟩
  · rw [hasleep t hin]
    exact h.expiry
  · rw [hcount]
    exact count_succ h.count

/-- **As long as no tick reaches the expiry, the thread sleeps**, whatever else happens. -/
theorem Sleeping.doze {k₀ : Kernel} (h : Sleeping t start expiry 0 k₀)
    (hlate : ∀ j, j + 1 < n → ∀ now : UInt32, now.toNat = (start.toNat + (j + 1)) % 2 ^ 32 →
      ¬ expiry ≤ now) (hd : Doze cfg t m k₀ k) : m < n → Sleeping t start expiry m k := by
  induction hd with
  | refl k => exact fun _ => h
  | tick _ ih =>
      intro hm
      have hprev := ih h (Nat.lt_of_succ_lt hm)
      exact hprev.tick (hlate _ hm _ (count_succ hprev.count))
  | sleep u ms _ hut hact hidle ih =>
      intro hm
      obtain ⟨⟨ys, hdz, ht⟩, hexp, hcount⟩ := ih h hm
      obtain ⟨ys', hdz', hmem, hthr, hsame⟩ := hdz.sleep hact hidle cfg ms
      refine ⟨⟨ys', hdz', (hmem t).mpr (Or.inr ht)⟩, ?_, ?_⟩
      · rw [hthr, Function.update_of_ne hut.symm]
        exact hexp
      · rw [hsame]
        exact hcount
  | restart u _ hut hs ih =>
      intro hm
      obtain ⟨⟨ys, hdz, ht⟩, hexp, hcount⟩ := ih h hm
      obtain ⟨hdz', hother, hsame⟩ := hdz.restart hs
      refine ⟨⟨_, hdz', (List.mem_erase_of_ne hut.symm).mpr ht⟩, ?_, ?_⟩
      · rw [hother t hut.symm]
        exact hexp
      · rw [hsame]
        exact hcount
  | elsewhere _ he ih =>
      intro hm
      obtain ⟨⟨ys, hdz, ht⟩, hexp, hcount⟩ := ih h hm
      refine ⟨⟨ys, hdz.elsewhere he, ht⟩, ?_, ?_⟩
      · rw [(he.sleepers t (by rw [hdz.listNodes]; exact ht)).2]
        exact hexp
      · rw [he.count]
        exact hcount

/--
**When a sleeper wakes at the right tick.**

From any consistent state, with any threads asleep: a thread that calls `vibe_thread_sleep`
for `n` ticks stays out of the run queues through the next `n - 1` ticks and is enqueued by
the `n`-th, if and only if the expiry is before the wrap of the tick counter or the counter
is about to wrap.
-/
theorem thread_sleep_iff {cfg : Config} {k : Kernel} {ys : List Tid} {t : Tid} {ms : UInt32}
    (h : Dozers k ys) (hact : (k.thr t).state.Active) (hidle : k.idle ≠ some t)
    (hpos : 1 ≤ (msToTicks cfg ms).toNat) (hlt : (msToTicks cfg ms).toNat < 2 ^ 31) :
    SleepsFor cfg t (msToTicks cfg ms).toNat (threadSleep cfg k t ms)
      ↔ k.tickCount.toNat + (msToTicks cfg ms).toNat < 2 ^ 32
        ∨ k.tickCount.toNat + 1 = 2 ^ 32 := by
  obtain ⟨ys', hd, hmem, hthr, hcount⟩ := h.sleep hact hidle cfg ms
  have hT : k.tickCount.toNat < 2 ^ 32 := k.tickCount.toNat_lt
  have hexpiry : (k.tickCount + msToTicks cfg ms).toNat
      = (k.tickCount.toNat + (msToTicks cfg ms).toNat) % 2 ^ 32 := UInt32.toNat_add _ _
  have hstart : Sleeping t k.tickCount (k.tickCount + msToTicks cfg ms) 0
    (threadSleep cfg k t ms) := by
    refine ⟨⟨ys', hd, (hmem t).mpr (Or.inl rfl)⟩, ?_, ?_⟩
    · rw [hthr, Function.update_self]
    · rw [hcount, Nat.add_zero, Nat.mod_eq_of_lt hT]
  generalize hn : (msToTicks cfg ms).toNat = n at *
  generalize k.tickCount + msToTicks cfg ms = expiry at *
  constructor
  · intro hsleeps
    by_contra hnot
    obtain ⟨hwrap, hlast⟩ := not_or.mp hnot
    -- the expiry lies behind the wrap, the first tick does not
    have hdue : expiry ≤ (threadSleep cfg k t ms).tickCount + 1 := by
      refine UInt32.le_iff_toNat_le.mpr ?_
      rw [count_succ hstart.count, hexpiry]
      omega
    have hout := (hsleeps 1 _ (Doze.tick (Doze.refl _)) (by omega)).1
    exact hout _ (hstart.wakes hdue)
  · intro hok m k' hdoze hm
    have hlate : ∀ j, j + 1 < n → ∀ now : UInt32,
        now.toNat = (k.tickCount.toNat + (j + 1)) % 2 ^ 32 → ¬ expiry ≤ now := by
      intro j hj now hnow hle
      have hle' := UInt32.le_iff_toNat_le.mp hle
      rw [hexpiry, hnow] at hle'
      omega
    have hnow := hstart.doze hlate hdoze hm
    refine ⟨hnow.out, fun hlast => hnow.wakes ?_⟩
    refine UInt32.le_iff_toNat_le.mpr ?_
    rw [count_succ hnow.count, hexpiry, hlast]

/-- One thread is ready, and nobody sleeps. -/
theorem exists_dozers (cfg : Config) (tick : UInt32) : ∃ k : Kernel, Dozers k []
    ∧ (k.thr 0).state.Active ∧ k.idle ≠ some 0 ∧ k.tickCount = tick := by
  let k : Kernel := { bss cfg (fun _ => threadDefine [] 256 1 0 0 0) none with tickCount := tick }
  have hp : Placed k (fun _ => []) [] := by
    refine ⟨⟨fun _ => listRep_init _, ?_, ?_⟩, ?_, listRep_init _, ?_⟩
    · intro p q t ht
      exact absurd ht List.not_mem_nil
    · intro p
      simp [k, bss]
    · intro u p
      have hs : (k.thr u).state = .suspended := rfl
      rw [hs]
      simp [not_active_suspended]
    · intro u hu
      exact absurd hu (by simp [k, bss, threadDefine])
  have hna : ¬ (k.thr 0).state.Active := not_active_suspended
  obtain ⟨qs, hp'⟩ := (hp.away hna).enqueue
  refine ⟨k.schedEnqueue 0, ⟨⟨qs, hp'⟩, fun u hu => absurd hu List.not_mem_nil, List.Pairwise.nil,
    fun i hi => absurd hi (by simp [k, bss, schedEnqueue])⟩, ?_, by simp [k, bss, schedEnqueue],
      rfl⟩
  rw [schedEnqueue_thr, Function.update_self]
  exact Or.inl rfl

/-- Five milliseconds from tick 10. -/
theorem thread_sleep_iff_five : ∃ k : Kernel, k.tickCount = 10
    ∧ SleepsFor ⟨1000, 10, true⟩ 0 5 (threadSleep ⟨1000, 10, true⟩ k 0 5) := by
  obtain ⟨k, hd, hact, hidle, hcount⟩ := exists_dozers ⟨1000, 10, true⟩ 10
  have hfive : (msToTicks ⟨1000, 10, true⟩ 5).toNat = 5 := by decide
  refine ⟨k, hcount, ?_⟩
  have h : SleepsFor _ 0 (msToTicks ⟨1000, 10, true⟩ 5).toNat _ ↔ _ :=
    thread_sleep_iff hd hact hidle (by decide) (by decide)
  rw [hfive, hcount] at h
  exact h.mpr (by decide)

/-- Five milliseconds from the last tick but one: the first tick ends them. -/
theorem sleep_ends_at_wrap : ∃ k : Kernel, Dozers k [] ∧ (k.thr 0).state.Active
    ∧ k.idle ≠ some 0 ∧ k.tickCount = 0xFFFFFFFE
    ∧ InQueue (sysTickHandler ⟨1000, 10, true⟩ (threadSleep ⟨1000, 10, true⟩ k 0 5)) 0
        ((sysTickHandler ⟨1000, 10, true⟩ (threadSleep ⟨1000, 10, true⟩ k 0 5)).thr 0).priority
    ∧ ¬ SleepsFor ⟨1000, 10, true⟩ 0 5 (threadSleep ⟨1000, 10, true⟩ k 0 5) := by
  obtain ⟨k, hd, hact, hidle, hcount⟩ := exists_dozers ⟨1000, 10, true⟩ 0xFFFFFFFE
  obtain ⟨ys', hd', hmem, hthr, hsame⟩ := hd.sleep hact hidle ⟨1000, 10, true⟩ 5
  have hstart : Sleeping 0 0xFFFFFFFE 3 0 (threadSleep ⟨1000, 10, true⟩ k 0 5) := by
    refine ⟨⟨ys', hd', (hmem 0).mpr (Or.inl rfl)⟩, ?_, ?_⟩
    · have hexpiry : 0xFFFFFFFE + msToTicks ⟨1000, 10, true⟩ 5 = 3 := by decide
      rw [hthr, Function.update_self, hcount]
      exact hexpiry
    · rw [hsame, hcount]
      decide
  have hwakes : InQueue (sysTickHandler ⟨1000, 10, true⟩ _) 0 _ :=
    hstart.wakes (by rw [hsame, hcount]; decide)
  refine ⟨k, hd, hact, hidle, hcount, hwakes, fun hsleeps => ?_⟩
  exact (hsleeps 1 _ (Doze.tick (Doze.refl _)) (by decide)).1 _ hwakes

end VibeRtos
