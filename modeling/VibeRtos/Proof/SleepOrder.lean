import VibeRtos.Kernel.SleepSystem
import VibeRtos.Proof.Placement
import VibeRtos.Lib.Runs

/-!
# The order of the sleep list

`_vibe_sched_sleep` links a thread before the first one that is to sleep longer, and
`_vibe_sched_wake_expired` stops at the first one whose time has not come. The list holds the
sleepers by expiry, first come first among equals, so that the front the loop takes off is
everyone whose time has come.
-/

namespace VibeRtos

open Links Kernel PrioFifo Runs

namespace SleepSys

/-- The sleep list holds `ys`: by expiry, and in the order of the calls among equals. -/
structure InOrder (s : SleepSys) (ys : List Tid) : Prop where
  rep : ListRep s.k.sleepNode s.k.sleepList ys
  sorted : ys.Pairwise fun u v => (s.k.thr u).timeout ≤ (s.k.thr v).timeout
  arrival : ∀ expiry, ys.filter (fun u => (s.k.thr u).timeout = expiry) = fifo s.log expiry

/-- `_vibe_sched_next_wakeup` is the earliest expiry of a sleeper. -/
structure Earliest (s : SleepSys) : Prop where
  none : s.log = [] → s.k.schedNextWakeup = waitForever
  some : s.log ≠ [] → (∃ t, (t, s.k.schedNextWakeup) ∈ s.log)
    ∧ ∀ e ∈ s.log, s.k.schedNextWakeup ≤ e.2

end SleepSys

/-- Of the sleepers `ys` of `k`, those whose time has come at `now`. -/
def dueAt (k : Kernel) (now : UInt32) (ys : List Tid) : List Tid :=
  ys.filter fun u => (k.thr u).timeout ≤ now

/-- And the others. -/
def notDueAt (k : Kernel) (now : UInt32) (ys : List Tid) : List Tid :=
  ys.filter fun u => ¬ (k.thr u).timeout ≤ now

/-- `k'` is `k` with everyone woken whose time has come, in the order of the list. -/
structure Woken (k k' : Kernel) (ys : List Tid) (now : UInt32) : Prop where
  rest : ListRep k'.sleepNode k'.sleepList (notDueAt k now ys)
  same : ∀ u ∈ notDueAt k now ys, k'.thr u = k.thr u
  enqueued : k' = { (dueAt k now ys).foldl schedEnqueue k with
    sleepNode := k'.sleepNode
    sleepList := k'.sleepList }
  queues : ∀ qs, QueuesRep k qs → (∀ u ∈ dueAt k now ys, ∀ p, u ∉ qs p) →
    QueuesRep k' fun p => qs p ++ (dueAt k now ys).filter fun u => (k.thr u).priority = p

variable {k k' : Kernel} {ys : List Tid} {t u : Tid}

/-! ## Enqueueing one after the other -/

/-- Enqueueing does not read the sleep list. -/
theorem foldl_enqueue_relink (nodes : Tid → Link Tid) (list : VList Tid) :
    ∀ (us : List Tid) (k : Kernel),
      us.foldl schedEnqueue { k with sleepNode := nodes, sleepList := list }
        = { us.foldl schedEnqueue k with sleepNode := nodes, sleepList := list }
  | [], _ => rfl
  | u :: us, k => foldl_enqueue_relink nodes list us (k.schedEnqueue u)

theorem foldl_enqueue_thr : ∀ (us : List Tid) (k : Kernel), u ∉ us →
    (us.foldl schedEnqueue k).thr u = k.thr u
  | [], _, _ => rfl
  | v :: us, k, hu => by
      rw [List.foldl_cons, foldl_enqueue_thr us _ (List.not_mem_of_not_mem_cons hu),
        schedEnqueue_thr,
        Function.update_of_ne (List.ne_of_not_mem_cons hu)]

/-- Each thread goes to the end of the queue of its priority. -/
theorem QueuesRep.foldl_enqueue {us : List Tid} {qs : Prio → List Tid} (h : QueuesRep k qs)
    (hnd : us.Nodup) (hout : ∀ u ∈ us, ∀ p, u ∉ qs p) :
    QueuesRep (us.foldl schedEnqueue k)
      fun p => qs p ++ us.filter fun u => (k.thr u).priority = p := by
  induction us generalizing k qs with
  | nil => simpa using h
  | cons t us ih =>
      obtain ⟨ht, hus⟩ := List.nodup_cons.mp hnd
      have hnew := h.enqueue (hout t List.mem_cons_self)
      have hout' : ∀ u ∈ us, ∀ p, u ∉ Function.update qs (k.thr t).priority
          (qs (k.thr t).priority ++ [t]) p := by
        intro u hu p hmem
        have hne : u ≠ t := fun he => ht (he ▸ hu)
        have hold := hout u (List.mem_cons_of_mem _ hu)
        rw [Function.update_apply] at hmem
        split at hmem
        · rcases List.mem_append.mp hmem with hm | hm
          · exact hold _ hm
          · exact hne (List.mem_singleton.mp hm)
        · exact hold _ hmem
      -- the priorities of those that follow are not written
      have hprio : ∀ u ∈ us, ((k.schedEnqueue t).thr u).priority = (k.thr u).priority := by
        intro u hu
        have hne : u ≠ t := fun he => ht (he ▸ hu)
        rw [schedEnqueue_thr, Function.update_of_ne hne]
      have hseq : (fun p => Function.update qs (k.thr t).priority (qs (k.thr t).priority ++ [t]) p
            ++ us.filter fun u => ((k.schedEnqueue t).thr u).priority = p)
          = fun p => qs p ++ (t :: us).filter fun u => (k.thr u).priority = p := by
        funext p
        rw [List.filter_congr (q := fun u => decide ((k.thr u).priority = p)) fun u hu => by
          rw [hprio u hu], Function.update_apply]
        by_cases hp : p = (k.thr t).priority
        · simp [hp]
        · simp [hp, Ne.symm hp]
      rw [← hseq]
      exact ih hnew hus hout'

/-! ## The loop -/

/-- The loop takes the front off the list and enqueues it in order. -/
theorem wakeLoop_front (now : UInt32) : ∀ {ys : List Tid} {fuel : Nat} {k : Kernel},
    ListRep k.sleepNode k.sleepList ys → ys.length < fuel →
    ∃ nodes list, wakeLoop now fuel k ys.head?
        = { (expiring k now ys).foldl schedEnqueue k with sleepNode := nodes, sleepList := list }
      ∧ ListRep nodes list (dozing k now ys) := by
  intro ys
  induction ys with
  | nil =>
      intro fuel k h _
      refine ⟨k.sleepNode, k.sleepList, ?_, h⟩
      cases fuel <;> rfl
  | cons t rest ih =>
      intro fuel k h hfuel
      obtain ⟨fuel, rfl⟩ := Nat.exists_eq_succ_of_ne_zero (Nat.ne_zero_of_lt hfuel)
      have hnext : (k.sleepNode t).next = rest.head? := by
        rw [h.chain.1]
        simp
      rw [List.head?_cons, wakeLoop]
      by_cases hdue : (k.thr t).timeout ≤ now
      · have hexpiring : expiring k now (t :: rest) = t :: expiring k now rest := by
          simp [expiring, hdue]
        have hdozing : dozing k now (t :: rest) = dozing k now rest := by
          simp [dozing, hdue]
        have hnd : t ∉ rest := (List.nodup_cons.mp h.nodup).1
        let k₁ := (k.sleepRemove t).schedEnqueue t
        have hrep : ListRep k₁.sleepNode k₁.sleepList rest := by
          have hr := h.remove_erase (n := t) List.mem_cons_self
          rwa [List.erase_cons_head] at hr
        -- the others read the same expiries
        have htimeout : ∀ u ∈ rest, (k₁.thr u).timeout = (k.thr u).timeout := by
          intro u hu
          have hne : u ≠ t := fun he => hnd (he ▸ hu)
          simp [k₁, hne]
        obtain ⟨nodes, list, heq, hlist⟩ := ih hrep (Nat.lt_of_succ_lt_succ hfuel)
        rw [expiring_congr htimeout] at heq
        rw [dozing_congr htimeout] at hlist
        rw [if_pos hdue, hnext, hexpiring, hdozing]
        refine ⟨nodes, list, ?_, hlist⟩
        have hk₁ : k₁ = { k.schedEnqueue t with
          sleepNode := (k.sleepRemove t).sleepNode
          sleepList := (k.sleepRemove t).sleepList } := rfl
        rw [heq, hk₁, foldl_enqueue_relink, List.foldl_cons]
      · have hexpiring : expiring k now (t :: rest) = [] := by simp [expiring, hdue]
        have hdozing : dozing k now (t :: rest) = t :: rest := by simp [dozing, hdue]
        rw [if_neg hdue, hexpiring, hdozing]
        exact ⟨k.sleepNode, k.sleepList, rfl, h⟩

theorem urgency_eq {expiry : UInt32} :
    urgency k t = OrderDual.toDual expiry.toNat ↔ (k.thr t).timeout = expiry := by
  rw [urgency, OrderDual.toDual_inj]
  exact UInt32.toNat_inj

/-- By expiry: the sleepers in front of the loop's early exit are all whose time has come. -/
theorem expiring_eq (now : UInt32)
    (h : ys.Pairwise fun u v => (k.thr u).timeout ≤ (k.thr v).timeout) :
    expiring k now ys = dueAt k now ys ∧ dozing k now ys = notDueAt k now ys := by
  have hsorted : Sorted (urgency k) ys := h.imp fun hle => urgency_le.mpr hle
  have hle : ∀ u, (OrderDual.toDual now.toNat ≤ urgency k u) = ((k.thr u).timeout ≤ now) :=
    fun u => propext UInt32.le_iff_toNat_le.symm
  have htake := hsorted.takeWhile_eq (OrderDual.toDual now.toNat)
  have hdrop := hsorted.dropWhile_eq (OrderDual.toDual now.toNat)
  simp only [hle] at htake hdrop
  exact ⟨htake, hdrop⟩

namespace SleepSys

variable {s s' : SleepSys} {now expiry : UInt32}

/-- **Waking** takes exactly those whose time has come, in order. -/
theorem InOrder.woken (h : s.InOrder ys) (now : UInt32) :
    Woken s.k (s.k.schedWakeExpired now) ys now := by
  -- there are fewer threads than rounds
  have hlen : ys.length < walkBound := by
    refine lt_of_le_of_lt h.rep.nodup.length_le_card ?_
    rw [Fintype.card_fin]
    decide
  obtain ⟨hdue, hrest⟩ := expiring_eq now h.sorted
  obtain ⟨nodes, list, heq, hlist⟩ := wakeLoop_front now h.rep hlen
  rw [hdue] at heq
  rw [hrest] at hlist
  have hk : s.k.schedWakeExpired now = { (dueAt s.k now ys).foldl schedEnqueue s.k with
      sleepNode := nodes, sleepList := list } := by
    rw [schedWakeExpired, h.rep.head, heq]
  rw [hk]
  -- only those whose time has come are written
  refine ⟨hlist, fun u hu => foldl_enqueue_thr _ _ fun hmem => ?_, rfl, fun qs hqs hout => ?_⟩
  · have hnot := (List.mem_filter.mp hu).2
    have hyes := (List.mem_filter.mp hmem).2
    simp only [decide_eq_true_eq] at hnot hyes
    exact hnot hyes
  · exact (hqs.foldl_enqueue (h.rep.nodup.filter _) hout).congr rfl rfl rfl

/-- The sleepers are those on record. -/
theorem InOrder.mem_log (h : s.InOrder ys) :
    (t, expiry) ∈ s.log ↔ t ∈ ys ∧ (s.k.thr t).timeout = expiry := by
  rw [← mem_fifo, ← h.arrival, List.mem_filter]
  simp

/-- Only the list, the expiries in it and the record matter. -/
theorem InOrder.congr (h : s.InOrder ys) (hlist : s'.k.sleepList = s.k.sleepList)
    (hnode : ∀ u ∈ ys, s'.k.sleepNode u = s.k.sleepNode u)
    (htimeout : ∀ u ∈ ys, (s'.k.thr u).timeout = (s.k.thr u).timeout) (hlog : s'.log = s.log) :
    s'.InOrder ys where
  rep := by
    rw [hlist]
    exact h.rep.congr hnode
  sorted := h.sorted.imp_of_mem fun {u v} hu hv hle => by
    rw [htimeout u hu, htimeout v hv]
    exact hle
  arrival e := by
    rw [hlog, ← h.arrival]
    exact List.filter_congr fun u hu => by rw [htimeout u hu]

/-- A thread goes to sleep behind those that are not to sleep longer. -/
theorem InOrder.sleep (h : s.InOrder ys) (ht : t ∉ ys) (expiry : UInt32) :
    ∃ ys', InOrder ⟨s.k.schedSleep t expiry, arrive s.log t expiry⟩ ys' := by
  obtain ⟨pre, post, rfl, hrep, hpre, hpost⟩ := sleep_rep h.rep ht expiry
  let k' := s.k.schedSleep t expiry
  have hself : (k'.thr t).timeout = expiry := by simp [k', schedSleep]
  have hother : ∀ u ∈ pre ++ post, k'.thr u = s.k.thr u := by
    intro u hu
    have hne : u ≠ t := fun he => ht (he ▸ hu)
    simp [k', schedSleep, hne]
  have hbehind := longer_behind h.sorted hpost
  have hbehind' : ∀ u ∈ post, urgency k' u < urgency k' t := by
    intro u hu
    rw [urgency_lt, hself, hother u (List.mem_append_right _ hu)]
    exact hbehind u hu
  refine ⟨pre ++ t :: post, hrep, insert_by_expiry h.sorted hpre hbehind hself hother, fun e => ?_⟩
  have hins : (pre ++ t :: post).filter (fun u => urgency k' u = OrderDual.toDual e.toNat) = _ :=
    filter_insert hbehind' _
  have hkeep : (pre ++ post).filter (fun u => (k'.thr u).timeout = e)
      = (pre ++ post).filter fun u => (s.k.thr u).timeout = e :=
    List.filter_congr fun u hu => by rw [hother u hu]
  have hmine : (OrderDual.toDual e.toNat = urgency k' t) = (e = expiry) :=
    propext (eq_comm.trans (urgency_eq.trans (by rw [hself, eq_comm])))
  simp only [urgency_eq, hmine, hkeep] at hins
  show _ = fifo (arrive s.log t expiry) e
  rw [fifo_arrive, ← h.arrival e]
  exact hins

/-- The threads that are woken are taken off the record. -/
theorem InOrder.wake (h : s.InOrder ys) (now : UInt32) :
    InOrder ⟨s.k.schedWakeExpired now, s.log.filter fun e => ¬ e.2 ≤ now⟩
      (notDueAt s.k now ys) := by
  have hw := h.woken now
  refine ⟨hw.rest, ?_, fun e => ?_⟩
  · refine (h.sorted.filter _).imp_of_mem fun {u v} hu hv hle => ?_
    rw [hw.same u hu, hw.same v hv]
    exact hle
  · have hlog := fifo_filter s.log (fun e => decide ¬ e ≤ now) e
    rw [hlog, ← h.arrival e, List.filter_congr fun u hu => by rw [hw.same u hu], notDueAt,
      List.filter_filter]
    -- either all with this expiry are woken or none
    split
    · rename_i hstays
      refine List.filter_congr fun u _ => ?_
      by_cases hu : (s.k.thr u).timeout = e
      · simpa [hu] using hstays
      · simp [hu]
    · rename_i hleaves
      refine List.filter_eq_nil_iff.mpr fun u _ => ?_
      by_cases hu : (s.k.thr u).timeout = e
      · simpa [hu] using hleaves
      · simp [hu]

/-- One step. -/
theorem InOrder.step {l : Label} (h : s.InOrder ys) (hs : s.step l = some s') :
    ∃ ys', s'.InOrder ys' := by
  have hnodes : listNodes s.k.sleepNode s.k.sleepList = ys :=
    h.rep.nodes (length_le_walkBound h.rep.nodup)
  cases l with
  | sleep t expiry =>
      rw [SleepSys.step, hnodes] at hs
      split at hs
      · exact absurd hs (by simp)
      · rename_i ht
        obtain rfl := Option.some.inj hs
        exact h.sleep ht expiry
  | wake now =>
      obtain rfl := Option.some.inj hs
      exact ⟨_, h.wake now⟩
  | elsewhere k =>
      obtain rfl := Option.some.inj hs
      refine ⟨ys, h.congr rfl (fun u hu => ?_) (fun u hu => ?_) rfl⟩
      · simp only [outside, hnodes, if_pos hu]
      · simp only [outside, hnodes, if_pos hu]

/-- The head of the list expires first. -/
theorem InOrder.earliest (h : s.InOrder ys) : s.Earliest := by
  have hmem : ∀ {e : Tid × UInt32}, e ∈ s.log ↔ e.1 ∈ ys ∧ (s.k.thr e.1).timeout = e.2 := h.mem_log
  have hhead : s.k.sleepList.head = ys.head? := h.rep.head
  cases ys with
  | nil =>
      have hnext : s.k.schedNextWakeup = waitForever := by
        simp [schedNextWakeup, listPeekHead, hhead]
      have hempty : s.log = [] := List.eq_nil_iff_forall_not_mem.mpr fun e he =>
        List.not_mem_nil (hmem.mp he).1
      exact ⟨fun _ => hnext, fun hne => absurd hempty hne⟩
  | cons t rest =>
      have hnext : s.k.schedNextWakeup = (s.k.thr t).timeout := by
        simp [schedNextWakeup, listPeekHead, hhead]
      have hfirst : (t, (s.k.thr t).timeout) ∈ s.log := hmem.mpr ⟨List.mem_cons_self, rfl⟩
      refine ⟨fun he => absurd (he ▸ hfirst) List.not_mem_nil, fun _ => ?_⟩
      rw [hnext]
      refine ⟨⟨t, hfirst⟩, fun e he => ?_⟩
      obtain ⟨hin, htimeout⟩ := hmem.mp he
      rw [← htimeout]
      rcases List.mem_cons.mp hin with heq | hin
      · rw [heq]
        exact UInt32.le_refl _
      · exact (List.pairwise_cons.mp h.sorted).1 e.1 hin

/--
**The sleep list is in order, and waking is exact.**

After every sequence of `_vibe_sched_sleep` and `_vibe_sched_wake_expired` calls, with anything in
between that leaves the sleep list alone, the list holds each sleeper once, by expiry and first
come first; `_vibe_sched_next_wakeup` is the earliest expiry; and waking at any tick takes off and
enqueues, in order, exactly those whose time has come.
-/
theorem sleep_list_exact {labels : List Label} (hlist : s.k.sleepList = listInit)
    (hlog : s.log = []) (hrun : run SleepSys.step s labels = some s') :
    ∃ ys, s'.InOrder ys ∧ s'.Earliest
      ∧ ∀ now, Woken s'.k (s'.k.schedWakeExpired now) ys now := by
  have hinit : s.InOrder [] := by
    refine ⟨?_, List.Pairwise.nil, fun e => ?_⟩
    · rw [hlist]
      exact listRep_init _
    · rw [hlog]
      rfl
  obtain ⟨ys, h⟩ : ∃ ys, s'.InOrder ys :=
    run_invariant (P := fun s => ∃ ys, s.InOrder ys) (fun _ _ _ ⟨_, h⟩ hs => h.step hs) ⟨[], hinit⟩
      hrun
  exact ⟨ys, h, h.earliest, h.woken⟩

/-- Thread 2 wakes at tick 4; 1 and 3 sleep on, in the order of their calls. -/
theorem sleep_list_exact_three : ∃ s', run SleepSys.step
      ⟨bss ⟨1000, 10, true⟩ (fun _ => threadDefine [] 256 1 0 0 0) none, []⟩
      [.sleep 1 5, .sleep 2 3, .sleep 3 5, .wake 4] = some s'
    ∧ s'.log = [(1, 5), (3, 5)] ∧ ∃ ys, s'.InOrder ys ∧ s'.Earliest
    ∧ ∀ now, Woken s'.k (s'.k.schedWakeExpired now) ys now := by
  obtain ⟨s', hrun, hlog⟩ : ∃ s', run SleepSys.step
      ⟨bss ⟨1000, 10, true⟩ (fun _ => threadDefine [] 256 1 0 0 0) none, []⟩
      [.sleep 1 5, .sleep 2 3, .sleep 3 5, .wake 4] = some s' ∧ s'.log = [(1, 5), (3, 5)] :=
    ⟨_, rfl, by decide⟩
  exact ⟨s', hrun, hlog, sleep_list_exact rfl rfl hrun⟩

end SleepSys

end VibeRtos
