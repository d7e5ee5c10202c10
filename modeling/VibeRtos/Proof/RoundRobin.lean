import VibeRtos.Proof.OrderlyRuns

/-!
# Round robin

The current thread shares its priority with another one, and nothing but the tick
happens. The slice is counted down only while the current thread is marked RUNNING, and a
reschedule hands the CPU to the head of the highest queue. So the CPU changes hands within
a slice unless the current thread is marked READY and is the head itself: then the
countdown stands still and the reschedule finds nothing to do, for good.
-/

namespace VibeRtos

open Links Kernel Runs

/-- The time slice in ticks; the countdown treats 0 as 1. -/
def sliceTicks (cfg : Config) : Nat := max 1 (msToTicks cfg cfg.timesliceMs).toNat

/-- The state after `n` runs of the tick handler. -/
def ticks (cfg : Config) : Nat → Kernel → Kernel
  | 0, k => k
  | n + 1, k => ticks cfg n (sysTickHandler cfg k)

/-- The current thread `t` shares the highest ready priority with another thread, and no sleeper
expires for `n` ticks. -/
structure Contended (cfg : Config) (n : Nat) (k : Kernel) (t : Tid) : Prop where
  enabled : cfg.timesliceMs ≠ 0
  unlocked : k.schedLockCount = 0
  current : k.current = some t
  active : (k.thr t).state.Active
  top : ∀ u, (k.thr u).state.Active → (k.thr u).priority ≤ (k.thr t).priority
  rival : ∃ u, u ≠ t ∧ (k.thr u).state.Active ∧ (k.thr u).priority = (k.thr t).priority
  calm : ∀ i, i < n → expiring k (k.tickCount + UInt32.ofNat (i + 1))
    (listNodes k.sleepNode k.sleepList) = []

/-- Within `n` ticks, the CPU goes to another thread of the priority of `t`. -/
def TakesTurns (cfg : Config) (n : Nat) (k : Kernel) (t : Tid) : Prop :=
  ∃ i, i ≤ n ∧ ∃ u, u ≠ t ∧ (ticks cfg i k).current = some u
    ∧ ((ticks cfg i k).thr u).priority = (k.thr t).priority

variable {cfg : Config} {k k' : Kernel} {qs : Prio → List Tid} {ys : List Tid} {t u : Tid}
  {n : Nat}

/-! ## A calm tick -/

/-- Nobody to wake. -/
theorem schedWakeExpired_calm {now : UInt32} (hy : ListRep k.sleepNode k.sleepList ys)
    (hcalm : expiring k now ys = []) : k.schedWakeExpired now = k := by
  have hhead : k.sleepList.head = ys.head? := hy.head
  unfold schedWakeExpired
  rw [hhead]
  cases ys with
  | nil => rfl
  | cons y ys =>
      have hlate : ¬ (k.thr y).timeout ≤ now := by
        intro hdue
        have hcons : expiring k now (y :: ys) = y :: expiring k now ys := by
          simp [expiring, hdue]
        rw [hcons] at hcalm
        exact absurd hcalm (by simp)
      show wakeLoop now (_ + 1) k (some y) = k
      rw [wakeLoop, if_neg hlate]

/-- The head of the highest queue is next. -/
theorem QueuesRep.next_eq (h : QueuesRep k qs) {p : Prio} {rest : List Tid}
    (hq : qs p = u :: rest) (habove : ∀ q, p < q → qs q = []) : k.schedNextThread = some u := by
  rcases h.next with ⟨hempty, -⟩ | ⟨p', u', rest', hq', habove', hnext⟩
  · rw [hempty p] at hq
    exact absurd hq (by simp)
  · have hpp : p' = p := by
      rcases lt_trichotomy p' p with hlt | heq | hlt
      · rw [habove' p hlt] at hq
        exact absurd hq (by simp)
      · exact heq
      · rw [habove p' hlt] at hq'
        exact absurd hq' (by simp)
    subst hpp
    rw [hq] at hq'
    rw [hnext, (List.cons.inj hq').1]

theorem schedReschedule_stay (hnext : k.schedNextThread = k.current) : k.schedReschedule = k := by
  unfold schedReschedule
  split
  · rfl
  · rw [hnext]
    cases hcur : k.current with
    | none => rfl
    | some t => exact if_pos rfl

theorem schedReschedule_switch (hlock : k.schedLockCount = 0) (hnext : k.schedNextThread = some u)
    (hne : k.current ≠ some u) : k.schedReschedule = k.switchTo u := by
  unfold schedReschedule
  rw [if_neg (by omega), hnext]
  exact if_neg hne

theorem switchTo_priority (k : Kernel) (t u : Tid) :
    ((k.switchTo t).thr u).priority = (k.thr u).priority := by
  obtain ⟨st, hst, -⟩ := switchTo_thr k t u
  rw [hst]

namespace Contended

/-- The queue of the current thread's priority is the highest, and somebody else is in it. -/
theorem queue (h : Contended cfg n k t) (hp : Placed k qs ys) :
    t ∈ qs (k.thr t).priority ∧ (∃ u, u ≠ t ∧ u ∈ qs (k.thr t).priority)
      ∧ ∀ q, (k.thr t).priority < q → qs q = [] := by
  refine ⟨(hp.agree t _).mpr ⟨h.active, rfl⟩, ?_, fun q hlt => ?_⟩
  · obtain ⟨u, hne, hact, hprio⟩ := h.rival
    exact ⟨u, hne, (hp.agree u _).mpr ⟨hact, hprio⟩⟩
  · refine List.eq_nil_iff_forall_not_mem.mpr fun u hu => ?_
    obtain ⟨hact, hprio⟩ := (hp.agree u q).mp hu
    have hle := h.top u hact
    rw [hprio] at hle
    exact absurd hlt (not_lt.mpr hle)

/-- A tick is the time slice and a reschedule. -/
theorem tick_eq (h : Contended cfg (n + 1) k t) (hp : Placed k qs ys) : sysTickHandler cfg k
    = (schedTimesliceTick cfg { k with tickCount := k.tickCount + 1 }).schedReschedule := by
  have hcalm := h.calm 0 (Nat.succ_pos n)
  rw [hp.listNodes] at hcalm
  have hwake : schedWakeExpired { k with tickCount := k.tickCount + 1 } (k.tickCount + 1)
      = { k with tickCount := k.tickCount + 1 } := schedWakeExpired_calm hp.sleepers hcalm
  unfold sysTickHandler
  dsimp only
  rw [hwake]

/-- Counting on, when nothing else has changed. -/
theorem next (h : Contended cfg (n + 1) k t) (left : UInt32) :
    Contended cfg n { k with tickCount := k.tickCount + 1, sliceLeft := left } t := by
  obtain ⟨henabled, hlock, hcur, hact, htop, hrival, hcalm⟩ := h
  refine ⟨henabled, hlock, hcur, hact, htop, hrival, fun i hi => ?_⟩
  have hnow : k.tickCount + 1 + UInt32.ofNat (i + 1) = k.tickCount + UInt32.ofNat (i + 1 + 1) := by
    rw [UInt32.add_assoc, UInt32.add_comm 1, ← UInt32.ofNat_one, ← UInt32.ofNat_add]
  have hlater := hcalm (i + 1) (Nat.succ_lt_succ hi)
  dsimp only
  rw [hnow]
  exact hlater

end Contended

/-- Neither does it matter to the queues. -/
theorem Placed.counted (h : Placed k qs ys) (now left : UInt32) :
    Placed { k with tickCount := now, sliceLeft := left } qs ys :=
  h.congr (fun _ => Iff.rfl) (fun _ => rfl) (fun _ hs => hs) rfl rfl rfl rfl rfl

/-! ## What a tick does -/

/-- A queue that holds two threads counts them as more than one. -/
theorem ListRep.count_gt_one {node : Tid → Link Tid} {l : VList Tid} {xs : List Tid}
    (h : ListRep node l xs) (ht : t ∈ xs) (hu : u ∈ xs) (hne : u ≠ t) : listCount l > 1 := by
  have htwo : 2 ≤ xs.length := by
    have hpair : [t, u].Nodup := by simp [hne.symm]
    refine (hpair.subperm ?_).length_le
    intro x hx
    rcases List.mem_cons.mp hx with rfl | hx
    · exact ht
    · exact (List.mem_singleton.mp hx) ▸ hu
  have hlen : xs.length < 2 ^ 32 := by
    have hle := h.nodup.length_le_card
    rw [Fintype.card_fin] at hle
    omega
  rw [listCount, h.count]
  refine UInt32.lt_iff_toNat_lt.mpr ?_
  rw [UInt32.toNat_ofNat_of_lt' hlen]
  exact htwo

/-- At the end of a slice the running thread goes to the back of its queue. -/
theorem Contended.rotate (h : Contended cfg n k t) (hp : Placed k qs ys)
    (hrun : (k.thr t).state = .running) (hend : ¬ k.sliceLeft > 1) :
    QueuesRep (k.schedTimesliceTick cfg) (Function.update qs (k.thr t).priority
      ((qs (k.thr t).priority).erase t ++ [t])) := by
  obtain ⟨hin, ⟨u, hne, hu⟩, -⟩ := h.queue hp
  let k₁ : Kernel := { k with sliceLeft := msToTicks cfg cfg.timesliceMs }
  have hp₁ : Placed k₁ qs ys := hp.counted k.tickCount _
  have hmany : listCount (k₁.runQueues (k₁.thr t).priority) > 1 :=
    (hp₁.queues.rep _).count_gt_one hin hu hne
  have heq : k.schedTimesliceTick cfg = (k₁.schedDequeue t).schedEnqueue t := by
    unfold schedTimesliceTick
    rw [if_neg h.enabled]
    split
    · rename_i hnone
      exact absurd (h.current.symm.trans hnone) (by simp)
    · rename_i cur hcur
      obtain rfl : t = cur := Option.some.inj (h.current.symm.trans hcur)
      rw [if_neg (not_not.mpr hrun), if_neg hend]
      exact if_pos hmany
  have hdeq := hp₁.queues.dequeue hin
  have hout : ∀ p, t ∉ Function.update qs (k₁.thr t).priority
      ((qs (k₁.thr t).priority).erase t) p := by
    intro p
    rw [Function.update_apply]
    split
    · exact ((hp₁.queues.rep _).nodup.not_mem_erase)
    · rename_i hpne
      exact fun hmem => hpne (hp₁.queues.disjoint hmem hin)
  have henq := hdeq.enqueue hout
  rw [heq]
  have hupd : Function.update (Function.update qs (k₁.thr t).priority
      ((qs (k₁.thr t).priority).erase t)) (k₁.thr t).priority
      (Function.update qs (k₁.thr t).priority ((qs (k₁.thr t).priority).erase t)
        (k₁.thr t).priority ++ [t])
      = Function.update qs (k.thr t).priority ((qs (k.thr t).priority).erase t ++ [t]) := by
    rw [Function.update_idem, Function.update_self]
  rw [← hupd]
  exact henq

/-- Before that, or while the thread is marked READY, the queues stay as they are. -/
theorem schedTimesliceTick_counts (cfg : Config) (hcur : k.current = some t)
    (hgo : (k.thr t).state ≠ .running ∨ k.sliceLeft > 1) :
    ∃ left, k.schedTimesliceTick cfg = { k with sliceLeft := left }
      ∧ ((k.thr t).state ≠ .running ∨ cfg.timesliceMs = 0 ∨ left = k.sliceLeft - 1) := by
  unfold schedTimesliceTick
  by_cases hoff : cfg.timesliceMs = 0
  · rw [if_pos hoff]
    exact ⟨k.sliceLeft, rfl, Or.inr (Or.inl hoff)⟩
  · rw [if_neg hoff]
    split
    · rename_i hnone
      exact absurd (hcur.symm.trans hnone) (by simp)
    · rename_i cur hcur'
      obtain rfl : t = cur := Option.some.inj (hcur.symm.trans hcur')
      by_cases hrun : (k.thr t).state ≠ .running
      · rw [if_pos hrun]
        exact ⟨k.sliceLeft, rfl, Or.inl hrun⟩
      · rw [if_neg hrun, if_pos (hgo.resolve_left hrun)]
        exact ⟨k.sliceLeft - 1, rfl, Or.inr (Or.inr rfl)⟩

/-- A reschedule that finds another thread at the head of the highest queue. -/
theorem QueuesRep.turns (h : QueuesRep k qs) {p : Prio} {rest : List Tid}
    (hlock : k.schedLockCount = 0)
    (hcur : k.current = some t) (hq : qs p = u :: rest) (hne : u ≠ t)
    (habove : ∀ q, p < q → qs q = []) : k.schedReschedule.current = some u
      ∧ ∀ v, (k.schedReschedule.thr v).priority = (k.thr v).priority := by
  have hother : k.current ≠ some u := by
    rw [hcur]
    exact fun he => hne (Option.some.inj he).symm
  rw [schedReschedule_switch hlock (h.next_eq hq habove) hother]
  exact ⟨switchTo_current k u, fun v => switchTo_priority k u v⟩

theorem timeslice_priority (cfg : Config) (k : Kernel) (u : Tid) :
    ((k.schedTimesliceTick cfg).thr u).priority = (k.thr u).priority := by
  obtain ⟨-, -, -, -, -, -, -, hthr⟩ := schedTimesliceTick_frame cfg k
  rcases hthr with hsame | ⟨cur, -, -, hcur⟩
  · rw [hsame]
  · rw [hcur, Function.update_apply]
    split
    · rename_i he
      rw [he]
    · rfl

/-- **The CPU changes hands** if another thread is the head already, or becomes it now. -/
theorem Contended.turn (h : Contended cfg (n + 1) k t) (hp : Placed k qs ys)
    (hturn : (qs (k.thr t).priority).head? ≠ some t
      ∨ (k.thr t).state = .running ∧ ¬ k.sliceLeft > 1) :
    ∃ u, u ≠ t ∧ (sysTickHandler cfg k).current = some u
      ∧ ((sysTickHandler cfg k).thr u).priority = (k.thr t).priority := by
  let k₁ : Kernel := { k with tickCount := k.tickCount + 1 }
  have hp₁ : Placed k₁ qs ys := hp.counted _ k.sliceLeft
  have h₁ : Contended cfg n k₁ t := h.next k.sliceLeft
  obtain ⟨hin, ⟨v, hvne, hv⟩, habove⟩ := h.queue hp
  obtain ⟨-, -, -, hcur₂, -, hlock₂, -, -⟩ := schedTimesliceTick_frame cfg k₁
  have hprio₂ := timeslice_priority cfg k₁
  rw [h.tick_eq hp]
  -- whichever way the slice goes, the head of the queue is another thread
  have hhead : ∃ qs' u rest, QueuesRep (k₁.schedTimesliceTick cfg) qs'
      ∧ qs' (k.thr t).priority = u :: rest ∧ u ≠ t ∧ u ∈ qs (k.thr t).priority
      ∧ ∀ q, (k.thr t).priority < q → qs' q = [] := by
    by_cases hend : (k.thr t).state = .running ∧ ¬ k.sliceLeft > 1
    · have hrep := h₁.rotate hp₁ hend.1 hend.2
      have hvin : v ∈ (qs (k.thr t).priority).erase t := (List.mem_erase_of_ne hvne).mpr hv
      cases hq : (qs (k.thr t).priority).erase t with
      | nil =>
          rw [hq] at hvin
          exact absurd hvin List.not_mem_nil
      | cons u rest =>
          have hu : u ∈ (qs (k.thr t).priority).erase t := by
            rw [hq]
            exact List.mem_cons_self
          obtain ⟨hut, huin⟩ := (hp.queues.rep _).nodup.mem_erase_iff.mp hu
          refine ⟨_, u, rest ++ [t], hrep, ?_, hut, huin, fun q hlt => ?_⟩
          · rw [Function.update_self]
            show (qs (k.thr t).priority).erase t ++ [t] = _
            rw [hq]
            rfl
          · rw [Function.update_of_ne (ne_of_gt hlt)]
            exact habove q hlt
    · have hgo : (k₁.thr t).state ≠ .running ∨ k₁.sliceLeft > 1 := by
        by_cases hrun : (k.thr t).state = .running
        · exact Or.inr (not_not.mp fun hle => hend ⟨hrun, hle⟩)
        · exact Or.inl hrun
      obtain ⟨left, heq, -⟩ := schedTimesliceTick_counts cfg h₁.current hgo
      have hhead := hturn.resolve_right hend
      cases hq : qs (k.thr t).priority with
      | nil =>
          rw [hq] at hin
          exact absurd hin List.not_mem_nil
      | cons u rest =>
          rw [hq] at hhead
          refine ⟨qs, u, rest, ?_, hq, fun he => hhead (by rw [he]; rfl), ?_, habove⟩
          · rw [heq]
            exact (hp₁.counted _ left).queues
          · exact List.mem_cons_self
  obtain ⟨qs', u, rest, hrep, hq, hne, huin, habove'⟩ := hhead
  obtain ⟨hcur, hprio⟩ :=
    hrep.turns (hlock₂.trans h.unlocked) (hcur₂.trans h.current) hq hne habove'
  refine ⟨u, hne, hcur, ?_⟩
  rw [hprio u, hprio₂ u]
  exact ((hp.agree u _).mp huin).2

/-- The CPU stays where it is, and the clock goes on. -/
theorem Contended.stay (h : Contended cfg (n + 1) k t) (hp : Placed k qs ys)
    (hhead : (qs (k.thr t).priority).head? = some t)
    (hgo : (k.thr t).state ≠ .running ∨ k.sliceLeft > 1) :
    ∃ left, sysTickHandler cfg k = { k with tickCount := k.tickCount + 1, sliceLeft := left }
      ∧ ((k.thr t).state ≠ .running ∨ left = k.sliceLeft - 1) := by
  let k₁ : Kernel := { k with tickCount := k.tickCount + 1 }
  obtain ⟨-, -, habove⟩ := h.queue hp
  obtain ⟨left, heq, hleft⟩ := schedTimesliceTick_counts (k := k₁) cfg h.current hgo
  have hp₂ := (hp.counted (k.tickCount + 1) left).queues
  obtain ⟨rest, hq⟩ : ∃ rest, qs (k.thr t).priority = t :: rest := by
    cases hq : qs (k.thr t).priority with
    | nil =>
        rw [hq] at hhead
        exact absurd hhead (by simp)
    | cons u rest =>
        rw [hq] at hhead
        exact ⟨rest, by rw [Option.some.inj hhead]⟩
  have hnext : { k with tickCount := k.tickCount + 1, sliceLeft := left }.schedNextThread
      = some t := hp₂.next_eq hq habove
  refine ⟨left, ?_, hleft.imp_right fun hor => hor.resolve_left h.enabled⟩
  rw [h.tick_eq hp, heq]
  exact schedReschedule_stay (hnext.trans h.current.symm)

/-! ## Many ticks -/

/-- A thread marked READY at the head of its queue keeps the CPU. -/
theorem Contended.stuck (hnot : (k.thr t).state ≠ .running)
    (hhead : (qs (k.thr t).priority).head? = some t) : ∀ {n i : Nat} {k' : Kernel},
    Contended cfg n k' t → Placed k' qs ys → k'.thr = k.thr → i ≤ n →
    (ticks cfg i k').current = some t
  | _, 0, _, h, _, _, _ => h.current
  | 0, i + 1, _, _, _, _, hi => absurd hi (Nat.not_succ_le_zero i)
  | n + 1, i + 1, k', h, hp, hthr, hi => by
      obtain ⟨left, heq, -⟩ := h.stay hp (by rw [hthr]; exact hhead)
        (Or.inl (by rw [hthr]; exact hnot))
      rw [ticks, heq]
      exact stuck hnot hhead (h.next left) (hp.counted _ left) hthr (Nat.le_of_succ_le_succ hi)

/-- A running thread's countdown comes to its end. -/
theorem Contended.turns : ∀ {n : Nat} {k : Kernel}, Contended cfg n k t → Placed k qs ys →
    1 ≤ n → k.sliceLeft.toNat ≤ n →
    ((k.thr t).state = .running ∨ (qs (k.thr t).priority).head? ≠ some t) → TakesTurns cfg n k t
  | 0, _, _, _, hpos, _, _ => absurd hpos (by decide)
  | n + 1, k, h, hp, _, hleft, hok => by
      by_cases hturn : (qs (k.thr t).priority).head? ≠ some t
          ∨ (k.thr t).state = .running ∧ ¬ k.sliceLeft > 1
      · obtain ⟨u, hne, hcur, hprio⟩ := h.turn hp hturn
        exact ⟨1, Nat.le_add_left 1 n, u, hne, hcur, hprio⟩
      · obtain ⟨hhead, hmore⟩ := not_or.mp hturn
        have hrun := hok.resolve_right hhead
        have hgt : k.sliceLeft > 1 := not_not.mp fun hle => hmore ⟨hrun, hle⟩
        obtain ⟨left, heq, hdown⟩ := h.stay hp (not_not.mp hhead) (Or.inr hgt)
        obtain rfl := hdown.resolve_left (not_not.mpr hrun)
        have hone : (1 : UInt32).toNat = 1 := rfl
        have hgt' : 1 < k.sliceLeft.toNat := UInt32.lt_iff_toNat_lt.mp hgt
        have hsub : (k.sliceLeft - 1).toNat = k.sliceLeft.toNat - 1 := by
          rw [UInt32.toNat_sub_of_le _ _ (UInt32.le_of_lt hgt), hone]
        obtain ⟨i, hi, u, hne, hcur, hprio⟩ := turns (h.next (k.sliceLeft - 1))
          (hp.counted (k.tickCount + 1) _) (by omega) (by dsimp only; omega) (Or.inl hrun)
        refine ⟨i + 1, Nat.succ_le_succ hi, u, hne, ?_, ?_⟩
        · rw [ticks, heq]
          exact hcur
        · rw [ticks, heq]
          exact hprio

/-- Both together: what the round-robin bound depends on. -/
theorem Contended.turns_iff (h : Contended cfg n k t) (hp : Placed k qs ys) (hn : 1 ≤ n)
    (hleft : k.sliceLeft.toNat ≤ n) : TakesTurns cfg n k t
      ↔ (k.thr t).state = .running ∨ (k.runQueues (k.thr t).priority).head ≠ some t := by
  rw [(hp.queues.rep _).head]
  constructor
  · rintro ⟨i, hi, u, hne, hcur, -⟩
    by_contra hnot
    obtain ⟨hready, hhead⟩ := not_or.mp hnot
    have hstay := Contended.stuck hready (not_not.mp hhead) h hp rfl hi
    rw [hstay] at hcur
    exact hne (Option.some.inj hcur).symm
  · exact h.turns hp hn hleft

theorem Sliced.toNat_le (h : Sliced cfg k) : k.sliceLeft.toNat ≤ sliceTicks cfg :=
  (UInt32.le_iff_toNat_le.mp h).trans (Nat.le_max_right _ _)

/--
**When the current thread gives way within a time slice.**

Take any state of any orderly run in which the scheduler is unlocked, the current thread
has the highest ready priority and another ready thread shares it, and let a slice's worth
of ticks pass in which nothing else happens and no sleeper expires. The CPU goes to another
thread of that priority if and only if the current thread is marked RUNNING or is not the
head of its run queue.
-/
theorem round_robin_along_run {cfg : Config} {s s' : Sys} {labels : List Sys.Label} {t : Tid}
    (h : s.Initial cfg) (hg : Along (Sys.step cfg) Sys.Orderly s labels)
    (hr : run (Sys.step cfg) s labels = some s')
    (hc : Contended cfg (sliceTicks cfg) s'.k t) :
    TakesTurns cfg (sliceTicks cfg) s'.k t
      ↔ (s'.k.thr t).state = .running ∨ (s'.k.runQueues (s'.k.thr t).priority).head ≠ some t := by
  obtain ⟨⟨qs, ys, hp⟩, hsliced⟩ := ordered_along_run h hg hr
  exact hc.turns_iff hp (Nat.le_max_left _ _) hsliced.toNat_le

/-- Above the queues that have a head nobody is READY or RUNNING. -/
theorem Placed.le_of_empty (h : Placed k qs ys) {p : Prio}
    (habove : ∀ q, p < q → (k.runQueues q).head = none) (hu : (k.thr u).state.Active) :
    (k.thr u).priority ≤ p := by
  by_contra hlt
  have hin : u ∈ qs (k.thr u).priority := (h.agree u _).mpr ⟨hu, rfl⟩
  have hhead := (h.queues.rep (k.thr u).priority).head
  rw [habove _ (not_le.mp hlt), eq_comm, List.head?_eq_none_iff] at hhead
  rw [hhead] at hin
  exact absurd hin List.not_mem_nil

/-- Thread 9 idles, and 1 and 2 share priority 5. -/
def twoPeers : List Sys.Label :=
  [.boot 9 0x200 0 (some ⟨256, 0, none, true, -1⟩) (some 0x1000) none,
    .boot 1 0x100 0 (some ⟨512, 5, none, true, -1⟩) (some 0x2000) none,
    .boot 2 0x100 0 (some ⟨512, 5, none, true, -1⟩) (some 0x3000) none, .start]

/-- Thread 1 is started first, and gives way. -/
theorem round_robin_along_run_peers : ∃ s', run (Sys.step ⟨1000, 10, true⟩)
      (Sys.bss ⟨1000, 10, true⟩ (fun _ => threadDefine [] 512 0 0 0 5) (some 9)) twoPeers = some s'
    ∧ s'.k.current = some 1 ∧ TakesTurns ⟨1000, 10, true⟩ 10 s'.k 1 := by
  have hg : Along (Sys.step ⟨1000, 10, true⟩) Sys.Orderly
      (Sys.bss ⟨1000, 10, true⟩ (fun _ => threadDefine [] 512 0 0 0 5) (some 9)) twoPeers := by
    decide +kernel
  obtain ⟨s', hrun, hfacts⟩ : ∃ s', run (Sys.step ⟨1000, 10, true⟩)
        (Sys.bss ⟨1000, 10, true⟩ (fun _ => threadDefine [] 512 0 0 0 5) (some 9)) twoPeers
          = some s'
      ∧ decide (s'.k.current = some 1 ∧ s'.k.schedLockCount = 0
        ∧ ((s'.k.thr 1).state = .running ∧ (s'.k.thr 1).priority = 5)
        ∧ ((s'.k.thr 2).state = .ready ∧ (s'.k.thr 2).priority = 5)
        ∧ (∀ q, 5 < q → (s'.k.runQueues q).head = none) ∧ s'.k.sleepList.head = none) = true :=
    Option.map_eq_some_iff.mp (by decide +kernel)
  obtain ⟨hcur, hlock, hone, htwo, hlow, hsleep⟩ := of_decide_eq_true hfacts
  refine ⟨s', hrun, hcur, ?_⟩
  obtain ⟨⟨qs, ys, hp⟩, -⟩ := ordered_along_run (initial_bss _) hg hrun
  have hc : Contended ⟨1000, 10, true⟩ (sliceTicks ⟨1000, 10, true⟩) s'.k 1 := by
    refine ⟨by decide, hlock, hcur, Or.inr hone.1, fun u hu => ?_,
      ⟨2, by decide, Or.inl htwo.1, htwo.2.trans hone.2.symm⟩, fun i _ => ?_⟩
    · rw [hone.2]
      exact hp.le_of_empty hlow hu
    · have hnil : ys = [] := List.head?_eq_none_iff.mp (hp.sleepers.head.symm.trans hsleep)
      rw [hp.listNodes, hnil]
      rfl
  exact (round_robin_along_run (initial_bss _) hg hrun hc).mpr (Or.inl hone.1)

/-- Thread 1 yields while it is alone, and then creates a thread of its own priority. -/
def yieldAlone : List Sys.Label :=
  [.boot 9 0x200 0 (some ⟨256, 0, none, true, -1⟩) (some 0x1000) none,
    .boot 1 0x100 0 (some ⟨512, 5, none, true, -1⟩) (some 0x2000) none, .start,
    .call .threadYield, .cont, .cont,
    .call (.threadCreate 2 0x100 0 (some ⟨512, 5, none, true, -1⟩) (some 0x3000) none), .cont]

/-- The yield has left thread 1 marked READY at the head of its queue: however long it runs, thread
2 gets no turn. -/
theorem yield_alone_stops_round_robin : ∃ s', run (Sys.step ⟨1000, 10, true⟩)
      (Sys.bss ⟨1000, 10, true⟩ (fun _ => threadDefine [] 512 0 0 0 5) (some 9)) yieldAlone
        = some s'
    ∧ ∀ n, Contended ⟨1000, 10, true⟩ n s'.k 1 ∧ ¬ TakesTurns ⟨1000, 10, true⟩ n s'.k 1 := by
  have hg : Along (Sys.step ⟨1000, 10, true⟩) Sys.Orderly
      (Sys.bss ⟨1000, 10, true⟩ (fun _ => threadDefine [] 512 0 0 0 5) (some 9)) yieldAlone := by
    decide +kernel
  obtain ⟨s', hrun, hfacts⟩ : ∃ s', run (Sys.step ⟨1000, 10, true⟩)
        (Sys.bss ⟨1000, 10, true⟩ (fun _ => threadDefine [] 512 0 0 0 5) (some 9)) yieldAlone
          = some s'
      ∧ decide (s'.k.current = some 1 ∧ s'.k.schedLockCount = 0
        ∧ ((s'.k.thr 1).state = .ready ∧ (s'.k.thr 1).priority = 5)
        ∧ ((s'.k.thr 2).state = .ready ∧ (s'.k.thr 2).priority = 5)
        ∧ (s'.k.runQueues 5).head = some 1
        ∧ (∀ q, 5 < q → (s'.k.runQueues q).head = none) ∧ s'.k.sleepList.head = none) = true :=
    Option.map_eq_some_iff.mp (by decide +kernel)
  obtain ⟨hcur, hlock, hone, htwo, hhead, hlow, hsleep⟩ := of_decide_eq_true hfacts
  refine ⟨s', hrun, fun n => ?_⟩
  obtain ⟨⟨qs, ys, hp⟩, -⟩ := ordered_along_run (initial_bss _) hg hrun
  have hc : Contended ⟨1000, 10, true⟩ n s'.k 1 := by
    refine ⟨by decide, hlock, hcur, Or.inl hone.1, fun u hu => ?_,
      ⟨2, by decide, Or.inl htwo.1, htwo.2.trans hone.2.symm⟩, fun i _ => ?_⟩
    · rw [hone.2]
      exact hp.le_of_empty hlow hu
    · have hnil : ys = [] := List.head?_eq_none_iff.mp (hp.sleepers.head.symm.trans hsleep)
      rw [hp.listNodes, hnil]
      rfl
  refine ⟨hc, ?_⟩
  rintro ⟨i, hi, u, hne, hturn, -⟩
  have hready : (s'.k.thr 1).state ≠ .running := by
    rw [hone.1]
    decide
  have hfirst : (qs (s'.k.thr 1).priority).head? = some 1 := by
    rw [hone.2, ← (hp.queues.rep 5).head]
    exact hhead
  rw [Contended.stuck hready hfirst hc hp rfl hi] at hturn
  exact hne (Option.some.inj hturn).symm

end VibeRtos
