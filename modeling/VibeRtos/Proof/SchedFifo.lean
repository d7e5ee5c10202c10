import VibeRtos.Proof.RunQueues

/-!
# The bitmap scheduler refines a priority queue of FIFOs

The abstract queue records who arrived, in what order and with which priority.
`QueueStep` pairs each kernel operation with its abstract counterpart, and
`Refines` is the simulation relation: the list of each priority holds exactly the
members of that priority in order of arrival.
-/

namespace VibeRtos

open Links Kernel PrioFifo

/-- One operation on the run queues, with its effect on the abstract queue. -/
inductive QueueStep : Kernel × List (Tid × Prio) → Kernel × List (Tid × Prio) → Prop where
  /-- a thread in no run queue is enqueued -/
  | enqueue {k : Kernel} {log : List (Tid × Prio)} (t : Tid) (h : ∀ p, (t, p) ∉ log) :
      QueueStep (k, log) (k.schedEnqueue t, arrive log t (k.thr t).priority)
  /-- a queued thread is dequeued -/
  | dequeue {k : Kernel} {log : List (Tid × Prio)} (t : Tid) (h : ∃ p, (t, p) ∈ log) :
      QueueStep (k, log) (k.schedDequeue t, leave log t)
  /-- the rest of the kernel moves on; priorities of queued threads stay -/
  | elsewhere {k : Kernel} {log : List (Tid × Prio)} (k' : Kernel)
      (hn : k'.schedNode = k.schedNode) (hq : k'.runQueues = k.runQueues)
      (hm : k'.readyMask = k.readyMask)
      (hp : ∀ t p, (t, p) ∈ log → (k'.thr t).priority = (k.thr t).priority) :
      QueueStep (k, log) (k', log)

/-- The kernel's run queues represent the abstract queue. -/
structure Refines (k : Kernel) (log : List (Tid × Prio)) : Prop where
  queues : QueuesRep k (fifo log)
  nodup : (log.map Prod.fst).Nodup
  prio : ∀ t p, (t, p) ∈ log → (k.thr t).priority = p

theorem refines_bss (cfg : Config) (thr : Tid → Thread) (idle : Option Tid) :
    Refines (Kernel.bss cfg thr idle) [] where
  queues :=
    { rep := fun _ => listRep_init _
      disjoint := by intro p q t h; simp at h
      mask := by intro p; simp [Kernel.bss] }
  nodup := List.nodup_nil
  prio := by intro t p h; simp at h

theorem schedEnqueue_priority (k : Kernel) (t u : Tid) :
    ((k.schedEnqueue t).thr u).priority = (k.thr u).priority := by
  by_cases h : u = t
  · subst h; simp [schedEnqueue]
  · simp [schedEnqueue, h]

/-- **The simulation is preserved by every operation.** -/
theorem refines_step {s s' : Kernel × List (Tid × Prio)} (h : Refines s.1 s.2)
    (hs : QueueStep s s') : Refines s'.1 s'.2 := by
  cases hs with
  | @enqueue k log t ht =>
      have hq := h.queues.enqueue (t := t) fun p hp => ht p (mem_fifo.mp hp)
      refine ⟨?_, ?_, ?_⟩
      · have hfifo : fifo (arrive log t (k.thr t).priority) = Function.update (fifo log)
            (k.thr t).priority (fifo log (k.thr t).priority ++ [t]) := by
          funext q
          rw [fifo_arrive, Function.update_apply]
          split
          · rename_i hqp; rw [hqp]
          · rfl
        show QueuesRep _ (fifo (arrive log t (k.thr t).priority))
        rw [hfifo]
        exact hq
      · show (List.map Prod.fst (log ++ [(t, (k.thr t).priority)])).Nodup
        rw [List.map_append, List.nodup_append]
        refine ⟨h.nodup, by simp, ?_⟩
        intro a ha b hb heq
        obtain ⟨⟨c, p⟩, hc, rfl⟩ := List.mem_map.mp ha
        simp only [List.map_cons, List.map_nil, List.mem_singleton] at hb
        exact ht p (hb ▸ heq ▸ hc)
      · intro u p hu
        rw [schedEnqueue_priority]
        rcases List.mem_append.mp hu with hu | hu
        · exact h.prio u p hu
        · obtain ⟨rfl, rfl⟩ := Prod.mk.inj (List.mem_singleton.mp hu)
          rfl
  | @dequeue k log t ht =>
      obtain ⟨p, hp⟩ := ht
      have hpr : (k.thr t).priority = p := h.prio t p hp
      have hmem : t ∈ fifo log (k.thr t).priority := mem_fifo.mpr (hpr ▸ hp)
      have hq := h.queues.dequeue hmem
      refine ⟨?_, ?_, ?_⟩
      · have hfifo : fifo (leave log t) = Function.update (fifo log)
            (k.thr t).priority ((fifo log (k.thr t).priority).erase t) := by
          funext q
          rw [fifo_leave, Function.update_apply]
          split
          · rename_i hqp
            rw [hqp, (nodup_fifo h.nodup _).erase_eq_filter]
            congr 1
            funext b
            by_cases hb : b = t <;> simp [hb]
          · rename_i hqp
            refine List.filter_eq_self.mpr fun b hb => ?_
            have : b ≠ t := by
              rintro rfl
              exact hqp (h.queues.disjoint hb hmem)
            simpa using this
        show QueuesRep _ (fifo (leave log t))
        rw [hfifo]
        exact hq
      · exact h.nodup.sublist (List.filter_sublist.map _)
      · intro u q hu
        exact h.prio u q (mem_leave.mp hu).1
  | @elsewhere k log k' hn hqs hm hp =>
      refine ⟨h.queues.congr hn hqs hm, h.nodup, ?_⟩
      intro t p ht
      rw [hp t p ht]
      exact h.prio t p ht

theorem refines_run {s s' : Kernel × List (Tid × Prio)} (h : Refines s.1 s.2)
    (hr : Relation.ReflTransGen QueueStep s s') : Refines s'.1 s'.2 := by
  induction hr with
  | refl => exact h
  | tail _ hs ih => exact refines_step ih hs

/-- Whom the scheduler runs next, read off the abstract queue. -/
theorem Refines.next {k : Kernel} {log : List (Tid × Prio)} (h : Refines k log) :
    (log = [] ∧ k.schedNextThread = k.idle) ∨ ∃ t, First log t ∧ k.schedNextThread = some t := by
  rcases h.queues.next with ⟨hnil, hnx⟩ | ⟨p, t, rest, hp, habove, hnx⟩
  · refine Or.inl ⟨?_, hnx⟩
    refine List.eq_nil_iff_forall_not_mem.mpr fun e he => ?_
    have := mem_fifo.mpr (show (e.1, e.2) ∈ log from he)
    rw [hnil e.2] at this
    exact absurd this (by simp)
  · exact Or.inr ⟨t, first_of_fifo hp habove, hnx⟩

/--
**The bitmap scheduler refines a priority queue of FIFOs.**

After any sequence of operations the list of each priority holds exactly the
queued threads of that priority in order of arrival, links, ends and count
included, and the mask says which lists are not empty. The next thread is the
earliest arrival among those of maximal priority; the idle thread stands in when
nobody is queued, and only then, unless it is itself queued.
-/
theorem sched_refines_prio_fifo {cfg : Config} {thr : Tid → Thread} {idle : Option Tid}
    {k : Kernel} {log : List (Tid × Prio)}
    (hr : Relation.ReflTransGen QueueStep (Kernel.bss cfg thr idle, []) (k, log)) :
    (∀ p, ListRep k.schedNode (k.runQueues p) (fifo log p))
      ∧ (∀ p : Prio, k.readyMask.getLsbD p = true ↔ fifo log p ≠ [])
      ∧ ((log = [] ∧ k.schedNextThread = k.idle)
          ∨ (log ≠ [] ∧ ∃ t, First log t ∧ k.schedNextThread = some t))
      ∧ (∀ i, k.idle = some i → (∀ p, (i, p) ∉ log) → (k.schedNextThread = some i ↔ log = [])) := by
  have h : Refines k log := refines_run (refines_bss cfg thr idle) hr
  have hnext : (log = [] ∧ k.schedNextThread = k.idle)
      ∨ (log ≠ [] ∧ ∃ t, First log t ∧ k.schedNextThread = some t) := by
    rcases h.next with hnil | ⟨t, ht, hnx⟩
    · exact Or.inl hnil
    · refine Or.inr ⟨?_, t, ht, hnx⟩
      obtain ⟨pre, post, p, heq, -⟩ := ht
      have heq' : log = pre ++ (t, p) :: post := heq
      rw [heq']
      simp
  refine ⟨h.queues.rep, h.queues.mask, hnext, ?_⟩
  intro i hi hnot
  rcases hnext with ⟨hnil, hnx⟩ | ⟨hne, t, ht, hnx⟩
  · exact ⟨fun _ => hnil, fun _ => hnx.trans hi⟩
  · refine ⟨fun he => ?_, fun hnil => absurd hnil hne⟩
    obtain ⟨pre, post, p, heq, -⟩ := ht
    obtain rfl : t = i := Option.some.inj (hnx.symm.trans he)
    exact absurd (heq ▸ by simp) (hnot p)

/-- Two threads of one priority, enqueued in turn: the first one is chosen. -/
theorem sched_refines_prio_fifo_pair :
    let k₀ := Kernel.bss ⟨1000, 10, true⟩ (fun _ => threadDefine [] 512 0 0 0 16) (some 9)
    ((k₀.schedEnqueue 1).schedEnqueue 2).schedNextThread = some 1 := by
  intro k₀
  have h1 : QueueStep (k₀, []) (k₀.schedEnqueue 1, [(1, 16)]) := QueueStep.enqueue 1 (by simp)
  have h2 : QueueStep (k₀.schedEnqueue 1, [(1, 16)])
      ((k₀.schedEnqueue 1).schedEnqueue 2, [(1, 16), (2, 16)]) :=
    QueueStep.enqueue 2 (by simp)
  obtain ⟨-, -, ⟨hnil, -⟩ | ⟨-, t, ht, hnx⟩, -⟩ :=
    sched_refines_prio_fifo ((Relation.ReflTransGen.single h1).tail h2)
  · exact absurd hnil (by simp)
  · have hfirst : First [((1 : Tid), (16 : Prio)), (2, 16)] 1 :=
      ⟨[], [(2, 16)], 16, rfl, by simp, by simp⟩
    rw [hnx, ht.unique hfirst]

end VibeRtos
