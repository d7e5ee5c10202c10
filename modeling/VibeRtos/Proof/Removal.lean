import VibeRtos.Proof.Gone

/-!
# When delete and suspend are final

`Removable s t` is the condition under which taking `t` out of its run queue takes it
out of the system: no wait list and no sleep list holds it, it is queued once, and it
is not the thread the scheduler falls back on. From such a state a delete or a suspend
reaches `Gone`, which no later step leaves.

A SLEEPING or WAITING thread is not removable: neither call takes it off those lists,
and the next expiry or release enqueues it again.
-/

namespace VibeRtos

open Links Kernel Runs

/-- `t` is in the run queue of its priority, once, and no other queue or node points at it. -/
def QueuedOnce (k : Kernel) (t : Tid) : Prop :=
  ∃ xs, ListRep k.schedNode (k.runQueues (k.thr t).priority) xs ∧ t ∈ xs
    ∧ (∀ u, u ∉ xs → (k.schedNode u).prev ≠ some t ∧ (k.schedNode u).next ≠ some t)
    ∧ ∀ p, p ≠ (k.thr t).priority → ListAvoid (k.runQueues p) t

/-- Nothing but the run queue that `t` belongs to refers to `t`. -/
structure Removable (s : Sys) (t : Tid) : Prop where
  lists : ListsAvoid s t
  wait : NodesAvoid s.k.waitNode t
  sleep : NodesAvoid s.k.sleepNode t
  sleepers : ListAvoid s.k.sleepList t
  queued : (s.k.thr t).state.Active → QueuedOnce s.k t
  unqueued : ¬ (s.k.thr t).state.Active →
    NodesAvoid s.k.schedNode t ∧ ∀ p, ListAvoid (s.k.runQueues p) t
  idle : s.k.idle ≠ none ∧ s.k.idle ≠ some t
  /-- a thread that removes itself gives the CPU away at once -/
  unlocked : s.k.current = some t → s.k.schedLockCount = 0

/-- A delete of `t`, or a suspend of `t` that returns `VIBE_OK`. -/
inductive Removes (s : Sys) (self t : Tid) : Call → Prop where
  | delete (o : Option Tid) (ho : o.getD self = t) : Removes s self t (.threadDelete o)
  | suspend (o : Option Tid) (ho : o.getD self = t) (hd : (s.k.thr t).state ≠ .dead) :
      Removes s self t (.threadSuspend o)

/-- The calls after which `t` is meant to run again. -/
def Call.Undoes (t : Tid) (l : Sys.Label) : Call → Prop
  | .threadSuspend _ => Revives t l ∨ Resumes t l
  | _ => Revives t l

variable {cfg : Config} {s s' : Sys} {t self : Tid} {k : Kernel}

/-- The links of a chain stay inside it. -/
theorem listRep_avoid {mem : Tid → Link Tid} {l : VList Tid} {xs : List Tid}
    (h : ListRep mem l xs) (ht : t ∉ xs) : ListAvoid l t ∧
      ∀ u ∈ xs, (mem u).prev ≠ some t ∧ (mem u).next ≠ some t := by
  refine ⟨⟨?_, ?_⟩, ?_⟩
  · rw [h.head]
    exact fun he => ht (List.mem_of_mem_head? he)
  · rw [h.tail]
    exact fun he => ht (List.mem_of_getLast? he)
  · intro u hu
    obtain ⟨ys, zs, rfl⟩ := List.append_of_mem hu
    have hat : mem u = ⟨ys.getLast?, zs.head?⟩ := by simpa using h.chain.at
    rw [hat]
    constructor
    · intro he
      exact ht (List.mem_append_left _ (List.mem_of_getLast? he))
    · intro he
      exact ht (List.mem_append_right _ (List.mem_cons_of_mem _ (List.mem_of_mem_head? he)))

/-- Dequeueing a thread that is queued once leaves no pointer to it. -/
theorem QueuedOnce.dequeue (h : QueuedOnce k t) :
    NodesAvoid (k.schedDequeue t).schedNode t
      ∧ ∀ p, ListAvoid ((k.schedDequeue t).runQueues p) t := by
  obtain ⟨xs, hrep, ht, hnodes, hqueues⟩ := h
  have hrest := hrep.remove_erase ht
  have hout : t ∉ xs.erase t := by
    intro hm
    exact (hrep.nodup.mem_erase_iff.mp hm).1 rfl
  obtain ⟨hanchor, hinside⟩ := listRep_avoid hrest hout
  constructor
  · intro u hu
    by_cases hux : u ∈ xs
    · exact hinside u ((List.mem_erase_of_ne hu).mpr hux)
    · have hframe : (k.schedDequeue t).schedNode u = k.schedNode u := hrep.remove_frame ht hux
      rw [hframe]
      exact hnodes u hux
  · intro p
    simp only [schedDequeue]
    rw [Function.update_apply]
    split
    · exact hanchor
    · rename_i hp
      exact hqueues p hp

/-- The dequeue both calls begin with. -/
theorem Removable.apart (h : Removable s t) :
    Apart t (if (s.k.thr t).state.Active then s.k.schedDequeue t else s.k) := by
  split
  · rename_i hact
    obtain ⟨hnodes, hqueues⟩ := (h.queued hact).dequeue
    exact ⟨hnodes, hqueues, h.sleep, h.sleepers, h.wait⟩
  · rename_i hact
    obtain ⟨hnodes, hqueues⟩ := h.unqueued hact
    exact ⟨hnodes, hqueues, h.sleep, h.sleepers, h.wait⟩

/-- What the two calls have in common: `t` leaves its queue and changes its state to one outside
the run queues, and a thread that removed itself is about to reschedule. -/
theorem Removable.gone (h : Removable s t) (hcur : s.k.current = some self) {f : Thread → Thread}
    (hf : ∀ th, (f th).state = .dead ∨ (f th).state = .suspended) {p : Pc}
    (hp : t = self → ∃ a, p = .resched a) :
    Gone t ({ s with k := ((if (s.k.thr t).state.Active then s.k.schedDequeue t else s.k).modThread
      t f) }.setPc self p) := by
  have ha := h.apart
  have hframe : ∀ b : Prop, [Decidable b] →
      (if b then s.k.schedDequeue t else s.k).idle = s.k.idle
        ∧ (if b then s.k.schedDequeue t else s.k).current = s.k.current
        ∧ (if b then s.k.schedDequeue t else s.k).schedLockCount = s.k.schedLockCount := by
    intro b _
    split <;> exact ⟨rfl, rfl, rfl⟩
  obtain ⟨hidle, hcurrent, hlock⟩ := hframe (s.k.thr t).state.Active
  have hl := h.lists
  refine ⟨⟨ha.sched, ha.queues, ha.sleep, ha.sleepers, ha.wait⟩,
    ⟨hl.mutex, hl.sem, hl.msgqRead, hl.msgqWrite, hl.event, hl.pool, hl.pipeRead, hl.pipeWrite⟩,
    ?_, ?_, ?_⟩
  · simpa [Sys.setPc] using hf _
  · simpa [Sys.setPc, hidle] using h.idle
  · intro hc
    have hold : s.k.current = some t := by
      rw [← hcurrent]
      exact hc
    obtain rfl : t = self := Option.some.inj (hold.symm.trans hcur)
    refine ⟨?_, ?_⟩
    · simpa [Sys.setPc, hlock] using h.unlocked hold
    · simpa [Sys.setPc] using hp rfl

/-- A removal reaches `Gone`, and a deleted thread is DEAD. -/
theorem Removes.gone {c : Call} (hc : Removes s self t c) (h : Removable s t)
    (hcur : s.k.current = some self) (hs : s.enter cfg self c = some s') :
    Gone t s' ∧ ((s'.k.thr t).state = .dead ∨ ∀ l, Resumes t l → c.Undoes t l) := by
  cases hc with
  | delete o ho =>
      obtain rfl := Option.some.inj hs
      rw [ho]
      refine ⟨?_, Or.inl ?_⟩
      · refine h.gone hcur (f := fun th => { th with
          state := .dead, stackBase := if th.isStatic then th.stackBase else none })
          (fun _ => Or.inl rfl) fun he => ⟨.ret (.err .ok), ?_⟩
        rw [if_pos he]
      · simp [Sys.setPc, threadDelete]
  | suspend o ho hd =>
      obtain rfl := Option.some.inj hs
      rw [ho]
      unfold threadSuspend
      rw [if_neg hd]
      refine ⟨?_, Or.inr fun l hl => Or.inr hl⟩
      refine h.gone hcur (f := fun th => { th with state := .suspended })
        (fun _ => Or.inr rfl) fun he => ⟨.ret (.err .ok), ?_⟩
      rw [if_pos ⟨rfl, he⟩]

theorem Removes.revives {c : Call} (hc : Removes s self t c) {l : Sys.Label}
    (hl : Revives t l) : c.Undoes t l := by
  cases hc with
  | delete o ho => exact hl
  | suspend o ho hd => exact Or.inl hl

/-- What is gone stays gone. -/
theorem Gone.run : ∀ {labels : List Sys.Label} {s : Sys}, Gone t s →
    (∀ l ∈ labels, ¬ Revives t l) →
    ((s.k.thr t).state = .dead ∨ ∀ l ∈ labels, ¬ Resumes t l) →
    run (Sys.step cfg) s labels = some s' → Gone t s'
  | [], s, h, _, _, hr => by
      rw [run_nil] at hr
      exact Option.some.inj hr ▸ h
  | l :: ls, s, h, hl, hres, hr => by
      obtain ⟨s₁, hs, hrest⟩ := run_cons.mp hr
      have hone : StaysGone t s s₁ := by
        refine h.step (hl l List.mem_cons_self) (fun hsus => ?_) hs
        rcases hres with hd | hres
        · rw [hd] at hsus
          exact absurd hsus (by decide)
        · exact hres l List.mem_cons_self
      refine Gone.run hone.1 (fun l' hl' => hl l' (List.mem_cons_of_mem _ hl')) ?_ hrest
      exact hres.imp hone.2 fun hres l' hl' => hres l' (List.mem_cons_of_mem _ hl')

/--
**Delete and suspend are final for a removable thread.**

After the call, and whatever the ticks, the interrupts and the other threads do, `t`
is in no run queue until a step undoes the call: a re-creation or a restart of `t`,
or, after a suspend, a resume of `t`.
-/
theorem removed_for_good {s₁ s₂ : Sys} {c : Call} {labels : List Sys.Label}
    (hcur : s.k.current = some self) (hc : Removes s self t c) (hrem : Removable s t)
    (hs : s.step cfg (.call c) = some s₁) (hlater : ∀ l ∈ labels, ¬ c.Undoes t l)
    (hrun : run (Sys.step cfg) s₁ labels = some s₂) (p : Prio) :
    t ∉ listNodes s₂.k.schedNode (s₂.k.runQueues p) := by
  have henter : s.enter cfg self c = some s₁ := by
    rw [Sys.step, hcur] at hs
    dsimp only at hs
    split at hs
    · exact hs
    · exact absurd hs (by simp)
  obtain ⟨hgone, hundo⟩ := hc.gone hrem hcur henter
  have hend : Gone t s₂ := by
    refine hgone.run (fun l hl hr => hlater l hl (hc.revives hr)) ?_ hrun
    exact hundo.imp_right fun h l hl hr => hlater l hl (h l hr)
  exact avoid_nodes hend.apart.sched (hend.apart.queues p)

/-- The idle thread 9 and thread 1 are created and thread 1 is started: it may delete itself. -/
theorem removable_started {s : Sys}
    (hs : run (Sys.step ⟨1000, 10, true⟩)
      (Sys.bss ⟨1000, 10, true⟩ (fun _ => threadDefine [] 512 0 0 0 5) (some 9))
      [.boot 9 0x200 0 (some ⟨256, 0, none, true, -1⟩) (some 0x1000) none,
        .boot 1 0x100 0 (some ⟨512, 5, none, true, -1⟩) (some 0x2000) none, .start] = some s) :
    Removable s 1 := by
  obtain rfl := Option.some.inj hs
  have hnil : ∀ (mem : Tid → Link Tid) (u v : Tid), (∀ x, mem x = ⟨none, none⟩) →
      (Function.update mem u ⟨none, none⟩) v = ⟨none, none⟩ := by
    intro mem u v h
    rw [Function.update_apply]
    split
    · rfl
    · exact h v
  have havoid : ∀ mem : Tid → Link Tid, (∀ x, mem x = ⟨none, none⟩) → NodesAvoid mem 1 := by
    intro mem h u _
    rw [h u]
    exact ⟨by simp, by simp⟩
  have hzero : ∀ x : Tid, (fun _ : Tid => (⟨none, none⟩ : Link Tid)) x = ⟨none, none⟩ :=
    fun _ => rfl
  have hcleared := fun x => hnil _ 1 x fun y => hnil _ 9 y hzero
  refine ⟨?_, havoid _ hcleared, havoid _ hcleared, listAvoid_init, fun _ => ?_, ?_,
    ⟨by decide, by decide⟩, fun _ => rfl⟩
  · constructor <;> exact fun _ => listAvoid_init
  · have hnodes := fun x =>
      hnil _ 1 x fun y => hnil _ 1 y fun z => hnil _ 9 z fun w => hnil _ 9 w hzero
    refine ⟨[1], ⟨rfl, rfl, rfl, by simp, hnodes 1, trivial⟩, by simp, ?_, ?_⟩
    · intro u _
      have hu := hnodes u
      refine ⟨fun he => ?_, fun he => ?_⟩
      · exact absurd ((congrArg Link.prev hu).symm.trans he) (by simp)
      · exact absurd ((congrArg Link.next hu).symm.trans he) (by simp)
    · intro p hp
      have hp5 : p ≠ 5 := hp
      show ListAvoid (Function.update (Function.update (fun _ => listInit) 0
        ⟨some 9, some 9, 1⟩) 5 ⟨some 1, some 1, 1⟩ p) 1
      rw [Function.update_of_ne hp5, Function.update_apply]
      split
      · exact ⟨by decide, by decide⟩
      · exact listAvoid_init
  · intro hna
    exact absurd (Or.inr rfl) hna

/-- Thread 1 deletes itself; a tick and a semaphore release later it is in no run queue. -/
theorem removed_for_good_self :
    ∃ s s₁ s₂, run (Sys.step ⟨1000, 10, true⟩)
        (Sys.bss ⟨1000, 10, true⟩ (fun _ => threadDefine [] 512 0 0 0 5) (some 9))
        [.boot 9 0x200 0 (some ⟨256, 0, none, true, -1⟩) (some 0x1000) none,
          .boot 1 0x100 0 (some ⟨512, 5, none, true, -1⟩) (some 0x2000) none, .start] = some s
      ∧ Sys.step ⟨1000, 10, true⟩ s (.call (.threadDelete none)) = some s₁
      ∧ run (Sys.step ⟨1000, 10, true⟩) s₁ [.cont, .tick, .isrSemGive 0] = some s₂
      ∧ ∀ p, (1 : Tid) ∉ listNodes s₂.k.schedNode (s₂.k.runQueues p) := by
  obtain ⟨s, hs, s₁, hs₁, s₂, hs₂, hcur⟩ : ∃ s, run (Sys.step ⟨1000, 10, true⟩)
        (Sys.bss ⟨1000, 10, true⟩ (fun _ => threadDefine [] 512 0 0 0 5) (some 9))
        [.boot 9 0x200 0 (some ⟨256, 0, none, true, -1⟩) (some 0x1000) none,
          .boot 1 0x100 0 (some ⟨512, 5, none, true, -1⟩) (some 0x2000) none, .start] = some s
      ∧ ∃ s₁, Sys.step ⟨1000, 10, true⟩ s (.call (.threadDelete none)) = some s₁
      ∧ ∃ s₂, run (Sys.step ⟨1000, 10, true⟩) s₁ [.cont, .tick, .isrSemGive 0] = some s₂
      ∧ s.k.current = some 1 := ⟨_, rfl, _, rfl, _, rfl, rfl⟩
  refine ⟨s, s₁, s₂, hs, hs₁, hs₂, ?_⟩
  exact removed_for_good hcur (.delete none rfl) (removable_started hs) hs₁
    (by simp [Call.Undoes, Revives]) hs₂

/-- A traversal meets the head. -/
theorem head_mem_nodes {mem : Tid → Link Tid} {l : VList Tid} (h : l.head = some t) :
    t ∈ listNodes mem l := by
  rw [listNodes, h, show walkBound = (walkBound - 1) + 1 from rfl, walk]
  exact List.mem_cons_self

/--
Threads that come back. Thread 2 deletes thread 1 while it sleeps, and the tick that
ends the sleep enqueues the DEAD thread 1. Thread 2 suspends thread 1 while it waits on
a semaphore, and giving the semaphore enqueues it.
-/
theorem removed_threads_return :
    let step := Sys.step ⟨1000, 10, true⟩
    let s₀ := Sys.bss ⟨1000, 10, true⟩ (fun _ => threadDefine [] 512 0 0 0 5) (some 9)
    let boots : List Sys.Label :=
      [.boot 9 0x200 0 (some ⟨256, 0, none, true, -1⟩) (some 0x1000) none,
        .boot 1 0x100 0 (some ⟨512, 5, none, true, -1⟩) (some 0x2000) none,
        .boot 2 0x100 0 (some ⟨512, 3, none, true, -1⟩) (some 0x3000) none, .start]
    (∃ s s₁ s₂, run step s₀ (boots ++ [.call (.threadSleep 2), .cont]) = some s
        ∧ (s.k.current = some 2 ∧ Removes s 2 1 (.threadDelete (some 1)))
        ∧ step s (.call (.threadDelete (some 1))) = some s₁
        ∧ run step s₁ [.cont, .tick, .tick] = some s₂
        ∧ (1 : Tid) ∈ listNodes s₂.k.schedNode (s₂.k.runQueues 5))
      ∧ ∃ s s₁ s₂, run step s₀ (boots ++ [.call (.semTake 0 waitForever), .cont]) = some s
        ∧ (s.k.current = some 2 ∧ Removes s 2 1 (.threadSuspend (some 1)))
        ∧ step s (.call (.threadSuspend (some 1))) = some s₁
        ∧ run step s₁ [.cont, .call (.semGive 0)] = some s₂
        ∧ (1 : Tid) ∈ listNodes s₂.k.schedNode (s₂.k.runQueues 5) := by
  intro step s₀ boots
  constructor
  · obtain ⟨s, hs, hcur⟩ : ∃ s, run step s₀ (boots ++ [.call (.threadSleep 2), .cont]) = some s
        ∧ s.k.current = some 2 := Option.map_eq_some_iff.mp (by decide +kernel)
    obtain ⟨s₂, hrun, hhead⟩ : ∃ s₂, run step s₀ ((boots ++ [.call (.threadSleep 2), .cont])
        ++ [.call (.threadDelete (some 1)), .cont, .tick, .tick]) = some s₂
        ∧ (s₂.k.runQueues 5).head = some 1 := Option.map_eq_some_iff.mp (by decide +kernel)
    obtain ⟨s', hs', hrest⟩ := run_append.mp hrun
    obtain rfl : s = s' := Option.some.inj (hs.symm.trans hs')
    obtain ⟨s₁, hs₁, hs₂⟩ := run_cons.mp hrest
    exact ⟨s, s₁, s₂, hs, ⟨hcur, .delete _ rfl⟩, hs₁, hs₂, head_mem_nodes hhead⟩
  · obtain ⟨s, hs, hfacts⟩ : ∃ s, run step s₀ (boots ++ [.call (.semTake 0 waitForever), .cont])
        = some s ∧ (s.k.current, (s.k.thr 1).state) = (some 2, .waiting) :=
      Option.map_eq_some_iff.mp (by decide +kernel)
    obtain ⟨hcur, hstate⟩ := Prod.mk.inj hfacts
    obtain ⟨s₂, hrun, hhead⟩ : ∃ s₂, run step s₀
        ((boots ++ [.call (.semTake 0 waitForever), .cont])
          ++ [.call (.threadSuspend (some 1)), .cont, .call (.semGive 0)]) = some s₂
        ∧ (s₂.k.runQueues 5).head = some 1 := Option.map_eq_some_iff.mp (by decide +kernel)
    obtain ⟨s', hs', hrest⟩ := run_append.mp hrun
    obtain rfl : s = s' := Option.some.inj (hs.symm.trans hs')
    obtain ⟨s₁, hs₁, hs₂⟩ := run_cons.mp hrest
    exact ⟨s, s₁, s₂, hs, ⟨hcur, .suspend _ rfl (by rw [hstate]; decide)⟩, hs₁, hs₂,
      head_mem_nodes hhead⟩

end VibeRtos
