import VibeRtos.Kernel.Thread
import VibeRtos.Lib.PrioFifo

/-!
# The run queues represent a priority queue of FIFOs

`QueuesRep k qs` says that the 32 intrusive lists under the ready mask hold the
sequences `qs`. It is the invariant behind everything the scheduler decides:
enqueueing and dequeueing act on the sequences, and `schedNextThread` reads the
head of the highest non-empty one off the mask.
-/

namespace VibeRtos

open Links Kernel

/-! ## The ready mask -/

theorem getLsbD_bit {n i : Nat} (hi : i < 32) : (bit n).getLsbD i = decide (i = n) := by
  have h := BitVec.getLsbD_twoPow (w := 32) n i
  rw [bit, ← BitVec.twoPow_eq, h]
  by_cases hin : i = n
  · subst hin; simp [hi]
  · simp [hin, Ne.symm hin]

theorem getLsbD_set_bit (m : BitVec 32) (p q : Prio) :
    (m ||| bit p).getLsbD q = (m.getLsbD q || decide (q = p)) := by
  rw [BitVec.getLsbD_or, getLsbD_bit q.isLt]
  simp [Fin.ext_iff]

theorem getLsbD_clear_bit (m : BitVec 32) (p q : Prio) :
    (m &&& ~~~ bit p).getLsbD q = (m.getLsbD q && decide (q ≠ p)) := by
  rw [BitVec.getLsbD_and, BitVec.getLsbD_not, getLsbD_bit q.isLt]
  simp [Fin.ext_iff, q.isLt]

/-- The count of leading zeros finds the highest set bit. -/
theorem highestReadyPriority_eq_some {k : Kernel} {p : Prio}
    (h : k.highestReadyPriority = some p) :
    k.readyMask.getLsbD p = true ∧ ∀ q : Prio, p < q → k.readyMask.getLsbD q = false := by
  unfold highestReadyPriority at h
  split at h
  · exact absurd h (by simp)
  · rename_i hne
    have hp : p.val = 31 - k.readyMask.clz.toNat := by
      have := congrArg Fin.val (Option.some.inj h); simpa using this.symm
    refine ⟨?_, ?_⟩
    · rw [hp]
      exact BitVec.getLsbD_true_clz_of_ne_zero (by decide) hne
    · intro q hq
      have hlt := BitVec.toNat_lt_two_pow_sub_clz (x := k.readyMask)
      have hle : 32 - k.readyMask.clz.toNat ≤ q.val := by
        have := Fin.lt_def.mp hq; omega
      rw [BitVec.getLsbD]
      exact Nat.testBit_lt_two_pow (hlt.trans_le (Nat.pow_le_pow_right (by decide) hle))

theorem highestReadyPriority_eq_none {k : Kernel} (h : k.highestReadyPriority = none) (p : Prio) :
    k.readyMask.getLsbD p = false := by
  unfold highestReadyPriority at h
  split at h
  · rename_i hz; rw [hz]; simp
  · exact absurd h (by simp)

/-! ## The representation -/

/-- The run queues hold the sequences `qs`, and the ready mask says which are not empty. -/
structure QueuesRep (k : Kernel) (qs : Prio → List Tid) : Prop where
  /-- each anchor represents its sequence -/
  rep : ∀ p, ListRep k.schedNode (k.runQueues p) (qs p)
  /-- no thread is in two queues -/
  disjoint : ∀ {p q t}, t ∈ qs p → t ∈ qs q → p = q
  /-- bit `p` is set iff queue `p` is not empty -/
  mask : ∀ p : Prio, k.readyMask.getLsbD p = true ↔ qs p ≠ []

/-- The queues only depend on the scheduler nodes, the anchors and the mask. -/
theorem QueuesRep.congr {k k' : Kernel} {qs : Prio → List Tid} (h : QueuesRep k qs)
    (hn : k'.schedNode = k.schedNode) (hq : k'.runQueues = k.runQueues)
    (hm : k'.readyMask = k.readyMask) : QueuesRep k' qs where
  rep := by rw [hn, hq]; exact h.rep
  disjoint := h.disjoint
  mask := by rw [hm]; exact h.mask

/-- The queues are determined by the kernel. -/
theorem QueuesRep.unique {k : Kernel} {qs qs' : Prio → List Tid} (h : QueuesRep k qs)
    (h' : QueuesRep k qs') : qs = qs' :=
  funext fun p => (h.rep p).unique (h'.rep p)

/-- Enqueueing appends to the queue of the thread's priority. -/
theorem QueuesRep.enqueue {k : Kernel} {qs : Prio → List Tid} (h : QueuesRep k qs) {t : Tid}
    (ht : ∀ p, t ∉ qs p) :
    QueuesRep (k.schedEnqueue t)
      (Function.update qs (k.thr t).priority (qs (k.thr t).priority ++ [t])) := by
  have hprio : ((k.modThread t fun th => { th with state := .ready }).thr t).priority
      = (k.thr t).priority := by simp
  refine ⟨?_, ?_, ?_⟩
  · intro q
    simp only [schedEnqueue, hprio, modThread_schedNode, modThread_runQueues]
    by_cases hq : q = (k.thr t).priority
    · subst hq
      rw [Function.update_self, Function.update_self]
      exact (h.rep _).append (ht _)
    · rw [Function.update_of_ne hq, Function.update_of_ne hq]
      refine (h.rep q).congr fun x hx => (h.rep _).append_frame ?_ ?_
      · intro hx'; exact hq (h.disjoint hx hx')
      · rintro rfl; exact ht q hx
  · intro p q u hp hq
    simp only [Function.update_apply] at hp hq
    split at hp <;> split at hq
    · rename_i h1 h2; rw [h1, h2]
    · rename_i h1 _
      rcases List.mem_append.mp hp with hp | hp
      · exact h1 ▸ h.disjoint hp hq
      · obtain rfl := List.mem_singleton.mp hp; exact absurd hq (ht q)
    · rename_i _ h2
      rcases List.mem_append.mp hq with hq | hq
      · exact h2 ▸ h.disjoint hp hq
      · obtain rfl := List.mem_singleton.mp hq; exact absurd hp (ht p)
    · exact h.disjoint hp hq
  · intro q
    simp only [schedEnqueue, hprio, modThread_readyMask]
    rw [getLsbD_set_bit, Bool.or_eq_true, h.mask q]
    by_cases hq : q = (k.thr t).priority
    · subst hq; simp
    · simp [hq]

/-- Dequeueing takes the thread out of the queue of its priority. -/
theorem QueuesRep.dequeue {k : Kernel} {qs : Prio → List Tid} (h : QueuesRep k qs) {t : Tid}
    (ht : t ∈ qs (k.thr t).priority) :
    QueuesRep (k.schedDequeue t)
      (Function.update qs (k.thr t).priority ((qs (k.thr t).priority).erase t)) := by
  have hrem := (h.rep (k.thr t).priority).remove_erase ht
  refine ⟨?_, ?_, ?_⟩
  · intro q
    simp only [schedDequeue]
    by_cases hq : q = (k.thr t).priority
    · subst hq
      rw [Function.update_self, Function.update_self]
      exact hrem
    · rw [Function.update_of_ne hq, Function.update_of_ne hq]
      refine (h.rep q).congr fun x hx => (h.rep _).remove_frame ht ?_
      intro hx'; exact hq (h.disjoint hx hx')
  · intro p q u hp hq
    have hsub : ∀ r, u ∈ Function.update qs (k.thr t).priority
        ((qs (k.thr t).priority).erase t) r → u ∈ qs r := by
      intro r hr
      rw [Function.update_apply] at hr
      split at hr
      · rename_i h1; rw [h1]; exact List.mem_of_mem_erase hr
      · exact hr
    exact h.disjoint (hsub p hp) (hsub q hq)
  · intro q
    simp only [schedDequeue]
    by_cases hq : q = (k.thr t).priority
    · subst hq
      rw [Function.update_self]
      by_cases hnil : (qs (k.thr t).priority).erase t = []
      · rw [if_pos (hrem.isEmpty.mpr hnil), getLsbD_clear_bit]
        simp [hnil]
      · rw [if_neg (fun he => hnil (hrem.isEmpty.mp he)), h.mask]
        exact ⟨fun _ => hnil, fun _ he => by rw [he] at ht; simp at ht⟩
    · rw [Function.update_of_ne hq, ← h.mask q]
      split
      · rw [getLsbD_clear_bit]; simp [hq]
      · rfl

/-- The next thread heads the highest non-empty queue; the idle thread stands in for none. -/
theorem QueuesRep.next {k : Kernel} {qs : Prio → List Tid} (h : QueuesRep k qs) :
    ((∀ p, qs p = []) ∧ k.schedNextThread = k.idle) ∨
      ∃ p t rest, qs p = t :: rest ∧ (∀ q, p < q → qs q = []) ∧ k.schedNextThread = some t := by
  unfold schedNextThread
  cases hp : k.highestReadyPriority with
  | none =>
      refine Or.inl ⟨fun p => ?_, rfl⟩
      by_contra hne
      have := (h.mask p).mpr hne
      rw [highestReadyPriority_eq_none hp p] at this
      exact absurd this (by simp)
  | some p =>
      obtain ⟨hset, habove⟩ := highestReadyPriority_eq_some hp
      have hne := (h.mask p).mp hset
      cases hq : qs p with
      | nil => exact absurd hq hne
      | cons t rest =>
          refine Or.inr ⟨p, t, rest, hq, ?_, ?_⟩
          · intro q hlt
            by_contra hq'
            have := (h.mask q).mpr hq'
            rw [habove q hlt] at this
            exact absurd this (by simp)
          · have hh : (k.runQueues p).head = some t := by rw [(h.rep p).head, hq]; rfl
            simp [listPeekHead, hh]

end VibeRtos
