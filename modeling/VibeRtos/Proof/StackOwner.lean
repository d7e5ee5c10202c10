import VibeRtos.Kernel.StackSystem
import VibeRtos.Proof.StackLayout

/-!
# Who frees a stack

`vibe_thread_delete` goes by `is_static`, which the caller sets as it likes. As the record has
it, the fields of a control block say where its stack is; whether that matches `is_static` is
decided by the arguments of the create alone.
-/

namespace VibeRtos

open Kernel Runs

/-! ## The fields of a control block -/

section

variable {cfg : Config} {k : Kernel} {t u : Tid}

/-- Where a thread's stack is, and whether it is static. -/
def Kernel.stackOf (k : Kernel) (t : Tid) : Option Nat × Bool :=
  ((k.thr t).stackBase, (k.thr t).isStatic)

@[simp] theorem stackOf_enqueue (v : Tid) : (k.schedEnqueue v).stackOf t = k.stackOf t := by
  unfold stackOf
  rw [schedEnqueue_thr, Function.update_apply]
  split
  · rename_i he
    rw [he]
  · rfl

@[simp] theorem stackOf_dequeue (v : Tid) : (k.schedDequeue v).stackOf t = k.stackOf t := rfl

@[simp] theorem stackOf_sleepRemove (v : Tid) : (k.sleepRemove v).stackOf t = k.stackOf t := rfl

theorem stackOf_modThread {f : Thread → Thread}
    (hf : ∀ th, (f th).stackBase = th.stackBase ∧ (f th).isStatic = th.isStatic) :
    (k.modThread u f).stackOf t = k.stackOf t := by
  unfold stackOf
  rw [modThread_thr]
  split
  · rename_i he
    rw [he, (hf _).1, (hf _).2]
  · rfl

theorem threadSuspend_stackOf : (k.threadSuspend u).2.stackOf t = k.stackOf t := by
  unfold threadSuspend
  split
  · rfl
  · dsimp only
    refine (stackOf_modThread ?_).trans ?_
    · exact fun th => ⟨rfl, rfl⟩
    · split <;> simp

theorem threadResume_stackOf : (k.threadResume u).2.stackOf t = k.stackOf t := by
  unfold threadResume
  split <;> simp

theorem threadRestart_stackOf : (k.threadRestart u).stackOf t = k.stackOf t := by
  unfold threadRestart
  dsimp only
  rw [stackOf_enqueue]
  refine (stackOf_modThread ?_).trans ?_
  · exact fun th => ⟨rfl, rfl⟩
  · split
    · simp
    · split <;> simp

/-- A deletion takes away what it frees. -/
theorem threadDelete_stackOf : (k.threadDelete u).stackOf t
    = if t = u ∧ (k.thr u).isStatic = false then (none, false) else k.stackOf t := by
  unfold threadDelete
  have hthr : (if (k.thr u).state.Active then k.schedDequeue u else k).thr = k.thr := by
    split <;> rfl
  dsimp only
  unfold stackOf
  rw [modThread_thr, hthr]
  by_cases htu : t = u
  · subst htu
    cases hstatic : (k.thr t).isStatic with
    | true => simp
    | false => simp
  · simp [htu]

theorem threadCreate_of_ne {entry arg : Nat} {attr : Option ThreadAttr}
    {stack heapStack : Option Nat} (h : t ≠ u) :
    (k.threadCreate cfg u entry arg attr stack heapStack).2.stackOf t = k.stackOf t := by
  unfold threadCreate
  cases attr with
  | none => rfl
  | some at' =>
      dsimp only
      split
      · rfl
      · split
        · rfl
        · cases stack.or heapStack with
          | none => rfl
          | some base =>
              dsimp only
              rw [stackOf_enqueue]
              simp only [stackOf, Function.update_of_ne h]

theorem threadCreate_failed {entry arg : Nat} {attr : Option ThreadAttr}
    {stack heapStack : Option Nat}
    (h : (k.threadCreate cfg u entry arg attr stack heapStack).1 ≠ .ok) :
    (k.threadCreate cfg u entry arg attr stack heapStack).2 = k := by
  unfold threadCreate at h ⊢
  cases attr with
  | none => rfl
  | some at' =>
      dsimp only at h ⊢
      split
      · rfl
      · split
        · rfl
        · rename_i hentry hprio
          rw [if_neg hentry, dif_neg hprio] at h
          cases hbuf : stack.or heapStack with
          | none => rfl
          | some base =>
              rw [hbuf] at h
              exact absurd rfl h

end

namespace StackSys

variable {cfg : Config} {s s' : StackSys} {l : Label}

/-- The record and the control blocks. -/
structure Inv (s : StackSys) : Prop where
  unset : ∀ t, s.origin t = .unset → (s.k.stackOf t).2 = true ∨ (s.k.stackOf t).1 = none
  caller : ∀ t base, s.origin t = .caller base → (s.k.stackOf t).1 = some base
  heap : ∀ t base, s.origin t = .heap base → (s.k.stackOf t).1 = some base
  freed : ∀ t base, s.origin t = .freed base → (s.k.stackOf t).1 = none

theorem Initial.inv (h : s.Initial) : s.Inv := by
  have hnot : ∀ {t o}, s.origin t = o → o = .unset := fun he => he ▸ h.origin _
  exact ⟨fun t _ => h.static t, fun _ _ he => absurd (hnot he) (by simp),
    fun _ _ he => absurd (hnot he) (by simp), fun _ _ he => absurd (hnot he) (by simp)⟩

theorem Inv.congr (h : s.Inv) (horigin : s'.origin = s.origin)
    (hstack : ∀ t, s'.k.stackOf t = s.k.stackOf t) : s'.Inv :=
  ⟨fun t ht => by rw [hstack]; exact h.unset t (horigin ▸ ht),
    fun t base ht => by rw [hstack]; exact h.caller t base (horigin ▸ ht),
    fun t base ht => by rw [hstack]; exact h.heap t base (horigin ▸ ht),
    fun t base ht => by rw [hstack]; exact h.freed t base (horigin ▸ ht)⟩

/-- The thread whose record changes, and the others. -/
theorem Inv.update (h : s.Inv) {t : Tid} {o : StackOrigin} {k : Kernel}
    (hother : ∀ u, u ≠ t → k.stackOf u = s.k.stackOf u) (hne : o ≠ .unset)
    (hkept : ∀ base, o = .caller base ∨ o = .heap base → (k.stackOf t).1 = some base)
    (hgone : ∀ base, o = .freed base → (k.stackOf t).1 = none) :
    Inv ⟨k, Function.update s.origin t o⟩ := by
  refine ⟨fun u hu => ?_, fun u base hu => ?_, fun u base hu => ?_, fun u base hu => ?_⟩ <;>
    by_cases hut : u = t
  · subst hut
    exact absurd ((Function.update_self ..).symm.trans hu) hne
  · rw [hother u hut]
    exact h.unset u ((Function.update_of_ne hut ..).symm.trans hu)
  · subst hut
    exact hkept base (Or.inl ((Function.update_self ..).symm.trans hu))
  · rw [hother u hut]
    exact h.caller u base ((Function.update_of_ne hut ..).symm.trans hu)
  · subst hut
    exact hkept base (Or.inr ((Function.update_self ..).symm.trans hu))
  · rw [hother u hut]
    exact h.heap u base ((Function.update_of_ne hut ..).symm.trans hu)
  · subst hut
    exact hgone base ((Function.update_self ..).symm.trans hu)
  · rw [hother u hut]
    exact h.freed u base ((Function.update_of_ne hut ..).symm.trans hu)

theorem Inv.create (h : s.Inv) (t : Tid) (entry arg : Nat) (attr : Option ThreadAttr)
    (stack heapStack : Option Nat)
    (hs : s.step cfg (.create t entry arg attr stack heapStack) = some s') :
    s'.Inv := by
  obtain rfl := Option.some.inj hs
  by_cases hok : (s.k.threadCreate cfg t entry arg attr stack heapStack).1 = .ok
  · obtain ⟨at', prio, base, -, hbase, hthr⟩ := threadCreate_ok (t := t)
      (Prod.ext hok rfl : s.k.threadCreate cfg t entry arg attr stack heapStack = (.ok, _))
    have hstack : ((s.k.threadCreate cfg t entry arg attr stack heapStack).2.stackOf t).1
      = some base := by
      unfold Kernel.stackOf
      rw [hthr]
      rfl
    rw [if_pos hok]
    refine h.update (fun u hu => threadCreate_of_ne hu) ?_ ?_ ?_
    · cases stack with
      | some b => simp [born]
      | none => rw [Option.none_or] at hbase; simp [born, hbase]
    · intro b hb
      rw [hstack]
      cases stack with
      | some c =>
          obtain rfl : c = base := by simpa using hbase
          simpa [born] using hb
      | none =>
          rw [Option.none_or] at hbase
          simpa [born, hbase] using hb
    · intro b hb
      cases stack with
      | some c => simp [born] at hb
      | none => rw [Option.none_or] at hbase; simp [born, hbase] at hb
  · exact h.congr (if_neg hok) fun u => by rw [threadCreate_failed hok]

theorem Inv.delete (h : s.Inv) (t : Tid) (hs : s.step cfg (.delete t) = some s') : s'.Inv := by
  obtain rfl := Option.some.inj hs
  cases hfree : s.k.deleteFrees t with
  | some base =>
      have hstatic : (s.k.thr t).isStatic = false := by
        by_contra hne
        rw [Kernel.deleteFrees, if_pos (by simpa using hne)] at hfree
        exact absurd hfree (by simp)
      refine h.update (fun u hu => ?_) (by simp) (by simp) fun _ _ => ?_
      · rw [threadDelete_stackOf, if_neg fun hc => hu hc.1]
      · rw [threadDelete_stackOf, if_pos ⟨rfl, hstatic⟩]
  | none =>
      refine h.congr rfl fun u => ?_
      rw [threadDelete_stackOf]
      split
      · rename_i hc
        obtain ⟨rfl, hstatic⟩ := hc
        rw [Kernel.deleteFrees, hstatic, if_neg (by simp)] at hfree
        exact Prod.ext hfree.symm hstatic.symm
      · rfl

theorem Inv.step (h : s.Inv) (hs : s.step cfg l = some s') : s'.Inv := by
  cases l with
  | create t entry arg attr stack heapStack => exact h.create t entry arg attr stack heapStack hs
  | delete t => exact h.delete t hs
  | suspend t =>
      obtain rfl := Option.some.inj hs
      exact h.congr rfl fun u => threadSuspend_stackOf
  | resume t =>
      obtain rfl := Option.some.inj hs
      exact h.congr rfl fun u => threadResume_stackOf
  | restart t =>
      obtain rfl := Option.some.inj hs
      exact h.congr rfl fun u => threadRestart_stackOf
  | switch next =>
      obtain rfl := Option.some.inj hs
      exact h.congr rfl fun u => rfl

/-- The deletion of a tidy thread frees the stack that came from the heap. -/
theorem Inv.deleteFrees_of_tidy {t : Tid} (h : s.Inv) (ht : s.Tidy (.delete t)) :
    s.k.deleteFrees t = match s.origin t with
      | .heap base => some base
      | _ => none := by
  have hfrees : s.k.deleteFrees t
      = if (s.k.stackOf t).2 then none else (s.k.stackOf t).1 := rfl
  unfold Tidy at ht
  dsimp only at ht
  rw [hfrees]
  cases horigin : s.origin t with
  | unset =>
      rcases h.unset t horigin with hstatic | hnone
      · rw [if_pos hstatic]
      · rw [hnone, ite_self]
  | freed base => rw [h.freed t base horigin, ite_self]
  | caller base =>
      rw [horigin] at ht
      exact if_pos ht
  | heap base =>
      rw [horigin] at ht
      rw [h.heap t base horigin]
      exact if_neg (by rw [show (s.k.stackOf t).2 = false from ht.1]; simp)

/-- A deletion keeps its promises exactly if the thread is tidy. -/
theorem Inv.owns_iff (h : s.Inv) (l : Label) : s.Owns l ↔ s.Tidy l := by
  cases l with
  | delete t =>
      have hfrees : s.k.deleteFrees t
          = if (s.k.stackOf t).2 then none else (s.k.stackOf t).1 := rfl
      constructor
      · intro ho
        have hfreed := ho.freed t rfl
        have hrun := ho.running t rfl
        unfold Tidy
        dsimp only
        cases horigin : s.origin t with
        | unset => trivial
        | freed base => trivial
        | caller base =>
            rw [horigin, hfrees, h.caller t base horigin] at hfreed
            show (s.k.stackOf t).2 = true
            by_contra hne
            rw [if_neg hne] at hfreed
            exact absurd hfreed (by simp)
        | heap base =>
            rw [horigin] at hfreed
            have hstatic : (s.k.stackOf t).2 = false := by
              by_contra hne
              rw [hfrees, if_pos (by simpa using hne)] at hfreed
              exact absurd hfreed (by simp)
            refine ⟨hstatic, fun hcur => ?_⟩
            rw [hrun hcur] at hfreed
            exact absurd hfreed (by simp)
      · intro ht
        have hfreed := h.deleteFrees_of_tidy ht
        unfold Tidy at ht
        dsimp only at ht
        refine ⟨fun u hu => ?_, fun u hu hcur => ?_, fun u base hu => absurd hu (by simp)⟩
        · obtain rfl : t = u := Label.delete.inj hu
          exact hfreed
        · obtain rfl : t = u := Label.delete.inj hu
          rw [hfreed]
          cases horigin : s.origin t with
          | heap base =>
              rw [horigin] at ht
              exact absurd hcur ht.2
          | _ => rfl
  | restart t =>
      refine iff_of_true ⟨fun u hu => absurd hu (by simp), fun u hu => absurd hu (by simp),
        fun u base hu horigin hbase => ?_⟩ trivial
      -- a freed stack is not the thread's any more
      exact absurd (hbase.symm.trans (h.freed u base horigin)) (by simp)
  | create t entry arg attr stack heapStack =>
      exact iff_of_true ⟨fun u hu => absurd hu (by simp), fun u hu => absurd hu (by simp),
        fun u base hu => absurd hu (by simp)⟩ trivial
  | suspend t =>
      exact iff_of_true ⟨fun u hu => absurd hu (by simp), fun u hu => absurd hu (by simp),
        fun u base hu => absurd hu (by simp)⟩ trivial
  | resume t =>
      exact iff_of_true ⟨fun u hu => absurd hu (by simp), fun u hu => absurd hu (by simp),
        fun u base hu => absurd hu (by simp)⟩ trivial
  | switch next =>
      exact iff_of_true ⟨fun u hu => absurd hu (by simp), fun u hu => absurd hu (by simp),
        fun u base hu => absurd hu (by simp)⟩ trivial

end StackSys

open StackSys in
/--
**When deletions free what they should.**

Along every run, each deletion frees the thread's stack exactly if the thread's create got it
from the heap and it has not been freed, and never under the running thread, if and only if
each thread that is deleted has `is_static` set when the caller gave the stack, and clear when
it came from the heap, in which case it does not delete itself. No restart builds a frame on
a stack that has been freed.
-/
theorem stack_ownership_iff {cfg : Config} {s : StackSys} (h : s.Initial)
    (labels : List StackSys.Label) :
    Along (StackSys.step cfg) StackSys.Owns s labels
      ↔ Along (StackSys.step cfg) StackSys.Tidy s labels :=
  along_iff_along (fun _ _ _ hi hs => Inv.step hi hs) (fun _ l hi => Inv.owns_iff hi l) h.inv

/-- No thread has been created. -/
def stacksFresh : StackSys :=
  ⟨bss ⟨1000, 10, true⟩ (fun _ => threadDefine [] 0 0 0 0 0) none, fun _ => .unset⟩

theorem stacksFresh_initial : stacksFresh.Initial := ⟨fun _ => rfl, fun _ => Or.inl rfl⟩

/-- Thread 1 on a stack of the caller and thread 2 on one from the heap; 1 deletes 2, and again,
restarts it and creates it anew. -/
def tidyLabels : List StackSys.Label :=
  [.create 1 0x100 0 (some ⟨512, 5, none, true, 0⟩) (some 0x2000) none,
    .create 2 0x200 0 (some ⟨512, 5, none, false, 0⟩) none (some 0x8000), .switch (some 1),
    .suspend 2, .delete 2, .delete 2, .restart 2,
    .create 2 0x200 0 (some ⟨512, 5, none, false, 0⟩) none (some 0x9000), .delete 2, .delete 1]

theorem stack_ownership_iff_two :
    Along (StackSys.step ⟨1000, 10, true⟩) StackSys.Owns stacksFresh tidyLabels :=
  (stack_ownership_iff stacksFresh_initial tidyLabels).mpr (by decide +kernel)

/-- The caller gives a buffer and leaves `is_static` clear. -/
def lentLabels : List StackSys.Label :=
  [.create 1 0x100 0 (some ⟨512, 5, none, false, 0⟩) (some 0x2000) none, .delete 1]

/-- The buffer is given to the heap. -/
theorem lent_stack_freed : ∃ s, run (StackSys.step ⟨1000, 10, true⟩) stacksFresh [lentLabels[0]]
      = some s ∧ s.origin 1 = .caller 0x2000 ∧ s.k.deleteFrees 1 = some 0x2000
    ∧ ¬ Along (StackSys.step ⟨1000, 10, true⟩) StackSys.Owns stacksFresh lentLabels := by
  refine ⟨_, rfl, rfl, rfl, fun h => ?_⟩
  have hdelete := (h.2 _ rfl).1
  exact absurd (hdelete.freed 1 rfl) (by decide)

end VibeRtos
