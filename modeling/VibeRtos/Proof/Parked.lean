import VibeRtos.Kernel.ObjectSystem

/-!
# Threads parked on a wait list

`Parked k l xs`: the wait list `l` holds the threads `xs`, and all of them are
WAITING. Blocking adds the caller at the end, a wake-up takes the first thread off
and makes it READY, and neither touches another list. Switching and ticks leave
every list as it is.
-/

namespace VibeRtos

open Links Kernel

/-- The threads of a wait list, all of them WAITING. -/
structure Parked (k : Kernel) (l : VList Tid) (xs : List Tid) : Prop where
  rep : ListRep k.waitNode l xs
  waiting : ∀ t ∈ xs, (k.thr t).state = .waiting

variable {k k' : Kernel} {l l' : VList Tid} {xs ys : List Tid} {self t : Tid}

theorem parked_init (k : Kernel) : Parked k listInit [] :=
  ⟨listRep_init _, by simp⟩

namespace Parked

theorem nodes (h : Parked k l xs) : listNodes k.waitNode l = xs :=
  h.rep.nodes (length_le_walkBound h.rep.nodup)

theorem nodup (h : Parked k l xs) : xs.Nodup := h.rep.nodup

/-- A thread that can run is not on the list. -/
theorem not_mem (h : Parked k l xs) (hact : (k.thr t).state.Active) : t ∉ xs := by
  intro ht
  rw [h.waiting t ht] at hact
  exact absurd hact (by decide)

/-- Only the nodes and states of the listed threads matter. -/
theorem congr (h : Parked k l xs) (hnode : ∀ x ∈ xs, k'.waitNode x = k.waitNode x)
    (hstate : ∀ x ∈ xs, (k'.thr x).state = (k.thr x).state) : Parked k' l xs :=
  ⟨h.rep.congr hnode, fun x hx => (hstate x hx).trans (h.waiting x hx)⟩

theorem switchTo (h : Parked k l xs) (hready : (k.thr t).state = .ready) :
    Parked (k.switchTo t) l xs := by
  refine h.congr (fun x _ => by rw [switchTo_waitNode k t]) fun x hx => ?_
  obtain ⟨st, hst, hkind⟩ := switchTo_thr k t x
  have hxw := h.waiting x hx
  rw [hst]
  rcases hkind with ⟨hold, -⟩ | ⟨-, -, hsame⟩
  · exfalso
    rcases hold with rfl | hact
    · rw [hready] at hxw
      exact absurd hxw (by decide)
    · exact h.not_mem hact hx
  · exact hsame

/-! ## Blocking -/

theorem park (h : Parked k l xs) (hself : self ∉ xs) (stop : UInt32) :
    Parked ((k.block self stop).waitAppend l self).1 ((k.block self stop).waitAppend l self).2
      (xs ++ [self]) := by
  refine ⟨h.rep.append hself, fun x hx => ?_⟩
  show ((k.block self stop).thr x).state = .waiting
  rcases List.mem_append.mp hx with hx | hx
  · have hne : x ≠ self := fun he => hself (he ▸ hx)
    rw [Kernel.block, modThread_of_ne _ _ _ hne]
    exact h.waiting x hx
  · obtain rfl := List.mem_singleton.mp hx
    rw [Kernel.block, modThread_self]

/-- Blocking on another list. -/
theorem park_other (h : Parked k l' ys) (hrep : ListRep k.waitNode l xs) (hself : self ∉ ys)
    (hdisj : ∀ x ∈ ys, x ∉ xs) (stop : UInt32) :
    Parked ((k.block self stop).waitAppend l self).1 l' ys := by
  refine h.congr (fun x hx => ?_) fun x hx => ?_
  all_goals have hne : x ≠ self := fun he => hself (he ▸ hx)
  · exact hrep.append_frame (hdisj x hx) hne
  · show ((k.block self stop).thr x).state = _
    rw [Kernel.block, modThread_of_ne _ _ _ hne]
    rfl

end Parked

/-! ## Waking -/

theorem waitGetHead_nil (h : ListRep k.waitNode l []) : k.waitGetHead l = (none, k, l) := by
  have hhead : l.head = none := h.head
  rw [Kernel.waitGetHead, hhead]

/-- What taking the first thread of a list does. -/
theorem waitGetHead_cons {x : Tid} (h : ListRep k.waitNode l (x :: xs)) :
    ∃ k' l', k.waitGetHead l = (some x, k', l') ∧ k'.thr = k.thr ∧ ListRep k'.waitNode l' xs
      ∧ (∀ y, y ∉ x :: xs → k'.waitNode y = k.waitNode y) ∧ k'.current = k.current
      ∧ k'.sleepList = k.sleepList := by
  have hhead : l.head = some x := h.head
  rw [Kernel.waitGetHead, hhead]
  refine ⟨_, _, rfl, rfl, ?_, ?_, rfl, rfl⟩
  · exact @ListRep.remove _ _ _ _ _ [] xs h
  · exact fun y hy => h.remove_frame List.mem_cons_self hy

/-- Taking any thread off its list and enqueueing it. -/
theorem Parked.release (h : Parked k l (xs ++ t :: ys)) :
    Parked ((k.waitRemove l t).1.schedEnqueue t) (k.waitRemove l t).2 (xs ++ ys) := by
  refine ⟨h.rep.remove, fun u hu => ?_⟩
  have hnot : t ∉ xs ++ ys := (List.nodup_cons.mp (List.nodup_middle.mp h.nodup)).1
  have hut : u ≠ t := fun he => hnot (he ▸ hu)
  have hin : u ∈ xs ++ t :: ys :=
    List.perm_middle.mem_iff.mpr (List.mem_cons_of_mem _ hu)
  rw [schedEnqueue_thr, Function.update_of_ne hut]
  exact h.waiting u hin

/-- What waking does: nothing, or the first thread becomes READY. -/
theorem wakeHead_nil (h : ListRep k.waitNode l []) : k.wakeHead l = (k, l) := by
  rw [Kernel.wakeHead, waitGetHead_nil h]

theorem wakeHead_cons {x : Tid} (h : Parked k l (x :: xs)) :
    Parked (k.wakeHead l).1 (k.wakeHead l).2 xs
      ∧ (k.wakeHead l).1.thr = Function.update k.thr x { k.thr x with state := .ready }
      ∧ (∀ y, y ∉ x :: xs → (k.wakeHead l).1.waitNode y = k.waitNode y)
      ∧ (k.wakeHead l).1.current = k.current ∧ (k.wakeHead l).1.sleepList = k.sleepList := by
  obtain ⟨k₁, l₁, hget, hthr, hrep, hframe, hcur, hsleep⟩ := waitGetHead_cons h.rep
  have hx : x ∉ xs := (List.nodup_cons.mp h.nodup).1
  have hthr' : (k₁.schedEnqueue x).thr
      = Function.update k.thr x { k.thr x with state := .ready } := by
    rw [schedEnqueue_thr, hthr]
  rw [Kernel.wakeHead, hget]
  refine ⟨⟨hrep, fun y hy => ?_⟩, hthr', hframe, hcur, hsleep⟩
  have hne : y ≠ x := fun he => hx (he ▸ hy)
  show ((k₁.schedEnqueue x).thr y).state = .waiting
  rw [hthr', Function.update_of_ne hne]
  exact h.waiting y (List.mem_cons_of_mem _ hy)

/-- Waking from another list. -/
theorem Parked.wakeHead_other (h : Parked k l' ys) (hp : Parked k l xs)
    (hdisj : ∀ x ∈ ys, x ∉ xs) : Parked (k.wakeHead l).1 l' ys := by
  cases xs with
  | nil =>
      rw [wakeHead_nil hp.rep]
      exact h
  | cons x xs =>
      obtain ⟨-, hthr, hframe, -, -⟩ := wakeHead_cons hp
      refine h.congr (fun y hy => hframe y (hdisj y hy)) fun y hy => ?_
      have hne : y ≠ x := fun he => hdisj y hy (he ▸ List.mem_cons_self)
      rw [hthr, Function.update_of_ne hne]

/-- Waking, whichever way it goes: the first thread is taken off the list. -/
theorem Parked.wakeHead (h : Parked k l xs) :
    Parked (k.wakeHead l).1 (k.wakeHead l).2 xs.tail
      ∧ (∀ t, t ∉ xs.head? → (k.wakeHead l).1.thr t = k.thr t)
      ∧ (k.wakeHead l).1.current = k.current ∧ (k.wakeHead l).1.sleepList = k.sleepList := by
  cases xs with
  | nil =>
      rw [wakeHead_nil h.rep]
      exact ⟨h, fun _ _ => rfl, rfl, rfl⟩
  | cons x xs =>
      obtain ⟨hp, hthr, -, hcur, hsleep⟩ := wakeHead_cons h
      refine ⟨hp, fun t ht => ?_, hcur, hsleep⟩
      have hne : t ≠ x := by
        rintro rfl
        exact ht rfl
      rw [hthr, Function.update_of_ne hne]

/-! ## Ticks -/

/-- With nobody asleep, a tick changes the state of the running thread at most. -/
theorem tickSection_thr (cfg : Config) (k : Kernel) (hsleep : k.sleepList.head = none) :
    (k.tickSection cfg).waitNode = k.waitNode ∧ (k.tickSection cfg).current = k.current
      ∧ (k.tickSection cfg).sleepList = k.sleepList
      ∧ ((k.tickSection cfg).thr = k.thr ∨ ∃ cur, k.current = some cur
        ∧ (k.thr cur).state = .running
        ∧ (k.tickSection cfg).thr
          = Function.update k.thr cur { k.thr cur with state := .ready }) := by
  have hwake : { k with tickCount := k.tickCount + 1 }.schedWakeExpired (k.tickCount + 1)
      = { k with tickCount := k.tickCount + 1 } := by
    show wakeLoop _ walkBound _ k.sleepList.head = _
    rw [hsleep]
    rfl
  obtain ⟨hnode, -, hlist, hcur, -, -, -, hthr⟩ :=
    schedTimesliceTick_frame cfg { k with tickCount := k.tickCount + 1 }
  unfold Kernel.tickSection
  dsimp only
  rw [hwake]
  exact ⟨hnode, hcur, hlist, hthr⟩

theorem switchTo_asleep (t : Tid) (hsleep : k.sleepList.head = none) :
    (k.switchTo t).sleepList.head = none := by
  rw [switchTo_sleepList]
  exact hsleep

theorem tickSection_asleep (cfg : Config) (hsleep : k.sleepList.head = none) :
    (k.tickSection cfg).sleepList.head = none := by
  obtain ⟨-, -, hlist, -⟩ := tickSection_thr cfg k hsleep
  rw [hlist]
  exact hsleep

theorem Parked.tickSection (h : Parked k l xs) (cfg : Config) (hsleep : k.sleepList.head = none) :
    Parked (k.tickSection cfg) l xs := by
  obtain ⟨hnode, -, -, hthr⟩ := tickSection_thr cfg k hsleep
  refine h.congr (fun x _ => by rw [hnode]) fun x hx => ?_
  rcases hthr with hsame | ⟨cur, -, hrun, hcur⟩
  · rw [hsame]
  · have hne : x ≠ cur := by
      rintro rfl
      exact h.not_mem (Or.inr hrun) hx
    rw [hcur, Function.update_of_ne hne]

end VibeRtos
