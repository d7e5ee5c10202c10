import Mathlib.Order.Bounds.Basic
import VibeRtos.Lib.Runs
import VibeRtos.Proof.MutexWaits

/-!
# Priority inheritance

The law: a thread's priority is the greatest among its base priority and the
priorities of the threads blocked on the mutexes it owns. The source keeps one saved
priority per mutex, taken when the mutex was acquired or handed over, and it boosts
one owner at a time; `InheritKeeps` is what a step must meet for that to be enough.
-/

namespace VibeRtos

open Links Kernel MutexSys Runs

/-- The priorities donated to `t` by the waiters `w m` of the mutexes `m` in `owned`. -/
def donors (s : MutexSys) (w : Nat → List Tid) (owned : Nat → Prop) (t : Tid) : Set Prio :=
  insert (s.k.thr t).basePriority
    { p | ∃ m, owned m ∧ ∃ u ∈ w m, (s.k.thr u).priority = p }

/-- `t` owns mutex `m`. -/
def Owns (s : MutexSys) (t : Tid) (m : Nat) : Prop := (s.mutex m).owner = some t

/-- The law of priority inheritance. -/
def Inherits (s : MutexSys) : Prop :=
  ∀ t, IsGreatest (donors s s.waiters (Owns s t) t) (s.k.thr t).priority

/-- When a step keeps the law. -/
def InheritKeeps (s : MutexSys) : Label → Prop
  -- a boost stops at the owner: it must not itself be blocked behind a less urgent one
  | .lock m timeout => ∀ self owner, s.k.current = some self → Owns s owner m → owner ≠ self →
      timeout ≠ noWait → (s.k.thr owner).priority < (s.k.thr self).priority →
      ∀ n x, owner ∈ s.waiters n → Owns s x n → (s.k.thr self).priority ≤ (s.k.thr x).priority
  -- the priority saved in the mutex must be the one the other mutexes call for, and the
  -- waiter that is given the mutex must be the most urgent
  | .unlock m => ∀ self, s.k.current = some self → Owns s self m → (s.mutex m).lockCount - 1 = 0 →
      IsGreatest (donors s s.waiters (fun n => n ≠ m ∧ Owns s self n) self)
          (s.mutex m).ownerOrigPrio
        ∧ ∀ next rest, s.waiters m = next :: rest →
            ∀ u ∈ rest, (s.k.thr u).priority ≤ (s.k.thr next).priority
  | _ => True

variable {s s' : MutexSys} {w : Nat → List Tid}

theorem mem_donors {owned : Nat → Prop} {t : Tid} {p : Prio} : p ∈ donors s w owned t ↔
    p = (s.k.thr t).basePriority ∨ ∃ m, owned m ∧ ∃ u ∈ w m, (s.k.thr u).priority = p := Iff.rfl

/-- Donations depend on the base priority, the owned mutexes and their waiters. -/
theorem donors_congr {w' : Nat → List Tid} {owned owned' : Nat → Prop} {t : Tid}
    (hbase : (s'.k.thr t).basePriority = (s.k.thr t).basePriority)
    (hsame : ∀ p, (∃ m, owned' m ∧ ∃ u ∈ w' m, (s'.k.thr u).priority = p)
      ↔ ∃ m, owned m ∧ ∃ u ∈ w m, (s.k.thr u).priority = p) :
    donors s' w' owned' t = donors s w owned t := by
  ext p
  rw [mem_donors, mem_donors, hbase, hsame p]

theorem Waits.waiters_eq (h : Waits s w) : s.waiters = w := funext h.waiters

/-- Owners that stay, with the same waiters and priorities, go on meeting the law. -/
theorem Inherits.congr (h : Inherits s) (hw : s'.waiters = s.waiters)
    (howner : ∀ t m, (Owns s' t m ∧ s.waiters m ≠ []) ↔ (Owns s t m ∧ s.waiters m ≠ []))
    (hprio : SamePrio s s') : Inherits s' := by
  intro t
  rw [(hprio t).1, hw, donors_congr (hprio t).2]
  · exact h t
  · intro p
    have hpart : ∀ m, (Owns s' t m ∧ ∃ u ∈ s.waiters m, (s'.k.thr u).priority = p)
        ↔ (Owns s t m ∧ ∃ u ∈ s.waiters m, (s.k.thr u).priority = p) := by
      intro m
      have hmem : (∃ u ∈ s.waiters m, (s'.k.thr u).priority = p)
          ↔ ∃ u ∈ s.waiters m, (s.k.thr u).priority = p := by
        refine exists_congr fun u => and_congr_right fun _ => ?_
        rw [(hprio u).1]
      rw [hmem]
      have hne : (∃ u ∈ s.waiters m, (s.k.thr u).priority = p) → s.waiters m ≠ [] := by
        intro hex hnil
        obtain ⟨u, hu, -⟩ := hex
        rw [hnil] at hu
        exact absurd hu (by simp)
      refine ⟨fun ho => ⟨?_, ho.2⟩, fun ho => ⟨?_, ho.2⟩⟩
      · exact ((howner t m).mp ⟨ho.1, hne ho.2⟩).1
      · exact ((howner t m).mpr ⟨ho.1, hne ho.2⟩).1
    exact exists_congr hpart

theorem owns_update {m n : Nat} {mx : Mutex} (hmutex : s'.mutex = Function.update s.mutex m mx)
    (t : Tid) : Owns s' t n ↔ if n = m then mx.owner = some t else Owns s t n := by
  unfold Owns
  rw [hmutex, Function.update_apply]
  split <;> rfl

/-- A change of one mutex that keeps its owner keeps all owners. -/
theorem owns_same {m : Nat} {mx : Mutex} (hmutex : s'.mutex = Function.update s.mutex m mx)
    (howner : mx.owner = (s.mutex m).owner) (t : Tid) (n : Nat) : Owns s' t n ↔ Owns s t n := by
  rw [owns_update hmutex]
  split
  · rename_i hn
    rw [hn, howner]
    rfl
  · rfl

/-! ## Blocking -/

section Block

variable {self owner : Tid} {m : Nat} {pre post : List Tid}

/-- Blocking keeps the law exactly when the boost does not have to travel further. -/
theorem inherits_block (hw : Waits s w) (h : Inherits s)
    (howner : Owns s owner m) (hne : owner ≠ self) (hsplit : w m = pre ++ post)
    (hw' : s'.waiters = Function.update w m (pre ++ self :: post))
    (howns : ∀ t n, Owns s' t n ↔ Owns s t n)
    (hprio : SetPrio s s' owner (max (s.k.thr owner).priority (s.k.thr self).priority)) :
    Inherits s' ↔ ((s.k.thr owner).priority < (s.k.thr self).priority →
      ∀ n x, owner ∈ w n → Owns s x n → (s.k.thr self).priority ≤ (s.k.thr x).priority) := by
  have hwaiters := hw.waiters_eq
  have hmem : ∀ {n u}, u ∈ s'.waiters n ↔ u ∈ w n ∨ (u = self ∧ n = m) := by
    intro n u
    rw [hw', Function.update_apply]
    split
    · rename_i hn
      rw [hn, hsplit]
      simp only [List.mem_append, List.mem_cons]
      tauto
    · rename_i hn
      simp [hn]
  have hother : ∀ {u}, u ≠ owner → (s'.k.thr u).priority = (s.k.thr u).priority := by
    intro u hu
    rw [(hprio u).1, if_neg hu]
  have hboost : (s'.k.thr owner).priority
      = max (s.k.thr owner).priority (s.k.thr self).priority := by
    rw [(hprio owner).1, if_pos rfl]
  constructor
  · intro hlaw hlt n x hin hx
    have hxo : x ≠ owner := by
      intro he
      exact hw.notOwner hin (he ▸ hx)
    have hle : (s'.k.thr owner).priority ≤ (s'.k.thr x).priority := by
      refine (hlaw x).2 (Or.inr ⟨n, (howns x n).mpr hx, owner, ?_, rfl⟩)
      exact hmem.mpr (Or.inl hin)
    rw [hboost, hother hxo, max_eq_right (le_of_lt hlt)] at hle
    exact hle
  · intro hguard t
    have hlaw := h t
    rw [hwaiters] at hlaw
    by_cases hto : t = owner
    · subst hto
      rw [hboost]
      refine ⟨?_, ?_⟩
      · -- the greatest donation is the old one or the caller's
        rcases le_total (s.k.thr self).priority (s.k.thr t).priority with hle | hle
        · rw [max_eq_left hle]
          rcases hlaw.1 with hbase | ⟨n, hn, u, hu, hup⟩
          · exact Or.inl (hbase.trans (hprio t).2.symm)
          · refine Or.inr ⟨n, (howns t n).mpr hn, u, hmem.mpr (Or.inl hu), ?_⟩
            rw [hother, hup]
            intro he
            exact hw.notOwner hu (he ▸ hn)
        · rw [max_eq_right hle]
          refine Or.inr ⟨m, (howns t m).mpr howner, self, hmem.mpr (Or.inr ⟨rfl, rfl⟩), ?_⟩
          exact hother hne.symm
      · intro p hp
        rcases hp with hbase | ⟨n, hn, u, hu, hup⟩
        · rw [hbase, (hprio t).2]
          exact (hlaw.2 (Or.inl rfl)).trans (le_max_left _ _)
        · rcases hmem.mp hu with hin | ⟨hus, -⟩
          · have huo : u ≠ t := by
              intro he
              exact hw.notOwner hin (he ▸ (howns t n).mp hn)
            rw [← hup, hother huo]
            exact (hlaw.2 (Or.inr ⟨n, (howns t n).mp hn, u, hin, rfl⟩)).trans (le_max_left _ _)
          · rw [← hup, hus, hother hne.symm]
            exact le_max_right _ _
    · rw [hother hto]
      have hin : ∀ {n u}, Owns s' t n → u ∈ s'.waiters n → Owns s t n ∧ u ∈ w n := by
        intro n u hn hu
        refine ⟨(howns t n).mp hn, ?_⟩
        rcases hmem.mp hu with hin | ⟨-, hnm⟩
        · exact hin
        · have howns' := (howns t n).mp hn
          rw [hnm] at howns'
          exact absurd (Option.some.inj (howns'.symm.trans howner)) hto
      refine ⟨?_, ?_⟩
      · rcases hlaw.1 with hbase | ⟨n, hn, u, hu, hup⟩
        · exact Or.inl (hbase.trans (hprio t).2.symm)
        · refine Or.inr ⟨n, (howns t n).mpr hn, u, hmem.mpr (Or.inl hu), ?_⟩
          by_cases huo : u = owner
          · -- the boosted owner waits for `t`: it was not boosted beyond `t`
            subst huo
            rcases lt_or_ge (s.k.thr u).priority (s.k.thr self).priority with hlt | hge
            · have hle := hguard hlt n t hu hn
              rw [hup] at hlt
              exact absurd hlt (not_lt.mpr hle)
            · rw [hboost, max_eq_left hge, hup]
          · rw [hother huo, hup]
      · intro p hp
        rcases hp with hbase | ⟨n, hn, u, hu, hup⟩
        · rw [hbase, (hprio t).2]
          exact hlaw.2 (Or.inl rfl)
        · obtain ⟨hn', hu'⟩ := hin hn hu
          have hle := hlaw.2 (Or.inr ⟨n, hn', u, hu', rfl⟩)
          by_cases huo : u = owner
          · subst huo
            rw [← hup, hboost]
            refine max_le hle ?_
            rcases lt_or_ge (s.k.thr u).priority (s.k.thr self).priority with hlt | hge
            · exact hguard hlt n t hu' hn'
            · exact hge.trans hle
          · rw [← hup, hother huo]
            exact hle

end Block

/-! ## Unlocking -/

section Unlock

variable {self : Tid} {m : Nat}

/-- What the unlocker owns afterwards is what it owned besides `m`. -/
theorem donors_unlocker (hfar : ∀ n, self ∉ w n) {w' : Nat → List Tid} {saved : Prio}
    (hw' : ∀ n, n ≠ m → w' n = w n) (howns : ∀ n, Owns s' self n ↔ n ≠ m ∧ Owns s self n)
    (hprio : SetPrio s s' self saved) :
    donors s' w' (Owns s' self) self
      = donors s w (fun n => n ≠ m ∧ Owns s self n) self := by
  refine donors_congr (hprio self).2 fun p => exists_congr fun n => ?_
  rw [howns n]
  refine and_congr_right fun hn => ?_
  rw [hw' n hn.1]
  refine exists_congr fun u => and_congr_right fun hu => ?_
  have hus : u ≠ self := by
    intro he
    exact hfar n (he ▸ hu)
  rw [(hprio u).1, if_neg hus]

/-- A thread whose mutexes are not touched by an unlock keeps its donations. -/
theorem donors_bystander (hfar : ∀ n, self ∉ w n) {w' : Nat → List Tid} {saved : Prio} {t : Tid}
    (hw' : ∀ n, Owns s t n → w' n = w n) (howns : ∀ n, Owns s' t n ↔ Owns s t n)
    (hprio : SetPrio s s' self saved) :
    donors s' w' (Owns s' t) t = donors s w (Owns s t) t := by
  refine donors_congr (hprio t).2 fun p => exists_congr fun n => ?_
  rw [howns n]
  refine and_congr_right fun hn => ?_
  rw [hw' n hn]
  refine exists_congr fun u => and_congr_right fun hu => ?_
  have hus : u ≠ self := by
    intro he
    exact hfar n (he ▸ hu)
  rw [(hprio u).1, if_neg hus]

/-- Freeing a mutex keeps the law exactly when the saved priority is right. -/
theorem inherits_free (hw : Waits s w) (h : Inherits s) (hfar : ∀ n, self ∉ w n)
    (howner : Owns s self m) (hw' : s'.waiters = w)
    (hmutex : s'.mutex = Function.update s.mutex m
      { s.mutex m with owner := none, lockCount := 0 })
    (hprio : SetPrio s s' self (s.mutex m).ownerOrigPrio) :
    Inherits s' ↔ IsGreatest (donors s w (fun n => n ≠ m ∧ Owns s self n) self)
      (s.mutex m).ownerOrigPrio := by
  have howns : ∀ t n, Owns s' t n ↔ n ≠ m ∧ Owns s t n := by
    intro t n
    rw [owns_update hmutex]
    split
    · rename_i hn
      simp [hn]
    · rename_i hn
      simp [hn]
  have hself := donors_unlocker hfar (fun _ _ => rfl) (howns self) hprio
  constructor
  · intro hlaw
    have hs := hlaw self
    rw [hw', hself, (hprio self).1, if_pos rfl] at hs
    exact hs
  · intro hguard t
    rw [hw', (hprio t).1]
    by_cases hts : t = self
    · subst hts
      rw [hself, if_pos rfl]
      exact hguard
    · have hlaw := h t
      rw [hw.waiters_eq] at hlaw
      rw [if_neg hts, donors_bystander hfar (fun _ _ => rfl) ?_ hprio]
      · exact hlaw
      · intro n
        rw [howns t n]
        refine ⟨And.right, fun ho => ⟨?_, ho⟩⟩
        intro hn
        rw [hn] at ho
        exact hts (Option.some.inj (ho.symm.trans howner))

/-- Handing a mutex over keeps the law exactly when the saved priority is right and the new
owner is the most urgent waiter. -/
theorem inherits_handOff (hw : Waits s w) (h : Inherits s) (hfar : ∀ n, self ∉ w n)
    {next : Tid} {rest : List Tid} {list : VList Tid}
    (howner : Owns s self m) (hsplit : w m = next :: rest)
    (hw' : s'.waiters = Function.update w m rest)
    (hmutex : s'.mutex = Function.update s.mutex m
      { owner := some next, lockCount := 1, waitList := list,
        ownerOrigPrio := (s.k.thr next).basePriority })
    (hprio : SetPrio s s' self (s.mutex m).ownerOrigPrio) :
    Inherits s' ↔ IsGreatest (donors s w (fun n => n ≠ m ∧ Owns s self n) self)
        (s.mutex m).ownerOrigPrio
      ∧ ∀ u ∈ rest, (s.k.thr u).priority ≤ (s.k.thr next).priority := by
  have hnext : next ∈ w m := by
    rw [hsplit]
    exact List.mem_cons_self
  have hns : next ≠ self := by
    intro he
    exact hfar m (he ▸ hnext)
  have hrest : ∀ u ∈ rest, u ≠ self := by
    intro u hu he
    refine hfar m ?_
    rw [hsplit, ← he]
    exact List.mem_cons_of_mem _ hu
  have howns : ∀ t n, Owns s' t n ↔ if n = m then next = t else Owns s t n := by
    intro t n
    rw [owns_update hmutex]
    split
    · simp
    · rfl
  have howns_self : ∀ n, Owns s' self n ↔ n ≠ m ∧ Owns s self n := by
    intro n
    rw [howns self n]
    split
    · rename_i hn
      simp [hn, hns]
    · rename_i hn
      simp [hn]
  have hwaits : ∀ n, n ≠ m → Function.update w m rest n = w n :=
    fun n hn => Function.update_of_ne hn _ _
  have hself := donors_unlocker hfar hwaits howns_self hprio
  have hlaw_next := h next
  rw [hw.waiters_eq] at hlaw_next
  constructor
  · intro hlaw
    refine ⟨?_, ?_⟩
    · have hs := hlaw self
      rw [hw', hself, (hprio self).1, if_pos rfl] at hs
      exact hs
    · intro u hu
      have hle :=
        (hlaw next).2 (Or.inr ⟨m, (howns next m).mpr (by simp), u, by simpa [hw'] using hu,
        rfl⟩)
      rw [(hprio u).1, (hprio next).1, if_neg (hrest u hu), if_neg hns] at hle
      exact hle
  · intro hguard t
    rw [hw', (hprio t).1]
    by_cases hts : t = self
    · subst hts
      rw [hself, if_pos rfl]
      exact hguard.1
    · rw [if_neg hts]
      by_cases htn : t = next
      · subst htn
        -- the new owner inherits from the waiters behind it
        refine ⟨?_, ?_⟩
        · rcases hlaw_next.1 with hbase | ⟨n, hn, u, hu, hup⟩
          · exact Or.inl (hbase.trans (hprio t).2.symm)
          · have hnm : n ≠ m := by
              intro he
              rw [he] at hn
              exact hns (Option.some.inj (hn.symm.trans howner))
            refine Or.inr ⟨n, (howns t n).mpr (by rw [if_neg hnm]; exact hn), u, ?_, ?_⟩
            · rw [Function.update_of_ne hnm]
              exact hu
            · have hus : u ≠ self := by
                intro he
                exact hfar n (he ▸ hu)
              rw [(hprio u).1, if_neg hus, hup]
        · intro p hp
          rcases hp with hbase | ⟨n, hn, u, hu, hup⟩
          · rw [hbase, (hprio t).2]
            exact hlaw_next.2 (Or.inl rfl)
          · by_cases hnm : n = m
            · subst hnm
              rw [Function.update_self] at hu
              rw [← hup, (hprio u).1, if_neg (hrest u hu)]
              exact hguard.2 u hu
            · rw [Function.update_of_ne hnm] at hu
              have hus : u ≠ self := by
                intro he
                exact hfar n (he ▸ hu)
              rw [← hup, (hprio u).1, if_neg hus]
              refine hlaw_next.2 (Or.inr ⟨n, ?_, u, hu, rfl⟩)
              have ho := (howns t n).mp hn
              rwa [if_neg hnm] at ho
      · have hlaw := h t
        rw [hw.waiters_eq] at hlaw
        have hnm : ∀ n, Owns s t n → n ≠ m := by
          intro n ho he
          rw [he] at ho
          exact hts (Option.some.inj (ho.symm.trans howner))
        rw [donors_bystander hfar ?_ ?_ hprio]
        · exact hlaw
        · intro n ho
          exact Function.update_of_ne (hnm n ho) _ _
        · intro n
          rw [howns t n]
          split
          · rename_i hn
            refine ⟨fun he => absurd he.symm htn, fun ho => ?_⟩
            exact absurd hn (hnm n ho)
          · rfl

end Unlock

/-! ## Runs -/

/-- From a state that meets the law, a step leads to one exactly when it meets the guard. -/
theorem inherits_step {l : Label} (hq : ∃ w, Waits s w) (h : Inherits s)
    (hs : s.step l = some s') : Inherits s' ↔ InheritKeeps s l := by
  obtain ⟨w, hw⟩ := hq
  obtain ⟨w', hw', hchange⟩ := hw.step hs
  have hwaiters := hw.waiters_eq
  have hwaiters' := hw'.waiters_eq
  cases hchange with
  | still hmutex _ _ hprio hrefused hbusy =>
      refine ⟨fun _ => ?_, fun _ => ?_⟩
      · cases l with
        | lock m timeout =>
            intro self owner _ _ _ hwait
            exact absurd (hbusy m timeout rfl) hwait
        | unlock m =>
            intro self hself howner
            exact absurd (howner.trans hself.symm) (hrefused m rfl)
        | dispatch t => trivial
        | trylock m => trivial
        | wake => trivial
      · refine h.congr (hwaiters'.trans hwaiters.symm) (fun t m => ?_) hprio
        unfold Owns
        rw [hmutex]
  | relock self m timeout hlabel hself howner hmutex _ _ hprio =>
      refine ⟨fun _ => ?_, fun _ => ?_⟩
      · rcases hlabel with rfl | rfl
        · intro self' owner hself' howner' hne
          obtain rfl := Option.some.inj (hself.symm.trans hself')
          exact absurd (Option.some.inj (howner'.symm.trans howner)) hne
        · trivial
      · refine h.congr (hwaiters'.trans hwaiters.symm) (fun t n => ?_) hprio
        rw [owns_same hmutex rfl]
  | acquire self m timeout hlabel hself howner hmutex _ _ hprio =>
      refine ⟨fun _ => ?_, fun _ => ?_⟩
      · rcases hlabel with rfl | rfl
        · intro self' owner hself' howner'
          exact absurd (howner.symm.trans howner') (by simp)
        · trivial
      · refine h.congr (hwaiters'.trans hwaiters.symm) (fun t n => ?_) hprio
        rw [owns_update hmutex, hwaiters]
        split
        · -- a free mutex has no waiters
          rename_i hn
          rw [hn, hw.free howner]
          simp
        · rfl
  | block self owner m timeout pre post hself hfar howner hne hwait hsplit hmutex _ _ hprio =>
      obtain ⟨list, hmutex⟩ := hmutex
      have hiff := inherits_block hw h howner hne hsplit hwaiters'
        (owns_same hmutex rfl) hprio
      rw [hiff]
      refine ⟨fun hg => ?_, fun hg hlt n x hin hx => ?_⟩
      · intro self' owner' hself' howner' _ _ hlt n x hin hx
        obtain rfl := Option.some.inj (hself.symm.trans hself')
        obtain rfl := Option.some.inj (howner.symm.trans howner')
        rw [hwaiters] at hin
        exact hg hlt n x hin hx
      · refine hg self owner hself howner hne hwait hlt n x ?_ hx
        rw [hwaiters]
        exact hin
  | release self m hself howner hmore hmutex _ _ hprio =>
      refine ⟨fun _ => ?_, fun _ => ?_⟩
      · intro self' _ _ hzero
        rw [hzero] at hmore
        exact absurd hmore (by decide)
      · refine h.congr (hwaiters'.trans hwaiters.symm) (fun t n => ?_) hprio
        rw [owns_same hmutex rfl]
  | free self m hself hfar howner hlast hnil hmutex _ _ hprio =>
      rw [inherits_free hw h hfar howner hwaiters' hmutex hprio]
      refine ⟨fun hg => ?_, fun hg => ?_⟩
      · intro self' hself' _ _
        obtain rfl := Option.some.inj (hself.symm.trans hself')
        rw [hwaiters]
        refine ⟨hg, fun next rest hsplit => ?_⟩
        rw [hnil] at hsplit
        exact absurd hsplit (by simp)
      · have hg' := (hg self hself howner hlast).1
        rwa [hwaiters] at hg'
  | handOff self next rest m hself hfar howner hlast hsplit hmutex _ _ hprio =>
      obtain ⟨list, hmutex⟩ := hmutex
      rw [inherits_handOff hw h hfar howner hsplit hwaiters' hmutex hprio]
      refine ⟨fun hg => ?_, fun hg => ?_⟩
      · intro self' hself' _ _
        obtain rfl := Option.some.inj (hself.symm.trans hself')
        rw [hwaiters]
        refine ⟨hg.1, fun next' rest' hsplit' => ?_⟩
        rw [hsplit] at hsplit'
        obtain ⟨rfl, rfl⟩ := List.cons.inj hsplit'
        exact hg.2
      · have hg' := hg self hself howner hlast
        rw [hwaiters] at hg'
        exact ⟨hg'.1, hg'.2 next rest hsplit⟩

theorem Inherits.initial (h0 : s.Initial)
    (hbase : ∀ t, (s.k.thr t).priority = (s.k.thr t).basePriority) : Inherits s := by
  intro t
  have hnone : ∀ m, ¬ Owns s t m := by
    intro m ho
    rw [Owns, h0.mutex m] at ho
    exact absurd ho (by simp [mutexInit])
  refine ⟨Or.inl (hbase t), ?_⟩
  intro p hp
  rcases hp with hp | ⟨m, ho, -⟩
  · rw [hp, hbase t]
  · exact absurd ho (hnone m)

/-! ## Evaluating the guard -/

/-- The label is about mutex `n`. -/
def MutexSys.Label.Concerns (n : Nat) : Label → Prop
  | .lock m _ | .trylock m | .unlock m => m = n
  | .dispatch _ | .wake => False

section Evaluate

variable {N : Nat} {l : Label}

/-- A step leaves the mutexes that it is not about as they are. -/
theorem step_mutex_frame (hs : s.step l = some s') {n : Nat} (hn : ¬ l.Concerns n) :
    s'.mutex n = s.mutex n := by
  rcases step_cases hs with ⟨t, rfl, -, rfl⟩ | ⟨self, -, -, hact⟩
  · rfl
  · rcases hact with ⟨m, timeout, hlabel, -, hlock⟩ | ⟨rfl, -, rfl⟩ | ⟨m, rfl, -, rfl⟩
    · have hne : n ≠ m := by
        rcases hlabel with rfl | ⟨rfl, -⟩
        · exact fun he => hn he.symm
        · exact fun he => hn he.symm
      obtain ⟨r, -, rfl⟩ := Option.map_eq_some_iff.mp hlock
      exact Function.update_of_ne hne _ _
    · rfl
    · exact Function.update_of_ne (fun he => hn he.symm) _ _

/-- The base priority of `t`, and the priorities of the waiters of the mutexes in `owned`. -/
def donations (s : MutexSys) (owned : List Nat) (t : Tid) : List Prio :=
  (s.k.thr t).basePriority
    :: owned.flatMap fun n => (s.waiters n).map fun u => (s.k.thr u).priority

theorem mem_donations {owned : List Nat} {t : Tid} {p : Prio} :
    p ∈ donations s owned t ↔ p ∈ donors s s.waiters (fun n => n ∈ owned) t := by
  rw [mem_donors, donations, List.mem_cons]
  refine or_congr_right ?_
  simp only [List.mem_flatMap, List.mem_map]

/-- The mutexes below `N` that `t` owns besides `m`. -/
def ownedBesides (N : Nat) (s : MutexSys) (m : Nat) (t : Tid) : List Nat :=
  (List.range N).filter fun n => n ≠ m ∧ (s.mutex n).owner = some t

/-- `InheritKeeps`, evaluated in a state whose mutexes from `N` on are free. -/
def inheritKeepsB (N : Nat) (s : MutexSys) : Label → Bool
  | .lock m timeout =>
      s.k.current.all fun self => (s.mutex m).owner.all fun owner =>
        owner = self || timeout = noWait || (s.k.thr self).priority ≤ (s.k.thr owner).priority
          || (List.range N).all fun n => owner ∉ s.waiters n
            || (s.mutex n).owner.all fun x => (s.k.thr self).priority ≤ (s.k.thr x).priority
  | .unlock m =>
      s.k.current.all fun self =>
        (s.mutex m).owner ≠ some self || (s.mutex m).lockCount - 1 ≠ 0
          || let saved := (s.mutex m).ownerOrigPrio
            let called := donations s (ownedBesides N s m self) self
            saved ∈ called && called.all (fun p => p ≤ saved)
              && match s.waiters m with
                | next :: rest => rest.all fun u => (s.k.thr u).priority ≤ (s.k.thr next).priority
                | [] => true
  | _ => true

theorem inheritKeepsB_iff (hfree : ∀ n, N ≤ n → (s.mutex n).owner = none) :
    inheritKeepsB N s l = true ↔ InheritKeeps s l := by
  have hlt : ∀ {n t}, Owns s t n → n < N := by
    intro n t ho
    by_contra hge
    exact absurd ((hfree n (not_lt.mp hge)).symm.trans ho) (by simp)
  cases l with
  | lock m timeout =>
      simp only [inheritKeepsB, InheritKeeps, Option.all_eq_true, Bool.or_eq_true, List.all_eq_true,
        decide_eq_true_eq, List.mem_range]
      constructor
      · intro h self owner hself howner hne hwait hprio n x hin hx
        rcases h self hself owner howner with ((he | he) | hle) | hall
        · exact absurd he hne
        · exact absurd he hwait
        · exact absurd hprio (not_lt.mpr hle)
        · rcases hall n (hlt hx) with hout | hle
          · exact absurd hin hout
          · exact hle x hx
      · intro h self hself owner howner
        by_cases hne : owner = self
        · exact Or.inl (Or.inl (Or.inl hne))
        by_cases hwait : timeout = noWait
        · exact Or.inl (Or.inl (Or.inr hwait))
        rcases le_or_gt (s.k.thr self).priority (s.k.thr owner).priority with hle | hprio
        · exact Or.inl (Or.inr hle)
        · refine Or.inr fun n _ => ?_
          by_cases hin : owner ∈ s.waiters n
          · exact Or.inr fun x hx => h self owner hself howner hne hwait hprio n x hin hx
          · exact Or.inl hin
  | unlock m =>
      have hdonors : ∀ self, donors s s.waiters (fun n => n ∈ ownedBesides N s m self) self
          = donors s s.waiters (fun n => n ≠ m ∧ Owns s self n) self := by
        intro self
        refine donors_congr rfl fun p => exists_congr fun n => and_congr_left fun _ => ?_
        rw [ownedBesides, List.mem_filter, List.mem_range, decide_eq_true_eq]
        -- what is owned is below `N`
        exact ⟨fun ho => ho.2, fun ho => ⟨hlt ho.2, ho⟩⟩
      have hgreatest : ∀ self saved,
          IsGreatest (donors s s.waiters (fun n => n ≠ m ∧ Owns s self n) self) saved
            ↔ saved ∈ donations s (ownedBesides N s m self) self
              ∧ ∀ p ∈ donations s (ownedBesides N s m self) self, p ≤ saved := by
        intro self saved
        rw [← hdonors self]
        exact and_congr mem_donations.symm
          (forall_congr' fun p => imp_congr_left mem_donations.symm)
      have hhead : (match s.waiters m with
            | next :: rest => rest.all fun u => (s.k.thr u).priority ≤ (s.k.thr next).priority
            | [] => true) = true
          ↔ ∀ next rest, s.waiters m = next :: rest →
            ∀ u ∈ rest, (s.k.thr u).priority ≤ (s.k.thr next).priority := by
        cases s.waiters m with
        | nil => simp
        | cons next rest => simp
      simp only [inheritKeepsB, InheritKeeps, Option.all_eq_true, Bool.or_eq_true, Bool.and_eq_true,
        List.all_eq_true, decide_eq_true_eq, hgreatest, hhead]
      refine forall₂_congr fun self hself => ⟨fun h howner hlast => ?_, fun h => ?_⟩
      · rcases h with (hne | hmore) | hok
        · exact absurd howner hne
        · exact absurd hlast hmore
        · exact hok
      · by_cases howner : Owns s self m
        · by_cases hlast : (s.mutex m).lockCount - 1 = 0
          · exact Or.inr (h howner hlast)
          · exact Or.inl (Or.inr hlast)
        · exact Or.inl (Or.inl howner)
  | _ => exact iff_of_true rfl trivial

/-- Along a run that is about the mutexes below `N` only, the guard can be evaluated. -/
theorem along_inheritKeeps {labels : List Label} (hfree : ∀ n, N ≤ n → (s.mutex n).owner = none)
    (hbelow : ∀ l ∈ labels, ∀ n, l.Concerns n → n < N)
    (h : Along MutexSys.step (fun s l => inheritKeepsB N s l = true) s labels) :
    Along MutexSys.step InheritKeeps s labels := by
  refine (along_iff_along_of (Q := fun s => ∀ n, N ≤ n → (s.mutex n).owner = none)
    (A := fun _ l => ∀ n, l.Concerns n → n < N) ?_ ?_ hfree
    (along_of_forall s fun _ l hl => hbelow l hl)).mp h
  · intro s l s' hfree hl hs n hn
    rw [step_mutex_frame hs fun hc => absurd (hl n hc) (not_lt.mpr hn)]
    exact hfree n hn
  · exact fun s l hfree _ => inheritKeepsB_iff hfree

end Evaluate

/-! ## The law -/

/--
**The law of priority inheritance holds along a run exactly when its steps keep it.**

Starting with every thread at its base priority, the law holds in all states of a run
if and only if each boost reaches an owner that is not itself blocked behind a less
urgent one, each outermost unlock restores the priority that the owner's other mutexes
call for, and each hand-off goes to the most urgent waiter.
-/
theorem inherits_iff {labels : List Label} (h0 : s.Initial)
    (hbase : ∀ t, (s.k.thr t).priority = (s.k.thr t).basePriority)
    (hr : run MutexSys.step s labels = some s') :
    Always MutexSys.step Inherits s labels ↔ Along MutexSys.step InheritKeeps s labels := by
  have hwaits : ∀ (s : MutexSys) (l : Label) (s' : MutexSys), (∃ w, Waits s w) →
      s.step l = some s' → ∃ w, Waits s' w := by
    intro s l s' hq hs
    obtain ⟨w, hw⟩ := hq
    obtain ⟨w', hw', -⟩ := hw.step hs
    exact ⟨w', hw'⟩
  exact always_iff_along hwaits (fun _ _ _ hq hp hs => inherits_step hq hp hs)
    ⟨_, Waits.initial h0⟩ (Inherits.initial h0 hbase) hr

/-- Threads 1, 2 and 3 with base priorities 1, 5 and 3, all READY, and free mutexes. -/
def threeThreads : MutexSys where
  k := (((Kernel.bss ⟨1000, 10, true⟩ (fun t => threadDefine [] 512 0 0 0
    (if t = 1 then 1 else if t = 2 then 5 else 3)) none).schedEnqueue 1).schedEnqueue
    2).schedEnqueue 3
  mutex := fun _ => mutexInit
  pc := fun _ => .run
  locks := fun _ _ => 0
  unlocks := fun _ _ => 0

theorem threeThreads_initial : threeThreads.Initial :=
  ⟨fun _ => rfl, fun _ => rfl, fun _ _ => rfl, fun _ _ => rfl⟩

theorem threeThreads_base (t : Tid) :
    (threeThreads.k.thr t).priority = (threeThreads.k.thr t).basePriority := by
  simp only [threeThreads, schedEnqueue_thr, Function.update_apply]
  split
  · split <;> split <;> rfl
  · split
    · split <;> rfl
    · split <;> rfl

/-- Thread 1 holds two mutexes, thread 3 waits for the second and thread 2 for the first: when
thread 1 releases the first, its priority falls to 1 although thread 3 still waits. -/
theorem nested_unlock_drops_boost :
    ∃ s', run MutexSys.step threeThreads [.dispatch 1, .lock 0 waitForever, .lock 1 waitForever,
        .dispatch 3, .lock 1 waitForever, .dispatch 1, .dispatch 2, .lock 0 waitForever,
        .dispatch 1, .unlock 0] = some s'
      ∧ Owns s' 1 1 ∧ s'.waiters 1 = [3] ∧ (s'.k.thr 3).priority = 3
      ∧ (s'.k.thr 1).priority = 1 ∧ ¬ Inherits s' := by
  obtain ⟨s', hrun, hfacts⟩ : ∃ s', run MutexSys.step threeThreads [.dispatch 1,
      .lock 0 waitForever, .lock 1 waitForever, .dispatch 3, .lock 1 waitForever, .dispatch 1,
      .dispatch 2, .lock 0 waitForever, .dispatch 1, .unlock 0] = some s'
      ∧ ((s'.mutex 1).owner, s'.waiters 1, (s'.k.thr 3).priority, (s'.k.thr 1).priority)
        = (some 1, [3], 3, 1) :=
    Option.map_eq_some_iff.mp (by decide +kernel)
  obtain ⟨howner, hwaiters, hthree, hone⟩ : (s'.mutex 1).owner = some 1 ∧ s'.waiters 1 = [3]
      ∧ (s'.k.thr 3).priority = 3 ∧ (s'.k.thr 1).priority = 1 := by simpa using hfacts
  refine ⟨s', hrun, howner, hwaiters, hthree, hone, fun hlaw => ?_⟩
  have hle := (hlaw 1).2 (Or.inr ⟨1, howner, 3, by rw [hwaiters]; simp, rfl⟩)
  rw [hthree, hone] at hle
  exact absurd hle (by decide)

/-- Thread 3 waits for mutex 0 of thread 1, which then locks mutex 1; thread 2 waits for that. -/
def nestedContention : List MutexSys.Label :=
  [.dispatch 1, .lock 0 waitForever, .dispatch 3, .lock 0 waitForever, .dispatch 1,
    .lock 1 waitForever, .dispatch 2, .lock 1 waitForever, .dispatch 1]

/-- Thread 1 hands over mutex 1 and then mutex 0, and the new owners release them. -/
def nestedReleases : List MutexSys.Label :=
  [.unlock 1, .unlock 0, .dispatch 2, .wake, .unlock 1, .dispatch 3, .wake, .unlock 0]

/-- The law holds throughout: thread 1 is raised to 3, then to 5, falls back to 3 when it hands over
mutex 1, and to 1 when it hands over mutex 0. -/
theorem inherits_iff_nested :
    Always MutexSys.step Inherits threeThreads (nestedContention ++ nestedReleases)
      ∧ (run MutexSys.step threeThreads nestedContention).map
          (fun s => ((s.k.thr 1).priority, s.waiters 0, s.waiters 1)) = some (5, [3], [2])
      ∧ (run MutexSys.step threeThreads (nestedContention ++ [.unlock 1])).map
          (fun s => ((s.k.thr 1).priority, (s.mutex 0).owner, (s.mutex 1).owner))
        = some (3, some 1, some 2)
      ∧ (run MutexSys.step threeThreads (nestedContention ++ [.unlock 1, .unlock 0])).map
          (fun s => ((s.k.thr 1).priority, (s.mutex 0).owner, (s.mutex 1).owner))
        = some (1, some 3, some 2) := by
  obtain ⟨s', hrun⟩ : ∃ s',
      run MutexSys.step threeThreads (nestedContention ++ nestedReleases) = some s' :=
    Option.isSome_iff_exists.mp (by decide +kernel)
  refine ⟨(inherits_iff threeThreads_initial threeThreads_base hrun).mpr ?_, by decide +kernel,
    by decide +kernel, by decide +kernel⟩
  have hfree : ∀ n, 2 ≤ n → (threeThreads.mutex n).owner = none := fun _ _ => rfl
  exact along_inheritKeeps hfree
    (by simp [nestedContention, nestedReleases, MutexSys.Label.Concerns]) (by decide +kernel)

end VibeRtos
