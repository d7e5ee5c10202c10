import VibeRtos.Kernel.SemSystem
import VibeRtos.Proof.Parked
import VibeRtos.Lib.Runs

/-!
# No token of a semaphore is lost

A give hands its token to the first waiter or adds it to the count, never both. So the
count and the wait list exclude each other, and a thread inside a take is either on the
list or already has its token: the return of a take that blocked is always a success.
-/

namespace VibeRtos

open Links Kernel Runs

variable {k : Kernel} {sem : Sem} {xs : List Tid} {self : Tid}

/-! ## The two calls -/

/-- A give with nobody waiting. -/
theorem semGive_nil (h : ListRep k.waitNode sem.waitList []) :
    semGive k sem = if sem.maxCount > 0 ∧ sem.count ≥ sem.maxCount then (k, sem, .done .eoverflow)
      else (k, { sem with count := sem.count + 1 }, .done .ok) := by
  rw [semGive, waitGetHead_nil h]

/-- A give wakes the first waiter and leaves the count alone. -/
theorem semGive_cons {x : Tid} (h : Parked k sem.waitList (x :: xs)) :
    semGive k sem = ((k.wakeHead sem.waitList).1,
      { sem with waitList := (k.wakeHead sem.waitList).2 }, .resched .ok) := by
  obtain ⟨k', l', hget, -⟩ := waitGetHead_cons h.rep
  rw [semGive, Kernel.wakeHead, hget]

theorem semGive_overflow {k : Kernel} {sem : Sem}
    (h : (semGive k sem).2.2 = .done .eoverflow) :
    semGive k sem = (k, sem, .done .eoverflow) := by
  unfold semGive at h ⊢
  split at h
  · exact absurd h (by simp)
  · split at h
    · rename_i hfull
      rw [if_pos hfull]
    · exact absurd h (by simp)

theorem semTake_again {timeout : UInt32} (h : (semTake k sem self timeout).2.2 = .done .eagain) :
    semTake k sem self timeout = (k, sem, .done .eagain) := by
  unfold semTake at h ⊢
  split at h
  · exact absurd h (by simp)
  · rename_i hzero
    split at h
    · rename_i hno
      rw [if_neg hzero, if_pos hno]
    · exact absurd h (by simp)

namespace SemSys

/-- Where the tokens and the takers are. -/
structure Inv (initial max : UInt32) (s : SemSys) : Prop where
  parked : Parked s.k s.obj.sem.waitList s.waiters
  /-- a thread inside a take waits, or has its token -/
  inside : ∀ t, s.pc t = .taking ↔ t ∈ s.waiters ∨ t ∈ s.obj.handed
  once : s.obj.handed.Nodup
  apart : ∀ t ∈ s.obj.handed, t ∉ s.waiters
  conserved : initial.toNat + s.obj.given
    = s.obj.sem.count.toNat + (s.obj.taken + s.obj.handed.length) + s.obj.discarded
  maxCount : s.obj.sem.maxCount = max
  bounded : max > 0 → s.obj.sem.count ≤ max
  exclusive : s.obj.sem.count > 0 → s.waiters = []
  order : s.obj.arrived = s.obj.served ++ s.waiters
  sleep : s.k.sleepList.head = none

variable {initial max : UInt32} {s s' : SemSys} {l : SemLabel} {cfg : Config}

theorem Inv.law (h : s.Inv initial max) : s.Law initial max :=
  ⟨h.conserved, h.bounded, h.exclusive, h.order, semGive_overflow, fun _ _ => semTake_again⟩

/-- The kernel's own steps leave the semaphore alone. -/
theorem Inv.kernel {k' : Kernel} (h : s.Inv initial max)
    (hp : Parked k' s.obj.sem.waitList s.waiters) (hsleep : k'.sleepList.head = none) :
    Inv initial max { s with k := k' } := by
  have hw : SemSys.waiters { s with k := k' } = s.waiters := hp.nodes
  constructor
  case parked => rwa [hw]
  case inside => rw [hw]; exact h.inside
  case once => exact h.once
  case apart => rw [hw]; exact h.apart
  case conserved => exact h.conserved
  case maxCount => exact h.maxCount
  case bounded => exact h.bounded
  case exclusive => rw [hw]; exact h.exclusive
  case order => rw [hw]; exact h.order
  case sleep => exact hsleep

/-! ## The sections -/

/-- A give, by a thread or by an interrupt. -/
theorem Inv.giving (h : s.Inv initial max) (hfew : s.obj.sem.count.toNat + 1 < 2 ^ 32) :
    Inv initial max { s with
      k := (semGiving s.k s.obj).1
      obj := (semGiving s.k s.obj).2 } := by
  have hparked := h.parked
  cases hx : s.waiters with
  | nil =>
      rw [hx] at hparked
      have hgive := semGive_nil hparked.rep
      by_cases hfull : s.obj.sem.maxCount > 0 ∧ s.obj.sem.count ≥ s.obj.sem.maxCount
      · -- the semaphore is full: nothing changes
        rw [if_pos hfull] at hgive
        have hr : semGiving s.k s.obj = (s.k, s.obj) := by rw [semGiving, hgive]
        rw [hr]
        exact h
      · rw [if_neg hfull] at hgive
        have hr : semGiving s.k s.obj = (s.k, { s.obj with
            sem := { s.obj.sem with count := s.obj.sem.count + 1 }
            given := s.obj.given + 1 }) := by rw [semGiving, hgive]
        have hcount : (s.obj.sem.count + 1).toNat = s.obj.sem.count.toNat + 1 := by
          rw [UInt32.toNat_add, UInt32.toNat_one, Nat.mod_eq_of_lt hfew]
        rw [hr]
        constructor
        case parked => exact h.parked
        case inside => exact h.inside
        case once => exact h.once
        case apart => exact h.apart
        case conserved =>
            have hold := h.conserved
            dsimp only
            rw [hcount]
            omega
        case maxCount => exact h.maxCount
        case bounded =>
            intro hpos
            rw [h.maxCount] at hfull
            have hlt : s.obj.sem.count < max := by
              by_contra hge
              exact hfull ⟨hpos, UInt32.not_lt.mp hge⟩
            rw [UInt32.lt_iff_toNat_lt] at hlt
            rw [UInt32.le_iff_toNat_le]
            dsimp only
            omega
        case exclusive => exact fun _ => hx
        case order => exact h.order
        case sleep => exact h.sleep
  | cons x xs =>
      -- the token goes to the first waiter
      rw [hx] at hparked
      have hhead : s.obj.sem.waitList.head = some x := hparked.rep.head
      obtain ⟨hp, hthr, -, -, hsleep⟩ := wakeHead_cons hparked
      have hr : semGiving s.k s.obj = ((s.k.wakeHead s.obj.sem.waitList).1, { s.obj with
          sem := { s.obj.sem with waitList := (s.k.wakeHead s.obj.sem.waitList).2 }
          given := s.obj.given + 1
          handed := s.obj.handed ++ [x]
          served := s.obj.served ++ [x] }) := by
        rw [semGiving, semGive_cons hparked]
        dsimp only
        rw [hhead]
        rfl
      have hnd : (x :: xs).Nodup := hparked.nodup
      have hzero : ¬ s.obj.sem.count > 0 := by
        intro hpos
        rw [h.exclusive hpos] at hx
        exact absurd hx (by simp)
      rw [hr]
      have hw : SemSys.waiters { s with
          k := (s.k.wakeHead s.obj.sem.waitList).1
          obj := { s.obj with
            sem := { s.obj.sem with waitList := (s.k.wakeHead s.obj.sem.waitList).2 }
            given := s.obj.given + 1
            handed := s.obj.handed ++ [x]
            served := s.obj.served ++ [x] } } = xs := hp.nodes
      have hnot : x ∉ s.obj.handed := fun hin => h.apart x hin
        (by rw [hx]; exact List.mem_cons_self)
      constructor
      case parked =>
          rw [hw]
          exact hp
      case inside =>
          intro t
          have hin := h.inside t
          rw [hx] at hin
          rw [hw, hin]
          simp only [List.mem_cons, List.mem_append, List.not_mem_nil, or_false]
          tauto
      case once =>
          refine List.nodup_append.mpr ⟨h.once, List.nodup_singleton x, ?_⟩
          rintro t ht u hu rfl
          exact hnot (List.mem_singleton.mp hu ▸ ht)
      case apart =>
          intro t ht
          rw [hw]
          rcases List.mem_append.mp ht with ht | ht
          · have hne := h.apart t ht
            rw [hx] at hne
            exact fun hin => hne (List.mem_cons_of_mem _ hin)
          · obtain rfl := List.mem_singleton.mp ht
            exact (List.nodup_cons.mp hnd).1
      case conserved =>
          have hold := h.conserved
          simp only [List.length_append, List.length_singleton]
          omega
      case maxCount => exact h.maxCount
      case bounded => exact h.bounded
      case exclusive => exact fun hpos => absurd hpos hzero
      case order =>
          rw [hw]
          have hold := h.order
          rw [hx] at hold
          simpa using hold
      case sleep => exact hsleep ▸ h.sleep

/-- A take: a token at once, a refusal, or a place at the end of the wait list. -/
theorem Inv.taking (h : s.Inv initial max) (hact : (s.k.thr self).state.Active)
    (hpc : s.pc self = .idle) (timeout : UInt32) :
    Inv initial max (s.after self (semTaking s.k s.obj self timeout)) := by
  have hout : self ∉ s.waiters ∧ self ∉ s.obj.handed := by
    have hin := h.inside self
    rw [hpc] at hin
    simpa using hin
  -- a call that does not block leaves the program points as they are
  have hsame : Function.update s.pc self .idle = s.pc := by rw [← hpc, Function.update_eq_self]
  by_cases hcount : s.obj.sem.count > 0
  · have hr : semTaking s.k s.obj self timeout = (s.k, { s.obj with
        sem := { s.obj.sem with count := s.obj.sem.count - 1 }
        taken := s.obj.taken + 1 }, .idle) := by
      rw [semTaking, semTake, if_pos hcount]
    have hpos := UInt32.lt_iff_toNat_lt.mp hcount
    have hle : (1 : UInt32) ≤ s.obj.sem.count := UInt32.le_iff_toNat_le.mpr hpos
    have hone : (s.obj.sem.count - 1).toNat = s.obj.sem.count.toNat - 1 :=
      UInt32.toNat_sub_of_le _ _ hle
    rw [hr, ObjectSys.after, hsame]
    constructor
    case parked => exact h.parked
    case inside => exact h.inside
    case once => exact h.once
    case apart => exact h.apart
    case conserved =>
        have hold := h.conserved
        have hzero : (0 : UInt32).toNat = 0 := rfl
        dsimp only
        rw [hone]
        omega
    case maxCount => exact h.maxCount
    case bounded =>
        intro hmax
        have hold := UInt32.le_iff_toNat_le.mp (h.bounded hmax)
        rw [UInt32.le_iff_toNat_le]
        dsimp only
        omega
    case exclusive => exact fun _ => h.exclusive hcount
    case order => exact h.order
    case sleep => exact h.sleep
  · by_cases hno : timeout = noWait
    · have hr : semTaking s.k s.obj self timeout = (s.k, s.obj, .idle) := by
        rw [semTaking, semTake, if_neg hcount, if_pos hno]
      rw [hr, ObjectSys.after, hsame]
      exact h
    · have hr : semTaking s.k s.obj self timeout
          = (((s.k.block self (s.k.deadline timeout)).waitAppend s.obj.sem.waitList self).1,
            { s.obj with
              sem := { s.obj.sem with waitList :=
                ((s.k.block self (s.k.deadline timeout)).waitAppend s.obj.sem.waitList self).2 }
              arrived := s.obj.arrived ++ [self] }, .taking) := by
        rw [semTaking, semTake, if_neg hcount, if_neg hno]
      have hp := h.parked.park hout.1 (s.k.deadline timeout)
      rw [hr]
      have hw : SemSys.waiters (s.after self
          (((s.k.block self (s.k.deadline timeout)).waitAppend s.obj.sem.waitList self).1,
            { s.obj with
              sem := { s.obj.sem with waitList :=
                ((s.k.block self (s.k.deadline timeout)).waitAppend s.obj.sem.waitList self).2 }
              arrived := s.obj.arrived ++ [self] }, SemPc.taking)) = s.waiters ++ [self] := hp.nodes
      constructor
      case parked =>
          rw [hw]
          exact hp
      case inside =>
          intro t
          rw [hw]
          by_cases ht : t = self
          · subst ht
            simp
          · rw [ObjectSys.after_pc_of_ne _ _ ht, h.inside t]
            simp only [List.mem_append, List.mem_singleton, ht, or_false]
            rfl
      case once => exact h.once
      case apart =>
          intro t ht
          rw [hw, List.mem_append, List.mem_singleton]
          rintro (hin | rfl)
          · exact h.apart t ht hin
          · exact hout.2 ht
      case conserved => exact h.conserved
      case maxCount => exact h.maxCount
      case bounded => exact h.bounded
      case exclusive => exact fun hpos => absurd hpos hcount
      case order =>
          rw [hw]
          show s.obj.arrived ++ [self] = s.obj.served ++ (s.waiters ++ [self])
          rw [h.order, List.append_assoc]
      case sleep => exact h.sleep

/-- A taker that runs again was handed its token, and returns `VIBE_OK`. -/
theorem Inv.taken (h : s.Inv initial max) (hact : (s.k.thr self).state.Active)
    (hpc : s.pc self = .taking) :
    Inv initial max (s.after self (s.k, semTaken s.k s.obj self, .idle)) := by
  have hnot := h.parked.not_mem hact
  have hin : self ∈ s.obj.handed := ((h.inside self).mp hpc).resolve_left hnot
  have hok : semTakeWake s.k self = .ok := by
    rw [semTakeWake, if_pos]
    intro hsleep
    rw [hsleep] at hact
    exact absurd hact (by decide)
  have hr : semTaken s.k s.obj self
      = { s.obj with taken := s.obj.taken + 1, handed := s.obj.handed.erase self } := by
    rw [semTaken, hok]
  rw [hr]
  constructor
  case parked => exact h.parked
  case inside =>
      intro t
      show _ ↔ t ∈ s.waiters ∨ t ∈ s.obj.handed.erase self
      rw [h.once.mem_erase_iff]
      by_cases ht : t = self
      · subst ht
        simp [hnot]
      · rw [ObjectSys.after_pc_of_ne _ _ ht, h.inside t]
        simp [ht]
  case once => exact h.once.erase _
  case apart => exact fun t ht => h.apart t (List.mem_of_mem_erase ht)
  case conserved =>
      have hold := h.conserved
      have hlen := List.length_erase_of_mem hin
      have hpos := List.length_pos_of_mem hin
      show _ = s.obj.sem.count.toNat + (s.obj.taken + 1 + (s.obj.handed.erase self).length) + _
      dsimp only [ObjectSys.after]
      omega
  case maxCount => exact h.maxCount
  case bounded => exact h.bounded
  case exclusive => exact h.exclusive
  case order => exact h.order
  case sleep => exact h.sleep

/-- A reset throws the count away; nobody waits then, or there is nothing to throw away. -/
theorem Inv.reset (h : s.Inv initial max) (hpc : s.pc self = .idle) :
    Inv initial max (s.after self (s.k, { s.obj with
      sem := semReset s.obj.sem
      discarded := s.obj.discarded + s.obj.sem.count.toNat }, .idle)) := by
  have hsame : Function.update s.pc self .idle = s.pc := by rw [← hpc, Function.update_eq_self]
  rw [ObjectSys.after, hsame]
  constructor
  case parked => exact h.parked
  case inside => exact h.inside
  case once => exact h.once
  case apart => exact h.apart
  case conserved =>
      have hold := h.conserved
      show _ = 0 + _ + (s.obj.discarded + s.obj.sem.count.toNat)
      dsimp only
      omega
  case maxCount => exact h.maxCount
  case bounded => exact fun _ => UInt32.le_iff_toNat_le.mpr (Nat.zero_le _)
  case exclusive => exact fun hpos => absurd hpos (by simp [semReset])
  case order => exact h.order
  case sleep => exact h.sleep

/-! ## Steps and runs -/

theorem Inv.step (h : s.Inv initial max) (hfew : s.Few l) (hs : s.step cfg l = some s') :
    s'.Inv initial max := by
  cases l with
  | dispatch t =>
      obtain ⟨hready, rfl⟩ := ObjectSys.dispatch_eq_some hs
      refine h.kernel (h.parked.switchTo hready) ?_
      exact switchTo_asleep t h.sleep
  | tick =>
      obtain rfl := Option.some.inj hs
      exact h.kernel (h.parked.tickSection cfg h.sleep) (tickSection_asleep cfg h.sleep)
  | isr i =>
      obtain rfl := Option.some.inj hs
      exact h.giving hfew
  | act a =>
      obtain ⟨self, r, hself, hact, hr, rfl⟩ := ObjectSys.act_eq_some hs
      cases hpc : s.pc self with
      | idle =>
          rw [hpc] at hr
          cases a with
          | take timeout =>
              obtain rfl := Option.some.inj hr
              exact h.taking hact hpc timeout
          | give =>
              obtain rfl := Option.some.inj hr
              have hsame : Function.update s.pc self .idle = s.pc := by
                rw [← hpc, Function.update_eq_self]
              rw [ObjectSys.after, hsame]
              exact h.giving hfew
          | reset =>
              obtain rfl := Option.some.inj hr
              exact h.reset hpc
          | wake => exact absurd hr (by simp [semSections, semThread])
      | taking =>
          rw [hpc] at hr
          cases a with
          | wake =>
              obtain rfl := Option.some.inj hr
              exact h.taken hact hpc
          | _ => exact absurd hr (by simp [semSections, semThread])

theorem Initial.inv (h : s.Initial initial max) : s.Inv initial max := by
  have hinit := h.sem
  unfold semInit at hinit
  split at hinit
  · exact absurd hinit (by simp)
  · rename_i hmax
    have hsem := (Option.some.inj hinit).symm
    have hlist : s.obj.sem.waitList = listInit := by rw [hsem]
    have hparked := parked_init s.k
    have hw : s.waiters = [] := by rw [waiters, hlist, hparked.nodes]
    constructor
    case parked =>
        rw [hw, hlist]
        exact hparked
    case inside => simp [h.pc, hw, h.handed]
    case once => simp [h.handed]
    case apart => simp [h.handed]
    case conserved => simp [h.given, h.taken, h.discarded, h.handed, hsem]
    case maxCount => rw [hsem]
    case bounded =>
        intro hpos
        rw [hsem]
        by_contra hgt
        exact hmax ⟨hpos, UInt32.not_le.mp hgt⟩
    case exclusive => exact fun _ => hw
    case order => rw [h.arrived, h.served, hw]; rfl
    case sleep => exact h.sleep

end SemSys

/--
**No token of a semaphore is lost or made up.**

From `vibe_sem_init(initial, max)` on, whatever any threads and interrupts take, give
and reset: `initial` and the successful gives are the count, the successful takes (those
handed a token that have yet to return included) and what resets threw away. The count
respects `max`, nobody waits while there is a token, takers are served in the order in
which they came, and a refused call changes nothing.
-/
theorem sem_conservation {cfg : Config} {initial max : UInt32} {s s' : SemSys}
    {labels : List SemLabel} (h : s.Initial initial max)
    (hfew : Along (SemSys.step cfg) SemSys.Few s labels)
    (hr : run (SemSys.step cfg) s labels = some s') : s'.Law initial max :=
  (run_guarded (fun _ _ _ hinv hl hs => SemSys.Inv.step hinv hl hs) h.inv hfew hr).law

/-- READY threads and a new semaphore with the given counts. -/
def semReady (cfg : Config) (initial max : UInt32) : SemSys where
  k := Kernel.bss cfg (fun _ => { threadDefine [] 512 0 0 0 5 with state := .ready }) none
  obj := ⟨⟨initial, max, listInit⟩, 0, 0, 0, [], [], []⟩
  pc := fun _ => .idle

/-- Two threads wait, an interrupt and a thread give, a third give is stored and reset. -/
theorem sem_conservation_two_waiters :
    ∃ s', run (SemSys.step ⟨1000, 10, true⟩) (semReady ⟨1000, 10, true⟩ 0 1)
        [.dispatch 1, .act (.take 5), .dispatch 2, .act (.take waitForever), .isr (), .dispatch 3,
          .act .give, .act .give, .act .give, .act .reset, .dispatch 1, .act .wake] = some s'
      ∧ s'.Law 0 1 := by
  obtain ⟨s', hrun⟩ : ∃ s', run (SemSys.step ⟨1000, 10, true⟩) (semReady ⟨1000, 10, true⟩ 0 1)
      [.dispatch 1, .act (.take 5), .dispatch 2, .act (.take waitForever), .isr (), .dispatch 3,
        .act .give, .act .give, .act .give, .act .reset, .dispatch 1, .act .wake] = some s' :=
    Option.isSome_iff_exists.mp (by decide +kernel)
  exact ⟨s', hrun, sem_conservation ⟨rfl, rfl, rfl, rfl, rfl, rfl, rfl, fun _ => rfl, rfl⟩
    (by decide +kernel) hrun⟩

end VibeRtos
