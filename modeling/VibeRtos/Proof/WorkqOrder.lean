import VibeRtos.Kernel.WorkqSystem
import VibeRtos.Proof.SemTokens

/-!
# A work queue runs every item once and in order

The tokens of the semaphore, the gives still to come and the token in the worker's
hands are together as many as the items in the list. So a worker that has taken a
token finds an item, and one that sleeps without a token to come sleeps next to an
empty list.
-/

namespace VibeRtos

open Links SList Kernel Runs

variable {worker : Tid} {mem : WorkMem} {q : Workq} {w : WorkId} {xs : List WorkId}

/-! ## The list -/

/-- The queue holds the items `xs`. -/
structure Workq.Holds (mem : WorkMem) (q : Workq) (xs : List WorkId) : Prop where
  path : Path (fun w => (mem w).next) q.head xs none
  nodup : xs.Nodup
  tail : q.tail = xs.getLast?
  pending : ∀ w, (mem w).pending ↔ w ∈ xs
  handler : ∀ w, (mem w).handler ≠ none

namespace Workq.Holds

/-- The semaphore is no part of the list. -/
theorem withSem (h : q.Holds mem xs) (sem : Sem) : Workq.Holds mem { q with sem := sem } xs :=
  ⟨h.path, h.nodup, h.tail, h.pending, h.handler⟩

/-- A submit is refused, or it links the item in at the end. -/
theorem submit (h : q.Holds mem xs) (w : WorkId) :
    workSubmit mem q w = (.ebusy, mem, q) ∨ ∃ mem' q', workSubmit mem q w = (.ok, mem', q')
      ∧ q'.Holds mem' (xs ++ [w]) ∧ q'.sem = q.sem := by
  unfold workSubmit
  split
  · exact Or.inl rfl
  · rename_i hnew
    have hw : w ∉ xs := fun hin => hnew ((h.pending w).mpr hin)
    have hnd : (xs ++ [w]).Nodup := by
      refine List.nodup_append.mpr ⟨h.nodup, List.nodup_singleton w, ?_⟩
      rintro x hx y hy rfl
      exact hw (List.mem_singleton.mp hy ▸ hx)
    right
    cases htail : q.tail with
    | none =>
        have hxs : xs = [] := List.getLast?_eq_none_iff.mp (h.tail ▸ htail)
        subst hxs
        refine ⟨_, _, rfl, ⟨?_, hnd, rfl, fun v => ?_, fun v => ?_⟩, rfl⟩
        · exact ⟨rfl, by simp⟩
        · have hv := h.pending v
          by_cases hvw : v = w
          · simp [hvw]
          · simpa [Function.update_of_ne hvw, hvw] using hv
        · by_cases hvw : v = w
          · simpa [hvw] using h.handler w
          · simpa [Function.update_of_ne hvw] using h.handler v
    | some t =>
        -- the old last item gets the new one as its next
        have hlast : xs.getLast? = some t := h.tail ▸ htail
        have ht : t ∈ xs := List.mem_of_getLast? hlast
        have htw : t ≠ w := fun he => hw (he ▸ ht)
        refine ⟨_, _, rfl, ⟨?_, hnd, by simp, fun v => ?_, fun v => ?_⟩, rfl⟩
        · refine h.path.snoc ?_ ?_ (fun _ => rfl) (fun z hz hne => ?_) h.nodup
          · simp [Function.update_of_ne (Ne.symm htw)]
          · rw [hlast]
            simp [word]
          · have hzt : z ≠ t := fun he => hne (he ▸ hlast)
            have hzw : z ≠ w := fun he => hw (he ▸ hz)
            simp [Function.update_of_ne hzt, Function.update_of_ne hzw]
        · have hv := h.pending v
          by_cases hvt : v = t
          · subst hvt
            simpa [Function.update_of_ne htw, ht] using hv
          · by_cases hvw : v = w
            · simp [hvw, Function.update_of_ne (Ne.symm htw)]
            · simpa [Function.update_of_ne hvt, Function.update_of_ne hvw, hvw] using hv
        · by_cases hvt : v = t
          · subst hvt
            simpa [Function.update_of_ne htw] using h.handler v
          · by_cases hvw : v = w
            · simpa [hvw, Function.update_of_ne (Ne.symm htw)] using h.handler w
            · simpa [Function.update_of_ne hvt, Function.update_of_ne hvw] using h.handler v

/-- The worker takes the first item off. -/
theorem pop (h : q.Holds mem (w :: xs)) :
    ∃ mem' q', workqPop mem q = (some w, mem', q') ∧ q'.Holds mem' xs ∧ q'.sem = q.sem := by
  obtain ⟨hhead, hpath⟩ := h.path
  obtain ⟨hw, hnd⟩ := List.nodup_cons.mp h.nodup
  have hnext : (mem w).next = xs.head? := hpath.head
  have hframe : ∀ v, v ≠ w → Function.update mem w
      { mem w with next := none, pending := false } v = mem v :=
    fun v hv => Function.update_of_ne hv _ _
  have hpending : ∀ v, (Function.update mem w
      { mem w with next := none, pending := false } v).pending ↔ v ∈ xs := by
    intro v
    have hv := h.pending v
    by_cases hvw : v = w
    · simp [hvw, hw]
    · rw [hframe v hvw, hv]
      simp [hvw]
  have hhandler : ∀ v, (Function.update mem w
      { mem w with next := none, pending := false } v).handler ≠ none := by
    intro v
    by_cases hvw : v = w
    · simpa [hvw] using h.handler w
    · rw [hframe v hvw]
      exact h.handler v
  have hpath' : Path (fun v => (Function.update mem w
      { mem w with next := none, pending := false } v).next) (mem w).next xs none :=
    hpath.congr fun v hv => by rw [hframe v fun he => hw (he ▸ hv)]
  rw [workqPop, hhead]
  cases xs with
  | nil =>
      have hnone : (mem w).next = none := hnext
      refine ⟨_, _, rfl, ?_⟩
      dsimp only
      rw [if_pos hnone]
      exact ⟨⟨hpath', hnd, rfl, hpending, hhandler⟩, rfl⟩
  | cons v vs =>
      have hsome : (mem w).next ≠ none := by rw [hnext]; simp
      have htail : q.tail = (v :: vs).getLast? := by rw [h.tail]; simp
      refine ⟨_, _, rfl, ?_⟩
      dsimp only
      rw [if_neg hsome]
      exact ⟨⟨hpath', hnd, htail, hpending, hhandler⟩, rfl⟩

end Workq.Holds

/-! ## The threads -/

/-- The tokens in the worker's hands, when `ws` wait on the semaphore. -/
def WorkPc.holding : WorkPc → List Tid → Nat
  | .token, _ | .blocked, [] => 1
  | _, _ => 0

/-- The program points fit the threads, and tell who is in flight. -/
structure WorkSys.Roles (worker : Tid) (pc : Tid → WorkPc) (flight : List WorkCtx) : Prop where
  others : ∀ t, t ≠ worker → pc t = .idle ∨ pc t = .giving
  loop : pc worker ≠ .idle ∧ pc worker ≠ .giving
  inFlight : ∀ t, .thread t ∈ flight ↔ (pc t).InFlight
  nodup : flight.Nodup

namespace WorkSys.Roles

variable {pc : Tid → WorkPc} {flight : List WorkCtx} {self : Tid} {p : WorkPc}

/-- The worker moves on, outside its submits. -/
theorem turn (h : Roles worker pc flight) (hold : ¬ (pc worker).InFlight) (hnew : ¬ p.InFlight)
    (hp : p ≠ .idle) : Roles worker (Function.update pc worker p) flight := by
  refine ⟨fun t ht => ?_, ?_, fun t => ?_, h.nodup⟩
  · rw [Function.update_of_ne ht]
    exact h.others t ht
  · rw [Function.update_self]
    exact ⟨hp, fun hg => hnew (Or.inl hg)⟩
  · by_cases ht : t = worker
    · subst ht
      rw [Function.update_self, h.inFlight]
      exact ⟨fun hin => absurd hin hold, fun hin => absurd hin hnew⟩
    · rw [Function.update_of_ne ht]
      exact h.inFlight t

/-- A thread has linked its item. -/
theorem enter (h : Roles worker pc flight)
    (hp : pc self = .idle ∧ p = .giving ∨ pc self = .handler ∧ p = .handlerGiving) :
    Roles worker (Function.update pc self p) (flight ++ [.thread self]) := by
  have hout : WorkCtx.thread self ∉ flight := by
    rw [h.inFlight]
    rintro (hg | hg) <;> rcases hp with ⟨ho, -⟩ | ⟨ho, -⟩ <;> simp [ho] at hg
  have hin : p.InFlight := by
    rcases hp with ⟨-, rfl⟩ | ⟨-, rfl⟩
    · exact Or.inl rfl
    · exact Or.inr rfl
  refine ⟨fun t ht => ?_, ?_, fun t => ?_, ?_⟩
  · by_cases hts : t = self
    · subst hts
      rw [Function.update_self]
      rcases hp with ⟨-, rfl⟩ | ⟨ho, -⟩
      · exact Or.inr rfl
      · rcases h.others t ht with hc | hc <;> simp [ho] at hc
    · rw [Function.update_of_ne hts]
      exact h.others t ht
  · by_cases hws : worker = self
    · subst hws
      rw [Function.update_self]
      rcases hp with ⟨ho, -⟩ | ⟨-, rfl⟩
      · exact absurd ho h.loop.1
      · simp
    · rw [Function.update_of_ne hws]
      exact h.loop
  · by_cases hts : t = self
    · subst hts
      simp [hin]
    · rw [Function.update_of_ne hts, ← h.inFlight t]
      simp [hts]
  · refine List.nodup_append.mpr ⟨h.nodup, List.nodup_singleton _, ?_⟩
    rintro x hx y hy rfl
    exact hout (List.mem_singleton.mp hy ▸ hx)

/-- A thread has given. -/
theorem leave (h : Roles worker pc flight)
    (hp : pc self = .giving ∧ p = .idle ∨ pc self = .handlerGiving ∧ p = .handler) :
    Roles worker (Function.update pc self p) (flight.erase (.thread self)) := by
  have hnew : ¬ p.InFlight := by
    rcases hp with ⟨-, rfl⟩ | ⟨-, rfl⟩ <;> simp [WorkPc.InFlight]
  refine ⟨fun t ht => ?_, ?_, fun t => ?_, h.nodup.erase _⟩
  · by_cases hts : t = self
    · subst hts
      rw [Function.update_self]
      rcases hp with ⟨-, rfl⟩ | ⟨ho, -⟩
      · exact Or.inl rfl
      · rcases h.others t ht with hc | hc <;> simp [ho] at hc
    · rw [Function.update_of_ne hts]
      exact h.others t ht
  · by_cases hws : worker = self
    · subst hws
      rw [Function.update_self]
      rcases hp with ⟨ho, -⟩ | ⟨-, rfl⟩
      · exact absurd ho h.loop.2
      · simp
    · rw [Function.update_of_ne hws]
      exact h.loop
  · rw [h.nodup.mem_erase_iff]
    by_cases hts : t = self
    · subst hts
      simp [hnew]
    · rw [Function.update_of_ne hts, ← h.inFlight t]
      simp [hts]

/-- An interrupt has linked its item. -/
theorem enterIsr {n : Nat} (h : Roles worker pc flight) (hn : WorkCtx.isr n ∉ flight) :
    Roles worker pc (flight ++ [.isr n]) := by
  refine ⟨h.others, h.loop, fun t => ?_, ?_⟩
  · rw [← h.inFlight t]
    simp
  · refine List.nodup_append.mpr ⟨h.nodup, List.nodup_singleton _, ?_⟩
    rintro x hx y hy rfl
    exact hn (List.mem_singleton.mp hy ▸ hx)

theorem leaveIsr {n : Nat} (h : Roles worker pc flight) :
    Roles worker pc (flight.erase (.isr n)) := by
  refine ⟨h.others, h.loop, fun t => ?_, h.nodup.erase _⟩
  rw [h.nodup.mem_erase_iff, ← h.inFlight t]
  simp

end WorkSys.Roles

/-! ## The invariant -/

namespace WorkSys

/-- The queue holds `xs`, and every item of it has its token. -/
structure Inv (worker : Tid) (s : WorkSys) (xs : List WorkId) : Prop where
  roles : Roles worker s.pc s.obj.flight
  holds : s.obj.q.Holds s.obj.mem xs
  once : s.obj.submitted = s.obj.invoked ++ (s.pc worker).inHand ++ xs
  tokens : xs.length = s.obj.q.sem.count.toNat + s.obj.flight.length
    + (s.pc worker).holding s.waiters
  parked : Parked s.k s.obj.q.sem.waitList s.waiters
  /-- only the worker waits -/
  waiting : s.waiters = [] ∨ s.waiters = [worker] ∧ s.pc worker = .blocked
  exclusive : s.obj.q.sem.count > 0 → s.waiters = []
  maxCount : s.obj.q.sem.maxCount = 0
  sleep : s.k.sleepList.head = none

variable {s s' : WorkSys} {self : Tid} {l : WorkLabel} {cfg : Config}

theorem Inv.law (h : s.Inv worker xs) : s.Law worker xs := by
  refine ⟨⟨h.holds.path, h.holds.nodup, h.holds.tail⟩, h.holds.pending, h.once, ?_, ?_⟩
  · rintro hp rfl
    have htok := h.tokens
    rw [hp, WorkPc.holding, List.length_nil] at htok
    omega
  · intro hp hin hcount hflight
    have hws : s.waiters = [worker] := by
      rcases h.waiting with hw | ⟨hw, -⟩
      · rw [hw] at hin
        exact absurd hin (by simp)
      · exact hw
    have htok := h.tokens
    rw [hp, hws, hcount, hflight] at htok
    have hxs : xs = [] := List.length_eq_zero_iff.mp htok
    have honce := h.once
    rw [hp, hxs] at honce
    exact ⟨hxs, by simpa [WorkPc.inHand] using honce.symm⟩

/-- The kernel's own steps leave the queue alone. -/
theorem Inv.kernel {k' : Kernel} (h : s.Inv worker xs)
    (hp : Parked k' s.obj.q.sem.waitList s.waiters) (hsleep : k'.sleepList.head = none) :
    Inv worker { s with k := k' } xs := by
  have hw : WorkSys.waiters { s with k := k' } = s.waiters := hp.nodes
  constructor
  case roles => exact h.roles
  case holds => exact h.holds
  case once => exact h.once
  case tokens => rw [hw]; exact h.tokens
  case parked => rw [hw]; exact hp
  case waiting => rw [hw]; exact h.waiting
  case exclusive => rw [hw]; exact h.exclusive
  case maxCount => exact h.maxCount
  case sleep => exact hsleep

/-- Two program points of the worker that hold and wait for the same. -/
def SameDuty (p p' : WorkPc) : Prop :=
  p'.inHand = p.inHand ∧ (∀ ws, p'.holding ws = p.holding ws) ∧ (p = .blocked → p' = .blocked)

theorem SameDuty.refl (p : WorkPc) : SameDuty p p := ⟨rfl, fun _ => rfl, id⟩

/-- The first section of a submit: refused, or one more item and one more give to come. -/
theorem Inv.submitting {c : WorkCtx} {pc' : Tid → WorkPc} (h : s.Inv worker xs) (w : WorkId)
    (hbusy : (workSubmitting s.obj c w).1 ≠ .ok → pc' = s.pc)
    (hok : (workSubmitting s.obj c w).1 = .ok → Roles worker pc' (s.obj.flight ++ [c])
      ∧ SameDuty (s.pc worker) (pc' worker)) :
    ∃ ys, Inv worker ⟨s.k, (workSubmitting s.obj c w).2, pc'⟩ ys := by
  rcases h.holds.submit w with hr | ⟨mem', q', hr, hholds, hsem⟩
  · -- the item is pending: nothing changes
    have heq : workSubmitting s.obj c w = (.ebusy, s.obj) := by
      rw [workSubmitting, hr]
      rfl
    rw [heq] at hbusy ⊢
    rw [hbusy (by simp)]
    exact ⟨xs, h⟩
  · have heq : workSubmitting s.obj c w = (.ok, { s.obj with
        mem := mem'
        q := q'
        flight := s.obj.flight ++ [c]
        submitted := s.obj.submitted ++ [w] }) := by
      rw [workSubmitting, hr]
      rfl
    rw [heq] at hok ⊢
    obtain ⟨hroles, hhand, hholding, hblocked⟩ := hok rfl
    have hw : WorkSys.waiters ⟨s.k, { s.obj with
        mem := mem'
        q := q'
        flight := s.obj.flight ++ [c]
        submitted := s.obj.submitted ++ [w] }, pc'⟩ = s.waiters := by
      rw [waiters, waiters, hsem]
    refine ⟨xs ++ [w], ?_⟩
    constructor
    case roles => exact hroles
    case holds => exact hholds
    case once =>
        dsimp only
        rw [hhand, h.once]
        simp
    case tokens =>
        have htok := h.tokens
        rw [hw]
        dsimp only
        rw [hsem, hholding, List.length_append, List.length_append, htok]
        simp only [List.length_singleton]
        omega
    case parked =>
        rw [hw]
        dsimp only
        rw [hsem]
        exact h.parked
    case waiting =>
        rw [hw]
        exact h.waiting.imp_right fun hb => ⟨hb.1, hblocked hb.2⟩
    case exclusive =>
        rw [hw]
        dsimp only
        rw [hsem]
        exact h.exclusive
    case maxCount => exact hsem ▸ h.maxCount
    case sleep => exact h.sleep

/-- The second section: the token goes to the worker, or is counted. -/
theorem Inv.giving {c : WorkCtx} {pc' : Tid → WorkPc} (h : s.Inv worker xs)
    (hc : c ∈ s.obj.flight) (hfew : s.obj.q.sem.count.toNat + 1 < 2 ^ 32)
    (hroles : Roles worker pc' (s.obj.flight.erase c))
    (hduty : SameDuty (s.pc worker) (pc' worker)) :
    Inv worker ⟨(workGiving s.k s.obj c).1, (workGiving s.k s.obj c).2, pc'⟩ xs := by
  obtain ⟨hhand, hholding, hblocked⟩ := hduty
  have hlen : (s.obj.flight.erase c).length + 1 = s.obj.flight.length := by
    have hpos := List.length_pos_of_mem hc
    rw [List.length_erase_of_mem hc]
    omega
  have hparked := h.parked
  have htok := h.tokens
  rcases h.waiting with hw | ⟨hw, hb⟩
  · -- nobody waits
    rw [hw] at hparked
    have hgive := semGive_nil hparked.rep
    rw [if_neg fun hfull => by rw [h.maxCount] at hfull; exact absurd hfull.1 (by decide)] at hgive
    have hcount : (s.obj.q.sem.count + 1).toNat = s.obj.q.sem.count.toNat + 1 := by
      rw [UInt32.toNat_add, UInt32.toNat_one, Nat.mod_eq_of_lt hfew]
    have hr : workGiving s.k s.obj c = (s.k, { s.obj with
        q := { s.obj.q with sem := { s.obj.q.sem with count := s.obj.q.sem.count + 1 } }
        flight := s.obj.flight.erase c }) := by
      rw [workGiving, hgive]
    rw [hr]
    constructor
    case roles => exact hroles
    case holds => exact h.holds.withSem _
    case once => exact hhand ▸ h.once
    case tokens =>
        show _ = (s.obj.q.sem.count + 1).toNat + _ + (pc' worker).holding s.waiters
        rw [hholding, hcount, htok]
        dsimp only
        omega
    case parked => exact h.parked
    case waiting => exact Or.inl hw
    case exclusive => exact fun _ => hw
    case maxCount => exact h.maxCount
    case sleep => exact h.sleep
  · -- the worker waits, and gets it
    rw [hw] at hparked
    obtain ⟨hp, -, -, -, hsleep⟩ := wakeHead_cons hparked
    have hr : workGiving s.k s.obj c = ((s.k.wakeHead s.obj.q.sem.waitList).1, { s.obj with
        q := { s.obj.q with sem := { s.obj.q.sem with
          waitList := (s.k.wakeHead s.obj.q.sem.waitList).2 } }
        flight := s.obj.flight.erase c }) := by
      rw [workGiving, semGive_cons hparked]
    have hzero : ¬ s.obj.q.sem.count > 0 := by
      intro hpos
      rw [h.exclusive hpos] at hw
      exact absurd hw (by simp)
    rw [hr]
    have hw' : WorkSys.waiters ⟨(s.k.wakeHead s.obj.q.sem.waitList).1, { s.obj with
        q := { s.obj.q with sem := { s.obj.q.sem with
          waitList := (s.k.wakeHead s.obj.q.sem.waitList).2 } }
        flight := s.obj.flight.erase c }, pc'⟩ = [] := hp.nodes
    constructor
    case roles => exact hroles
    case holds => exact h.holds.withSem _
    case once => exact hhand ▸ h.once
    case tokens =>
        rw [hw, hb] at htok
        rw [hw']
        dsimp only
        rw [hblocked hb, htok]
        simp only [WorkPc.holding]
        omega
    case parked => rw [hw']; exact hp
    case waiting => exact Or.inl hw'
    case exclusive => exact fun _ => hw'
    case maxCount => exact h.maxCount
    case sleep => exact hsleep ▸ h.sleep

/-- `vibe_sem_take` by the worker: a token at once, or a place on the wait list. -/
theorem Inv.taking (h : s.Inv worker xs) (hpc : s.pc worker = .loop) {r : Kernel × WorkObj × WorkPc}
    (hr : workThread s.k s.obj worker .loop .take = some r) : Inv worker (s.after worker r) xs := by
  have hnone : s.waiters = [] := h.waiting.resolve_right fun hb => by
    rw [hpc] at hb
    exact absurd hb.2 (by simp)
  have hfree : ¬ (s.pc worker).InFlight := by simp [hpc, WorkPc.InFlight]
  have honce := h.once
  have htok := h.tokens
  rw [hpc] at honce htok
  by_cases hcount : s.obj.q.sem.count > 0
  · have hpos := UInt32.lt_iff_toNat_lt.mp hcount
    have hle : (1 : UInt32) ≤ s.obj.q.sem.count := UInt32.le_iff_toNat_le.mpr hpos
    have hone : (s.obj.q.sem.count - 1).toNat = s.obj.q.sem.count.toNat - 1 :=
      UInt32.toNat_sub_of_le _ _ hle
    rw [workThread, semTake, if_pos hcount] at hr
    obtain rfl := Option.some.inj hr
    constructor
    case roles => exact h.roles.turn hfree (by simp [WorkPc.InFlight]) (by simp)
    case holds => exact h.holds.withSem _
    case once =>
        rw [ObjectSys.after_pc_self]
        exact honce
    case tokens =>
        have hzero : (0 : UInt32).toNat = 0 := rfl
        rw [ObjectSys.after_pc_self]
        show _ = (s.obj.q.sem.count - 1).toNat + s.obj.flight.length + _
        simp only [WorkPc.holding] at htok ⊢
        omega
    case parked => exact h.parked
    case waiting => exact Or.inl hnone
    case exclusive => exact fun _ => hnone
    case maxCount => exact h.maxCount
    case sleep => exact h.sleep
  · rw [workThread, semTake, if_neg hcount, if_neg (by decide)] at hr
    obtain rfl := Option.some.inj hr
    have hout : worker ∉ s.waiters := by rw [hnone]; simp
    have hp := h.parked.park hout (s.k.deadline waitForever)
    rw [hnone, List.nil_append] at hp
    have hw : WorkSys.waiters (s.after worker
        (((s.k.block worker (s.k.deadline waitForever)).waitAppend s.obj.q.sem.waitList worker).1,
          { s.obj with q := { s.obj.q with sem := { s.obj.q.sem with waitList :=
            ((s.k.block worker (s.k.deadline waitForever)).waitAppend
              s.obj.q.sem.waitList worker).2 } } }, WorkPc.blocked)) = [worker] := hp.nodes
    constructor
    case roles => exact h.roles.turn hfree (by simp [WorkPc.InFlight]) (by simp)
    case holds => exact h.holds.withSem _
    case once =>
        rw [ObjectSys.after_pc_self]
        exact honce
    case tokens =>
        rw [ObjectSys.after_pc_self, hw]
        exact htok
    case parked =>
        rw [hw]
        exact hp
    case waiting =>
        rw [ObjectSys.after_pc_self]
        exact Or.inr ⟨hw, rfl⟩
    case exclusive => exact fun hpos => absurd hpos hcount
    case maxCount => exact h.maxCount
    case sleep => exact h.sleep

/-- The worker, off the list again, moves on without its list or semaphore. -/
theorem Inv.turn (h : s.Inv worker xs) {p : WorkPc} (hnone : s.waiters = [])
    (hold : ¬ (s.pc worker).InFlight) (hnew : ¬ p.InFlight) (hp : p ≠ .idle)
    (hhold : p.holding [] = (s.pc worker).holding []) (invoked : List WorkId)
    (honce : s.obj.invoked ++ (s.pc worker).inHand = invoked ++ p.inHand) :
    Inv worker (s.after worker (s.k, { s.obj with invoked := invoked }, p)) xs := by
  constructor
  case roles => exact h.roles.turn hold hnew hp
  case holds => exact h.holds
  case once =>
      rw [ObjectSys.after_pc_self]
      exact honce ▸ h.once
  case tokens =>
      have htok := h.tokens
      rw [hnone] at htok
      rw [ObjectSys.after_pc_self]
      show _ = _ + _ + p.holding s.waiters
      rw [hnone, hhold]
      exact htok
  case parked => exact h.parked
  case waiting => exact Or.inl hnone
  case exclusive => exact h.exclusive
  case maxCount => exact h.maxCount
  case sleep => exact h.sleep

/-- The worker spends its token on the first item. -/
theorem Inv.popping (h : s.Inv worker xs) (hpc : s.pc worker = .token) :
    ∃ ys, Inv worker (s.after worker (s.k, { s.obj with
      mem := (workqPop s.obj.mem s.obj.q).2.1
      q := (workqPop s.obj.mem s.obj.q).2.2 }, .popped (workqPop s.obj.mem s.obj.q).1)) ys := by
  have htok := h.tokens
  rw [hpc, WorkPc.holding] at htok
  obtain ⟨w, ys, rfl⟩ : ∃ w ys, xs = w :: ys :=
    List.exists_cons_of_length_pos (by omega)
  have hnone : s.waiters = [] := h.waiting.resolve_right fun hb => by
    rw [hpc] at hb
    exact absurd hb.2 (by simp)
  obtain ⟨mem', q', hr, hholds, hsem⟩ := h.holds.pop
  have hw : WorkSys.waiters (s.after worker
      (s.k, { s.obj with mem := mem', q := q' }, .popped (some w))) = s.waiters := by
    rw [waiters, waiters]
    dsimp only [ObjectSys.after]
    rw [hsem]
  rw [hr]
  refine ⟨ys, ?_⟩
  constructor
  case roles =>
      exact h.roles.turn (by simp [hpc, WorkPc.InFlight]) (by simp [WorkPc.InFlight]) (by simp)
  case holds => exact hholds
  case once =>
      have honce := h.once
      rw [hpc] at honce
      rw [ObjectSys.after_pc_self]
      simpa [WorkPc.inHand, ObjectSys.after] using honce
  case tokens =>
      rw [ObjectSys.after_pc_self]
      show _ = q'.sem.count.toNat + s.obj.flight.length + _
      rw [hsem]
      simp only [WorkPc.holding, List.length_cons] at htok ⊢
      omega
  case parked =>
      rw [hw]
      dsimp only [ObjectSys.after]
      rw [hsem]
      exact h.parked
  case waiting => exact Or.inl (hw.trans hnone)
  case exclusive => exact fun _ => hw.trans hnone
  case maxCount => exact hsem ▸ h.maxCount
  case sleep => exact h.sleep

/-! ## Steps and runs -/

/-- A worker that can run is not on the wait list. -/
theorem Inv.waiters_nil (h : s.Inv worker xs) (hact : (s.k.thr worker).state.Active) :
    s.waiters = [] :=
  h.waiting.resolve_right fun hb => h.parked.not_mem hact (by rw [hb.1]; simp)

/-- A section of a submit made by a thread that is not the worker. -/
theorem Inv.others (h : s.Inv worker xs) {a : WorkAct} {r : Kernel × WorkObj × WorkPc}
    (hne : self ≠ worker) (hfew : s.Few (.act a))
    (hr : workThread s.k s.obj self (s.pc self) a = some r) :
    ∃ ys, Inv worker (s.after self r) ys := by
  have hduty : ∀ p, SameDuty (s.pc worker) (Function.update s.pc self p worker) := by
    intro p
    rw [Function.update_of_ne (Ne.symm hne)]
    exact SameDuty.refl _
  rcases h.roles.others self hne with hpc | hpc
  · rw [hpc] at hr
    cases a with
    | submit w =>
        obtain rfl := Option.some.inj hr
        refine h.submitting w (fun hbusy => ?_) fun hok => ?_
        · rw [if_neg hbusy, ← hpc, Function.update_eq_self]
        · rw [if_pos hok]
          exact ⟨h.roles.enter (Or.inl ⟨hpc, rfl⟩), hduty _⟩
    | _ => exact absurd hr (by simp [workThread])
  · rw [hpc] at hr
    cases a with
    | give =>
        obtain rfl := Option.some.inj hr
        have hc : WorkCtx.thread self ∈ s.obj.flight := (h.roles.inFlight self).mpr (Or.inl hpc)
        exact ⟨xs, h.giving hc hfew (h.roles.leave (Or.inl ⟨hpc, rfl⟩)) (hduty _)⟩
    | _ => exact absurd hr (by simp [workThread])

/-- A section of the worker. -/
theorem Inv.working (h : s.Inv worker xs) {a : WorkAct} {r : Kernel × WorkObj × WorkPc}
    (hact : (s.k.thr worker).state.Active) (hfew : s.Few (.act a))
    (hr : workThread s.k s.obj worker (s.pc worker) a = some r) :
    ∃ ys, Inv worker (s.after worker r) ys := by
  have hnone := h.waiters_nil hact
  have hduty : ∀ p p', s.pc worker = p → SameDuty p p' →
      SameDuty (s.pc worker) (Function.update s.pc worker p' worker) := by
    rintro p p' rfl hd
    rw [Function.update_self]
    exact hd
  cases hpc : s.pc worker with
  | idle => exact absurd hpc h.roles.loop.1
  | giving => exact absurd hpc h.roles.loop.2
  | loop =>
      rw [hpc] at hr
      cases a with
      | take => exact ⟨xs, h.taking hpc hr⟩
      | _ => exact absurd hr (by simp [workThread])
  | blocked =>
      rw [hpc] at hr
      cases a with
      | wake =>
          obtain rfl := Option.some.inj hr
          exact ⟨xs, h.turn hnone (by simp [hpc, WorkPc.InFlight]) (by simp [WorkPc.InFlight])
            (by simp) (by rw [hpc]; rfl) s.obj.invoked (by rw [hpc]; rfl)⟩
      | _ => exact absurd hr (by simp [workThread])
  | token =>
      rw [hpc] at hr
      cases a with
      | pop =>
          obtain rfl := Option.some.inj hr
          exact h.popping hpc
      | _ => exact absurd hr (by simp [workThread])
  | popped v =>
      rw [hpc] at hr
      cases a with
      | call =>
          cases v with
          | none =>
              obtain rfl := Option.some.inj hr
              exact ⟨xs, h.turn hnone (by simp [hpc, WorkPc.InFlight]) (by simp [WorkPc.InFlight])
                (by simp) (by rw [hpc]; rfl) s.obj.invoked (by rw [hpc]; rfl)⟩
          | some w =>
              -- every item has a handler, so the item in hand is run
              rw [workThread, if_pos (h.holds.handler w)] at hr
              obtain rfl := Option.some.inj hr
              exact ⟨xs, h.turn hnone (by simp [hpc, WorkPc.InFlight]) (by simp [WorkPc.InFlight])
                (by simp) (by rw [hpc]; rfl) (s.obj.invoked ++ [w])
                (by rw [hpc]; simp [WorkPc.inHand])⟩
      | _ => cases v <;> exact absurd hr (by simp [workThread])
  | handler =>
      rw [hpc] at hr
      cases a with
      | submit w =>
          obtain rfl := Option.some.inj hr
          refine h.submitting w (fun hbusy => ?_) fun hok => ?_
          · rw [if_neg hbusy, ← hpc, Function.update_eq_self]
          · rw [if_pos hok]
            exact ⟨h.roles.enter (Or.inr ⟨hpc, rfl⟩),
              hduty _ _ hpc ⟨rfl, fun _ => rfl, fun hb => absurd hb (by simp)⟩⟩
      | ret =>
          obtain rfl := Option.some.inj hr
          exact ⟨xs, h.turn hnone (by simp [hpc, WorkPc.InFlight]) (by simp [WorkPc.InFlight])
            (by simp) (by rw [hpc]; rfl) s.obj.invoked (by rw [hpc]; rfl)⟩
      | _ => exact absurd hr (by simp [workThread])
  | handlerGiving =>
      rw [hpc] at hr
      cases a with
      | give =>
          obtain rfl := Option.some.inj hr
          have hc : WorkCtx.thread worker ∈ s.obj.flight :=
            (h.roles.inFlight worker).mpr (Or.inr hpc)
          exact ⟨xs, h.giving hc hfew (h.roles.leave (Or.inr ⟨hpc, rfl⟩))
            (hduty _ _ hpc ⟨rfl, fun _ => rfl, fun hb => absurd hb (by simp)⟩)⟩
      | _ => exact absurd hr (by simp [workThread])

/-- An interrupt submits. -/
theorem Inv.isr (h : s.Inv worker xs) (i : WorkIsr) (hfew : s.Few (.isr i)) :
    ∃ ys, Inv worker
      { s with k := (workIsr s.k s.obj i).1, obj := (workIsr s.k s.obj i).2 } ys := by
  cases i with
  | submit n w =>
      rw [workIsr]
      split
      · exact ⟨xs, h⟩
      · rename_i hn
        exact h.submitting w (fun _ => rfl) fun _ => ⟨h.roles.enterIsr hn, SameDuty.refl _⟩
  | give n =>
      rw [workIsr]
      split
      · rename_i hn
        exact ⟨xs, h.giving hn hfew h.roles.leaveIsr (SameDuty.refl _)⟩
      · exact ⟨xs, h⟩

theorem Inv.step (h : s.Inv worker xs) (hfew : s.Few l) (hs : s.step cfg l = some s') :
    ∃ ys, s'.Inv worker ys := by
  cases l with
  | dispatch t =>
      obtain ⟨hready, rfl⟩ := ObjectSys.dispatch_eq_some hs
      refine ⟨xs, h.kernel (h.parked.switchTo hready) ?_⟩
      exact switchTo_asleep t h.sleep
  | tick =>
      obtain rfl := Option.some.inj hs
      exact ⟨xs, h.kernel (h.parked.tickSection cfg h.sleep) (tickSection_asleep cfg h.sleep)⟩
  | isr i =>
      obtain rfl := Option.some.inj hs
      exact h.isr i hfew
  | act a =>
      obtain ⟨self, r, -, hact, hr, rfl⟩ := ObjectSys.act_eq_some hs
      by_cases hself : self = worker
      · subst hself
        exact h.working hact hfew hr
      · exact h.others hself hfew hr

theorem Initial.inv (h : s.Initial worker) : s.Inv worker [] := by
  have hq : s.obj.q = ⟨none, none, ⟨0, 0, listInit⟩⟩ := (Option.some.inj h.q).symm
  have hw : s.waiters = [] := by
    rw [waiters, hq]
    exact (parked_init s.k).nodes
  constructor
  case roles =>
      refine ⟨fun t ht => Or.inl (h.idle t ht), ?_, fun t => ?_, ?_⟩
      · simp [h.loop]
      · by_cases ht : t = worker
        · simp [h.flight, ht, h.loop, WorkPc.InFlight]
        · simp [h.flight, h.idle t ht, WorkPc.InFlight]
      · simp [h.flight]
  case holds =>
      refine ⟨by simp [hq], List.nodup_nil, by simp [hq], fun w => ?_, fun w => ?_⟩
      all_goals obtain ⟨fn, hfn⟩ := h.mem w
      · simp [hfn]
      · simp [hfn]
  case once => simp [h.submitted, h.invoked, h.loop, WorkPc.inHand]
  case tokens => simp [hq, h.flight, h.loop, WorkPc.holding]
  case parked =>
      rw [hw, hq]
      exact parked_init s.k
  case waiting => exact Or.inl hw
  case exclusive => exact fun _ => hw
  case maxCount => rw [hq]
  case sleep => exact h.sleep

end WorkSys

/--
**A work queue runs every item exactly once, in order, and strands none.**

However the sections of the submits, the interrupts and the worker interleave: what was
submitted is what was invoked, the item in the worker's hand and the list, in this
order; `pending` tells the items of the list; and a worker that sleeps while no submit
is under way has run everything.
-/
theorem work_exactly_once {cfg : Config} {worker : Tid} {s s' : WorkSys}
    {labels : List WorkLabel} (h : s.Initial worker)
    (hfew : Along (WorkSys.step cfg) WorkSys.Few s labels)
    (hr : run (WorkSys.step cfg) s labels = some s') : ∃ xs, s'.Law worker xs := by
  have hinv : ∃ xs, s'.Inv worker xs :=
    run_guarded (P := fun s => ∃ xs, WorkSys.Inv worker s xs)
      (fun _ _ _ ⟨_, hi⟩ hl hs => hi.step hl hs) ⟨[], h.inv⟩ hfew hr
  obtain ⟨xs, hxs⟩ := hinv
  exact ⟨xs, hxs.law⟩

/-- READY threads, a new queue, and the worker before its loop. -/
def workReady (cfg : Config) (worker : Tid) : WorkSys where
  k := Kernel.bss cfg (fun _ => { threadDefine [] 512 0 0 0 5 with state := .ready }) none
  obj := ⟨fun _ => ⟨some 0, none, false⟩, ⟨none, none, ⟨0, 0, listInit⟩⟩, [], [], []⟩
  pc := fun t => if t = worker then .loop else .idle

/--
The worker sleeps; an interrupt and a thread link items, and give in the other order;
the first handler submits a third item.
-/
theorem work_exactly_once_three :
    ∃ s', run (WorkSys.step ⟨1000, 10, true⟩) (workReady ⟨1000, 10, true⟩ 1)
        [.dispatch 1, .act .take, .dispatch 2, .act (.submit 7), .isr (.submit 0 8), .isr (.give 0),
          .act .give, .dispatch 1, .act .wake, .act .pop, .act .call, .act (.submit 9), .act .give,
          .act .ret, .act .take, .act .pop, .act .call, .act .ret, .act .take, .act .pop,
            .act .call,
          .act .ret, .act .take] = some s'
      ∧ ∃ xs, s'.Law 1 xs := by
  obtain ⟨s', hrun⟩ : ∃ s', run (WorkSys.step ⟨1000, 10, true⟩) (workReady ⟨1000, 10, true⟩ 1)
      [.dispatch 1, .act .take, .dispatch 2, .act (.submit 7), .isr (.submit 0 8), .isr (.give 0),
        .act .give, .dispatch 1, .act .wake, .act .pop, .act .call, .act (.submit 9), .act .give,
        .act .ret, .act .take, .act .pop, .act .call, .act .ret, .act .take, .act .pop, .act .call,
        .act .ret, .act .take] = some s' :=
    Option.isSome_iff_exists.mp (by decide +kernel)
  refine ⟨s', hrun, work_exactly_once ⟨rfl, fun w => ⟨0, rfl⟩, rfl, rfl, rfl, rfl, ?_, rfl⟩
    (by decide +kernel) hrun⟩
  intro t ht
  exact if_neg ht

end VibeRtos
