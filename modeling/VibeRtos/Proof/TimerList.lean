import VibeRtos.Kernel.Timer

/-!
# The timer list

`Timers.Holds m xs`: the list from `g_timer_list_head` is `xs`, without repetitions, and
holds the active timers and no others. Starting puts a timer in front, stopping takes it
out wherever it is, and one loop body of the tick takes out a one-shot that expires,
provided that the word it writes to is the one that points at the timer.
-/

namespace VibeRtos

open SList

/-! ## One timer -/

namespace Timer

/-- Everything in a timer but its link. -/
def core (x : Timer) : Timer := { x with next := none }

theorem active_of_core {x y : Timer} (h : x.core = y.core) : x.active = y.active := by
  have hactive := congrArg Timer.active h
  exact hactive

/-- A timer that the tick has counted down. -/
def ticked (x : Timer) : Timer :=
  if x.remaining > 0 then { x with remaining := x.remaining - 1 } else x

@[simp] theorem ticked_active (x : Timer) : x.ticked.active = x.active := by
  unfold ticked
  split <;> rfl

@[simp] theorem ticked_mode (x : Timer) : x.ticked.mode = x.mode := by
  unfold ticked
  split <;> rfl

@[simp] theorem ticked_next (x : Timer) : x.ticked.next = x.next := by
  unfold ticked
  split <;> rfl

@[simp] theorem ticked_durationTicks (x : Timer) : x.ticked.durationTicks = x.durationTicks := by
  unfold ticked
  split <;> rfl

theorem ticked_of_pos {x : Timer} (h : 0 < x.remaining.toNat) :
    x.ticked.remaining.toNat = x.remaining.toNat - 1 := by
  have hle : (1 : UInt32) ≤ x.remaining := UInt32.le_iff_toNat_le.mpr h
  rw [ticked, if_pos (show x.remaining > 0 from UInt32.lt_iff_toNat_lt.mpr h)]
  exact UInt32.toNat_sub_of_le _ _ hle

/-- The timer expires in this tick. -/
def Expires (x : Timer) : Prop := x.ticked.remaining = 0 ∧ x.active

instance (x : Timer) : Decidable x.Expires := inferInstanceAs (Decidable (_ ∧ _))

/-- What the tick makes of a timer that it reaches. -/
def visited (x : Timer) : Timer :=
  if x.Expires then
    if x.mode = .periodic then { x.ticked with remaining := x.durationTicks }
    else { x.ticked with active := false }
  else x.ticked

end Timer

namespace Timers

/-- The list is `xs`. -/
structure Holds (m : Timers) (xs : List TimerId) : Prop where
  path : Path m.next m.head xs none
  nodup : xs.Nodup
  active : ∀ t, t ∈ xs ↔ (m.timer t).active
  cut : ∀ t, ¬ (m.timer t).active → m.next t = none

variable {m m' : Timers} {xs as bs : List TimerId} {t u : TimerId} {f : Timer → Timer}

@[simp] theorem mod_self : (m.mod t f).timer t = f (m.timer t) := Function.update_self _ _ _

theorem mod_of_ne (h : u ≠ t) : (m.mod t f).timer u = m.timer u := Function.update_of_ne h _ _

@[simp] theorem mod_head : (m.mod t f).head = m.head := rfl

theorem mod_next (hf : (f (m.timer t)).next = (m.timer t).next) : (m.mod t f).next = m.next := by
  funext u
  unfold next
  by_cases h : u = t
  · subst h
    rw [mod_self, hf]
  · rw [mod_of_ne h]

theorem Holds.fits (h : m.Holds xs) : xs.length < 2 ^ 32 := by
  have hle := h.nodup.length_le_card
  rw [Fintype.card_fin] at hle
  omega

/-- A change that leaves link and flag alone. -/
theorem Holds.mod (h : m.Holds xs) (hnext : (f (m.timer t)).next = (m.timer t).next)
    (hactive : (f (m.timer t)).active = (m.timer t).active) : (m.mod t f).Holds xs := by
  have hsame : ∀ u, ((m.mod t f).timer u).active = (m.timer u).active := by
    intro u
    by_cases hu : u = t
    · subst hu
      rw [mod_self, hactive]
    · rw [mod_of_ne hu]
  refine ⟨?_, h.nodup, fun u => ?_, fun u hu => ?_⟩
  · rw [mod_next hnext]
    exact h.path
  · rw [hsame]
    exact h.active u
  · rw [mod_next hnext]
    rw [hsame] at hu
    exact h.cut u hu

/-! ## Stores to a link word -/

theorem setLink_some (p : TimerId) (v : Option TimerId) :
    m.setLink (some p) v = m.mod p fun x => { x with next := v } := rfl

theorem setLink_core (pp v : Option TimerId) (u : TimerId) :
    ((m.setLink pp v).timer u).core = (m.timer u).core := by
  cases pp with
  | none => rfl
  | some p =>
      rw [setLink_some]
      by_cases h : u = p
      · subst h
        rw [mod_self]
        rfl
      · rw [mod_of_ne h]

theorem setLink_next_of_ne {p : TimerId} {v : Option TimerId} (h : u ≠ p) :
    (m.setLink (some p) v).next u = m.next u := by
  rw [setLink_some, next, mod_of_ne h]
  rfl

theorem link_setLink (pp v : Option TimerId) : (m.setLink pp v).link pp = v := by
  cases pp with
  | none => rfl
  | some p =>
      show ((m.setLink (some p) v).timer p).next = v
      rw [setLink_some, mod_self]

/-- **Unlinking.** The word behind `as` is pointed past `t`, and `t` becomes inactive. -/
theorem Holds.unlink (h : m.Holds (as ++ t :: bs))
    (hf : (f ((m.setLink as.getLast? bs.head?).timer t)).active = false
      ∧ (f ((m.setLink as.getLast? bs.head?).timer t)).next = none) :
    ((m.setLink as.getLast? bs.head?).mod t f).Holds (as ++ bs) := by
  have hnd := List.nodup_append.mp h.nodup
  have hta : t ∉ as := fun hin => hnd.2.2 t hin t List.mem_cons_self rfl
  have htb : t ∉ bs := (List.nodup_cons.mp hnd.2.1).1
  have hlast : ∀ p, as.getLast? = some p → p ≠ t := by
    rintro p hp rfl
    exact hta (List.mem_of_getLast? hp)
  generalize hm' : m.setLink as.getLast? bs.head? = m' at hf ⊢
  have hactive : ∀ u, (m'.timer u).active = (m.timer u).active := fun u => by
    rw [← hm']
    exact Timer.active_of_core (setLink_core _ _ u)
  have hnext : ∀ u, as.getLast? ≠ some u → m'.next u = m.next u := by
    intro u hu
    rw [← hm']
    cases has : as.getLast? with
    | none => rfl
    | some p => exact setLink_next_of_ne fun he => hu (by rw [has, he])
  have hmod : ∀ u, u ≠ t → (m'.mod t f).next u = m'.next u := fun u hu =>
    congrArg Timer.next (mod_of_ne hu)
  constructor
  case path =>
      refine h.path.unlink h.nodup ?_ ?_ ?_
      · rw [show m.next t = bs.head? from h.path.next_eq]
        have hword := link_setLink (m := m) as.getLast? bs.head?
        rw [hm'] at hword
        cases has : as.getLast? with
        | none =>
            rw [has] at hword
            exact hword
        | some p =>
            rw [has] at hword
            exact (hmod p (hlast p has)).trans hword
      · intro hne
        rw [mod_head, ← hm']
        cases has : as.getLast? with
        | none => exact absurd (List.getLast?_eq_none_iff.mp has) hne
        | some p => rfl
      · intro z hz hne
        have hzt : z ≠ t := by
          rintro rfl
          rcases List.mem_append.mp hz with hz | hz
          · exact hta hz
          · exact htb hz
        rw [hmod z hzt, hnext z hne]
  case nodup =>
      refine List.nodup_append.mpr ⟨hnd.1, (List.nodup_cons.mp hnd.2.1).2, ?_⟩
      exact fun x hx y hy => hnd.2.2 x hx y (List.mem_cons_of_mem _ hy)
  case active =>
      intro u
      by_cases hu : u = t
      · subst hu
        rw [mod_self, hf.1]
        simp [hta, htb]
      · rw [mod_of_ne hu, hactive, ← h.active u]
        simp [hu]
  case cut =>
      intro u hna
      by_cases hu : u = t
      · subst hu
        show ((m'.mod u f).timer u).next = none
        rw [mod_self, hf.2]
      · rw [mod_of_ne hu, hactive] at hna
        rw [hmod u hu, hnext u ?_]
        · exact h.cut u hna
        · intro he
          exact hna ((h.active u).mp (List.mem_append_left _ (List.mem_of_getLast? he)))

/-! ## Stopping and starting -/

/-- The walk finds the word that points at `t`. -/
theorem unlinkLoop_eq (ys : List TimerId) : ∀ (fuel : Nat) (as : List TimerId),
    Path m.next m.head (as ++ (ys ++ t :: bs)) none → t ∉ ys → ys.length < fuel →
    unlinkLoop t fuel m as.getLast? = m.setLink (as ++ ys).getLast? (m.next t) := by
  induction ys with
  | nil =>
    intro fuel as h _ hfuel
    obtain ⟨fuel, rfl⟩ := Nat.exists_eq_add_one_of_ne_zero (Nat.pos_iff_ne_zero.mp hfuel)
    have hlink : m.link as.getLast? = some t := h.word_eq
    rw [unlinkLoop, hlink]
    dsimp only
    rw [if_pos rfl, List.append_nil]
    rfl
  | cons y ys ih =>
    intro fuel as h hy hfuel
    obtain ⟨fuel, rfl⟩ := Nat.exists_eq_add_one_of_ne_zero (Nat.pos_iff_ne_zero.mp
      (Nat.lt_of_le_of_lt (Nat.zero_le _) hfuel))
    have hne : y ≠ t := fun he => hy (he ▸ List.mem_cons_self)
    have hnot : t ∉ ys := fun hin => hy (List.mem_cons_of_mem _ hin)
    have hlink : m.link as.getLast? = some y := h.word_eq
    -- one word further
    have hnext := ih fuel (as ++ [y]) (by simpa using h) hnot (by simpa using hfuel)
    rw [unlinkLoop, hlink]
    dsimp only
    rw [if_neg hne]
    rw [List.getLast?_append, List.getLast?_singleton] at hnext
    simpa using hnext

/-- `vibe_timer_stop` of an active timer. -/
theorem Holds.stop (h : m.Holds (as ++ t :: bs)) :
    (timerStop m t).1 = .ok ∧ (timerStop m t).2.Holds (as ++ bs)
      ∧ ((timerStop m t).2.timer t).core
        = { (m.timer t).core with active := false, remaining := 0 }
      ∧ ∀ u, u ≠ t → ((timerStop m t).2.timer u).core = (m.timer u).core := by
  have hin : (m.timer t).active := (h.active t).mp (by simp)
  have hta : t ∉ as := fun hin =>
    (List.nodup_append.mp h.nodup).2.2 t hin t List.mem_cons_self rfl
  have hloop : unlinkLoop t (2 ^ 32) m none = m.setLink as.getLast? bs.head? := by
    have hlen := h.fits
    have hwalk := unlinkLoop_eq as (2 ^ 32) [] h.path hta (by
      rw [List.length_append] at hlen
      omega)
    rw [show m.next t = bs.head? from h.path.next_eq] at hwalk
    exact hwalk
  have hstop : timerStop m t = (.ok, (m.setLink as.getLast? bs.head?).mod t fun x =>
      { x with active := false, remaining := 0, next := none }) := by
    rw [timerStop, if_neg (not_not.mpr hin), hloop]
  rw [hstop]
  dsimp only
  refine ⟨rfl, ?_, ?_, fun u hu => ?_⟩
  · exact h.unlink ⟨rfl, rfl⟩
  · rw [mod_self, ← setLink_core (m := m) as.getLast? bs.head? t]
    rfl
  · rw [mod_of_ne hu]
    exact setLink_core _ _ u

theorem stop_inactive (h : ¬ (m.timer t).active) : timerStop m t = (.eagain, m) := if_pos h

/-- Putting an inactive timer in front. -/
theorem Holds.push (h : m.Holds xs) (ht : t ∉ xs) (hf : (f (m.timer t)).active = true
    ∧ (f (m.timer t)).next = m.head) :
    Holds { m.mod t f with head := some t } (t :: xs) := by
  have hnext : ∀ u, u ≠ t → Timers.next { m.mod t f with head := some t } u = m.next u :=
    fun u hu => congrArg Timer.next (mod_of_ne hu)
  constructor
  case path =>
      refine ⟨rfl, ?_⟩
      have hhead : Timers.next { m.mod t f with head := some t } t = m.head := by
        show ((m.mod t f).timer t).next = m.head
        rw [mod_self, hf.2]
      rw [hhead]
      exact h.path.congr fun z hz => hnext z fun he => ht (he ▸ hz)
  case nodup => exact List.nodup_cons.mpr ⟨ht, h.nodup⟩
  case active =>
      intro u
      show u ∈ t :: xs ↔ ((m.mod t f).timer u).active
      by_cases hu : u = t
      · subst hu
        simp [hf.1]
      · rw [mod_of_ne hu, ← h.active u]
        simp [hu]
  case cut =>
      intro u hna
      have hna' : ¬ ((m.mod t f).timer u).active := hna
      by_cases hu : u = t
      · subst hu
        exact absurd hf.1 (by rwa [mod_self] at hna')
      · rw [mod_of_ne hu] at hna'
        rw [hnext u hu]
        exact h.cut u hna'

/-- `vibe_timer_start` with a duration: the timer is in front of the others. -/
theorem Holds.start (cfg : Config) {ms : UInt32} (h : m.Holds xs) (hms : ms ≠ 0) (t : TimerId) :
    (timerStart cfg m t ms).1 = .ok ∧ (timerStart cfg m t ms).2.Holds (t :: xs.erase t)
      ∧ ((timerStart cfg m t ms).2.timer t).core = { (m.timer t).core with
        durationTicks := startTicks cfg ms, remaining := startTicks cfg ms, active := true }
      ∧ ∀ u, u ≠ t → ((timerStart cfg m t ms).2.timer u).core = (m.timer u).core := by
  -- the list without `t`
  obtain ⟨m₁, hm₁, hholds, hcore, hframe⟩ : ∃ m₁, (if (m.timer t).active then (timerStop m t).2
      else m) = m₁ ∧ m₁.Holds (xs.erase t)
      ∧ { (m₁.timer t).core with active := true, remaining := 0 }
        = { (m.timer t).core with active := true, remaining := 0 }
      ∧ ∀ u, u ≠ t → (m₁.timer u).core = (m.timer u).core := by
    by_cases hin : (m.timer t).active
    · obtain ⟨as, bs, hxs⟩ := List.append_of_mem ((h.active t).mpr hin)
      rw [hxs] at h
      have hta : t ∉ as := fun hin =>
        (List.nodup_append.mp h.nodup).2.2 t hin t List.mem_cons_self rfl
      obtain ⟨-, hstop, hself, hother⟩ := h.stop
      refine ⟨_, if_pos hin, ?_, ?_, hother⟩
      · rw [hxs, List.erase_append_right _ hta, List.erase_cons_head]
        exact hstop
      · rw [hself]
    · refine ⟨_, if_neg hin, ?_, rfl, fun _ _ => rfl⟩
      rw [List.erase_of_not_mem fun hmem => hin ((h.active t).mp hmem)]
      exact h
  have hstart : timerStart cfg m t ms = (.ok, { m₁.mod t (fun x => { x with
      durationTicks := startTicks cfg ms
      remaining := startTicks cfg ms
      active := true
      next := m₁.head }) with head := some t }) := by
    rw [timerStart, if_neg hms]
    dsimp only
    rw [hm₁]
  rw [hstart]
  dsimp only
  refine ⟨rfl, hholds.push h.nodup.not_mem_erase ⟨rfl, rfl⟩, ?_, fun u hu => ?_⟩
  · rw [mod_self]
    have hself : ∀ d : UInt32, { (m₁.timer t).core with
        durationTicks := d, remaining := d, active := true }
        = { (m.timer t).core with durationTicks := d, remaining := d, active := true } := by
      intro d
      have hd := congrArg (fun x : Timer => { x with durationTicks := d, remaining := d }) hcore
      exact hd
    exact hself _
  · rw [mod_of_ne hu]
    exact hframe u hu

/-! ## The loop body of the tick -/

/-- **One loop body.** The tick reaches `t` with `prev` in hand; when `t` is a one-shot that
expires, `prev` has to hold the word that points at it. -/
theorem Holds.visit {prev : Option TimerId} (h : m.Holds (as ++ t :: bs))
    (hprev : (m.timer t).Expires → (m.timer t).mode = .oneShot → prev = as.getLast?) :
    (timerVisit m t prev).next = bs.head?
      ∧ ((timerVisit m t prev).fired = true ↔ (m.timer t).Expires)
      ∧ ((timerVisit m t prev).timers.timer t).core = (m.timer t).visited.core
      ∧ (∀ u, u ≠ t → ((timerVisit m t prev).timers.timer u).core = (m.timer u).core)
      ∧ if (m.timer t).Expires ∧ (m.timer t).mode = .oneShot then
          (timerVisit m t prev).timers.Holds (as ++ bs) ∧ (timerVisit m t prev).prev = prev
        else (timerVisit m t prev).timers.Holds (as ++ t :: bs)
          ∧ (timerVisit m t prev).prev = some t := by
  -- first the countdown, which leaves the list alone
  obtain ⟨m₁, hm₁⟩ : ∃ m₁, m.mod t Timer.ticked = m₁ := ⟨_, rfl⟩
  have hself : m₁.timer t = (m.timer t).ticked := by rw [← hm₁, mod_self]
  have hother : ∀ u, u ≠ t → m₁.timer u = m.timer u := fun u hu => by rw [← hm₁, mod_of_ne hu]
  have h₁ : m₁.Holds (as ++ t :: bs) := by
    rw [← hm₁]
    exact h.mod (Timer.ticked_next _) (Timer.ticked_active _)
  have hnext : (m.timer t).next = bs.head? := h.path.next_eq
  have hvisit : timerVisit m t prev = if (m.timer t).Expires then
      if (m.timer t).mode = .periodic then
        ⟨m₁.mod t fun x => { x with remaining := x.durationTicks }, true, bs.head?, some t⟩
      else ⟨(m₁.setLink prev bs.head?).mod t fun x => { x with active := false, next := none },
        true, bs.head?, prev⟩
      else ⟨m₁, false, bs.head?, some t⟩ := by
    have hfold : m.mod t (fun x => if x.remaining > 0 then
        { x with remaining := x.remaining - 1 } else x) = m₁ := hm₁
    unfold timerVisit Timer.Expires
    dsimp only
    rw [hfold, hself, hnext, Timer.ticked_active, Timer.ticked_mode]
    rfl
  by_cases he : (m.timer t).Expires
  · by_cases hmode : (m.timer t).mode = .periodic
    · have hone : (m.timer t).mode ≠ .oneShot := by simp [hmode]
      rw [hvisit, if_pos he, if_pos hmode, if_neg fun hand => hone hand.2]
      dsimp only
      refine ⟨rfl, by simp [he], ?_, fun u hu => ?_, ?_, rfl⟩
      · rw [mod_self, hself, Timer.visited, if_pos he, if_pos hmode,
          ← Timer.ticked_durationTicks (m.timer t)]
      · rw [mod_of_ne hu, hother u hu]
      · exact h₁.mod rfl rfl
    · have hone : (m.timer t).mode = .oneShot := by
        cases hm : (m.timer t).mode with
        | oneShot => rfl
        | periodic => exact absurd hm hmode
      obtain rfl := hprev he hone
      rw [hvisit, if_pos he, if_neg hmode, if_pos ⟨he, hone⟩]
      dsimp only
      refine ⟨rfl, by simp [he], ?_, fun u hu => ?_, ?_, rfl⟩
      · have hcore := setLink_core (m := m₁) as.getLast? bs.head? t
        rw [hself] at hcore
        have hoff := congrArg (fun x : Timer => { x with active := false }) hcore
        rw [mod_self, Timer.visited, if_pos he, if_neg hmode]
        exact hoff
      · rw [mod_of_ne hu, setLink_core, hother u hu]
      · exact h₁.unlink ⟨rfl, rfl⟩
  · rw [hvisit, if_neg he, if_neg fun hand => he hand.1]
    refine ⟨rfl, by simp [he], ?_, fun u hu => ?_, h₁, rfl⟩
    · dsimp only
      rw [hself, Timer.visited, if_neg he]
    · dsimp only
      rw [hother u hu]

end Timers

end VibeRtos
