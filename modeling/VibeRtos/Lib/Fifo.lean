import Mathlib

/-!
# FIFO channels and rings

A channel is known by what is observed at it: messages put, taken, looked at, and
purges. `replay` runs a log of observations on the sequence of pending messages and
refuses one that no FIFO channel would show. Whatever it accepts, the messages put
since the last purge are those taken since, followed by those still pending.

The second part is the index arithmetic of a ring of `n` slots and the entries it
holds; the third a queue of bounded capacity that keeps account of what it took,
gave and refused.
-/

namespace Fifo

variable {α : Type}

/-- What is observed at a channel. -/
inductive Event (α : Type) where
  | put (a : α)
  | take (a : α)
  | look (a : α)
  | purge
  deriving DecidableEq

variable [DecidableEq α]

/-- The pending messages after an observation, if a FIFO channel allows it. -/
def observe : List α → Event α → Option (List α)
  | xs, .put a => some (xs ++ [a])
  | [], .take _ => none
  | x :: xs, .take a => if x = a then some xs else none
  | [], .look _ => none
  | x :: xs, .look a => if x = a then some (x :: xs) else none
  | _, .purge => some []

/-- The pending messages after a log, oldest observation first. -/
def replay : List α → List (Event α) → Option (List α)
  | xs, [] => some xs
  | xs, e :: es => (observe xs e).bind fun xs' => replay xs' es

theorem replay_append {xs : List α} {es fs : List (Event α)} :
    replay xs (es ++ fs) = (replay xs es).bind fun ys => replay ys fs := by
  induction es generalizing xs with
  | nil => rfl
  | cons e es ih =>
    rw [List.cons_append, replay, replay]
    cases observe xs e with
    | none => rfl
    | some ys => exact ih

theorem observe_take {xs : List α} {a : α} (h : xs.head? = some a) :
    observe xs (.take a) = some xs.tail := by
  obtain ⟨ys, rfl⟩ := List.head?_eq_some_iff.mp h
  simp [observe]

theorem observe_look {xs : List α} {a : α} (h : xs.head? = some a) :
    observe xs (.look a) = some xs := by
  obtain ⟨ys, rfl⟩ := List.head?_eq_some_iff.mp h
  simp [observe]

/-- The messages put since the last purge, after those of `acc`. -/
def puts : List α → List (Event α) → List α
  | acc, [] => acc
  | acc, .put a :: es => puts (acc ++ [a]) es
  | acc, .take _ :: es => puts acc es
  | acc, .look _ :: es => puts acc es
  | _, .purge :: es => puts [] es

/-- The messages taken since the last purge, after those of `acc`. -/
def takes : List α → List (Event α) → List α
  | acc, [] => acc
  | acc, .put _ :: es => takes acc es
  | acc, .take a :: es => takes (acc ++ [a]) es
  | acc, .look _ :: es => takes acc es
  | _, .purge :: es => takes [] es

/-- Nothing is lost, duplicated or reordered. -/
theorem puts_eq_takes_append {es : List (Event α)} :
    ∀ (pre : List α) {xs ys : List α}, replay xs es = some ys →
      puts (pre ++ xs) es = takes pre es ++ ys := by
  induction es with
  | nil =>
    intro pre xs ys h
    obtain rfl := Option.some.inj h
    rfl
  | cons e es ih =>
    intro pre xs ys h
    rw [replay, Option.bind_eq_some_iff] at h
    obtain ⟨zs, hz, hr⟩ := h
    cases e with
    | put a =>
      obtain rfl := Option.some.inj hz
      rw [puts, takes, List.append_assoc]
      exact ih _ hr
    | take a =>
      cases xs with
      | nil => exact absurd hz (by simp [observe])
      | cons x xs =>
        rw [observe] at hz
        split at hz
        · rename_i hxa
          obtain rfl := Option.some.inj hz
          subst hxa
          rw [puts, takes, ← ih _ hr]
          simp
        · exact absurd hz (by simp)
    | look a =>
      cases xs with
      | nil => exact absurd hz (by simp [observe])
      | cons x xs =>
        rw [observe] at hz
        split at hz
        · obtain rfl := Option.some.inj hz
          rw [puts, takes]
          exact ih _ hr
        · exact absurd hz (by simp)
    | purge =>
      obtain rfl := Option.some.inj hz
      rw [puts, takes]
      exact ih [] hr

/-! ## Rings -/

/-- The slot `j` places after `head`. -/
def ringAt (n head j : Nat) : Nat := (head + j) % n

theorem ringAt_lt {n head j : Nat} (h : 0 < n) : ringAt n head j < n := Nat.mod_lt _ h

@[simp] theorem ringAt_zero {n head : Nat} (h : head < n) : ringAt n head 0 = head :=
  Nat.mod_eq_of_lt h

theorem ringAt_next {n head j : Nat} : ringAt n ((head + 1) % n) j = ringAt n head (j + 1) := by
  unfold ringAt
  rw [Nat.mod_add_mod]
  congr 1
  omega

/-- Different places less than a round apart are different slots. -/
theorem ringAt_ne {n head i j : Nat} (hij : i < j) (hj : j < n) :
    ringAt n head i ≠ ringAt n head j := by
  intro h
  have hmod : i % n = j % n := Nat.ModEq.add_left_cancel' head h
  rw [Nat.mod_eq_of_lt (by omega), Nat.mod_eq_of_lt hj] at hmod
  omega

theorem ringAt_ringAt {n head i j : Nat} :
    ringAt n (ringAt n head i) j = ringAt n head (i + j) := by
  unfold ringAt
  rw [Nat.mod_add_mod, Nat.add_assoc]

/-- Within one round a place wraps at most once. -/
theorem ringAt_eq {n head j : Nat} (h : head < n) (hj : j ≤ n) :
    ringAt n head j = if head + j < n then head + j else head + j - n := by
  unfold ringAt
  split
  · rename_i hlt
    exact Nat.mod_eq_of_lt hlt
  · rename_i hge
    rw [Nat.mod_eq_sub_mod (by omega), Nat.mod_eq_of_lt (by omega)]

section RingRead

variable {β : Type} {m m' : Nat → β} {n head k i : Nat}

/-- The `k` entries of a ring from `head` on. -/
def ringRead (m : Nat → β) (n head k : Nat) : List β :=
  (List.range k).map fun j => m (ringAt n head j)

@[simp] theorem length_ringRead : (ringRead m n head k).length = k := by simp [ringRead]

@[simp] theorem ringRead_zero : ringRead m n head 0 = [] := rfl

theorem ringRead_congr (h : ∀ j, j < k → m' (ringAt n head j) = m (ringAt n head j)) :
    ringRead m' n head k = ringRead m n head k :=
  List.map_congr_left fun j hj => h j (List.mem_range.mp hj)

theorem ringRead_add : ringRead m n head (k + i)
    = ringRead m n head k ++ ringRead m n (ringAt n head k) i := by
  unfold ringRead
  rw [List.range_add, List.map_append, List.map_map]
  congr 1
  refine List.map_congr_left fun j _ => ?_
  rw [ringAt_ringAt, Function.comp_apply]

theorem ringRead_take (h : i ≤ k) : (ringRead m n head k).take i = ringRead m n head i := by
  obtain ⟨d, rfl⟩ := Nat.exists_eq_add_of_le h
  rw [ringRead_add, List.take_left' length_ringRead]

theorem ringRead_drop (h : i ≤ k) :
    (ringRead m n head k).drop i = ringRead m n (ringAt n head i) (k - i) := by
  obtain ⟨d, rfl⟩ := Nat.exists_eq_add_of_le h
  rw [ringRead_add, List.drop_left' length_ringRead, Nat.add_sub_cancel_left]

/-- The oldest entry. -/
theorem ringRead_head (hk : 0 < k) (h : head < n) :
    ringRead m n head k = m head :: (ringRead m n head k).drop 1 := by
  obtain ⟨d, rfl⟩ := Nat.exists_eq_add_of_le' hk
  have hone : ringRead m n head 1 = [m head] := by
    simp only [ringRead, List.range_one, List.map_singleton, ringAt_zero h]
  rw [ringRead_drop hk, Nat.add_comm d 1, ringRead_add, hone, Nat.add_sub_cancel_left]
  rfl

/-- Entries stored behind the last one are appended. -/
theorem ringRead_append {data : Nat → β}
    (hold : ∀ j, j < k → m' (ringAt n head j) = m (ringAt n head j))
    (hnew : ∀ j, j < i → m' (ringAt n (ringAt n head k) j) = data j) :
    ringRead m' n head (k + i) = ringRead m n head k ++ (List.range i).map data := by
  rw [ringRead_add, ringRead_congr hold]
  congr 1
  exact List.map_congr_left fun j hj => hnew j (List.mem_range.mp hj)

/-- A stretch of a ring is a stretch up to its end and one from its start. -/
theorem ringRead_chunks (h : head < n) (hk : k ≤ n) :
    ringRead m n head k = (List.range (min k (n - head))).map (fun j => m (head + j))
      ++ (List.range (k - min k (n - head))).map m := by
  obtain ⟨d, hd⟩ := Nat.exists_eq_add_of_le (Nat.min_le_left k (n - head))
  have hrange : List.range k = List.range (min k (n - head))
      ++ (List.range (k - min k (n - head))).map (min k (n - head) + ·) := by
    rw [← List.range_add]
    congr 1
    omega
  unfold ringRead
  rw [hrange, List.map_append, List.map_map]
  congr 1
  · refine List.map_congr_left fun j hj => ?_
    have hj' := List.mem_range.mp hj
    rw [ringAt_eq h (by omega), if_pos (by omega)]
  · refine List.map_congr_left fun j hj => ?_
    have hj' := List.mem_range.mp hj
    rw [Function.comp_apply, ringAt_eq h (by omega), if_neg (by omega)]
    congr 1
    omega

end RingRead

/-! ## Bounded queues -/

/-- A queue, and what has happened to it since it was new. -/
structure Bounded (β : Type) where
  queue : List β
  accepted : Nat
  delivered : Nat
  refused : Nat
  /-- the greatest length reached -/
  peak : Nat

namespace Bounded

variable {β : Type} {b : Bounded β} {cap : Nat}

/-- A new queue. -/
def empty : Bounded β := ⟨[], 0, 0, 0, 0⟩

/-- The longest prefix of `ys` that fits. -/
def fit (cap : Nat) (b : Bounded β) (ys : List β) : List β := ys.take (cap - b.queue.length)

/-- Append the longest prefix of `ys` that fits, and refuse the rest. -/
def push (cap : Nat) (b : Bounded β) (ys : List β) : Bounded β where
  queue := b.queue ++ b.fit cap ys
  accepted := b.accepted + (b.fit cap ys).length
  delivered := b.delivered
  refused := b.refused + (ys.length - (b.fit cap ys).length)
  peak := max b.peak (b.queue ++ b.fit cap ys).length

/-- Remove the `n` oldest entries, or all of them. -/
def pop (b : Bounded β) (n : Nat) : Bounded β :=
  { b with
    queue := b.queue.drop n
    delivered := b.delivered + (b.queue.take n).length }

/-- The account of a queue of capacity `cap` is in order. -/
structure Sound (cap : Nat) (b : Bounded β) : Prop where
  le_cap : b.queue.length ≤ cap
  balance : b.accepted = b.delivered + b.queue.length
  le_peak : b.queue.length ≤ b.peak
  peak_le : b.peak ≤ cap

theorem sound_empty : (empty : Bounded β).Sound cap :=
  ⟨Nat.zero_le _, rfl, Nat.le_refl _, Nat.zero_le _⟩

theorem Sound.push (h : b.Sound cap) (ys : List β) : (b.push cap ys).Sound cap := by
  have hcap := h.le_cap
  have hbal := h.balance
  have hpeak := h.peak_le
  refine ⟨?_, ?_, Nat.le_max_right _ _, ?_⟩
  all_goals simp only [Bounded.push, fit, List.length_append, List.length_take]
  all_goals omega

theorem Sound.pop (h : b.Sound cap) (n : Nat) : (b.pop n).Sound cap := by
  have hcap := h.le_cap
  have hbal := h.balance
  have hle := h.le_peak
  refine ⟨?_, ?_, ?_, h.peak_le⟩
  all_goals simp only [Bounded.pop, List.length_drop, List.length_take]
  all_goals omega

end Bounded

end Fifo
