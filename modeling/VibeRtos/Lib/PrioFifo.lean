import Mathlib

/-!
# A priority queue of FIFOs

The abstract queue is the list of its members in order of arrival, each with the
priority it arrived with. `fifo log p` is the queue of one priority, and
`First log a` says that `a` is served next: it is the earliest arrival among the
members of maximal priority.
-/

namespace PrioFifo

variable {α π : Type}

/-- `a` arrives with priority `p`. -/
def arrive (log : List (α × π)) (a : α) (p : π) : List (α × π) := log ++ [(a, p)]

/-- `a` leaves, wherever it stands. -/
def leave [DecidableEq α] (log : List (α × π)) (a : α) : List (α × π) := log.filter fun e => e.1 ≠ a

/-- The members of priority `p`, in order of arrival. -/
def fifo [DecidableEq π] (log : List (α × π)) (p : π) : List α :=
  (log.filter fun e => e.2 = p).map Prod.fst

/-- `a` is the earliest arrival among the members of maximal priority. -/
def First [LinearOrder π] (log : List (α × π)) (a : α) : Prop :=
  ∃ pre post p, log = pre ++ (a, p) :: post ∧ (∀ e ∈ pre, e.2 < p) ∧ ∀ e ∈ post, e.2 ≤ p

@[simp] theorem fifo_nil [DecidableEq π] (p : π) : fifo ([] : List (α × π)) p = [] := rfl

theorem mem_fifo [DecidableEq π] {log : List (α × π)} {a : α} {p : π} :
    a ∈ fifo log p ↔ (a, p) ∈ log := by
  simp [fifo]

theorem fifo_arrive [DecidableEq π] (log : List (α × π)) (a : α) (p q : π) :
    fifo (arrive log a p) q = if q = p then fifo log q ++ [a] else fifo log q := by
  by_cases h : q = p
  · subst h; simp [fifo, arrive]
  · simp [fifo, arrive, h, Ne.symm h]

theorem fifo_leave [DecidableEq α] [DecidableEq π] (log : List (α × π)) (a : α) (q : π) :
    fifo (leave log a) q = (fifo log q).filter fun b => b ≠ a := by
  simp only [fifo, leave, List.filter_filter, List.filter_map, Function.comp_def]
  simp only [Bool.and_comm]

theorem nodup_fifo [DecidableEq π] {log : List (α × π)} (h : (log.map Prod.fst).Nodup) (p : π) :
    (fifo log p).Nodup :=
  h.sublist (List.filter_sublist.map _)

/-- All members of some priorities leave. -/
theorem fifo_filter [DecidableEq π] (log : List (α × π)) (stays : π → Bool) (p : π) :
    fifo (log.filter fun e => stays e.2) p = if stays p then fifo log p else [] := by
  have hfilter : (log.filter fun e => stays e.2).filter (fun e => e.2 = p)
      = if stays p then log.filter fun e => e.2 = p else [] := by
    rw [List.filter_filter]
    split
    · rename_i hp
      refine List.filter_congr fun e _ => ?_
      by_cases he : e.2 = p
      · simp [he, hp]
      · simp [he]
    · rename_i hp
      refine List.filter_eq_nil_iff.mpr fun e _ => ?_
      by_cases he : e.2 = p
      · simp [he, hp]
      · simp [he]
  rw [fifo, hfilter]
  split <;> rfl

theorem mem_leave [DecidableEq α] {log : List (α × π)} {a : α} {e : α × π} :
    e ∈ leave log a ↔ e ∈ log ∧ e.1 ≠ a := by
  simp [leave]

/-- The head of the highest non-empty queue is served next. -/
theorem first_of_fifo [LinearOrder π] {log : List (α × π)} {a : α} {p : π} {r : List α}
    (h : fifo log p = a :: r) (htop : ∀ q, p < q → fifo log q = []) : First log a := by
  have hle : ∀ e ∈ log, e.2 ≤ p := by
    intro e he
    by_contra hlt
    have hmem : e.1 ∈ fifo log e.2 := mem_fifo.mpr he
    rw [htop e.2 (not_le.mp hlt)] at hmem
    exact absurd hmem (by simp)
  obtain ⟨e, es, hf, rfl, -⟩ := List.map_eq_cons_iff.mp h
  obtain ⟨pre, post, rfl, hpre, he, -⟩ := List.filter_eq_cons_iff.mp hf
  have hep : e.2 = p := by simpa using he
  refine ⟨pre, post, p, by rw [← hep], ?_, ?_⟩
  · intro x hx
    refine lt_of_le_of_ne (hle x (List.mem_append_left _ hx)) ?_
    simpa using hpre x hx
  · intro x hx
    exact hle x (List.mem_append_right _ (List.mem_cons_of_mem _ hx))

/-! ## A sorted list as the queue -/

section Sorted

variable [LinearOrder π] {prio : α → π} {pre post xs : List α} {a : α}

/-- The queue: highest priority first. -/
def Sorted (prio : α → π) (xs : List α) : Prop := xs.Pairwise fun b c => prio c ≤ prio b

/-- Queue `a` behind its equals. -/
theorem Sorted.insert (h : Sorted prio (pre ++ post)) (hpre : ∀ b ∈ pre, prio a ≤ prio b)
    (hpost : ∀ c ∈ post, prio c < prio a) : Sorted prio (pre ++ a :: post) := by
  obtain ⟨h₁, h₂, h₃⟩ := List.pairwise_append.mp h
  refine List.pairwise_append.mpr ⟨h₁, List.pairwise_cons.mpr ⟨?_, h₂⟩, ?_⟩
  · exact fun c hc => (hpost c hc).le
  · intro b hb c hc
    rcases List.mem_cons.mp hc with rfl | hc
    · exact hpre b hb
    · exact h₃ b hb c hc

/-- Then `a` is the last of its priority, and the other priorities are as they were. -/
theorem filter_insert (hpost : ∀ c ∈ post, prio c < prio a) (p : π) :
    (pre ++ a :: post).filter (fun b => prio b = p)
      = if p = prio a then (pre ++ post).filter (fun b => prio b = p) ++ [a]
        else (pre ++ post).filter (fun b => prio b = p) := by
  split
  · rename_i hp
    subst hp
    have hnil : post.filter (fun b => prio b = prio a) = [] := by
      refine List.filter_eq_nil_iff.mpr fun c hc => ?_
      simpa using (hpost c hc).ne
    simp [List.filter_append, hnil]
  · rename_i hp
    simp [List.filter_append, Ne.symm hp]

/-- The members of at least some priority are the front of the queue. -/
theorem Sorted.takeWhile_eq (h : Sorted prio xs) (p : π) :
    xs.takeWhile (fun b => p ≤ prio b) = xs.filter fun b => p ≤ prio b := by
  induction xs with
  | nil => rfl
  | cons x xs ih =>
      obtain ⟨hx, hxs⟩ := List.pairwise_cons.mp h
      by_cases hp : p ≤ prio x
      · rw [List.takeWhile_cons_of_pos (by simpa using hp),
          List.filter_cons_of_pos (by simpa using hp),
          ih hxs]
      · rw [List.takeWhile_cons_of_neg (by simpa using hp),
          List.filter_cons_of_neg (by simpa using hp)]
        refine (List.filter_eq_nil_iff.mpr fun b hb => ?_).symm
        have hlt : prio b < p := (hx b hb).trans_lt (not_le.mp hp)
        simpa using hlt

/-- The others are behind them. -/
theorem Sorted.dropWhile_eq (h : Sorted prio xs) (p : π) :
    xs.dropWhile (fun b => p ≤ prio b) = xs.filter fun b => ¬ p ≤ prio b := by
  induction xs with
  | nil => rfl
  | cons x xs ih =>
      obtain ⟨hx, hxs⟩ := List.pairwise_cons.mp h
      by_cases hp : p ≤ prio x
      · rw [List.dropWhile_cons_of_pos (by simpa using hp),
          List.filter_cons_of_neg (by simpa using hp),
          ih hxs]
      · rw [List.dropWhile_cons_of_neg (by simpa using hp),
          List.filter_cons_of_pos (by simpa using hp)]
        have hall : xs.filter (fun b => ¬ p ≤ prio b) = xs := by
          refine List.filter_eq_self.mpr fun b hb => ?_
          have hlt : prio b < p := (hx b hb).trans_lt (not_le.mp hp)
          simpa using hlt
        rw [hall]

/-- Of a sorted queue the head is served next. -/
theorem Sorted.first {log : List (α × π)} (h : Sorted prio (a :: xs))
    (hlog : ∀ p, (a :: xs).filter (fun b => prio b = p) = fifo log p) : First log a := by
  have hle := (List.pairwise_cons.mp h).1
  refine first_of_fifo (p := prio a) (r := xs.filter fun b => prio b = prio a) ?_ fun q hq => ?_
  · rw [← hlog]
    simp
  · rw [← hlog, List.filter_eq_nil_iff]
    intro b hb
    have hba : prio b ≤ prio a := by
      rcases List.mem_cons.mp hb with rfl | hb
      · exact le_rfl
      · exact hle b hb
    simpa using (hba.trans_lt hq).ne

end Sorted

/-- At most one member is served next. -/
theorem First.unique [LinearOrder π] {log : List (α × π)} {a b : α}
    (ha : First log a) (hb : First log b) : a = b := by
  obtain ⟨pre, post, p, rfl, hpre, hpost⟩ := ha
  obtain ⟨pre', post', q, heq, hpre', hpost'⟩ := hb
  have hmem : (a, p) ∈ pre' ++ (b, q) :: post' := heq ▸ by simp
  have hmem' : (b, q) ∈ pre ++ (a, p) :: post := heq.symm ▸ by simp
  have hpq : p = q := by
    refine le_antisymm ?_ ?_
    · rcases List.mem_append.mp hmem with h | h
      · exact (hpre' _ h).le
      · rcases List.mem_cons.mp h with h | h
        · exact (congrArg Prod.snd h).le
        · exact hpost' _ h
    · rcases List.mem_append.mp hmem' with h | h
      · exact (hpre _ h).le
      · rcases List.mem_cons.mp h with h | h
        · exact (congrArg Prod.snd h).le
        · exact hpost _ h
  subst hpq
  -- the shorter prefix would contain an entry of priority `p`
  rcases List.append_eq_append_iff.mp heq with ⟨as, hpre2, hcons⟩ | ⟨as, hpre2, hcons⟩
  · cases as with
    | nil => exact (congrArg Prod.fst (List.cons.inj hcons).1)
    | cons x xs =>
        have hx : (a, p) = x := (List.cons.inj hcons).1
        exact absurd (hpre' (a, p) (by rw [hpre2, hx]; simp)) (lt_irrefl _)
  · cases as with
    | nil => exact (congrArg Prod.fst (List.cons.inj hcons).1).symm
    | cons x xs =>
        have hx : (b, p) = x := (List.cons.inj hcons).1
        exact absurd (hpre (b, p) (by rw [hpre2, hx]; simp)) (lt_irrefl _)

end PrioFifo
