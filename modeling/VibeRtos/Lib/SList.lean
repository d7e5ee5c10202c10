import Mathlib

/-!
# Singly linked lists

A node memory gives every node its one link word. `Path next a xs b` says that the
nodes `xs` are linked in order from the word `a` on, and that the last of them points
at `b`; `none` is the null pointer. The words that point at a node are the anchor and
the links of other nodes, so an operation names the word it goes through by the node
that holds it, with `none` for the anchor.
-/

namespace SList

variable {N : Type} {next next' : N → Option N} {a b c : Option N} {x y : N} {xs ys : List N}

/-- `xs` is linked in order from `a` to `b`. -/
def Path (next : N → Option N) : Option N → List N → Option N → Prop
  | a, [], b => a = b
  | a, x :: xs, b => a = some x ∧ Path next (next x) xs b

@[simp] theorem path_nil : Path next a [] b ↔ a = b := Iff.rfl

@[simp] theorem path_cons : Path next a (x :: xs) b ↔ a = some x ∧ Path next (next x) xs b :=
  Iff.rfl

theorem path_append : Path next a (xs ++ ys) b ↔ ∃ c, Path next a xs c ∧ Path next c ys b := by
  induction xs generalizing a with
  | nil => simp
  | cons x xs ih =>
    rw [List.cons_append, path_cons, ih]
    constructor
    · rintro ⟨ha, c, hx, hy⟩
      exact ⟨c, ⟨ha, hx⟩, hy⟩
    · rintro ⟨c, ⟨ha, hx⟩, hy⟩
      exact ⟨ha, c, hx, hy⟩

/-- The first node is what the path starts from. -/
theorem Path.head (h : Path next a xs none) : a = xs.head? := by
  cases xs with
  | nil => exact h
  | cons x xs => exact h.1

theorem Path.congr (h : Path next a xs b) (hn : ∀ z ∈ xs, next' z = next z) :
    Path next' a xs b := by
  induction xs generalizing a with
  | nil => exact h
  | cons x xs ih =>
    obtain ⟨ha, hp⟩ := h
    refine ⟨ha, ?_⟩
    rw [hn x List.mem_cons_self]
    exact ih hp fun z hz => hn z (List.mem_cons_of_mem _ hz)

/-- The links determine the list. -/
theorem Path.unique (h : Path next a xs none) (h' : Path next a ys none) : xs = ys := by
  induction xs generalizing a ys with
  | nil =>
    cases ys with
    | nil => rfl
    | cons y ys =>
        obtain rfl : a = none := h
        exact absurd h'.1 (by simp)
  | cons x xs ih =>
    obtain ⟨rfl, hx⟩ := h
    cases ys with
    | nil => exact absurd h' (by simp)
    | cons y ys =>
        obtain ⟨hxy, hy⟩ := h'
        obtain rfl : x = y := Option.some.inj hxy
        rw [ih hx hy]

/-- The nodes that following the links visits. -/
def nodesFrom (next : N → Option N) : Nat → Option N → List N
  | 0, _ => []
  | _ + 1, none => []
  | fuel + 1, some x => x :: nodesFrom next fuel (next x)

theorem Path.nodesFrom_eq : ∀ {fuel : Nat} {a : Option N} {xs : List N}, Path next a xs none →
    xs.length ≤ fuel → nodesFrom next fuel a = xs
  | 0, _, xs, _, hf => (List.eq_nil_of_length_eq_zero (Nat.le_zero.mp hf)).symm
  | _ + 1, _, [], h, _ => by
      obtain rfl := path_nil.mp h
      rfl
  | _ + 1, _, x :: xs, h, hf => by
      obtain ⟨rfl, hx⟩ := path_cons.mp h
      exact congrArg (x :: ·) (hx.nodesFrom_eq (Nat.le_of_succ_le_succ hf))
/-- The link of a node in the list. -/
theorem Path.next_eq (h : Path next a (xs ++ x :: ys) none) : next x = ys.head? := by
  obtain ⟨c, -, -, hy⟩ := path_append.mp h
  exact hy.head

/-! ## The word that points at a node -/

/-- The word held by a node, or by the anchor. -/
def word (anchor : Option N) (next : N → Option N) : Option N → Option N
  | none => anchor
  | some p => next p

/-- The word behind the last of `xs` points at what follows it. -/
theorem Path.word_eq (h : Path next a (xs ++ ys) none) :
    word a next xs.getLast? = ys.head? := by
  rcases List.eq_nil_or_concat xs with rfl | ⟨zs, z, rfl⟩
  · exact h.head
  · rw [List.concat_eq_append, List.getLast?_append, List.getLast?_singleton]
    rw [List.concat_eq_append, List.append_assoc] at h
    exact h.next_eq

/-- In a list without repetitions only the node in front of `x` points at it. -/
theorem Path.word_inj {w : Option N} (h : Path next a (xs ++ x :: ys) none)
    (hnd : (xs ++ x :: ys).Nodup) (hin : ∀ p, w = some p → p ∈ xs ++ x :: ys)
    (hw : word a next w = some x) : w = xs.getLast? := by
  have hsplit := List.nodup_append.mp hnd
  have hx : x ∉ xs := fun hin => hsplit.2.2 x hin x List.mem_cons_self rfl
  have hy : x ∉ ys := (List.nodup_cons.mp hsplit.2.1).1
  -- the list split at the node that holds the word
  obtain ⟨us, vs, huv, hlast⟩ : ∃ us vs, xs ++ x :: ys = us ++ vs ∧ w = us.getLast? := by
    cases w with
    | none => exact ⟨[], _, rfl, rfl⟩
    | some p =>
        obtain ⟨us, vs, huv⟩ := List.append_of_mem (hin p rfl)
        exact ⟨us ++ [p], vs, by rw [huv]; simp, by simp⟩
  have hhead : vs.head? = some x := by
    rw [← hw, hlast]
    rw [huv] at h
    exact h.word_eq.symm
  obtain ⟨ws, rfl⟩ : ∃ ws, vs = x :: ws := by
    cases vs with
    | nil => exact absurd hhead (by simp)
    | cons v vs => exact ⟨vs, by rw [Option.some.inj hhead]⟩
  rw [hlast, ((List.append_cons_inj_of_notMem hx hy).mp huv).1]

/-! ## Linking in -/

/-- Point the word behind the last node at `x`. -/
theorem Path.snoc {a' : Option N} (h : Path next a xs none) (hx : next' x = none)
    (hnew : word a' next' xs.getLast? = some x) (hanchor : xs ≠ [] → a' = a)
    (hold : ∀ z ∈ xs, xs.getLast? ≠ some z → next' z = next z) (hnd : xs.Nodup) :
    Path next' a' (xs ++ [x]) none := by
  rcases List.eq_nil_or_concat xs with rfl | ⟨zs, z, rfl⟩
  · exact ⟨hnew, hx⟩
  · rw [List.concat_eq_append] at *
    rw [List.getLast?_append, List.getLast?_singleton] at hnew hold
    rw [hanchor (by simp)]
    obtain ⟨d, hzs, rfl, -⟩ := path_append.mp h
    rw [List.append_assoc]
    refine path_append.mpr ⟨some z, hzs.congr fun u hu => ?_, rfl, hnew, hx⟩
    refine hold u (List.mem_append_left _ hu) fun he => ?_
    obtain rfl : z = u := Option.some.inj he
    exact (List.nodup_append.mp hnd).2.2 z hu z (List.mem_singleton_self z) rfl

/-! ## Linking out -/

/-- Point the word behind `xs` past the node `x`. -/
theorem Path.unlink {a' : Option N} (h : Path next a (xs ++ x :: ys) none)
    (hnd : (xs ++ x :: ys).Nodup) (hnew : word a' next' xs.getLast? = next x)
    (hanchor : xs ≠ [] → a' = a)
    (hold : ∀ z ∈ xs ++ ys, xs.getLast? ≠ some z → next' z = next z) :
    Path next' a' (xs ++ ys) none := by
  obtain ⟨c, hx, rfl, hy⟩ := path_append.mp h
  obtain ⟨hxn, -, hd⟩ := List.nodup_append.mp hnd
  have hy' : Path next' (next x) ys none := by
    refine hy.congr fun z hz => hold z (List.mem_append_right _ hz) fun he => ?_
    exact hd z (List.mem_of_getLast? he) z (List.mem_cons_of_mem _ hz) rfl
  rw [path_append]
  refine ⟨next x, ?_, hy'⟩
  rcases List.eq_nil_or_concat xs with rfl | ⟨zs, z, rfl⟩
  · exact hnew
  · rw [List.concat_eq_append] at *
    rw [List.getLast?_append, List.getLast?_singleton] at hnew hold
    rw [hanchor (by simp)]
    obtain ⟨d, hzs, rfl, -⟩ := path_append.mp hx
    refine path_append.mpr ⟨some z, hzs.congr fun u hu => ?_, rfl, hnew⟩
    refine hold u (List.mem_append_left _ (List.mem_append_left _ hu)) fun he => ?_
    obtain rfl : z = u := Option.some.inj he
    exact (List.nodup_append.mp hxn).2.2 z hu z (List.mem_singleton_self z) rfl

end SList
