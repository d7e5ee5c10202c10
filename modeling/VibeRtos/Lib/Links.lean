import Mathlib

/-!
# Doubly linked chains in a node memory

A node memory gives every node its two link words. `Chain mem p xs q` says that
the nodes `xs` are linked to each other in order, that the first one points back
to `p` and that the last one points on to `q`; `none` is the null pointer.

An update of a chain touches at most the two nodes next to it, so the rules below
are stated relationally: they ask what the new memory holds at those two nodes
and that it agrees with the old one at the others. They therefore apply to a
memory of structs as well as to words decoded out of a byte memory.
-/

namespace Links

/-- The two link words of a node. -/
structure Link (N : Type) where
  prev : Option N
  next : Option N
  deriving DecidableEq, Repr

variable {N : Type} {mem mem' : N → Link N}

/-- `xs` is linked in order, between `p` and `q`. -/
def Chain (mem : N → Link N) : Option N → List N → Option N → Prop
  | _, [], _ => True
  | p, x :: xs, q => mem x = ⟨p, xs.head?.or q⟩ ∧ Chain mem (some x) xs q

@[simp] theorem chain_nil {p q : Option N} : Chain mem p [] q := trivial

theorem chain_cons {p q : Option N} {x : N} {xs : List N} :
    Chain mem p (x :: xs) q ↔ mem x = ⟨p, xs.head?.or q⟩ ∧ Chain mem (some x) xs q := Iff.rfl

theorem chain_append {q : Option N} {xs ys : List N} : ∀ {p : Option N},
    Chain mem p (xs ++ ys) q ↔
      Chain mem p xs (ys.head?.or q) ∧ Chain mem (xs.getLast?.or p) ys q := by
  induction xs with
  | nil => simp
  | cons x xs ih =>
    intro p
    have hlast : (x :: xs).getLast?.or p = xs.getLast?.or (some x) := by
      cases hl : xs.getLast? <;> simp [List.getLast?_cons, hl]
    rw [List.cons_append, chain_cons, chain_cons, ih, List.head?_append, Option.or_assoc, hlast,
      and_assoc]

/-- The link words of a node inside a chain. -/
theorem Chain.at {p q : Option N} {xs ys : List N} {x : N}
    (h : Chain mem p (xs ++ x :: ys) q) : mem x = ⟨xs.getLast?.or p, ys.head?.or q⟩ :=
  (chain_append.mp h).2.1

theorem Chain.congr {q : Option N} {xs : List N} : ∀ {p : Option N}, Chain mem p xs q →
    (∀ x ∈ xs, mem' x = mem x) → Chain mem' p xs q := by
  induction xs with
  | nil => intro p _ _; trivial
  | cons x xs ih =>
    intro p h hm
    refine ⟨?_, ih h.2 fun y hy => hm y (List.mem_cons_of_mem _ hy)⟩
    rw [hm x List.mem_cons_self]
    exact h.1

/-- Point the last node of a chain at `q'`. -/
theorem Chain.retarget_last {q q' : Option N} {xs : List N} : ∀ {p : Option N},
    Chain mem p xs q →
    (∀ x ∈ xs, xs.getLast? ≠ some x → mem' x = mem x) →
    (∀ x, xs.getLast? = some x → mem' x = { mem x with next := q' }) →
    xs.Nodup → Chain mem' p xs q' := by
  induction xs with
  | nil => intro p _ _ _ _; trivial
  | cons x xs ih =>
    intro p h hm hl hnd
    have hx := (List.nodup_cons.mp hnd).1
    cases xs with
    | nil => exact ⟨by rw [hl x rfl, h.1]; rfl, trivial⟩
    | cons y ys =>
        refine ⟨?_, ih h.2 ?_ ?_ (List.nodup_cons.mp hnd).2⟩
        · rw [hm x List.mem_cons_self, h.1]
          · simp
          · intro he
            rw [List.getLast?_cons_cons] at he
            exact hx (List.mem_of_getLast? he)
        · intro z hz hne
          exact hm z (List.mem_cons_of_mem _ hz) (by rwa [List.getLast?_cons_cons])
        · intro z hz
          exact hl z (by rwa [List.getLast?_cons_cons])

/-- Point the first node of a chain back at `p'`. -/
theorem Chain.retarget_first {p p' q : Option N} {xs : List N} (h : Chain mem p xs q)
    (hm : ∀ x ∈ xs, xs.head? ≠ some x → mem' x = mem x)
    (hf : ∀ x, xs.head? = some x → mem' x = { mem x with prev := p' })
    (hnd : xs.Nodup) : Chain mem' p' xs q := by
  cases xs with
  | nil => trivial
  | cons x xs =>
      have hx := (List.nodup_cons.mp hnd).1
      refine ⟨by rw [hf x rfl, h.1], h.2.congr fun y hy => ?_⟩
      refine hm y (List.mem_cons_of_mem _ hy) ?_
      intro he
      obtain rfl : x = y := by simpa using he
      exact hx hy

/-- **Linking in.** Put `n` between `xs` and `ys`. -/
theorem Chain.link {p q : Option N} {xs ys : List N} {n : N} (h : Chain mem p (xs ++ ys) q)
    (hnd : (xs ++ ys).Nodup) (hn : mem' n = ⟨xs.getLast?.or p, ys.head?.or q⟩)
    (hl : ∀ x, xs.getLast? = some x → mem' x = { mem x with next := some n })
    (hf : ∀ y, ys.head? = some y → mem' y = { mem y with prev := some n })
    (hm : ∀ x ∈ xs ++ ys, xs.getLast? ≠ some x → ys.head? ≠ some x → mem' x = mem x) :
    Chain mem' p (xs ++ n :: ys) q := by
  obtain ⟨hx, hy⟩ := chain_append.mp h
  obtain ⟨hxn, hyn, hd⟩ := List.nodup_append.mp hnd
  rw [chain_append, chain_cons]
  refine ⟨?_, hn, ?_⟩
  · refine hx.retarget_last ?_ hl hxn
    intro x hxs hne
    refine hm x (List.mem_append_left _ hxs) hne ?_
    intro he
    exact hd x hxs x (List.mem_of_mem_head? he) rfl
  · refine hy.retarget_first ?_ hf hyn
    intro y hys hne
    refine hm y (List.mem_append_right _ hys) ?_ hne
    intro he
    exact hd y (List.mem_of_getLast? he) y hys rfl

/-- **Linking out.** Take `n` from between `xs` and `ys`. -/
theorem Chain.unlink {p q : Option N} {xs ys : List N} {n : N}
    (h : Chain mem p (xs ++ n :: ys) q) (hnd : (xs ++ n :: ys).Nodup)
    (hl : ∀ x, xs.getLast? = some x → mem' x = { mem x with next := ys.head?.or q })
    (hf : ∀ y, ys.head? = some y → mem' y = { mem y with prev := xs.getLast?.or p })
    (hm : ∀ x ∈ xs ++ ys, xs.getLast? ≠ some x → ys.head? ≠ some x → mem' x = mem x) :
    Chain mem' p (xs ++ ys) q := by
  obtain ⟨hx, -, hy⟩ := chain_append.mp h
  obtain ⟨hxn, hyn, hd⟩ := List.nodup_append.mp hnd
  have hyn' := (List.nodup_cons.mp hyn).2
  rw [chain_append]
  constructor
  · refine hx.retarget_last ?_ hl hxn
    intro x hxs hne
    refine hm x (List.mem_append_left _ hxs) hne ?_
    intro he
    exact hd x hxs x (List.mem_cons_of_mem _ (List.mem_of_mem_head? he)) rfl
  · refine hy.retarget_first ?_ hf hyn'
    intro y hys hne
    refine hm y (List.mem_append_right _ hys) ?_ hne
    intro he
    exact hd y (List.mem_of_getLast? he) y (List.mem_cons_of_mem _ hys) rfl

end Links
