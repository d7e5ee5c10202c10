import VibeRtos.Lib.Links

/-!
# The intrusive list of `sys/list.h`

A `vibe_list_t` is an anchor; the nodes live in the structs they link. The
operations below are the inline functions of `sys/list.h`, store by store: they
take the node memory and the anchor and return both.

`ListRep mem l xs` says that the anchor `l` and the memory represent the sequence
`xs`. Each operation has one lemma saying what it does to the sequence and one
saying which nodes it leaves alone.
-/

namespace VibeRtos

open Links

variable {N : Type}

/-- `vibe_list_t`. -/
structure VList (N : Type) where
  head : Option N
  tail : Option N
  count : UInt32
  deriving DecidableEq, Repr

/-- `vibe_list_init`. -/
def listInit : VList N := ⟨none, none, 0⟩

/-- `vibe_list_node_init`. -/
def listNodeInit : Link N := ⟨none, none⟩

/-- `vibe_list_is_empty`. -/
def listIsEmpty (l : VList N) : Bool := l.head.isNone

/-- `vibe_list_count`. -/
def listCount (l : VList N) : UInt32 := l.count

/-- `vibe_list_peek_head`. -/
def listPeekHead (l : VList N) : Option N := l.head

/-- The nodes met by following `next` from `n`, at most `fuel` of them. -/
def walk (mem : N → Link N) : Nat → Option N → List N
  | 0, _ => []
  | _ + 1, none => []
  | fuel + 1, some n => n :: walk mem fuel (mem n).next

/-- No list of distinct nodes is longer than the 32-bit address space. -/
def walkBound : Nat := 2 ^ 32

/-- The nodes `VIBE_LIST_FOR_EACH` visits when its body leaves the list alone. -/
def listNodes (mem : N → Link N) (l : VList N) : List N := walk mem walkBound l.head

section Ops

variable [DecidableEq N]

/-- `n->next = v`. -/
def setNext (mem : N → Link N) (n : N) (v : Option N) : N → Link N :=
  Function.update mem n { mem n with next := v }

/-- `n->prev = v`. -/
def setPrev (mem : N → Link N) (n : N) (v : Option N) : N → Link N :=
  Function.update mem n { mem n with prev := v }

/-- `vibe_list_append`. -/
def listAppend (mem : N → Link N) (l : VList N) (n : N) : (N → Link N) × VList N :=
  let mem := Function.update mem n ⟨l.tail, none⟩
  match l.tail with
  | some t => (setNext mem t (some n), { l with tail := some n, count := l.count + 1 })
  | none => (mem, { head := some n, tail := some n, count := l.count + 1 })

/-- `vibe_list_prepend`. -/
def listPrepend (mem : N → Link N) (l : VList N) (n : N) : (N → Link N) × VList N :=
  let mem := Function.update mem n ⟨none, l.head⟩
  match l.head with
  | some h => (setPrev mem h (some n), { l with head := some n, count := l.count + 1 })
  | none => (mem, { head := some n, tail := some n, count := l.count + 1 })

/-- `vibe_list_insert_after`, for an anchor node that is not `NULL`. -/
def listInsertAfter (mem : N → Link N) (l : VList N) (after n : N) : (N → Link N) × VList N :=
  let mem := Function.update mem n ⟨some after, (mem after).next⟩
  let (mem, l) := match (mem after).next with
    | some q => (setPrev mem q (some n), l)
    | none => (mem, { l with tail := some n })
  (setNext mem after (some n), { l with count := l.count + 1 })

/-- `vibe_list_remove`. -/
def listRemove (mem : N → Link N) (l : VList N) (n : N) : (N → Link N) × VList N :=
  let (mem, l) := match (mem n).prev with
    | some p => (setNext mem p (mem n).next, l)
    | none => (mem, { l with head := (mem n).next })
  let (mem, l) := match (mem n).next with
    | some q => (setPrev mem q (mem n).prev, l)
    | none => (mem, { l with tail := (mem n).prev })
  (Function.update mem n ⟨none, none⟩, { l with count := l.count - 1 })

/-- `vibe_list_get_head`. -/
def listGetHead (mem : N → Link N) (l : VList N) :
    Option N × (N → Link N) × VList N :=
  match l.head with
  | some n => (some n, listRemove mem l n)
  | none => (none, mem, l)

/-- `VIBE_LIST_FOR_EACH_SAFE` from the values of its two variables on: the nodes that the body is
run for, and what it leaves. `none` is running out of fuel. -/
def listForEachSafeFrom (body : N → (N → Link N) × VList N → (N → Link N) × VList N) :
    Nat → Option N → Option N → (N → Link N) × VList N →
      Option (List N × (N → Link N) × VList N)
  | 0, _, _, _ => none
  | _ + 1, none, _, s => some ([], s)
  | fuel + 1, some node, tmp, s =>
      let s := body node s
      (listForEachSafeFrom body fuel tmp (tmp.bind fun n => (s.1 n).next) s).map fun r =>
        (node :: r.1, r.2)

/-- `VIBE_LIST_FOR_EACH_SAFE`. -/
def listForEachSafe (body : N → (N → Link N) × VList N → (N → Link N) × VList N) (fuel : Nat)
    (mem : N → Link N) (l : VList N) : Option (List N × (N → Link N) × VList N) :=
  listForEachSafeFrom body fuel l.head (l.head.bind fun n => (mem n).next) (mem, l)

end Ops

/-- The anchor and the node memory represent the sequence `xs`. -/
structure ListRep (mem : N → Link N) (l : VList N) (xs : List N) : Prop where
  head : l.head = xs.head?
  tail : l.tail = xs.getLast?
  count : l.count = UInt32.ofNat xs.length
  nodup : xs.Nodup
  chain : Chain mem none xs none

theorem listRep_init (mem : N → Link N) : ListRep mem listInit [] :=
  ⟨rfl, rfl, rfl, List.nodup_nil, trivial⟩

/-- A represented list only depends on the links of its own nodes. -/
theorem ListRep.congr {mem mem' : N → Link N} {l : VList N} {xs : List N}
    (h : ListRep mem l xs) (hm : ∀ x ∈ xs, mem' x = mem x) : ListRep mem' l xs :=
  { h with chain := h.chain.congr hm }

/-- An anchor represents at most one sequence. -/
theorem ListRep.eq_nil_iff {mem : N → Link N} {l : VList N} {xs : List N}
    (h : ListRep mem l xs) : xs = [] ↔ l.head = none := by
  rw [h.head]; cases xs <;> simp

theorem ListRep.isEmpty {mem : N → Link N} {l : VList N} {xs : List N}
    (h : ListRep mem l xs) : listIsEmpty l = true ↔ xs = [] := by
  rw [listIsEmpty, h.head]; cases xs <;> simp

theorem walk_chain {mem : N → Link N} {xs : List N} : ∀ {p : Option N} {fuel : Nat},
    Chain mem p xs none → xs.length ≤ fuel → walk mem fuel xs.head? = xs := by
  induction xs with
  | nil => intro p fuel _ _; cases fuel <;> rfl
  | cons x xs ih =>
    intro p fuel h hf
    cases fuel with
    | zero => simp at hf
    | succ fuel =>
        have hx : (mem x).next = xs.head? := by rw [h.1]; simp
        rw [List.head?_cons, walk, hx, ih h.2 (by simpa using hf)]

/-- `VIBE_LIST_FOR_EACH` visits exactly the represented nodes, in order. -/
theorem ListRep.nodes {mem : N → Link N} {l : VList N} {xs : List N} (h : ListRep mem l xs)
    (hlen : xs.length ≤ walkBound) : listNodes mem l = xs := by
  rw [listNodes, h.head]
  exact walk_chain h.chain hlen

theorem ListRep.unique {mem : N → Link N} {l : VList N} {xs ys : List N}
    (hx : ListRep mem l xs) (hy : ListRep mem l ys) : xs = ys := by
  have h1 : walk mem (xs.length + ys.length) l.head = xs :=
    hx.head ▸ walk_chain hx.chain (by omega)
  have h2 : walk mem (xs.length + ys.length) l.head = ys :=
    hy.head ▸ walk_chain hy.chain (by omega)
  exact h1.symm.trans h2

variable [DecidableEq N] {mem : N → Link N} {l : VList N} {xs : List N} {n : N}

/-! ## Appending -/

theorem listAppend_frame {x : N} (hx : x ≠ n) (ht : l.tail ≠ some x) :
    (listAppend mem l n).1 x = mem x := by
  unfold listAppend
  cases htl : l.tail with
  | none => simp [hx]
  | some t =>
      have hxt : x ≠ t := fun h => ht (by rw [htl, h])
      simp [setNext, hx, hxt]

theorem ListRep.append (h : ListRep mem l xs) (hn : n ∉ xs) :
    ListRep (listAppend mem l n).1 (listAppend mem l n).2 (xs ++ [n]) := by
  have hnode : ∀ t, l.tail = some t → t ≠ n := by
    rintro t ht rfl
    exact hn (List.mem_of_getLast? (h.tail ▸ ht))
  refine ⟨?_, ?_, ?_, ?_, ?_⟩
  · have hh := h.head
    have htl := h.tail
    unfold listAppend
    cases hx : xs with
    | nil => rw [hx] at htl; simp [htl]
    | cons x ys =>
        rw [hx] at htl hh
        obtain ⟨t, ht⟩ : ∃ t, l.tail = some t := by rw [htl]; simp [List.getLast?_cons]
        simp [ht, hh]
  · unfold listAppend; cases l.tail <;> simp
  · have : (listAppend mem l n).2.count = l.count + 1 := by unfold listAppend; cases l.tail <;> rfl
    rw [this, h.count]
    simp [UInt32.ofNat_add]
  · exact List.nodup_append.mpr ⟨h.nodup, by simp, by
      rintro a ha b hb rfl
      exact hn (by simpa using (List.mem_singleton.mp hb) ▸ ha)⟩
  · have hc : Chain mem none (xs ++ []) none := by simpa using h.chain
    refine hc.link (by simpa using h.nodup) ?_ ?_ ?_ ?_
    · -- the appended node points back at the old tail
      unfold listAppend
      cases htl : l.tail with
      | none => rw [h.tail] at htl; simp [htl]
      | some t =>
          have := hnode t htl
          rw [h.tail] at htl
          simp [setNext, htl, Function.update_of_ne this.symm]
    · intro x hx
      have htl : l.tail = some x := by rw [h.tail, hx]
      simp [listAppend, htl, setNext, Function.update_of_ne (hnode x htl)]
    · intro y hy; simp at hy
    · intro x hx hl _
      refine listAppend_frame ?_ (by rwa [h.tail])
      rintro rfl
      exact hn (by simpa using hx)

/-! ## Prepending -/

theorem listPrepend_frame {x : N} (hx : x ≠ n) (hh : l.head ≠ some x) :
    (listPrepend mem l n).1 x = mem x := by
  unfold listPrepend
  cases hhd : l.head with
  | none => simp [hx]
  | some t =>
      have hxt : x ≠ t := fun h => hh (by rw [hhd, h])
      simp [setPrev, hx, hxt]

theorem ListRep.prepend (h : ListRep mem l xs) (hn : n ∉ xs) :
    ListRep (listPrepend mem l n).1 (listPrepend mem l n).2 (n :: xs) := by
  have hnode : ∀ t, l.head = some t → t ≠ n := by
    rintro t ht rfl
    exact hn (List.mem_of_mem_head? (h.head ▸ ht))
  refine ⟨?_, ?_, ?_, List.nodup_cons.mpr ⟨hn, h.nodup⟩, ?_⟩
  · unfold listPrepend; cases l.head <;> rfl
  · have hh := h.head
    have htl := h.tail
    unfold listPrepend
    cases hx : xs with
    | nil => rw [hx] at hh; simp [hh]
    | cons x ys =>
        rw [hx] at hh htl
        simp only [List.head?_cons] at hh
        simp [hh, htl, List.getLast?_cons]
  · have : (listPrepend mem l n).2.count = l.count + 1 := by
      unfold listPrepend; cases l.head <;> rfl
    rw [this, h.count]
    simp [UInt32.ofNat_add]
  · have hc : Chain mem none ([] ++ xs) none := h.chain
    refine hc.link h.nodup ?_ ?_ ?_ ?_
    · unfold listPrepend
      cases hhd : l.head with
      | none => rw [h.head] at hhd; simp [hhd]
      | some t =>
          have := hnode t hhd
          rw [h.head] at hhd
          simp [setPrev, hhd, Function.update_of_ne this.symm]
    · intro x hx; simp at hx
    · intro y hy
      have hhd : l.head = some y := by rw [h.head, hy]
      simp [listPrepend, hhd, setPrev, Function.update_of_ne (hnode y hhd)]
    · intro x hx _ hne
      refine listPrepend_frame ?_ (by rwa [h.head])
      rintro rfl
      exact hn (by simpa using hx)

/-! ## Inserting after a node -/

theorem listInsertAfter_frame {a x : N} (hx : x ≠ n) (ha : x ≠ a) (han : a ≠ n)
    (hq : (mem a).next ≠ some x) : (listInsertAfter mem l a n).1 x = mem x := by
  unfold listInsertAfter
  simp only [Function.update_of_ne han]
  cases hnx : (mem a).next with
  | none => simp [setNext, hx, ha]
  | some q =>
      have hxq : x ≠ q := fun h => hq (by rw [hnx, h])
      simp [setNext, setPrev, hx, ha, hxq]

theorem ListRep.insertAfter {a : N} {ys zs : List N} (h : ListRep mem l (ys ++ a :: zs))
    (hn : n ∉ ys ++ a :: zs) :
    ListRep (listInsertAfter mem l a n).1 (listInsertAfter mem l a n).2 (ys ++ a :: n :: zs) := by
  have hat := h.chain.at
  have hnext : (mem a).next = zs.head? := by rw [hat]; simp
  have han : a ≠ n := by rintro rfl; exact hn (by simp)
  have hnd := h.nodup
  have hazs : a ∉ zs := (List.nodup_cons.mp (List.nodup_append.mp hnd).2.1).1
  have hqn : ∀ q, zs.head? = some q → q ≠ n ∧ q ≠ a := by
    intro q hq
    have hmem := List.mem_of_mem_head? hq
    exact ⟨by rintro rfl; exact hn (by simp [hmem]), by rintro rfl; exact hazs hmem⟩
  refine ⟨?_, ?_, ?_, ?_, ?_⟩
  · have hh := h.head
    unfold listInsertAfter
    simp only [Function.update_of_ne han]
    cases hz : (mem a).next <;> cases ys <;> simp_all
  · have htl := h.tail
    unfold listInsertAfter
    simp only [Function.update_of_ne han]
    cases zs with
    | nil => simp [hnext]
    | cons z zs =>
        simp only [List.head?_cons] at hnext
        simp [hnext, htl, List.getLast?_append, List.getLast?_cons]
  · have : (listInsertAfter mem l a n).2.count = l.count + 1 := by
      unfold listInsertAfter
      simp only [Function.update_of_ne han]
      cases (mem a).next <;> rfl
    have hlen : (ys ++ a :: n :: zs).length = (ys ++ a :: zs).length + 1 := by simp; omega
    rw [this, h.count, hlen, UInt32.ofNat_add]
    rfl
  · have hperm : (ys ++ a :: n :: zs).Perm (n :: (ys ++ a :: zs)) := by
      have := @List.perm_middle N n (ys ++ [a]) zs
      simpa using this
    exact hperm.nodup_iff.mpr (List.nodup_cons.mpr ⟨hn, hnd⟩)
  · have hsplit : ys ++ a :: n :: zs = (ys ++ [a]) ++ n :: zs := by simp
    have hc : Chain mem none ((ys ++ [a]) ++ zs) none := by simpa using h.chain
    rw [hsplit]
    refine hc.link (by simpa using hnd) ?_ ?_ ?_ ?_
    · unfold listInsertAfter
      simp only [Function.update_of_ne han, hnext]
      cases hz : zs.head? with
      | none => simp [setNext, Function.update_of_ne han.symm]
      | some q => simp [setNext, setPrev, Function.update_of_ne han.symm,
          Function.update_of_ne (hqn q hz).1.symm]
    · intro x hx
      obtain rfl : a = x := by simpa using hx
      unfold listInsertAfter
      simp only [Function.update_of_ne han, hnext]
      cases hz : zs.head? with
      | none => simp [setNext, Function.update_of_ne han]
      | some q => simp [setNext, setPrev, Function.update_of_ne han,
          Function.update_of_ne (hqn q hz).2.symm]
    · intro y hy
      obtain ⟨h1, h2⟩ := hqn y hy
      unfold listInsertAfter
      simp [Function.update_of_ne han, hnext, hy, setNext, setPrev, Function.update_of_ne h1,
        Function.update_of_ne h2]
    · intro x hx hl hf
      refine listInsertAfter_frame ?_ ?_ han (by rwa [hnext])
      · rintro rfl; exact hn (by simpa using hx)
      · rintro rfl; exact hl (by simp)

/-! ## Removing -/

theorem listRemove_frame {x : N} (hx : x ≠ n) (hp : (mem n).prev ≠ some x)
    (hq : (mem n).next ≠ some x) (hself : (mem n).prev ≠ some n) :
    (listRemove mem l n).1 x = mem x := by
  unfold listRemove
  cases hpv : (mem n).prev with
  | none =>
      cases hnx : (mem n).next with
      | none => simp [hnx, hx]
      | some q =>
          have hxq : x ≠ q := fun h => hq (by rw [hnx, h])
          simp [hnx, setPrev, hx, hxq]
  | some p =>
      have hxp : x ≠ p := fun h => hp (by rw [hpv, h])
      have hpn : n ≠ p := fun h => hself (by rw [hpv, h])
      cases hnx : (mem n).next with
      | none => simp [setNext, hpn, hnx, hx, hxp]
      | some q =>
          have hxq : x ≠ q := fun h => hq (by rw [hnx, h])
          simp [setNext, hpn, hnx, setPrev, hx, hxp, hxq]

theorem listRemove_count : (listRemove mem l n).2.count = l.count - 1 := by
  unfold listRemove
  cases (mem n).prev <;> dsimp only <;> split <;> rfl

theorem ListRep.remove {ys zs : List N} (h : ListRep mem l (ys ++ n :: zs)) :
    ListRep (listRemove mem l n).1 (listRemove mem l n).2 (ys ++ zs) := by
  have hat : mem n = ⟨ys.getLast?, zs.head?⟩ := by simpa using h.chain.at
  have hnd := h.nodup
  obtain ⟨hys, hzs, hd⟩ := List.nodup_append.mp hnd
  have hnzs : n ∉ zs := (List.nodup_cons.mp hzs).1
  have hpn : ∀ p, ys.getLast? = some p → p ≠ n := by
    rintro p hp rfl
    exact hd p (List.mem_of_getLast? hp) p List.mem_cons_self rfl
  have hqn : ∀ q, zs.head? = some q → q ≠ n := by
    rintro q hq rfl
    exact hnzs (List.mem_of_mem_head? hq)
  have hpq : ∀ p q, ys.getLast? = some p → zs.head? = some q → p ≠ q := by
    rintro p q hp hq rfl
    exact hd p (List.mem_of_getLast? hp) p (List.mem_cons_of_mem _ (List.mem_of_mem_head? hq)) rfl
  refine ⟨?_, ?_, ?_, ?_, ?_⟩
  · have hh := h.head
    unfold listRemove
    cases ys with
    | nil => cases hz : zs.head? <;> simp [hat, hz]
    | cons y ys =>
        obtain ⟨p, hp⟩ : ∃ p, (y :: ys).getLast? = some p := by simp [List.getLast?_cons]
        have := hpn p hp
        cases hz : zs.head? <;>
          simp_all [setNext, Function.update_of_ne (Ne.symm this)]
  · have htl := h.tail
    unfold listRemove
    cases hy : ys.getLast? with
    | none =>
        cases zs with
        | nil => simp [hat, hy]
        | cons z zs =>
            simp [hat, hy, htl, List.getLast?_append, List.getLast?_cons]
    | some p =>
        have := hpn p hy
        cases zs with
        | nil => simp [hat, hy, setNext, Function.update_of_ne this.symm]
        | cons z zs =>
            simp [hat, hy, htl, setNext, Function.update_of_ne this.symm, List.getLast?_append,
              List.getLast?_cons]
  · rw [listRemove_count, h.count]
    simp [UInt32.ofNat_add, ← add_assoc]
  · exact (List.nodup_append.mpr ⟨hys, (List.nodup_cons.mp hzs).2, fun a ha b hb =>
      hd a ha b (List.mem_cons_of_mem _ hb)⟩)
  · refine Chain.unlink h.chain hnd ?_ ?_ ?_
    · intro p hp
      have h1 := hpn p hp
      unfold listRemove
      cases hz : zs.head? with
      | none => simp [hat, hp, hz, setNext, Function.update_of_ne h1, Function.update_of_ne h1.symm]
      | some q =>
          have h2 := hpq p q hp hz
          simp [hat, hp, hz, setNext, setPrev, Function.update_of_ne h1,
            Function.update_of_ne h1.symm, Function.update_of_ne h2]
    · intro q hq
      have h1 := hqn q hq
      unfold listRemove
      cases hy : ys.getLast? with
      | none => simp [hat, hy, hq, setPrev, Function.update_of_ne h1]
      | some p =>
          have h2 := hpq p q hy hq
          have h3 := hpn p hy
          simp [hat, hy, hq, setNext, setPrev, Function.update_of_ne h1,
            Function.update_of_ne h2.symm, Function.update_of_ne h3.symm]
    · intro x hx hl hf
      have hxn : x ≠ n := by
        rintro rfl
        rcases List.mem_append.mp hx with hx | hx
        · exact hd x hx x List.mem_cons_self rfl
        · exact hnzs hx
      refine listRemove_frame hxn (by rw [hat]; exact hl) (by rw [hat]; exact hf) ?_
      rw [hat]
      intro he
      exact hpn n he rfl

/-- Removal, for a node known only to be in the list. -/
theorem ListRep.remove_erase (h : ListRep mem l xs) (hn : n ∈ xs) :
    ListRep (listRemove mem l n).1 (listRemove mem l n).2 (xs.erase n) := by
  obtain ⟨ys, zs, rfl⟩ := List.append_of_mem hn
  have hnys : n ∉ ys := fun hy =>
    (List.nodup_append.mp h.nodup).2.2 n hy n List.mem_cons_self rfl
  rw [List.erase_append_right _ hnys, List.erase_cons_head]
  exact h.remove

/-- Removal leaves every node outside the list alone. -/
theorem ListRep.remove_frame (h : ListRep mem l xs) (hn : n ∈ xs) {x : N} (hx : x ∉ xs) :
    (listRemove mem l n).1 x = mem x := by
  obtain ⟨ys, zs, rfl⟩ := List.append_of_mem hn
  have hat : mem n = ⟨ys.getLast?, zs.head?⟩ := by simpa using h.chain.at
  refine listRemove_frame ?_ ?_ ?_ ?_
  · rintro rfl; exact hx hn
  · rw [hat]; intro he; exact hx (List.mem_append_left _ (List.mem_of_getLast? he))
  · rw [hat]; intro he
    exact hx (List.mem_append_right _ (List.mem_cons_of_mem _ (List.mem_of_mem_head? he)))
  · rw [hat]; intro he
    exact (List.nodup_append.mp h.nodup).2.2 n (List.mem_of_getLast? he) n List.mem_cons_self rfl

/-- Appending leaves every node outside the list alone, the new one apart. -/
theorem ListRep.append_frame (h : ListRep mem l xs) {x : N} (hx : x ∉ xs) (hxn : x ≠ n) :
    (listAppend mem l n).1 x = mem x :=
  listAppend_frame hxn (by rw [h.tail]; intro he; exact hx (List.mem_of_getLast? he))

/-- So does prepending. -/
theorem ListRep.prepend_frame (h : ListRep mem l xs) {x : N} (hx : x ∉ xs) (hxn : x ≠ n) :
    (listPrepend mem l n).1 x = mem x :=
  listPrepend_frame hxn (by rw [h.head]; intro he; exact hx (List.mem_of_mem_head? he))

/-- Inserting leaves every node outside the list alone, the new one apart. -/
theorem ListRep.insertAfter_frame {a : N} {ys zs : List N} (h : ListRep mem l (ys ++ a :: zs))
    (hn : n ∉ ys ++ a :: zs) {x : N} (hx : x ∉ ys ++ a :: zs) (hxn : x ≠ n) :
    (listInsertAfter mem l a n).1 x = mem x := by
  have hnext : (mem a).next = zs.head? := by rw [h.chain.at]; simp
  refine listInsertAfter_frame hxn ?_ ?_ ?_
  · rintro rfl; exact hx (by simp)
  · rintro rfl; exact hn (by simp)
  · rw [hnext]; intro he
    exact hx (List.mem_append_right _ (List.mem_cons_of_mem _ (List.mem_of_mem_head? he)))

end VibeRtos
