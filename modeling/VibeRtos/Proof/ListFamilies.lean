import VibeRtos.Sys.List

/-!
# Families of lists over one node memory

Every thread carries several list nodes, and the run queues, the sleep list and the wait lists
link them in one memory. `ListFamily` says that the anchors represent sequences that share no
node. An operation on one of the lists changes the sequence of that list as its name says, and
nothing of the others: it stores into nodes of its own list and into the node it is given.
-/

namespace VibeRtos

open Links

variable {N ι : Type}

/-- The anchors represent the sequences, which are disjoint. -/
structure ListFamily (mem : N → Link N) (anchors : ι → VList N) (seqs : ι → List N) : Prop where
  rep : ∀ i, ListRep mem (anchors i) (seqs i)
  disjoint : ∀ i j, i ≠ j → (seqs i).Disjoint (seqs j)

/-- An operation on the list `i` has left `out`, the memory and the anchor, and has turned the
sequence of that list into `ys`; the nodes of the other lists are as they were. -/
structure Turns [DecidableEq ι] (mem : N → Link N) (anchors : ι → VList N) (seqs : ι → List N)
    (i : ι) (out : (N → Link N) × VList N) (ys : List N) : Prop where
  family : ListFamily out.1 (Function.update anchors i out.2) (Function.update seqs i ys)
  others : ∀ j, j ≠ i → ∀ x ∈ seqs j, out.1 x = mem x

section Family

variable [DecidableEq ι] {mem : N → Link N} {anchors : ι → VList N} {seqs : ι → List N} {i : ι}
  {out : (N → Link N) × VList N} {xs ys zs : List N} {a n : N}

/-- What an operation on one list has to establish: the new sequence, whose nodes are those of
the old one and nodes of no list, and that it stores into no other node. -/
theorem ListFamily.turn (h : ListFamily mem anchors seqs) (hrep : ListRep out.1 out.2 ys)
    (hnodes : ∀ x ∈ ys, x ∈ seqs i ∨ ∀ j, x ∉ seqs j)
    (hframe : ∀ x, x ∉ seqs i → x ∉ ys → out.1 x = mem x) :
    Turns mem anchors seqs i out ys := by
  have hapart : ∀ j, j ≠ i → ys.Disjoint (seqs j) := by
    intro j hj x hx hxj
    rcases hnodes x hx with hxi | hfresh
    · exact h.disjoint i j hj.symm hxi hxj
    · exact hfresh j hxj
  have hothers : ∀ j, j ≠ i → ∀ x ∈ seqs j, out.1 x = mem x := by
    intro j hj x hx
    exact hframe x (fun hxi => h.disjoint i j hj.symm hxi hx) fun hxy => hapart j hj hxy hx
  refine ⟨⟨fun j => ?_, fun j k hjk => ?_⟩, hothers⟩
  · by_cases hj : j = i
    · subst hj
      simpa only [Function.update_self] using hrep
    · rw [Function.update_of_ne hj, Function.update_of_ne hj]
      exact (h.rep j).congr (hothers j hj)
  · by_cases hj : j = i
    · subst hj
      rw [Function.update_self, Function.update_of_ne hjk.symm]
      exact hapart k hjk.symm
    · rw [Function.update_of_ne hj]
      by_cases hk : k = i
      · subst hk
        rw [Function.update_self]
        exact (hapart j hj).symm
      · rw [Function.update_of_ne hk]
        exact h.disjoint j k hjk

/-- The saved pointer, once the node in front of it is dealt with. -/
theorem ListRep.next_head {l : VList N} (h : ListRep mem l (ys ++ zs)) :
    (zs.head?.bind fun n => (mem n).next) = zs.tail.head? := by
  cases zs with
  | nil => rfl
  | cons z zs =>
      have hat := h.chain.at
      rw [List.head?_cons, Option.bind_some, hat]
      simp

/-- A node of no list. -/
def Fresh (seqs : ι → List N) (n : N) : Prop := ∀ j, n ∉ seqs j

variable [DecidableEq N]

theorem ListFamily.append (h : ListFamily mem anchors seqs) (hn : Fresh seqs n) :
    Turns mem anchors seqs i (listAppend mem (anchors i) n) (seqs i ++ [n]) := by
  refine h.turn ((h.rep i).append (hn i)) (fun x hx => ?_) fun x hx hx' => ?_
  · rcases List.mem_append.mp hx with hx | hx
    · exact Or.inl hx
    · obtain rfl := List.mem_singleton.mp hx
      exact Or.inr hn
  · refine (h.rep i).append_frame hx ?_
    rintro rfl
    exact hx' (by simp)

theorem ListFamily.prepend (h : ListFamily mem anchors seqs) (hn : Fresh seqs n) :
    Turns mem anchors seqs i (listPrepend mem (anchors i) n) (n :: seqs i) := by
  refine h.turn ((h.rep i).prepend (hn i)) (fun x hx => ?_) fun x hx hx' => ?_
  · rcases List.mem_cons.mp hx with rfl | hx
    · exact Or.inr hn
    · exact Or.inl hx
  · refine (h.rep i).prepend_frame hx ?_
    rintro rfl
    exact hx' (by simp)

theorem ListFamily.insertAfter (h : ListFamily mem anchors seqs) (hn : Fresh seqs n)
    (hl : seqs i = ys ++ a :: zs) :
    Turns mem anchors seqs i (listInsertAfter mem (anchors i) a n) (ys ++ a :: n :: zs) := by
  have hrep := h.rep i
  have hni := hn i
  rw [hl] at hrep hni
  have hnodes : ∀ x, x ∈ ys ++ a :: n :: zs ↔ x = n ∨ x ∈ ys ++ a :: zs := by
    intro x
    simp only [List.mem_append, List.mem_cons]
    tauto
  refine h.turn (hrep.insertAfter hni) (fun x hx => ?_) fun x hx hx' => ?_
  · rcases (hnodes x).mp hx with rfl | hx
    · exact Or.inr hn
    · exact Or.inl (hl ▸ hx)
  · exact hrep.insertAfter_frame hni (hl ▸ hx) fun hxn => hx' ((hnodes x).mpr (Or.inl hxn))

theorem ListFamily.remove (h : ListFamily mem anchors seqs) (hn : n ∈ seqs i) :
    Turns mem anchors seqs i (listRemove mem (anchors i) n) ((seqs i).erase n) :=
  h.turn ((h.rep i).remove_erase hn) (fun _ hx => Or.inl (List.mem_of_mem_erase hx))
    fun _ hx _ => (h.rep i).remove_frame hn hx

/-- A removed node points nowhere. -/
theorem listRemove_self (mem : N → Link N) (l : VList N) (n : N) :
    (listRemove mem l n).1 n = listNodeInit := by
  unfold listRemove
  exact Function.update_self ..

/-! ## Iterating -/

/-- A loop body that removes the node it is run for, if it is one of the chosen. -/
def removeChosen (p : N → Bool) (node : N) (s : (N → Link N) × VList N) :
    (N → Link N) × VList N :=
  if p node then listRemove s.1 s.2 node else s

/-- What the loop leaves when the nodes `zs` are still in front of it. -/
structure Cleared (p : N → Bool) (s out : (N → Link N) × VList N) (ys zs : List N) : Prop where
  rep : ListRep out.1 out.2 (ys ++ zs.filter fun n => !p n)
  removed : ∀ n ∈ zs, p n = true → out.1 n = listNodeInit
  frame : ∀ x, x ∉ ys ++ zs → out.1 x = s.1 x

theorem forEachSafe_from {p : N → Bool} {zs : List N} : ∀ {ys : List N} {fuel : Nat}
    {s : (N → Link N) × VList N}, ListRep s.1 s.2 (ys ++ zs) → zs.length < fuel →
    ∃ out, listForEachSafeFrom (removeChosen p) fuel zs.head? zs.tail.head? s = some (zs, out)
      ∧ Cleared p s out ys zs := by
  induction zs with
  | nil =>
      intro ys fuel s h hfuel
      obtain ⟨fuel, rfl⟩ := Nat.exists_eq_succ_of_ne_zero (Nat.ne_of_gt hfuel)
      exact ⟨s, rfl, h, by simp, fun _ _ => rfl⟩
  | cons z zs ih =>
      intro ys fuel s h hfuel
      obtain ⟨fuel, rfl⟩ := Nat.exists_eq_succ_of_ne_zero (Nat.ne_of_gt (Nat.zero_lt_of_lt hfuel))
      have hlen : zs.length < fuel := by
        rw [List.length_cons] at hfuel
        omega
      have hz : z ∉ ys ++ zs := (List.nodup_cons.mp (List.nodup_middle.mp h.nodup)).1
      by_cases hp : p z = true
      · -- the body unlinks `z`; the saved pointer is still in the list
        have hbody : removeChosen p z s = listRemove s.1 s.2 z := if_pos hp
        have hrep : ListRep (removeChosen p z s).1 (removeChosen p z s).2 (ys ++ zs) := by
          rw [hbody]
          exact h.remove
        obtain ⟨out, hrun, hout⟩ := ih hrep hlen
        refine ⟨out, ?_, ?_, fun n hn hpn => ?_, fun x hx => ?_⟩
        · rw [List.head?_cons, List.tail_cons, listForEachSafeFrom, hrep.next_head, hrun]
          rfl
        · rw [List.filter_cons_of_neg (by simp [hp])]
          exact hout.rep
        · rcases List.mem_cons.mp hn with rfl | hn
          · rw [hout.frame n hz, hbody]
            exact listRemove_self ..
          · exact hout.removed n hn hpn
        · have hx' : x ∉ ys ++ zs := fun hmem => hx (by
            rcases List.mem_append.mp hmem with hmem | hmem
            · exact List.mem_append_left _ hmem
            · exact List.mem_append_right _ (List.mem_cons_of_mem _ hmem))
          rw [hout.frame x hx', hbody]
          exact h.remove_frame (by simp) hx
      · have hbody : removeChosen p z s = s := if_neg hp
        have hrep : ListRep s.1 s.2 ((ys ++ [z]) ++ zs) := by simpa using h
        obtain ⟨out, hrun, hout⟩ := ih hrep hlen
        refine ⟨out, ?_, ?_, fun n hn hpn => ?_, fun x hx => ?_⟩
        · rw [List.head?_cons, List.tail_cons, listForEachSafeFrom, hbody, hrep.next_head, hrun]
          rfl
        · rw [List.filter_cons_of_pos (by simp [hp])]
          simpa using hout.rep
        · rcases List.mem_cons.mp hn with rfl | hn
          · exact absurd hpn hp
          · exact hout.removed n hn hpn
        · exact hout.frame x (by simpa using hx)

/-- The loop visits the nodes of the initial sequence in order, whichever of them it removes. -/
theorem ListFamily.forEachSafe (h : ListFamily mem anchors seqs) (p : N → Bool) {fuel : Nat}
    (hfuel : (seqs i).length < fuel) :
    ∃ out, listForEachSafe (removeChosen p) fuel mem (anchors i) = some (seqs i, out)
      ∧ Turns mem anchors seqs i out ((seqs i).filter fun n => !p n)
      ∧ ∀ n ∈ seqs i, p n = true → out.1 n = listNodeInit := by
  have hrep : ListRep mem (anchors i) ([] ++ seqs i) := h.rep i
  obtain ⟨out, hrun, hout⟩ := forEachSafe_from (p := p) (s := (mem, anchors i)) hrep hfuel
  refine ⟨out, ?_, h.turn hout.rep (fun x hx => Or.inl (List.mem_of_mem_filter hx))
    fun x hx _ => hout.frame x hx, hout.removed⟩
  rw [listForEachSafe, (h.rep i).head, hrep.next_head, hrun]

end Family

/-- **The intrusive lists.** In every family of disjoint lists, each operation turns the
sequence of the list it is given into the one its name says and leaves the others alone, a
removed node is reset, and the safe iteration visits the initial sequence. -/
theorem list_family_operations {N ι : Type} [DecidableEq N] [DecidableEq ι] {mem : N → Link N}
    {anchors : ι → VList N} {seqs : ι → List N} (h : ListFamily mem anchors seqs) (i : ι) :
    (∀ n, Fresh seqs n →
      Turns mem anchors seqs i (listAppend mem (anchors i) n) (seqs i ++ [n])
        ∧ Turns mem anchors seqs i (listPrepend mem (anchors i) n) (n :: seqs i)
        ∧ ∀ ys a zs, seqs i = ys ++ a :: zs →
          Turns mem anchors seqs i (listInsertAfter mem (anchors i) a n) (ys ++ a :: n :: zs))
      ∧ (∀ n ∈ seqs i,
        Turns mem anchors seqs i (listRemove mem (anchors i) n) ((seqs i).erase n)
          ∧ (listRemove mem (anchors i) n).1 n = listNodeInit)
      ∧ (∀ n xs, seqs i = n :: xs → (listGetHead mem (anchors i)).1 = some n
          ∧ Turns mem anchors seqs i (listGetHead mem (anchors i)).2 xs
          ∧ (listGetHead mem (anchors i)).2.1 n = listNodeInit)
      ∧ (seqs i = [] → listGetHead mem (anchors i) = (none, mem, anchors i))
      ∧ ∀ (p : N → Bool) (fuel : Nat), (seqs i).length < fuel →
        ∃ out, listForEachSafe (removeChosen p) fuel mem (anchors i) = some (seqs i, out)
          ∧ Turns mem anchors seqs i out ((seqs i).filter fun n => !p n)
          ∧ ∀ n ∈ seqs i, p n = true → out.1 n = listNodeInit := by
  refine ⟨fun n hn => ⟨h.append hn, h.prepend hn, fun ys a zs hl => h.insertAfter hn hl⟩,
    fun n hn => ⟨h.remove hn, listRemove_self ..⟩, fun n xs hl => ?_, fun hl => ?_,
    fun p fuel hfuel => h.forEachSafe p hfuel⟩
  · have hhead : listGetHead mem (anchors i) = (some n, listRemove mem (anchors i) n) := by
      rw [listGetHead, (h.rep i).head, hl]
      rfl
    have hturn := h.remove (i := i) (n := n) (hl ▸ List.mem_cons_self)
    rw [hl, List.erase_cons_head] at hturn
    rw [hhead]
    exact ⟨rfl, hturn, listRemove_self ..⟩
  · rw [listGetHead, (h.rep i).head, hl]
    rfl

/-- Two lists: the nodes 1 and 2, and the node 3. -/
def pairMem : Nat → Link Nat
  | 1 => ⟨none, some 2⟩
  | 2 => ⟨some 1, none⟩
  | _ => ⟨none, none⟩

def pairAnchors (i : Bool) : VList Nat :=
  if i then ⟨some 1, some 2, 2⟩ else ⟨some 3, some 3, 1⟩

def pairSeqs (i : Bool) : List Nat := if i then [1, 2] else [3]

theorem pair_family : ListFamily pairMem pairAnchors pairSeqs := by
  refine ⟨fun i => ?_, ?_⟩
  · cases i with
    | false => exact ⟨rfl, rfl, rfl, by decide, rfl, trivial⟩
    | true => exact ⟨rfl, rfl, rfl, by decide, rfl, rfl, trivial⟩
  · simp only [List.disjoint_left]
    decide

theorem list_family_operations_pair :
    Turns pairMem pairAnchors pairSeqs true (listRemove pairMem (pairAnchors true) 1) [2]
      ∧ ∃ out, listForEachSafe (removeChosen fun n => n == 1) 3 pairMem (pairAnchors true)
          = some ([1, 2], out)
        ∧ Turns pairMem pairAnchors pairSeqs true out [2] := by
  have hops := list_family_operations pair_family true
  obtain ⟨out, hrun, hturn, -⟩ := hops.2.2.2.2 (fun n => n == 1) 3 (by decide)
  exact ⟨(hops.2.1 1 (by decide)).1, out, hrun, hturn⟩

end VibeRtos
