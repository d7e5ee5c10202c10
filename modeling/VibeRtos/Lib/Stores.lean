import VibeRtos.Lib.ByteMem

/-!
# Stores that do not read

A procedure that only assigns values it knows beforehand is a list of stores. What it leaves at a
covered address does not depend on the memory it found; any other byte it leaves as it was. So it
makes two memories equal exactly when they agreed on the bytes it does not cover.
-/

namespace Stores

open ByteMem

/-- `len` bytes for the addresses from `off` on. -/
structure Store where
  off : Nat
  len : Nat
  data : Nat → UInt8

/-- The memory after a store. -/
def Store.run (m : Mem) (s : Store) : Mem := blit m s.off s.data s.len

/-- The memory after several stores, made in the order of the list. -/
def runAll (m : Mem) (ss : List Store) : Mem := ss.foldl Store.run m

/-- A store covers an address. -/
def Store.Covers (s : Store) (x : Nat) : Prop := s.off ≤ x ∧ x < s.off + s.len

instance (s : Store) (x : Nat) : Decidable (s.Covers x) := inferInstanceAs (Decidable (_ ∧ _))

/-- Some store covers an address. -/
def Covered (ss : List Store) (x : Nat) : Prop := ∃ s ∈ ss, s.Covers x

variable {m m' : Mem} {s : Store} {ss ss' : List Store} {x : Nat}

@[simp] theorem covered_nil : ¬ Covered [] x := by
  intro ⟨s, hs, _⟩
  exact absurd hs List.not_mem_nil

@[simp] theorem covered_cons :
    Covered (s :: ss) x ↔ (s.off ≤ x ∧ x < s.off + s.len) ∨ Covered ss x := by
  simp only [Covered, List.exists_mem_cons_iff, Store.Covers]

@[simp] theorem covered_append : Covered (ss ++ ss') x ↔ Covered ss x ∨ Covered ss' x := by
  simp only [Covered, List.mem_append, or_and_right, exists_or]

theorem runAll_append (m : Mem) (ss ss' : List Store) :
    runAll m (ss ++ ss') = runAll (runAll m ss) ss' := List.foldl_append

/-- An address that no store covers keeps its byte. -/
theorem runAll_frame (h : ¬ Covered ss x) : runAll m ss x = m x := by
  induction ss generalizing m with
  | nil => rfl
  | cons s ss ih =>
      rw [covered_cons, not_or] at h
      refine (ih (m := s.run m) h.2).trans ?_
      rw [Store.run, blit, if_neg h.1]

/-- At an address where the memories agree they go on agreeing. -/
theorem runAll_agree : ∀ (ss : List Store) {m m' : Mem}, m x = m' x →
    runAll m ss x = runAll m' ss x := by
  intro ss
  induction ss with
  | nil => intro m m' h; exact h
  | cons s ss ih =>
      intro m m' h
      refine ih ?_
      rw [Store.run, Store.run, blit, blit, h]

/-- At a covered address any two memories agree. -/
theorem runAll_covered (h : Covered ss x) : runAll m ss x = runAll m' ss x := by
  induction ss generalizing m m' with
  | nil => exact absurd h covered_nil
  | cons s ss ih =>
      by_cases hs : s.off ≤ x ∧ x < s.off + s.len
      · refine runAll_agree ss ?_
        rw [Store.run, Store.run, blit, blit, if_pos hs, if_pos hs]
      · rcases covered_cons.mp h with hs' | hrest
        · exact absurd hs' hs
        · exact ih hrest

/-- **What two memories must agree on.** -/
theorem runAll_eq_iff : runAll m ss x = runAll m' ss x ↔ (¬ Covered ss x → m x = m' x) := by
  constructor
  · intro h hfree
    rwa [runAll_frame hfree, runAll_frame hfree] at h
  · intro h
    by_cases hcov : Covered ss x
    · exact runAll_covered hcov
    · exact runAll_agree ss (h hcov)

end Stores
