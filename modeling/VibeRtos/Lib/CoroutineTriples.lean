import VibeRtos.Lib.Coroutine

/-!
# Assertions about programs that pause

A program that hands back control relies on what holds when it is invoked again (`rely`), and
guarantees something whenever it hands back control (`guar`, with what it reports). `Safe` says that
it does so for a number of steps, invocations counted among them, and `Triple` is the rule form of
that: from `pre` a part of a program is safe, and it ends in `post`.

The rules follow the syntax. Loops and waits are by induction on the number of steps. For a whole
program the triple gives `Kept`: what is left of it between two invocations is again safe.
-/

namespace Coroutine

variable {σ ℓ κ : Type} (rely : σ → Prop) (guar : Report → σ → Prop)

/-- For `n` steps the program keeps its guarantee, if it finds what it relies on. -/
def Safe : Nat → State σ ℓ κ → Prop
  | 0, _ => True
  | n + 1, .run p k m => ∀ s, step (.run p k m) = some s → Safe n s
  | n + 1, .halt r rest m =>
      guar r m ∧ ∀ p k, rest = some (p, k) → ∀ m', rely m' → Safe n (.run p k m')

/-- From `pre` the part is safe and leads to `post`, if what comes behind it is safe from there.
Its reports are those of the whole program. -/
def Triple (pre : σ → Prop) (p : Prog σ ℓ κ) (post : σ → Prop) : Prop :=
  ∀ n k, (∀ r, k.report r = r) → (∀ m, post m → ∀ j ≤ n, Safe rely guar j (.run .skip k m)) →
    ∀ m, pre m → ∀ j ≤ n, Safe rely guar j (.run p k m)

variable {rely guar} {pre mid post : σ → Prop} {n : Nat}
  {p q : Prog σ ℓ κ} {k : Cont σ ℓ κ} {c : σ → σ × Bool} {m : σ} {s t : State σ ℓ κ}

/-! ## Steps -/

theorem safe_succ (h : step (.run p k m) = some t) (ht : Safe rely guar n t) :
    Safe rely guar (n + 1) (.run p k m) := by
  intro s hs
  obtain rfl := Option.some.inj (h.symm.trans hs)
  exact ht

/-- A step that leads to a state that is safe for as many steps. -/
theorem safe_of_step (h : step (.run p k m) = some t)
    (ht : ∀ j ≤ n, Safe rely guar j t) : ∀ j ≤ n, Safe rely guar j (.run p k m) := by
  intro j hj
  cases j with
  | zero => trivial
  | succ j => exact safe_succ h (ht j (by omega))

namespace Triple

theorem act {f : σ → σ} (h : ∀ m, pre m → post (f m)) :
    Triple rely guar pre (.act f : Prog σ ℓ κ) post :=
  fun _ _ _ hk m hm => safe_of_step rfl (hk _ (h m hm))

/-- More may be known before. -/
theorem strengthen {pre' : σ → Prop} (h : Triple rely guar pre p post)
    (hpre : ∀ m, pre' m → pre m) : Triple rely guar pre' p post :=
  fun n k hrep hk m hm => h n k hrep hk m (hpre m hm)

theorem seq (mid : σ → Prop) (hp : Triple rely guar pre p mid) (hq : Triple rely guar mid q post) :
    Triple rely guar pre (.seq p q) post := by
  intro n k hrep hk m hm
  refine safe_of_step rfl (hp n (.seq q k) hrep (fun m' hm' => ?_) m hm)
  exact safe_of_step rfl (hq n k hrep hk m' hm')

/-- `inv` is the loop's invariant. -/
theorem loop {inv : σ → Prop} (mid : σ → Prop) (hp : Triple rely guar mid p inv)
    (htrue : ∀ m, inv m → (c m).2 = true → mid (c m).1)
    (hfalse : ∀ m, inv m → (c m).2 = false → post (c m).1) :
    Triple rely guar inv (.loop c p) post := by
  intro n k hrep hk m hm j hj
  -- each time round takes a step
  induction j using Nat.strong_induction_on generalizing m with
  | _ j ih =>
      cases j with
      | zero => trivial
      | succ j =>
          refine safe_succ rfl ?_
          cases hc : (c m).2 with
          | false => exact hk _ (hfalse m hm hc) j (by omega)
          | true =>
              refine hp j (.loop c p k) hrep (fun m' hm' => ?_) _ (htrue m hm hc) j le_rfl
              exact safe_of_step rfl fun i hi => ih i (by omega) m' hm' (by omega)

/-- The condition is tried again each time the program is invoked. -/
theorem await {l : ℓ} (htrue : ∀ m, pre m → (c m).2 = true → post (c m).1)
    (hfalse : ∀ m, pre m → (c m).2 = false → guar .waiting (c m).1)
    (hrely : ∀ m, rely m → pre m) :
    Triple rely guar pre (.await l c : Prog σ ℓ κ) post := by
  intro n k hrep hk m hm j hj
  -- it waits for as long as there are steps left
  induction j using Nat.strong_induction_on generalizing m with
  | _ j ih =>
      cases j with
      | zero => trivial
      | succ j =>
          refine safe_succ rfl ?_
          cases hc : (c m).2 with
          | true => exact hk _ (htrue m hm hc) j (by omega)
          | false =>
              cases j with
              | zero => trivial
              | succ j =>
                  refine ⟨(hrep .waiting).symm ▸ hfalse m hm hc, ?_⟩
                  intro q k' h m' hm'
                  obtain ⟨rfl, rfl⟩ := Prod.mk.inj (Option.some.inj h)
                  exact ih j (by omega) m' (hrely m' hm') (by omega)

end Triple

/-! ## Whole programs -/

variable (rely guar) in
/-- What is left of a program is safe when it is invoked again. -/
def Kept : Resumption σ ℓ κ → Prop
  | some (p, k) => ∀ m, rely m → ∀ n, Safe rely guar n (.run p k m)
  | none => ∀ m, rely m → guar .done m

/-- A program that has not been invoked yet. -/
theorem Triple.kept (h : Triple rely guar rely p (guar .done)) :
    Kept rely guar (some (p, .stop)) := by
  have hdone : ∀ m, guar .done m → ∀ j, Safe rely guar j (.halt .done none m : State σ ℓ κ) := by
    intro m hm j
    cases j with
    | zero => trivial
    | succ j => exact ⟨hm, by simp⟩
  intro m hm n
  refine h n .stop (fun _ => rfl) (fun m hm => ?_) m hm n le_rfl
  exact safe_of_step rfl fun j _ => hdone m hm j

theorem safe_reaches (h : ∀ n, Safe rely guar n s) (hr : StateTransition.Reaches step s t) :
    ∀ n, Safe rely guar n t := by
  induction hr with
  | refl => exact h
  | @tail u v _ hstep ih =>
      cases u with
      | halt r rest m => simp [step] at hstep
      | run p k m => exact fun n => ih (n + 1) v hstep

theorem exit_report : ∀ {k : Cont σ ℓ κ} {r : Report} {m m' : σ},
    k.exit m = .halt r none m' → r = .done
  | .stop, _, _, _, h => by simp [Cont.exit] at h; exact h.1.symm
  | .seq _ k, _, _, _, h => exit_report (k := k) h
  | .loop _ _ k, _, _, _, h => exit_report (k := k) h
  | .inner _ _ _, _, _, _, h => by simp [Cont.exit] at h

/-- Only a program that is done has nothing left. -/
theorem step_report {m' : σ} {r : Report} (h : step s = some (.halt r none m')) : r = .done := by
  cases s with
  | halt r rest m => simp [step] at h
  | run p k m =>
      cases p with
      | skip =>
          have h := Option.some.inj h
          cases k <;> simp [next] at h
          exact h.1.symm
      | exit => exact exit_report (Option.some.inj h)
      | ite c p q => simp only [step, Option.some.injEq] at h; split at h <;> simp at h
      | loop c p => simp only [step, Option.some.injEq] at h; split at h <;> simp at h
      | await l c => simp only [step, Option.some.injEq] at h; split at h <;> simp at h
      | _ => simp [step] at h

/-- One invocation. -/
theorem Kept.invoke {rest rest' : Resumption σ ℓ κ} {m' : σ} {r : Report}
    (h : Kept rely guar rest) (hm : rely m) (hi : Invoke rest m r rest' m') :
    guar r m' ∧ (r = .done ∨ Kept rely guar rest') := by
  cases rest with
  | none =>
      obtain ⟨rfl, rfl, rfl⟩ := hi
      exact ⟨h m' hm, Or.inl rfl⟩
  | some pk =>
      obtain ⟨p, k⟩ := pk
      have hsafe := safe_reaches (h m hm) (StateTransition.mem_eval.mp hi).1
      refine ⟨(hsafe 1).1, ?_⟩
      cases rest' with
      | none =>
          obtain h | ⟨u, -, hu⟩ := (StateTransition.mem_eval.mp hi).1.cases_tail
          · simp at h
          · exact Or.inl (step_report hu)
      | some pk' => exact Or.inr fun m'' hm'' n => (hsafe (n + 1)).2 _ _ rfl m'' hm''

end Coroutine
