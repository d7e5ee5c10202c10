import Mathlib

/-!
# Programs that pause

Structured programs over a memory `σ` that hand back control at points of their own choosing
and are invoked again later. Between two invocations the memory may change in any way.

What such a program means is said with continuations: when it pauses, what is left of it is
kept, and the next invocation takes that up where it was. Nothing is looked up and nothing is
numbered. An implementation that keeps less than that, and finds its place again by other
means, is measured against this.

`ℓ` names the points at which a program pauses, and `κ` those at which it runs another one to
its end.
-/

namespace Coroutine

/-- What an invocation reports. -/
inductive Report where
  | done | paused | waiting
  deriving DecidableEq

/-- Programs. Conditions may have effects. -/
inductive Prog (σ ℓ κ : Type) where
  | skip
  | act (f : σ → σ)
  | seq (p q : Prog σ ℓ κ)
  | ite (c : σ → σ × Bool) (p q : Prog σ ℓ κ)
  | loop (c : σ → σ × Bool) (p : Prog σ ℓ κ)
  /-- leave the loop; outside of one, the program -/
  | leave
  /-- leave the program -/
  | exit
  /-- hand back control once -/
  | pause (l : ℓ)
  /-- hand back control as long as the condition fails -/
  | await (l : ℓ) (c : σ → σ × Bool)
  /-- run `p` to its end, handing back control whenever `p` does -/
  | inner (l : κ) (p : Prog σ ℓ κ)

/-- What is left to do when a part of a program has ended. -/
inductive Cont (σ ℓ κ : Type) where
  | stop
  | seq (q : Prog σ ℓ κ) (k : Cont σ ℓ κ)
  | loop (c : σ → σ × Bool) (p : Prog σ ℓ κ) (k : Cont σ ℓ κ)
  | inner (l : κ) (p : Prog σ ℓ κ) (k : Cont σ ℓ κ)

/-- What a program that is not running has left to do; `none` when it has ended. -/
abbrev Resumption (σ ℓ κ : Type) := Option (Prog σ ℓ κ × Cont σ ℓ κ)

/-- An invocation under way, or at its end. -/
inductive State (σ ℓ κ : Type) where
  | run (p : Prog σ ℓ κ) (k : Cont σ ℓ κ) (m : σ)
  | halt (r : Report) (rest : Resumption σ ℓ κ) (m : σ)

variable {σ ℓ κ : Type}

namespace Cont

/-- To the end of the loop, or of the program when there is none. -/
def leave : Cont σ ℓ κ → Cont σ ℓ κ
  | stop => stop
  | seq _ k => k.leave
  | loop _ _ k => k
  | inner l p k => inner l p k

/-- The end of the program. -/
def exit : Cont σ ℓ κ → σ → State σ ℓ κ
  | stop, m => .halt .done none m
  | seq _ k, m => k.exit m
  | loop _ _ k, m => k.exit m
  | inner _ _ k, m => .run .skip k m

/-- Whoever runs another program reports a pause of it as a pause of its own. -/
def report : Cont σ ℓ κ → Report → Report
  | stop, r => r
  | seq _ k, r => k.report r
  | loop _ _ k, r => k.report r
  | inner _ _ k, _ => k.report .paused

end Cont

/-- What comes after a part that has ended. -/
def next : Cont σ ℓ κ → σ → State σ ℓ κ
  | .stop, m => .halt .done none m
  | .seq q k, m => .run q k m
  | .loop c p k, m => .run (.loop c p) k m
  | .inner _ _ k, m => .run .skip k m

/-- One step of an invocation. -/
def step : State σ ℓ κ → Option (State σ ℓ κ)
  | .halt .. => none
  | .run .skip k m => some (next k m)
  | .run (.act f) k m => some (.run .skip k (f m))
  | .run (.seq p q) k m => some (.run p (.seq q k) m)
  | .run (.ite c p q) k m => some (if (c m).2 then .run p k (c m).1 else .run q k (c m).1)
  | .run (.loop c p) k m =>
      some (if (c m).2 then .run p (.loop c p k) (c m).1 else .run .skip k (c m).1)
  | .run .leave k m => some (.run .skip k.leave m)
  | .run .exit k m => some (k.exit m)
  | .run (.pause _) k m => some (.halt (k.report .paused) (some (.skip, k)) m)
  | .run (.await l c) k m =>
      some (if (c m).2 then .run .skip k (c m).1
        else .halt (k.report .waiting) (some (.await l c, k)) (c m).1)
  | .run (.inner l p) k m => some (.run p (.inner l p k) m)

/-- One invocation: it finds the memory `m`, reports `r` and leaves the memory `m'`. A program
that has ended stays so. -/
def Invoke : Resumption σ ℓ κ → σ → Report → Resumption σ ℓ κ → σ → Prop
  | some (p, k), m, r, rest, m' =>
      .halt r rest m' ∈ StateTransition.eval step (.run p k m)
  | none, m, r, rest, m' => r = .done ∧ rest = none ∧ m' = m

/-! ## Sessions -/

/-- An invocation as its caller sees it. -/
structure Call (σ ρ : Type) where
  before : σ
  report : ρ
  after : σ

/-- Invocations one after the other, each from what the one before has kept. Nothing is said
about the memory between them. -/
inductive Session {ι ρ : Type} (inv : ι → σ → ρ → ι → σ → Prop) : ι → List (Call σ ρ) → ι → Prop
  | nil (i : ι) : Session inv i [] i
  | cons {i j i' : ι} {m m' : σ} {r : ρ} {es : List (Call σ ρ)} (h : inv i m r j m')
      (t : Session inv j es i') : Session inv i (⟨m, r, m'⟩ :: es) i'

section Bisimulation

variable {ι₁ ι₂ ρ : Type} {inv₁ : ι₁ → σ → ρ → ι₁ → σ → Prop} {inv₂ : ι₂ → σ → ρ → ι₂ → σ → Prop}
  {S : ι₁ → ι₂ → Prop}

/-- Where each invocation can be matched, so can a session. -/
theorem Session.follow (h : ∀ i j m r i' m', S i j → inv₁ i m r i' m' →
    ∃ j', S i' j' ∧ inv₂ j m r j' m') {i i' : ι₁} {es : List (Call σ ρ)}
    (hs : Session inv₁ i es i') : ∀ {j : ι₂}, S i j → ∃ j', S i' j' ∧ Session inv₂ j es j' := by
  induction hs with
  | nil i => exact fun {j} hij => ⟨j, hij, .nil j⟩
  | cons hi _ ih =>
      intro j hij
      obtain ⟨j₁, hj, hinv⟩ := h _ _ _ _ _ _ hij hi
      obtain ⟨j', hj', hses⟩ := ih hj
      exact ⟨j', hj', .cons hinv hses⟩

end Bisimulation

theorem Session.append {ι ρ : Type} {inv : ι → σ → ρ → ι → σ → Prop} {i j k : ι}
    {es fs : List (Call σ ρ)} (h : Session inv i es j) (h' : Session inv j fs k) :
    Session inv i (es ++ fs) k := by
  induction h with
  | nil => exact h'
  | cons hi _ ih => exact .cons hi (ih h')

/-! ## Places

The parts of a program, each with what is left to do behind it. -/

/-- `p`, followed by `k`, is a place in the program `b`. -/
inductive Place (b : Prog σ ℓ κ) : Prog σ ℓ κ → Cont σ ℓ κ → Prop
  | top : Place b b .stop
  | behind {p k} (h : Place b p k) : Place b .skip k
  | seqLeft {p q k} (h : Place b (.seq p q) k) : Place b p (.seq q k)
  | seqRight {p q k} (h : Place b (.seq p q) k) : Place b q k
  | iteThen {c p q k} (h : Place b (.ite c p q) k) : Place b p k
  | iteElse {c p q k} (h : Place b (.ite c p q) k) : Place b q k
  | loop {c p k} (h : Place b (.loop c p) k) : Place b p (.loop c p k)
  | inner {l p k} (h : Place b (.inner l p) k) : Place b p (.inner l p k)

namespace Place

variable {b p q : Prog σ ℓ κ} {k : Cont σ ℓ κ} {c : σ → σ × Bool} {l : κ}

/-- The continuations of a place are places. -/
theorem of_cont {K : Cont σ ℓ κ} (h : Place b p K) :
    (∀ q k, K = .seq q k → Place b q k) ∧ (∀ c q k, K = .loop c q k → Place b (.loop c q) k) ∧
      ∀ l q k, K = .inner l q k → Place b (.inner l q) k := by
  induction h with
  | top => simp
  | behind _ ih => exact ih
  | seqLeft h _ =>
      refine ⟨fun q k e => ?_, by simp, by simp⟩
      obtain ⟨rfl, rfl⟩ := Cont.seq.inj e
      exact h.seqRight
  | seqRight _ ih => exact ih
  | iteThen _ ih => exact ih
  | iteElse _ ih => exact ih
  | loop h _ =>
      refine ⟨by simp, fun c q k e => ?_, by simp⟩
      obtain ⟨rfl, rfl, rfl⟩ := Cont.loop.inj e
      exact h
  | inner h _ =>
      refine ⟨by simp, by simp, fun l q k e => ?_⟩
      obtain ⟨rfl, rfl, rfl⟩ := Cont.inner.inj e
      exact h

theorem of_seq (h : Place b p (.seq q k)) : Place b q k := h.of_cont.1 q k rfl

theorem of_loop (h : Place b p (.loop c q k)) : Place b (.loop c q) k := h.of_cont.2.1 c q k rfl

theorem of_inner (h : Place b p (.inner l q k)) : Place b (.inner l q) k :=
  h.of_cont.2.2 l q k rfl

/-- Leaving a loop leads to a place. -/
theorem leave : ∀ {k : Cont σ ℓ κ} {p : Prog σ ℓ κ}, Place b p k → Place b .skip k.leave
  | .stop, _, h => h.behind
  | .seq _ _, _, h => h.of_seq.leave
  | .loop _ _ _, _, h => h.of_loop.behind
  | .inner _ _ _, _, h => h.behind

end Place

end Coroutine
