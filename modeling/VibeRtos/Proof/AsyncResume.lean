import VibeRtos.Async.Macros

/-!
# A coroutine resumes where it stopped

All that a coroutine keeps between two invocations is a line number, and one more for each
coroutine it is awaiting. Against it stands the program that keeps what it has left to do.

The two run side by side. A continuation of the program translates to one of the C machine:
each `inner` becomes the call of a function, with the rest of its caller behind it. At a pause
the C machine loses its continuation; at the next invocation the `switch` of each function on
the way finds it again, since the label of a line stands at one place only, and behind it is
the very continuation that was lost (`find_place`).
-/

namespace VibeRtos.Async

open Coroutine StateTransition

variable {σ : Type} {co : Nat} {b : Body σ}

/-! ## The continuation in C -/

/-- The `async_t` of the function that is running. -/
def current (co : Nat) : Cont σ Nat (Nat × Nat) → Nat
  | .stop => co
  | .seq _ k => current co k
  | .loop _ _ k => current co k
  | .inner (_, child) _ _ => child

/-- Its body. -/
def owner (b : Body σ) : Cont σ Nat (Nat × Nat) → Body σ
  | .stop => b
  | .seq _ k => owner b k
  | .loop _ _ k => owner b k
  | .inner _ p _ => p

/-- The `async_t`s of its callers. -/
def outer (co : Nat) : Cont σ Nat (Nat × Nat) → List Nat
  | .stop => []
  | .seq _ k => outer co k
  | .loop _ _ k => outer co k
  | .inner _ _ k => current co k :: outer co k

def kont (co : Nat) : Cont σ Nat (Nat × Nat) → CKont σ
  | .stop => .switch (.seq (asyncEnd co) .stop)
  | .seq q k => .seq (expand (current co k) q) (kont co k)
  | .loop c p k => .loop c (expand (current co k) p) (kont co k)
  | .inner (_, child) _ k => .switch (.seq (asyncEnd child) (.call (.ret .running) (kont co k)))

/-- What is left to its caller. -/
def caller (co : Nat) : Cont σ Nat (Nat × Nat) → CKont σ
  | .stop => .stop
  | .seq _ k => caller co k
  | .loop _ _ k => caller co k
  | .inner _ _ k => .call (.ret .running) (kont co k)

/-- Each caller has kept the line at which it awaits. -/
def Awaiting (co : Nat) (ls : Lines) : Cont σ Nat (Nat × Nat) → Prop
  | .stop => True
  | .seq _ k => Awaiting co ls k
  | .loop _ _ k => Awaiting co ls k
  | .inner (line, _) _ k => ls (current co k) = line ∧ Awaiting co ls k

theorem awaiting_update {ls : Lines} {x : Nat} {n : Int} : ∀ {k : Cont σ Nat (Nat × Nat)},
    x ∉ outer co k → (Awaiting co (Function.update ls x n) k ↔ Awaiting co ls k)
  | .stop, _ => Iff.rfl
  | .seq _ k, h => awaiting_update (k := k) h
  | .loop _ _ k, h => awaiting_update (k := k) h
  | .inner _ _ k, h => by
      simp only [outer, List.mem_cons, not_or] at h
      simp only [Awaiting, awaiting_update h.2, Function.update_of_ne (Ne.symm h.1)]

@[simp] theorem current_leave : ∀ k : Cont σ Nat (Nat × Nat), current co k.leave = current co k
  | .stop => rfl
  | .seq _ k => current_leave k
  | .loop _ _ _ => rfl
  | .inner _ _ _ => rfl

@[simp] theorem awaiting_leave {ls : Lines} : ∀ k : Cont σ Nat (Nat × Nat),
    Awaiting co ls k.leave ↔ Awaiting co ls k
  | .stop => Iff.rfl
  | .seq _ k => awaiting_leave k
  | .loop _ _ _ => Iff.rfl
  | .inner _ _ _ => Iff.rfl

/-- `break` leads where the program leaves to. -/
@[simp] theorem kont_brk : ∀ k : Cont σ Nat (Nat × Nat), (kont co k).brk = some (kont co k.leave)
  | .stop => rfl
  | .seq _ k => kont_brk k
  | .loop _ _ _ => rfl
  | .inner _ _ _ => rfl

/-! ## The label of a line -/

theorem find_eq_none {c : Nat} {n : Int} : ∀ {p : Body σ} {K : CKont σ},
    (∀ line ∈ lines p, n ≠ (line : Nat)) → (expand c p).find n K = none
  | .skip, _, _ | .act _, _, _ | .leave, _, _ | .exit, _, _ => rfl
  | .seq p q, K, h => by
      simp only [lines, List.mem_append] at h
      simp [expand, CStmt.find, find_eq_none fun l hl => h l (.inl hl),
        find_eq_none fun l hl => h l (.inr hl)]
  | .ite _ p q, K, h => by
      simp only [lines, List.mem_append] at h
      simp [expand, CStmt.find, find_eq_none fun l hl => h l (.inl hl),
        find_eq_none fun l hl => h l (.inr hl)]
  | .loop _ p, K, h => by
      simp only [lines] at h
      simp [expand, CStmt.find, find_eq_none h]
  | .pause line, K, h => by
      simp only [lines, List.mem_singleton, forall_eq] at h
      simp [expand, asyncYield, CStmt.find, h]
  | .await line _, K, h => by
      simp only [lines, List.mem_singleton, forall_eq] at h
      simp [expand, asyncAwait, probe, CStmt.find, h]
  | .inner (line, _) _, K, h => by
      simp only [lines, List.mem_singleton, forall_eq] at h
      simp [expand, asyncInit, asyncAwaitCoro, coroutine, CStmt.find, h]

variable {n : Nat}

theorem find_isSome {c : Nat} : ∀ {p : Body σ} {K : CKont σ}, n ∈ lines p →
    ((expand c p).find n K).isSome
  | .skip, _, h | .act _, _, h | .leave, _, h | .exit, _, h => by simp [lines] at h
  | .seq p q, K, h => by
      simp only [expand, CStmt.find, Option.isSome_or, Bool.or_eq_true]
      exact (List.mem_append.mp h).imp find_isSome find_isSome
  | .ite _ p q, K, h => by
      simp only [expand, CStmt.find, Option.isSome_or, Bool.or_eq_true]
      exact (List.mem_append.mp h).imp find_isSome find_isSome
  | .loop _ p, K, h => find_isSome (p := p) h
  | .pause line, K, h => by
      simp only [lines, List.mem_singleton] at h
      simp [expand, asyncYield, CStmt.find, h]
  | .await line _, K, h => by
      simp only [lines, List.mem_singleton] at h
      simp [expand, asyncAwait, probe, CStmt.find, h]
  | .inner (line, _) _, K, h => by
      simp only [lines, List.mem_singleton] at h
      simp [expand, asyncInit, asyncAwaitCoro, coroutine, CStmt.find, h]

/-- What the header asks for, at a place inside of the body. -/
structure Fits (co : Nat) (p : Body σ) (k : Cont σ Nat (Nat × Nat)) : Prop where
  lines : (0 :: lines p).Nodup
  nested : Nested p
  children : ∀ c ∈ children p, c ≠ current co k ∧ c ∉ outer co k
  current : current co k ∉ outer co k

private theorem nodup_left {x : Nat} {xs ys : List Nat} (h : (x :: (xs ++ ys)).Nodup) :
    (x :: xs).Nodup := by
  simp only [List.nodup_cons, List.mem_append, not_or, List.nodup_append] at h ⊢
  exact ⟨h.1.1, h.2.1⟩

private theorem nodup_right {x : Nat} {xs ys : List Nat} (h : (x :: (xs ++ ys)).Nodup) :
    (x :: ys).Nodup := by
  simp only [List.nodup_cons, List.mem_append, not_or, List.nodup_append] at h ⊢
  exact ⟨h.1.2, h.2.2.1⟩

/-- It holds at each place. -/
theorem fits_of_place (hw : WellFormed co b) {p : Body σ} {k : Cont σ Nat (Nat × Nat)}
    (h : Place b p k) : Fits co p k := by
  induction h with
  | top =>
      refine ⟨hw.lines, hw.nested, fun c hc => ⟨fun e => ?_, by simp [outer]⟩, by simp [outer]⟩
      have e' : c = co := e
      exact hw.co (e' ▸ hc)
  | behind _ ih => exact ⟨by simp [lines], trivial, by simp [children], ih.current⟩
  | seqLeft _ ih => exact ⟨nodup_left ih.lines, ih.nested.1,
      fun c hc => ih.children c (List.mem_append_left _ hc), ih.current⟩
  | seqRight _ ih => exact ⟨nodup_right ih.lines, ih.nested.2,
      fun c hc => ih.children c (List.mem_append_right _ hc), ih.current⟩
  | iteThen _ ih => exact ⟨nodup_left ih.lines, ih.nested.1,
      fun c hc => ih.children c (List.mem_append_left _ hc), ih.current⟩
  | iteElse _ ih => exact ⟨nodup_right ih.lines, ih.nested.2,
      fun c hc => ih.children c (List.mem_append_right _ hc), ih.current⟩
  | loop _ ih => exact ⟨ih.lines, ih.nested, ih.children, ih.current⟩
  | @inner l p k _ ih =>
      obtain ⟨line, child⟩ := l
      obtain ⟨hn, hc, hp⟩ := ih.nested
      have hchild := ih.children child (List.mem_cons_self ..)
      refine ⟨hn, hp, fun c hm => ⟨fun e => ?_, ?_⟩, ?_⟩
      · have e' : c = child := e
        exact hc (e' ▸ hm)
      · simp [outer, ih.children c (List.mem_cons_of_mem _ hm)]
      · simp [current, outer, hchild]

/-- A line of the second part is not one of the first. -/
theorem ne_of_mem_left {xs ys : List Nat} (h : (0 :: (xs ++ ys)).Nodup) (hn : n ∈ ys) :
    ∀ l ∈ xs, (n : Int) ≠ l := by
  simp only [List.nodup_cons, List.nodup_append] at h
  exact fun l hl e => h.2.2.2 l hl n hn (Int.ofNat.inj e.symm)

/-- **The label of a line is found where it stands.** Behind it is what is left to do there. -/
theorem find_place (hw : WellFormed co b) {p : Body σ} {k : Cont σ Nat (Nat × Nat)}
    (h : Place b p k) (hn : n ∈ lines p) :
    (expand (current co k) (owner b k)).find n
        (.switch (.seq (asyncEnd (current co k)) (caller co k)))
      = (expand (current co k) p).find n (kont co k) := by
  induction h with
  | top => rfl
  | behind _ _ => simp [lines] at hn
  | @seqLeft p q k h ih =>
      refine (ih (List.mem_append_left _ hn)).trans ?_
      exact Option.or_of_isSome (find_isSome hn)
  | @seqRight p q k h ih =>
      refine (ih (List.mem_append_right _ hn)).trans ?_
      have hp := ne_of_mem_left (fits_of_place hw h).lines hn
      simp only [expand, CStmt.find, find_eq_none hp, Option.none_or]
  | @iteThen c p q k h ih =>
      refine (ih (List.mem_append_left _ hn)).trans ?_
      exact Option.or_of_isSome (find_isSome hn)
  | @iteElse c p q k h ih =>
      refine (ih (List.mem_append_right _ hn)).trans ?_
      have hp := ne_of_mem_left (fits_of_place hw h).lines hn
      simp only [expand, CStmt.find, find_eq_none hp, Option.none_or]
  | loop h ih => exact ih hn
  | inner h ih => rfl

/-! ## Side by side -/

/-- The program runs `p`, with `k` behind, and the C machine the same place. -/
inductive Runs (co : Nat) (b : Body σ) : State σ Nat (Nat × Nat) → CState σ → Prop
  | here {p k m ls} (h : Place b p k) (ha : Awaiting co ls k) :
      Runs co b (.run p k m) (.run (expand (current co k) p) (kont co k) m ls)
  /-- behind the label of `ASYNC_AWAIT` -/
  | probing {line c k m ls} (h : Place b (.await line c) k) (ha : Awaiting co ls k)
      (hl : ls (current co k) = line) :
      Runs co b (.run (.await line c) k m) (.run (probe c) (kont co k) m ls)

/-- The line numbers stand for what is left to do. -/
inductive Saved (co : Nat) (b : Body σ) : Resumption σ Nat (Nat × Nat) → Lines → Prop
  | start {ls} (h : ls co = 0) : Saved co b (some (b, .stop)) ls
  | paused {line k ls} (h : Place b (.pause line) k) (ha : Awaiting co ls k)
      (hl : ls (current co k) = line) : Saved co b (some (.skip, k)) ls
  | waiting {line c k ls} (h : Place b (.await line c) k) (ha : Awaiting co ls k)
      (hl : ls (current co k) = line) : Saved co b (some (.await line c, k)) ls
  | ended {ls} (h : ls co = -1) : Saved co b none ls

/-- The two side by side, also at the end of an invocation. -/
inductive Matches (co : Nat) (b : Body σ) : State σ Nat (Nat × Nat) → CState σ → Prop
  | runs {s t} (h : Runs co b s t) : Matches co b s t
  | halted {st rest m ls} (h : Saved co b rest ls) (hst : st = .done ↔ rest = none) :
      Matches co b (.halt (report st) rest m) (.returned st m ls)

theorem report_injective : Function.Injective report := by
  intro st st' h
  cases st with
  | done => cases st' <;> simp_all [report]
  | running => cases st' <;> simp_all [report]
  | blocked => cases st' <;> simp_all [report]

theorem reaches_step {s t : CState σ} (h : cStep s = some t) : Reaches cStep s t :=
  Relation.ReflTransGen.single h

theorem reaches₁_step {s t u : CState σ} (h : cStep s = some t) (h' : Reaches cStep t u) :
    Reaches₁ cStep s u :=
  Relation.TransGen.head' h h'

/-! ### Returning -/

/-- A pause goes through all callers. -/
theorem reaches_pause (co : Nat) (m : σ) (ls : Lines) : ∀ (k : Cont σ Nat (Nat × Nat))
    {st : AsyncStatus}, st ≠ .done → ∃ st', st' ≠ .done ∧ k.report (report st) = report st' ∧
      Reaches cStep ((kont co k).ret st m ls) (.returned st' m ls)
  | .stop, st, h => ⟨st, h, rfl, .refl⟩
  | .seq _ k, _, h => reaches_pause co m ls k h
  | .loop _ _ k, _, h => reaches_pause co m ls k h
  | .inner (line, child) q k, st, h => by
      have hrunning : AsyncStatus.running ≠ .done := by simp
      obtain ⟨st', hne, hr, hreach⟩ := reaches_pause co m ls k hrunning
      refine ⟨st', hne, hr, ?_⟩
      have hcall : (kont co (.inner (line, child) q k)).ret st m ls
          = .run (.ret .running) (kont co k) m ls := if_pos h
      rw [hcall]
      exact (reaches_step rfl).trans hreach

/-! ### Entering -/

variable {m : σ} {ls : Lines}

/-- A function that starts runs its body. -/
theorem reaches_start {c : Nat} {q : Body σ} {K : CKont σ} (h : ls c = 0) :
    Reaches cStep (.run (function c q) K m ls)
      (.run (expand c q) (.switch (.seq (asyncEnd c) K)) m ls) := by
  refine .head (b := .run (.switchLine c (.seq (.caseLabel 0) (expand c q)))
    (.seq (asyncEnd c) K) m ls) rfl ?_
  refine .head (b := .run .skip (.seq (expand c q) (.switch (.seq (asyncEnd c) K))) m ls) ?_ ?_
  · simp [cStep, CStmt.find, h]
  · exact reaches_step rfl

/-- A function that has stopped goes on behind the label of its line. -/
theorem reaches_label {c : Nat} {q : Body σ} {K K' : CKont σ} {t : CStmt σ} (h0 : ls c ≠ 0)
    (h : (expand c q).find (ls c) (.switch (.seq (asyncEnd c) K)) = some (t, K')) :
    Reaches cStep (.run (function c q) K m ls) (.run t K' m ls) := by
  refine .head (b := .run (.switchLine c (.seq (.caseLabel 0) (expand c q)))
    (.seq (asyncEnd c) K) m ls) rfl (reaches_step ?_)
  simp [cStep, CStmt.find, h, h0]

/-- So it does at a place whose line has been kept. -/
theorem reaches_place (hw : WellFormed co b) {p : Body σ} {k : Cont σ Nat (Nat × Nat)} {n : Nat}
    (t : CStmt σ) (K' : CKont σ) (h : Place b p k) (hn : n ∈ lines p)
    (hl : ls (current co k) = n)
    (hf : (expand (current co k) p).find n (kont co k) = some (t, K')) :
    Reaches cStep (.run (function (current co k) (owner b k)) (caller co k) m ls)
      (.run t K' m ls) := by
  refine reaches_label ?_ ?_
  · have h0 : n ≠ 0 := by
      rintro rfl
      exact (List.nodup_cons.mp (fits_of_place hw h).lines).1 hn
    rw [hl]
    exact_mod_cast h0
  · rw [hl, find_place hw h hn, hf]

/-- From the outermost function the calls lead to the one that stopped. -/
theorem reaches_entry (hw : WellFormed co b) : ∀ {k : Cont σ Nat (Nat × Nat)} {p : Body σ},
    Place b p k → Awaiting co ls k →
      Reaches cStep (.run (function co b) .stop m ls)
        (.run (function (current co k) (owner b k)) (caller co k) m ls)
  | .stop, _, _, _ => .refl
  | .seq _ k, _, h, ha => reaches_entry hw (k := k) h.of_seq ha
  | .loop _ _ k, _, h, ha => reaches_entry hw (k := k) h.of_loop ha
  | .inner (line, child) q k, _, h, ha => by
      refine (reaches_entry hw h.of_inner ha.2).trans ?_
      refine (reaches_place hw (n := line) .skip
        (.seq (.ifNotDone (function child q) (.ret .running)) (kont co k)) h.of_inner
        (by simp [lines]) ha.1 ?_).trans ?_
      · simp [expand, asyncInit, asyncAwaitCoro, CStmt.find, function]
      · exact (reaches_step rfl).tail rfl

/-- **An invocation takes up what was left.** -/
theorem reaches_rest (hw : WellFormed co b) {p : Body σ} {k : Cont σ Nat (Nat × Nat)}
    (h : Saved co b (some (p, k)) ls) :
    ∃ t, Runs co b (.run p k m) t ∧ Reaches cStep (.run (function co b) .stop m ls) t := by
  cases h with
  | start h0 => exact ⟨_, .here .top trivial, reaches_start h0⟩
  | @paused line _ _ h ha hl =>
      refine ⟨_, .here h.behind ha, (reaches_entry hw h ha).trans ?_⟩
      refine reaches_place hw (n := line) _ _ h (by simp [lines]) hl ?_
      simp [expand, asyncYield, CStmt.find]
  | @waiting line c _ _ h ha hl =>
      refine ⟨_, .probing h ha hl, (reaches_entry hw h ha).trans ?_⟩
      refine (reaches_place hw (n := line) .skip (.seq (probe c) (kont co k)) h
        (by simp [lines]) hl ?_).trans (reaches_step rfl)
      simp [expand, asyncAwait, CStmt.find]

/-! ### One step -/

/-- A function that is at its end is marked done. -/
theorem reaches_end {c : Nat} {K : CKont σ} :
    Reaches₁ cStep (.run .skip (.switch (.seq (asyncEnd c) K)) m ls)
      (K.ret .done m (Function.update ls c (-1))) := by
  refine reaches₁_step rfl (.head (b := .run (asyncEnd c) K m ls) rfl ?_)
  refine .head (b := .run (.setLine c (-1)) (.seq (.ret .done) K) m ls) rfl ?_
  refine .head (b := .run .skip (.seq (.ret .done) K) m (Function.update ls c (-1))) rfl ?_
  exact .head (b := .run (.ret .done) K m (Function.update ls c (-1))) rfl (reaches_step rfl)

theorem match_done (h : ls co = -1) :
    Matches co b (.halt .done none m) (.returned .done m ls) :=
  have hst : AsyncStatus.done = .done ↔ (none : Resumption σ Nat (Nat × Nat)) = none := by simp
  .halted (.ended h) hst

/-- What comes after a part that has ended. -/
theorem match_next (hw : WellFormed co b) : ∀ {k : Cont σ Nat (Nat × Nat)} {p : Body σ},
    Place b p k → Awaiting co ls k →
      ∃ t, Matches co b (next k m) t ∧ Reaches₁ cStep (.run .skip (kont co k) m ls) t
  | .stop, _, _, _ => ⟨.returned .done m (Function.update ls co (-1)),
      match_done (by simp), reaches_end⟩
  | .seq q k, _, h, ha => ⟨_, .runs (.here h.of_seq ha), reaches₁_step rfl .refl⟩
  | .loop c q k, _, h, ha => ⟨_, .runs (.here h.of_loop ha), reaches₁_step rfl .refl⟩
  | .inner (line, child) q k, _, h, ha => by
      have hc := ((fits_of_place hw h.of_inner).children child (List.mem_cons_self ..)).2
      have ha' := (awaiting_update (n := -1) hc).mpr ha.2
      exact ⟨_, .runs (.here h.of_inner.behind ha'), reaches_end⟩

/-- `ASYNC_RETURN`. -/
theorem match_exit (hw : WellFormed co b) : ∀ {k : Cont σ Nat (Nat × Nat)} {p : Body σ},
    Place b p k → Awaiting co ls k →
      ∃ t, Matches co b (k.exit m) t ∧
        (kont co k).ret .done m (Function.update ls (current co k) (-1)) = t
  | .stop, _, _, _ => ⟨_, match_done (by simp [current]), rfl⟩
  | .seq _ k, _, h, ha => match_exit hw (k := k) h.of_seq ha
  | .loop _ _ k, _, h, ha => match_exit hw (k := k) h.of_loop ha
  | .inner (line, child) q k, _, h, ha => by
      have hc := ((fits_of_place hw h.of_inner).children child (List.mem_cons_self ..)).2
      exact ⟨_, .runs (.here h.of_inner.behind ((awaiting_update hc).mpr ha.2)), rfl⟩

/-- A condition that fails is reported, and one that holds is passed. -/
theorem match_probe {line : Nat} {c : σ → σ × Bool} {k : Cont σ Nat (Nat × Nat)}
    (h : Place b (.await line c) k) (ha : Awaiting co ls k) (hl : ls (current co k) = line) :
    ∃ t, Matches co b (if (c m).2 then .run .skip k (c m).1
        else .halt (k.report .waiting) (some (.await line c, k)) (c m).1) t ∧
      Reaches₁ cStep (.run (probe c) (kont co k) m ls) t := by
  rcases hc : (c m).2 with _ | _
  · have hblocked : AsyncStatus.blocked ≠ .done := by simp
    obtain ⟨st', hne, hr, hreach⟩ := reaches_pause co (c m).1 ls k hblocked
    have hr' : k.report .waiting = report st' := hr
    refine ⟨.returned st' (c m).1 ls, ?_, reaches₁_step (t := .run (.ret .blocked) (kont co k)
      (c m).1 ls) (by simp [probe, cStep, hc]) ((reaches_step rfl).trans hreach)⟩
    rw [if_neg (by simp), hr']
    exact .halted (.waiting h ha hl) (by simp [hne])
  · refine ⟨.run .skip (kont co k) (c m).1 ls, ?_, reaches₁_step (by simp [probe, cStep, hc]) .refl⟩
    rw [if_pos rfl]
    exact .runs (.here h.behind ha)

/-- The line of a macro is stored before anything else. -/
theorem reaches_setLine {c : Nat} {n : Int} {s : CStmt σ} {K : CKont σ} :
    Reaches₁ cStep (.run (.seq (.setLine c n) s) K m ls)
      (.run s K m (Function.update ls c n)) :=
  reaches₁_step rfl ((reaches_step rfl).tail rfl)

/-- A coroutine that is awaited starts. -/
theorem match_inner (hw : WellFormed co b) {line child : Nat} {p : Body σ}
    {k : Cont σ Nat (Nat × Nat)} (h : Place b (.inner (line, child) p) k)
    (ha : Awaiting co ls k) :
    ∃ t, Matches co b (.run p (.inner (line, child) p k) m) t ∧ Reaches₁ cStep
      (.run (expand (current co k) (.inner (line, child) p)) (kont co k) m ls) t := by
  have fits := fits_of_place hw h
  have hchild := fits.children child (List.mem_cons_self ..)
  let ls' := Function.update (Function.update ls child 0) (current co k) line
  have ha' : Awaiting co ls' (.inner (line, child) p k) :=
    ⟨by simp [ls'], by simpa only [ls', awaiting_update fits.current, awaiting_update hchild.2]⟩
  refine ⟨_, .runs (.here h.inner ha'), ?_⟩
  let call : CStmt σ := .ifNotDone (function child p) (.ret .running)
  have hstart : Reaches₁ cStep (.run (expand (current co k) (.inner (line, child) p)) (kont co k)
      m ls) (.run (.seq (.caseLabel line) call) (kont co k) m ls') :=
    reaches_setLine.trans reaches_setLine
  refine hstart.trans_left (.head (b := .run (.caseLabel line) (.seq call (kont co k)) m ls') rfl
    (.head (b := .run .skip (.seq call (kont co k)) m ls') rfl
      (.head (b := .run call (kont co k) m ls') rfl (.head rfl ?_))))
  exact reaches_start (by simp [ls', hchild.1])

/-- **One step of the program is one or more of the C machine.** -/
theorem respects (hw : WellFormed co b) : Respects step cStep (Matches co b) := by
  intro a₁ a₂ h
  cases h with
  | halted _ _ => rfl
  | runs h =>
      cases h with
      | probing h ha hl => exact match_probe h ha hl
      | @here p k m ls h ha =>
          have fits := fits_of_place hw h
          cases p with
          | skip => exact match_next hw h ha
          | act f => exact ⟨_, .runs (.here h.behind ha), reaches₁_step rfl .refl⟩
          | seq p q => exact ⟨_, .runs (.here h.seqLeft ha), reaches₁_step rfl .refl⟩
          | ite c p q =>
              refine ⟨_, ?_, reaches₁_step rfl .refl⟩
              split
              · exact .runs (.here h.iteThen ha)
              · exact .runs (.here h.iteElse ha)
          | loop c p =>
              refine ⟨_, ?_, reaches₁_step rfl .refl⟩
              split
              · exact .runs (.here h.loop ha)
              · exact .runs (.here h.behind ha)
          | leave =>
              have hbrk : cStep (.run (expand (current co k) .leave) (kont co k) m ls)
                  = some (.run .skip (kont co k.leave) m ls) := by simp [expand, cStep]
              exact ⟨_, .runs (.here h.leave ((awaiting_leave k).mpr ha)),
                reaches₁_step hbrk .refl⟩
          | exit =>
              obtain ⟨t, hm, rfl⟩ := match_exit (m := m) hw h ha
              exact ⟨_, hm, reaches_setLine.tail rfl⟩
          | pause line =>
              have ha' := (awaiting_update (n := line) fits.current).mpr ha
              have hrunning : AsyncStatus.running ≠ .done := by simp
              obtain ⟨st', hne, hr, hreach⟩ := reaches_pause co m
                (Function.update ls (current co k) line) k hrunning
              have hr' : k.report .paused = report st' := hr
              refine ⟨.returned st' m _, ?_, (reaches_setLine.tail rfl).trans_left
                ((reaches_step rfl).trans hreach)⟩
              rw [hr']
              exact .halted (.paused h ha' (by simp)) (by simp [hne])
          | await line c =>
              have ha' := (awaiting_update (n := line) fits.current).mpr ha
              obtain ⟨t, hm, hreach⟩ := match_probe (m := m) h ha' (by simp)
              refine ⟨t, hm, reaches_setLine.trans_left ?_⟩
              exact .head (b := .run (.caseLabel line) (.seq (probe c) (kont co k)) m _) rfl
                (.head (b := .run .skip (.seq (probe c) (kont co k)) m _) rfl
                  (.head rfl hreach.to_reflTransGen))
          | inner l p =>
              obtain ⟨line, child⟩ := l
              exact match_inner hw h ha

/-! ## Invocations -/

/-- A function that finds no label of its line is at its end. -/
theorem eval_over (h : ls co = -1) :
    eval cStep (.run (function co b) .stop m ls)
      = Part.some (.returned .done m (Function.update ls co (-1))) := by
  have hf : (CStmt.seq (.caseLabel 0) (expand co b)).find (ls co)
      (.switch (.seq (asyncEnd co) .stop)) = none := by
    have hn : (expand co b).find (-1) (.switch (.seq (asyncEnd co) .stop)) = none :=
      find_eq_none fun l _ => by omega
    simp [h, CStmt.find, hn]
  refine Part.eq_some_iff.mpr (mem_eval.mpr ⟨?_, rfl⟩)
  refine .head (b := .run (.switchLine co (.seq (.caseLabel 0) (expand co b)))
    (.seq (asyncEnd co) .stop) m ls) rfl ?_
  refine .head (b := .run .skip (.seq (asyncEnd co) .stop) m ls) (by simp [cStep, hf]) ?_
  exact .head rfl (.head rfl (.head rfl (.head rfl (reaches_step rfl))))

/-- Each invocation of the C function is one of the program. -/
theorem invoke_of_returns (hw : WellFormed co b) {rest : Resumption σ Nat (Nat × Nat)}
    {st : AsyncStatus} {m' : σ} {ls' : Lines} (h : Saved co b rest ls)
    (hr : Returns co b ls m st ls' m') :
    ∃ rest', Saved co b rest' ls' ∧ (st = .done ↔ rest' = none) ∧ Resumes rest m st rest' m' := by
  rcases rest with _ | ⟨p, k⟩
  · cases h with
    | ended h =>
        rw [Returns, eval_over h, Part.mem_some_iff] at hr
        obtain ⟨rfl, rfl, rfl⟩ := CState.returned.inj hr
        exact ⟨none, .ended (by simp), by simp, rfl, rfl, rfl⟩
  · obtain ⟨t, hruns, hreach⟩ := reaches_rest (m := m) hw h
    rw [Returns, reaches_eval hreach] at hr
    obtain ⟨s, hm, hs⟩ := tr_eval_rev (respects hw) (.runs hruns) hr
    cases hm with
    | runs hm => cases hm
    | halted hsaved hst => exact ⟨_, hsaved, hst, hs⟩

/-- Each invocation of the program is one of the C function. -/
theorem returns_of_invoke (hw : WellFormed co b) {rest rest' : Resumption σ Nat (Nat × Nat)}
    {st : AsyncStatus} {m' : σ} (h : Saved co b rest ls)
    (hr : Resumes rest m st rest' m') :
    ∃ ls', Saved co b rest' ls' ∧ Returns co b ls m st ls' m' := by
  rcases rest with _ | ⟨p, k⟩
  · obtain ⟨hst, rfl, rfl⟩ := hr
    have hst : st = .done := by
      cases st with
      | done => rfl
      | running => cases hst
      | blocked => cases hst
    cases h with
    | ended h =>
        refine ⟨Function.update ls co (-1), .ended (by simp), ?_⟩
        rw [Returns, eval_over h, Part.mem_some_iff, hst]
  · obtain ⟨t, hruns, hreach⟩ := reaches_rest (m := m) hw h
    obtain ⟨u, hm, hu⟩ := tr_eval (respects hw) (.runs hruns) hr
    rw [← reaches_eval hreach] at hu
    generalize hrep : report st = r at hm
    cases hm with
    | runs hm => cases hm
    | @halted st' _ _ ls' hsaved _ =>
        have hst : st' = st := report_injective hrep.symm
        exact ⟨ls', hsaved, hst ▸ hu⟩

/-- The line is negative exactly when nothing is left. -/
theorem saved_isDone {rest : Resumption σ Nat (Nat × Nat)} (h : Saved co b rest ls) :
    asyncIsDone ls co ↔ rest = none := by
  have hpos : ∀ {k : Cont σ Nat (Nat × Nat)} {n : Nat}, Awaiting co ls k →
      ls (current co k) = n → ∃ n : Nat, ls co = n := by
    intro k
    induction k with
    | stop => exact fun _ h => ⟨_, h⟩
    | seq _ _ ih => exact ih
    | loop _ _ _ ih => exact ih
    | inner l _ k ih => exact fun ha _ => ih ha.2 ha.1
  cases h with
  | start h => simp [asyncIsDone, h]
  | paused _ ha hl =>
      obtain ⟨n, hn⟩ := hpos ha hl
      simp [asyncIsDone, hn]
  | waiting _ ha hl =>
      obtain ⟨n, hn⟩ := hpos ha hl
      simp [asyncIsDone, hn]
  | ended h => simp [asyncIsDone, h]

/-- After an invocation the coroutine is done exactly when that was its report. -/
theorem isDone_last (hw : WellFormed co b) {es : List (Call σ AsyncStatus)} {ls ls' : Lines}
    (hs : Session (Returns co b) ls es ls') : ∀ {rest : Resumption σ Nat (Nat × Nat)},
      Saved co b rest ls →
      (asyncIsDone ls' co ↔ (es = [] ∧ rest = none) ∨ ∃ e ∈ es.getLast?, e.report = .done) := by
  induction hs with
  | nil ls =>
      intro rest h
      simpa using saved_isDone h
  | @cons ls₁ ls₂ ls₃ m m' st es hr hs ih =>
      intro rest h
      obtain ⟨rest', h', hst, -⟩ := invoke_of_returns hw h hr
      rw [ih h']
      rcases es with _ | ⟨e, es⟩
      · simp [hst]
      · simp [List.getLast?_cons_cons]

/--
**A coroutine resumes where it stopped.** A coroutine with the body `b` that has been initialised
is invoked again and again, and the memory changes in any way in between. What it may report,
and what it may leave in the memory each time, is what the program `b` may that keeps all it has
left to do: so for coroutines that await coroutines, to any depth, inside of any loops. It is
done exactly when that was its last report.
-/
theorem coroutine_resumes (hw : WellFormed co b) (h : ls co = 0) :
    (∀ es, (∃ ls', Session (Returns co b) ls es ls')
      ↔ ∃ rest, Session Resumes (some (b, .stop)) es rest) ∧
    ∀ es ls', Session (Returns co b) ls es ls' →
      (asyncIsDone ls' co ↔ ∃ e ∈ es.getLast?, e.report = .done) := by
  have hto : ∀ (ls : Lines) (rest : Resumption σ Nat (Nat × Nat)) (m : σ) (st : AsyncStatus)
      (ls' : Lines) (m' : σ), Saved co b rest ls → Returns co b ls m st ls' m' →
      ∃ rest', Saved co b rest' ls' ∧ Resumes rest m st rest' m' := by
    intro ls rest m st ls' m' hS hr
    obtain ⟨rest', hS', -, hi⟩ := invoke_of_returns hw hS hr
    exact ⟨rest', hS', hi⟩
  have hof : ∀ (rest : Resumption σ Nat (Nat × Nat)) (ls : Lines) (m : σ) (st : AsyncStatus)
      (rest' : Resumption σ Nat (Nat × Nat)) (m' : σ), Saved co b rest ls →
      Resumes rest m st rest' m' → ∃ ls', Saved co b rest' ls' ∧ Returns co b ls m st ls' m' :=
    fun _ _ _ _ _ _ hS hi => returns_of_invoke hw hS hi
  refine ⟨fun es => ⟨fun hs => ?_, fun hs => ?_⟩, fun es ls' hs => ?_⟩
  · obtain ⟨ls', hs⟩ := hs
    obtain ⟨rest, -, hrest⟩ := hs.follow (S := fun ls rest => Saved co b rest ls) hto (.start h)
    exact ⟨rest, hrest⟩
  · obtain ⟨rest, hs⟩ := hs
    obtain ⟨ls', -, hls⟩ := hs.follow (S := Saved co b) hof (.start h)
    exact ⟨ls', hls⟩
  · have := isDone_last hw hs (.start h)
    simpa using this

/-- A coroutine that awaits another one, again and again. -/
def poller : Body Nat :=
  .loop (fun m => (m, true))
    (.seq (.inner (12, 1) (.seq (.act (· + 1)) (.await 5 fun m => (m, m % 3 = 0)))) (.pause 14))

theorem coroutine_resumes_poller :
    (∀ es, (∃ ls', Session (Returns 0 poller) (fun _ => 0) es ls')
      ↔ ∃ rest, Session Resumes (some (poller, .stop)) es rest) ∧
    ∀ es ls', Session (Returns 0 poller) (fun _ => 0) es ls' →
      (asyncIsDone ls' 0 ↔ ∃ e ∈ es.getLast?, e.report = .done) :=
  coroutine_resumes ⟨by simp [poller, lines], by simp [poller, children],
    by simp [poller, Nested, lines, children]⟩ rfl

end VibeRtos.Async
