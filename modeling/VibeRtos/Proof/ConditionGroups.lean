import VibeRtos.Features.Conditions

/-!
# The condition stack against the C preprocessor

A well-nested file is a `Block`: lines and groups, a group with its opening, the body behind it
and the branches up to its `#endif`. `Block.process` is the preprocessor on that structure: of
each group that it reads it processes the first branch whose condition is true, or the `#else`
branch when none was, and it skips the others with everything in them.

The condition stack runs on the flat lines. Under any stack a block leaves the frames as it
found them, so one induction over the nesting compares the two; what goes from one branch of a
group to the next is `hadTrue` of the frame on top.
-/

namespace VibeRtos.Features

/-- The first line of a group. -/
inductive Opening where
  | ifdef (name : String)
  | ifndef (name : String)
  | if_ (condition : String)
  deriving Repr, DecidableEq

mutual

/-- A well-nested sequence of lines. -/
inductive Block (L : Type) where
  | nil
  | line (l : L) (rest : Block L)
  | group (opening : Opening) (body : Block L) (branches : Branches L) (rest : Block L)

/-- The rest of a group, behind the body of a branch. -/
inductive Branches (L : Type) where
  | endif
  | else_ (body : Block L)
  | elif (condition : String) (body : Block L) (more : Branches L)

end

/-- The directive that opens the group. -/
def Opening.directive {L : Type} : Opening → Directive L
  | .ifdef name => .ifdef name
  | .ifndef name => .ifndef name
  | .if_ condition => .if_ condition

mutual

/-- The file as the parser reads it. -/
def Block.flatten {L : Type} : Block L → List (Directive L)
  | .nil => []
  | .line l rest => .line l :: rest.flatten
  | .group opening body branches rest =>
      opening.directive :: (body.flatten ++ (branches.flatten ++ rest.flatten))

def Branches.flatten {L : Type} : Branches L → List (Directive L)
  | .endif => [.endif]
  | .else_ body => .else_ :: (body.flatten ++ [.endif])
  | .elif condition body more => .elif condition :: (body.flatten ++ more.flatten)

end

/-- A line and whether it is processed. -/
structure Mark (L : Type) where
  lineno : Nat
  line : L
  active : Bool
  deriving Repr, DecidableEq

mutual

/-- The lines of a block that is skipped, from line `n` on. -/
def Block.skip {L : Type} (n : Nat) : Block L → List (Mark L)
  | .nil => []
  | .line l rest => ⟨n, l, false⟩ :: rest.skip (n + 1)
  | .group _ body branches rest =>
      body.skip (n + 1) ++ (branches.skip (n + 1 + body.flatten.length) ++
        rest.skip (n + 1 + body.flatten.length + branches.flatten.length))

def Branches.skip {L : Type} (n : Nat) : Branches L → List (Mark L)
  | .endif => []
  | .else_ body => body.skip (n + 1)
  | .elif _ body more => body.skip (n + 1) ++ more.skip (n + 1 + body.flatten.length)

end

section Reference

variable {W L : Type} (o : Symbols W L)

/-- Whether the condition that opens a group is true at line `n`. -/
def Opening.holds (n : Nat) (w : W) : Opening → Bool
  | .ifdef name => o.defined n w name
  | .ifndef name => !o.defined n w name
  | .if_ condition => o.eval n w condition

mutual

/-- The preprocessor on a block that it reads from line `n` on: the marks of its lines, and the
symbols behind it. -/
def Block.process (n : Nat) (w : W) : Block L → List (Mark L) × W
  | .nil => ([], w)
  | .line l rest =>
      let (marks, w') := rest.process (n + 1) (o.act n w l)
      (⟨n, l, true⟩ :: marks, w')
  | .group opening body branches rest =>
      let k := n + 1 + body.flatten.length
      let (marks, w₁) :=
        if opening.holds o n w then
          let (marks, w₁) := body.process (n + 1) w
          (marks ++ branches.skip k, w₁)
        else
          let (marks, w₁) := branches.process k w
          (body.skip (n + 1) ++ marks, w₁)
      let (marks', w₂) := rest.process (k + branches.flatten.length) w₁
      (marks ++ marks', w₂)

/-- The branches of a group none of whose earlier conditions was true. -/
def Branches.process (n : Nat) (w : W) : Branches L → List (Mark L) × W
  | .endif => ([], w)
  | .else_ body => body.process (n + 1) w
  | .elif condition body more =>
      let k := n + 1 + body.flatten.length
      if o.eval n w condition then
        let (marks, w₁) := body.process (n + 1) w
        (marks ++ more.skip k, w₁)
      else
        let (marks, w₁) := more.process k w
        (body.skip (n + 1) ++ marks, w₁)

end

end Reference

/-- What a line of the loop is compared by. -/
def Seen.mark {L : Type} (s : Seen L) : Mark L := ⟨s.lineno, s.line, s.active⟩

section Loop

variable {W L : Type} (o : Symbols W L)

/-- From line `n` with the symbols `w` and the frames `stack`, the loop comes past these lines
with the marks `marks` and is then left with `w'` and `stack'`. -/
def Runs (lines : List (Directive L)) (n : Nat) (w : W) (stack : ConditionStack)
    (marks : List (Mark L)) (w' : W) (stack' : ConditionStack) : Prop :=
  ∀ seen, ∃ more, more.map Seen.mark = marks ∧
    lines.foldl (parseLine o) ⟨n, w, stack, seen⟩ =
      ⟨n + lines.length, w', stack', seen ++ more⟩

variable {o} {n : Nat} {w w₁ w₂ : W} {stack stack₁ stack₂ : ConditionStack}
  {lines lines' : List (Directive L)} {marks marks' : List (Mark L)} {d : Directive L}

theorem Runs.nil : Runs o [] n w stack [] w stack := by
  intro seen
  exact ⟨[], rfl, by simp⟩

theorem Runs.append (h : Runs o lines n w stack marks w₁ stack₁)
    (h' : Runs o lines' (n + lines.length) w₁ stack₁ marks' w₂ stack₂) :
    Runs o (lines ++ lines') n w stack (marks ++ marks') w₂ stack₂ := by
  intro seen
  obtain ⟨more, hmore, hrun⟩ := h seen
  obtain ⟨more', hmore', hrun'⟩ := h' (seen ++ more)
  refine ⟨more ++ more', by rw [List.map_append, hmore, hmore'], ?_⟩
  rw [List.foldl_append, hrun, hrun', List.length_append, Nat.add_assoc, List.append_assoc]

/-- A line that only changes the frames, and what follows it. -/
theorem Runs.cons (hd : ∀ seen, parseLine o ⟨n, w, stack, seen⟩ d = ⟨n + 1, w, stack₁, seen⟩)
    (h : Runs o lines (n + 1) w stack₁ marks w₂ stack₂) :
    Runs o (d :: lines) n w stack marks w₂ stack₂ := by
  intro seen
  obtain ⟨more, hmore, hrun⟩ := h seen
  refine ⟨more, hmore, ?_⟩
  rw [List.foldl_cons, hd, hrun, List.length_cons, Nat.add_assoc, Nat.add_comm 1]

/-- A plain line, and what follows it. -/
theorem Runs.line (l : L)
    (h : Runs o lines (n + 1) (if stack.active then o.act n w l else w) stack marks w₂ stack₂) :
    Runs o (.line l :: lines) n w stack (⟨n, l, stack.active⟩ :: marks) w₂ stack₂ := by
  intro seen
  obtain ⟨more, hmore, hrun⟩ := h (seen ++ [⟨n, l, stack.active, stack.currentCondition⟩])
  refine ⟨⟨n, l, stack.active, stack.currentCondition⟩ :: more, ?_, ?_⟩
  · rw [List.map_cons, hmore, Seen.mark]
  · rw [List.foldl_cons, parseLine, hrun, List.length_cons, List.append_assoc, Nat.add_assoc,
      Nat.add_comm 1]
    rfl

theorem Runs.endif {frame : Frame} : Runs o [.endif] n w (frame :: stack) [] w stack := by
  refine .cons ?_ .nil
  intro seen
  rfl

@[simp] theorem active_cons (frame : Frame) :
    ConditionStack.active (frame :: stack) = (frame.taken && stack.active) := rfl

/-- The first line of a group pushes one frame; both its flags say whether the condition
holds. -/
theorem parseLine_opening (opening : Opening) (n : Nat) (w : W) (stack : ConditionStack) :
    ∃ frame : Frame, frame.taken = opening.holds o n w ∧ frame.hadTrue = opening.holds o n w ∧
      ∀ seen, parseLine o ⟨n, w, stack, seen⟩ opening.directive =
        ⟨n + 1, w, frame :: stack, seen⟩ := by
  cases opening with
  | ifdef name =>
      exact ⟨⟨"defined(" ++ name ++ ")", o.defined n w name, o.defined n w name, false⟩,
        rfl, rfl, fun _ => rfl⟩
  | ifndef name =>
      exact ⟨⟨"!defined(" ++ name ++ ")", !o.defined n w name, !o.defined n w name,
        isGuardName name⟩, rfl, rfl, fun _ => rfl⟩
  | if_ condition =>
      exact ⟨⟨condition, o.eval n w condition, o.eval n w condition, false⟩,
        rfl, rfl, fun _ => rfl⟩

mutual

/-- Under an inactive stack every line of a block is skipped, whatever its conditions. -/
theorem Block.runs_skip : ∀ (b : Block L) (n : Nat) (stack : ConditionStack),
    stack.active = false → Runs o b.flatten n w stack (b.skip n) w stack
  | .nil, n, stack, _ => by
      rw [Block.flatten, Block.skip]
      exact .nil
  | .line l rest, n, stack, h => by
      rw [Block.flatten, Block.skip, ← h]
      refine .line l ?_
      rw [if_neg (by rw [h]; exact Bool.false_ne_true)]
      exact rest.runs_skip (n + 1) stack h
  | .group opening body branches rest, n, stack, h => by
      obtain ⟨frame, htaken, hhad, hopen⟩ := parseLine_opening (o := o) opening n w stack
      have hbody := body.runs_skip (n + 1) (frame :: stack) (by simp [h])
      have hbranches := branches.runs_skip (n + 1 + body.flatten.length) frame stack (by simp [h])
      have hrest := rest.runs_skip (n + 1 + body.flatten.length + branches.flatten.length) stack h
      rw [Block.flatten, Block.skip]
      exact .cons hopen (hbody.append (hbranches.append hrest))

/-- The branches of a group are skipped when the group is or an earlier branch was taken. -/
theorem Branches.runs_skip : ∀ (b : Branches L) (n : Nat) (frame : Frame)
    (stack : ConditionStack), (!frame.hadTrue && stack.active) = false →
    Runs o b.flatten n w (frame :: stack) (b.skip n) w stack
  | .endif, n, frame, stack, _ => by
      rw [Branches.flatten, Branches.skip]
      exact .endif
  | .else_ body, n, frame, stack, h => by
      have hbody := body.runs_skip (n + 1)
        ({ frame with condition := "else", taken := !frame.hadTrue } :: stack) h
      rw [Branches.flatten, Branches.skip, ← List.append_nil (body.skip (n + 1))]
      exact .cons (fun _ => rfl) (hbody.append .endif)
  | .elif condition body more, n, frame, stack, h => by
      have hbody := body.runs_skip (n + 1)
        (ConditionStack.handleElif (frame :: stack) (o.eval n w) condition)
        (by simp only [ConditionStack.handleElif, active_cons]; grind)
      have hmore := more.runs_skip (n + 1 + body.flatten.length)
        ⟨condition, !frame.hadTrue && o.eval n w condition,
          frame.hadTrue || (!frame.hadTrue && o.eval n w condition), frame.isGuard⟩ stack
        (by simp only; grind)
      rw [Branches.flatten, Branches.skip]
      exact .cons (fun _ => rfl) (hbody.append hmore)

end

mutual

/-- Under an active stack the loop comes past a block as the preprocessor does. -/
theorem Block.runs_process : ∀ (b : Block L) (n : Nat) (w : W) (stack : ConditionStack),
    stack.active = true →
    Runs o b.flatten n w stack (b.process o n w).1 (b.process o n w).2 stack
  | .nil, n, w, stack, _ => by
      rw [Block.flatten, Block.process]
      exact .nil
  | .line l rest, n, w, stack, h => by
      have hmark : (⟨n, l, true⟩ : Mark L) = ⟨n, l, stack.active⟩ := by rw [h]
      rw [Block.flatten, Block.process, hmark]
      refine .line l ?_
      rw [if_pos h]
      exact rest.runs_process (n + 1) (o.act n w l) stack h
  | .group opening body branches rest, n, w, stack, h => by
      obtain ⟨frame, htaken, hhad, hopen⟩ := parseLine_opening (o := o) opening n w stack
      rw [Block.flatten, Block.process]
      cases hc : opening.holds o n w with
      | true =>
          have hbody := body.runs_process (n + 1) w (frame :: stack)
            (by rw [active_cons, htaken, hc, h]; rfl)
          have hbranches := branches.runs_skip (o := o) (w := (body.process o (n + 1) w).2)
            (n + 1 + body.flatten.length) frame stack (by rw [hhad, hc]; rfl)
          have hrest := rest.runs_process
            (n + 1 + body.flatten.length + branches.flatten.length)
            (body.process o (n + 1) w).2 stack h
          simp only [if_true, List.append_assoc]
          exact .cons hopen (hbody.append (hbranches.append hrest))
      | false =>
          have hbody := body.runs_skip (o := o) (w := w) (n + 1) (frame :: stack)
            (by rw [active_cons, htaken, hc]; rfl)
          have hbranches := branches.runs_process (n + 1 + body.flatten.length) w frame stack h
            (by rw [hhad, hc])
          have hrest := rest.runs_process
            (n + 1 + body.flatten.length + branches.flatten.length)
            (branches.process o (n + 1 + body.flatten.length) w).2 stack h
          simp only [Bool.false_eq_true, if_false, List.append_assoc]
          exact .cons hopen (hbody.append (hbranches.append hrest))

/-- The same of the branches of a group that is read, while no earlier branch was taken. -/
theorem Branches.runs_process : ∀ (b : Branches L) (n : Nat) (w : W) (frame : Frame)
    (stack : ConditionStack), stack.active = true → frame.hadTrue = false →
    Runs o b.flatten n w (frame :: stack) (b.process o n w).1 (b.process o n w).2 stack
  | .endif, n, w, frame, stack, _, _ => by
      rw [Branches.flatten, Branches.process]
      exact .endif
  | .else_ body, n, w, frame, stack, h, hhad => by
      have hbody := body.runs_process (n + 1) w
        ({ frame with condition := "else", taken := !frame.hadTrue } :: stack)
        (by simp [h, hhad])
      rw [Branches.flatten, Branches.process, ← List.append_nil (body.process o (n + 1) w).1]
      exact .cons (fun _ => rfl) (hbody.append .endif)
  | .elif condition body more, n, w, frame, stack, h, hhad => by
      rw [Branches.flatten, Branches.process]
      have hline : ∀ seen, parseLine o ⟨n, w, frame :: stack, seen⟩ (.elif condition) =
          ⟨n + 1, w, ⟨condition, o.eval n w condition, o.eval n w condition, frame.isGuard⟩ ::
            stack, seen⟩ := by
        intro seen
        simp only [parseLine, ConditionStack.handleElif, hhad, Bool.not_false, Bool.true_and,
          Bool.false_or]
      cases hc : o.eval n w condition with
      | true =>
          have hbody := body.runs_process (n + 1) w
            (⟨condition, true, true, frame.isGuard⟩ :: stack) (by simp [h])
          have hmore := more.runs_skip (o := o) (w := (body.process o (n + 1) w).2)
            (n + 1 + body.flatten.length) ⟨condition, true, true, frame.isGuard⟩ stack rfl
          rw [hc] at hline
          simp only [if_true]
          exact .cons hline (hbody.append hmore)
      | false =>
          have hbody := body.runs_skip (o := o) (w := w) (n + 1)
            (⟨condition, false, false, frame.isGuard⟩ :: stack) rfl
          have hmore := more.runs_process (n + 1 + body.flatten.length) w
            ⟨condition, false, false, frame.isGuard⟩ stack h rfl
          rw [hc] at hline
          simp only [Bool.false_eq_true, if_false]
          exact .cons hline (hbody.append hmore)

end

end Loop

/-- **The condition stack is the C preprocessor's choice of branches.** On every well-nested
file and for all answers to its conditions, the loop comes past each line with `active` true
exactly where the preprocessor processes the line, has done to the symbols what the
preprocessor has, and ends with an empty stack. -/
theorem parseFile_refines {W L : Type} (o : Symbols W L) (w : W) (b : Block L) :
    (parseFile o w b.flatten).seen.map Seen.mark = (b.process o 1 w).1 ∧
      (parseFile o w b.flatten).world = (b.process o 1 w).2 ∧
      (parseFile o w b.flatten).cond = [] := by
  obtain ⟨more, hmore, hrun⟩ := b.runs_process (o := o) 1 w [] rfl []
  rw [parseFile, hrun]
  exact ⟨hmore, rfl, rfl⟩

end VibeRtos.Features
