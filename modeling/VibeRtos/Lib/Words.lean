import Mathlib.Data.List.Basic

/-!
# Texts as words and other characters

A text splits into its maximal runs of word characters and the characters between them. `lex`
is that reading and `unlex` puts the pieces together again; a list of pieces is `Proper` if it
is what some text is read as. `subst` replaces whole words and leaves everything else, and its
result can be read piece by piece.
-/

namespace Words

variable {α : Type}

/-- A word, or a character that belongs to none. -/
inductive Tok (α : Type) where
  | word (w : List α)
  | other (c : α)
  deriving Repr, DecidableEq

/-- The characters of a piece. -/
def Tok.text : Tok α → List α
  | .word w => w
  | .other c => [c]

/-- Read a text; `p` tells the word characters. -/
def lex (p : α → Bool) : List α → List (Tok α)
  | [] => []
  | c :: cs =>
      if p c then
        match lex p cs with
        | .word w :: ts => .word (c :: w) :: ts
        | ts => .word [c] :: ts
      else .other c :: lex p cs

/-- The text of the pieces. -/
def unlex (ts : List (Tok α)) : List α := ts.flatMap Tok.text

/-- The pieces begin with a word. -/
def StartsWord : List (Tok α) → Prop
  | .word _ :: _ => True
  | _ => False

/-- The words are runs of word characters, and no two of them touch. -/
def Proper (p : α → Bool) : List (Tok α) → Prop
  | [] => True
  | .other c :: ts => p c = false ∧ Proper p ts
  | .word w :: ts => w ≠ [] ∧ (∀ c ∈ w, p c = true) ∧ ¬ StartsWord ts ∧ Proper p ts

/-- Replace the words that `f` has a text for. -/
def subst (p : α → Bool) (f : List α → Option (List α)) (text : List α) : List α :=
  (lex p text).flatMap fun
    | .word w => (f w).getD w
    | .other c => [c]

variable {p : α → Bool} {c : α} {cs w v text : List α} {ts ts' : List (Tok α)}
  {f g : List α → Option (List α)}

theorem lex_other (hc : p c = false) : lex p (c :: cs) = .other c :: lex p cs := by
  rw [lex, if_neg (by simp [hc])]

theorem lex_cons_word (hc : p c = true) (h : lex p cs = .word w :: ts) :
    lex p (c :: cs) = .word (c :: w) :: ts := by
  rw [lex, if_pos hc, h]

theorem lex_cons_start (hc : p c = true) (h : ¬ StartsWord (lex p cs)) :
    lex p (c :: cs) = .word [c] :: lex p cs := by
  rw [lex, if_pos hc]
  split
  · rename_i w ts heq
    rw [heq] at h
    exact absurd trivial h
  · rfl

@[simp] theorem unlex_cons (t : Tok α) (ts : List (Tok α)) : unlex (t :: ts) = t.text ++ unlex ts :=
  rfl

theorem unlex_lex (p : α → Bool) (cs : List α) : unlex (lex p cs) = cs := by
  induction cs with
  | nil => rfl
  | cons c cs ih =>
      by_cases hc : p c = true
      · cases hl : lex p cs with
        | nil =>
            rw [lex_cons_start hc (by rw [hl]; exact id), unlex_cons, ih]
            rfl
        | cons t ts =>
            cases t with
            | word w =>
                rw [lex_cons_word hc hl]
                rw [hl] at ih
                exact congrArg (c :: ·) ih
            | other d =>
                rw [lex_cons_start hc (by rw [hl]; exact id), unlex_cons, ih]
                rfl
      · rw [lex_other (by simpa using hc), unlex_cons, ih]
        rfl

theorem lex_proper (p : α → Bool) (cs : List α) : Proper p (lex p cs) := by
  induction cs with
  | nil => trivial
  | cons c cs ih =>
      by_cases hc : p c = true
      · by_cases hs : StartsWord (lex p cs)
        · cases hl : lex p cs with
          | nil => exact absurd hs (by rw [hl]; exact id)
          | cons t ts =>
              cases t with
              | word w =>
                  rw [hl] at ih
                  obtain ⟨-, hw, hts, hrest⟩ := ih
                  rw [lex_cons_word hc hl]
                  refine ⟨by simp, fun d hd => ?_, hts, hrest⟩
                  rcases List.mem_cons.mp hd with rfl | hd
                  · exact hc
                  · exact hw d hd
              | other d => exact absurd hs (by rw [hl]; exact id)
        · rw [lex_cons_start hc hs]
          refine ⟨by simp, fun d hd => ?_, hs, ih⟩
          rw [List.mem_singleton.mp hd]
          exact hc
      · rw [lex_other (by simpa using hc)]
        exact ⟨by simpa using hc, ih⟩

/-- A character between words divides a text. -/
theorem lex_append_other (hc : p c = false) (us vs : List α) :
    lex p (us ++ c :: vs) = lex p us ++ .other c :: lex p vs := by
  induction us with
  | nil => exact lex_other hc
  | cons u us ih =>
      by_cases hu : p u = true
      · by_cases hs : StartsWord (lex p us)
        · cases hl : lex p us with
          | nil => exact absurd hs (by rw [hl]; exact id)
          | cons t ts =>
              cases t with
              | word w =>
                  rw [hl] at ih
                  rw [List.cons_append, lex_cons_word hu ih, lex_cons_word hu hl]
                  rfl
              | other d => exact absurd hs (by rw [hl]; exact id)
        · have hs' : ¬ StartsWord (lex p us ++ .other c :: lex p vs) := by
            cases hl : lex p us with
            | nil => exact id
            | cons t ts =>
                cases t with
                | word w => exact absurd (by rw [hl]; trivial) hs
                | other d => exact id
          rw [List.cons_append, lex_cons_start hu (ih ▸ hs'), lex_cons_start hu hs, ih]
          rfl
      · have hu' : p u = false := by simpa using hu
        rw [List.cons_append, lex_other hu', lex_other hu', ih]
        rfl

/-- A run of word characters is read as one word. -/
theorem lex_word (hw : w ≠ []) (hp : ∀ c ∈ w, p c = true) : lex p w = [.word w] := by
  induction w with
  | nil => exact absurd rfl hw
  | cons c w ih =>
      have hc := hp c List.mem_cons_self
      cases w with
      | nil => rw [lex_cons_start hc (by exact id)]; rfl
      | cons d w =>
          exact lex_cons_word hc (ih (by simp) fun e he => hp e (List.mem_cons_of_mem _ he))

/-- A substituted text is read piece by piece. -/
theorem lex_flatMap : ∀ ts : List (Tok α), Proper p ts →
    lex p (ts.flatMap fun | .word w => (f w).getD w | .other c => [c])
      = ts.flatMap fun
        | .word w => lex p ((f w).getD w)
        | .other c => [.other c]
  | [], _ => rfl
  | .other c :: ts, h => by
      rw [List.flatMap_cons, List.flatMap_cons, List.singleton_append, List.singleton_append,
        lex_other h.1, lex_flatMap ts h.2]
  | .word w :: ts, h => by
      obtain ⟨-, -, hstart, hrest⟩ := h
      cases ts with
      | nil => simp
      | cons t ts =>
          cases t with
          | word w' => exact absurd trivial hstart
          | other c =>
              have ih := lex_flatMap (.other c :: ts) hrest
              rw [List.flatMap_cons, List.singleton_append, lex_other hrest.1, List.flatMap_cons,
                List.singleton_append, List.cons.injEq] at ih
              rw [List.flatMap_cons, List.flatMap_cons, List.flatMap_cons, List.flatMap_cons,
                List.singleton_append, List.singleton_append, lex_append_other hrest.1, ih.2]

theorem lex_subst (f : List α → Option (List α)) (text : List α) :
    lex p (subst p f text) = (lex p text).flatMap fun
      | .word w => lex p ((f w).getD w)
      | .other c => [.other c] :=
  lex_flatMap _ (lex_proper p text)

theorem Proper.word_of_mem : ∀ {ts : List (Tok α)}, Proper p ts → ∀ {w}, Tok.word w ∈ ts →
    w ≠ [] ∧ ∀ c ∈ w, p c = true
  | .other c :: ts, h, w, hw => by
      rcases List.mem_cons.mp hw with heq | hw
      · exact absurd heq (by simp)
      · exact Proper.word_of_mem h.2 hw
  | .word u :: ts, h, w, hw => by
      rcases List.mem_cons.mp hw with heq | hw
      · obtain rfl : w = u := by simpa using heq
        exact ⟨h.1, h.2.1⟩
      · exact Proper.word_of_mem h.2.2.2 hw

/-- Only what `f` does with the words of the text matters. -/
theorem subst_congr (h : ∀ w, Tok.word w ∈ lex p text → f w = g w) :
    subst p f text = subst p g text := by
  refine List.flatMap_congr fun t ht => ?_
  cases t with
  | word w => simp only [h w ht]
  | other c => rfl

theorem subst_none (p : α → Bool) (text : List α) : subst p (fun _ => none) text = text := by
  have hsame : (fun t : Tok α => match t with
      | .word w => ((none : Option (List α))).getD w
      | .other c => [c]) = Tok.text := by
    funext t
    cases t <;> rfl
  rw [subst, hsame]
  exact unlex_lex p text

/-- Substituting twice is substituting in what was put in for each word. -/
theorem subst_subst (f g : List α → Option (List α)) (text : List α) :
    subst p g (subst p f text) = (lex p text).flatMap fun
      | .word w => subst p g ((f w).getD w)
      | .other c => [c] := by
  rw [subst, lex_subst, List.flatMap_assoc]
  refine List.flatMap_congr fun t _ => ?_
  cases t with
  | word w => rfl
  | other c => rfl

/-- A text without a word that `g` replaces. -/
theorem subst_id (h : ∀ w, Tok.word w ∈ lex p text → g w = none) : subst p g text = text :=
  (subst_congr h).trans (subst_none p text)

theorem subst_word (hw : w ≠ []) (hp : ∀ c ∈ w, p c = true) : subst p g w = (g w).getD w := by
  rw [subst, lex_word hw hp]
  simp

/-- A second substitution that finds nothing in what the first one put in. -/
theorem subst_subst_fixed (h : ∀ w v, f w = some v → subst p g v = v) :
    subst p g (subst p f text) = subst p (fun w => (f w).or (g w)) text := by
  rw [subst_subst]
  refine List.flatMap_congr fun t ht => ?_
  cases t with
  | other c => rfl
  | word w =>
      obtain ⟨hw, hp⟩ := (lex_proper p text).word_of_mem ht
      change subst p g ((f w).getD w) = ((f w).or (g w)).getD w
      cases hf : f w with
      | none => rw [Option.getD_none, Option.none_or, subst_word hw hp]
      | some v => rw [Option.getD_some, Option.some_or, Option.getD_some, h w v hf]

end Words
