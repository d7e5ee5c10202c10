import VibeRtos.Proof.FeatureText

/-!
# The passes as sweeps

A pass of the evaluator is a sweep over the symbol table (`evalPass_table`), and the third pass,
which ends when no value changes, comes to as many sweeps as it has iterations
(`evalSweeps_spec`). `evaluateAll_last` is what is left of that for a last definition: its value
in the last of the sweeps, or that of the second pass if it is a literal.
-/

namespace VibeRtos.Features

open Words Sweeps

variable {other : Text → Option (Option Int)} {sel : MacroEntry → Bool} {sy : SymbolTable}
  {m m' : MacroEntry} {ms ms' a b : List MacroEntry} {σ : Table Text ℤ} {name : Text} {v : Int}
  {ds pre post : List Define} {d : Define} {n : Nat}

/-! ## One entry -/

theorem get_set (sy : SymbolTable) (name : Text) (v : Int) :
    (sy.set name v).get = put name (some v) sy.get := by
  funext y
  rw [put_apply]
  induction sy with
  | nil => by_cases hy : name = y <;> simp [SymbolTable.set, SymbolTable.get, hy]
  | cons p sy ih =>
      obtain ⟨k, u⟩ := p
      rw [SymbolTable.set]
      by_cases hk : k = name
      · subst hk
        by_cases hy : k = y <;> simp [SymbolTable.get, hy]
      · rw [if_neg hk, SymbolTable.get, SymbolTable.get]
        by_cases hy : k = y
        · subst hy
          rw [if_pos rfl, if_pos rfl, if_neg (Ne.symm hk), Option.none_or]
        · rw [if_neg hy, if_neg hy, ih]

/-- The part of a table that is about identifiers. -/
def idents (σ : Table Text ℤ) : Table Text ℤ := fun w => if isIdent w then σ w else none

theorem idents_named (σ : Table Text ℤ) : Named (idents σ) := by
  intro w v hv
  unfold idents at hv
  split at hv
  · assumption
  · exact absurd hv (by simp)

theorem Named.idents (h : Named σ) : idents σ = σ := by
  funext w
  unfold Features.idents
  split
  · rfl
  · rename_i hw
    exact (h.none_of (by simpa using hw)).symm

/-- An entry as the sweeps see it, if it is selected. -/
def entryOf (other : Text → Option (Option Int)) (sel : MacroEntry → Bool) (m : MacroEntry) :
    Entry Text ℤ :=
  ⟨m.name, fun σ => if sel m then evalBody other (idents σ) m.rawValue else none⟩

theorem Named.entryOf_eval (h : Named σ) : (entryOf other sel m).eval σ
    = if sel m then evalBody other σ m.rawValue else none := by
  simp only [entryOf, h.idents]

/-- What the parser recorded of an entry. -/
def MacroEntry.parsed (m : MacroEntry) : MacroEntry :=
  { m with evaluatedValue := none, comment := [] }

/-- The name is an identifier, and there is a body. -/
def MacroEntry.Valued (m : MacroEntry) : Prop := isIdent m.name = true ∧ m.rawValue ≠ []

theorem Named.store (h : Named σ) (hm : m.Valued) : Named ((entryOf other sel m).store σ) :=
  Holds.store (P := fun w _ => isIdent w = true) h fun _ _ => hm.1

theorem Named.sweep (h : Named σ) (hms : ∀ m ∈ ms, m.Valued) :
    Named (sweep (ms.map (entryOf other sel)) σ) := by
  refine sweep_invariant (I := Named) (fun e he σ hσ => ?_) h
  obtain ⟨m, hm, rfl⟩ := List.mem_map.mp he
  exact hσ.store (hms m hm)

theorem evalEntry_spec (hm : m.Valued) (h : Named sy.get) :
    (evalEntry other sy m).1.get = put m.name (evalBody other sy.get m.rawValue) sy.get
      ∧ (evalEntry other sy m).2.parsed = m.parsed
      ∧ (evalEntry other sy m).2.evaluatedValue = evalBody other sy.get m.rawValue := by
  have hval := evalExpr_eq other h hm.2
  unfold evalEntry
  rw [if_neg hm.2]
  cases hexpr : evalExpr other sy m.rawValue with
  | mk val comment =>
      obtain rfl : val = evalBody other sy.get m.rawValue := by rw [← hval, hexpr]
      simp only
      cases evalBody other sy.get m.rawValue with
      | none => exact ⟨rfl, rfl, rfl⟩
      | some v => exact ⟨get_set sy m.name v, rfl, rfl⟩

/-- The value of a selected entry. -/
def valueIf (sel : MacroEntry → Bool) (m : MacroEntry) : Option Int :=
  if sel m then m.evaluatedValue else none

/-- The selection goes by what the parser recorded. -/
def OfParsed (sel : MacroEntry → Bool) : Prop := ∀ m, sel m = sel m.parsed

theorem OfParsed.eq (hsel : OfParsed sel) (h : m'.parsed = m.parsed) : sel m' = sel m := by
  rw [hsel m', h, ← hsel m]

/-- What a pass does with one entry. -/
def passEntry (other : Text → Option (Option Int)) (sel : MacroEntry → Bool) (sy : SymbolTable)
    (m : MacroEntry) : SymbolTable × MacroEntry :=
  if sel m then evalEntry other sy m else (sy, m)

section Passes

variable (other) (sel)

theorem passEntry_spec (hm : m.Valued) (h : Named sy.get) :
    (passEntry other sel sy m).1.get = (entryOf other sel m).store sy.get
      ∧ (passEntry other sel sy m).2.parsed = m.parsed
      ∧ (passEntry other sel sy m).2.evaluatedValue
        = if sel m then evalBody other sy.get m.rawValue else m.evaluatedValue := by
  unfold passEntry Entry.store entryOf
  simp only [h.idents]
  split
  · exact evalEntry_spec hm h
  · exact ⟨rfl, rfl, rfl⟩

/-! ## One pass -/

theorem evalPass_cons (sy : SymbolTable) (m : MacroEntry)
    (ms : List MacroEntry) : evalPass other sel sy (m :: ms)
      = ((evalPass other sel (passEntry other sel sy m).1 ms).1,
        (passEntry other sel sy m).2 :: (evalPass other sel (passEntry other sel sy m).1 ms).2) :=
  rfl

theorem passEntry_named (hm : m.Valued) (h : Named sy.get) :
    Named (passEntry other sel sy m).1.get := by
  rw [(passEntry_spec other sel hm h).1]
  exact h.store hm

/-- A pass is a sweep. -/
theorem evalPass_table (hms : ∀ m ∈ ms, m.Valued) (h : Named sy.get) :
    (evalPass other sel sy ms).1.get = sweep (ms.map (entryOf other sel)) sy.get := by
  induction ms generalizing sy with
  | nil => rfl
  | cons m ms ih =>
      have hm := hms m List.mem_cons_self
      have hms' := fun m hm => hms m (List.mem_cons_of_mem _ hm)
      rw [evalPass_cons, ih hms' (passEntry_named other sel hm h),
        (passEntry_spec other sel hm h).1]
      rfl

theorem evalPass_parsed (hms : ∀ m ∈ ms, m.Valued) (h : Named sy.get) :
    (evalPass other sel sy ms).2.map MacroEntry.parsed = ms.map MacroEntry.parsed := by
  induction ms generalizing sy with
  | nil => rfl
  | cons m ms ih =>
      have hm := hms m List.mem_cons_self
      have hms' := fun m hm => hms m (List.mem_cons_of_mem _ hm)
      rw [evalPass_cons, List.map_cons, List.map_cons, (passEntry_spec other sel hm h).2.1,
        ih hms' (passEntry_named other sel hm h)]

/-- The values of the selected entries are those of the sweep. -/
theorem evalPass_values (hsel : OfParsed sel) (hms : ∀ m ∈ ms, m.Valued) (h : Named sy.get) :
    (evalPass other sel sy ms).2.map (valueIf sel)
      = values (ms.map (entryOf other sel)) sy.get := by
  induction ms generalizing sy with
  | nil => rfl
  | cons m ms ih =>
      have hm := hms m List.mem_cons_self
      have hms' := fun m hm => hms m (List.mem_cons_of_mem _ hm)
      obtain ⟨htable, hparsed, hvalue⟩ := passEntry_spec other sel hm h
      rw [evalPass_cons, List.map_cons, List.map_cons, values, ← htable,
        ih hms' (passEntry_named other sel hm h), valueIf, hsel.eq hparsed, hvalue, h.entryOf_eval]
      split <;> rfl

/-- And the other entries keep theirs. -/
theorem evalPass_others (hsel : OfParsed sel) (hms : ∀ m ∈ ms, m.Valued) (h : Named sy.get) :
    (evalPass other sel sy ms).2.map (valueIf fun m => !sel m)
      = ms.map (valueIf fun m => !sel m) := by
  induction ms generalizing sy with
  | nil => rfl
  | cons m ms ih =>
      have hm := hms m List.mem_cons_self
      have hms' := fun m hm => hms m (List.mem_cons_of_mem _ hm)
      obtain ⟨-, hparsed, hvalue⟩ := passEntry_spec other sel hm h
      rw [evalPass_cons, List.map_cons, List.map_cons,
        ih hms' (passEntry_named other sel hm h), valueIf, valueIf, hsel.eq hparsed, hvalue]
      cases sel m <;> rfl

/-- What a pass does with an entry in the middle. -/
theorem evalPass_split (hms : ∀ e ∈ a ++ m :: b, e.Valued) (h : Named sy.get) :
    ∃ a' m' b' σ, (evalPass other sel sy (a ++ m :: b)).2 = a' ++ m' :: b'
      ∧ a'.length = a.length ∧ Named σ
      ∧ m'.evaluatedValue = if sel m then evalBody other σ m.rawValue else m.evaluatedValue := by
  induction a generalizing sy with
  | nil =>
      have hm := hms m (by simp)
      exact ⟨[], _, _, _, rfl, rfl, h, (passEntry_spec other sel hm h).2.2⟩
  | cons e a ih =>
      have he := hms e (by simp)
      obtain ⟨a', m', b', σ, hsplit, hlen, hσ, hval⟩ :=
        ih (fun m hm => hms m (List.mem_cons_of_mem _ hm)) (passEntry_named other sel he h)
      refine ⟨(passEntry other sel sy e).2 :: a', m', b', σ, ?_, congrArg Nat.succ hlen, hσ, hval⟩
      rw [List.cons_append, evalPass_cons, hsplit]
      rfl

end Passes

/-! ## The third pass -/

theorem isLate_parsed : OfParsed isLate := fun _ => rfl

/-- All values are the same if those of the selected entries are, and those of the others. -/
theorem values_ext (sel : MacroEntry → Bool) (hsel : OfParsed sel)
    (hp : ms'.map MacroEntry.parsed = ms.map MacroEntry.parsed)
    (ho : ms'.map (valueIf fun m => !sel m) = ms.map (valueIf fun m => !sel m)) :
    ms'.map (·.evaluatedValue) = ms.map (·.evaluatedValue)
      ↔ ms'.map (valueIf sel) = ms.map (valueIf sel) := by
  induction ms' generalizing ms with
  | nil =>
      cases ms with
      | nil => simp
      | cons m ms => exact absurd hp (by simp)
  | cons m' ms' ih =>
      cases ms with
      | nil => exact absurd hp (by simp)
      | cons m ms =>
          rw [List.map_cons, List.map_cons, List.cons.injEq] at hp ho
          simp only [List.map_cons, List.cons.injEq, ih hp.2 ho.2]
          refine and_congr_left fun _ => ?_
          have hother := ho.1
          simp only [valueIf, hsel.eq hp.1] at hother ⊢
          cases hm : sel m with
          | true => simp
          | false => simpa [hm] using hother

theorem entryOf_parsed (hsel : OfParsed sel) :
    entryOf other sel m = entryOf other sel m.parsed := by
  unfold entryOf
  rw [← hsel m]
  rfl

theorem map_entryOf (other : Text → Option (Option Int)) (hsel : OfParsed sel)
    (h : ms'.map MacroEntry.parsed = ms.map MacroEntry.parsed) :
    ms'.map (entryOf other sel) = ms.map (entryOf other sel) := by
  have hboth : ∀ l : List MacroEntry,
      l.map (entryOf other sel) = (l.map MacroEntry.parsed).map (entryOf other sel) := by
    intro l
    rw [List.map_map]
    exact List.map_congr_left fun m _ => entryOf_parsed hsel
  rw [hboth, h, ← hboth]

theorem map_valued (h : ms'.map MacroEntry.parsed = ms.map MacroEntry.parsed)
    (hms : ∀ m ∈ ms, m.Valued) : ∀ m ∈ ms', m.Valued := by
  intro m' hm'
  have hmem : m'.parsed ∈ ms.map MacroEntry.parsed := h ▸ List.mem_map_of_mem hm'
  obtain ⟨m, hm, heq⟩ := List.mem_map.mp hmem
  have hname : m.parsed.name = m'.parsed.name := congrArg MacroEntry.name heq
  have hraw : m.parsed.rawValue = m'.parsed.rawValue := congrArg MacroEntry.rawValue heq
  exact ⟨hname ▸ (hms m hm).1, hraw ▸ (hms m hm).2⟩

/-- The third pass is a sweep repeated until it is settled. -/
theorem evalSweeps_spec (es : List (Entry Text ℤ)) (n : Nat) {ms : List MacroEntry}
    (hes : ms.map (entryOf other isLate) = es) (hms : ∀ m ∈ ms, m.Valued) (h : Named sy.get) :
    (evalSweeps other n sy ms).1.get = (settle es n sy.get (ms.map (valueIf isLate))).1
      ∧ (evalSweeps other n sy ms).2.map MacroEntry.parsed = ms.map MacroEntry.parsed
      ∧ (evalSweeps other n sy ms).2.map (valueIf isLate)
        = (settle es n sy.get (ms.map (valueIf isLate))).2
      ∧ (evalSweeps other n sy ms).2.map (valueIf fun m => !isLate m)
        = ms.map (valueIf fun m => !isLate m) := by
  induction n generalizing sy ms with
  | zero => exact ⟨rfl, rfl, rfl, rfl⟩
  | succ n ih =>
      have htable := evalPass_table other isLate hms h
      have hparsed := evalPass_parsed other isLate hms h
      have hvalues := evalPass_values other isLate isLate_parsed hms h
      have hothers := evalPass_others other isLate isLate_parsed hms h
      have hchanged := values_ext isLate isLate_parsed hparsed hothers
      rw [hes] at htable hvalues
      -- the loop goes on exactly where `settle` does
      rw [evalSweeps, settle]
      simp only
      by_cases hsame : values es sy.get = ms.map (valueIf isLate)
      · rw [if_neg (not_not.mpr (hchanged.mpr (hvalues.trans hsame))), if_pos hsame]
        exact ⟨htable, hparsed, hvalues, hothers⟩
      · rw [if_pos fun heq => hsame (hvalues.symm.trans (hchanged.mp heq)), if_neg hsame]
        have hnamed : Named (evalPass other isLate sy ms).1.get := by
          rw [evalPass_table other isLate hms h]
          exact h.sweep hms
        obtain ⟨h1, h2, h3, h4⟩ := ih
          ((map_entryOf other isLate_parsed hparsed).trans hes) (map_valued hparsed hms) hnamed
        rw [hvalues, htable] at h1 h3
        exact ⟨h1, h2.trans hparsed, h3, h4.trans hothers⟩

end VibeRtos.Features
