import VibeRtos.Proof.FeaturePasses

/-!
# What is emitted

The definitions of the domain are lawful items of the sweeps (`itemOf_lawful`). The value that
the evaluator leaves in a last definition is the one that the last sweep gives it
(`evaluateAll_last`), and this value is the body that the output has under the name
(`generated_last`).
-/

namespace VibeRtos.Features

open Words Sweeps

variable {other : Text → Option (Option Int)} {sy : SymbolTable} {m : MacroEntry}
  {ms : List MacroEntry} {σ : Table Text ℤ} {ds pre post : List Define} {d : Define}
  {names : List Text} {value w : Text} {v : Int} {h : Header}

/-! ## The definitions as items -/

/-- A definition as the sweeps see it. -/
def itemOf (other : Text → Option (Option Int)) (d : Define) : Item :=
  ⟨d.shape, constOf d.value, fun σ => evalBody other (idents σ) d.value⟩

theorem itemOf_eval (h : Named σ) : (itemOf other d).eval σ = evalBody other σ d.value := by
  simp only [itemOf, h.idents]

theorem IsSum.ne_nil (h : IsSum names value) : value ≠ [] := by
  rintro rfl
  obtain ⟨⟨l, hops, -⟩, -⟩ := h
  exact absurd hops (by simp [lex, operands])

/-- The references of a body are defined. -/
theorem IsSum.refs (h : IsSum names value) : ∀ y ∈ refs value, y ∈ names := by
  obtain ⟨⟨l, hops, hok⟩, -⟩ := h
  intro y hy
  obtain ⟨hword, hid⟩ := mem_refs.mp hy
  rw [words_of_operands hops] at hword
  obtain ⟨p, hp, rfl⟩ := List.mem_map.mp hword
  rcases hok p hp with ⟨-, -, hmem⟩ | ⟨hlit, -⟩
  · exact hmem
  · exact absurd (cLiteral_not_ident hlit) (by simp [hid])

theorem refSum_idents (value : Text) (σ : Table Text ℤ) :
    refSum (refs value) (idents σ) = refSum (refs value) σ := by
  unfold refSum
  refine congrArg List.sum (List.map_congr_left fun y hy => ?_)
  rw [idents, if_pos (mem_refs.mp hy).2]

theorem classifyType_ne_env (value : Text) (guard : Option String) :
    classifyType value guard ≠ .env := by
  unfold classifyType
  simp only
  split_ifs <;> simp

/-- A literal of `_LITERAL_PAT` is one for `_parse_literal`. -/
theorem parseLiteral_of_pat (hstrip : strip value = value) (h : literalPat value = true) :
    (parseLiteral value).isSome := by
  have hlower : ∀ x X base, (radixLiteral x x base value).isSome →
      (radixLiteral x X base value).isSome := by
    intro x X base hs
    obtain ⟨n, hn⟩ := Option.isSome_iff_exists.mp hs
    obtain ⟨c, ds, rfl, hc, hds⟩ := radixLiteral_eq_some hn
    rw [radixLiteral, if_pos (Or.inl (hc.elim id id)), hds]
    rfl
  simp only [parseLiteral, hstrip]
  cases hx : radixLiteral 'x' 'X' 16 value with
  | some n => rfl
  | none =>
      cases hb : radixLiteral 'b' 'B' 2 value with
      | some n => rfl
      | none =>
          cases ho : octalLiteral value with
          | some n => rfl
          | none =>
              simp only [literalPat, Bool.or_eq_true, ho] at h
              rcases h with ((h | h) | h) | h
              · exact h
              · exact absurd (hlower 'x' 'X' 16 h) (by simp [hx])
              · exact absurd (hlower 'b' 'B' 2 h) (by simp [hb])
              · exact absurd h (by simp)

/-- A body of the second pass refers to nothing. -/
theorem refs_of_raw (hsum : IsSum names value) (hstrip : strip value = value)
    {guard : Option String} (h : classifyType value guard = .raw) : refs value = [] := by
  have hne := hsum.ne_nil
  obtain ⟨⟨l, hops, hok⟩, -⟩ := hsum
  unfold classifyType at h
  split at h
  · exact absurd h (by simp)
  · simp only [hstrip] at h
    split at h
    · rename_i hpat
      obtain ⟨v, hv⟩ := Option.isSome_iff_exists.mp (parseLiteral_of_pat hstrip hpat)
      obtain ⟨s, w, n, rfl, hn, -⟩ := parseLiteral_spec hstrip hops hok hv
      have hnot : ¬ isIdent w = true := by simp [cLiteral_not_ident (w := w) (by rw [hn]; rfl)]
      rw [refs, words_of_operands hops, List.map_cons, List.filter_cons_of_neg hnot]
      rfl
    · split at h
      · exact absurd h (by simp)
      · split at h
        · exact absurd h (by simp)
        · rename_i hnone
          rw [refs, List.filter_eq_nil_iff]
          intro w hw hid
          exact hnone (List.any_eq_true.mpr ⟨w, hw, hid⟩)

theorem isLate_iff (d : Define) :
    isLate (recordDefine d) = false ↔ (recordDefine d).type = .raw := by
  have hne : (recordDefine d).type ≠ .env := classifyType_ne_env d.value d.guard
  unfold isLate
  cases htype : (recordDefine d).type <;> simp_all

theorem itemOf_raw (hsum : IsSum names d.value) (hstrip : strip d.value = d.value)
    (h : d.shape.late = false) : d.shape.refs = [] :=
  refs_of_raw hsum hstrip ((isLate_iff d).mp h)

theorem itemOf_lawful (hsum : IsSum names d.value) (hstrip : strip d.value = d.value) :
    (itemOf other d).Lawful where
  broken hw σ := evalBody_unreadable other hsum (idents_named σ) hw
  exact hw σ hall := by
    refine (evalBody_readable other hsum hstrip (idents_named σ) hw fun w hw _ => ?_).trans ?_
    · rw [idents, if_pos (mem_refs.mp hw).2]
      exact hall w hw
    · rw [refSum_idents]
      rfl
  raw := itemOf_raw hsum hstrip

/-! ## The value of a last definition -/

theorem evalEnv_eq (hms : ∀ m ∈ ms, m.type ≠ .env) : evalEnv sy ms = (sy, ms) := by
  induction ms with
  | nil => rfl
  | cons m ms ih =>
      rw [evalEnv, if_neg (hms m List.mem_cons_self)]
      simp only [ih fun m hm => hms m (List.mem_cons_of_mem _ hm)]

/-- Lists with equal images split at the same place. -/
theorem split_of_map {α β : Type} {f : α → β} {l p q : List α} {x : α}
    (h : l.map f = (p ++ x :: q).map f) :
    ∃ a y b, l = a ++ y :: b ∧ a.length = p.length ∧ f y = f x ∧ b.map f = q.map f := by
  rw [List.map_append, List.map_cons] at h
  obtain ⟨a, rest, rfl, ha, hrest⟩ := List.map_eq_append_iff.mp h
  obtain ⟨y, b, rfl, hy, hb⟩ := List.map_eq_cons_iff.mp hrest
  refine ⟨a, y, b, rfl, ?_, hy, hb⟩
  rw [← List.length_map f, ← List.length_map f, ha]

/-- What stands at the place where a list splits. -/
theorem map_at {α β : Type} {f : α → β} {a b : List α} {y : α} {p q : List β} {x : β}
    (h : (a ++ y :: b).map f = p ++ x :: q) (hlen : a.length = p.length) : f y = x := by
  rw [List.map_append, List.map_cons] at h
  obtain ⟨-, htail⟩ := List.append_inj h (by rw [List.length_map, hlen])
  exact (List.cons.inj htail).1

theorem entryOf_late (other : Text → Option (Option Int)) (ds : List Define) :
    (ds.map recordDefine).map (entryOf other isLate)
      = (ds.map (itemOf other)).map Item.lateEntry := by
  rw [List.map_map, List.map_map]
  exact List.map_congr_left fun d _ => rfl

theorem entryOf_raw (other : Text → Option (Option Int)) (ds : List Define) :
    (ds.map recordDefine).map (entryOf other fun m => m.type = .raw)
      = (ds.map (itemOf other)).map Item.rawEntry := by
  rw [List.map_map, List.map_map]
  refine List.map_congr_left fun d _ => ?_
  have hraw : (decide ((recordDefine d).type = .raw)) = !isLate (recordDefine d) := by
    rw [Bool.eq_iff_iff, decide_eq_true_iff, ← isLate_iff, Bool.not_eq_true']
  simp only [Function.comp_apply, entryOf, Item.rawEntry, hraw]
  refine congrArg (Entry.mk _) (funext fun σ => ?_)
  change _ = if isLate (recordDefine d) = true then none else _
  cases isLate (recordDefine d) <;> rfl

/-- Names are identifiers, and no body is empty. -/
def Valued (ds : List Define) : Prop := ∀ d ∈ ds, isIdent d.name = true ∧ d.value ≠ []

theorem Valued.entries (h : Valued ds) : ∀ m ∈ ds.map recordDefine, m.Valued := by
  intro m hm
  obtain ⟨d, hd, rfl⟩ := List.mem_map.mp hm
  exact h d hd

section LastValue

variable (other)

/-- Behind the second pass. -/
def literals (ds : List Define) : SymbolTable × List MacroEntry :=
  evalPass other (fun m => m.type = .raw) [] (ds.map recordDefine)

/-- Behind the third pass. -/
def swept (ds : List Define) : SymbolTable × List MacroEntry :=
  evalSweeps other maxIters (literals other ds).1 (literals other ds).2

theorem evaluateAll_eq (ds : List Define) :
    evaluateAll other [] (ds.map recordDefine)
      = evalPass other (fun m => m.evaluatedValue.isNone) (swept other ds).1
        (swept other ds).2 := by
  have henv : evalEnv [] (ds.map recordDefine) = ([], ds.map recordDefine) := by
    refine evalEnv_eq fun m hm => ?_
    obtain ⟨d, -, rfl⟩ := List.mem_map.mp hm
    exact classifyType_ne_env d.value d.guard
  rw [evaluateAll, henv]
  rfl

theorem get_nil : SymbolTable.get [] = fun _ => none := funext fun _ => rfl

theorem named_nil : Named (SymbolTable.get []) := by
  intro w v hv
  exact absurd hv (by simp [get_nil])

theorem literals_table (hds : Valued ds) :
    (literals other ds).1.get = tableAfter (ds.map (itemOf other)) 0 := by
  rw [literals, evalPass_table other _ hds.entries named_nil, entryOf_raw, get_nil]
  rfl

theorem literals_named (hds : Valued ds) : Named (literals other ds).1.get := by
  rw [literals, evalPass_table other _ hds.entries named_nil]
  exact named_nil.sweep hds.entries

theorem literals_parsed (hds : Valued ds) :
    (literals other ds).2.map MacroEntry.parsed = (ds.map recordDefine).map MacroEntry.parsed :=
  evalPass_parsed other _ hds.entries named_nil

/-- The second pass leaves the others without a value. -/
theorem literals_late (hds : Valued ds) :
    ∀ v ∈ (literals other ds).2.map (valueIf isLate), v = none := by
  intro v hv
  obtain ⟨m, hm, rfl⟩ := List.mem_map.mp hv
  have hothers := evalPass_others other (fun m => m.type = .raw)
    (fun _ => rfl) hds.entries named_nil
  have hmem : valueIf (fun m => !decide (m.type = .raw)) m
      ∈ (ds.map recordDefine).map (valueIf fun m => !decide (m.type = .raw)) :=
    hothers ▸ List.mem_map_of_mem hm
  have hnone : valueIf (fun m => !decide (m.type = .raw)) m = none := by
    rw [List.map_map] at hmem
    obtain ⟨d, -, heq⟩ := List.mem_map.mp hmem
    rw [← heq]
    simp only [Function.comp_apply, valueIf]
    split <;> rfl
  -- an entry of the third pass is none of the second
  unfold valueIf at hnone ⊢
  split
  · rename_i hlate
    rw [if_pos] at hnone
    · exact hnone
    · cases htype : m.type <;> simp_all [isLate]
  · rfl

/-- The value of a literal behind the second pass. -/
theorem literals_at (hds : Valued ds) (h : ds = pre ++ d :: post) : ∃ a m b σ,
    (literals other ds).2 = a ++ m :: b ∧ a.length = pre.length ∧ m.parsed = recordDefine d
      ∧ (d.shape.late = false → m.evaluatedValue = (itemOf other d).eval σ) := by
  have hentries := hds.entries
  have hparsed := literals_parsed other hds
  rw [h, List.map_append, List.map_cons] at hentries
  obtain ⟨a, m, b, σ, hsplit, hlen, hnamed, hval⟩ := evalPass_split other
    (fun m => m.type = .raw) (m := recordDefine d) hentries named_nil
  rw [← List.map_cons (f := recordDefine), ← List.map_append, ← h] at hsplit
  conv at hparsed => rhs; rw [h, List.map_append, List.map_cons, List.map_append, List.map_cons]
  rw [literals, hsplit] at hparsed
  have hm := map_at hparsed (by rw [hlen, List.length_map, List.length_map, List.length_map])
  refine ⟨a, m, b, σ, hsplit, by rw [hlen, List.length_map], hm, fun hraw => ?_⟩
  rw [if_pos (by simpa using (isLate_iff d).mp hraw)] at hval
  exact hval.trans (itemOf_eval hnamed).symm

theorem swept_spec (hds : Valued ds) :
    Named (swept other ds).1.get
      ∧ (swept other ds).2.map MacroEntry.parsed = (ds.map recordDefine).map MacroEntry.parsed
      ∧ (swept other ds).2.map (valueIf isLate)
        = values ((ds.map (itemOf other)).map Item.lateEntry)
          (tableAfter (ds.map (itemOf other)) (maxIters - 1))
      ∧ (swept other ds).2.map (valueIf fun m => !isLate m)
        = (literals other ds).2.map (valueIf fun m => !isLate m) := by
  have hparsed := literals_parsed other hds
  have hentries := (map_entryOf other isLate_parsed hparsed).trans (entryOf_late other ds)
  obtain ⟨htable, hp, hv, ho⟩ := evalSweeps_spec _ maxIters hentries
    (map_valued hparsed hds.entries) (literals_named other hds)
  have hsettle := settle_eq ((ds.map (itemOf other)).map Item.lateEntry) (maxIters - 1)
    (literals other ds).1.get _ (overlay_none _ _ (literals_late other hds) _)
  rw [literals_table other hds] at hsettle
  rw [literals_table other hds] at htable hv
  refine ⟨?_, hp.trans hparsed, hv.trans (congrArg Prod.snd hsettle), ho⟩
  have hget := htable.trans (congrArg Prod.fst hsettle)
  rw [← literals_table other hds, ← entryOf_late] at hget
  refine hget ▸ iterate_invariant (I := Named) (fun e he σ hσ => ?_) (literals_named other hds) _
  obtain ⟨m, hm, rfl⟩ := List.mem_map.mp he
  exact hσ.store (hds.entries m hm)

/-- The value of a definition behind the third pass. -/
theorem swept_at (hds : Valued ds) (h : ds = pre ++ d :: post) : ∃ a m b σ,
    (swept other ds).2 = a ++ m :: b ∧ a.length = pre.length ∧ m.parsed = recordDefine d
      ∧ (d.shape.late = true →
        σ = seenAt (ds.map (itemOf other)) (pre.map (itemOf other)) (maxIters - 1))
      ∧ m.evaluatedValue = (itemOf other d).eval σ := by
  obtain ⟨-, hp, hv, ho⟩ := swept_spec other hds
  have hsplit := hp
  conv at hsplit => rhs; rw [h, List.map_append, List.map_cons]
  obtain ⟨a, m, b, hab, hlen, hm, -⟩ := split_of_map hsplit
  rw [List.length_map] at hlen
  have hlate : isLate m = d.shape.late := isLate_parsed.eq (m := recordDefine d) hm
  cases hd : d.shape.late with
  | true =>
      rw [hd] at hlate
      -- its place in the values of the last sweep
      refine ⟨a, m, b, _, hab, hlen, hm, fun _ => rfl, ?_⟩
      conv at hv =>
        rhs
        arg 1
        rw [h, List.map_append, List.map_cons, List.map_append, List.map_cons]
      rw [hab, values_append, values] at hv
      have hat := map_at hv (by rw [length_values, List.length_map, List.length_map, hlen])
      rw [valueIf, if_pos hlate] at hat
      rw [hat]
      exact if_pos hd
  | false =>
      rw [hd] at hlate
      -- the third pass leaves a literal as it was
      obtain ⟨a2, m2, b2, σ, hab2, hlen2, hm2, hval⟩ := literals_at other hds h
      have hlate2 : isLate m2 = false := (isLate_parsed.eq (m := recordDefine d) hm2).trans hd
      refine ⟨a, m, b, σ, hab, hlen, hm, fun ht => absurd ht (by simp), ?_⟩
      conv at ho => rhs; rw [hab2, List.map_append, List.map_cons]
      rw [hab] at ho
      have hat := map_at ho (by rw [List.length_map, hlen, hlen2])
      rw [valueIf, valueIf, hlate, hlate2] at hat
      exact hat.trans (hval hd)

/-- **The value of a last definition**: the one of the last sweep, or of the second pass. -/
theorem evaluateAll_last (hds : Valued ds) (h : LastDefine ds pre d post) : ∃ a m b σ,
    (evaluateAll other [] (ds.map recordDefine)).2 = a ++ m :: b ∧ m.parsed = recordDefine d
      ∧ (∀ e ∈ b, e.name ≠ d.name)
      ∧ (d.shape.late = true →
        σ = seenAt (ds.map (itemOf other)) (pre.map (itemOf other)) (maxIters - 1))
      ∧ (∀ v, (itemOf other d).eval σ = some v → m.evaluatedValue = some v)
      ∧ ((∀ τ, (itemOf other d).eval τ = none) → m.evaluatedValue = none) := by
  obtain ⟨hnamed, hp, -, -⟩ := swept_spec other hds
  obtain ⟨a, m, b, σ, hab, hlen, hm, hσ, hval⟩ := swept_at other hds h.1
  have hvalued := map_valued hp hds.entries
  have hparsed := (evalPass_parsed other (fun m => m.evaluatedValue.isNone)
    hvalued hnamed).trans hp
  rw [← evaluateAll_eq] at hparsed
  rw [hab] at hvalued
  -- the fourth pass keeps every value
  obtain ⟨a', m', b', τ, hab', hlen', hτ, hval'⟩ := evalPass_split other
    (fun m => m.evaluatedValue.isNone) hvalued hnamed
  rw [← hab, ← evaluateAll_eq] at hab'
  conv at hparsed => rhs; rw [h.1, List.map_append, List.map_cons]
  obtain ⟨a'', m'', b'', hab'', hlen'', hm'', hb''⟩ := split_of_map hparsed
  rw [hab'] at hab''
  obtain ⟨-, htail⟩ := List.append_inj hab'' (by rw [hlen', hlen, hlen'', List.length_map])
  obtain ⟨rfl, rfl⟩ := List.cons.inj htail
  refine ⟨a', m', b', σ, hab', hm'', fun e he => ?_, hσ, fun v hv => ?_, fun hnone => ?_⟩
  · have hmem : e.parsed ∈ (post.map recordDefine).map MacroEntry.parsed :=
      hb'' ▸ List.mem_map_of_mem he
    rw [List.map_map] at hmem
    obtain ⟨f, hf, heq⟩ := List.mem_map.mp hmem
    have hname : f.name = e.parsed.name := congrArg MacroEntry.name heq
    exact fun hcontra => h.2 f hf (hname.trans hcontra)
  · rw [hval', if_neg (by rw [hval, hv]; simp), hval, hv]
  · have hraw : m.rawValue = d.value := congrArg MacroEntry.rawValue hm
    rw [hval', hval, hnone]
    have hbody := hnone τ
    rw [itemOf_eval hτ] at hbody
    rw [hraw]
    exact hbody

end LastValue

/-! ## The emitted bodies -/

theorem foldl_lastIdx {l : List (MacroEntry × Nat)} (hl : ∀ p ∈ l, p.1.name ≠ w)
    (idx : Text → Option Nat) :
    (l.foldl (fun (idx : Text → Option Nat) p =>
      Function.update idx p.1.name (some p.2)) idx) w = idx w := by
  induction l generalizing idx with
  | nil => rfl
  | cons p l ih =>
      rw [List.foldl_cons, ih (fun q hq => hl q (List.mem_cons_of_mem _ hq)),
        Function.update_of_ne (hl p List.mem_cons_self).symm]

/-- The last entry of a name is kept, and what follows it are entries of other names. -/
theorem outputMacros_last {a b : List MacroEntry} (hb : ∀ e ∈ b, e.name ≠ m.name) :
    ∃ p q, outputMacros (a ++ m :: b) = p ++ m :: q ∧ ∀ e ∈ q, e.name ≠ m.name := by
  have hidx : lastIdx (a ++ m :: b) m.name = some a.length := by
    rw [lastIdx, List.zipIdx_append, List.zipIdx_cons, List.foldl_append, List.foldl_cons,
      foldl_lastIdx fun p hp => hb p.1 (List.fst_mem_of_mem_zipIdx hp), Function.update_self,
      Nat.zero_add]
  rw [outputMacros, List.zipIdx_append, List.zipIdx_cons, List.filter_append,
    List.filter_cons_of_pos (by simpa using hidx), List.map_append, List.map_cons]
  refine ⟨_, _, rfl, fun e he => ?_⟩
  obtain ⟨p, hp, rfl⟩ := List.mem_map.mp he
  exact hb p.1 (List.fst_mem_of_mem_zipIdx (List.mem_of_mem_filter hp))

theorem body_append {p q : Header} {t : Text} (hq : ∀ e ∈ q, e.1 ≠ w) :
    Header.body (p ++ (w, t) :: q) w = some t := by
  have hnone : q.reverse.find? (fun p => decide (p.1 = w)) = none := by
    rw [List.find?_eq_none]
    intro e he
    simpa using hq e (List.mem_reverse.mp he)
  rw [Header.body, List.reverse_append, List.reverse_cons, List.append_assoc, List.find?_append,
    hnone, Option.none_or, List.singleton_append, List.find?_cons_of_pos (by simp), Option.map_some]

theorem source_last (h : LastDefine ds pre d post) : (source ds).body d.name = some d.value := by
  rw [source, h.1, List.map_append, List.map_cons]
  refine body_append fun e he => ?_
  obtain ⟨f, hf, rfl⟩ := List.mem_map.mp he
  exact h.2 f hf

/-- **What is emitted of a last definition**: the value of the last sweep or of the second pass,
or else its own body. -/
theorem generated_last (other : Text → Option (Option Int)) (hds : Valued ds)
    (h : LastDefine ds pre d post) : ∃ σ o, (generated other ds).body d.name
        = some (valToStr o d.value)
      ∧ (d.shape.late = true →
        σ = seenAt (ds.map (itemOf other)) (pre.map (itemOf other)) (maxIters - 1))
      ∧ (∀ v, (itemOf other d).eval σ = some v → o = some v)
      ∧ ((∀ τ, (itemOf other d).eval τ = none) → o = none) := by
  obtain ⟨a, m, b, σ, hsplit, hm, hb, hσ, hsome, hnone⟩ := evaluateAll_last other hds h
  have hname : m.parsed.name = d.name := congrArg MacroEntry.name hm
  have hraw : m.parsed.rawValue = d.value := congrArg MacroEntry.rawValue hm
  obtain ⟨p, q, hout, hq⟩ := outputMacros_last (a := a) (m := m) fun e he heq =>
    hb e he (heq.trans hname)
  refine ⟨σ, m.evaluatedValue, ?_, hσ, hsome, hnone⟩
  rw [generated, hsplit, hout, List.map_append, List.map_cons, ← hraw, ← hname]
  refine body_append fun e he => ?_
  obtain ⟨f, hf, rfl⟩ := List.mem_map.mp he
  exact hq f hf

end VibeRtos.Features
