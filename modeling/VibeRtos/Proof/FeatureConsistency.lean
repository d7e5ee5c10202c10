import VibeRtos.Proof.FeatureValues

/-!
# Expansions of the parsed and of the emitted definitions

A full expansion is unique, and in the domain there is one for every macro: by induction on the
rank of the name. The emitted header expands to the same values exactly where the value of every
last definition that can be evaluated is its expansion (`consistent_of_values`,
`Consistent.emitted`), which is so if the shapes are settled (`consistent_of_settled`).
-/

namespace VibeRtos.Features

open Words Sweeps

variable {other : Text → Option (Option Int)} {ds pre post : List Define} {d : Define}
  {names : List Text} {value x y : Text} {v : Int} {h : Header} {R : Text → ℤ} {n k : Nat}

/-! ## Unique expansions -/

/-- With more values known a sum stays what it is. -/
theorem sumOf_mono {val val' : Text → Option Int} (hval : ∀ w v, val w = some v → val' w = some v)
    {l : List (Int × Text)} (hl : sumOf val l = some v) : sumOf val' l = some v := by
  induction l generalizing v with
  | nil => exact hl
  | cons p l ih =>
      obtain ⟨s, w⟩ := p
      rw [sumOf] at hl ⊢
      obtain ⟨u, hu, hrest⟩ := Option.bind_eq_some_iff.mp hl
      obtain ⟨r, hr, rfl⟩ := Option.map_eq_some_iff.mp hrest
      rw [hval w u hu, Option.bind_some, ih hr, Option.map_some]

/-- What an expansion of depth `n` gives for the words of a body. -/
def operandAt (h : Header) (n : Nat) (w : Text) : Option Int :=
  if isIdent w then expand h n w else (cLiteral w).map fun m : Nat => (m : Int)

theorem expand_succ (h : Header) (n : Nat) (x : Text) :
    expand h (n + 1) x = (h.body x).bind (sumText (operandAt h n)) := rfl

theorem expand_mono (hx : expand h n x = some v) : expand h (n + 1) x = some v := by
  induction n generalizing x v with
  | zero => exact absurd hx (by simp [expand])
  | succ n ih =>
      rw [expand_succ] at hx ⊢
      obtain ⟨body, hbody, hsum⟩ := Option.bind_eq_some_iff.mp hx
      rw [hbody, Option.bind_some]
      obtain ⟨l, hops, hl⟩ := Option.bind_eq_some_iff.mp hsum
      rw [sumText, hops, Option.bind_some]
      refine sumOf_mono (fun w u hu => ?_) hl
      unfold operandAt at hu ⊢
      split
      · rename_i hid
        rw [if_pos hid] at hu
        exact ih hu
      · rename_i hid
        rw [if_neg hid] at hu
        exact hu

theorem expand_le (hx : expand h n x = some v) (hle : n ≤ k) : expand h k x = some v := by
  induction hle with
  | refl => exact hx
  | step _ ih => exact expand_mono ih

/-- A macro has one full expansion. -/
theorem Expands.unique {w : Int} (hv : Expands h x v) (hw : Expands h x w) : v = w := by
  obtain ⟨n, hn⟩ := hv
  obtain ⟨k, hk⟩ := hw
  have hmax := expand_le hn (Nat.le_max_left n k)
  rw [expand_le hk (Nat.le_max_right n k)] at hmax
  exact (Option.some.inj hmax).symm

/-- One depth for all references. -/
theorem common_depth {ys : List Text} (hys : ∀ y ∈ ys, Expands h y (R y)) :
    ∃ n, ∀ y ∈ ys, expand h n y = some (R y) := by
  induction ys with
  | nil => exact ⟨0, by simp⟩
  | cons y ys ih =>
      obtain ⟨n, hn⟩ := hys y List.mem_cons_self
      obtain ⟨k, hk⟩ := ih fun z hz => hys z (List.mem_cons_of_mem _ hz)
      refine ⟨max n k, fun z hz => ?_⟩
      rcases List.mem_cons.mp hz with rfl | hz
      · exact expand_le hn (Nat.le_max_left n k)
      · exact expand_le (hk z hz) (Nat.le_max_right n k)

/-- The expansion of a sum, from those of its references. -/
theorem expands_sum (hbody : h.body x = some value) (hsum : IsSum names value)
    (hrefs : ∀ y ∈ refs value, Expands h y (R y)) :
    Expands h x (constOf value + ((refs value).map R).sum) := by
  obtain ⟨⟨l, hops, hok⟩, -⟩ := hsum
  obtain ⟨n, hn⟩ := common_depth hrefs
  -- the body is one level above its references
  refine ⟨n + 1, ?_⟩
  have hconst : constOf value = constSum l := by rw [constOf, hops, Option.getD_some]
  have hwords := words_of_operands hops
  rw [expand_succ, hbody, Option.bind_some, sumText, hops, Option.bind_some, hconst, refs, hwords]
  refine sumOf_operands hok (fun w hw hid => ?_) fun w _ m hm => ?_
  · rw [operandAt, if_pos hid]
    exact hn w (mem_refs.mpr ⟨hwords ▸ hw, hid⟩)
  · rw [operandAt, if_neg (by simp [cLiteral_not_ident (w := w) (by rw [hm]; rfl)]), hm]
    rfl

/-- The expansion of an integer that was written. -/
theorem expands_str (hbody : h.body x = some (str v)) : Expands h x v := by
  have hval : operandAt h 0 (Nat.toDigits 10 v.natAbs) = some (v.natAbs : Int) := by
    rw [operandAt, if_neg (by simp [isIdent_toDigits]), cLiteral_toDigits, Option.map_some]
  refine ⟨1, ?_⟩
  rw [expand_succ, hbody, Option.bind_some, sumText, lex_str]
  by_cases hneg : v < 0
  · rw [if_pos hneg]
    change sumOf (operandAt h 0) [(-1, Nat.toDigits 10 v.natAbs)] = some v
    rw [sumOf, hval, sumOf]
    refine congrArg some ?_
    change -1 * (v.natAbs : Int) + 0 = v
    omega
  · rw [if_neg hneg]
    change sumOf (operandAt h 0) [(1, Nat.toDigits 10 v.natAbs)] = some v
    rw [sumOf, hval, sumOf]
    refine congrArg some ?_
    change 1 * (v.natAbs : Int) + 0 = v
    omega

/-! ## The last definitions -/

theorem LastDefine.item (other : Text → Option (Option Int)) (hd : LastDefine ds pre d post) :
    LastItem (ds.map (itemOf other)) (pre.map (itemOf other)) (itemOf other d)
      (post.map (itemOf other)) := by
  refine ⟨by rw [hd.1, List.map_append, List.map_cons], fun f hf => ?_⟩
  obtain ⟨e, he, rfl⟩ := List.mem_map.mp hf
  exact hd.2 e he

theorem LastItem.define {P Q : List Item} {m : Item} (hm : LastItem (ds.map (itemOf other)) P m Q) :
    ∃ pre d post, LastDefine ds pre d post ∧ P = pre.map (itemOf other) ∧ m = itemOf other d := by
  obtain ⟨hsplit, hQ⟩ := hm
  obtain ⟨pre, rest, rfl, rfl, hrest⟩ := List.map_eq_append_iff.mp hsplit
  obtain ⟨d, post, rfl, rfl, rfl⟩ := List.map_eq_cons_iff.mp hrest
  exact ⟨pre, d, post, ⟨rfl, fun e he => hQ _ (List.mem_map_of_mem he)⟩, rfl, rfl⟩

theorem exists_lastDefine (hx : x ∈ ds.map Define.name) :
    ∃ pre d post, LastDefine ds pre d post ∧ d.name = x := by
  obtain ⟨d, hd, rfl⟩ := List.mem_map.mp hx
  have hitem : ∃ m ∈ ds.map (itemOf fun _ => none), m.shape.name = d.name :=
    ⟨_, List.mem_map_of_mem hd, rfl⟩
  obtain ⟨P, m, Q, hm, hname⟩ := exists_last hitem
  obtain ⟨pre, e, post, he, -, rfl⟩ := hm.define
  exact ⟨pre, e, post, he, hname⟩

theorem shape_items (other : Text → Option (Option Int)) (ds : List Define) :
    (ds.map (itemOf other)).map Item.shape = ds.map Define.shape := by
  rw [List.map_map]
  rfl

theorem LastDefine.last (hd : LastDefine ds pre d post) :
    Last (ds.map Define.shape) (pre.map Define.shape) d.shape := by
  have hitem := (hd.item fun _ => none).last
  rwa [shape_items, shape_items] at hitem

theorem exists_define {ps : List Shape} {s : Shape} (hs : Last (ds.map Define.shape) ps s) :
    ∃ pre d post, LastDefine ds pre d post ∧ pre.map Define.shape = ps ∧ d.shape = s := by
  rw [← shape_items fun _ => none] at hs
  obtain ⟨P, m, Q, hm, rfl, rfl⟩ := exists_item hs
  obtain ⟨pre, d, post, hd, rfl, rfl⟩ := hm.define
  exact ⟨pre, d, post, hd, (shape_items _ pre).symm, rfl⟩

theorem LastDefine.mem (hd : LastDefine ds pre d post) : d ∈ ds := by simp [hd.1]

/-! ## The domain -/

namespace InDomain

theorem valued (hdom : InDomain ds) : Valued ds :=
  fun d hd => ⟨(hdom.names d hd).1, (hdom.bodies d hd).ne_nil⟩

theorem lawful (other : Text → Option (Option Int)) (hdom : InDomain ds) :
    ∀ m ∈ ds.map (itemOf other), m.Lawful := by
  intro m hm
  obtain ⟨d, hd, rfl⟩ := List.mem_map.mp hm
  exact itemOf_lawful (hdom.bodies d hd) (hdom.stripped d hd)

theorem ranked (other : Text → Option (Option Int)) (hdom : InDomain ds) :
    ∃ rank, Ranked (ds.map (itemOf other)) rank := by
  obtain ⟨rank, hrank⟩ := hdom.acyclic
  refine ⟨rank, fun m hm y hy => ?_, fun P m Q hm y hy => ?_⟩
  · obtain ⟨d, hd, rfl⟩ := List.mem_map.mp hm
    obtain ⟨e, he, rfl⟩ := List.mem_map.mp ((hdom.bodies d hd).refs y hy)
    exact ⟨itemOf other e, List.mem_map_of_mem he, rfl⟩
  · obtain ⟨pre, d, post, hd, -, rfl⟩ := hm.define
    exact hrank pre d post hd y hy

/-- What holds of a macro if it holds of what its last definition refers to. -/
theorem induction (hdom : InDomain ds) {P : Text → Prop} (hstep : ∀ pre d post,
    LastDefine ds pre d post → (∀ y ∈ refs d.value, P y) → P d.name) :
    ∀ y ∈ ds.map Define.name, P y := by
  intro y hy
  obtain ⟨rank, hrank⟩ := hdom.ranked (fun _ => none)
  obtain ⟨d, hd, rfl⟩ := List.mem_map.mp hy
  refine hrank.induction (fun Q m T hm ih => ?_) _ _ rfl ⟨_, List.mem_map_of_mem hd, rfl⟩
  obtain ⟨pre, e, post, he, -, rfl⟩ := hm.define
  exact hstep pre e post he ih

/-- Every macro has a full expansion. -/
theorem expansions (hdom : InDomain ds) :
    ∃ R : Text → ℤ, ∀ y ∈ ds.map Define.name, Expands (source ds) y (R y) := by
  have hall : ∀ y, ∃ v, y ∈ ds.map Define.name → Expands (source ds) y v := by
    intro y
    by_cases hy : y ∈ ds.map Define.name
    · refine (hdom.induction (P := fun y => ∃ v, Expands (source ds) y v)
        (fun pre d post hd ih => ?_) y hy).imp fun v hv _ => hv
      choose! R hR using ih
      exact ⟨_, expands_sum (source_last hd) (hdom.bodies d hd.mem) hR⟩
    · exact ⟨0, fun hy' => absurd hy' hy⟩
  choose R hR using hall
  exact ⟨R, hR⟩

theorem solves (other : Text → Option (Option Int)) (hdom : InDomain ds)
    (hR : ∀ y ∈ ds.map Define.name, Expands (source ds) y (R y)) :
    Solves (ds.map (itemOf other)) R := by
  intro P m Q hm
  obtain ⟨pre, d, post, hd, -, rfl⟩ := hm.define
  have hbody := hdom.bodies d hd.mem
  exact (hR d.name (List.mem_map_of_mem hd.mem)).unique
    (expands_sum (source_last hd) hbody fun y hy => hR y (hbody.refs y hy))

end InDomain

/-! ## The emitted definitions -/

theorem emitted_late (hdom : InDomain ds) (hd : LastDefine ds pre d post)
    (hlate : d.shape.late = true) (hv : (itemOf other d).eval
      (seenAt (ds.map (itemOf other)) (pre.map (itemOf other)) (maxIters - 1)) = some v) :
    (generated other ds).body d.name = some (str v) := by
  obtain ⟨σ, o, hbody, hσ, hsome, -⟩ := generated_last other hdom.valued hd
  obtain rfl := hsome v (hσ hlate ▸ hv)
  exact hbody

theorem emitted_raw (hdom : InDomain ds) (hd : LastDefine ds pre d post)
    (hraw : d.shape.late = false) (hworks : d.shape.works = true) :
    (generated other ds).body d.name = some (str (constOf d.value)) := by
  obtain ⟨σ, o, hbody, -, hsome, -⟩ := generated_last other hdom.valued hd
  have hlaw := hdom.lawful other _ (List.mem_map_of_mem hd.mem)
  have hrefs : (itemOf other d).shape.refs = [] := hlaw.raw hraw
  have hval := hlaw.exact hworks σ (by simp [hrefs])
  rw [hrefs, refSum, List.map_nil, List.sum_nil, Int.add_zero] at hval
  obtain rfl := hsome _ hval
  exact hbody

theorem emitted_broken (hdom : InDomain ds) (hd : LastDefine ds pre d post)
    (hworks : d.shape.works = false) : (generated other ds).body d.name = some d.value := by
  obtain ⟨σ, o, hbody, -, -, hnone⟩ := generated_last other hdom.valued hd
  have hlaw := hdom.lawful other _ (List.mem_map_of_mem hd.mem)
  obtain rfl := hnone (hlaw.broken hworks)
  rw [hbody, valToStr, if_neg (hdom.bodies d hd.mem).ne_nil]

/-- The header is consistent if every last definition of the sweeps has its expansion as its
value in the last of them. -/
theorem consistent_of_values (hdom : InDomain ds)
    (hR : ∀ y ∈ ds.map Define.name, Expands (source ds) y (R y))
    (hval : ∀ pre d post, LastDefine ds pre d post → d.shape.late = true → d.shape.works = true →
      (itemOf other d).eval (seenAt (ds.map (itemOf other)) (pre.map (itemOf other))
        (maxIters - 1)) = some (R d.name)) : Consistent other ds := by
  have hall : ∀ y ∈ ds.map Define.name, Expands (generated other ds) y (R y) := by
    refine hdom.induction (fun pre d post hd ih => ?_)
    have hsolve : R d.name = constOf d.value + ((refs d.value).map R).sum :=
      hdom.solves other hR _ _ _ (hd.item other)
    cases hworks : d.shape.works with
    | true =>
        cases hlate : d.shape.late with
        | true => exact expands_str (emitted_late hdom hd hlate (hval pre d post hd hlate hworks))
        | false =>
            have hrefs : refs d.value = [] :=
              (hdom.lawful other _ (List.mem_map_of_mem hd.mem)).raw hlate
            rw [hrefs, List.map_nil, List.sum_nil, Int.add_zero] at hsolve
            rw [hsolve]
            exact expands_str (emitted_raw hdom hd hlate hworks)
    | false =>
        rw [hsolve]
        exact expands_sum (emitted_broken hdom hd hworks) (hdom.bodies d hd.mem) ih
  intro d hd
  exact ⟨R d.name, hR _ (List.mem_map_of_mem hd), hall _ (List.mem_map_of_mem hd)⟩

/-- In a consistent header an emitted value is the expansion. -/
theorem Consistent.emitted (h : Consistent other ds)
    (hR : ∀ y ∈ ds.map Define.name, Expands (source ds) y (R y)) (hd : d ∈ ds)
    (hv : (generated other ds).body d.name = some (str v)) : v = R d.name := by
  obtain ⟨w, hsource, hgen⟩ := h d hd
  exact ((expands_str hv).unique hgen).trans
    (hsource.unique (hR _ (List.mem_map_of_mem hd)))

/-- **Settled shapes give a consistent header.** -/
theorem consistent_of_settled (hdom : InDomain ds) (h : Settled (ds.map Define.shape)) :
    Consistent other ds := by
  obtain ⟨R, hR⟩ := hdom.expansions
  obtain ⟨rank, hrank⟩ := hdom.ranked other
  rw [← shape_items other] at h
  refine consistent_of_values hdom hR fun pre d post hd hlate hworks => ?_
  refine value_of_delay (hdom.lawful other) (hdom.solves other hR) h.seesLasts hrank.descends _ rfl
    (hd.item other) hlate hworks _ fun n hn => ?_
  exact Nat.le_pred_of_lt (h.2 _ n hn)

end VibeRtos.Features
