import VibeRtos.Features.Headers

/-!
# Visited files against include guards

The parser and the preprocessor go through the same lines. A file that the parser has visited is one
whose guard the preprocessor has defined: both happen when the file is entered, before any line of
its body (`Agree.visited`). So the file that the one skips is the one whose body the other skips,
also when it is still being read and includes itself again.

An inclusion is followed only into a file that was not visited before, so as many inclusions can be
nested as there are files left, whatever the graph of inclusions is.
-/

namespace VibeRtos.Features

/-! ## Two tables side by side -/

section Rule

variable {W W' : Type} {eval : HeaderTable → String → Bool} {o : Symbols W HeaderLine}
  {o' : Symbols W' HeaderLine} {R : W → W' → Prop}

/-- Both answer alike on what a plain block may ask, and both keep `R` on its lines. -/
structure Matching (eval : HeaderTable → String → Bool) (o : Symbols W HeaderLine)
    (o' : Symbols W' HeaderLine) (R : W → W' → Prop) : Prop where
  opening : ∀ {n w c opening}, R w c → Opening.Plain eval opening →
    opening.holds o n w = opening.holds o' n c
  elif : ∀ {n w c condition}, R w c → IgnoresGuards eval condition →
    o.eval n w condition = o'.eval n c condition
  act : ∀ {n w c l}, R w c → HeaderLine.Plain l → R (o.act n w l) (o'.act n c l)

mutual

theorem Block.process_rel (h : Matching eval o o' R) : ∀ (b : Block HeaderLine) {n : Nat} {w : W}
    {c : W'}, b.Plain eval → R w c → R (b.process o n w).2 (b.process o' n c).2
  | .nil, n, w, c, _, hR => by
      rw [Block.process, Block.process]
      exact hR
  | .line l rest, n, w, c, hb, hR => by
      rw [Block.Plain] at hb
      rw [Block.process, Block.process]
      exact rest.process_rel h hb.2 (h.act hR hb.1)
  | .group opening body branches rest, n, w, c, hb, hR => by
      rw [Block.Plain] at hb
      obtain ⟨hopening, hbody, hbranches, hrest⟩ := hb
      rw [Block.process, Block.process, ← h.opening hR hopening]
      cases opening.holds o n w with
      | true => exact rest.process_rel h hrest (body.process_rel h hbody hR)
      | false => exact rest.process_rel h hrest (branches.process_rel h hbranches hR)

theorem Branches.process_rel (h : Matching eval o o' R) : ∀ (b : Branches HeaderLine) {n : Nat}
    {w : W} {c : W'}, b.Plain eval → R w c → R (b.process o n w).2 (b.process o' n c).2
  | .endif, n, w, c, _, hR => by
      rw [Branches.process, Branches.process]
      exact hR
  | .else_ body, n, w, c, hb, hR => by
      rw [Branches.Plain] at hb
      rw [Branches.process, Branches.process]
      exact body.process_rel h hb hR
  | .elif condition body more, n, w, c, hb, hR => by
      rw [Branches.Plain] at hb
      obtain ⟨hcondition, hbody, hmore⟩ := hb
      rw [Branches.process, Branches.process, ← h.elif hR hcondition]
      cases o.eval n w condition with
      | true => exact body.process_rel h hbody hR
      | false => exact more.process_rel h hmore hR

end

end Rule

section Traversal

variable {fs : FileSystem} {includePaths : List String} {eval : HeaderTable → String → Bool}
  {keys : Finset String} {g : Guarded fs includePaths eval keys} {w w' : HeaderParser}
  {c c' : Preprocessor}

/-- The header that a key stands for. -/
def Guarded.file (g : Guarded fs includePaths eval keys) (key : String) : Block HeaderLine :=
  guardedFile (g.guard key) (g.body key)

/-- The parser knows what the preprocessor does, but for the include guards; those it has as
visited files. -/
structure Agree (g : Guarded fs includePaths eval keys) (w : HeaderParser) (c : Preprocessor) :
    Prop where
  symbols : ∀ x, isGuardName x = false → w.symbols x = c.symbols x
  guards : ∀ x, isGuardName x = true → w.symbols x = none
  visited : ∀ key ∈ keys, key ∈ w.visited ↔ (c.symbols (g.guard key)).isSome = true
  macros : w.macros = c.defines.filter fun d => !isGuardName d.name
  known : ∀ key ∈ w.visited, key ∈ keys
  once : w.visited.Nodup
  parsed : w.exhausted = false
  read : c.exhausted = false

/-- The files that are left. -/
def unvisited (keys : Finset String) (w : HeaderParser) : Finset String :=
  keys.filter fun key => key ∉ w.visited

theorem unvisited_mono (h : w.visited ⊆ w'.visited) : unvisited keys w' ⊆ unvisited keys w := by
  intro key hkey
  rw [unvisited, Finset.mem_filter] at hkey ⊢
  exact ⟨hkey.1, fun hmem => hkey.2 (h hmem)⟩

/-- A definition in the body of a header. -/
theorem Agree.define (h : Agree g w c) {name value source : String} {n : Nat}
    (hname : isGuardName name = false) :
    Agree g (w.recordDefine source n name value) (c.define source n name value) := by
  rw [HeaderParser.recordDefine, if_neg (by simp [hname])]
  refine { h with symbols := ?_, guards := ?_, visited := ?_, macros := ?_ }
  · intro x hx
    by_cases hxn : x = name
    · simp [HeaderTable.define, Preprocessor.define, hxn]
    · simpa [HeaderTable.define, Preprocessor.define, hxn] using h.symbols x hx
  · intro x hx
    have hxn : x ≠ name := by rintro rfl; simp [hx] at hname
    simpa [HeaderTable.define, hxn] using h.guards x hx
  · intro key hkey
    have hne : g.guard key ≠ name := by
      intro hg
      have := g.isGuard key hkey
      simp [hg, hname] at this
    simpa [Preprocessor.define, HeaderTable.define, hne] using h.visited key hkey
  · simp [Preprocessor.define, h.macros, hname]

/-- The guard of a file that is entered. -/
theorem Agree.enter (h : Agree g w c) {key : String} (source : String) (n : Nat)
    (hkey : key ∈ keys) (hnew : key ∉ w.visited) :
    Agree g { w with visited := key :: w.visited } (c.define source n (g.guard key) "") := by
  have hguard := g.isGuard key hkey
  refine { h with symbols := ?_, visited := ?_, macros := ?_, known := ?_, once := ?_ }
  · intro x hx
    have hne : x ≠ g.guard key := by rintro rfl; simp [hguard] at hx
    simpa [Preprocessor.define, HeaderTable.define, hne] using h.symbols x hx
  · intro key' hkey'
    by_cases hk : key' = key
    · subst hk
      simp [Preprocessor.define, HeaderTable.define]
    · have hne : g.guard key' ≠ g.guard key := fun hg => hk (g.distinct key' hkey' key hkey hg)
      simpa [Preprocessor.define, HeaderTable.define, hne, hk] using h.visited key' hkey'
  · simp [Preprocessor.define, h.macros, hguard]
  · intro key' hmem
    rcases List.mem_cons.mp hmem with rfl | hmem
    · exact hkey
    · exact h.known key' hmem
  · exact List.nodup_cons.mpr ⟨hnew, h.once⟩

/-- The lines of a body, when inclusions keep the two together. -/
theorem matching (source : String) {V : List String} {follow : String → HeaderParser → HeaderParser}
    {follow' : String → Preprocessor → Preprocessor}
    (hfollow : ∀ path w c, Agree g w c → V ⊆ w.visited →
      Agree g (follow path w) (follow' path c) ∧ V ⊆ (follow path w).visited) :
    Matching eval (parserSymbols eval source follow) (cppSymbols eval source follow')
      fun w c => Agree g w c ∧ V ⊆ w.visited where
  opening := by
    intro n w c opening hR hplain
    cases opening with
    | ifdef name => simp [Opening.holds, parserSymbols, cppSymbols, hR.1.symbols name hplain]
    | ifndef name => simp [Opening.holds, parserSymbols, cppSymbols, hR.1.symbols name hplain]
    | if_ condition => exact hplain _ _ hR.1.symbols
  elif := by
    intro n w c condition hR hplain
    exact hplain _ _ hR.1.symbols
  act := by
    intro n w c l hR hplain
    cases l with
    | include_ path => exact hfollow path w c hR.1 hR.2
    | define name value =>
        refine ⟨hR.1.define hplain, ?_⟩
        simp only [parserSymbols, HeaderParser.recordDefine]
        split
        · exact hR.2
        · exact hR.2
    | other => exact hR

/-- A file that was not visited yet: the parser reads its body, and so does the preprocessor. -/
theorem enter_spec {key : String} (source : String) {follow : String → HeaderParser → HeaderParser}
    {follow' : String → Preprocessor → Preprocessor} (h : Agree g w c) (hkey : key ∈ keys)
    (hnew : key ∉ w.visited)
    (hfollow : ∀ path w' c', Agree g w' c' → key :: w.visited ⊆ w'.visited →
      Agree g (follow path w') (follow' path c') ∧
        key :: w.visited ⊆ (follow path w').visited) :
    Agree g (parseFile (parserSymbols eval source follow)
        { w with visited := key :: w.visited } (fs.lines key)).world
      ((g.file key).process (cppSymbols eval source follow') 1 c).2 ∧
    key :: w.visited ⊆ (parseFile (parserSymbols eval source follow)
        { w with visited := key :: w.visited } (fs.lines key)).world.visited := by
  have hguard := g.isGuard key hkey
  -- neither of them has defined the guard
  have hparser : w.symbols (g.guard key) = none := h.guards _ hguard
  have hcpp : (c.symbols (g.guard key)).isSome = false := by
    rw [← Bool.not_eq_true]
    exact fun hsome => hnew ((h.visited key hkey).mpr hsome)
  have hbody := (g.body key).process_rel (matching source hfollow) (n := 3)
    (g.plain key hkey) ⟨h.enter source 2 hkey hnew, List.Subset.refl _⟩
  obtain ⟨more, -, hrun⟩ := (guardedFile (g.guard key) (g.body key)).runs_process
    (o := parserSymbols eval source follow) 1 { w with visited := key :: w.visited } [] rfl []
  rw [g.lines key hkey, parseFile, hrun]
  simpa [Guarded.file, guardedFile, Block.process, Opening.holds, parserSymbols, cppSymbols,
    hparser, hcpp, HeaderParser.recordDefine, hguard] using hbody

/-- A file that has been visited: its guard is defined, so its body is skipped. -/
theorem process_visited {key source : String} {follow' : String → Preprocessor → Preprocessor}
    (h : Agree g w c) (hkey : key ∈ keys) (hold : key ∈ w.visited) :
    ((g.file key).process (cppSymbols eval source follow') 1 c).2 = c := by
  have hcpp := (h.visited key hkey).mp hold
  simp [Guarded.file, guardedFile, Block.process, Branches.process, Opening.holds, cppSymbols,
    hcpp]

/-- An inclusion, with as much nesting allowed as files are left. -/
theorem include_agree : ∀ (fuel : Nat) {fuel' : Nat} (path : String) {w : HeaderParser}
    {c : Preprocessor}, Agree g w c → (unvisited keys w).card ≤ fuel →
    (unvisited keys w).card < fuel' →
    Agree g (parseHeader fs includePaths eval fuel path w)
        (preprocess fs includePaths eval g.file fuel' path c) ∧
      w.visited ⊆ (parseHeader fs includePaths eval fuel path w).visited := by
  intro fuel
  induction fuel with
  | zero =>
      intro fuel' path w c h hfuel hfuel'
      obtain ⟨fuel', rfl⟩ := Nat.exists_eq_succ_of_ne_zero (by omega : fuel' ≠ 0)
      rw [parseHeader, preprocess]
      cases hres : fs.resolve includePaths path with
      | none => exact ⟨h, List.Subset.refl _⟩
      | some resolved =>
          have hkey := g.closed path resolved hres
          have hold : fs.real resolved ∈ w.visited := by
            by_contra hnew
            have hmem : fs.real resolved ∈ unvisited keys w :=
              Finset.mem_filter.mpr ⟨hkey, hnew⟩
            have := Finset.card_pos.mpr ⟨_, hmem⟩
            omega
          simp only [if_pos hold, process_visited h hkey hold]
          exact ⟨h, List.Subset.refl _⟩
  | succ fuel ih =>
      intro fuel' path w c h hfuel hfuel'
      obtain ⟨fuel', rfl⟩ := Nat.exists_eq_succ_of_ne_zero (by omega : fuel' ≠ 0)
      rw [parseHeader, preprocess]
      cases hres : fs.resolve includePaths path with
      | none => exact ⟨h, List.Subset.refl _⟩
      | some resolved =>
          have hkey := g.closed path resolved hres
          by_cases hold : fs.real resolved ∈ w.visited
          · simp only [if_pos hold, process_visited h hkey hold]
            exact ⟨h, List.Subset.refl _⟩
          · -- one file less is left while its body is read
            have hless : ∀ w' : HeaderParser, fs.real resolved :: w.visited ⊆ w'.visited →
                (unvisited keys w').card < (unvisited keys w).card := by
              intro w' hsub
              refine Finset.card_lt_card ⟨unvisited_mono fun x hx => hsub (by simp [hx]), ?_⟩
              intro hall
              have hmem := hall (Finset.mem_filter.mpr ⟨hkey, hold⟩)
              exact (Finset.mem_filter.mp hmem).2 (hsub (by simp))
            simp only [if_neg hold]
            obtain ⟨hagree, hsub⟩ := enter_spec resolved h hkey hold
              fun path w' c' h' hsub => by
                have hcard := hless w' hsub
                obtain ⟨hagree, hmono⟩ := ih path h' (by omega)
                  (by omega : (unvisited keys w').card < fuel')
                exact ⟨hagree, fun x hx => hmono (hsub hx)⟩
            exact ⟨hagree, fun x hx => hsub (by simp [hx])⟩

end Traversal

def cyclicGuard (key : String) : String := if key = "a.h" then "_A_H" else "_B_H"

def cyclicFlag : String := "A"

def cyclicBody (key : String) : Block HeaderLine :=
  if key = "a.h" then
    .line (.define cyclicFlag "1") (.line (.include_ "b.h") (.line (.include_ "b.h") .nil))
  else
    .line (.include_ "a.h")
      (.group (.ifdef cyclicFlag) (.line (.define "B" "A + 1") .nil) .endif .nil)

def cyclicFiles : FileSystem where
  isAbsolute _ := false
  present path := path = "a.h" || path = "b.h"
  join _ path := path
  real path := path
  lines key := (guardedFile (cyclicGuard key) (cyclicBody key)).flatten

def cyclicEval (_ : HeaderTable) (_ : String) : Bool := false

theorem cyclic_lines : ∀ key ∈ ({"a.h", "b.h"} : Finset String),
    cyclicFiles.lines key = (guardedFile (cyclicGuard key) (cyclicBody key)).flatten :=
  fun _ _ => rfl

theorem cyclic_isGuard : ∀ key ∈ ({"a.h", "b.h"} : Finset String),
    isGuardName (cyclicGuard key) = true := by decide +kernel

theorem cyclic_distinct : ∀ key ∈ ({"a.h", "b.h"} : Finset String),
    ∀ key' ∈ ({"a.h", "b.h"} : Finset String), cyclicGuard key = cyclicGuard key' → key = key' := by
  decide +kernel

theorem cyclic_plain : ∀ key ∈ ({"a.h", "b.h"} : Finset String),
    (cyclicBody key).Plain cyclicEval := by
  have hA : isGuardName cyclicFlag = false := by decide +kernel
  have hB : isGuardName "B" = false := by decide +kernel
  intro key hkey
  rcases Finset.mem_insert.mp hkey with rfl | hkey
  · simp [cyclicBody, Block.Plain, HeaderLine.Plain, hA]
  · obtain rfl := Finset.mem_singleton.mp hkey
    simp [cyclicBody, Block.Plain, Branches.Plain, Opening.Plain, HeaderLine.Plain, hA, hB]

theorem cyclic_closed (path resolved : String)
    (h : cyclicFiles.resolve ["."] path = some resolved) :
    cyclicFiles.real resolved ∈ ({"a.h", "b.h"} : Finset String) := by
  have hres : (path = "a.h" ∨ path = "b.h") ∧ path = resolved := by
    simpa [FileSystem.resolve, cyclicFiles] using h
  obtain ⟨hpath, rfl⟩ := hres
  simpa [cyclicFiles] using hpath

def cyclic : Guarded cyclicFiles ["."] cyclicEval {"a.h", "b.h"} where
  guard := cyclicGuard
  body := cyclicBody
  lines := cyclic_lines
  isGuard := cyclic_isGuard
  distinct := cyclic_distinct
  plain := cyclic_plain
  closed := cyclic_closed

end VibeRtos.Features
