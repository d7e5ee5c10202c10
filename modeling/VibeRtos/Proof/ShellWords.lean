import Mathlib.Data.List.TakeWhile
import VibeRtos.Sys.ShellArgs
import VibeRtos.Proof.ShellEditor

/-!
# The words of a line

`_shell_dispatch` splits the line in place: each word ends up with a NUL behind it, and the
argument array points to the words. The words of a line are the pieces between its blanks,
without the empty ones.
-/

namespace VibeRtos

/-- The maximal runs of characters that are neither blank nor tab. -/
def lineWords (line : List UInt8) : List (List UInt8) :=
  (line.splitOnP isBlank).filter fun w => w ≠ []

section Words

variable {line rest w : List UInt8} {c : UInt8}

theorem not_of_dropWhile {f : UInt8 → Bool} (h : line.dropWhile f = c :: rest) : f c = false := by
  have hhead := List.head_dropWhile_not f (l := line) (by rw [h]; simp)
  simpa only [h, List.head_cons] using hhead

@[simp] theorem lineWords_nil : lineWords [] = [] := rfl

theorem lineWords_blank (hc : isBlank c = true) : lineWords (c :: line) = lineWords line := by
  rw [lineWords, List.splitOnP_cons_eq_if_modifyHead, if_pos hc, List.filter_cons_of_neg (by simp)]
  rfl

theorem lineWords_dropWhile (line : List UInt8) :
    lineWords (line.dropWhile isBlank) = lineWords line := by
  induction line with
  | nil => rfl
  | cons c line ih =>
      by_cases hc : isBlank c = true
      · rw [List.dropWhile_cons_of_pos hc, ih, lineWords_blank hc]
      · rw [List.dropWhile_cons_of_neg hc]

theorem lineWords_word (hw : ∀ d ∈ w, isBlank d = false) (hne : w ≠ []) : lineWords w = [w] := by
  rw [lineWords, List.splitOnP_eq_singleton hw, List.filter_cons_of_pos (by simpa using hne)]
  rfl

theorem lineWords_word_append (hw : ∀ d ∈ w, isBlank d = false) (hne : w ≠ [])
    (hc : isBlank c = true) : lineWords (w ++ c :: rest) = w :: lineWords rest := by
  rw [lineWords, List.splitOnP_append_cons_of_forall_mem hw c hc,
    List.filter_cons_of_pos (by simpa using hne)]
  rfl

end Words

/-! ## Strings in the buffer -/

namespace LineBuf

variable {n : Nat} {buf buf' : LineBuf n} {p : Nat} {cs : List UInt8} {f : UInt8 → Bool}

theorem load_of_ge (buf : LineBuf n) (hp : n ≤ p) : buf.load p = none := by
  rw [LineBuf.load, dif_neg (by omega)]

/-- The buffer holds the string `cs` at `p`. -/
structure HoldsString (buf : LineBuf n) (p : Nat) (cs : List UInt8) : Prop where
  bytes : ∀ (i : Nat) (hi : i < cs.length), buf.load (p + i : Nat) = some cs[i]
  ne_zero : ∀ c ∈ cs, c ≠ 0
  nul : buf.load (p + cs.length : Nat) = some 0

theorem HoldsString.lt (h : buf.HoldsString p cs) : p + cs.length < n := lt_of_load h.nul

theorem HoldsString.cString (h : buf.HoldsString p cs) : buf.cString (n + 1) p = some cs :=
  cString_eq (n + 1) p cs (by have := h.lt; omega) h.bytes h.ne_zero h.nul

theorem HoldsString.tail {c : UInt8} (h : buf.HoldsString p (c :: cs)) :
    buf.HoldsString (p + 1) cs := by
  refine ⟨fun i hi => ?_, fun d hd => h.ne_zero d (List.mem_cons_of_mem _ hd), ?_⟩
  · have hbyte := h.bytes (i + 1) (by simpa using hi)
    rwa [show p + (i + 1) = p + 1 + i by omega] at hbyte
  · have hnul := h.nul
    rwa [List.length_cons, show p + (cs.length + 1) = p + 1 + cs.length by omega] at hnul

/-- The first character of a string, or its NUL. -/
theorem HoldsString.load (h : buf.HoldsString p cs) : buf.load p = some (cs.headD 0) := by
  cases cs with
  | nil => exact h.nul
  | cons c cs => exact h.bytes 0 (by simp)

/-- A scan stops behind the characters that meet its condition. -/
theorem HoldsString.scan (hf : f 0 = false) : ∀ (fuel p : Nat) (cs : List UInt8),
    buf.HoldsString p cs → cs.length < fuel →
    ∃ q, buf.scan f fuel p = some q ∧ q + (cs.dropWhile f).length = p + cs.length
      ∧ buf.HoldsString q (cs.dropWhile f) := by
  intro fuel
  induction fuel with
  | zero =>
      intro p cs h hfuel
      omega
  | succ fuel ih =>
      intro p cs h hfuel
      cases cs with
      | nil =>
          refine ⟨p, ?_, rfl, h⟩
          rw [LineBuf.scan, h.load, Option.bind_some, List.headD_nil, hf]
          rfl
      | cons c cs =>
          by_cases hc : f c = true
          · obtain ⟨q, hq, hlen, hrest⟩ := ih (p + 1) cs h.tail (by simpa using hfuel)
            rw [List.dropWhile_cons_of_pos hc]
            refine ⟨q, ?_, by rw [hlen, List.length_cons]; omega, hrest⟩
            rw [LineBuf.scan, h.load, Option.bind_some, List.headD_cons, if_pos hc]
            exact hq
          · rw [List.dropWhile_cons_of_neg hc]
            refine ⟨p, ?_, rfl, h⟩
            rw [LineBuf.scan, h.load, Option.bind_some, List.headD_cons, if_neg hc]

/-- A word with a NUL behind it, wherever the rest of the line has gone. -/
theorem HoldsString.word {w rest : List UInt8} (h : buf.HoldsString p (w ++ rest))
    (hkeep : ∀ j < p + w.length, buf'.load (j : Nat) = buf.load (j : Nat))
    (hnul : buf'.load (p + w.length : Nat) = some 0) : buf'.HoldsString p w := by
  refine ⟨fun i hi => ?_, fun c hc => h.ne_zero c (List.mem_append_left _ hc), hnul⟩
  rw [hkeep (p + i) (by omega), h.bytes i (by rw [List.length_append]; omega)]
  rw [List.getElem_append_left hi]

/-- What lies behind a store is as before. -/
theorem HoldsString.congr (h : buf.HoldsString p cs)
    (hkeep : ∀ j, p ≤ j → j < n → buf'.load (j : Nat) = buf.load (j : Nat)) :
    buf'.HoldsString p cs := by
  have hlt := h.lt
  refine ⟨fun i hi => ?_, h.ne_zero, ?_⟩
  · rw [hkeep (p + i) (by omega) (by omega)]
    exact h.bytes i hi
  · rw [hkeep (p + cs.length) (by omega) hlt]
    exact h.nul

end LineBuf

/-! ## The split -/

section Split

open LineBuf

variable {n : Nat} {buf : LineBuf n} {p : Nat} {rest : List UInt8}

/-- What the split makes of the line from `p` on: pointers to its first words, each with a NUL
behind it. Nothing outside of the line is touched. -/
structure SplitFrom (buf : LineBuf n) (p : Nat) (rest : List UInt8) (room : Nat) (buf' : LineBuf n)
    (args : List Nat) : Prop where
  length : args.length = min room (lineWords rest).length
  words : ∀ (i a : Nat) (w : List UInt8), args[i]? = some a → (lineWords rest)[i]? = some w →
    buf'.HoldsString a w
  before : ∀ j < p, buf'.load (j : Nat) = buf.load (j : Nat)
  behind : ∀ j, p + rest.length ≤ j → buf'.load (j : Nat) = buf.load (j : Nat)
  /-- without a word nothing is written -/
  blank : lineWords rest = [] → buf' = buf

/-- One more word in front. -/
theorem SplitFrom.cons {buf₁ buf' : LineBuf n} {p' q room : Nat} {rest' w : List UInt8}
    {args : List Nat} (h : SplitFrom buf₁ p' rest' room buf' args)
    (hwords : lineWords rest = w :: lineWords rest') (hw : buf'.HoldsString q w) (hp : p ≤ p')
    (hend : p' + rest'.length = p + rest.length)
    (hframe : ∀ j, j < p ∨ p + rest.length ≤ j → buf₁.load (j : Nat) = buf.load (j : Nat)) :
    SplitFrom buf p rest (room + 1) buf' (q :: args) := by
  refine ⟨?_, fun i a v ha hv => ?_, fun j hj => ?_, fun j hj => ?_, fun hnil => ?_⟩
  · rw [List.length_cons, h.length, hwords, List.length_cons]
    omega
  · rw [hwords] at hv
    cases i with
    | zero =>
        obtain rfl : q = a := by simpa using ha
        obtain rfl : w = v := by simpa using hv
        exact hw
    | succ i => exact h.words i a v (by simpa using ha) (by simpa using hv)
  · rw [h.before j (by omega), hframe j (Or.inl hj)]
  · rw [h.behind j (by omega), hframe j (Or.inr hj)]
  · exact absurd (hwords.symm.trans hnil) (by simp)

/-- What is behind the blanks is nothing or begins with a word, and behind the word is nothing
or a blank. -/
theorem lineWords_cases (hne : ∀ c ∈ rest, c ≠ 0) :
    let word := (rest.dropWhile isBlank).takeWhile fun c => c ≠ 0 && ! isBlank c
    let tail := (rest.dropWhile isBlank).dropWhile fun c => c ≠ 0 && ! isBlank c
    rest.dropWhile isBlank = [] ∧ lineWords rest = []
      ∨ (rest.dropWhile isBlank).headD 0 ≠ 0 ∧ rest.dropWhile isBlank = word ++ tail
        ∧ (tail = [] ∧ lineWords rest = [word]
          ∨ ∃ c rest', tail = c :: rest' ∧ c ≠ 0 ∧ lineWords rest = word :: lineWords rest') := by
  intro word tail
  have hsplit : rest.dropWhile isBlank = word ++ tail := List.takeWhile_append_dropWhile.symm
  have hblank : ∀ d ∈ word, isBlank d = false := by
    intro d hd
    have hd' := List.mem_takeWhile_imp hd
    simp only [Bool.and_eq_true, Bool.not_eq_true'] at hd'
    exact hd'.2
  rw [← lineWords_dropWhile rest]
  cases hdrop : rest.dropWhile isBlank with
  | nil => exact Or.inl ⟨rfl, rfl⟩
  | cons c rest₁ =>
      have hsub : ∀ d ∈ rest.dropWhile isBlank, d ≠ 0 := fun d hd =>
        hne d ((List.dropWhile_suffix _).subset hd)
      have hc0 : c ≠ 0 := hsub c (by rw [hdrop]; exact List.mem_cons_self ..)
      have hcb : isBlank c = false := not_of_dropWhile hdrop
      have hword : word ≠ [] := by
        have htake : word = c :: rest₁.takeWhile fun c => c ≠ 0 && ! isBlank c := by
          show List.takeWhile _ (rest.dropWhile isBlank) = _
          rw [hdrop, List.takeWhile_cons_of_pos (by simp [hc0, hcb])]
        rw [htake]
        simp
      rw [← hdrop]
      refine Or.inr ⟨by rw [hdrop]; exact hc0, hsplit, ?_⟩
      rw [hsplit]
      cases htail : tail with
      | nil => exact Or.inl ⟨rfl, by rw [List.append_nil]; exact lineWords_word hblank hword⟩
      | cons b rest' =>
          have hb0 : b ≠ 0 := hsub b (by rw [hsplit, htail]; simp)
          have hstop : (decide (b ≠ 0) && ! isBlank b) = false := not_of_dropWhile htail
          have hb : isBlank b = true := by simpa [hb0] using hstop
          exact Or.inr ⟨b, rest', rfl, hb0, lineWords_word_append hblank hword hb⟩

/-- **The split finds the first words of the line.** -/
theorem shellArgv_words : ∀ (room : Nat) (buf : LineBuf n) (p : Nat) (argv : List Nat)
    (rest : List UInt8), buf.HoldsString p rest →
    ∃ buf' args, shellArgv room buf p argv = some (buf', argv ++ args)
      ∧ SplitFrom buf p rest room buf' args := by
  intro room
  induction room with
  | zero =>
      intro buf p argv rest h
      refine ⟨buf, [], ?_, by simp, by simp, fun _ _ => rfl, fun _ _ => rfl, fun _ => rfl⟩
      rw [shellArgv, h.load, List.append_nil]
      rfl
  | succ room ih =>
      intro buf p argv rest h
      have hn := h.lt
      obtain ⟨q, hq, hqlen, hword⟩ :=
        HoldsString.scan (f := isBlank) rfl (n + 1) p rest h (by omega)
      obtain ⟨r, hr, hrlen, htail⟩ := HoldsString.scan (f := fun c => c ≠ 0 && ! isBlank c) rfl
        (n + 1) q _ hword (by have := hword.lt; omega)
      by_cases hend : rest.headD 0 = 0
      · -- the line is at its end
        obtain rfl : rest = [] := by
          cases rest with
          | nil => rfl
          | cons c rest => exact absurd hend (h.ne_zero c (List.mem_cons_self ..))
        refine ⟨buf, [], ?_, by simp, by simp, fun _ _ => rfl, fun _ _ => rfl, fun _ => rfl⟩
        simp only [shellArgv, h.load, Option.bind_eq_bind, Option.bind_some, if_pos hend,
          List.append_nil]
        rfl
      · rcases lineWords_cases h.ne_zero with ⟨hnil, hwords⟩ | ⟨hhead, hsplit, hwords⟩
        · -- nothing but blanks is left
          refine ⟨buf, [], ?_, by simp [hwords], by simp, fun _ _ => rfl, fun _ _ => rfl,
            fun _ => rfl⟩
          have hq0 : buf.load q = some 0 := by rw [hword.load, hnil]; rfl
          simp only [shellArgv, h.load, Option.bind_eq_bind, Option.bind_some, if_neg hend, hq,
            hq0, if_true, List.append_nil]
          rfl
        · have hlen := congrArg List.length hsplit
          rw [List.length_append] at hlen
          have hqc := hword.load
          rw [hsplit] at hword
          rcases hwords with ⟨hnil, hwords⟩ | ⟨c, rest', hcons, hc0, hwords⟩
          · -- the last word ends with the line
            have hr0 : buf.load r = some 0 := by rw [htail.load, hnil]; rfl
            obtain ⟨buf', args, heq, hrest⟩ := ih buf r (argv ++ [q]) _ htail
            rw [hnil] at hrest hrlen hlen
            rw [List.length_nil] at hrlen hlen
            have hw : buf'.HoldsString q _ := hword.word (fun j hj => hrest.before j (by omega)) (by
              rw [hrest.behind _ (by rw [List.length_nil]; omega)]
              rwa [show q + _ = r by omega])
            refine ⟨buf', q :: args, ?_, hrest.cons hwords hw (by omega)
              (by rw [List.length_nil]; omega) fun _ _ => rfl⟩
            simp only [shellArgv, h.load, Option.bind_eq_bind, Option.bind_some, if_neg hend, hq,
              hqc, if_neg hhead, hr, hr0, if_true]
            rw [heq, List.append_assoc]
            rfl
          · -- the blank behind the word becomes its NUL
            have hle := (List.dropWhile_suffix isBlank (l := rest)).length_le
            have hrc : buf.load r = some c := by rw [htail.load, hcons]; rfl
            rw [hcons] at htail hrlen hlen
            rw [List.length_cons] at hrlen hlen
            obtain ⟨buf₁, hstore, hself, hkeep⟩ := store_spec buf (lt_of_load hrc) 0
            have hbehind : buf₁.HoldsString (r + 1) rest' := htail.tail.congr
              fun j hj hjn => hkeep j hjn (by omega)
            obtain ⟨buf', args, heq, hrest⟩ := ih buf₁ (r + 1) (argv ++ [q]) rest' hbehind
            have hw : buf'.HoldsString q _ := hword.word
              (fun j hj => by rw [hrest.before j (by omega), hkeep j (by omega) (by omega)]) (by
              rw [hrest.before _ (by omega)]
              rwa [show q + _ = r by omega])
            refine ⟨buf', q :: args, ?_, hrest.cons hwords hw (by omega) (by omega) ?_⟩
            · simp only [shellArgv, h.load, Option.bind_eq_bind, Option.bind_some, if_neg hend, hq,
                hqc, if_neg hhead, hr, hrc, if_neg hc0, hstore]
              rw [heq, List.append_assoc]
              rfl
            · intro j hj
              by_cases hjn : j < n
              · exact hkeep j hjn (by omega)
              · rw [load_of_ge buf₁ (by omega), load_of_ge buf (by omega)]

/-! ## The argument array -/

variable {m : Nat}

/-- The array with the arguments in its first slots. -/
def ArgvArray.fill (argv : ArgvArray m) (args : List Nat) : ArgvArray m := fun i =>
  match args[i.val]? with
  | some a => some (some a)
  | none => argv i

theorem ArgvArray.store_fill (argv : ArgvArray m) {args : List Nat} (a : Nat)
    (hlen : args.length < m) : (argv.fill args).store args.length (some a)
      = some (argv.fill (args ++ [a])) := by
  rw [ArgvArray.store, dif_pos hlen]
  congr 1
  funext i
  by_cases hi : i = ⟨args.length, hlen⟩
  · subst hi
    rw [Function.update_self]
    simp [ArgvArray.fill]
  · have hne : i.val ≠ args.length := fun he => hi (Fin.ext he)
    rw [Function.update_of_ne hi, ArgvArray.fill, ArgvArray.fill]
    by_cases hlt : i.val < args.length
    · rw [List.getElem?_append_left hlt]
    · rw [List.getElem?_eq_none (by omega), List.getElem?_eq_none (by simp; omega)]

theorem bind_eq_map_bind {α β γ : Type} {o : Option α} {f : α → Option γ} {g : α → Option β}
    {k : β → γ} (h : ∀ a, f a = (g a).map k) : o.bind f = (o.bind g).map k := by
  cases o with
  | none => rfl
  | some a => exact h a

/-- The loop builds in the array what `shellArgv` collects in a list. -/
theorem splitLoop_eq (argv : ArgvArray m) : ∀ (room : Nat) (buf : LineBuf n) (args : List Nat)
    (p : Nat), args.length + room + 1 = m →
    splitLoop (room + 1) buf (argv.fill args) args.length p
      = (shellArgv room buf p args).map fun r => (r.1, argv.fill r.2, r.2.length) := by
  intro room
  induction room with
  | zero =>
      intro buf args p hm
      have hfull : ¬ args.length < m - 1 := by omega
      rw [splitLoop, shellArgv]
      cases buf.load p with
      | none => rfl
      | some c =>
          simp only [Option.bind_eq_bind, Option.bind_some, hfull, not_false_eq_true, or_true,
            if_true]
          rfl
  | succ room ih =>
      intro buf args p hm
      have hroom : args.length < m - 1 := by omega
      have hnext : ∀ (buf : LineBuf n) (q r : Nat),
          splitLoop (room + 1) buf (argv.fill (args ++ [q])) (args.length + 1) r
            = (shellArgv room buf r (args ++ [q])).map
              fun r => (r.1, argv.fill r.2, r.2.length) := by
        intro buf q r
        have heq := ih buf (args ++ [q]) r
          (by rw [List.length_append, List.length_singleton]; omega)
        rwa [List.length_append, List.length_singleton] at heq
      have hstore : ∀ q, (argv.fill args).store args.length (some q)
          = some (argv.fill (args ++ [q])) := fun q => argv.store_fill q (by omega)
      rw [splitLoop, shellArgv]
      simp only [hroom, not_true, or_false, Option.bind_eq_bind, hstore, Option.bind_some]
      -- the two go through the same reads
      refine bind_eq_map_bind fun c => ?_
      split
      · rfl
      refine bind_eq_map_bind fun q => bind_eq_map_bind fun d => ?_
      split
      · rfl
      refine bind_eq_map_bind fun r => bind_eq_map_bind fun e => ?_
      split
      · exact hnext buf q r
      · exact bind_eq_map_bind fun buf' => hnext buf' q (r + 1)

theorem ArgvArray.store_load (argv : ArgvArray m) {i : Nat} (hi : i < m) (v : Option Nat) :
    ∃ argv', argv.store i v = some argv' ∧ argv'.load i = some v
      ∧ ∀ j, j ≠ i → argv'.load j = argv.load j := by
  refine ⟨_, dif_pos hi, ?_, fun j hj => ?_⟩
  · rw [ArgvArray.load, dif_pos hi, Function.update_self]
  · unfold ArgvArray.load
    by_cases hjm : j < m
    · rw [dif_pos hjm, dif_pos hjm, Function.update_of_ne (by simpa [Fin.ext_iff] using hj)]
    · rw [dif_neg hjm, dif_neg hjm]

theorem ArgvArray.load_fill {argv : ArgvArray m} {args : List Nat} {i a : Nat}
    (ha : args[i]? = some a) (him : i < m) : (argv.fill args).load i = some (some a) := by
  rw [ArgvArray.load, dif_pos him, ArgvArray.fill]
  simp only [ha]

/-- The array has pointers to the words in its first slots, each word with a NUL behind it, and
`NULL` behind the pointers. -/
structure ArgvArray.Holds (argv : ArgvArray m) (buf : LineBuf n) (words : List (List UInt8)) :
    Prop where
  word : ∀ (i : Nat) (w : List UInt8), words[i]? = some w →
    ∃ a, argv.load i = some (some a) ∧ buf.HoldsString a w
  null : argv.load words.length = some none

/-- **The arguments of a line.** The loop ends within the buffer, and the array holds the first
words of the line. -/
theorem splitLoop_words {buf : LineBuf n} {line : List UInt8} (hline : buf.HoldsString 0 line)
    (hm : 2 ≤ m) : ∃ buf' argv argv', splitLoop m buf (ArgvArray.uninit m) 0 0
        = some (buf', argv, ((lineWords line).take (m - 1)).length)
      ∧ argv.store ((lineWords line).take (m - 1)).length none = some argv'
      ∧ argv'.Holds buf' ((lineWords line).take (m - 1))
      ∧ (∀ j, line.length ≤ j → buf'.load (j : Nat) = buf.load (j : Nat))
      ∧ (lineWords line = [] → buf' = buf) := by
  obtain ⟨buf', args, hargs, hsplit⟩ := shellArgv_words (m - 1) buf 0 [] line hline
  have hlen : args.length = ((lineWords line).take (m - 1)).length := by
    rw [hsplit.length, List.length_take]
  have hlt : args.length < m := by
    rw [hsplit.length]
    omega
  obtain ⟨argv', hstore, hnull, hkeep⟩ :=
    ((ArgvArray.uninit m).fill args).store_load hlt none
  refine ⟨buf', _, argv', ?_, by rw [← hlen]; exact hstore, ⟨fun i w hw => ?_, ?_⟩, fun j hj => ?_,
    hsplit.blank⟩
  · have hloop := splitLoop_eq (ArgvArray.uninit m) (m - 1) buf [] 0 (by simp; omega)
    rw [hargs, Option.map_some, List.nil_append, Nat.sub_add_cancel (by omega)] at hloop
    rw [← hlen]
    exact hloop
  · have hi : i < args.length := by
      rw [hlen]
      exact (List.getElem?_eq_some_iff.mp hw).1
    have ha := List.getElem?_eq_getElem hi
    rw [List.getElem?_take_of_lt (by omega)] at hw
    refine ⟨args[i], ?_, hsplit.words i _ w ha hw⟩
    rw [hkeep i (by omega)]
    exact ArgvArray.load_fill ha (by omega)
  · rw [← hlen]
    exact hnull
  · exact hsplit.behind j (by omega)

end Split

/-- The array read back. -/
theorem ArgvArray.args_eq {m : Nat} {argv : ArgvArray m} {args : List Nat}
    (h : ∀ (i : Nat) (hi : i < args.length), argv.load i = some (some args[i])) :
    argv.args args.length = args := by
  induction args using List.reverseRecOn with
  | nil => rfl
  | append_singleton args a ih =>
      have hlast := h args.length (by simp)
      rw [List.getElem_concat_length rfl] at hlast
      rw [ArgvArray.args, List.length_append, List.length_singleton, List.range_succ,
        List.filterMap_append, List.filterMap_cons_some (b := a) (by rw [hlast]; rfl)]
      congr 1
      refine ih fun i hi => ?_
      have hnext := h i (by rw [List.length_append]; omega)
      rwa [List.getElem_append_left hi] at hnext

/-- A handler that goes by `argc` sees the arguments that `shellDispatch` hands over. -/
theorem dispatchLine_eq {W : Type} {n : Nat} (cfg : ShellConfig) (cmds : List (ShellCmd W n))
    (s : Shell W n) {line : List UInt8} (hline : s.lineBuf.HoldsString 0 line) :
    dispatchLine cfg (cmds.map (ShellCmd.main cfg.maxArgs)) s = shellDispatch cfg cmds s := by
  have hm := cfg.maxArgs_range.1
  obtain ⟨buf, args, hargs, hsplit⟩ := shellArgv_words (cfg.maxArgs - 1) s.lineBuf 0 [] line hline
  rw [List.nil_append] at hargs
  have hlt : args.length < cfg.maxArgs := by
    rw [hsplit.length]
    omega
  have hloop := splitLoop_eq (ArgvArray.uninit cfg.maxArgs) (cfg.maxArgs - 1) s.lineBuf [] 0
    (by simp; omega)
  rw [hargs, Option.map_some, Nat.sub_add_cancel (by omega)] at hloop
  have hloop' : splitLoop cfg.maxArgs s.lineBuf (ArgvArray.uninit cfg.maxArgs) 0 0 = _ := hloop
  obtain ⟨argv, hstore, -, hkeep⟩ :=
    ((ArgvArray.uninit cfg.maxArgs).fill args).store_load hlt none
  have hread : ∀ (i : Nat) (hi : i < args.length), argv.load i = some (some args[i]) := by
    intro i hi
    rw [hkeep i (by omega)]
    exact ArgvArray.load_fill (List.getElem?_eq_getElem hi) (by omega)
  cases args with
  | nil =>
      rw [List.length_nil] at hstore
      simp only [dispatchLine, shellDispatch, hloop', hargs, hstore, Option.bind_eq_bind,
        Option.bind_some, List.length_nil, if_true]
  | cons arg0 args =>
      have harg0 : argv.load 0 = some (some arg0) := hread 0 (by simp)
      rw [List.length_cons] at hstore
      simp only [dispatchLine, shellDispatch, hloop', hargs, hstore, Option.bind_eq_bind,
        Option.bind_some, List.length_cons, Nat.succ_ne_zero, if_false, harg0]
      cases hname : buf.cString (n + 1) arg0 with
      | none => rfl
      | some name =>
          have hfind : ((cmds.map (ShellCmd.main cfg.maxArgs)).find? fun cmd => cmd.name = name)
              = (cmds.find? fun cmd => cmd.name = name).map (ShellCmd.main cfg.maxArgs) := by
            rw [List.find?_map]
            rfl
          rw [Option.bind_some, Option.bind_some, hfind]
          cases cmds.find? fun cmd => cmd.name = name with
          | none => rfl
          | some cmd =>
              have hsame : argv.args (args.length + 1) = arg0 :: args := ArgvArray.args_eq hread
              simp only [Option.map_some, ShellMain.call, ShellCmd.main, hsame]

/--
**The tokenizer of the shell.**

For every line, in a buffer of whatever length (so also in one that ends with the NUL of the
line, where nothing behind the line can be read or written), `_shell_dispatch` returns. The
argument array has the first words of the line, as many as `CONFIG_SHELL_MAX_ARGS` leaves room
for, and behind them `NULL`; the handler that has the first word as its name is called with it,
and a line without a word does nothing.
-/
theorem shell_tokenizer {W : Type} {n : Nat} (cfg : ShellConfig)
    (cmds : List (ShellMain W n cfg.maxArgs)) (s : Shell W n) (line : List UInt8)
    (hline : s.lineBuf.HoldsString 0 line) :
    ∃ buf argv, ArgvArray.Holds argv buf ((lineWords line).take (cfg.maxArgs - 1))
      ∧ (∀ j, line.length ≤ j → buf.load (j : Nat) = s.lineBuf.load (j : Nat))
      ∧ (lineWords line = [] → dispatchLine cfg cmds s = some s)
      ∧ ∀ name, (lineWords line).head? = some name →
        (∀ cmd, cmds.find? (fun cmd => cmd.name = name) = some cmd →
          dispatchLine cfg cmds s
            = some (cmd.call ((lineWords line).take (cfg.maxArgs - 1)).length argv buf s))
        ∧ (cmds.find? (fun cmd => cmd.name = name) = none →
          dispatchLine cfg cmds s = some (unknownCommand name { s with lineBuf := buf })) := by
  obtain ⟨buf, argv, argv', hloop, hstore, hholds, hframe, hblank⟩ :=
    splitLoop_words hline cfg.maxArgs_range.1
  refine ⟨buf, argv', hholds, hframe, fun hnil => ?_, fun name hname => ?_⟩
  · rw [hnil, List.take_nil, List.length_nil] at hloop hstore
    simp only [dispatchLine, hloop, hstore, Option.bind_eq_bind, Option.bind_some, if_true,
      hblank hnil]
    rfl
  · have hroom := cfg.maxArgs_range.1
    have hfirst : ((lineWords line).take (cfg.maxArgs - 1))[0]? = some name := by
      rw [List.getElem?_take_of_lt (by omega), ← List.head?_eq_getElem?, hname]
    have hsome : ((lineWords line).take (cfg.maxArgs - 1)).length ≠ 0 :=
      Nat.ne_of_gt (List.getElem?_eq_some_iff.mp hfirst).1
    obtain ⟨a, harg0, hstring⟩ := hholds.word 0 name hfirst
    constructor
    · intro cmd hfind
      simp only [dispatchLine, hloop, hstore, Option.bind_eq_bind, Option.bind_some, if_neg hsome,
        harg0, hstring.cString, hfind]
      rfl
    · intro hfind
      simp only [dispatchLine, hloop, hstore, Option.bind_eq_bind, Option.bind_some, if_neg hsome,
        harg0, hstring.cString, hfind]
      rfl

/-- A handler that fails and leaves its name in place is reported under it. -/
theorem returned_console {W : Type} {n : Nat} (s : Shell W n) {r : Handled W n} {a : Nat}
    {name : List UInt8} (harg0 : r.arg0 = some a) (hname : r.lineBuf.HoldsString a name)
    (hret : r.ret ≠ 0) : (s.returned r).console = s.console ++ [⟨some name, r.ret⟩] := by
  have hwrite : ∀ (t : Shell W n) (bytes : List UInt8), (t.write bytes).console = t.console := by
    intro t bytes
    unfold Shell.write
    split <;> rfl
  simp only [Shell.returned, if_pos hret, Shell.printkReturned, harg0, write_lineBuf, hwrite,
    hname.cString]

/-- `CONFIG_SHELL_MAX_ARGS` leaves room for two arguments. -/
def twoArgs : ShellConfig := ⟨32, 3, by decide, by decide, "> "⟩

/-- The line `" ab\tc d"`, in a buffer that ends with it. -/
def threeWords : Shell Nat 8 where
  attached := true
  lineBuf := ![0x20, 0x61, 0x62, 0x09, 0x63, 0x20, 0x64, 0]
  lineLen := 7
  world := 0
  out := []
  console := []
  lines := []

/-- A command that keeps its `argc` and returns it. -/
def countArgs : ShellMain Nat 8 3 where
  name := [0x61, 0x62]
  handler := fun argc argv buf _ => ⟨buf, (argv.load 0).join, argc, [], Int32.ofNat argc⟩

example : lineWords [0x20, 0x61, 0x62, 0x09, 0x63, 0x20, 0x64]
    = [[0x61, 0x62], [0x63], [0x64]] := by
  decide

/-- The command gets two of the three words, and is reported to have returned 2. -/
theorem shell_tokenizer_three_words : ∃ (buf : LineBuf 8) (argv : ArgvArray 3) (s : Shell Nat 8),
    argv.Holds buf [[0x61, 0x62], [0x63]]
      ∧ dispatchLine twoArgs [countArgs] threeWords = some s
      ∧ s.world = 2 ∧ s.console = [⟨some [0x61, 0x62], 2⟩] := by
  have hline : threeWords.lineBuf.HoldsString 0 [0x20, 0x61, 0x62, 0x09, 0x63, 0x20, 0x64] :=
    ⟨by decide +kernel, by decide +kernel, by decide +kernel⟩
  obtain ⟨buf, argv, hholds, -, -, hcall⟩ :=
    shell_tokenizer twoArgs [countArgs] threeWords _ hline
  obtain ⟨a, harg0, hname⟩ := hholds.word 0 [0x61, 0x62] (by decide)
  refine ⟨buf, argv, _, hholds, (hcall [0x61, 0x62] (by decide)).1 countArgs rfl, rfl, ?_⟩
  have hret : Int32.ofNat 2 ≠ 0 := by decide
  refine returned_console threeWords ?_ hname hret
  show (argv.load 0).join = some a
  rw [harg0]
  rfl

end VibeRtos
