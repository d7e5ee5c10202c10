import VibeRtos.Kernel.Snprintk
import Mathlib.Tactic

/-!
# What fits into the buffer

Whatever the callback is, `_fmt_core` calls it for the characters of one output, in order:
those that `fmtCore` collects. So the console gets them all, and the buffer the first ones;
the position goes on counting behind its end.
-/

namespace VibeRtos

/-! ## The arguments a format takes -/

/-- The conversion character, if it takes an argument. -/
def convTakes (c : Char) : List Char := if c ∈ "diuxXscp".toList then [c] else []

mutual

/-- The conversions of a format that take an argument. -/
def fmtTakes : List Char → List Char
  | [] => []
  | c :: p => if c ≠ '%' then fmtTakes p else percentTakes p

/-- Behind a `%`. -/
def percentTakes : List Char → List Char
  | [] => []
  | c :: p => if c = 'l' then longTakes p else convTakes c ++ fmtTakes p

/-- Behind the `l` modifier. -/
def longTakes : List Char → List Char
  | [] => []
  | c :: p => convTakes c ++ fmtTakes p

end

theorem fmtArg_none_iff (strAt : UInt32 → List Char) (c : Char) :
    fmtArg strAt c = none ↔ convTakes c = [] := by
  have hmem : c ∈ "diuxXscp".toList ↔ c = 'd' ∨ c = 'i' ∨ c = 'u' ∨ c = 'x' ∨ c = 'X' ∨ c = 's'
      ∨ c = 'c' ∨ c = 'p' := by
    simp
  unfold fmtArg convTakes
  simp only [hmem]
  split_ifs <;> simp_all

/-- One conversion, with an argument at hand if it takes one. -/
theorem fmtConv_enough (strAt : UInt32 → List Char) (isLong : Bool) (c : Char) (args : List Arg)
    (o : Printed) {p : List Char} (h : (convTakes c ++ p).length ≤ args.length) :
    ∃ args' o', fmtConv strAt isLong c args o = some (args', o') ∧ p.length ≤ args'.length := by
  unfold fmtConv
  cases harg : fmtArg strAt c with
  -- no argument is taken: a `%`, or a character that is printed as it is
  | none =>
      rw [(fmtArg_none_iff strAt c).mp harg, List.nil_append] at h
      dsimp only
      split
      · exact ⟨args, _, rfl, h⟩
      · exact ⟨args, _, rfl, h⟩
  | some text =>
      have hne : convTakes c ≠ [] := fun he => by
        rw [(fmtArg_none_iff strAt c).mpr he] at harg
        exact absurd harg (by simp)
      have hpos := List.length_pos_iff.mpr hne
      rw [List.length_append] at h
      cases args with
      | nil =>
          rw [List.length_nil] at h
          omega
      | cons a args =>
          refine ⟨args, _, rfl, ?_⟩
          rw [List.length_cons] at h
          omega

/-- **Enough arguments.** `_fmt_core` comes to the end of the format. -/
theorem fmtCore_enough (strAt : UInt32 → List Char) : ∀ (p : List Char) (args : List Arg)
    (o : Printed),
    ((fmtTakes p).length ≤ args.length → ∃ o', fmtCore strAt p args o = some o')
      ∧ ((percentTakes p).length ≤ args.length → ∃ o', fmtPercent strAt p args o = some o')
      ∧ ((longTakes p).length ≤ args.length → ∃ o', fmtLong strAt p args o = some o') := by
  intro p
  induction p with
  | nil => exact fun args o => ⟨fun _ => ⟨o, rfl⟩, fun _ => ⟨o, rfl⟩, fun _ => ⟨o, rfl⟩⟩
  | cons c p ih =>
      intro args o
      -- behind a `%` the conversion comes first, with or without the modifier
      have hconv : ∀ isLong, (convTakes c ++ fmtTakes p).length ≤ args.length →
          ∃ o', ((fmtConv strAt isLong c args o).bind fun r => fmtCore strAt p r.1 r.2)
            = some o' := by
        intro isLong hlen
        obtain ⟨args', o', hres, hlen'⟩ := fmtConv_enough strAt isLong c args o hlen
        rw [hres, Option.bind_some]
        exact (ih args' o').1 hlen'
      refine ⟨fun hlen => ?_, fun hlen => ?_, fun hlen => ?_⟩
      · rw [fmtTakes] at hlen
        rw [fmtCore]
        split
        · rename_i hc
          rw [if_pos hc] at hlen
          exact (ih args _).1 hlen
        · rename_i hc
          rw [if_neg hc] at hlen
          exact (ih args o).2.1 hlen
      · rw [percentTakes] at hlen
        rw [fmtPercent]
        split
        · rename_i hc
          rw [if_pos hc] at hlen
          exact (ih args o).2.2 hlen
        · rename_i hc
          rw [if_neg hc] at hlen
          exact hconv false hlen
      · rw [longTakes] at hlen
        rw [fmtLong]
        exact hconv true hlen

/-! ## One output for every callback -/

section Core

variable {σ : Type} (emit : EmitFn σ) (strAt : UInt32 → List Char)

theorem emitPuts_append (s s' : List Char) (ctx : σ) :
    emitPuts emit (s ++ s') ctx = emitPuts emit s' (emitPuts emit s ctx) := by
  induction s generalizing ctx with
  | nil => rfl
  | cons c s ih => exact ih (emit c ctx)

theorem emitPutuint_eq (v base : UInt32) (ctx : σ) :
    emitPutuint emit v base ctx = emitPuts emit (fmtPutuint v base) ctx := by
  unfold emitPutuint fmtPutuint
  split <;> rfl

/-- A conversion emits its text. -/
theorem emitArg_eq (c : Char) : emitArg emit strAt c
    = (fmtArg strAt c).map fun text w ctx => emitPuts emit (text w) ctx := by
  unfold emitArg fmtArg
  split
  · refine congrArg some (funext₂ fun w ctx => ?_)
    dsimp only
    split
    · exact emitPutuint_eq emit _ _ _
    · exact emitPutuint_eq emit _ _ _
  · split
    · exact congrArg some (funext₂ fun w ctx => emitPutuint_eq emit w 10 ctx)
    · split
      · exact congrArg some (funext₂ fun w ctx => emitPutuint_eq emit w 16 ctx)
      · split
        · rfl
        · split
          · rfl
          · split
            · refine congrArg some (funext₂ fun w ctx => ?_)
              exact emitPutuint_eq emit w 16 _
            · rfl

theorem emitConv_eq (isLong : Bool) (c : Char) (args : List Arg) (o : Printed) (ctx : σ) :
    emitConv emit strAt isLong c args (emitPuts emit o.out ctx)
      = (fmtConv strAt isLong c args o).map fun r => (r.1, emitPuts emit r.2.out ctx) := by
  unfold emitConv fmtConv
  rw [emitArg_eq]
  cases fmtArg strAt c with
  | none =>
      simp only [Option.map_none]
      split
      · simp [Printed.emit, emitPuts_append, emitPuts]
      · cases isLong <;> simp [Printed.emit, emitPuts_append, emitPuts]
  | some text =>
      cases args with
      | nil => rfl
      | cons a args => simp [emitPuts_append]

/-- **The characters do not depend on the callback.** -/
theorem emitCore_eq (ctx : σ) : ∀ (p : List Char) (args : List Arg) (o : Printed),
    emitCore emit strAt p args (emitPuts emit o.out ctx)
        = (fmtCore strAt p args o).map (fun o => emitPuts emit o.out ctx)
      ∧ emitPercent emit strAt p args (emitPuts emit o.out ctx)
        = (fmtPercent strAt p args o).map (fun o => emitPuts emit o.out ctx)
      ∧ emitLong emit strAt p args (emitPuts emit o.out ctx)
        = (fmtLong strAt p args o).map (fun o => emitPuts emit o.out ctx) := by
  intro p
  induction p with
  | nil => exact fun _ _ => ⟨rfl, rfl, rfl⟩
  | cons c p ih =>
      intro args o
      have hconv : ∀ isLong, ((emitConv emit strAt isLong c args (emitPuts emit o.out ctx)).bind
            fun r => emitCore emit strAt p r.1 r.2)
          = ((fmtConv strAt isLong c args o).bind fun r => fmtCore strAt p r.1 r.2).map
            fun o => emitPuts emit o.out ctx := by
        -- what has been emitted so far is the output of the collecting run
        intro isLong
        rw [emitConv_eq, Option.bind_map, Option.map_bind]
        refine congrArg _ (funext fun r => ?_)
        exact (ih r.1 r.2).1
      refine ⟨?_, ?_, ?_⟩
      · rw [emitCore, fmtCore]
        split
        · have hone : emit c (emitPuts emit o.out ctx) = emitPuts emit (o.emit [c]).out ctx := by
            simp [Printed.emit, emitPuts_append, emitPuts]
          rw [hone]
          exact (ih args _).1
        · exact (ih args o).2.1
      · rw [emitPercent, fmtPercent]
        split
        · exact (ih args o).2.2
        · exact hconv false
      · rw [emitLong, fmtLong]
        exact hconv true

end Core

/-! ## The two outputs -/

theorem console_puts (s sent : List Char) : emitPuts consoleEmit s sent = sent ++ s := by
  induction s generalizing sent with
  | nil => rw [List.append_nil, emitPuts]
  | cons c s ih => rw [emitPuts, ih, consoleEmit, List.append_assoc, List.singleton_append]

/-- The console gets the output. -/
theorem vprintkConsole_eq (strAt : UInt32 → List Char) (fmt : List Char) (args : List Arg) :
    vprintkConsole strAt fmt args = (vprintk strAt fmt args).map Printed.out := by
  have hcore := (emitCore_eq consoleEmit strAt [] fmt args ⟨[], []⟩).1
  refine hcore.trans (congrArg (fun f => Option.map f _) (funext fun o => ?_))
  exact console_puts o.out []

/-- The position counts all characters; those are stored that leave room for the NUL. -/
structure Stored (s : List Char) (ctx ctx' : SnprintkCtx) : Prop where
  size : ctx'.size = ctx.size
  pos : ctx'.pos.toNat = ctx.pos.toNat + s.length
  buf : ∀ i, ctx'.buf i = if ctx.pos.toNat ≤ i ∧ i + 1 < ctx.size.toNat
    then (s[i - ctx.pos.toNat]?).getD (ctx.buf i) else ctx.buf i

/-- `_buffer_emit`, as long as the position does not wrap. -/
theorem bufferEmit_stored (c : Char) (ctx : SnprintkCtx) (hpos : ctx.pos.toNat + 1 < 2 ^ 32) :
    Stored [c] ctx (bufferEmit c ctx) := by
  have hnext : (ctx.pos + 1).toNat = ctx.pos.toNat + 1 := by
    rw [UInt32.toNat_add]
    exact Nat.mod_eq_of_lt hpos
  have hroom : ctx.pos + 1 < ctx.size ↔ ctx.pos.toNat + 1 < ctx.size.toNat := by
    rw [UInt32.lt_iff_toNat_lt, hnext]
  refine ⟨rfl, hnext, fun i => ?_⟩
  simp only [bufferEmit, hroom]
  by_cases hi : i = ctx.pos.toNat
  · -- the character itself, if there is room for it and the NUL
    subst hi
    by_cases hlt : ctx.pos.toNat + 1 < ctx.size.toNat
    · simp [hlt]
    · simp [hlt]
  · have hsame : (if ctx.pos.toNat + 1 < ctx.size.toNat then
        Function.update ctx.buf ctx.pos.toNat c else ctx.buf) i = ctx.buf i := by
      split
      · exact Function.update_of_ne hi _ _
      · rfl
    rw [hsame]
    split
    · rename_i hle
      have hnone : [c][i - ctx.pos.toNat]? = none := by
        rw [List.getElem?_eq_none_iff, List.length_singleton]
        omega
      rw [hnone, Option.getD_none]
    · rfl

theorem buffer_puts : ∀ (s : List Char) (ctx : SnprintkCtx), ctx.pos.toNat + s.length < 2 ^ 32 →
    Stored s ctx (emitPuts bufferEmit s ctx) := by
  intro s
  induction s with
  | nil =>
      intro ctx _
      refine ⟨rfl, rfl, fun i => ?_⟩
      split <;> rfl
  | cons c s ih =>
      intro ctx hlen
      rw [List.length_cons] at hlen
      have hone := bufferEmit_stored c ctx (by omega)
      have hpos := hone.pos
      rw [List.length_singleton] at hpos
      have hrest := ih (bufferEmit c ctx) (by omega)
      have hall := hrest.pos
      refine ⟨hrest.size.trans hone.size, ?_, fun i => ?_⟩
      · show (emitPuts bufferEmit s (bufferEmit c ctx)).pos.toNat = _
        rw [List.length_cons]
        omega
      · show (emitPuts bufferEmit s (bufferEmit c ctx)).buf i = _
        rw [hrest.buf, hone.size, hpos, hone.buf]
        by_cases hi : i = ctx.pos.toNat
        · subst hi
          rw [if_neg (by omega), Nat.sub_self]
          rfl
        · -- behind the first character, which has left the others alone
          have hskip : ([c][i - ctx.pos.toNat]?).getD (ctx.buf i) = ctx.buf i
            ∨ i < ctx.pos.toNat := by
            by_cases hlow : i < ctx.pos.toNat
            · exact Or.inr hlow
            · have hnone : [c][i - ctx.pos.toNat]? = none := by
                rw [List.getElem?_eq_none_iff, List.length_singleton]
                omega
              rw [hnone]
              exact Or.inl rfl
          by_cases hin : ctx.pos.toNat ≤ i ∧ i + 1 < ctx.size.toNat
          · have hshift : i - ctx.pos.toNat = (i - (ctx.pos.toNat + 1)) + 1 := by omega
            rw [if_pos (by omega), if_pos hin, if_pos hin, hskip.resolve_right (by omega), hshift,
              List.getElem?_cons_succ]
          · rw [if_neg (by omega), if_neg hin, if_neg hin]

/-- What `vibe_vsnprintk` leaves in the memory from the buffer on. -/
structure Truncated (out : List Char) (size : UInt32) (buf buf' : Nat → Char) : Prop where
  stored : size ≠ 0 → ∀ i < min out.length (size.toNat - 1), out[i]? = some (buf' i)
  ended : size ≠ 0 → buf' (min out.length (size.toNat - 1)) = '\x00'
  outside : ∀ i, size.toNat ≤ i → buf' i = buf i

/--
**What `vibe_vsnprintk` makes of its output.**

For every format with enough arguments there is one output: the console gets it, and for every
buffer and size `vibe_vsnprintk` returns its length, stores what fits in front of the NUL, and
leaves alone what lies behind the buffer.
-/
theorem vsnprintk_truncates (strAt : UInt32 → List Char) (fmt : List Char) (args : List Arg)
    (hargs : (fmtTakes fmt).length ≤ args.length) :
    ∃ out, vprintkConsole strAt fmt args = some out
      ∧ (out.length < 2 ^ 32 → ∀ (buf : Nat → Char) (size : UInt32), ∃ buf',
        vsnprintk strAt buf size fmt args = some (UInt32.ofNat out.length, buf')
          ∧ Truncated out size buf buf') := by
  obtain ⟨o, ho⟩ := (fmtCore_enough strAt fmt args ⟨[], []⟩).1 hargs
  refine ⟨o.out, by rw [vprintkConsole_eq, vprintk, ho, Option.map_some], fun hlen buf size => ?_⟩
  have hcore := (emitCore_eq bufferEmit strAt ⟨buf, size, 0⟩ fmt args ⟨[], []⟩).1
  rw [ho, Option.map_some] at hcore
  have hzero : (0 : UInt32).toNat = 0 := rfl
  obtain ⟨hsize, hpos, hbuf⟩ :=
    buffer_puts o.out ⟨buf, size, 0⟩ (by rw [hzero, Nat.zero_add]; exact hlen)
  simp only [hzero, Nat.zero_add, Nat.zero_le, true_and, Nat.sub_zero] at hpos hbuf
  have hrun : vsnprintk strAt buf size fmt args = _ := congrArg (Option.map _) hcore
  rw [hrun]
  generalize emitPuts bufferEmit o.out ⟨buf, size, 0⟩ = ctx at *
  have hret : ctx.pos = UInt32.ofNat o.out.length := by
    rw [← hpos, UInt32.ofNat_toNat]
  refine ⟨_, congrArg some (Prod.ext hret rfl), ?_⟩
  by_cases hs : size = 0
  · -- without a buffer nothing is stored
    subst hs
    refine ⟨fun hne => absurd rfl hne, fun hne => absurd rfl hne, fun i _ => ?_⟩
    show ctx.buf i = buf i
    rw [hbuf, if_neg (by rw [hzero]; omega)]
  · have hspos : 0 < size.toNat := Nat.pos_of_ne_zero fun h0 => hs (UInt32.toNat_inj.mp h0)
    have hpos' : size > 0 := UInt32.lt_iff_toNat_lt.mpr hspos
    have hlast : (size - 1).toNat = size.toNat - 1 :=
      UInt32.toNat_sub_of_le _ _ (UInt32.le_iff_toNat_le.mpr hspos)
    have hend : (if ctx.pos < size - 1 then ctx.pos else size - 1).toNat
        = min o.out.length (size.toNat - 1) := by
      have hlt : ctx.pos < size - 1 ↔ o.out.length < size.toNat - 1 := by
        rw [UInt32.lt_iff_toNat_lt, hlast, hpos]
      split
      · rename_i h
        have h' := hlt.mp h
        omega
      · rename_i h
        have h' := not_congr hlt |>.mp h
        omega
    -- the NUL stands behind what was stored, in front of the end
    simp only [if_pos hpos', hend]
    refine ⟨fun _ i hi => ?_, fun _ => Function.update_self _ _ _, fun i hi => ?_⟩
    · have hin : i < o.out.length := by omega
      have hout := List.getElem?_eq_getElem hin
      rw [Function.update_of_ne (by omega), hbuf, if_pos (by omega), hout, Option.getD_some]
    · rw [Function.update_of_ne (by omega), hbuf, if_neg (by omega)]

/-- `"%s=%d"` with `"x"` and 7, into three bytes. -/
theorem vsnprintk_truncates_three : ∃ out, vprintkConsole (fun _ => ['x']) "%s=%d".toList
      [⟨.str, 0x8000⟩, ⟨.int, 7⟩] = some out ∧ out = "x=7".toList
    ∧ ∃ buf', vsnprintk (fun _ => ['x']) (fun _ => '?') 3 "%s=%d".toList
        [⟨.str, 0x8000⟩, ⟨.int, 7⟩] = some (3, buf')
      ∧ Truncated out 3 (fun _ => '?') buf' := by
  obtain ⟨out, hout, hall⟩ := vsnprintk_truncates (fun _ => ['x']) "%s=%d".toList
    [⟨.str, 0x8000⟩, ⟨.int, 7⟩] (by decide)
  have heq : out = "x=7".toList := by
    have hrun : vprintkConsole (fun _ => ['x']) "%s=%d".toList [⟨.str, 0x8000⟩, ⟨.int, 7⟩]
        = some "x=7".toList := by decide +kernel
    exact Option.some.inj (hout.symm.trans hrun)
  subst heq
  exact ⟨_, hout, rfl, hall (by decide) _ 3⟩

end VibeRtos
