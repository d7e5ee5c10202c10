import VibeRtos.Kernel.Printk
import Mathlib.Tactic

/-!
# Which argument a conversion gets

A format of the documented kind is a sequence of pieces. `_fmt_core` gives each conversion
its own argument as long as it knows the conversion: it has no case for `%o`, and none for
the `0` that a width begins with, and prints these without a `va_arg`.
-/

namespace VibeRtos

/-! ## Formats -/

/-- The documented conversions that take an argument. -/
inductive Conv where
  | d | i | u | x | X | o | s | c | p
  deriving DecidableEq

namespace Conv

/-- The conversion character. -/
def letter : Conv → Char
  | .d => 'd'
  | .i => 'i'
  | .u => 'u'
  | .x => 'x'
  | .X => 'X'
  | .o => 'o'
  | .s => 's'
  | .c => 'c'
  | .p => 'p'

/-- The argument that a caller passes for it. -/
def kind : Conv → ArgKind
  | .s => .str
  | .p => .ptr
  | _ => .int

end Conv

/-- A character that stands for itself in a format. -/
def Plain (c : Char) : Prop := c ≠ '%' ∧ c ≠ '\x00'

instance : DecidablePred Plain := fun c => inferInstanceAs (Decidable (c ≠ '%' ∧ c ≠ '\x00'))

/-- A piece of a format. -/
inductive FmtPiece where
  | text (c : Char) (h : Plain c)
  | percent
  /-- a conversion, with its zero-padded width and its `l` modifier -/
  | conv (width : Option Nat) (isLong : Bool) (cv : Conv)

namespace FmtPiece

/-- The characters of a piece. -/
def chars : FmtPiece → List Char
  | text c _ => [c]
  | percent => ['%', '%']
  | conv width isLong cv =>
      '%' :: (match width with
        | none => []
        | some w => '0' :: Nat.toDigits 10 w)
      ++ (if isLong then ['l'] else []) ++ [cv.letter]

/-- The conversion of a piece, if it takes an argument. -/
def conv? : FmtPiece → Option Conv
  | conv _ _ cv => some cv
  | _ => none

/-- Neither `%o` nor a width. -/
def Known : FmtPiece → Prop
  | conv width _ cv => width = none ∧ cv ≠ .o
  | _ => True

instance : DecidablePred Known := fun
  | text _ _ => inferInstanceAs (Decidable True)
  | percent => inferInstanceAs (Decidable True)
  | conv width _ cv => inferInstanceAs (Decidable (width = none ∧ cv ≠ .o))

end FmtPiece

/-- The format string. -/
def fmtChars (ps : List FmtPiece) : List Char := ps.flatMap FmtPiece.chars

/-- The conversions of a format that take an argument. -/
def fmtConvs (ps : List FmtPiece) : List Conv := ps.filterMap FmtPiece.conv?

/-- Arguments as the format asks for them. -/
def Matches (ps : List FmtPiece) (args : List Arg) : Prop :=
  args.map Arg.kind = (fmtConvs ps).map Conv.kind

/-- The conversions that `_fmt_core` knows among them. -/
def knownConvs (ps : List FmtPiece) : List Conv := fmtConvs (ps.filter FmtPiece.Known)

/-- Every conversion got its own argument, and `%s` got strings. -/
structure Aligned (ps : List FmtPiece) (args : List Arg) (o : Printed) : Prop where
  takes : o.takes = ((fmtConvs ps).map Conv.letter).zip args
  strings : ∀ t ∈ o.takes, t.1 = 's' → t.2.kind = .str

/-! ## The pieces -/

section Pieces

variable {args : List Arg} {c : Char}

theorem fmtCore_plain (strAt : UInt32 → List Char) (fmt : List Char) (args : List Arg) :
    ∀ (cs : List Char) (o : Printed), (∀ c ∈ cs, c ≠ '%') →
    fmtCore strAt (cs ++ fmt) args o = fmtCore strAt fmt args (o.emit cs) := by
  intro cs
  induction cs with
  | nil =>
      intro o _
      rw [List.nil_append, Printed.emit, List.append_nil]
  | cons c cs ih =>
      intro o h
      obtain ⟨hc, hcs⟩ := List.forall_mem_cons.mp h
      rw [List.cons_append, fmtCore, if_pos hc, ih _ hcs]
      simp [Printed.emit]

/-- The `switch` is reached with or without the modifier. -/
theorem fmtCore_switch (strAt : UInt32 → List Char) (fmt : List Char) (args : List Arg)
    (o : Printed)
    (isLong : Bool) (hc : c ≠ 'l') :
    fmtCore strAt ('%' :: (if isLong then ['l'] else []) ++ [c] ++ fmt) args o
      = (fmtConv strAt isLong c args o).bind fun r => fmtCore strAt fmt r.1 r.2 := by
  cases isLong with
  | true => rfl
  | false =>
      change fmtPercent strAt (c :: fmt) args o = _
      rw [fmtPercent, if_neg hc]

theorem letter_ne_l (cv : Conv) : cv.letter ≠ 'l' := by
  cases cv <;> decide

theorem letter_ne_percent (cv : Conv) : cv.letter ≠ '%' := by
  cases cv <;> decide

theorem letter_eq_s {cv : Conv} (h : cv.letter = 's') : cv = .s := by
  cases cv <;> simp_all [Conv.letter]

theorem fmtArg_letter (strAt : UInt32 → List Char) {cv : Conv} (h : cv ≠ .o) :
    ∃ text, fmtArg strAt cv.letter = some text := by
  cases cv with
  | o => exact absurd rfl h
  | _ => exact ⟨_, rfl⟩

/-- A conversion that is known takes the next argument. -/
theorem fmtCore_known (strAt : UInt32 → List Char) (fmt : List Char) (args : List Arg) (o : Printed)
    {isLong : Bool} {cv : Conv} (h : (FmtPiece.conv none isLong cv).Known) (a : Arg) :
    ∃ out, fmtCore strAt ((FmtPiece.conv none isLong cv).chars ++ fmt) (a :: args) o
      = fmtCore strAt fmt args ⟨out, o.takes ++ [(cv.letter, a)]⟩ := by
  obtain ⟨text, htext⟩ := fmtArg_letter strAt h.2
  refine ⟨o.out ++ text a.word, ?_⟩
  have hswitch := fmtCore_switch strAt fmt (a :: args) o isLong (letter_ne_l cv)
  simp only [fmtConv, htext, Option.bind_some] at hswitch
  exact hswitch

/-- Any other is printed, and takes none. -/
theorem fmtCore_unknown (strAt : UInt32 → List Char) (fmt : List Char) (args : List Arg)
    (o : Printed)
    {p : FmtPiece} (h : ¬ p.Known) : ∃ out,
    fmtCore strAt (p.chars ++ fmt) args o = fmtCore strAt fmt args ⟨out, o.takes⟩ := by
  cases p with
  | text c hc => exact absurd trivial h
  | percent => exact absurd trivial h
  | conv width isLong cv =>
      cases width with
      | none =>
          have hcv : cv = .o := by
            by_contra hne
            exact h ⟨rfl, hne⟩
          subst hcv
          exact ⟨_, fmtCore_switch strAt fmt args o isLong (by decide)⟩
      | some w =>
          -- the 0 of the width is no conversion, and what follows is text
          have hrest : ∀ c ∈ Nat.toDigits 10 w ++ (if isLong then ['l'] else []) ++ [cv.letter],
              c ≠ '%' := by
            intro c hc
            rcases List.mem_append.mp hc with hc | hc
            · rcases List.mem_append.mp hc with hc | hc
              · rintro rfl
                exact absurd (Nat.isDigit_of_mem_toDigits (by decide) (by decide) hc) (by decide)
              · cases isLong with
                | true => rw [List.mem_singleton.mp hc]; decide
                | false => exact absurd hc (by simp)
            · rw [List.mem_singleton.mp hc]
              exact letter_ne_percent cv
          refine ⟨_, Eq.trans ?_ (fmtCore_plain strAt fmt args _ (o.emit ['%', '0']) hrest)⟩
          have hswitch := fmtCore_switch strAt
            (Nat.toDigits 10 w ++ (if isLong then ['l'] else []) ++ [cv.letter] ++ fmt) args o
            (c := '0') false (by decide)
          rw [show fmtConv strAt false '0' args o = some (args, o.emit ['%', '0']) from rfl,
            Option.bind_some] at hswitch
          refine Eq.trans ?_ hswitch
          simp [FmtPiece.chars]

/-- **What a format takes:** an argument for each conversion that is known. -/
theorem fmtCore_pieces (strAt : UInt32 → List Char) : ∀ (ps : List FmtPiece) (args : List Arg)
    (o : Printed), (knownConvs ps).length ≤ args.length →
    ∃ out, fmtCore strAt (fmtChars ps) args o
      = some ⟨out, o.takes ++ ((knownConvs ps).map Conv.letter).zip args⟩ := by
  intro ps
  induction ps with
  | nil =>
      intro args o _
      exact ⟨o.out, by simp [fmtChars, knownConvs, fmtConvs, fmtCore]⟩
  | cons p ps ih =>
      intro args o hlen
      rw [fmtChars, List.flatMap_cons, ← fmtChars]
      by_cases hp : p.Known
      · cases p with
        | text c hc =>
            obtain ⟨out, hout⟩ := ih args (o.emit [c]) hlen
            refine ⟨out, ?_⟩
            rw [show (FmtPiece.text c hc).chars = [c] from rfl,
              fmtCore_plain strAt _ _ [c] _ (by simpa using hc.1)]
            exact hout
        | percent =>
            obtain ⟨out, hout⟩ := ih args (o.emit ['%']) hlen
            exact ⟨out, hout⟩
        | conv width isLong cv =>
            obtain ⟨rfl, hcv⟩ := id hp
            have hconvs : knownConvs (FmtPiece.conv none isLong cv :: ps)
              = cv :: knownConvs ps := by
              rw [knownConvs, List.filter_cons_of_pos (by simpa using hp)]
              rfl
            rw [hconvs] at hlen ⊢
            cases args with
            | nil => exact absurd hlen (by simp)
            | cons a args =>
                obtain ⟨out₁, hpiece⟩ := fmtCore_known strAt (fmtChars ps) args o hp a
                obtain ⟨out, hout⟩ := ih args ⟨out₁, o.takes ++ [(cv.letter, a)]⟩
                  (by simpa using hlen)
                refine ⟨out, ?_⟩
                rw [hpiece, hout, List.append_assoc]
                rfl
      · obtain ⟨out₁, hpiece⟩ := fmtCore_unknown strAt (fmtChars ps) args o hp
        have hconvs : knownConvs (p :: ps) = knownConvs ps := by
          rw [knownConvs, List.filter_cons_of_neg (by simpa using hp)]
          rfl
        rw [hconvs] at hlen ⊢
        obtain ⟨out, hout⟩ := ih args ⟨out₁, o.takes⟩ hlen
        exact ⟨out, hpiece.trans hout⟩

theorem matches_length {ps : List FmtPiece} (h : Matches ps args) :
    args.length = (fmtConvs ps).length := by
  rw [← List.length_map (f := Arg.kind), h, List.length_map]

theorem knownConvs_le (ps : List FmtPiece) : (knownConvs ps).length ≤ (fmtConvs ps).length :=
  (List.filter_sublist.filterMap _).length_le

/-- No conversion is missing exactly if every piece is known. -/
theorem knownConvs_length_iff : ∀ (ps : List FmtPiece),
    (knownConvs ps).length = (fmtConvs ps).length ↔ ∀ p ∈ ps, p.Known := by
  intro ps
  induction ps with
  | nil => simp [knownConvs, fmtConvs]
  | cons p ps ih =>
      rw [List.forall_mem_cons]
      by_cases hp : p.Known
      · rw [← ih, knownConvs, List.filter_cons_of_pos (by simpa using hp)]
        cases hconv : p.conv? with
        | none => simp [fmtConvs, hconv, hp, knownConvs]
        | some cv => simp [fmtConvs, hconv, hp, knownConvs]
      · have hconv : ∃ cv, p.conv? = some cv := by
          cases p with
          | text c hc => exact absurd trivial hp
          | percent => exact absurd trivial hp
          | conv width isLong cv => exact ⟨cv, rfl⟩
        obtain ⟨cv, hcv⟩ := hconv
        have hle := knownConvs_le ps
        have hcons : (fmtConvs (p :: ps)).length = (fmtConvs ps).length + 1 := by
          simp [fmtConvs, hcv]
        rw [knownConvs, List.filter_cons_of_neg (by simpa using hp), ← knownConvs, hcons]
        constructor
        · intro heq
          omega
        · exact fun h => absurd h.1 hp

/-- A conversion `%s` among those that got their own arguments got a string. -/
theorem zip_strings : ∀ (cvs : List Conv) (args : List Arg),
    args.map Arg.kind = cvs.map Conv.kind →
    ∀ t ∈ (cvs.map Conv.letter).zip args, t.1 = 's' → t.2.kind = .str := by
  intro cvs
  induction cvs with
  | nil => intro args _ t ht; exact absurd ht (by simp)
  | cons cv cvs ih =>
      intro args hkinds t ht hs
      cases args with
      | nil => exact absurd ht (by simp)
      | cons a args =>
          obtain ⟨hkind, hrest⟩ := List.cons.inj hkinds
          rcases List.mem_cons.mp ht with rfl | ht
          · rw [hkind, letter_eq_s hs]
            rfl
          · exact ih args hrest t ht hs

/--
**When `_fmt_core` keeps formats and arguments aligned.**

For every format of documented conversions and every list of arguments that matches it, each
conversion gets its own argument if and only if none is `%o` and none has a width.
-/
theorem printk_aligned_iff (strAt : UInt32 → List Char) (ps : List FmtPiece) (args : List Arg)
    (h : Matches ps args) : (∃ o, vprintk strAt (fmtChars ps) args = some o ∧ Aligned ps args o)
      ↔ ∀ p ∈ ps, p.Known := by
  have hlen := matches_length h
  have hle := knownConvs_le ps
  obtain ⟨out, hrun⟩ := fmtCore_pieces strAt ps args ⟨[], []⟩ (by omega)
  rw [List.nil_append] at hrun
  constructor
  · rintro ⟨o, ho, haligned⟩
    obtain rfl : ⟨out, ((knownConvs ps).map Conv.letter).zip args⟩ = o :=
      Option.some.inj (hrun.symm.trans ho)
    refine (knownConvs_length_iff ps).mp ?_
    have htakes := congrArg List.length haligned.takes
    simp only [List.length_zip, List.length_map] at htakes
    omega
  · intro hknown
    have hall : ps.filter FmtPiece.Known = ps :=
      List.filter_eq_self.mpr fun p hp => by simpa using hknown p hp
    rw [knownConvs, hall] at hrun
    exact ⟨_, hrun, rfl, zip_strings _ _ h⟩

end Pieces

/-- `"%s=%lu"` -/
def nameAndCount : List FmtPiece :=
  [.conv none false .s, .text '=' (by decide), .conv none true .u]

theorem printk_aligned_iff_two : Matches nameAndCount [⟨.str, 0x8000⟩, ⟨.int, 7⟩]
    ∧ ∃ o, vprintk (fun _ => ['t']) (fmtChars nameAndCount) [⟨.str, 0x8000⟩, ⟨.int, 7⟩] = some o
      ∧ Aligned nameAndCount [⟨.str, 0x8000⟩, ⟨.int, 7⟩] o :=
  ⟨rfl, (printk_aligned_iff (fun _ => ['t']) nameAndCount [⟨.str, 0x8000⟩, ⟨.int, 7⟩] rfl).mpr
    (by decide)⟩

/-- `"0x%08x %s %u"`, the core of the report that `vibe_coredump_init` prints. -/
def crashReport : List FmtPiece :=
  [.text '0' (by decide), .text 'x' (by decide), .conv (some 8) false .x, .text ' ' (by decide),
    .conv none false .s, .text ' ' (by decide), .conv none false .u]

/-- The name of the thread is looked for at the reason of the crash. -/
theorem crash_report_misaligned : Matches crashReport [⟨.int, 3⟩, ⟨.str, 0x20000400⟩, ⟨.int, 99⟩]
    ∧ (vprintk (fun _ => []) (fmtChars crashReport) [⟨.int, 3⟩, ⟨.str, 0x20000400⟩, ⟨.int, 99⟩]).map
        Printed.takes = some [('s', ⟨.int, 3⟩), ('u', ⟨.str, 0x20000400⟩)]
    ∧ ¬ ∃ o, vprintk (fun _ => []) (fmtChars crashReport)
          [⟨.int, 3⟩, ⟨.str, 0x20000400⟩, ⟨.int, 99⟩] = some o
        ∧ Aligned crashReport [⟨.int, 3⟩, ⟨.str, 0x20000400⟩, ⟨.int, 99⟩] o := by
  have htakes : (vprintk (fun _ => []) (fmtChars crashReport)
      [⟨.int, 3⟩, ⟨.str, 0x20000400⟩, ⟨.int, 99⟩]).map Printed.takes
        = some [('s', ⟨.int, 3⟩), ('u', ⟨.str, 0x20000400⟩)] := by decide +kernel
  refine ⟨rfl, htakes, fun ⟨o, ho, haligned⟩ => ?_⟩
  rw [ho, Option.map_some] at htakes
  have hs := haligned.strings ('s', ⟨.int, 3⟩) (by rw [Option.some.inj htakes]; simp) rfl
  exact absurd hs (by decide)

end VibeRtos
