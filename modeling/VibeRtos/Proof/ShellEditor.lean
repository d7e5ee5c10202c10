import VibeRtos.Sys.Shell
import Mathlib.Tactic

/-!
# The line editor of the shell

The reference editor works on the stream as a whole: it splits it at the line ends and edits
each piece on its own. `vibe_shell_process` keeps what it has of the current line in
`g_line_buf` from one call to the next, and hands the same lines to `_shell_dispatch`.
-/

namespace VibeRtos

/-! ## The reference editor -/

/-- CR or LF. -/
def isLineEnd (c : UInt8) : Bool := c = 0x0D || c = 0x0A

/-- What one byte that ends no line does to the line. -/
def editByte (limit : Nat) (line : List UInt8) (c : UInt8) : List UInt8 :=
  if c = 0x08 ∨ c = 0x7F then line.dropLast
  else if c < 0x20 then line
  else if line.length < limit then line ++ [c]
  else line

/-- The line that is left of the bytes between two line ends. -/
def editLine (limit : Nat) (bytes : List UInt8) : List UInt8 := bytes.foldl (editByte limit) []

/-- The lines among pieces of a stream, of which the last is not ended yet. -/
def finishedLines (limit : Nat) (pieces : List (List UInt8)) : List (List UInt8) :=
  (pieces.dropLast.map (editLine limit)).filter (· ≠ [])

/-- The lines of a stream. -/
def editorLines (limit : Nat) (stream : List UInt8) : List (List UInt8) :=
  finishedLines limit (stream.splitOnP isLineEnd)

section Editor

variable {limit : Nat} {line : List UInt8} {c : UInt8}

theorem finishedLines_cons {piece : List UInt8} {pieces : List (List UInt8)} (h : pieces ≠ []) :
    finishedLines limit (piece :: pieces)
      = (if editLine limit piece = [] then [] else [editLine limit piece])
        ++ finishedLines limit pieces := by
  rw [finishedLines, List.dropLast_cons_of_ne_nil h, List.map_cons, List.filter_cons]
  by_cases hline : editLine limit piece = [] <;> simp [hline, finishedLines]

theorem editLine_concat (bytes : List UInt8) (c : UInt8) :
    editLine limit (bytes ++ [c]) = editByte limit (editLine limit bytes) c := by
  rw [editLine, List.foldl_append]
  rfl

theorem length_editByte (h : line.length ≤ limit) : (editByte limit line c).length ≤ limit := by
  unfold editByte
  split
  · rw [List.length_dropLast]
    omega
  · split
    · exact h
    · split
      · rw [List.length_append, List.length_singleton]
        omega
      · exact h

/-- A line has no control bytes. -/
theorem printable_editByte (h : ∀ d ∈ line, 0x20 ≤ d) : ∀ d ∈ editByte limit line c, 0x20 ≤ d := by
  unfold editByte
  split
  · exact fun d hd => h d (List.mem_of_mem_dropLast hd)
  · split
    · exact h
    · rename_i hc
      split
      · intro d hd
        rcases List.mem_append.mp hd with hd | hd
        · exact h d hd
        · rw [List.mem_singleton.mp hd]
          exact UInt8.not_lt.mp hc
      · exact h

end Editor

-- the third byte erases, the sixth finds the line full, and the LF ends an empty line
example : editorLines 2 [0x61, 0x62, 0x08, 0x01, 0x63, 0x64, 0x0D, 0x0A, 0x65]
    = [[0x61, 0x63]] := by
  decide

/-! ## The buffer -/

namespace LineBuf

variable {n : Nat} {buf : LineBuf n} {i p z : Nat} {c : UInt8} {f : UInt8 → Bool}

theorem load_of_lt (buf : LineBuf n) (hi : i < n) : buf.load i = some (buf ⟨i, hi⟩) := by
  rw [load, dif_pos ⟨Int.natCast_nonneg i, by exact_mod_cast hi⟩]
  rfl

theorem store_of_lt (buf : LineBuf n) (hi : i < n) (c : UInt8) :
    buf.store i c = some (Function.update buf ⟨i, hi⟩ c) := by
  rw [store, dif_pos ⟨Int.natCast_nonneg i, by exact_mod_cast hi⟩]
  rfl

/-- A store in the buffer, and what it leaves. -/
theorem store_spec (buf : LineBuf n) (hi : i < n) (c : UInt8) : ∃ buf', buf.store i c = some buf'
    ∧ buf'.load i = some c ∧ ∀ j < n, j ≠ i → buf'.load j = buf.load j := by
  refine ⟨_, store_of_lt buf hi c, ?_, fun j hj hne => ?_⟩
  · rw [load_of_lt _ hi, Function.update_self]
  · rw [load_of_lt _ hj, load_of_lt _ hj, Function.update_of_ne (by simpa [Fin.ext_iff] using hne)]

theorem lt_of_load (h : buf.load z = some c) : z < n := by
  by_contra hge
  rw [load, dif_neg (by omega)] at h
  exact absurd h (by simp)

/-- A scan stops at the NUL at the latest. -/
theorem scan_spec (hz : buf.load z = some 0) (hf : f 0 = false) : ∀ (fuel p : Nat), p ≤ z →
    z < p + fuel → ∃ q c, buf.scan f fuel p = some q ∧ p ≤ q ∧ q ≤ z ∧ buf.load q = some c
      ∧ f c = false := by
  have hn := lt_of_load hz
  intro fuel
  induction fuel with
  | zero =>
      intro p hp hfuel
      omega
  | succ fuel ih =>
      intro p hp hfuel
      have hload := load_of_lt buf (show p < n by omega)
      by_cases hc : f (buf ⟨p, by omega⟩) = true
      · have hne : p ≠ z := by
          rintro rfl
          rw [hload] at hz
          rw [Option.some.inj hz, hf] at hc
          exact absurd hc (by decide)
        obtain ⟨q, d, hq, hpq, hqz, hd⟩ := ih (p + 1) (by omega) (by omega)
        refine ⟨q, d, ?_, by omega, hqz, hd⟩
        rw [scan, hload, Option.bind_some, if_pos hc]
        exact hq
      · refine ⟨p, _, ?_, le_refl p, hp, hload, by simpa using hc⟩
        rw [scan, hload, Option.bind_some, if_neg hc]

/-- A string that ends in the buffer can be read. -/
theorem cString_isSome (hz : buf.load z = some 0) : ∀ (fuel p : Nat), p ≤ z → z < p + fuel →
    ∃ cs, buf.cString fuel p = some cs := by
  have hn := lt_of_load hz
  intro fuel
  induction fuel with
  | zero =>
      intro p hp hfuel
      omega
  | succ fuel ih =>
      intro p hp hfuel
      have hload := load_of_lt buf (show p < n by omega)
      rw [cString, hload, Option.bind_some]
      by_cases hc : buf ⟨p, by omega⟩ = 0
      · exact ⟨[], by rw [if_pos hc]⟩
      · have hne : p ≠ z := by
          rintro rfl
          rw [hload] at hz
          exact hc (Option.some.inj hz)
        obtain ⟨cs, hcs⟩ := ih (p + 1) (by omega) (by omega)
        exact ⟨_, by rw [if_neg hc, hcs]; rfl⟩

/-- The string at `p`, from its bytes. -/
theorem cString_eq : ∀ (fuel p : Nat) (cs : List UInt8), cs.length < fuel →
    (∀ (i : Nat) (hi : i < cs.length), buf.load (p + i : Nat) = some cs[i]) → (∀ c ∈ cs, c ≠ 0) →
    buf.load (p + cs.length : Nat) = some 0 → buf.cString fuel p = some cs := by
  intro fuel
  induction fuel with
  | zero =>
      intro p cs hfuel
      omega
  | succ fuel ih =>
      intro p cs hfuel hbytes hne hend
      cases cs with
      | nil =>
          have hload : buf.load p = some 0 := hend
          rw [cString, hload, Option.bind_some, if_pos rfl]
      | cons c cs =>
          have hload : buf.load p = some c := hbytes 0 (by simp)
          rw [List.length_cons] at hfuel hend
          have hrest := ih (p + 1) cs (by omega)
            (fun i hi => by
              have hi' := hbytes (i + 1) (by simpa using hi)
              rwa [show p + (i + 1) = p + 1 + i by omega] at hi')
            (fun d hd => hne d (List.mem_cons_of_mem _ hd))
            (by rwa [show p + (cs.length + 1) = p + 1 + cs.length by omega] at hend)
          rw [cString, hload, Option.bind_some, if_neg (hne c (List.mem_cons_self ..)), hrest]
          rfl

end LineBuf

/-! ## The dispatch -/

section Dispatch

open LineBuf

variable {W : Type} {n : Nat}

section Write

variable (s : Shell W n) (bytes : List UInt8) (str : String)

@[simp] theorem write_attached : (s.write bytes).attached = s.attached := by
  unfold Shell.write; split <;> rfl

@[simp] theorem write_lineBuf : (s.write bytes).lineBuf = s.lineBuf := by
  unfold Shell.write; split <;> rfl

@[simp] theorem write_lineLen : (s.write bytes).lineLen = s.lineLen := by
  unfold Shell.write; split <;> rfl

@[simp] theorem write_lines : (s.write bytes).lines = s.lines := by
  unfold Shell.write; split <;> rfl

@[simp] theorem shellPrint_attached : (shellPrint str s).attached = s.attached := write_attached ..

@[simp] theorem shellPrint_lineBuf : (shellPrint str s).lineBuf = s.lineBuf := write_lineBuf ..

@[simp] theorem shellPrint_lineLen : (shellPrint str s).lineLen = s.lineLen := write_lineLen ..

@[simp] theorem shellPrint_lines : (shellPrint str s).lines = s.lines := write_lines ..

variable (r : Handled W n)

@[simp] theorem returned_attached : (s.returned r).attached = s.attached := by
  unfold Shell.returned Shell.printkReturned
  dsimp only
  split <;> exact write_attached ..

@[simp] theorem returned_lines : (s.returned r).lines = s.lines := by
  unfold Shell.returned Shell.printkReturned
  dsimp only
  split <;> exact write_lines ..

end Write

/-- **The split of the line stays within the buffer.** The NUL at `z` is never overwritten. -/
theorem shellArgv_spec {z : Nat} : ∀ (room : Nat) (buf : LineBuf n) (p : Nat) (argv : List Nat),
    buf.load z = some 0 → p ≤ z → (∀ a ∈ argv, a ≤ z) →
    ∃ buf' argv', shellArgv room buf p argv = some (buf', argv') ∧ buf'.load z = some 0
      ∧ ∀ a ∈ argv', a ≤ z := by
  intro room
  induction room with
  | zero =>
      intro buf p argv hz hp hargv
      have hload := load_of_lt buf (show p < n by have := lt_of_load hz; omega)
      exact ⟨buf, argv, by rw [shellArgv, hload]; rfl, hz, hargv⟩
  | succ room ih =>
      intro buf p argv hz hp hargv
      have hn := lt_of_load hz
      have hload := load_of_lt buf (show p < n by omega)
      by_cases hnul : buf ⟨p, by omega⟩ = 0
      · refine ⟨buf, argv, ?_, hz, hargv⟩
        simp only [shellArgv, hload, Option.bind_eq_bind, Option.bind_some, if_pos hnul]
        rfl
      · obtain ⟨q, c, hq, hpq, hqz, hc, -⟩ :=
          scan_spec hz (f := isBlank) rfl (n + 1) p hp (by omega)
        by_cases hc0 : c = 0
        · refine ⟨buf, argv, ?_, hz, hargv⟩
          simp only [shellArgv, hload, Option.bind_eq_bind, Option.bind_some, if_neg hnul, hq, hc,
            if_pos hc0]
          rfl
        · obtain ⟨r, d, hr, hqr, hrz, hd, -⟩ := scan_spec hz
            (f := fun c => c ≠ 0 && ! isBlank c) rfl (n + 1) q hqz (by omega)
          have hargv' : ∀ a ∈ argv ++ [q], a ≤ z := by
            intro a ha
            rcases List.mem_append.mp ha with ha | ha
            · exact hargv a ha
            · exact (List.mem_singleton.mp ha).le.trans hqz
          by_cases hd0 : d = 0
          · obtain ⟨buf', argv', heq, hrest⟩ := ih buf r (argv ++ [q]) hz hrz hargv'
            refine ⟨buf', argv', ?_, hrest⟩
            simp only [shellArgv, hload, Option.bind_eq_bind, Option.bind_some, if_neg hnul, hq, hc,
              if_neg hc0, hr, hd, if_pos hd0]
            exact heq
          · have hne : z ≠ r := by
              rintro rfl
              rw [hz] at hd
              exact hd0 (Option.some.inj hd).symm
            obtain ⟨buf₁, hstore, -, hkeep⟩ := store_spec buf (show r < n by omega) 0
            obtain ⟨buf', argv', heq, hrest⟩ := ih buf₁ (r + 1) (argv ++ [q])
              (by rw [hkeep z hn hne]; exact hz) (by omega) hargv'
            refine ⟨buf', argv', ?_, hrest⟩
            simp only [shellArgv, hload, Option.bind_eq_bind, Option.bind_some, if_neg hnul, hq, hc,
              if_neg hc0, hr, hd, if_neg hd0, hstore]
            exact heq

/-- A handler may rewrite the line, and nothing else of the editor. -/
theorem shellDispatch_spec (cfg : ShellConfig) (cmds : List (ShellCmd W n)) {s : Shell W n}
    {z : Nat}
    (hz : s.lineBuf.load z = some 0) : ∃ s', shellDispatch cfg cmds s = some s'
      ∧ s'.attached = s.attached ∧ s'.lines = s.lines := by
  obtain ⟨buf, argv, hargv, hz', hle⟩ := shellArgv_spec (cfg.maxArgs - 1) s.lineBuf 0 [] hz
    (Nat.zero_le z) (by simp)
  cases argv with
  | nil =>
      refine ⟨{ s with lineBuf := buf }, ?_, rfl, rfl⟩
      simp only [shellDispatch, hargv, Option.bind_eq_bind, Option.bind_some]
      rfl
  | cons arg0 rest =>
      have hn := lt_of_load hz'
      obtain ⟨name, hname⟩ := cString_isSome hz' (n + 1) arg0 (hle arg0 (List.mem_cons_self ..))
        (by omega)
      cases hfind : cmds.find? fun cmd => cmd.name = name with
      | some cmd =>
          refine ⟨Shell.returned { s with lineBuf := buf }
            (cmd.handler (arg0 :: rest) buf s.world), ?_, returned_attached .., returned_lines ..⟩
          simp only [shellDispatch, hargv, Option.bind_eq_bind, Option.bind_some, hname, hfind]
          rfl
      | none =>
          refine ⟨shellPrint "'. Type 'help' for available commands.\r\n"
            ((shellPrint "Unknown command: '" { s with lineBuf := buf }).write name), ?_, ?_, ?_⟩
          · simp only [shellDispatch, hargv, Option.bind_eq_bind, Option.bind_some, hname, hfind]
            rfl
          · simp only [shellPrint_attached, write_attached]
          · simp only [shellPrint_lines, write_lines]

end Dispatch

/-! ## The editor -/

/-- `g_line_buf` and `g_line_len` hold the line. -/
structure Shell.Editing {W : Type} {n : Nat} (s : Shell W n) (text : List UInt8) : Prop where
  attached : s.attached = true
  lineLen : s.lineLen = text.length
  room : text.length ≤ n - 1
  bytes : ∀ (i : Nat) (hi : i < text.length), s.lineBuf.load i = some text[i]
  printable : ∀ c ∈ text, 0x20 ≤ c

section Process

open LineBuf

variable {W : Type} {n : Nat} {s : Shell W n} {line : List UInt8} {c : UInt8}

theorem Shell.Editing.congr {s' : Shell W n} (h : s.Editing line)
    (hattached : s'.attached = s.attached) (hbuf : s'.lineBuf = s.lineBuf)
    (hlen : s'.lineLen = s.lineLen) : s'.Editing line :=
  ⟨hattached.trans h.attached, hlen.trans h.lineLen, h.room, by rw [hbuf]; exact h.bytes,
    h.printable⟩

/-- A line end hands the line over, unless it is empty. -/
theorem shellByte_lineEnd (cfg : ShellConfig) (cmds : List (ShellCmd W n)) (hn : 0 < n)
    (h : s.Editing line) (hc : isLineEnd c = true) : ∃ s', shellByte cfg cmds s c = some s'
      ∧ s'.Editing [] ∧ s'.lines = s.lines ++ if line = [] then [] else [line] := by
  have hc' : c = 0x0D ∨ c = 0x0A := by simpa [isLineEnd] using hc
  obtain ⟨s₀, hecho⟩ : ∃ s₀, shellPrint "\r\n" s = s₀ := ⟨_, rfl⟩
  have h₀ : s₀.Editing line := h.congr (by simp [← hecho]) (by simp [← hecho]) (by simp [← hecho])
  have hlines₀ : s₀.lines = s.lines := by simp [← hecho]
  by_cases hline : line = []
  · have hlen : ¬ s₀.lineLen > 0 := by rw [h₀.lineLen, hline]; simp
    refine ⟨shellPrint cfg.prompt s₀, ?_, ?_, ?_⟩
    · simp only [shellByte, if_pos hc', hecho, if_neg hlen]
      rfl
    · exact (hline ▸ h₀).congr (by simp) (by simp) (by simp)
    · simp [hline, hlines₀]
  · have hpos : 0 < line.length := List.length_pos_iff.mpr hline
    have hlen : s₀.lineLen > 0 := by rw [h₀.lineLen]; exact_mod_cast hpos
    have hroom := h.room
    obtain ⟨buf, hstore, hnul, hkeep⟩ := store_spec s₀.lineBuf (show line.length < n by omega) 0
    rw [← h₀.lineLen] at hstore
    have hstring : buf.cString (n + 1) 0 = some line := by
      refine cString_eq (n + 1) 0 line (by omega) (fun i hi => ?_) (fun d hd => ?_) ?_
      · rw [Nat.zero_add, hkeep i (by omega) (by omega)]
        exact h₀.bytes i hi
      · rintro rfl
        exact absurd (h.printable 0 hd) (by decide)
      · rw [Nat.zero_add]
        exact hnul
    obtain ⟨s', hdispatch, hattached, hlines⟩ := shellDispatch_spec cfg cmds
      (s := { s₀ with lineBuf := buf, lines := s₀.lines ++ [line] }) hnul
    refine ⟨shellPrint cfg.prompt { s' with lineLen := 0 }, ?_, ?_, ?_⟩
    · simp only [shellByte, if_pos hc', hecho, if_pos hlen, hstore, hstring, hdispatch,
        Option.bind_eq_bind, Option.bind_some]
      rfl
    · exact ⟨by simp [hattached, h₀.attached], by simp, Nat.zero_le _, by simp, by simp⟩
    · simp [hlines, hlines₀, hline]

/-- Any other byte is an edit of the line. -/
theorem shellByte_edit (cfg : ShellConfig) (cmds : List (ShellCmd W n)) (h : s.Editing line)
    (hc : isLineEnd c = false) : ∃ s', shellByte cfg cmds s c = some s'
      ∧ s'.Editing (editByte (n - 1) line c) ∧ s'.lines = s.lines := by
  have hc' : ¬ (c = 0x0D ∨ c = 0x0A) := by simpa [isLineEnd] using hc
  have hroom := length_editByte (c := c) h.room
  have hprintable : ∀ d ∈ editByte (n - 1) line c, 0x20 ≤ d := printable_editByte h.printable
  unfold editByte at hroom hprintable ⊢
  by_cases herase : c = 0x08 ∨ c = 0x7F
  · simp only [if_pos herase] at hroom hprintable ⊢
    by_cases hlen : s.lineLen > 0
    · refine ⟨_, by simp only [shellByte, if_neg hc', if_pos herase, if_pos hlen]; rfl, ?_, ?_⟩
      · refine ⟨by simp [h.attached], ?_, hroom, fun i hi => ?_, hprintable⟩
        · rw [h.lineLen] at hlen
          rw [write_lineLen, List.length_dropLast]
          show s.lineLen - 1 = _
          rw [h.lineLen]
          omega
        · rw [write_lineBuf, List.getElem_dropLast]
          rw [List.length_dropLast] at hi
          exact h.bytes i (by omega)
      · rw [write_lines]
    · have hnil : line = [] := by
        rw [h.lineLen] at hlen
        exact List.length_eq_zero_iff.mp (by omega)
      refine ⟨s, by simp only [shellByte, if_neg hc', if_pos herase, if_neg hlen], ?_, rfl⟩
      rw [hnil, List.dropLast_nil, ← hnil]
      exact h
  · simp only [if_neg herase] at hroom hprintable ⊢
    by_cases hcontrol : c < 0x20
    · have hlow : ¬ (c ≥ 0x20 ∧ s.lineLen < (n : Int) - 1) :=
        fun hk => absurd hk.1 (UInt8.not_le.mpr hcontrol)
      refine ⟨s, by simp only [shellByte, if_neg hc', if_neg herase, if_neg hlow], ?_, rfl⟩
      rw [if_pos hcontrol]
      exact h
    · simp only [if_neg hcontrol] at hroom hprintable ⊢
      have hge : c ≥ 0x20 := UInt8.not_lt.mp hcontrol
      by_cases hfits : line.length < n - 1
      · simp only [if_pos hfits] at hroom hprintable ⊢
        have hkept : c ≥ 0x20 ∧ s.lineLen < (n : Int) - 1 := ⟨hge, by rw [h.lineLen]; omega⟩
        obtain ⟨buf, hstore, hnew, hkeep⟩ := store_spec s.lineBuf (show line.length < n by omega) c
        rw [← h.lineLen] at hstore
        refine ⟨_, by
          simp only [shellByte, if_neg hc', if_neg herase, if_pos hkept, hstore,
            Option.bind_eq_bind, Option.bind_some]
          rfl, ?_, by rw [write_lines]⟩
        refine ⟨by simp [h.attached], by simp [h.lineLen], hroom, fun i hi => ?_, hprintable⟩
        rw [List.length_append, List.length_singleton] at hi
        rw [write_lineBuf]
        rcases Nat.lt_succ_iff_lt_or_eq.mp hi with hi | rfl
        · rw [List.getElem_append_left hi, hkeep i (by omega) (by omega)]
          exact h.bytes i hi
        · rw [List.getElem_concat_length rfl]
          exact hnew
      · -- the buffer is full, and the byte is dropped
        have hfull : ¬ (c ≥ 0x20 ∧ s.lineLen < (n : Int) - 1) := fun hk => by
          have hlt := hk.2
          rw [h.lineLen] at hlt
          omega
        refine ⟨s, by simp only [shellByte, if_neg hc', if_neg herase, if_neg hfull], ?_, rfl⟩
        rw [if_neg hfits]
        exact h

/-- Bytes from the middle of a line on; `typed` is what came since the last line end,
backwards. -/
theorem foldlM_shellByte (cfg : ShellConfig) (cmds : List (ShellCmd W n)) (hn : 0 < n) :
    ∀ (bytes typed : List UInt8) {s : Shell W n}, s.Editing (editLine (n - 1) typed.reverse) →
    ∃ (s' : Shell W n) (typed' : List UInt8), bytes.foldlM (shellByte cfg cmds) s = some s'
      ∧ s'.Editing (editLine (n - 1) typed'.reverse)
      ∧ s'.lines = s.lines ++ finishedLines (n - 1) (bytes.splitOnPPrepend isLineEnd typed) := by
  intro bytes
  induction bytes with
  | nil =>
      intro typed s h
      refine ⟨s, typed, rfl, h, ?_⟩
      rw [List.splitOnPPrepend_nil]
      simp [finishedLines]
  | cons c bytes ih =>
      intro typed s h
      rw [List.foldlM_cons]
      cases hc : isLineEnd c with
      | true =>
          obtain ⟨s₁, hbyte, h₁, hlines₁⟩ := shellByte_lineEnd cfg cmds hn h hc
          obtain ⟨s', typed', hrun, h', hlines'⟩ := ih [] h₁
          refine ⟨s', typed', by rw [hbyte]; exact hrun, h', ?_⟩
          rw [List.splitOnPPrepend_cons_pos hc, finishedLines_cons (by simp), hlines', hlines₁,
            List.append_assoc, List.splitOnPPrepend_nil_right]
      | false =>
          obtain ⟨s₁, hbyte, h₁, hlines₁⟩ := shellByte_edit cfg cmds h hc
          obtain ⟨s', typed', hrun, h', hlines'⟩ := ih (c :: typed)
            (by rw [List.reverse_cons, editLine_concat]; exact h₁)
          refine ⟨s', typed', by rw [hbyte]; exact hrun, h', ?_⟩
          rw [List.splitOnPPrepend_cons_neg hc, hlines', hlines₁]

/-- Where one call ends and the next begins makes no difference. -/
theorem foldlM_shellProcess (cfg : ShellConfig) (cmds : List (ShellCmd W n)) (hn : 0 < n) :
    ∀ (chunks : List (List UInt8)) (typed : List UInt8) {s : Shell W n},
    s.Editing (editLine (n - 1) typed.reverse) →
    chunks.foldlM (shellProcess cfg cmds) s = chunks.flatten.foldlM (shellByte cfg cmds) s := by
  intro chunks
  induction chunks with
  | nil => exact fun typed s h => rfl
  | cons bytes chunks ih =>
      intro typed s h
      obtain ⟨s₁, typed₁, hrun, h₁, -⟩ := foldlM_shellByte cfg cmds hn bytes typed h
      have hcall : shellProcess cfg cmds s bytes = some s₁ := by
        rw [shellProcess, if_pos h.attached]
        exact hrun
      rw [List.foldlM_cons, List.flatten_cons, List.foldlM_append, hcall, hrun]
      exact ih typed₁ h₁

/--
**The shell is the reference editor.**

However the received bytes are cut into calls of `vibe_shell_process`, no byte finds
`g_line_len` outside of `0 … CONFIG_SHELL_BUF_SIZE - 1`, no access leaves `g_line_buf`, and
the lines handed to `_shell_dispatch` are those of the reference editor on the whole stream.
The command handlers may do anything to the line they are given.
-/
theorem shell_lines_along_run (cfg : ShellConfig) (cmds : List (ShellCmd W cfg.bufSize))
    (s₀ : Shell W cfg.bufSize) (chunks : List (List UInt8)) :
    (∀ k, ∃ s, (chunks.flatten.take k).foldlM (shellByte cfg cmds) (shellInit cfg true s₀) = some s
        ∧ 0 ≤ s.lineLen ∧ s.lineLen ≤ (cfg.bufSize : Int) - 1)
    ∧ ∃ s, chunks.foldlM (shellProcess cfg cmds) (shellInit cfg true s₀) = some s
        ∧ s.lines = s₀.lines ++ editorLines (cfg.bufSize - 1) chunks.flatten := by
  have hpos : 0 < cfg.bufSize := by
    have hrange := cfg.bufSize_range
    omega
  have hinit : (shellInit cfg true s₀).Editing (editLine (cfg.bufSize - 1) [].reverse) :=
    ⟨by simp [shellInit], by simp [shellInit, editLine], Nat.zero_le _, by simp [editLine],
      by simp [editLine]⟩
  have hlines₀ : (shellInit cfg true s₀).lines = s₀.lines := by simp [shellInit]
  constructor
  · intro k
    obtain ⟨s, typed, hrun, h, -⟩ := foldlM_shellByte cfg cmds hpos (chunks.flatten.take k) [] hinit
    have hroom := h.room
    exact ⟨s, hrun, by rw [h.lineLen]; omega, by rw [h.lineLen]; omega⟩
  · obtain ⟨s, typed, hrun, -, hlines⟩ := foldlM_shellByte cfg cmds hpos chunks.flatten [] hinit
    refine ⟨s, ?_, ?_⟩
    · rw [foldlM_shellProcess cfg cmds hpos chunks [] hinit]
      exact hrun
    · rw [hlines, hlines₀, editorLines, List.splitOnPPrepend_nil_right]

end Process

end VibeRtos
