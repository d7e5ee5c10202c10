import VibeRtos.Sys.Log
import Mathlib.Tactic

/-!
# The deferred log is a FIFO

The flusher reads its message without the lock, and no emit touches it: the slot at `tail` is
never one of the ring. With a single slot there is no room beside the empty one, and every
message is dropped.
-/

namespace VibeRtos

open Fifo Runs

/-! ## Texts -/

section Text

variable {f msg : Nat → UInt8} {k n : Nat} {text : List UInt8}

/-- The string ends at its first NUL. -/
theorem takeWhile_map_range (hk : k < n) (hne : ∀ j < k, f j ≠ 0) (h0 : f k = 0) :
    ((List.range n).map f).takeWhile (· ≠ 0) = (List.range k).map f := by
  obtain ⟨m, rfl⟩ : ∃ m, n = k + (m + 1) := ⟨n - k - 1, by omega⟩
  rw [List.range_add, List.map_append, List.takeWhile_append_of_pos]
  · rw [List.range_succ_eq_map]
    simp [h0]
  · intro c hc
    obtain ⟨j, hj, rfl⟩ := List.mem_map.mp hc
    simpa using hne j (List.mem_range.mp hj)

theorem logText_length (bytes : List UInt8) : (logText bytes).length ≤ 127 := by
  have hle := (List.takeWhile_sublist (p := (· ≠ 0)) (l := bytes.take 127)).length_le
  rw [List.length_take] at hle
  unfold logText
  omega

theorem logText_ne_zero (bytes : List UInt8) : ∀ c ∈ logText bytes, c ≠ 0 := fun c hc => by
  simpa using List.mem_takeWhile_imp hc

/-- A copied text is read back. -/
theorem logString_strncpy (hlen : text.length ≤ 127) (hne : ∀ c ∈ text, c ≠ 0)
    (hlast : msg 127 = 0) :
    logString (strncpy msg text 127) = text := by
  have hcopy : ∀ j (hj : j < text.length), strncpy msg text 127 j = text[j] := by
    intro j hj
    rw [strncpy, if_pos (by omega), List.getD_eq_getElem _ _ hj]
  have hend : strncpy msg text 127 text.length = 0 := by
    by_cases hlt : text.length < 127
    · rw [strncpy, if_pos hlt, List.getD_eq_default _ _ le_rfl]
    · have heq : text.length = 127 := by omega
      rw [strncpy, heq, if_neg (by omega)]
      exact hlast
  rw [logString, takeWhile_map_range (k := text.length) (by omega) (fun j hj => ?_) hend]
  · refine List.ext_getElem (by simp) fun j hj _ => ?_
    rw [List.length_map, List.length_range] at hj
    simpa using hcopy j hj
  · rw [hcopy j hj]
    exact hne _ (List.getElem_mem hj)

end Text

namespace LogSys

variable {cfg : LogConfig} {s s' : LogSys} {l : Label}

/-! ## Indices -/

theorem ringLen_pos (cfg : LogConfig) : 0 < cfg.ringLen := by
  have hrange := cfg.bufferSize_range
  unfold LogConfig.ringLen sizeofLogMsg
  omega

theorem used_eq (hhead : s.head < cfg.ringLen) (htail : s.tail < cfg.ringLen) :
    s.used cfg = if s.head ≤ s.tail then s.tail - s.head else s.tail + cfg.ringLen - s.head := by
  unfold used
  split
  · rw [show s.tail + cfg.ringLen - s.head = s.tail - s.head + cfg.ringLen by omega,
      Nat.add_mod_right,
      Nat.mod_eq_of_lt (by omega)]
  · exact Nat.mod_eq_of_lt (by omega)

theorem next_eq {i n : Nat} (hi : i < n) : (i + 1) % n = if i + 1 < n then i + 1 else 0 := by
  split
  · rename_i hlt
    exact Nat.mod_eq_of_lt hlt
  · rw [show i + 1 = n by omega, Nat.mod_self]

/-- The loads of the flusher agree with the message that it prints. -/
def Reads (m : LogMsg) : FlushPc → Prop
  | .out | .test | .level => True
  | .moduleName level => level = m.level
  | .timestamp level name => level = m.level ∧ name = m.moduleName
  | .msg level name now i text => level = m.level ∧ name = m.moduleName ∧ now = m.timestampMs
      ∧ i ≤ 127 ∧ text = (List.range i).map m.msg ∧ ∀ j < i, m.msg j ≠ 0
  | .advance r => r = m.record

/-- The ring, and the flusher in it. -/
structure Inv (cfg : LogConfig) (s : LogSys) : Prop where
  head : s.head < cfg.ringLen
  tail : s.tail < cfg.ringLen
  last : ∀ i, (s.ring i).msg 127 = 0
  order : s.accepted = s.flushed ++ s.pending cfg
  /-- a message is printed while it is in the ring -/
  busy : s.pc = .out ∨ s.pc = .test ∨ s.head ≠ s.tail
  reads : Reads (s.ring s.head) s.pc

theorem Inv.used_pos_iff (h : s.Inv cfg) : 0 < s.used cfg ↔ s.head ≠ s.tail := by
  have hhead := h.head
  have htail := h.tail
  rw [used_eq hhead htail]
  split <;> omega

theorem used_lt (cfg : LogConfig) (s : LogSys) : s.used cfg < cfg.ringLen :=
  Nat.mod_lt _ (ringLen_pos cfg)

theorem Inv.tail_eq (h : s.Inv cfg) : s.tail = ringAt cfg.ringLen s.head (s.used cfg) := by
  have hhead := h.head
  have htail := h.tail
  rw [ringAt_eq hhead (used_lt cfg s).le, used_eq hhead htail]
  split <;> split <;> omega

/-- The slot at `tail` holds nothing. -/
theorem Inv.tail_free (h : s.Inv cfg) {j : Nat} (hj : j < s.used cfg) :
    ringAt cfg.ringLen s.head j ≠ s.tail := by
  rw [h.tail_eq]
  exact ringAt_ne hj (used_lt cfg s)

theorem Inv.pending_nil_iff (h : s.Inv cfg) : s.pending cfg = [] ↔ s.head = s.tail := by
  have hlen : (s.pending cfg).length = s.used cfg := by
    rw [pending, List.length_map, length_ringRead]
  have hpos := h.used_pos_iff
  rw [← List.length_eq_zero_iff, hlen]
  exact ⟨fun hz => not_not.mp fun hne => absurd (hpos.mpr hne) (by omega),
    fun he => Nat.eq_zero_of_not_pos fun hp => hpos.mp hp he⟩

theorem Initial.inv (h : s.Initial) : s.Inv cfg := by
  have hpos := ringLen_pos cfg
  have hused : s.used cfg = 0 := by
    unfold used
    rw [h.head, h.tail]
    simp
  refine ⟨by rw [h.head]; exact hpos, by rw [h.tail]; exact hpos, fun i => by rw [h.ring], ?_,
    Or.inl h.pc, by rw [h.pc]; trivial⟩
  rw [h.accepted, h.flushed, pending, hused]
  rfl

/-! ## Emits -/

/-- A message has been put into the slot at `tail`. -/
structure Pushed (cfg : LogConfig) (s s' : LogSys) (m : LogMsg) : Prop where
  room : (s.tail + 1) % cfg.ringLen ≠ s.head
  last : m.msg 127 = 0
  ring : s'.ring = Function.update s.ring s.tail m
  head : s'.head = s.head
  tail : s'.tail = (s.tail + 1) % cfg.ringLen
  pc : s'.pc = s.pc
  accepted : s'.accepted = s.accepted ++ [m.record]
  flushed : s'.flushed = s.flushed

/-- An emit changes nothing, or puts its message into the ring. -/
theorem Inv.emit_cases (h : s.Inv cfg) (mod : Option LogModule) (level : Nat) (bytes : List UInt8)
    (now : UInt32) : s.emit cfg mod level bytes now = s
        ∧ (Passes mod level → (s.tail + 1) % cfg.ringLen = s.head)
      ∨ ∃ m, s.Pushed cfg (s.emit cfg mod level bytes now) m := by
  unfold emit Passes
  cases mod with
  | none => exact Or.inl ⟨rfl, fun hf => absurd hf id⟩
  | some mod =>
      dsimp only
      split
      · rename_i hlevel
        exact Or.inl ⟨rfl, fun hle => absurd hle (not_le.mpr hlevel)⟩
      · split
        · rename_i hroom
          refine Or.inr ⟨⟨level, mod.name, now, strncpy (s.ring s.tail).msg (logText bytes) 127⟩,
            hroom, ?_, rfl, rfl, rfl, rfl, ?_, rfl⟩
          · show strncpy (s.ring s.tail).msg (logText bytes) 127 127 = 0
            rw [strncpy, if_neg (by omega)]
            exact h.last s.tail
          · rw [LogMsg.record, logString_strncpy (logText_length bytes) (logText_ne_zero bytes)
              (h.last s.tail)]
        · rename_i hfull
          exact Or.inl ⟨rfl, fun _ => not_not.mp hfull⟩

theorem Inv.push {m : LogMsg} (h : s.Inv cfg) (hp : s.Pushed cfg s' m) : s'.Inv cfg := by
  have hhead : s'.head < cfg.ringLen := hp.head ▸ h.head
  have htail : s'.tail < cfg.ringLen := by
    rw [hp.tail]
    exact Nat.mod_lt _ (ringLen_pos cfg)
  have hne : s'.head ≠ s'.tail := by
    rw [hp.head, hp.tail]
    exact hp.room.symm
  -- one more message
  have hused : s'.used cfg = s.used cfg + 1 := by
    have hnext := next_eq h.tail
    have hroom := hp.room
    have hlow := h.head
    rw [used_eq hhead htail, used_eq h.head h.tail, hp.head, hp.tail]
    by_cases htop : s.tail + 1 < cfg.ringLen
    · rw [if_pos htop] at hnext
      rw [hnext] at hroom ⊢
      split <;> split <;> omega
    · have hlt := h.tail
      rw [if_neg htop] at hnext
      rw [hnext] at hroom ⊢
      split <;> split <;> omega
  refine ⟨hhead, htail, fun i => ?_, ?_, Or.inr (Or.inr hne), ?_⟩
  · rw [hp.ring, Function.update_apply]
    split
    · exact hp.last
    · exact h.last i
  · have hold : ∀ j < s.used cfg,
        s'.ring (ringAt cfg.ringLen s.head j) = s.ring (ringAt cfg.ringLen s.head j) := by
      intro j hj
      rw [hp.ring, Function.update_of_ne (h.tail_free hj)]
    have hnew : ∀ j < 1,
        s'.ring (ringAt cfg.ringLen (ringAt cfg.ringLen s.head (s.used cfg)) j) = m := by
      intro j hj
      obtain rfl : j = 0 := by omega
      rw [← h.tail_eq, ringAt_zero h.tail, hp.ring, Function.update_self]
    rw [hp.accepted, hp.flushed, pending, hused, hp.head, ringRead_append hold hnew,
      List.map_append,
      h.order, List.append_assoc]
    rfl
  · -- the message that is being printed is not at `tail`
    rw [hp.pc, hp.head, hp.ring]
    rcases h.busy with hpc | hpc | hbusy
    · rw [hpc]
      trivial
    · rw [hpc]
      trivial
    · rw [Function.update_of_ne hbusy]
      exact h.reads

/-! ## The flusher -/

theorem Inv.advance (h : s.Inv cfg) {r : LogRecord} (hpc : s.pc = .advance r) : Inv cfg { s with
    head := (s.head + 1) % cfg.ringLen
    pc := .test
    flushed := s.flushed ++ [r] } := by
  have hr : r = (s.ring s.head).record := by
    have hreads := h.reads
    rwa [hpc] at hreads
  have hbusy : s.head ≠ s.tail := by
    rcases h.busy with hout | htest | hne
    · rw [hpc] at hout
      exact absurd hout (by simp)
    · rw [hpc] at htest
      exact absurd htest (by simp)
    · exact hne
  obtain ⟨k, hk⟩ := Nat.exists_eq_succ_of_ne_zero (h.used_pos_iff.mpr hbusy).ne'
  have hhead : (s.head + 1) % cfg.ringLen < cfg.ringLen := Nat.mod_lt _ (ringLen_pos cfg)
  refine ⟨hhead, h.tail, h.last, ?_, Or.inr (Or.inl rfl), trivial⟩
  have hused : used cfg { s with
      head := (s.head + 1) % cfg.ringLen
      pc := .test
      flushed := s.flushed ++ [r] } = k := by
    have hnext := next_eq h.head
    have hlow := h.head
    have hlt := h.tail
    rw [used_eq h.head h.tail] at hk
    show (s.tail + cfg.ringLen - (s.head + 1) % cfg.ringLen) % cfg.ringLen = k
    by_cases htop : s.head + 1 < cfg.ringLen
    · rw [if_pos htop] at hnext
      rw [hnext]
      by_cases hle : s.head ≤ s.tail
      · rw [if_pos hle] at hk
        rw [show s.tail + cfg.ringLen - (s.head + 1) = k + cfg.ringLen by omega, Nat.add_mod_right,
          Nat.mod_eq_of_lt (by omega)]
      · rw [if_neg hle] at hk
        rw [show s.tail + cfg.ringLen - (s.head + 1) = k by omega, Nat.mod_eq_of_lt (by omega)]
    · rw [if_neg htop] at hnext
      rw [hnext, Nat.sub_zero, Nat.add_mod_right, Nat.mod_eq_of_lt hlt]
      split at hk <;> omega
  have hread : ringRead s.ring cfg.ringLen s.head (k + 1)
      = s.ring s.head :: ringRead s.ring cfg.ringLen ((s.head + 1) % cfg.ringLen) k := by
    rw [Nat.add_comm, ringRead_add]
    simp [ringRead, ringAt, Nat.mod_eq_of_lt h.head]
  rw [pending, hused]
  show s.accepted = s.flushed ++ [r] ++ _
  rw [h.order, pending, hk, hread, List.append_assoc, hr]
  rfl

theorem Inv.flush (h : s.Inv cfg) (hs : s.flush cfg = some s') : s'.Inv cfg := by
  have hreads := h.reads
  have hnot : s.pc ≠ .out → s.pc ≠ .test → s.head ≠ s.tail := fun ho ht =>
    (h.busy.resolve_left ho).resolve_left ht
  unfold LogSys.flush at hs
  cases hpc : s.pc with
  | out =>
      rw [hpc] at hs
      exact absurd hs (by simp)
  | test =>
      rw [hpc] at hs
      obtain rfl := Option.some.inj hs
      refine ⟨h.head, h.tail, h.last, h.order, ?_, ?_⟩
      · by_cases hne : s.head = s.tail
        · exact Or.inl (if_neg (not_not.mpr hne))
        · exact Or.inr (Or.inr hne)
      · show Reads _ (if s.head ≠ s.tail then FlushPc.level else FlushPc.out)
        split <;> trivial
  | level =>
      rw [hpc] at hs hnot
      obtain rfl := Option.some.inj hs
      exact ⟨h.head, h.tail, h.last, h.order, Or.inr (Or.inr (hnot (by simp) (by simp))), rfl⟩
  | moduleName level =>
      rw [hpc] at hs hnot hreads
      obtain rfl := Option.some.inj hs
      exact ⟨h.head, h.tail, h.last, h.order, Or.inr (Or.inr (hnot (by simp) (by simp))), hreads,
        rfl⟩
  | timestamp level name =>
      rw [hpc] at hs hnot hreads
      obtain rfl := Option.some.inj hs
      exact ⟨h.head, h.tail, h.last, h.order, Or.inr (Or.inr (hnot (by simp) (by simp))), hreads.1,
        hreads.2, rfl, Nat.zero_le _, rfl, fun j hj => absurd hj (Nat.not_lt_zero j)⟩
  | msg level name now i text =>
      rw [hpc] at hs hnot hreads
      obtain ⟨hlevel, hname, hnow, hi, htext, hne⟩ := hreads
      have hbusy := hnot (by simp) (by simp)
      dsimp only at hs
      rw [if_pos (by omega)] at hs
      split at hs
      · rename_i hnul
        obtain rfl := Option.some.inj hs
        refine ⟨h.head, h.tail, h.last, h.order, Or.inr (Or.inr hbusy), ?_⟩
        show _ = LogMsg.record _
        rw [LogMsg.record, logString, takeWhile_map_range (by omega) hne hnul, hlevel, hname, hnow,
          htext]
      · rename_i hchar
        obtain rfl := Option.some.inj hs
        have hlt : i ≠ 127 := fun he => hchar (he ▸ h.last s.head)
        refine ⟨h.head, h.tail, h.last, h.order, Or.inr (Or.inr hbusy), hlevel, hname,
          hnow, by omega,
          ?_, fun j hj => ?_⟩
        · rw [htext, List.range_succ, List.map_append]
          rfl
        · rcases Nat.lt_succ_iff_lt_or_eq.mp hj with hj | rfl
          · exact hne j hj
          · exact hchar
  | advance r =>
      rw [hpc] at hs
      obtain rfl := Option.some.inj hs
      exact h.advance hpc

theorem Inv.flush_isSome (h : s.Inv cfg) (hpc : s.pc ≠ .out) : (s.flush cfg).isSome := by
  have hreads := h.reads
  unfold LogSys.flush
  cases hp : s.pc with
  | out => exact absurd hp hpc
  | msg level name now i text =>
      rw [hp] at hreads
      have hi := hreads.2.2.2.1
      dsimp only
      rw [if_pos (by omega)]
      split <;> rfl
  | _ => rfl

theorem Inv.step (h : s.Inv cfg) (hs : s.step cfg l = some s') : s'.Inv cfg := by
  cases l with
  | emit mod level bytes now =>
      obtain rfl := Option.some.inj hs
      rcases h.emit_cases mod level bytes now with ⟨heq, -⟩ | ⟨m, hp⟩
      · rw [heq]
        exact h
      · exact h.push hp
  | call =>
      obtain ⟨hout, hs⟩ := Option.ite_none_right_eq_some.mp hs
      obtain rfl := Option.some.inj hs
      exact ⟨h.head, h.tail, h.last, h.order, Or.inr (Or.inl rfl), trivial⟩
  | flush => exact h.flush hs

/-! ## The log -/

/-- The promises hold exactly when a message that is accepted or dropped finds room for two. -/
theorem Inv.keeps_iff (h : s.Inv cfg) (l : Label) : s.Keeps cfg l ↔ s.Roomy cfg l := by
  have hlen : 280 ≤ cfg.bufferSize ↔ 2 ≤ cfg.ringLen := by
    unfold LogConfig.ringLen sizeofLogMsg
    omega
  have hhead := h.head
  have htail := h.tail
  constructor
  · intro hk
    cases l with
    | call => trivial
    | flush => trivial
    | emit mod level bytes now =>
        intro hpass
        rw [hlen]
        by_contra hone
        -- the only slot is the one that stays empty
        have hnext : (s.tail + 1) % cfg.ringLen = s.head := by
          rw [show cfg.ringLen = 1 by omega, Nat.mod_one]
          omega
        have hnil : s.pending cfg = [] := h.pending_nil_iff.mpr (by omega)
        rcases hk.dropped mod level bytes now rfl hpass with hacc | hpend
        · rcases h.emit_cases mod level bytes now with ⟨heq, -⟩ | ⟨m, hp⟩
          · rw [heq] at hacc
            omega
          · exact hp.room hnext
        · exact hpend hnil
  · intro hroomy
    refine ⟨h.order, fun _ _ he => ?_, fun _ hpc => h.flush_isSome hpc,
      fun mod level bytes now _ j hj => ?_, fun mod level bytes now hl hpass => ?_⟩
    · have hnil := h.pending_nil_iff.mpr he
      rw [h.order, hnil, List.append_nil]
    · rcases h.emit_cases mod level bytes now with ⟨heq, -⟩ | ⟨m, hp⟩
      · rw [heq]
      · rw [hp.ring, Function.update_of_ne (h.tail_free hj)]
    · subst hl
      have htwo := hlen.mp (hroomy hpass)
      rcases h.emit_cases mod level bytes now with ⟨-, hfull⟩ | ⟨m, hp⟩
      · refine Or.inr fun hnil => ?_
        have he := h.pending_nil_iff.mp hnil
        have hnext := next_eq htail
        have hfull := hfull hpass
        split at hnext <;> omega
      · exact Or.inl (by rw [hp.accepted, List.length_append, List.length_singleton])

end LogSys

/--
**When the deferred log loses nothing it had room for.**

For every size that `Kconfig` admits and every interleaving of emits with one flusher: the log
keeps its promises along the run if and only if no message passes its filter, or the buffer
has 280 bytes and so room for two messages.
-/
theorem log_ring_iff (cfg : LogConfig) {s : LogSys} (h : s.Initial) (labels : List LogSys.Label) :
    Along (LogSys.step cfg) (LogSys.Keeps cfg) s labels
      ↔ Along (LogSys.step cfg) (LogSys.Roomy cfg) s labels :=
  along_iff_along (fun _ _ _ hi hs => LogSys.Inv.step hi hs)
    (fun _ l hi => LogSys.Inv.keeps_iff hi l)
    (LogSys.Initial.inv h)

/-- The log of a system that has just started. -/
def logStart : LogSys := ⟨fun _ => ⟨0, 0, 0, fun _ => 0⟩, 0, 0, .out, [], []⟩

theorem logStart_initial : logStart.Initial := ⟨fun _ => rfl, rfl, rfl, rfl, rfl, rfl⟩

/-- An error from a module that lets everything pass. -/
def logError : LogSys.Label := .emit (some ⟨0x8000, 3⟩) 0 [0x68, 0x69] 5

/-- A second message overtakes the flusher, and a third finds a ring of two messages full. -/
theorem log_ring_iff_two :
    Along (LogSys.step ⟨280, by decide⟩) (LogSys.Keeps ⟨280, by decide⟩) logStart
    [logError, .call, .flush, .flush, .flush, logError, .flush, .flush, .flush, .flush, .flush,
      logError, .flush, .flush] :=
  (log_ring_iff ⟨280, by decide⟩ logStart_initial _).mpr (by decide +kernel)

/-- In 256 bytes the first message is dropped, with nothing in the ring. -/
theorem log_ring_of_one_slot :
    logStart.emit ⟨256, by decide⟩ (some ⟨0x8000, 3⟩) 0 [0x68, 0x69] 5 = logStart
      ∧ logStart.pending ⟨256, by decide⟩ = []
      ∧ ¬ Along (LogSys.step ⟨256, by decide⟩)
        (LogSys.Keeps ⟨256, by decide⟩) logStart [logError] := by
  have hnone : logStart.emit ⟨256, by decide⟩ (some ⟨0x8000, 3⟩) 0 [0x68, 0x69] 5 = logStart := rfl
  refine ⟨hnone, rfl, fun h => ?_⟩
  rcases h.1.dropped _ _ _ _ rfl (by decide) with hacc | hpend
  · rw [hnone] at hacc
    exact absurd hacc (by decide)
  · exact hpend rfl

end VibeRtos
