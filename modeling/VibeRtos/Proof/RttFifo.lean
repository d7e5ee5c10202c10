import VibeRtos.Sys.Rtt

/-!
# RTT channels are bounded FIFOs

The pending bytes of a ring are those from `RdOff` to `WrOff`. One slot stays empty, so that equal
offsets mean that nothing is pending, and the size may be any. A round of the write loop appends
a run of bytes that does not wrap; the rounds together append the longest prefix that fits.
-/

namespace VibeRtos

open ByteMem Fifo

namespace RttRing

variable {r : RttRing} {buf : Mem} {size wr rd run : UInt32}

/-! ## Offsets -/

theorem Ok.wr_lt (h : r.Ok) : r.wrOff.toNat < r.sizeOfBuffer.toNat :=
  UInt32.lt_iff_toNat_lt.mp h.wr

theorem Ok.rd_lt (h : r.Ok) : r.rdOff.toNat < r.sizeOfBuffer.toNat :=
  UInt32.lt_iff_toNat_lt.mp h.rd

theorem used_toNat (h : r.Ok) : r.used.toNat
    = if r.rdOff.toNat ≤ r.wrOff.toNat then r.wrOff.toNat - r.rdOff.toNat
      else r.sizeOfBuffer.toNat - r.rdOff.toNat + r.wrOff.toNat := by
  have hwr := h.wr_lt
  have hrd := h.rd_lt
  have hlt := r.sizeOfBuffer.toNat_lt
  by_cases hle : r.rdOff ≤ r.wrOff
  · have hle' := UInt32.le_iff_toNat_le.mp hle
    rw [if_pos hle', used, if_pos hle, UInt32.toNat_sub_of_le _ _ hle]
  · have hle' : ¬ r.rdOff.toNat ≤ r.wrOff.toNat := fun h' => hle (UInt32.le_iff_toNat_le.mpr h')
    have hsub := UInt32.toNat_sub_of_le _ _ (UInt32.le_of_lt h.rd)
    rw [if_neg hle', used, if_neg hle, UInt32.toNat_add, hsub, Nat.mod_eq_of_lt (by omega)]

theorem used_lt (h : r.Ok) : r.used.toNat < r.sizeOfBuffer.toNat := by
  have hwr := h.wr_lt
  have hrd := h.rd_lt
  rw [used_toNat h]
  split <;> omega

/-- The first free slot. -/
theorem wrOff_eq (h : r.Ok) :
    ringAt r.sizeOfBuffer.toNat r.rdOff.toNat r.used.toNat = r.wrOff.toNat := by
  have hwr := h.wr_lt
  have hrd := h.rd_lt
  have hused := used_lt h
  rw [ringAt_eq hrd (by omega), used_toNat h]
  split_ifs <;> omega

/-- The free space that the write loop computes. -/
theorem space_toNat (h : r.Ok) :
    (if r.rdOff > r.wrOff then r.rdOff - r.wrOff - 1
      else r.sizeOfBuffer - r.wrOff + r.rdOff - 1).toNat
      = r.sizeOfBuffer.toNat - 1 - r.used.toNat := by
  have hwr := h.wr_lt
  have hrd := h.rd_lt
  have hlt := r.sizeOfBuffer.toNat_lt
  rw [used_toNat h]
  by_cases hgt : r.rdOff > r.wrOff
  · have hgt' := UInt32.lt_iff_toNat_lt.mp hgt
    have hsub := UInt32.toNat_sub_of_le _ _ (UInt32.le_of_lt hgt)
    rw [if_pos hgt, if_neg (by omega), UInt32.toNat_sub_of_le _ _ ?_, hsub]
    · simp only [UInt32.toNat_one]
      omega
    · rw [UInt32.le_iff_toNat_le, hsub]
      simp only [UInt32.toNat_one]
      omega
  · have hle' : r.rdOff.toNat ≤ r.wrOff.toNat := by
      rw [← UInt32.le_iff_toNat_le]
      exact UInt32.not_lt.mp hgt
    have hsub := UInt32.toNat_sub_of_le _ _ (UInt32.le_of_lt h.wr)
    have hadd : (r.sizeOfBuffer - r.wrOff + r.rdOff).toNat
        = r.sizeOfBuffer.toNat - r.wrOff.toNat + r.rdOff.toNat := by
      rw [UInt32.toNat_add, hsub, Nat.mod_eq_of_lt (by omega)]
    rw [if_neg hgt, if_pos hle', UInt32.toNat_sub_of_le _ _ ?_, hadd]
    · simp only [UInt32.toNat_one]
      omega
    · rw [UInt32.le_iff_toNat_le, hadd]
      simp only [UInt32.toNat_one]
      omega

/-! ## Writing -/

/-- What a round of the write loop makes of the ring. -/
def wrote (r : RttRing) (buf : Mem) (data : Nat → UInt8) (run : UInt32) : RttRing :=
  { r with
    pBuffer := some (blit buf r.wrOff.toNat data run.toNat)
    wrOff := if r.wrOff + run ≥ r.sizeOfBuffer then 0 else r.wrOff + run }

/-- The run fits, and does not wrap. -/
structure Fits (r : RttRing) (run : UInt32) : Prop where
  linear : r.wrOff.toNat + run.toNat ≤ r.sizeOfBuffer.toNat
  free : r.used.toNat + run.toNat < r.sizeOfBuffer.toNat

theorem Fits.wrOff (hf : r.Fits run) :
    (if r.wrOff + run ≥ r.sizeOfBuffer then 0 else r.wrOff + run).toNat
      = if r.wrOff.toNat + run.toNat = r.sizeOfBuffer.toNat then 0
        else r.wrOff.toNat + run.toNat := by
  have hlinear := hf.linear
  have hlt := r.sizeOfBuffer.toNat_lt
  have hadd : (r.wrOff + run).toNat = r.wrOff.toNat + run.toNat := by
    rw [UInt32.toNat_add, Nat.mod_eq_of_lt (by omega)]
  by_cases hge : r.wrOff + run ≥ r.sizeOfBuffer
  · have hge' := UInt32.le_iff_toNat_le.mp hge
    rw [if_pos hge, if_pos (by omega)]
    rfl
  · have hge' : ¬ r.sizeOfBuffer.toNat ≤ (r.wrOff + run).toNat :=
      fun h' => hge (UInt32.le_iff_toNat_le.mpr h')
    rw [if_neg hge, if_neg (by omega), hadd]

theorem Fits.ok (hf : r.Fits run) (h : r.Ok) (data : Nat → UInt8) : (r.wrote buf data run).Ok := by
  have hrd := h.rd_lt
  have hlinear := hf.linear
  refine ⟨?_, h.rd⟩
  rw [UInt32.lt_iff_toNat_lt]
  show (if r.wrOff + run ≥ r.sizeOfBuffer then 0 else r.wrOff + run).toNat < r.sizeOfBuffer.toNat
  rw [hf.wrOff]
  split <;> omega

theorem Fits.used (hf : r.Fits run) (h : r.Ok) (data : Nat → UInt8) :
    (r.wrote buf data run).used.toNat = r.used.toNat + run.toNat := by
  have hwr := h.wr_lt
  have hrd := h.rd_lt
  have hlinear := hf.linear
  have hfree := hf.free
  rw [used_toNat h] at hfree
  rw [used_toNat (hf.ok h data), used_toNat h]
  have hoff : (r.wrote buf data run).wrOff.toNat
      = if r.wrOff.toNat + run.toNat = r.sizeOfBuffer.toNat then 0 else r.wrOff.toNat + run.toNat :=
    hf.wrOff
  rw [hoff, show (r.wrote buf data run).rdOff = r.rdOff from rfl,
    show (r.wrote buf data run).sizeOfBuffer = r.sizeOfBuffer from rfl]
  split_ifs at hfree ⊢ <;> omega

/-- The pending bytes stay where they are. -/
theorem Fits.frame (hf : r.Fits run) (h : r.Ok) (data : Nat → UInt8) {j : Nat}
    (hj : j < r.used.toNat) :
    blit buf r.wrOff.toNat data run.toNat (ringAt r.sizeOfBuffer.toNat r.rdOff.toNat j)
      = buf (ringAt r.sizeOfBuffer.toNat r.rdOff.toNat j) := by
  have hwr := h.wr_lt
  have hrd := h.rd_lt
  have hlinear := hf.linear
  have hfree := hf.free
  have hused := used_lt h
  rw [used_toNat h] at hj hfree
  rw [ringAt_eq hrd (by omega)]
  refine blit_frame ?_
  split_ifs at hj hfree ⊢ <;> omega

/-- **A run is appended.** -/
theorem Fits.pending (hf : r.Fits run) (h : r.Ok) (hbuf : r.pBuffer = some buf)
    (data : Nat → UInt8) :
    (r.wrote buf data run).pending = r.pending ++ (List.range run.toNat).map data := by
  have hlinear := hf.linear
  have hwr := h.wr_lt
  have hpending : r.pending = ringRead buf r.sizeOfBuffer.toNat r.rdOff.toNat r.used.toNat := by
    rw [RttRing.pending, hbuf]
  show ringRead _ r.sizeOfBuffer.toNat r.rdOff.toNat (r.wrote buf data run).used.toNat = _
  rw [hf.used h, hpending]
  refine ringRead_append (fun j hj => hf.frame h data hj) fun j hj => ?_
  rw [wrOff_eq h, ringAt_eq hwr (by omega), if_pos (by omega), blit, if_pos (by omega),
    Nat.add_sub_cancel_left]

/-- `n` bytes were appended, and the pending ones are where they were. -/
structure Appended (r r' : RttRing) (buf buf' : Mem) (data : Nat → UInt8) (n : Nat) : Prop where
  ok : r'.Ok
  pending : r'.pending = r.pending ++ (List.range n).map data
  frame : ∀ j < r.used.toNat, buf' (ringAt r.sizeOfBuffer.toNat r.rdOff.toNat j)
    = buf (ringAt r.sizeOfBuffer.toNat r.rdOff.toNat j)

theorem Appended.refl (h : r.Ok) (data : Nat → UInt8) : Appended r r buf buf data 0 :=
  ⟨h, by simp, fun _ _ => rfl⟩

theorem Fits.appended (hf : r.Fits run) (h : r.Ok) (hbuf : r.pBuffer = some buf)
    (data : Nat → UInt8) : Appended r (r.wrote buf data run) buf
      (blit buf r.wrOff.toNat data run.toNat) data run.toNat :=
  ⟨hf.ok h data, hf.pending h hbuf data, fun _ hj => hf.frame h data hj⟩

/-- A run, and what is appended behind it. -/
theorem Appended.trans {buf₁ buf₂ : Mem} {r₂ : RttRing} {data data₂ : Nat → UInt8} {n : Nat}
    (happ : Appended r (r.wrote buf data run) buf buf₁ data run.toNat) (h : r.Ok)
    (hf : r.Fits run) (happ₂ : Appended (r.wrote buf data run) r₂ buf₁ buf₂ data₂ n)
    (hdata : ∀ i, data₂ i = data (run.toNat + i)) :
    Appended r r₂ buf buf₂ data (run.toNat + n) := by
  refine ⟨happ₂.ok, ?_, fun j hj => ?_⟩
  · rw [happ₂.pending, happ.pending, List.append_assoc, List.range_add, List.map_append,
      List.map_map]
    congr 2
    exact List.map_congr_left fun i _ => hdata i
  · have hframe := happ₂.frame j (by rw [hf.used h]; omega)
    exact hframe.trans (happ.frame j hj)

/-- The run that a round of the write loop copies. -/
def runOf (r : RttRing) (len written : UInt32) : UInt32 :=
  let space := if r.rdOff > r.wrOff then r.rdOff - r.wrOff - 1
    else r.sizeOfBuffer - r.wrOff + r.rdOff - 1
  let run := r.sizeOfBuffer - r.wrOff
  let run := if run > space then space else run
  if run > len - written then len - written else run

theorem toNat_ite_min (a b : UInt32) : (if a > b then b else a).toNat = min a.toNat b.toNat := by
  by_cases h : a > b
  · have h' := UInt32.lt_iff_toNat_lt.mp h
    rw [if_pos h]
    omega
  · have h' := UInt32.le_iff_toNat_le.mp (UInt32.not_lt.mp h)
    rw [if_neg h]
    omega

theorem runOf_toNat (h : r.Ok) {len written : UInt32} (hle : written ≤ len) :
    (runOf r len written).toNat = min (min (r.sizeOfBuffer.toNat - r.wrOff.toNat)
      (r.sizeOfBuffer.toNat - 1 - r.used.toNat)) (len.toNat - written.toNat) := by
  unfold runOf
  rw [toNat_ite_min, toNat_ite_min, space_toNat h, UInt32.toNat_sub_of_le _ _ hle,
    UInt32.toNat_sub_of_le _ _ (UInt32.le_of_lt h.wr)]

theorem runOf_fits (h : r.Ok) {len written : UInt32} (hle : written ≤ len) :
    r.Fits (runOf r len written) := by
  have hwr := h.wr_lt
  have hused := used_lt h
  have hrun := runOf_toNat h hle
  exact ⟨by omega, by omega⟩

/-- A round of the write loop with room in the ring. -/
theorem writeLoop_round (h : r.Ok) (src : Nat → UInt8) {len written : UInt32}
    (hlt : written < len) (hspace : r.used.toNat + 1 < r.sizeOfBuffer.toNat) (fuel : Nat) :
    rttWriteLoop r.sizeOfBuffer r.rdOff src len (fuel + 1) buf r.wrOff written
      = rttWriteLoop r.sizeOfBuffer r.rdOff src len fuel
        (blit buf r.wrOff.toNat (fun i => src (written.toNat + i)) (runOf r len written).toNat)
        (r.wrote buf (fun i => src (written.toNat + i)) (runOf r len written)).wrOff
        (written + runOf r len written) := by
  have hfits := (runOf_fits h (UInt32.le_of_lt hlt)).linear
  have hspace' := space_toNat h
  have hne : ¬ (if r.rdOff > r.wrOff then r.rdOff - r.wrOff - 1
      else r.sizeOfBuffer - r.wrOff + r.rdOff - 1) = 0 := by
    intro hz
    rw [hz] at hspace'
    simp only [UInt32.toNat_zero] at hspace'
    omega
  have hcopy : rttCopy r.sizeOfBuffer buf src r.wrOff written (runOf r len written)
      = some (blit buf r.wrOff.toNat (fun i => src (written.toNat + i))
        (runOf r len written).toNat) := if_pos hfits
  unfold runOf at hcopy
  simp only [rttWriteLoop, if_pos hlt, if_neg hne, hcopy, Option.bind_some]
  rfl

/-- **The write loop ends**, having appended the longest prefix that fits. -/
theorem writeLoop_spec (src : Nat → UInt8) (len : UInt32) : ∀ (fuel : Nat) (r : RttRing) (buf : Mem)
    (written : UInt32), r.Ok → r.pBuffer = some buf → written ≤ len →
    len.toNat < written.toNat + fuel →
    ∃ buf' wr' n, rttWriteLoop r.sizeOfBuffer r.rdOff src len fuel buf r.wrOff written
        = some (buf', wr', written + n)
      ∧ n.toNat = min (len.toNat - written.toNat) (r.sizeOfBuffer.toNat - 1 - r.used.toNat)
      ∧ Appended r { r with pBuffer := some buf', wrOff := wr' } buf buf'
        (fun i => src (written.toNat + i)) n.toNat := by
  intro fuel
  induction fuel with
  | zero =>
      intro r buf written _ _ hle hfuel
      have hle' := UInt32.le_iff_toNat_le.mp hle
      omega
  | succ fuel ih =>
      intro r buf written h hbuf hle hfuel
      have hsame : { r with pBuffer := some buf, wrOff := r.wrOff } = r := by
        rw [← hbuf]
      by_cases hlt : written < len
      · have hlt' := UInt32.lt_iff_toNat_lt.mp hlt
        have hused := used_lt h
        by_cases hspace : r.used.toNat + 1 < r.sizeOfBuffer.toNat
        · have hfits := runOf_fits h hle
          have hrun := runOf_toNat h hle
          have hwr := h.wr_lt
          have hlen := len.toNat_lt
          have hadd : (written + runOf r len written).toNat
              = written.toNat + (runOf r len written).toNat := by
            rw [UInt32.toNat_add, Nat.mod_eq_of_lt (by omega)]
          obtain ⟨buf', wr', n, hloop, hn, happ⟩ := ih
            (r.wrote buf (fun i => src (written.toNat + i)) (runOf r len written)) _
            (written + runOf r len written) (hfits.ok h _) rfl
            (by rw [UInt32.le_iff_toNat_le, hadd]; omega) (by omega)
          rw [hfits.used h, show (r.wrote buf (fun i => src (written.toNat + i))
            (runOf r len written)).sizeOfBuffer = r.sizeOfBuffer from rfl] at hn
          have hsum : (runOf r len written + n).toNat = (runOf r len written).toNat + n.toNat := by
            rw [UInt32.toNat_add, Nat.mod_eq_of_lt (by omega)]
          refine ⟨buf', wr', runOf r len written + n, ?_, by omega, ?_⟩
          · rw [writeLoop_round h src hlt hspace, ← UInt32.add_assoc]
            exact hloop
          · rw [hsum]
            refine (hfits.appended h hbuf _).trans h hfits happ fun i => ?_
            rw [hadd, Nat.add_assoc]
        · -- the ring is full
          have hzero : (if r.rdOff > r.wrOff then r.rdOff - r.wrOff - 1
              else r.sizeOfBuffer - r.wrOff + r.rdOff - 1) = 0 := by
            rw [← UInt32.toNat_inj, space_toNat h]
            simp only [UInt32.toNat_zero]
            omega
          refine ⟨buf, r.wrOff, 0, ?_, ?_, ?_⟩
          · simp only [rttWriteLoop, if_pos hlt, hzero, if_true, UInt32.add_zero]
          · simp only [UInt32.toNat_zero]
            omega
          · rw [hsame]
            exact Appended.refl h _
      · -- everything is written
        have hlt' : ¬ written.toNat < len.toNat := fun h' => hlt (UInt32.lt_iff_toNat_lt.mpr h')
        refine ⟨buf, r.wrOff, 0, ?_, ?_, ?_⟩
        · rw [rttWriteLoop, if_neg hlt, UInt32.add_zero]
        · simp only [UInt32.toNat_zero]
          omega
        · rw [hsame]
          exact Appended.refl h _

theorem pending_eq (hbuf : r.pBuffer = some buf) :
    r.pending = ringRead buf r.sizeOfBuffer.toNat r.rdOff.toNat r.used.toNat := by
  rw [pending, hbuf]

theorem length_pending (hbuf : r.pBuffer = some buf) : r.pending.length = r.used.toNat := by
  rw [pending_eq hbuf, length_ringRead]

/-- The locked part of `vibe_rtt_write`. -/
theorem write_spec (h : r.Ok) (hbuf : r.pBuffer = some buf) (src : Nat → UInt8) (len : UInt32) :
    ∃ r' buf' n, r.write buf src len = some (r', n)
      ∧ r'.pBuffer = some buf' ∧ r'.sizeOfBuffer = r.sizeOfBuffer ∧ r'.rdOff = r.rdOff
      ∧ n.toNat = min len.toNat (r.sizeOfBuffer.toNat - 1 - r.pending.length)
      ∧ Appended r r' buf buf' src n.toNat := by
  obtain ⟨buf', wr', n, hloop, hn, happ⟩ :=
    writeLoop_spec src len (len.toNat + 1) r buf 0 h hbuf
      (UInt32.le_iff_toNat_le.mpr (Nat.zero_le _)) (by simp only [UInt32.toNat_zero]; omega)
  rw [UInt32.zero_add] at hloop
  simp only [UInt32.toNat_zero, Nat.sub_zero, Nat.zero_add] at hn happ
  refine ⟨{ r with pBuffer := some buf', wrOff := wr' }, buf', n, ?_, rfl, rfl, rfl, ?_, happ⟩
  · rw [write, hloop]
    rfl
  · rw [length_pending hbuf]
    exact hn

/-! ## Reading -/

section Consume

variable {n : Nat}

theorem consume_rdOff (h : r.Ok) (n : Nat) :
    (r.consume n).rdOff.toNat = ringAt r.sizeOfBuffer.toNat r.rdOff.toNat n := by
  have hrd := h.rd_lt
  have hlt := r.sizeOfBuffer.toNat_lt
  have hat : ringAt r.sizeOfBuffer.toNat r.rdOff.toNat n < r.sizeOfBuffer.toNat :=
    ringAt_lt (by omega)
  show (UInt32.ofNat _).toNat = _
  rw [UInt32.toNat_ofNat', Nat.mod_eq_of_lt (by omega)]

theorem consume_ok (h : r.Ok) (n : Nat) : (r.consume n).Ok := by
  have hrd := h.rd_lt
  refine ⟨h.wr, ?_⟩
  rw [UInt32.lt_iff_toNat_lt, consume_rdOff h]
  exact ringAt_lt (by show 0 < r.sizeOfBuffer.toNat; omega)

theorem consume_used (h : r.Ok) (hn : n ≤ r.used.toNat) :
    (r.consume n).used.toNat = r.used.toNat - n := by
  have hwr := h.wr_lt
  have hrd := h.rd_lt
  have hused := used_lt h
  rw [used_toNat (consume_ok h n), consume_rdOff h, ringAt_eq hrd (by omega),
    show (r.consume n).wrOff = r.wrOff from rfl,
    show (r.consume n).sizeOfBuffer = r.sizeOfBuffer from rfl]
  rw [used_toNat h] at hn hused ⊢
  split_ifs at hn hused ⊢ <;> omega

theorem consume_pending (h : r.Ok) (hbuf : r.pBuffer = some buf) (hn : n ≤ r.used.toNat) :
    (r.consume n).pending = r.pending.drop n := by
  rw [pending_eq (r := r.consume n) hbuf, pending_eq hbuf, ringRead_drop hn, consume_used h hn,
    consume_rdOff h]
  rfl

theorem consume_consume (h : r.Ok) (k : Nat) : (r.consume n).consume k = r.consume (n + k) := by
  show { r with rdOff := UInt32.ofNat (ringAt _ (r.consume n).rdOff.toNat k) } = _
  rw [consume_rdOff h]
  show { r with rdOff := UInt32.ofNat (ringAt r.sizeOfBuffer.toNat _ k) } = _
  rw [ringAt_ringAt]
  rfl

theorem consume_zero (h : r.Ok) : r.consume 0 = r := by
  have hrd := h.rd_lt
  show { r with rdOff := UInt32.ofNat (ringAt r.sizeOfBuffer.toNat r.rdOff.toNat 0) } = r
  rw [ringAt_zero hrd, UInt32.ofNat_toNat]

/-- How the read loop advances its offset. -/
theorem next_rdOff (h : r.Ok) :
    (if r.rdOff + 1 ≥ r.sizeOfBuffer then 0 else r.rdOff + 1) = (r.consume 1).rdOff := by
  have hrd := h.rd_lt
  have hlt := r.sizeOfBuffer.toNat_lt
  have hadd : (r.rdOff + 1).toNat = r.rdOff.toNat + 1 := by
    rw [UInt32.toNat_add, UInt32.toNat_one, Nat.mod_eq_of_lt (by omega)]
  rw [← UInt32.toNat_inj, consume_rdOff h, ringAt_eq hrd (by omega)]
  by_cases hge : r.rdOff + 1 ≥ r.sizeOfBuffer
  · have hge' := UInt32.le_iff_toNat_le.mp hge
    rw [if_pos hge, if_neg (by omega)]
    simp only [UInt32.toNat_zero]
    omega
  · have hge' : ¬ r.sizeOfBuffer.toNat ≤ (r.rdOff + 1).toNat :=
      fun h' => hge (UInt32.le_iff_toNat_le.mpr h')
    rw [if_neg hge, if_pos (by omega), hadd]

theorem used_eq_zero_iff (h : r.Ok) : r.used.toNat = 0 ↔ r.rdOff = r.wrOff := by
  have hwr := h.wr_lt
  have hrd := h.rd_lt
  rw [used_toNat h, ← UInt32.toNat_inj]
  split <;> omega

/-- **The read loop ends**, having taken the oldest bytes. -/
theorem readLoop_spec (len : UInt32) : ∀ (fuel : Nat) (r : RttRing) (dst : List UInt8),
    r.Ok → r.pBuffer = some buf → dst.length ≤ len.toNat → len.toNat < dst.length + fuel →
    rttReadLoop r.sizeOfBuffer r.wrOff buf len fuel r.rdOff dst
      = some ((r.consume (min (len.toNat - dst.length) r.used.toNat)).rdOff,
        dst ++ r.pending.take (min (len.toNat - dst.length) r.used.toNat)) := by
  intro fuel
  induction fuel with
  | zero =>
      intro r dst _ _ hle hfuel
      omega
  | succ fuel ih =>
      intro r dst h hbuf hle hfuel
      by_cases hmore : dst.length < len.toNat ∧ r.rdOff ≠ r.wrOff
      · have hpos : r.used.toNat ≠ 0 := fun hz => hmore.2 ((used_eq_zero_iff h).mp hz)
        have hone := consume_used h (n := 1) (by omega)
        have hlen : (dst ++ [buf r.rdOff.toNat]).length = dst.length + 1 := by
          rw [List.length_append, List.length_singleton]
        have hnext := ih (r.consume 1) (dst ++ [buf r.rdOff.toNat]) (consume_ok h 1) hbuf
          (by omega) (by omega)
        have hmin : min (len.toNat - dst.length) r.used.toNat
            = min (len.toNat - (dst.length + 1)) (r.used.toNat - 1) + 1 := by omega
        have hhead : r.pending = buf r.rdOff.toNat :: r.pending.drop 1 := by
          rw [pending_eq hbuf]
          exact ringRead_head (by omega) h.rd_lt
        rw [hlen, hone, consume_consume h, consume_pending h hbuf (by omega)] at hnext
        rw [rttReadLoop, if_pos hmore, if_pos h.rd]
        show rttReadLoop r.sizeOfBuffer r.wrOff buf len fuel
          (if r.rdOff + 1 ≥ r.sizeOfBuffer then 0 else r.rdOff + 1) (dst ++ [buf r.rdOff.toNat]) = _
        rw [next_rdOff h, hmin, hhead, List.take_succ_cons, Nat.add_comm _ 1]
        refine hnext.trans ?_
        rw [List.append_assoc]
        rfl
      · have hnone : min (len.toNat - dst.length) r.used.toNat = 0 := by
          by_cases heq : r.rdOff = r.wrOff
          · rw [(used_eq_zero_iff h).mpr heq, Nat.min_zero]
          · have hfull : ¬ dst.length < len.toNat := fun hlt => hmore ⟨hlt, heq⟩
            omega
        rw [rttReadLoop, if_neg hmore, hnone, consume_zero h, List.take_zero, List.append_nil]

theorem consume_rdOff_eq (r : RttRing) (n : Nat) :
    { r with rdOff := (r.consume n).rdOff } = r.consume n := rfl

/-- The locked part of `vibe_rtt_read`. -/
theorem read_spec (h : r.Ok) (hbuf : r.pBuffer = some buf) (len : UInt32) :
    r.read buf len = some (r.consume (min len.toNat r.pending.length),
      r.pending.take (min len.toNat r.pending.length)) := by
  have hloop := readLoop_spec len (len.toNat + 1) r [] h hbuf (Nat.zero_le _)
    (by rw [List.length_nil]; omega)
  rw [List.length_nil, Nat.sub_zero, List.nil_append, ← length_pending hbuf] at hloop
  rw [read, hloop, Option.map_some, consume_rdOff_eq]

/-- The consumed bytes and the pending ones are the bytes that were pending. -/
theorem consume_split (h : r.Ok) (hbuf : r.pBuffer = some buf) (hn : n ≤ r.pending.length) :
    r.pending.take n ++ (r.consume n).pending = r.pending := by
  rw [length_pending hbuf] at hn
  rw [consume_pending h hbuf hn, List.take_append_drop]

end Consume

/-! ## The probe -/

/-- A byte of the probe is a run of one byte. -/
theorem put_eq (h : r.Ok) (hbuf : r.pBuffer = some buf)
    (hroom : r.used.toNat + 1 < r.sizeOfBuffer.toNat) (b : UInt8) :
    r.put b = r.wrote buf (fun _ => b) 1 := by
  have hwr := h.wr_lt
  have hlt := r.sizeOfBuffer.toNat_lt
  have hfits : r.Fits 1 := ⟨by rw [UInt32.toNat_one]; omega, by rw [UInt32.toNat_one]; omega⟩
  have hmem : Function.update buf r.wrOff.toNat b
      = blit buf r.wrOff.toNat (fun _ => b) (1 : UInt32).toNat := by
    funext x
    rw [Function.update_apply, blit, UInt32.toNat_one]
    exact if_congr (by omega) rfl rfl
  have hoff : UInt32.ofNat (ringAt r.sizeOfBuffer.toNat r.wrOff.toNat 1)
      = if r.wrOff + 1 ≥ r.sizeOfBuffer then 0 else r.wrOff + 1 := by
    have hat : ringAt r.sizeOfBuffer.toNat r.wrOff.toNat 1 < r.sizeOfBuffer.toNat :=
      ringAt_lt (by omega)
    rw [← UInt32.toNat_inj, UInt32.toNat_ofNat', Nat.mod_eq_of_lt (by omega), hfits.wrOff,
      ringAt_eq hwr (by omega), UInt32.toNat_one]
    split_ifs <;> omega
  rw [put, wrote, hbuf, Option.map_some, hmem, hoff]

/-- **The probe appends.** -/
theorem puts_pending : ∀ (bytes : List UInt8) (r : RttRing) (buf : Mem), r.Ok →
    r.pBuffer = some buf → r.pending.length + bytes.length < r.sizeOfBuffer.toNat →
    (bytes.foldl put r).Ok ∧ (∃ buf', (bytes.foldl put r).pBuffer = some buf')
      ∧ (bytes.foldl put r).sizeOfBuffer = r.sizeOfBuffer
      ∧ (bytes.foldl put r).pending = r.pending ++ bytes := by
  intro bytes
  induction bytes with
  | nil =>
      intro r buf h hbuf _
      exact ⟨h, ⟨buf, hbuf⟩, rfl, (List.append_nil _).symm⟩
  | cons b bytes ih =>
      intro r buf h hbuf hroom
      rw [List.length_cons, length_pending hbuf] at hroom
      have hone : r.Fits 1 := by
        have hwr := h.wr_lt
        exact ⟨by rw [UInt32.toNat_one]; omega, by rw [UInt32.toNat_one]; omega⟩
      have hput := put_eq h hbuf (by omega) b
      have hpending := hone.pending h hbuf fun _ => b
      obtain ⟨hok, hsome, hsize, happ⟩ := ih (r.put b) (blit buf r.wrOff.toNat (fun _ => b) 1)
        (by rw [hput]; exact hone.ok h _) (by rw [hput]; rfl)
        (by
          rw [hput, hpending, List.length_append, length_pending hbuf]
          simp only [UInt32.toNat_one, List.range_one, List.map_singleton, List.length_singleton]
          show _ < r.sizeOfBuffer.toNat
          omega)
      refine ⟨hok, hsome, hsize, ?_⟩
      rw [List.foldl_cons, happ, hput, hpending, List.append_assoc]
      rfl

end RttRing

/-! ## Calls on a channel -/

section Calls

variable {cfg : RttConfig} {s : Rtt cfg} {channel len n : UInt32} {src : Nat → UInt8} {s' : Rtt cfg}
  {out : List UInt8}

theorem rttWrite_ready (hready : s.ready = true) (h : channel.toNat < cfg.maxUp) {buf : Mem}
    (hbuf : (s.aUp ⟨channel.toNat, h⟩).pBuffer = some buf) :
    rttWrite s channel src len = ((s.aUp ⟨channel.toNat, h⟩).write buf src len).map fun w =>
      ({ s with aUp := Function.update s.aUp ⟨channel.toNat, h⟩ w.1 }, w.2) := by
  simp only [rttWrite, hready, not_true_eq_false, if_false, dif_pos h, hbuf]

theorem rttRead_ready (hready : s.ready = true) (h : channel.toNat < cfg.maxDown) {buf : Mem}
    (hbuf : (s.aDown ⟨channel.toNat, h⟩).pBuffer = some buf) :
    rttRead s channel len = ((s.aDown ⟨channel.toNat, h⟩).read buf len).map fun w =>
      ({ s with aDown := Function.update s.aDown ⟨channel.toNat, h⟩ w.1 }, w.2) := by
  simp only [rttRead, hready, not_true_eq_false, if_false, dif_pos h, hbuf]

/-- A write changes the ring of its channel, and only that. -/
theorem rttWrite_frame (hready : s.ready = true) (hw : rttWrite s channel src len = some (s', n)) :
    s'.ready = true ∧ s'.aDown = s.aDown
      ∧ ∀ i : Fin cfg.maxUp, i.val ≠ channel.toNat → s'.aUp i = s.aUp i := by
  by_cases h : channel.toNat < cfg.maxUp
  · rcases hbuf : (s.aUp ⟨channel.toNat, h⟩).pBuffer with _ | buf
    · simp only [rttWrite, hready, not_true_eq_false, if_false, dif_pos h, hbuf] at hw
      obtain ⟨rfl, -⟩ := Prod.mk.inj (Option.some.inj hw)
      exact ⟨hready, rfl, fun _ _ => rfl⟩
    · rw [rttWrite_ready hready h hbuf] at hw
      obtain ⟨w, -, hw⟩ := Option.map_eq_some_iff.mp hw
      obtain ⟨rfl, -⟩ := Prod.mk.inj hw
      refine ⟨hready, rfl, fun i hi => Function.update_of_ne (fun heq => ?_) _ _⟩
      exact hi (congrArg Fin.val heq)
  · simp only [rttWrite, hready, not_true_eq_false, if_false, dif_neg h] at hw
    obtain ⟨rfl, -⟩ := Prod.mk.inj (Option.some.inj hw)
    exact ⟨hready, rfl, fun _ _ => rfl⟩

/-- A read changes the ring of its channel, and only that. -/
theorem rttRead_frame (hready : s.ready = true) (hw : rttRead s channel len = some (s', out)) :
    s'.ready = true ∧ s'.aUp = s.aUp
      ∧ ∀ i : Fin cfg.maxDown, i.val ≠ channel.toNat → s'.aDown i = s.aDown i := by
  by_cases h : channel.toNat < cfg.maxDown
  · rcases hbuf : (s.aDown ⟨channel.toNat, h⟩).pBuffer with _ | buf
    · simp only [rttRead, hready, not_true_eq_false, if_false, dif_pos h, hbuf] at hw
      obtain ⟨rfl, -⟩ := Prod.mk.inj (Option.some.inj hw)
      exact ⟨hready, rfl, fun _ _ => rfl⟩
    · rw [rttRead_ready hready h hbuf] at hw
      obtain ⟨w, -, hw⟩ := Option.map_eq_some_iff.mp hw
      obtain ⟨rfl, -⟩ := Prod.mk.inj hw
      refine ⟨hready, rfl, fun i hi => Function.update_of_ne (fun heq => ?_) _ _⟩
      exact hi (congrArg Fin.val heq)
  · simp only [rttRead, hready, not_true_eq_false, if_false, dif_neg h] at hw
    obtain ⟨rfl, -⟩ := Prod.mk.inj (Option.some.inj hw)
    exact ⟨hready, rfl, fun _ _ => rfl⟩

end Calls

/-! ## Runs -/

namespace RttSys

variable {cfg : RttConfig} {s s' : RttSys cfg} {l : Label cfg} {m : Nat}

/-- The channels as they are, with no history. -/
def start (rtt : Rtt cfg) : RttSys cfg := ⟨rtt, fun _ => [], fun _ => [], fun _ => [], fun _ => []⟩

theorem grow_self (hist : Fin m → List UInt8) (i : Fin m) (bytes : List UInt8) :
    grow hist i bytes i = hist i ++ bytes := by
  rw [grow, dif_pos i.isLt, Function.update_self]

theorem grow_other {hist : Fin m → List UInt8} {channel : Nat} {i : Fin m} (hne : i.val ≠ channel)
    (bytes : List UInt8) : grow hist channel bytes i = hist i := by
  unfold grow
  split
  · exact Function.update_of_ne (fun heq => hne (congrArg Fin.val heq)) _ _
  · rfl

/-- A ring of `size` bytes that is in use. -/
structure Live (r : RttRing) (size : UInt32) : Prop where
  ok : r.Ok
  buffer : ∃ buf, r.pBuffer = some buf
  size : r.sizeOfBuffer = size

/-- What went into an up channel is what came out and what is pending. -/
structure UpFifo (i : Fin cfg.maxUp) (size : UInt32) (first : List UInt8) (s : RttSys cfg) :
    Prop where
  ready : s.rtt.ready = true
  live : Live (s.rtt.aUp i) size
  fifo : first ++ s.stored i = s.consumed i ++ (s.rtt.aUp i).pending

/-- What went into a down channel is what came out and what is pending. -/
structure DownFifo (i : Fin cfg.maxDown) (size : UInt32) (first : List UInt8) (s : RttSys cfg) :
    Prop where
  ready : s.rtt.ready = true
  live : Live (s.rtt.aDown i) size
  fifo : first ++ s.sent i = s.received i ++ (s.rtt.aDown i).pending

theorem UpFifo.of {i : Fin cfg.maxUp} {r : RttRing} {size : UInt32} {first ins outs : List UInt8}
    (hready : s.rtt.ready = true) (hring : s.rtt.aUp i = r) (hins : s.stored i = ins)
    (houts : s.consumed i = outs) (hlive : Live r size) (hfifo : first ++ ins = outs ++ r.pending) :
    UpFifo i size first s :=
  ⟨hready, hring ▸ hlive, by rw [hins, houts, hring, hfifo]⟩

theorem DownFifo.of {i : Fin cfg.maxDown} {r : RttRing} {size : UInt32}
    {first ins outs : List UInt8} (hready : s.rtt.ready = true) (hring : s.rtt.aDown i = r)
    (hins : s.sent i = ins) (houts : s.received i = outs) (hlive : Live r size)
    (hfifo : first ++ ins = outs ++ r.pending) : DownFifo i size first s :=
  ⟨hready, hring ▸ hlive, by rw [hins, houts, hring, hfifo]⟩

theorem Live.consume {r : RttRing} {size : UInt32} (h : Live r size) (n : Nat) :
    Live (r.consume n) size :=
  ⟨RttRing.consume_ok h.ok n, h.buffer, h.size⟩

variable {size : UInt32} {first : List UInt8}

/-- **A write on an up channel.** -/
theorem UpFifo.write {i : Fin cfg.maxUp} (h : UpFifo i size first s) {channel : UInt32}
    (hch : channel.toNat = i.val) (src : Nat → UInt8) (len : UInt32) :
    ∃ r' buf buf' n, rttWrite s.rtt channel src len
        = some ({ s.rtt with aUp := Function.update s.rtt.aUp i r' }, n)
      ∧ (s.rtt.aUp i).pBuffer = some buf ∧ r'.pBuffer = some buf'
      ∧ r'.sizeOfBuffer = size ∧ r'.rdOff = (s.rtt.aUp i).rdOff
      ∧ n.toNat = min len.toNat (size.toNat - 1 - (s.rtt.aUp i).pending.length)
      ∧ RttRing.Appended (s.rtt.aUp i) r' buf buf' src n.toNat := by
  obtain ⟨buf, hbuf⟩ := h.live.buffer
  obtain ⟨r', buf', n, hw, hbuf', hsize, hrd, hn, happ⟩ :=
    RttRing.write_spec h.live.ok hbuf src len
  have hlt : channel.toNat < cfg.maxUp := hch ▸ i.isLt
  obtain rfl : i = ⟨channel.toNat, hlt⟩ := Fin.ext hch.symm
  refine ⟨r', buf, buf', n, ?_, hbuf, hbuf', hsize.trans h.live.size, hrd, ?_, happ⟩
  · rw [rttWrite_ready h.ready hlt hbuf, hw, Option.map_some]
  · rw [hn, h.live.size]

/-- **A read on a down channel.** -/
theorem DownFifo.read {i : Fin cfg.maxDown} (h : DownFifo i size first s) {channel : UInt32}
    (hch : channel.toNat = i.val) (len : UInt32) :
    rttRead s.rtt channel len
      = some ({ s.rtt with
          aDown := Function.update s.rtt.aDown i
            ((s.rtt.aDown i).consume (min len.toNat (s.rtt.aDown i).pending.length)) },
        (s.rtt.aDown i).pending.take (min len.toNat (s.rtt.aDown i).pending.length)) := by
  obtain ⟨buf, hbuf⟩ := h.live.buffer
  have hlt : channel.toNat < cfg.maxDown := hch ▸ i.isLt
  obtain rfl : i = ⟨channel.toNat, hlt⟩ := Fin.ext hch.symm
  rw [rttRead_ready h.ready hlt hbuf, RttRing.read_spec h.live.ok hbuf len, Option.map_some]

theorem UpFifo.step {i : Fin cfg.maxUp} (h : UpFifo i size first s) (hs : step s l = some s') :
    UpFifo i size first s' := by
  cases l with
  | write channel src len =>
      obtain ⟨⟨rtt', n⟩, hw, rfl⟩ := Option.map_eq_some_iff.mp hs
      by_cases hch : channel.toNat = i.val
      · obtain ⟨r', buf, buf', n', hw', -, hbuf', hsize, -, -, happ⟩ := h.write hch src len
        obtain ⟨rfl, rfl⟩ := Prod.mk.inj (Option.some.inj (hw.symm.trans hw'))
        have hstored := grow_self s.stored i ((List.range n.toNat).map src)
        rw [← hch] at hstored
        refine UpFifo.of h.ready (Function.update_self ..) hstored rfl
          ⟨happ.ok, ⟨buf', hbuf'⟩, hsize⟩ ?_
        rw [happ.pending, ← List.append_assoc, h.fifo, List.append_assoc]
      · obtain ⟨hready, -, hframe⟩ := rttWrite_frame h.ready hw
        have hring := hframe i (Ne.symm hch)
        exact UpFifo.of hready hring (grow_other (Ne.symm hch) _) rfl h.live h.fifo
  | read channel len =>
      obtain ⟨⟨rtt', out⟩, hw, rfl⟩ := Option.map_eq_some_iff.mp hs
      obtain ⟨hready, hup, -⟩ := rttRead_frame h.ready hw
      exact UpFifo.of hready (congrFun hup i) rfl rfl h.live h.fifo
  | consume j n =>
      rw [RttSys.step, Option.ite_none_right_eq_some] at hs
      obtain ⟨hn, hs⟩ := hs
      obtain rfl := Option.some.inj hs
      by_cases hij : i = j
      · subst hij
        obtain ⟨buf, hbuf⟩ := h.live.buffer
        refine UpFifo.of h.ready (Function.update_self ..) rfl (grow_self ..) (h.live.consume n) ?_
        rw [List.append_assoc, RttRing.consume_split h.live.ok hbuf hn]
        exact h.fifo
      · have hne : i.val ≠ j.val := fun heq => hij (Fin.ext heq)
        exact UpFifo.of h.ready (Function.update_of_ne hij ..) rfl (grow_other hne _) h.live h.fifo
  | send j bytes =>
      rw [RttSys.step, Option.ite_none_right_eq_some] at hs
      obtain rfl := Option.some.inj hs.2
      exact ⟨h.ready, h.live, h.fifo⟩

theorem DownFifo.step {i : Fin cfg.maxDown} (h : DownFifo i size first s)
    (hs : step s l = some s') : DownFifo i size first s' := by
  cases l with
  | write channel src len =>
      obtain ⟨⟨rtt', n⟩, hw, rfl⟩ := Option.map_eq_some_iff.mp hs
      obtain ⟨hready, hdown, -⟩ := rttWrite_frame h.ready hw
      exact DownFifo.of hready (congrFun hdown i) rfl rfl h.live h.fifo
  | read channel len =>
      obtain ⟨⟨rtt', out⟩, hw, rfl⟩ := Option.map_eq_some_iff.mp hs
      by_cases hch : channel.toNat = i.val
      · obtain ⟨rfl, rfl⟩ := Prod.mk.inj (Option.some.inj (hw.symm.trans (h.read hch len)))
        obtain ⟨buf, hbuf⟩ := h.live.buffer
        have hreceived := grow_self s.received i
          ((s.rtt.aDown i).pending.take (min len.toNat (s.rtt.aDown i).pending.length))
        rw [← hch] at hreceived
        refine DownFifo.of h.ready (Function.update_self ..) rfl hreceived (h.live.consume _) ?_
        rw [List.append_assoc, RttRing.consume_split h.live.ok hbuf (Nat.min_le_right _ _)]
        exact h.fifo
      · obtain ⟨hready, -, hframe⟩ := rttRead_frame h.ready hw
        exact DownFifo.of hready (hframe i (Ne.symm hch)) rfl (grow_other (Ne.symm hch) _) h.live
          h.fifo
  | consume j n =>
      rw [RttSys.step, Option.ite_none_right_eq_some] at hs
      obtain rfl := Option.some.inj hs.2
      exact ⟨h.ready, h.live, h.fifo⟩
  | send j bytes =>
      rw [RttSys.step, Option.ite_none_right_eq_some] at hs
      obtain ⟨⟨-, hroom⟩, hs⟩ := hs
      obtain rfl := Option.some.inj hs
      by_cases hij : i = j
      · subst hij
        obtain ⟨buf, hbuf⟩ := h.live.buffer
        obtain ⟨hok, hsome, hsize, hpending⟩ :=
          RttRing.puts_pending bytes _ buf h.live.ok hbuf hroom
        refine DownFifo.of h.ready (Function.update_self ..) (grow_self ..) rfl
          ⟨hok, hsome, hsize.trans h.live.size⟩ ?_
        rw [hpending, ← List.append_assoc, h.fifo, List.append_assoc]
      · have hne : i.val ≠ j.val := fun heq => hij (Fin.ext heq)
        exact DownFifo.of h.ready (Function.update_of_ne hij ..) (grow_other hne _) rfl h.live
          h.fifo

theorem UpFifo.upUsed {i : Fin cfg.maxUp} (h : UpFifo i size first s) {channel : UInt32}
    (hch : channel.toNat = i.val) :
    (rttUpUsed s.rtt channel).toNat = (s.rtt.aUp i).pending.length := by
  obtain ⟨buf, hbuf⟩ := h.live.buffer
  have hlt : channel.toNat < cfg.maxUp := hch ▸ i.isLt
  obtain rfl : i = ⟨channel.toNat, hlt⟩ := Fin.ext hch.symm
  rw [rttUpUsed, dif_pos ⟨h.ready, hlt⟩, RttRing.length_pending hbuf]

theorem live_of {r : RttRing} (h : r.Ok) (hbuf : r.pBuffer ≠ none) : Live r r.sizeOfBuffer :=
  ⟨h, Option.ne_none_iff_exists'.mp hbuf, rfl⟩

/-- A ring with a buffer exists only after `vibe_rtt_init`. -/
theorem ready_of_buffer {rtt : Rtt cfg} (hboot : rtt.Booted)
    (hbuf : (∃ i, (rtt.aUp i).pBuffer ≠ none) ∨ ∃ i, (rtt.aDown i).pBuffer ≠ none) :
    rtt.ready = true := by
  by_contra hnot
  obtain ⟨hup, hdown⟩ := hboot (Bool.eq_false_iff.mpr hnot)
  rcases hbuf with ⟨i, hi⟩ | ⟨i, hi⟩
  · exact hi (by rw [hup i]; rfl)
  · exact hi (by rw [hdown i]; rfl)

/-- What an up channel promises to the target. -/
structure UpPromise (s : RttSys cfg) (i : Fin cfg.maxUp) (channel : UInt32) : Prop where
  wrOff : (s.rtt.aUp i).wrOff < (s.rtt.aUp i).sizeOfBuffer
  used : (rttUpUsed s.rtt channel).toNat = (s.rtt.aUp i).pending.length
  /-- the longest prefix that fits is appended, and the pending bytes stay in their slots -/
  write : ∀ (src : Nat → UInt8) (len : UInt32), ∃ r' buf buf' n,
    rttWrite s.rtt channel src len
      = some ({ s.rtt with aUp := Function.update s.rtt.aUp i r' }, n)
    ∧ n.toNat = min len.toNat
      ((s.rtt.aUp i).sizeOfBuffer.toNat - 1 - (s.rtt.aUp i).pending.length)
    ∧ r'.pending = (s.rtt.aUp i).pending ++ (List.range n.toNat).map src
    ∧ r'.sizeOfBuffer = (s.rtt.aUp i).sizeOfBuffer ∧ r'.rdOff = (s.rtt.aUp i).rdOff
    ∧ r'.wrOff < r'.sizeOfBuffer
    ∧ (s.rtt.aUp i).pBuffer = some buf ∧ r'.pBuffer = some buf'
    ∧ ∀ j < (s.rtt.aUp i).pending.length,
      buf' (ringAt r'.sizeOfBuffer.toNat r'.rdOff.toNat j)
        = buf (ringAt r'.sizeOfBuffer.toNat r'.rdOff.toNat j)

theorem UpFifo.promise {i : Fin cfg.maxUp} (h : UpFifo i size first s) {channel : UInt32}
    (hch : channel.toNat = i.val) : UpPromise s i channel := by
  refine ⟨h.live.ok.wr, h.upUsed hch, fun src len => ?_⟩
  obtain ⟨r', buf, buf', n, hw, hbuf, hbuf', hsize, hrd, hn, happ⟩ := h.write hch src len
  have hsize' : r'.sizeOfBuffer = (s.rtt.aUp i).sizeOfBuffer := hsize.trans h.live.size.symm
  rw [← h.live.size] at hn
  refine ⟨r', buf, buf', n, hw, hn, happ.pending, hsize', hrd, happ.ok.wr, hbuf, hbuf', ?_⟩
  intro j hj
  rw [RttRing.length_pending hbuf] at hj
  rw [hsize', hrd]
  exact happ.frame j hj

/-- An empty ring whose size is in the range of its option. -/
theorem emptyRing_ok (storage : Mem) {size least : UInt32} (hpos : 0 < least)
    (h : least ≤ size) : RttRing.Ok ⟨some storage, size, 0, 0⟩ := by
  have hsize : 0 < size := UInt32.lt_of_lt_of_le hpos h
  exact ⟨hsize, hsize⟩

/-- `vibe_rtt_init` leaves the first channels with a buffer and offsets below its size. -/
theorem rttInit_ok {s : Rtt cfg} (h : s.ready = false) :
    (rttInit s).Booted
    ∧ (∀ i, i.val = 0 → ((rttInit s).aUp i).pBuffer ≠ none ∧ ((rttInit s).aUp i).Ok)
    ∧ ∀ i, i.val = 0 → ((rttInit s).aDown i).pBuffer ≠ none ∧ ((rttInit s).aDown i).Ok := by
  rw [rttInit, h]
  refine ⟨nofun, fun i hi => ?_, fun i hi => ?_⟩
  · have hring : (if i.val = 0 then ⟨some s.up0Storage, cfg.sizeUp, 0, 0⟩ else RttRing.zero)
        = ⟨some s.up0Storage, cfg.sizeUp, 0, 0⟩ := if_pos hi
    simp only [Bool.false_eq_true, if_false, hring]
    exact ⟨Option.some_ne_none _, emptyRing_ok _ (by decide) cfg.sizeUp_range.1⟩
  · have hring : (if i.val = 0 then ⟨some s.down0Storage, cfg.sizeDown, 0, 0⟩ else RttRing.zero)
        = ⟨some s.down0Storage, cfg.sizeDown, 0, 0⟩ := if_pos hi
    simp only [Bool.false_eq_true, if_false, hring]
    exact ⟨Option.some_ne_none _, emptyRing_ok _ (by decide) cfg.sizeDown_range.1⟩

/--
**RTT channels are bounded FIFOs.**

In every run of calls and steps of the probe, an up channel of any size whose offsets were below
it has as pending bytes those that were stored in it and not yet consumed, in order; a write
always ends and appends the longest prefix that fits; `vibe_rtt_up_used` is the number of pending
bytes. A read on a down channel takes the oldest of the bytes that the probe has sent.
-/
theorem rtt_channels_fifo {rtt : Rtt cfg} (hboot : rtt.Booted) {ls : List (Label cfg)}
    (hr : Runs.run step (start rtt) ls = some s) :
    (∀ (i : Fin cfg.maxUp) (channel : UInt32), channel.toNat = i.val →
      (rtt.aUp i).pBuffer ≠ none → (rtt.aUp i).Ok →
        (rtt.aUp i).pending ++ s.stored i = s.consumed i ++ (s.rtt.aUp i).pending
        ∧ (s.rtt.aUp i).sizeOfBuffer = (rtt.aUp i).sizeOfBuffer
        ∧ UpPromise s i channel)
    ∧ ∀ (i : Fin cfg.maxDown) (channel : UInt32), channel.toNat = i.val →
      (rtt.aDown i).pBuffer ≠ none → (rtt.aDown i).Ok →
        (rtt.aDown i).pending ++ s.sent i = s.received i ++ (s.rtt.aDown i).pending
        ∧ ∀ len, ∃ rtt', rttRead s.rtt channel len
            = some (rtt', (s.rtt.aDown i).pending.take
              (min len.toNat (s.rtt.aDown i).pending.length))
          ∧ (rtt'.aDown i).pending
            = (s.rtt.aDown i).pending.drop (min len.toNat (s.rtt.aDown i).pending.length) := by
  constructor
  · intro i channel hch hbuf hok
    have hready := ready_of_buffer hboot (Or.inl ⟨i, hbuf⟩)
    have hinv : UpFifo i (rtt.aUp i).sizeOfBuffer (rtt.aUp i).pending s :=
      Runs.run_invariant (fun _ _ _ h => UpFifo.step h)
        (show UpFifo i _ _ (start rtt) from ⟨hready, live_of hok hbuf, List.append_nil _⟩) hr
    exact ⟨hinv.fifo, hinv.live.size, hinv.promise hch⟩
  · intro i channel hch hbuf hok
    have hready := ready_of_buffer hboot (Or.inr ⟨i, hbuf⟩)
    have hinv : DownFifo i (rtt.aDown i).sizeOfBuffer (rtt.aDown i).pending s :=
      Runs.run_invariant (fun _ _ _ h => DownFifo.step h)
        (show DownFifo i _ _ (start rtt) from ⟨hready, live_of hok hbuf, List.append_nil _⟩) hr
    obtain ⟨buf, hb⟩ := hinv.live.buffer
    refine ⟨hinv.fifo, fun len => ⟨_, hinv.read hch len, ?_⟩⟩
    have hle : min len.toNat (s.rtt.aDown i).pending.length ≤ (s.rtt.aDown i).used.toNat := by
      rw [← RttRing.length_pending hb]
      exact Nat.min_le_right _ _
    rw [← RttRing.consume_pending hinv.live.ok hb hle]
    exact congrArg RttRing.pending (Function.update_self ..)

/-- The least options. -/
def leastCfg : RttConfig where
  maxUp := 1
  maxDown := 1
  sizeUp := 64
  sizeDown := 16
  maxUp_range := by decide
  maxDown_range := by decide
  sizeUp_range := by decide
  sizeDown_range := by decide

/-- The channels after `vibe_rtt_init`. -/
def leastRtt : Rtt leastCfg :=
  rttInit ⟨false, fun _ => .zero, fun _ => .zero, fun _ => 0, fun _ => 0⟩

def upZero : Fin leastCfg.maxUp := ⟨0, Nat.one_pos⟩

def downZero : Fin leastCfg.maxDown := ⟨0, Nat.one_pos⟩

/-- The target writes three bytes, of which the probe consumes two; the probe sends two, of which
the target reads one. -/
def leastRun : List (Label leastCfg) :=
  [.write 0 (fun i => UInt8.ofNat (65 + i)) 3, .consume upZero 2, .send downZero [120, 121],
    .read 0 1]

theorem rtt_channels_fifo_least : ∃ s, Runs.run step (start leastRtt) leastRun = some s
    ∧ s.stored upZero = s.consumed upZero ++ (s.rtt.aUp upZero).pending ∧ UpPromise s upZero 0
    ∧ s.sent downZero = s.received downZero ++ (s.rtt.aDown downZero).pending := by
  have hsome : (Runs.run step (start leastRtt) leastRun).isSome = true := by decide +kernel
  have hr := (Option.some_get hsome).symm
  obtain ⟨hboot, hfirst, hlast⟩ : leastRtt.Booted ∧ _ := rttInit_ok rfl
  have hfifo := rtt_channels_fifo hboot hr
  obtain ⟨hupBuf, hupOk⟩ := hfirst upZero rfl
  obtain ⟨hup, -, hpromise⟩ := hfifo.1 upZero 0 rfl hupBuf hupOk
  obtain ⟨hdownBuf, hdownOk⟩ := hlast downZero rfl
  obtain ⟨hdown, -⟩ := hfifo.2 downZero 0 rfl hdownBuf hdownOk
  exact ⟨_, hr, hup, hpromise, hdown⟩

end RttSys

end VibeRtos
