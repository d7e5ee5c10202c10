import VibeRtos.Sys.RingBuffer
import VibeRtos.Lib.Fifo

/-!
# Ring buffers are bounded byte FIFOs

The bytes of a ring buffer are those from `head` on, as many as `tail - head`
modulo `2 ^ 32`. The size is a power of two, so it divides `2 ^ 32` and the counters
may wrap: their masked values go around the ring all the same. Each operation does
to the bytes what `Fifo.Bounded` does to its queue, and the statistics are its
account modulo `2 ^ 32`.
-/

namespace VibeRtos

open ByteMem Fifo

/-! ## Counters and indices -/

/-- The size is a power of two and the counters are at most the size apart. -/
structure RingBuffer.Ring (rb : RingBuffer) : Prop where
  pow : rb.size.toNat.isPowerOfTwo
  used : (rbUsed rb).toNat ≤ rb.size.toNat

/-- The first slot in use. -/
def RingBuffer.start (rb : RingBuffer) : Nat := rb.head.toNat % rb.size.toNat

/-- The bytes in the buffer, oldest first. -/
def RingBuffer.contents (rb : RingBuffer) : List UInt8 :=
  ringRead rb.buf rb.size.toNat rb.start (rbUsed rb).toNat

variable {rb rb' : RingBuffer}

theorem isPowerOfTwo_toNat {x : UInt32} (h : isPowerOfTwo x = true) : x.toNat.isPowerOfTwo := by
  obtain ⟨hne, hand⟩ := of_decide_eq_true h
  have hpos : x.toNat ≠ 0 := fun h0 => hne (UInt32.toNat_inj.mp h0)
  have hle : (1 : UInt32) ≤ x := UInt32.le_iff_toNat_le.mpr (Nat.pos_of_ne_zero hpos)
  refine (Nat.and_sub_one_eq_zero_iff_isPowerOfTwo hpos).mp ?_
  have hnat := congrArg UInt32.toNat hand
  rwa [UInt32.toNat_and, UInt32.toNat_sub_of_le _ _ hle] at hnat

namespace RingBuffer.Ring

theorem pos (h : rb.Ring) : 0 < rb.size.toNat := Nat.pos_of_isPowerOfTwo h.pow

/-- The size divides the range of the counters. -/
theorem dvd (h : rb.Ring) : rb.size.toNat ∣ 2 ^ 32 := by
  obtain ⟨k, hk⟩ := h.pow
  have hlt := rb.size.toNat_lt
  rw [hk] at hlt ⊢
  exact Nat.pow_dvd_pow 2 (Nat.le_of_lt ((Nat.pow_lt_pow_iff_right (by decide)).mp hlt))

theorem start_lt (h : rb.Ring) : rb.start < rb.size.toNat := Nat.mod_lt _ h.pos

/-- Masking is reduction modulo the size. -/
theorem mask (h : rb.Ring) (idx : UInt32) :
    (rbMask rb idx).toNat = idx.toNat % rb.size.toNat := by
  obtain ⟨k, hk⟩ := h.pow
  have hle : (1 : UInt32) ≤ rb.size := UInt32.le_iff_toNat_le.mpr h.pos
  rw [rbMask, UInt32.toNat_and, UInt32.toNat_sub_of_le _ _ hle, hk]
  exact Nat.and_two_pow_sub_one_eq_mod _ _

/-- The first free slot, also where a counter has wrapped. -/
theorem tail_mask (h : rb.Ring) :
    (rbMask rb rb.tail).toNat = ringAt rb.size.toNat rb.start (rbUsed rb).toNat := by
  have htail : rb.tail = rb.head + rbUsed rb := by
    unfold rbUsed
    grind
  rw [h.mask, htail, UInt32.toNat_add, Nat.mod_mod_of_dvd _ h.dvd, ringAt, start, Nat.mod_add_mod]

theorem free (h : rb.Ring) :
    (rbFree rb).toNat = rb.size.toNat - rb.contents.length := by
  rw [rbFree, contents, length_ringRead,
    UInt32.toNat_sub_of_le _ _ (UInt32.le_iff_toNat_le.mpr h.used)]

end RingBuffer.Ring

@[simp] theorem RingBuffer.length_contents (rb : RingBuffer) :
    rb.contents.length = (rbUsed rb).toNat := length_ringRead

/-! ## Bytes going in -/

/-- Advancing `tail` over `n` free slots that hold `data`. -/
structure RingBuffer.Pushed (rb rb' : RingBuffer) (data : Nat → UInt8) (n : UInt32) : Prop where
  size : rb'.size = rb.size
  head : rb'.head = rb.head
  tail : rb'.tail = rb.tail + n
  fits : (rbUsed rb).toNat + n.toNat ≤ rb.size.toNat
  old : ∀ j, j < (rbUsed rb).toNat → rb'.buf (ringAt rb.size.toNat rb.start j)
    = rb.buf (ringAt rb.size.toNat rb.start j)
  new : ∀ j, j < n.toNat →
    rb'.buf (ringAt rb.size.toNat (rbMask rb rb.tail).toNat j) = data j

theorem RingBuffer.Pushed.used {data : Nat → UInt8} {n : UInt32} (h : rb.Pushed rb' data n)
    : (rbUsed rb').toNat = (rbUsed rb).toNat + n.toNat := by
  have hlt := rb.size.toNat_lt
  have hfits := h.fits
  have husedEq : rbUsed rb' = rbUsed rb + n := by
    rw [rbUsed, rbUsed, h.tail, h.head]
    grind
  rw [husedEq, UInt32.toNat_add, Nat.mod_eq_of_lt (by omega)]

theorem RingBuffer.Pushed.ring {data : Nat → UInt8} {n : UInt32} (h : rb.Pushed rb' data n)
    (hr : rb.Ring) : rb'.Ring := by
  refine ⟨by rw [h.size]; exact hr.pow, ?_⟩
  rw [h.used, h.size]
  exact h.fits

theorem RingBuffer.Pushed.contents {data : Nat → UInt8} {n : UInt32} (h : rb.Pushed rb' data n)
    (hr : rb.Ring) : rb'.contents = rb.contents ++ (List.range n.toNat).map data := by
  have hnew := h.new
  rw [hr.tail_mask] at hnew
  have hstart : rb'.start = rb.start := by rw [start, start, h.head, h.size]
  rw [RingBuffer.contents, h.used, h.size, hstart]
  exact ringRead_append h.old hnew

/-- A block stored around the end of a ring: its entries, and what it leaves alone. -/
theorem blit_ring (m : Mem) (data : Nat → UInt8) {n t k c : Nat} (ht : t < n) (hk : k ≤ n)
    (hc : c = min k (n - t)) :
    (∀ j, j < k →
      blit (blit m t data c) 0 (fun i => data (c + i)) (k - c) (ringAt n t j) = data j)
    ∧ ∀ x, (∀ j, j < k → x ≠ ringAt n t j) →
      blit (blit m t data c) 0 (fun i => data (c + i)) (k - c) x = m x := by
  constructor
  · intro j hj
    rw [ringAt_eq ht (by omega)]
    split
    · -- in the chunk up to the end
      rw [blit_frame (by omega), blit, if_pos (by omega), Nat.add_sub_cancel_left]
    · -- in the chunk from the start
      rw [blit, if_pos (by omega)]
      congr 1
      omega
  · intro x hx
    have hfirst : x < t ∨ t + c ≤ x := by
      by_contra hin
      refine hx (x - t) (by omega) ?_
      rw [ringAt_eq ht (by omega), if_pos (by omega)]
      omega
    have hsecond : x < 0 ∨ 0 + (k - c) ≤ x := by
      by_contra hin
      refine hx (c + x) (by omega) ?_
      rw [ringAt_eq ht (by omega), if_neg (by omega)]
      omega
    rw [blit_frame hsecond, blit_frame hfirst]

theorem blit_zero (m : Mem) (a : Nat) (d : Nat → UInt8) : blit m a d 0 = m := by
  funext x
  exact blit_frame (by omega)

/-! ## Bytes going out -/

/-- Advancing `head` over `n` bytes drops them. -/
theorem RingBuffer.Ring.advance (rb' : RingBuffer) (h : rb.Ring) {n : UInt32}
    (hn : n.toNat ≤ (rbUsed rb).toNat)
    (hb : rb'.buf = rb.buf) (hs : rb'.size = rb.size) (hh : rb'.head = rb.head + n)
    (ht : rb'.tail = rb.tail) : rb'.Ring ∧ rb'.contents = rb.contents.drop n.toNat := by
  have husedEq : rbUsed rb' = rbUsed rb - n := by
    rw [rbUsed, rbUsed, ht, hh]
    grind
  have hused : (rbUsed rb').toNat = (rbUsed rb).toNat - n.toNat := by
    rw [husedEq, UInt32.toNat_sub_of_le _ _ (UInt32.le_iff_toNat_le.mpr hn)]
  have hstart : rb'.start = ringAt rb.size.toNat rb.start n.toNat := by
    rw [start, start, hs, hh, UInt32.toNat_add, Nat.mod_mod_of_dvd _ h.dvd, ringAt, Nat.mod_add_mod]
  have hle := h.used
  refine ⟨⟨by rw [hs]; exact h.pow, by rw [hused, hs]; omega⟩, ?_⟩
  rw [RingBuffer.contents, RingBuffer.contents, ringRead_drop hn, hused, hstart, hb, hs]

/-! ## The operations -/

theorem toNat_min (a b : UInt32) : (if a < b then a else b).toNat = min a.toNat b.toNat := by
  split
  · rename_i hlt
    have hnat := UInt32.lt_iff_toNat_lt.mp hlt
    omega
  · rename_i hge
    have hnat := UInt32.le_iff_toNat_le.mp (UInt32.not_lt.mp hge)
    omega

/-- The chunk up to the end of the buffer. -/
theorem RingBuffer.Ring.chunk (h : rb.Ring) (idx n : UInt32) :
    (if rb.size - rbMask rb idx > n then n else rb.size - rbMask rb idx).toNat
      = min n.toNat (rb.size.toNat - (rbMask rb idx).toNat) := by
  have hle : rbMask rb idx ≤ rb.size := by
    rw [UInt32.le_iff_toNat_le, h.mask]
    exact Nat.le_of_lt (Nat.mod_lt _ h.pos)
  rw [← UInt32.toNat_sub_of_le _ _ hle]
  exact toNat_min n (rb.size - rbMask rb idx)

theorem RingBuffer.Ring.not_full (h : rb.Ring) (hf : rbIsFull rb = false) :
    (rbUsed rb).toNat < rb.size.toNat := by
  have hne : (rbUsed rb).toNat ≠ rb.size.toNat :=
    fun he => of_decide_eq_false hf (UInt32.toNat_inj.mp he)
  have hle := h.used
  omega

theorem rbPut_pushed (h : rb.Ring) (hf : rbIsFull rb = false) (byte : UInt8) :
    rb.Pushed (rbPut rb byte).2 (fun _ => byte) 1 := by
  have hlt := h.not_full hf
  rw [rbPut, hf]
  refine ⟨rfl, rfl, rfl, hlt, ?_, ?_⟩
  · intro j hj
    have hne : ringAt rb.size.toNat rb.start j ≠ (rbMask rb rb.tail).toNat := by
      rw [h.tail_mask]
      exact ringAt_ne hj hlt
    exact Function.update_of_ne hne _ _
  · intro j hj
    have hmask : (rbMask rb rb.tail).toNat < rb.size.toNat := by
      rw [h.mask]
      exact Nat.mod_lt _ h.pos
    obtain rfl : j = 0 := Nat.lt_one_iff.mp hj
    rw [ringAt_zero hmask]
    exact Function.update_self _ _ _

/-- The number of bytes `vibe_rb_put_buf` takes. -/
theorem rbPutBuf_count (h : rb.Ring) (data : Nat → UInt8) (len : UInt32) :
    (rbPutBuf rb data len).1.toNat = min len.toNat (rb.size.toNat - rb.contents.length) := by
  rw [← h.free]
  exact toNat_min _ _

theorem rbPutBuf_pushed (h : rb.Ring) (data : Nat → UInt8) (len : UInt32) :
    rb.Pushed (rbPutBuf rb data len).2 data (rbPutBuf rb data len).1 := by
  have hused := h.used
  have hcount := rbPutBuf_count h data len
  rw [RingBuffer.length_contents] at hcount
  generalize hn : (rbPutBuf rb data len).1 = n at hcount
  have hmask : (rbMask rb rb.tail).toNat < rb.size.toNat := by
    rw [h.mask]
    exact Nat.mod_lt _ h.pos
  have hchunk := h.chunk rb.tail n
  -- both ways of the source's test are the same two copies
  have hbuf : (rbPutBuf rb data len).2.buf
      = blit (blit rb.buf (rbMask rb rb.tail).toNat data
          (min n.toNat (rb.size.toNat - (rbMask rb rb.tail).toNat))) 0
        (fun i => data (min n.toNat (rb.size.toNat - (rbMask rb rb.tail).toNat) + i))
        (n.toNat - min n.toNat (rb.size.toNat - (rbMask rb rb.tail).toNat)) := by
    have hn' : n = if len < rbFree rb then len else rbFree rb := hn.symm
    rw [← hchunk]
    generalize hc : (if rb.size - rbMask rb rb.tail > n then n else rb.size - rbMask rb rb.tail)
      = c at hchunk ⊢
    show (if (if len < rbFree rb then len else rbFree rb) > _ then _ else _) = _
    rw [← hn', hc]
    split
    · rename_i hgt
      rw [UInt32.toNat_sub_of_le _ _ (UInt32.le_of_lt hgt)]
    · rename_i hle
      have hnat := UInt32.le_iff_toNat_le.mp (UInt32.not_lt.mp hle)
      rw [show n.toNat - c.toNat = 0 by omega, blit_zero]
  obtain ⟨hin, hout⟩ := blit_ring rb.buf data hmask
    (show n.toNat ≤ rb.size.toNat by omega) rfl
  refine ⟨rfl, rfl, by rw [← hn]; rfl, by omega, ?_, ?_⟩
  · intro j hj
    rw [hbuf]
    refine hout _ fun i hi => ?_
    rw [h.tail_mask, ringAt_ringAt]
    exact ringAt_ne (by omega) (by omega)
  · intro j hj
    rw [hbuf]
    exact hin j hj

theorem rbGet_advance (h : rb.Ring) (he : rbIsEmpty rb = false) :
    (rbGet rb).1 = rb.contents.head? ∧ (rbGet rb).2.Ring
      ∧ (rbGet rb).2.contents = rb.contents.drop 1 := by
  have hne : rb.head ≠ rb.tail := of_decide_eq_false he
  have hpos : 0 < (rbUsed rb).toNat := by
    refine Nat.pos_of_ne_zero fun h0 => hne ?_
    have hz : rbUsed rb = 0 := UInt32.toNat_inj.mp h0
    unfold rbUsed at hz
    grind
  have hone : (1 : UInt32).toNat ≤ (rbUsed rb).toNat := hpos
  have hout := h.advance (rbGet rb).2 hone (by rw [rbGet, he]; rfl) (by rw [rbGet, he]; rfl)
    (by rw [rbGet, he]; rfl) (by rw [rbGet, he]; rfl)
  refine ⟨?_, hout⟩
  obtain ⟨k, hk⟩ := Nat.exists_eq_succ_of_ne_zero (Nat.pos_iff_ne_zero.mp hpos)
  have hidx : ringAt rb.size.toNat rb.start 0 = (rbMask rb rb.head).toNat := by
    rw [ringAt_zero h.start_lt, h.mask, RingBuffer.start]
  rw [RingBuffer.contents, hk, ringRead, List.range_succ_eq_map, List.map_cons, hidx, rbGet, he]
  rfl

/-- The number of bytes `vibe_rb_get_buf` gives. -/
theorem rbGetBuf_count (rb : RingBuffer) (len : UInt32) :
    (rbGetBuf rb len).1.toNat = min len.toNat (rbUsed rb).toNat := toNat_min _ _

theorem rbGetBuf_bytes (h : rb.Ring) (len : UInt32) :
    (rbGetBuf rb len).2.1 = rb.contents.take len.toNat := by
  have hused := h.used
  have hcount := rbGetBuf_count rb len
  generalize hn : (rbGetBuf rb len).1 = n at hcount
  have hn' : n = if len < rbUsed rb then len else rbUsed rb := hn.symm
  have hchunk := h.chunk rb.head n
  have htake : rb.contents.take len.toNat
      = ringRead rb.buf rb.size.toNat (rbMask rb rb.head).toNat n.toNat := by
    rw [List.take_eq_take_min, RingBuffer.length_contents, ← hcount, RingBuffer.contents,
      ringRead_take (by omega), h.mask]
    rfl
  rw [htake, ringRead_chunks (by rw [h.mask]; exact h.start_lt) (by omega), ← hchunk]
  generalize hc : (if rb.size - rbMask rb rb.head > n then n else rb.size - rbMask rb rb.head)
    = c at hchunk ⊢
  show (if (if len < rbUsed rb then len else rbUsed rb) > _ then _ else _) = _
  rw [← hn', hc]
  split
  · rename_i hgt
    rw [UInt32.toNat_sub_of_le _ _ (UInt32.le_of_lt hgt)]
    simp [slice]
  · rename_i hle
    have hnat := UInt32.le_iff_toNat_le.mp (UInt32.not_lt.mp hle)
    rw [show n.toNat - c.toNat = 0 by omega]
    simp [slice]

/-! ## Statistics -/

/-- The statistics are the account of `b`, modulo `2 ^ 32`. -/
def RbStats.Counts (st : RbStats) (b : Bounded UInt8) : Prop :=
  st.peakUsed.toNat = b.peak ∧ st.putCount = UInt32.ofNat b.accepted
    ∧ st.getCount = UInt32.ofNat b.delivered ∧ st.dropCount = UInt32.ofNat b.refused

/-- The buffer holds the queue of `b` and its statistics, if any, are the account of `b`. -/
structure RingBuffer.Sim (rb : RingBuffer) (b : Bounded UInt8) : Prop where
  ring : rb.Ring
  sound : b.Sound rb.size.toNat
  contents : rb.contents = b.queue
  counts : ∀ st, rb.stats = some st → st.Counts b

theorem rbInit_sim {withStats : Bool} {buf : Option Mem} {size : UInt32}
    (h : rbInit withStats buf size = some rb) : rb.Sim .empty ∧ rb.size = size := by
  unfold rbInit at h
  split at h
  · exact absurd h (by simp)
  · split at h
    · exact absurd h (by simp)
    · split at h
      · exact absurd h (by simp)
      · rename_i hpow
        obtain rfl := Option.some.inj h
        have hzero : ((0 : UInt32) - 0).toNat = 0 := rfl
        refine ⟨⟨⟨isPowerOfTwo_toNat (not_not.mp hpow), ?_⟩, Bounded.sound_empty, ?_, ?_⟩, rfl⟩
        · rw [rbUsed, hzero]
          exact Nat.zero_le _
        · rw [RingBuffer.contents, rbUsed, hzero]
          rfl
        · intro st hst
          dsimp only at hst
          split at hst
          · obtain rfl := Option.some.inj hst
            exact ⟨rfl, rfl, rfl, rfl⟩
          · exact absurd hst (by simp)

theorem notePeak_stats {st' : RbStats} (h : rb.notePeak.stats = some st') :
    ∃ st, rb.stats = some st ∧ st' = { st with
      peakUsed := if rbUsed rb > st.peakUsed then rbUsed rb else st.peakUsed } := by
  obtain ⟨st, hst, rfl⟩ := Option.map_eq_some_iff.mp h
  refine ⟨st, hst, ?_⟩
  split <;> rfl

/-- Bytes going in, as a push of the queue. -/
theorem RingBuffer.Sim.push {b : Bounded UInt8} {data : Nat → UInt8} {n : UInt32} {ys : List UInt8}
    (h : rb.Sim b) (hp : rb.Pushed rb' data n)
    (hfit : b.fit rb.size.toNat ys = (List.range n.toNat).map data)
    (hstats : ∀ st', rb'.stats = some st' → ∃ st, rb.stats = some st
      ∧ st'.peakUsed = (if rbUsed rb' > st.peakUsed then rbUsed rb' else st.peakUsed)
      ∧ st'.putCount = st.putCount + n ∧ st'.getCount = st.getCount
      ∧ st'.dropCount = st.dropCount + UInt32.ofNat (ys.length - n.toNat)) :
    rb'.Sim (b.push rb.size.toNat ys) := by
  have hlen : (b.fit rb.size.toNat ys).length = n.toNat := by rw [hfit]; simp
  have hcontents : rb'.contents = b.queue ++ b.fit rb.size.toNat ys := by
    rw [hp.contents h.ring, h.contents, hfit]
  refine ⟨hp.ring h.ring, by rw [hp.size]; exact h.sound.push ys, hcontents, ?_⟩
  intro st' hst'
  obtain ⟨st, hst, hpeak, hput, hget, hdrop⟩ := hstats st' hst'
  obtain ⟨hp0, hput0, hget0, hdrop0⟩ := h.counts st hst
  refine ⟨?_, ?_, ?_, ?_⟩
  · show st'.peakUsed.toNat = max b.peak (b.queue ++ b.fit rb.size.toNat ys).length
    rw [hpeak, ← hcontents, RingBuffer.length_contents, ← hp0]
    split
    · rename_i hgt
      have hnat := UInt32.lt_iff_toNat_lt.mp hgt
      omega
    · rename_i hle
      have hnat := UInt32.le_iff_toNat_le.mp (UInt32.not_lt.mp hle)
      omega
  · show st'.putCount = UInt32.ofNat (b.accepted + (b.fit rb.size.toNat ys).length)
    rw [hput, hput0, hlen, UInt32.ofNat_add, UInt32.ofNat_toNat]
  · rw [hget, hget0]
    rfl
  · show st'.dropCount = UInt32.ofNat (b.refused + (ys.length - (b.fit rb.size.toNat ys).length))
    rw [hdrop, hdrop0, hlen, UInt32.ofNat_add]

/-- Bytes going out, as a pop of the queue. -/
theorem RingBuffer.Sim.pop {b : Bounded UInt8} {n : UInt32} {k : Nat} (h : rb.Sim b)
    (hring : rb'.Ring) (hsize : rb'.size = rb.size)
    (hcontents : rb'.contents = rb.contents.drop n.toNat)
    (hn : n.toNat = min k b.queue.length)
    (hstats : rb'.stats = rb.stats.map fun st => { st with getCount := st.getCount + n }) :
    rb'.Sim (b.pop k) := by
  refine ⟨hring, by rw [hsize]; exact h.sound.pop k, ?_, ?_⟩
  · rw [hcontents, h.contents, hn, ← List.drop_eq_drop_min]
    rfl
  · intro st' hst'
    rw [hstats] at hst'
    obtain ⟨st, hst, rfl⟩ := Option.map_eq_some_iff.mp hst'
    obtain ⟨hp0, hput0, hget0, hdrop0⟩ := h.counts st hst
    refine ⟨hp0, hput0, ?_, hdrop0⟩
    show st.getCount + n = UInt32.ofNat (b.delivered + (b.queue.take k).length)
    rw [hget0, UInt32.ofNat_add, List.length_take, ← hn, UInt32.ofNat_toNat]

/-! ## Any sequence of operations -/

/-- A call on a ring buffer. -/
inductive RbOp where
  | put (byte : UInt8)
  | get
  | putBuf (data : Nat → UInt8) (len : UInt32)
  | getBuf (len : UInt32)

/-- What a call gives its caller. -/
inductive RbResult where
  | put (ok : Bool)
  | get (byte : Option UInt8)
  | putBuf (n : Nat)
  | getBuf (n : Nat) (bytes : List UInt8)
  deriving DecidableEq

/-- The call on the ring buffer. -/
def RbOp.exec (rb : RingBuffer) : RbOp → RbResult × RingBuffer
  | .put byte => let r := rbPut rb byte; (.put r.1, r.2)
  | .get => let r := rbGet rb; (.get r.1, r.2)
  | .putBuf data len => let r := rbPutBuf rb data len; (.putBuf r.1.toNat, r.2)
  | .getBuf len => let r := rbGetBuf rb len; (.getBuf r.1.toNat r.2.1, r.2.2)

/-- The call on a queue of `cap` bytes. -/
def RbOp.spec (cap : Nat) (b : Bounded UInt8) : RbOp → RbResult × Bounded UInt8
  | .put byte => (.put (b.fit cap [byte] = [byte]), b.push cap [byte])
  | .get => (.get b.queue.head?, b.pop 1)
  | .putBuf data len =>
      let ys := (List.range len.toNat).map data
      (.putBuf (b.fit cap ys).length, b.push cap ys)
  | .getBuf len =>
      let ys := b.queue.take len.toNat
      (.getBuf ys.length ys, b.pop len.toNat)

/-- A sequence of calls, with what each gives. -/
def runOps {σ : Type} (f : σ → RbOp → RbResult × σ) : σ → List RbOp → List RbResult × σ
  | s, [] => ([], s)
  | s, op :: ops =>
      let r := f s op
      let rs := runOps f r.2 ops
      (r.1 :: rs.1, rs.2)

theorem RingBuffer.Sim.put {b : Bounded UInt8} (h : rb.Sim b) (byte : UInt8) :
    (rbPut rb byte).1 = decide (b.fit rb.size.toNat [byte] = [byte])
      ∧ (rbPut rb byte).2.Sim (b.push rb.size.toNat [byte]) := by
  have hlen : b.queue.length = (rbUsed rb).toNat := by rw [← h.contents, rb.length_contents]
  by_cases hf : rbIsFull rb
  · have hfull : (rbUsed rb).toNat = rb.size.toNat := by rw [of_decide_eq_true hf]
    have hfit : b.fit rb.size.toNat [byte] = [] := by simp [Bounded.fit, hlen, hfull]
    have hstill : rb.Pushed (rbPut rb byte).2 (fun _ => byte) 0 := by
      rw [rbPut, hf]
      refine ⟨rfl, rfl, (UInt32.add_zero _).symm, hfull.le, fun _ _ => rfl, ?_⟩
      intro j hj
      exact absurd hj (Nat.not_lt_zero j)
    refine ⟨by rw [hfit, rbPut, hf]; rfl, h.push hstill (by rw [hfit]; rfl) ?_⟩
    intro st' hst'
    rw [rbPut, hf] at hst' ⊢
    obtain ⟨st, hst, rfl⟩ := Option.map_eq_some_iff.mp hst'
    -- a full buffer is at its peak
    have hpeak : ¬ rbUsed rb > st.peakUsed := by
      rw [gt_iff_lt, UInt32.lt_iff_toNat_lt, (h.counts st hst).1, ← hlen]
      exact Nat.not_lt.mpr h.sound.le_peak
    exact ⟨st, hst, (if_neg hpeak).symm, (UInt32.add_zero _).symm, rfl, rfl⟩
  · have hf' : rbIsFull rb = false := Bool.eq_false_iff.mpr hf
    have hlt := h.ring.not_full hf'
    have hfit : b.fit rb.size.toNat [byte] = [byte] :=
      List.take_of_length_le (show 1 ≤ _ by omega)
    refine ⟨by rw [hfit, rbPut, hf']; simp, h.push (rbPut_pushed h.ring hf' byte) hfit ?_⟩
    intro st' hst'
    rw [rbPut, hf'] at hst' ⊢
    obtain ⟨st₁, hst₁, rfl⟩ := notePeak_stats hst'
    obtain ⟨st, hst, rfl⟩ := Option.map_eq_some_iff.mp hst₁
    exact ⟨st, hst, rfl, rfl, rfl, (UInt32.add_zero _).symm⟩

theorem RingBuffer.Sim.putBuf {b : Bounded UInt8} (h : rb.Sim b) (data : Nat → UInt8)
    (len : UInt32) :
    (rbPutBuf rb data len).1.toNat
        = (b.fit rb.size.toNat ((List.range len.toNat).map data)).length
      ∧ (rbPutBuf rb data len).2.Sim (b.push rb.size.toNat ((List.range len.toNat).map data)) := by
  have hcount := rbPutBuf_count h.ring data len
  rw [h.contents] at hcount
  have hfit : b.fit rb.size.toNat ((List.range len.toNat).map data)
      = (List.range (rbPutBuf rb data len).1.toNat).map data := by
    rw [Bounded.fit, ← List.map_take, List.take_range, hcount, Nat.min_comm]
  have hle : (rbPutBuf rb data len).1 ≤ len := by
    rw [UInt32.le_iff_toNat_le]
    omega
  refine ⟨by rw [hfit]; simp, h.push (rbPutBuf_pushed h.ring data len) hfit ?_⟩
  intro st' hst'
  obtain ⟨st₁, hst₁, rfl⟩ := notePeak_stats hst'
  obtain ⟨st, hst, rfl⟩ := Option.map_eq_some_iff.mp hst₁
  rw [List.length_map, List.length_range, ← UInt32.toNat_sub_of_le _ _ hle, UInt32.ofNat_toNat]
  exact ⟨st, hst, rfl, rfl, rfl, rfl⟩

theorem RingBuffer.Sim.get {b : Bounded UInt8} (h : rb.Sim b) :
    (rbGet rb).1 = b.queue.head? ∧ (rbGet rb).2.Sim (b.pop 1) := by
  have hlen : b.queue.length = (rbUsed rb).toNat := by rw [← h.contents, rb.length_contents]
  by_cases he : rbIsEmpty rb
  · have hzero : (rbUsed rb).toNat = 0 := by
      rw [rbUsed, of_decide_eq_true he, UInt32.sub_self]
      rfl
    have hnil : b.queue = [] := List.length_eq_zero_iff.mp (by omega)
    have hsame : b.pop 1 = b := by
      cases b
      subst hnil
      rfl
    rw [rbGet, he, hsame, hnil]
    exact ⟨rfl, h⟩
  · have he' : rbIsEmpty rb = false := Bool.eq_false_iff.mpr he
    obtain ⟨hbyte, hring, hdrop⟩ := rbGet_advance h.ring he'
    have hpos : 0 < b.queue.length := by
      refine List.length_pos_iff.mpr fun hnil => ?_
      have hzero : rbUsed rb = 0 := by
        rw [hnil] at hlen
        exact UInt32.toNat_inj.mp hlen.symm
      refine of_decide_eq_false he' ?_
      unfold rbUsed at hzero
      grind
    refine ⟨by rw [hbyte, h.contents], h.pop hring (by rw [rbGet, he']; rfl) (n := 1) hdrop ?_ ?_⟩
    · exact (Nat.min_eq_left hpos).symm
    · rw [rbGet, he']
      rfl

theorem RingBuffer.Sim.getBuf {b : Bounded UInt8} (h : rb.Sim b) (len : UInt32) :
    (rbGetBuf rb len).1.toNat = (b.queue.take len.toNat).length
      ∧ (rbGetBuf rb len).2.1 = b.queue.take len.toNat
      ∧ (rbGetBuf rb len).2.2.Sim (b.pop len.toNat) := by
  have hcount := rbGetBuf_count rb len
  have hlen : b.queue.length = (rbUsed rb).toNat := by rw [← h.contents, rb.length_contents]
  obtain ⟨hring, hdrop⟩ := h.ring.advance (rbGetBuf rb len).2.2
    (show (rbGetBuf rb len).1.toNat ≤ (rbUsed rb).toNat by omega) rfl rfl rfl rfl
  refine ⟨by rw [List.length_take, hlen, hcount], ?_, h.pop hring rfl hdrop (by omega) rfl⟩
  rw [rbGetBuf_bytes h.ring, h.contents]

/-- One call. -/
theorem RbOp.exec_refines {b : Bounded UInt8} (h : rb.Sim b) (op : RbOp) :
    (op.exec rb).1 = (op.spec rb.size.toNat b).1
      ∧ (op.exec rb).2.Sim (op.spec rb.size.toNat b).2 ∧ (op.exec rb).2.size = rb.size := by
  cases op with
  | put byte =>
      obtain ⟨hres, hsim⟩ := h.put byte
      refine ⟨congrArg RbResult.put hres, hsim, ?_⟩
      show (rbPut rb byte).2.size = rb.size
      unfold rbPut
      split <;> rfl
  | get =>
      obtain ⟨hres, hsim⟩ := h.get
      refine ⟨congrArg RbResult.get hres, hsim, ?_⟩
      show (rbGet rb).2.size = rb.size
      unfold rbGet
      split <;> rfl
  | putBuf data len =>
      obtain ⟨hres, hsim⟩ := h.putBuf data len
      exact ⟨congrArg RbResult.putBuf hres, hsim, rfl⟩
  | getBuf len =>
      obtain ⟨hn, hbytes, hsim⟩ := h.getBuf len
      exact ⟨congrArg₂ RbResult.getBuf hn hbytes, hsim, rfl⟩

/-- Any number of calls. -/
theorem runOps_refines {ops : List RbOp} : ∀ {rb : RingBuffer} {b : Bounded UInt8}, rb.Sim b →
    (runOps RbOp.exec rb ops).1 = (runOps (RbOp.spec rb.size.toNat) b ops).1
      ∧ (runOps RbOp.exec rb ops).2.Sim (runOps (RbOp.spec rb.size.toNat) b ops).2
      ∧ (runOps RbOp.exec rb ops).2.size = rb.size := by
  induction ops with
  | nil =>
    intro rb b h
    exact ⟨rfl, h, rfl⟩
  | cons op ops ih =>
    intro rb b h
    obtain ⟨hres, hsim, hsize⟩ := op.exec_refines h
    obtain ⟨hress, hsims, hsizes⟩ := ih hsim
    rw [hsize] at hress hsims hsizes
    exact ⟨congrArg₂ List.cons hres hress, hsims, hsizes⟩

/-- One call raises the peak to the length it leaves, or leaves it alone. -/
theorem RbOp.spec_peak {cap : Nat} {b : Bounded UInt8} (op : RbOp) (h : b.Sound cap) :
    (op.spec cap b).2.Sound cap ∧ b.peak ≤ (op.spec cap b).2.peak
      ∧ ((op.spec cap b).2.peak = b.peak
        ∨ (op.spec cap b).2.peak = (op.spec cap b).2.queue.length) := by
  have hpush : ∀ ys, (b.push cap ys).Sound cap ∧ b.peak ≤ (b.push cap ys).peak
      ∧ ((b.push cap ys).peak = b.peak ∨ (b.push cap ys).peak = (b.push cap ys).queue.length) :=
    fun ys => ⟨h.push ys, Nat.le_max_left _ _, max_choice _ _⟩
  cases op with
  | put byte => exact hpush _
  | get => exact ⟨h.pop 1, Nat.le_refl _, Or.inl rfl⟩
  | putBuf data len => exact hpush _
  | getBuf len => exact ⟨h.pop _, Nat.le_refl _, Or.inl rfl⟩

/-- The peak is the greatest length after any prefix of the calls, or the peak before them. -/
theorem runOps_peak {cap : Nat} (ops : List RbOp) : ∀ {b : Bounded UInt8}, b.Sound cap →
    (∀ i, (runOps (RbOp.spec cap) b (ops.take i)).2.queue.length
        ≤ (runOps (RbOp.spec cap) b ops).2.peak)
      ∧ b.peak ≤ (runOps (RbOp.spec cap) b ops).2.peak
      ∧ ((runOps (RbOp.spec cap) b ops).2.peak = b.peak
        ∨ ∃ i, (runOps (RbOp.spec cap) b ops).2.peak
          = (runOps (RbOp.spec cap) b (ops.take i)).2.queue.length) := by
  induction ops with
  | nil =>
    intro b h
    refine ⟨fun i => ?_, Nat.le_refl _, Or.inl rfl⟩
    rw [List.take_nil]
    exact h.le_peak
  | cons op ops ih =>
    intro b h
    obtain ⟨hsound, hmono, hone⟩ := op.spec_peak h
    obtain ⟨hall, hge, hatt⟩ := ih hsound
    refine ⟨fun i => ?_, hmono.trans hge, ?_⟩
    · cases i with
      | zero => exact h.le_peak.trans (hmono.trans hge)
      | succ i => exact hall i
    · rcases hatt with hsame | ⟨i, hi⟩
      · rcases hone with hkeep | hlen
        · exact Or.inl (hsame.trans hkeep)
        · exact Or.inr ⟨1, hsame.trans hlen⟩
      · exact Or.inr ⟨i + 1, hi⟩

/--
**A ring buffer is a bounded byte FIFO.**

From `vibe_rb_init` on, any sequence of byte and block operations gives its callers
what a queue of `size` bytes gives them, and leaves its bytes in the buffer. The
occupancy `tail - head` is the length of the queue and at most the size, and the
statistics are the queue's account: `put_count - get_count` is the occupancy,
`peak_used` the greatest occupancy after any prefix of the calls and `drop_count` the
bytes refused, the counters being modulo `2 ^ 32`.
-/
theorem rb_fifo {withStats : Bool} {buf : Option Mem} {size : UInt32} {ops : List RbOp}
    (hinit : rbInit withStats buf size = some rb) :
    let r := runOps RbOp.exec rb ops
    let b := runOps (RbOp.spec size.toNat) .empty ops
    r.1 = b.1 ∧ r.2.contents = b.2.queue
      ∧ (rbUsed r.2).toNat = b.2.queue.length ∧ rbUsed r.2 ≤ size
      ∧ ∀ st, r.2.stats = some st → st.putCount - st.getCount = rbUsed r.2
        ∧ IsGreatest (Set.range fun i => (rbUsed (runOps RbOp.exec rb (ops.take i)).2).toNat)
          st.peakUsed.toNat
        ∧ st.dropCount = UInt32.ofNat b.2.refused := by
  obtain ⟨hsim, hsize⟩ := rbInit_sim hinit
  have hrun : ∀ ops, (runOps RbOp.exec rb ops).1 = (runOps (RbOp.spec size.toNat) .empty ops).1
      ∧ (runOps RbOp.exec rb ops).2.Sim (runOps (RbOp.spec size.toNat) .empty ops).2
      ∧ (runOps RbOp.exec rb ops).2.size = size := by
    intro ops
    rw [← hsize]
    exact runOps_refines hsim
  have hused : ∀ ops, (rbUsed (runOps RbOp.exec rb ops).2).toNat
      = (runOps (RbOp.spec size.toNat) .empty ops).2.queue.length := by
    intro ops
    rw [← (hrun ops).2.1.contents, RingBuffer.length_contents]
  obtain ⟨hres, hsim', hsize'⟩ := hrun ops
  have hlen := hused ops
  refine ⟨hres, hsim'.contents, hlen, ?_, ?_⟩
  · rw [UInt32.le_iff_toNat_le, ← hsize']
    exact hsim'.ring.used
  · intro st hst
    obtain ⟨hpeak, hput, hget, hdrop⟩ := hsim'.counts st hst
    refine ⟨?_, ?_, hdrop⟩
    · have hmod := congrArg UInt32.ofNat hlen
      rw [UInt32.ofNat_toNat] at hmod
      rw [hput, hget, hmod, hsim'.sound.balance, UInt32.ofNat_add]
      grind
    · obtain ⟨hall, -, hatt⟩ := runOps_peak ops (@Bounded.sound_empty UInt8 size.toNat)
      simp only [hused, hpeak]
      refine ⟨?_, ?_⟩
      · rcases hatt with hzero | ⟨i, hi⟩
        · exact ⟨0, hzero.symm⟩
        · exact ⟨i, hi.symm⟩
      · intro u hu
        obtain ⟨i, rfl⟩ := hu
        exact hall i

/-- Five bytes go through a buffer of four slots, one of them refused. -/
theorem rb_fifo_five :
    let ops := [.putBuf (fun j => UInt8.ofNat (j + 1)) 5, .getBuf 3, .put 9, .getBuf 4]
    ∃ rb, rbInit true (some fun _ => 0) 4 = some rb
      ∧ (runOps RbOp.exec rb ops).1
        = [.putBuf 4, .getBuf 3 [1, 2, 3], .put true, .getBuf 2 [4, 9]] := by
  intro ops
  obtain ⟨rb, hinit⟩ : ∃ rb, rbInit true (some fun _ => 0) 4 = some rb :=
    Option.isSome_iff_exists.mp (by decide)
  have hfifo : (runOps RbOp.exec rb ops).1 = (runOps (RbOp.spec 4) .empty ops).1 :=
    (rb_fifo hinit).1
  refine ⟨rb, hinit, hfifo.trans ?_⟩
  decide

end VibeRtos
