import VibeRtos.Kernel.PipeSystem
import VibeRtos.Lib.Fifo

/-!
# What a round of a pipe loop does

The copy loops move bytes around the ring of a pipe. A round of a write, and a round of
a read, either leaves the loop, blocks, or moves some bytes and wakes one thread of the
other side.
-/

namespace VibeRtos

open Kernel ByteMem Fifo

/-! ## The ring -/

/-- The indices of a pipe are those of a ring. -/
structure Pipe.Ring (p : Pipe) : Prop where
  pos : 0 < p.size.toNat
  used : p.used.toNat ≤ p.size.toNat
  head : p.head.toNat < p.size.toNat
  tail : p.tail.toNat = ringAt p.size.toNat p.head.toNat p.used.toNat

/-- The bytes in the pipe, oldest first. -/
def Pipe.contents (p : Pipe) : List UInt8 :=
  ringRead p.buf p.size.toNat p.head.toNat p.used.toNat

variable {p : Pipe} {k : Kernel} {self : Tid}

/-- One index further. -/
theorem toNat_next {x n : UInt32} (h : x.toNat < n.toNat) :
    ((x + 1) % n).toNat = (x.toNat + 1) % n.toNat := by
  have hn := n.toNat_lt
  rw [UInt32.toNat_mod, UInt32.toNat_add, UInt32.toNat_one,
    Nat.mod_eq_of_lt (a := _ + 1) (by omega)]

/-- The copy loop of a write appends the bytes behind the first `u` of the ring. -/
theorem pipePush_spec (bytes : List UInt8) : ∀ (p : Pipe) (u : Nat), 0 < p.size.toNat →
    p.tail.toNat = ringAt p.size.toNat p.head.toNat u → u + bytes.length ≤ p.size.toNat →
    ∃ buf tail, pipePush p bytes = { p with buf := buf, tail := tail }
      ∧ tail.toNat = ringAt p.size.toNat p.head.toNat (u + bytes.length)
      ∧ ringRead buf p.size.toNat p.head.toNat (u + bytes.length)
        = ringRead p.buf p.size.toNat p.head.toNat u ++ bytes := by
  induction bytes with
  | nil =>
    intro p u _ htail _
    exact ⟨p.buf, p.tail, rfl, htail, by simp⟩
  | cons b bytes ih =>
    intro p u hpos htail hfit
    rw [List.length_cons] at hfit ⊢
    -- the first byte, then the others by induction
    have hlt : p.tail.toNat < p.size.toNat := by
      rw [htail]
      exact ringAt_lt hpos
    have hnext : ((p.tail + 1) % p.size).toNat = ringAt p.size.toNat p.head.toNat (u + 1) := by
      rw [toNat_next hlt, htail, ringAt, ringAt, Nat.mod_add_mod, Nat.add_assoc]
    obtain ⟨buf, tail, heq, htail', hread⟩ := ih { p with
      buf := Function.update p.buf p.tail.toNat b
      tail := (p.tail + 1) % p.size } (u + 1) hpos hnext (by dsimp only; omega)
    refine ⟨buf, tail, heq, ?_, ?_⟩
    · rw [htail']
      congr 1
      omega
    · have hone : ringRead (Function.update p.buf p.tail.toNat b) p.size.toNat p.head.toNat (u + 1)
          = ringRead p.buf p.size.toNat p.head.toNat u ++ (List.range 1).map fun _ => b := by
        refine ringRead_append (fun j hj => ?_) fun j hj => ?_
        · rw [htail]
          exact Function.update_of_ne (ringAt_ne hj (by omega)) _ _
        · obtain rfl : j = 0 := Nat.lt_one_iff.mp hj
          rw [ringAt_zero (ringAt_lt hpos), ← htail]
          exact Function.update_self _ _ _
      rw [show u + (bytes.length + 1) = u + 1 + bytes.length by omega, hread, hone]
      simp

/-- The copy loop of a read stores the first `n` bytes of the ring at `i` and drops them. -/
theorem pipePull_spec (n : Nat) : ∀ (p : Pipe) (dst : Mem) (i : Nat), p.head.toNat < p.size.toNat →
    ∃ head dst', pipePull n p dst i = ({ p with head := head }, dst')
      ∧ head.toNat = ringAt p.size.toNat p.head.toNat n
      ∧ slice dst' i n = ringRead p.buf p.size.toNat p.head.toNat n
      ∧ ∀ x, x < i → dst' x = dst x := by
  induction n with
  | zero =>
    intro p dst i hlt
    exact ⟨p.head, dst, rfl, (ringAt_zero hlt).symm, rfl, fun _ _ => rfl⟩
  | succ n ih =>
    intro p dst i hlt
    have hnext := toNat_next hlt
    obtain ⟨head, dst', heq, hhead, hslice, hframe⟩ := ih { p with head := (p.head + 1) % p.size }
      (Function.update dst i (p.buf p.head.toNat)) (i + 1)
      (by dsimp only; rw [hnext]; exact Nat.mod_lt _ (by omega))
    dsimp only at hhead hslice
    rw [hnext] at hhead hslice
    refine ⟨head, dst', heq, by rw [hhead, ringAt_next], ?_, ?_⟩
    · -- the byte stored first is left alone by the others
      have hfirst : dst' i = p.buf (ringAt p.size.toNat p.head.toNat 0) := by
        rw [hframe i (Nat.lt_succ_self i), Function.update_self, ringAt_zero hlt]
      have hrest : (List.range n).map (fun j => dst' (i + (j + 1)))
          = (List.range n).map fun j => p.buf (ringAt p.size.toNat p.head.toNat (j + 1)) := by
        have hmap := hslice
        simp only [slice, ringRead, ringAt_next] at hmap
        rw [← hmap]
        refine List.map_congr_left fun j _ => ?_
        congr 1
        omega
      rw [slice, ringRead, List.range_succ_eq_map, List.map_cons, List.map_cons, List.map_map,
        List.map_map, Nat.add_zero, hfirst]
      exact congrArg _ hrest
    · intro x hx
      rw [hframe x (by omega), Function.update_of_ne (by omega)]

/-- Free space, without wrapping. -/
theorem Pipe.Ring.space (h : p.Ring) : (p.size - p.used).toNat = p.size.toNat - p.used.toNat :=
  UInt32.toNat_sub_of_le _ _ (UInt32.le_iff_toNat_le.mpr h.used)

theorem toNat_add_ofNat {x y : UInt32} {n : Nat} (h : x.toNat + n ≤ y.toNat) :
    (x + UInt32.ofNat n).toNat = x.toNat + n := by
  have hy : y.toNat < 4294967296 := y.toNat_lt
  have hn : n < UInt32.size := show n < 4294967296 by omega
  rw [UInt32.toNat_add, UInt32.toNat_ofNat_of_lt' hn, Nat.mod_eq_of_lt (by omega)]

theorem toNat_sub_ofNat {x : UInt32} {n : Nat} (h : n ≤ x.toNat) :
    (x - UInt32.ofNat n).toNat = x.toNat - n := by
  have hx : x.toNat < 4294967296 := x.toNat_lt
  have hof : (UInt32.ofNat n).toNat = n :=
    UInt32.toNat_ofNat_of_lt' (show n < 4294967296 by omega)
  rw [UInt32.toNat_sub_of_le _ _ (by rw [UInt32.le_iff_toNat_le, hof]; exact h), hof]

/-! ## Rounds -/

/-- A write has nothing left to do, or finds no space and does not wait. -/
def writeLeaves (k : Kernel) (p : Pipe) (len written : Nat) (timeout stopAt : UInt32) : Prop :=
  len ≤ written ∨ p.used = p.size
    ∧ (timeout = noWait ∨ stopAt ≠ waitForever ∧ k.tickCount ≥ stopAt)

/-- A read has nothing left to do, or finds no byte and does not wait. -/
def readLeaves (k : Kernel) (p : Pipe) (len readCnt : Nat) (timeout stopAt : UInt32) : Prop :=
  len ≤ readCnt ∨ p.used = 0
    ∧ (timeout = noWait ∨ readCnt > 0 ∨ stopAt ≠ waitForever ∧ k.tickCount ≥ stopAt)

/-- The pipe `q` is `p` with `bytes` appended. -/
structure Pipe.Appended (p q : Pipe) (bytes : List UInt8) : Prop where
  ring : q.Ring
  contents : q.contents = p.contents ++ bytes
  size : q.size = p.size
  used : q.used.toNat = p.used.toNat + bytes.length

/-- The three ways a round of a write goes. -/
theorem pipeWriting_cases {o : PipeObj} (h : o.p.Ring) (k : Kernel) (self : Tid)
    (src : List UInt8) (written : Nat) (timeout stopAt : UInt32) :
    let r := pipeWriting k o self src written timeout stopAt
    let woken := o.woken.erase self
    (writeLeaves k o.p src.length written timeout stopAt
        ∧ r = (k, { o with woken := woken }, .wrote src (intOfSize written)))
    ∨ (¬ writeLeaves k o.p src.length written timeout stopAt ∧ o.p.used = o.p.size
        ∧ r = (((k.block self stopAt).waitAppend o.p.writeWait self).1,
          { o with
            p := { o.p with
              writeWait := ((k.block self stopAt).waitAppend o.p.writeWait self).2 }
            woken := woken },
          .writing src written timeout stopAt true))
    ∨ (¬ writeLeaves k o.p src.length written timeout stopAt
        ∧ ∃ n q, 0 < n ∧ n = min (src.length - written) (o.p.size.toNat - o.p.used.toNat)
        ∧ o.p.Appended q ((src.drop written).take n)
        ∧ q.readWait = (k.wakeHead o.p.readWait).2 ∧ q.writeWait = o.p.writeWait
        ∧ r = ((k.wakeHead o.p.readWait).1, {
            p := q
            woken := woken ++ o.p.readWait.head.toList
            accepted := o.accepted ++ (src.drop written).take n
            delivered := o.delivered
            part := Function.update o.part self (o.part self ++ (src.drop written).take n) },
          .writing src (written + n) timeout stopAt false)) := by
  intro r woken
  have hspace := h.space
  by_cases hmore : written < src.length
  · have hr : r = _ := if_pos hmore
    by_cases hs : o.p.size - o.p.used > 0
    · -- some bytes go in
      have hpos : 0 < o.p.size.toNat - o.p.used.toNat := by
        rw [← hspace]
        exact UInt32.lt_iff_toNat_lt.mp hs
      have hleave : ¬ writeLeaves k o.p src.length written timeout stopAt := by
        rintro (hle | ⟨hfull, -⟩)
        · omega
        · rw [hfull] at hpos
          omega
      refine Or.inr (Or.inr ⟨hleave, ?_⟩)
      generalize hn : min (src.length - written) (o.p.size.toNat - o.p.used.toNat) = n
      have hlen : ((src.drop written).take n).length = n := by
        rw [List.length_take, List.length_drop]
        omega
      obtain ⟨buf, tail, hpush, htail, hread⟩ := pipePush_spec ((src.drop written).take n) o.p
        o.p.used.toNat h.pos h.tail (by rw [hlen]; omega)
      rw [hlen] at htail hread
      have hused : (o.p.used + UInt32.ofNat n).toNat = o.p.used.toNat + n :=
        toNat_add_ofNat (y := o.p.size) (by omega)
      have hround : pipeWriteRound k o.p self src written timeout stopAt
          = ((k.wakeHead o.p.readWait).1,
            { o.p with
              buf := buf, tail := tail, used := o.p.used + UInt32.ofNat n,
              readWait := (k.wakeHead o.p.readWait).2 }, .loop (written + n)) := by
        rw [pipeWriteRound, if_pos hs]
        dsimp only
        rw [hspace, hn, hpush]
      refine ⟨n, { o.p with
        buf := buf, tail := tail, used := o.p.used + UInt32.ofNat n,
        readWait :=
          (k.wakeHead o.p.readWait).2 }, by omega, rfl, ⟨⟨h.pos, ?_, h.head, ?_⟩, ?_, rfl, ?_⟩,
        rfl, rfl, ?_⟩
      · show (o.p.used + UInt32.ofNat n).toNat ≤ o.p.size.toNat
        rw [hused]
        omega
      · show tail.toNat = ringAt _ _ (o.p.used + UInt32.ofNat n).toNat
        rw [hused, htail]
      · show ringRead buf _ _ (o.p.used + UInt32.ofNat n).toNat = _
        rw [hused, hread]
        rfl
      · rw [hlen]
        exact hused
      · rw [hr, hround]
        dsimp only
        rw [if_neg (by omega), Nat.add_sub_cancel_left]
    · have hfull : o.p.used = o.p.size := by
        have hzero : (o.p.size - o.p.used).toNat = 0 :=
          Nat.le_zero.mp (UInt32.le_iff_toNat_le.mp (UInt32.not_lt.mp hs))
        have hle := h.used
        exact UInt32.toNat_inj.mp (by omega)
      by_cases hgo : timeout = noWait ∨ stopAt ≠ waitForever ∧ k.tickCount ≥ stopAt
      · refine Or.inl ⟨Or.inr ⟨hfull, hgo⟩, ?_⟩
        have hround : pipeWriteRound k o.p self src written timeout stopAt = (k, o.p, .ret) := by
          rw [pipeWriteRound, if_neg hs]
          by_cases ht : timeout = noWait
          · rw [if_pos ht]
          · rw [if_neg ht, if_pos (hgo.resolve_left ht)]
        rw [hr, hround]
      · obtain ⟨ht, hd⟩ := not_or.mp hgo
        refine Or.inr (Or.inl ⟨?_, hfull, ?_⟩)
        · rintro (hle | ⟨-, hgo'⟩)
          · omega
          · exact hgo hgo'
        · rw [hr, pipeWriteRound, if_neg hs, if_neg ht, if_neg hd]
          dsimp only
          rw [if_pos rfl]
  · exact Or.inl ⟨Or.inl (Nat.not_lt.mp hmore), if_neg hmore⟩

/-- The pipe `q` is `p` with the first `n` bytes gone. -/
structure Pipe.Dropped (p q : Pipe) (n : Nat) : Prop where
  ring : q.Ring
  contents : p.contents = p.contents.take n ++ q.contents
  size : q.size = p.size
  used : q.used.toNat = p.used.toNat - n

/-- The three ways a round of a read goes. -/
theorem pipeReading_cases {o : PipeObj} (h : o.p.Ring) (k : Kernel) (self : Tid) (len : Nat)
    (dst : Mem) (readCnt : Nat) (timeout stopAt : UInt32) :
    let r := pipeReading k o self len dst readCnt timeout stopAt
    let woken := o.woken.erase self
    (readLeaves k o.p len readCnt timeout stopAt
        ∧ r = (k, { o with woken := woken }, .gotten dst (intOfSize readCnt)))
    ∨ (¬ readLeaves k o.p len readCnt timeout stopAt ∧ o.p.used = 0
        ∧ r = (((k.block self stopAt).waitAppend o.p.readWait self).1,
          { o with
            p := { o.p with
              readWait := ((k.block self stopAt).waitAppend o.p.readWait self).2 }
            woken := woken },
          .reading len dst readCnt timeout stopAt true))
    ∨ (¬ readLeaves k o.p len readCnt timeout stopAt
        ∧ ∃ n q dst', 0 < n ∧ n = min (len - readCnt) o.p.used.toNat
        ∧ o.p.Dropped q n ∧ slice dst' readCnt n = o.p.contents.take n
        ∧ slice dst' 0 readCnt = slice dst 0 readCnt
        ∧ q.readWait = o.p.readWait ∧ q.writeWait = (k.wakeHead o.p.writeWait).2
        ∧ r = ((k.wakeHead o.p.writeWait).1, {
            p := q
            woken := woken ++ o.p.writeWait.head.toList
            accepted := o.accepted
            delivered := o.delivered ++ slice dst' readCnt n
            part := Function.update o.part self (o.part self ++ slice dst' readCnt n) },
          .reading len dst' (readCnt + n) timeout stopAt false)) := by
  intro r woken
  by_cases hmore : readCnt < len
  · have hr : r = _ := if_pos hmore
    by_cases hs : o.p.used > 0
    · -- some bytes come out
      have hpos : 0 < o.p.used.toNat := UInt32.lt_iff_toNat_lt.mp hs
      have hleave : ¬ readLeaves k o.p len readCnt timeout stopAt := by
        rintro (hle | ⟨hempty, -⟩)
        · omega
        · rw [hempty] at hpos
          exact absurd hpos (by decide)
      refine Or.inr (Or.inr ⟨hleave, ?_⟩)
      generalize hn : min (len - readCnt) o.p.used.toNat = n
      obtain ⟨head, dst', hpull, hhead, hslice, hframe⟩ := pipePull_spec n o.p dst readCnt h.head
      have hused : (o.p.used - UInt32.ofNat n).toNat = o.p.used.toNat - n :=
        toNat_sub_ofNat (by omega)
      have hle := h.used
      have hround : pipeReadRound k o.p self len dst readCnt timeout stopAt
          = ((k.wakeHead o.p.writeWait).1,
            { o.p with
              head := head, used := o.p.used - UInt32.ofNat n,
              writeWait := (k.wakeHead o.p.writeWait).2 }, .loop (dst', readCnt + n)) := by
        rw [pipeReadRound, if_pos hs]
        dsimp only
        rw [hn, hpull]
      have htake : ringRead o.p.buf o.p.size.toNat o.p.head.toNat n = o.p.contents.take n :=
        (ringRead_take (by omega)).symm
      refine ⟨n, { o.p with
        head := head, used := o.p.used - UInt32.ofNat n,
        writeWait := (k.wakeHead o.p.writeWait).2 }, dst', by omega, rfl,
        ⟨⟨h.pos, ?_, ?_, ?_⟩, ?_, rfl, hused⟩, hslice.trans htake, ?_, rfl, rfl, ?_⟩
      · show (o.p.used - UInt32.ofNat n).toNat ≤ o.p.size.toNat
        rw [hused]
        omega
      · show head.toNat < _
        rw [hhead]
        exact ringAt_lt h.pos
      · show o.p.tail.toNat = ringAt _ head.toNat (o.p.used - UInt32.ofNat n).toNat
        rw [hused, hhead, ringAt_ringAt, h.tail]
        congr 1
        omega
      · show _ = _ ++ ringRead o.p.buf _ head.toNat (o.p.used - UInt32.ofNat n).toNat
        rw [hused, hhead, ← htake, ← ringRead_add]
        show ringRead _ _ _ _ = _
        congr 1
        omega
      · exact slice_congr fun i hi => hframe _ (by omega)
      · rw [hr, hround]
        dsimp only
        rw [if_neg (by omega), Nat.add_sub_cancel_left]
    · have hempty : o.p.used = 0 := by
        have hzero := Nat.le_zero.mp (UInt32.le_iff_toNat_le.mp (UInt32.not_lt.mp hs))
        exact UInt32.toNat_inj.mp hzero
      by_cases hgo : timeout = noWait ∨ readCnt > 0 ∨ stopAt ≠ waitForever ∧ k.tickCount ≥ stopAt
      · refine Or.inl ⟨Or.inr ⟨hempty, hgo⟩, ?_⟩
        have hround : pipeReadRound k o.p self len dst readCnt timeout stopAt = (k, o.p, .ret) := by
          rw [pipeReadRound, if_neg hs]
          by_cases ht : timeout = noWait ∨ readCnt > 0
          · rw [if_pos ht]
          · rw [if_neg ht, if_pos ((or_assoc.mpr hgo).resolve_left ht)]
        rw [hr, hround]
      · have hgo' := hgo
        rw [← or_assoc] at hgo'
        obtain ⟨ht, hd⟩ := not_or.mp hgo'
        refine Or.inr (Or.inl ⟨?_, hempty, ?_⟩)
        · rintro (hle | ⟨-, hgo''⟩)
          · omega
          · exact hgo hgo''
        · rw [hr, pipeReadRound, if_neg hs, if_neg ht, if_neg hd]
          dsimp only
          rw [if_pos rfl]
  · exact Or.inl ⟨Or.inl (Nat.not_lt.mp hmore), if_neg hmore⟩

end VibeRtos
