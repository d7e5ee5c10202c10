import VibeRtos.Lib.Runs
import VibeRtos.Proof.RingFifo
import VibeRtos.Sys.Spsc

/-!
# Ring buffers are safe for one producer and one consumer

What a party has seen of the other's counter may be stale, but only to its disadvantage:
the room the producer has seen can only grow until it publishes, and the bytes the consumer
has seen stay until it advances. Between its load and its store of a counter a party works
on slots that the other leaves alone.
-/

namespace VibeRtos

open Fifo Spsc

variable {rb rb' : RingBuffer}

/-! ## Slots -/

namespace RingBuffer.Ring

/-- The two copies go around the ring. -/
theorem slot (h : rb.Ring) {idx n : UInt32} (hn : n.toNat ≤ rb.size.toNat) {i : Nat}
    (hi : i < n.toNat) :
    rbSlot rb idx n i = ringAt rb.size.toNat (rbMask rb idx).toNat i := by
  have hmask : (rbMask rb idx).toNat < rb.size.toNat := by
    rw [h.mask]
    exact Nat.mod_lt _ h.pos
  have hchunk : rbChunk rb idx n = min n.toNat (rb.size.toNat - (rbMask rb idx).toNat) :=
    h.chunk idx n
  rw [rbSlot, hchunk, ringAt_eq hmask (by omega)]
  split <;> split <;> omega

theorem mask_head (h : rb.Ring) : (rbMask rb rb.head).toNat = rb.start := h.mask _

/-- The bytes in the buffer, by the counter. -/
theorem contents_eq (h : rb.Ring) : (List.range (rbUsed rb).toNat).map (fun j =>
    rb.buf (rbMask rb (rb.head + UInt32.ofNat j)).toNat) = rb.contents := by
  refine List.map_congr_left fun j hj => ?_
  have hlt := List.mem_range.mp hj
  have hused := h.used
  have hsize := rb.size.toNat_lt
  rw [h.mask, UInt32.toNat_add, UInt32.toNat_ofNat_of_lt' (show j < 2 ^ 32 by omega),
    Nat.mod_mod_of_dvd _ h.dvd,
    ringAt, RingBuffer.start, Nat.mod_add_mod]

theorem getElem_contents {i : Nat} (hi : i < (rbUsed rb).toNat) :
    rb.contents[i]? = some (rb.buf (ringAt rb.size.toNat rb.start i)) := by
  simp [RingBuffer.contents, ringRead, hi]

/-- A byte stored in a free slot. -/
theorem store (h : rb.Ring) {j : Nat} (hj : (rbUsed rb).toNat + j < rb.size.toNat) (b : UInt8) :
    RingBuffer.contents { rb with
      buf := Function.update rb.buf (ringAt rb.size.toNat (rbMask rb rb.tail).toNat j) b }
      = rb.contents := by
  refine ringRead_congr fun i hi => Function.update_of_ne ?_ _ _
  rw [h.tail_mask, ringAt_ringAt]
  exact ringAt_ne (Nat.lt_of_lt_of_le hi (Nat.le_add_right _ j)) hj

end RingBuffer.Ring

/-! ## What a party relies on -/

/-- The producer has room for what it is about to publish. -/
def Producer.Ready (rb : RingBuffer) : Producer → Prop
  | .idle => True
  | .store _ => (rbUsed rb).toNat < rb.size.toNat
  | .stored byte => (rbUsed rb).toNat < rb.size.toNat ∧ rb.buf (rbMask rb rb.tail).toNat = byte
  | .copy data n copied => (rbUsed rb).toNat + n.toNat ≤ rb.size.toNat
      ∧ ∀ i, i < n.toNat → copied i = true →
        rb.buf (ringAt rb.size.toNat (rbMask rb rb.tail).toNat i) = data i

/-- The consumer's bytes are those that come next. -/
def Consumer.Sees (rb : RingBuffer) : Consumer → Prop
  | .idle => True
  | .load => 0 < (rbUsed rb).toNat
  | .loaded byte => rb.contents[0]? = some byte
  | .copy n copied dst => n.toNat ≤ (rbUsed rb).toNat
      ∧ ∀ i, i < n.toNat → copied i = true → rb.contents[i]? = some (dst i)

/-- The invariant of the two parties. -/
structure Spsc.Inv (s : Spsc) : Prop where
  ring : s.rb.Ring
  stream : s.obtained ++ s.rb.contents = s.published
  ready : s.producer.Ready s.rb
  sees : s.consumer.Sees s.rb

/-- More bytes at the end are no matter to the consumer. -/
theorem Consumer.Sees.grow {c : Consumer} (h : c.Sees rb) {ys : List UInt8}
    (hc : rb'.contents = rb.contents ++ ys) : c.Sees rb' := by
  have hused : (rbUsed rb).toNat ≤ (rbUsed rb').toNat := by
    have hlen := congrArg List.length hc
    rw [List.length_append, RingBuffer.length_contents, RingBuffer.length_contents] at hlen
    omega
  have hget : ∀ {i : Nat} {b : UInt8}, rb.contents[i]? = some b → rb'.contents[i]? = some b := by
    intro i b hi
    rw [hc, List.getElem?_append_left (List.getElem?_eq_some_iff.mp hi).1]
    exact hi
  cases c with
  | idle => trivial
  | load => exact Nat.lt_of_lt_of_le h hused
  | loaded byte => exact hget h
  | copy n copied dst => exact ⟨h.1.trans hused, fun i hi hcopied => hget (h.2 i hi hcopied)⟩

/-- More room is no matter to the producer. -/
theorem Producer.Ready.drain {p : Producer} (h : p.Ready rb)
    (hused : (rbUsed rb').toNat ≤ (rbUsed rb).toNat) (hb : rb'.buf = rb.buf)
    (hs : rb'.size = rb.size) (ht : rb'.tail = rb.tail) : p.Ready rb' := by
  have hmask : rbMask rb' rb'.tail = rbMask rb rb.tail := by rw [rbMask, rbMask, hs, ht]
  cases p with
  | idle => trivial
  | store byte =>
      have hroom : (rbUsed rb).toNat < rb.size.toNat := h
      show (rbUsed rb').toNat < rb'.size.toNat
      rw [hs]
      omega
  | stored byte =>
      obtain ⟨hroom, hbyte⟩ := h
      refine ⟨by rw [hs]; omega, ?_⟩
      rw [hb, hmask]
      exact hbyte
  | copy data n copied =>
      obtain ⟨hroom, hbytes⟩ := h
      refine ⟨by rw [hs]; omega, ?_⟩
      rw [hb, hmask, hs]
      exact hbytes

/-! ## Steps -/

namespace Spsc

variable {s s' : Spsc} {l : Label}

/-- The producer has published `n` bytes of `data`. -/
theorem Inv.published (h : s.Inv) {n : UInt32} {d : Nat → UInt8}
    (hroom : (rbUsed s.rb).toNat + n.toNat ≤ s.rb.size.toNat)
    (hbytes : ∀ i, i < n.toNat →
      s.rb.buf (ringAt s.rb.size.toNat (rbMask s.rb s.rb.tail).toNat i) = d i) :
    Inv { s with
      rb := { s.rb with tail := s.rb.tail + n }
      producer := .idle
      published := s.published ++ (List.range n.toNat).map d } := by
  have hpush : s.rb.Pushed { s.rb with tail := s.rb.tail + n } d n :=
    ⟨rfl, rfl, rfl, hroom, fun _ _ => rfl, hbytes⟩
  have hc := hpush.contents h.ring
  refine ⟨hpush.ring h.ring, ?_, trivial, h.sees.grow hc⟩
  show s.obtained ++ RingBuffer.contents _ = _
  rw [hc, ← List.append_assoc, h.stream]

/-- The producer has stored a byte in the slot `j` places behind the last. -/
theorem Inv.stored (h : s.Inv) {j : Nat} (hj : (rbUsed s.rb).toNat + j < s.rb.size.toNat)
    (b : UInt8) {p : Producer} (hp : p.Ready { s.rb with
      buf := Function.update s.rb.buf
        (ringAt s.rb.size.toNat (rbMask s.rb s.rb.tail).toNat j) b }) :
    Inv { s with
      rb := { s.rb with
        buf := Function.update s.rb.buf
          (ringAt s.rb.size.toNat (rbMask s.rb s.rb.tail).toNat j) b }
      producer := p } := by
  have hc := h.ring.store hj b
  refine ⟨⟨h.ring.pow, h.ring.used⟩, ?_, hp, h.sees.grow (hc.trans (List.append_nil _).symm)⟩
  show s.obtained ++ RingBuffer.contents _ = _
  rw [hc]
  exact h.stream

theorem Inv.produce (h : s.Inv) (hs : s.produce l = some s') : s'.Inv := by
  have hused := h.ring.used
  have hmask : (rbMask s.rb s.rb.tail).toNat < s.rb.size.toNat := by
    rw [h.ring.mask]
    exact Nat.mod_lt _ h.ring.pos
  have hready := h.ready
  cases l with
  | put byte =>
      simp only [Spsc.produce] at hs
      split at hs
      · obtain rfl := Option.some.inj hs
        split
        · exact h
        · rename_i hfull
          exact ⟨h.ring, h.stream, h.ring.not_full (by simpa using hfull), h.sees⟩
      · exact absurd hs (by simp)
  | putBuf data len =>
      simp only [Spsc.produce] at hs
      split at hs
      · obtain rfl := Option.some.inj hs
        refine ⟨h.ring, h.stream, ⟨?_, by simp⟩, h.sees⟩
        have hfree := h.ring.free
        rw [RingBuffer.length_contents] at hfree
        show (rbUsed s.rb).toNat + (if len < rbFree s.rb then len else rbFree s.rb).toNat
          ≤ s.rb.size.toNat
        rw [toNat_min]
        omega
      · exact absurd hs (by simp)
  | store i =>
      simp only [Spsc.produce] at hs
      split at hs
      · rename_i byte hp
        rw [hp] at hready
        obtain rfl := Option.some.inj hs
        have hroom : (rbUsed s.rb).toNat + 0 < s.rb.size.toNat := hready
        have hst := h.stored hroom byte (p := .stored byte)
        rw [ringAt_zero hmask] at hst
        exact hst ⟨hready, Function.update_self _ _ _⟩
      · rename_i data n copied hp
        rw [hp] at hready
        obtain ⟨hroom, hbytes⟩ := hready
        split at hs
        · rename_i hnext
          obtain rfl := Option.some.inj hs
          have hi := hnext.1
          rw [h.ring.slot (by omega) hi]
          refine h.stored (by omega) (data i) ⟨hroom, fun k hk hcopied => ?_⟩
          show Function.update s.rb.buf _ _
            (ringAt s.rb.size.toNat (rbMask s.rb s.rb.tail).toNat k) = _
          by_cases hki : k = i
          · rw [hki, Function.update_self]
          · -- the other bytes are in other slots
            have hne : ringAt s.rb.size.toNat (rbMask s.rb s.rb.tail).toNat k
                ≠ ringAt s.rb.size.toNat (rbMask s.rb s.rb.tail).toNat i := by
              rcases Nat.lt_or_gt_of_ne hki with hlt | hlt
              · exact ringAt_ne hlt (by omega)
              · exact (ringAt_ne hlt (by omega)).symm
            rw [Function.update_of_ne hki] at hcopied
            rw [Function.update_of_ne hne]
            exact hbytes k hk hcopied
        · exact absurd hs (by simp)
      · exact absurd hs (by simp)
  | publish =>
      simp only [Spsc.produce] at hs
      split at hs
      · rename_i byte hp
        rw [hp] at hready
        obtain ⟨hroom, hbyte⟩ := hready
        obtain rfl := Option.some.inj hs
        refine h.published (n := 1) (d := fun _ => byte) hroom fun i hi => ?_
        obtain rfl : i = 0 := Nat.lt_one_iff.mp hi
        rw [ringAt_zero hmask]
        exact hbyte
      · rename_i data n copied hp
        rw [hp] at hready
        obtain ⟨hroom, hbytes⟩ := hready
        split at hs
        · rename_i hall
          obtain rfl := Option.some.inj hs
          refine h.published hroom fun i hi => hbytes i hi ?_
          exact List.all_eq_true.mp hall i (List.mem_range.mpr hi)
        · exact absurd hs (by simp)
      · exact absurd hs (by simp)
  | get => exact absurd hs (by simp [Spsc.produce])
  | getBuf len => exact absurd hs (by simp [Spsc.produce])
  | load i => exact absurd hs (by simp [Spsc.produce])
  | advance => exact absurd hs (by simp [Spsc.produce])

/-- The consumer has advanced over the bytes it has loaded. -/
theorem Inv.advanced (h : s.Inv) {n : UInt32} {d : Nat → UInt8}
    (hn : n.toNat ≤ (rbUsed s.rb).toNat)
    (hbytes : ∀ i, i < n.toNat → s.rb.contents[i]? = some (d i)) :
    Inv { s with
      rb := { s.rb with head := s.rb.head + n }
      consumer := .idle
      obtained := s.obtained ++ (List.range n.toNat).map d } := by
  obtain ⟨hring, hc⟩ := h.ring.advance { s.rb with head := s.rb.head + n } hn rfl rfl rfl rfl
  have htake : (List.range n.toNat).map d = s.rb.contents.take n.toNat := by
    refine List.ext_getElem? fun i => ?_
    rw [List.getElem?_take]
    split
    · rename_i hi
      rw [hbytes i hi]
      simp [hi]
    · rename_i hi
      simp [hi]
  have hlen := congrArg List.length hc
  rw [List.length_drop, RingBuffer.length_contents, RingBuffer.length_contents] at hlen
  have hready : s.producer.Ready { s.rb with head := s.rb.head + n } :=
    h.ready.drain (by omega) rfl rfl rfl
  refine ⟨hring, ?_, hready, trivial⟩
  show (s.obtained ++ (List.range n.toNat).map d) ++ RingBuffer.contents _ = _
  rw [hc, htake, List.append_assoc, List.take_append_drop]
  exact h.stream

theorem Inv.consume (h : s.Inv) (hs : s.consume l = some s') : s'.Inv := by
  have hused := h.ring.used
  have hsees := h.sees
  cases l with
  | get =>
      simp only [Spsc.consume] at hs
      split at hs
      · obtain rfl := Option.some.inj hs
        split
        · exact h
        · rename_i hempty
          have hne : s.rb.head ≠ s.rb.tail := by simpa [rbIsEmpty] using hempty
          refine ⟨h.ring, h.stream, h.ready, ?_⟩
          show 0 < (rbUsed s.rb).toNat
          refine Nat.pos_of_ne_zero fun hzero => hne ?_
          have hdiff : s.rb.tail - s.rb.head = 0 := UInt32.toNat_inj.mp hzero
          grind
      · exact absurd hs (by simp)
  | getBuf len =>
      simp only [Spsc.consume] at hs
      split at hs
      · obtain rfl := Option.some.inj hs
        refine ⟨h.ring, h.stream, h.ready, ?_, by simp⟩
        show (if len < rbUsed s.rb then len else rbUsed s.rb).toNat ≤ (rbUsed s.rb).toNat
        rw [toNat_min]
        exact Nat.min_le_right _ _
      · exact absurd hs (by simp)
  | load i =>
      simp only [Spsc.consume] at hs
      split at hs
      · rename_i hc
        rw [hc] at hsees
        obtain rfl := Option.some.inj hs
        refine ⟨h.ring, h.stream, h.ready, ?_⟩
        show s.rb.contents[0]? = some _
        rw [RingBuffer.Ring.getElem_contents hsees, ringAt_zero h.ring.start_lt, h.ring.mask_head]
      · rename_i n copied dst hc
        rw [hc] at hsees
        obtain ⟨hn, hbytes⟩ := hsees
        split at hs
        · rename_i hnext
          obtain rfl := Option.some.inj hs
          refine ⟨h.ring, h.stream, h.ready, hn, fun k hk hcopied => ?_⟩
          show s.rb.contents[k]? = _
          by_cases hki : k = i
          · subst hki
            rw [Function.update_self, h.ring.slot (by omega) hk, h.ring.mask_head]
            exact RingBuffer.Ring.getElem_contents (by omega)
          · rw [Function.update_of_ne hki] at hcopied ⊢
            exact hbytes k hk hcopied
        · exact absurd hs (by simp)
      · exact absurd hs (by simp)
  | advance =>
      simp only [Spsc.consume] at hs
      split at hs
      · rename_i byte hc
        rw [hc] at hsees
        obtain rfl := Option.some.inj hs
        have hbyte : s.rb.contents[0]? = some byte := hsees
        have hpos := (List.getElem?_eq_some_iff.mp hbyte).1
        rw [RingBuffer.length_contents] at hpos
        refine h.advanced (n := 1) (d := fun _ => byte) hpos fun i hi => ?_
        obtain rfl : i = 0 := Nat.lt_one_iff.mp hi
        exact hbyte
      · rename_i n copied dst hc
        rw [hc] at hsees
        obtain ⟨hn, hbytes⟩ := hsees
        split at hs
        · rename_i hall
          obtain rfl := Option.some.inj hs
          refine h.advanced hn fun i hi => hbytes i hi ?_
          exact List.all_eq_true.mp hall i (List.mem_range.mpr hi)
        · exact absurd hs (by simp)
      · exact absurd hs (by simp)
  | put byte => exact absurd hs (by simp [Spsc.consume])
  | putBuf data len => exact absurd hs (by simp [Spsc.consume])
  | store i => exact absurd hs (by simp [Spsc.consume])
  | publish => exact absurd hs (by simp [Spsc.consume])

/-- **Every step of either party keeps the invariant.** -/
theorem Inv.step (h : s.Inv) (hs : s.step l = some s') : s'.Inv := by
  cases l with
  | put byte => exact h.produce (l := .put byte) hs
  | putBuf data len => exact h.produce (l := .putBuf data len) hs
  | store i => exact h.produce (l := .store i) hs
  | publish => exact h.produce (l := .publish) hs
  | get => exact h.consume (l := .get) hs
  | getBuf len => exact h.consume (l := .getBuf len) hs
  | load i => exact h.consume (l := .load i) hs
  | advance => exact h.consume (l := .advance) hs

theorem Inv.initial (h : s.Initial) : s.Inv := by
  have hring : s.rb.Ring :=
    ⟨isPowerOfTwo_toNat h.size, UInt32.le_iff_toNat_le.mp h.used⟩
  refine ⟨hring, ?_, by rw [h.producer]; trivial, by rw [h.consumer]; trivial⟩
  rw [h.obtained, h.published, hring.contents_eq]
  rfl

theorem Inv.safe (h : s.Inv) : s.Safe := by
  have hstream := h.stream
  have hnext : ∀ {i : Nat} {b : UInt8}, s.rb.contents[i]? = some b →
      s.published[s.obtained.length + i]? = some b := by
    intro i b hi
    rw [← hstream, List.getElem?_append_right (Nat.le_add_right _ _), Nat.add_sub_cancel_left]
    exact hi
  refine ⟨⟨s.rb.contents, hstream⟩, fun i b hb => hnext ?_, ?_,
    UInt32.le_iff_toNat_le.mpr h.ring.used⟩
  · have hsees := h.sees
    unfold Holds at hb
    split at hb
    · rename_i byte hc
      obtain ⟨rfl, rfl⟩ := hb
      rw [hc] at hsees
      exact hsees
    · rename_i n copied dst hc
      obtain ⟨hi, hcopied, rfl⟩ := hb
      rw [hc] at hsees
      exact hsees.2 i hi hcopied
    · exact absurd hb (by simp)
  · rw [h.ring.contents_eq]
    exact hstream.symm

/--
**A ring buffer is safe for one producer and one consumer.** In every interleaving of their
loads and stores, at every moment, what has been obtained is a prefix of what has been
published, a byte loaded is the next one, the unread bytes are in the buffer as published,
and the counters are at most the size apart.
-/
theorem spsc_safe (h : s.Initial) {ls : List Label} (hr : Runs.run Spsc.step s ls = some s') :
    s'.Safe :=
  (Runs.run_invariant (fun _ _ _ h hs => h.step hs) (Inv.initial h) hr).safe

/-- Two bytes around the end of a buffer of two, the first read before the second is stored. -/
theorem spsc_safe_two :
    let s : Spsc := ⟨⟨fun _ => 0, 2, 0xFFFFFFFF, 0xFFFFFFFF, none⟩, .idle, .idle, [], []⟩
    ∃ s', Runs.run Spsc.step s [.put 7, .store 0, .getBuf 2, .publish, .advance, .get,
        .putBuf (fun _ => 9) 5, .load 0, .store 0, .advance, .publish, .getBuf 5, .load 0]
      = some s' ∧ s'.published = [7, 9] ∧ s'.obtained = [7] ∧ s'.Safe := by
  intro s
  have hinit : s.Initial := ⟨by decide, by decide, rfl, rfl, rfl, by decide +kernel⟩
  obtain ⟨s', hr, hfacts⟩ : ∃ s', Runs.run Spsc.step s [.put 7, .store 0, .getBuf 2, .publish,
      .advance, .get, .putBuf (fun _ => 9) 5, .load 0, .store 0, .advance, .publish, .getBuf 5,
      .load 0] = some s' ∧ decide (s'.published = [7, 9] ∧ s'.obtained = [7]) = true :=
    Option.map_eq_some_iff.mp (by decide +kernel)
  obtain ⟨hpub, hobt⟩ := of_decide_eq_true hfacts
  exact ⟨s', hr, hpub, hobt, spsc_safe hinit hr⟩

end Spsc

end VibeRtos
