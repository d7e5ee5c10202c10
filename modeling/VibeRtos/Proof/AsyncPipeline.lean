import VibeRtos.Proof.AsyncStages
import VibeRtos.Proof.RingFifo
import VibeRtos.Samples.AsyncPipeline

/-!
# What the pipeline prints

The buffers hold whole words. A buffer of 16 words refuses a sample only when the processor has not
run since; the processor finds the buffer of results empty, because the printer has run, and takes
at most 16 samples out, so no result is ever refused. `Flow` says which samples are where, and each
stage keeps it (`Staged`).

The window is the last four samples. `hlen` has eight bits, so it is no longer the number of
samples processed after the 255th, and the window starts again from nothing at every 256th.
-/

namespace VibeRtos.Pipeline

open Coroutine Async ByteMem Fifo

/-! ## Words in a ring buffer -/

/-- The bytes of a word. -/
def wordList (w : UInt32) : List UInt8 := (List.range 4).map (wordBytes w)

@[simp] theorem length_wordList (w : UInt32) : (wordList w).length = 4 := by simp [wordList]

@[simp] theorem length_wordLists (ws : List UInt32) :
    (ws.flatMap wordList).length = 4 * ws.length := by
  induction ws with
  | nil => rfl
  | cons w ws ih =>
      rw [List.flatMap_cons, List.length_append, length_wordList, ih, List.length_cons]
      omega

theorem wordOf_wordList (w : UInt32) : wordOf (wordList w) = w := by
  have hread : read32 (fun i => (wordList w).getD i 0) 0 = w.toNat := by
    refine Eq.trans (read32_congr fun i hi => ?_)
      (read32_write32_eq (m := fun _ => 0) (a := 0) w.toNat_lt)
    rw [Nat.zero_add, wordList, List.getD_eq_getElem _ _ (by simpa using hi)]
    simp [wordBytes]
  rw [wordOf, hread, UInt32.ofNat_toNat]

/-- The buffer holds `ws`; `kept` words have gone into it so far and `dropped` were refused. -/
structure Holds (rb : RingBuffer) (ws : List UInt32) (kept dropped : Nat) : Prop where
  size : rb.size = bufBytes
  sim : ∃ b, rb.Sim b ∧ b.queue = ws.flatMap wordList ∧ b.accepted = 4 * kept
    ∧ b.refused = 4 * dropped

section Holds

variable {rb : RingBuffer} {w : UInt32} {ws : List UInt32} {kept dropped : Nat}

theorem Holds.used (h : Holds rb ws kept dropped) : (rbUsed rb).toNat = 4 * ws.length := by
  obtain ⟨b, hb, hq, -⟩ := h.sim
  rw [← RingBuffer.length_contents, hb.contents, hq, length_wordLists]

theorem Holds.length_le (h : Holds rb ws kept dropped) : ws.length ≤ 16 := by
  obtain ⟨b, hb, hq, -⟩ := h.sim
  have hle := hb.sound.le_cap
  rw [hq, length_wordLists, h.size] at hle
  have : bufBytes.toNat = 64 := rfl
  omega

/-- A word is ready exactly when there is one. -/
theorem Holds.ready (h : Holds rb ws kept dropped) : rbUsed rb ≥ 4 ↔ ws ≠ [] := by
  rw [ge_iff_le, UInt32.le_iff_toNat_le, h.used, ← List.length_pos_iff]
  have : (4 : UInt32).toNat = 4 := rfl
  omega

/-- A word goes in whole. -/
theorem Holds.put (h : Holds rb ws kept dropped) (w : UInt32) (hlen : ws.length < 16) :
    ¬ (rbPutBuf rb (wordBytes w) 4).1 < 4
      ∧ Holds (rbPutBuf rb (wordBytes w) 4).2 (ws ++ [w]) (kept + 1) dropped := by
  obtain ⟨b, hb, hq, hacc, href⟩ := h.sim
  obtain ⟨hn, hb'⟩ := hb.putBuf (wordBytes w) 4
  have hfit : b.fit rb.size.toNat (wordList w) = wordList w := by
    refine List.take_of_length_le ?_
    rw [hq, length_wordLists, length_wordList, h.size]
    have : bufBytes.toNat = 64 := rfl
    omega
  change _ = (b.fit rb.size.toNat (wordList w)).length at hn
  rw [hfit, length_wordList] at hn
  refine ⟨?_, h.size, _, hb', ?_, ?_, ?_⟩
  · rw [UInt32.lt_iff_toNat_lt, hn]
    exact lt_irrefl 4
  · show b.queue ++ b.fit rb.size.toNat (wordList w) = _
    simp [hfit, hq]
  · show b.accepted + (b.fit rb.size.toNat (wordList w)).length = _
    rw [hfit, hacc, length_wordList]
    omega
  · show b.refused + ((wordList w).length - (b.fit rb.size.toNat (wordList w)).length) = _
    rw [hfit, href, Nat.sub_self, Nat.add_zero]

/-- Or not at all. -/
theorem Holds.drop (h : Holds rb ws kept dropped) (w : UInt32) (hlen : ¬ ws.length < 16) :
    (rbPutBuf rb (wordBytes w) 4).1 < 4
      ∧ Holds (rbPutBuf rb (wordBytes w) 4).2 ws kept (dropped + 1) := by
  have hle := h.length_le
  obtain ⟨b, hb, hq, hacc, href⟩ := h.sim
  obtain ⟨hn, hb'⟩ := hb.putBuf (wordBytes w) 4
  have hfit : b.fit rb.size.toNat (wordList w) = [] := by
    have : bufBytes.toNat = 64 := rfl
    rw [Bounded.fit, hq, length_wordLists, h.size, this, show 64 - 4 * ws.length = 0 by omega]
    rfl
  change _ = (b.fit rb.size.toNat (wordList w)).length at hn
  rw [hfit] at hn
  refine ⟨?_, h.size, _, hb', ?_, ?_, ?_⟩
  · rw [UInt32.lt_iff_toNat_lt, hn]
    exact Nat.zero_lt_succ 3
  · show b.queue ++ b.fit rb.size.toNat (wordList w) = _
    rw [hfit, hq, List.append_nil]
  · show b.accepted + (b.fit rb.size.toNat (wordList w)).length = _
    rw [hfit, hacc]
    rfl
  · show b.refused + ((wordList w).length - (b.fit rb.size.toNat (wordList w)).length) = _
    rw [hfit, href, length_wordList]
    rfl

theorem Holds.get (h : Holds rb (w :: ws) kept dropped) :
    wordOf (rbGetBuf rb 4).2.1 = w ∧ Holds (rbGetBuf rb 4).2.2 ws kept dropped := by
  obtain ⟨b, hb, hq, hacc, href⟩ := h.sim
  obtain ⟨-, hbytes, hb'⟩ := hb.getBuf 4
  have hfour : (4 : UInt32).toNat = (wordList w).length := (length_wordList w).symm
  rw [List.flatMap_cons] at hq
  refine ⟨?_, h.size, _, hb', ?_, hacc, href⟩
  · rw [hbytes, hq, hfour, List.take_left, wordOf_wordList]
  · show b.queue.drop _ = _
    rw [hq, hfour, List.drop_left]

/-- The statistics of an empty buffer. -/
theorem Holds.stats {st : RbStats} (h : Holds rb [] kept dropped) (hst : rbGetStats rb = some st) :
    st.putCount = st.getCount ∧ st.dropCount = UInt32.ofNat (4 * dropped) := by
  obtain ⟨b, hb, hq, -, href⟩ := h.sim
  obtain ⟨-, hput, hget, hdrop⟩ := hb.counts st hst
  have hbal := hb.sound.balance
  rw [hq] at hbal
  rw [hput, hget, hbal, hdrop, href]
  exact ⟨rfl, rfl⟩

theorem holds_init (withStats : Bool) : Holds (ringBufDefine withStats) [] 0 0 := by
  have h : rbInit withStats (some fun _ => 0) bufBytes = some (ringBufDefine withStats) := rfl
  exact ⟨rfl, _, (rbInit_sim h).1, rfl, rfl, rfl⟩

end Holds

/-! ## Samples and averages -/

section Samples

variable {xs ys : List UInt32} {oks : List Bool} {n p : Nat}

theorem keptSamples_concat (oks : List Bool) (ok : Bool) : keptSamples (oks ++ [ok])
    = keptSamples oks ++ if ok then [sampleAt oks.length] else [] := by
  cases ok <;> simp [keptSamples, List.zipIdx_append]

theorem toNat_sampleAt (i : Nat) : (sampleAt i).toNat = 7 * i % 256 :=
  UInt32.toNat_ofNat_of_lt' ((Nat.mod_lt _ (Nat.zero_lt_succ 255)).trans (by decide))

theorem keptSamples_lt : ∀ x ∈ keptSamples oks, x.toNat < 256 := by
  intro x hx
  obtain ⟨e, -, rfl⟩ := List.mem_map.mp hx
  rw [toNat_sampleAt]
  exact Nat.mod_lt _ (Nat.zero_lt_succ 255)

theorem getD_keptSamples_lt (i : Nat) : ((keptSamples oks).getD i 0).toNat < 256 := by
  rw [List.getD_eq_getElem?_getD]
  cases h : (keptSamples oks)[i]? with
  | none => exact Nat.zero_lt_succ 255
  | some x => exact keptSamples_lt x (List.mem_of_getElem? h)

/-- The sequence counter wraps, and the samples do not show it. -/
theorem sample_value (i : Nat) : UInt32.ofNat i * 7 &&& 0xFF = sampleAt i := by
  have hi : (UInt32.ofNat i).toNat = i % 2 ^ 32 := UInt32.toNat_ofNat'
  rw [← UInt32.toNat_inj, toNat_sampleAt, UInt32.toNat_and, UInt32.toNat_mul, hi]
  show i % 2 ^ 32 * 7 % 2 ^ 32 &&& 2 ^ 8 - 1 = _
  rw [Nat.and_two_pow_sub_one_eq_mod]
  omega

theorem meanOfLast_append {w : Nat} (hw : w ≤ n) (h : n ≤ xs.length) :
    meanOfLast (xs ++ ys) n w = meanOfLast xs n w := by
  have hmap : (List.range w).map (fun j => ((xs ++ ys).getD (n - 1 - j) 0).toNat)
      = (List.range w).map fun j => (xs.getD (n - 1 - j) 0).toNat := by
    refine List.map_congr_left fun j hj => ?_
    have hj' := List.mem_range.mp hj
    rw [List.getD_append _ _ _ _ (by omega)]
  simp only [meanOfLast, hmap]

theorem windowAverage_append (h : n ≤ xs.length) :
    windowAverage (xs ++ ys) n = windowAverage xs n := by
  have hle := Nat.mod_le n 256
  exact meanOfLast_append (by omega) h

/-- While the window holds what it should, its average is the moving average. -/
theorem windowAverage_eq (h : n < 256 ∨ 4 ≤ n % 256) :
    windowAverage xs n = movingAverage xs n := by
  have hsize : min 4 (n % 256) = min 4 n := by omega
  rw [windowAverage, movingAverage, hsize]

/-- The first `p` averages. -/
def averages (xs : List UInt32) (p : Nat) : List UInt32 :=
  (List.range p).map fun n => windowAverage xs (n + 1)

@[simp] theorem length_averages : (averages xs p).length = p := by simp [averages]

theorem averages_append (h : p ≤ xs.length) : averages (xs ++ ys) p = averages xs p := by
  refine List.map_congr_left fun n hn => windowAverage_append ?_
  have := List.mem_range.mp hn
  omega

theorem averages_succ : averages xs (p + 1) = averages xs p ++ [windowAverage xs (p + 1)] := by
  simp [averages, List.range_succ]

/-! ### The window -/

/-- The last samples of the first `p` are in the window. -/
def Window (xs : List UInt32) (p : Nat) (history : Fin 4 → UInt32) : Prop :=
  ∀ j < 4, j < p → history (slot (p - 1 - j)) = xs.getD (p - 1 - j) 0

theorem Window.push {history : Fin 4 → UInt32} (h : Window xs p history) :
    Window xs (p + 1) (Function.update history (slot p) (xs.getD p 0)) := by
  intro j hj hjp
  cases j with
  | zero => simp
  | succ j =>
      have hne : slot (p + 1 - 1 - (j + 1)) ≠ slot p := by
        intro he
        have := congrArg Fin.val he
        simp only [slot, Fin.ofNat] at this
        omega
      rw [Function.update_of_ne hne, show p + 1 - 1 - (j + 1) = p - 1 - j by omega]
      exact h j (by omega) (by omega)

theorem Window.append {history : Fin 4 → UInt32} (h : Window xs p history) (hp : p ≤ xs.length) :
    Window (xs ++ ys) p history := by
  intro j hj hjp
  rw [h j hj hjp, List.getD_append _ _ _ _ (by omega)]

/-- The sum over the window is that of the last samples. -/
theorem Window.toNat_sum {history : Fin 4 → UInt32} {w : Nat}
    (h : Window (keptSamples oks) (p + 1) history) (hw : min 4 ((p + 1) % 256) = w) :
    (windowSum history w).toNat
      = ((List.range w).map fun j => ((keptSamples oks).getD (p - j) 0).toNat).sum := by
  have hle := Nat.mod_le (p + 1) 256
  have hslot : ∀ (j : Nat) (k : Fin 4), j < w → (p - j) % 4 = k.val →
      history k = (keptSamples oks).getD (p - j) 0 := by
    intro j k hj hmod
    have hj := h j (by omega) (by omega)
    rw [Nat.add_sub_cancel] at hj
    exact hj ▸ congrArg history (Fin.ext hmod.symm)
  have hlt : ∀ i, ((keptSamples oks).getD i 0).toNat < 256 := getD_keptSamples_lt
  have hzero : (0 : UInt32).toNat = 0 := rfl
  have hmax : w ≤ 4 := by omega
  -- below four the window starts at the first slot, and at four all slots count
  interval_cases w
  · rfl
  · have h0 := hslot 0 0 (by omega) (show _ = 0 by omega)
    have hx := hlt (p - 0)
    show (0 + history 0).toNat = ((keptSamples oks).getD (p - 0) 0).toNat + 0
    rw [h0, UInt32.toNat_add]
    omega
  · have h0 := hslot 1 0 (by omega) (show _ = 0 by omega)
    have h1 := hslot 0 1 (by omega) (show _ = 1 by omega)
    have hx := hlt (p - 0)
    have hy := hlt (p - 1)
    show (0 + history 0 + history 1).toNat = ((keptSamples oks).getD (p - 0) 0).toNat
      + (((keptSamples oks).getD (p - 1) 0).toNat + 0)
    rw [h0, h1, UInt32.toNat_add, UInt32.toNat_add]
    omega
  · have h0 := hslot 2 0 (by omega) (show _ = 0 by omega)
    have h1 := hslot 1 1 (by omega) (show _ = 1 by omega)
    have h2 := hslot 0 2 (by omega) (show _ = 2 by omega)
    have hx := hlt (p - 0)
    have hy := hlt (p - 1)
    have hz := hlt (p - 2)
    show (0 + history 0 + history 1 + history 2).toNat = ((keptSamples oks).getD (p - 0) 0).toNat
      + (((keptSamples oks).getD (p - 1) 0).toNat
        + (((keptSamples oks).getD (p - 2) 0).toNat + 0))
    rw [h0, h1, h2, UInt32.toNat_add, UInt32.toNat_add, UInt32.toNat_add]
    omega
  · have hback : ∀ j : Fin 4, history (slot p - j) = (keptSamples oks).getD (p - j) 0 := by
      intro j
      refine hslot j _ j.isLt ?_
      rw [Fin.sub_def]
      show _ = (4 - j.val + p % 4) % 4
      omega
    have hb : ∀ k : Fin 4, (history k).toNat < 256 := by
      intro k
      have hk := hback (slot p - k)
      rw [sub_sub_cancel] at hk
      rw [hk]
      exact hlt _
    have hadd : (windowSum history 4).toNat = ∑ k : Fin 4, (history k).toNat := by
      have h0 := hb 0
      have h1 := hb 1
      have h2 := hb 2
      have h3 := hb 3
      show (0 + history 0 + history 1 + history 2 + history 3).toNat = _
      rw [Fin.sum_univ_four, UInt32.toNat_add, UInt32.toNat_add, UInt32.toNat_add, UInt32.toNat_add]
      omega
    rw [hadd, ← (Equiv.subLeft (slot p)).sum_comp, Fin.sum_univ_four]
    simp only [Equiv.subLeft_apply, hback]
    show _ = ((keptSamples oks).getD (p - 0) 0).toNat
      + (((keptSamples oks).getD (p - 1) 0).toNat + (((keptSamples oks).getD (p - 2) 0).toNat
        + (((keptSamples oks).getD (p - 3) 0).toNat + 0)))
    rw [Nat.add_zero, ← Nat.add_assoc, ← Nat.add_assoc]
    rfl

/-- What the processor computes from the window. -/
theorem Window.average {history : Fin 4 → UInt32} (h : Window (keptSamples oks) (p + 1) history) :
    windowSum history (min 4 ((p + 1) % 256))
        / (if min 4 ((p + 1) % 256) > 0 then UInt32.ofNat (min 4 ((p + 1) % 256)) else 1)
      = windowAverage (keptSamples oks) (p + 1) := by
  generalize hw : min 4 ((p + 1) % 256) = w
  have hsum := h.toNat_sum hw
  have hlt := (windowSum history w).toNat_lt
  have hw32 : w < 2 ^ 32 := by omega
  rw [← UInt32.toNat_inj, UInt32.toNat_div, windowAverage, hw, meanOfLast, Nat.add_sub_cancel,
    ← hsum, UInt32.toNat_ofNat_of_lt' (lt_of_le_of_lt (Nat.div_le_self _ _) hlt)]
  split
  · rw [UInt32.toNat_ofNat_of_lt' hw32]
  · -- the window is empty
    obtain rfl : w = 0 := by omega
    simp [hsum]

end Samples

/-! ## The samples on their way -/

/-- What the lines with the statistics say: whatever went into the buffer of samples came out,
and each word dropped before was reported. -/
def Accounts (console : List Line) : Prop :=
  ∀ before put get drop peak after,
    console = before ++ .stats put get drop peak :: after →
      put = get ∧ drop = UInt32.ofNat (4 * before.count .rawFull)

/-- Each sample was kept or dropped as `oks` says, `p` of those that were kept are processed, and
`q` results printed. -/
structure Flow (oks : List Bool) (p q : Nat) (d : Data) : Prop where
  raw : Holds d.raw ((keptSamples oks).drop p) (keptSamples oks).length (oks.count false)
  proc : Holds d.proc ((averages (keptSamples oks) p).drop q) p 0
  seq : d.seq = UInt32.ofNat oks.length
  hlen : d.hlen = UInt8.ofNat p
  window : Window (keptSamples oks) p d.history
  received : d.received = UInt32.ofNat q
  processed : p ≤ (keptSamples oks).length
  printed : q ≤ p
  results : d.console.filterMap Line.result
    = (List.range q).map fun n => (windowAverage (keptSamples oks) (n + 1), UInt32.ofNat (n + 1))
  drops : d.console.count .rawFull = oks.count false
  noneFull : .procFull ∉ d.console
  accounts : Accounts d.console

theorem Accounts.concat {console : List Line} (h : Accounts console) {l : Line}
    (hl : ∀ put get drop peak, l = .stats put get drop peak →
      put = get ∧ drop = UInt32.ofNat (4 * console.count .rawFull)) :
    Accounts (console ++ [l]) := by
  intro before put get drop peak after heq
  rcases List.eq_nil_or_concat after with rfl | ⟨after, x, rfl⟩
  · obtain ⟨rfl, hlast⟩ := List.append_inj' heq rfl
    exact hl put get drop peak (List.singleton_inj.mp hlast)
  · rw [List.concat_eq_append, ← List.cons_append, ← List.append_assoc] at heq
    exact h before put get drop peak after (List.append_inj' heq rfl).1

section Steps

variable {oks : List Bool} {p q : Nat} {d : Data}

/-- More samples leave the results so far as they are. -/
theorem Flow.results_append {ys : List UInt32} (h : Flow oks p q d) :
    (List.range q).map (fun n =>
        (windowAverage (keptSamples oks ++ ys) (n + 1), UInt32.ofNat (n + 1)))
      = (List.range q).map fun n =>
        (windowAverage (keptSamples oks) (n + 1), UInt32.ofNat (n + 1)) := by
  refine List.map_congr_left fun n hn => ?_
  have hn' := List.mem_range.mp hn
  have hp := h.processed
  have hq := h.printed
  rw [windowAverage_append (by omega)]

/-- A sample goes into the buffer, or is reported as dropped. -/
theorem Flow.sample (cfg : Config) (clock : Nat → UInt32) (h : Flow oks p q d) :
    ∃ ok, Flow (oks ++ [ok]) p q (sample cfg clock d) := by
  have hval : d.seq * 7 &&& 0xFF = sampleAt oks.length := by rw [h.seq, sample_value]
  have hseq : d.seq + 1 = UInt32.ofNat (oks.length + 1) := by
    rw [h.seq, UInt32.ofNat_add]
    rfl
  by_cases hfit : ((keptSamples oks).drop p).length < 16
  · obtain ⟨hn, hraw⟩ := h.raw.put (sampleAt oks.length) hfit
    rw [← List.drop_append_of_le_length h.processed] at hraw
    refine ⟨true, ?_⟩
    have hkept := keptSamples_concat oks true
    have hd : Pipeline.sample cfg clock d = { d with
        raw := (rbPutBuf d.raw (wordBytes (sampleAt oks.length)) 4).2
        seq := d.seq + 1
        deadline := clock d.reads + msToTicks cfg samplePeriodMs
        reads := d.reads + 1 } := by
      simp only [Pipeline.sample, hval, if_neg hn, Data.tickGet]
    rw [hd]
    refine ⟨?_, ?_, ?_, h.hlen, ?_, h.received, ?_, h.printed, ?_, ?_, h.noneFull, h.accounts⟩
    · simpa [hkept] using hraw
    · rw [hkept, averages_append h.processed]
      exact h.proc
    · simpa using hseq
    · rw [hkept]
      exact h.window.append h.processed
    · rw [hkept, List.length_append]
      exact h.processed.trans (Nat.le_add_right _ _)
    · rw [hkept, h.results_append]
      exact h.results
    · simpa using h.drops
  · obtain ⟨hn, hraw⟩ := h.raw.drop (sampleAt oks.length) hfit
    refine ⟨false, ?_⟩
    have hkept : keptSamples (oks ++ [false]) = keptSamples oks := by
      rw [keptSamples_concat]
      exact List.append_nil _
    have hd : Pipeline.sample cfg clock d = { d with
        raw := (rbPutBuf d.raw (wordBytes (sampleAt oks.length)) 4).2
        seq := d.seq + 1
        deadline := clock d.reads + msToTicks cfg samplePeriodMs
        reads := d.reads + 1
        console := d.console ++ [.rawFull] } := by
      simp only [Pipeline.sample, hval, if_pos hn, Data.tickGet, Data.print]
    rw [hd]
    refine ⟨?_, ?_, ?_, h.hlen, ?_, h.received, ?_, h.printed, ?_, ?_, ?_, ?_⟩
    · simpa [hkept] using hraw
    · exact hkept ▸ h.proc
    · simpa using hseq
    · exact hkept ▸ h.window
    · exact hkept ▸ h.processed
    · rw [hkept, ← h.results]
      simp [Line.result]
    · simpa using h.drops
    · simpa using h.noneFull
    · exact h.accounts.concat (by simp)

/-- A sample comes out of the buffer, and the result has room. -/
theorem Flow.process (h : Flow oks p q d) (hp : p < (keptSamples oks).length)
    (hfit : p < q + 16) : Flow oks (p + 1) q (process d) := by
  have hdrop : (keptSamples oks).drop p
      = (keptSamples oks).getD p 0 :: (keptSamples oks).drop (p + 1) := by
    rw [List.drop_eq_getElem_cons hp, List.getD_eq_getElem _ _ hp]
  obtain ⟨hword, hraw⟩ := (hdrop ▸ h.raw).get
  have hlen : (d.hlen + 1).toNat = (p + 1) % 256 := by
    rw [h.hlen, UInt8.toNat_add, UInt8.toNat_ofNat']
    show (p % 2 ^ 8 + 1) % 2 ^ 8 = _
    omega
  have hslot : slot d.hlen.toNat = slot p := by
    rw [h.hlen, UInt8.toNat_ofNat']
    exact Fin.ext (by simp [slot, Fin.ofNat])
  have hwindow := h.window.push
  have havg := hwindow.average
  have hroom : ((averages (keptSamples oks) p).drop q).length < 16 := by
    rw [List.length_drop, length_averages]
    omega
  obtain ⟨hn, hproc⟩ := h.proc.put (windowAverage (keptSamples oks) (p + 1)) hroom
  rw [← List.drop_append_of_le_length (by simpa using h.printed), ← averages_succ] at hproc
  have hd : Pipeline.process d = { d with
      raw := (rbGetBuf d.raw 4).2.2
      history := Function.update d.history (slot p) ((keptSamples oks).getD p 0)
      hlen := d.hlen + 1
      proc := (rbPutBuf d.proc (wordBytes (windowAverage (keptSamples oks) (p + 1))) 4).2
      produced := d.produced + 1 } := by
    simp only [Pipeline.process, hword, hslot, hlen, havg, if_neg hn]
  rw [hd]
  refine ⟨hraw, hproc, h.seq, ?_, hwindow, h.received, hp, h.printed.trans (Nat.le_succ p),
    h.results, h.drops, h.noneFull, h.accounts⟩
  rw [h.hlen, UInt8.ofNat_add]
  rfl

/-- The account of the buffer of samples, when that is empty. -/
theorem Flow.printStats {rs : RbStats} (h : Flow oks p q d) (hp : p = (keptSamples oks).length)
    (hrs : rbGetStats d.raw = some rs) :
    Flow oks p q (d.print (.stats rs.putCount rs.getCount rs.dropCount rs.peakUsed)) := by
  have hraw := h.raw
  rw [List.drop_of_length_le hp.ge] at hraw
  obtain ⟨hget, hdrop⟩ := hraw.stats hrs
  refine ⟨h.raw, h.proc, h.seq, h.hlen, h.window, h.received, h.processed, h.printed, ?_, ?_, ?_,
    h.accounts.concat ?_⟩
  · rw [← h.results]
    simp [Data.print, Line.result]
  · rw [← h.drops]
    simp [Data.print]
  · simpa [Data.print] using h.noneFull
  · intro put get drop peak heq
    obtain ⟨rfl, rfl, rfl, rfl⟩ := Line.stats.inj heq
    exact ⟨hget, by rw [hdrop, h.drops]⟩

/-- A result is printed, and every tenth time the account. -/
theorem Flow.printResult (h : Flow oks p q d) (hp : p = (keptSamples oks).length) (hq : q < p) :
    Flow oks p (q + 1) (printResult d) := by
  have hdrop : (averages (keptSamples oks) p).drop q
      = windowAverage (keptSamples oks) (q + 1) :: (averages (keptSamples oks) p).drop (q + 1) := by
    rw [List.drop_eq_getElem_cons (by simpa using hq)]
    simp [averages]
  obtain ⟨hword, hproc⟩ := (hdrop ▸ h.proc).get
  have hrec : d.received + 1 = UInt32.ofNat (q + 1) := by
    rw [h.received, UInt32.ofNat_add]
    rfl
  have hline : Flow oks p (q + 1) { d with
      proc := (rbGetBuf d.proc 4).2.2
      received := d.received + 1
      console := d.console ++
        [.avg (windowAverage (keptSamples oks) (q + 1)) (d.received + 1)] } := by
    refine ⟨h.raw, hproc, h.seq, h.hlen, h.window, hrec, h.processed, hq, ?_, ?_, ?_,
      h.accounts.concat (by simp)⟩
    · simp [h.results, Line.result, hrec, List.range_succ]
    · rw [← h.drops]
      simp
    · simpa using h.noneFull
  simp only [Pipeline.printResult, hword]
  split
  · exact hline
  · rename_i rs hrs
    split
    · exact hline.printStats hp hrs
    · exact hline

end Steps

/-! ## The stages -/

section Stages

variable {cfg : Config} {clock : Nat → UInt32}

/-- What the stages rely on: all samples kept so far are printed; or processed, before the printer
runs. -/
def Ready : Nat → Data → Prop
  | 1, d => ∃ oks q, Flow oks q q d
  | 2, d => ∃ oks q, Flow oks (keptSamples oks).length q d
  | _, d => ∃ oks, Flow oks (keptSamples oks).length (keptSamples oks).length d

/-- The processor has room for the results of the samples it finds. -/
def Room (d : Data) : Prop :=
  ∃ oks p q, Flow oks p q d ∧ (keptSamples oks).length ≤ q + 16

/-- Nothing but the clock has been read. -/
theorem Flow.reads {oks : List Bool} {p q : Nat} {d : Data} (h : Flow oks p q d) (n : Nat) :
    Flow oks p q { d with reads := n } :=
  ⟨h.raw, h.proc, h.seq, h.hlen, h.window, h.received, h.processed, h.printed, h.results, h.drops,
    h.noneFull, h.accounts⟩

/-- The buffer of samples is empty when all are processed. -/
theorem Flow.raw_ready {oks : List Bool} {p q : Nat} {d : Data} (h : Flow oks p q d) :
    rbUsed d.raw ≥ 4 ↔ p < (keptSamples oks).length := by
  rw [h.raw.ready, Ne, List.drop_eq_nil_iff, not_le]

theorem Flow.proc_ready {oks : List Bool} {p q : Nat} {d : Data} (h : Flow oks p q d) :
    rbUsed d.proc ≥ 4 ↔ q < p := by
  rw [h.proc.ready, Ne, List.drop_eq_nil_iff, length_averages, not_le]

theorem room_of_ready {d : Data} (h : Ready 1 d) : Room d := by
  obtain ⟨oks, q, h⟩ := h
  refine ⟨oks, q, q, h, ?_⟩
  have := h.raw.length_le
  rw [List.length_drop] at this
  omega

theorem ready_succ {d : Data} (h : Ready 0 d) : Ready 1 d := by
  obtain ⟨oks, h⟩ := h
  exact ⟨oks, _, h⟩

theorem samplerJob_wellFormed : WellFormed slotCo (samplerJob cfg clock) :=
  ⟨by simp [samplerJob, lines], by simp [samplerJob, children], by simp [samplerJob, Nested]⟩

theorem processorJob_wellFormed : WellFormed slotCo processorJob :=
  ⟨by simp [processorJob, lines], by simp [processorJob, children], by simp [processorJob, Nested]⟩

theorem printerJob_wellFormed : WellFormed slotCo printerJob :=
  ⟨by simp [printerJob, lines], by simp [printerJob, children], by simp [printerJob, Nested]⟩

theorem samplerJob_kept :
    Kept (Ready 0) (CoroSys.Passes Ready 0) (some (samplerJob cfg clock, .stop)) := by
  refine Triple.kept (.strengthen ?_ fun m hm => ready_succ hm)
  refine Triple.loop (Ready 1) ?_ (fun m hm _ => hm) (fun m hm h => by cases h)
  refine Triple.seq (Ready 1) (Triple.act fun m hm => ?_) (Triple.await ?_ ?_ ?_)
  · obtain ⟨oks, q, h⟩ := hm
    obtain ⟨ok, h⟩ := h.sample cfg clock
    exact ⟨_, q, h⟩
  · intro m hm _
    obtain ⟨oks, q, h⟩ := hm
    exact ⟨oks, q, h.reads _⟩
  · intro m hm _
    obtain ⟨oks, q, h⟩ := hm
    exact ⟨rfl, oks, q, h.reads _⟩
  · exact fun m hm => ready_succ hm

theorem processorJob_kept :
    Kept (Ready 1) (CoroSys.Passes Ready 1) (some (processorJob, .stop)) := by
  refine Triple.kept (.strengthen ?_ fun m hm => room_of_ready hm)
  refine Triple.loop Room ?_ (fun m hm _ => hm) (fun m hm h => by cases h)
  refine Triple.seq (fun m => Room m ∧ rbUsed m.raw ≥ 4)
    (Triple.await ?_ ?_ ?_) (Triple.act fun m hm => ?_)
  · exact fun m hm h => ⟨hm, of_decide_eq_true h⟩
  · intro m hm hwait
    obtain ⟨oks, p, q, h, -⟩ := hm
    have hp : p = (keptSamples oks).length := by
      have := h.processed
      have := mt h.raw_ready.mpr (of_decide_eq_false hwait)
      omega
    exact ⟨rfl, oks, q, hp ▸ h⟩
  · exact fun m hm => room_of_ready hm
  · obtain ⟨⟨oks, p, q, h, hroom⟩, hready⟩ := hm
    have hp := h.raw_ready.mp hready
    exact ⟨oks, p + 1, q, h.process hp (by omega), hroom⟩

theorem printerJob_kept :
    Kept (Ready 2) (CoroSys.Passes Ready 2) (some (printerJob, .stop)) := by
  refine Triple.kept (Triple.loop (Ready 2) ?_ (fun m hm _ => hm) (fun m hm h => by cases h))
  refine Triple.seq (fun m => Ready 2 m ∧ rbUsed m.proc ≥ 4)
    (Triple.await ?_ ?_ ?_) (Triple.act fun m hm => ?_)
  · exact fun m hm h => ⟨hm, of_decide_eq_true h⟩
  · intro m hm hwait
    obtain ⟨oks, q, h⟩ := hm
    have hq : q = (keptSamples oks).length := by
      have := h.printed
      have := mt h.proc_ready.mpr (of_decide_eq_false hwait)
      omega
    exact ⟨rfl, oks, hq ▸ h⟩
  · exact fun m hm => hm
  · obtain ⟨⟨oks, q, h⟩, hready⟩ := hm
    exact ⟨oks, q + 1, h.printResult rfl (h.proc_ready.mp hready)⟩

end Stages

/-! ## The task -/

section Task

variable {N : Nat} {cfg : Config} {clock : Nat → UInt32}

/-- A job goes into the first slot that is free. -/
theorem submit_first {s : JobSched N} {i : Fin N} (hi : (s.jobs i).state = .idle)
    (hbefore : ∀ j < i, (s.jobs j).state ≠ .idle) (fn ctx : Nat) (prio : UInt8) :
    (s.submit fn ctx prio).2 = some i ∧ (s.submit fn ctx prio).1.jobs
      = Function.update s.jobs i ⟨fn, ctx, 0, .ready, prio, 0⟩ := by
  have hfind : (List.finRange N).find? (fun i => (s.jobs i).state = .idle) = some i := by
    refine List.find?_eq_some_iff_getElem.mpr ⟨by simp [hi], i.val, by simp, by simp, ?_⟩
    intro j hj
    simpa using hbefore ⟨j, by omega⟩ hj
  unfold JobSched.submit
  rw [hfind]
  exact ⟨rfl, rfl⟩

/-- The jobs of the task, in the order in which they are submitted. -/
def taskJob : Nat → Job
  | 0 => ⟨0, 0, 0, .ready, 20, 0⟩
  | 1 => ⟨1, 1, 0, .ready, 15, 0⟩
  | 2 => ⟨2, 2, 0, .ready, 10, 0⟩
  | _ => ⟨0, 0, 0, .idle, 0, 0⟩

/-- The first `k` jobs are submitted, and none has run. -/
structure Submitted (s : CoroSys N Data) (k : Nat) : Prop where
  pc : s.sys.pc = .idle
  jobs : ∀ i, s.sys.sched.jobs i = if i.val < k then taskJob i else ⟨0, 0, 0, .idle, 0, 0⟩
  children : ∀ i x, s.children i x = 0

theorem Submitted.submit {s : CoroSys N Data} {k : Nat} (h : Submitted s k) (hk : k < N)
    (hready : ∀ j < k, (taskJob j).state ≠ .idle) {fn ctx : Nat} {prio : UInt8}
    (hjob : taskJob k = ⟨fn, ctx, 0, .ready, prio, 0⟩) :
    Submitted (submit s fn ctx prio) (k + 1) ∧ (submit s fn ctx prio).mem = s.mem := by
  have hidle : (s.sys.sched.jobs ⟨k, hk⟩).state = .idle := by simp [h.jobs]
  have hbefore : ∀ j < (⟨k, hk⟩ : Fin N), (s.sys.sched.jobs j).state ≠ .idle := by
    intro j hj
    have hj : j.val < k := hj
    rw [h.jobs, if_pos hj]
    exact hready j hj
  obtain ⟨hslot, hjobs⟩ := submit_first hidle hbefore fn ctx prio
  have hcan : s.sys.pc.CanCall := by simp [h.pc, JobPc.CanCall]
  refine ⟨⟨?_, fun i => ?_, ?_⟩, ?_⟩
  · simp only [Pipeline.submit, JobSys.step, if_pos hcan, hslot]
    exact h.pc
  · simp only [Pipeline.submit, JobSys.step, if_pos hcan, hslot, hjobs]
    by_cases hi : i = ⟨k, hk⟩
    · subst hi
      simp [hjob]
    · have hne : i.val ≠ k := fun he => hi (Fin.ext he)
      rw [Function.update_of_ne hi, h.jobs]
      simp only [show i.val < k + 1 ↔ i.val < k by omega]
  · simpa [Pipeline.submit, JobSys.step, hcan, hslot] using h.children
  · simp [Pipeline.submit, JobSys.step, hcan, hslot]

theorem flow_init (withStats : Bool) :
    Flow [] 0 0 ((Data.init withStats).print (.started samplePeriodMs 4)) := by
  refine ⟨holds_init withStats, holds_init withStats, rfl, rfl, ?_, rfl, le_rfl, le_rfl, rfl, ?_,
    ?_, ?_⟩
  · intro j _ hj
    omega
  · simp [Data.print, Data.init]
  · simp [Data.print, Data.init]
  · intro before put get drop peak after heq
    rcases before with _ | ⟨l, before⟩ <;> simp [Data.print, Data.init] at heq

theorem pipelineTask_submitted (hN : 3 ≤ N) (withStats : Bool) :
    Submitted (pipelineTask N withStats) 3 ∧ Flow [] 0 0 (pipelineTask N withStats).mem := by
  let s₀ : CoroSys N Data := {
    sys := ⟨JobSched.init N, .idle, 0, fun _ => none, none, 0, 0, 0⟩
    mem := Data.init withStats
    children := fun _ _ => 0
    given := fun _ => none
    log := [] }
  have h₀ : Submitted s₀ 0 := ⟨rfl, fun _ => rfl, fun _ _ => rfl⟩
  have hready : ∀ j < 3, (taskJob j).state ≠ .idle := by decide
  obtain ⟨h₁, hm₁⟩ := h₀.submit (by omega) (fun j hj => hready j (by omega)) (k := 0) rfl
  obtain ⟨h₂, hm₂⟩ := h₁.submit (by omega) (fun j hj => hready j (by omega)) rfl
  obtain ⟨h₃, hm₃⟩ := h₂.submit (by omega) (fun j hj => hready j (by omega)) rfl
  refine ⟨⟨h₃.pc, h₃.jobs, h₃.children⟩, ?_⟩
  have hmem : (pipelineTask N withStats).mem
      = (Data.init withStats).print (.started samplePeriodMs 4) :=
    congrArg (Data.print · _) (hm₃.trans (hm₂.trans hm₁))
  exact hmem ▸ flow_init withStats

/-- A job that has not run. -/
theorem stage_submitted {s : CoroSys N Data} (h : Submitted s 3) {i : Fin N} (hi : i.val < 3) :
    CoroSys.Stage (code cfg clock) Ready s i := by
  have hjob := h.jobs i
  rw [if_pos hi] at hjob
  have hline : s.lines i slotCo = 0 := by
    rw [CoroSys.lines, Function.update_self, hjob]
    interval_cases i.val <;> rfl
  have hbody : ∀ body : Body Data, code cfg clock (taskJob i).fn (taskJob i).ctx = body →
      WellFormed slotCo body → Kept (Ready i) (CoroSys.Passes Ready i) (some (body, .stop)) →
      CoroSys.Stage (code cfg clock) Ready s i := by
    intro body hcode hw hkept
    unfold CoroSys.Stage
    rw [hjob, hcode]
    exact ⟨hw, _, .start hline, hkept⟩
  generalize hk : i.val = k at hi hbody
  interval_cases k
  · exact hbody _ rfl samplerJob_wellFormed samplerJob_kept
  · exact hbody _ rfl processorJob_wellFormed processorJob_kept
  · exact hbody _ rfl printerJob_wellFormed printerJob_kept

theorem pipelineTask_staged (cfg : Config) (clock : Nat → UInt32) (hN : 3 ≤ N) (withStats : Bool) :
    CoroSys.Staged (code cfg clock) 3 Ready (pipelineTask N withStats) := by
  obtain ⟨h, hflow⟩ := pipelineTask_submitted hN withStats
  refine ⟨fun i hi => stage_submitted h hi, fun i hi => ?_, fun i j hij hj => ?_, ?_⟩
  · rw [h.jobs, if_neg (by omega)]
  · have hij : i.val < j.val := hij
    rw [h.jobs, h.jobs, if_pos hj, if_pos (by omega)]
    generalize i.val = a at hij ⊢
    generalize j.val = b at hij hj ⊢
    interval_cases b <;> interval_cases a <;> decide
  · simp only [CoroSys.Turn, h.pc]
    refine ⟨0, Or.inl rfl, fun i hi => ⟨fun h0 => by omega, fun _ => ⟨?_, by simp⟩⟩, [], hflow⟩
    rw [h.jobs, if_pos hi]
    generalize i.val = a at hi ⊢
    interval_cases a <;> rfl

theorem Ready.flow {k : Nat} {d : Data} (h : Ready k d) : ∃ oks p q, Flow oks p q d := by
  rcases k with _ | _ | _ | k
  · obtain ⟨oks, h⟩ := h
    exact ⟨oks, _, _, h⟩
  · obtain ⟨oks, q, h⟩ := h
    exact ⟨oks, q, q, h⟩
  · obtain ⟨oks, q, h⟩ := h
    exact ⟨oks, _, q, h⟩
  · obtain ⟨oks, h⟩ := h
    exact ⟨oks, _, _, h⟩

/-- Wherever the task is, the samples are on their way. -/
theorem flow_of_turn {s : CoroSys N Data} (h : CoroSys.Turn 3 Ready s) :
    ∃ oks p q, Flow oks p q s.mem ∧ (s.sys.pc = .idle → q = (keptSamples oks).length) := by
  have hbusy : s.sys.pc ≠ .idle → (∃ oks p q, Flow oks p q s.mem) →
      ∃ oks p q, Flow oks p q s.mem ∧ (s.sys.pc = .idle → q = (keptSamples oks).length) := by
    intro hpc hflow
    obtain ⟨oks, p, q, h⟩ := hflow
    exact ⟨oks, p, q, h, fun hidle => absurd hidle hpc⟩
  cases hpc : s.sys.pc with
  | idle =>
      simp only [CoroSys.Turn, hpc] at h
      obtain ⟨-, -, -, oks, h⟩ := h
      exact ⟨oks, _, _, h, fun _ => rfl⟩
  | ready ran c =>
      simp only [CoroSys.Turn, hpc] at h
      obtain ⟨k, -, -, h⟩ := h
      exact hpc ▸ hbusy (by simp [hpc]) h.flow
  | inReady ran c i =>
      simp only [CoroSys.Turn, hpc] at h
      exact hpc ▸ hbusy (by simp [hpc]) h.2.1.flow
  | blocked i c =>
      simp only [CoroSys.Turn, hpc] at h
      exact hpc ▸ hbusy (by simp [hpc]) h.2.flow
  | inBlocked c i =>
      simp only [CoroSys.Turn, hpc] at h
      exact hpc ▸ hbusy (by simp [hpc]) h.2.2.flow

end Task

/--
**What the pipeline prints.** However the clock runs, and wherever the task is: each sample was kept
or reported as dropped; no result was dropped; the results printed are the averages over the window
of the samples kept, in their order, each once and with its number; these are the moving averages
but for the three samples behind every 256th, and that one itself; and whatever went into the buffer
of samples had come out again whenever its statistics were printed. Outside of `vibe_sched_run` all
results are printed.
-/
theorem async_pipeline (cfg : Config) (clock : Nat → UInt32) {N : Nat} (hN : 3 ≤ N) (hmax : N ≤ 64)
    (withStats : Bool) {s : CoroSys N Data}
    (h : Relation.ReflTransGen (CoroSys.Ticks (code cfg clock)) (pipelineTask N withStats) s) :
    ∃ (oks : List Bool) (q : Nat), q ≤ (keptSamples oks).length
      ∧ s.mem.seq = UInt32.ofNat oks.length
      ∧ s.mem.console.count .rawFull = oks.count false
      ∧ .procFull ∉ s.mem.console
      ∧ s.mem.console.filterMap Line.result = (List.range q).map (fun n =>
        (windowAverage (keptSamples oks) (n + 1), UInt32.ofNat (n + 1)))
      ∧ (∀ n, n < 256 ∨ 4 ≤ n % 256 →
        windowAverage (keptSamples oks) n = movingAverage (keptSamples oks) n)
      ∧ Accounts s.mem.console
      ∧ (s.sys.pc = .idle → q = (keptSamples oks).length) := by
  have hstaged := (pipelineTask_staged cfg clock hN withStats).ticks hmax hN
    rfl h
  obtain ⟨oks, p, q, hflow, hidle⟩ := flow_of_turn hstaged.turn
  exact ⟨oks, q, hflow.printed.trans hflow.processed, hflow.seq, hflow.drops, hflow.noneFull,
    hflow.results, fun _ hn => windowAverage_eq hn, hflow.accounts, hidle⟩

/-! ### The first sample -/

section First

variable {m : Data} {ls : Lines}

theorem sampler_returns (cfg : Config) (clock : Nat → UInt32) (h : ls slotCo = 0)
    (hdue : (sampleDue clock (sample cfg clock m)).2 = false) :
    ∃ ls', Returns slotCo (samplerJob cfg clock) ls m .blocked ls'
      (sampleDue clock (sample cfg clock m)).1 := by
  have hinv : Async.Resumes (some (samplerJob cfg clock, .stop)) m .blocked
      (some (.await 113 (sampleDue clock), .loop forever
        (.seq (.act (sample cfg clock)) (.await 113 (sampleDue clock))) .stop))
      (sampleDue clock (sample cfg clock m)).1 := by
    refine StateTransition.mem_eval.mpr ⟨?_, rfl⟩
    refine .head rfl (.head rfl (.head rfl (.head rfl (.head ?_ .refl))))
    simp [step, next, forever, hdue, Cont.report, report]
  obtain ⟨ls', -, hret⟩ := returns_of_invoke samplerJob_wellFormed (.start h) hinv
  exact ⟨ls', hret⟩

theorem step_await {line : Nat} {c : Data → Data × Bool} {k : Cont Data Nat (Nat × Nat)}
    (h : (c m).2 = true) :
    step (.run (.await line c) k m) = some (.run .skip k (c m).1) := by
  simp [step, h]

/-- A stage that finds one word. -/
theorem poll_returns {line : Nat} {ready : Data → Bool} {f : Data → Data} (h : ls slotCo = 0)
    (hw : WellFormed slotCo (.loop forever (.seq (.await line fun d => (d, ready d)) (.act f))))
    (hready : ready m = true) (hdone : ready (f m) = false) :
    ∃ ls', Returns slotCo (.loop forever (.seq (.await line fun d => (d, ready d)) (.act f))) ls m
      .blocked ls' (f m) := by
  have hinv : Async.Resumes
      (some (.loop forever (.seq (.await line fun d => (d, ready d)) (.act f)), .stop)) m .blocked
      (some (.await line fun d => (d, ready d), .seq (.act f) (.loop forever
        (.seq (.await line fun d => (d, ready d)) (.act f)) .stop))) (f m) := by
    refine StateTransition.mem_eval.mpr ⟨?_, rfl⟩
    refine .head rfl (.head rfl (.head (step_await hready) (.head rfl (.head rfl (.head rfl
      (.head rfl (.head rfl (.head ?_ .refl))))))))
    simp [step, forever, hdone, Cont.report, report]
  obtain ⟨ls', -, hret⟩ := returns_of_invoke hw (.start h) hinv
  exact ⟨ls', hret⟩

end First

/-- A tick each millisecond. -/
def stillCfg : Config := ⟨1000, 10, false⟩

theorem async_pipeline_first : ∃ s : CoroSys 3 Data,
    s.mem.console = [.started 100 4, .avg 0 1] ∧
    ∃ (oks : List Bool) (q : Nat), q ≤ (keptSamples oks).length
      ∧ s.mem.seq = UInt32.ofNat oks.length
      ∧ s.mem.console.count .rawFull = oks.count false
      ∧ .procFull ∉ s.mem.console
      ∧ s.mem.console.filterMap Line.result = (List.range q).map (fun n =>
        (windowAverage (keptSamples oks) (n + 1), UInt32.ofNat (n + 1)))
      ∧ (∀ n, n < 256 ∨ 4 ≤ n % 256 →
        windowAverage (keptSamples oks) n = movingAverage (keptSamples oks) n)
      ∧ Accounts s.mem.console
      ∧ (s.sys.pc = .idle → q = (keptSamples oks).length) := by
  let ls : Lines := Function.update (fun _ => 0) slotCo 0
  have hls : ls slotCo = 0 := rfl
  obtain ⟨ls₀, h₀⟩ := sampler_returns (m := (pipelineTask 3 true).mem) stillCfg (fun _ => 0) hls
    (by decide)
  obtain ⟨ls₁, h₁⟩ := poll_returns (m := (sampleDue (fun _ => 0) (sample stillCfg (fun _ => 0)
    (pipelineTask 3 true).mem)).1) hls processorJob_wellFormed (by decide) (by decide)
  obtain ⟨ls₂, h₂⟩ := poll_returns (m := process (sampleDue (fun _ => 0) (sample stillCfg
    (fun _ => 0) (pipelineTask 3 true).mem)).1) hls printerJob_wellFormed (by decide) (by decide)
  have hrun : Relation.ReflTransGen (CoroSys.Ticks (code stillCfg fun _ => 0))
    (pipelineTask 3 true) _ := .single ⟨.run rfl, by intro h; cases h⟩
  have hsampler := (hrun.tail ⟨.round rfl, by intro h; cases h⟩).tail
    ⟨.ret (i := 0) (n := 0) rfl rfl h₀ rfl, by intro h; cases h⟩
  have hprocessor := (hsampler.tail ⟨.round rfl, by intro h; cases h⟩).tail
    ⟨.ret (i := 1) (n := 1) rfl rfl h₁ rfl, by intro h; cases h⟩
  have hprinter := (hprocessor.tail ⟨.round rfl, by intro h; cases h⟩).tail
    ⟨.ret (i := 2) (n := 2) rfl rfl h₂ rfl, by intro h; cases h⟩
  exact ⟨_, rfl, async_pipeline stillCfg (fun _ => 0) (by decide) (by decide) true hprinter⟩

end VibeRtos.Pipeline
