import VibeRtos.Proof.PipeSteps
import VibeRtos.Lib.Runs

/-!
# A pipe is a byte stream

Whatever threads write and read, in whatever order their rounds come: the bytes
delivered and those still in the ring are, in order, the bytes accepted. What a call
has moved so far is a prefix of the caller's data, or of the caller's buffer. Both
calls count with a `size_t` and return an `int`, so what they return is the count as
long as it is below `2 ^ 31`.
-/

namespace VibeRtos

open Kernel ByteMem Fifo Runs

/-! ## The count as an `int` -/

/-- The conversion is the identity below `2 ^ 31` only. -/
theorem intOfSize_eq_iff (n : Nat) : intOfSize n = (n : Int) ↔ n < 2 ^ 31 := by
  unfold intOfSize
  rw [BitVec.toInt_eq_toNat_cond, BitVec.toNat_ofNat]
  split <;> omega

/-! ## The record of a call -/

/-- What a call has moved, as its program point knows it. -/
def PipePc.Record : PipePc → List UInt8 → Prop
  | .idle, _ => True
  | .writing src written _ _ _, b => b = src.take written ∧ written ≤ src.length
  | .reading _ dst readCnt _ _ _, b => b = slice dst 0 readCnt
  | .wrote src ret, b => ∃ n, n ≤ src.length ∧ b = src.take n ∧ ret = intOfSize n
  | .gotten dst ret, b => ∃ n, b = slice dst 0 n ∧ ret = intOfSize n

/-- What a caller may rely on: the bytes are a prefix of its data, or of its buffer, and a
call that has returned has returned their number. -/
def PipePc.Honest : PipePc → List UInt8 → Prop
  | .idle, _ => True
  | .writing src _ _ _ _, b => b <+: src
  | .reading _ dst _ _ _ _, b => b = slice dst 0 b.length
  | .wrote src ret, b => b <+: src ∧ ret = b.length
  | .gotten dst ret, b => b = slice dst 0 b.length ∧ ret = b.length

@[simp] theorem length_slice (m : Mem) (a n : Nat) : (slice m a n).length = n := by simp [slice]

theorem slice_add (m : Mem) (a k n : Nat) :
    slice m a (k + n) = slice m a k ++ slice m (a + k) n := by
  unfold slice
  rw [List.range_add, List.map_append, List.map_map]
  congr 1
  refine List.map_congr_left fun i _ => ?_
  rw [Function.comp_apply, Nat.add_assoc]

namespace PipeSys

/-- The stream of a pipe, and every call's share of it. -/
structure StreamLaw (s : PipeSys) : Prop where
  used : s.obj.p.used ≤ s.obj.p.size
  head : s.obj.p.head < s.obj.p.size
  tail : s.obj.p.tail < s.obj.p.size
  ring : s.obj.p.tail.toNat = (s.obj.p.head.toNat + s.obj.p.used.toNat) % s.obj.p.size.toNat
  stream : s.obj.accepted = s.obj.delivered ++ s.obj.p.contents
  calls : ∀ t, (s.pc t).Honest (s.obj.part t)

/-- A call that returns has moved fewer than `2 ^ 31` bytes. -/
def Counted (s : PipeSys) : PipeLabel → Prop
  | .act .round => ∀ self ∈ s.k.current, match s.pc self with
      | .writing src written timeout stopAt _ =>
          writeLeaves s.k s.obj.p src.length written timeout stopAt → written < 2 ^ 31
      | .reading len _ readCnt timeout stopAt _ =>
          readLeaves s.k s.obj.p len readCnt timeout stopAt → readCnt < 2 ^ 31
      | _ => True
  | _ => True

/-- What every step keeps, whatever the counts. -/
structure StreamInv (s : PipeSys) : Prop where
  ring : s.obj.p.Ring
  stream : s.obj.accepted = s.obj.delivered ++ s.obj.p.contents
  record : ∀ t, (s.pc t).Record (s.obj.part t)

variable {s s' : PipeSys} {l : PipeLabel} {cfg : Config} {self : Tid}

/-- With the invariant, the law is about the calls that have returned. -/
theorem StreamInv.law_iff (h : s.StreamInv) :
    s.StreamLaw ↔ ∀ t, (s.pc t).Honest (s.obj.part t) := by
  refine ⟨fun hl => hl.calls, fun hc => ⟨?_, ?_, ?_, h.ring.tail, h.stream, hc⟩⟩
  · exact UInt32.le_iff_toNat_le.mpr h.ring.used
  · exact UInt32.lt_iff_toNat_lt.mpr h.ring.head
  · rw [UInt32.lt_iff_toNat_lt, h.ring.tail]
    exact ringAt_lt h.ring.pos

/-- A section of `self`: what it must keep, and when the law still holds. -/
theorem StreamInv.section (self : Tid) (r : Kernel × PipeObj × PipePc) (h : s.StreamInv)
    (hring : r.2.1.p.Ring)
    (hstream : r.2.1.accepted = r.2.1.delivered ++ r.2.1.p.contents)
    (hother : ∀ t, t ≠ self → r.2.1.part t = s.obj.part t)
    (hrec : r.2.2.Record (r.2.1.part self)) :
    StreamInv (s.after self r)
      ∧ (s.StreamLaw → (StreamLaw (s.after self r) ↔ r.2.2.Honest (r.2.1.part self))) := by
  have hinv : StreamInv (s.after self r) := by
    refine ⟨hring, hstream, fun t => ?_⟩
    by_cases ht : t = self
    · subst ht
      rw [ObjectSys.after_pc_self]
      exact hrec
    · rw [ObjectSys.after_pc_of_ne _ _ ht]
      show (s.pc t).Record (r.2.1.part t)
      rw [hother t ht]
      exact h.record t
  refine ⟨hinv, fun hl => hinv.law_iff.trans ⟨fun hall => ?_, fun hself t => ?_⟩⟩
  · have hone := hall self
    rwa [ObjectSys.after_pc_self] at hone
  · by_cases ht : t = self
    · subst ht
      rwa [ObjectSys.after_pc_self]
    · rw [ObjectSys.after_pc_of_ne _ _ ht]
      show (s.pc t).Honest (r.2.1.part t)
      rw [hother t ht]
      exact hl.calls t

/-! ## The rounds -/

theorem StreamInv.writing {src : List UInt8} {written : Nat} {timeout stopAt : UInt32}
    {asleep : Bool} {r : Kernel × PipeObj × PipePc} (h : s.StreamInv)
    (hpc : s.pc self = .writing src written timeout stopAt asleep)
    (hr : pipeWriting s.k s.obj self src written timeout stopAt = r) :
    StreamInv (s.after self r) ∧ (s.StreamLaw → (StreamLaw (s.after self r)
      ↔ (writeLeaves s.k s.obj.p src.length written timeout stopAt → written < 2 ^ 31))) := by
  obtain ⟨hpart, hle⟩ : s.obj.part self = src.take written ∧ written ≤ src.length := by
    have hrec := h.record self
    rwa [hpc] at hrec
  have hlen : (src.take written).length = written := List.length_take_of_le hle
  have hcases := pipeWriting_cases h.ring s.k self src written timeout stopAt
  dsimp only at hcases
  rw [hr] at hcases
  rcases hcases with ⟨hgo, rfl⟩ | ⟨hgo, -, rfl⟩ | ⟨hgo, n, q, -, hmin, happ, -, -, rfl⟩
  · -- the return
    refine And.imp_right (fun hlaw hl => (hlaw hl).trans ?_)
      (h.section _ _ h.ring h.stream (fun _ _ => rfl) ⟨written, hle, hpart, rfl⟩)
    show (s.obj.part self <+: src ∧ intOfSize written = ((s.obj.part self).length : Int)) ↔ _
    rw [hpart, hlen, intOfSize_eq_iff]
    exact ⟨fun hc _ => hc.2, fun hc => ⟨List.take_prefix _ _, hc hgo⟩⟩
  · -- blocking moves no bytes
    refine And.imp_right
      (fun hlaw hl => (hlaw hl).trans ⟨fun _ hgo' => absurd hgo' hgo, fun _ => ?_⟩)
      (h.section _ _ ⟨h.ring.pos, h.ring.used, h.ring.head, h.ring.tail⟩ h.stream (fun _ _ => rfl)
        ⟨hpart, hle⟩)
    show s.obj.part self <+: src
    rw [hpart]
    exact List.take_prefix _ _
  · have hpart' : Function.update s.obj.part self
      (s.obj.part self ++ (src.drop written).take n) self
        = src.take (written + n) := by
      rw [Function.update_self, hpart, List.take_add]
    refine And.imp_right
      (fun hlaw hl => (hlaw hl).trans ⟨fun _ hgo' => absurd hgo' hgo, fun _ => ?_⟩)
      (h.section _ _ happ.ring ?_ (fun t ht => Function.update_of_ne ht _ _) ⟨hpart', by omega⟩)
    · show s.obj.accepted ++ (src.drop written).take n = s.obj.delivered ++ q.contents
      rw [happ.contents, h.stream, List.append_assoc]
    · show Function.update s.obj.part self _ self <+: src
      rw [hpart']
      exact List.take_prefix _ _

theorem StreamInv.reading {len : Nat} {dst : Mem} {readCnt : Nat} {timeout stopAt : UInt32}
    {asleep : Bool} {r : Kernel × PipeObj × PipePc} (h : s.StreamInv)
    (hpc : s.pc self = .reading len dst readCnt timeout stopAt asleep)
    (hr : pipeReading s.k s.obj self len dst readCnt timeout stopAt = r) :
    StreamInv (s.after self r) ∧ (s.StreamLaw → (StreamLaw (s.after self r)
      ↔ (readLeaves s.k s.obj.p len readCnt timeout stopAt → readCnt < 2 ^ 31))) := by
  have hpart : s.obj.part self = slice dst 0 readCnt := by
    have hrec := h.record self
    rwa [hpc] at hrec
  have hcases := pipeReading_cases h.ring s.k self len dst readCnt timeout stopAt
  dsimp only at hcases
  rw [hr] at hcases
  rcases hcases with
    ⟨hgo, rfl⟩ | ⟨hgo, -, rfl⟩ | ⟨hgo, n, q, dst', -, -, hdrop, hslice, hkeep, -, -, rfl⟩
  · refine And.imp_right (fun hlaw hl => (hlaw hl).trans ?_)
      (h.section _ _ h.ring h.stream (fun _ _ => rfl) ⟨readCnt, hpart, rfl⟩)
    show (s.obj.part self = slice dst 0 (s.obj.part self).length
      ∧ intOfSize readCnt = ((s.obj.part self).length : Int)) ↔ _
    rw [hpart, length_slice, intOfSize_eq_iff]
    exact ⟨fun hc _ => hc.2, fun hc => ⟨rfl, hc hgo⟩⟩
  · refine And.imp_right
      (fun hlaw hl => (hlaw hl).trans ⟨fun _ hgo' => absurd hgo' hgo, fun _ => ?_⟩)
      (h.section _ _ ⟨h.ring.pos, h.ring.used, h.ring.head, h.ring.tail⟩ h.stream (fun _ _ => rfl)
        hpart)
    show s.obj.part self = slice dst 0 (s.obj.part self).length
    rw [hpart, length_slice]
  · have hpart' : Function.update s.obj.part self (s.obj.part self ++ slice dst' readCnt n) self
        = slice dst' 0 (readCnt + n) := by
      rw [Function.update_self, hpart, ← hkeep, slice_add, Nat.zero_add]
    refine And.imp_right
      (fun hlaw hl => (hlaw hl).trans ⟨fun _ hgo' => absurd hgo' hgo, fun _ => ?_⟩)
      (h.section _ _ hdrop.ring ?_ (fun t ht => Function.update_of_ne ht _ _) hpart')
    · -- the bytes stored are the oldest of the ring
      show s.obj.accepted = s.obj.delivered ++ slice dst' readCnt n ++ q.contents
      rw [hslice, List.append_assoc, ← hdrop.contents]
      exact h.stream
    · show Function.update s.obj.part self _ self
        = slice dst' 0 (Function.update s.obj.part self _ self).length
      rw [hpart', length_slice]

/-! ## Steps and runs -/

/-- The beginning of a call. -/
theorem StreamInv.call (self : Tid) (p' : PipePc) (h : s.StreamInv) (hrec : p'.Record [])
    (hhon : p'.Honest []) :
    let r := (s.k, { s.obj with part := Function.update s.obj.part self [] }, p')
    StreamInv (s.after self r) ∧ (s.StreamLaw → StreamLaw (s.after self r)) := by
  intro r
  have hself : r.2.1.part self = [] := Function.update_self _ _ _
  obtain ⟨hinv, hlaw⟩ := h.section self r h.ring h.stream
    (fun t ht => Function.update_of_ne ht _ _) (by rw [hself]; exact hrec)
  exact ⟨hinv, fun hl => (hlaw hl).mpr (by rw [hself]; exact hhon)⟩

/-- One step keeps the invariant, and the law exactly if a call that returns is counted. -/
theorem StreamInv.step (h : s.StreamInv) (hs : s.step cfg l = some s') :
    s'.StreamInv ∧ (s.StreamLaw → (s'.StreamLaw ↔ s.Counted l)) := by
  cases l with
  | dispatch t =>
      obtain ⟨-, rfl⟩ := ObjectSys.dispatch_eq_some hs
      exact ⟨⟨h.ring, h.stream, h.record⟩, fun hl => ⟨fun _ => trivial,
        fun _ => ⟨hl.used, hl.head, hl.tail, hl.ring, hl.stream, hl.calls⟩⟩⟩
  | tick =>
      obtain rfl := Option.some.inj hs
      exact ⟨⟨h.ring, h.stream, h.record⟩, fun hl => ⟨fun _ => trivial,
        fun _ => ⟨hl.used, hl.head, hl.tail, hl.ring, hl.stream, hl.calls⟩⟩⟩
  | isr i => exact i.elim
  | act a =>
      obtain ⟨self, r, hself, -, hr, rfl⟩ := ObjectSys.act_eq_some hs
      cases a with
      | write src timeout =>
          obtain ⟨-, heq⟩ := Option.ite_none_right_eq_some.mp hr
          obtain rfl := Option.some.inj heq
          obtain ⟨hinv, hlaw⟩ := h.call self (.writing src 0 timeout
            (s.k.deadline timeout) false) ⟨rfl, Nat.zero_le _⟩ List.nil_prefix
          exact ⟨hinv, fun hl => ⟨fun _ => trivial, fun _ => hlaw hl⟩⟩
      | read len dst timeout =>
          obtain ⟨-, heq⟩ := Option.ite_none_right_eq_some.mp hr
          obtain rfl := Option.some.inj heq
          obtain ⟨hinv, hlaw⟩ := h.call self (.reading len dst 0 timeout
            (s.k.deadline timeout) false) rfl rfl
          exact ⟨hinv, fun hl => ⟨fun _ => trivial, fun _ => hlaw hl⟩⟩
      | round =>
          cases hpc : s.pc self with
          | writing src written timeout stopAt asleep =>
              rw [hpc] at hr
              obtain ⟨hinv, hlaw⟩ := h.writing hpc (Option.some.inj hr)
              refine ⟨hinv, fun hl => (hlaw hl).trans ?_⟩
              simp [Counted, hself, hpc]
          | reading len dst readCnt timeout stopAt asleep =>
              rw [hpc] at hr
              obtain ⟨hinv, hlaw⟩ := h.reading hpc (Option.some.inj hr)
              refine ⟨hinv, fun hl => (hlaw hl).trans ?_⟩
              simp [Counted, hself, hpc]
          | _ =>
              rw [hpc] at hr
              exact absurd hr (by simp [pipeSections, pipeThread])

theorem StreamInv.initial (h : s.Initial) : s.StreamInv ∧ s.StreamLaw := by
  obtain ⟨buf, size, hinit⟩ := h.pipe
  unfold pipeInit at hinit
  split at hinit
  · exact absurd hinit (by simp)
  · rename_i hz
    have hp := (Option.some.inj hinit).symm
    have hpos : 0 < size.toNat := Nat.pos_of_ne_zero fun h0 => hz (UInt32.toNat_inj.mp h0)
    have hring : s.obj.p.Ring := by
      rw [hp]
      exact ⟨hpos, Nat.zero_le _, hpos, (ringAt_zero hpos).symm⟩
    have hinv : s.StreamInv := by
      refine ⟨hring, ?_, fun t => by rw [h.pc t]; trivial⟩
      rw [h.accepted, h.delivered, hp]
      rfl
    exact ⟨hinv, hinv.law_iff.mpr fun t => by rw [h.pc t]; trivial⟩

/-! ## Short calls -/

/-- A call asks for fewer than `2 ^ 31` bytes. -/
def Short : PipeLabel → Prop
  | .act (.write src _) => src.length < 2 ^ 31
  | .act (.read len _ _) => len < 2 ^ 31
  | _ => True

/-- A call in progress asks for fewer than `2 ^ 31` bytes and has moved no more than that. -/
def Brief : PipePc → Prop
  | .writing src written _ _ _ => src.length < 2 ^ 31 ∧ written ≤ src.length
  | .reading len _ readCnt _ _ _ => len < 2 ^ 31 ∧ readCnt ≤ len
  | _ => True

theorem brief_writing {o : PipeObj} {k : Kernel} {src : List UInt8} {written : Nat}
    {timeout stopAt : UInt32} (h : o.p.Ring) (hlen : src.length < 2 ^ 31)
    (hle : written ≤ src.length) :
    Brief (pipeWriting k o self src written timeout stopAt).2.2 := by
  have hcases := pipeWriting_cases h k self src written timeout stopAt
  rcases hcases with ⟨-, hr⟩ | ⟨-, -, hr⟩ | ⟨-, n, q, -, hmin, -, -, -, hr⟩
  · rw [hr]
    trivial
  · rw [hr]
    exact ⟨hlen, hle⟩
  · rw [hr]
    refine ⟨hlen, ?_⟩
    omega

theorem brief_reading {o : PipeObj} {k : Kernel} {len : Nat} {dst : Mem} {readCnt : Nat}
    {timeout stopAt : UInt32} (h : o.p.Ring) (hlen : len < 2 ^ 31) (hle : readCnt ≤ len) :
    Brief (pipeReading k o self len dst readCnt timeout stopAt).2.2 := by
  have hcases := pipeReading_cases h k self len dst readCnt timeout stopAt
  rcases hcases with ⟨-, hr⟩ | ⟨-, -, hr⟩ | ⟨-, n, q, dst', -, hmin, -, -, -, -, -, hr⟩
  · rw [hr]
    trivial
  · rw [hr]
    exact ⟨hlen, hle⟩
  · rw [hr]
    refine ⟨hlen, ?_⟩
    omega

/-- A short call stays brief, and is counted when it returns. -/
theorem brief_step (cfg : Config) (h : s.StreamInv) (hb : ∀ t, Brief (s.pc t)) (hl : Short l) :
    s.Counted l ∧ ∀ s', s.step cfg l = some s' → ∀ t, Brief (s'.pc t) := by
  constructor
  · cases l with
    | act a =>
        cases a with
        | round =>
            intro self _
            have hself := hb self
            cases hpc : s.pc self with
            | writing src written timeout stopAt asleep =>
                rw [hpc] at hself
                exact fun _ => Nat.lt_of_le_of_lt hself.2 hself.1
            | reading len dst readCnt timeout stopAt asleep =>
                rw [hpc] at hself
                exact fun _ => Nat.lt_of_le_of_lt hself.2 hself.1
            | _ => trivial
        | _ => trivial
    | _ => trivial
  · intro s' hs
    cases l with
    | dispatch t =>
        obtain ⟨-, rfl⟩ := ObjectSys.dispatch_eq_some hs
        exact hb
    | tick =>
        obtain rfl := Option.some.inj hs
        exact hb
    | isr i => exact i.elim
    | act a =>
        obtain ⟨self, r, hself, -, hr, rfl⟩ := ObjectSys.act_eq_some hs
        -- only the program point of the caller changes
        have hone : Brief r.2.2 := by
          cases a with
          | write src timeout =>
              obtain ⟨-, heq⟩ := Option.ite_none_right_eq_some.mp hr
              obtain rfl := Option.some.inj heq
              exact ⟨hl, Nat.zero_le _⟩
          | read len dst timeout =>
              obtain ⟨-, heq⟩ := Option.ite_none_right_eq_some.mp hr
              obtain rfl := Option.some.inj heq
              exact ⟨hl, Nat.zero_le _⟩
          | round =>
              have hbself := hb self
              cases hpc : s.pc self with
              | writing src written timeout stopAt asleep =>
                  rw [hpc] at hr hbself
                  obtain rfl := Option.some.inj hr
                  exact brief_writing h.ring hbself.1 hbself.2
              | reading len dst readCnt timeout stopAt asleep =>
                  rw [hpc] at hr hbself
                  obtain rfl := Option.some.inj hr
                  exact brief_reading h.ring hbself.1 hbself.2
              | _ =>
                  rw [hpc] at hr
                  exact absurd hr (by simp [pipeSections, pipeThread])
        intro t
        by_cases ht : t = self
        · subst ht
          rwa [ObjectSys.after_pc_self]
        · rw [ObjectSys.after_pc_of_ne _ _ ht]
          exact hb t

theorem along_of_short {labels : List PipeLabel} : ∀ {s : PipeSys}, s.StreamInv →
    (∀ t, Brief (s.pc t)) → (∀ l ∈ labels, Short l) →
    Along (PipeSys.step cfg) PipeSys.Counted s labels := by
  induction labels with
  | nil => exact fun _ _ _ => trivial
  | cons l ls ih =>
    intro s h hb hl
    obtain ⟨hcount, hnext⟩ := brief_step cfg h hb (hl l List.mem_cons_self)
    refine ⟨hcount, fun s' hs => ?_⟩
    exact ih (h.step hs).1 (hnext s' hs) fun l' hl' => hl l' (List.mem_cons_of_mem _ hl')

end PipeSys

/--
**A pipe is a byte stream.**

From a new pipe of any size on, whatever any threads write and read with whatever
lengths and timeouts: the law of the stream holds in every state reached if and only if
every call that returns has moved fewer than `2 ^ 31` bytes; and so it does when no
call asks for more.
-/
theorem pipe_stream_along_run {cfg : Config} {s s' : PipeSys} {labels : List PipeLabel}
    (h : s.Initial) (hr : run (PipeSys.step cfg) s labels = some s') :
    (Always (PipeSys.step cfg) PipeSys.StreamLaw s labels
        ↔ Along (PipeSys.step cfg) PipeSys.Counted s labels)
      ∧ ((∀ l ∈ labels, PipeSys.Short l) →
        Along (PipeSys.step cfg) PipeSys.Counted s labels) := by
  obtain ⟨hinv, hlaw⟩ := PipeSys.StreamInv.initial h
  refine ⟨always_iff_along (Q := PipeSys.StreamInv) ?_ ?_ hinv hlaw hr, fun hshort => ?_⟩
  · intro s l s' h hs
    exact (h.step hs).1
  · intro s l s' h hl hs
    exact (h.step hs).2 hl
  · refine PipeSys.along_of_short hinv (fun t => ?_) hshort
    rw [h.pc t]
    trivial

/-- READY threads and a new pipe. -/
def pipeReady (cfg : Config) (size : UInt32) : PipeSys where
  k := Kernel.bss cfg (fun _ => { threadDefine [] 512 0 0 0 5 with state := .ready }) none
  obj := {
    p := ⟨fun _ => 0, size, 0, 0, 0, listInit, listInit⟩
    woken := []
    accepted := []
    delivered := []
    part := fun _ => [] }
  pc := fun _ => .idle

theorem pipeReady_initial (cfg : Config) {size : UInt32} (h : size ≠ 0) :
    (pipeReady cfg size).Initial :=
  ⟨⟨fun _ => 0, size, if_neg h⟩, rfl, rfl, rfl, fun _ => rfl, rfl⟩

/-- Two writes of three bytes and a read between them, through a pipe of four bytes. -/
theorem pipe_stream_along_run_turns :
    Always (PipeSys.step ⟨1000, 10, true⟩) PipeSys.StreamLaw (pipeReady ⟨1000, 10, true⟩ 4)
      [.dispatch 1, .act (.write [1, 2, 3] 0), .act .round, .dispatch 2,
        .act (.read 2 (fun _ => 0) 0), .act .round, .dispatch 1, .act .round,
        .act (.write [4, 5, 6] 0), .act .round, .act .round] := by
  obtain ⟨s', hrun⟩ : ∃ s', run (PipeSys.step ⟨1000, 10, true⟩) (pipeReady ⟨1000, 10, true⟩ 4)
      [.dispatch 1, .act (.write [1, 2, 3] 0), .act .round, .dispatch 2,
        .act (.read 2 (fun _ => 0) 0), .act .round, .dispatch 1, .act .round,
        .act (.write [4, 5, 6] 0), .act .round, .act .round] = some s' :=
    Option.isSome_iff_exists.mp (by decide +kernel)
  obtain ⟨hiff, hshort⟩ := pipe_stream_along_run (pipeReady_initial _ (by decide)) hrun
  exact hiff.mpr (hshort (by simp [PipeSys.Short]))

/-- A write that fits in a new pipe returns after one round of its loop. -/
theorem write_fits (cfg : Config) (size : UInt32) (src : List UInt8) (hpos : 0 < src.length)
    (hfit : src.length ≤ size.toNat) :
    ∃ s', run (PipeSys.step cfg) (pipeReady cfg size)
        [.dispatch 1, .act (.write src waitForever), .act .round, .act .round] = some s'
      ∧ s'.pc 1 = .wrote src (intOfSize src.length) ∧ s'.obj.part 1 = src := by
  -- the write begins
  let s₁ : PipeSys := { pipeReady cfg size with k := (pipeReady cfg size).k.switchTo 1 }
  have hs₁ : (pipeReady cfg size).step cfg (.dispatch 1) = some s₁ := rfl
  let s₂ : PipeSys := s₁.after 1 (s₁.k, { s₁.obj with part := Function.update s₁.obj.part 1 [] },
    .writing src 0 waitForever (s₁.k.deadline waitForever) false)
  have hs₂ : s₁.step cfg (.act (.write src waitForever)) = some s₂ :=
    ObjectSys.step_act rfl (Or.inr rfl) rfl
  have hring : s₂.obj.p.Ring :=
    ⟨by show 0 < size.toNat; omega, Nat.zero_le _, by show 0 < size.toNat; omega,
      (ringAt_zero (by show 0 < size.toNat; omega)).symm⟩
  -- its first round takes all the bytes
  obtain ⟨r, hr⟩ : ∃ r, pipeWriting s₂.k s₂.obj 1 src 0 waitForever waitForever = r := ⟨_, rfl⟩
  have hs₃ : s₂.step cfg (.act .round) = some (s₂.after 1 r) :=
    ObjectSys.step_act rfl (Or.inr rfl) (congrArg some hr)
  have hcases := pipeWriting_cases hring s₂.k 1 src 0 waitForever waitForever
  dsimp only at hcases
  rw [hr] at hcases
  have hroom : (0 : UInt32) ≠ size := by
    intro h0
    rw [← h0] at hfit
    have hz : (0 : UInt32).toNat = 0 := rfl
    omega
  rcases hcases with ⟨hgo, -⟩ | ⟨-, hfull, -⟩ | ⟨-, n, q, -, hmin, -, -, -, rfl⟩
  · rcases hgo with hle | ⟨hfull, -⟩
    · omega
    · exact absurd hfull hroom
  · exact absurd hfull hroom
  · obtain rfl : n = src.length := by
      have hmin' : n = min (src.length - 0) (size.toNat - 0) := hmin
      omega
    have hlast : ∀ (k : Kernel) (o : PipeObj),
        pipeWriting k o 1 src (0 + src.length) waitForever waitForever
          = (k, { o with woken := o.woken.erase 1 }, .wrote src (intOfSize src.length)) := by
      intro k o
      rw [Nat.zero_add, pipeWriting, if_neg (Nat.lt_irrefl _)]
    refine ⟨_, run_cons.mpr ⟨s₁, hs₁, run_cons.mpr ⟨s₂, hs₂, run_cons.mpr ⟨_, hs₃,
      run_cons.mpr ⟨_, @ObjectSys.step_act _ _ _ _ cfg pipeSections _ _ 1 _ rfl (Or.inr rfl)
        (congrArg some (hlast _ _)),
        rfl⟩⟩⟩⟩, ObjectSys.after_pc_self _ _ _, ?_⟩
    show Function.update s₂.obj.part 1 ([] ++ (src.drop 0).take src.length) 1 = src
    rw [Function.update_self, List.drop_zero, List.take_length, List.nil_append]

/-- A write of `2 ^ 31` bytes that fits returns `-2 ^ 31`. -/
theorem pipe_write_returns_negative :
    ∃ src s', src.length = 2 ^ 31 ∧ (pipeReady ⟨1000, 10, true⟩ 0x80000000).Initial
      ∧ run (PipeSys.step ⟨1000, 10, true⟩) (pipeReady ⟨1000, 10, true⟩ 0x80000000)
        [.dispatch 1, .act (.write src waitForever), .act .round, .act .round] = some s'
      ∧ s'.pc 1 = .wrote src (-2147483648) ∧ s'.obj.part 1 = src ∧ ¬ s'.StreamLaw := by
  have hlen : (List.replicate (2 ^ 31) (0 : UInt8)).length = 2 ^ 31 := List.length_replicate
  generalize List.replicate (2 ^ 31) (0 : UInt8) = src at hlen
  obtain ⟨s', hrun, hpc, hpart⟩ := write_fits ⟨1000, 10, true⟩ 0x80000000 src
    (by rw [hlen]; decide) (by rw [hlen]; decide)
  have hret : intOfSize src.length = -2147483648 := by rw [hlen]; decide
  rw [hret] at hpc
  refine ⟨src, s', hlen, pipeReady_initial _ (by decide), hrun, hpc, hpart, fun hlaw => ?_⟩
  have hcall := hlaw.calls 1
  rw [hpc, hpart] at hcall
  have hneg : (-2147483648 : Int) = src.length := hcall.2
  omega

end VibeRtos
