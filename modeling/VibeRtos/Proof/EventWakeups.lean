import VibeRtos.Kernel.EventSystem
import VibeRtos.Proof.Parked
import VibeRtos.Lib.Runs

/-!
# No event is missed

A post walks the wait list and takes the satisfied waiters off while it goes. What it
leaves behind are the others, so nobody stays blocked whose condition the flags meet, and
a waiter that is off the list has its context block marked, whatever happens to the flags
before it runs.
-/

namespace VibeRtos

open Links Kernel Runs

/-! ## The loop of a post -/

section Loop

/-- The wait lists do not matter to the run queues. -/
theorem schedEnqueue_foldl_waitNode (ts : List Tid) : ∀ (k : Kernel) (w : Tid → Link Tid),
    ts.foldl schedEnqueue { k with waitNode := w }
      = { ts.foldl schedEnqueue k with waitNode := w } := by
  induction ts with
  | nil => exact fun _ _ => rfl
  | cons t ts ih => exact fun k w => ih (k.schedEnqueue t) w

/-- The flags meet the condition in the thread's context block, if it has one. -/
def satisfiedBy (flags : UInt32) (k : Kernel) (ctxs : EventCtxMem) (t : Tid) : Bool :=
  match (k.thr t).tls with
  | some c => flagsSatisfied flags (ctxs c).waitFlags (ctxs c).waitMode
  | none => false

/-- What the loop does to the threads `todo` that are ahead of it; `sat` says which of them have
their condition met. -/
structure Posted (sat : Tid → Bool) (k : Kernel) (ctxs : EventCtxMem) (kept todo : List Tid)
    (r : Kernel × VList Tid × EventCtxMem) : Prop where
  parked : Parked r.1 r.2.1 (kept ++ todo.filter fun t => !sat t)
  woken : r.1 = { (todo.filter sat).foldl schedEnqueue k with waitNode := r.1.waitNode }
  marked : ∀ t ∈ todo, sat t = true → ∀ c, (k.thr t).tls = some c → (r.2.2 c).satisfied = true
  unmarked : ∀ c, (∀ t ∈ todo, sat t = true → (k.thr t).tls ≠ some c) → r.2.2 c = ctxs c
  same : ∀ c, (r.2.2 c).waitFlags = (ctxs c).waitFlags ∧ (r.2.2 c).waitMode = (ctxs c).waitMode

variable {sat : Tid → Bool} {k : Kernel} {l : VList Tid} {ctxs : EventCtxMem}
  {kept todo : List Tid} {t : Tid} {r : Kernel × VList Tid × EventCtxMem}

/-- The loop has reached the end. -/
theorem Posted.stop (h : Parked k l kept) : Posted sat k ctxs kept [] (k, l, ctxs) :=
  ⟨by simpa using h, rfl, by simp, fun _ _ => rfl, fun _ => ⟨rfl, rfl⟩⟩

/-- The loop has left a thread where it is. -/
theorem Posted.skip (hsat : sat t = false) (h : Posted sat k ctxs (kept ++ [t]) todo r) :
    Posted sat k ctxs kept (t :: todo) r := by
  refine ⟨?_, ?_, fun u hu hs => ?_, fun c hc => ?_, h.same⟩
  · have hp := h.parked
    rw [List.append_assoc] at hp
    rw [List.filter_cons_of_pos (by simpa using hsat)]
    exact hp
  · rw [List.filter_cons_of_neg (by simp [hsat])]
    exact h.woken
  · rcases List.mem_cons.mp hu with rfl | hu
    · rw [hsat] at hs
      exact absurd hs (by simp)
    · exact h.marked u hu hs
  · exact h.unmarked c fun u hu => hc u (List.mem_cons_of_mem _ hu)

/-- The loop has marked a thread's context and taken the thread off the list. -/
theorem Posted.wake {c : Nat} (hsat : sat t = true) (htls : (k.thr t).tls = some c)
    (h : Posted sat ((k.waitRemove l t).1.schedEnqueue t)
      (Function.update ctxs c { ctxs c with satisfied := true }) kept todo r) :
    Posted sat k ctxs kept (t :: todo) r := by
  have htls' : ∀ u, (((k.waitRemove l t).1.schedEnqueue t).thr u).tls = (k.thr u).tls := by
    intro u
    rw [schedEnqueue_thr]
    by_cases hut : u = t
    · subst hut
      rw [Function.update_self]
      rfl
    · rw [Function.update_of_ne hut]
      rfl
  refine ⟨?_, ?_, fun u hu hs d hd => ?_, fun d hd => ?_, fun d => ?_⟩
  · rw [List.filter_cons_of_neg (by simp [hsat])]
    exact h.parked
  · have hone : (k.waitRemove l t).1.schedEnqueue t
        = { k.schedEnqueue t with waitNode := (k.waitRemove l t).1.waitNode } := rfl
    have hrest := schedEnqueue_foldl_waitNode (todo.filter sat) (k.schedEnqueue t)
      (k.waitRemove l t).1.waitNode
    rw [List.filter_cons_of_pos hsat, List.foldl_cons]
    refine h.woken.trans ?_
    rw [hone, hrest]
  · by_cases hrest : ∃ v ∈ todo, sat v = true ∧ (k.thr v).tls = some d
    · obtain ⟨v, hv, hvs, hvd⟩ := hrest
      exact h.marked v hv hvs d ((htls' v).trans hvd)
    · have hdc : d = c := by
        rcases List.mem_cons.mp hu with rfl | hu
        · exact Option.some.inj (hd.symm.trans htls)
        · exact absurd ⟨u, hu, hs, hd⟩ hrest
      subst hdc
      rw [h.unmarked d fun v hv hvs hvd => hrest ⟨v, hv, hvs, (htls' v).symm.trans hvd⟩,
        Function.update_self]
  · have hne : d ≠ c := fun he => hd t List.mem_cons_self hsat (he ▸ htls)
    have hrest := h.unmarked d fun v hv hvs => by
      rw [htls']
      exact hd v (List.mem_cons_of_mem _ hv) hvs
    rw [hrest, Function.update_of_ne hne]
  · obtain ⟨hf, hm⟩ := h.same d
    by_cases hdc : d = c
    · subst hdc
      rw [Function.update_self] at hf hm
      exact ⟨hf, hm⟩
    · rw [Function.update_of_ne hdc] at hf hm
      exact ⟨hf, hm⟩

/-- **The loop**, behind the threads `kept` that it has left on the list. -/
theorem eventPostLoop_posted (flags : UInt32) (sat : Tid → Bool) : ∀ (todo kept : List Tid)
    {fuel : Nat} {k : Kernel} {l : VList Tid} {ctxs : EventCtxMem}, todo.length ≤ fuel →
    Parked k l (kept ++ todo) →
    (∀ t ∈ todo, satisfiedBy flags k ctxs t = sat t) →
    Posted sat k ctxs kept todo (eventPostLoop flags fuel k l ctxs todo.head?) := by
  intro todo
  induction todo with
  | nil =>
      intro kept fuel k l ctxs _ h _
      rw [List.append_nil] at h
      cases fuel with
      | zero => exact Posted.stop h
      | succ fuel => exact Posted.stop h
  | cons t todo ih =>
      intro kept fuel k l ctxs hfuel h hsat
      cases fuel with
      | zero => exact absurd hfuel (by simp)
      | succ fuel =>
          have hfuel' : todo.length ≤ fuel := Nat.le_of_succ_le_succ hfuel
          have hnext : (k.waitNode t).next = todo.head? := by rw [h.rep.chain.at]; simp
          have hhead := hsat t List.mem_cons_self
          have hskip : sat t = false → Posted sat k ctxs kept (t :: todo)
              (eventPostLoop flags fuel k l ctxs todo.head?) := by
            intro hs
            have happ : kept ++ t :: todo = (kept ++ [t]) ++ todo := by simp
            rw [happ] at h
            exact Posted.skip hs (ih _ hfuel' h fun u hu => hsat u (List.mem_cons_of_mem _ hu))
          rw [List.head?_cons, eventPostLoop, hnext]
          unfold satisfiedBy at hhead
          cases htls : (k.thr t).tls with
          | none =>
              rw [htls] at hhead
              exact hskip hhead.symm
          | some c =>
              rw [htls] at hhead
              dsimp only at hhead ⊢
              by_cases hs : sat t = true
              · rw [if_pos (hhead.trans hs)]
                refine Posted.wake hs htls (ih kept hfuel' h.release fun u hu => ?_)
                have hut : u ≠ t := by
                  rintro rfl
                  have hnd := (List.nodup_append.mp h.nodup).2.1
                  exact (List.nodup_cons.mp hnd).1 hu
                rw [← hsat u (List.mem_cons_of_mem _ hu), satisfiedBy, satisfiedBy,
                  schedEnqueue_thr, Function.update_of_ne hut]
                show (match (k.thr u).tls with | some d => _ | none => _) = _
                -- marking a context leaves its condition alone
                cases (k.thr u).tls with
                | none => rfl
                | some d =>
                    dsimp only
                    rw [Function.update_apply]
                    split
                    · rename_i hdc
                      rw [hdc]
                    · rfl
              · rw [if_neg (by rw [hhead]; exact hs)]
                exact hskip (Bool.eq_false_iff.mpr hs)

end Loop

/-- Enqueueing threads keeps what a post depends on. -/
theorem schedEnqueue_foldl_frame (ts : List Tid) : ∀ k : Kernel,
    (∀ t, ((ts.foldl schedEnqueue k).thr t).tls = (k.thr t).tls)
      ∧ (ts.foldl schedEnqueue k).sleepList = k.sleepList := by
  induction ts with
  | nil => exact fun _ => ⟨fun _ => rfl, rfl⟩
  | cons u ts ih =>
      intro k
      obtain ⟨htls, hsleep⟩ := ih (k.schedEnqueue u)
      refine ⟨fun t => (htls t).trans ?_, hsleep⟩
      rw [schedEnqueue_thr]
      by_cases htu : t = u
      · subst htu
        rw [Function.update_self]
      · rw [Function.update_of_ne htu]

/-- Clearing flags meets no condition. -/
theorem flagsSatisfied_clear {flags mask requested : UInt32} {mode : EventWaitMode}
    (h : flagsSatisfied flags requested mode = false) :
    flagsSatisfied (flags &&& ~~~mask) requested mode = false := by
  have hsub : flags &&& ~~~mask &&& requested = flags &&& requested &&& ~~~mask := by
    rw [UInt32.and_assoc, UInt32.and_assoc, UInt32.and_comm requested]
  cases mode with
  | all =>
      have hne : flags &&& requested ≠ requested := of_decide_eq_false h
      refine decide_eq_false fun heq => hne ?_
      -- every requested bit survived the mask, so it was there before
      calc flags &&& requested = flags &&& (flags &&& ~~~mask &&& requested) := by rw [heq]
        _ = flags &&& ~~~mask &&& requested := by
          rw [← UInt32.and_assoc, ← UInt32.and_assoc, UInt32.and_self]
        _ = requested := heq
  | any =>
      have hzero : flags &&& requested = 0 := not_not.mp (of_decide_eq_false h)
      refine decide_eq_false (not_not.mpr ?_)
      rw [hsub, hzero, UInt32.zero_and]

namespace EventSys

/-- The wait list, the context blocks and the record. -/
structure Inv (s : EventSys) : Prop where
  parked : Parked s.k s.obj.e.waitList s.waiters
  own : ∀ t u c, (s.k.thr t).tls = some c → (s.k.thr u).tls = some c → t = u
  /-- a blocked thread is inside a wait -/
  inside : ∀ t ∈ s.waiters, ∃ ctx, s.pc t = .waiting ctx
  /-- a thread inside a wait has its condition in its context block; the block is marked, and the
  condition has held, exactly if the thread is off the list -/
  context : ∀ t ctx, s.pc t = .waiting ctx → ∃ c, ctx = some c ∧ (s.k.thr t).tls = some c
    ∧ ((s.obj.ctxs c).waitFlags, (s.obj.ctxs c).waitMode) = s.obj.wants t
    ∧ ((s.obj.ctxs c).satisfied = true ↔ t ∉ s.waiters) ∧ (s.obj.met t = true ↔ t ∉ s.waiters)
  law : s.Law
  sleep : s.k.sleepList.head = none

variable {cfg : Config} {s s' : EventSys} {l : EventLabel} {self : Tid}
  {r : Kernel × EventObj × EventPc}

/-- The kernel's own steps leave the group alone. -/
theorem Inv.kernel {k' : Kernel} (h : s.Inv) (hp : Parked k' s.obj.e.waitList s.waiters)
    (htls : ∀ t, (k'.thr t).tls = (s.k.thr t).tls) (hsleep : k'.sleepList.head = none) :
    Inv { s with k := k' } := by
  have hw : waiters { s with k := k' } = s.waiters := hp.nodes
  refine ⟨?_, fun t u c ht hu => ?_, fun t ht => ?_, fun t ctx ht => ?_, ⟨fun t ht => ?_, ?_⟩,
    hsleep⟩
  · rw [hw]
    exact hp
  · exact h.own t u c ((htls t).symm.trans ht) ((htls u).symm.trans hu)
  · rw [hw] at ht
    exact h.inside t ht
  · rw [hw]
    obtain ⟨c, hctx, hc, hrest⟩ := h.context t ctx ht
    exact ⟨c, hctx, (htls t).trans hc, hrest⟩
  · rw [hw] at ht
    exact h.law.blocked t ht
  · exact h.law.returned

/-- **A post** wakes whom it concerns. -/
theorem Inv.post (h : s.Inv) (flags : UInt32) (hk : s'.k = (s.obj.post s.k flags).1)
    (hobj : s'.obj = (s.obj.post s.k flags).2) (hpc : s'.pc = s.pc) :
    s'.Inv ∧ s.Posts flags s' := by
  have hset : s'.obj.e.flags = s.obj.e.flags ||| flags := by rw [hobj]; rfl
  have hwants : s'.obj.wants = s.obj.wants := by rw [hobj]; rfl
  have hmet : ∀ t, s'.obj.met t = (s.obj.met t || (decide (t ∈ s.waiters)
      && s.obj.wantsFlags (s.obj.e.flags ||| flags) t)) := by rw [hobj]; exact fun _ => rfl
  have hloop : Posted (s.obj.wantsFlags (s.obj.e.flags ||| flags)) s.k s.obj.ctxs [] s.waiters _ :=
    eventPostLoop_posted (s.obj.e.flags ||| flags) _ s.waiters []
      (length_le_walkBound h.parked.nodup)
      h.parked fun t ht => by
      obtain ⟨ctx, hctx⟩ := h.inside t ht
      obtain ⟨c, -, hc, hw, -⟩ := h.context t ctx hctx
      rw [satisfiedBy, hc, EventObj.wantsFlags, ← hw]
  generalize hsat : s.obj.wantsFlags (s.obj.e.flags ||| flags) = sat at *
  rw [← h.parked.rep.head] at hloop
  obtain ⟨hparked, hwoken, hmarked, hunmarked, hsame⟩ := hloop
  have hk' : s'.k = (eventPostLoop (s.obj.e.flags ||| flags) walkBound s.k s.obj.e.waitList
      s.obj.ctxs s.obj.e.waitList.head).1 := hk
  have hlist : s'.obj.e.waitList = (eventPostLoop (s.obj.e.flags ||| flags) walkBound s.k
      s.obj.e.waitList s.obj.ctxs s.obj.e.waitList.head).2.1 := by rw [hobj]; rfl
  have hctxs : s'.obj.ctxs = (eventPostLoop (s.obj.e.flags ||| flags) walkBound s.k
      s.obj.e.waitList s.obj.ctxs s.obj.e.waitList.head).2.2 := by rw [hobj]; rfl
  rw [← hk', ← hlist, List.nil_append] at hparked
  rw [← hk'] at hwoken
  rw [← hctxs] at hmarked hunmarked hsame
  have hw : s'.waiters = s.waiters.filter fun t => !sat t := hparked.nodes
  have hframe := schedEnqueue_foldl_frame (s.waiters.filter sat) s.k
  have htls : ∀ t, (s'.k.thr t).tls = (s.k.thr t).tls := fun t => by
    rw [hwoken]
    exact hframe.1 t
  have hin : ∀ t, t ∈ s'.waiters ↔ t ∈ s.waiters ∧ sat t = false := by
    intro t
    rw [hw, List.mem_filter]
    simp
  refine ⟨⟨?_, fun t u c ht hu => ?_, fun t ht => ?_, fun t ctx ht => ?_, ⟨fun t ht => ?_, ?_⟩, ?_⟩,
    ⟨hset, ?_, ?_⟩⟩
  · rw [hw]
    exact hparked
  · exact h.own t u c ((htls t).symm.trans ht) ((htls u).symm.trans hu)
  · rw [hpc]
    exact h.inside t ((hin t).mp ht).1
  · rw [hpc] at ht
    obtain ⟨c, hctx, hc, hwt, hs, hm⟩ := h.context t ctx ht
    refine ⟨c, hctx, (htls t).trans hc, ?_, ?_, ?_⟩
    · rw [hwants, ← hwt, (hsame c).1, (hsame c).2]
    · rw [hin]
      by_cases hsel : t ∈ s.waiters ∧ sat t = true
      · simp [hmarked t hsel.1 hsel.2 c hc, hsel.2]
      · -- no other thread has this block, so it stays as it is
        rw [hunmarked c fun u hu hus hcu => hsel (h.own u t c hcu hc ▸ ⟨hu, hus⟩), hs]
        simp only [not_and, Bool.not_eq_true] at hsel ⊢
        tauto
    · rw [hin, hmet, Bool.or_eq_true, hm]
      by_cases hblocked : t ∈ s.waiters <;> simp [hblocked]
  · rw [EventObj.wantsFlags, hwants, hset]
    have hfalse := ((hin t).mp ht).2
    rw [← hsat] at hfalse
    exact hfalse
  · have hret : s'.obj.returned = s.obj.returned := by rw [hobj]; rfl
    rw [hret]
    exact h.law.returned
  · rw [hwoken]
    show (List.foldl schedEnqueue s.k (s.waiters.filter sat)).sleepList.head = none
    rw [hframe.2]
    exact h.sleep
  · rw [hw, hsat]
  · rw [hsat]
    exact hwoken

theorem Inv.clear (h : s.Inv) (flags : UInt32) (hk : s'.k = s.k)
    (hobj : s'.obj = { s.obj with e := eventClear s.obj.e flags }) (hpc : s'.pc = s.pc) :
    s'.Inv := by
  have hw : s'.waiters = s.waiters := by rw [waiters, hk, hobj]; rfl
  refine ⟨?_, ?_, ?_, ?_, ⟨fun t ht => ?_, ?_⟩, ?_⟩
  · rw [hw, hk, hobj]
    exact h.parked
  · rw [hk]
    exact h.own
  · rw [hw, hpc]
    exact h.inside
  · rw [hw, hpc, hk, hobj]
    exact h.context
  · rw [hw] at ht
    rw [hobj]
    exact flagsSatisfied_clear (h.law.blocked t ht)
  · rw [hobj]
    exact h.law.returned
  · rw [hk]
    exact h.sleep

/-- A wait that returns at once. -/
theorem Inv.returns (h : s.Inv) (err : Err) (held : Bool) (hidle : ∀ ctx, r.2.2 ≠ .waiting ctx)
    (hself : self ∉ s.waiters) (hk : r.1 = s.k)
    (hobj : r.2.1 = { s.obj with returned := (self, err, held) :: s.obj.returned })
    (hiff : err = .ok ↔ held = true) : EventSys.Inv (s.after self r) := by
  have hk' : (s.after self r).k = s.k := hk
  have hobj' : (s.after self r).obj
      = { s.obj with returned := (self, err, held) :: s.obj.returned } := hobj
  have hw : waiters (s.after self r) = s.waiters := by rw [waiters, hk', hobj']; rfl
  refine ⟨?_, ?_, fun t ht => ?_, fun t ctx ht => ?_, ⟨fun t ht => ?_, fun x hx => ?_⟩, ?_⟩
  · rw [hw, hk', hobj']
    exact h.parked
  · rw [hk']
    exact h.own
  · rw [hw] at ht
    have hne : t ≠ self := fun he => hself (he ▸ ht)
    rw [ObjectSys.after_pc_of_ne _ _ hne]
    exact h.inside t ht
  · by_cases hts : t = self
    · subst hts
      rw [ObjectSys.after_pc_self] at ht
      exact absurd ht (hidle ctx)
    · rw [ObjectSys.after_pc_of_ne _ _ hts] at ht
      rw [hw, hk', hobj']
      exact h.context t ctx ht
  · rw [hw] at ht
    rw [hobj']
    exact h.law.blocked t ht
  · rw [hobj'] at hx
    rcases List.mem_cons.mp hx with rfl | hx
    · exact hiff
    · exact h.law.returned x hx
  · rw [hk']
    exact h.sleep

/-- A wait that blocks. -/
theorem Inv.blocks (h : s.Inv) {flags : UInt32} {mode : EventWaitMode} {stop : UInt32} {c : Nat}
    (hself : self ∉ s.waiters) (htls : (s.k.thr self).tls = some c)
    (hunmet : flagsSatisfied s.obj.e.flags flags mode = false) :
    let w := (s.k.block self stop).waitAppend s.obj.e.waitList self
    EventSys.Inv (s.after self (w.1, { s.obj with
      e := { s.obj.e with waitList := w.2 }
      ctxs := Function.update s.obj.ctxs c ⟨flags, mode, false⟩
      wants := Function.update s.obj.wants self (flags, mode)
      met := Function.update s.obj.met self false }, .waiting (some c))) := by
  intro w
  have hparked := h.parked.park hself stop
  generalize hr : ((w.1, { s.obj with
      e := { s.obj.e with waitList := w.2 }
      ctxs := Function.update s.obj.ctxs c ⟨flags, mode, false⟩
      wants := Function.update s.obj.wants self (flags, mode)
      met := Function.update s.obj.met self false }, .waiting (some c))
      : Kernel × EventObj × EventPc) = r
  have hk : (s.after self r).k = w.1 := by rw [← hr]; rfl
  have hobj : (s.after self r).obj = { s.obj with
      e := { s.obj.e with waitList := w.2 }
      ctxs := Function.update s.obj.ctxs c ⟨flags, mode, false⟩
      wants := Function.update s.obj.wants self (flags, mode)
      met := Function.update s.obj.met self false } := by rw [← hr]; rfl
  have hpc : r.2.2 = .waiting (some c) := by rw [← hr]
  have hw : waiters (s.after self r) = s.waiters ++ [self] := by
    rw [waiters, hk, hobj]
    exact hparked.nodes
  have htls' : ∀ t, (w.1.thr t).tls = (s.k.thr t).tls := by
    intro t
    show ((s.k.block self stop).thr t).tls = _
    by_cases hts : t = self
    · subst hts
      rw [Kernel.block, modThread_self]
      rfl
    · rw [Kernel.block, modThread_of_ne _ _ _ hts]
      rfl
  refine ⟨?_, fun t u d ht hu => ?_, fun t ht => ?_, fun t ctx ht => ?_, ⟨fun t ht => ?_, ?_⟩, ?_⟩
  · rw [hw, hk, hobj]
    exact hparked
  · rw [hk] at ht hu
    exact h.own t u d ((htls' t).symm.trans ht) ((htls' u).symm.trans hu)
  · by_cases hts : t = self
    · subst hts
      exact ⟨some c, by rw [ObjectSys.after_pc_self, hpc]⟩
    · rw [hw] at ht
      rw [ObjectSys.after_pc_of_ne _ _ hts]
      exact h.inside t ((List.mem_append.mp ht).resolve_right (by simpa using hts))
  · rw [hw, hk, hobj]
    dsimp only
    by_cases hts : t = self
    · subst hts
      rw [ObjectSys.after_pc_self, hpc] at ht
      refine ⟨c, (EventPc.waiting.inj ht).symm, (htls' t).trans htls, ?_, ?_, ?_⟩
      · rw [Function.update_self, Function.update_self]
      · simp
      · simp
    · rw [ObjectSys.after_pc_of_ne _ _ hts] at ht
      obtain ⟨d, hctx, hd, hwant, hs, hm⟩ := h.context t ctx ht
      -- the blocks are distinct
      have hdc : d ≠ c := fun he => hts (h.own t self c (he ▸ hd) htls)
      refine ⟨d, hctx, (htls' t).trans hd, ?_, ?_, ?_⟩
      · rw [Function.update_of_ne hdc, Function.update_of_ne hts]
        exact hwant
      · rw [Function.update_of_ne hdc, hs]
        simp [hts]
      · rw [Function.update_of_ne hts, hm]
        simp [hts]
  · rw [hw] at ht
    rw [hobj, EventObj.wantsFlags]
    dsimp only
    by_cases hts : t = self
    · subst hts
      rw [Function.update_self]
      exact hunmet
    · rw [Function.update_of_ne hts]
      exact h.law.blocked t ((List.mem_append.mp ht).resolve_right (by simpa using hts))
  · rw [hobj]
    exact h.law.returned
  · rw [hk]
    exact h.sleep

theorem Inv.wait (h : s.Inv) (hact : (s.k.thr self).state.Active) {flags : UInt32}
    {mode : EventWaitMode} {timeout : UInt32}
    (hr : eventThread s.k s.obj self .idle (.wait flags mode timeout) = some r) :
    EventSys.Inv (s.after self r) := by
  have hself := h.parked.not_mem hact
  obtain ⟨hok, hr⟩ := Option.ite_none_left_eq_some.mp hr
  obtain ⟨hflags, htls⟩ := not_or.mp hok
  obtain ⟨c, hc⟩ := Option.ne_none_iff_exists'.mp htls
  obtain rfl := Option.some.inj hr
  cases hnow : flagsSatisfied s.obj.e.flags flags mode with
  | true =>
      have hres : eventWait s.k s.obj.e s.obj.ctxs self flags mode timeout
          = (s.k, s.obj.e, s.obj.ctxs, .done .ok) := by
        rw [eventWait, if_neg hflags, if_pos hnow]
      rw [hres]
      exact h.returns .ok true (by simp) hself rfl rfl (by simp)
  | false =>
      by_cases ht : timeout = noWait
      · have hres : eventWait s.k s.obj.e s.obj.ctxs self flags mode timeout
            = (s.k, s.obj.e, s.obj.ctxs, .done .eagain) := by
          rw [eventWait, if_neg hflags, if_neg (by simp [hnow]), if_pos ht]
        rw [hres]
        exact h.returns .eagain false (by simp) hself rfl rfl (by simp)
      · have hres : eventWait s.k s.obj.e s.obj.ctxs self flags mode timeout
            = (((s.k.block self (s.k.deadline timeout)).waitAppend s.obj.e.waitList self).1,
              { s.obj.e with waitList :=
                  ((s.k.block self (s.k.deadline timeout)).waitAppend s.obj.e.waitList self).2 },
              Function.update s.obj.ctxs c ⟨flags, mode, false⟩, .block) := by
          simp only [eventWait, if_neg hflags, hnow, if_neg ht, hc]
          rfl
        rw [hres, hc]
        exact h.blocks hself hc hnow

/-- The section after the wake-up finds the context block marked. -/
theorem Inv.finish (h : s.Inv) (hact : (s.k.thr self).state.Active) {ctx : Option Nat}
    (hpc : s.pc self = .waiting ctx)
    (hr : eventThread s.k s.obj self (.waiting ctx) .finish = some r) :
    EventSys.Inv (s.after self r) := by
  have hself := h.parked.not_mem hact
  obtain rfl := Option.some.inj hr
  obtain ⟨c, rfl, -, -, hs, hm⟩ := h.context self ctx hpc
  have hmarked := hs.mpr hself
  refine h.returns _ _ (by simp) hself rfl rfl ?_
  simp [eventWaitWake, hmarked, hm.mpr hself]

/-! ## Steps and runs -/

theorem after_pc_same (hpc : s.pc self = .idle) (hr : r.2.2 = .idle) :
    (s.after self r).pc = s.pc := by
  show Function.update s.pc self r.2.2 = s.pc
  rw [hr, ← hpc, Function.update_eq_self]

/-- **Every step keeps the invariant, and a post does what it should.** -/
theorem Inv.step (h : s.Inv) (hs : s.step cfg l = some s') :
    s'.Inv ∧ ∀ flags, posted l = some flags → s.Posts flags s' := by
  cases l with
  | dispatch t =>
      obtain ⟨hready, rfl⟩ := ObjectSys.dispatch_eq_some hs
      refine ⟨h.kernel (h.parked.switchTo hready) (fun u => ?_) ?_, by simp [posted]⟩
      · obtain ⟨st, hst, -⟩ := switchTo_thr s.k t u
        rw [hst]
      · exact switchTo_asleep t h.sleep
  | tick =>
      obtain rfl := Option.some.inj hs
      obtain ⟨-, -, hsleep, hthr⟩ := tickSection_thr cfg s.k h.sleep
      refine ⟨h.kernel (h.parked.tickSection cfg h.sleep) (fun u => ?_) ?_, by simp [posted]⟩
      · rcases hthr with hsame | ⟨cur, -, -, hcur⟩
        · rw [hsame]
        · rw [hcur]
          by_cases huc : u = cur
          · subst huc
            rw [Function.update_self]
          · rw [Function.update_of_ne huc]
      · rw [hsleep]
        exact h.sleep
  | isr i =>
      obtain rfl := Option.some.inj hs
      cases i with
      | post flags =>
          obtain ⟨hinv, hposts⟩ := @Inv.post s ⟨_, _, s.pc⟩ h flags rfl rfl rfl
          refine ⟨hinv, fun f hf => ?_⟩
          obtain rfl : flags = f := Option.some.inj hf
          exact hposts
      | clear flags => exact ⟨h.clear flags rfl rfl rfl, by simp [posted]⟩
  | act a =>
      obtain ⟨self, r, -, hact, hr, rfl⟩ := ObjectSys.act_eq_some hs
      change eventThread s.k s.obj self (s.pc self) a = some r at hr
      cases hpc : s.pc self with
      | idle =>
          rw [hpc] at hr
          cases a with
          | post flags =>
              obtain rfl := Option.some.inj hr
              have hsame := after_pc_same (r := ((s.obj.post s.k flags).1, (s.obj.post s.k flags).2,
                .idle)) hpc rfl
              obtain ⟨hinv, hposts⟩ := h.post flags rfl rfl hsame
              refine ⟨hinv, fun f hf => ?_⟩
              obtain rfl : flags = f := Option.some.inj hf
              exact hposts
          | clear flags =>
              obtain rfl := Option.some.inj hr
              have hsame := after_pc_same (r := (s.k, { s.obj with e := eventClear s.obj.e flags },
                .idle)) hpc rfl
              exact ⟨h.clear flags rfl rfl hsame, by simp [posted]⟩
          | wait flags mode timeout => exact ⟨h.wait hact hr, by simp [posted]⟩
          | finish => exact absurd hr (by simp [eventThread])
      | waiting ctx =>
          rw [hpc] at hr
          cases a with
          | finish => exact ⟨h.finish hact hpc hr, by simp [posted]⟩
          | _ => exact absurd hr (by simp [eventThread])

theorem Initial.inv (h : s.Initial) : s.Inv := by
  have hparked := parked_init s.k
  have hlist : s.obj.e.waitList = listInit := by rw [h.event]; rfl
  have hw : s.waiters = [] := by rw [waiters, hlist, hparked.nodes]
  refine ⟨?_, h.own, fun t ht => ?_, fun t ctx ht => ?_, ⟨fun t ht => ?_, ?_⟩, h.sleep⟩
  · rw [hw, hlist]
    exact hparked
  · rw [hw] at ht
    exact absurd ht List.not_mem_nil
  · rw [h.pc t] at ht
    exact absurd ht (by simp)
  · rw [hw] at ht
    exact absurd ht List.not_mem_nil
  · rw [h.returned]
    exact fun _ hx => absurd hx List.not_mem_nil

end EventSys

/--
**No event is missed.**

From `vibe_event_init` on, under any interleaving of posts, clears and waits by any
threads and interrupts, where each waiter has a context block of its own: nobody is
blocked whose condition the flags meet, each post wakes exactly those it concerns, in list
order, and a wait returns `VIBE_OK` exactly if its condition held at the call or at a
post made while it was blocked.
-/
theorem event_no_missed_event {cfg : Config} {s s' : EventSys} {labels : List EventLabel}
    (h : s.Initial) (hr : run (EventSys.step cfg) s labels = some s') :
    s'.Law ∧ ∀ l s'' flags, s'.step cfg l = some s'' → EventSys.posted l = some flags →
      s'.Posts flags s'' := by
  have hinv : s'.Inv := run_invariant (P := EventSys.Inv) (fun _ _ _ hi hs => (hi.step hs).1)
    h.inv hr
  exact ⟨hinv.law, fun l s'' flags hs hf => (hinv.step hs).2 flags hf⟩

/-- READY threads, each with a context block of its own, and a new event group. -/
def eventReady (cfg : Config) : EventSys where
  k := Kernel.bss cfg (fun t =>
    { threadDefine [] 512 0 0 0 5 with state := .ready, tls := some t.val }) none
  obj := ⟨eventInit, fun _ => ⟨0, .any, false⟩, fun _ => (0, .any), fun _ => false, []⟩
  pc := fun _ => .idle

theorem eventReady_initial (cfg : Config) : (eventReady cfg).Initial :=
  ⟨rfl, rfl, fun _ => rfl,
    fun _ _ _ ht hu => Fin.ext (Option.some.inj (ht.trans hu.symm)), rfl⟩

/-- Threads 1, 2 and 3 wait; a post meets the conditions of 1 and 3, and the flags are cleared
before these run. -/
theorem event_no_missed_event_cleared : ∃ s', run (EventSys.step ⟨1000, 10, true⟩)
      (eventReady ⟨1000, 10, true⟩)
      [.dispatch 1, .act (.wait 1 .any waitForever), .dispatch 2,
        .act (.wait 3 .all waitForever), .dispatch 3, .act (.wait 5 .any waitForever),
        .isr (.post 1), .isr (.clear 1), .dispatch 3, .act .finish, .dispatch 1,
        .act .finish] = some s'
    ∧ s'.obj.returned = [(1, .ok, true), (3, .ok, true)] ∧ s'.waiters = [2] ∧ s'.Law
    ∧ ∀ l s'' flags, s'.step ⟨1000, 10, true⟩ l = some s'' → EventSys.posted l = some flags →
      s'.Posts flags s'' := by
  obtain ⟨s', hrun, hfacts⟩ : ∃ s', run (EventSys.step ⟨1000, 10, true⟩)
      (eventReady ⟨1000, 10, true⟩)
      [.dispatch 1, .act (.wait 1 .any waitForever), .dispatch 2,
        .act (.wait 3 .all waitForever), .dispatch 3, .act (.wait 5 .any waitForever),
        .isr (.post 1), .isr (.clear 1), .dispatch 3, .act .finish, .dispatch 1,
        .act .finish] = some s'
      ∧ (s'.obj.returned, s'.waiters) = ([(1, .ok, true), (3, .ok, true)], [2]) :=
    Option.map_eq_some_iff.mp (by decide +kernel)
  simp only [Prod.mk.injEq] at hfacts
  exact ⟨s', hrun, hfacts.1, hfacts.2, event_no_missed_event (eventReady_initial _) hrun⟩

end VibeRtos
