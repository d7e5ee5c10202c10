import Mathlib

/-!
# Bounded channels with two wait lists

A channel of capacity `cap` holds `used` units. Threads that find it empty wait on one
list, threads that find it full on another. A transfer may take the first thread off
the opposite list; a thread taken off is *woken* until it acts again. The channel is
`Quiet` when nobody waits for what is there: as long as a woken thread has still to
act, it may yet use it up, so nothing is asked then.

`Accounted` says that the lists are what they are called: a thread inside a wait is on
exactly one of the wait lists, or woken. `quiet_exec_iff` says of each operation exactly
when it leaves the channel quiet, and `settles_of_fresh` that an operation of a thread that
was not woken always does, if its transfer wakes the other side.
-/

/-- A channel and its wait lists. -/
structure Chan (T : Type) where
  cap : Nat
  used : Nat
  readers : List T
  writers : List T
  /-- taken off a wait list and yet to act -/
  woken : List T

namespace Chan

variable {T : Type}

/-- What a thread does to a channel. -/
inductive Op (T : Type) where
  /-- put `n` units, and wake a reader or not -/
  | put (self : T) (n : Nat) (wakes : Bool)
  /-- take `n` units, and wake a writer or not -/
  | take (self : T) (n : Nat) (wakes : Bool)
  | waitRead (self : T)
  | waitWrite (self : T)
  /-- go away with nothing done -/
  | leave (self : T)

/-- The thread that acts. -/
def Op.self : Op T → T
  | .put self _ _ | .take self _ _ | .waitRead self | .waitWrite self | .leave self => self

/-- The thread waits from now on. -/
def Op.Parks : Op T → Prop
  | .waitRead _ | .waitWrite _ => True
  | _ => False

/-- A transfer wakes the other side. -/
def Op.Wakes : Op T → Prop
  | .put _ _ wakes | .take _ _ wakes => wakes = true
  | _ => True

/-- The units fit, or are there; a thread only waits for what is not there. -/
def Allowed (c : Chan T) : Op T → Prop
  | .put _ n _ => 0 < n ∧ c.used + n ≤ c.cap
  | .take _ n _ => 0 < n ∧ n ≤ c.used
  | .waitRead _ => c.used = 0
  | .waitWrite _ => c.used = c.cap
  | .leave _ => True

/-- Nobody waits for what is there, unless a woken thread has still to act. -/
def Quiet (c : Chan T) : Prop :=
  c.woken = [] → (c.readers ≠ [] → c.used = 0) ∧ (c.writers ≠ [] → c.used = c.cap)

variable [DecidableEq T]

/-- The channel after an operation. -/
def exec (c : Chan T) : Op T → Chan T
  | .put self n wakes => { c with
      used := c.used + n
      readers := if wakes then c.readers.tail else c.readers
      woken := c.woken.erase self ++ if wakes then c.readers.head?.toList else [] }
  | .take self n wakes => { c with
      used := c.used - n
      writers := if wakes then c.writers.tail else c.writers
      woken := c.woken.erase self ++ if wakes then c.writers.head?.toList else [] }
  | .waitRead self => { c with readers := c.readers ++ [self], woken := c.woken.erase self }
  | .waitWrite self => { c with writers := c.writers ++ [self], woken := c.woken.erase self }
  | .leave self => { c with woken := c.woken.erase self }

/-- If the thread is the last woken one, its operation concerns nobody that is left waiting. -/
def Settles (c : Chan T) (op : Op T) : Prop :=
  c.woken.erase op.self = [] →
    match op with
    | .put _ n wakes => (wakes = true ∧ c.readers ≠ [])
        ∨ (c.readers = [] ∧ (c.writers = [] ∨ c.used + n = c.cap))
    | .take _ n wakes => (wakes = true ∧ c.writers ≠ [])
        ∨ (c.writers = [] ∧ (c.readers = [] ∨ c.used = n))
    | .waitRead _ => c.writers = []
    | .waitWrite _ => c.readers = []
    | .leave _ => (c.readers ≠ [] → c.used = 0) ∧ (c.writers ≠ [] → c.used = c.cap)

variable {c : Chan T} {op : Op T}

/-- There is room for something, and no more used than there is. -/
structure Sound (c : Chan T) : Prop where
  cap : 0 < c.cap
  used : c.used ≤ c.cap

theorem Sound.exec (h : c.Sound) (ha : c.Allowed op) : (c.exec op).Sound := by
  have hused := h.used
  refine ⟨by cases op <;> exact h.cap, ?_⟩
  cases op with
  | put self n wakes => exact ha.2
  | take self n wakes => exact (Nat.sub_le c.used n).trans hused
  | waitRead self => exact hused
  | waitWrite self => exact hused
  | leave self => exact hused

/-- **Exactly the settling operations leave the channel quiet.** -/
theorem quiet_exec_iff (h : c.Sound) (ha : c.Allowed op) : (c.exec op).Quiet ↔ c.Settles op := by
  have hcap := h.cap
  have hle := h.used
  cases op with
  | put self n wakes =>
      obtain ⟨hn, -⟩ := ha
      have hused : ¬ c.used + n = 0 := by omega
      unfold Quiet Settles
      dsimp only [exec, Op.self]
      generalize c.woken.erase self = w
      cases c.readers with
      | nil => cases wakes <;> simp [or_iff_not_imp_left]
      | cons r rs =>
          cases wakes with
          | false => simp only [List.cons_ne_nil]; simp [hn.ne']
          | true => simp
  | take self n wakes =>
      obtain ⟨hn, hthere⟩ := ha
      have hfull : ¬ c.used - n = c.cap := by omega
      have hzero : c.used - n = 0 ↔ c.used = n := by omega
      unfold Quiet Settles
      dsimp only [exec, Op.self]
      generalize c.woken.erase self = w
      cases c.writers with
      | nil => cases wakes <;> simp [hzero, or_iff_not_imp_left]
      | cons r rs => cases wakes <;> simp [hfull]
  | waitRead self =>
      have hempty : c.used = 0 := ha
      simp [Quiet, Settles, exec, Op.self, hempty, hcap.ne]
  | waitWrite self =>
      have hfull : c.used = c.cap := ha
      simp [Quiet, Settles, exec, Op.self, hfull, hcap.ne']
  | leave self => rfl

/-- A thread that was not woken leaves a quiet channel quiet, if its transfer wakes. -/
theorem settles_of_fresh (hs : c.Sound) (h : c.Allowed op) (hquiet : c.Quiet)
    (hfresh : op.self ∉ c.woken) (hwakes : op.Wakes) : c.Settles op := by
  have hcap := hs.cap
  have hle := hs.used
  intro hlast
  rw [List.erase_of_not_mem hfresh] at hlast
  obtain ⟨hread, hwrite⟩ := hquiet hlast
  cases op with
  | put self n wakes =>
      obtain ⟨hn, hfit⟩ := h
      -- there was room, so nobody waited for room
      have hnil : c.writers = [] := by
        by_contra hne
        have hfull := hwrite hne
        omega
      by_cases hr : c.readers = []
      · exact Or.inr ⟨hr, Or.inl hnil⟩
      · exact Or.inl ⟨hwakes, hr⟩
  | take self n wakes =>
      obtain ⟨hn, hthere⟩ := h
      have hnil : c.readers = [] := by
        by_contra hne
        have hempty := hread hne
        omega
      by_cases hw : c.writers = []
      · exact Or.inr ⟨hw, Or.inl hnil⟩
      · exact Or.inl ⟨hwakes, hw⟩
  | waitRead self =>
      have hempty : c.used = 0 := h
      by_contra hne
      have hfull := hwrite hne
      omega
  | waitWrite self =>
      have hfull : c.used = c.cap := h
      by_contra hne
      have hempty := hread hne
      omega
  | leave self => exact ⟨hread, hwrite⟩

/-! ## The lists -/

/-- The threads for which `busy` holds are on one list each, and no other is on any. -/
structure Accounted (busy : T → Prop) (c : Chan T) : Prop where
  readers : c.readers.Nodup
  writers : c.writers.Nodup
  once : c.woken.Nodup
  apart : ∀ t ∈ c.readers, t ∉ c.writers
  reading : ∀ t ∈ c.readers, busy t
  writing : ∀ t ∈ c.writers, busy t
  woken : ∀ t, t ∈ c.woken ↔ busy t ∧ t ∉ c.readers ∧ t ∉ c.writers

variable {busy busy' : T → Prop}

omit [DecidableEq T] in
theorem mem_head_or_tail {xs : List T} {t : T} : t ∈ xs ↔ t ∈ xs.head?.toList ∨ t ∈ xs.tail := by
  cases xs <;> simp

omit [DecidableEq T] in
theorem head_not_mem_tail {xs : List T} {t : T} (h : xs.Nodup) (ht : t ∈ xs.head?.toList) :
    t ∉ xs.tail := by
  cases xs with
  | nil => simp at ht
  | cons x xs =>
      obtain rfl : t = x := by simpa using ht
      exact (List.nodup_cons.mp h).1

/-- Taking the first thread off one list puts it among the woken. -/
theorem Accounted.wake {xs woken : List T} (ys : List T) (hx : xs.Nodup) (hone : woken.Nodup)
    (hap : ∀ t ∈ xs, t ∉ ys) (hbusy : ∀ t ∈ xs, busy t)
    (hw : ∀ t, t ∈ woken ↔ busy t ∧ t ∉ xs ∧ t ∉ ys) :
    (woken ++ xs.head?.toList).Nodup
      ∧ ∀ t, t ∈ woken ++ xs.head?.toList ↔ busy t ∧ t ∉ xs.tail ∧ t ∉ ys := by
  constructor
  · refine List.nodup_append.mpr ⟨hone, by cases xs <;> simp, ?_⟩
    intro t ht u hu he
    subst he
    exact ((hw t).mp ht).2.1 (mem_head_or_tail.mpr (Or.inl hu))
  · intro t
    rw [List.mem_append, hw]
    by_cases hh : t ∈ xs.head?.toList
    · have hin : t ∈ xs := mem_head_or_tail.mpr (Or.inl hh)
      simp only [hh, or_true, true_iff]
      exact ⟨hbusy t hin, head_not_mem_tail hx hh, hap t hin⟩
    · have hxs : t ∈ xs ↔ t ∈ xs.head?.toList ∨ t ∈ xs.tail := mem_head_or_tail
      rw [hxs]
      tauto

/-- The acting thread is on no wait list, and it alone may begin or end a wait. -/
theorem Accounted.exec {u : T} (h : c.Accounted busy) (hu : op.self = u) (hr : u ∉ c.readers)
    (hw : u ∉ c.writers) (hother : ∀ t, t ≠ u → (busy' t ↔ busy t))
    (hself : busy' u ↔ op.Parks) : (c.exec op).Accounted busy' := by
  have hread : ∀ t ∈ c.readers, t ≠ u := fun t ht he => hr (he ▸ ht)
  have hwrite : ∀ t ∈ c.writers, t ≠ u := fun t ht he => hw (he ▸ ht)
  have hreading : ∀ t ∈ c.readers, busy' t :=
    fun t ht => (hother t (hread t ht)).mpr (h.reading t ht)
  have hwriting : ∀ t ∈ c.writers, busy' t :=
    fun t ht => (hother t (hwrite t ht)).mpr (h.writing t ht)
  have hone : (c.woken.erase u).Nodup := h.once.erase _
  have herase : ∀ t, t ∈ c.woken.erase u ↔ t ≠ u ∧ busy t ∧ t ∉ c.readers
      ∧ t ∉ c.writers := by
    intro t
    rw [h.once.mem_erase_iff, h.woken]
  -- the woken list once the acting thread is off it, if that thread does not wait
  have hgone : ¬ op.Parks → ∀ t, t ∈ c.woken.erase u ↔ busy' t ∧ t ∉ c.readers
      ∧ t ∉ c.writers := by
    intro hp t
    rw [herase]
    by_cases ht : t = u
    · have hidle : ¬ busy' u := fun hb => hp (hself.mp hb)
      simp [ht, hidle]
    · rw [hother t ht]
      simp [ht]
  cases op with
  | put self n wakes =>
      obtain rfl : self = u := hu
      have hgone' := hgone id
      cases wakes with
      | false =>
          refine ⟨h.readers, h.writers, ?_, h.apart, hreading, hwriting, ?_⟩
          · simpa [Chan.exec] using hone
          · simpa [Chan.exec] using hgone'
      | true =>
          obtain ⟨hn, hmem⟩ := Accounted.wake c.writers h.readers hone h.apart hreading hgone'
          exact ⟨h.readers.tail, h.writers, hn, fun t ht => h.apart t (List.mem_of_mem_tail ht),
            fun t ht => hreading t (List.mem_of_mem_tail ht), hwriting, hmem⟩
  | take self n wakes =>
      obtain rfl : self = u := hu
      have hgone' := hgone id
      cases wakes with
      | false =>
          refine ⟨h.readers, h.writers, ?_, h.apart, hreading, hwriting, ?_⟩
          · simpa [Chan.exec] using hone
          · simpa [Chan.exec] using hgone'
      | true =>
          obtain ⟨hn, hmem⟩ := Accounted.wake c.readers h.writers hone
            (fun t ht hin => h.apart t hin ht) hwriting
            (fun t => by rw [hgone' t, and_comm (a := t ∉ c.readers)])
          refine ⟨h.readers, h.writers.tail, hn,
            fun t ht hin => h.apart t ht (List.mem_of_mem_tail hin),
            hreading, fun t ht => hwriting t (List.mem_of_mem_tail ht), fun t => ?_⟩
          rw [and_comm (a := t ∉ _)]
          exact hmem t
  | waitRead self =>
      obtain rfl : self = u := hu
      have hbusy : busy' self := hself.mpr trivial
      refine ⟨?_, h.writers, hone, ?_, ?_, hwriting, ?_⟩
      · exact h.readers.append (List.nodup_singleton self) (by simpa using hr)
      · intro t ht
        rcases List.mem_append.mp ht with ht | ht
        · exact h.apart t ht
        · obtain rfl := List.mem_singleton.mp ht
          exact hw
      · intro t ht
        rcases List.mem_append.mp ht with ht | ht
        · exact hreading t ht
        · obtain rfl := List.mem_singleton.mp ht
          exact hbusy
      · intro t
        show t ∈ c.woken.erase self ↔ busy' t ∧ t ∉ c.readers ++ [self] ∧ t ∉ c.writers
        rw [herase]
        by_cases ht : t = self
        · simp [ht]
        · rw [hother t ht]
          simp [ht]
  | waitWrite self =>
      obtain rfl : self = u := hu
      have hbusy : busy' self := hself.mpr trivial
      refine ⟨h.readers, ?_, hone, ?_, hreading, ?_, ?_⟩
      · exact h.writers.append (List.nodup_singleton self) (by simpa using hw)
      · intro t ht hin
        rcases List.mem_append.mp hin with hin | hin
        · exact h.apart t ht hin
        · obtain rfl := List.mem_singleton.mp hin
          exact hr ht
      · intro t ht
        rcases List.mem_append.mp ht with ht | ht
        · exact hwriting t ht
        · obtain rfl := List.mem_singleton.mp ht
          exact hbusy
      · intro t
        show t ∈ c.woken.erase self ↔ busy' t ∧ t ∉ c.readers ∧ t ∉ c.writers ++ [self]
        rw [herase]
        by_cases ht : t = self
        · simp [ht]
        · rw [hother t ht]
          simp [ht]
  | leave self =>
      obtain rfl : self = u := hu
      exact ⟨h.readers, h.writers, hone, h.apart, hreading, hwriting, hgone id⟩

/-- A reader has waited before, or begins to. -/
theorem mem_readers_exec {t : T} (h : t ∈ (c.exec op).readers) :
    t ∈ c.readers ∨ op = .waitRead t := by
  cases op with
  | put self n wakes =>
      cases wakes with
      | false => exact Or.inl h
      | true => exact Or.inl (List.mem_of_mem_tail h)
  | waitRead self =>
      rcases List.mem_append.mp h with h | h
      · exact Or.inl h
      · obtain rfl := List.mem_singleton.mp h
        exact Or.inr rfl
  | take self n wakes | waitWrite self | leave self => exact Or.inl h

theorem mem_writers_exec {t : T} (h : t ∈ (c.exec op).writers) :
    t ∈ c.writers ∨ op = .waitWrite t := by
  cases op with
  | take self n wakes =>
      cases wakes with
      | false => exact Or.inl h
      | true => exact Or.inl (List.mem_of_mem_tail h)
  | waitWrite self =>
      rcases List.mem_append.mp h with h | h
      · exact Or.inl h
      · obtain rfl := List.mem_singleton.mp h
        exact Or.inr rfl
  | put self n wakes | waitRead self | leave self => exact Or.inl h

/-! ## Where every transfer wakes -/

/-- `reads` tells the two kinds of threads apart. If readers wait at a full channel, or writers
at an empty one, then a woken thread of their kind has still to act. -/
structure Served (reads : T → Prop) (c : Chan T) : Prop where
  readers : ∀ t ∈ c.readers, reads t
  writers : ∀ t ∈ c.writers, ¬ reads t
  full : c.readers ≠ [] → c.used = c.cap → ∃ t ∈ c.woken, reads t
  empty : c.writers ≠ [] → c.used = 0 → ∃ t ∈ c.woken, ¬ reads t

/-- A thread keeps to its side, wakes the other, and leaves only when it can do nothing. -/
def Fair (reads : T → Prop) (c : Chan T) : Op T → Prop
  | .put self _ wakes => ¬ reads self ∧ wakes = true
  | .take self _ wakes => reads self ∧ wakes = true
  | .waitRead self => reads self
  | .waitWrite self => ¬ reads self
  | .leave self => self ∈ c.woken → reads self ∧ c.used = 0 ∨ ¬ reads self ∧ c.used = c.cap

variable {reads reads' : T → Prop}

/-- A woken thread of one kind stays woken while a thread of the other kind acts. -/
theorem mem_erase_of_kind {woken : List T} {p : T → Prop} {u : T} (hu : ¬ p u)
    (h : ∃ t ∈ woken, p t) : ∃ t ∈ woken.erase u, p t := by
  obtain ⟨t, ht, hp⟩ := h
  have hne : t ≠ u := fun he => hu (he ▸ hp)
  exact ⟨t, (List.mem_erase_of_ne hne).mpr ht, hp⟩

/-- Of waits and departures the last woken thread's are no trouble. -/
theorem Served.settles (h : c.Served reads) (hs : c.Sound) (ha : c.Allowed op)
    (hf : c.Fair reads op) (hstay : (∃ u, op = .waitRead u) ∨ (∃ u, op = .waitWrite u)
      ∨ ∃ u, op = .leave u ∧ u ∈ c.woken) : c.Settles op := by
  have hcap := hs.cap
  intro hlast
  have hnone : ∀ p : T → Prop, ¬ ∃ t ∈ c.woken.erase op.self, p t := by
    intro p hp
    rw [hlast] at hp
    obtain ⟨t, ht, -⟩ := hp
    exact List.not_mem_nil ht
  rcases hstay with ⟨u, rfl⟩ | ⟨u, rfl⟩ | ⟨u, rfl, hu⟩
  · by_contra hne
    exact hnone _ (mem_erase_of_kind (not_not.mpr hf) (h.empty hne ha))
  · by_contra hne
    exact hnone _ (mem_erase_of_kind hf (h.full hne ha))
  · rcases hf hu with ⟨hr, hempty⟩ | ⟨hr, hfull⟩
    · refine ⟨fun _ => hempty, fun hne => ?_⟩
      exact absurd (mem_erase_of_kind (p := fun t => ¬ reads t) (not_not.mpr hr)
        (h.empty hne hempty)) (hnone _)
    · refine ⟨fun hne => ?_, fun _ => hfull⟩
      exact absurd (mem_erase_of_kind hr (h.full hne hfull)) (hnone _)

omit [DecidableEq T] in
/-- Only the kinds of the listed threads matter. -/
theorem Served.congr (h : c.Served reads) (hr : ∀ t ∈ c.readers, reads' t ↔ reads t)
    (hw : ∀ t ∈ c.writers, reads' t ↔ reads t) (hk : ∀ t ∈ c.woken, reads' t ↔ reads t) :
    c.Served reads' := by
  refine ⟨fun t ht => (hr t ht).mpr (h.readers t ht), fun t ht => ?_, fun hne hfull => ?_,
    fun hne hempty => ?_⟩
  · rw [hw t ht]
    exact h.writers t ht
  · obtain ⟨t, ht, hp⟩ := h.full hne hfull
    exact ⟨t, ht, (hk t ht).mpr hp⟩
  · obtain ⟨t, ht, hp⟩ := h.empty hne hempty
    refine ⟨t, ht, ?_⟩
    rwa [hk t ht]

theorem Served.exec (h : c.Served reads) (hs : c.Sound) (ha : c.Allowed op)
    (hf : c.Fair reads op) : (c.exec op).Served reads := by
  have hcap := hs.cap
  have hused := hs.used
  cases op with
  | put self n wakes =>
      obtain ⟨hn, -⟩ := ha
      obtain ⟨-, rfl⟩ := hf
      refine ⟨fun t ht => h.readers t (List.mem_of_mem_tail ht), h.writers, fun hne _ => ?_,
        fun _ hempty => ?_⟩
      · -- the reader woken by this put
        have hne' : c.readers.tail ≠ [] := hne
        cases hr : c.readers with
        | nil =>
            rw [hr] at hne'
            exact absurd rfl hne'
        | cons x xs =>
            exact ⟨x, by simp [Chan.exec, hr], h.readers x (by simp [hr])⟩
      · have hempty' : c.used + n = 0 := hempty
        omega
  | take self n wakes =>
      obtain ⟨hn, hthere⟩ := ha
      obtain ⟨-, rfl⟩ := hf
      refine ⟨h.readers, fun t ht => h.writers t (List.mem_of_mem_tail ht), fun _ hfull => ?_,
        fun hne _ => ?_⟩
      · have hfull' : c.used - n = c.cap := hfull
        omega
      · have hne' : c.writers.tail ≠ [] := hne
        cases hw : c.writers with
        | nil =>
            rw [hw] at hne'
            exact absurd rfl hne'
        | cons x xs =>
            exact ⟨x, by simp [Chan.exec, hw], h.writers x (by simp [hw])⟩
  | waitRead self =>
      have hempty : c.used = 0 := ha
      refine ⟨fun t ht => ?_, h.writers, fun _ hfull => ?_, fun hne _ => ?_⟩
      · rcases List.mem_append.mp ht with ht | ht
        · exact h.readers t ht
        · obtain rfl := List.mem_singleton.mp ht
          exact hf
      · have hfull' : c.used = c.cap := hfull
        omega
      · exact mem_erase_of_kind (p := fun t => ¬ reads t) (not_not.mpr hf) (h.empty hne hempty)
  | waitWrite self =>
      have hfull : c.used = c.cap := ha
      refine ⟨h.readers, fun t ht => ?_, fun hne _ => ?_, fun _ hempty => ?_⟩
      · rcases List.mem_append.mp ht with ht | ht
        · exact h.writers t ht
        · obtain rfl := List.mem_singleton.mp ht
          exact hf
      · exact mem_erase_of_kind hf (h.full hne hfull)
      · have hempty' : c.used = 0 := hempty
        omega
  | leave self =>
      refine ⟨h.readers, h.writers, fun hne hfull => ?_, fun hne hempty => ?_⟩
      · have hfull' : c.used = c.cap := hfull
        by_cases hin : self ∈ c.woken
        · rcases hf hin with ⟨-, hempty⟩ | ⟨hr, -⟩
          · omega
          · exact mem_erase_of_kind hr (h.full hne hfull)
        · show ∃ t ∈ c.woken.erase self, reads t
          rw [List.erase_of_not_mem hin]
          exact h.full hne hfull
      · have hempty' : c.used = 0 := hempty
        by_cases hin : self ∈ c.woken
        · rcases hf hin with ⟨hr, -⟩ | ⟨-, hfull⟩
          · exact mem_erase_of_kind (p := fun t => ¬ reads t) (not_not.mpr hr) (h.empty hne hempty)
          · omega
        · show ∃ t ∈ c.woken.erase self, ¬ reads t
          rw [List.erase_of_not_mem hin]
          exact h.empty hne hempty

/-! ## Where nobody waits for room -/

/-- While readers wait, a woken thread has still to act for every unit that is there. -/
def Earmarked (c : Chan T) : Prop := c.readers ≠ [] → c.used ≤ c.woken.length

/-- Units are put and taken one by one, a put wakes and is no woken thread's, and a woken
thread that takes nothing finds nothing. -/
def Single (c : Chan T) : Op T → Prop
  | .put self n wakes => n = 1 ∧ wakes = true ∧ self ∉ c.woken
  | .take _ n _ => n = 1
  | .waitRead _ => c.used = 0
  | .waitWrite self => self ∉ c.woken
  | .leave self => self ∈ c.woken → c.used = 0

/-- A thread that acts is woken at most once. -/
theorem length_le_erase (woken : List T) (u : T) : woken.length - 1 ≤ (woken.erase u).length := by
  rw [List.length_erase]
  split
  · exact le_rfl
  · exact Nat.sub_le _ _

/-- **Nobody waits for a unit that no woken thread is on its way for.** -/
theorem Earmarked.exec (h : c.Earmarked) (hs : c.Single op) : (c.exec op).Earmarked := by
  cases op with
  | put self n wakes =>
      obtain ⟨rfl, rfl, hfresh⟩ := hs
      intro hne
      have hne' : c.readers.tail ≠ [] := hne
      show c.used + 1 ≤ (c.woken.erase self ++ c.readers.head?.toList).length
      rw [List.erase_of_not_mem hfresh, List.length_append]
      -- one unit more, and one woken thread more
      cases hr : c.readers with
      | nil =>
          rw [hr] at hne'
          exact absurd rfl hne'
      | cons x xs =>
          have hle : c.used ≤ c.woken.length := h (by simp [hr])
          exact Nat.succ_le_succ hle
  | take self n wakes =>
      obtain rfl : n = 1 := hs
      intro hne
      have hle : c.used ≤ c.woken.length := h hne
      show c.used - 1 ≤ (c.woken.erase self ++ _).length
      rw [List.length_append]
      -- one unit less, and at most one woken thread less
      calc c.used - 1 ≤ c.woken.length - 1 := Nat.sub_le_sub_right hle 1
        _ ≤ (c.woken.erase self).length := length_le_erase _ _
        _ ≤ _ := Nat.le_add_right _ _
  | waitRead self =>
      have hempty : c.used = 0 := hs
      intro _
      show c.used ≤ _
      rw [hempty]
      exact Nat.zero_le _
  | waitWrite self =>
      intro hne
      show c.used ≤ (c.woken.erase self).length
      rw [List.erase_of_not_mem hs]
      exact h hne
  | leave self =>
      intro hne
      show c.used ≤ (c.woken.erase self).length
      by_cases hin : self ∈ c.woken
      · have hempty : c.used = 0 := hs hin
        rw [hempty]
        exact Nat.zero_le _
      · rw [List.erase_of_not_mem hin]
        exact h hne

/-! ## What is kept for the woken -/

/-- There is a unit for each woken thread of one kind, and room for one for each of another. -/
structure Granted (gets puts : T → Prop) [DecidablePred gets] [DecidablePred puts]
    (c : Chan T) : Prop where
  there : c.woken.countP gets ≤ c.used
  room : c.woken.countP puts + c.used ≤ c.cap

variable {gets puts gets' puts' : T → Prop} [DecidablePred gets] [DecidablePred puts]
  [DecidablePred gets'] [DecidablePred puts']

/-- A transfer leaves enough for the woken threads other than the one that makes it. -/
def Spares (gets puts : T → Prop) [DecidablePred gets] [DecidablePred puts] (c : Chan T) :
    Op T → Prop
  | .put self n _ => (c.woken.erase self).countP puts + (c.used + n) ≤ c.cap
  | .take self n _ => (c.woken.erase self).countP gets + n ≤ c.used
  | _ => True

/-- A woken thread of the right kind makes its transfer without touching what is kept for the
others. -/
theorem Granted.spares_put (h : c.Granted gets puts) {u : T} (hin : u ∈ c.woken) (hu : puts u)
    (wakes : Bool) : c.Spares gets puts (.put u 1 wakes) := by
  have hcount : (c.woken.erase u).countP puts = c.woken.countP puts - 1 := by
    rw [List.countP_erase, if_pos ⟨hin, decide_eq_true hu⟩]
  have hpos : 0 < c.woken.countP puts := List.countP_pos_iff.mpr ⟨u, hin, decide_eq_true hu⟩
  have hroom := h.room
  show (c.woken.erase u).countP puts + (c.used + 1) ≤ c.cap
  omega

theorem Granted.spares_take (h : c.Granted gets puts) {u : T} (hin : u ∈ c.woken) (hu : gets u)
    (wakes : Bool) : c.Spares gets puts (.take u 1 wakes) := by
  have hcount : (c.woken.erase u).countP gets = c.woken.countP gets - 1 := by
    rw [List.countP_erase, if_pos ⟨hin, decide_eq_true hu⟩]
  have hpos : 0 < c.woken.countP gets := List.countP_pos_iff.mpr ⟨u, hin, decide_eq_true hu⟩
  have hthere := h.there
  show (c.woken.erase u).countP gets + 1 ≤ c.used
  omega

omit [DecidableEq T] in
theorem countP_congr_ne {woken : List T} {u : T} (hu : u ∉ woken)
    (hp : ∀ t, t ≠ u → (gets' t ↔ gets t)) : woken.countP gets' = woken.countP gets := by
  refine List.countP_congr fun t ht => ?_
  have hne : t ≠ u := fun he => hu (he ▸ ht)
  simpa using hp t hne

/-- The woken threads of a kind after a transfer that may wake one more. -/
theorem countP_wake_le {woken xs : List T} {u : T} (hone : woken.Nodup) (hxs : u ∉ xs)
    (hp : ∀ t, t ≠ u → (gets' t ↔ gets t)) (wakes : Bool) :
    (woken.erase u ++ if wakes then xs.head?.toList else []).countP gets'
      ≤ (woken.erase u).countP gets + 1 := by
  have herase := countP_congr_ne (hone.not_mem_erase (a := u)) hp
  rw [List.countP_append, herase]
  refine Nat.add_le_add_left ?_ _
  refine List.countP_le_length.trans ?_
  cases wakes <;> cases xs <;> simp

/-- The same, for a kind that the thread woken is not of. -/
theorem countP_wake_other {woken xs : List T} {u : T} (hone : woken.Nodup) (hxs : u ∉ xs)
    (hnone : ∀ t ∈ xs, ¬ gets t) (hp : ∀ t, t ≠ u → (gets' t ↔ gets t)) (wakes : Bool) :
    (woken.erase u ++ if wakes then xs.head?.toList else []).countP gets'
      = (woken.erase u).countP gets := by
  have herase := countP_congr_ne (hone.not_mem_erase (a := u)) hp
  rw [List.countP_append, herase]
  have hzero : (if wakes then xs.head?.toList else []).countP gets' = 0 := by
    refine List.countP_eq_zero.mpr fun t ht => ?_
    have hin : t ∈ xs := by
      cases wakes with
      | false => exact absurd ht (by simp)
      | true => exact mem_head_or_tail.mpr (Or.inl ht)
    have hne : t ≠ u := fun he => hxs (he ▸ hin)
    simpa [hp t hne] using hnone t hin
  rw [hzero, Nat.add_zero]

/-- **What is kept for the woken stays kept**, if the kinds of the other threads stay. -/
theorem Granted.exec {u : T} (h : c.Granted gets puts) (hu : op.self = u) (ha : c.Allowed op)
    (hs : c.Spares gets puts op) (hone : c.woken.Nodup) (hr : u ∉ c.readers) (hw : u ∉ c.writers)
    (hreaders : ∀ t ∈ c.readers, ¬ puts t) (hwriters : ∀ t ∈ c.writers, ¬ gets t)
    (hgets : ∀ t, t ≠ u → (gets' t ↔ gets t)) (hputs : ∀ t, t ≠ u → (puts' t ↔ puts t)) :
    (c.exec op).Granted gets' puts' := by
  have hsub : (c.woken.erase u).Sublist c.woken := List.erase_sublist
  have hg : (c.woken.erase u).countP gets ≤ c.used := (hsub.countP_le).trans h.there
  have hp : (c.woken.erase u).countP puts + c.used ≤ c.cap :=
    (Nat.add_le_add_right hsub.countP_le _).trans h.room
  have hg' : (c.woken.erase u).countP gets' = (c.woken.erase u).countP gets :=
    countP_congr_ne hone.not_mem_erase hgets
  have hp' : (c.woken.erase u).countP puts' = (c.woken.erase u).countP puts :=
    countP_congr_ne hone.not_mem_erase hputs
  cases op with
  | put self n wakes =>
      obtain rfl : self = u := hu
      have hn : 0 < n := ha.1
      refine ⟨?_, ?_⟩
      · refine (countP_wake_le hone hr hgets wakes).trans ?_
        exact Nat.add_le_add hg hn
      · show (c.woken.erase self ++ _).countP puts' + (c.used + n) ≤ c.cap
        rw [countP_wake_other hone hr hreaders hputs wakes]
        exact hs
  | take self n wakes =>
      obtain rfl : self = u := hu
      obtain ⟨hn, hthere⟩ := ha
      have hs' : (c.woken.erase self).countP gets + n ≤ c.used := hs
      refine ⟨?_, ?_⟩
      · show (c.woken.erase self ++ _).countP gets' ≤ c.used - n
        rw [countP_wake_other hone hw hwriters hgets wakes]
        omega
      · have hle := countP_wake_le hone hw hputs wakes
        show (c.woken.erase self ++ _).countP puts' + (c.used - n) ≤ c.cap
        omega
  | waitRead self | waitWrite self | leave self =>
      obtain rfl : self = u := hu
      exact ⟨hg'.trans_le hg, (Nat.add_le_add_right hp'.le _).trans hp⟩

end Chan
