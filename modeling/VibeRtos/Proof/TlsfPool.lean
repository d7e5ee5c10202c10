import VibeRtos.Proof.TlsfBlocks
import VibeRtos.Proof.TlsfLists

/-!
# Blocks and free lists together

`Rep c mem zs fs f` joins the two descriptions of the memory: the headers describe the
blocks `zs`, the lists describe the family `f`, and the members of `f` are the blocks of
`fs` that count as free. While an operation works on a block, `fs` is what is left of
`zs` without it. Steps that write headers and steps that write lists do not disturb each
other, and neither touches the payload of a block in use.
-/

namespace VibeRtos

open ByteMem Links Tiling

namespace Tlsf

/-- The blocks that are in use. -/
def liveBlocks (bs : List TBlock) : List TBlock := bs.filter fun b => b.tag.req.isSome

/-- The payloads of the blocks `us` are the same in both memories. -/
def PayloadsKept (us : List TBlock) (mem mem' : Mem) : Prop :=
  ∀ d ∈ us, ∀ i < d.size, mem' (d.addr + 8 + i) = mem (d.addr + 8 + i)

/-- The family `f` lists the blocks of `fs` that count as free, each in its class. -/
structure Listing (zs fs : List TBlock) (f : Nat × Nat → List Nat) : Prop where
  sub : fs.Sublist zs
  least : ∀ b ∈ fs, 8 ≤ b.size
  listed : ∀ k a, a ∈ f k ↔ ∃ b ∈ fs, b.tag.req = none ∧ b.addr = a ∧ mapping b.size = k
  nodup : ∀ k, (f k).Nodup

/-- The headers describe `zs`, and the lists hold the blocks of `fs` that count as free. -/
structure Rep (c : TlsfConfig) (mem : Mem) (zs fs : List TBlock) (f : Nat × Nat → List Nat) :
    Prop extends Listing zs fs f where
  headers : Headers c.toHeapConfig mem zs
  lists : Lists mem c.pool f

variable {c : TlsfConfig} {mem mem' mem'' : Mem} {xs ys zs zs' fs us : List TBlock} {b d : TBlock}
  {f : Nat × Nat → List Nat} {x : Nat}

theorem mem_liveBlocks : b ∈ liveBlocks fs ↔ b ∈ fs ∧ b.tag.req.isSome := by
  simp [liveBlocks]

@[simp] theorem liveBlocks_append : liveBlocks (xs ++ ys) = liveBlocks xs ++ liveBlocks ys := by
  simp [liveBlocks]

theorem liveBlocks_cons_free (hb : b.tag.req = none) : liveBlocks (b :: ys) = liveBlocks ys := by
  simp [liveBlocks, hb]

theorem liveBlocks_cons_live {r : Nat} (hb : b.tag.req = some r) :
    liveBlocks (b :: ys) = b :: liveBlocks ys := by
  simp [liveBlocks, hb]

theorem PayloadsKept.refl : PayloadsKept us mem mem := fun _ _ _ _ => rfl

theorem PayloadsKept.trans (h : PayloadsKept us mem mem') (h' : PayloadsKept us mem' mem'') :
    PayloadsKept us mem mem'' :=
  fun d hd i hi => (h' d hd i hi).trans (h d hd i hi)

theorem Listing.addr_nodup (h : Listing zs fs f) (hz : Headers c.toHeapConfig mem zs) :
    (fs.map Block.addr).Nodup :=
  (hz.tiles.nodup_addr (by decide)).sublist (h.sub.map _)

/-- The members of the lists are blocks, so they lie apart. -/
theorem Listing.family (h : Listing zs fs f) (hz : Headers c.toHeapConfig mem zs) :
    Family c.pool f := by
  have hblock : ∀ {k a}, a ∈ f k → ∃ b ∈ zs, b.addr = a ∧ 8 ≤ b.size ∧ mapping b.size = k := by
    intro k a ha
    obtain ⟨b, hb, -, hba, hk⟩ := (h.listed k a).mp ha
    exact ⟨b, h.sub.subset hb, hba, h.least b hb, hk⟩
  refine ⟨fun k a ha => ?_, fun k a ha => ?_, fun k k' a ha a' ha' => ?_, fun k k' a ha ha' => ?_,
    h.nodup, fun k hk => ?_⟩
  · obtain ⟨b, hb, rfl, -⟩ := hblock ha
    exact (hz.bounds hb).1
  · obtain ⟨b, hb, rfl, h8, -⟩ := hblock ha
    have hlim := (hz.bounds hb).2.2
    omega
  · obtain ⟨b, hb, rfl, h8, -⟩ := hblock ha
    obtain ⟨d, hd, rfl, h8', -⟩ := hblock ha'
    by_cases he : b.addr = d.addr
    · exact Or.inl he
    · have hapart := hz.tiles.apart_of_ne hb hd he
      unfold blockHdrOffset at hapart
      omega
  · obtain ⟨b, hb, rfl, -, rfl⟩ := hblock ha
    obtain ⟨d, hd, he, -, rfl⟩ := hblock ha'
    rw [hz.tiles.addr_inj (by decide) hd hb he]
  · obtain ⟨a, ha⟩ := List.exists_mem_of_ne_nil _ hk
    obtain ⟨b, hb, -, -, rfl⟩ := hblock ha
    have hlim := hz.bounds hb
    have hsmall := c.small
    exact (mapping_inRange (by omega)).mpr (by omega)

/-- Another block of the pool has another address. -/
theorem Listing.addr_ne (h : Listing zs (xs ++ b :: ys) f) (hz : Headers c.toHeapConfig mem zs)
    (hd : d ∈ xs ++ ys) : d.addr ≠ b.addr := by
  have hnd := h.addr_nodup hz
  rw [List.map_append, List.map_cons] at hnd
  intro he
  rcases List.mem_append.mp hd with hd | hd
  · exact (List.nodup_append.mp hnd).2.2 d.addr (List.mem_map_of_mem hd) b.addr
      List.mem_cons_self he
  · refine (List.nodup_cons.mp (List.nodup_append.mp hnd).2.1).1 ?_
    exact he ▸ List.mem_map_of_mem hd

theorem mem_middle : d ∈ xs ++ b :: ys ↔ d = b ∨ d ∈ xs ++ ys := by
  simp only [List.mem_append, List.mem_cons]
  tauto

theorem sublist_middle : (xs ++ ys).Sublist (xs ++ b :: ys) :=
  (List.Sublist.refl xs).append (List.sublist_cons_self b ys)

/-- A block in use is in no list. -/
theorem listing_live (hb : b.tag.req ≠ none) (h8 : 8 ≤ b.size)
    (hsub : (xs ++ b :: ys).Sublist zs) :
    Listing zs (xs ++ b :: ys) f ↔ Listing zs (xs ++ ys) f := by
  have hany : ∀ k a, (∃ d ∈ xs ++ b :: ys, d.tag.req = none ∧ d.addr = a ∧ mapping d.size = k)
      ↔ ∃ d ∈ xs ++ ys, d.tag.req = none ∧ d.addr = a ∧ mapping d.size = k := by
    intro k a
    constructor
    · rintro ⟨d, hd, hreq, hrest⟩
      rcases mem_middle.mp hd with rfl | hd
      · exact absurd hreq hb
      · exact ⟨d, hd, hreq, hrest⟩
    · rintro ⟨d, hd, hrest⟩
      exact ⟨d, mem_middle.mpr (Or.inr hd), hrest⟩
  constructor
  · intro h
    exact ⟨sublist_middle.trans h.sub, fun d hd => h.least d (mem_middle.mpr (Or.inr hd)),
      fun k a => (h.listed k a).trans (hany k a), h.nodup⟩
  · intro h
    refine ⟨hsub, fun d hd => ?_, fun k a => (h.listed k a).trans (hany k a).symm, h.nodup⟩
    rcases mem_middle.mp hd with rfl | hd
    · exact h8
    · exact h.least d hd

/-- A block is taken out of its list. -/
theorem Listing.remove {us vs : List Nat} (h : Listing zs (xs ++ b :: ys) f)
    (hz : Headers c.toHeapConfig mem zs) (hl : f (mapping b.size) = us ++ b.addr :: vs) :
    Listing zs (xs ++ ys) (Function.update f (mapping b.size) (us ++ vs)) := by
  have hnd := h.nodup (mapping b.size)
  rw [hl] at hnd
  have hself : b.addr ∉ us ++ vs := (List.nodup_cons.mp (List.nodup_middle.mp hnd)).1
  refine ⟨sublist_middle.trans h.sub, fun d hd => h.least d (mem_middle.mpr (Or.inr hd)),
    fun k a => ?_, fun k => ?_⟩
  · by_cases hk : k = mapping b.size
    · subst hk
      have hiff : a ∈ us ++ vs ↔ a ∈ f (mapping b.size) ∧ a ≠ b.addr := by
        rw [hl]
        simp only [List.mem_append, List.mem_cons] at hself ⊢
        constructor
        · intro ha
          exact ⟨ha.imp_right Or.inr, fun he => hself (he ▸ ha)⟩
        · intro ⟨ha, hne⟩
          exact ha.imp_right fun ha => ha.resolve_left hne
      rw [Function.update_self, hiff, h.listed]
      constructor
      · rintro ⟨⟨d, hd, hreq, rfl, hdk⟩, hne⟩
        rcases mem_middle.mp hd with rfl | hd
        · exact absurd rfl hne
        · exact ⟨d, hd, hreq, rfl, hdk⟩
      · rintro ⟨d, hd, hreq, rfl, hdk⟩
        exact ⟨⟨d, mem_middle.mpr (Or.inr hd), hreq, rfl, hdk⟩, h.addr_ne hz hd⟩
    · rw [Function.update_of_ne hk, h.listed k a]
      constructor
      · rintro ⟨d, hd, hreq, rfl, hdk⟩
        rcases mem_middle.mp hd with rfl | hd
        · exact absurd hdk.symm hk
        · exact ⟨d, hd, hreq, rfl, hdk⟩
      · rintro ⟨d, hd, hrest⟩
        exact ⟨d, mem_middle.mpr (Or.inr hd), hrest⟩
  · by_cases hk : k = mapping b.size
    · subst hk
      rw [Function.update_self]
      exact (List.nodup_cons.mp (List.nodup_middle.mp hnd)).2
    · rw [Function.update_of_ne hk]
      exact h.nodup k

/-- A block is put in front of its list. -/
theorem Listing.insert (h : Listing zs (xs ++ ys) f) (hz : Headers c.toHeapConfig mem zs)
    (hreq : b.tag.req = none) (h8 : 8 ≤ b.size) (hsub : (xs ++ b :: ys).Sublist zs) :
    Listing zs (xs ++ b :: ys)
      (Function.update f (mapping b.size) (b.addr :: f (mapping b.size))) := by
  have hnd : ((xs ++ b :: ys).map Block.addr).Nodup :=
    (hz.tiles.nodup_addr (by decide)).sublist (hsub.map _)
  have hne : ∀ d ∈ xs ++ ys, d.addr ≠ b.addr := by
    intro d hd he
    rw [List.map_append, List.map_cons, List.nodup_middle, ← List.map_append] at hnd
    exact (List.nodup_cons.mp hnd).1 (he ▸ List.mem_map_of_mem hd)
  have hold : b.addr ∉ f (mapping b.size) := by
    intro hin
    obtain ⟨d, hd, -, he, -⟩ := (h.listed _ _).mp hin
    exact hne d hd he
  refine ⟨hsub, fun d hd => ?_, fun k a => ?_, fun k => ?_⟩
  · rcases mem_middle.mp hd with rfl | hd
    · exact h8
    · exact h.least d hd
  · have hiff : (∃ d ∈ xs ++ b :: ys, d.tag.req = none ∧ d.addr = a ∧ mapping d.size = k)
        ↔ b.addr = a ∧ mapping b.size = k ∨ a ∈ f k := by
      rw [h.listed k a]
      constructor
      · rintro ⟨d, hd, hrest⟩
        rcases mem_middle.mp hd with rfl | hd
        · exact Or.inl hrest.2
        · exact Or.inr ⟨d, hd, hrest⟩
      · rintro (hb | ⟨d, hd, hrest⟩)
        · exact ⟨b, by simp, hreq, hb⟩
        · exact ⟨d, mem_middle.mpr (Or.inr hd), hrest⟩
    rw [hiff]
    by_cases hk : k = mapping b.size
    · subst hk
      rw [Function.update_self, List.mem_cons, eq_comm (a := a), and_iff_left rfl]
    · rw [Function.update_of_ne hk]
      simp [Ne.symm hk]
  · by_cases hk : k = mapping b.size
    · subst hk
      rw [Function.update_self]
      exact List.nodup_cons.mpr ⟨hold, h.nodup _⟩
    · rw [Function.update_of_ne hk]
      exact h.nodup k

/-- The first bytes of a listed block, and the control structure, hold no header. -/
theorem Listing.not_header (h : Listing zs fs f) (hz : Headers c.toHeapConfig mem zs')
    (hsub : fs.Sublist zs') (hx : ListByte c.pool f x) : ¬ HeaderByte zs' x := by
  rcases hx with ⟨-, hhigh⟩ | ⟨k, a, ha, hlow, hhigh⟩
  · rintro ⟨b, hb, hb', -⟩
    have hbounds := (hz.bounds hb).1
    rw [poolStart_eq] at hhigh
    omega
  · obtain ⟨b, hb, -, rfl, -⟩ := (h.listed k a).mp ha
    have h8 := h.least b hb
    have hpay := hz.payload (hsub.subset hb) (show x - (b.addr + 8) < b.size by omega)
    rwa [show b.addr + 8 + (x - (b.addr + 8)) = x by omega] at hpay

/-- The payload of a block in use is no part of the lists. -/
theorem Listing.live_apart (h : Listing zs fs f) (hz : Headers c.toHeapConfig mem zs)
    (hd : d ∈ liveBlocks fs) {i : Nat} (hi : i < d.size) :
    ¬ ListByte c.pool f (d.addr + 8 + i) := by
  obtain ⟨hdf, hsome⟩ := mem_liveBlocks.mp hd
  have hdz := h.sub.subset hdf
  rintro (⟨-, hhigh⟩ | ⟨k, a, ha, hlow, hhigh⟩)
  · have hbounds := (hz.bounds hdz).1
    rw [poolStart_eq] at hhigh
    omega
  · obtain ⟨b, hb, hreq, rfl, -⟩ := (h.listed k a).mp ha
    have hbz := h.sub.subset hb
    have h8 := h.least b hb
    by_cases he : b.addr = d.addr
    · rw [hz.tiles.addr_inj (by decide) hbz hdz he] at hreq
      simp [hreq] at hsome
    · have hapart := hz.tiles.apart_of_ne hbz hdz he
      unfold blockHdrOffset at hapart
      omega

theorem liveBlocks_middle (hd : d ∈ liveBlocks (xs ++ ys)) : d ∈ liveBlocks (xs ++ b :: ys) := by
  obtain ⟨hd, hsome⟩ := mem_liveBlocks.mp hd
  exact mem_liveBlocks.mpr ⟨mem_middle.mpr (Or.inr hd), hsome⟩

namespace Rep

/-- **A step that writes headers** leaves the lists alone. -/
theorem header_step (h : Rep c mem zs fs f) (hs : HeaderStep c.toHeapConfig mem mem' zs')
    (hsub : fs.Sublist zs') :
    Rep c mem' zs' fs f ∧ PayloadsKept (liveBlocks fs) mem mem' := by
  refine ⟨⟨⟨hsub, h.least, h.listed, h.nodup⟩, hs.headers, h.lists.congr fun x hx => ?_⟩,
    fun d hd i hi => ?_⟩
  · exact hs.frame x (h.not_header hs.headers hsub hx)
  · exact hs.frame _ (hs.headers.payload (hsub.subset (mem_liveBlocks.mp hd).1) hi)

/-- **Removing** a block from its list leaves the headers alone. -/
theorem remove (h : Rep c mem zs (xs ++ b :: ys) f) (hreq : b.tag.req = none) :
    ∃ g, Rep c (freeListRemove mem c.pool b.addr) zs (xs ++ ys) g
      ∧ PayloadsKept (liveBlocks (xs ++ ys)) mem (freeListRemove mem c.pool b.addr) := by
  have hb : b ∈ xs ++ b :: ys := by simp
  have hmem : b.addr ∈ f (mapping b.size) := (h.listed _ _).mpr ⟨b, hb, hreq, rfl, rfl⟩
  obtain ⟨us, vs, hl⟩ := List.append_of_mem hmem
  have hsize := h.headers.size_of_mem (h.sub.subset hb)
  obtain ⟨hlists, hframe⟩ := h.lists.remove (h.family h.headers) (congrArg mapping hsize) hl
  refine ⟨_, ⟨h.toListing.remove h.headers hl, h.headers.congr fun x hx => hframe x fun hlb => ?_,
    hlists⟩, fun d hd i hi => hframe _ (h.live_apart h.headers (liveBlocks_middle hd) hi)⟩
  exact h.not_header h.headers h.sub hlb hx

/-- **Inserting** a block leaves the headers alone. -/
theorem insert (h : Rep c mem zs (xs ++ ys) f) (hreq : b.tag.req = none) (h8 : 8 ≤ b.size)
    (hsub : (xs ++ b :: ys).Sublist zs) :
    ∃ g, Rep c (freeListInsert mem c.pool b.addr) zs (xs ++ b :: ys) g
      ∧ PayloadsKept (liveBlocks (xs ++ ys)) mem (freeListInsert mem c.pool b.addr)
      ∧ ∀ x, ¬ ListByte c.pool g x → freeListInsert mem c.pool b.addr x = mem x := by
  have hsize := h.headers.size_of_mem (hsub.subset (by simp : b ∈ xs ++ b :: ys))
  have hlisting := h.toListing.insert h.headers hreq h8 hsub
  obtain ⟨hlists, hframe⟩ :=
    h.lists.insert (congrArg mapping hsize) (hlisting.family h.headers)
  refine ⟨_, ⟨hlisting, h.headers.congr fun x hx => hframe x fun hlb => ?_, hlists⟩,
    fun d hd i hi => hframe _ (hlisting.live_apart h.headers (liveBlocks_middle hd) hi), hframe⟩
  exact hlisting.not_header h.headers hsub hlb hx

/-- The lists lie in the pool. -/
theorem listByte_inside (h : Rep c mem zs fs f) (hx : ListByte c.pool f x) :
    c.pool ≤ x ∧ x < c.pool + c.size := by
  have hlarge := c.large
  rcases hx with ⟨hlow, hhigh⟩ | ⟨k, a, ha, hlow, hhigh⟩
  · rw [poolStart_eq] at hhigh
    omega
  · obtain ⟨b, hb, -, rfl, -⟩ := (h.listed k a).mp ha
    have h8 := h.least b hb
    have hlim := h.headers.bounds (h.sub.subset hb)
    omega

end Rep

end Tlsf

end VibeRtos
