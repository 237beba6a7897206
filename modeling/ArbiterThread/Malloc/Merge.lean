import ArbiterThread.Malloc.Cut

/-!
# Merging Chunks

What `__malloc_consolidate` and `ablib_free` do with a chunk that is no longer
in use: they join it with a free chunk before it, and then with a free chunk
behind it or with the unit top.

Both need the chunk behind the one released. A chunk that ends at the
fencepost of its unit has none, and the code takes the fencepost for one. The
results are therefore about chunks that do not end there.

## Main definitions

* `Merged`: The chunks in use and on fastbins are the same.
* `Heap.Merging`: A chunk that is being merged.

## Theorems

* `Tracks.unitAt`: The unit an address is in is found.
* `Rep.mergeBack`: Joining with the chunk before.
* `Rep.forwardChunk`, `Rep.forwardTop`: Joining with what is behind.
* `Rep.mallocConsolidate`: Tearing down the fastbins.
-/

namespace ArbiterThread

open Exec Rings

variable {K : Type}

/-! ### What merging leaves alone -/

/-- The chunks in use and on fastbins are the same. -/
structure Merged (h h' : Heap) : Prop extends Rearranged h h' where
  fasts : h'.fasts = h.fasts
  pending : h'.pending = h.pending
  fast : ∀ {x}, h.size x ≠ 0 → h.use x = .fast →
    h'.size x = h.size x ∧ h'.unit x = h.unit x ∧ h'.use x = .fast

theorem Merged.trans {h h' h'' : Heap} (h1 : Merged h h') (h2 : Merged h' h'') : Merged h h'' := by
  refine ⟨h1.toRearranged.trans h2.toRearranged, h2.fasts.trans h1.fasts,
    h2.pending.trans h1.pending, fun {x} hx huse => ?_⟩
  have hfirst := h1.fast hx huse
  have hsecond := h2.fast (by rw [hfirst.1]; exact hx) hfirst.2.2
  exact ⟨hsecond.1.trans hfirst.1, hsecond.2.1.trans hfirst.2.1, hsecond.2.2⟩

/-- A chunk that is being merged, in a heap that is settled otherwise. -/
structure Heap.Merging (h : Heap) (p : Nat) : Prop where
  size : h.size p ≠ 0
  use : h.use p = .raw
  flag : h.flag p = true
  keep : h.keep p = 0
  settled : h.SettledBut (· = p)

/-! ### Finding the unit -/

section

variable {m₀ : Mem} {s : State K} {h : Heap} {p u : Nat}
variable {E : Fault → State K → Prop}

/-- The unit an address is in is found. -/
theorem Tracks.unitAt_listed (t : Tracks s h) (hu : u ∈ s.ustateList)
    (hlo : (s.units u).addr ≤ p) (hhi : p < (s.units u).addr + (s.units u).length) :
    unitAt s p = some u := by
  have hcovers : covers (s.units u) p := by
    have hbound := t.bounded u hu
    simp only [covers, wordSize]
    omega
  cases hfind : ArbiterThread.unitAt s p with
  | none =>
    unfold ArbiterThread.unitAt at hfind
    rw [List.find?_eq_none] at hfind
    exact absurd (decide_eq_true hcovers) (hfind u (List.mem_reverse.mpr hu))
  | some v =>
    unfold ArbiterThread.unitAt at hfind
    have hmem := List.mem_reverse.mp (List.mem_of_find?_eq_some hfind)
    have hcov : covers (s.units v) p := by simpa using List.find?_some hfind
    by_contra hne
    have hvu : u ≠ v := fun heq => hne (heq ▸ rfl)
    have hapart := t.apart u hu v hmem hvu
    have hbound := t.bounded v hmem
    simp only [covers, wordSize] at *
    omega

theorem Tracks.unitAt (t : Tracks s h) (hu : h.base u ≠ 0) (hlo : h.base u ≤ p)
    (hhi : p < h.base u + 40960) : unitAt s p = some u := by
  have hunit := t.unit hu
  refine t.unitAt_listed hunit.1 ?_ ?_
  · rw [hunit.2]
    exact hlo
  · rw [hunit.2]
    exact hhi

theorem Body.lookupUstateByMem (b : Body m₀ s h) (hp : h.size p ≠ 0) {Q : Nat → State K → Prop}
    (hQ : Q (h.unit p) s) : wp (lookupUstateByMem p) Q E s := by
  have hplace := b.tidy.tiling.place hp
  have hb := b.tidy.tiling.bounds hp
  rw [wp_lookupUstateByMem, b.tracks.unitAt hplace.1 hplace.2.1]
  · exact hQ
  · have hend := hplace.2.2
    simp only [Heap.next, Heap.fence, unitTopSize] at hend
    omega

/-- The word behind the header of a fencepost reads as a chunk in use. -/
theorem Body.headOf_fence (b : Body m₀ s h) (hu : h.base u ≠ 0) {Q : Nat → State K → Prop}
    (hQ : Q 5 s) : wp (ArbiterThread.headOf (h.fence u)) Q E s := by
  have hin := b.tidy.tiling.inside hu
  refine wp_load_mapped ?_ ?_
  · simp only [ArbiterThread.mapped, Heap.fence, unitTopSize, wordSize, channelAddr, channelSize]
    omega
  · rw [(b.holds.fence hu).1]
    exact hQ

/-- The use bit of a chunk, which is always set for one that ends at a
    fencepost. -/
theorem Body.inuseBitAtOffset (b : Body m₀ s h) (hp : h.size p ≠ 0)
    (hraw : h.size (h.next p) ≠ 0 → h.use (h.next p) ≠ .raw) {Q : Bool → State K → Prop}
    (hQ : ∀ c, (c = false ↔ h.size (h.next p) ≠ 0 ∧ h.flag (h.next p) = false) → Q c s) :
    wp (inuseBitAtOffset p (h.size p)) Q E s := by
  have hplace := b.tidy.tiling.place hp
  unfold ArbiterThread.inuseBitAtOffset
  rw [wp_bind, b.chunkAtOffset hp]
  by_cases hend : h.next p = h.fence (h.unit p)
  · rw [hend]
    refine b.headOf_fence hplace.1 ?_
    rw [wp_pure]
    refine hQ _ ⟨fun hcon => by simp [prevInuse] at hcon, fun hcon => ?_⟩
    exact absurd hend (b.tidy.tiling.unit_next hp hcon.1).1
  · have hn := (b.tidy.tiling.follow hp hend).1
    refine b.headOf hn (hraw hn) ?_
    rw [wp_pure]
    refine hQ _ ?_
    rw [decide_eq_false_iff_not, prevInuse_head h (b.tidy.tiling.shape hn).2.1, Bool.not_eq_true]
    exact ⟨fun hflag => ⟨hn, hflag⟩, fun hboth => hboth.2⟩

end

/-! ### Steps that merge -/

section

variable {h : Heap} {p : Nat}

theorem Merged.setUse {k : Use} (hold : h.use p ≠ .live ∧ h.use p ≠ .fast)
    (hk : k ≠ .live ∧ k ≠ .fast) : Merged h (h.setUse p k) := by
  refine ⟨⟨rfl, rfl, Heap.live_setUse hold.1 hk.1, .setUse h p hk.2⟩, rfl, rfl,
    fun {x} hx huse => ⟨rfl, rfl, ?_⟩⟩
  have hne : x ≠ p := by
    rintro rfl
    exact hold.2 huse
  exact (Heap.setUse_use_of_ne _ _ _ hne).trans huse

theorem Merged.setBin (h : Heap) (av i : Nat) (l : List Nat) : Merged h (h.setBin av i l) :=
  ⟨⟨rfl, rfl, rfl, .refl h⟩, rfl, rfl, fun _ huse => ⟨rfl, rfl, huse⟩⟩

theorem Merged.setFlag (h : Heap) (p : Nat) (b : Bool) : Merged h (h.setFlag p b) :=
  ⟨⟨rfl, rfl, rfl, .refl h⟩, rfl, rfl, fun _ huse => ⟨rfl, rfl, huse⟩⟩

theorem Merged.setTop (h : Heap) (u top : Nat) : Merged h (h.setTop u top) :=
  ⟨⟨rfl, rfl, rfl, .refl h⟩, rfl, rfl, fun _ huse => ⟨rfl, rfl, huse⟩⟩

theorem Merged.join (hp : h.size p ≠ 0) (huse : h.use p = .raw) (huse' : h.use (h.next p) = .raw) :
    Merged h (h.join p) := by
  have hsame : ∀ {x}, h.use x = .fast → (h.join p).size x = h.size x := by
    intro x hfast
    refine Heap.join_size_of_ne ?_ ?_
    · rintro rfl
      rw [huse] at hfast
      exact Use.noConfusion hfast
    · rintro rfl
      rw [huse'] at hfast
      exact Use.noConfusion hfast
  exact ⟨⟨rfl, rfl, Heap.live_join hp huse huse',
    fun x _ hfast => ⟨(hsame hfast).symm, rfl, hfast⟩⟩, rfl, rfl,
    fun {x} hx hfast => ⟨hsame hfast, rfl, hfast⟩⟩

theorem Heap.SettledBut.join (hs : h.SettledBut fun q => q = h.next p ∨ q = p)
    (hp : h.size p ≠ 0) (huse : h.use p = .raw) (huse' : h.use (h.next p) = .raw) :
    (h.join p).SettledBut (· = p) := by
  refine ⟨fun {q} hq hne => ?_, fun {u} hu htop => ?_⟩
  · have hcases := Heap.Tiling.join_cases hp q hq
    exact hs.use hcases.1 (by
      rintro (heq | heq)
      · exact hcases.2.1 heq
      · exact hne heq)
  · have hold := hs.top hu htop
    have hne : h.top u ≠ p := by
      intro heq
      rw [heq, huse] at hold
      exact Use.noConfusion hold.2.1
    have hne' : h.top u ≠ h.next p := by
      intro heq
      rw [heq, huse'] at hold
      exact Use.noConfusion hold.2.1
    refine ⟨?_, hold.2⟩
    change (h.join p).size (h.top u) ≠ 0
    rw [Heap.join_size_of_ne hne hne']
    exact hold.1

end

theorem Heap.next_next_ne {h : Heap} {p : Nat} (hp : h.size p ≠ 0) : h.next (h.next p) ≠ p := by
  unfold Heap.next
  omega

/-! ### Joining with the chunk before -/

section

variable {m₀ : Mem} {s : State K} {h : Heap} {p : Nat}
variable {E : Fault → State K → Prop}

/-- What is known of the heap after a merge with the chunk before. -/
structure Absorbed (h h' : Heap) (p q : Nat) : Prop where
  merging : h'.Merging q
  merged : Merged h h'
  next : h'.next q = h.next p
  behind : h'.size (h.next p) = h.size (h.next p)
  unit : h'.unit q = h.unit p
  grown : h.size p ≤ h'.size q

/-- A free chunk, taken out of its bin and joined with the raw one behind it. -/
def Heap.absorb (h : Heap) (av i : Nat) (l : List Nat) (q : Nat) : Heap :=
  ((h.take av i l q).setUse q .raw).join q

section

variable {q av i : Nat} {l : List Nat}

/-- Both chunks are being worked on before they are joined. -/
theorem Heap.absorb_use (av i : Nat) (l : List Nat) (hq : h.use (h.next q) = .raw)
    (hne : h.next q ≠ q) :
    ((h.take av i l q).setUse q .raw).use q = .raw ∧
      ((h.take av i l q).setUse q .raw).use (h.next q) = .raw := by
  refine ⟨Heap.setUse_use_self .., ?_⟩
  rw [Heap.setUse_use_of_ne _ _ _ hne, Heap.take_use_of_ne _ hne]
  exact hq

/-- The free chunk before a raw one takes it in. -/
theorem Heap.Tidy.absorbed (t : h.Tidy) (hs : h.SettledBut (· = h.next q))
    (hp : h.size (h.next q) ≠ 0) (huse : h.use (h.next q) = .raw) (hq : h.size q ≠ 0)
    (hfree : h.use q = .free) : Absorbed h (h.absorb av i l q) (h.next q) q := by
  have hqp := Heap.next_ne hq
  have hraw := Heap.absorb_use av i l huse hqp
  have hheld : (h.take av i l q).use q = .held := h.take_use_self av i l q
  have hbefore := Heap.next_next_ne hq
  have hsize : (h.absorb av i l q).size q = h.size q + h.size (h.next q) := Heap.join_size_self
  -- taken off its bin, made raw, and joined with the chunk behind it
  refine ⟨⟨?_, hraw.1, ?_, ?_, ?_⟩, ?_, ?_, ?_, ?_, ?_⟩
  · rw [hsize]
    omega
  · exact t.flag_of_free hs hq hfree (fun y hy => hy ▸ hbefore)
  · exact t.unkept hq (by rw [hfree]; decide) (by rw [hfree]; decide)
  · have hs₁ : (h.setBin av i l).SettledBut (· = h.next q) := ⟨hs.use, hs.top⟩
    have hs₂ : (h.take av i l q).SettledBut (fun y => y = q ∨ y = h.next q) :=
      hs₁.takeUp (by
        change h.use q ≠ .top
        rw [hfree]
        decide)
    have hs₃ := hs₂.takeUp (p := q) (k := .raw) (by rw [hheld]; decide)
    exact (hs₃.mono (by tauto)).join hq hraw.1 hraw.2
  · have h₁ : Merged (h.setBin av i l) (h.take av i l q) :=
      .setUse (by
        change h.use q ≠ .live ∧ h.use q ≠ .fast
        rw [hfree]
        decide) (by decide)
    have h₂ : Merged (h.take av i l q) ((h.take av i l q).setUse q .raw) :=
      .setUse (by rw [hheld]; decide) (by decide)
    exact (((Merged.setBin h av i l).trans h₁).trans h₂).trans (.join hq hraw.1 hraw.2)
  · rw [Heap.next, hsize]
    unfold Heap.next
    omega
  · refine Heap.join_size_of_ne (h := (h.take av i l q).setUse q .raw) hbefore ?_
    exact Heap.next_ne hp
  · exact (t.tiling.unit_next hq hp).2.symm
  · rw [hsize]
    omega

end

/-- Merging with the free chunk in front, which its size word leads to. -/
theorem Rep.mergeBack (r : Rep m₀ s h) (hp : h.size p ≠ 0) (huse : h.use p = .raw)
    (hs : h.SettledBut (· = p)) (hflag : h.flag p = false) {R : Nat → Nat → State K → Prop}
    (hR : ∀ s' h' q, s'.mstates = s.mstates → Rep m₀ s' h' → Absorbed h h' p q →
      R q (h'.size q - h.size p) s') :
    wp (prevSize p) (fun prevsize s₁ => wp (ArbiterThread.unlink (chunkBefore p prevsize))
      (fun _ s₂ => R (chunkBefore p prevsize) prevsize s₂) E s₁) E s := by
  have t := r.body.tidy
  have hpp := Heap.next_ne hp
  rcases t.free_before hs hp hflag (fun q hq => hq ▸ hpp) with ⟨q, hq, hfree, rfl⟩
  have hbq := t.tiling.bounds hq
  have hnext : h.next q = q + h.size q := rfl
  have hbefore : chunkBefore (h.next q) (h.size q) = q := by
    unfold chunkBefore wordSize
    omega
  refine wp_load_mapped (r.body.mapped hp le_rfl (by unfold Heap.next; omega)) ?_
  rw [r.body.holds.foot hq (.inl hfree), hbefore]
  rcases t.lists.binned hq hfree with ⟨i, hmem⟩
  rcases List.append_of_mem hmem with ⟨l₁, l₂, hbin⟩
  refine r.unlink hbin (fun s' hs' r' => ?_)
  -- the chunk before is taken up and joined with this one
  have hraw := Heap.absorb_use (h.avOf q) i (l₁ ++ l₂) huse (Heap.next_ne hq)
  have b₂ := r'.body.loosen hq (by rw [h.take_use_self]; decide)
  have r₃ := (r'.of_body b₂ rfl).of_body (b₂.join hq hp hraw.1 hraw.2) rfl
  have hR' := hR s' _ q hs' r₃ (t.absorbed hs hp huse hq hfree)
  rw [Heap.join_size_self] at hR'
  change R q (h.size q + h.size (h.next q) - h.size (h.next q)) s' at hR'
  rw [Nat.add_sub_cancel] at hR'
  exact hR'

/-! ### Joining with what is behind -/

/-- What is known of the heap once the chunk has got all of its neighbours: it is
    of size `z` and can become free. -/
structure Extended (h h' : Heap) (p z : Nat) : Prop where
  freeable : h'.Freeable p
  use : h'.use p = .raw
  settled : h'.SettledBut (· = p)
  merged : Merged h h'
  unit : h'.unit p = h.unit p
  size : h'.size p = z

theorem Extended.avOf {h' : Heap} {z : Nat} (he : Extended h h' p z) : h'.avOf p = h.avOf p := by
  unfold Heap.avOf
  rw [he.unit, he.merged.owner]

/-- The chunk behind one that is being merged is not being worked on. -/
theorem Heap.Merging.behind (hm : h.Merging p) (hn : h.size (h.next p) ≠ 0) :
    h.use (h.next p) ≠ .held ∧ h.use (h.next p) ≠ .raw :=
  hm.settled.use hn (Heap.next_ne hm.size)

theorem Heap.Merging.notInuse (hm : h.Merging p) (hn : h.size (h.next p) ≠ 0)
    (huse : h.use (h.next p) ≠ .free) (htop : h.use (h.next p) ≠ .top) :
    Extended h (h.setFlag (h.next p) false) p (h.size p) := by
  have hflag := Heap.setFlag_flag_self h (h.next p) false
  have hflagp : (h.setFlag (h.next p) false).flag p = true :=
    (Heap.setFlag_flag_of_ne _ _ _ (Heap.next_ne hm.size).symm).trans hm.flag
  exact ⟨⟨hm.size, hflagp, hm.keep, hn, hflag, huse, htop⟩, hm.use,
    ⟨hm.settled.use, hm.settled.top⟩, .setFlag h _ _, rfl, rfl⟩

/-- The chunk behind is free and is joined. -/
def Heap.swallow (h : Heap) (av i : Nat) (l : List Nat) (p : Nat) : Heap :=
  (((h.setFlag (h.next p) false).take av i l (h.next p)).setUse (h.next p) .raw).join p

theorem Heap.Merging.swallow_use (hm : h.Merging p) (av i : Nat) (l : List Nat) :
    (((h.setFlag (h.next p) false).take av i l (h.next p)).setUse (h.next p) .raw).use p = .raw ∧
      (((h.setFlag (h.next p) false).take av i l (h.next p)).setUse (h.next p) .raw).use
        (h.next p) = .raw := by
  have hne := (Heap.next_ne hm.size).symm
  refine ⟨?_, Heap.setUse_use_self ..⟩
  rw [Heap.setUse_use_of_ne _ _ _ hne, Heap.take_use_of_ne _ hne]
  exact hm.use

/-- The chunk takes in the free one behind it. -/
theorem Heap.Merging.swallowed (hm : h.Merging p) (t : h.Tidy) (hn : h.size (h.next p) ≠ 0)
    (hfree : h.use (h.next p) = .free) (av i : Nat) (l : List Nat) :
    Extended h (h.swallow av i l p) p (h.size p + h.size (h.next p)) := by
  have hraw := hm.swallow_use av i l
  have hnext := t.flags.free hn hfree
  have hnp := Heap.next_ne hm.size
  have hnn := Heap.next_ne hn
  have hnnp := Heap.next_next_ne hm.size
  have hsize : (h.swallow av i l p).size p = h.size p + h.size (h.next p) := Heap.join_size_self
  have hnext' : (h.swallow av i l p).next p = h.next (h.next p) := by
    rw [Heap.next, hsize, Heap.next, Heap.next, Nat.add_assoc]
  have hflag : (h.swallow av i l p).flag p = true :=
    (Heap.setFlag_flag_of_ne h (h.next p) false hnp.symm).trans hm.flag
  have hheld : ((h.setFlag (h.next p) false).take av i l (h.next p)).use (h.next p) = .held :=
    Heap.take_use_self ..
  refine ⟨⟨by rw [hsize]; omega, hflag, hm.keep, ?_⟩, hraw.1, ?_, ?_, rfl, hsize⟩
  · -- what is behind the free chunk is in use, and says that it is behind a free one
    rw [hnext']
    have hsz : (h.swallow av i l p).size (h.next (h.next p)) = h.size (h.next (h.next p)) :=
      Heap.join_size_of_ne (h := Heap.setUse _ _ _) hnnp hnn
    have huse : (h.swallow av i l p).use (h.next (h.next p)) = h.use (h.next (h.next p)) :=
      (Heap.setUse_use_of_ne _ _ _ hnn).trans (Heap.take_use_of_ne _ hnn)
    have hfl : (h.swallow av i l p).flag (h.next (h.next p)) = h.flag (h.next (h.next p)) :=
      Heap.setFlag_flag_of_ne h (h.next p) false hnn
    rw [hsz, huse, hfl]
    exact hnext
  · have hs₁ : ((h.setFlag (h.next p) false).setBin av i l).SettledBut (· = p) :=
      ⟨hm.settled.use, hm.settled.top⟩
    have hs₂ : ((h.setFlag (h.next p) false).take av i l (h.next p)).SettledBut
        (fun q => q = h.next p ∨ q = p) :=
      hs₁.takeUp (by
        change h.use (h.next p) ≠ .top
        rw [hfree]
        decide)
    have hs₃ := hs₂.takeUp (p := h.next p) (k := .raw) (by rw [hheld]; decide)
    exact (hs₃.mono (by tauto)).join hm.size hraw.1 hraw.2
  · have h₁ : Merged ((h.setFlag (h.next p) false).setBin av i l)
        ((h.setFlag (h.next p) false).take av i l (h.next p)) :=
      .setUse (by
        change h.use (h.next p) ≠ .live ∧ h.use (h.next p) ≠ .fast
        rw [hfree]
        decide) (by decide)
    have h₂ : Merged ((h.setFlag (h.next p) false).take av i l (h.next p)) (Heap.setUse _ _ .raw) :=
      .setUse (by rw [hheld]; decide) (by decide)
    exact (((Merged.setFlag h _ _).trans (Merged.setBin _ av i l)).trans h₁).trans
      (h₂.trans (.join hm.size hraw.1 hraw.2))

/-- Looking behind a chunk that is not next to the top. -/
theorem Rep.forwardChunk (r : Rep m₀ s h) (hm : h.Merging p) (hn : h.size (h.next p) ≠ 0)
    (htop : h.next p ≠ h.top (h.unit p)) {A B : State K → Prop}
    (hA : ∀ s' h', s'.mstates = s.mstates → Rep m₀ s' h' → Extended h h' p (h.size p) → A s')
    (hB : ∀ s' h', s'.mstates = s.mstates → Rep m₀ s' h' →
      Extended h h' p (h.size p + h.size (h.next p)) → B s') :
    wp (inuseBitAtOffset (h.next p) (h.size (h.next p))) (fun nextinuse s₁ =>
      wp (setHead (h.next p) (h.size (h.next p))) (fun _ s₂ =>
        if nextinuse = true then A s₂
        else wp (ArbiterThread.unlink (h.next p)) (fun _ s₃ => B s₃) E s₂) E s₁) E s := by
  have t := r.body.tidy
  have hnn := Heap.next_ne hn
  have hbehind := hm.behind hn
  have hunit := (t.tiling.unit_next hm.size hn).2
  -- only the top of the unit is a top chunk
  have hnotop : h.use (h.next p) ≠ .top := by
    intro hcon
    have htops := (t.tops hn hcon).1
    rw [hunit] at htops
    exact htop htops.symm
  have hpnext := Heap.next_next_ne hm.size
  refine r.body.inuseBitAtOffset hn (fun hsz => (hm.settled.use hsz hpnext).2) (fun c hc => ?_)
  have hb := t.tiling.bounds hn
  refine wp_store_mapped (r.body.mapped hn (by omega) (by unfold Heap.next; omega)) ?_
  have r₁ := r.put hn (.inl rfl) (r.body.setFlag hm.size (.inr hm.use) hn false) rfl
  -- the bit behind the next chunk tells whether that one is free
  cases c with
  | true =>
    rw [if_pos rfl]
    refine hA _ _ rfl r₁ (hm.notInuse hn ?_ hnotop)
    intro hcon
    have hnext := t.flags.free hn hcon
    have hfalse := hc.mpr ⟨hnext.1, hnext.2.1⟩
    exact Bool.noConfusion hfalse
  | false =>
    rw [if_neg (by decide)]
    have hnext := hc.mp rfl
    have hfree : h.use (h.next p) = .free := by
      have hnotp : ∀ q, q = p → h.next q ≠ h.next (h.next p) := fun q hq => hq ▸ hnn.symm
      rcases t.free_before hm.settled hnext.1 hnext.2 hnotp with ⟨q, hq, hfree, heq⟩
      rw [← t.tiling.next_inj hq hn heq]
      exact hfree
    rcases t.lists.binned hn hfree with ⟨i, hmem⟩
    rcases List.append_of_mem hmem with ⟨l₁, l₂, hbin⟩
    refine r₁.unlink hbin (fun s' hs' r' => ?_)
    have hraw := hm.swallow_use (h.avOf (h.next p)) i (l₁ ++ l₂)
    have b₂ := r'.body.loosen hn (by rw [Heap.take_use_self]; decide)
    have r₃ := (r'.of_body b₂ rfl).of_body (b₂.join hm.size hn hraw.1 hraw.2) rfl
    exact hB s' _ hs' r₃ (hm.swallowed t hn hfree _ _ _)

/-! ### Joining with the unit top -/

/-- The unit top moved to `top`. -/
def State.moveTop (s : State K) (u top : Nat) : State K :=
  { s with units := Function.update s.units u { s.units u with unitTop := top } }

theorem wp_setUnitTop (u top : Nat) (Q : Unit → State K → Prop) (E : Fault → State K → Prop)
    (s : State K) : wp (setUnitTop u top) Q E s ↔ Q () (s.moveTop u top) :=
  wp_modify ..

theorem State.moveTop_extent (s : State K) (u top v : Nat) :
    ((s.moveTop u top).units v).addr = (s.units v).addr ∧
      ((s.moveTop u top).units v).length = (s.units v).length := by
  by_cases hv : v = u
  · subst hv
    simp only [State.moveTop, Function.update_self, and_self]
  · simp only [State.moveTop, Function.update_of_ne hv, and_self]

theorem Tracks.moveTop (t : Tracks s h) (u top : Nat) :
    Tracks (s.moveTop u top) (h.setTop u top) := by
  have hext := s.moveTop_extent u top
  refine ⟨fun {v} hv => ?_, t.owner, fun v hv => ?_, fun v hv w hw hne => ?_, fun hav => ?_,
    t.limit⟩
  · have hunit := t.unit hv
    refine ⟨hunit.1, ?_⟩
    by_cases hvu : v = u
    · subst hvu
      simp only [State.moveTop, Heap.setTop, Function.update_self, hunit.2]
    · simp only [State.moveTop, Heap.setTop, Function.update_of_ne hvu]
      exact hunit.2
  · rw [(hext v).1, (hext v).2]
    exact t.bounded v hv
  · rw [(hext v).1, (hext v).2, (hext w).1, (hext w).2]
    exact t.apart v hv w hw hne
  · have ht := t.mstate hav
    exact ⟨ht.made, ht.maxFast, ht.fastbins, ht.units, ht.binmap, ht.binmapEnd⟩

/-- The unit top can be moved while no chunk is the unit top. -/
theorem Rep.moveTop (r : Rep m₀ s h) {u : Nat} (top : Nat)
    (hu : ∀ p, h.size p ≠ 0 → h.unit p = u → h.use p ≠ .top) :
    Rep m₀ (s.moveTop u top) (h.setTop u top) := by
  have hm := r.body.holds
  refine ⟨⟨r.body.tidy.setTop hu, r.body.tracks.moveTop u top,
    ⟨hm.head, hm.foot, hm.fence, hm.fasts, hm.pending, hm.kept, hm.outside⟩⟩, fun {av i} hd => ?_⟩
  have hd' : Header s av i := ⟨hd.active, hd.lo, hd.hi⟩
  exact r.rings hd'

/-- The chunk joined with the unit top behind it. -/
def Heap.retire (h : Heap) (p : Nat) : Heap :=
  ((((h.setUse (h.next p) .raw).join p).setTop (h.unit p) p).setUse p .top)

theorem Heap.Merging.top_behind (hm : h.Merging p) (t : h.Tidy) (hn : h.size (h.next p) ≠ 0)
    (htop : h.next p = h.top (h.unit p)) :
    h.use (h.next p) = .top ∧ h.next (h.next p) = h.fence (h.unit p) := by
  have hplace := t.tiling.place hm.size
  have hbehind := t.tiling.unit_next hm.size hn
  have hset := hm.settled.top hplace.1 (by rw [← htop]; exact hbehind.1)
  rw [← htop] at hset
  have htops := (t.tops hn hset.2.1).2
  rw [hbehind.2] at htops
  exact ⟨hset.2.1, htops⟩

/-- The chunk becomes the top of its unit, with the old top in it. -/
theorem Heap.Merging.retired (hm : h.Merging p) (t : h.Tidy) (hn : h.size (h.next p) ≠ 0)
    (htop : h.next p = h.top (h.unit p)) :
    (h.retire p).Settled ∧ Merged h (h.retire p) := by
  have hbehind := hm.top_behind t hn htop
  have hnp := Heap.next_ne hm.size
  have hunit := (t.tiling.unit_next hm.size hn).2
  have huse : (h.setUse (h.next p) .raw).use p = .raw :=
    (Heap.setUse_use_of_ne _ _ _ hnp.symm).trans hm.use
  have huse' : (h.setUse (h.next p) .raw).use (h.next p) = .raw := Heap.setUse_use_self ..
  have hself : (h.retire p).size p ≠ 0 ∧ (h.retire p).use p = .top := by
    refine ⟨?_, Heap.setUse_use_self ..⟩
    exact Heap.Tiling.join_keeps (h := h.setUse (h.next p) .raw) hm.size hm.size hnp.symm
  have hother : ∀ q, q ≠ p → q ≠ h.next p → (h.retire p).size q = h.size q ∧
      (h.retire p).use q = h.use q := by
    intro q hqp hqn
    refine ⟨Heap.join_size_of_ne (h := h.setUse (h.next p) .raw) hqp hqn, ?_⟩
    exact (Heap.setUse_use_of_ne _ _ _ hqp).trans (Heap.setUse_use_of_ne h _ _ hqn)
  -- the joined chunk becomes the top, and nothing else has changed
  refine ⟨⟨fun {q} hq _ => ?_, fun {v} hv htopv => ?_⟩, ?_⟩
  · by_cases hqp : q = p
    · rw [hqp, hself.2]
      decide
    · have hqn : q ≠ h.next p := by
        rintro rfl
        exact hq (Heap.join_size_next (h := h.setUse (h.next p) .raw) hm.size)
      rw [(hother q hqp hqn).1] at hq
      rw [(hother q hqp hqn).2]
      exact hm.settled.use hq hqp
  · by_cases hvu : v = h.unit p
    · subst hvu
      have hat : (h.retire p).top (h.unit p) = p := Function.update_self ..
      rw [hat]
      exact ⟨hself.1, hself.2, rfl⟩
    · have hat : (h.retire p).top v = h.top v := Function.update_of_ne hvu _ _
      have hold := hm.settled.top hv (hat ▸ htopv)
      have hqp : h.top v ≠ p := by
        intro heq
        rw [heq, hm.use] at hold
        exact Use.noConfusion hold.2.1
      have hqn : h.top v ≠ h.next p := by
        intro heq
        rw [heq, hunit] at hold
        exact hvu hold.2.2.symm
      rw [hat, (hother _ hqp hqn).1, (hother _ hqp hqn).2]
      exact hold
  · have h₁ : Merged h (h.setUse (h.next p) .raw) :=
      .setUse (by rw [hbehind.1]; decide) (by decide)
    have h₂ : Merged (((h.setUse (h.next p) .raw).join p).setTop (h.unit p) p) (h.retire p) :=
      .setUse (by
        change (h.setUse (h.next p) .raw).use p ≠ .live ∧ (h.setUse (h.next p) .raw).use p ≠ .fast
        rw [huse]
        decide) (by decide)
    exact ((h₁.trans (.join hm.size huse huse')).trans (.setTop _ _ _)).trans h₂

theorem Rep.forwardTop (r : Rep m₀ s h) (hm : h.Merging p) (hn : h.size (h.next p) ≠ 0)
    (htop : h.next p = h.top (h.unit p)) {C : State K → Prop}
    (hC : ∀ s' h', s'.mstates = s.mstates → Rep m₀ s' h' → h'.Settled → Merged h h' → C s') :
    wp (setHead p (withInuse ((h.size p + h.size (h.next p)) % wordSize))) (fun _ s₁ =>
      wp (setUnitTop (h.unit p) p) (fun _ s₂ => C s₂) E s₁) E s := by
  have t := r.body.tidy
  have hb := t.tiling.bounds hm.size
  have hbn := t.tiling.bounds hn
  have hbehind := hm.top_behind t hn htop
  have hnp := Heap.next_ne hm.size
  have hsum : withInuse ((h.size p + h.size (h.next p)) % wordSize) =
      h.size p + h.size (h.next p) + 1 := by
    unfold withInuse wordSize
    omega
  refine wp_store_mapped (r.body.mapped hm.size (by omega) (by unfold Heap.next; omega)) ?_
  rw [wp_setUnitTop, hsum]
  -- the old top is taken up and joined before the words of the new one are right
  have huse : (h.setUse (h.next p) .raw).use p = .raw :=
    (Heap.setUse_use_of_ne _ _ _ hnp.symm).trans hm.use
  have b₁ := r.body.loosen hn (by rw [hbehind.1]; decide)
  have b₂ := b₁.join hm.size hn huse (Heap.setUse_use_self ..)
  have hsize : ((h.setUse (h.next p) .raw).join p).size p = h.size p + h.size (h.next p) :=
    Heap.join_size_self
  have hp₂ : ((h.setUse (h.next p) .raw).join p).size p ≠ 0 := by
    rw [hsize]
    omega
  have r₂ := (r.of_body b₁ rfl).of_body b₂ rfl
  have r₃ := r₂.put (v := h.size p + h.size (h.next p) + 1) hp₂ (.inl rfl)
    (b₂.put (.own p hp₂ huse (.inl rfl) (by omega)) _) rfl
  have hnone : ∀ q, ((h.setUse (h.next p) .raw).join p).size q ≠ 0 → h.unit q = h.unit p →
      (h.setUse (h.next p) .raw).use q ≠ .top := by
    intro q hq hunit hcon
    have hcases := Heap.Tiling.join_cases (h := h.setUse (h.next p) .raw) hm.size q hq
    have hqn : q ≠ h.next p := hcases.2.1
    rw [Heap.setUse_use_of_ne _ _ _ hqn] at hcon
    have htops := (t.tops hcases.1 hcon).1
    rw [hunit, ← htop] at htops
    exact hqn htops.symm
  have r₄ := r₃.moveTop p hnone
  have hend : p + ((h.setUse (h.next p) .raw).join p).size p = h.fence (h.unit p) := by
    rw [hsize, ← hbehind.2]
    unfold Heap.next
    omega
  have hhead : (s.put (p + 4) (h.size p + h.size (h.next p) + 1)).mem.load32 (p + 4) =
      ((h.setUse (h.next p) .raw).join p).size p + 1 := by
    rw [load32_put_self _ _ (by omega), hsize]
  have r₅ := r₄.of_body (r₄.body.settleTop (p := p) hp₂ huse hm.flag hm.keep
    (Function.update_self ..) hend hhead) rfl
  exact hC _ _ rfl r₅ (hm.retired t hn htop).1 (hm.retired t hn htop).2

/-! ### Releasing the chunk -/

/-- The merged chunk at the front of the unsorted list. -/
theorem Extended.released {h' : Heap} {z : Nat} (he : Extended h h' p z) (l : List Nat) :
    (h'.bin (h'.avOf p) 1 l p).Settled ∧ Merged h (h'.bin (h'.avOf p) 1 l p) := by
  have hset : (h'.setBin (h'.avOf p) 1 l).SettledBut (· = p) := ⟨he.settled.use, he.settled.top⟩
  have huse : (h'.setBin (h'.avOf p) 1 l).use p = .raw := he.use
  refine ⟨hset.setUse (by rw [huse]; decide) (by decide), he.merged.trans ?_⟩
  exact (Merged.setBin h' _ 1 l).trans (.setUse (by rw [huse]; decide) (by decide))

theorem Body.unitTop (b : Body m₀ s h) (hp : h.size p ≠ 0) :
    (s.units (h.unit p)).unitTop = h.top (h.unit p) := by
  rw [(b.tracks.unit (b.tidy.tiling.place hp).1).2]

theorem Rep.consolidateForward (r : Rep m₀ s h) (hm : h.Merging p) (hn : h.size (h.next p) ≠ 0)
    {Q : Unit → State K → Prop}
    (hQ : ∀ s' h', s'.mstates = s.mstates → Rep m₀ s' h' → h'.Settled → Merged h h' → Q () s') :
    wp (consolidateForward (h.avOf p) p (h.size p) (h.next p) (h.size (h.next p))) Q E s := by
  have hb := r.body.tidy.tiling.bounds hm.size
  have hbn := r.body.tidy.tiling.bounds hn
  have hsum : (h.size p + h.size (h.next p)) % wordSize = h.size p + h.size (h.next p) := by
    unfold wordSize
    omega
  unfold ArbiterThread.consolidateForward
  rw [wp_bind]
  refine r.body.lookupUstateByMem hm.size ?_
  simp only [wp_bind, wp_getUnit, wp_ite, r.body.unitTop hm.size]
  -- wherever the chunk ends up on the unsorted list
  have hlink : ∀ s' h' z, s'.mstates = s.mstates → Rep m₀ s' h' → Extended h h' p z →
      wp (ArbiterThread.consolidateLink (h.avOf p) p z) Q E s' := by
    intro s' h' z hs' r' he
    rw [← he.avOf, ← he.size]
    refine r'.consolidateLink he.freeable he.use (fun s'' hs'' r'' => ?_)
    exact hQ s'' _ (hs''.trans hs') r'' (he.released _).1 (he.released _).2
  by_cases htop : h.next p ≠ h.top (h.unit p)
  · rw [if_pos htop]
    refine r.forwardChunk hm hn htop (fun s' h' hs' r' he => hlink s' h' _ hs' r' he)
      (fun s' h' hs' r' he => ?_)
    rw [hsum]
    exact hlink s' h' _ hs' r' he
  · rw [if_neg htop]
    exact r.forwardTop hm hn (not_not.mp htop) hQ

/-! ### Tearing down a fastbin -/

variable {l : List Nat}

theorem Absorbed.avOf {h' : Heap} {q : Nat} (ha : Absorbed h h' p q) : h'.avOf q = h.avOf p := by
  unfold Heap.avOf
  rw [ha.unit, ha.merged.owner]

theorem Rep.popPending (r : Rep m₀ s h) (hpend : h.pending = p :: l) :
    Rep m₀ s ((h.setPending l).setUse p .raw) := by
  have hthread := r.body.holds.pending
  rw [hpend, Thread.cons_iff] at hthread
  exact r.of_body ⟨r.body.tidy.popPending hpend, r.body.tracks.congr rfl rfl rfl rfl,
    r.body.holds.setUse ⟨rfl, rfl, rfl, rfl⟩ rfl r.body.holds.fasts hthread.2
      (fun hcon => absurd rfl hcon) (by simp)⟩ rfl

/-- One chunk off a fastbin is merged with its neighbours and binned. -/
theorem Rep.consolidateChunk (r : Rep m₀ s h) (hs : h.Settled) (hpend : h.pending = p :: l)
    (hend : h.next p ≠ h.fence (h.unit p)) {Q : Unit → State K → Prop}
    (hQ : ∀ s' h', s'.mstates = s.mstates → Rep m₀ s' h' → h'.Settled →
      Merged ((h.setPending l).setUse p .raw) h' → Q () s') :
    wp (consolidateChunk (h.avOf p) p) Q E s := by
  have t := r.body.tidy
  have hp := t.lists.pend (hpend ▸ List.mem_cons_self)
  have hb := t.tiling.bounds hp.1
  have hn := (t.tiling.follow hp.1 hend).1
  have hkeep := t.unkept hp.1 (by rw [hp.2.1]; decide) (by rw [hp.2.1]; decide)
  have hsize : h.head p / 2 * 2 = h.size p := by
    have hflag := Bool.toNat_le (h.flag p)
    unfold Heap.head
    omega
  unfold ArbiterThread.consolidateChunk
  rw [wp_bind]
  refine r.body.headOf hp.1 (by rw [hp.2.1]; decide) ?_
  simp only [wp_bind, hsize, r.body.chunkAtOffset hp.1]
  refine r.body.chunksize hn (hs.use hn (fun hf => hf)).2 ?_
  have r₁ := r.popPending hpend
  have huse : ((h.setPending l).setUse p .raw).use p = .raw := Heap.setUse_use_self ..
  have hset : ((h.setPending l).setUse p .raw).SettledBut (· = p) := by
    have hs' : (h.setPending l).SettledBut (fun _ => False) := ⟨hs.use, hs.top⟩
    have hup := hs'.takeUp (p := p) (k := .raw) (by
      change h.use p ≠ .top
      rw [hp.2.1]
      decide)
    exact hup.mono (by tauto)
  -- the chunk before it may be free, and is merged with first
  by_cases hflag : h.flag p = true
  · rw [if_pos ((prevInuse_head h hb.2.2.2.1).mpr hflag)]
    exact r₁.consolidateForward ⟨hp.1, huse, hflag, hkeep, hset⟩ hn hQ
  · rw [if_neg (fun hcon => hflag ((prevInuse_head h hb.2.2.2.1).mp hcon))]
    simp only [wp_bind]
    refine r₁.mergeBack (R := fun q prevsize => wp (ArbiterThread.consolidateForward (h.avOf p) q
      ((h.size p + prevsize) % wordSize) (h.next p) (h.size (h.next p))) Q E) hp.1 huse hset
      (Bool.eq_false_iff.mpr hflag) (fun s' h' q hs' r' ha => ?_)
    have hsum : (h.size p + (h'.size q - h.size p)) % wordSize = h'.size q := by
      have hbq := r'.body.tidy.tiling.bounds ha.merging.size
      have hgrown : h.size p ≤ h'.size q := ha.grown
      unfold wordSize
      omega
    have hav : h'.avOf q = h.avOf p := ha.avOf
    have hnext : h'.next q = h.next p := ha.next
    have hbehind : h'.size (h.next p) = h.size (h.next p) := ha.behind
    change wp (ArbiterThread.consolidateForward (h.avOf p) q
      ((h.size p + (h'.size q - h.size p)) % wordSize) (h.next p) (h.size (h.next p))) Q E s'
    rw [hsum, ← hav, ← hbehind, ← hnext]
    refine r'.consolidateForward ha.merging ?_ (fun s'' h'' hs'' r'' hset'' hm'' => ?_)
    · rw [hnext, hbehind]
      exact hn
    · exact hQ s'' h'' (hs''.trans hs') r'' hset'' (ha.merged.trans hm'')

/-- A list of fast chunks was merged away. The other fast chunks are as they
    were. -/
structure Drained (h h' : Heap) : Prop extends Rearranged h h' where
  fasts : h'.fasts = h.fasts
  pending : h'.pending = []
  fast : ∀ {x}, h.size x ≠ 0 → h.use x = .fast → x ∉ h.pending →
    h'.size x = h.size x ∧ h'.unit x = h.unit x ∧ h'.use x = .fast

/-- The first pending chunk merged, and then the others. -/
theorem Merged.drained {h₁ h₂ : Heap} (t : h.Tidy) (hpend : h.pending = p :: l)
    (hm : Merged ((h.setPending l).setUse p .raw) h₁) (hd : Drained h₁ h₂) : Drained h h₂ := by
  have hp := t.lists.pend (hpend ▸ List.mem_cons_self)
  have hlive : ((h.setPending l).setUse p .raw).live = h.live :=
    Heap.live_setUse (h := h.setPending l) (by
      change h.use p ≠ .live
      rw [hp.2.1]
      decide) (by decide)
  have hfasts : FastsFrom h ((h.setPending l).setUse p .raw) :=
    .setUse (h.setPending l) p (by decide)
  refine ⟨⟨hd.base.trans hm.base, hd.owner.trans hm.owner, (hd.live.trans hm.live).trans hlive,
    (hfasts.trans hm.wasFast).trans hd.wasFast⟩, hd.fasts.trans hm.fasts, hd.pending,
    fun {x} hx huse hnot => ?_⟩
  rw [hpend, List.mem_cons, not_or] at hnot
  have hfirst := hm.fast (x := x) hx ((Heap.setUse_use_of_ne _ _ _ hnot.1).trans huse)
  have hl : x ∉ h₁.pending := by
    rw [hm.pending]
    exact hnot.2
  have hsecond := hd.fast (by rw [hfirst.1]; exact hx) hfirst.2.2 hl
  exact ⟨hsecond.1.trans hfirst.1, hsecond.2.1.trans hfirst.2.1, hsecond.2.2⟩

/-- All chunks of a fastbin. -/
theorem Rep.consolidateChain {av : Nat} {Q : Unit → State K → Prop} (l : List Nat) :
    ∀ {s : State K} {h : Heap} (fuel : Nat), Rep m₀ s h → h.Settled → h.pending = l →
      (∀ x ∈ l, h.avOf x = av ∧ h.next x ≠ h.fence (h.unit x)) → l.length < fuel →
      (∀ s' h', s'.mstates = s.mstates → Rep m₀ s' h' → h'.Settled → Drained h h' → Q () s') →
      wp (consolidateChain av fuel (first 0 l)) Q E s := by
  -- on the pending chunks, of which each turn takes up the first
  induction l with
  | nil =>
    intro s h fuel r hs hpend _ hfuel hQ
    rcases Nat.exists_eq_succ_of_ne_zero (Nat.ne_of_gt hfuel) with ⟨fuel, rfl⟩
    unfold ArbiterThread.consolidateChain
    rw [show first 0 ([] : List Nat) = 0 from rfl, if_pos rfl, wp_pure]
    exact hQ s h rfl r hs ⟨.refl h, rfl, hpend, fun _ huse _ => ⟨rfl, rfl, huse⟩⟩
  | cons p l ih =>
    intro s h fuel r hs hpend hall hfuel hQ
    have t := r.body.tidy
    have hp := t.lists.pend (hpend ▸ List.mem_cons_self)
    have hb := t.tiling.bounds hp.1
    have hthread := r.body.holds.pending
    have hnodup := t.lists.pend_nodup
    rw [hpend, Thread.cons_iff] at hthread
    rw [hpend, List.nodup_cons] at hnodup
    have hfirst := hall p List.mem_cons_self
    rw [List.length_cons] at hfuel
    rcases Nat.exists_eq_succ_of_ne_zero (show fuel ≠ 0 by omega) with ⟨fuel, rfl⟩
    unfold ArbiterThread.consolidateChain
    rw [show first 0 (p :: l) = p from rfl, if_neg (by omega), wp_bind]
    refine (Node.chunk hp.1).fdOf r.body ?_
    rw [hthread.1, wp_bind, ← hfirst.1]
    refine r.consolidateChunk hs hpend hfirst.2 (fun s₁ h₁ hs₁ r₁ hset₁ hm => ?_)
    rw [hfirst.1]
    refine ih fuel r₁ hset₁ hm.pending (fun x hx => ?_) (by omega) (fun s₂ h₂ hs₂ r₂ hset₂ hd => ?_)
    · -- the chunks still pending are where they were
      have hx' := t.lists.pend (hpend ▸ List.mem_cons_of_mem _ hx)
      have hne : x ≠ p := by
        rintro rfl
        exact hnodup.1 hx
      have hsame := hm.fast (x := x) hx'.1 ((Heap.setUse_use_of_ne _ _ _ hne).trans hx'.2.1)
      have hcond := hall x (List.mem_cons_of_mem _ hx)
      have hsz : h₁.size x = h.size x := hsame.1
      have hunit : h₁.unit x = h.unit x := hsame.2.1
      have hbase : h₁.base = h.base := hm.base
      have howner : h₁.owner = h.owner := hm.owner
      simp only [Heap.avOf, Heap.next, Heap.fence, hsz, hunit, hbase, howner] at *
      exact hcond
    · exact hQ s₂ h₂ (hs₂.trans hs₁) r₂ hset₂ (hm.drained t hpend hd)

/-! ### Tearing down all fastbins -/

/-- No chunk of the fastbins of `av` ends at a fencepost. -/
def Heap.FastClear (h : Heap) (av : Nat) : Prop :=
  ∀ i, ∀ x ∈ h.fasts av i, h.next x ≠ h.fence (h.unit x)

/-- A fastbin is emptied and its chunks become pending. -/
theorem Rep.detach (r : Rep m₀ s h) {av : Nat} (hav : Active s av) (i : Nat) :
    Rep m₀ (s.amend av fun m => { m with fastbins := Function.update m.fastbins i 0 })
      ((h.setFast av i []).setPending (h.fasts av i)) := by
  have b := r.body
  have ht := b.tracks.mstate hav
  -- the other fastbins, and the links of its chunks, stay as they were
  refine r.amend ⟨b.tidy.detach av i, ?_, ?_⟩ Iff.rfl rfl
  · refine b.tracks.amend rfl rfl rfl (fun av' hne => ?_) Iff.rfl (fun _ => ?_)
    · funext j
      exact Heap.setFast_of_ne h av i [] (fun heq => hne heq.1)
    · refine ⟨ht.made, ?_, ?_, ?_, ?_, ?_⟩
      all_goals rw [State.amend_self]
      · exact ht.maxFast
      · intro j hj
        change Function.update (s.mstates av).fastbins i 0 j =
          first 0 ((h.setFast av i []).fasts av j)
        by_cases hji : j = i
        · rw [hji, Function.update_self, Heap.setFast_self]
          rfl
        · rw [Function.update_of_ne hji, Heap.setFast_of_ne h av i [] (fun heq => hji heq.2)]
          exact ht.fastbins j hj
      · exact ht.units
      · exact ht.binmap
      · exact ht.binmapEnd
  · have hm := b.holds
    refine ⟨hm.head, hm.foot, hm.fence, fun av' j => ?_, hm.fasts av i, hm.kept, hm.outside⟩
    change Thread (fdAt s.mem) 0 ((h.setFast av i []).fasts av' j)
    by_cases heq : av' = av ∧ j = i
    · rw [heq.1, heq.2, Heap.setFast_self]
      exact .nil 0
    · rw [Heap.setFast_of_ne h av i [] heq]
      exact hm.fasts av' j

/-- All fastbins. -/
theorem Rep.consolidateBins {av : Nat} {Q : Unit → State K → Prop} (is : List Nat) :
    ∀ {s : State K} {h : Heap}, Rep m₀ s h → h.Settled → Active s av → h.FastClear av →
      (∀ i ∈ is, i < 8) →
      (∀ s' h', Active s' av → Rep m₀ s' h' → h'.Settled → Rearranged h h' → Q () s') →
      wp (consolidateBins av is) Q E s := by
  -- on the fastbins that are left to be torn down
  induction is with
  | nil =>
    intro s h r hs hav _ _ hQ
    exact (wp_pure ..).mpr (hQ s h hav r hs (.refl h))
  | cons i is ih =>
    intro s h r hs hav hclear hlt hQ
    have t := r.body.tidy
    have hi := hlt i List.mem_cons_self
    unfold ArbiterThread.consolidateBins
    simp only [wp_bind, wp_getMstate, setFastbin, wp_setMstate,
      (r.body.tracks.mstate hav).fastbins i hi]
    have hset : ((h.setFast av i []).setPending (h.fasts av i)).Settled := ⟨hs.use, hs.top⟩
    refine Rep.consolidateChain (h.fasts av i) loopFuel (r.detach hav i) hset rfl
      (fun x hx => ⟨(t.lists.fast hx).2.2.1, hclear i x hx⟩)
      (t.tiling.length_lt (t.lists.fast_nodup av i) (fun x hx => (t.lists.fast hx).1))
      (fun s₁ h₁ hs₁ r₁ hset₁ hd => ?_)
    have hav₁ : Active s₁ av := by
      unfold Active
      rw [hs₁]
      exact (active_amend Iff.rfl av).mpr hav
    refine ih r₁ hset₁ hav₁ (fun j x hx => ?_) (fun j hj => hlt j (List.mem_cons_of_mem _ hj))
      (fun s₂ h₂ hav₂ r₂ hset₂ hre => hQ s₂ h₂ hav₂ r₂ hset₂ ?_)
    · -- the chunks of the other fastbins are where they were
      rw [hd.fasts] at hx
      change x ∈ (h.setFast av i []).fasts av j at hx
      by_cases hji : j = i
      · rw [hji, Heap.setFast_self] at hx
        exact absurd hx List.not_mem_nil
      · rw [Heap.setFast_of_ne h av i [] (fun heq => hji heq.2)] at hx
        have hlist := t.lists.fast hx
        have hnot : x ∉ h.fasts av i := by
          intro hcon
          have hother := t.lists.fast hcon
          omega
        have hsame := hd.fast (x := x) hlist.1 hlist.2.1 hnot
        have hsz : h₁.size x = h.size x := hsame.1
        have hunit : h₁.unit x = h.unit x := hsame.2.1
        have hbase : h₁.base = h.base := hd.base
        have hcond := hclear j x hx
        simp only [Heap.next, Heap.fence, hsz, hunit, hbase] at *
        exact hcond
    · exact ⟨hre.base.trans hd.base, hre.owner.trans hd.owner, hre.live.trans hd.live,
        FastsFrom.trans (h := h) hd.wasFast hre.wasFast⟩

/-- A change of the flags that are kept in `max_fast`. -/
theorem Rep.amendMaxFast (r : Rep m₀ s h) {av : Nat} (hav : Active s av) {f : Mstate → Mstate}
    (hsame : ∀ m, (f m).fastbins = m.fastbins ∧ (f m).ustateList = m.ustateList ∧
      (f m).binmap = m.binmap)
    (hmax : (f (s.mstates av)).maxFast = 72 ∨ (f (s.mstates av)).maxFast = 73 ∨
      (f (s.mstates av)).maxFast = 75) :
    Rep m₀ (s.amend av f) h ∧ Active (s.amend av f) av := by
  have ht := r.body.tracks.mstate hav
  have hactive : (f (s.mstates av)).maxFast ≠ 0 ↔ (s.mstates av).maxFast ≠ 0 :=
    ⟨fun _ => hav, fun _ => by omega⟩
  refine ⟨r.amend ⟨r.body.tidy, r.body.tracks.amend rfl rfl rfl (fun _ _ => rfl) hactive
    (fun _ => ?_), r.body.holds⟩ hactive rfl, (active_amend hactive av).mpr hav⟩
  refine ⟨ht.made, ?_, ?_, ?_, ?_, ?_⟩
  all_goals rw [State.amend_self]
  · exact hmax
  · rw [(hsame _).1]
    exact ht.fastbins
  · rw [(hsame _).2.1]
    exact ht.units
  · rw [(hsame _).2.2]
    exact ht.binmap
  · rw [(hsame _).2.2]
    exact ht.binmapEnd

theorem Rep.mallocConsolidate (r : Rep m₀ s h) (hs : h.Settled) {av : Nat} (hav : Active s av)
    (hclear : h.FastClear av) {Q : Unit → State K → Prop}
    (hQ : ∀ s' h', Active s' av → Rep m₀ s' h' → h'.Settled → Rearranged h h' → Q () s') :
    wp (mallocConsolidate av) Q E s := by
  have hmax := (r.body.tracks.mstate hav).maxFast
  have hcount : fastbinIndex (s.mstates av).maxFast + 1 = 8 := by
    unfold fastbinIndex
    omega
  unfold ArbiterThread.mallocConsolidate
  rw [wp_bind, wp_getMstate, if_pos (show (s.mstates av).maxFast ≠ 0 from hav), wp_bind,
    wp_setMstate, hcount]
  have hflags := r.amendMaxFast hav (f := clearFastchunks) (fun _ => ⟨rfl, rfl, rfl⟩) (by
    change (s.mstates av).maxFast / 4 * 4 + (s.mstates av).maxFast % 2 = 72 ∨
      (s.mstates av).maxFast / 4 * 4 + (s.mstates av).maxFast % 2 = 73 ∨
      (s.mstates av).maxFast / 4 * 4 + (s.mstates av).maxFast % 2 = 75
    omega)
  exact Rep.consolidateBins _ hflags.1 hs hflags.2 hclear (fun i hi => List.mem_range.mp hi) hQ

end

end ArbiterThread
