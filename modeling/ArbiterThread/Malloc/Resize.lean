import ArbiterThread.Malloc.Release

/-!
# Resizing a Chunk in Place

The parts of `ablib_realloc` that leave a block where it is. The chunk is joined with
what is behind it, a free chunk or a part of the unit top, or it is cut and the rest
released.

A chunk that is being resized is raw, like one that is being merged. Its header still
tells whether the chunk before it is in use, because `set_head_size` takes that bit
over, and its first bytes are to be kept.

## Main definitions

* `Resizing`: A chunk that is being resized.
* `Refit`: The chunk is in use again, with another size.
* `Stage`: A call that has a chunk to resize.

## Theorems

* `Rep.resizeWhole`, `Rep.resizeCut`, `Rep.resizeTop`: The stores for the three ways.
* `Rep.fuse`, `Rep.fuseFree`: The chunk joined with the one behind it.
* `Stage.reallocSplit`: The common end of the calls that stay in place.
-/

namespace ArbiterThread

open Exec Rings

variable {K : Type}

/-- A chunk that is being resized, in a heap that is settled otherwise. Its header
    still tells whether the chunk before is in use. -/
structure Resizing (s : State K) (h : Heap) (p : Nat) : Prop where
  size : h.size p ≠ 0
  use : h.use p = .raw
  settled : h.SettledBut (· = p)
  parity : s.mem.load32 (p + 4) % 2 = (h.flag p).toNat

/-- The chunk at `p` is in use with a size of `z`. The others in use are the same. -/
structure Refit (h h' : Heap) (p z : Nat) : Prop where
  base : h'.base = h.base
  owner : h'.owner = h.owner
  live : h'.live = Function.update h.live p (some (z, h.unit p, h.keep p))
  wasFast : FastsFrom h h'

section

variable {m₀ : Mem} {s s' : State K} {h h' : Heap} {p u nb n : Nat}
variable {E : Fault → State K → Prop} {Q : Unit → State K → Prop}

/-! ### Headers -/

/-- A size field with the flag of the old one. -/
theorem Body.setHeadSize (b : Body m₀ s h) (hp : h.size p ≠ 0)
    (hparity : s.mem.load32 (p + 4) % 2 = (h.flag p).toNat) (h8 : n % 8 = 0)
    (hQ : Q () (s.put (p + 4) (n + (h.flag p).toNat))) :
    wp (ArbiterThread.setHeadSize p n) Q E s := by
  have hthere : ArbiterThread.mapped s (p + 4) :=
    b.mapped hp (by omega) (by unfold Heap.next; omega)
  unfold ArbiterThread.setHeadSize ArbiterThread.headOf
  rw [wp_bind]
  refine wp_load_mapped hthere (wp_store_mapped hthere ?_)
  have hvalue : (if prevInuse (s.mem.load32 (p + 4)) then withInuse n else n) =
      n + (h.flag p).toNat := by
    cases hflag : h.flag p with
    | true =>
      rw [hflag] at hparity
      rw [if_pos (show prevInuse _ from hparity), withInuse_of_mod h8]
      rfl
    | false =>
      rw [hflag] at hparity
      rw [if_neg (by unfold prevInuse; rw [hparity]; decide)]
      rfl
  rwa [hvalue]

/-- Marking a chunk that is being worked on as in use. A fencepost behind it says so
    already. -/
theorem Rep.markInuse (r : Rep m₀ s h) (hp : h.size p ≠ 0)
    (huse : h.use p = .held ∨ h.use p = .raw)
    (hraw : h.size (h.next p) ≠ 0 → h.use (h.next p) ≠ .raw)
    (hQ : ∀ s' f, Frame s s' → Rep m₀ s' { h with flag := f } →
      (∀ q, q ≠ h.next p → f q = h.flag q) → (h.size (h.next p) ≠ 0 → f (h.next p) = true) →
      (∀ a, a + 4 ≤ h.next p + 4 → s'.mem.load32 a = s.mem.load32 a) → Q () s') :
    wp (setInuseBitAtOffset p (h.size p)) Q E s := by
  by_cases hend : h.next p = h.fence (h.unit p)
  · have hu := (r.body.tidy.tiling.place hp).1
    have hzero := r.body.tidy.tiling.size_fence hu
    unfold setInuseBitAtOffset
    rw [wp_bind, r.body.chunkAtOffset hp, hend]
    refine r.body.headOf_fence hu (wp_store_mapped ?_ ?_)
    · have hin := r.body.tidy.tiling.inside hu
      simp only [mapped, Heap.fence, unitTopSize, wordSize, channelAddr, channelSize]
      omega
    · rw [show withInuse 5 = 5 from rfl, r.body.put_fence hu rfl]
      exact hQ s h.flag (Frame.refl s) r (fun _ _ => rfl)
        (fun hn => absurd (hend ▸ hzero) hn) (fun _ _ => rfl)
  · have hn := (r.body.tidy.tiling.follow hp hend).1
    refine r.body.setInuseBitAtOffset hp hn (hraw hn) ?_
    refine hQ _ _ (Frame.mem s _) (r.put hn (.inl rfl) (r.body.setFlag hp huse hn true) rfl)
      (fun q hq => Function.update_of_ne hq _ _) (fun _ => Function.update_self ..) (fun a ha => ?_)
    exact load32_put_of_disjoint _ _ (.inl ha)

/-! ### All of a chunk -/

/-- The chunk is in use with all it has. -/
theorem Rep.resizeWhole (r : Rep m₀ s h) (hz : Resizing s h p)
    (hQ : ∀ s' h', Frame s s' → Rep m₀ s' h' → h'.Settled → Refit h h' p (h.size p) → Q () s') :
    wp (setHeadSize p (h.size p)) (fun _ s₁ => wp (setInuseBitAtOffset p (h.size p)) Q E s₁) E
      s := by
  have hb := r.body.tidy.tiling.bounds hz.size
  have hne := Heap.next_ne hz.size
  refine r.body.setHeadSize hz.size hz.parity hb.2.2.2.1 ?_
  have r₁ := r.put (v := h.size p + (h.flag p).toNat) hz.size (.inl rfl)
    (r.body.put (.own p hz.size hz.use (.inl rfl) (by omega)) _) rfl
  refine r₁.markInuse hz.size (.inr hz.use) (fun hn => (hz.settled.use hn hne).2)
    (fun s' f hf r' hother hnext hload => ?_)
  have hhead : s'.mem.load32 (p + 4) = Heap.head { h with flag := f } p := by
    have hflag := Bool.toNat_le (h.flag p)
    rw [hload _ (by unfold Heap.next; omega), load32_put_self _ _ (by omega)]
    change _ = h.size p + (f p).toNat
    rw [hother p hne.symm]
  refine hQ s' (Heap.setUse { h with flag := f } p .live) (Frame.trans _ _ _ (Frame.mem s _) hf)
    (r'.of_body (r'.body.settle hz.size (.inr hz.use) hnext hhead) rfl) ?_
    ⟨rfl, rfl, Heap.live_settle (h := { h with flag := f }) hz.size, ?_⟩
  · have hs : Heap.SettledBut { h with flag := f } (· = p) := ⟨hz.settled.use, hz.settled.top⟩
    exact hs.setUse (by change h.use p ≠ _; rw [hz.use]; decide) (by decide)
  · exact FastsFrom.setUse { h with flag := f } p (by decide)

/-! ### A chunk cut in two -/

theorem Heap.SettledBut.cleave (t : h.Tiling) (hs : h.SettledBut (· = p)) (hp : h.size p ≠ 0)
    (huse : h.use p = .raw) (hnb : 16 ≤ nb) (hrest : nb + 16 ≤ h.size p) :
    (h.cleave p nb).SettledBut (fun q => q = p ∨ q = p + nb) := by
  refine ⟨fun {q} hq hne => ?_, fun {u} hu htop => ?_⟩
  · have hqp : q ≠ p := fun heq => hne (.inl heq)
    have hqr : q ≠ p + nb := fun heq => hne (.inr heq)
    rw [Heap.cleave_size_of_ne hqp hqr] at hq
    have hold := hs.use hq hqp
    rwa [show (h.cleave p nb).use q = h.use q from Function.update_of_ne hqr _ _]
  · have hold := hs.top hu htop
    have hqp : h.top u ≠ p := by
      intro heq
      rw [heq, huse] at hold
      exact Use.noConfusion hold.2.1
    have hkeeps := t.cleave_keeps hp hnb hrest hold.1
    refine ⟨hkeeps.2, ?_, ?_⟩
    · exact (Function.update_of_ne hkeeps.1 _ _).trans hold.2.1
    · exact (Function.update_of_ne hkeeps.1 _ _).trans hold.2.2

/-- The chunk is in use with `nb` bytes, and the rest of it is in use, too. -/
structure Parted (h h' : Heap) (p nb : Nat) : Prop where
  base : h'.base = h.base
  owner : h'.owner = h.owner
  live : h'.live = Function.update
    (Function.update h.live (p + nb) (some (h.size p - nb, h.unit p, 0))) p
      (some (nb, h.unit p, h.keep p))
  wasFast : FastsFrom h h'

/-- The stores of the split, which make two chunks in use out of one. -/
theorem Rep.resizeCut (r : Rep m₀ s h) (hz : Resizing s h p) (hnb : 16 ≤ nb) (h8 : nb % 8 = 0)
    (hrest : nb + 16 ≤ h.size p) (hkeep : h.keep p + 4 ≤ nb)
    (hQ : ∀ s' h', Frame s s' → Rep m₀ s' h' → h'.Settled → Parted h h' p nb → Q () s') :
    wp (setHeadSize p nb) (fun _ s₁ =>
      wp (setHead (p + nb) (withInuse (h.size p - nb))) (fun _ s₂ =>
        wp (setInuseBitAtOffset (p + nb) (h.size p - nb)) Q E s₂) E s₁) E s := by
  have t := r.body.tidy.tiling
  have hb := t.bounds hz.size
  have hne : p ≠ p + nb := by omega
  have hsettled := hz.settled.cleave t hz.size hz.use hnb hrest
  have hlive : (h.cleave p nb).live = h.live := Heap.live_cleave t hz.size hz.use hnb hrest
  -- the heap is cut at once, both parts raw until their headers are written
  have r₀ := r.of_body (r.body.cleave hz.size hz.use hnb h8 hrest hkeep) rfl
  have hsp : (h.cleave p nb).size p = nb := Heap.cleave_size_self
  have hsr : (h.cleave p nb).size (p + nb) = h.size p - nb := Heap.cleave_size_rest (by omega)
  have hup : (h.cleave p nb).use p = .raw := (Function.update_of_ne hne _ _).trans hz.use
  have hur : (h.cleave p nb).use (p + nb) = .raw := Function.update_self ..
  have hfp : (h.cleave p nb).flag p = h.flag p := Function.update_of_ne hne _ _
  have hfr : (h.cleave p nb).flag (p + nb) = true := Function.update_self ..
  have hkp : (h.cleave p nb).keep p = h.keep p := Function.update_of_ne hne _ _
  have hkr : (h.cleave p nb).keep (p + nb) = 0 := Function.update_self ..
  have hunitp : (h.cleave p nb).unit p = h.unit p := Function.update_of_ne hne _ _
  have hunitr : (h.cleave p nb).unit (p + nb) = h.unit p := Function.update_self ..
  have hfast : FastsFrom h (h.cleave p nb) := by
    intro q hq huse
    have hqr : q ≠ p + nb := by
      rintro rfl
      rw [hur] at huse
      exact Use.noConfusion huse
    have hqp : q ≠ p := by
      rintro rfl
      rw [hup] at huse
      exact Use.noConfusion huse
    refine ⟨(Heap.cleave_size_of_ne hqp hqr).symm, (Function.update_of_ne hqr _ _).symm, ?_⟩
    rwa [show (h.cleave p nb).use q = h.use q from Function.update_of_ne hqr _ _] at huse
  have hbase : (h.cleave p nb).base = h.base := rfl
  have howner : (h.cleave p nb).owner = h.owner := rfl
  refine r.body.setHeadSize hz.size hz.parity h8 ?_
  generalize h.cleave p nb = c at *
  have hp0 : c.size p ≠ 0 := by omega
  have hr0 : c.size (p + nb) ≠ 0 := by omega
  have r₁ := r₀.put (v := nb + (h.flag p).toNat) hp0 (.inl rfl)
    (r₀.body.put (.own p hp0 hup (.inl rfl) (by omega)) _) rfl
  refine wp_store_mapped (r₁.body.mapped hr0 (by omega) (by unfold Heap.next; omega)) ?_
  have r₂ := r₁.put (v := withInuse (c.size (p + nb))) hr0 (.inl rfl)
    (r₁.body.put (.own _ hr0 hur (.inl rfl) (by omega)) _) rfl
  have hnext_ne := Heap.next_ne hr0
  have hbeyond : p + nb + 16 ≤ c.next (p + nb) := by
    unfold Heap.next
    omega
  rw [← hsr]
  -- the last store is the bit behind the remainder
  refine r₂.markInuse hr0 (.inr hur) (fun hn => ?_) (fun s' f hf r' hother hnext hload => ?_)
  · refine (hsettled.use hn ?_).2
    rintro (heq | heq) <;> omega
  have hheadr : s'.mem.load32 (p + nb + 4) = Heap.head { c with flag := f } (p + nb) := by
    rw [hload _ (by omega), hsr, withInuse_of_mod (by omega), load32_put_self _ _ (by omega)]
    change _ = c.size (p + nb) + (f (p + nb)).toNat
    rw [hother _ hnext_ne.symm, hfr, hsr]
    rfl
  have r₃ := r'.of_body (r'.body.settle hr0 (.inr hur) hnext hheadr) rfl
  have hheadp : s'.mem.load32 (p + 4) =
      Heap.head (Heap.setUse { c with flag := f } (p + nb) .live) p := by
    have hflag := Bool.toNat_le (h.flag p)
    rw [hload _ (by omega), load32_put_of_disjoint _ _ (by omega), load32_put_self _ _ (by omega)]
    change _ = c.size p + (f p).toNat
    rw [hother p (by omega), hsp, hfp]
  have hup' : (Heap.setUse { c with flag := f } (p + nb) .live).use p = .raw :=
    (Heap.setUse_use_of_ne _ _ _ hne).trans hup
  have r₄ := r₃.of_body (r₃.body.settle hp0 (.inr hup') (fun _ => by
    change f (p + c.size p) = true
    rw [hsp, hother _ hnext_ne.symm, hfr]) hheadp) rfl
  refine hQ s' _ (Frame.trans _ _ _ (Frame.mem s _) (Frame.trans _ _ _ (Frame.mem _ _) hf)) r₄ ?_
    ⟨hbase, howner, ?_, ?_⟩
  · have hs : Heap.SettledBut { c with flag := f } (fun q => q = p ∨ q = p + nb) :=
      ⟨hsettled.use, hsettled.top⟩
    have hs₁ := (hs.settle (p := p + nb) (k := .live) (by
      change c.use _ ≠ _
      rw [hur]
      decide) (by decide)).settle (p := p) (k := .live) (by
      rw [hup']
      decide) (by decide)
    exact hs₁.mono (fun q hq => by omega)
  · have hlive₁ := Heap.live_settle (h := { c with flag := f }) hr0
    have hlive₂ := Heap.live_settle (h := Heap.setUse { c with flag := f } (p + nb) .live) hp0
    rw [hlive₂, hlive₁]
    change Function.update (Function.update c.live _ (some (c.size _, c.unit _, c.keep _))) _
      (some (c.size p, c.unit p, c.keep p)) = _
    rw [hlive, hsr, hunitr, hkr, hsp, hunitp, hkp]
  · exact hfast.trans ((FastsFrom.setUse { c with flag := f } _ (by decide)).trans
      (FastsFrom.setUse _ _ (by decide)))

/-! ### Joining with the chunk behind -/

/-- The chunk at `p` joined with the one behind it. -/
def Heap.fuse (h : Heap) (p : Nat) : Heap :=
  ((h.setUse (h.next p) .raw).setUse p .raw).join p

theorem Heap.fuse_size_self (h : Heap) (p : Nat) :
    (h.fuse p).size p = h.size p + h.size (h.next p) := Heap.join_size_self

theorem Heap.fuse_size_of_ne {q : Nat} (hp : q ≠ p) (hn : q ≠ h.next p) :
    (h.fuse p).size q = h.size q := Heap.join_size_of_ne hp hn

theorem Heap.fuse_use_self (h : Heap) (p : Nat) : (h.fuse p).use p = .raw :=
  Heap.setUse_use_self ..

theorem Heap.fuse_use_next (hp : h.size p ≠ 0) : (h.fuse p).use (h.next p) = .raw :=
  (Heap.setUse_use_of_ne _ _ _ (Heap.next_ne hp)).trans (Heap.setUse_use_self ..)

theorem Heap.fuse_use_of_ne {q : Nat} (hp : q ≠ p) (hn : q ≠ h.next p) :
    (h.fuse p).use q = h.use q :=
  (Heap.setUse_use_of_ne _ _ _ hp).trans (Heap.setUse_use_of_ne _ _ _ hn)

theorem Heap.live_fuse (hp : h.size p ≠ 0) :
    (h.fuse p).live = Function.update (Function.update h.live (h.next p) none) p none := by
  have hp' : ((h.setUse (h.next p) .raw).setUse p .raw).size p ≠ 0 := hp
  unfold Heap.fuse
  rw [Heap.live_join hp' (h.fuse_use_self p) (Heap.fuse_use_next hp),
    Heap.live_loosen (by decide), Heap.live_loosen (by decide)]

theorem Heap.fuse_fasts (hp : h.size p ≠ 0) : FastsFrom h (h.fuse p) := by
  have hp' : ((h.setUse (h.next p) .raw).setUse p .raw).size p ≠ 0 := hp
  have hjoin := (Merged.join hp' (h.fuse_use_self p) (Heap.fuse_use_next hp)).wasFast
  exact ((FastsFrom.setUse h (h.next p) (k := .raw) (by decide)).trans
    (FastsFrom.setUse _ p (k := .raw) (by decide))).trans hjoin

theorem Rep.fuse (r : Rep m₀ s h) (hp : h.size p ≠ 0) (huse : h.use p = .live)
    (hn : h.size (h.next p) ≠ 0) (hnuse : h.use (h.next p) ≠ .free ∧ h.use (h.next p) ≠ .fast) :
    Rep m₀ s (h.fuse p) := by
  have r₁ := r.of_body (r.body.loosen hn hnuse) rfl
  have huse₁ : (h.setUse (h.next p) .raw).use p = .live :=
    (Heap.setUse_use_of_ne _ _ _ (Heap.next_ne hp).symm).trans huse
  have r₂ := r₁.of_body (r₁.body.loosen hp (by rw [huse₁]; decide)) rfl
  exact r₂.of_body (r₂.body.join hp hn (h.fuse_use_self p) (Heap.fuse_use_next hp)) rfl

/-- The header of a chunk in use tells whether the chunk before is. -/
theorem Body.parity (b : Body m₀ s h) (hp : h.size p ≠ 0) (huse : h.use p ≠ .raw) :
    s.mem.load32 (p + 4) % 2 = (h.flag p).toNat := by
  have hb := b.tidy.tiling.bounds hp
  have hflag := Bool.toNat_le (h.flag p)
  rw [b.holds.head hp huse, Heap.head]
  omega

/-- What is known of a chunk that was joined with the one behind it. -/
structure Fused (s : State K) (h h' : Heap) (p : Nat) : Prop where
  resizing : Resizing s h' p
  size : h'.size p = h.size p + h.size (h.next p)
  unit : h'.unit p = h.unit p
  keep : h'.keep p = h.keep p
  base : h'.base = h.base
  owner : h'.owner = h.owner
  live : h'.live = Function.update (Function.update h.live (h.next p) none) p none
  wasFast : FastsFrom h h'

theorem Body.fused (b : Body m₀ s h) (hs : h.SettledBut (· = h.next p)) (hp : h.size p ≠ 0)
    (huse : h.use p = .live) (hnuse : h.use (h.next p) ≠ .top) : Fused s h (h.fuse p) p := by
  have huse₁ : (h.setUse (h.next p) .raw).use p = .live :=
    (Heap.setUse_use_of_ne _ _ _ (Heap.next_ne hp).symm).trans huse
  have hs₁ := hs.takeUp (p := h.next p) (k := .raw) hnuse
  have hs₂ := hs₁.takeUp (p := p) (k := .raw) (by rw [huse₁]; decide)
  have hs₃ := (hs₂.mono (Y := fun q => q = h.next p ∨ q = p) (fun q hq => by omega)).join hp
    (h.fuse_use_self p) (Heap.fuse_use_next hp)
  refine ⟨⟨?_, h.fuse_use_self p, hs₃, ?_⟩, h.fuse_size_self p, rfl, rfl, rfl, rfl,
    Heap.live_fuse hp, Heap.fuse_fasts hp⟩
  · rw [h.fuse_size_self p]
    exact fun hzero => hp (Nat.add_eq_zero_iff.mp hzero).1
  · exact b.parity hp (by rw [huse]; decide)

/-- The chunk joined with the free one behind it. -/
theorem Rep.fuseFree (r : Rep m₀ s h) (hs : h.Settled) (hp : h.size p ≠ 0)
    (huse : h.use p = .live) (hn : h.size (h.next p) ≠ 0) (hfree : h.use (h.next p) = .free)
    (hQ : ∀ s' h', Frame s s' → Rep m₀ s' h' → Fused s' h h' p → Q () s') :
    wp (ArbiterThread.unlink (h.next p)) Q E s := by
  obtain ⟨i, hmem⟩ := r.body.tidy.lists.binned hn hfree
  obtain ⟨l₁, l₂, hbin⟩ := List.append_of_mem hmem
  refine wp_mono (wp_and (framed_unlink (h.next p) s) (r.unlink (E := E) hbin
    (Q := fun _ s' => Rep m₀ s' (h.take (h.avOf (h.next p)) i (l₁ ++ l₂) (h.next p)))
    (fun _ _ r' => r'))) (fun _ s' hpost => ?_) (fun _ _ he => he.2)
  obtain ⟨hf, r'⟩ := hpost
  -- the neighbour is held between the unlink and the join
  have hhand := r.body.tidy.inHand hs hbin
  have hrear := r.body.tidy.rearranged_take hbin
  have huse' : (h.take (h.avOf (h.next p)) i (l₁ ++ l₂) (h.next p)).use p = .live :=
    (Heap.take_use_of_ne _ (Heap.next_ne hp).symm).trans huse
  have hheld : (h.take (h.avOf (h.next p)) i (l₁ ++ l₂) (h.next p)).use (h.next p) = .held :=
    Heap.take_use_self ..
  have hfused := r'.body.fused hhand.settled hp huse' (by
    change (h.take _ i _ _).use (h.next p) ≠ _
    rw [hheld]
    decide)
  refine hQ s' _ hf (r'.fuse hp huse' hn (by
    change (h.take _ i _ _).use (h.next p) ≠ _ ∧ (h.take _ i _ _).use (h.next p) ≠ _
    rw [hheld]
    decide)) ⟨hfused.resizing, hfused.size, rfl, rfl, rfl, rfl, ?_, ?_⟩
  · rw [hfused.live, hrear.live]
    rfl
  · exact hrear.wasFast.trans hfused.wasFast

/-! ### Growing into the unit top -/

/-- A chunk up to the fencepost cut after `nb` bytes. The first part is in use, and the
    second is the unit top. -/
def Heap.cutTop (h : Heap) (p nb : Nat) : Heap :=
  ((h.cleave p nb).setUse p .live).setUse (p + nb) .top

/-- A chunk that takes the place of the unit top of its unit, in a heap that is settled
    otherwise. -/
structure Topmost (h : Heap) (p : Nat) : Prop where
  size : h.size p ≠ 0
  use : h.use p = .raw
  ends : h.next p = h.fence (h.unit p)
  others : ∀ q, h.size q ≠ 0 → q ≠ p → h.use q ≠ .held ∧ h.use q ≠ .raw
  tops : ∀ v, v ≠ h.unit p → h.base v ≠ 0 → h.top v ≠ h.fence v →
    h.size (h.top v) ≠ 0 ∧ h.use (h.top v) = .top ∧ h.unit (h.top v) = v

theorem Rep.cutTop (r : Rep m₀ s h) (ht : Topmost h p) (hnb : 16 ≤ nb) (h8 : nb % 8 = 0)
    (hrest : nb + 16 ≤ h.size p) (hkeep : h.keep p + 4 ≤ nb)
    (htop : h.top (h.unit p) = p + nb) (hhead : s.mem.load32 (p + 4) = nb + (h.flag p).toNat) :
    Rep m₀ (s.put (p + nb + 4) (h.size p - nb + 1)) (h.cutTop p nb) := by
  have hb := r.body.tidy.tiling.bounds ht.size
  have hne : p ≠ p + nb := by omega
  -- cut first, then the two parts become the block and the top
  have r₁ := r.of_body (r.body.cleave ht.size ht.use hnb h8 hrest hkeep) rfl
  have hsp : (h.cleave p nb).size p = nb := Heap.cleave_size_self
  have hsr : (h.cleave p nb).size (p + nb) = h.size p - nb := Heap.cleave_size_rest (by omega)
  have hup : (h.cleave p nb).use p = .raw := (Function.update_of_ne hne _ _).trans ht.use
  have hur : (h.cleave p nb).use (p + nb) = .raw := Function.update_self ..
  have hfp : (h.cleave p nb).flag p = h.flag p := Function.update_of_ne hne _ _
  have hfr : (h.cleave p nb).flag (p + nb) = true := Function.update_self ..
  have hkr : (h.cleave p nb).keep (p + nb) = 0 := Function.update_self ..
  have hunitr : (h.cleave p nb).unit (p + nb) = h.unit p := Function.update_self ..
  have hsame : (h.cleave p nb).top = h.top ∧ (h.cleave p nb).fence = h.fence := ⟨rfl, rfl⟩
  have hends := ht.ends
  unfold Heap.cutTop
  generalize h.cleave p nb = c at *
  have hp0 : c.size p ≠ 0 := by omega
  have hr0 : c.size (p + nb) ≠ 0 := by omega
  have r₂ := r₁.put (v := h.size p - nb + 1) hr0 (.inl rfl)
    (r₁.body.put (.own _ hr0 hur (.inl rfl) (by omega)) _) rfl
  have r₃ := r₂.of_body (r₂.body.settle hp0 (.inr hup)
    (fun _ => by rw [Heap.next, hsp]; exact hfr) (by
      rw [load32_put_of_disjoint _ _ (by omega), hhead, Heap.head, hsp, hfp])) rfl
  refine r₃.of_body (r₃.body.settleTop hr0 ?_ hfr hkr ?_ ?_ ?_) rfl
  · exact (Heap.setUse_use_of_ne _ _ _ hne.symm).trans hur
  · change c.top (c.unit _) = _
    rw [hunitr, hsame.1, htop]
  · change p + nb + c.size (p + nb) = c.fence (c.unit _)
    rw [hunitr, hsame.2, ← hends, hsr]
    unfold Heap.next
    omega
  · change _ = c.size _ + 1
    rw [load32_put_self _ _ (by omega), hsr]

theorem Topmost.cutTop (ht : Topmost h p) (t : h.Tiling) (hnb : 16 ≤ nb)
    (hrest : nb + 16 ≤ h.size p) (htop : h.top (h.unit p) = p + nb) :
    (h.cutTop p nb).Settled ∧ Refit h (h.cutTop p nb) p nb := by
  have hne : p ≠ p + nb := by omega
  have hup : (h.cutTop p nb).use p = .live :=
    (Heap.setUse_use_of_ne _ _ _ hne).trans (Heap.setUse_use_self ..)
  have hur : (h.cutTop p nb).use (p + nb) = .top := Heap.setUse_use_self ..
  have hunitr : (h.cutTop p nb).unit (p + nb) = h.unit p := Function.update_self ..
  have hother : ∀ q, q ≠ p → q ≠ p + nb → (h.cutTop p nb).size q = h.size q ∧
      (h.cutTop p nb).use q = h.use q ∧ (h.cutTop p nb).unit q = h.unit q := by
    intro q hqp hqr
    refine ⟨Heap.cleave_size_of_ne hqp hqr, ?_, Function.update_of_ne hqr _ _⟩
    exact (Heap.setUse_use_of_ne _ _ _ hqr).trans ((Heap.setUse_use_of_ne _ _ _ hqp).trans
      (Function.update_of_ne hqr _ _))
  refine ⟨⟨fun {q} hq _ => ?_, fun {v} hv hvtop => ?_⟩, rfl, rfl, ?_, fun q hq hfast => ?_⟩
  -- the other chunks were settled, and so were the tops of the other units
  · by_cases hqp : q = p
    · rw [hqp, hup]
      decide
    by_cases hqr : q = p + nb
    · rw [hqr, hur]
      decide
    rw [(hother q hqp hqr).2.1]
    rw [(hother q hqp hqr).1] at hq
    exact ht.others q hq hqp
  · change (h.cutTop p nb).size (h.top v) ≠ 0 ∧ (h.cutTop p nb).use (h.top v) = .top ∧
      (h.cutTop p nb).unit (h.top v) = v
    by_cases hvu : v = h.unit p
    · rw [hvu, htop]
      refine ⟨?_, hur, hunitr⟩
      change (h.cleave p nb).size (p + nb) ≠ 0
      rw [Heap.cleave_size_rest (by omega)]
      omega
    · have hold := ht.tops v hvu hv hvtop
      have hqp : h.top v ≠ p := by
        intro heq
        rw [heq, ht.use] at hold
        exact Use.noConfusion hold.2.1
      have hqr := (t.cleave_keeps ht.size hnb hrest hold.1).1
      rw [(hother _ hqp hqr).1, (hother _ hqp hqr).2.1, (hother _ hqp hqr).2.2]
      exact hold
  · have hraw : ((h.cleave p nb).setUse p .live).use (p + nb) = .raw :=
      (Heap.setUse_use_of_ne _ _ _ hne.symm).trans (Function.update_self ..)
    have hsize : (h.cleave p nb).size p ≠ 0 := by
      rw [Heap.cleave_size_self]
      omega
    unfold Heap.cutTop
    rw [Heap.live_setUse (by rw [hraw]; decide) (by decide), Heap.live_settle hsize,
      Heap.live_cleave t ht.size ht.use hnb hrest, Heap.cleave_size_self]
    have hunit : (h.cleave p nb).unit p = h.unit p := Function.update_of_ne hne _ _
    have hkeep : (h.cleave p nb).keep p = h.keep p := Function.update_of_ne hne _ _
    rw [hunit, hkeep]
  · have hqp : q ≠ p := by
      rintro rfl
      rw [hup] at hfast
      exact Use.noConfusion hfast
    have hqr : q ≠ p + nb := by
      rintro rfl
      rw [hur] at hfast
      exact Use.noConfusion hfast
    have hsame := hother q hqp hqr
    exact ⟨hsame.1.symm, hsame.2.2.symm, hsame.2.1 ▸ hfast⟩

/-- The chunk at `p` joined with the unit top, which is moved to `top`. -/
theorem Heap.Tidy.topmost (t : h.Tidy) (hs : h.Settled) (hp : h.size p ≠ 0)
    (hn : h.size (h.next p) ≠ 0) (htop : h.next p = h.top (h.unit p)) (top : Nat) :
    Topmost ((h.fuse p).setTop (h.unit p) top) p := by
  have hu := (t.tiling.place hp).1
  have hfence : h.top (h.unit p) ≠ h.fence (h.unit p) := by
    rw [← htop]
    exact (t.tiling.unit_next hp hn).1
  obtain ⟨-, hutop, huntop, -, hend⟩ := t.top hs hu hfence
  rw [← htop] at hutop huntop hend
  refine ⟨?_, h.fuse_use_self p, ?_, fun q hq hqp => ?_, fun v hvu hv hvtop => ?_⟩
  · change (h.fuse p).size p ≠ 0
    rw [h.fuse_size_self p]
    exact fun hzero => hp (Nat.add_eq_zero_iff.mp hzero).1
  · change p + (h.fuse p).size p = h.fence (h.unit p)
    rw [h.fuse_size_self p, ← hend, Heap.next, Heap.next]
    omega
  · change (h.fuse p).size q ≠ 0 at hq
    change (h.fuse p).use q ≠ _ ∧ (h.fuse p).use q ≠ _
    have hqn : q ≠ h.next p := by
      rintro rfl
      have hp' : ((h.setUse (h.next p) .raw).setUse p .raw).size p ≠ 0 := hp
      exact hq (Heap.join_size_next hp')
    rw [Heap.fuse_use_of_ne hqp hqn]
    rw [Heap.fuse_size_of_ne hqp hqn] at hq
    exact hs.use hq id
  -- the top of another unit is neither of the two chunks
  · have hsame : ((h.fuse p).setTop (h.unit p) top).top v = h.top v :=
      Function.update_of_ne hvu _ _
    rw [hsame] at hvtop ⊢
    have hold := hs.top (u := v) hv hvtop
    have hqp : h.top v ≠ p := by
      intro heq
      rw [heq] at hold
      exact hvu hold.2.2.symm
    have hqn : h.top v ≠ h.next p := by
      intro heq
      rw [heq, huntop] at hold
      exact hvu hold.2.2.symm
    change (h.fuse p).size (h.top v) ≠ 0 ∧ (h.fuse p).use (h.top v) = .top ∧ h.unit (h.top v) = v
    rw [Heap.fuse_size_of_ne hqp hqn, Heap.fuse_use_of_ne hqp hqn]
    exact hold

theorem Frame.moveTop (s : State K) (u top : Nat) : Frame s (s.moveTop u top) :=
  (wp_setUnitTop u top _ _ s).mp (framed_setUnitTop u top s)

/-- The chunk is in use with `nb` bytes, some of which were in the unit top. -/
theorem Rep.resizeTop (r : Rep m₀ s h) (hs : h.Settled) (hp : h.size p ≠ 0)
    (huse : h.use p = .live) (hn : h.size (h.next p) ≠ 0) (htop : h.next p = h.top (h.unit p))
    (h8 : nb % 8 = 0) (hlt : h.size p < nb)
    (hrest : nb + 16 ≤ h.size p + h.size (h.next p))
    (hQ : ∀ s' h', Frame s s' → Rep m₀ s' h' → h'.Settled → Refit h h' p nb → Q () s') :
    wp (ArbiterThread.setHeadSize p nb) (fun _ s₁ =>
      wp (setUnitTop (h.unit p) (p + nb)) (fun _ s₂ =>
        wp (setHead (p + nb) (withInuse (h.size p + h.size (h.next p) - nb))) Q E s₂) E s₁) E
      s := by
  have t := r.body.tidy
  have hb := t.tiling.bounds hp
  have hbn := t.tiling.bounds hn
  have hkept := t.kept hp
  have hflag := Bool.toNat_le (h.flag p)
  have ht := t.topmost hs hp hn htop (p + nb)
  have hfence : h.top (h.unit p) ≠ h.fence (h.unit p) := by
    rw [← htop]
    exact (t.tiling.unit_next hp hn).1
  obtain ⟨-, hutop, -⟩ := t.top hs (t.tiling.place hp).1 hfence
  rw [← htop] at hutop
  refine r.body.setHeadSize hp (r.body.parity hp (by rw [huse]; decide)) h8 ?_
  rw [wp_setUnitTop]
  have r₀ := r.fuse hp huse hn (by rw [hutop]; decide)
  have hsize : (h.fuse p).size p = h.size p + h.size (h.next p) := h.fuse_size_self p
  have r₁ := r₀.put (v := nb + (h.flag p).toNat) ht.size (.inl rfl)
    (r₀.body.put (.own p ht.size ht.use (.inl rfl) (by omega)) _) rfl
  -- no other chunk of the unit is used as its top
  have r₂ := r₁.moveTop (u := h.unit p) (p + nb) (fun q hq hunit htopq => by
    by_cases hqp : q = p
    · rw [hqp, h.fuse_use_self p] at htopq
      exact Use.noConfusion htopq
    by_cases hqn : q = h.next p
    · rw [hqn, Heap.fuse_use_next hp] at htopq
      exact Use.noConfusion htopq
    rw [Heap.fuse_size_of_ne hqp hqn] at hq
    rw [Heap.fuse_use_of_ne hqp hqn] at htopq
    have hold := (t.tops hq htopq).1
    change h.unit q = _ at hunit
    rw [hunit, ← htop] at hold
    exact hqn hold.symm)
  have hnew : ((h.fuse p).setTop (h.unit p) (p + nb)).top (h.unit p) = p + nb :=
    Function.update_self ..
  have hcut := ht.cutTop r₂.body.tidy.tiling (show 16 ≤ nb by omega) (by
    change _ ≤ (h.fuse p).size p
    omega) hnew
  have r₃ := r₂.cutTop ht (by omega) h8 (by
    change _ ≤ (h.fuse p).size p
    omega) (by
    change h.keep p + 4 ≤ nb
    omega) hnew (by
    change (s.put (p + 4) _).mem.load32 (p + 4) = _
    exact load32_put_self _ _ (by omega))
  have hsize' : ((h.fuse p).setTop (h.unit p) (p + nb)).size p = h.size p + h.size (h.next p) :=
    hsize
  rw [hsize'] at r₃
  rw [withInuse_of_mod (by omega)]
  refine wp_store_mapped (r₂.body.mapped ht.size (by omega) ?_) ?_
  · change _ ≤ p + (h.fuse p).size p + 8
    omega
  refine hQ _ _ ?_ r₃ hcut.1 ⟨hcut.2.base, hcut.2.owner, ?_, ?_⟩
  · have hf := Frame.moveTop (s.put (p + 4) (nb + (h.flag p).toNat)) (h.unit p) (p + nb)
    exact Frame.trans _ _ _ (Frame.trans _ _ _ (Frame.mem s _) hf) (Frame.mem _ _)
  · rw [hcut.2.live]
    change Function.update (h.fuse p).live p _ = _
    have hnone : h.live (h.next p) = none :=
      Heap.live_eq_none.mpr (fun _ => by rw [hutop]; decide)
    rw [Heap.live_fuse hp, Function.update_idem, ← hnone, Function.update_eq_self]
    rfl
  · exact (Heap.fuse_fasts hp).trans hcut.2.wasFast

end

/-! ### The common end -/

/-- The chunks in use are the same, with all that is to be kept of them, but for those
    in `x`. -/
structure Retains (h h' : Heap) (x : Nat → Prop) : Prop where
  base : h'.base = h.base
  owner : h'.owner = h.owner
  live : ∀ q, ¬ x (q + 8) → h.live q ≠ none → h'.live q = (h.guard 0).live q
  wasFast : FastsFrom h h'

/-- A call that has a chunk to resize. The lock is held. -/
structure Stage (s : State K) (h : Heap) (s₁ : State K) (h₁ : Heap) (p : Nat) (x : Nat → Prop) :
    Prop where
  frame : Frame { s with locked := true } s₁
  rep : Rep s.mem s₁ h₁
  resizing : Resizing s₁ h₁ p
  retains : Retains h h₁ x

/-- A block that was resized where it is: it has `n` bytes, and of its old contents the
    first `k` bytes. -/
structure Refitted (s : State K) (h : Heap) (p n k : Nat) (L : Label) (x : Nat → Prop)
    (s' : State K) (h' : Heap) : Prop where
  carries : Carries s h s' h' x
  units : ∀ y, FreeRange s' y 1 → FreeRange s y 1
  block : Owns s' h' ⟨p + 8, n, L⟩
  same : s.mem.Agree s'.mem (p + 8) (p + 8 + k)
  unlocked : s'.locked = false

section

variable {m₀ : Mem} {s s₁ s' : State K} {h h₁ h' : Heap} {p nb z : Nat} {x : Nat → Prop}
variable {E : Fault → State K → Prop}

/-- The state after a step on the units there are, with the contents noted down. -/
theorem Retains.carries (hr : Retains h h' x) (a : Arena m₀ s h)
    (hf : Frame { s with locked := true } s') (r : Rep s.mem s' h') (hs : h'.Settled) :
    Arena s.mem s' h' ∧ Carries s h { s' with locked := false } h' x := by
  have ag : Arena s.mem { s with locked := true } (h.guard 0) := (a.guard 0).outer rfl
  have a' := ag.step hf r hs hr.base hr.wasFast
  have hc : Carries s h s' h' x := Carries.of_step (q := 0) a a' hf.onward.of_locked hr.base
    hr.owner hr.live (fun hne => absurd a.live_zero hne)
  exact ⟨a', hc.outer rfl⟩

theorem Refit.retains (hr : Refit h₁ h' p z) (hret : Retains h h₁ x) (hx : x (p + 8)) :
    Retains h h' x := by
  refine ⟨hr.base.trans hret.base, hr.owner.trans hret.owner, fun q hq hne => ?_,
    hret.wasFast.trans hr.wasFast⟩
  rw [hr.live, Function.update_of_ne, hret.live q hq hne]
  rintro rfl
  exact hq hx

/-- The chunk is in use with another size. -/
theorem Refit.refitted (hr : Refit h₁ h' p z) (a : Arena m₀ s h) (hret : Retains h h₁ x)
    (hx : x (p + 8)) (hf : Frame { s with locked := true } s') (r : Rep s.mem s' h')
    (hs : h'.Settled) :
    Refitted s h p (z - 4) (h₁.keep p) (s.mstates (h.owner (h₁.unit p))).label x
      { s' with locked := false } h' := by
  have hsome : h'.live p = some (z, h₁.unit p, h₁.keep p) := by rw [hr.live, Function.update_self]
  obtain ⟨a', hc⟩ := (hr.retains hret hx).carries a hf r hs
  have hz := (a'.live_bounds hsome).2.2.2.2.2
  refine ⟨hc, fun _ => hf.onward.of_locked.freeRange.mp,
    .chunk p z (h₁.unit p) (h₁.keep p) rfl hsome (Nat.sub_add_cancel (by omega)) ?_, ?_, rfl⟩
  · change (s'.mstates (h'.owner _)).label = _
    rw [hr.owner, hret.owner, hf.mstate (h.owner (h₁.unit p))]
  · obtain ⟨hsize, -, -, -, hkeep⟩ := Heap.live_eq_some.mp hsome
    have hkept := r.body.holds.kept hsize
    rwa [hkeep] at hkept

/-- The chunk was cut, and the rest is in use, too. Nothing was there before. -/
theorem Stage.parted (hst : Stage s h s₁ h₁ p x) (a : Arena m₀ s h) (hx : x (p + 8))
    (hnb : 16 ≤ nb) (hrest : nb + 16 ≤ h₁.size p) (hf : Frame s₁ s') (r : Rep s.mem s' h')
    (hs : h'.Settled) (hr : Parted h₁ h' p nb) :
    Refitted s h p (nb - 4) (h₁.keep p) (s.mstates (h.owner (h₁.unit p))).label x
        { s' with locked := false } h' ∧
      h'.live (p + nb) = some (h₁.size p - nb, h₁.unit p, 0) ∧
      ∀ g, Owns s h g → ¬ x g.mem → g.mem ≠ p + nb + 8 := by
  have hsome : h'.live p = some (nb, h₁.unit p, h₁.keep p) := by rw [hr.live, Function.update_self]
  have hpart : h'.live (p + nb) = some (h₁.size p - nb, h₁.unit p, 0) := by
    rw [hr.live, Function.update_of_ne (by omega), Function.update_self]
  have hframe := Frame.trans _ _ _ hst.frame hf
  -- nothing begins inside the chunk that is resized
  have hinside : ∀ q, ¬ x (q + 8) → h.live q ≠ none → q ≠ p + nb := by
    rintro q hq hne rfl
    have hthere : h₁.live (p + nb) ≠ none := by
      rw [hst.retains.live _ hq hne, Heap.guard_live]
      simpa using hne
    have hsize : h₁.size (p + nb) ≠ 0 := by
      by_contra hzero
      exact hthere (Heap.live_eq_none.mpr (fun hcon => absurd hzero hcon))
    have happart := hst.rep.body.tidy.tiling.apart hst.resizing.size hsize (by omega)
    unfold Heap.next at happart
    omega
  have hret : Retains h h' x := by
    refine ⟨hr.base.trans hst.retains.base, hr.owner.trans hst.retains.owner,
      fun q hq hne => ?_, hst.retains.wasFast.trans hr.wasFast⟩
    rw [hr.live, Function.update_of_ne, Function.update_of_ne (hinside q hq hne),
      hst.retains.live q hq hne]
    rintro rfl
    exact hq hx
  obtain ⟨a', hc⟩ := hret.carries a hframe r hs
  refine ⟨⟨hc, fun _ => hframe.onward.of_locked.freeRange.mp,
    .chunk p nb (h₁.unit p) (h₁.keep p) rfl hsome (Nat.sub_add_cancel (by omega)) ?_,
    ?_, rfl⟩, hpart, fun g hg hgx heq => ?_⟩
  · change (s'.mstates (h'.owner _)).label = _
    rw [hret.owner, hframe.mstate (h.owner (h₁.unit p))]
  · obtain ⟨hsize, -, -, -, hkeep⟩ := Heap.live_eq_some.mp hsome
    have hkept := r.body.holds.kept hsize
    rwa [hkeep] at hkept
  · cases hg with
    | chunk q z u k hmem hq _ _ =>
      refine hinside q (by rwa [← hmem]) (by rw [hq]; exact Option.some_ne_none _) ?_
      omega
    | lone u hu hu0 hmem _ _ =>
      have hlist : s'.ustateList = s.ustateList := hframe.onward.list
      refine a'.chunk_ne_lone hpart (hlist ▸ hu) ?_ ?_
      · rw [hret.base]
        exact hu0
      · have haddr : (s'.units u).addr = (s.units u).addr := (hframe.onward.unit u).1
        rw [haddr]
        omega

/-- The rest of a chunk that was cut is released. -/
theorem Refitted.release {q n k : Nat} {L : Label} (hr : Refitted s h p n k L x s₁ h₁)
    (hk : k ≤ n) (hne : q + 8 ≠ p + 8) (hnew : ∀ g, Owns s h g → ¬ x g.mem → g.mem ≠ q + 8)
    {v : Nat × Nat × Nat} (hq : h₁.live q = some v) (hfreed : Freed s₁ h₁ (q + 8) s' h') :
    Refitted s h p n k L x s' h' := by
  have hunits : ∀ y, FreeRange s' y 1 → FreeRange s₁ y 1 := by
    intro y hy
    refine (hfreed.units y hy).resolve_right ?_
    rintro ⟨u, hu, hu0, hmem, -⟩
    exact hr.carries.arena.chunk_ne_lone hq hu hu0 hmem
  have hblock := hfreed.carries.owns _ hr.block (fun heq => hne heq.symm)
  have hsame := hfreed.carries.same _ hr.block (fun heq => hne heq.symm)
  refine ⟨⟨hfreed.carries.arena, fun g' hg' hx => ?_, fun g' hg' hx => ?_,
    hr.carries.vacant.trans hfreed.carries.vacant fun y _ hy => hunits y hy,
    fun hc => hfreed.carries.counts (hr.carries.counts hc)⟩, fun y hy => hr.units y (hunits y hy),
    hblock, fun b hlo hhi => ?_, hfreed.unlocked⟩
  · exact hfreed.carries.owns _ (hr.carries.owns g' hg' hx) (hnew g' hg' hx)
  · intro b hlo hhi
    rw [hfreed.carries.same _ (hr.carries.owns g' hg' hx) (hnew g' hg' hx) b hlo hhi]
    exact hr.carries.same g' hg' hx b hlo hhi
  · rw [hsame b hlo (by change b < p + 8 + n; omega)]
    exact hr.same b hlo hhi

/-- The end of the in-place case, with or without a remainder. -/
theorem Stage.reallocSplit (hst : Stage s h s₁ h₁ p x) (a : Arena m₀ s h) (ops : KernelOps K)
    (pid : Nat) (hx : x (p + 8)) (hnb : 16 ≤ nb) (h8 : nb % 8 = 0) (hle : nb ≤ h₁.size p)
    (hkeep : h₁.keep p + 4 ≤ nb)
    (hend : nb + 16 ≤ h₁.size p → h₁.next p ≠ h₁.fence (h₁.unit p)) :
    wp (ArbiterThread.reallocSplit ops pid nb p (h₁.size p)) (fun mem s' => mem = p + 8 ∧
      ∃ n h', nb ≤ n + 4 ∧ Refitted s h p n (h₁.keep p)
        (s.mstates (h.owner (h₁.unit p))).label x s' h') E s₁ := by
  have hp := hst.resizing.size
  have t := hst.rep.body.tidy.tiling
  have hb := t.bounds hp
  have hlocked : ∀ {s'}, Frame s₁ s' → s'.locked = true := by
    intro s' hf
    rw [(Frame.trans _ _ _ hst.frame hf).rest]
  unfold ArbiterThread.reallocSplit
  rw [wp_bind, wp_check, if_pos hle, wp_bind]
  dsimp only
  simp only [hst.rep.body.chunk2mem hp]
  -- too little to be a chunk of its own: the block keeps all of it
  by_cases hsmall : h₁.size p - nb < minSize
  · rw [if_pos hsmall, wp_bind]
    refine wp_imp (hst.rep.resizeWhole hst.resizing (E := E)
      (Q := fun _ s' => ∃ h', Frame s₁ s' ∧ Rep s.mem s' h' ∧ h'.Settled ∧
        Refit h₁ h' p (h₁.size p)) (fun s' h' hf r hs hr => ⟨h', hf, r, hs, hr⟩))
      (fun _ s₂ h₂ => ?_)
    rw [wp_bind]
    refine wp_imp h₂ (fun _ s₃ h₃ => ?_)
    obtain ⟨h', hf, r, hs, hr⟩ := h₃
    rw [wp_mallocUnlock, if_pos (hlocked hf), wp_pure]
    exact ⟨rfl, h₁.size p - 4, h', by omega,
      hr.refitted a hst.retains hx (Frame.trans _ _ _ hst.frame hf) r hs⟩
  · have hrest : nb + 16 ≤ h₁.size p := by
      unfold minSize at hsmall
      omega
    have hoff : chunkAtOffset p nb = p + nb := by
      unfold chunkAtOffset wordSize
      omega
    rw [if_neg hsmall, wp_bind, hoff]
    refine wp_imp (hst.rep.resizeCut hst.resizing hnb h8 hrest hkeep (E := E)
      (Q := fun _ s' => ∃ h', Frame s₁ s' ∧ Rep s.mem s' h' ∧ h'.Settled ∧ Parted h₁ h' p nb)
      (fun s' h' hf r hs hr => ⟨h', hf, r, hs, hr⟩)) (fun _ s₂ h₂ => ?_)
    rw [wp_bind]
    refine wp_imp h₂ (fun _ s₃ h₃ => ?_)
    rw [wp_bind]
    refine wp_imp h₃ (fun _ s₄ h₄ => ?_)
    obtain ⟨h', hf, r, hs, hr⟩ := h₄
    -- the remainder is released like any other block
    obtain ⟨hrefit, hpart, hnew⟩ := hst.parted a hx hnb hrest hf r hs hr
    have a' := hrefit.carries.arena
    have hmem : chunk2mem (p + nb) = p + nb + 8 := by
      unfold chunk2mem wordSize
      omega
    have hclear : ¬ AtFence { s₄ with locked := false } (p + nb + 8) := by
      rw [a'.atFence_iff hpart, hr.base]
      have hne := hend hrest
      unfold Heap.next Heap.fence at hne
      omega
    rw [wp_bind, wp_mallocUnlock, if_pos (hlocked hf), hmem]
    refine wp_imp (a'.ablibFree_live ops pid hpart hclear (.inl rfl) (E := E))
      (fun _ s₅ h₅ => ?_)
    obtain ⟨h'', hfreed⟩ := h₅
    rw [wp_pure]
    exact ⟨rfl, nb - 4, h'', by omega, hrefit.release (by omega) (by omega) hnew hpart hfreed⟩

end

end ArbiterThread
