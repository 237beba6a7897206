import ArbiterThread.Malloc.Merge
import Mathlib.Data.Nat.Bitwise

/-!
# Searching the Bins

The stages of `ablib_malloc` before `use_unit_top`, on a heap that is
represented in the state. Each of them finds a chunk of the right
`malloc_state` and hands out all or part of it, or leaves what is in use as it
was. None of them can fault: no check of the code fails, and no walk runs out of
its bin.

## Main definitions

* `Found`: What a stage of the search does.

## Theorems

* `Rep.takeFast`, `Rep.takeSmall`, `Rep.takeUnsorted`, `Rep.takeBinned`: The stages.
-/

namespace ArbiterThread

open Exec Rings

variable {K : Type}

/-- What a stage of the search does: it hands out a chunk, or leaves those in use
    as they were and a heap with the property `P`. -/
def Found (m₀ : Mem) (h : Heap) (av nb : Nat) (P : Heap → Prop) (r : Option Nat) (s : State K) :
    Prop :=
  ∃ h', Rep m₀ s h' ∧ h'.Settled ∧ Active s av ∧
    match r with
    | none => Rearranged h h' ∧ P h'
    | some mem => ∃ p, mem = p + 8 ∧ Handed h h' av nb p

section

variable {m₀ : Mem} {s : State K} {h : Heap} {av nb i x : Nat} {l : List Nat}
variable {E : Fault → State K → Prop}

/-! ### Fastbins -/

/-- The first chunk of a fastbin is handed out. -/
theorem Body.takeFast (b : Body m₀ s h) (hav : Active s av) (hfast : h.fasts av i = x :: l) :
    Body m₀ (s.amend av fun m => { m with fastbins := Function.update m.fastbins i (first 0 l) })
      ((h.setFast av i l).setUse x .live) := by
  have hx : x ∈ h.fasts av i := by
    rw [hfast]
    exact List.mem_cons_self
  have hlist := b.tidy.lists.fast hx
  have hthread := b.holds.fasts av i
  rw [hfast, Thread.cons_iff] at hthread
  have ht := b.tracks.mstate hav
  refine ⟨b.tidy.takeFast hfast, ?_, ?_⟩
  · refine b.tracks.amend rfl rfl rfl (fun av' hne => ?_) Iff.rfl (fun _ => ?_)
    · funext j
      exact Heap.setFast_of_ne h av i l (fun heq => hne heq.1)
    · refine ⟨ht.made, ?_, ?_, ?_, ?_, ?_⟩
      all_goals rw [State.amend_self]
      · exact ht.maxFast
      -- only this fastbin has another first chunk
      · intro j hj
        change Function.update (s.mstates av).fastbins i (first 0 l) j =
          first 0 ((h.setFast av i l).fasts av j)
        by_cases hji : j = i
        · rw [hji, Function.update_self, Heap.setFast_self]
        · rw [Function.update_of_ne hji, Heap.setFast_of_ne h av i l (fun heq => hji heq.2)]
          exact ht.fastbins j hj
      · exact ht.units
      · exact ht.binmap
      · exact ht.binmapEnd
  · refine b.holds.setUse (p := x) ⟨rfl, rfl, rfl, rfl⟩ rfl (fun av' j => ?_) b.holds.pending
      (fun _ => b.holds.head hlist.1 (by rw [hlist.2.1]; decide)) (by simp)
    change Thread (fdAt s.mem) 0 ((h.setFast av i l).fasts av' j)
    by_cases heq : av' = av ∧ j = i
    · rw [heq.1, heq.2, Heap.setFast_self]
      exact hthread.2
    · rw [Heap.setFast_of_ne h av i l heq]
      exact b.holds.fasts av' j

/-- The fastbin of the request's size. -/
theorem Rep.takeFast (r : Rep m₀ s h) (hs : h.Settled) (hav : Active s av) (hnb : 16 ≤ nb)
    (h8 : nb % 8 = 0) {Q : Option Nat → State K → Prop}
    (hsome : ∀ mem s', Found m₀ h av nb (fun _ => True) (some mem) s' → Q (some mem) s')
    (hnone : Q none s) : wp (takeFast av nb) Q E s := by
  have ht := r.body.tracks.mstate hav
  unfold ArbiterThread.takeFast
  rw [wp_bind, wp_getMstate]
  -- requests above `max_fast` do not look at the fastbins
  by_cases hmax : nb ≤ (s.mstates av).maxFast
  · have hi : fastbinIndex nb < 8 := by
      have hmf := ht.maxFast
      unfold fastbinIndex
      omega
    simp only [if_pos hmax, ht.fastbins _ hi]
    cases hl : h.fasts av (fastbinIndex nb) with
    | nil =>
      rw [if_neg (by simp [first]), wp_pure]
      exact hnone
    | cons x l =>
      have hx := r.body.tidy.lists.fast (hl ▸ List.mem_cons_self)
      have hb := r.body.tidy.tiling.bounds hx.1
      have hthread := r.body.holds.fasts av (fastbinIndex nb)
      rw [hl, Thread.cons_iff] at hthread
      have hfirst : first 0 (x :: l) = x := rfl
      rw [hfirst, if_pos (by omega), wp_bind]
      refine (Node.chunk hx.1).fdOf r.body ?_
      rw [hthread.1, wp_bind]
      unfold setFastbin
      rw [wp_setMstate, wp_pure, r.body.chunk2mem hx.1]
      have b := r.body.takeFast hav hl
      -- the chunk is handed out whole, and its size is that of the bin
      refine hsome _ _ ⟨_, r.amend b Iff.rfl rfl, ?_, (active_amend Iff.rfl av).mpr hav, x, rfl, ?_⟩
      · have hbut : (h.setFast av (fastbinIndex nb) l).SettledBut (· = x) :=
          ⟨fun hq _ => hs.use hq (fun hf => hf), hs.top⟩
        refine hbut.setUse ?_ (by decide)
        change h.use x ≠ .top
        rw [hx.2.1]
        decide
      · refine ⟨rfl, rfl, Heap.live_eq_none.mpr (fun _ => by rw [hx.2.1]; decide),
          ⟨h.size x, h.unit x, ?_, ?_, hx.2.2.1⟩,
          .setUse (h.setFast av (fastbinIndex nb) l) x (by decide)⟩
        · have hkeep := r.body.tidy.unkept hx.1 (by rw [hx.2.1]; decide) (by rw [hx.2.1]; decide)
          have hx' : (h.setFast av (fastbinIndex nb) l).size x ≠ 0 := hx.1
          rw [Heap.live_settle hx']
          change Function.update h.live x (some (h.size x, h.unit x, h.keep x)) = _
          rw [hkeep]
        · rw [hx.2.2.2.1]
          unfold fastbinIndex
          omega
  · rw [if_neg hmax, wp_pure]
    exact hnone

/-! ### The last chunk of a bin -/

theorem Rep.bk_empty (r : Rep m₀ s h) (hd : Header s av i) (hnil : h.bins av i = []) :
    bkAt s.mem (binAt av i) = binAt av i := by
  have hring := r.rings hd
  unfold RingAt at hring
  rw [hnil] at hring
  exact (hring.bk_header_eq_iff List.not_mem_nil).mpr rfl

theorem Body.ne_header (b : Body m₀ s h) (hd : Header s av i) {av' j : Nat}
    (hx : x ∈ h.bins av' j) : x ≠ binAt av i :=
  fun heq => b.header_notMem hd av' j (heq ▸ hx)

theorem Rep.bk_last (r : Rep m₀ s h) (hbin : h.bins av i = l ++ [x]) :
    bkAt s.mem (binAt av i) = x := by
  have hx : x ∈ h.bins av i := by
    rw [hbin]
    exact List.mem_append_right _ List.mem_cons_self
  have hring := r.rings (r.body.header hx)
  unfold RingAt at hring
  rw [hbin] at hring
  exact hring.bk_header (List.cons_append ..).symm

/-- A last chunk that is also the first. -/
theorem Rep.alone (r : Rep m₀ s h) (hbin : h.bins av i = l ++ [x])
    (hbk : bkAt s.mem x = binAt av i) : l = [] := by
  have hx : x ∈ h.bins av i := by
    rw [hbin]
    exact List.mem_append_right _ List.mem_cons_self
  have hd := r.body.header hx
  have hring := r.rings hd
  unfold RingAt at hring
  rw [hbin] at hring
  rcases List.eq_nil_or_concat l with hnil | ⟨l', y, hl⟩
  · exact hnil
  · rw [List.concat_eq_append] at hl
    have hy : y ∈ h.bins av i := by
      rw [hbin, hl]
      simp
    have hpre : binAt av i :: l = (binAt av i :: l') ++ [y] := by
      rw [hl]
      rfl
    have hxy : bkAt s.mem x = y := hring.bk_eq hpre
    exact absurd (hxy.symm.trans hbk) (r.body.ne_header hd hy)

/-- The stores that take the last chunk off a bin. -/
theorem Rep.lastRemoved (r : Rep m₀ s h) (hbin : h.bins av i = l ++ [x]) :
    Rep m₀ ((s.put (binAt av i + 12) (bkAt s.mem x)).put (bkAt s.mem x + 8) (binAt av i))
      (h.take av i l x) := by
  have hx : x ∈ h.bins av i := by
    rw [hbin]
    exact List.mem_append_right _ List.mem_cons_self
  have hring := r.rings (r.body.header hx)
  unfold RingAt at hring
  rw [hbin] at hring
  have hfd : fdAt s.mem x = binAt av i := hring.fd_eq (List.nil_append _)
  have hrem := r.removed hbin
  rw [hfd, List.append_nil] at hrem
  exact hrem

theorem Rep.lastInHand (r : Rep m₀ s h) (hs : h.Settled) (hbin : h.bins av i = l ++ [x]) :
    (h.take av i l x).InHand x ∧ Rearranged h (h.take av i l x) ∧ h.avOf x = av := by
  have hx : x ∈ h.bins av i := by
    rw [hbin]
    exact List.mem_append_right _ List.mem_cons_self
  have hh := r.body.tidy.inHand hs hbin
  have hre := r.body.tidy.rearranged_take hbin
  rw [List.append_nil] at hh hre
  exact ⟨hh, hre, (r.body.tidy.lists.bin hx).2.2.1⟩

/-- Both words the last chunk is taken off with can be written. -/
theorem Rep.last_mapped (r : Rep m₀ s h) (hbin : h.bins av i = l ++ [x]) :
    mapped s (binAt av i + 12) ∧ mapped s (bkAt s.mem x + 8) := by
  have hx : x ∈ h.bins av i := by
    rw [hbin]
    exact List.mem_append_right _ List.mem_cons_self
  have hd := r.body.header hx
  have hbk := (r.rings hd).bk_mem (List.mem_cons_of_mem _ hx)
  exact ⟨((Node.header _ _ hd rfl).mapped r.body).2, ((r.body.node hd hbk).mapped r.body).1⟩

/-- A small bin has chunks of one size only. -/
theorem Heap.Tidy.size_of_small (t : h.Tidy) (hx : x ∈ h.bins av (smallbinIndex nb))
    (hnb : 16 ≤ nb) (h8 : nb % 8 = 0) (hsmall : inSmallbinRange nb) : h.size x = nb := by
  have hlist := t.lists.bin hx
  have hb := t.tiling.bounds hlist.1
  have hi := hlist.2.2.2
  by_cases hsz : inSmallbinRange (h.size x)
  · rw [binIndex_small hsz] at hi
    unfold smallbinIndex at hi
    omega
  · have hlarge := mallocLargebinIndex_lt (Nat.le_of_not_lt hsz)
    rw [binIndex_large hsz] at hi
    unfold smallbinIndex at hi
    unfold inSmallbinRange at *
    omega

/-- The condition under which the stage before the unsorted list does no harm: if
    it consolidates, then no fast chunk ends at a fencepost. -/
def ConsolidateOk (s : State K) (h : Heap) (av nb : Nat) : Prop :=
  ¬ inSmallbinRange nb → haveFastchunks (s.mstates av) → h.FastClear av

/-- The small bin of the request's size, or consolidation for a large request. -/
theorem Rep.takeSmall (r : Rep m₀ s h) (hs : h.Settled) (hav : Active s av) (hnb : 16 ≤ nb)
    (h8 : nb % 8 = 0) (hok : ConsolidateOk s h av nb) :
    wp (takeSmall av nb) (Found m₀ h av nb fun _ => True) E s := by
  by_cases hsmall : inSmallbinRange nb
  case neg =>
    unfold ArbiterThread.takeSmall
    rw [if_neg hsmall, wp_bind, wp_getMstate]
    by_cases hfast : haveFastchunks (s.mstates av)
    · rw [if_pos hfast, wp_bind]
      refine r.mallocConsolidate hs hav (hok hsmall hfast) (fun s' h' hav' r' hs' hre => ?_)
      exact (wp_pure ..).mpr ⟨h', r', hs', hav', hre, trivial⟩
    · rw [if_neg hfast, wp_pure]
      exact ⟨h, r, hs, hav, .refl h, trivial⟩
  have hlt : nb < 256 := hsmall
  have hd : Header s av (smallbinIndex nb) :=
    ⟨hav, by unfold smallbinIndex; omega, by unfold smallbinIndex; omega⟩
  have nhdr : Node s h (binAt av (smallbinIndex nb)) := .header _ _ hd rfl
  unfold ArbiterThread.takeSmall
  rw [if_pos hsmall, wp_bind]
  refine nhdr.bkOf r.body ?_
  rcases List.eq_nil_or_concat (h.bins av (smallbinIndex nb)) with hnil | ⟨l, x, hbin⟩
  · rw [if_neg (not_not.mpr (r.bk_empty hd hnil)), wp_pure]
    exact ⟨h, r, hs, hav, .refl h, trivial⟩
  · rw [List.concat_eq_append] at hbin
    have hx : x ∈ h.bins av (smallbinIndex nb) := by
      rw [hbin]
      exact List.mem_append_right _ List.mem_cons_self
    have hsize := r.body.tidy.size_of_small hx hnb h8 hsmall
    have hlist := r.body.tidy.lists.bin hx
    have hfree := r.body.tidy.flags.free hlist.1 hlist.2.1
    have hne := r.body.ne_header hd hx
    have hmap := r.last_mapped hbin
    rcases r.lastInHand hs hbin with ⟨hh, hre, hxav⟩
    subst hsize
    rw [r.bk_last hbin, if_pos hne, wp_bind]
    refine (Node.chunk hlist.1).bkOf r.body ?_
    rw [wp_bind]
    refine r.body.setInuseBitAtOffset hlist.1 hfree.1 (hs.use hfree.1 (fun hf => hf)).2 ?_
    simp only [wp_bind, wp_pure]
    refine wp_store_mapped hmap.1 (wp_store_mapped hmap.2 ?_)
    -- the flag could as well be set after the chunk was taken off
    have hbk := (r.rings hd).bk_mem (List.mem_cons_of_mem _ hx)
    have hsep := node_cases r.body (r.body.node hd hbk) (Node.chunk hfree.1)
    have hlow := r.body.tracks.header_bounds hd
    have hhigh := r.body.tidy.tiling.bounds hfree.1
    have hhdr := State.put_comm s (a := h.next x + 4)
      (c := binAt av (smallbinIndex (h.size x)) + 12) (h.size (h.next x) + 1) (bkAt s.mem x)
      (by omega)
    rw [r.body.chunk2mem hlist.1, hhdr,
      State.put_comm _ (a := h.next x + 4) (c := bkAt s.mem x + 8) _ _ (by omega)]
    refine ⟨_, (r.lastRemoved hbin).handOut hh, hh.handOut_settled, hav, x, rfl, ?_⟩
    have hhand := hre.handed (hh.handed ⟨le_rfl, by omega⟩)
    change Handed _ _ (h.avOf x) _ _ at hhand
    rw [hxav] at hhand
    exact hhand

/-! ### Placing a chunk in its bin -/

theorem Heap.Tidy.bin_length (t : h.Tidy) (av i : Nat) : (h.bins av i).length < loopFuel :=
  t.tiling.length_lt (t.lists.bin_nodup av i) (fun _ hx => (t.lists.bin hx).1)

/-- The walk stays in the bin, because it stops at its last chunk. -/
theorem Rep.sortedWalk (r : Rep m₀ s h) {size z : Nat} (hz : h.head z ≤ size)
    {Q : Nat → State K → Prop} (hQ : ∀ l₁ x l₂, h.bins av i = l₁ ++ x :: l₂ → Q x s)
    (l₂ : List Nat) : ∀ l₁ l' fuel x, h.bins av i = l₁ ++ x :: l₂ → x :: l₂ = l' ++ [z] →
      l₂.length < fuel → wp (sortedWalk size fuel x) Q E s := by
  -- on what is left of the bin, whose last chunk is small enough to stop at
  induction l₂ with
  | nil =>
    intro l₁ l' fuel x hbin hlast hfuel
    have hx := r.body.tidy.lists.bin (hbin ▸ List.mem_append_right _ List.mem_cons_self)
    have hxz : x = z := by
      have hget := congrArg List.getLast? hlast
      simpa using hget
    rcases Nat.exists_eq_succ_of_ne_zero (Nat.ne_of_gt hfuel) with ⟨fuel, rfl⟩
    unfold ArbiterThread.sortedWalk
    rw [wp_bind]
    refine r.body.headOf hx.1 (by rw [hx.2.1]; decide) ?_
    rw [hxz, if_neg (by omega), wp_pure]
    exact hxz ▸ hQ l₁ x [] hbin
  | cons y l₂ ih =>
    intro l₁ l' fuel x hbin hlast hfuel
    have hmem : x ∈ h.bins av i := hbin ▸ List.mem_append_right _ List.mem_cons_self
    have hx := r.body.tidy.lists.bin hmem
    have hring := r.rings (r.body.header hmem)
    unfold RingAt at hring
    rw [hbin] at hring
    rcases Nat.exists_eq_succ_of_ne_zero (show fuel ≠ 0 by omega) with ⟨fuel, rfl⟩
    unfold ArbiterThread.sortedWalk
    rw [wp_bind]
    refine r.body.headOf hx.1 (by rw [hx.2.1]; decide) ?_
    by_cases hlt : size < h.head x
    · rw [if_pos hlt, wp_bind]
      refine (Node.chunk hx.1).fdOf r.body ?_
      rw [hring.fd_eq (List.cons_append ..)]
      cases l' with
      | nil => simp at hlast
      | cons w l' =>
        rw [List.cons_append, List.cons.injEq] at hlast
        refine ih (l₁ ++ [x]) l' fuel y ?_ hlast.2 ?_
        · rw [hbin, List.append_assoc]
          rfl
        · rw [List.length_cons] at hfuel
          omega
    · rw [if_neg hlt, wp_pure]
      exact hQ l₁ x _ hbin

/-- The neighbours a chunk gets are next to each other in the bin. -/
theorem Rep.largeNeighbours (r : Rep m₀ s h) (hd : Header s av i) (size : Nat)
    {Q : Nat × Nat → State K → Prop}
    (hQ : ∀ l₁ l₂ pre post y z, h.bins av i = l₁ ++ l₂ → binAt av i :: l₁ = pre ++ [y] →
      l₂ ++ [binAt av i] = z :: post → Q (y, z) s) :
    wp (largeNeighbours (binAt av i) size) Q E s := by
  have nhdr : Node s h (binAt av i) := .header _ _ hd rfl
  have hring := r.rings hd
  unfold ArbiterThread.largeNeighbours
  rw [wp_bind]
  refine nhdr.fdOf r.body ?_
  rcases exists_cons (h.bins av i) (binAt av i) with ⟨z, post, hz⟩
  rw [hring.fd_header hz]
  have hfront := hQ [] (h.bins av i) [] post (binAt av i) z rfl rfl hz
  -- an empty bin has its header for both neighbours
  by_cases hne : z ≠ binAt av i
  · rw [if_pos hne, wp_bind]
    refine nhdr.bkOf r.body ?_
    rcases List.eq_nil_or_concat (h.bins av i) with hnil | ⟨l, x, hbin⟩
    · rw [hnil] at hz
      exact absurd (List.cons.inj hz).1.symm hne
    rw [List.concat_eq_append] at hbin
    have hmem : x ∈ h.bins av i := hbin ▸ List.mem_append_right _ List.mem_cons_self
    have hx := r.body.tidy.lists.bin hmem
    rw [r.bk_last hbin, wp_bind]
    refine r.body.headOf hx.1 (by rw [hx.2.1]; decide) ?_
    -- behind all others, in front of all others, or where the walk ends
    by_cases hlast : size < h.head x
    · rw [if_pos hlast, wp_pure]
      exact hQ (h.bins av i) [] (binAt av i :: l) [] x _ (List.append_nil _).symm
        (by rw [hbin]; rfl) rfl
    · rw [if_neg hlast]
      by_cases hbig : 256 ≤ size
      · rw [if_pos hbig, wp_bind]
        cases hl : h.bins av i with
        | nil =>
          rw [hl] at hmem
          exact absurd hmem List.not_mem_nil
        | cons w l₂ =>
          have hwz : w = z := by
            rw [hl] at hz
            exact (List.cons.inj hz).1
          have hlen := r.body.tidy.bin_length av i
          rw [hl, List.length_cons] at hlen
          refine r.sortedWalk (z := x) ?_ ?_ l₂ [] l _ _ (hwz ▸ hl) ?_ (by omega)
          · unfold withInuse
            omega
          · intro l₁ x' l₂' hbin'
            rcases exists_concat (binAt av i) l₁ with ⟨pre, y, hy⟩
            have hx' := r.body.tidy.lists.bin
              (hbin' ▸ List.mem_append_right _ List.mem_cons_self)
            rw [wp_bind]
            refine (Node.chunk hx'.1).bkOf r.body ?_
            unfold RingAt at hring
            rw [hbin'] at hring
            rw [hring.bk_eq hy, wp_pure]
            exact hQ l₁ (x' :: l₂') pre (l₂' ++ [binAt av i]) y x' hbin' hy rfl
          · rw [← hwz, ← hl, hbin]
      · rw [if_neg hbig, wp_pure]
        exact hfront
  · rw [if_neg hne, wp_pure]
    exact hfront

/-- Writing a word of the bit map. -/
theorem Rep.setBinmap (r : Rep m₀ s h) (av : Nat) {block : Nat} (hblock : block < 3)
    {g : Mstate → Nat} (hg : Active s av → g (s.mstates av) < 4294967296) :
    Rep m₀ (s.amend av fun m => { m with binmap := Function.update m.binmap block (g m) }) h := by
  refine r.amend (r.body.amend av (fun _ => ⟨rfl, rfl, rfl⟩) (fun hav b => ?_)) Iff.rfl rfl
  have ht := r.body.tracks.mstate hav
  dsimp only
  by_cases hb : b = block
  · rw [hb, Function.update_self]
    exact ⟨hg hav, fun h3 => by omega⟩
  · rw [Function.update_of_ne hb]
    exact ⟨ht.binmap b, ht.binmapEnd b⟩

theorem idx2bit_lt (i : Nat) : idx2bit i < 2 ^ 32 := by
  unfold idx2bit
  rw [Nat.one_shiftLeft]
  exact Nat.pow_lt_pow_right (by decide) (Nat.mod_lt _ (by decide))

/-- Marking a bin as perhaps not empty. -/
theorem Rep.markBin (r : Rep m₀ s h) (av : Nat) {i : Nat} (hi : i < 96)
    {Q : Unit → State K → Prop}
    (hQ : ∀ s', Rep m₀ s' h → (∀ av', Active s' av' ↔ Active s av') → Q () s') :
    wp (markBin av i) Q E s := by
  unfold ArbiterThread.markBin
  rw [wp_setMstate]
  refine hQ _ (r.setBinmap av (by unfold idx2block; omega) (fun hav => ?_)) (active_amend Iff.rfl)
  exact Nat.or_lt_two_pow ((r.body.tracks.mstate hav).binmap _) (idx2bit_lt i)

/-- A chunk in hand is placed in the bin of its size. The unsorted list stays as
    it is. -/
theorem Rep.placeInBin (r : Rep m₀ s h) {p : Nat} (hh : h.InHand p) {Q : Unit → State K → Prop}
    (hQ : ∀ s' h', Rep m₀ s' h' → h'.Settled → Rearranged h h' →
      h'.bins (h.avOf p) 1 = h.bins (h.avOf p) 1 → (∀ av', Active s' av' ↔ Active s av') →
      Q () s') :
    wp (placeInBin (h.avOf p) p (h.size p)) Q E s := by
  have hp := hh.freeable.size
  have hav := r.body.activeOf hp
  have hb := r.body.tidy.tiling.bounds hp
  have hi := binIndex_bounds (show 16 ≤ h.size p by omega)
  have hd : Header s (h.avOf p) (binIndex (h.size p)) := ⟨hav, by omega, hi.2⟩
  -- marking the bin and linking the chunk, wherever it goes in the bin
  have hlink : ∀ l₁ l₂ pre post y z, h.bins (h.avOf p) (binIndex (h.size p)) = l₁ ++ l₂ →
      binAt (h.avOf p) (binIndex (h.size p)) :: l₁ = pre ++ [y] →
      l₂ ++ [binAt (h.avOf p) (binIndex (h.size p))] = z :: post →
      wp (ArbiterThread.markBin (h.avOf p) (binIndex (h.size p)))
        (fun _ => wp (ArbiterThread.linkBetween p y z) Q E) E s := by
    intro l₁ l₂ pre post y z hbin hy hz
    refine r.markBin _ hi.2 (fun s' r' hact => ?_)
    refine r'.linkBetween ⟨(hact _).mpr hav, hd.lo, hd.hi⟩ hbin hy hz hh.freeable hh.use rfl
      (.inr rfl)
      (fun s'' hs'' r'' => hQ s'' _ r'' ?_
        ⟨rfl, rfl, ?_, .setUse (h.setBin _ _ _) p (by decide)⟩ ?_ ?_)
    · have hbut : (h.setBin (h.avOf p) (binIndex (h.size p)) (l₁ ++ p :: l₂)).SettledBut (· = p) :=
        ⟨hh.settled.use, hh.settled.top⟩
      refine hbut.setUse ?_ (by decide)
      change h.use p ≠ .top
      rw [hh.use]
      decide
    · refine Heap.live_setUse (h := h.setBin _ _ _) ?_ (by decide)
      change h.use p ≠ .live
      rw [hh.use]
      decide
    · exact Heap.setBin_of_ne _ _ _ _ (by omega)
    · intro av'
      unfold Active at *
      rw [hs'']
      exact hact av'
  unfold ArbiterThread.placeInBin
  by_cases hsmall : inSmallbinRange (h.size p)
  · have hidx : smallbinIndex (h.size p) = binIndex (h.size p) := (binIndex_small hsmall).symm
    have nhdr : Node s h (binAt (h.avOf p) (binIndex (h.size p))) := .header _ _ hd rfl
    rcases exists_cons (h.bins (h.avOf p) (binIndex (h.size p)))
      (binAt (h.avOf p) (binIndex (h.size p))) with ⟨z, post, hz⟩
    simp only [if_pos hsmall, hidx, wp_bind]
    refine nhdr.fdOf r.body ?_
    rw [(r.rings hd).fd_header hz]
    exact hlink [] _ [] post _ z rfl rfl hz
  · simp only [if_neg hsmall, ← binIndex_large hsmall, wp_bind]
    refine r.largeNeighbours hd _ (fun l₁ l₂ pre post y z hbin hy hz => ?_)
    exact hlink l₁ l₂ pre post y z hbin hy hz

/-! ### The unsorted list -/

theorem Found.of_rearranged {h' : Heap} {P : Heap → Prop} {o : Option Nat} (h1 : Rearranged h h')
    (h2 : Found m₀ h' av nb P o s) : Found m₀ h av nb P o s := by
  rcases h2 with ⟨h'', r, hs, hav, hcase⟩
  refine ⟨h'', r, hs, hav, ?_⟩
  cases o with
  | none => exact ⟨h1.trans hcase.1, hcase.2⟩
  | some mem =>
    rcases hcase with ⟨p, hp, hhand⟩
    exact ⟨p, hp, h1.handed hhand⟩

/-- The unsorted chunks are looked at and placed, until one fits or none is left. -/
theorem Rep.takeUnsorted (hnb : 16 ≤ nb) (h8 : nb % 8 = 0) (fuel : Nat) :
    ∀ {s : State K} {h : Heap}, Rep m₀ s h → h.Settled → Active s av →
      (h.bins av 1).length < fuel →
      wp (takeUnsorted av nb fuel) (Found m₀ h av nb fun h' => h'.bins av 1 = []) E s := by
  -- every turn takes one chunk off the unsorted bin
  induction fuel with
  | zero => exact fun _ _ _ hfuel => absurd hfuel (Nat.not_lt_zero _)
  | succ fuel ih =>
    intro s h r hs hav hfuel
    have hd : Header s av 1 := ⟨hav, le_rfl, by decide⟩
    have nhdr : Node s h (binAt av 1) := .header _ _ hd rfl
    unfold ArbiterThread.takeUnsorted unsortedChunks
    rw [wp_bind]
    refine nhdr.bkOf r.body ?_
    rcases List.eq_nil_or_concat (h.bins av 1) with hnil | ⟨l, x, hbin⟩
    · rw [if_pos (r.bk_empty hd hnil), wp_pure]
      exact ⟨h, r, hs, hav, .refl h, hnil⟩
    rw [List.concat_eq_append] at hbin
    have hmem : x ∈ h.bins av 1 := hbin ▸ List.mem_append_right _ List.mem_cons_self
    have hx := r.body.tidy.lists.bin hmem
    have hmap := r.last_mapped hbin
    rcases r.lastInHand hs hbin with ⟨hh, hre, hxav⟩
    subst hxav
    rw [r.bk_last hbin, if_neg (r.body.ne_header hd hmem), wp_bind]
    refine (Node.chunk hx.1).bkOf r.body ?_
    rw [wp_bind]
    refine r.body.chunksize hx.1 (by rw [hx.2.1]; decide) ?_
    rw [wp_bind, wp_getMstate]
    split
    · -- the last remainder, which is the only unsorted chunk
      rename_i hlast
      have hnil : l = [] := r.alone hbin hlast.2.1
      subst hnil
      rw [wp_bind]
      refine Rep.splitRemainder (h := h.take (h.avOf x) 1 [] x) (r.body.take hbin) hh hnb h8 ?_
        (Heap.setBin_self ..) (fun {av i} hd' hne => ?_) true (fun s' h' hav' r' hs' hhand => ?_)
      · have hfits := hlast.2.2.2
        unfold minSize at hfits
        change nb + 16 ≤ h.size x
        omega
      · unfold RingAt
        rw [show (h.take (h.avOf x) 1 [] x).bins av i = h.bins av i from
          Heap.setBin_of_ne h _ _ _ hne]
        exact r.rings hd'
      · rw [wp_pure]
        exact ⟨h', r', hs', hav', x, rfl, hre.handed hhand⟩
    · simp only [wp_bind]
      refine wp_store_mapped hmap.1 (wp_store_mapped hmap.2 ?_)
      have r₁ := r.lastRemoved hbin
      split
      · -- an exact fit
        rename_i hfit
        rw [wp_bind]
        refine r₁.exhaust hh ⟨hfit.ge, hfit.trans_lt (by omega)⟩ (fun s' h' hs' r' hset hhand => ?_)
        rw [wp_pure]
        refine ⟨h', r', hset, ?_, x, rfl, hre.handed hhand⟩
        unfold Active
        rw [hs']
        exact hav
      · rw [wp_bind]
        refine r₁.placeInBin hh (fun s' h' r' hset hre' hbins hact => ?_)
        refine wp_imp (ih r' hset ((hact _).mpr hav) ?_) (fun o s'' hfound => ?_)
        · rw [show h'.bins (h.avOf x) 1 = l from hbins.trans (Heap.setBin_self ..)]
          rw [hbin, List.length_append] at hfuel
          exact Nat.lt_of_succ_lt_succ hfuel
        · exact (hfound.of_rearranged hre').of_rearranged hre

/-! ### The bin of a large request -/

/-- A chunk of a bin that is not the unsorted list is taken out and handed out. -/
theorem Rep.takeOut (r : Rep m₀ s h) (hs : h.Settled) (hav : Active s av) {l₁ l₂ : List Nat}
    (hbin : h.bins av i = l₁ ++ x :: l₂) (hi : i ≠ 1) (hempty : h.bins av 1 = [])
    (hnb : 16 ≤ nb) (h8 : nb % 8 = 0) (hle : nb ≤ h.size x) (last : Bool) {s' : State K}
    (r' : Rep m₀ s' (h.take av i (l₁ ++ l₂) x)) {P : Heap → Prop} :
    wp (ArbiterThread.exhaustOrSplit av x (h.size x) nb last)
      (fun mem => Found m₀ h av nb P (some mem)) E s' := by
  have hxav := (r.body.tidy.lists.bin (hbin ▸ List.mem_append_right _ List.mem_cons_self)).2.2.1
  have hh := r.body.tidy.inHand hs hbin
  have hre := r.body.tidy.rearranged_take hbin
  subst hxav
  refine r'.exhaustOrSplit hh hnb h8 hle ?_ last (fun s'' h'' hav'' r'' hs'' hhand => ?_)
  · exact (Heap.setBin_of_ne h _ _ _ (fun heq => hi heq.2.symm)).trans hempty
  · exact ⟨h'', r'', hs'', hav'', x, rfl, hre.handed hhand⟩

/-- The smallest chunk of the bin that is large enough. -/
theorem Rep.takeLarge (r : Rep m₀ s h) (hs : h.Settled) (hd : Header s av i) (hi : i ≠ 1)
    (hempty : h.bins av 1 = []) (hnb : 16 ≤ nb) (h8 : nb % 8 = 0) (fuel : Nat) :
    ∀ {l₁ l₂ pre : List Nat} {victim : Nat}, h.bins av i = l₁ ++ l₂ →
      binAt av i :: l₁ = pre ++ [victim] → l₁.length < fuel →
      wp (takeLarge av nb (binAt av i) fuel victim)
        (Found m₀ h av nb fun h' => h'.bins av 1 = []) E s := by
  -- on the fuel, with the chunks not yet seen before the victim
  induction fuel with
  | zero => exact fun _ _ hfuel => absurd hfuel (Nat.not_lt_zero _)
  | succ fuel ih =>
    intro l₁ l₂ pre victim hbin hpre hfuel
    unfold ArbiterThread.takeLarge
    rcases List.eq_nil_or_concat l₁ with rfl | ⟨l, x, hl⟩
    · have hvictim : victim = binAt av i := by
        have hget := congrArg List.getLast? hpre
        simpa using hget.symm
      rw [if_pos hvictim, wp_pure]
      exact ⟨h, r, hs, hd.active, .refl h, hempty⟩
    rw [List.concat_eq_append] at hl
    subst hl
    have hlast : (binAt av i :: l) ++ [x] = pre ++ [victim] := hpre
    rcases List.cons.inj (List.append_inj' hlast rfl).2 with ⟨rfl, -⟩
    rw [List.append_assoc] at hbin
    have hmem : x ∈ h.bins av i := hbin ▸ List.mem_append_right _ List.mem_cons_self
    have hx := r.body.tidy.lists.bin hmem
    rw [if_neg (r.body.ne_header hd hmem), wp_bind]
    refine r.body.chunksize hx.1 (by rw [hx.2.1]; decide) ?_
    by_cases hle : nb ≤ h.size x
    · rw [if_pos hle, wp_bind]
      refine r.unlink hbin (fun s' hs' r' => ?_)
      simp only [wp_bind, wp_pure]
      exact r.takeOut hs hd.active hbin hi hempty hnb h8 hle false r'
    · rw [if_neg hle, wp_bind]
      refine (Node.chunk hx.1).bkOf r.body ?_
      rcases exists_concat (binAt av i) l with ⟨pre', y, hy⟩
      have hring := r.rings hd
      unfold RingAt at hring
      rw [hbin] at hring
      rw [hring.bk_eq hy]
      refine ih hbin hy ?_
      rw [List.length_append] at hfuel
      exact Nat.lt_of_succ_lt_succ hfuel

/-! ### The bit map -/

theorem nextBlock_eq_some {m : Mstate} {fuel b b' : Nat} (hb : nextBlock m fuel b = some b') :
    b < b' ∧ b' < 3 ∧ m.binmap b' ≠ 0 := by
  induction fuel generalizing b with
  | zero => simp [nextBlock] at hb
  | succ fuel ih =>
    unfold nextBlock at hb
    split at hb
    · simp at hb
    · rename_i hend
      split at hb
      · have hrest := ih hb
        omega
      · rename_i hset
        rw [Option.some.injEq] at hb
        subst hb
        unfold binmapSize at hend
        exact ⟨Nat.lt_succ_self _, by omega, hset⟩

theorem nextBin_binAt (av i : Nat) : nextBin (binAt av i) = binAt av (i + 1) := by
  unfold nextBin binAt
  omega

theorem bit_lt {k : Nat} (hk : k < 32) : 2 ^ k < wordSize :=
  show 2 ^ k < 2 ^ 32 from Nat.pow_lt_pow_right (by decide) hk

/-- The next bit, which is 0 behind the last one. -/
theorem shift_bit {k : Nat} (hk : k < 32) :
    ((2 ^ k % wordSize) <<< 1) % wordSize = 2 ^ (k + 1) % wordSize := by
  have hlt := bit_lt hk
  rw [Nat.mod_eq_of_lt hlt, Nat.shiftLeft_eq, ← pow_add]

/-- The walk along the bits of a word stops at a bit that is set. -/
theorem wp_advanceBit {map j b : Nat} (hj : j < 32) (hbit : map.testBit j = true)
    {Q : Nat × Nat → State K → Prop} {s : State K} (fuel : Nat) :
    ∀ {k}, k ≤ j → j < fuel + k →
      (∀ k', k ≤ k' → k' < 32 → Q (binAt av (32 * b + k'), 2 ^ k' % wordSize) s) →
      wp (advanceBit map fuel (binAt av (32 * b + k)) (2 ^ k % wordSize)) Q E s := by
  induction fuel with
  | zero => exact fun hk hfuel => by omega
  | succ fuel ih =>
    intro k hk hfuel hQ
    have hlt := bit_lt (show k < 32 by omega)
    unfold advanceBit
    by_cases hzero : 2 ^ k % wordSize &&& map = 0
    · have hkj : k ≠ j := by
        rintro rfl
        rw [Nat.mod_eq_of_lt hlt, Nat.two_pow_and, hbit] at hzero
        simp at hzero
      have hlt' := bit_lt (show k + 1 < 32 by omega)
      rw [if_pos hzero]
      simp only [wp_bind, wp_check, shift_bit (show k < 32 by omega), nextBin_binAt, Nat.add_assoc]
      rw [Nat.mod_eq_of_lt hlt', if_pos (Nat.two_pow_pos _).ne', ← Nat.mod_eq_of_lt hlt']
      exact ih (by omega) (by omega) (fun k' hk' => hQ k' (by omega))
    · rw [if_neg hzero, wp_pure]
      exact hQ k le_rfl (by omega)

/-- What inspecting bin `i` comes to: a block, or a false alarm. -/
def Inspected (m₀ : Mem) (h : Heap) (av nb i bit : Nat) (o : Nat ⊕ (Nat × Nat × Nat))
    (s : State K) : Prop :=
  match o with
  | .inl mem => Found m₀ h av nb (fun _ => True) (some mem) s
  | .inr (bin, map, next) => Rep m₀ s h ∧ Active s av ∧ bin = binAt av (i + 1) ∧
      map < 2 ^ 32 ∧ next = (bit <<< 1) % wordSize

/-- The chunks of a higher bin are large enough. -/
theorem Rep.inspectBin (r : Rep m₀ s h) (hs : h.Settled) (hd : Header s av i)
    (hi : binIndex nb < i) (hempty : h.bins av 1 = []) (hnb : 16 ≤ nb) (h8 : nb % 8 = 0)
    {block map bit : Nat} (hblock : block < 3) (hmap : map < 2 ^ 32) :
    wp (inspectBin av nb (binAt av i) block map bit) (Inspected m₀ h av nb i bit) E s := by
  have nhdr : Node s h (binAt av i) := .header _ _ hd rfl
  have hbig := binIndex_bounds hnb
  unfold ArbiterThread.inspectBin
  rw [wp_bind]
  refine nhdr.bkOf r.body ?_
  -- the bit may be set for an empty bin: it is cleared and the search goes on
  rcases List.eq_nil_or_concat (h.bins av i) with hnil | ⟨l, x, hbin⟩
  · have hmap' : map &&& (0xFFFFFFFF ^^^ bit) < 2 ^ 32 := by
      rw [Nat.and_comm]
      exact Nat.and_lt_two_pow _ hmap
    rw [if_pos (r.bk_empty hd hnil)]
    simp only [wp_bind, wp_setMstate, wp_pure]
    exact ⟨r.setBinmap av hblock (fun _ => hmap'), (active_amend Iff.rfl av).mpr hd.active,
      nextBin_binAt av i, hmap', rfl⟩
  · rw [List.concat_eq_append] at hbin
    have hmem : x ∈ h.bins av i := hbin ▸ List.mem_append_right _ List.mem_cons_self
    have hx := r.body.tidy.lists.bin hmem
    have hle : nb ≤ h.size x := by
      rcases hx.2.2.2 with hone | hidx
      · omega
      · exact le_of_binIndex_lt (hidx ▸ hi)
    have hm := r.last_mapped hbin
    have r' := r.lastRemoved hbin
    rw [r.bk_last hbin, if_neg (r.body.ne_header hd hmem), wp_bind]
    refine r.body.chunksize hx.1 (by rw [hx.2.1]; decide) ?_
    simp only [wp_bind, wp_check, if_pos hle, unlinkLast, wp_pure]
    refine (Node.chunk hx.1).bkOf r.body (wp_store_mapped hm.1 (wp_store_mapped hm.2 ?_))
    rw [← List.append_nil l] at r'
    exact r.takeOut (P := fun _ => True) hs hd.active hbin (by omega) hempty hnb h8 hle _ r'

/-- A word with a bit at or behind the place is not skipped. -/
theorem not_skips {k map : Nat} (hk : k < 32) (hle : 2 ^ k ≤ map) :
    ¬ (map < 2 ^ k % wordSize ∨ 2 ^ k % wordSize = 0) := by
  have hpos := Nat.two_pow_pos k
  rw [Nat.mod_eq_of_lt (bit_lt hk)]
  omega

/-- The first chunk of a higher bin, found through the bitmap. -/
theorem Rep.takeBinmap (hs : h.Settled) (hempty : h.bins av 1 = []) (hnb : 16 ≤ nb)
    (h8 : nb % 8 = 0) (fuel : Nat) :
    ∀ {s : State K} {b k map : Nat}, Rep m₀ s h → Active s av → map < 2 ^ 32 →
      b < 3 ∨ map = 0 → k ≤ 32 → 32 * b + k ≤ 96 → 97 ≤ fuel + (32 * b + k) →
      binIndex nb < 32 * b + k →
      wp (takeBinmap av nb fuel (binAt av (32 * b + k)) b map (2 ^ k % wordSize))
        (Found m₀ h av nb fun _ => True) E s := by
  induction fuel with
  | zero => exact fun _ _ _ _ _ hend hfuel => by omega
  | succ fuel ih =>
    intro s b k map r hav hmap hb hk hend hfuel hidx
    -- from a word with a set bit at or behind the place it goes on the same way
    have hgo : ∀ b' k' map', map' < 2 ^ 32 → b' < 3 → k' < 32 → 2 ^ k' ≤ map' →
        32 * b + k ≤ 32 * b' + k' →
        wp (ArbiterThread.takeBinmap av nb (fuel + 1) (binAt av (32 * b' + k')) b' map'
          (2 ^ k' % wordSize)) (Found m₀ h av nb fun _ => True) E s := by
      intro b' k' map' hmap' hb' hk' hle hlater
      unfold ArbiterThread.takeBinmap
      rw [wp_bind, wp_getMstate]
      simp only [if_neg (not_skips hk' hle)]
      rcases Nat.exists_ge_and_testBit_of_ge_two_pow hle with ⟨j, hj, hbit⟩
      have hj32 : j < 32 := by
        by_contra hcon
        rw [Nat.testBit_lt_two_pow (hmap'.trans_le (Nat.pow_le_pow_right (by decide) (by omega)))]
          at hbit
        simp at hbit
      rw [wp_bind]
      refine wp_advanceBit hj32 hbit 33 hj (by omega) (fun k'' hk'' hk32 => ?_)
      rw [wp_bind]
      have hd : Header s av (32 * b' + k'') := ⟨hav, by omega, by omega⟩
      refine wp_imp (r.inspectBin hs hd (by omega) hempty hnb h8 hb' hmap') (fun o s' ho => ?_)
      rcases o with mem | ⟨bin, map'', bit⟩
      · exact (wp_pure ..).mpr ho
      · rcases ho with ⟨r', hav', rfl, hmap'', rfl⟩
        rw [shift_bit hk32, Nat.add_assoc]
        exact ih r' hav' hmap'' (.inl hb') (by omega) (by omega) (by omega) (by omega)
    by_cases hskip : map < 2 ^ k % wordSize ∨ 2 ^ k % wordSize = 0
    · unfold ArbiterThread.takeBinmap
      rw [wp_bind, wp_getMstate]
      simp only [if_pos hskip]
      cases hblock : nextBlock (s.mstates av) binmapSize b with
      | none => exact (wp_pure ..).mpr ⟨h, r, hs, hav, .refl h, trivial⟩
      | some b' =>
        have hnext := nextBlock_eq_some hblock
        have hword := (r.body.tracks.mstate hav).binmap b'
        have hpos := Nat.pos_of_ne_zero hnext.2.2
        have hfrom := hgo b' 0 _ hword hnext.2.1 (by omega) hpos (by omega)
        unfold ArbiterThread.takeBinmap at hfrom
        rw [wp_bind, wp_getMstate] at hfrom
        simp only [if_neg (not_skips (k := 0) (by omega) hpos)] at hfrom
        exact hfrom
    · rw [not_or, Nat.not_lt] at hskip
      have hk32 : k < 32 := by
        by_contra hcon
        have hk' : k = 32 := by omega
        rw [hk'] at hskip
        exact hskip.2 rfl
      have hpos := Nat.two_pow_pos k
      rw [Nat.mod_eq_of_lt (bit_lt hk32)] at hskip
      exact hgo b k map hmap (by omega) hk32 hskip.1 le_rfl

/-! ### The last two stages -/

theorem Rep.takeOwnBin (r : Rep m₀ s h) (hs : h.Settled) (hav : Active s av)
    (hempty : h.bins av 1 = []) (hnb : 16 ≤ nb) (h8 : nb % 8 = 0) :
    wp (takeOwnBin av nb) (Found m₀ h av nb fun h' => h'.bins av 1 = []) E s := by
  unfold ArbiterThread.takeOwnBin
  by_cases hsmall : inSmallbinRange nb
  · rw [if_pos hsmall, wp_pure]
    exact ⟨h, r, hs, hav, .refl h, hempty⟩
  · have hidx := binIndex_bounds hnb
    have hd : Header s av (binIndex nb) := ⟨hav, by omega, hidx.2⟩
    have nhdr : Node s h (binAt av (binIndex nb)) := .header _ _ hd rfl
    rw [if_neg hsmall, wp_bind]
    refine nhdr.bkOf r.body ?_
    rcases exists_concat (binAt av (binIndex nb)) (h.bins av (binIndex nb)) with ⟨pre, x, hx⟩
    rw [(r.rings hd).bk_header hx]
    exact r.takeLarge hs hd (by omega) hempty hnb h8 loopFuel (List.append_nil _).symm hx
      (r.body.tidy.bin_length ..)

theorem Rep.takeBinned (r : Rep m₀ s h) (hs : h.Settled) (hav : Active s av)
    (hempty : h.bins av 1 = []) (hnb : 16 ≤ nb) (h8 : nb % 8 = 0) :
    wp (takeBinned av nb) (Found m₀ h av nb fun _ => True) E s := by
  unfold ArbiterThread.takeBinned
  rw [wp_bind]
  refine wp_imp (r.takeOwnBin hs hav hempty hnb h8) (fun o s' ho => ?_)
  cases o with
  | some mem => exact (wp_pure ..).mpr ho
  | none =>
    rcases ho with ⟨h', r', hs', hav', hre, hempty'⟩
    have hidx := binIndex_bounds hnb
    have ht := r'.body.tracks.mstate hav'
    -- from the bin above that of the request on
    generalize hn : binIndex nb + 1 = idx at *
    have hbit : idx2bit idx = 2 ^ (idx % 32) % wordSize := by
      rw [Nat.mod_eq_of_lt (bit_lt (Nat.mod_lt _ (by decide)))]
      exact Nat.one_shiftLeft _
    have hat : binAt av idx = binAt av (32 * idx2block idx + idx % 32) := by
      rw [idx2block, Nat.div_add_mod]
    have hblock : idx2block idx < 3 ∨ (s'.mstates av).binmap (idx2block idx) = 0 := by
      by_cases hlt : idx2block idx < 3
      · exact .inl hlt
      · exact .inr (ht.binmapEnd _ (Nat.le_of_not_lt hlt))
    simp only [wp_bind, wp_getMstate, hbit, hat]
    unfold idx2block at *
    refine wp_imp (Rep.takeBinmap hs' hempty' hnb h8 128 r' hav' (ht.binmap _) hblock (by omega)
      (by omega) (by omega) (by omega)) (fun o s'' hfound => hfound.of_rearranged hre)

/-! ### The whole search -/

/-- All stages before the unit tops. -/
theorem Rep.searchBins (r : Rep m₀ s h) (hs : h.Settled) (hav : Active s av) (hnb : 16 ≤ nb)
    (h8 : nb % 8 = 0) (hok : ConsolidateOk s h av nb) :
    wp (searchBins av nb) (Found m₀ h av nb fun _ => True) E s := by
  unfold ArbiterThread.searchBins
  rw [wp_bind]
  refine r.takeFast hs hav hnb h8 (fun mem s' hfound => (wp_pure ..).mpr hfound) ?_
  dsimp only
  rw [wp_bind]
  -- each stage either finds a block or leaves the heap rearranged for the next
  refine wp_imp (r.takeSmall hs hav hnb h8 hok) (fun o s₁ ho => ?_)
  cases o with
  | some mem => exact (wp_pure ..).mpr ho
  | none =>
    rcases ho with ⟨h₁, r₁, hs₁, hav₁, hre₁, -⟩
    dsimp only
    rw [wp_bind]
    refine wp_imp (Rep.takeUnsorted hnb h8 loopFuel r₁ hs₁ hav₁ (r₁.body.tidy.bin_length av 1))
      (fun o s₂ ho => ?_)
    cases o with
    | some mem => exact (wp_pure ..).mpr (Found.of_rearranged (P := fun _ => True) hre₁ ho)
    | none =>
      rcases ho with ⟨h₂, r₂, hs₂, hav₂, hre₂, hempty⟩
      refine wp_imp (r₂.takeBinned hs₂ hav₂ hempty hnb h8) (fun o s₃ ho => ?_)
      exact (ho.of_rearranged hre₂).of_rearranged hre₁

end

end ArbiterThread
