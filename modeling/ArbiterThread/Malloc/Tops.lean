import ArbiterThread.Malloc.Search

/-!
# Unit Tops

`use_unit_top`, on a heap that is represented in the state. The first unit top
that is large enough is cut, and its first part handed out.

A top of which less than a minimal chunk would be left is handed out whole.
Either nothing is left of it, and the unit top is then the fencepost, or eight
bytes are. In the second case the code moves `unit_top` into the block that it
hands out, so `TopsOk` excludes it.

A unit top that is the fencepost reads as a chunk of four bytes and is never
large enough.

## Main definitions

* `TopsOk`: The unit top that is cut is not eight bytes larger than needed.
* `Heap.shorten`, `Heap.useUp`: A unit top cut, and one handed out whole.

## Theorems

* `Body.topSize`: What the code takes for the size of a unit top.
* `Rep.useUnitTop`: A chunk is handed out, or no unit top is large enough.
-/

namespace ArbiterThread

open Exec Rings

variable {K : Type}

/-- What the code takes for the size of a unit top. -/
def topSize (s : State K) (u : Nat) : Nat := sizeOfHead (s.mem.load32 ((s.units u).unitTop + 4))

/-- The first of the unit tops listed that is large enough is not eight bytes
    larger than needed. -/
def TopsOk (s : State K) (nb : Nat) (us : List Nat) : Prop :=
  ∀ u ∈ us.find? (fun u => decide (nb ≤ topSize s u)), topSize s u ≠ nb + 8

instance (s : State K) (nb : Nat) (us : List Nat) : Decidable (TopsOk s nb us) :=
  inferInstanceAs (Decidable (∀ u ∈ us.find? _, _))

section

variable {m₀ : Mem} {s : State K} {h : Heap} {p u nb : Nat}
variable {E : Fault → State K → Prop}

/-- The unit top is a chunk, and the chunk before it is not free. -/
theorem Heap.Tidy.top (t : h.Tidy) (hs : h.Settled) (hu : h.base u ≠ 0)
    (htop : h.top u ≠ h.fence u) :
    h.size (h.top u) ≠ 0 ∧ h.use (h.top u) = .top ∧ h.unit (h.top u) = u ∧
      h.flag (h.top u) = true ∧ h.next (h.top u) = h.fence u := by
  rcases hs.top hu htop with ⟨hsize, huse, hunit⟩
  have hend := (t.tops hsize huse).2
  rw [hunit] at hend
  refine ⟨hsize, huse, hunit, ?_, hend⟩
  by_contra hflag
  rcases t.free_before hs hsize (by simpa using hflag) (fun q hq => hq.elim) with
    ⟨q, hq, hfree, hnext⟩
  exact (t.flags.free hq hfree).2.2.2 (by rw [hnext]; exact huse)

theorem Body.topSize (b : Body m₀ s h) (hs : h.Settled) (hu : h.base u ≠ 0) :
    topSize s u = if h.top u = h.fence u then 4 else h.size (h.top u) := by
  have hunit := (b.tracks.unit hu).2
  unfold ArbiterThread.topSize
  rw [hunit]
  simp only
  by_cases htop : h.top u = h.fence u
  · rw [if_pos htop, htop, (b.holds.fence hu).1]
    rfl
  · rcases b.tidy.top hs hu htop with ⟨hsize, huse, -⟩
    rw [if_neg htop, b.holds.head hsize (by rw [huse]; decide), b.tidy.tiling.sizeOfHead hsize]

/-- The word that says how large a unit top is can be read. -/
theorem Body.top_mapped (b : Body m₀ s h) (hs : h.Settled) (hu : h.base u ≠ 0) :
    ArbiterThread.mapped s ((s.units u).unitTop + 4) := by
  have hunit := (b.tracks.unit hu).2
  rw [hunit]
  by_cases htop : h.top u = h.fence u
  · have hin := b.tidy.tiling.inside hu
    simp only [htop, Heap.fence]
    unfold ArbiterThread.mapped wordSize channelAddr channelSize unitTopSize
    omega
  · rcases b.tidy.top hs hu htop with ⟨hsize, -⟩
    exact b.mapped hsize (by simp only; omega) (by unfold Heap.next; simp only; omega)

end

/-! ### A unit top handed out whole -/

/-- All of a unit top is handed out, and the unit top is the fencepost then. -/
def Heap.useUp (h : Heap) (u : Nat) : Heap :=
  ((h.setUse (h.top u) .raw).setTop u (h.fence u)).setUse (h.top u) .live

/-- A unit top cut after `nb` bytes. -/
def Heap.shorten (h : Heap) (u nb : Nat) : Heap :=
  (((((h.setUse (h.top u) .raw).setTop u (h.top u + nb)).cleave (h.top u) nb).setUse (h.top u)
    .live).setUse (h.top u + nb) .top)

section

variable {m₀ : Mem} {s : State K} {h : Heap} {p u nb : Nat}
variable {E : Fault → State K → Prop}

/-- While a unit top is being worked on, its unit has none. -/
theorem Heap.Tidy.no_top (t : h.Tidy) (u : Nat) :
    ∀ q, (h.setUse (h.top u) .raw).size q ≠ 0 → (h.setUse (h.top u) .raw).unit q = u →
      (h.setUse (h.top u) .raw).use q ≠ .top := by
  intro q hq hunit huse
  by_cases hqt : q = h.top u
  · rw [hqt, Heap.setUse_use_self] at huse
    exact absurd huse (by decide)
  · rw [Heap.setUse_use_of_ne _ _ _ hqt] at huse
    have htops := (t.tops hq huse).1
    change h.unit q = u at hunit
    rw [hunit] at htops
    exact hqt htops.symm

/-- Nothing begins at a fencepost. -/
theorem Heap.Tiling.size_fence (t : h.Tiling) (hu : h.base u ≠ 0) : h.size (h.fence u) = 0 := by
  by_contra hsize
  have hunit := t.unit_eq hsize hu (by unfold Heap.fence; omega) (by
    unfold Heap.fence unitTopSize
    omega)
  have hplace := (t.place hsize).2.2
  have hshape := t.shape hsize
  rw [hunit] at hplace
  unfold Heap.next at hplace
  omega

theorem Heap.live_top (hs : h.Settled) (hu : h.base u ≠ 0) (htop : h.top u ≠ h.fence u) :
    h.live (h.top u) = none := by
  rw [Heap.live_eq_none]
  intro _ huse
  rw [(hs.top hu htop).2.1] at huse
  exact absurd huse (by decide)

theorem Heap.useUp_settled (hs : h.Settled) (hu : h.base u ≠ 0)
    (htop : h.top u ≠ h.fence u) : (h.useUp u).Settled := by
  refine ⟨fun {q} hq hx => ?_, fun {v} hv hne => ?_⟩
  · by_cases hqt : q = h.top u
    · rw [hqt, Heap.useUp, Heap.setUse_use_self]
      decide
    · have huse : (h.useUp u).use q = h.use q := by
        unfold Heap.useUp
        rw [Heap.setUse_use_of_ne _ _ _ hqt]
        exact Heap.setUse_use_of_ne _ _ _ hqt
      rw [huse]
      exact hs.use hq hx
  · have hvu : v ≠ u := by
      rintro rfl
      exact hne (Function.update_self ..)
    have htopv : (h.useUp u).top v = h.top v := Function.update_of_ne hvu _ _
    rw [htopv] at hne ⊢
    rcases hs.top hv hne with ⟨hsize, huse, hunit⟩
    have hvt : h.top v ≠ h.top u := by
      intro heq
      rw [heq, (hs.top hu htop).2.2] at hunit
      exact hvu hunit.symm
    refine ⟨hsize, ?_, hunit⟩
    unfold Heap.useUp
    rw [Heap.setUse_use_of_ne _ _ _ hvt]
    exact (Heap.setUse_use_of_ne _ _ _ hvt).trans huse

theorem Heap.useUp_handed (t : h.Tidy) (hs : h.Settled) (hu : h.base u ≠ 0)
    (htop : h.top u ≠ h.fence u)
    (hnb : nb ≤ h.size (h.top u) ∧ h.size (h.top u) < nb + 16) :
    Handed h (h.useUp u) (h.owner u) nb (h.top u) := by
  rcases t.top hs hu htop with ⟨hsize, huse, hunit, -, -⟩
  have hkeep := t.unkept hsize (by rw [huse]; decide) (by rw [huse]; decide)
  refine ⟨rfl, rfl, Heap.live_top hs hu htop, ⟨h.size (h.top u), u, ?_, hnb, rfl⟩,
    FastsFrom.trans (.setUse h (h.top u) (k := .raw) (by decide))
      (.setUse ((h.setUse (h.top u) .raw).setTop u (h.fence u)) (h.top u) (by decide))⟩
  have hlive : (h.setUse (h.top u) .raw).live = h.live :=
    Heap.live_setUse (by rw [huse]; decide) (by decide)
  unfold Heap.useUp
  rw [Heap.live_settle (h := (h.setUse (h.top u) .raw).setTop u (h.fence u)) hsize]
  change Function.update (h.setUse (h.top u) .raw).live _
    (some (h.size _, h.unit _, h.keep _)) = _
  rw [hlive, hunit, hkeep]

/-- The fencepost is marked as the end of a chunk in use, which it was before. -/
theorem Body.put_fence (b : Body m₀ s h) (hu : h.base u ≠ 0) {t : State K} (ht : t.mem = s.mem) :
    t.put (h.fence u + 4) 5 = t := by
  have hfence := (b.holds.fence hu).1
  unfold State.put
  rw [← hfence, ← ht, Mem.store32_load32]

theorem Rep.useUp (r : Rep m₀ s h) (hs : h.Settled) (hu : h.base u ≠ 0)
    (htop : h.top u ≠ h.fence u) : Rep m₀ (s.moveTop u (h.fence u)) (h.useUp u) := by
  have t := r.body.tidy
  rcases t.top hs hu htop with ⟨hsize, huse, hunit, hflag, hend⟩
  have r₁ := r.of_body (r.body.loosen hsize (by rw [huse]; decide)) rfl
  have r₂ := r₁.moveTop (h.fence u) (t.no_top u)
  refine r₂.of_body (r₂.body.settle hsize (.inr (Heap.setUse_use_self ..)) (fun hn => ?_) ?_) rfl
  · change h.size (h.next (h.top u)) ≠ 0 at hn
    rw [hend, t.tiling.size_fence hu] at hn
    exact absurd rfl hn
  · exact r.body.holds.head hsize (by rw [huse]; decide)

/-! ### A unit top cut -/

/-- The fields of the heap after a unit top was cut. -/
theorem Heap.shorten_fields (h : Heap) (u : Nat) {nb : Nat} (hnb : 16 ≤ nb) :
    (h.shorten u nb).size (h.top u) = nb ∧
    (h.shorten u nb).size (h.top u + nb) = h.size (h.top u) - nb ∧
    (h.shorten u nb).use (h.top u) = .live ∧ (h.shorten u nb).use (h.top u + nb) = .top ∧
    (h.shorten u nb).unit (h.top u + nb) = h.unit (h.top u) ∧
    (h.shorten u nb).top u = h.top u + nb ∧
    ∀ q, q ≠ h.top u + nb → (h.shorten u nb).unit q = h.unit q ∧
      (h.shorten u nb).keep q = h.keep q ∧
      (q ≠ h.top u → (h.shorten u nb).size q = h.size q ∧ (h.shorten u nb).use q = h.use q) := by
  have hne : h.top u ≠ h.top u + nb := by omega
  refine ⟨Heap.cleave_size_self, Heap.cleave_size_rest (by omega), ?_, Function.update_self ..,
    Function.update_self .., Function.update_self .., fun q hq => ⟨Function.update_of_ne hq _ _,
      Function.update_of_ne hq _ _, fun hqt => ⟨Heap.cleave_size_of_ne hqt hq, ?_⟩⟩⟩
  · unfold Heap.shorten
    rw [Heap.setUse_use_of_ne _ _ _ hne, Heap.setUse_use_self]
  · unfold Heap.shorten
    rw [Heap.setUse_use_of_ne _ _ _ hq, Heap.setUse_use_of_ne _ _ _ hqt]
    exact (Function.update_of_ne hq _ _).trans (Heap.setUse_use_of_ne _ _ _ hqt)

theorem Heap.shorten_settled (t : h.Tidy) (hs : h.Settled) (hu : h.base u ≠ 0)
    (htop : h.top u ≠ h.fence u) (hnb : 16 ≤ nb) (hrest : nb + 16 ≤ h.size (h.top u)) :
    (h.shorten u nb).Settled := by
  rcases h.shorten_fields u hnb with ⟨hst, hsr, hut, hur, hunitr, htopu, hother⟩
  rcases t.top hs hu htop with ⟨hsize, huse, hunit, -, -⟩
  refine ⟨fun {q} hq hx => ?_, fun {v} hv hne => ?_⟩
  · by_cases hqt : q = h.top u
    · rw [hqt, hut]
      decide
    by_cases hqr : q = h.top u + nb
    · rw [hqr, hur]
      decide
    · rcases (hother q hqr).2.2 hqt with ⟨hsq, huq⟩
      rw [hsq] at hq
      rw [huq]
      exact hs.use hq hx
  · by_cases hvu : v = u
    · subst hvu
      rw [htopu, hsr, hur, hunitr]
      exact ⟨by omega, rfl, hunit⟩
    have htopv : (h.shorten u nb).top v = h.top v := Function.update_of_ne hvu _ _
    rw [htopv] at hne ⊢
    rcases hs.top hv hne with ⟨hsv, huv, hunitv⟩
    have hvt : h.top v ≠ h.top u := by
      intro heq
      rw [heq, hunit] at hunitv
      exact hvu hunitv.symm
    have hvr : h.top v ≠ h.top u + nb := by
      have := t.tiling.apart_of_ne hsv hsize hvt
      have := t.tiling.bounds hsv
      unfold Heap.next at *
      omega
    rcases hother _ hvr with ⟨hunit', -, hrest'⟩
    rcases hrest' hvt with ⟨hsq, huq⟩
    rw [hsq, huq, hunit']
    exact ⟨hsv, huv, hunitv⟩

theorem Heap.shorten_handed (t : h.Tidy) (hs : h.Settled) (hu : h.base u ≠ 0)
    (htop : h.top u ≠ h.fence u) (hnb : 16 ≤ nb) (hrest : nb + 16 ≤ h.size (h.top u)) :
    Handed h (h.shorten u nb) (h.owner u) nb (h.top u) := by
  rcases h.shorten_fields u hnb with ⟨hst, hsr, hut, hur, -, -, hother⟩
  rcases t.top hs hu htop with ⟨hsize, huse, hunit, -, -⟩
  have hkeep := t.unkept hsize (by rw [huse]; decide) (by rw [huse]; decide)
  have hfasts : FastsFrom h (h.shorten u nb) := by
    intro q _ hfast
    have hqt : q ≠ h.top u := by
      rintro rfl
      rw [hut] at hfast
      exact Use.noConfusion hfast
    have hqr : q ≠ h.top u + nb := by
      rintro rfl
      rw [hur] at hfast
      exact Use.noConfusion hfast
    rcases hother q hqr with ⟨hunitq, -, hrestq⟩
    exact ⟨(hrestq hqt).1.symm, hunitq.symm, (hrestq hqt).2 ▸ hfast⟩
  refine ⟨rfl, rfl, Heap.live_top hs hu htop, ⟨nb, u, ?_, ⟨le_rfl, by omega⟩, rfl⟩, hfasts⟩
  funext q
  by_cases hqt : q = h.top u
  · rcases hother q (by omega) with ⟨hunitq, hkeepq, -⟩
    rw [hqt] at hunitq hkeepq ⊢
    rw [Function.update_self, Heap.live_eq_some, hunitq, hkeepq, hst, hut]
    exact ⟨by omega, rfl, rfl, hunit, hkeep⟩
  rw [Function.update_of_ne hqt]
  by_cases hqr : q = h.top u + nb
  · have hnone : h.size q = 0 := by
      by_contra hq
      exact (t.tiling.cleave_keeps hsize hnb hrest hq).1 hqr
    have hlive : h.live q = none := by
      rw [Heap.live_eq_none]
      exact fun hq => absurd hnone hq
    rw [hlive, Heap.live_eq_none, hqr, hur]
    exact fun _ => by decide
  · rcases hother q hqr with ⟨hunitq, hkeepq, hrestq⟩
    rcases hrestq hqt with ⟨hsq, huq⟩
    unfold Heap.live
    rw [hunitq, hkeepq, hsq, huq]

/-- The stores that cut a unit top. -/
theorem Rep.shorten (r : Rep m₀ s h) (hs : h.Settled) (hu : h.base u ≠ 0)
    (htop : h.top u ≠ h.fence u) (hnb : 16 ≤ nb) (h8 : nb % 8 = 0)
    (hrest : nb + 16 ≤ h.size (h.top u)) :
    Rep m₀ ((((s.moveTop u (h.top u + nb)).put (h.top u + 4) (nb + 1)).put (h.top u + nb + 4)
      (h.size (h.top u) - nb + 1)).put (h.fence u) (h.size (h.top u) - nb)) (h.shorten u nb) := by
  have t := r.body.tidy
  rcases t.top hs hu htop with ⟨hsize, huse, hunit, hflag, hend⟩
  have hb := t.tiling.bounds hsize
  have hkeep := t.unkept hsize (by rw [huse]; decide) (by rw [huse]; decide)
  have r₁ := r.of_body (r.body.loosen hsize (by rw [huse]; decide)) rfl
  have r₂ := r₁.moveTop (h.top u + nb) (t.no_top u)
  have b₃ := r₂.body.cleave (k := nb) hsize (Heap.setUse_use_self ..) hnb h8 hrest (by
    change h.keep _ + 4 ≤ nb
    omega)
  have r₃ := r₂.of_body b₃ rfl
  have hsp : (((h.setUse (h.top u) .raw).setTop u (h.top u + nb)).cleave (h.top u) nb).size
      (h.top u) = nb := Heap.cleave_size_self
  have hsr : (((h.setUse (h.top u) .raw).setTop u (h.top u + nb)).cleave (h.top u) nb).size
      (h.top u + nb) = h.size (h.top u) - nb := Heap.cleave_size_rest (by omega)
  have hne : h.top u ≠ h.top u + nb := by omega
  have hup : (((h.setUse (h.top u) .raw).setTop u (h.top u + nb)).cleave (h.top u) nb).use
      (h.top u) = .raw := (Function.update_of_ne hne _ _).trans (Heap.setUse_use_self ..)
  have hur : (((h.setUse (h.top u) .raw).setTop u (h.top u + nb)).cleave (h.top u) nb).use
      (h.top u + nb) = .raw := Function.update_self ..
  have hfp : (((h.setUse (h.top u) .raw).setTop u (h.top u + nb)).cleave (h.top u) nb).flag
      (h.top u) = true := (Function.update_of_ne hne _ _).trans hflag
  have hfr : (((h.setUse (h.top u) .raw).setTop u (h.top u + nb)).cleave (h.top u) nb).flag
      (h.top u + nb) = true := Function.update_self ..
  have hkp : (((h.setUse (h.top u) .raw).setTop u (h.top u + nb)).cleave (h.top u) nb).keep
      (h.top u) = 0 := (Function.update_of_ne hne _ _).trans hkeep
  have hkr : (((h.setUse (h.top u) .raw).setTop u (h.top u + nb)).cleave (h.top u) nb).keep
      (h.top u + nb) = 0 := Function.update_self ..
  have hunitr : (((h.setUse (h.top u) .raw).setTop u (h.top u + nb)).cleave (h.top u) nb).unit
      (h.top u + nb) = u := (Function.update_self ..).trans hunit
  have htopr : (((h.setUse (h.top u) .raw).setTop u (h.top u + nb)).cleave (h.top u) nb).top u =
      h.top u + nb := Function.update_self ..
  have hfence : (((h.setUse (h.top u) .raw).setTop u (h.top u + nb)).cleave (h.top u) nb).fence u =
      h.fence u := rfl
  unfold Heap.shorten
  generalize ((h.setUse (h.top u) .raw).setTop u (h.top u + nb)).cleave (h.top u) nb = c at *
  have hnext : c.next (h.top u + nb) = h.fence u := by
    rw [← hend]
    unfold Heap.next
    omega
  have hp0 : c.size (h.top u) ≠ 0 := by omega
  have hr0 : c.size (h.top u + nb) ≠ 0 := by omega
  -- all stores are to loose words of the heap with the cut made
  have r₄ := r₃.put (v := nb + 1) hp0 (.inl rfl)
    (b₃.put (.own _ hp0 hup (.inl rfl) (by omega)) _) rfl
  have r₅ := r₄.put (v := h.size (h.top u) - nb + 1) hr0 (.inl rfl)
    (r₄.body.put (.own _ hr0 hur (.inl rfl) (by omega)) _) rfl
  have r₆ := r₅.put (v := h.size (h.top u) - nb) hr0 (.inr hnext.symm)
    (r₅.body.put (.own _ hr0 hur (.inr (by rw [← hnext, hkr]; unfold Heap.next; omega))
      (by rw [← hnext]; exact le_rfl)) _) rfl
  have hfar : h.fence u = h.top u + h.size (h.top u) := hend.symm
  have r₇ := r₆.of_body (r₆.body.settle hp0 (.inr hup)
    (fun _ => by rw [Heap.next, hsp]; exact hfr) (by
      rw [load32_put_of_disjoint _ _ (by omega), load32_put_of_disjoint _ _ (by omega),
        load32_put_self _ _ (by omega), Heap.head, hsp, hfp]
      rfl)) rfl
  refine r₇.of_body (r₇.body.settleTop hr0 ?_ hfr hkr ?_ ?_ ?_) rfl
  · exact (Heap.setUse_use_of_ne _ _ _ hne.symm).trans hur
  · change c.top (c.unit _) = _
    rw [hunitr, htopr]
  · change c.next _ = c.fence (c.unit _)
    rw [hunitr, hnext, hfence]
  · change _ = c.size _ + 1
    rw [load32_put_of_disjoint _ _ (by omega), load32_put_self _ _ (by omega), hsr]

/-! ### The stage -/

/-- A chunk is handed out, or no unit top is large enough and nothing happens. A unit top
    that is eight bytes too large is handed out whole and moved to where there is no chunk. -/
theorem Rep.useUnitTop (r : Rep m₀ s h) (hs : h.Settled) {av : Nat} (hnb : 16 ≤ nb)
    (h8 : nb % 8 = 0) {Q : Option Nat → State K → Prop} (hnone : Q none s)
    (hsome : ∀ s' h' p, s'.mstates = s.mstates → Rep m₀ s' h' → h'.Settled →
      Handed h h' av nb p → Q (some (p + 8)) s') (us : List Nat)
    (hus : ∀ u ∈ us, h.base u ≠ 0 ∧ h.owner u = av)
    (hlost : ∀ u ∈ us.find? (fun u => decide (nb ≤ ArbiterThread.topSize s u)),
      h.size (h.top u) = nb + 8 → ArbiterThread.topSize s u = nb + 8 →
      Q (some (h.top u + 8)) (s.moveTop u (h.top u + nb))) :
    wp (ArbiterThread.useUnitTop nb us) Q E s := by
  induction us with
  | nil =>
    unfold ArbiterThread.useUnitTop
    rw [wp_pure]
    exact hnone
  | cons u us ih =>
    have t := r.body.tidy
    rcases hus u (by simp) with ⟨hu, hav⟩
    have hunit := (r.body.tracks.unit hu).2
    have htopsize := r.body.topSize hs hu
    unfold ArbiterThread.useUnitTop chunksize headOf
    simp only [wp_bind, wp_getUnit]
    refine wp_load_mapped (r.body.top_mapped hs hu) ?_
    simp only [wp_pure, wp_ite]
    change if nb ≤ topSize s u then _ else _
    by_cases hle : nb ≤ topSize s u
    swap
    · rw [if_neg hle]
      refine ih (fun v hv => hus v (by simp [hv])) ?_
      rwa [List.find?_cons_of_neg (by simpa using hle)] at hlost
    rw [if_pos hle]
    have hlost := hlost u (by rw [List.find?_cons_of_pos (by simpa using hle)]; rfl)
    by_cases htop : h.top u = h.fence u
    · rw [htopsize, if_pos htop] at hle
      omega
    rw [htopsize, if_neg htop] at hle hlost
    rcases t.top hs hu htop with ⟨hsize, huse, hunit', hflag, hend⟩
    have hb := t.tiling.bounds hsize
    have hoff : chunkAtOffset (h.top u) nb = h.top u + nb := by
      unfold chunkAtOffset wordSize
      omega
    have htopu : (s.units u).unitTop = h.top u := by rw [hunit]
    have hval : sizeOfHead (s.mem.load32 (h.top u + 4)) = h.size (h.top u) := by
      rw [if_neg htop] at htopsize
      rw [← htopsize, topSize, htopu]
    rw [htopu, hoff, hval, wp_bind, wp_setUnitTop, wp_bind]
    unfold cutTop
    rw [wp_ite]
    by_cases hrest : h.size (h.top u) - nb < minSize
    · rw [if_pos hrest]
      have hmapped : ∀ {t : State K}, ArbiterThread.mapped t (h.fence u + 4) := by
        have hin := t.tiling.inside hu
        unfold ArbiterThread.mapped wordSize channelAddr channelSize Heap.fence unitTopSize
        omega
      unfold setInuseBitAtOffset headOf
      rw [wp_bind, r.body.chunkAtOffset hsize, hend]
      refine wp_load_mapped hmapped (wp_store_mapped hmapped ?_)
      rw [wp_pure, r.body.chunk2mem hsize]
      change Q (some (h.top u + 8)) ((s.moveTop u (h.top u + nb)).put (h.fence u + 4)
        (withInuse (s.mem.load32 (h.fence u + 4))))
      have hput := r.body.put_fence hu (t := s.moveTop u (h.top u + nb)) rfl
      rw [(r.body.holds.fence hu).1, show withInuse 5 = 5 from rfl, hput]
      by_cases height : h.size (h.top u) = nb + 8
      · exact hlost height height
      -- nothing is left, so the unit top is the fencepost
      have hall : h.size (h.top u) = nb := by
        unfold minSize at hrest
        omega
      have hfence : h.top u + nb = h.fence u := by
        rw [← hend, ← hall]
        rfl
      rw [hfence]
      exact hsome _ _ _ rfl (r.useUp hs hu htop) (Heap.useUp_settled hs hu htop)
        (hav ▸ Heap.useUp_handed t hs hu htop (by omega))
    · have hroom : nb + 16 ≤ h.size (h.top u) := by
        unfold minSize at hrest
        omega
      rw [if_neg hrest]
      have r' := r.shorten hs hu htop hnb h8 hroom
      have hfoot : chunkAtOffset (h.top u + nb) (h.size (h.top u) - nb) = h.fence u := by
        rw [← hend]
        unfold chunkAtOffset wordSize Heap.next
        omega
      have hfence : h.fence u = h.top u + h.size (h.top u) := hend.symm
      unfold setHead setFoot setPrevSize
      simp only [wp_bind, hoff, hfoot, withInuse_of_mod h8,
        withInuse_of_mod (show (h.size (h.top u) - nb) % 8 = 0 by omega)]
      refine wp_store_mapped (r.body.mapped hsize (by omega) (by rw [hend]; omega)) ?_
      refine wp_store_mapped (r.body.mapped hsize (by omega) (by rw [hend]; omega)) ?_
      refine wp_store_mapped (r.body.mapped hsize (by omega) (by rw [hend]; omega)) ?_
      rw [wp_pure, r.body.chunk2mem hsize]
      exact hsome _ _ _ rfl r' (Heap.shorten_settled t hs hu htop hnb hroom)
        (hav ▸ Heap.shorten_handed t hs hu htop hnb hroom)

end

end ArbiterThread
