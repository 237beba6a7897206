import ArbiterThread.Malloc.Mapped
import ArbiterThread.Malloc.Tops

/-!
# The Heap Between Two Calls

What holds of the allocator whenever the lock is free, with both kinds of units:
those that are cut into chunks, and those that were mapped for one block.

`Arena` adds to the representation of the chunks what the mapped units need: a
header of two words in front of the block, which no work on chunks can reach,
because the rest of the channel heap is kept as it was. Work on bins and chunks
keeps all of it, which is `Arena.step`.

A request gets to a unit top by way of the bins, and to `__malloc_alloc` if no
unit top is large enough. What is handed out on the way, and what can be assumed
at each of these two points, is said in `Arena.mallocBeforeAlloc`. A condition on
the unit tops is phrased by running the request up to that point.

## Main definitions

* `Lone`: A unit that was mapped for one block.
* `Arena`: The state between two calls.
* `Grant`, `Owns`: The blocks there are.
* `mallocBins`, `AtTop`: A request up to the unit tops.
* `Admitted`: What a request has done when it gets to `__malloc_alloc`.

## Theorems

* `Arena.step`: Work on bins and chunks keeps the state in order.
* `Arena.widen`: So does a new `malloc_state`.
* `Arena.mallocBeforeAlloc`: A request up to `__malloc_alloc`.
-/

namespace ArbiterThread

open Exec Rings

variable {K : Type}

/-- A unit that was mapped for one block: the block is behind a header of two
    words. -/
structure Lone (s : State K) (u : Nat) : Prop where
  lower : channelAddr ≤ (s.units u).addr
  aligned : (s.units u).addr % 4096 = 0
  whole : (s.units u).length % 4096 = 0
  large : unitSize < (s.units u).length
  offset : s.mem.load32 (s.units u).addr = 0
  head : s.mem.load32 ((s.units u).addr + 4) = (s.units u).length + 2

/-- The state between two calls, and between the steps of one. -/
structure Arena (m₀ : Mem) (s : State K) (h : Heap) : Prop where
  rep : Rep m₀ s h
  settled : h.Settled
  wf : s.Wf
  ready : ∀ av ∈ s.mstateList, 72 ≤ (s.mstates av).maxFast ∧ (s.mstates av).pagesize = 4096 ∧
    (s.mstates av).mmapThreshold = unitSize
  lone : ∀ u ∈ s.ustateList, h.base u = 0 → Lone s u
  mmapped : ∀ u ∈ s.mmappedUstateList, u < s.nextUnit ∧ (s.units u).addr % 4096 = 0
  /-- before the first request the channel heap is empty -/
  blank : s.mstateList = [] → s.mmappedUstateList = [] ∧
    ∀ x, channelAddr ≤ x → x < channelEnd → s.mem x = 0
  /-- consolidation takes the fencepost for a chunk -/
  clear : ∀ x, h.size x ≠ 0 → h.use x = .fast → h.next x ≠ h.fence (h.unit x)
  nodup : s.ustateList.Nodup
  owned : ∀ u ∈ s.ustateList, (s.units u).unitAv ∈ s.mstateList

section

variable {m₀ : Mem} {s s' : State K} {h h' : Heap}

theorem Arena.active (a : Arena m₀ s h) {av : Nat} (hav : av ∈ s.mstateList) : Active s av := by
  have := (a.ready av hav).1
  unfold Active
  omega

/-- Mapped units are not among those that are cut into chunks. -/
theorem Tracks.lone_apart (t : Tracks s h) {u : Nat} (hu : u ∈ s.ustateList) (hbase : h.base u = 0)
    {x : Nat} (hlo : (s.units u).addr ≤ x) (hhi : x < (s.units u).addr + (s.units u).length) :
    ∀ v, h.base v ≠ 0 → x < h.base v ∨ h.base v + 40960 ≤ x := by
  intro v hv
  have hne : u ≠ v := by
    rintro rfl
    exact hv hbase
  have hsep := t.apart u hu v (t.unit hv).1 hne
  simp only [(t.unit hv).2, unitSize] at hsep
  omega

/-- What is outside the units that are cut into chunks stays as it is. -/
theorem Rep.outside_eq (r : Rep m₀ s h) (r' : Rep m₀ s' h') (hbase : h'.base = h.base) {x : Nat}
    (hx : 0x80000000 ≤ x) (hout : ∀ v, h.base v ≠ 0 → x < h.base v ∨ h.base v + 40960 ≤ x) :
    s'.mem x = s.mem x := by
  rw [r.body.holds.outside hx hout, r'.body.holds.outside hx (by rw [hbase]; exact hout)]

/-- Before the first request nothing is cut into chunks. -/
theorem Arena.no_units (a : Arena m₀ s h) (hnil : s.mstateList = []) (v : Nat) : h.base v = 0 := by
  by_contra hv
  have hmem := (a.rep.body.tracks.unit hv).1
  rw [a.wf.start hnil] at hmem
  exact absurd hmem List.not_mem_nil

/-- A mapped unit only depends on its record and its header. -/
theorem Lone.congr {u : Nat} (hl : Lone s u) (haddr : (s'.units u).addr = (s.units u).addr)
    (hlength : (s'.units u).length = (s.units u).length)
    (hmem : s.mem.Agree s'.mem (s.units u).addr ((s.units u).addr + 8)) : Lone s' u := by
  refine ⟨?_, ?_, ?_, ?_, ?_, ?_⟩
  all_goals simp only [haddr, hlength]
  · exact hl.lower
  · exact hl.aligned
  · exact hl.whole
  · exact hl.large
  · rw [Mem.load32_congr (fun x hlo hhi => hmem x hlo (by omega))]
    exact hl.offset
  · rw [Mem.load32_congr (fun x hlo hhi => hmem x (by omega) (by omega))]
    exact hl.head

/-- The header of a mapped unit, as the code reads it. -/
theorem Lone.head_spec {u : Nat} (hl : Lone s u) :
    isMmapped ((s.units u).length + 2) ∧
      sizeOfHead ((s.units u).length + 2) = (s.units u).length := by
  have hwhole := hl.whole
  unfold isMmapped sizeOfHead
  omega

/-- Work on bins and chunks, with fast chunks that consolidation can deal with. -/
theorem Arena.work (a : Arena m₀ s h) (hf : Frame s s') (r : Rep m₀ s' h') (hs : h'.Settled)
    (hbase : h'.base = h.base)
    (hclear : ∀ x, h'.size x ≠ 0 → h'.use x = .fast → h'.next x ≠ h'.fence (h'.unit x)) :
    Arena m₀ s' h' := by
  have hrest := hf.rest
  have hlist : s'.mstateList = s.mstateList := by rw [hrest]
  have hunits : s'.ustateList = s.ustateList := by rw [hrest]
  have hmm : s'.mmappedUstateList = s.mmappedUstateList := by rw [hrest]
  have hnext : s'.nextUnit = s.nextUnit := by rw [hrest]
  have haddr : ∀ u, (s'.units u).addr = (s.units u).addr := fun u => by rw [hf.unit u]
  -- the bins are a matter of `Rep`, all else is in the frame
  refine ⟨r, hs, hf.wf a.wf, ?_, ?_, ?_, ?_, hclear, hunits ▸ a.nodup, fun u hu => ?_⟩
  · intro av hav
    rw [hlist] at hav
    have hold := a.ready av hav
    refine ⟨hf.active av hold.1, ?_, ?_⟩
    all_goals rw [hf.mstate av]
    · exact hold.2.1
    · exact hold.2.2
  · intro u hu hu0
    rw [hunits] at hu
    rw [hbase] at hu0
    have hl := a.lone u hu hu0
    refine hl.congr (haddr u) (by rw [hf.unit u]) (fun x hlo hhi => ?_)
    have hlarge := hl.large
    have hlower := hl.lower
    unfold channelAddr at hlower
    refine a.rep.outside_eq r hbase (by omega) ?_
    exact a.rep.body.tracks.lone_apart hu hu0 hlo (by unfold unitSize at hlarge; omega)
  · intro u hu
    rw [hmm] at hu
    rw [hnext, haddr]
    exact a.mmapped u hu
  · intro hnil
    rw [hlist] at hnil
    rw [hmm]
    refine ⟨(a.blank hnil).1, fun x hlo hhi => ?_⟩
    rw [a.rep.outside_eq r hbase hlo (fun v hv => absurd (a.no_units hnil v) hv)]
    exact (a.blank hnil).2 x hlo hhi
  · rw [hunits] at hu
    rw [hlist, hf.unit u]
    exact a.owned u hu

/-- Work on bins and chunks keeps the state in order. -/
theorem Arena.step (a : Arena m₀ s h) (hf : Frame s s') (r : Rep m₀ s' h') (hs : h'.Settled)
    (hbase : h'.base = h.base) (hfast : FastsFrom h h') : Arena m₀ s' h' := by
  refine a.work hf r hs hbase (fun x hx huse => ?_)
  rcases hfast x hx huse with ⟨hsize, hunit, hold⟩
  have hclear := a.clear x (by rw [hsize]; exact hx) hold
  simp only [Heap.next, Heap.fence, hsize, hunit, hbase] at *
  exact hclear

/-- Only the memory, the records and the lists matter. -/
theorem Arena.outer (a : Arena m₀ s h)
    (hs : s' = { s with
      locked := s'.locked
      curbrk := s'.curbrk
      kern := s'.kern
      clients := s'.clients
      catGen := s'.catGen }) : Arena m₀ s' h := by
  have t := a.rep.body.tracks
  rw [hs]
  refine ⟨⟨⟨a.rep.body.tidy, ⟨t.unit, t.owner, t.bounded, t.apart, fun hav => ?_, t.limit⟩,
    a.rep.body.holds⟩, fun hd => a.rep.rings ⟨hd.active, hd.lo, hd.hi⟩⟩, a.settled,
    ⟨a.wf.units, a.wf.avs, a.wf.start⟩, a.ready, fun u hu hu0 => ?_, a.mmapped, a.blank, a.clear,
    a.nodup, a.owned⟩
  · have ht := t.mstate hav
    exact ⟨ht.made, ht.maxFast, ht.fastbins, ht.units, ht.binmap, ht.binmapEnd⟩
  · exact (a.lone u hu hu0).congr rfl rfl (fun _ _ _ => rfl)

end

/-! ### A new `malloc_state` -/

/-- A `malloc_state` that is not in use has no chunks. -/
theorem Body.lists_inactive {m₀ : Mem} {s : State K} {h : Heap} (b : Body m₀ s h) {av : Nat}
    (hav : ¬ Active s av) (i : Nat) : h.bins av i = [] ∧ h.fasts av i = [] := by
  refine ⟨List.eq_nil_iff_forall_not_mem.mpr (fun x hx => hav ?_),
    List.eq_nil_iff_forall_not_mem.mpr (fun x hx => hav ?_)⟩
  · have hbin := b.tidy.lists.bin hx
    exact hbin.2.2.1 ▸ b.activeOf hbin.1
  · have hfast := b.tidy.lists.fast hx
    exact hfast.2.2.1 ▸ b.activeOf hfast.1

/-- A link of a bin header that is right stays right. -/
theorem linkBins_keeps {av i : Nat} {is : List Nat} (hi : i < nBins) (his : ∀ j ∈ is, j < nBins)
    (m : Mem) (hav : av ≤ mstateLimit) {d : Nat} (hd : d = 8 ∨ d = 12)
    (hlink : m.load32 (binAt av i + d) = binAt av i) :
    (linkBins av is m).load32 (binAt av i + d) = binAt av i := by
  induction is generalizing m with
  | nil => exact hlink
  | cons j is ih =>
    refine ih (fun k hk => his k (List.mem_cons_of_mem j hk)) _ ?_
    have hlt : binAt av j < 4294967296 := by
      have := binAt_bounds av (his j List.mem_cons_self)
      simp only [privateBase, mstateStride, mstateLimit] at *
      omega
    by_cases hji : j = i
    · subst hji
      rcases hd with rfl | rfl
      · exact Mem.load32_store32_self _ _ _ hlt
      · rw [Mem.load32_store32_of_disjoint _ _ _ _ (by omega)]
        exact Mem.load32_store32_self _ _ _ hlt
    · have hne : binAt av j + 8 ≤ binAt av i ∨ binAt av i + 8 ≤ binAt av j := by
        unfold binAt
        omega
      rw [Mem.load32_store32_of_disjoint _ _ _ _ (by omega),
        Mem.load32_store32_of_disjoint _ _ _ _ (by omega)]
      exact hlink

/-- The bins listed are linked to themselves. -/
theorem linkBins_self {av i : Nat} {is : List Nat} (his : ∀ j ∈ is, j < nBins) (hi : i ∈ is)
    (m : Mem) (hav : av ≤ mstateLimit) {d : Nat} (hd : d = 8 ∨ d = 12) :
    (linkBins av is m).load32 (binAt av i + d) = binAt av i := by
  induction is generalizing m with
  | nil => exact absurd hi List.not_mem_nil
  | cons j is ih =>
    have htail : ∀ k ∈ is, k < nBins := fun k hk => his k (List.mem_cons_of_mem j hk)
    rcases List.mem_cons.mp hi with rfl | hmem
    · have hlt : binAt av i < 4294967296 := by
        have := binAt_bounds av (his i List.mem_cons_self)
        simp only [privateBase, mstateStride, mstateLimit] at *
        omega
      refine linkBins_keeps (his i List.mem_cons_self) htail _ hav hd ?_
      rcases hd with rfl | rfl
      · exact Mem.load32_store32_self _ _ _ hlt
      · rw [Mem.load32_store32_of_disjoint _ _ _ _ (by omega)]
        exact Mem.load32_store32_self _ _ _ hlt
    · exact ih htail hmem _

section

variable {m₀ : Mem} {s s' : State K} {h : Heap}

/-- What a new `malloc_state` may be: not initialised, or without chunks and with
    all bins linked to themselves. -/
inductive Newborn (s s' : State K) : Prop
  | unused (zero : s'.mstates s.nextMstate = Mstate.zero) (list : s'.mstateList = s.mstateList)
  | listed (L : Label) (init : s'.mstates s.nextMstate = { Mstate.zero.init with label := L })
      (list : s'.mstateList = s.mstateList ++ [s.nextMstate])
      (links : ∀ i, 1 ≤ i → i < 96 → ∀ d, d = 8 ∨ d = 12 →
        s'.mem.load32 (binAt s.nextMstate i + d) = binAt s.nextMstate i)

/-- One more `malloc_state`, and the memory changed inside it only. -/
structure Widened (s s' : State K) : Prop where
  units : s'.units = s.units
  nextUnit : s'.nextUnit = s.nextUnit
  ustateList : s'.ustateList = s.ustateList
  mmapped : s'.mmappedUstateList = s.mmappedUstateList
  nextMstate : s'.nextMstate = s.nextMstate + 1
  limit : s.nextMstate < mstateLimit
  mstates : ∀ av ≠ s.nextMstate, s'.mstates av = s.mstates av
  mem : ∀ x, x < privateBase + mstateStride * s.nextMstate ∨
    privateBase + mstateStride * s.nextMstate + 904 ≤ x → s'.mem x = s.mem x
  newborn : Newborn s s'

theorem Widened.channel (w : Widened s s') {x : Nat} (hx : 0x80000000 ≤ x) :
    s'.mem x = s.mem x := by
  have hlimit := w.limit
  refine w.mem x ?_
  simp only [privateBase, mstateStride, mstateLimit] at *
  omega

/-- The `malloc_state`s in use are the old ones, or the new one. -/
theorem Widened.active (w : Widened s s') {av : Nat} (hav : Active s' av) :
    av ≠ s.nextMstate ∧ Active s av ∨ av = s.nextMstate ∧
      ∃ L, s'.mstates s.nextMstate = { Mstate.zero.init with label := L } ∧
        ∀ i, 1 ≤ i → i < 96 → ∀ d, d = 8 ∨ d = 12 →
          s'.mem.load32 (binAt s.nextMstate i + d) = binAt s.nextMstate i := by
  by_cases hne : av = s.nextMstate
  · right
    refine ⟨hne, ?_⟩
    rcases w.newborn with ⟨hzero, -⟩ | ⟨L, hinit, -, hlinks⟩
    · rw [hne, Active, hzero] at hav
      exact absurd rfl hav
    · exact ⟨L, hinit, hlinks⟩
  · left
    unfold Active at hav ⊢
    rw [w.mstates av hne] at hav
    exact ⟨hne, hav⟩

/-- The records, with a new `malloc_state` that owns no unit. -/
theorem Widened.tracks (w : Widened s s') (b : Body m₀ s h) : Tracks s' h := by
  have t := b.tracks
  -- the number of the new `malloc_state` belongs to no unit so far
  have hfresh : ¬ Active s s.nextMstate := fun hav => absurd (t.mstate hav).made (lt_irrefl _)
  have hold : ∀ {av}, Active s av → av ≠ s.nextMstate := by
    rintro av hav rfl
    exact hfresh hav
  refine ⟨?_, ?_, ?_, ?_, ?_, ?_⟩
  · rw [w.units, w.ustateList]
    exact t.unit
  · intro u hu
    have hact := t.owner hu
    unfold Active
    rw [w.mstates _ (hold hact)]
    exact hact
  · rw [w.units, w.ustateList]
    exact t.bounded
  · rw [w.units, w.ustateList]
    exact t.apart
  · intro av hav
    rcases w.active hav with ⟨hne, hact⟩ | ⟨rfl, L, hinit, -⟩
    · have ht := t.mstate hact
      have hm := w.mstates av hne
      refine ⟨?_, ?_, ?_, ?_, ?_, ?_⟩
      · rw [w.nextMstate]
        exact Nat.lt_succ_of_lt ht.made
      all_goals rw [hm]
      · exact ht.maxFast
      · exact ht.fastbins
      · exact ht.units
      · exact ht.binmap
      · exact ht.binmapEnd
    · refine ⟨by rw [w.nextMstate]; exact Nat.lt_succ_self _, ?_, ?_, ?_, ?_, ?_⟩
      all_goals rw [hinit]
      · exact .inl rfl
      · intro i _
        rw [(b.lists_inactive hfresh i).2]
        rfl
      · exact fun u hu => absurd hu List.not_mem_nil
      · exact fun _ => show 0 < 4294967296 by decide
      · exact fun _ _ => rfl
  · rw [w.nextMstate]
    exact w.limit

/-- The memory still represents the heap. -/
theorem Widened.rep (w : Widened s s') (r : Rep m₀ s h) : Rep m₀ s' h := by
  have b := r.body
  have hfresh : ¬ Active s s.nextMstate :=
    fun hav => absurd (b.tracks.mstate hav).made (lt_irrefl _)
  have hbody : Body m₀ s' h := by
    refine ⟨b.tidy, w.tracks b, ?_⟩
    refine b.holds.congr b.tidy.lists ?_ ?_
    · intro p hp huse
      have hbounds := b.tidy.tiling.bounds hp
      rw [Mem.load32_congr (fun x hlo hhi => w.channel (by omega))]
      exact b.holds.head hp huse
    · exact fun x hx => w.channel (hx.channel b.tidy.tiling)
  -- the bins of the new `malloc_state` are empty, with headers that point to themselves
  refine ⟨hbody, fun {av i} hd => ?_⟩
  rcases w.active hd.active with ⟨hne, hact⟩ | ⟨rfl, L, -, hlinks⟩
  · -- the headers of the others are outside the new one
    have hd' : Header s av i := ⟨hact, hd.lo, hd.hi⟩
    have hb := binAt_bounds av (i := i) hd.hi
    have hout : ∀ x, binAt av i ≤ x → x < binAt av i + 16 → s'.mem x = s.mem x := by
      intro x hlo hhi
      refine w.mem x ?_
      simp only [privateBase, mstateStride] at *
      omega
    have hsame : ∀ x ∈ binAt av i :: h.bins av i, ∀ y, x + 8 ≤ y → y < x + 16 →
        s'.mem y = s.mem y := by
      intro x hx y hlo hhi
      rcases List.mem_cons.mp hx with rfl | hx
      · exact hout y (by omega) hhi
      · have hbounds := b.tidy.tiling.bounds (b.tidy.lists.bin hx).1
        exact w.channel (by omega)
    exact (r.rings hd').congr
      (fun x hx => Mem.load32_congr (fun y hlo hhi => hsame x hx y hlo (by omega)))
      (fun x hx => Mem.load32_congr (fun y hlo hhi => hsame x hx y (by omega) hhi))
  · unfold RingAt
    rw [(b.lists_inactive hfresh i).1]
    unfold Rings.Ring
    rw [List.nil_append, List.isChain_cons_cons]
    exact ⟨⟨hlinks i hd.lo hd.hi 8 (.inl rfl), hlinks i hd.lo hd.hi 12 (.inr rfl)⟩,
      List.isChain_singleton _⟩

/-- A new `malloc_state` keeps the state in order. -/
theorem Arena.widen (a : Arena m₀ s h) (w : Widened s s') : Arena m₀ s' h := by
  have hold : ∀ av ∈ s.mstateList, av ≠ s.nextMstate := fun av hav => (a.wf.avs av hav).ne
  -- the list has at most the new `malloc_state` more, and that one is initialised
  have hlist : ∀ av ∈ s'.mstateList, av ∈ s.mstateList ∨ av = s.nextMstate ∧
      ∃ L, s'.mstates av = { Mstate.zero.init with label := L } := by
    intro av hav
    rcases w.newborn with ⟨-, heq⟩ | ⟨L, hinit, heq, -⟩
    · rw [heq] at hav
      exact .inl hav
    · rw [heq, List.mem_append, List.mem_singleton] at hav
      exact hav.imp_right (fun hav => ⟨hav, L, hav ▸ hinit⟩)
  have hnil : s'.mstateList = [] → s.mstateList = [] := by
    intro hnil
    rcases w.newborn with ⟨-, heq⟩ | ⟨-, -, heq, -⟩
    · rw [← heq, hnil]
    · rw [heq] at hnil
      exact absurd hnil (by simp)
  refine ⟨w.rep a.rep, a.settled, ⟨?_, ?_, ?_⟩, ?_, ?_, ?_, ?_, a.clear, w.ustateList ▸ a.nodup, ?_⟩
  · rw [w.ustateList, w.units, w.nextUnit, w.nextMstate]
    exact fun u hu => ⟨(a.wf.units u hu).1, Nat.lt_succ_of_lt (a.wf.units u hu).2⟩
  · intro av hav
    rw [w.nextMstate]
    rcases hlist av hav with hav | ⟨rfl, -⟩
    · exact Nat.lt_succ_of_lt (a.wf.avs av hav)
    · exact Nat.lt_succ_self _
  · intro h'
    rw [w.ustateList]
    exact a.wf.start (hnil h')
  · intro av hav
    rcases hlist av hav with hav | ⟨rfl, L, hinit⟩
    · rw [w.mstates av (hold av hav)]
      exact a.ready av hav
    · rw [hinit]
      exact ⟨show 72 ≤ Mstate.zero.init.maxFast by decide, rfl, rfl⟩
  · rw [w.ustateList]
    intro u hu hu0
    have hl := a.lone u hu hu0
    have hlower := hl.lower
    unfold channelAddr at hlower
    exact hl.congr (by rw [w.units]) (by rw [w.units]) (fun x hlo _ => w.channel (by omega))
  · intro u hu
    rw [w.units, w.nextUnit]
    rw [w.mmapped] at hu
    exact a.mmapped u hu
  · intro h'
    rw [w.mmapped]
    refine ⟨(a.blank (hnil h')).1, fun x hlo hhi => ?_⟩
    rw [w.channel hlo]
    exact (a.blank (hnil h')).2 x hlo hhi
  · rw [w.ustateList, w.units]
    intro u hu
    have hav := a.owned u hu
    rcases w.newborn with ⟨-, heq⟩ | ⟨-, -, heq, -⟩
    all_goals rw [heq]
    · exact hav
    · exact List.mem_append_left _ hav

theorem State.widened_withMstate (s : State K) (hlimit : s.nextMstate < mstateLimit) :
    Widened s s.withMstate := by
  refine ⟨rfl, rfl, rfl, rfl, rfl, hlimit, fun av hne => Function.update_of_ne hne _ _,
    fun x hx => ?_, .unused ?_ rfl⟩
  · unfold State.withMstate Mem.fill
    exact if_neg (by omega)
  · unfold State.withMstate
    simp only [Function.update_self]

/-- A `malloc_state` made and initialised for a label. -/
theorem Arena.widened_forLabel (a : Arena m₀ s h) (hlimit : s.nextMstate < mstateLimit)
    (L : Label) : Widened s (s.forLabel L) := by
  have hmade := s.widened_withMstate hlimit
  -- clearing the channel heap finds it empty
  have hcleared : s.withMstate.cleared.units = s.units ∧
      s.withMstate.cleared.nextUnit = s.nextUnit ∧
      s.withMstate.cleared.ustateList = s.ustateList ∧
      s.withMstate.cleared.mmappedUstateList = s.mmappedUstateList ∧
      ∀ x, s.withMstate.cleared.mem x = s.withMstate.mem x := by
    unfold State.cleared
    split
    · rename_i hnil
      refine ⟨rfl, rfl, (a.wf.start hnil).symm, (a.blank hnil).1.symm, fun x => ?_⟩
      simp only [Mem.fill]
      split
      · rename_i hx
        rw [hmade.channel hx.1]
        exact ((a.blank hnil).2 x hx.1 hx.2).symm
      · rfl
    · exact ⟨rfl, rfl, rfl, rfl, fun _ => rfl⟩
  refine ⟨hcleared.1, hcleared.2.1, hcleared.2.2.1, hcleared.2.2.2.1,
    s.withMstate.cleared_nextMstate, hlimit, fun av hne => Function.update_of_ne hne _ _,
    fun x hx => ?_, .listed L (Function.update_self ..) rfl (fun i hlo hhi d hd => ?_)⟩
  · change linkBins s.nextMstate _ s.withMstate.cleared.mem x = s.mem x
    rw [linkBins_apply bins_lt _ hx, hcleared.2.2.2.2 x]
    exact hmade.mem x hx
  · refine linkBins_self bins_lt ?_ _ (Nat.le_of_lt hlimit) hd
    rw [List.mem_range'_1]
    unfold nBins
    omega

end

/-! ### Blocks -/

/-- A block: its address, a number of bytes, and a label. -/
structure Grant where
  mem : Nat
  bytes : Nat
  label : Label

/-- The blocks there are: all user bytes of a chunk in use, and all of a mapped unit
    behind its header. The label is that of the unit. -/
inductive Owns (s : State K) (h : Heap) (g : Grant) : Prop
  | chunk (p z u k : Nat) (mem : g.mem = p + 8) (live : h.live p = some (z, u, k))
      (room : g.bytes + 4 = z) (label : (s.mstates (h.owner u)).label = g.label)
  | lone (u : Nat) (listed : u ∈ s.ustateList) (base : h.base u = 0)
      (mem : g.mem = (s.units u).addr + 8) (room : g.bytes + 8 = (s.units u).length)
      (label : (s.mstates (s.units u).unitAv).label = g.label)

/-- The statistics of a `malloc_state`, with the units they are about. -/
def Mstate.counts (m : Mstate) : List Nat × Int × Int × Nat × Nat × Nat × Nat × Nat :=
  (m.ustateList, m.nMmaps, m.maxNMmaps, m.mmappedMem, m.maxMmappedMem, m.sbrkedMem, m.maxSbrkedMem,
    m.maxTotalMem)

/-- The units, and the labels and statistics of the `malloc_state`s there were, are the
    same. New ones have no units. -/
structure Onward (s s' : State K) : Prop where
  list : s'.ustateList = s.ustateList
  mmapped : s'.mmappedUstateList = s.mmappedUstateList
  nextUnit : s'.nextUnit = s.nextUnit
  unit : ∀ u, (s'.units u).addr = (s.units u).addr ∧ (s'.units u).length = (s.units u).length ∧
    (s'.units u).unitAv = (s.units u).unitAv
  label : ∀ av < s.nextMstate, (s'.mstates av).label = (s.mstates av).label
  nextMstate : s.nextMstate ≤ s'.nextMstate
  counts : ∀ av < s.nextMstate, (s'.mstates av).counts = (s.mstates av).counts
  newborn : ∀ av, s.nextMstate ≤ av → av < s'.nextMstate →
    (s'.mstates av).counts = Mstate.zero.counts

section

variable {m₀ : Mem} {s s' s'' : State K} {h h' : Heap}

theorem Onward.refl (s : State K) : Onward s s :=
  ⟨rfl, rfl, rfl, fun _ => ⟨rfl, rfl, rfl⟩, fun _ _ => rfl, le_rfl, fun _ _ => rfl,
    fun _ hlo hhi => absurd hhi hlo.not_gt⟩

theorem Onward.trans (h1 : Onward s s') (h2 : Onward s' s'') : Onward s s'' := by
  refine ⟨h2.list.trans h1.list, h2.mmapped.trans h1.mmapped, h2.nextUnit.trans h1.nextUnit,
    fun u => ?_, fun av hav => ?_, h1.nextMstate.trans h2.nextMstate, fun av hav => ?_,
    fun av hlo hhi => ?_⟩
  · have hfirst := h1.unit u
    have hsecond := h2.unit u
    exact ⟨hsecond.1.trans hfirst.1, hsecond.2.1.trans hfirst.2.1,
      hsecond.2.2.trans hfirst.2.2⟩
  · exact (h2.label av (hav.trans_le h1.nextMstate)).trans (h1.label av hav)
  · exact (h2.counts av (hav.trans_le h1.nextMstate)).trans (h1.counts av hav)
  · rcases lt_or_ge av s'.nextMstate with hmid | hmid
    · exact (h2.counts av hmid).trans (h1.newborn av hlo hmid)
    · exact h2.newborn av hmid hhi

theorem Onward.of_locked {b : Bool} (h : Onward { s with locked := b } s') : Onward s s' :=
  ⟨h.list, h.mmapped, h.nextUnit, h.unit, h.label, h.nextMstate, h.counts, h.newborn⟩

theorem Frame.onward (hf : Frame s s') : Onward s s' := by
  have hrest := hf.rest
  have hnext : s'.nextMstate = s.nextMstate := by rw [hrest]
  refine ⟨by rw [hrest], by rw [hrest], by rw [hrest], fun u => ?_,
    fun av _ => by rw [hf.mstate av], hnext.ge, fun av _ => ?_,
    fun av hlo hhi => absurd hhi (hnext ▸ hlo.not_gt)⟩
  · rw [hf.unit u]
    exact ⟨rfl, rfl, rfl⟩
  · rw [hf.mstate av]
    rfl

theorem Widened.onward (w : Widened s s') : Onward s s' := by
  refine ⟨w.ustateList, w.mmapped, w.nextUnit, fun u => by rw [w.units]; exact ⟨rfl, rfl, rfl⟩,
    fun av hav => by rw [w.mstates av hav.ne], ?_, fun av hav => by rw [w.mstates av hav.ne],
    fun av hlo hhi => ?_⟩
  · rw [w.nextMstate]
    exact Nat.le_succ _
  · rw [w.nextMstate] at hhi
    obtain rfl : av = s.nextMstate := by omega
    rcases w.newborn with ⟨hzero, -⟩ | ⟨L, hinit, -, -⟩
    · rw [hzero]
    · rw [hinit]
      rfl

/-- A block stays where it is while its chunk stays in use. -/
theorem Owns.onward {g : Grant} (hg : Owns s h g) (a : Arena m₀ s h) (ho : Onward s s')
    (hbase : h'.base = h.base) (howner : h'.owner = h.owner)
    (hlive : ∀ p, g.mem = p + 8 → h.live p ≠ none → h'.live p = h.live p) : Owns s' h' g := by
  cases hg with
  | chunk p z u k hmem hp hroom hlabel =>
    have hsome := Heap.live_eq_some.mp hp
    have hbu : h.base u ≠ 0 := hsome.2.2.2.1 ▸ (a.rep.body.tidy.tiling.place hsome.1).1
    have hmade := (a.rep.body.tracks.mstate (a.rep.body.tracks.owner hbu)).made
    refine .chunk p z u k hmem ((hlive p hmem (by rw [hp]; simp)).trans hp) hroom ?_
    rw [howner, ho.label _ hmade]
    exact hlabel
  | lone u hu hu0 hmem hroom hlabel =>
    have hunit := ho.unit u
    refine .lone u (by rw [ho.list]; exact hu) (by rw [hbase]; exact hu0) ?_ ?_ ?_
    · rw [hunit.1]
      exact hmem
    · rw [hunit.2.1]
      exact hroom
    · rw [hunit.2.2, ho.label _ (a.wf.units u hu).2]
      exact hlabel

/-- A chunk in use, in numbers. -/
theorem Arena.live_bounds (a : Arena m₀ s h) {p z u k : Nat} (hp : h.live p = some (z, u, k)) :
    u ∈ s.ustateList ∧ s.units u =
        { unitTop := h.top u, addr := h.base u, length := unitSize, unitAv := h.owner u } ∧
      h.base u ≠ 0 ∧ h.base u ≤ p ∧ p + z ≤ h.base u + unitTopSize ∧ 16 ≤ z := by
  obtain ⟨hsize, huse, rfl, rfl, -⟩ := Heap.live_eq_some.mp hp
  have hplace := a.rep.body.tidy.tiling.place hsize
  have hunit := a.rep.body.tracks.unit hplace.1
  exact ⟨hunit.1, hunit.2, hplace.1, hplace.2.1, hplace.2.2,
    (a.rep.body.tidy.tiling.bounds hsize).2.2.2.2.1⟩

/-- A block lies in a unit that has its label. -/
theorem Owns.inside {g : Grant} (hg : Owns s h g) (a : Arena m₀ s h) :
    ∃ u ∈ s.ustateList, (s.units u).addr + 8 ≤ g.mem ∧
      g.mem + g.bytes ≤ (s.units u).addr + (s.units u).length ∧
      (s.mstates (s.units u).unitAv).label = g.label ∧ 8 ≤ g.bytes := by
  cases hg with
  | chunk p z u k hmem hp hroom hlabel =>
    obtain ⟨hu, hunit, -, hlo, hhi, hz⟩ := a.live_bounds hp
    refine ⟨u, hu, ?_⟩
    rw [hunit]
    unfold unitTopSize at hhi
    dsimp only [unitSize]
    exact ⟨by omega, by omega, hlabel, by omega⟩
  | lone u hu hu0 hmem hroom hlabel =>
    have hlarge := (a.lone u hu hu0).large
    unfold unitSize at hlarge
    exact ⟨u, hu, hmem.ge, by omega, hlabel, by omega⟩

/-- A unit is cut into chunks, or mapped for one block, but not both. -/
theorem Arena.chunk_lone (a : Arena m₀ s h) {p z u k v : Nat} (hp : h.live p = some (z, u, k))
    (hv : v ∈ s.ustateList) (hv0 : h.base v = 0) :
    p + z + 16 ≤ (s.units v).addr ∨ (s.units v).addr + (s.units v).length ≤ p := by
  obtain ⟨hu, hunit, hbase, hlo, hhi, -⟩ := a.live_bounds hp
  have happart := a.rep.body.tracks.apart u hu v hv (fun heq => hbase (heq ▸ hv0))
  rw [hunit] at happart
  simp only [unitSize, unitTopSize] at happart hhi
  omega

/-- Different blocks have no byte in common. -/
theorem Owns.disjoint {g g' : Grant} (hg : Owns s h g) (hg' : Owns s h g') (a : Arena m₀ s h)
    (hne : g.mem ≠ g'.mem) : g.mem + g.bytes ≤ g'.mem ∨ g'.mem + g'.bytes ≤ g.mem := by
  -- chunks are apart by the tiling, units by the record of their extents
  cases hg with
  | chunk p z u k hmem hp hroom hlabel =>
    cases hg' with
    | chunk q z' u' k' hmem' hq hroom' hlabel' =>
      obtain ⟨hpsize, -, rfl, -⟩ := Heap.live_eq_some.mp hp
      obtain ⟨hqsize, -, rfl, -⟩ := Heap.live_eq_some.mp hq
      have happart := a.rep.body.tidy.tiling.apart_of_ne hpsize hqsize (by omega)
      unfold Heap.next at happart
      omega
    | lone v hv hv0 hmem' hroom' hlabel' =>
      have happart := a.chunk_lone hp hv hv0
      omega
  | lone u hu hu0 hmem hroom hlabel =>
    cases hg' with
    | chunk q z' u' k' hmem' hq hroom' hlabel' =>
      have happart := a.chunk_lone hq hu hu0
      omega
    | lone v hv hv0 hmem' hroom' hlabel' =>
      have hne' : u ≠ v := by
        rintro rfl
        exact hne (hmem.trans hmem'.symm)
      have happart := a.rep.body.tracks.apart u hu v hv hne'
      omega

/-- There is one block at an address. -/
theorem Owns.unique {g g' : Grant} (hg : Owns s h g) (hg' : Owns s h g') (a : Arena m₀ s h)
    (hmem : g.mem = g'.mem) : g = g' := by
  obtain ⟨m, n, L⟩ := g
  obtain ⟨m', n', L'⟩ := g'
  dsimp only at hmem
  subst hmem
  -- a chunk is never where a lone unit is, so that both are of one kind
  cases hg with
  | chunk p z u k hmem hp hroom hlabel =>
    cases hg' with
    | chunk q z' u' k' hmem' hq hroom' hlabel' =>
      dsimp only at hmem hroom hlabel hmem' hroom' hlabel'
      obtain rfl : p = q := by omega
      obtain ⟨rfl, rfl, -⟩ : z = z' ∧ u = u' ∧ k = k' := by
        simpa only [Option.some.injEq, Prod.mk.injEq] using hp.symm.trans hq
      obtain rfl : n = n' := by omega
      rw [← hlabel, ← hlabel']
    | lone v hv hv0 hmem' hroom' hlabel' =>
      dsimp only at hmem hmem' hroom'
      have hlarge := (a.lone v hv hv0).large
      have hz := (a.live_bounds hp).2.2.2.2.2
      have happart := a.chunk_lone hp hv hv0
      unfold unitSize at hlarge
      omega
  | lone u hu hu0 hmem hroom hlabel =>
    have hlarge := (a.lone u hu hu0).large
    unfold unitSize at hlarge
    cases hg' with
    | chunk q z' u' k' hmem' hq hroom' hlabel' =>
      dsimp only at hmem hmem'
      have hz := (a.live_bounds hq).2.2.2.2.2
      have happart := a.chunk_lone hq hu hu0
      omega
    | lone v hv hv0 hmem' hroom' hlabel' =>
      dsimp only at hmem hroom hlabel hmem' hroom' hlabel'
      have hlarge' := (a.lone v hv hv0).large
      obtain rfl : u = v := by
        by_contra hne
        have happart := a.rep.body.tracks.apart u hu v hv hne
        omega
      obtain rfl : n = n' := by omega
      rw [← hlabel, ← hlabel']

end

/-! ### A request up to the unit tops -/

/-- The part of `ablib_malloc` from the size conversion up to `use_unit_top`,
    which `none` stands for. -/
def mallocBins (av nb : Nat) (L : Label) : HeapM K (Option Nat) := do
  let m ← getMstate av
  if haveAnychunks m then searchBins av nb
  else do
    (if m.maxFast = 0 then do
      mallocConsolidate av
      setMstate av fun m => { m with label := L }
    else pure ())
    pure none

/-- `ablib_malloc` up to `use_unit_top`: the `malloc_state` of the label, and the
    block if one was found in a bin. -/
def mallocBeforeTop (bytes : Nat) (L : Label) : HeapM K (Nat × Option Nat) := do
  let av ← lookupMstateByLabel L
  let av ← mallocEnter av
  let found ← mallocBins av (request2size bytes) L
  pure (av, found)

/-- If the request gets as far as `use_unit_top`, then `P` of the `malloc_state`
    and the state in which it gets there. -/
def AtTop (bytes : Nat) (L : Label) (P : Nat → State K → Prop) (s : State K) : Prop :=
  wp (mallocBeforeTop bytes L) (fun r s' => r.2 = none → P r.1 s') (fun _ _ => True) s

/-- The request is not cut from a unit top that would be left with 8 bytes. -/
def TopOk (bytes : Nat) (L : Label) (s : State K) : Prop :=
  AtTop bytes L
    (fun av s' => TopsOk s' (request2size bytes) (s'.mstates av).ustateList.reverse) s

theorem wp_mallocServe_iff (av nb : Nat) (L : Label) (Q : Option Nat → State K → Prop)
    (E : Fault → State K → Prop) (s : State K) :
    wp (mallocServe av nb L) Q E s ↔
      wp (mallocBins av nb L) (fun found s' =>
        match found with
        | some mem => Q (some mem) s'
        | none => wp (mallocTop av nb) Q E s') E s := by
  unfold mallocServe mallocBins
  simp only [wp_bind, wp_getMstate]
  by_cases hany : haveAnychunks (s.mstates av)
  · simp only [if_pos hany, wp_bind]
    refine iff_of_eq (congrArg (fun R => wp (searchBins av nb) R E s) ?_)
    funext found s'
    cases found with
    | some mem => simp only [wp_pure]
    | none => rfl
  · simp only [if_neg hany, wp_bind, wp_pure]

/-- The program does not fault if `C`, or faults are no concern. -/
def Safe (C : Prop) (E : Fault → State K → Prop) : Prop := C ∨ ∀ e s, E e s

theorem Safe.mono {C D : Prop} {E : Fault → State K → Prop} (h : Safe C E) (hCD : C → D) :
    Safe D E := h.imp_left hCD

/-- A condition on what a program leaves, or faults are no concern. -/
theorem Safe.wp {α : Type} {x : HeapM K α} {C : α → State K → Prop}
    {E : Fault → State K → Prop} {s : State K}
    (hE : Safe (wp x C (fun _ _ => True) s) E) :
    Exec.wp x (fun a s' => Safe (C a s') E) (fun _ _ => True) s := by
  rcases hE with hC | hE
  · exact wp_imp hC (fun _ _ h => .inl h)
  · exact wp_of_forall (fun _ _ => .inr hE) (fun _ _ => trivial)

/-- The lock is free, and there is a `malloc_state` for the label or room for one more. -/
def CanEnter (L : Label) (s : State K) : Prop :=
  s.locked = false ∧
    ((s.mstateList.find? fun m => decide ((s.mstates m).label = L)) = none →
      s.nextMstate < mstateLimit)

instance decidableCanEnter (L : Label) (s : State K) : Decidable (CanEnter L s) :=
  inferInstanceAs (Decidable (_ ∧ _))

/-- What is known of a request that has its `malloc_state`, and was served from
    the units there are or gets to `__malloc_alloc`. -/
structure Admitted (m₀ : Mem) (s : State K) (L : Label) (av : Nat) (s' : State K) (h' : Heap) :
    Prop where
  arena : Arena m₀ s' h'
  onward : Onward s s'
  listed : av ∈ s'.mstateList
  label : (s'.mstates av).label = L
  locked : s'.locked = true

section

variable {m₀ : Mem} {s s' : State K} {h h' : Heap} {av nb : Nat} {L : Label}
variable {E : Fault → State K → Prop}

theorem request2size_spec (bytes : Nat) :
    16 ≤ request2size bytes ∧ request2size bytes % 8 = 0 ∧ bytes + 4 ≤ request2size bytes ∧
      request2size bytes ≤ bytes + 16 := by
  unfold request2size minSize
  split
  · omega
  · omega

theorem Arena.fastClear (a : Arena m₀ s h) (av : Nat) : h.FastClear av := by
  intro i x hx
  have hfast := a.rep.body.tidy.lists.fast hx
  exact a.clear x hfast.1 hfast.2.1

theorem Admitted.frame (hr : Admitted m₀ s L av s' h) {t : State K} (hf : Frame s' t)
    (r : Rep m₀ t h') (hs : h'.Settled) (hbase : h'.base = h.base) (hfast : FastsFrom h h') :
    Admitted m₀ s L av t h' := by
  have hrest := hf.rest
  refine ⟨hr.arena.step hf r hs hbase hfast, hr.onward.trans hf.onward, ?_, ?_, ?_⟩
  · rw [hrest]
    exact hr.listed
  · rw [hf.mstate av]
    exact hr.label
  · rw [hrest]
    exact hr.locked

/-- Looking up the `malloc_state` of the label, or making one. -/
theorem Arena.mallocEnter (a : Arena m₀ s h) (L : Label)
    (hE : Safe (CanEnter L s) E) {Q : Nat → State K → Prop}
    (hknown : ∀ av, Admitted m₀ s L av { s with locked := true } h → Q av { s with locked := true })
    (hnew : s.nextMstate < mstateLimit →
      Q s.nextMstate { s with locked := true }.withMstate) :
    wp (ArbiterThread.mallocEnter
      (s.mstateList.find? fun m => decide ((s.mstates m).label = L))) Q E s := by
  unfold ArbiterThread.mallocEnter
  rw [wp_bind, wp_mallocLock]
  split
  · rename_i hlocked
    refine hE.elim (fun hC => ?_) (fun hE => hE _ _)
    rw [hC.1] at hlocked
    exact Bool.noConfusion hlocked
  -- the first `malloc_state` with the label, or a new one if there is room
  cases hfind : s.mstateList.find? fun m => decide ((s.mstates m).label = L) with
  | some av =>
    have hsome := List.find?_some hfind
    have hlabel : (s.mstates av).label = L := of_decide_eq_true hsome
    rw [wp_pure]
    exact hknown av ⟨a.outer rfl, .of_locked (.refl _), List.mem_of_find?_eq_some hfind, hlabel,
      rfl⟩
  | none =>
    rw [wp_newMstate]
    split
    · rename_i hlimit
      exact hnew hlimit
    · rename_i hlimit
      exact hE.elim (fun hC => absurd (hC.2 hfind) hlimit) (fun hE => hE _ _)

/-- The bins of a `malloc_state` in use. -/
theorem Admitted.mallocBins (hr : Admitted m₀ s L av s' h) (hnb : 16 ≤ nb) (h8 : nb % 8 = 0) :
    wp (ArbiterThread.mallocBins av nb L) (fun found t => ∃ h', Admitted m₀ s L av t h' ∧
      match found with
      | none => Rearranged h h'
      | some mem => ∃ p, mem = p + 8 ∧ Handed h h' av nb p) E s' := by
  have hav := hr.arena.active hr.listed
  unfold ArbiterThread.mallocBins
  rw [wp_bind, wp_getMstate]
  by_cases hany : haveAnychunks (s'.mstates av)
  · rw [if_pos hany]
    have hsearch := hr.arena.rep.searchBins (E := E) hr.arena.settled hav hnb h8
      (fun _ _ => hr.arena.fastClear av)
    refine wp_mono (wp_and hsearch (framed_searchBins av nb s')) (fun found t ht => ?_)
      (fun _ _ he => he.1)
    rcases ht with ⟨⟨h', r', hs', -, hcase⟩, hf⟩
    cases found with
    | none =>
      exact ⟨h', hr.frame hf r' hs' hcase.1.base hcase.1.wasFast, hcase.1⟩
    | some mem =>
      rcases hcase with ⟨p, hp, hhand⟩
      exact ⟨h', hr.frame hf r' hs' hhand.base hhand.wasFast, p, hp, hhand⟩
  · rw [if_neg hany, if_neg hav, wp_bind, wp_pure, wp_pure]
    exact ⟨h, hr, .refl h⟩

/-- The bins and unit tops of a `malloc_state` in use. -/
theorem Admitted.mallocServe (hr : Admitted m₀ s L av s' h) (hnb : 16 ≤ nb) (h8 : nb % 8 = 0)
    (htop : wp (ArbiterThread.mallocBins av nb L) (fun found t => found = none →
      TopsOk t nb (t.mstates av).ustateList.reverse) (fun _ _ => True) s') :
    wp (ArbiterThread.mallocServe av nb L) (fun found t => ∃ h', Admitted m₀ s L av t h' ∧
      match found with
      | none => Rearranged h h'
      | some mem => ∃ p, mem = p + 8 ∧ Handed h h' av nb p) E s' := by
  rw [wp_mallocServe_iff]
  refine wp_mono (wp_and (hr.mallocBins hnb h8 (E := E)) htop) (fun found t ht => ?_)
    (fun _ _ he => he.1)
  rcases ht with ⟨⟨h', hr', hcase⟩, htops⟩
  cases found with
  | some mem => exact ⟨h', hr', hcase⟩
  | none =>
    have hav' := hr'.arena.active hr'.listed
    have htops := htops rfl
    -- and then the unit tops
    have hcut : wp (mallocTop av nb) (fun found t' => ∃ h'', Rep m₀ t' h'' ∧ h''.Settled ∧
        match found with
        | none => Rearranged h' h''
        | some mem => ∃ p, mem = p + 8 ∧ Handed h' h'' av nb p) E t := by
      unfold mallocTop
      rw [wp_bind, wp_getMstate]
      refine hr'.arena.rep.useUnitTop hr'.arena.settled hnb h8
        ⟨h', hr'.arena.rep, hr'.arena.settled, .refl h'⟩
        (fun t' h'' p _ r'' hs'' (hhand : Handed h' h'' av nb p) => ?_) _ (fun u hu => ?_)
        (fun u hu _ heq => absurd heq (htops u hu))
      · exact ⟨h'', r'', hs'', p, rfl, hhand⟩
      · exact (hr'.arena.rep.body.tracks.mstate hav').units u (List.mem_reverse.mp hu)
    refine wp_mono (wp_and hcut (framed_mallocTop av nb t)) (fun found t' ht' => ?_)
      (fun _ _ he => he.1)
    rcases ht' with ⟨⟨h'', r'', hs'', hcase'⟩, hf⟩
    cases found with
    | none =>
      exact ⟨h'', hr'.frame hf r'' hs'' hcase'.base hcase'.wasFast, Rearranged.trans hcase hcase'⟩
    | some mem =>
      rcases hcase' with ⟨p, hp, hhand⟩
      exact ⟨h'', hr'.frame hf r'' hs'' hhand.base hhand.wasFast, p, hp,
        Rearranged.handed hcase hhand⟩

/-- Looking up the `malloc_state` of the label and serving the request from its units. A
    new `malloc_state` has none. -/
theorem Arena.admit (a : Arena m₀ s h) (L : Label) (nb : Nat)
    (hE : Safe (CanEnter L s) E) {C : Nat → State K → Prop}
    (hC : wp (ArbiterThread.mallocEnter
      (s.mstateList.find? fun m => decide ((s.mstates m).label = L))) C (fun _ _ => True) s)
    {R : Nat → Option Nat → State K → Prop}
    (hknown : ∀ av s₁, Admitted m₀ s L av s₁ h → C av s₁ →
      wp (ArbiterThread.mallocServe av nb L) (R av) E s₁)
    (hnew : ∀ av s₁, Admitted m₀ s L av s₁ h → R av none s₁) :
    wp (ArbiterThread.mallocEnter
      (s.mstateList.find? fun m => decide ((s.mstates m).label = L)))
      (fun av s₁ => wp (ArbiterThread.mallocServe av nb L) (R av) E s₁) E s := by
  refine wp_mono (wp_and (a.mallocEnter (Q := fun av s₁ => Admitted m₀ s L av s₁ h ∨
    s.nextMstate < mstateLimit ∧ av = s.nextMstate ∧ s₁ = { s with locked := true }.withMstate) L hE
      (fun av hr => .inl hr) (fun hlimit => .inr ⟨hlimit, rfl, rfl⟩)) hC) (fun av s₁ h₁ => ?_)
      (fun _ _ he => he.1)
  rcases h₁ with ⟨hr | ⟨hlimit, rfl, rfl⟩, hC⟩
  · exact hknown av s₁ hr hC
  · -- the new one is initialised
    have a' : Arena m₀ { s with locked := true } h := a.outer rfl
    have w := a'.widened_forLabel hlimit L
    have hroom : ({ s with locked := true } : State K).withMstate.nextMstate ≤ mstateLimit := hlimit
    refine mallocServe_fresh (Function.update_self ..) (Nat.lt_succ_self _) hroom _ L (hnew _ _ ?_)
    have hstate : ({ ({ s with locked := true } : State K).withMstate.prepared s.nextMstate with
        mstates := Function.update ({ s with locked := true } : State K).withMstate.mstates
          s.nextMstate { Mstate.zero.init with label := L } } : State K) =
        ({ s with locked := true } : State K).forLabel L := by
      simp only [State.forLabel, State.withMstate, Function.update_idem]
    rw [hstate]
    refine ⟨a'.widen w, w.onward.of_locked, ?_, ?_, ?_⟩
    · exact List.mem_append_right _ (List.mem_singleton_self _)
    · simp only [State.forLabel, Function.update_self]
    · exact ({ s with locked := true } : State K).withMstate.cleared_rest.2.2

/-- A request up to `__malloc_alloc`. -/
theorem Arena.mallocBeforeAlloc (a : Arena m₀ s h) (bytes : Nat) (L : Label)
    (hE : Safe (CanEnter L s) E) (htop : TopOk bytes L s) :
    wp (ArbiterThread.mallocEnter
      (s.mstateList.find? fun m => decide ((s.mstates m).label = L)))
      (fun av s₁ => wp (ArbiterThread.mallocServe av (request2size bytes) L)
        (fun found s' => ∃ h', Admitted m₀ s L av s' h' ∧
          match found with
          | none => Rearranged h h'
          | some mem => ∃ p, mem = p + 8 ∧ Handed h h' av (request2size bytes) p) E s₁) E s := by
  rcases request2size_spec bytes with ⟨hnb, h8, -, -⟩
  simp only [TopOk, AtTop, mallocBeforeTop, lookupMstateByLabel, wp_bind, wp_get, wp_pure] at htop
  exact a.admit L _ hE htop (fun av s₁ hr htop => hr.mallocServe hnb h8 htop)
    (fun av s₁ hr => ⟨h, hr, .refl h⟩)

end

end ArbiterThread
