import ArbiterThread.Lib.Spans
import ArbiterThread.Malloc.Arena

/-!
# Statistics

Each `malloc_state` counts the units it has: how many were mapped and how long they
are, how much was obtained by moving the break, and the largest value that each of
these has had.

The counts are kept in machine words and are updated when a unit is obtained and when
a mapped one is given back. They do not wrap around, because the units of all labels
together are disjoint and lie in the channel heap.

## Main definitions

* `mappedUnits`: The mapped units of a `malloc_state`.
* `CountedAt`, `Counted`: The statistics are right.

## Theorems

* `Counted.congr`, `Counted.onward`: Work on bins and chunks leaves them alone.
* `Arena.total_le`: The units of a `malloc_state` fit into the channel heap.
* `Counted.mapped`, `Counted.sbrked`: A new unit.
* `Counted.unmapped`: A unit that is given back.
-/

namespace ArbiterThread

variable {K : Type}

/-- The mapped units of a `malloc_state`: those that are not on its own list. -/
def mappedUnits (s : State K) (av : Nat) : List Nat :=
  s.ustateList.filter fun u =>
    decide ((s.units u).unitAv = av ∧ u ∉ (s.mstates av).ustateList)

/-- The statistics of a `malloc_state` are right. -/
structure CountedAt (s : State K) (av : Nat) : Prop where
  nMmaps : (s.mstates av).nMmaps = (mappedUnits s av).length
  mmappedMem : (s.mstates av).mmappedMem =
    ((mappedUnits s av).map fun u => (s.units u).length).sum
  sbrkedMem : (s.mstates av).sbrkedMem = unitSize * (s.mstates av).ustateList.length
  maxNMmaps : (s.mstates av).nMmaps ≤ (s.mstates av).maxNMmaps
  maxMmappedMem : (s.mstates av).mmappedMem ≤ (s.mstates av).maxMmappedMem
  maxSbrkedMem : (s.mstates av).sbrkedMem ≤ (s.mstates av).maxSbrkedMem
  maxTotalMem : (s.mstates av).mmappedMem + (s.mstates av).sbrkedMem ≤ (s.mstates av).maxTotalMem

/-- The statistics of all `malloc_state`s are right. -/
structure Counted (s : State K) : Prop where
  counts : ∀ av < s.nextMstate, CountedAt s av
  own : ∀ av < s.nextMstate, (s.mstates av).ustateList.Nodup ∧
    ∀ u ∈ (s.mstates av).ustateList, u ∈ s.ustateList ∧ (s.units u).length = unitSize

section

variable {m₀ : Mem} {s s' : State K} {h h' : Heap} {av : Nat}

/-- A `malloc_state` with the same units and counts. -/
theorem CountedAt.congr (hc : CountedAt s av) (hunits : mappedUnits s' av = mappedUnits s av)
    (hlength : ∀ u ∈ mappedUnits s av, (s'.units u).length = (s.units u).length)
    (hcounts : (s'.mstates av).counts = (s.mstates av).counts) : CountedAt s' av := by
  simp only [Mstate.counts, Prod.mk.injEq] at hcounts
  obtain ⟨hown, hn, hmaxn, hmem, hmaxmem, hbrk, hmaxbrk, htotal⟩ := hcounts
  refine ⟨?_, ?_, ?_, ?_, ?_, ?_, ?_⟩
  · rw [hn, hunits, hc.nMmaps]
  · rw [hmem, hunits, hc.mmappedMem, List.map_congr_left hlength]
  · rw [hbrk, hown, hc.sbrkedMem]
  · rw [hn, hmaxn]
    exact hc.maxNMmaps
  · rw [hmem, hmaxmem]
    exact hc.maxMmappedMem
  · rw [hbrk, hmaxbrk]
    exact hc.maxSbrkedMem
  · rw [hmem, hbrk, htotal]
    exact hc.maxTotalMem

/-- Only the records and the lists matter. -/
theorem Counted.congr (hc : Counted s) (hlist : s'.ustateList = s.ustateList)
    (hunits : s'.units = s.units) (hmstates : s'.mstates = s.mstates)
    (hnext : s'.nextMstate = s.nextMstate) : Counted s' := by
  have hmapped : ∀ av, mappedUnits s' av = mappedUnits s av := by
    intro av
    unfold mappedUnits
    rw [hlist, hunits, hmstates]
  refine ⟨fun av hav => ?_, fun av hav => ?_⟩
  · exact (hc.counts av (hnext ▸ hav)).congr (hmapped av) (fun _ _ => by rw [hunits])
      (by rw [hmstates])
  · rw [hmstates, hlist, hunits]
    exact hc.own av (hnext ▸ hav)

/-- Work on bins and chunks, and new `malloc_state`s. -/
theorem Counted.onward (hc : Counted s) (ho : Onward s s') (hwf : s.Wf) : Counted s' := by
  have hown : ∀ av < s.nextMstate, (s'.mstates av).ustateList = (s.mstates av).ustateList :=
    fun av hav => congrArg Prod.fst (ho.counts av hav)
  have hnew : ∀ av, s.nextMstate ≤ av → av < s'.nextMstate → (s'.mstates av).ustateList = [] :=
    fun av hlo hhi => congrArg Prod.fst (ho.newborn av hlo hhi)
  refine ⟨fun av hav => ?_, fun av hav => ?_⟩
  · rcases lt_or_ge av s.nextMstate with hlt | hge
    · refine (hc.counts av hlt).congr ?_ (fun u _ => (ho.unit u).2.1) (ho.counts av hlt)
      unfold mappedUnits
      rw [ho.list]
      refine List.filter_congr fun u _ => ?_
      rw [(ho.unit u).2.2, hown av hlt]
    · -- no unit refers to a new one
      have hnone : mappedUnits s' av = [] := by
        refine List.filter_eq_nil_iff.mpr fun u hu => ?_
        rw [ho.list] at hu
        have hold := (hwf.units u hu).2
        rw [(ho.unit u).2.2, decide_eq_true_eq]
        rintro ⟨rfl, -⟩
        omega
      have hzero := ho.newborn av hge hav
      simp only [Mstate.counts, Mstate.zero, Prod.mk.injEq] at hzero
      obtain ⟨hlist, hn, hmaxn, hmem, hmaxmem, hbrk, hmaxbrk, htotal⟩ := hzero
      refine ⟨?_, ?_, ?_, ?_, ?_, ?_, ?_⟩
      all_goals simp only [hnone, hlist, hn, hmaxn, hmem, hmaxmem, hbrk, hmaxbrk, htotal]
      all_goals simp
  · rcases lt_or_ge av s.nextMstate with hlt | hge
    · rw [hown av hlt]
      refine ⟨(hc.own av hlt).1, fun u hu => ?_⟩
      rw [ho.list, (ho.unit u).2.1]
      exact (hc.own av hlt).2 u hu
    · rw [hnew av hge hav]
      exact ⟨List.nodup_nil, fun u hu => absurd hu List.not_mem_nil⟩

/-! ### Room in the channel heap -/

theorem Arena.unit_inside (a : Arena m₀ s h) {u : Nat} (hu : u ∈ s.ustateList) :
    channelAddr ≤ (s.units u).addr ∧ (s.units u).addr + (s.units u).length ≤ channelEnd := by
  have hbound := a.rep.body.tracks.bounded u hu
  refine ⟨?_, hbound⟩
  by_cases hbase : h.base u = 0
  · exact (a.lone u hu hbase).lower
  · rw [(a.rep.body.tracks.unit hbase).2]
    exact (a.rep.body.tidy.tiling.inside hbase).1

/-- The mapped units of a `malloc_state` and those on its own list fit into the channel
    heap. -/
theorem Arena.total_le (a : Arena m₀ s h)
    (hown : (s.mstates av).ustateList.Nodup ∧
      ∀ u ∈ (s.mstates av).ustateList, u ∈ s.ustateList ∧ (s.units u).length = unitSize) :
    ((mappedUnits s av).map fun u => (s.units u).length).sum +
      unitSize * (s.mstates av).ustateList.length ≤ channelSize := by
  set own := (s.mstates av).ustateList with hdef
  have hmapped : (mappedUnits s av).Nodup := a.nodup.filter _
  have hownsum : ∑ u ∈ own.toFinset, (s.units u).length = unitSize * own.length := by
    rw [List.sum_toFinset _ hown.1, List.map_congr_left (fun u hu => (hown.2 u hu).2),
      List.map_const', List.sum_replicate, nsmul_eq_mul, Nat.cast_id, Nat.mul_comm]
  have hdisjoint : Disjoint (mappedUnits s av).toFinset own.toFinset := by
    refine Finset.disjoint_left.mpr fun u hu hu' => ?_
    have hnot := (decide_eq_true_eq.mp (List.mem_filter.mp (List.mem_toFinset.mp hu)).2).2
    exact hnot (List.mem_toFinset.mp hu')
  have hsub : (mappedUnits s av).toFinset ∪ own.toFinset ⊆ s.ustateList.toFinset := by
    intro u hu
    rcases Finset.mem_union.mp hu with hu | hu
    · exact List.mem_toFinset.mpr (List.mem_filter.mp (List.mem_toFinset.mp hu)).1
    · exact List.mem_toFinset.mpr (hown.2 u (List.mem_toFinset.mp hu)).1
  rw [← List.sum_toFinset _ hmapped, ← hownsum, ← Finset.sum_union hdisjoint]
  refine (Finset.sum_le_sum_of_subset hsub).trans ?_
  have hroom : ∑ u ∈ s.ustateList.toFinset, (s.units u).length ≤ channelEnd - channelAddr :=
    Span.sum_length_le _ (fun u => (s.units u).addr) _
      (fun u hu => a.unit_inside (List.mem_toFinset.mp hu))
      (fun u hu v hv hne => a.rep.body.tracks.apart u (List.mem_toFinset.mp hu) v
        (List.mem_toFinset.mp hv) hne)
  exact hroom.trans (by simp [channelEnd])

/-! ### New units -/

/-- One more unit on the list. -/
structure Listed (s s' : State K) : Prop where
  list : s'.ustateList = s.nextUnit :: s.ustateList
  unit : ∀ u ∈ s.ustateList, s'.units u = s.units u
  nextMstate : s'.nextMstate = s.nextMstate

theorem Listed.mappedUnits (hl : Listed s s')
    (hown : ∀ u ∈ s.ustateList, u ∈ (s'.mstates av).ustateList ↔ u ∈ (s.mstates av).ustateList) :
    mappedUnits s' av =
      if (s'.units s.nextUnit).unitAv = av ∧ s.nextUnit ∉ (s'.mstates av).ustateList then
        s.nextUnit :: mappedUnits s av
      else mappedUnits s av := by
  have hold : s.ustateList.filter (fun u =>
      decide ((s'.units u).unitAv = av ∧ u ∉ (s'.mstates av).ustateList)) =
        ArbiterThread.mappedUnits s av := by
    refine List.filter_congr fun u hu => decide_eq_decide.mpr ?_
    rw [hl.unit u hu, hown u hu]
  unfold ArbiterThread.mappedUnits at hold ⊢
  rw [hl.list, List.filter_cons, hold]
  simp only [decide_eq_true_eq]

/-- A `malloc_state` that did not get the unit. -/
theorem Counted.others (hc : Counted s) (hl : Listed s s') (hav : av < s.nextMstate)
    (hsame : s'.mstates av = s.mstates av) (hother : (s'.units s.nextUnit).unitAv ≠ av) :
    CountedAt s' av := by
  refine (hc.counts av hav).congr ?_ (fun u hu => ?_) (by rw [hsame])
  · rw [hl.mappedUnits (fun u _ => by rw [hsame]), if_neg (fun hcon => hother hcon.1)]
  · rw [hl.unit u (List.mem_filter.mp hu).1]

theorem Counted.own_grown (hc : Counted s) (hl : Listed s s') (hav : av < s.nextMstate)
    (hsame : (s'.mstates av).ustateList = (s.mstates av).ustateList) :
    (s'.mstates av).ustateList.Nodup ∧
      ∀ u ∈ (s'.mstates av).ustateList, u ∈ s'.ustateList ∧ (s'.units u).length = unitSize := by
  rw [hsame, hl.list]
  refine ⟨(hc.own av hav).1, fun u hu => ?_⟩
  have hu := (hc.own av hav).2 u hu
  rw [hl.unit u hu.1]
  exact ⟨List.mem_cons_of_mem _ hu.1, hu.2⟩

/-- A mapped unit of `size` bytes. -/
theorem Counted.mapped (hc : Counted s) (hwf : s.Wf) (a : Arena m₀ s' h') (hl : Listed s s')
    {size : Nat} (hnew : (s'.units s.nextUnit).unitAv = av ∧ (s'.units s.nextUnit).length = size)
    (hav : av < s.nextMstate) (hcounts : s'.mstates av = countMmapped size (s.mstates av))
    (hothers : ∀ av' ≠ av, s'.mstates av' = s.mstates av') : Counted s' := by
  have hown : (s'.mstates av).ustateList = (s.mstates av).ustateList := by
    rw [hcounts]
    rfl
  have hold := hc.counts av hav
  have hnot : s.nextUnit ∉ (s.mstates av).ustateList := by
    intro hu
    exact absurd (hwf.units _ ((hc.own av hav).2 _ hu).1).1 (lt_irrefl _)
  have hunits : mappedUnits s' av = s.nextUnit :: mappedUnits s av := by
    rw [hl.mappedUnits (fun u _ => by rw [hown]), if_pos ⟨hnew.1, by rwa [hown]⟩]
  have hsum : ((mappedUnits s' av).map fun u => (s'.units u).length).sum =
      size + (s.mstates av).mmappedMem := by
    rw [hunits, List.map_cons, List.sum_cons, hnew.2, hold.mmappedMem,
      List.map_congr_left (fun u hu => by rw [hl.unit u (List.mem_filter.mp hu).1])]
  -- so the words do not wrap around
  have htotal := a.total_le (hc.own_grown hl hav hown)
  rw [hsum, hown, ← hold.sbrkedMem] at htotal
  have hmem : ((s.mstates av).mmappedMem + size) % wordSize = (s.mstates av).mmappedMem + size := by
    simp only [wordSize, channelSize] at *
    omega
  have hall : ((s.mstates av).mmappedMem + size + (s.mstates av).sbrkedMem) % wordSize =
      (s.mstates av).mmappedMem + size + (s.mstates av).sbrkedMem := by
    simp only [wordSize, channelSize] at *
    omega
  refine ⟨fun av' hav' => ?_, fun av' hav' => ?_⟩
  · rw [hl.nextMstate] at hav'
    by_cases hne : av' = av
    · subst hne
      refine ⟨?_, ?_, ?_, ?_, ?_, ?_, ?_⟩
      all_goals simp only [hcounts, countMmapped, hmem, hall]
      · rw [hunits, hold.nMmaps, List.length_cons, Nat.cast_succ]
      · rw [hsum, Nat.add_comm]
      · exact hold.sbrkedMem
      · exact le_max_right _ _
      · exact le_max_right _ _
      · exact hold.maxSbrkedMem
      · exact le_max_right _ _
    · exact hc.others hl hav' (hothers av' hne) (fun hcon => hne (hcon.symm.trans hnew.1))
  · rw [hl.nextMstate] at hav'
    refine hc.own_grown hl hav' ?_
    by_cases hne : av' = av
    · rw [hne, hown]
    · rw [hothers av' hne]

/-- A unit obtained by moving the break. -/
theorem Counted.sbrked (hc : Counted s) (hwf : s.Wf) (a : Arena m₀ s' h') (hl : Listed s s')
    (hnew : (s'.units s.nextUnit).unitAv = av ∧ (s'.units s.nextUnit).length = unitSize)
    (hav : av < s.nextMstate)
    (hcounts : s'.mstates av = countSbrked
      { s.mstates av with
        sbrkedMem := ((s.mstates av).sbrkedMem + unitSize) % wordSize
        ustateList := s.nextUnit :: (s.mstates av).ustateList })
    (hothers : ∀ av' ≠ av, s'.mstates av' = s.mstates av') : Counted s' := by
  have hown : (s'.mstates av).ustateList = s.nextUnit :: (s.mstates av).ustateList := by
    rw [hcounts]
    rfl
  have hold := hc.counts av hav
  have hfresh : ∀ u ∈ s.ustateList, u ≠ s.nextUnit := fun u hu => (hwf.units u hu).1.ne
  -- the new unit is not a mapped one, as it is on the `malloc_state`'s own list
  have hunits : mappedUnits s' av = mappedUnits s av := by
    rw [hl.mappedUnits (fun u hu => by rw [hown, List.mem_cons]; simp [hfresh u hu]),
      if_neg (fun hcon => hcon.2 (by rw [hown]; exact List.mem_cons_self))]
  have hlength : ∀ u ∈ mappedUnits s av, (s'.units u).length = (s.units u).length :=
    fun u hu => by rw [hl.unit u (List.mem_filter.mp hu).1]
  have hsum : ((mappedUnits s' av).map fun u => (s'.units u).length).sum =
      (s.mstates av).mmappedMem := by
    rw [hunits, List.map_congr_left hlength, hold.mmappedMem]
  have hown' : (s'.mstates av).ustateList.Nodup ∧
      ∀ u ∈ (s'.mstates av).ustateList, u ∈ s'.ustateList ∧ (s'.units u).length = unitSize := by
    rw [hown, List.nodup_cons, hl.list]
    refine ⟨⟨fun hu => hfresh _ ((hc.own av hav).2 _ hu).1 rfl, (hc.own av hav).1⟩, fun u hu => ?_⟩
    rcases List.mem_cons.mp hu with rfl | hu
    · exact ⟨List.mem_cons_self, hnew.2⟩
    · have hu := (hc.own av hav).2 u hu
      rw [hl.unit u hu.1]
      exact ⟨List.mem_cons_of_mem _ hu.1, hu.2⟩
  -- all units lie in the channel, so the sums do not wrap
  have htotal := a.total_le hown'
  rw [hsum, hown, List.length_cons, Nat.mul_succ, ← hold.sbrkedMem] at htotal
  have hmem : ((s.mstates av).sbrkedMem + unitSize) % wordSize =
      (s.mstates av).sbrkedMem + unitSize := by
    simp only [wordSize, channelSize] at *
    omega
  have hall : ((s.mstates av).sbrkedMem + unitSize + (s.mstates av).mmappedMem) % wordSize =
      (s.mstates av).sbrkedMem + unitSize + (s.mstates av).mmappedMem := by
    simp only [wordSize, channelSize] at *
    omega
  refine ⟨fun av' hav' => ?_, fun av' hav' => ?_⟩
  · rw [hl.nextMstate] at hav'
    by_cases hne : av' = av
    · subst hne
      refine ⟨?_, ?_, ?_, ?_, ?_, ?_, ?_⟩
      all_goals simp only [hcounts, countSbrked, hmem, hall]
      · rw [hunits, hold.nMmaps]
      · exact hsum.symm
      · rw [hold.sbrkedMem, List.length_cons, Nat.mul_succ]
      · exact hold.maxNMmaps
      · exact hold.maxMmappedMem
      · exact le_max_right _ _
      · rw [Nat.add_comm]
        exact le_max_right _ _
    · exact hc.others hl hav' (hothers av' hne) (fun hcon => hne (hcon.symm.trans hnew.1))
  · rw [hl.nextMstate] at hav'
    by_cases hne : av' = av
    · rw [hne]
      exact hown'
    · exact hc.own_grown hl hav' (by rw [hothers av' hne])

/-! ### Giving a unit back -/

/-- A mapped unit is given back, and all of it is taken off the counts. -/
theorem Counted.unmapped (hc : Counted s) (a : Arena m₀ s h) (ops : KernelOps K) (pid addr : Nat)
    {u : Nat} (hu : u ∈ s.ustateList) (hbase : h.base u = 0)
    (hav : (s.units u).unitAv < s.nextMstate) :
    Counted (s.unmapUnit ops pid u addr (s.units u).length) := by
  set s' := s.unmapUnit ops pid u addr (s.units u).length with hs'
  set av := (s.units u).unitAv with hdef
  have hmine : s'.mstates av =
      { s.mstates av with
        nMmaps := (s.mstates av).nMmaps - 1
        mmappedMem := ((s.mstates av).mmappedMem +
          (wordSize - (s.units u).length % wordSize)) % wordSize } := Function.update_self ..
  have hothers : ∀ av' ≠ av, s'.mstates av' = s.mstates av' :=
    fun av' hne => Function.update_of_ne hne _ _
  have hlists : ∀ av', (s'.mstates av').ustateList = (s.mstates av').ustateList := by
    intro av'
    by_cases hne : av' = av
    · rw [hne, hmine]
    · rw [hothers av' hne]
  -- a unit that was mapped is on no list of sbrk units
  have hnot : ∀ av' < s.nextMstate, u ∉ (s.mstates av').ustateList := by
    intro av' hav' hcon
    have hlength := ((hc.own av' hav').2 u hcon).2
    have hlarge := (a.lone u hu hbase).large
    omega
  have hunits : ∀ av', mappedUnits s' av' = (mappedUnits s av').erase u := by
    intro av'
    have hlist : s'.ustateList = s.ustateList.filter (· != u) := a.nodup.erase_eq_filter u
    unfold mappedUnits
    rw [(a.nodup.filter _).erase_eq_filter, List.filter_filter, hlist, List.filter_filter]
    refine List.filter_congr fun v _ => ?_
    rw [Bool.and_comm]
    simp only [hlists]
    rfl
  have hold := hc.counts av hav
  have hmem : u ∈ mappedUnits s av := List.mem_filter.mpr ⟨hu, decide_eq_true ⟨rfl, hnot av hav⟩⟩
  have hsum : (s.units u).length +
      (((mappedUnits s av).erase u).map fun v => (s.units v).length).sum =
        (s.mstates av).mmappedMem := by
    rw [hold.mmappedMem]
    exact List.sum_map_erase (fun v => (s.units v).length) hmem
  -- nor does the difference wrap
  have htotal := a.total_le (hc.own av hav)
  rw [← hold.mmappedMem] at htotal
  have hback : ((s.mstates av).mmappedMem + (wordSize - (s.units u).length % wordSize)) % wordSize =
      (((mappedUnits s av).erase u).map fun v => (s.units v).length).sum := by
    simp only [wordSize, channelSize] at *
    omega
  rw [hback] at hmine
  refine ⟨fun av' hav' => ?_, fun av' hav' => ?_⟩
  · by_cases hne : av' = av
    · have hcount := List.length_erase_of_mem hmem
      have hpos := List.length_pos_of_mem hmem
      have hn := hold.nMmaps
      have hmaxn := hold.maxNMmaps
      have hmaxmem := hold.maxMmappedMem
      have hmaxtotal := hold.maxTotalMem
      rw [hne]
      refine ⟨?_, ?_, ?_, ?_, ?_, ?_, ?_⟩
      all_goals simp only [hmine]
      · rw [hunits]
        omega
      · rw [hunits]
        rfl
      · exact hold.sbrkedMem
      · omega
      · omega
      · exact hold.maxSbrkedMem
      · omega
    · refine (hc.counts av' hav').congr ?_ (fun _ _ => rfl) (by rw [hothers av' hne])
      rw [hunits, List.erase_of_not_mem]
      intro hcon
      exact hne (decide_eq_true_eq.mp (List.mem_filter.mp hcon).2).1.symm
  · rw [hlists]
    refine ⟨(hc.own av' hav').1, fun v hv => ?_⟩
    have hvu : v ≠ u := fun heq => hnot av' hav' (heq ▸ hv)
    have hv := (hc.own av' hav').2 v hv
    exact ⟨(List.mem_erase_of_ne hvu).mpr hv.1, hv.2⟩

end

end ArbiterThread
