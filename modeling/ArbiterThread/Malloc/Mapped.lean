import ArbiterThread.Malloc.Fresh
import ArbiterThread.Malloc.Placement

/-!
# Runs of Large Requests

Sequences of large requests and releases, with clients writing to their blocks
in between. Every request gets a unit of its own, so nothing is ever cut into
chunks, and the whole heap is the list of mapped units.

The list stays in order, and holds exactly the units of the live blocks, as
long as no request is placed above the highest unit. One that is either stops
the arbiter in `insert_mmapped_unit`, or is not put on the list at all when it
lies directly behind the highest unit.

## Main definitions

* `Idle`: A `malloc_state` from which nothing was ever cut or released.
* `MappedUnit`, `OnlyMapped`: The units and states of such a run.
* `Block`: A live block, with the size it was requested with.
* `LargeOk`: A large request, not placed above the highest unit.
* `MappedRun`: The runs.
* `ListOk`: What is to be shown of `mmapped_ustate_list`.

## Theorems

* `OnlyMapped.ablibMalloc`, `OnlyMapped.ablibFree`: The two calls.
* `mmapped_list_ok`: The list in every state reached, and at every next call.
-/

namespace ArbiterThread

open Exec

variable {K : Type}

/-- A `malloc_state` from which nothing was ever cut or released. -/
structure Idle (m : Mstate) : Prop where
  maxFast : m.maxFast = 72
  units : m.ustateList = []
  pagesize : m.pagesize = 4096
  threshold : m.mmapThreshold = unitSize

/-- A mapped unit of a run in which `n` `malloc_state`s were made before: where
    it lies, and what is in front of its block. -/
structure MappedUnit (s : State K) (n u : Nat) : Prop where
  made : u < s.nextUnit
  av : (s.units u).unitAv < n
  idle : Idle (s.mstates (s.units u).unitAv)
  aligned : (s.units u).addr % 4096 = 0
  whole : (s.units u).length % 4096 = 0
  large : unitSize < (s.units u).length
  stop : (s.units u).stop ≤ channelEnd
  lower : privateBase ≤ (s.units u).addr
  there : (s.units u).addr + 8 ≤ privateBase + mstateStride * n ∨ channelAddr ≤ (s.units u).addr
  offset : s.mem.load32 (s.units u).addr = 0
  head : s.mem.load32 ((s.units u).addr + 4) = (s.units u).length + 2

/-- A state in which all units are mapped ones. -/
structure OnlyMapped (s : State K) (n : Nat) : Prop where
  elsewhere : ∀ a, s.elsewhere a = false
  limit : s.nextMstate ≤ mstateLimit
  bound : n ≤ s.nextMstate
  idle : ∀ av ∈ s.mstateList, av < n ∧ Idle (s.mstates av)
  start : s.mstateList = [] → s.mmappedUstateList = []
  listed : s.ustateList.Perm s.mmappedUstateList
  nodup : s.mmappedUstateList.Nodup
  unit : ∀ u ∈ s.mmappedUstateList, MappedUnit s n u
  sorted : Sorted s.units s.mmappedUstateList

/-- The units and their lists are the same. -/
structure SameUnits (s s' : State K) : Prop where
  units : s'.units = s.units
  nextUnit : s'.nextUnit = s.nextUnit
  ustateList : s'.ustateList = s.ustateList
  mmapped : s'.mmappedUstateList = s.mmappedUstateList

/-- A change of other parts of the state: units only lean on their headers and
    on `malloc_state`s that are there. -/
theorem OnlyMapped.congr {s s' : State K} {n n' : Nat} (h : OnlyMapped s n) (hsame : SameUnits s s')
    (helse : s'.elsewhere = s.elsewhere) (hlimit : s'.nextMstate ≤ mstateLimit)
    (hbound : n' ≤ s'.nextMstate) (hn : n ≤ n')
    (hidle : ∀ av ∈ s'.mstateList, av < n' ∧ Idle (s'.mstates av))
    (hstart : s'.mstateList = [] → s.mstateList = [])
    (hmstates : ∀ av < n, Idle (s.mstates av) → Idle (s'.mstates av))
    (hmem : ∀ u ∈ s.mmappedUstateList, s.mem.Agree s'.mem (s.units u).addr ((s.units u).addr + 8)) :
    OnlyMapped s' n' := by
  refine ⟨fun a => by rw [helse, h.elsewhere], hlimit, hbound, hidle, ?_, ?_, ?_, ?_, ?_⟩
  · rw [hsame.mmapped]
    exact fun hnil => h.start (hstart hnil)
  · rw [hsame.ustateList, hsame.mmapped]
    exact h.listed
  · rw [hsame.mmapped]
    exact h.nodup
  · rw [hsame.mmapped]
    intro u hu
    have hunit := h.unit u hu
    have hagree := hmem u hu
    refine ⟨?_, ?_, ?_, ?_, ?_, ?_, ?_, ?_, ?_, ?_, ?_⟩
    · rw [hsame.nextUnit]
      exact hunit.made
    all_goals rw [hsame.units]
    · exact hunit.av.trans_le hn
    · exact hmstates _ hunit.av hunit.idle
    · exact hunit.aligned
    · exact hunit.whole
    · exact hunit.large
    · exact hunit.stop
    · exact hunit.lower
    · refine hunit.there.imp_left (fun hle => hle.trans ?_)
      exact Nat.add_le_add_left (Nat.mul_le_mul_left _ hn) _
    · rw [Mem.load32_congr (fun x hlo hhi => hagree x hlo (by omega))]
      exact hunit.offset
    · rw [Mem.load32_congr (fun x hlo hhi => hagree x (by omega) (by omega))]
      exact hunit.head
  · rw [hsame.units, hsame.mmapped]
    exact h.sorted

/-! ### A request up to `__malloc_alloc` -/

/-- The state in which a large request gets to `__malloc_alloc`: for a label
    that is known nothing has happened but the lock, and otherwise a
    `malloc_state` was made for it. -/
structure Reached (s : State K) (av : Nat) (s' : State K) : Prop where
  same : SameUnits s s'
  kern : s'.kern = s.kern
  clients : s'.clients = s.clients
  locked : s'.locked = true
  only : OnlyMapped s' s'.nextMstate
  idle : Idle (s'.mstates av)
  av : av ∈ s'.mstateList

theorem mallocServe_idle {s : State K} {av : Nat} (hidle : Idle (s.mstates av)) (nb : Nat)
    (L : Label) {Q : Option Nat → State K → Prop} {E : Fault → State K → Prop} (hQ : Q none s) :
    wp (mallocServe av nb L) Q E s := by
  have hany : ¬ haveAnychunks (s.mstates av) := by
    unfold haveAnychunks
    rw [hidle.maxFast]
    decide
  have hused : (s.mstates av).maxFast ≠ 0 := by
    rw [hidle.maxFast]
    decide
  rw [mallocServe, wp_bind, wp_getMstate, if_neg hany, if_neg hused, wp_bind, wp_pure, mallocTop,
    wp_bind, wp_getMstate, hidle.units]
  exact (wp_pure ..).mpr hQ

theorem mallocServe_fresh {s : State K} {av : Nat} (hfresh : s.mstates av = Mstate.zero)
    (hav : av < s.nextMstate) (hlimit : s.nextMstate ≤ mstateLimit) (nb : Nat) (L : Label)
    {Q : Option Nat → State K → Prop} {E : Fault → State K → Prop}
    (hQ : Q none { s.prepared av with
      mstates := Function.update s.mstates av { Mstate.zero.init with label := L } }) :
    wp (mallocServe av nb L) Q E s := by
  have hany : ¬ haveAnychunks (s.mstates av) := by
    rw [hfresh]
    decide
  have hzero : (s.mstates av).maxFast = 0 := by rw [hfresh]; rfl
  rw [mallocServe, wp_bind, wp_getMstate, if_neg hany, if_pos hzero, wp_bind, wp_bind]
  refine wp_mallocConsolidate_fresh hzero hav hlimit ?_
  rw [setMstate, wp_modify, mallocTop, wp_bind, wp_getMstate]
  simp only [State.prepared, hfresh, Function.update_self, Function.update_idem] at hQ ⊢
  exact (wp_pure ..).mpr hQ

/-- Clearing the heap for the first `malloc_state` finds no units. -/
theorem OnlyMapped.cleared {s : State K} {n : Nat} (h : OnlyMapped s n) :
    SameUnits s s.cleared ∧ ∀ u ∈ s.mmappedUstateList, s.cleared.mem = s.mem := by
  unfold State.cleared
  split
  · rename_i hnil
    have hmm := h.start hnil
    have hlist : s.ustateList = [] := by
      have := h.listed
      rw [hmm] at this
      exact this.eq_nil
    refine ⟨⟨rfl, rfl, hlist.symm, hmm.symm⟩, ?_⟩
    rw [hmm]
    exact fun u hu => absurd hu List.not_mem_nil
  · exact ⟨⟨rfl, rfl, rfl, rfl⟩, fun _ _ => rfl⟩

/-- A `malloc_state` made and initialised for a label. -/
def State.forLabel (s : State K) (L : Label) : State K :=
  { s.withMstate.prepared s.nextMstate with
    mstates := Function.update s.mstates s.nextMstate { Mstate.zero.init with label := L } }

theorem OnlyMapped.forLabel {s : State K} (h : OnlyMapped s s.nextMstate)
    (hroom : s.nextMstate < mstateLimit) (L : Label) :
    SameUnits s (s.forLabel L) ∧ OnlyMapped (s.forLabel L) (s.nextMstate + 1) := by
  have hnext : (s.forLabel L).nextMstate = s.nextMstate + 1 := s.withMstate.cleared_nextMstate
  -- Neither making the `malloc_state` nor linking its bins touches a unit.
  have hmade : OnlyMapped s.withMstate s.nextMstate := by
    refine h.congr ⟨rfl, rfl, rfl, rfl⟩ rfl hroom (Nat.le_succ _) le_rfl ?_ id ?_ ?_
    · intro av hav
      have hold := h.idle av hav
      refine ⟨hold.1, ?_⟩
      simp only [State.withMstate, Function.update_of_ne hold.1.ne]
      exact hold.2
    · intro av hav hidle
      simpa only [State.withMstate, Function.update_of_ne hav.ne] using hidle
    · intro u hu x hlo hhi
      have hunit := h.unit u hu
      have hthere := hunit.there
      simp only [State.withMstate, Mem.fill]
      rw [if_neg]
      simp only [privateBase, mstateStride, mstateLimit, channelAddr] at *
      omega
  obtain ⟨hclear, hmem⟩ := hmade.cleared
  have hsame : SameUnits s (s.forLabel L) :=
    ⟨hclear.units, hclear.nextUnit, hclear.ustateList, hclear.mmapped⟩
  refine ⟨hsame, h.congr hsame ?_ ?_ ?_ (Nat.le_succ _) ?_ ?_ ?_ ?_⟩
  · change s.withMstate.cleared.elsewhere = s.elsewhere
    unfold State.cleared
    split <;> rfl
  · rw [hnext]
    exact hroom
  · rw [hnext]
  · intro av hav
    change av ∈ s.mstateList ++ [s.nextMstate] at hav
    rcases List.mem_append.mp hav with hav | hav
    · have hold := h.idle av hav
      refine ⟨Nat.lt_succ_of_lt hold.1, ?_⟩
      simp only [State.forLabel, Function.update_of_ne hold.1.ne]
      exact hold.2
    · rw [List.mem_singleton.mp hav]
      refine ⟨Nat.lt_succ_self _, ?_⟩
      simp only [State.forLabel, Function.update_self]
      exact ⟨rfl, rfl, rfl, rfl⟩
  · intro hnil
    change s.mstateList ++ [s.nextMstate] = [] at hnil
    exact absurd hnil (by simp)
  · intro av hav hidle
    simpa only [State.forLabel, Function.update_of_ne hav.ne] using hidle
  · intro u hu x hlo hhi
    have hthere := (h.unit u hu).there
    change linkBins s.nextMstate _ s.withMstate.cleared.mem x = s.mem x
    have houtside : x < privateBase + mstateStride * s.nextMstate ∨
        privateBase + mstateStride * s.nextMstate + 904 ≤ x := by
      simp only [privateBase, mstateStride, mstateLimit, channelAddr] at *
      omega
    rw [linkBins_apply bins_lt _ houtside, hmem u hu]
    simp only [State.withMstate, Mem.fill]
    rw [if_neg (by omega)]

/-- Clearing the heap leaves the rest of the state alone. -/
theorem State.cleared_rest (s : State K) :
    s.cleared.kern = s.kern ∧ s.cleared.clients = s.clients ∧ s.cleared.locked = s.locked := by
  unfold State.cleared
  split
  · exact ⟨rfl, rfl, rfl⟩
  · exact ⟨rfl, rfl, rfl⟩

theorem OnlyMapped.reached_forLabel {s : State K} (h : OnlyMapped s s.nextMstate)
    (hlocked : s.locked = true) (hroom : s.nextMstate < mstateLimit) (L : Label) :
    Reached s s.nextMstate (s.forLabel L) := by
  obtain ⟨hsame, honly⟩ := h.forLabel hroom L
  obtain ⟨hkern, hclients, hlock⟩ := s.withMstate.cleared_rest
  have hnext : (s.forLabel L).nextMstate = s.nextMstate + 1 := s.withMstate.cleared_nextMstate
  have hmem : s.nextMstate ∈ (s.forLabel L).mstateList :=
    List.mem_append_right _ (List.mem_singleton_self _)
  refine ⟨hsame, hkern, hclients, hlock.trans hlocked, ?_, (honly.idle _ hmem).2, hmem⟩
  rw [hnext]
  exact honly

theorem OnlyMapped.setLocked {s : State K} {n : Nat} (h : OnlyMapped s n) (b : Bool) :
    OnlyMapped { s with locked := b } n :=
  h.congr ⟨rfl, rfl, rfl, rfl⟩ rfl h.limit h.bound le_rfl h.idle id (fun _ _ hi => hi)
    (fun _ _ _ _ _ => rfl)

theorem SameUnits.trans {s t r : State K} (h : SameUnits s t) (h' : SameUnits t r) :
    SameUnits s r :=
  ⟨h'.units.trans h.units, h'.nextUnit.trans h.nextUnit, h'.ustateList.trans h.ustateList,
    h'.mmapped.trans h.mmapped⟩

/-- A request for a large block up to `__malloc_alloc`. -/
theorem OnlyMapped.reach {s : State K} (h : OnlyMapped s s.nextMstate) (nb : Nat) (L : Label) :
    wp (mallocEnter (s.mstateList.find? fun m => decide ((s.mstates m).label = L)))
      (fun av s₁ => wp (mallocServe av nb L) (fun found s' => found = none ∧ Reached s av s')
        (fun _ s' => SameUnits s s') s₁)
      (fun _ s' => SameUnits s s') s := by
  unfold mallocEnter
  rw [wp_bind, wp_mallocLock]
  split
  · exact ⟨rfl, rfl, rfl, rfl⟩
  have hsame : SameUnits s { s with locked := true } := ⟨rfl, rfl, rfl, rfl⟩
  have h' := h.setLocked true
  generalize ht : ({ s with locked := true } : State K) = t at hsame h'
  have hmstates : t.mstates = s.mstates := by rw [← ht]
  have hlist : t.mstateList = s.mstateList := by rw [← ht]
  have hrest : t.kern = s.kern ∧ t.clients = s.clients ∧ t.locked = true ∧
      t.nextMstate = s.nextMstate := by
    rw [← ht]
    exact ⟨rfl, rfl, rfl, rfl⟩
  rw [← hrest.2.2.2] at h'
  -- What holds relative to the locked state holds relative to the first one.
  have hreached : ∀ av s', Reached t av s' → Reached s av s' := fun av s' hr =>
    ⟨hsame.trans hr.same, hr.kern.trans hrest.1, hr.clients.trans hrest.2.1, hr.locked, hr.only,
      hr.idle, hr.av⟩
  cases hfind : s.mstateList.find? fun m => decide ((s.mstates m).label = L) with
  | some av =>
    have hav := List.mem_of_find?_eq_some hfind
    rw [← hlist] at hav
    have hidle := (h'.idle av hav).2
    rw [wp_pure]
    refine mallocServe_idle hidle nb L ⟨rfl, hreached av t ?_⟩
    exact ⟨⟨rfl, rfl, rfl, rfl⟩, rfl, rfl, hrest.2.2.1, h', hidle, hav⟩
  | none =>
    rw [wp_newMstate]
    split
    · rename_i hroom
      have hlimit : t.withMstate.nextMstate ≤ mstateLimit := hroom
      refine mallocServe_fresh (Function.update_self ..) (Nat.lt_succ_self _) hlimit nb L
        ⟨rfl, hreached _ _ ?_⟩
      have hfor := h'.reached_forLabel hrest.2.2.1 hroom L
      simp only [State.withMstate, Function.update_idem]
      exact hfor
    · exact hsame

/-! ### The mmap branch -/

/-- The state with one more mapped unit, at `mm`, between those below and above
    it. -/
def State.mapUnit (s : State K) (mm size av : Nat) (list : List Nat) (kern : K) : State K :=
  { s.addMapped mm size av kern with
    mmappedUstateList := list
    mstates := Function.update s.mstates av (countMmapped size (s.mstates av)) }

theorem OnlyMapped.addMapped_units {s : State K} {n : Nat} (h : OnlyMapped s n)
    (mm size av : Nat) (kern : K) :
    ∀ u ∈ s.mmappedUstateList, (s.addMapped mm size av kern).units u = s.units u := by
  intro u hu
  exact Function.update_of_ne (h.unit u hu).made.ne _ _

/-- Where a new unit may be put. -/
structure FreeArea (s : State K) (mm size : Nat) (below above : List Nat) : Prop where
  list : s.mmappedUstateList = below ++ above
  below : ∀ u ∈ below, (s.units u).stop < mm
  above : ∀ u ∈ above, mm + size ≤ (s.units u).addr
  stop : mm + size ≤ channelEnd
  lower : privateBase ≤ mm
  there : mm + 8 ≤ privateBase + mstateStride * s.nextMstate ∨ channelAddr ≤ mm
  aligned : mm % 4096 = 0

theorem OnlyMapped.mapUnit {s : State K} (h : OnlyMapped s s.nextMstate) {mm size av : Nat}
    {below above : List Nat} (hfree : FreeArea s mm size below above)
    (hav : av ∈ s.mstateList) (hsize : size % 4096 = 0) (hlarge : unitSize < size) (kern : K) :
    OnlyMapped (s.mapUnit mm size av (below ++ s.nextUnit :: above) kern) s.nextMstate := by
  have hnew : s.nextUnit ∉ s.mmappedUstateList := fun hmem =>
    absurd (h.unit _ hmem).made (lt_irrefl _)
  have hold : ∀ u ∈ s.mmappedUstateList,
      (s.mapUnit mm size av (below ++ s.nextUnit :: above) kern).units u = s.units u :=
    h.addMapped_units mm size av kern
  have hself : (s.mapUnit mm size av (below ++ s.nextUnit :: above) kern).units s.nextUnit =
      { unitTop := mm, addr := mm, length := size, unitAv := av } := Function.update_self ..
  -- Counting the unit leaves a `malloc_state` idle.
  have hidle : ∀ a, Idle (s.mstates a) →
      Idle ((s.mapUnit mm size av (below ++ s.nextUnit :: above) kern).mstates a) := by
    intro a ha
    simp only [State.mapUnit]
    by_cases haav : a = av
    · rw [haav, Function.update_self]
      rw [haav] at ha
      exact ⟨ha.maxFast, ha.units, ha.pagesize, ha.threshold⟩
    · rwa [Function.update_of_ne haav]
  refine ⟨h.elsewhere, h.limit, le_rfl, ?_, ?_, ?_, ?_, ?_, ?_⟩
  · exact fun a ha => ⟨(h.idle a ha).1, hidle a (h.idle a ha).2⟩
  · exact fun hnil => absurd hav (by rw [show s.mstateList = [] from hnil]; simp)
  · change (s.nextUnit :: s.ustateList).Perm (below ++ s.nextUnit :: above)
    refine (List.Perm.cons _ ?_).trans List.perm_middle.symm
    rw [← hfree.list]
    exact h.listed
  · change (below ++ s.nextUnit :: above).Nodup
    rw [List.nodup_middle, List.nodup_cons, ← hfree.list]
    exact ⟨hnew, h.nodup⟩
  · intro u hu
    change u ∈ below ++ s.nextUnit :: above at hu
    have hsize8 : 8 ≤ size := by
      unfold unitSize at hlarge
      omega
    rcases List.mem_cons.mp (List.perm_middle.mem_iff.mp hu) with rfl | hu
    · refine ⟨Nat.lt_succ_self _, ?_, ?_, ?_, ?_, ?_, ?_, ?_, ?_, ?_, ?_⟩
      all_goals rw [hself]
      · exact (h.idle av hav).1
      · exact hidle av (h.idle av hav).2
      · exact hfree.aligned
      · exact hsize
      · exact hlarge
      · exact hfree.stop
      · exact hfree.lower
      · exact hfree.there
      · change ((s.mem.store32 mm 0).store32 (mm + 4) (withMmapped size)).load32 mm = 0
        rw [Mem.load32_store32_of_disjoint _ _ _ _ (Or.inl le_rfl),
          Mem.load32_store32_self _ _ _ (by decide)]
      · change ((s.mem.store32 mm 0).store32 (mm + 4) (withMmapped size)).load32 (mm + 4) = size + 2
        have hstop := hfree.stop
        have hhead : withMmapped size = size + 2 := by
          unfold withMmapped
          omega
        rw [hhead, Mem.load32_store32_self]
        unfold channelEnd channelAddr channelSize at hstop
        omega
    · rw [← hfree.list] at hu
      have hunit := h.unit u hu
      have hlen := hunit.large
      have hapart : (s.units u).addr + 8 ≤ mm ∨ mm + 8 ≤ (s.units u).addr := by
        rw [hfree.list] at hu
        rcases List.mem_append.mp hu with hu | hu
        · have := hfree.below u hu
          unfold Ustate.stop unitSize at *
          omega
        · have := hfree.above u hu
          omega
      have hmem : ∀ a, (a = (s.units u).addr ∨ a = (s.units u).addr + 4) →
          ((s.mem.store32 mm 0).store32 (mm + 4) (withMmapped size)).load32 a =
            s.mem.load32 a := by
        intro a ha
        rw [Mem.load32_store32_of_disjoint _ _ _ _ (by omega),
          Mem.load32_store32_of_disjoint _ _ _ _ (by omega)]
      refine ⟨Nat.lt_succ_of_lt hunit.made, ?_, ?_, ?_, ?_, ?_, ?_, ?_, ?_, ?_, ?_⟩
      all_goals rw [hold u hu]
      · exact hunit.av
      · exact hidle _ hunit.idle
      · exact hunit.aligned
      · exact hunit.whole
      · exact hunit.large
      · exact hunit.stop
      · exact hunit.lower
      · exact hunit.there
      · exact (hmem _ (Or.inl rfl)).trans hunit.offset
      · exact (hmem _ (Or.inr rfl)).trans hunit.head
  · have hsorted := h.sorted
    rw [hfree.list] at hsorted
    rw [hfree.list] at hold
    refine (hsorted.congr hold).insert ?_ ?_
    · intro u hu
      rw [hold u (List.mem_append_left _ hu), hself]
      exact (hfree.below u hu).le
    · intro u hu
      rw [hold u (List.mem_append_right _ hu), hself]
      exact hfree.above u hu

/-- The size of the area for a request that takes the mmap branch. -/
theorem mmapSize_of_takes {s : State K} {av nb : Nat} (hpage : (s.mstates av).pagesize = 4096)
    (hunit : (s.mstates av).mmapThreshold = unitSize) (htakes : TakesMmap s av nb) :
    mmapSize (s.mstates av) nb % 4096 = 0 ∧ unitSize < mmapSize (s.mstates av) nb ∧
      mmapSize (s.mstates av) nb < wordSize ∧ nb + 11 ≤ mmapSize (s.mstates av) nb := by
  have hthreshold := htakes.1
  have hlt := htakes.2.2.1
  rw [hunit] at hthreshold
  simp only [mmapSize, hpage] at hlt ⊢
  simp only [unitSize, wordSize] at *
  omega

/-- The mmap branch for a request that is not placed above the highest unit. It
    stops before it touches the lists, or the unit is where it belongs. -/
theorem OnlyMapped.mallocMmap (ops : KernelOps K) (pid : Nat) {nb av : Nat} (L : Label)
    {s : State K} (h : OnlyMapped s s.nextMstate) (hav : av ∈ s.mstateList)
    (htakes : TakesMmap s av nb)
    (hins : Insertable s.units s.mmappedUstateList (mmapSize (s.mstates av) nb)) :
    wp (mallocMmap ops pid nb av L)
      (fun r s' => ∃ mm below above kern, r = some (mm + 8) ∧
        FreeArea s mm (mmapSize (s.mstates av) nb) below above ∧ (below ≠ [] → above ≠ []) ∧
        s' = s.mapUnit mm (mmapSize (s.mstates av) nb) av (below ++ s.nextUnit :: above) kern)
      (fun e s' => e = .killed ∧ ¬ TasksLive ops pid s ∨ SameUnits s s') s := by
  have hidle := (h.idle av hav).2
  obtain ⟨hpages, hlarge, hword, -⟩ := mmapSize_of_takes hidle.pagesize hidle.threshold htakes
  generalize hsize : mmapSize (s.mstates av) nb = size at *
  have hpos : 0 < size := by omega
  have haligned := getUnmappedArea_aligned s.units s.mmappedUstateList
    (fun u hu => (h.unit u hu).aligned) hpages hpos hword
  have hsplit := getUnmappedArea_split s.units s.mmappedUstateList size h.sorted
    (fun u hu => (h.unit u hu).stop) hpos hword hins
  generalize hmm : getUnmappedArea s.units s.mmappedUstateList size = mm at *
  refine wp_mallocMmap_of ops pid nb av L htakes hsize.symm hmm.symm (by omega) ?_ ?_ ?_ ?_
  · exact fun m _ => .inr ⟨rfl, rfl, rfl, rfl⟩
  · exact fun m k _ => .inr ⟨rfl, rfl, rfl, rfl⟩
  · exact fun hkilled _ => .inl ⟨rfl, hkilled⟩
  intro hlow hhigh
  -- A header that can be written is in the heap or in a `malloc_state`.
  simp only [mapped, h.elsewhere, Bool.false_eq_true, or_false] at hlow hhigh
  have hlimit := h.limit
  rcases hsplit with hzero | hbeyond | ⟨hstop, below, above, hlist, hne, hbelow, habove⟩
  · simp only [privateBase, mstateStride, channelAddr, channelSize] at *
    omega
  · simp only [privateBase, mstateStride, mstateLimit, channelEnd, channelAddr, channelSize] at *
    omega
  have hfree : FreeArea s mm size below above := by
    refine ⟨hlist, hbelow, habove, hstop, ?_, ?_, haligned⟩
    all_goals
      simp only [privateBase, mstateStride, mstateLimit, channelEnd, channelAddr, channelSize] at *
      omega
  have hmem : chunk2mem mm = mm + 8 := by
    simp only [chunk2mem, wordSize, channelEnd, channelAddr, channelSize] at *
    omega
  have hold := h.addMapped_units mm size av (ops.absysMmap s.kern pid mm size .protRW).2
  rw [hlist] at hold
  have hself : ((s.addMapped mm size av (ops.absysMmap s.kern pid mm size .protRW).2).units
      s.nextUnit).addr = mm := by
    simp only [State.addMapped, State.addUnit, Function.update_self]
  have hlist' : State.mmappedUstateList (s.addMapped mm size av
      (ops.absysMmap s.kern pid mm size .protRW).2) = below ++ above := hlist
  refine wp_insertMmappedUnit_split hlist' hne ?_ ?_ ?_ ?_
  · intro u hu
    rw [hold u hu]
    have hend := (h.unit u (hlist ▸ hu)).stop
    unfold channelEnd channelAddr channelSize at hend
    unfold wordSize
    omega
  · intro u hu
    rw [hold u (List.mem_append_left _ hu), hself]
    exact hbelow u hu
  · intro u hu
    rw [hold u (List.mem_append_right _ hu), hself]
    have := habove u hu
    omega
  · exact fun k => ⟨mm, below, above, k, by rw [hmem], hfree, hne, rfl⟩

/-! ### The calls -/

/-- The request is for a block in range, takes the mmap branch, and is not placed
    above the highest unit. -/
def LargeOk (bytes : Nat) (L : Label) (s : State K) : Prop :=
  (bytes ≠ 0 ∧ ¬ requestOutOfRange bytes) ∧
    AtAlloc bytes L
      (fun av s' => TakesMmap s' av (request2size bytes) ∧
        Insertable s'.units s'.mmappedUstateList (mmapSize (s'.mstates av) (request2size bytes))) s

instance (bytes : Nat) (L : Label) (s : State K) : Decidable (LargeOk bytes L s) := by
  unfold LargeOk
  infer_instance

/-- What a request adds: a unit in a free area, with the block in it. -/
structure Gained (s : State K) (mem bytes : Nat) (below above : List Nat) (s' : State K) :
    Prop where
  only : OnlyMapped s' s'.nextMstate
  unlocked : s'.locked = false
  list : s.mmappedUstateList = below ++ above
  list' : s'.mmappedUstateList = below ++ s.nextUnit :: above
  nonempty : below ≠ [] → above ≠ []
  old : ∀ u ∈ s.mmappedUstateList, s'.units u = s.units u
  gap : ∀ u ∈ below, (s'.units u).stop < (s'.units s.nextUnit).addr
  block : mem = (s'.units s.nextUnit).addr + 8
  room : mem + bytes ≤ (s'.units s.nextUnit).stop

theorem OnlyMapped.ablibMalloc (ops : KernelOps K) (pid bytes : Nat) (L : Label) {s : State K}
    (h : OnlyMapped s s.nextMstate) (hok : LargeOk bytes L s) :
    wp (ablibMalloc ops pid bytes L)
      (fun mem s' => ∃ below above, Gained s mem bytes below above s')
      (fun e s' => e = .killed ∧ ¬ TasksLive ops pid s ∨ SameUnits s s') s := by
  obtain ⟨⟨hbytes, hrange⟩, halloc⟩ := hok
  rw [atAlloc_iff] at halloc
  change wp (ablibMallocStep ops (ablibMallocStep ops (ablibMallocAux ops 0)) pid bytes L) _ _ s
  simp only [ablibMallocStep, lookupMstateByLabel, wp_bind, wp_get, wp_pure, hbytes, hrange,
    if_false]
  refine wp_mono (wp_and (h.reach (request2size bytes) L) halloc) (fun av s₁ h₁ => ?_)
    (fun _ _ h => .inr h.1)
  rw [mallocBody, wp_bind]
  refine wp_mono (wp_and h₁.1 h₁.2) (fun found s₂ h₂ => ?_) (fun _ _ h => .inr h.1)
  obtain ⟨⟨rfl, hr⟩, hcond⟩ := h₂
  obtain ⟨htakes, hins⟩ := hcond rfl
  have hnofast : ¬ haveFastchunks (s₂.mstates av) := by
    -- no unit has fastbins in use, so nothing is merged first
    unfold haveFastchunks
    rw [hr.idle.maxFast]
    decide
  rw [mallocAlloc, wp_bind, wp_getMstate, if_neg hnofast, wp_bind]
  refine wp_mono (hr.only.mallocMmap ops pid L hr.av htakes hins) (fun r s₃ h₃ => ?_)
    (fun _ _ h => h.imp (fun hkilled => ⟨hkilled.1, ?_⟩) hr.same.trans)
  case refine_2 =>
    have hdead := hkilled.2
    unfold TasksLive at hdead
    rwa [hr.kern, hr.clients] at hdead
  obtain ⟨mm, below, above, kern, rfl, hfree, hne, rfl⟩ := h₃
  obtain ⟨hpages, hlarge, -, hroom⟩ :=
    mmapSize_of_takes hr.idle.pagesize hr.idle.threshold htakes
  have honly := (hr.only.mapUnit hfree hr.av hpages hlarge kern).setLocked false
  have hlock : (s₂.mapUnit mm (mmapSize (s₂.mstates av) (request2size bytes)) av
    (below ++ s₂.nextUnit :: above) kern).locked = true := hr.locked
  rw [wp_pure, wp_mallocUnlock, if_pos hlock]
  refine ⟨below, above, honly, rfl, ?_, ?_, hne, ?_, ?_, ?_, ?_⟩
  · rw [← hr.same.mmapped]
    exact hfree.list
  · rw [← hr.same.nextUnit]
    rfl
  · intro u hu
    rw [← hr.same.mmapped] at hu
    rw [← hr.same.units]
    exact hr.only.addMapped_units mm _ av kern u hu
  · intro u hu
    have hmem : u ∈ s₂.mmappedUstateList := by
      rw [hfree.list]
      exact List.mem_append_left _ hu
    have hold := hr.only.addMapped_units mm (mmapSize (s₂.mstates av) (request2size bytes)) av kern
      u hmem
    rw [← hr.same.nextUnit]
    simp only [State.mapUnit, hold]
    simp only [State.addMapped, State.addUnit, Function.update_self]
    exact hfree.below u hu
  · rw [← hr.same.nextUnit]
    simp only [State.mapUnit, State.addMapped, State.addUnit, Function.update_self]
  · have hnb : bytes + 4 ≤ request2size bytes := by
      unfold request2size minSize
      split <;> omega
    rw [← hr.same.nextUnit]
    simp only [State.mapUnit, State.addMapped, State.addUnit, Function.update_self, Ustate.stop]
    omega

/-- Every unit is found from the address of its block. -/
theorem OnlyMapped.unitAt {s : State K} {n : Nat} (h : OnlyMapped s n) {u : Nat}
    (hu : u ∈ s.mmappedUstateList) : unitAt s ((s.units u).addr + 8) = some u := by
  have hword : ∀ v ∈ s.mmappedUstateList, ((s.units v).addr + (s.units v).length) % wordSize =
      (s.units v).stop := by
    intro v hv
    have hstop := (h.unit v hv).stop
    unfold Ustate.stop channelEnd channelAddr channelSize at *
    unfold wordSize
    omega
  have hmine : covers (s.units u) ((s.units u).addr + 8) := by
    have hlarge := (h.unit u hu).large
    unfold covers
    rw [hword u hu]
    unfold Ustate.stop unitSize at *
    omega
  have hsome : (s.ustateList.reverse.find? fun v =>
      decide (covers (s.units v) ((s.units u).addr + 8))).isSome := by
    rw [List.find?_isSome]
    exact ⟨u, List.mem_reverse.mpr (h.listed.mem_iff.mpr hu), decide_eq_true hmine⟩
  obtain ⟨v, hv⟩ := Option.isSome_iff_exists.mp hsome
  have hvlist : v ∈ s.mmappedUstateList :=
    h.listed.mem_iff.mp (List.mem_reverse.mp (List.mem_of_find?_eq_some hv))
  have hdec := List.find?_some hv
  have hcov : covers (s.units v) ((s.units u).addr + 8) := of_decide_eq_true hdec
  unfold ArbiterThread.unitAt
  rw [hv]
  -- Two units with one address in common are the same.
  by_contra hne
  have hapart := h.sorted.apart hvlist hu (fun heq => hne (by rw [heq]))
  unfold covers at hcov hmine
  rw [hword v hvlist] at hcov
  rw [hword u hu] at hmine
  omega

/-- The state after a mapped unit was given back: `length` bytes at `addr`. -/
def State.unmapUnit (ops : KernelOps K) (s : State K) (pid u addr length : Nat) : State K :=
  { s with
    mstates := Function.update s.mstates (s.units u).unitAv
      { s.mstates (s.units u).unitAv with
        nMmaps := (s.mstates (s.units u).unitAv).nMmaps - 1
        mmappedMem := ((s.mstates (s.units u).unitAv).mmappedMem +
          (wordSize - length % wordSize)) % wordSize }
    kern := ops.absysMunmap s.kern pid addr (length % wordSize)
    mmappedUstateList := s.mmappedUstateList.erase u
    ustateList := s.ustateList.erase u }

/-- Giving back the unit of a block. A unit that is in no list is a fault. -/
theorem wp_freeMmapped (ops : KernelOps K) (pid : Nat) {s : State K} {u p head : Nat}
    (hmapped : mapped s p) (hlisted : u ∈ s.ustateList)
    {Q : Unit → State K → Prop} {E : Fault → State K → Prop}
    (hkilled : ops.oops s.kern pid = true → ∀ t, E .killed t)
    (hin : u ∈ s.mmappedUstateList ∨ ∀ e s, E e s)
    (hQ : Q () (s.unmapUnit ops pid u (chunkBefore p (s.mem.load32 p))
      (sizeOfHead head + s.mem.load32 p))) :
    wp (freeMmapped ops pid (s.units u).unitAv u p head) Q E s := by
  unfold freeMmapped
  simp only [prevSize, wp_bind, wp_load, setMstate, wp_modify, wp_get, listDelete, wp_ite, wp_pure,
    wp_throw]
  rw [if_pos hmapped]
  refine wp_absys_of (fun _ => ?_) (fun hoops => hkilled hoops _)
  dsimp only
  by_cases hmem : u ∈ s.mmappedUstateList
  · rw [if_pos hmem, if_pos hlisted]
    exact hQ
  · rw [if_neg hmem]
    exact hin.resolve_left hmem _ _

/-- A release up to the point where the three ways part. -/
theorem wp_ablibFree (ops : KernelOps K) (pid : Nat) {s : State K} {mem u p head : Nat}
    (hne : mem ≠ 0) (hat : unitAt s mem = some u) (hp : mem2chunk mem = p)
    (hmapped : mapped s (p + 4)) (hhead : s.mem.load32 (p + 4) = head)
    {Q : Unit → State K → Prop} {E : Fault → State K → Prop}
    (hunlocked : s.locked = false ∨ ∀ e s, E e s)
    (hQ : wp (if sizeOfHead head ≤ (s.mstates (s.units u).unitAv).maxFast then
        freeFast (s.units u).unitAv p (sizeOfHead head)
      else if isMmapped head then freeMmapped ops pid (s.units u).unitAv u p head
      else freeChunk (s.units u).unitAv u p head)
      (fun _ s' => wp mallocUnlock Q E s') E { s with locked := true }) :
    wp (ablibFree ops pid mem) Q E s := by
  unfold ablibFree
  rw [if_neg hne, wp_bind, wp_mallocLock]
  split
  · rename_i hlocked
    exact hunlocked.resolve_left (by rw [hlocked]; decide) _ _
  rw [wp_bind, wp_lookupUstateByMem, show unitAt { s with locked := true } mem = some u from hat]
  simp only [wp_bind, wp_getUnit, headOf, wp_load, hp, wp_getMstate]
  rw [if_pos (show mapped { s with locked := true } (p + 4) from hmapped), hhead]
  exact hQ

/-- A release of a block whose header says that it is mapped. -/
theorem wp_ablibFree_mmapped (ops : KernelOps K) (pid : Nat) {s : State K} {mem u p head : Nat}
    (hne : mem ≠ 0) (hunlocked : s.locked = false) (hat : unitAt s mem = some u)
    (hp : mem2chunk mem = p) (hmapped : mapped s p) (hmapped' : mapped s (p + 4))
    (hhead : s.mem.load32 (p + 4) = head)
    (hbig : ¬ sizeOfHead head ≤ (s.mstates (s.units u).unitAv).maxFast) (hmm : isMmapped head)
    (hin : u ∈ s.mmappedUstateList) (hin' : u ∈ s.ustateList)
    {Q : Unit → State K → Prop} {E : Fault → State K → Prop}
    (hkilled : ops.oops s.kern pid = true → ∀ t, E .killed t)
    (hQ : Q () (s.unmapUnit ops pid u (chunkBefore p (s.mem.load32 p))
      (sizeOfHead head + s.mem.load32 p))) :
    wp (ablibFree ops pid mem) Q E s := by
  refine wp_ablibFree ops pid hne hat hp hmapped' hhead (.inl hunlocked) ?_
  rw [if_neg hbig, if_pos hmm]
  have hthere : mapped { s with locked := true } p := hmapped
  refine wp_freeMmapped ops pid hthere hin' hkilled (.inl hin) ?_
  rw [wp_mallocUnlock, if_pos (show State.locked (State.unmapUnit ..) = true from rfl),
    ← hunlocked]
  exact hQ

/-- The header of a unit can be read. -/
theorem OnlyMapped.mapped {s : State K} (h : OnlyMapped s s.nextMstate) {u a : Nat}
    (hu : u ∈ s.mmappedUstateList) (ha : a = (s.units u).addr ∨ a = (s.units u).addr + 4) :
    mapped s a := by
  have hunit := h.unit u hu
  have hlower := hunit.lower
  have hthere := hunit.there
  have hstop := hunit.stop
  have hlarge := hunit.large
  have hlimit := h.limit
  unfold Ustate.stop at hstop
  simp only [ArbiterThread.mapped, wordSize, privateBase, mstateStride, mstateLimit, channelEnd,
    channelAddr, channelSize, unitSize] at *
  omega

/-- What a release takes away: one unit. -/
structure Lost (s : State K) (u : Nat) (s' : State K) : Prop where
  only : OnlyMapped s' s'.nextMstate
  unlocked : s'.locked = false
  units : s'.units = s.units
  list : s'.mmappedUstateList = s.mmappedUstateList.erase u

/-- The state without a unit. -/
theorem OnlyMapped.drop {s s' : State K} (h : OnlyMapped s s.nextMstate) (u : Nat)
    (hunits : s'.units = s.units) (hnext : s'.nextUnit = s.nextUnit) (hmem : s'.mem = s.mem)
    (helse : s'.elsewhere = s.elsewhere) (hmstates : s'.mstateList = s.mstateList)
    (hnextMstate : s'.nextMstate = s.nextMstate)
    (hidle : ∀ av, Idle (s.mstates av) → Idle (s'.mstates av))
    (hlist : s'.mmappedUstateList = s.mmappedUstateList.erase u)
    (hulist : s'.ustateList = s.ustateList.erase u) : OnlyMapped s' s'.nextMstate := by
  refine ⟨fun a => by rw [helse, h.elsewhere], by rw [hnextMstate]; exact h.limit, le_rfl, ?_, ?_,
    ?_, ?_, ?_, ?_⟩
  -- the lists lose the unit, the records and the memory stay
  · rw [hmstates, hnextMstate]
    exact fun av hav => ⟨(h.idle av hav).1, hidle av (h.idle av hav).2⟩
  · rw [hmstates, hlist]
    intro hnil
    rw [h.start hnil]
    rfl
  · rw [hlist, hulist]
    exact h.listed.erase u
  · rw [hlist]
    exact h.nodup.erase u
  · rw [hlist, hnextMstate]
    intro v hv
    have hunit := h.unit v (List.mem_of_mem_erase hv)
    refine ⟨by rw [hnext]; exact hunit.made, ?_, ?_, ?_, ?_, ?_, ?_, ?_, ?_, ?_, ?_⟩
    all_goals rw [hunits]
    · exact hunit.av
    · exact hidle _ hunit.idle
    · exact hunit.aligned
    · exact hunit.whole
    · exact hunit.large
    · exact hunit.stop
    · exact hunit.lower
    · exact hunit.there
    · rw [hmem]
      exact hunit.offset
    · rw [hmem]
      exact hunit.head
  · rw [hlist, hunits]
    exact h.sorted.sublist List.erase_sublist

theorem OnlyMapped.ablibFree (ops : KernelOps K) (pid : Nat) {s : State K}
    (h : OnlyMapped s s.nextMstate) (hunlocked : s.locked = false) {u : Nat}
    (hu : u ∈ s.mmappedUstateList) :
    wp (ablibFree ops pid ((s.units u).addr + 8)) (fun _ s' => Lost s u s')
      (fun e _ => e = .killed ∧ ops.oops s.kern pid = true) s := by
  have hunit := h.unit u hu
  have hstop := hunit.stop
  have hwhole := hunit.whole
  have hlarge := hunit.large
  have hchunk : mem2chunk ((s.units u).addr + 8) = (s.units u).addr := by
    unfold Ustate.stop at hstop
    simp only [mem2chunk, wordSize, channelEnd, channelAddr, channelSize] at *
    omega
  refine wp_ablibFree_mmapped ops pid (by omega) hunlocked (h.unitAt hu) hchunk
    (h.mapped hu (Or.inl rfl)) (h.mapped hu (Or.inr rfl)) hunit.head ?_ ?_ hu
    (h.listed.mem_iff.mpr hu) (fun hoops _ => ⟨rfl, hoops⟩) ?_
  · rw [hunit.idle.maxFast]
    unfold sizeOfHead unitSize at *
    omega
  · unfold isMmapped
    omega
  -- the counters of its `malloc_state` change, not what makes it idle
  · refine ⟨h.drop u rfl rfl rfl rfl rfl rfl ?_ rfl rfl, hunlocked, rfl, rfl⟩
    intro av hav
    simp only [State.unmapUnit]
    by_cases heq : av = (s.units u).unitAv
    · rw [heq, Function.update_self]
      rw [heq] at hav
      exact ⟨hav.maxFast, hav.units, hav.pagesize, hav.threshold⟩
    · rwa [Function.update_of_ne heq]

/-! ### Runs -/

/-- A live block: its address, and the bytes that were requested. -/
structure Block where
  mem : Nat
  bytes : Nat

/-- Runs of large requests, releases of their blocks in any order, and writes of
    clients to the bytes they requested. Beside the state they follow the nodes
    of `mmapped_ustate_list` and the live blocks. -/
inductive MappedRun (ops : KernelOps K) : State K → LinkedList Nat → List Block → Prop
  | start (kern : K) (clients : List ClientDesc) :
      MappedRun ops (State.start kern clients) (LinkedList.empty 0) []
  | malloc {s s' : State K} {l l' : LinkedList Nat} {live : List Block} (pid bytes : Nat)
      (L : Label) {mem : Nat} (before : MappedRun ops s l live) (ok : LargeOk bytes L s)
      (call : ablibMalloc ops pid bytes L s = .ok mem s')
      (insert : insertUnit s'.units s.nextUnit l = some l') :
      MappedRun ops s' l' (⟨mem, bytes⟩ :: live)
  | free {s s' : State K} {l l' : LinkedList Nat} {older newer : List Block} (pid : Nat)
      {b : Block} {u : Nat} (before : MappedRun ops s l (newer ++ b :: older))
      (call : ablibFree ops pid b.mem s = .ok () s') (unit : unitAt s b.mem = some u)
      (delete : deleteUnit u l = some l') : MappedRun ops s' l' (newer ++ older)
  | write {s : State K} {l : LinkedList Nat} {live : List Block} (m : Mem)
      (before : MappedRun ops s l live)
      (inside : ∀ x, (∀ b ∈ live, x < b.mem ∨ b.mem + b.bytes ≤ x) → m x = s.mem x) :
      MappedRun ops { s with mem := m } l live

/-- `mmapped_ustate_list` is a well-formed doubly linked list, in strictly
    increasing order of addresses and with disjoint ranges, and consists of the
    units of the live blocks, each once. -/
structure ListOk (s : State K) (l : LinkedList Nat) (live : List Block) : Prop where
  nodes : l.Represents s.mmappedUstateList
  order : s.mmappedUstateList.Pairwise fun u v =>
    (s.units u).addr < (s.units v).addr ∧ (s.units u).stop ≤ (s.units v).addr
  nodup : s.mmappedUstateList.Nodup
  units : s.mmappedUstateList.Perm s.ustateList
  blocks : (s.mmappedUstateList.map fun u => (s.units u).addr + 8).Perm (live.map Block.mem)
  inside : ∀ b ∈ live, ∃ u ∈ s.mmappedUstateList, b.mem = (s.units u).addr + 8 ∧
    b.mem + b.bytes ≤ (s.units u).stop

/-- What holds in every state of a run. -/
structure RunInv (s : State K) (l : LinkedList Nat) (live : List Block) : Prop where
  only : OnlyMapped s s.nextMstate
  unlocked : s.locked = false
  nodes : l.Represents s.mmappedUstateList
  blocks : (s.mmappedUstateList.map fun u => (s.units u).addr + 8).Perm (live.map Block.mem)
  inside : ∀ b ∈ live, ∃ u ∈ s.mmappedUstateList, b.mem = (s.units u).addr + 8 ∧
    b.mem + b.bytes ≤ (s.units u).stop

theorem RunInv.listOk {s : State K} {l : LinkedList Nat} {live : List Block}
    (h : RunInv s l live) : ListOk s l live := by
  refine ⟨h.nodes, ?_, h.only.nodup, h.only.listed.symm, h.blocks, h.inside⟩
  refine List.Pairwise.imp_of_mem (fun {u v} hu hv huv => ⟨?_, huv⟩) h.only.sorted
  have hlarge := (h.only.unit u hu).large
  unfold Ustate.stop at huv
  omega

theorem runInv_start (kern : K) (clients : List ClientDesc) :
    RunInv (State.start kern clients) (LinkedList.empty 0) [] := by
  refine ⟨⟨fun _ => rfl, Nat.zero_le _, le_rfl, ?_, fun _ => rfl, List.Perm.nil, List.nodup_nil, ?_,
    List.Pairwise.nil⟩, rfl, LinkedList.represents_empty 0, List.Perm.nil, ?_⟩
  · exact fun av hav => absurd hav List.not_mem_nil
  · exact fun u hu => absurd hu List.not_mem_nil
  · exact fun b hb => absurd hb List.not_mem_nil

section

variable {s : State K} {l : LinkedList Nat} {live : List Block}

/-- The nodes follow an insertion that finds its place. -/
theorem insertUnit_split {units : Nat → Ustate} {unit : Nat} {below above : List Nat}
    (hrep : l.Represents (below ++ above)) (hne : below ≠ [] → above ≠ [])
    (hend : ∀ u ∈ below ++ above, (units u).stop < wordSize)
    (hbelow : ∀ u ∈ below, (units u).stop < (units unit).addr)
    (habove : ∀ u ∈ above, (units unit).addr < (units u).addr) :
    ∃ l', insertUnit units unit l = some l' ∧ l'.Represents (below ++ unit :: above) := by
  let s : State Unit :=
    { State.start () [] with units := units, mmappedUstateList := below ++ above }
  have hsplit : wp (insertMmappedUnit unit)
      (fun _ s' => s'.mmappedUstateList = below ++ unit :: above)
      (fun _ _ => False) s := wp_insertMmappedUnit_split rfl hne hend hbelow habove rfl
  obtain ⟨_, s', hrun, hlist⟩ := exists_ok hsplit
  obtain ⟨l', hl', hrep'⟩ := wp_run (wp_insertMmappedUnit_nodes unit s hrep) hrun
  exact ⟨l', hl', hlist ▸ hrep'⟩

theorem RunInv.gained (h : RunInv s l live) {mem bytes : Nat} {below above : List Nat}
    {s' : State K} (hg : Gained s mem bytes below above s') :
    ∃ l', insertUnit s'.units s.nextUnit l = some l' ∧ RunInv s' l' (⟨mem, bytes⟩ :: live) := by
  have hunits := hg.only.unit
  have hsorted := hg.only.sorted
  have hrep := h.nodes
  have hold := hg.old
  have hblocks := h.blocks
  rw [hg.list'] at hunits hsorted
  rw [hg.list] at hrep hold hblocks
  -- the nodes of the list do what the list of the state does
  obtain ⟨l', hl', hrep'⟩ : ∃ l', insertUnit s'.units s.nextUnit l = some l' ∧
      l'.Represents (below ++ s.nextUnit :: above) := by
    refine insertUnit_split hrep hg.nonempty ?_ hg.gap ?_
    · intro u hu
      have hstop := (hunits u (List.perm_middle.mem_iff.mpr (List.mem_cons_of_mem _ hu))).stop
      unfold channelEnd channelAddr channelSize at hstop
      unfold wordSize
      omega
    · intro u hu
      have hnew := (hunits s.nextUnit (List.mem_append_right _ List.mem_cons_self)).large
      have hle := (List.pairwise_cons.mp (List.pairwise_append.mp hsorted).2.1).1 u hu
      unfold Ustate.stop at hle
      omega
  refine ⟨l', hl', hg.only, hg.unlocked, by rwa [hg.list'], ?_, ?_⟩
  · have hmap : (below ++ above).map (fun u => (s'.units u).addr + 8) =
        (below ++ above).map fun u => (s.units u).addr + 8 :=
      List.map_congr_left fun u hu => by rw [hold u hu]
    rw [hg.list']
    refine (List.perm_middle.map _).trans ?_
    rw [List.map_cons, List.map_cons, hmap, hg.block]
    exact hblocks.cons _
  · intro b hb
    rw [hg.list']
    rcases List.mem_cons.mp hb with rfl | hb
    · exact ⟨s.nextUnit, List.mem_append_right _ List.mem_cons_self, hg.block, hg.room⟩
    · obtain ⟨u, hu, hmem, hroom⟩ := h.inside b hb
      rw [hg.list] at hu
      refine ⟨u, List.perm_middle.mem_iff.mpr (List.mem_cons_of_mem _ hu), ?_⟩
      rw [hold u hu]
      exact ⟨hmem, hroom⟩

theorem RunInv.nodup (h : RunInv s l live) : (live.map Block.mem).Nodup := by
  rw [← h.blocks.nodup_iff, List.Nodup, List.pairwise_map]
  refine List.Pairwise.imp_of_mem (fun {u v} hu hv huv => ?_) h.only.sorted
  have hlarge := (h.only.unit u hu).large
  unfold Ustate.stop at huv
  omega

theorem RunInv.lost (h : RunInv s l live) {older newer : List Block} {b : Block}
    (hlive : live = newer ++ b :: older) {u : Nat} (hu : u ∈ s.mmappedUstateList)
    (hb : b.mem = (s.units u).addr + 8) {s' : State K} (hlost : Lost s u s') :
    ∃ l', deleteUnit u l = some l' ∧ RunInv s' l' (newer ++ older) := by
  obtain ⟨p, hp, -, hrep⟩ := h.nodes.delete hu
  have hnodup := h.nodup
  have hblocks := h.blocks
  rw [hlive, List.map_append, List.map_cons, List.nodup_middle, List.nodup_cons] at hnodup
  refine ⟨(l.delEntry p).2, ?_, hlost.only, hlost.unlocked, ?_, ?_, ?_⟩
  · simp only [deleteUnit, hp]
  · rwa [hlost.list]
  · rw [hlost.list, hlost.units]
    have hsplit := (List.perm_cons_erase hu).map fun u => (s.units u).addr + 8
    rw [hlive, List.map_append, List.map_cons] at hblocks
    rw [List.map_cons, ← hb] at hsplit
    rw [List.map_append]
    exact (List.perm_cons _).mp (hsplit.symm.trans (hblocks.trans List.perm_middle))
  · intro c hc
    have hmem : c ∈ live := by
      rw [hlive]
      exact List.perm_middle.mem_iff.mpr (List.mem_cons_of_mem _ hc)
    obtain ⟨v, hv, hcv, hroom⟩ := h.inside c hmem
    rw [hlost.list, hlost.units]
    refine ⟨v, ?_, hcv, hroom⟩
    -- The unit of another live block is another unit.
    refine (List.mem_erase_of_ne ?_).mpr hv
    rintro rfl
    refine hnodup.1 ?_
    rw [← List.map_append, hb, ← hcv]
    exact List.mem_map_of_mem hc

/-- Clients cannot reach the headers of units. -/
theorem RunInv.write (h : RunInv s l live) {m : Mem}
    (hm : ∀ x, (∀ b ∈ live, x < b.mem ∨ b.mem + b.bytes ≤ x) → m x = s.mem x) :
    RunInv { s with mem := m } l live := by
  refine ⟨?_, h.unlocked, h.nodes, h.blocks, h.inside⟩
  refine h.only.congr ⟨rfl, rfl, rfl, rfl⟩ rfl h.only.limit le_rfl le_rfl h.only.idle id
    (fun _ _ hi => hi) ?_
  intro u hu x hlo hhi
  refine hm x (fun b hb => ?_)
  obtain ⟨v, hv, hbv, hroom⟩ := h.inside b hb
  by_cases hvu : v = u
  · subst hvu
    omega
  · have hapart := h.only.sorted.apart hv hu hvu
    have hlarge := (h.only.unit u hu).large
    unfold Ustate.stop unitSize at *
    omega

end

theorem runInv_run (ops : KernelOps K) {s : State K} {l : LinkedList Nat} {live : List Block}
    (hrun : MappedRun ops s l live) : RunInv s l live := by
  induction hrun with
  | start kern clients => exact runInv_start kern clients
  | malloc pid bytes L before ok call insert ih =>
    obtain ⟨below, above, hg⟩ := wp_run (ih.only.ablibMalloc ops pid bytes L ok) call
    obtain ⟨l', hl', hinv⟩ := ih.gained hg
    rw [insert] at hl'
    exact Option.some_inj.mp hl' ▸ hinv
  | @free s s' l l' older newer pid b u before call unit delete ih =>
    obtain ⟨v, hv, hbv, -⟩ := ih.inside b (List.mem_append_right _ List.mem_cons_self)
    have hat := ih.only.unitAt hv
    rw [← hbv, unit] at hat
    have huv : u = v := Option.some_inj.mp hat
    subst huv
    rw [hbv] at call
    have hlost := wp_run (ih.only.ablibFree ops pid ih.unlocked hv) call
    obtain ⟨l'', hl'', hinv⟩ := ih.lost rfl hv hbv hlost
    rw [delete] at hl''
    exact Option.some_inj.mp hl'' ▸ hinv
  | write m before inside ih => exact ih.write inside

/-- A request that returns goes on with a run. -/
theorem MappedRun.request {ops : KernelOps K} {s s' : State K} {l : LinkedList Nat}
    {live : List Block} {pid bytes mem : Nat} {L : Label} (hrun : MappedRun ops s l live)
    (hok : LargeOk bytes L s) (hcall : ablibMalloc ops pid bytes L s = .ok mem s') :
    ∃ l', MappedRun ops s' l' (⟨mem, bytes⟩ :: live) := by
  have hinv := runInv_run ops hrun
  obtain ⟨below, above, hg⟩ := wp_run (hinv.only.ablibMalloc ops pid bytes L hok) hcall
  obtain ⟨l', hl', -⟩ := hinv.gained hg
  exact ⟨l', .malloc pid bytes L hrun hok hcall hl'⟩

theorem MappedRun.release {ops : KernelOps K} {s s' : State K} {l : LinkedList Nat}
    {live : List Block} {pid : Nat} (hrun : MappedRun ops s l live) (newer : List Block) (b : Block)
    (older : List Block) (hlive : live = newer ++ b :: older)
    (hcall : ablibFree ops pid b.mem s = .ok () s') :
    ∃ l', MappedRun ops s' l' (newer ++ older) := by
  subst hlive
  have hinv := runInv_run ops hrun
  obtain ⟨u, hu, hbu, -⟩ := hinv.inside b (List.mem_append_right _ List.mem_cons_self)
  have hat := hinv.only.unitAt hu
  have hcall' := hcall
  rw [hbu] at hcall'
  have hlost := wp_run (hinv.only.ablibFree ops pid hinv.unlocked hu) hcall'
  obtain ⟨l', hl', -⟩ := hinv.lost rfl hu hbu hlost
  exact ⟨l', .free pid hrun hcall (by rw [hbu, hat]) hl'⟩

/-- In every run of large requests, releases and writes in which no request is
    placed above the highest unit, `mmapped_ustate_list` is as it should be in
    every state reached. The next such request keeps it so, or stops before it
    touches the lists, and the next release keeps it so and does not stop. The
    kernel may kill the arbiter in a call about a task that is not there. -/
theorem mmapped_list_ok (ops : KernelOps K) {s : State K} {l : LinkedList Nat}
    {live : List Block} (hrun : MappedRun ops s l live) :
    ListOk s l live ∧
    (∀ pid bytes L, LargeOk bytes L s →
      wp (ablibMalloc ops pid bytes L)
        (fun mem s' => ∃ l', insertUnit s'.units s.nextUnit l = some l' ∧
          ListOk s' l' (⟨mem, bytes⟩ :: live))
        (fun e s' => e = .killed ∧ ¬ TasksLive ops pid s ∨
          s'.ustateList = s.ustateList ∧ s'.mmappedUstateList = s.mmappedUstateList) s) ∧
    (∀ pid newer b older, live = newer ++ b :: older →
      wp (ablibFree ops pid b.mem)
        (fun _ s' => ∃ u l', unitAt s b.mem = some u ∧ deleteUnit u l = some l' ∧
          ListOk s' l' (newer ++ older))
        (fun e _ => e = .killed ∧ ops.oops s.kern pid = true) s) := by
  have hinv := runInv_run ops hrun
  refine ⟨hinv.listOk, ?_, ?_⟩
  · intro pid bytes L hok
    refine wp_mono (hinv.only.ablibMalloc ops pid bytes L hok) (fun mem s' h => ?_)
      (fun _ _ h => h.imp_right fun hsame => ⟨hsame.ustateList, hsame.mmapped⟩)
    obtain ⟨below, above, hg⟩ := h
    obtain ⟨l', hl', hinv'⟩ := hinv.gained hg
    exact ⟨l', hl', hinv'.listOk⟩
  · intro pid newer b older hlive
    obtain ⟨u, hu, hbu, -⟩ := hinv.inside b (by rw [hlive]; simp)
    rw [hbu]
    refine wp_imp (hinv.only.ablibFree ops pid hinv.unlocked hu) (fun _ s' h => ?_)
    obtain ⟨l', hl', hinv'⟩ := hinv.lost hlive hu hbu h
    exact ⟨u, l', hinv.only.unitAt hu, hl', hinv'.listOk⟩

set_option synthInstance.maxSize 400 in
/-- Three units. The middle one is given back, and a new one is put between the others. -/
theorem mmapped_list_ok_between :
    ∃ (s : State Unit) (l : LinkedList Nat) (live : List Block),
      MappedRun generousKernel s l live ∧ s.mmappedUstateList = [2, 3, 0] ∧ live.length = 3 ∧
        ListOk s l live := by
  let L : Label := fun _ => 0
  have hrun : wp (ablibMalloc generousKernel 1 100000 L)
      (fun _ s₁ => LargeOk 60000 L s₁ ∧ wp (ablibMalloc generousKernel 1 60000 L)
        (fun b s₂ => LargeOk 100000 L s₂ ∧ wp (ablibMalloc generousKernel 1 100000 L)
          (fun _ s₃ => wp (ablibFree generousKernel 1 b)
            (fun _ s₄ => LargeOk 50000 L s₄ ∧ wp (ablibMalloc generousKernel 1 50000 L)
              (fun _ s₅ => s₅.mmappedUstateList = [2, 3, 0]) (fun _ _ => False) s₄)
            (fun _ _ => False) s₃)
          (fun _ _ => False) s₂)
        (fun _ _ => False) s₁)
      (fun _ _ => False) (State.start () []) := by
    decide +kernel
  have hfirst : LargeOk 100000 L (State.start () [] : State Unit) := by decide +kernel
  obtain ⟨a, s₁, hcall₁, hok₁, hrun⟩ := exists_ok hrun
  obtain ⟨b, s₂, hcall₂, hok₂, hrun⟩ := exists_ok hrun
  obtain ⟨c, s₃, hcall₃, hrun⟩ := exists_ok hrun
  obtain ⟨⟨⟩, s₄, hcall₄, hok₄, hrun⟩ := exists_ok hrun
  obtain ⟨d, s₅, hcall₅, hlist⟩ := exists_ok hrun
  obtain ⟨l₁, hrun₁⟩ := (MappedRun.start () []).request hfirst hcall₁
  obtain ⟨l₂, hrun₂⟩ := hrun₁.request hok₁ hcall₂
  obtain ⟨l₃, hrun₃⟩ := hrun₂.request hok₂ hcall₃
  obtain ⟨l₄, hrun₄⟩ := hrun₃.release [⟨c, 100000⟩] ⟨b, 60000⟩ [⟨a, 100000⟩] rfl hcall₄
  obtain ⟨l₅, hrun₅⟩ := hrun₄.request hok₄ hcall₅
  exact ⟨s₅, l₅, _, hrun₅, hlist, rfl, (mmapped_list_ok generousKernel hrun₅).1⟩

/-- Two units, and the higher one is given back. A new unit that fills its place
    exactly is not put on the list, and one that is smaller stops the arbiter. -/
theorem mmapped_list_not_ok :
    wp (do
      let a ← ablibMalloc generousKernel 1 100000 (fun _ => 0)
      let _ ← ablibMalloc generousKernel 1 100000 (fun _ => 0)
      ablibFree generousKernel 1 a
      ablibMalloc generousKernel 1 100000 (fun _ => 0))
      (fun mem s' => mem ≠ 0 ∧ s'.ustateList.length = 2 ∧ s'.mmappedUstateList.length = 1)
      (fun _ _ => False) (State.start () []) ∧
    wp (do
      let a ← ablibMalloc generousKernel 1 100000 (fun _ => 0)
      let _ ← ablibMalloc generousKernel 1 100000 (fun _ => 0)
      ablibFree generousKernel 1 a
      ablibMalloc generousKernel 1 60000 (fun _ => 0))
      (fun _ _ => False)
      (fun e s' => e = .segv ∧ s'.ustateList.length = 2 ∧ s'.mmappedUstateList.length = 1)
      (State.start () []) := by
  constructor
  · decide +kernel
  · decide +kernel

end ArbiterThread
