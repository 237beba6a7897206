import ArbiterThread.Malloc.Counters

/-!
# New Units in the Heap

What `__malloc_alloc` adds to a heap that is in order: a mapped unit with one
block, or a unit from `ablib_sbrk` that is cut into chunks.

Neither of the two calls looks at the units there are. Whether the new range is
free has to be known from elsewhere, and is the condition here. Given that, all
stores are inside the new range, and nothing there was before changes. This is
`Grown`.

## Main definitions

* `FreeRange`: A range in the channel heap that meets no unit.
* `RoomFor`: The range of the new unit is free.
* `Grown`: One more unit, and everything else as it was.
* `State.withUnit`: The state after a unit from `ablib_sbrk` was set up.

## Theorems

* `Rep.rebase`: Only the units that are cut into chunks matter.
* `Arena.mallocMmap`, `Arena.mallocSbrk`: The two ways.
* `Arena.mallocAlloc`: `__malloc_alloc`.
-/

namespace ArbiterThread

open Exec Rings

variable {K : Type}

/-- The range lies in the channel heap and meets no unit. -/
def FreeRange (s : State K) (a n : Nat) : Prop :=
  channelAddr ≤ a ∧ a + n ≤ channelEnd ∧ ∀ u ∈ s.ustateList, Misses s.units a n u

instance (units : Nat → Ustate) (r size u : Nat) : Decidable (Misses units r size u) :=
  inferInstanceAs (Decidable (_ ∨ _))

instance (s : State K) (a n : Nat) : Decidable (FreeRange s a n) :=
  inferInstanceAs (Decidable (_ ∧ _))

theorem FreeRange.byte {s : State K} {a n x : Nat} (hfree : FreeRange s a n) (hlo : a ≤ x)
    (hhi : x < a + n) : FreeRange s x 1 := by
  have hend := hfree.2.1
  refine ⟨hfree.1.trans hlo, by omega, fun u hu => ?_⟩
  have hmiss := hfree.2.2 u hu
  unfold Misses at hmiss ⊢
  omega

theorem FreeRange.outside {s : State K} {x u : Nat} (hfree : FreeRange s x 1)
    (hu : u ∈ s.ustateList) :
    x < (s.units u).addr ∨ (s.units u).addr + (s.units u).length ≤ x := by
  have hmiss := hfree.2.2 u hu
  unfold Misses Ustate.stop at hmiss
  omega

/-- Bytes that are in no unit, before and after, have not changed. -/
def Undisturbed (s s' : State K) : Prop :=
  ∀ x, FreeRange s x 1 → FreeRange s' x 1 → s'.mem x = s.mem x

/-- One more unit, and nothing that was there has changed. -/
structure Grown (s : State K) (h : Heap) (s' : State K) (h' : Heap) : Prop where
  arena : Arena s'.mem s' h'
  list : s'.ustateList = s.nextUnit :: s.ustateList
  unit : ∀ u ∈ s.ustateList, s'.units u = s.units u
  label : ∀ av, (s'.mstates av).label = (s.mstates av).label
  base : ∀ u ∈ s.ustateList, h'.base u = h.base u
  owner : ∀ u ∈ s.ustateList, h'.owner u = h.owner u
  live : ∀ p, h.live p ≠ none → h'.live p = h.live p
  mem : ∀ u ∈ s.ustateList, s.mem.Agree s'.mem (s.units u).addr (s.units u).stop
  vacant : ∀ x, FreeRange s' x 1 → s'.mem x = s.mem x
  counts : Counted s → Counted s'

/-- The blocks there were are as they were. -/
theorem Owns.grown {m₀ : Mem} {s s' : State K} {h h' : Heap} {g : Grant} (hg : Owns s h g)
    (a : Arena m₀ s h) (hgrown : Grown s h s' h') : Owns s' h' g := by
  cases hg with
  | chunk p z u k hmem hp hroom hlabel =>
    have hu := (a.live_bounds hp).1
    refine .chunk p z u k hmem ((hgrown.live p (by rw [hp]; simp)).trans hp) hroom ?_
    rw [hgrown.owner u hu, hgrown.label]
    exact hlabel
  | lone u hu hu0 hmem hroom hlabel =>
    have hlisted : u ∈ s'.ustateList := by
      rw [hgrown.list]
      exact List.mem_cons_of_mem _ hu
    refine .lone u hlisted ((hgrown.base u hu).trans hu0) ?_ ?_ ?_
    · rw [hgrown.unit u hu]
      exact hmem
    · rw [hgrown.unit u hu]
      exact hroom
    · rw [hgrown.unit u hu, hgrown.label]
      exact hlabel

/-! ### Another memory to compare with -/

section

variable {m₀ m m' : Mem} {s s' : State K} {h : Heap}

/-- The bytes of a chunk and the words behind it are in its unit. -/
theorem Heap.Tiling.in_unit (t : h.Tiling) {p x : Nat} (hp : h.size p ≠ 0) (hlo : p ≤ x)
    (hhi : x < h.next p + 16) :
    h.base (h.unit p) ≤ x ∧ x < h.base (h.unit p) + 40960 := by
  have hplace := t.place hp
  simp only [Heap.fence, unitTopSize] at hplace
  omega

/-- The chunks and fenceposts only depend on the bytes of their units. -/
theorem Heap.Holds.rebase (hm : h.Holds m₀ m) (t : h.Tidy)
    (heq : ∀ u, h.base u ≠ 0 → m.Agree m' (h.base u) (h.base u + 40960)) : h.Holds m' m' := by
  have hchunk : ∀ {p x}, h.size p ≠ 0 → p ≤ x → x < h.next p + 16 → m' x = m x := by
    intro p x hp hlo hhi
    have hin := t.tiling.in_unit hp hlo hhi
    exact heq _ (t.tiling.place hp).1 x hin.1 hin.2
  have hfd : ∀ {p}, h.size p ≠ 0 → fdAt m' p = fdAt m p := by
    intro p hp
    refine Mem.load32_congr (fun x hlo hhi => hchunk hp (by omega) ?_)
    have hbounds := t.tiling.bounds hp
    unfold Heap.next
    omega
  -- every word that is spoken about lies in a chunk or at the end of a unit
  refine ⟨?_, ?_, ?_, ?_, ?_, fun _ _ _ _ => rfl, fun _ _ => rfl⟩
  · intro p hp huse
    rw [← hm.head hp huse]
    exact Mem.load32_congr (fun x hlo hhi => hchunk hp (by omega) (by unfold Heap.next; omega))
  · intro p hp huse
    rw [← hm.foot hp huse]
    exact Mem.load32_congr
      (fun x hlo hhi => hchunk hp (by unfold Heap.next at hlo; omega) (by omega))
  · intro u hu
    have hfence := hm.fence hu
    have hword : ∀ x, h.fence u + 4 ≤ x → x < h.fence u + 12 → m' x = m x := by
      intro x hlo hhi
      simp only [Heap.fence, unitTopSize] at hlo hhi
      exact heq u hu x (by omega) (by omega)
    exact ⟨(Mem.load32_congr (fun x hlo hhi => hword x hlo (by omega))).trans hfence.1,
      (Mem.load32_congr (fun x hlo hhi => hword x (by omega) hhi)).trans hfence.2⟩
  · intro av i
    exact (hm.fasts av i).congr (fun x hx => hfd (t.lists.fast hx).1)
  · exact hm.pending.congr (fun x hx => hfd (t.lists.pend hx).1)

/-- Bins only depend on their headers and the bytes of the units. -/
theorem Rep.rings_rebase (r : Rep m₀ s h) (hactive : ∀ av, Active s' av → Active s av)
    (hpriv : ∀ x < 0x80000000, s'.mem x = s.mem x)
    (heq : ∀ u, h.base u ≠ 0 → s.mem.Agree s'.mem (h.base u) (h.base u + 40960)) {av i : Nat}
    (hd : Header s' av i) : RingAt s'.mem h av i := by
  have hd' : Header s av i := ⟨hactive av hd.active, hd.lo, hd.hi⟩
  have hb := r.body.tracks.header_bounds hd'
  have hsame : ∀ x ∈ binAt av i :: h.bins av i, ∀ y, x + 8 ≤ y → y < x + 16 →
      s'.mem y = s.mem y := by
    intro x hx y hlo hhi
    rcases List.mem_cons.mp hx with rfl | hx
    · exact hpriv y (by omega)
    · have t := r.body.tidy.tiling
      have hp := (r.body.tidy.lists.bin hx).1
      have hin := t.in_unit hp (x := y) (by omega) (by unfold Heap.next; omega)
      exact heq _ (t.place hp).1 y hin.1 hin.2
  exact (r.rings hd').congr
    (fun x hx => Mem.load32_congr (fun y hlo hhi => hsame x hx y hlo (by omega)))
    (fun x hx => Mem.load32_congr (fun y hlo hhi => hsame x hx y (by omega) hhi))

/-- Only the headers and the units that are cut into chunks matter. -/
theorem Rep.rebase (r : Rep m₀ s h) (ht : Tracks s' h) (hactive : ∀ av, Active s' av → Active s av)
    (hpriv : ∀ x < 0x80000000, s'.mem x = s.mem x)
    (heq : ∀ u, h.base u ≠ 0 → s.mem.Agree s'.mem (h.base u) (h.base u + 40960)) :
    Rep s'.mem s' h :=
  ⟨⟨r.body.tidy, ht, r.body.holds.rebase r.body.tidy heq⟩,
    fun hd => r.rings_rebase hactive hpriv heq hd⟩

/-- The heap compared with the memory as it is now. -/
theorem Arena.fresh (a : Arena m₀ s h) : Arena s.mem s h :=
  ⟨a.rep.rebase a.rep.body.tracks (fun _ h => h) (fun _ _ => rfl) (fun _ _ _ _ _ => rfl), a.settled,
    a.wf, a.ready, a.lone, a.mmapped, a.blank, a.clear, a.nodup, a.owned⟩

end

/-! ### A mapped unit -/

/-- Inserting a unit adds nothing else. -/
theorem mem_of_insertBelow {units : Nat → Ustate} {unit : Nat} {ps l : List Nat}
    (h : insertBelow units unit ps = some l) : ∀ u ∈ l, u = unit ∨ u ∈ ps := by
  induction ps generalizing l with
  | nil => exact absurd h (by simp [insertBelow])
  | cons p ps ih =>
    unfold insertBelow at h
    split at h
    · simp only [Option.some.injEq] at h
      subst h
      exact fun u hu => List.mem_cons.mp hu
    · rcases Option.map_eq_some_iff.mp h with ⟨l', hl', rfl⟩
      intro u hu
      rcases List.mem_cons.mp hu with rfl | hu
      · exact .inr List.mem_cons_self
      · exact (ih hl' u hu).imp_right (List.mem_cons_of_mem p)

/-- A unit at `addr` belongs before the head of the list, or not behind its tail. -/
def NotBehind (units : Nat → Ustate) (l : List Nat) (addr : Nat) : Prop :=
  ∀ head ∈ l.head?, ∀ tail ∈ l.getLast?, addr < (units head).addr ∨
    ¬ ((units tail).addr + (units tail).length) % wordSize < addr

instance (units : Nat → Ustate) (l : List Nat) (addr : Nat) : Decidable (NotBehind units l addr) :=
  inferInstanceAs (Decidable (∀ head ∈ l.head?, _))

/-- The insertion adds at most the unit. It stops if the unit belongs behind the
    tail. -/
theorem wp_insertMmappedUnit_mem (unit : Nat) {s : State K} {Q : Unit → State K → Prop}
    {E : Fault → State K → Prop}
    (hE : Safe (NotBehind s.units s.mmappedUstateList (s.units unit).addr) E)
    (hQ : ∀ l, (∀ u ∈ l, u = unit ∨ u ∈ s.mmappedUstateList) →
      Q () { s with mmappedUstateList := l }) : wp (insertMmappedUnit unit) Q E s := by
  unfold insertMmappedUnit
  rw [wp_bind, wp_get]
  split
  · rename_i head _ tail rest hhead htail
    have hlist : s.mmappedUstateList = (tail :: rest).reverse := by
      rw [← htail, List.reverse_reverse]
    rw [wp_ite, wp_ite]
    -- the unit goes before the head, behind the tail, or in between
    split
    · exact (wp_set ..).mpr (hQ _ (fun u hu => List.mem_cons.mp hu))
    rename_i hbefore
    split
    · rename_i hbehind
      refine hE.elim (fun hC => absurd hbehind ((hC head ?_ tail ?_).resolve_left hbefore))
        (fun hE => (wp_throw ..).mpr (hE _ _))
      · rw [hhead]
        rfl
      · rw [hlist, List.reverse_cons, List.getLast?_concat]
        rfl
    split
    · rename_i l hl
      refine (wp_set ..).mpr (hQ _ (fun u hu => ?_))
      rw [hlist]
      rw [List.mem_reverse, List.mem_cons] at hu ⊢
      rcases hu with rfl | hu
      · exact .inr (.inl rfl)
      · exact (mem_of_insertBelow hl u hu).imp_right .inr
    · exact (wp_pure ..).mpr (hQ s.mmappedUstateList (fun u hu => .inr hu))
  · exact (wp_set ..).mpr (hQ _ (fun u hu => .inl (List.mem_singleton.mp hu)))

section

variable {m₀ : Mem} {s : State K} {h : Heap} {mm size av nb : Nat}

theorem Arena.nodup_nextUnit (a : Arena m₀ s h) : (s.nextUnit :: s.ustateList).Nodup :=
  List.nodup_cons.mpr ⟨fun hu => absurd (a.wf.units _ hu).1 (lt_irrefl _), a.nodup⟩

/-- Every unit belongs to a `malloc_state` there is, the new one included. -/
theorem Arena.owned_nextUnit (a : Arena m₀ s h) {av : Nat} (hav : av ∈ s.mstateList)
    {units : Nat → Ustate} (hnew : (units s.nextUnit).unitAv = av)
    (hold : ∀ u ∈ s.ustateList, units u = s.units u) :
    ∀ u ∈ s.nextUnit :: s.ustateList, (units u).unitAv ∈ s.mstateList := by
  intro u hu
  rcases List.mem_cons.mp hu with rfl | hu
  · rwa [hnew]
  · rw [hold u hu]
    exact a.owned u hu

theorem Arena.base_nextUnit (a : Arena m₀ s h) : h.base s.nextUnit = 0 := by
  by_contra hne
  exact absurd (a.wf.units _ (a.rep.body.tracks.unit hne).1).1 (lt_irrefl _)

/-- A free range is apart from the units that are cut into chunks. -/
theorem FreeRange.apart (hfree : FreeRange s mm size) (a : Arena m₀ s h) {u : Nat}
    (hu : h.base u ≠ 0) : mm + size ≤ h.base u ∨ h.base u + 40960 ≤ mm := by
  have hunit := a.rep.body.tracks.unit hu
  have hmiss := hfree.2.2 u hunit.1
  simp only [Misses, Ustate.stop, hunit.2, unitSize] at hmiss
  exact hmiss

/-- Stores inside a free range leave the units alone. -/
theorem FreeRange.agree (hfree : FreeRange s mm size) {m : Mem}
    (hm : ∀ x, x < mm ∨ mm + size ≤ x → m x = s.mem x) {u : Nat} (hu : u ∈ s.ustateList) :
    s.mem.Agree m (s.units u).addr (s.units u).stop := by
  intro x hlo hhi
  have hmiss := hfree.2.2 u hu
  unfold Misses at hmiss
  exact hm x (by omega)

theorem State.mapUnit_mem (s : State K) (mm size av : Nat) (l : List Nat) (k : K) {x : Nat}
    (hx : x < mm ∨ mm + 8 ≤ x) : (s.mapUnit mm size av l k).mem x = s.mem x := by
  simp only [State.mapUnit, State.addMapped, Mem.store32]
  rw [if_neg (by omega), if_neg (by omega)]

/-- The counts of mapped units have nothing to do with chunks. -/
theorem State.mapUnit_mstates (s : State K) (mm size av : Nat) (l : List Nat) (k : K) (av' : Nat) :
    ((s.mapUnit mm size av l k).mstates av').maxFast = (s.mstates av').maxFast ∧
    ((s.mapUnit mm size av l k).mstates av').fastbins = (s.mstates av').fastbins ∧
    ((s.mapUnit mm size av l k).mstates av').ustateList = (s.mstates av').ustateList ∧
    ((s.mapUnit mm size av l k).mstates av').binmap = (s.mstates av').binmap ∧
    ((s.mapUnit mm size av l k).mstates av').pagesize = (s.mstates av').pagesize ∧
    ((s.mapUnit mm size av l k).mstates av').mmapThreshold = (s.mstates av').mmapThreshold ∧
    ((s.mapUnit mm size av l k).mstates av').label = (s.mstates av').label := by
  by_cases hne : av' = av
  · subst hne
    simp only [State.mapUnit, Function.update_self, countMmapped, and_self]
  · simp only [State.mapUnit, Function.update_of_ne hne, and_self]

theorem State.mapUnit_unit (s : State K) (mm size av : Nat) (l : List Nat) (k : K) {u : Nat}
    (hu : u ≠ s.nextUnit) : (s.mapUnit mm size av l k).units u = s.units u :=
  Function.update_of_ne hu _ _

theorem State.mapUnit_new (s : State K) (mm size av : Nat) (l : List Nat) (k : K) :
    (s.mapUnit mm size av l k).units s.nextUnit =
      { unitTop := mm, addr := mm, length := size, unitAv := av } :=
  Function.update_self ..

/-- The records of the units, with a mapped one more. -/
theorem Tracks.mapUnit (a : Arena m₀ s h) (hfree : FreeRange s mm size) (av : Nat) (l : List Nat)
    (k : K) : Tracks (s.mapUnit mm size av l k) h := by
  have t := a.rep.body.tracks
  have hsame := s.mapUnit_mstates mm size av l k
  have hactive : ∀ av', Active (s.mapUnit mm size av l k) av' ↔ Active s av' := by
    intro av'
    unfold Active
    rw [(hsame av').1]
  have hold : ∀ u ∈ s.ustateList, (s.mapUnit mm size av l k).units u = s.units u :=
    fun u hu => s.mapUnit_unit mm size av l k (a.wf.units u hu).1.ne
  have hnew := s.mapUnit_new mm size av l k
  have hend := hfree.2.1
  simp only [channelEnd, channelAddr, channelSize] at hend
  refine ⟨?_, ?_, ?_, ?_, ?_, t.limit⟩
  · intro u hu
    have hunit := t.unit hu
    exact ⟨List.mem_cons_of_mem _ hunit.1, (hold u hunit.1).trans hunit.2⟩
  · exact fun hu => (hactive _).mpr (t.owner hu)
  · intro u hu
    rcases List.mem_cons.mp hu with rfl | hu
    · rw [hnew]
      exact hend
    · rw [hold u hu]
      exact t.bounded u hu
  -- the range was free, so the new unit meets none of the others
  · intro u hu v hv hne
    rcases List.mem_cons.mp hu with rfl | hu
    · rcases List.mem_cons.mp hv with rfl | hv
      · exact absurd rfl hne
      · rw [hnew, hold v hv]
        exact hfree.2.2 v hv
    · rcases List.mem_cons.mp hv with rfl | hv
      · rw [hnew, hold u hu]
        exact (hfree.2.2 u hu).symm
      · rw [hold u hu, hold v hv]
        exact t.apart u hu v hv hne
  · intro av' hav'
    have ht := t.mstate ((hactive av').mp hav')
    rcases hsame av' with ⟨hmax, hfast, hunits, hmap, -⟩
    refine ⟨ht.made, ?_, ?_, ?_, ?_, ?_⟩
    · rw [hmax]
      exact ht.maxFast
    · rw [hfast]
      exact ht.fastbins
    · rw [hunits]
      exact ht.units
    · rw [hmap]
      exact ht.binmap
    · rw [hmap]
      exact ht.binmapEnd

/-- The header of a mapped unit. -/
theorem Lone.mapUnit (hfree : FreeRange s mm size) (halign : mm % 4096 = 0)
    (hwhole : size % 4096 = 0) (hlarge : unitSize < size) (av : Nat) (l : List Nat) (k : K) :
    Lone (s.mapUnit mm size av l k) s.nextUnit := by
  have hend := hfree.2.1
  simp only [channelEnd, channelAddr, channelSize] at hend
  have hmm : withMmapped size = size + 2 := by
    unfold withMmapped
    omega
  refine ⟨?_, ?_, ?_, ?_, ?_, ?_⟩
  all_goals rw [s.mapUnit_new]
  · exact hfree.1
  · exact halign
  · exact hwhole
  · exact hlarge
  · simp only [State.mapUnit, State.addMapped]
    rw [Mem.load32_store32_of_disjoint _ _ _ _ (by omega)]
    exact Mem.load32_store32_self _ _ _ (by decide)
  · simp only [State.mapUnit, State.addMapped, hmm]
    exact Mem.load32_store32_self _ _ _ (by omega)

/-- A unit mapped in a free range. -/
theorem Grown.mapUnit (a : Arena m₀ s h) (hav : av ∈ s.mstateList) (hfree : FreeRange s mm size)
    (halign : mm % 4096 = 0) (hwhole : size % 4096 = 0) (hlarge : unitSize < size) {l : List Nat}
    (hl : ∀ u ∈ l, u = s.nextUnit ∨ u ∈ s.mmappedUstateList) (k : K) :
    Grown s h (s.mapUnit mm size av l k) h := by
  have hsame := s.mapUnit_mstates mm size av l k
  have hnew := s.mapUnit_new mm size av l k
  have hold : ∀ u ∈ s.ustateList, (s.mapUnit mm size av l k).units u = s.units u :=
    fun u hu => s.mapUnit_unit mm size av l k (a.wf.units u hu).1.ne
  unfold unitSize at hlarge
  have hmem : ∀ x, x < mm ∨ mm + size ≤ x → (s.mapUnit mm size av l k).mem x = s.mem x :=
    fun x hx => s.mapUnit_mem mm size av l k (by omega)
  have hlow := hfree.1
  unfold channelAddr at hlow
  have hrep : Rep (s.mapUnit mm size av l k).mem (s.mapUnit mm size av l k) h := by
    refine a.rep.rebase (Tracks.mapUnit a hfree av l k) (fun av' hav' => ?_)
      (fun x hx => hmem x (by omega)) (fun u hu x hlo hhi => hmem x ?_)
    · unfold Active at hav' ⊢
      rw [(hsame av').1] at hav'
      exact hav'
    · have := hfree.apart a hu
      omega
  -- the old units do not depend on the bytes of the new one, which is a lone unit itself
  have harena : Arena (s.mapUnit mm size av l k).mem (s.mapUnit mm size av l k) h := by
    refine ⟨hrep, a.settled, ⟨?_, a.wf.avs, ?_⟩, ?_, ?_, ?_, ?_, a.clear, a.nodup_nextUnit,
      a.owned_nextUnit hav (by rw [hnew]) hold⟩
    · intro u hu
      rcases List.mem_cons.mp hu with rfl | hu
      · rw [hnew]
        exact ⟨Nat.lt_succ_self _, a.wf.avs av hav⟩
      · rw [hold u hu]
        exact ⟨Nat.lt_succ_of_lt (a.wf.units u hu).1, (a.wf.units u hu).2⟩
    · intro hnil
      exact absurd hav (by rw [show s.mstateList = [] from hnil]; exact List.not_mem_nil)
    · intro av' hav'
      rcases hsame av' with ⟨hmax, -, -, -, hpage, hthreshold, -⟩
      rw [hmax, hpage, hthreshold]
      exact a.ready av' hav'
    · intro u hu hu0
      rcases List.mem_cons.mp hu with rfl | hu
      · exact .mapUnit hfree halign hwhole hlarge av l k
      · have hlone := a.lone u hu hu0
        have hlarge' := hlone.large
        unfold unitSize at hlarge'
        refine hlone.congr (by rw [hold u hu]) (by rw [hold u hu]) (fun x hlo hhi => ?_)
        exact hfree.agree hmem hu x hlo (by unfold Ustate.stop; omega)
    · intro u hu
      rcases hl u hu with rfl | hu
      · rw [hnew]
        exact ⟨Nat.lt_succ_self _, halign⟩
      · have hmm := a.mmapped u hu
        rw [s.mapUnit_unit mm size av l k hmm.1.ne]
        exact ⟨Nat.lt_succ_of_lt hmm.1, hmm.2⟩
    · intro hnil
      exact absurd hav (by rw [show s.mstateList = [] from hnil]; exact List.not_mem_nil)
  refine ⟨harena, rfl, hold, fun av' => (hsame av').2.2.2.2.2.2, fun _ _ => rfl, fun _ _ => rfl,
    fun _ _ => rfl, fun u hu => hfree.agree hmem hu, fun x hx => hmem x ?_, fun hc => ?_⟩
  · have hout := hx.outside (u := s.nextUnit) List.mem_cons_self
    rwa [hnew] at hout
  refine hc.mapped a.wf harena ⟨rfl, hold, rfl⟩ ⟨by rw [hnew], by rw [hnew]⟩ (a.wf.avs av hav)
    (Function.update_self ..) (fun av' hne => Function.update_of_ne hne _ _)

end

/-- The mmap branch does nothing for a request that does not take it. -/
theorem wp_mallocMmap_none (ops : KernelOps K) (pid : Nat) {nb av : Nat} (L : Label) {s : State K}
    (htakes : ¬ TakesMmap s av nb) {Q : Option Nat → State K → Prop} {E : Fault → State K → Prop}
    (hQ : Q none s) : wp (mallocMmap ops pid nb av L) Q E s := by
  unfold mallocMmap
  rw [wp_bind, wp_getMstate]
  dsimp only
  split
  · rename_i hfirst
    rw [wp_bind, wp_get]
    by_cases hmm : getUnmappedArea s.units s.mmappedUstateList (mmapSize (s.mstates av) nb) =
        morecoreFailure
    · rw [if_neg (not_not.mpr hmm), wp_pure]
      exact hQ
    · exact absurd ⟨hfirst.1, hfirst.2.1, hfirst.2.2, hmm⟩ htakes
  · rw [wp_pure]
    exact hQ

/-- The area found for a request. -/
def areaFor (s : State K) (av nb : Nat) : Nat :=
  getUnmappedArea s.units s.mmappedUstateList (mmapSize (s.mstates av) nb)

/-- The kernel grants the area, the unit does not belong behind the tail of the list,
    and the tasks are there. -/
def MmapGranted (ops : KernelOps K) (pid nb av : Nat) (s : State K) : Prop :=
  (ops.absysMmap s.kern pid (areaFor s av nb) (mmapSize (s.mstates av) nb) .protRW).1 =
      areaFor s av nb ∧
    NotBehind s.units s.mmappedUstateList (areaFor s av nb) ∧ TasksLive ops pid s

section

variable {m₀ : Mem} {s : State K} {h : Heap} {av nb : Nat} {L : Label}
variable {E : Fault → State K → Prop}

/-- What the mmap branch gives: a mapped unit with a block behind its header. -/
structure Mapped (s : State K) (h : Heap) (av nb : Nat) (mem : Nat) (s' : State K) : Prop where
  takes : TakesMmap s av nb
  grown : Grown s h s' h
  block : mem = areaFor s av nb + 8
  unit : (s'.units s.nextUnit).addr = areaFor s av nb ∧
    (s'.units s.nextUnit).length = mmapSize (s.mstates av) nb ∧ (s'.units s.nextUnit).unitAv = av
  room : nb + 11 ≤ mmapSize (s.mstates av) nb
  mem : ∀ x, x < areaFor s av nb ∨ areaFor s av nb + 8 ≤ x → s'.mem x = s.mem x
  locked : s'.locked = s.locked

/-- The new unit is not on the list yet. -/
theorem Arena.notBehind_addMapped (a : Arena m₀ s h) (mm size : Nat) (k : K) :
    NotBehind (s.addMapped mm size av k).units (s.addMapped mm size av k).mmappedUstateList
        ((s.addMapped mm size av k).units s.nextUnit).addr ↔
      NotBehind s.units s.mmappedUstateList mm := by
  have hnew : (s.addMapped mm size av k).units s.nextUnit = ⟨mm, mm, size, av⟩ :=
    Function.update_self ..
  have hold : ∀ u ∈ s.mmappedUstateList, (s.addMapped mm size av k).units u = s.units u :=
    fun u hu => Function.update_of_ne (a.mmapped u hu).1.ne _ _
  unfold NotBehind
  rw [hnew]
  refine forall₂_congr fun head hhead => forall₂_congr fun tail htail => ?_
  rw [hold head (List.mem_of_mem_head? hhead), hold tail (List.mem_of_getLast? htail)]

/-- The mmap branch gives a unit with the request in it, or is not taken. -/
theorem Arena.mallocMmap (a : Arena m₀ s h) (ops : KernelOps K) (pid : Nat)
    (hav : av ∈ s.mstateList)
    (hfree : TakesMmap s av nb → FreeRange s (areaFor s av nb) (mmapSize (s.mstates av) nb))
    (hE : Safe (TakesMmap s av nb → MmapGranted ops pid nb av s) E)
    {Q : Option Nat → State K → Prop}
    (hsome : ∀ mem s', Mapped s h av nb mem s' → Q (some mem) s')
    (hnone : ¬ TakesMmap s av nb → Q none s) :
    wp (ArbiterThread.mallocMmap ops pid nb av L) Q E s := by
  by_cases htakes : TakesMmap s av nb
  case neg => exact wp_mallocMmap_none ops pid L htakes (hnone htakes)
  have hE := hE.mono (fun hC => hC htakes)
  have hready := a.ready av hav
  have hfree := hfree htakes
  obtain ⟨hwhole, hlarge, hword, hroom⟩ := mmapSize_of_takes hready.2.1 hready.2.2 htakes
  have halign : areaFor s av nb % 4096 = 0 :=
    getUnmappedArea_aligned s.units s.mmappedUstateList (fun u hu => (a.mmapped u hu).2) hwhole
      (by unfold unitSize at hlarge; omega) hword
  have hlo := hfree.1
  have hhi := hfree.2.1
  have hmapped : ∀ x, areaFor s av nb ≤ x → x < areaFor s av nb + 8 → mapped s x := by
    intro x hlo' hhi'
    simp only [mapped, channelEnd, wordSize, channelAddr, channelSize, unitSize] at *
    omega
  refine wp_mallocMmap_of ops pid nb av L htakes rfl (rfl : areaFor s av nb = _) (by omega)
    ?_ ?_ ?_ ?_
  · exact fun m hm => absurd ⟨hmapped _ le_rfl (by omega), hmapped _ (by omega) (by omega)⟩ hm
  · exact fun m k hrefused => hE.elim (fun hC => absurd hC.1 hrefused) (fun hE => hE _ _)
  · exact fun hdead t => hE.elim (fun hC => absurd hC.2.2 hdead) (fun hE => hE _ t)
  intro _ _
  -- the list of mapped units comes last
  have hunit : (s.addMapped (areaFor s av nb) (mmapSize (s.mstates av) nb) av
      (ops.absysMmap s.kern pid (areaFor s av nb) (mmapSize (s.mstates av) nb) .protRW).2).units
        s.nextUnit = ⟨areaFor s av nb, areaFor s av nb, mmapSize (s.mstates av) nb, av⟩ :=
    Function.update_self ..
  refine wp_insertMmappedUnit_mem s.nextUnit
    (hE.mono (fun hC => (a.notBehind_addMapped ..).mpr hC.2.1)) (fun l hl k => ?_)
  · have hmem : chunk2mem (areaFor s av nb) = areaFor s av nb + 8 := by
      simp only [chunk2mem, channelEnd, wordSize, channelAddr, channelSize, unitSize] at *
      omega
    rw [hmem]
    exact hsome _ (s.mapUnit (areaFor s av nb) (mmapSize (s.mstates av) nb) av l k)
      ⟨htakes, .mapUnit a hav hfree halign hwhole hlarge hl k, rfl,
        by rw [s.mapUnit_new]; exact ⟨rfl, rfl, rfl⟩, hroom,
        fun x hx => s.mapUnit_mem _ _ av l k hx, rfl⟩

end

/-! ### A unit from the break -/

/-- The state after a unit was obtained from `ablib_sbrk` and its fenceposts were
    written. -/
def State.withUnit (s : State K) (b av brk : Nat) (kern : K) : State K :=
  { s.addUnit { unitTop := b, addr := b, length := unitSize, unitAv := av } with
    kern := kern
    curbrk := brk
    mstates := Function.update s.mstates av (countSbrked
      { s.mstates av with
        sbrkedMem := ((s.mstates av).sbrkedMem + unitSize) % wordSize
        ustateList := s.nextUnit :: (s.mstates av).ustateList })
    mem := ((s.mem.store32 (b + 4) (unitTopSize + 1)).store32 (b + unitTopSize + 4) 5).store32
      (b + unitTopSize + 8) 5 }

section

variable {m₀ m m' : Mem} {s : State K} {h : Heap} {u b av brk : Nat} {k : K}

theorem State.withUnit_mem (s : State K) (b av brk : Nat) (k : K) {x : Nat}
    (hx : x < b ∨ b + unitSize ≤ x) : (s.withUnit b av brk k).mem x = s.mem x := by
  simp only [State.withUnit, Mem.store32, unitTopSize, unitSize] at *
  rw [if_neg (by omega), if_neg (by omega), if_neg (by omega)]

/-- The size field of the unit top and the two fenceposts. -/
theorem State.withUnit_words (s : State K) (b av brk : Nat) (k : K) :
    (s.withUnit b av brk k).mem.load32 (b + 4) = unitTopSize + 1 ∧
      (s.withUnit b av brk k).mem.load32 (b + unitTopSize + 4) = 5 ∧
      (s.withUnit b av brk k).mem.load32 (b + unitTopSize + 8) = 5 := by
  simp only [State.withUnit]
  refine ⟨?_, ?_, Mem.load32_store32_self _ _ _ (by decide)⟩
  · rw [Mem.load32_store32_of_disjoint _ _ _ _ (by unfold unitTopSize; omega),
      Mem.load32_store32_of_disjoint _ _ _ _ (by unfold unitTopSize; omega)]
    exact Mem.load32_store32_self _ _ _ (by decide)
  · rw [Mem.load32_store32_of_disjoint _ _ _ _ (by omega)]
    exact Mem.load32_store32_self _ _ _ (by decide)

theorem State.withUnit_mstates (s : State K) (b av brk : Nat) (k : K) (av' : Nat) :
    ((s.withUnit b av brk k).mstates av').maxFast = (s.mstates av').maxFast ∧
    ((s.withUnit b av brk k).mstates av').fastbins = (s.mstates av').fastbins ∧
    ((s.withUnit b av brk k).mstates av').ustateList =
      (if av' = av then s.nextUnit :: (s.mstates av').ustateList else (s.mstates av').ustateList) ∧
    ((s.withUnit b av brk k).mstates av').binmap = (s.mstates av').binmap ∧
    ((s.withUnit b av brk k).mstates av').pagesize = (s.mstates av').pagesize ∧
    ((s.withUnit b av brk k).mstates av').mmapThreshold = (s.mstates av').mmapThreshold ∧
    ((s.withUnit b av brk k).mstates av').label = (s.mstates av').label := by
  by_cases hne : av' = av
  · subst hne
    simp only [State.withUnit, Function.update_self, countSbrked, if_true, and_self]
  · simp only [State.withUnit, Function.update_of_ne hne, if_neg hne, and_self]

/-- A new unit in the memory. -/
theorem Heap.Holds.addUnit (hm : h.Holds m₀ m) (t : h.Tidy) (hf : h.Fits u b) (av : Nat)
    (heq : ∀ v, h.base v ≠ 0 → m.Agree m' (h.base v) (h.base v + 40960))
    (hfence : m'.load32 (b + unitTopSize + 4) = 5 ∧ m'.load32 (b + unitTopSize + 8) = 5) :
    (h.addUnit u b av).Holds m' m' := by
  have hold := hm.rebase t heq
  have hsame : ∀ {q}, q ≠ b → (h.addUnit u b av).size q = h.size q ∧
      (h.addUnit u b av).use q = h.use q ∧ (h.addUnit u b av).flag q = h.flag q := by
    intro q hq
    simp only [Heap.addUnit, Function.update_of_ne hq, and_self]
  have hraw : (h.addUnit u b av).use b = .raw := Function.update_self ..
  -- the new chunk is raw: nothing is known about its words yet
  refine ⟨?_, ?_, ?_, hold.fasts, hold.pending, fun _ _ _ _ => rfl, fun _ _ => rfl⟩
  · intro p hp huse
    have hpb : p ≠ b := by
      rintro rfl
      exact huse hraw
    rcases hsame hpb with ⟨hsize, huse', hflag⟩
    rw [hsize] at hp
    rw [huse'] at huse
    rw [Heap.head, hsize, hflag]
    exact hold.head hp huse
  · intro p hp huse
    have hpb : p ≠ b := by
      rintro rfl
      rw [hraw] at huse
      simp at huse
    rcases hsame hpb with ⟨hsize, huse', -⟩
    rw [hsize] at hp
    rw [huse'] at huse
    rw [Heap.next, hsize]
    exact hold.foot hp huse
  · intro v hv
    by_cases hvu : v = u
    · have hbase : (h.addUnit u b av).base v = b := by
        rw [hvu]
        exact Function.update_self ..
      unfold Heap.fence
      rw [hbase]
      exact hfence
    · have hbase : (h.addUnit u b av).base v = h.base v := Function.update_of_ne hvu _ _
      rw [hbase] at hv
      unfold Heap.fence
      rw [hbase]
      exact hold.fence hv

/-- There is room for a unit in the tiling. -/
theorem FreeRange.fits (hfree : FreeRange s b unitSize) (a : Arena m₀ s h) (h8 : b % 8 = 0) :
    h.Fits s.nextUnit b := by
  have hlo := hfree.1
  have hhi := hfree.2.1
  simp only [channelEnd, channelAddr, channelSize, unitSize] at hlo hhi
  exact ⟨a.base_nextUnit, hlo, hhi, h8, fun v hv => hfree.apart a hv⟩

/-- The records of the units, with one more from the break. -/
theorem Tracks.withUnit (a : Arena m₀ s h) (hfree : FreeRange s b unitSize)
    (hav : av ∈ s.mstateList) (brk : Nat) (k : K) :
    Tracks (s.withUnit b av brk k) (h.addUnit s.nextUnit b av) := by
  have t := a.rep.body.tracks
  have hsame := s.withUnit_mstates b av brk k
  have hactive : ∀ av', Active (s.withUnit b av brk k) av' ↔ Active s av' := by
    intro av'
    unfold Active
    rw [(hsame av').1]
  have hne : ∀ u ∈ s.ustateList, u ≠ s.nextUnit := fun u hu => (a.wf.units u hu).1.ne
  have hold : ∀ u ∈ s.ustateList, (s.withUnit b av brk k).units u = s.units u :=
    fun u hu => Function.update_of_ne (hne u hu) _ _
  have hnew : (s.withUnit b av brk k).units s.nextUnit = ⟨b, b, unitSize, av⟩ :=
    Function.update_self ..
  have hbase : ∀ {v}, v ≠ s.nextUnit → (h.addUnit s.nextUnit b av).base v = h.base v ∧
      (h.addUnit s.nextUnit b av).top v = h.top v ∧
      (h.addUnit s.nextUnit b av).owner v = h.owner v := by
    intro v hv
    simp only [Heap.addUnit, Function.update_of_ne hv, and_self]
  have hself : (h.addUnit s.nextUnit b av).base s.nextUnit = b ∧
      (h.addUnit s.nextUnit b av).top s.nextUnit = b ∧
      (h.addUnit s.nextUnit b av).owner s.nextUnit = av := by
    simp only [Heap.addUnit, Function.update_self, and_self]
  have hlo := hfree.1
  have hhi := hfree.2.1
  simp only [channelEnd, channelAddr, channelSize] at hlo hhi
  -- the new unit is the first of the lists, the others follow as they were
  refine ⟨?_, ?_, ?_, ?_, ?_, t.limit⟩
  · intro v hv
    by_cases hvu : v = s.nextUnit
    · rw [hvu, hnew, hself.1, hself.2.1, hself.2.2]
      exact ⟨List.mem_cons_self, rfl⟩
    · rcases hbase hvu with ⟨h1, h2, h3⟩
      rw [h1] at hv
      have hunit := t.unit hv
      rw [h1, h2, h3, hold v hunit.1]
      exact ⟨List.mem_cons_of_mem _ hunit.1, hunit.2⟩
  · intro v hv
    rw [hactive]
    by_cases hvu : v = s.nextUnit
    · rw [hvu, hself.2.2]
      exact a.active hav
    · rcases hbase hvu with ⟨h1, -, h3⟩
      rw [h1] at hv
      rw [h3]
      exact t.owner hv
  · intro v hv
    rcases List.mem_cons.mp hv with rfl | hv
    · rw [hnew]
      exact hhi
    · rw [hold v hv]
      exact t.bounded v hv
  · intro v hv w hw hvw
    rcases List.mem_cons.mp hv with rfl | hv
    · rcases List.mem_cons.mp hw with rfl | hw
      · exact absurd rfl hvw
      · rw [hnew, hold w hw]
        exact hfree.2.2 w hw
    · rcases List.mem_cons.mp hw with rfl | hw
      · rw [hnew, hold v hv]
        exact (hfree.2.2 v hv).symm
      · rw [hold v hv, hold w hw]
        exact t.apart v hv w hw hvw
  · intro av' hav'
    have ht := t.mstate ((hactive av').mp hav')
    rcases hsame av' with ⟨hmax, hfast, hunits, hmap, -⟩
    have hlist : ∀ v ∈ (s.mstates av').ustateList,
        (h.addUnit s.nextUnit b av).base v ≠ 0 ∧ (h.addUnit s.nextUnit b av).owner v = av' := by
      intro v hv
      have hunit := ht.units v hv
      rcases hbase (hne v (t.unit hunit.1).1) with ⟨h1, -, h3⟩
      rw [h1, h3]
      exact hunit
    refine ⟨ht.made, ?_, ?_, ?_, ?_, ?_⟩
    · rw [hmax]
      exact ht.maxFast
    · rw [hfast]
      exact ht.fastbins
    · rw [hunits]
      split
      · rename_i heq
        intro v hv
        rcases List.mem_cons.mp hv with rfl | hv
        · rw [hself.1, hself.2.2]
          exact ⟨by omega, heq.symm⟩
        · exact hlist v hv
      · exact hlist
    · rw [hmap]
      exact ht.binmap
    · rw [hmap]
      exact ht.binmapEnd

/-- The heap with a new unit, all of which is its unit top. -/
def Heap.openUnit (h : Heap) (u b av : Nat) : Heap := (h.addUnit u b av).setUse b .top

/-- The memory represents the heap with the new unit, all of which is its top. -/
theorem Rep.withUnit (a : Arena m₀ s h) (hfree : FreeRange s b unitSize) (h8 : b % 8 = 0)
    (hav : av ∈ s.mstateList) (brk : Nat) (k : K) :
    Rep (s.withUnit b av brk k).mem (s.withUnit b av brk k) (h.openUnit s.nextUnit b av) := by
  have t := a.rep.body.tidy
  have hf := hfree.fits a h8
  have hwords := s.withUnit_words b av brk k
  have hsame := s.withUnit_mstates b av brk k
  -- the other units are outside the range that was written
  have heq : ∀ v, h.base v ≠ 0 →
      s.mem.Agree (s.withUnit b av brk k).mem (h.base v) (h.base v + 40960) := by
    intro v hv x hlo hhi
    have := hfree.apart a hv
    exact s.withUnit_mem b av brk k (by omega)
  have hlow := hfree.1
  unfold channelAddr at hlow
  have hrings : ∀ {av' i}, Header (s.withUnit b av brk k) av' i →
      RingAt (s.withUnit b av brk k).mem h av' i := by
    intro av' i hd
    refine a.rep.rings_rebase (fun av' hav' => ?_)
      (fun x hx => s.withUnit_mem b av brk k (by omega)) heq hd
    unfold Active at hav' ⊢
    rw [(hsame av').1] at hav'
    exact hav'
  have hbody : Body (s.withUnit b av brk k).mem (s.withUnit b av brk k)
      (h.addUnit s.nextUnit b av) :=
    ⟨t.addUnit av hf, .withUnit a hfree hav brk k, a.rep.body.holds.addUnit t hf av heq hwords.2⟩
  have hself : (h.addUnit s.nextUnit b av).size b = unitTopSize ∧
      (h.addUnit s.nextUnit b av).use b = .raw ∧ (h.addUnit s.nextUnit b av).flag b = true ∧
      (h.addUnit s.nextUnit b av).keep b = 0 ∧ (h.addUnit s.nextUnit b av).unit b = s.nextUnit ∧
      (h.addUnit s.nextUnit b av).top s.nextUnit = b ∧
      (h.addUnit s.nextUnit b av).base s.nextUnit = b := by
    simp only [Heap.addUnit, Function.update_self, and_self]
  rcases hself with ⟨hsize, hraw, hflag, hkeep, hunit, htop, hbase⟩
  -- the new chunk is the top of its unit, and becomes settled as such
  refine ⟨hbody.settleTop ?_ hraw hflag hkeep ?_ ?_ ?_, hrings⟩
  · rw [hsize]
    decide
  · rw [hunit, htop]
  · rw [Heap.next, Heap.fence, hunit, hbase, hsize]
  · rw [hsize]
    exact hwords.1

theorem Heap.openUnit_settled (hs : h.Settled) (t : h.Tiling) (hf : h.Fits u b) (av : Nat) :
    (h.openUnit u b av).Settled := by
  refine ⟨fun {p} hp hx => ?_, fun {v} hv htop => ?_⟩
  -- the only chunk of the new unit is its top
  · by_cases hpb : p = b
    · rw [hpb, Heap.openUnit, Heap.setUse_use_self]
      decide
    · have huse : (h.openUnit u b av).use p = h.use p :=
        (Heap.setUse_use_of_ne _ _ _ hpb).trans (Function.update_of_ne hpb _ _)
      have hsize : (h.openUnit u b av).size p = h.size p := Function.update_of_ne hpb _ _
      rw [hsize] at hp
      rw [huse]
      exact hs.use hp hx
  · by_cases hvu : v = u
    · subst hvu
      have htop' : (h.openUnit v b av).top v = b := Function.update_self ..
      have hsize : (h.openUnit v b av).size b = unitTopSize := Function.update_self ..
      have hunit : (h.openUnit v b av).unit b = v := Function.update_self ..
      rw [htop', hsize, hunit, Heap.openUnit, Heap.setUse_use_self]
      exact ⟨by decide, rfl, rfl⟩
    · have hbase : (h.openUnit u b av).base v = h.base v := Function.update_of_ne hvu _ _
      have htop' : (h.openUnit u b av).top v = h.top v := Function.update_of_ne hvu _ _
      rw [hbase] at hv
      rw [Heap.fence, htop', hbase] at htop
      have hold := hs.top hv htop
      have hne := (t.far hf hold.1).1
      have huse : (h.openUnit u b av).use (h.top v) = h.use (h.top v) :=
        (Heap.setUse_use_of_ne _ _ _ hne).trans (Function.update_of_ne hne _ _)
      have hsize : (h.openUnit u b av).size (h.top v) = h.size (h.top v) :=
        Function.update_of_ne hne _ _
      have hunit : (h.openUnit u b av).unit (h.top v) = h.unit (h.top v) :=
        Function.update_of_ne hne _ _
      rw [htop', hsize, huse, hunit]
      exact hold

/-- The new unit has no block yet. -/
theorem Heap.openUnit_live (t : h.Tiling) (hf : h.Fits u b) (av : Nat) :
    (h.openUnit u b av).live = h.live := by
  refine Heap.live_congr (fun q hq => ?_)
  have hqb : q ≠ b := by
    rintro rfl
    rcases hq with hq | hq
    · exact (t.far hf hq.1).1 rfl
    · rw [Heap.openUnit, Heap.setUse_use_self] at hq
      exact absurd hq.2 (by decide)
  exact ⟨Function.update_of_ne hqb _ _,
    (Heap.setUse_use_of_ne _ _ _ hqb).trans (Function.update_of_ne hqb _ _),
    Function.update_of_ne hqb _ _, Function.update_of_ne hqb _ _⟩

theorem Heap.openUnit_fasts (h : Heap) (u b av : Nat) :
    FastsFrom h (h.openUnit u b av) := by
  intro q _ huse
  have hqb : q ≠ b := by
    rintro rfl
    rw [Heap.openUnit, Heap.setUse_use_self] at huse
    exact Use.noConfusion huse
  have huse' : (h.openUnit u b av).use q = h.use q :=
    (Heap.setUse_use_of_ne _ _ _ hqb).trans (Function.update_of_ne hqb _ _)
  rw [huse'] at huse
  exact ⟨(Function.update_of_ne hqb _ _).symm, (Function.update_of_ne hqb _ _).symm, huse⟩

/-- A unit from the break in a free range. -/
theorem Grown.withUnit (a : Arena m₀ s h) (hfree : FreeRange s b unitSize) (h8 : b % 8 = 0)
    (hav : av ∈ s.mstateList) (brk : Nat) (k : K) :
    Grown s h (s.withUnit b av brk k) (h.openUnit s.nextUnit b av) := by
  have t := a.rep.body.tidy.tiling
  have hf := hfree.fits a h8
  have hsame := s.withUnit_mstates b av brk k
  have hne : ∀ u ∈ s.ustateList, u ≠ s.nextUnit := fun u hu => (a.wf.units u hu).1.ne
  have hold : ∀ u ∈ s.ustateList, (s.withUnit b av brk k).units u = s.units u :=
    fun u hu => Function.update_of_ne (hne u hu) _ _
  have hbase : ∀ u ≠ s.nextUnit, (h.openUnit s.nextUnit b av).base u = h.base u :=
    fun u hu => Function.update_of_ne hu _ _
  have hmem : ∀ x, x < b ∨ b + unitSize ≤ x → (s.withUnit b av brk k).mem x = s.mem x :=
    fun x hx => s.withUnit_mem b av brk k hx
  have hnil : s.mstateList ≠ [] := List.ne_nil_of_mem hav
  have hnew : (s.withUnit b av brk k).units s.nextUnit = ⟨b, b, unitSize, av⟩ :=
    Function.update_self ..
  have harena : Arena (s.withUnit b av brk k).mem (s.withUnit b av brk k)
      (h.openUnit s.nextUnit b av) := by
    refine ⟨.withUnit a hfree h8 hav brk k, Heap.openUnit_settled a.settled t hf av,
      ⟨?_, a.wf.avs, fun hcon => absurd hcon hnil⟩, ?_, ?_, ?_, fun hcon => absurd hcon hnil, ?_,
      a.nodup_nextUnit, a.owned_nextUnit hav (by rw [hnew]) hold⟩
    · intro u hu
      rcases List.mem_cons.mp hu with rfl | hu
      · rw [hnew]
        exact ⟨Nat.lt_succ_self _, a.wf.avs av hav⟩
      · rw [hold u hu]
        exact ⟨Nat.lt_succ_of_lt (a.wf.units u hu).1, (a.wf.units u hu).2⟩
    · intro av' hav'
      rcases hsame av' with ⟨hmax, -, -, -, hpage, hthreshold, -⟩
      rw [hmax, hpage, hthreshold]
      exact a.ready av' hav'
    · intro u hu hu0
      rcases List.mem_cons.mp hu with rfl | hu
      · have hself : (h.openUnit s.nextUnit b av).base s.nextUnit = b := Function.update_self ..
        have hlo := hf.lo
        omega
      · rw [hbase u (hne u hu)] at hu0
        have hlone := a.lone u hu hu0
        have hlarge := hlone.large
        unfold unitSize at hlarge
        refine hlone.congr (by rw [hold u hu]) (by rw [hold u hu]) (fun x hlo hhi => ?_)
        exact hfree.agree hmem hu x hlo (by unfold Ustate.stop; omega)
    · intro u hu
      have hmm := a.mmapped u hu
      have hunit : (s.withUnit b av brk k).units u = s.units u :=
        Function.update_of_ne hmm.1.ne _ _
      rw [hunit]
      exact ⟨Nat.lt_succ_of_lt hmm.1, hmm.2⟩
    -- a fast chunk lies in an old unit, where it was before
    · intro x hx huse
      rcases h.openUnit_fasts s.nextUnit b av x hx huse with ⟨hsize, hunit, huse'⟩
      have hx' : h.size x ≠ 0 := by
        rw [hsize]
        exact hx
      have hclear := a.clear x hx' huse'
      have hfar := (t.far hf hx').2.1
      rw [Heap.next, Heap.fence, ← hsize, ← hunit, hbase _ hfar]
      exact hclear
  refine ⟨harena, rfl, hold, fun av' => (hsame av').2.2.2.2.2.2, fun u hu => hbase u (hne u hu),
    fun u hu => Function.update_of_ne (hne u hu) _ _, fun p _ => by rw [Heap.openUnit_live t hf av],
    fun u hu => hfree.agree hmem hu, fun x hx => hmem x ?_, fun hc => ?_⟩
  · have hout := hx.outside (u := s.nextUnit) List.mem_cons_self
    rwa [hnew] at hout
  exact hc.sbrked a.wf harena ⟨rfl, hold, rfl⟩ ⟨by rw [hnew], by rw [hnew]⟩ (a.wf.avs av hav)
    (Function.update_self ..) (fun av' hne => Function.update_of_ne hne _ _)

end

/-- The kernel moves the break by one unit, from an aligned address, and the tasks are
    there. -/
def SbrkGranted (ops : KernelOps K) (pid : Nat) (s : State K) : Prop :=
  (s.curbrk = 0 → (s.view.oldBrk ops pid).1 = channelAddr) ∧ (s.view.oldBrk ops pid).1 % 8 = 0 ∧
    (s.view.oldBrk ops pid).1 + unitSize < wordSize ∧
    (s.view.oldBrk ops pid).1 + unitSize ≤ (s.view.newBrk ops pid).1 ∧ TasksLive ops pid s

/-- The break is there when it is asked for. -/
theorem wp_initBreak_granted (ops : KernelOps K) (pid : Nat) {s : State K}
    (hlive : ops.oops s.kern pid = false)
    (hfirst : s.curbrk = 0 → (s.view.oldBrk ops pid).1 = channelAddr)
    {Q : Bool → State K → Prop} {E : Fault → State K → Prop}
    (hQ : Q true { s with
      kern := (s.view.oldBrk ops pid).2
      curbrk := (s.view.oldBrk ops pid).1 }) : wp (initBreak ops pid) Q E s := by
  unfold initBreak
  rw [wp_bind, wp_get]
  by_cases hz : s.curbrk = 0
  · have hold : s.view.oldBrk ops pid = ops.absysBrk s.kern pid 0 := if_pos hz
    rw [hold] at hQ hfirst
    rw [if_pos hz]
    simp only [wp_bind, wp_ablibBrk, hlive, Bool.false_eq_true, wp_get, wp_pure, Nat.not_lt_zero,
      if_false, Int.lt_irrefl, wp_check]
    rw [if_pos (hfirst hz)]
    exact hQ
  · have hold : s.view.oldBrk ops pid = (s.curbrk, s.kern) := if_neg hz
    rw [hold] at hQ
    rw [if_neg hz, wp_pure]
    exact hQ

/-- Either the break moves by a unit, or any fault is accepted. -/
theorem wp_ablibSbrk_safe (ops : KernelOps K) (pid : Nat) {s : State K}
    {E : Fault → State K → Prop} (hE : Safe (SbrkGranted ops pid s) E) :
    wp (ablibSbrk ops pid unitSize)
      (fun r s' => (r = morecoreFailure → ∀ e t, E e t) ∧ (r ≠ morecoreFailure →
        r = (s.view.oldBrk ops pid).1 ∧ r + unitSize < wordSize ∧
        s' = { s with
          kern := (s.view.newBrk ops pid).2
          curbrk := (s.view.newBrk ops pid).1 })) E s := by
  -- either every fault is accepted, or none is met because all is granted
  rcases hE with ⟨hfirst, h8, hroom, hgranted, hlive⟩ | hE
  case inr =>
    refine wp_mono (wp_ablibSbrk ops pid s) (fun r s' h => ⟨fun _ => hE, fun hr => ?_⟩)
      (fun e t _ => hE e t)
    have hall := h hr
    exact ⟨hall.1, hall.2.2.2.1, hall.2.1⟩
  unfold ablibSbrk
  rw [wp_bind]
  refine wp_initBreak_granted ops pid hlive.1 hfirst ?_
  have hunit : unitSize ≠ 0 := by decide
  rw [if_pos rfl, wp_bind, wp_get, if_neg hunit, wp_bind, wp_check, if_pos rfl]
  have hwrap : ¬ ((s.view.oldBrk ops pid).1 + unitSize) % wordSize < (s.view.oldBrk ops pid).1 := by
    rw [Nat.mod_eq_of_lt hroom]
    omega
  rw [if_neg hwrap]
  have hsame : ops.oops (s.view.oldBrk ops pid).2 pid = false := by
    rw [(s.view.oops_brk ops pid).1]
    exact hlive.1
  simp only [wp_bind, wp_ablibBrk, hsame, Bool.false_eq_true, if_false, wp_pure]
  have hnew : ops.absysBrk (s.view.oldBrk ops pid).2 pid ((s.view.oldBrk ops pid).1 + unitSize) =
      s.view.newBrk ops pid := rfl
  rw [hnew, if_neg (Nat.not_lt.mpr hgranted), if_neg (by decide)]
  refine ⟨fun hfail => ?_, fun _ => ⟨rfl, hroom, rfl⟩⟩
  simp only [morecoreFailure, unitSize, wordSize] at *
  omega

theorem State.put_mem (s : State K) {a x : Nat} (v : Nat) (hx : x < a ∨ a + 4 ≤ x) :
    (s.put a v).mem x = s.mem x := by
  simp only [State.put, Mem.store32]
  exact if_neg (by omega)

section

variable {m₀ : Mem} {s : State K} {h : Heap} {av nb : Nat} {L : Label}
variable {E : Fault → State K → Prop}

/-- What the sbrk branch gives: a unit with the request cut from its top, or
    nothing if the request does not fit into a unit. -/
structure Sbrked (s : State K) (h : Heap) (av nb mem : Nat) (s' : State K) (h' : Heap) : Prop where
  grown : Grown s h s' h'
  owner : h'.owner s.nextUnit = av
  locked : s'.locked = s.locked
  block : unitTopSize < nb + minSize ∧ mem = 0 ∨ nb + minSize ≤ unitTopSize ∧
    ∃ p, mem = p + 8 ∧ h.live p = none ∧ h'.live p = some (nb, s.nextUnit, 0)

/-- What the heap has to say about a unit that was just opened: all of it is its top. -/
theorem Heap.openUnit_new (h : Heap) (u b av : Nat) :
    ((h.openUnit u b av).top u = b ∧ (h.openUnit u b av).base u = b ∧
      (h.openUnit u b av).owner u = av ∧ (h.openUnit u b av).fence u = b + unitTopSize) ∧
    (h.openUnit u b av).size b = unitTopSize ∧ (h.openUnit u b av).unit b = u ∧
      (h.openUnit u b av).keep b = 0 := by
  have hbase : (h.openUnit u b av).base u = b := Function.update_self ..
  refine ⟨⟨Function.update_self .., hbase, Function.update_self .., ?_⟩, Function.update_self ..,
    Function.update_self .., Function.update_self ..⟩
  unfold Heap.fence
  rw [hbase]

/-- There is still one more unit after a block was handed out, as long as the stores and
    the records that change are those of the new unit. -/
theorem Grown.handed {s₁ s' : State K} {h₁ h' : Heap} {p : Nat} (hg : Grown s h s₁ h₁)
    (hframe : Frame s₁ s') (harena : Arena s'.mem s' h') (hhand : Handed h₁ h' av nb p)
    (hp : h.live p = none) (hunits : ∀ u ∈ s.ustateList, s'.units u = s.units u)
    (hmem : ∀ u ∈ s.ustateList, s.mem.Agree s'.mem (s.units u).addr (s.units u).stop)
    (hvacant : ∀ x, FreeRange s' x 1 → s'.mem x = s.mem x) (k : K) :
    Grown s h { s' with kern := k } h' where
  arena := harena.outer rfl
  list := (congrArg State.ustateList hframe.rest).trans hg.list
  unit := hunits
  label := by
    intro av'
    change (s'.mstates av').label = _
    rw [hframe.mstate av']
    exact hg.label av'
  base := by
    rw [hhand.base]
    exact hg.base
  owner := by
    rw [hhand.owner]
    exact hg.owner
  live := by
    intro q hq
    rcases hhand.live with ⟨z, u, hlive, -, -⟩
    have hne : q ≠ p := fun heq => hq (heq ▸ hp)
    rw [hlive, Function.update_of_ne hne]
    exact hg.live q hq
  mem := hmem
  vacant := hvacant
  counts := fun hc => ((hg.counts hc).onward hframe.onward hg.arena.wf).congr rfl rfl rfl rfl

/-- Cutting the first block from a new unit. -/
theorem Sbrked.cut (a : Arena m₀ s h) {b : Nat} (hfree : FreeRange s b unitSize) (h8 : b % 8 = 0)
    (hav : av ∈ s.mstateList) (hnb : 16 ≤ nb) (hnb8 : nb % 8 = 0)
    (hfits : nb + minSize ≤ unitTopSize) (brk : Nat) (k k' : K) :
    Sbrked s h av nb (b + 8)
      { (((((s.withUnit b av brk k).moveTop s.nextUnit (b + nb)).put (b + 4) (nb + 1)).put
        (b + nb + 4) (unitTopSize - nb + 1)).put (b + unitTopSize) (unitTopSize - nb)) with
        kern := k' }
      ((h.openUnit s.nextUnit b av).shorten s.nextUnit nb) := by
  have hf := hfree.fits a h8
  have t := a.rep.body.tidy.tiling
  have hg := Grown.withUnit a hfree h8 hav brk k
  have hlo := hf.lo
  obtain ⟨⟨htop, hbase, howner, hfence⟩, hsize, hunitb, hkeepb⟩ :=
    h.openUnit_new s.nextUnit b av
  have hfresh : h.live b = none :=
    Heap.live_eq_none.mpr (fun hpos => absurd rfl (t.far hf hpos).1)
  have hu : (h.openUnit s.nextUnit b av).base s.nextUnit ≠ 0 := by
    rw [hbase]
    omega
  have hne : (h.openUnit s.nextUnit b av).top s.nextUnit ≠
      (h.openUnit s.nextUnit b av).fence s.nextUnit := by
    rw [htop, hfence]
    unfold unitTopSize
    omega
  unfold minSize at hfits
  have hrest : nb + 16 ≤ (h.openUnit s.nextUnit b av).size
      ((h.openUnit s.nextUnit b av).top s.nextUnit) := by
    rw [htop, hsize]
    exact hfits
  have hrep := hg.arena.rep.shorten hg.arena.settled hu hne hnb hnb8 hrest
  have hset := Heap.shorten_settled hg.arena.rep.body.tidy hg.arena.settled hu hne hnb hrest
  have hhand := Heap.shorten_handed hg.arena.rep.body.tidy hg.arena.settled hu hne hnb hrest
  rw [htop, hfence, hsize] at hrep
  rw [htop, howner] at hhand
  generalize ht : ((((s.withUnit b av brk k).moveTop s.nextUnit (b + nb)).put (b + 4) (nb + 1)).put
    (b + nb + 4) (unitTopSize - nb + 1)).put (b + unitTopSize) (unitTopSize - nb) = s' at *
  -- all stores are in the new unit, and only its record changes
  have hframe : Frame (s.withUnit b av brk k) s' := by
    rw [← ht]
    refine ⟨rfl, fun v => ?_, fun _ => rfl, fun _ h => h⟩
    by_cases hv : v = s.nextUnit
    · subst hv
      simp only [State.put, State.moveTop, Function.update_self]
    · simp only [State.put, State.moveTop, Function.update_of_ne hv]
  have hmem : ∀ x, x < b ∨ b + unitSize ≤ x → s'.mem x = s.mem x := by
    intro x hx
    have hx' := hx
    unfold unitSize at hx'
    unfold unitTopSize at hfits
    rw [← ht, State.put_mem _ _ (by unfold unitTopSize; omega), State.put_mem _ _ (by omega),
      State.put_mem _ _ (by omega)]
    exact s.withUnit_mem b av brk k hx
  have hunits : ∀ u ∈ s.ustateList, s'.units u = s.units u := by
    intro u hu'
    rw [← ht]
    exact (Function.update_of_ne (a.wf.units u hu').1.ne _ _).trans (hg.unit u hu')
  have hout : ∀ x, FreeRange s' x 1 → x < b ∨ b + unitSize ≤ x := by
    intro x hx
    have hout := hx.outside (u := s.nextUnit) (by
      rw [congrArg State.ustateList hframe.rest]
      exact List.mem_cons_self)
    have hunit := hframe.onward.unit s.nextUnit
    have hnew : (s.withUnit b av brk k).units s.nextUnit = ⟨b, b, unitSize, av⟩ :=
      Function.update_self ..
    rw [hnew] at hunit
    dsimp only at hunit hout
    omega
  have harena := (hg.arena.step hframe hrep hset hhand.base hhand.wasFast).fresh
  refine ⟨hg.handed hframe harena hhand hfresh hunits (fun u hu' => hfree.agree hmem hu')
    (fun x hx => hmem x (hout x hx)) k', hhand.owner ▸ howner, ?_,
    .inr ⟨hfits, b, rfl, hfresh, ?_⟩⟩
  · change s'.locked = s.locked
    rw [← ht]
    rfl
  · have hfields := (h.openUnit s.nextUnit b av).shorten_fields s.nextUnit hnb
    rw [htop] at hfields
    have hsame := hfields.2.2.2.2.2.2 b (by omega)
    rw [Heap.live_eq_some]
    refine ⟨?_, hfields.2.2.1, hfields.1, hsame.1.trans hunitb, hsame.2.1.trans hkeepb⟩
    rw [hfields.1]
    omega

/-- The sbrk branch gives a unit with the request cut from its top, if it fits. -/
theorem Arena.mallocSbrk (a : Arena m₀ s h) (ops : KernelOps K) (pid : Nat)
    (hav : av ∈ s.mstateList) (hnb : 16 ≤ nb) (hnb8 : nb % 8 = 0)
    (hfree : FreeRange s (s.view.oldBrk ops pid).1 unitSize)
    (hE : Safe (¬ haveFastchunks (s.mstates av) ∧ SbrkGranted ops pid s) E) :
    wp (ArbiterThread.mallocSbrk ops pid nb av L)
      (fun mem s' => ∃ h', Sbrked s h av nb mem s' h') E s := by
  unfold ArbiterThread.mallocSbrk
  rw [wp_bind, wp_getMstate, wp_bind, wp_check]
  split
  case isFalse hfast => exact hE.elim (fun hC => absurd hC.1 hfast) (fun hE => hE _ _)
  rw [wp_bind]
  refine wp_imp (wp_ablibSbrk_safe ops pid (hE.mono And.right)) (fun fst s₁ h₁ => ?_)
  rw [wp_bind, wp_check]
  split
  case isFalse hfail => exact h₁.1 (not_not.mp hfail) _ _
  rename_i hfst
  obtain ⟨hold, hroom, rfl⟩ := h₁.2 hfst
  have hsafe8 : Safe (fst % 8 = 0) E := hE.mono (fun hC => by rw [hold]; exact hC.2.2.1)
  rw [← hold] at hfree
  have hlow := hfree.1
  have hhigh := hfree.2.1
  simp only [channelEnd, channelAddr, channelSize, unitSize] at hlow hhigh
  simp only [unitInitState, wp_bind, wp_modify, wp_check, wp_setMstate]
  have hchunk : chunk2mem fst = fst + 8 := by
    unfold chunk2mem wordSize
    omega
  rw [hchunk]
  split
  case isFalse hmis =>
    exact hsafe8.elim (fun hC => absurd (show (fst + 8) % 8 = 0 by omega) hmis) (fun hE => hE _ _)
  rename_i haligned
  have h8 : fst % 8 = 0 := by omega
  simp only [wp_get, wp_set, wp_pure]
  -- the fenceposts
  have hg := Grown.withUnit a hfree h8 hav (s.view.newBrk ops pid).1 (s.view.newBrk ops pid).2
  have hoff : chunkAtOffset fst unitTopSize = fst + unitTopSize ∧
      chunkAtOffset fst (unitTopSize + 4) = fst + unitTopSize + 4 := by
    unfold chunkAtOffset wordSize unitTopSize
    omega
  have hmapped : ∀ {t : State K} x, fst ≤ x → x + 4 ≤ fst + 40960 → mapped t x := by
    intro t x hlo hhi
    simp only [mapped, wordSize, channelAddr, channelSize]
    omega
  unfold fencepost setHead
  rw [hoff.1, hoff.2, wp_bind]
  have hword : withInuse unitTopSize = unitTopSize + 1 := by decide
  rw [hword]
  refine wp_store_mapped (hmapped _ (by omega) (by omega)) ?_
  rw [wp_bind]
  refine wp_store_mapped (hmapped _ (by omega) (by unfold unitTopSize; omega)) ?_
  refine wp_store_mapped
    (hmapped _ (by unfold unitTopSize; omega) (by unfold unitTopSize; omega)) ?_
  -- the records and stores so far, in one state
  suffices hrest : wp (chunksize fst) (fun size s' => wp (if nb + minSize ≤ size then do
        setUnitTop s.nextUnit (chunkAtOffset fst nb)
        store (fst + 4) (withInuse nb)
        store (chunkAtOffset fst nb + 4) (withInuse (size - nb))
        setFoot (chunkAtOffset fst nb) (size - nb)
        protUpdate ops pid fst size L
        pure (fst + 8)
      else pure 0) (fun mem s' => ∃ h', Sbrked s h av nb mem s' h') E s') E
      (s.withUnit fst av (s.view.newBrk ops pid).1 (s.view.newBrk ops pid).2) by
    convert hrest using 1
    · rfl
    · simp only [State.put, State.amend, State.withUnit, State.addUnit, Function.update_self,
        Function.update_idem]
  have hwords := s.withUnit_words fst av (s.view.newBrk ops pid).1 (s.view.newBrk ops pid).2
  unfold chunksize headOf
  rw [wp_bind]
  refine wp_load_mapped (hmapped _ (by omega) (by omega)) ?_
  rw [hwords.1, wp_pure, show sizeOfHead (unitTopSize + 1) = unitTopSize from by decide]
  have howner : (h.openUnit s.nextUnit fst av).owner s.nextUnit = av := Function.update_self ..
  by_cases hfits : nb + minSize ≤ unitTopSize
  · have hfits' := hfits
    simp only [minSize, unitTopSize] at hfits'
    have hcut : chunkAtOffset fst nb = fst + nb ∧
        chunkAtOffset (fst + nb) (unitTopSize - nb) = fst + unitTopSize := by
      unfold chunkAtOffset wordSize unitTopSize
      omega
    rw [if_pos hfits, hcut.1, withInuse_of_mod hnb8,
      withInuse_of_mod (show (unitTopSize - nb) % 8 = 0 by unfold unitTopSize; omega)]
    simp only [wp_bind, wp_setUnitTop]
    refine wp_store_mapped (hmapped _ (by omega) (by omega)) ?_
    refine wp_store_mapped (hmapped _ (by omega) (by omega)) ?_
    unfold setFoot setPrevSize
    rw [hcut.2]
    refine wp_store_mapped (hmapped _ (by omega) (by unfold unitTopSize; omega)) ?_
    rw [wp_protUpdate]
    split
    · rename_i hkills
      refine hE.resolve_left (fun hC => ?_) _ _
      have hsame : protKills ops pid (s.view.newBrk ops pid).2 s.clients =
          protKills ops pid s.kern s.clients := protKills_congr (s.view.oops_brk ops pid).2 pid _
      exact Bool.false_ne_true ((hsame.trans hC.2.2.2.2.2.2).symm.trans hkills)
    rw [wp_pure]
    exact ⟨_, .cut a hfree h8 hav hnb hnb8 hfits _ _ _⟩
  · rw [if_neg hfits, wp_pure]
    exact ⟨_, hg, howner, rfl, .inl ⟨Nat.lt_of_not_le hfits, rfl⟩⟩

/-! ### Either of the two -/

/-- The range of the new unit is free. -/
def RoomFor (ops : KernelOps K) (pid nb av : Nat) (s : State K) : Prop :=
  if TakesMmap s av nb then FreeRange s (areaFor s av nb) (mmapSize (s.mstates av) nb)
  else FreeRange s (s.view.oldBrk ops pid).1 unitSize

instance (ops : KernelOps K) (pid nb av : Nat) (s : State K) :
    Decidable (RoomFor ops pid nb av s) := by
  unfold RoomFor
  infer_instance

/-- No fast chunks are pending, and the kernel grants what is asked for. -/
def AllocGranted (ops : KernelOps K) (pid nb av : Nat) (s : State K) : Prop :=
  ¬ haveFastchunks (s.mstates av) ∧
    if TakesMmap s av nb then MmapGranted ops pid nb av s else SbrkGranted ops pid s

instance decidableAllocGranted (ops : KernelOps K) (pid nb av : Nat) (s : State K) :
    Decidable (AllocGranted ops pid nb av s) := by
  unfold AllocGranted MmapGranted SbrkGranted
  infer_instance

/-- What `__malloc_alloc` gives. -/
inductive Obtained (s : State K) (h : Heap) (av nb mem : Nat) (s' : State K) (h' : Heap) : Prop
  | mapped (same : h' = h) (unit : Mapped s h av nb mem s')
  | sbrked (takes : ¬ TakesMmap s av nb) (unit : Sbrked s h av nb mem s' h')

theorem Obtained.grown {mem : Nat} {s' : State K} {h' : Heap} (ho : Obtained s h av nb mem s' h') :
    Grown s h s' h' := by
  cases ho with
  | mapped same unit =>
    subst same
    exact unit.grown
  | sbrked _ unit => exact unit.grown

theorem Obtained.locked {mem : Nat} {s' : State K} {h' : Heap}
    (ho : Obtained s h av nb mem s' h') : s'.locked = s.locked := by
  cases ho with
  | mapped _ unit => exact unit.locked
  | sbrked _ unit => exact unit.locked

/-- A new unit, unless there are fastbin chunks: then the lock is waited for forever. -/
theorem Arena.mallocAlloc (a : Arena m₀ s h) (ops : KernelOps K)
    (retry : Nat → Nat → Label → HeapM K Nat) (pid : Nat) (hav : av ∈ s.mstateList)
    (hlocked : s.locked = true) (hnb : 16 ≤ nb) (hnb8 : nb % 8 = 0)
    (hroom : ¬ haveFastchunks (s.mstates av) → RoomFor ops pid nb av s)
    (hE : Safe (AllocGranted ops pid nb av s) E) :
    wp (ArbiterThread.mallocAlloc ops (ablibMallocStep ops retry) pid nb av L)
      (fun mem s' => ¬ haveFastchunks (s.mstates av) ∧ ∃ h', Obtained s h av nb mem s' h') E s := by
  unfold ArbiterThread.mallocAlloc
  rw [wp_bind, wp_getMstate]
  by_cases hpending : haveFastchunks (s.mstates av)
  · -- the call of `ablib_malloc` with the lock held
    have hE := hE.resolve_left (fun hC => hC.1 hpending)
    rw [if_pos hpending, wp_bind, wp_check]
    split
    case isFalse => exact hE _ _
    rw [wp_bind]
    refine wp_mono (frame_mallocConsolidate s av (a.active hav)) (fun _ s₁ hf => ?_)
      (fun _ _ _ => hE _ _)
    have hlocked₁ := hf.outside.locked.trans hlocked
    exact wp_mono (ablibMallocStep_blocks ops retry pid L (by omega) hlocked₁)
      (fun _ _ h => h.elim) (fun _ _ _ => hE _ _)
  · have hroom := hroom hpending
    unfold RoomFor at hroom
    unfold AllocGranted at hE
    rw [if_neg hpending, wp_bind]
    refine a.mallocMmap ops pid hav (fun htakes => by rwa [if_pos htakes] at hroom)
      (hE.mono (fun hC htakes => by rw [if_pos htakes] at hC; exact hC.2))
      (fun mem s' hm => ?_) (fun htakes => ?_)
    · rw [wp_pure]
      exact ⟨hpending, h, .mapped rfl hm⟩
    · rw [if_neg htakes] at hroom hE
      exact wp_imp (a.mallocSbrk ops pid hav hnb hnb8 hroom hE)
        (fun mem s' ⟨h', hs⟩ => ⟨hpending, h', .sbrked htakes hs⟩)

end

end ArbiterThread
