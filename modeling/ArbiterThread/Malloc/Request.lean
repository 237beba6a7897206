import ArbiterThread.Malloc.Obtain

/-!
# Requests

`ablib_malloc` and `ablib_calloc` on a heap that is in order. The blocks there
were keep their place and their contents, and the new block, if there is one, is
a block that was not there before, with the label of the request and room for
what was asked for.

To follow the contents, all user bytes of the blocks there are are noted down as
bytes to keep before a call begins. A chunk that the call itself writes to can be
left out. This is `Heap.guard`.

What can go wrong is that the range of a new unit is not free, and that a unit
top is left with 8 bytes. Both are told by running the request up to the point
where it matters, in `RequestOk`. The ways in which a request does not return
are in `RequestGranted`.

## Main definitions

* `Heap.guard`: All user bytes are to be kept, but those of one chunk.
* `Carries`: The blocks there were are still there, with the same contents.
* `RequestOk`: The request meets no defect.
* `Supplied`: What a request leaves.

## Theorems

* `Carries.of_step`, `Carries.of_grown`, `Carries.trans`: How a call is put together.
* `Arena.ablibMalloc`: A request.
* `Owns.carries_write`: Writing to a block.
* `Arena.ablibCalloc`: A request for a cleared block.
-/

namespace ArbiterThread

open Exec Rings

variable {K : Type}

/-! ### Noting down the contents -/

/-- All user bytes of the chunks in use are to be kept, but for the chunk at `q`. -/
def Heap.guard (h : Heap) (q : Nat) : Heap :=
  { h with keep := fun p => if h.use p = .live ∧ p ≠ q then h.size p - 4 else 0 }

section

variable {m₀ : Mem} {s s' s'' : State K} {h h' h'' : Heap} {g : Grant} {q : Nat}

theorem Heap.guard_live (h : Heap) (q p : Nat) :
    (h.guard q).live p =
      (h.live p).map fun r => (r.1, r.2.1, if p = q then 0 else r.1 - 4) := by
  unfold Heap.live
  by_cases hp : h.size p ≠ 0 ∧ h.use p = .live
  · rw [if_pos hp, if_pos (show (h.guard q).size p ≠ 0 ∧ (h.guard q).use p = .live from hp)]
    by_cases hs : p = q
    · simp [Heap.guard, hs]
    · simp [Heap.guard, hp.2, hs]
  · rw [if_neg hp,
      if_neg (show ¬ ((h.guard q).size p ≠ 0 ∧ (h.guard q).use p = .live) from hp)]
    rfl

theorem Heap.Tidy.guard (t : h.Tidy) (q : Nat) : (h.guard q).Tidy := by
  refine ⟨t.tiling.congr rfl rfl rfl, ⟨t.flags.free, t.flags.inuse, t.flags.before⟩,
    t.lists.congr rfl rfl rfl (fun _ _ => ⟨rfl, rfl, rfl⟩) (fun hx huse => ⟨hx, huse⟩), t.tops,
    fun {p} hp => ?_, fun {p} hp hlive _ => if_neg (fun hc => hlive hc.1)⟩
  have hsize := (t.tiling.bounds hp).2.2.2.2.1
  change (if h.use p = .live ∧ p ≠ q then h.size p - 4 else 0) + 4 ≤ h.size p
  split <;> omega

/-- The state with the contents of the blocks noted down. -/
theorem Arena.guard (a : Arena m₀ s h) (q : Nat) : Arena s.mem s (h.guard q) := by
  have b := a.fresh.rep.body
  have hholds : (h.guard q).Holds s.mem s.mem :=
    ⟨b.holds.head, b.holds.foot, b.holds.fence, b.holds.fasts, b.holds.pending,
      fun _ _ _ _ => rfl, fun _ _ => rfl⟩
  exact ⟨⟨⟨b.tidy.guard q, b.tracks.congr rfl rfl rfl rfl, hholds⟩, a.rep.rings⟩,
    ⟨a.settled.use, a.settled.top⟩, a.wf, a.ready, a.lone, a.mmapped, a.blank, a.clear, a.nodup,
    a.owned⟩

theorem Owns.of_guard (hg : Owns s (h.guard q) g) : Owns s h g := by
  cases hg with
  | chunk p z u k hmem hp hroom hlabel =>
    rw [Heap.guard_live, Option.map_eq_some_iff] at hp
    obtain ⟨⟨z', u', k'⟩, hp, heq⟩ := hp
    simp only [Prod.mk.injEq] at heq
    obtain ⟨rfl, rfl, -⟩ := heq
    exact .chunk p z' u' k' hmem hp hroom hlabel
  | lone u hu hu0 hmem hroom hlabel => exact .lone u hu hu0 hmem hroom hlabel

theorem Owns.guard (hg : Owns s h g) (q : Nat) : Owns s (h.guard q) g := by
  cases hg with
  | chunk p z u k hmem hp hroom hlabel =>
    refine .chunk p z u (if p = q then 0 else z - 4) hmem ?_ hroom hlabel
    rw [Heap.guard_live, hp]
    rfl
  | lone u hu hu0 hmem hroom hlabel => exact .lone u hu hu0 hmem hroom hlabel

/-- A chunk in use that is guarded keeps its contents. -/
theorem Owns.same (hg : Owns s h g) (a : Arena m₀ s h) (r : Rep s.mem s' h')
    (hbase : h'.base = h.base)
    (hlive : ∀ p, g.mem = p + 8 → h.live p ≠ none → h'.live p = (h.guard q).live p)
    (hout : g.mem ≠ q + 8) : s.mem.Agree s'.mem g.mem (g.mem + g.bytes) := by
  intro x hlo hhi
  cases hg with
  | chunk p z u k hmem hp hroom hlabel =>
    have hguard : h'.live p = some (z, u, z - 4) := by
      rw [hlive p hmem (by rw [hp]; simp), Heap.guard_live, hp]
      simp only [Option.map_some]
      rw [if_neg (by omega)]
    obtain ⟨hsize, -, -, -, hkeep⟩ := Heap.live_eq_some.mp hguard
    exact r.body.holds.kept hsize x (by omega) (by omega)
  | lone u hu hu0 hmem hroom hlabel =>
    have hlower := (a.lone u hu hu0).lower
    unfold channelAddr at hlower
    exact Rep.outside_eq a.fresh.rep r hbase (by omega)
      (a.rep.body.tracks.lone_apart hu hu0 (by omega) (by omega))

/-! ### What a call leaves -/

theorem Onward.freeRange (ho : Onward s s') {y n : Nat} : FreeRange s' y n ↔ FreeRange s y n := by
  have hunit : ∀ u, Misses s'.units y n u ↔ Misses s.units y n u := by
    intro u
    unfold Misses Ustate.stop
    rw [(ho.unit u).1, (ho.unit u).2.1]
  unfold FreeRange
  simp only [ho.list, hunit]

/-- The units there were are there, with the same extent. -/
def KeepsUnits (s s' : State K) : Prop :=
  ∀ u ∈ s.ustateList, u ∈ s'.ustateList ∧ (s'.units u).addr = (s.units u).addr ∧
    (s'.units u).length = (s.units u).length

theorem Onward.keepsUnits (ho : Onward s s') : KeepsUnits s s' :=
  fun u hu => ⟨ho.list ▸ hu, (ho.unit u).1, (ho.unit u).2.1⟩

/-- The heap is in order, and the blocks there were are still there with the same
    contents, but for those in `x`. The statistics are right if they were. -/
structure Carries (s : State K) (h : Heap) (s' : State K) (h' : Heap) (x : Nat → Prop) : Prop where
  arena : Arena s'.mem s' h'
  owns : ∀ g, Owns s h g → ¬ x g.mem → Owns s' h' g
  same : ∀ g, Owns s h g → ¬ x g.mem → s.mem.Agree s'.mem g.mem (g.mem + g.bytes)
  vacant : Undisturbed s s'
  counts : Counted s → Counted s'

variable {x y : Nat → Prop}

theorem Carries.refl (a : Arena m₀ s h) (x : Nat → Prop) : Carries s h s h x :=
  ⟨a.fresh, fun _ hg _ => hg, fun _ _ _ _ _ _ => rfl, fun _ _ _ => rfl, id⟩

/-- Bytes that are in no unit before and after two steps were in none between them. -/
def Between (s s' s'' : State K) : Prop :=
  ∀ y, FreeRange s y 1 → FreeRange s'' y 1 → FreeRange s' y 1

theorem Undisturbed.trans (h1 : Undisturbed s s') (h2 : Undisturbed s' s'')
    (hmid : Between s s' s'') : Undisturbed s s'' := fun y hy hy'' =>
  (h2 y (hmid y hy hy'') hy'').trans (h1 y hy (hmid y hy hy''))

theorem Carries.trans (h1 : Carries s h s' h' x) (h2 : Carries s' h' s'' h'' y)
    (hmid : Between s s' s'') : Carries s h s'' h'' (fun mem => x mem ∨ y mem) := by
  refine ⟨h2.arena, fun g hg hx => ?_, fun g hg hx z hlo hhi => ?_,
    h1.vacant.trans h2.vacant hmid, fun hc => h2.counts (h1.counts hc)⟩
  · exact h2.owns g (h1.owns g hg (fun h => hx (.inl h))) (fun h => hx (.inr h))
  · have howns := h1.owns g hg (fun h => hx (.inl h))
    rw [h2.same g howns (fun h => hx (.inr h)) z hlo hhi]
    exact h1.same g hg (fun h => hx (.inl h)) z hlo hhi

theorem Carries.mono (hc : Carries s h s' h' x) (hxy : ∀ mem, x mem → y mem) :
    Carries s h s' h' y :=
  ⟨hc.arena, fun g hg hy => hc.owns g hg (fun hx => hy (hxy _ hx)),
    fun g hg hy => hc.same g hg (fun hx => hy (hxy _ hx)), hc.vacant, hc.counts⟩

/-- A step on the units there are, with the contents noted down before. -/
theorem Carries.of_step (a : Arena m₀ s h) (a' : Arena s.mem s' h') (ho : Onward s s')
    (hbase : h'.base = h.base) (howner : h'.owner = h.owner)
    (hlive : ∀ p, ¬ x (p + 8) → h.live p ≠ none → h'.live p = (h.guard q).live p)
    (hout : h.live q ≠ none → x (q + 8)) : Carries s h s' h' x := by
  refine ⟨a'.fresh, fun g hg hx => ?_, fun g hg hx => ?_, fun y hy _ => ?_,
    fun hc => hc.onward ho a.wf⟩
  · refine (hg.guard q).onward (a.guard q) ho hbase howner (fun p hmem hp => ?_)
    have hp' : h.live p ≠ none := by
      intro hnone
      rw [Heap.guard_live, hnone] at hp
      exact hp rfl
    exact hlive p (hmem ▸ hx) hp'
  · by_cases hmem : g.mem = q + 8
    · have hnone : h.live q = none := by
        by_contra hne
        exact hx (hmem ▸ hout hne)
      cases hg with
      | chunk p z u k hmem' hp hroom hlabel =>
        obtain rfl : p = q := by omega
        rw [hp] at hnone
        cases hnone
      | lone u hu hu0 hmem' hroom hlabel =>
        -- no chunk is there, so nothing is left out
        refine (Owns.lone u hu hu0 hmem' hroom hlabel).same (q := 0) a a'.rep hbase
          (fun p hmem'' hp => ?_) ?_
        · obtain rfl : p = q := by omega
          exact absurd hnone hp
        · have hlower := (a.lone u hu hu0).lower
          unfold channelAddr at hlower
          omega
    · exact hg.same a a'.rep hbase (fun p hp hp' => hlive p (hp ▸ hx) hp') hmem
  · exact Rep.outside_eq a.fresh.rep a'.rep hbase hy.1 (fun v hv => hy.apart a hv)

/-- A new unit. -/
theorem Carries.of_grown (a : Arena m₀ s h) (hgrown : Grown s h s' h') (x : Nat → Prop) :
    Carries s h s' h' x := by
  refine ⟨hgrown.arena, fun g hg _ => hg.grown a hgrown, fun g hg _ z hlo hhi => ?_,
    fun y _ hy => hgrown.vacant y hy, hgrown.counts⟩
  obtain ⟨u, hu, hlo', hhi', -⟩ := hg.inside a
  exact hgrown.mem u hu z (by omega) (by unfold Ustate.stop; omega)

/-- Only the memory, the records and the lists matter. -/
theorem Carries.outer (hc : Carries s h s' h' x)
    (hs : s'' = { s' with
      locked := s''.locked
      curbrk := s''.curbrk
      kern := s''.kern
      clients := s''.clients
      catGen := s''.catGen }) : Carries s h s'' h' x := by
  have hmem : s''.mem = s'.mem := by rw [hs]
  have ha : Arena s''.mem s'' h' := by
    rw [hmem]
    exact hc.arena.outer hs
  have hlists : s''.ustateList = s'.ustateList ∧ s''.units = s'.units ∧
      s''.mstates = s'.mstates ∧ s''.nextMstate = s'.nextMstate := by
    rw [hs]
    exact ⟨rfl, rfl, rfl, rfl⟩
  have hvacant : Undisturbed s s'' := by
    intro y hy hy'
    rw [hmem]
    refine hc.vacant y hy ?_
    unfold FreeRange at hy' ⊢
    rwa [hlists.1, hlists.2.1] at hy'
  refine ⟨ha, fun g hg hx => ?_, fun g hg hx => by rw [hmem]; exact hc.same g hg hx, hvacant,
    fun hcount => (hc.counts hcount).congr hlists.1 hlists.2.1 hlists.2.2.1 hlists.2.2.2⟩
  -- a block is known by its chunk or by its unit, neither of which changed
  have howns := hc.owns g hg hx
  cases howns with
  | chunk p z u k hmem hp hroom hlabel =>
    exact .chunk p z u k hmem hp hroom (by rw [hlists.2.2.1]; exact hlabel)
  | lone u hu hu0 hmem hroom hlabel =>
    refine .lone u (by rw [hlists.1]; exact hu) hu0 ?_ ?_ ?_
    · rw [hlists.2.1]
      exact hmem
    · rw [hlists.2.1]
      exact hroom
    · rw [hlists.2.1, hlists.2.2.1]
      exact hlabel

end

/-! ### A request -/

/-- The request leaves no unit top with 8 bytes, and if it gets as far as a new
    unit, then `P` of the chunk size, the `malloc_state` and the state. -/
def RequestOk (P : Nat → Nat → State K → Prop) (bytes : Nat) (L : Label) (s : State K) : Prop :=
  MallocOk P bytes L s ∧ (bytes = 0 ∨ requestOutOfRange bytes ∨ TopOk bytes L s)

/-- Nothing stops the request: the lock is free, there is a `malloc_state` for the label or
    room for one more, and if it gets as far as a new unit, it can have it. -/
def RequestGranted (ops : KernelOps K) (pid bytes : Nat) (L : Label) (s : State K) : Prop :=
  bytes = 0 ∨ CanEnter L s ∧
    (requestOutOfRange bytes ∨
      AtAlloc bytes L (fun av s' => AllocGranted ops pid (request2size bytes) av s') s)

/-- The request is for a block that can be had: it is not out of range, and if it gets as far
    as a new unit, then that one is mapped for it, or large enough. -/
def GetsBlock (bytes : Nat) (L : Label) (s : State K) : Prop :=
  ¬ requestOutOfRange bytes ∧ AtAlloc bytes L (fun av s' => TakesMmap s' av (request2size bytes) ∨
    request2size bytes + minSize ≤ unitTopSize) s

/-- What a request leaves: the units and blocks there were, and a new block. A block that is
    mapped by itself has the contents its area had when the unit was obtained, and what was
    in no unit had not changed until then. -/
structure Supplied (P : Nat → Nat → State K → Prop) (s : State K) (h : Heap) (bytes : Nat)
    (L : Label) (mem : Nat) (s' : State K) (h' : Heap) : Prop where
  carries : Carries s h s' h' (fun _ => False)
  units : KeepsUnits s s'
  block : mem ≠ 0 → (∃ n, request2size bytes ≤ n + 4 ∧ Owns s' h' ⟨mem, n, L⟩) ∧
    ∀ g, Owns s h g → g.mem ≠ mem
  snug : ∀ p z u k, mem = p + 8 → h'.live p = some (z, u, k) → z < request2size bytes + 16
  locked : s'.locked = true → s.locked = true ∨ requestOutOfRange bytes
  origin : ∀ u ∈ s'.ustateList, h'.base u = 0 → mem = (s'.units u).addr + 8 →
    ∃ av s₂, P (request2size bytes) av s₂ ∧ TakesMmap s₂ av (request2size bytes) ∧
      areaFor s₂ av (request2size bytes) = (s'.units u).addr ∧
      mmapSize (s₂.mstates av) (request2size bytes) = (s'.units u).length ∧
      (∀ y, FreeRange s y 1 → s₂.mem y = s.mem y) ∧
      s₂.mem.Agree s'.mem mem ((s'.units u).addr + (s'.units u).length)

section

variable {m₀ : Mem} {s s' : State K} {h h' : Heap} {g : Grant} {av nb bytes mem p : Nat}
variable {L : Label} {P : Nat → Nat → State K → Prop} {x : Nat → Prop}
variable {E : Fault → State K → Prop}

theorem Arena.live_zero (a : Arena m₀ s h) : h.live 0 = none := by
  rw [Heap.live_eq_none]
  intro hsize
  have hlo := (a.rep.body.tidy.tiling.bounds hsize).1
  omega

theorem Admitted.carries (hr : Admitted s.mem s L av s' h') (a : Arena m₀ s h)
    (hbase : h'.base = h.base) (howner : h'.owner = h.owner)
    (hlive : ∀ p, h.live p ≠ none → h'.live p = (h.guard 0).live p) (x : Nat → Prop) :
    Carries s h s' h' x :=
  Carries.of_step a hr.arena hr.onward hbase howner (fun p _ => hlive p)
    (fun hne => absurd a.live_zero hne)

theorem Handed.carries (hh : Handed (h.guard 0) h' av nb p) (hr : Admitted s.mem s L av s' h')
    (a : Arena m₀ s h) (x : Nat → Prop) : Carries s h s' h' x := by
  refine hr.carries a hh.base hh.owner (fun q hq => ?_) x
  obtain ⟨z, u, hlive, -⟩ := hh.live
  have hne : q ≠ p := by
    rintro rfl
    have hfresh := hh.fresh
    rw [Heap.guard_live, Option.map_eq_none_iff] at hfresh
    exact hq hfresh
  rw [hlive, Function.update_of_ne hne]

/-- There is no block yet where a chunk is handed out. -/
theorem Carries.chunk_new (hc : Carries s h s' h' (fun _ => False)) {z u k : Nat}
    (hfresh : h.live p = none) (hlive : h'.live p = some (z, u, k))
    (hlone : ∀ v ∈ s.ustateList, h.base v = 0 → v ∈ s'.ustateList ∧ h'.base v = 0 ∧
      (s'.units v).addr = (s.units v).addr) (hg : Owns s h g) : g.mem ≠ p + 8 := by
  intro hmem
  cases hg with
  | chunk q z' u' k' hmem' hq hroom hlabel =>
    obtain rfl : q = p := by omega
    rw [hq] at hfresh
    cases hfresh
  | lone v hv hv0 hmem' hroom hlabel =>
    obtain ⟨hv', hv0', haddr⟩ := hlone v hv hv0
    have hlarge := (hc.arena.lone v hv' hv0').large
    have hz := (hc.arena.live_bounds hlive).2.2.2.2.2
    have happart := hc.arena.chunk_lone hlive hv' hv0'
    rw [haddr] at happart
    unfold unitSize at hlarge
    omega

/-- A chunk is not in a mapped unit. -/
theorem Arena.chunk_ne_lone (a : Arena m₀ s h) {z u k v : Nat} (hp : h.live p = some (z, u, k))
    (hv : v ∈ s.ustateList) (hv0 : h.base v = 0) : p + 8 ≠ (s.units v).addr + 8 := by
  have hlarge := (a.lone v hv hv0).large
  have hz := (a.live_bounds hp).2.2.2.2.2
  have happart := a.chunk_lone hp hv hv0
  unfold unitSize at hlarge
  omega

/-- A chunk that was handed out. -/
theorem Handed.supplied (hh : Handed (h.guard 0) h' av (request2size bytes) p)
    (hr : Admitted s.mem s L av s' h') (a : Arena m₀ s h) :
    Supplied P s h bytes L (p + 8) { s' with locked := false } h' := by
  have hc : Carries s h s' h' (fun _ => False) := hh.carries hr a _
  have hc' : Carries s h { s' with locked := false } h' (fun _ => False) := hc.outer rfl
  obtain ⟨z, u, hlive, hz, howner⟩ := hh.live
  have hp : h'.live p = some (z, u, 0) := by rw [hlive, Function.update_self]
  have hfresh : h.live p = none := by
    have hguard := hh.fresh
    rwa [Heap.guard_live, Option.map_eq_none_iff] at hguard
  have hroom := (request2size_spec bytes).2.2.1
  -- no chunk but this one is at the block
  have hsnug : ∀ q z' u' k, p + 8 = q + 8 → h'.live q = some (z', u', k) →
      z' < request2size bytes + 16 := by
    intro q z' u' k hq hlive'
    obtain rfl : q = p := by omega
    rw [hp] at hlive'
    cases hlive'
    exact hz.2
  refine ⟨hc', hr.onward.keepsUnits, fun _ => ⟨⟨z - 4, by omega, .chunk p z u 0 rfl hp ?_ ?_⟩,
    fun g hg => ?_⟩, hsnug, fun hlocked => Bool.noConfusion hlocked,
    fun v hv hv0 hmem => absurd hmem (hc'.arena.chunk_ne_lone hp hv hv0)⟩
  · change z - 4 + 4 = z
    omega
  · change (s'.mstates (h'.owner u)).label = L
    rw [hh.owner, howner]
    exact hr.label
  · refine hc.chunk_new hfresh hp (fun v hv hv0 => ⟨?_, ?_, (hr.onward.unit v).1⟩) hg
    · rw [hr.onward.list]
      exact hv
    · rw [hh.base]
      exact hv0

/-- The blocks there were are not in a new unit. -/
theorem Grown.apart (hgrown : Grown s h s' h') (a : Arena m₀ s h) (hg : Owns s h g)
    (hlo : (s'.units s.nextUnit).addr ≤ mem)
    (hhi : mem < (s'.units s.nextUnit).addr + (s'.units s.nextUnit).length) : g.mem ≠ mem := by
  rintro rfl
  obtain ⟨u, hu, hlo', hhi', -, hbytes⟩ := hg.inside a
  have hnew : s.nextUnit ∈ s'.ustateList := by
    rw [hgrown.list]
    exact List.mem_cons_self
  have hold : u ∈ s'.ustateList := by
    rw [hgrown.list]
    exact List.mem_cons_of_mem _ hu
  have happart := hgrown.arena.rep.body.tracks.apart u hold _ hnew (a.wf.units u hu).1.ne
  rw [hgrown.unit u hu] at happart
  omega

/-- A block in a new unit. -/
theorem Obtained.supplied {s₂ : State K} {h₂ : Heap}
    (ho : Obtained s₂ h₂ av (request2size bytes) mem s' h') (hr : Admitted s.mem s L av s₂ h₂)
    (hc : Carries s h s₂ h₂ (fun _ => False)) (hP : P (request2size bytes) av s₂) :
    Supplied P s h bytes L mem { s' with locked := false } h' := by
  have hgrown := ho.grown
  have hc' : Carries s h { s' with locked := false } h' (fun _ => False) :=
    ((hc.trans (Carries.of_grown hc.arena hgrown (fun _ => False))
      (fun _ hy _ => hr.onward.freeRange.mpr hy)).mono (fun _ hx => hx.elim id id)).outer rfl
  have hnew : s₂.nextUnit ∈ s'.ustateList := by
    rw [hgrown.list]
    exact List.mem_cons_self
  have hroom := (request2size_spec bytes).2.2.1
  have hlabel : (s'.mstates av).label = L := (hgrown.label av).trans hr.label
  have hunits : KeepsUnits s { s' with locked := false } := by
    intro u hu
    obtain ⟨hu₂, haddr, hlength⟩ := hr.onward.keepsUnits u hu
    change u ∈ s'.ustateList ∧ (s'.units u).addr = _ ∧ (s'.units u).length = _
    rw [hgrown.list, hgrown.unit u hu₂]
    exact ⟨List.mem_cons_of_mem _ hu₂, haddr, hlength⟩
  refine ⟨hc', hunits, fun hmem => ?_, fun q z u k hmem hq => ?_,
    fun hlocked => Bool.noConfusion hlocked, fun v hv hv0 hmem => ?_⟩
  -- a whole unit, or a chunk cut off the top of one
  · cases ho with
    | mapped same unit =>
      subst same
      obtain ⟨haddr, hlength, hav⟩ := unit.unit
      have hwide := unit.room
      refine ⟨⟨mmapSize (s₂.mstates av) (request2size bytes) - 8, by omega,
        .lone s₂.nextUnit hnew hc.arena.base_nextUnit ?_ ?_ ?_⟩, fun g hg => ?_⟩
      · change mem = (s'.units s₂.nextUnit).addr + 8
        rw [haddr]
        exact unit.block
      · change _ - 8 + 8 = (s'.units s₂.nextUnit).length
        rw [hlength]
        omega
      · change (s'.mstates (s'.units s₂.nextUnit).unitAv).label = L
        rw [hav]
        exact hlabel
      · have hblock := unit.block
        exact hgrown.apart hc.arena (hc.owns g hg id) (by rw [haddr]; omega)
          (by rw [haddr, hlength]; omega)
    | sbrked takes unit =>
      obtain ⟨-, p, rfl, hfresh, hp⟩ := unit.block.resolve_left (fun hshort => hmem hshort.2)
      obtain ⟨-, hunit, -, hlo, hhi, -⟩ := hgrown.arena.live_bounds hp
      refine ⟨⟨request2size bytes - 4, by omega, .chunk p _ _ 0 rfl hp ?_ ?_⟩, fun g hg => ?_⟩
      · change _ - 4 + 4 = _
        omega
      · change (s'.mstates (h'.owner s₂.nextUnit)).label = L
        rw [unit.owner]
        exact hlabel
      · refine hgrown.apart hc.arena (hc.owns g hg id) ?_ ?_
        · rw [hunit]
          dsimp only
          omega
        · rw [hunit]
          simp only [unitSize, unitTopSize] at hhi ⊢
          omega
  -- the block of a mapped unit is no chunk
  · cases ho with
    | mapped same unit =>
      subst same
      have hblock := unit.block
      have haddr := unit.unit.1
      exact absurd (show q + 8 = (s'.units s₂.nextUnit).addr + 8 by omega)
        (hgrown.arena.chunk_ne_lone hq hnew hc.arena.base_nextUnit)
    | sbrked takes unit =>
      rcases unit.block with hshort | ⟨-, p, hp, -, hlive⟩
      · omega
      · obtain rfl : p = q := by omega
        rw [hlive] at hq
        cases hq
        omega
  -- the block of an sbrk unit is no mapped one, which all lie in the channel
  · cases ho with
    | mapped same unit =>
      subst same
      obtain ⟨haddr, hlength, -⟩ := unit.unit
      have hblock := unit.block
      have hlarge := (hgrown.arena.lone _ hnew hc.arena.base_nextUnit).large
      change mem = (s'.units v).addr + 8 at hmem
      obtain rfl : v = s₂.nextUnit := by
        by_contra hne
        have happart := hgrown.arena.rep.body.tracks.apart v hv _ hnew hne
        have hlarge' := (hgrown.arena.lone v hv hv0).large
        unfold unitSize at hlarge hlarge'
        omega
      exact ⟨av, s₂, hP, unit.takes, haddr.symm, hlength.symm,
        fun y hy => hc.vacant y hy (hr.onward.freeRange.mpr hy),
        fun x hx _ => unit.mem x (.inr (by omega))⟩
    | sbrked takes unit =>
      have hlower := (hc'.arena.lone v hv hv0).lower
      obtain ⟨-, p, rfl, hfresh, hp⟩ := unit.block.resolve_left (by
        unfold channelAddr at hlower
        omega)
      exact absurd hmem (hc'.arena.chunk_ne_lone hp hv hv0)

/-- A condition on the state before `__malloc_alloc` is there when the request gets
    that far, or faults are no concern. -/
theorem Safe.atAlloc {C : Nat → State K → Prop} (hE : Safe (AtAlloc bytes L C s) E) :
    AtAlloc bytes L (fun av s' => Safe (C av s') E) s := by
  exact wp_imp hE.wp (fun _ _ h hnone => h.mono (fun hC => hC hnone))

/-- A request that does nothing, or makes a `malloc_state` only. -/
theorem Supplied.none (hc : Carries s h s' h' (fun _ => False)) (hunits : KeepsUnits s s')
    (hlocked : s'.locked = true → s.locked = true ∨ requestOutOfRange bytes) :
    Supplied P s h bytes L 0 s' h' :=
  ⟨hc, hunits, fun hne => absurd rfl hne, fun _ _ _ _ hmem => absurd hmem (by omega), hlocked,
    fun _ _ _ hmem => absurd hmem (by omega)⟩

theorem Arena.ablibMalloc (a : Arena m₀ s h) (ops : KernelOps K) (pid : Nat)
    (hP : ∀ nb av s, P nb av s → RoomFor ops pid nb av s) (hok : RequestOk P bytes L s)
    (hE : Safe (RequestGranted ops pid bytes L s) E) :
    wp (ArbiterThread.ablibMalloc ops pid bytes L)
      (fun mem s' => ∃ h', Supplied P s h bytes L mem s' h') E s := by
  change wp (ablibMallocStep ops (ablibMallocStep ops (ablibMallocAux ops 0)) pid bytes L) _ E s
  unfold ablibMallocStep
  simp only [lookupMstateByLabel, wp_bind, wp_get, wp_pure, wp_ite]
  split
  · rename_i hbytes
    exact ⟨h, .none (Carries.refl a _) (fun _ hu => ⟨hu, rfl, rfl⟩) .inl⟩
  rename_i hbytes
  have hE : Safe (CanEnter L s ∧ (requestOutOfRange bytes ∨
      AtAlloc bytes L (fun av s' => AllocGranted ops pid (request2size bytes) av s') s)) E :=
    hE.mono (fun hC => hC.resolve_left hbytes)
  have hlock := hE.mono (fun hC => hC.1)
  by_cases hrange : requestOutOfRange bytes
  -- out of range: only the label is entered
  · simp only [hrange, if_true]
    refine (a.guard 0).mallocEnter L hlock (fun av hr => ?_) (fun hlimit => ?_)
    · exact ⟨_, .none (hr.carries a rfl rfl (fun _ _ => rfl) _) hr.onward.keepsUnits
        (fun _ => .inr hrange)⟩
    · have a' : Arena s.mem { s with locked := true } (h.guard 0) := (a.guard 0).outer rfl
      have w := ({ s with locked := true } : State K).widened_withMstate hlimit
      refine ⟨h.guard 0, .none (Carries.of_step a (a'.widen w) w.onward.of_locked rfl rfl
        (fun _ _ _ => rfl) (fun hne => absurd a.live_zero hne)) w.onward.of_locked.keepsUnits
        (fun _ => .inr hrange)⟩
  have hroom := (hok.1.resolve_left hbytes).resolve_left hrange
  have htop := (hok.2.resolve_left hbytes).resolve_left hrange
  have hgrant := (hE.mono (fun hC => hC.2.resolve_left hrange)).atAlloc
  obtain ⟨hnb, hnb8, -, -⟩ := request2size_spec bytes
  rw [atAlloc_iff] at hroom hgrant
  simp only [hrange, if_false]
  refine wp_mono (wp_and ((a.guard 0).mallocBeforeAlloc bytes L hlock htop) (wp_and hroom hgrant))
    (fun av s₁ h₁ => ?_) (fun _ _ he => he.1)
  rw [mallocBody, wp_bind]
  refine wp_mono (wp_and h₁.1 (wp_and h₁.2.1 h₁.2.2)) (fun found s₂ h₂ => ?_) (fun _ _ he => he.1)
  obtain ⟨⟨h', hr, hfound⟩, hroom, hgrant⟩ := h₂
  -- from the bins or a top, or from a new unit
  cases found with
  | some mem =>
    obtain ⟨p, rfl, hh⟩ := hfound
    rw [wp_pure, wp_mallocUnlock, if_pos hr.locked]
    exact ⟨h', hh.supplied hr a⟩
  | none =>
    have hc : Carries s h s₂ h' (fun _ => False) :=
      hr.carries a hfound.base hfound.owner (fun p _ => by rw [hfound.live]) _
    refine wp_imp (hr.arena.mallocAlloc ops _ pid hr.listed hr.locked hnb hnb8
      (fun hfast => hP _ _ _ (hroom rfl hfast)) (hgrant rfl)) (fun mem s₃ h₃ => ?_)
    obtain ⟨hfast, h₃', ho⟩ := h₃
    rw [wp_mallocUnlock, if_pos (ho.locked.trans hr.locked)]
    exact ⟨h₃', ho.supplied hr hc (hroom rfl hfast)⟩

/-- A new unit holds a block if it is mapped for it, or large enough. -/
theorem Obtained.ne_zero_iff (ho : Obtained s h av nb mem s' h') :
    mem ≠ 0 ↔ TakesMmap s av nb ∨ nb + minSize ≤ unitTopSize := by
  cases ho with
  | mapped same unit =>
    rw [unit.block]
    exact ⟨fun _ => .inl unit.takes, fun _ => by omega⟩
  | sbrked takes unit =>
    rcases unit.block with ⟨hshort, hzero⟩ | ⟨hfits, p, rfl, -⟩
    · exact ⟨fun hmem => absurd hzero hmem, fun hC => absurd (hC.resolve_left takes) (by omega)⟩
    · exact ⟨fun _ => .inr hfits, fun _ => by omega⟩

/-- Whether a request gets a block is known before it is made. -/
theorem Arena.ablibMalloc_gets (a : Arena m₀ s h) (ops : KernelOps K) (pid : Nat)
    (hP : ∀ nb av s, P nb av s → RoomFor ops pid nb av s) (hbytes : bytes ≠ 0)
    (hok : RequestOk P bytes L s) :
    wp (ArbiterThread.ablibMalloc ops pid bytes L) (fun mem _ => mem ≠ 0 ↔ GetsBlock bytes L s)
      (fun _ _ => True) s := by
  obtain ⟨G, hG⟩ : ∃ G, G ↔ GetsBlock bytes L s := ⟨_, Iff.rfl⟩
  simp only [← hG]
  change wp (ablibMallocStep ops (ablibMallocStep ops (ablibMallocAux ops 0)) pid bytes L) _ _ s
  unfold ablibMallocStep
  simp only [lookupMstateByLabel, wp_bind, wp_get, wp_pure, wp_ite, if_neg hbytes]
  by_cases hrange : requestOutOfRange bytes
  · simp only [hrange, if_true]
    exact wp_of_forall (fun _ _ => ⟨fun hmem => absurd rfl hmem, fun hgets =>
      absurd hrange (hG.mp hgets).1⟩) (fun _ _ => trivial)
  have hroom := (hok.1.resolve_left hbytes).resolve_left hrange
  have htop := (hok.2.resolve_left hbytes).resolve_left hrange
  obtain ⟨hnb, hnb8, -, -⟩ := request2size_spec bytes
  -- what is found before `__malloc_alloc` decides
  have hat : wp (ArbiterThread.mallocBeforeAlloc bytes L) (fun r s' => G ↔ (r.2 = none →
      TakesMmap s' r.1 (request2size bytes) ∨ request2size bytes + minSize ≤ unitTopSize))
      (fun _ _ => True) s :=
    wp_imp (wp_outcome _ _ _ s) (fun _ _ hiff => (hG.trans (and_iff_right hrange)).trans hiff)
  rw [atAlloc_iff] at hroom
  rw [wp_mallocBeforeAlloc] at hat
  simp only [hrange, if_false]
  refine wp_mono (wp_and ((a.guard 0).mallocBeforeAlloc bytes L (E := fun _ _ => True)
    (.inr fun _ _ => trivial) htop) (wp_and hroom hat)) (fun av s₁ h₁ => ?_) (fun _ _ he => he.1)
  rw [mallocBody, wp_bind]
  refine wp_mono (wp_and h₁.1 (wp_and h₁.2.1 h₁.2.2)) (fun found s₂ h₂ => ?_) (fun _ _ he => he.1)
  obtain ⟨⟨h', hr, hfound⟩, hroom, hat⟩ := h₂
  cases found with
  | some mem =>
    obtain ⟨p, rfl, -⟩ := hfound
    rw [wp_pure, wp_mallocUnlock, if_pos hr.locked]
    exact ⟨fun _ => hat.mpr (fun hnone => absurd hnone (Option.some_ne_none _)), fun _ => by omega⟩
  | none =>
    refine wp_imp (hr.arena.mallocAlloc ops _ pid hr.listed hr.locked hnb hnb8
      (fun hfast => hP _ _ _ (hroom rfl hfast)) (.inr fun _ _ => trivial))
      (fun mem s₃ h₃ => ?_)
    obtain ⟨-, h₃', ho⟩ := h₃
    rw [wp_mallocUnlock, if_pos (ho.locked.trans hr.locked)]
    exact ho.ne_zero_iff.trans ⟨fun hC => hat.mpr fun _ => hC, fun hG => hat.mp hG rfl⟩

end

/-! ### Writing to a block -/

section

variable {m₀ m : Mem} {s s' s'' : State K} {h h' h'' : Heap} {g : Grant} {p mem : Nat}

/-- The user bytes of a chunk in use may be written, if they need not be kept. -/
theorem Rep.write (r : Rep m₀ s h) (hp : h.size p ≠ 0) (huse : h.use p = .live)
    (hkeep : h.keep p = 0) (hm : ∀ x, x < p + 8 ∨ h.next p + 4 ≤ x → m x = s.mem x) :
    Rep m₀ { s with mem := m } h := by
  have t := r.body.tidy
  -- a chunk other than `p` has its header and its links on one side of `p`
  have happart : ∀ q, h.size q ≠ 0 → q ≠ p → q + 16 ≤ p ∨ h.next p ≤ q := by
    intro q hq hne
    have hsize := (t.tiling.bounds hq).2.2.2.2.1
    have hsides := t.tiling.apart_of_ne hq hp hne
    unfold Heap.next at hsides ⊢
    omega
  have hholds : h.Holds m₀ m := by
    refine r.body.holds.congr t.lists (fun {q} hq hraw => ?_) (fun x hx => ?_)
    · refine Eq.trans ?_ (r.body.holds.head hq hraw)
      refine Mem.load32_congr (fun x hlo hhi => hm x ?_)
      by_cases hne : q = p
      · omega
      · have hsides := happart q hq hne
        omega
    · refine hm x ?_
      by_contra hin
      have hcases := hx.inside t hp (by omega) (by omega)
      rw [huse, hkeep] at hcases
      simp only [reduceCtorEq, or_self, false_and, false_or, Nat.add_zero] at hcases
      omega
  refine ⟨⟨t, r.body.tracks.mem m, hholds⟩, fun {av i} hd => ?_⟩
  have hd' : Header s av i := ⟨hd.active, hd.lo, hd.hi⟩
  have hlinks : ∀ a ∈ binAt av i :: h.bins av i, ∀ x, a + 8 ≤ x → x < a + 16 →
      m x = s.mem x := by
    intro a ha x hlo hhi
    refine hm x ?_
    have hplow := (t.tiling.bounds hp).1
    rcases List.mem_cons.mp ha with rfl | ha
    · have hbin := (r.body.tracks.header_bounds hd').2.2.1
      omega
    · have hfree := t.lists.bin ha
      have hne : a ≠ p := by
        rintro rfl
        rw [huse] at hfree
        exact absurd hfree.2.1 (by decide)
      have hsides := happart a hfree.1 hne
      omega
  refine (r.rings hd').congr (fun a ha => ?_) (fun a ha => ?_)
  · exact Mem.load32_congr (fun x hlo hhi => hlinks a ha x hlo (by omega))
  · exact Mem.load32_congr (fun x hlo hhi => hlinks a ha x (by omega) (by omega))

/-- A state with other user bytes in one block. -/
theorem Owns.write (hg : Owns s h g) (a : Arena m₀ s h)
    (hm : ∀ x, x < g.mem ∨ g.mem + g.bytes ≤ x → m x = s.mem x) :
    Arena m { s with mem := m } (h.guard (g.mem - 8)) := by
  have ag := a.guard (g.mem - 8)
  obtain ⟨u, hu, -⟩ := hg.inside a
  have hnil : s.mstateList ≠ [] := by
    intro hnil
    rw [a.wf.start hnil] at hu
    cases hu
  -- the unit header words and links are outside of the block in both cases
  cases hg with
  | chunk p z u k hmem hp hroom hlabel =>
    obtain ⟨hsize, huse, hz, -, -⟩ := Heap.live_eq_some.mp hp
    obtain rfl : g.mem - 8 = p := by omega
    set p := g.mem - 8
    have r : Rep s.mem { s with mem := m } (h.guard p) := by
      refine ag.rep.write hsize huse ?_ (fun x hx => hm x ?_)
      · change (if h.use p = .live ∧ p ≠ p then _ else 0) = 0
        rw [if_neg (fun hc => hc.2 rfl)]
      · change x < p + 8 ∨ p + h.size p + 4 ≤ x at hx
        omega
    have a' : Arena s.mem { s with mem := m } (h.guard p) := by
      refine ⟨r, ag.settled, ⟨a.wf.units, a.wf.avs, a.wf.start⟩, a.ready, fun v hv hv0 => ?_,
        a.mmapped, fun h => absurd h hnil, ag.clear, a.nodup, a.owned⟩
      have hlone := a.lone v hv hv0
      have hsides := a.chunk_lone hp hv hv0
      have hlarge := hlone.large
      unfold unitSize at hlarge
      exact hlone.congr rfl rfl (fun x hlo hhi => hm x (by omega))
    exact a'.fresh
  | lone u hu hu0 hmem hroom hlabel =>
    have r : Rep m { s with mem := m } (h.guard (g.mem - 8)) := by
      refine ag.rep.rebase (ag.rep.body.tracks.mem m) (fun _ hav => hav) (fun x hx => hm x ?_)
        (fun v hv x hlo hhi => hm x ?_)
      · have hlower := (a.lone u hu hu0).lower
        unfold channelAddr at hlower
        omega
      · by_contra hin
        have happart := a.rep.body.tracks.lone_apart (x := x) hu hu0 (by omega) (by omega) v hv
        change h.base v ≤ x at hlo
        change x < h.base v + 40960 at hhi
        omega
    refine ⟨r, ag.settled, ⟨a.wf.units, a.wf.avs, a.wf.start⟩, a.ready, fun v hv hv0 => ?_,
      a.mmapped, fun h => absurd h hnil, ag.clear, a.nodup, a.owned⟩
    have hlone := a.lone v hv hv0
    have hlarge := hlone.large
    unfold unitSize at hlarge
    refine hlone.congr rfl rfl (fun x hlo hhi => hm x ?_)
    by_cases heq : v = u
    · subst heq
      omega
    · have happart := a.rep.body.tracks.apart v hv u hu heq
      omega

/-- The other blocks do not notice. -/
theorem Owns.carries_write (hg : Owns s h g) (a : Arena m₀ s h)
    (hm : ∀ x, x < g.mem ∨ g.mem + g.bytes ≤ x → m x = s.mem x) :
    Carries s h { s with mem := m } (h.guard (g.mem - 8)) (· = g.mem) ∧
      Owns { s with mem := m } (h.guard (g.mem - 8)) g := by
  have howns : ∀ g', Owns s h g' → Owns { s with mem := m } (h.guard (g.mem - 8)) g' := by
    intro g' hg'
    cases hg'.guard (g.mem - 8) with
    | chunk p z u k hmem hp hroom hlabel => exact .chunk p z u k hmem hp hroom hlabel
    | lone u hu hu0 hmem hroom hlabel => exact .lone u hu hu0 hmem hroom hlabel
  refine ⟨⟨hg.write a hm, fun g' hg' _ => howns g' hg', fun g' hg' hne x hlo hhi => hm x ?_,
    fun x hx _ => hm x ?_, fun hc => hc.congr rfl rfl rfl rfl⟩, howns g hg⟩
  · have happart := hg'.disjoint hg a hne
    omega
  · obtain ⟨u, hu, hlo, hhi, -⟩ := hg.inside a
    have hout := hx.outside hu
    omega

end

/-! ### A cleared block -/

section

variable {s : State K} {d mem n head : Nat} {Q : Unit → State K → Prop}
variable {E : Fault → State K → Prop}

theorem mapped_channel {x : Nat} (hlo : channelAddr ≤ x) (hhi : x + 4 ≤ channelEnd) :
    mapped s x := by
  refine ⟨?_, .inr (.inl ⟨hlo, hhi⟩)⟩
  simp only [channelEnd, channelAddr, channelSize, wordSize] at *
  omega

theorem wp_bulk {f : Mem → Mem} (hn : n ≠ 0) (hlo : channelAddr ≤ d) (hhi : d + n ≤ channelEnd)
    (hQ : Q () { s with mem := f s.mem }) : wp (bulk d n f) Q E s := by
  unfold bulk
  rw [wp_bind, wp_get, if_neg hn, if_pos ⟨hlo, hhi⟩, wp_set]
  exact hQ

/-- The words from the `i`th on are cleared. -/
theorem wp_clearWords (m : Mem) {j : Nat} (hlo : channelAddr ≤ d) :
    ∀ i, d + 4 * (i + j) ≤ channelEnd → Q () { s with mem := m.fill d (4 * (i + j)) 0 } →
      wp (clearWords d (List.range' i j)) Q E { s with mem := m.fill d (4 * i) 0 } := by
  induction j with
  | zero =>
    intro i _ hQ
    rw [List.range'_zero, clearWords, wp_pure]
    exact hQ
  | succ j ih =>
    intro i hhi hQ
    rw [List.range'_succ, clearWords, wp_bind]
    refine wp_store_mapped (mapped_channel (by omega) (by omega)) ?_
    have hnext := ih (i + 1) (by omega) (by rwa [Nat.add_right_comm i 1 j, Nat.add_assoc])
    rwa [← Mem.fill_store32] at hnext

/-- All user bytes of a chunk are cleared. The unrolled loop gets to all of them,
    because their number of words is odd. -/
theorem wp_clearBlock (hhead : sizeOfHead head = n + 4) (h8 : (n + 4) % 8 = 0) (hn : 12 ≤ n)
    (hlo : channelAddr ≤ mem) (hhi : mem + n ≤ channelEnd)
    (hQ : Q () { s with mem := s.mem.fill mem n 0 }) : wp (clearBlock mem head) Q E s := by
  have hsize : (sizeOfHead head + (wordSize - 4)) % wordSize = n := by
    simp only [channelEnd, channelAddr, channelSize] at hhi
    rw [hhead]
    unfold wordSize
    omega
  unfold clearBlock
  dsimp only
  rw [hsize, wp_bind, wp_check, if_pos (by omega)]
  by_cases hlarge : 9 < n / 4
  · rw [if_pos hlarge]
    exact wp_bulk (by omega) hlo hhi hQ
  · have hall : 4 * (0 + unrolled (n / 4)) = n := by
      unfold unrolled
      split_ifs <;> omega
    rw [if_neg hlarge, List.range_eq_range']
    have hstart : s.mem.fill mem (4 * 0) 0 = s.mem := by
      funext x
      simp only [Mem.fill]
      rw [if_neg (by omega)]
    have hwords := wp_clearWords (s := s) (Q := Q) (E := E) s.mem hlo 0 (by rw [hall]; exact hhi)
      (by rw [hall]; exact hQ)
    rwa [hstart] at hwords

end

section

variable {m₀ : Mem} {s s' : State K} {h h' : Heap} {g : Grant} {bytes mem : Nat}
variable {L : Label} {P : Nat → Nat → State K → Prop} {E : Fault → State K → Prop}

/-- A block is in the channel heap, and so is its header. -/
theorem Owns.channel (hg : Owns s h g) (a : Arena m₀ s h) :
    channelAddr + 8 ≤ g.mem ∧ g.mem + g.bytes ≤ channelEnd := by
  obtain ⟨u, hu, hlo, hhi, -⟩ := hg.inside a
  have hbounded := a.rep.body.tracks.bounded u hu
  refine ⟨?_, ?_⟩
  · cases hg with
    | chunk p z u' k hmem hp hroom hlabel =>
      have hbounds := (a.rep.body.tidy.tiling.bounds (Heap.live_eq_some.mp hp).1).1
      unfold channelAddr
      omega
    | lone v hv hv0 hmem hroom hlabel =>
      have hlower := (a.lone v hv hv0).lower
      omega
  · simp only [channelEnd, channelAddr, channelSize]
    omega

/-- A pointer to a block gives the chunk before it. -/
theorem Owns.mem2chunk (hg : Owns s h g) (a : Arena m₀ s h) :
    ArbiterThread.mem2chunk g.mem + 8 = g.mem := by
  have hchannel := hg.channel a
  simp only [channelEnd, channelAddr, channelSize] at hchannel
  unfold ArbiterThread.mem2chunk wordSize
  omega

/-- Reading the header of a block. -/
theorem Owns.headOf (hg : Owns s h g) (a : Arena m₀ s h) {Q : Nat → State K → Prop}
    (hchunk : ∀ p z u k, g.mem = p + 8 → h.live p = some (z, u, k) → g.bytes + 4 = z →
      Q (h.head p) s)
    (hlone : ∀ u ∈ s.ustateList, h.base u = 0 → g.mem = (s.units u).addr + 8 →
      g.bytes + 8 = (s.units u).length → Q ((s.units u).length + 2) s) :
    wp (ArbiterThread.headOf (ArbiterThread.mem2chunk g.mem)) Q E s := by
  have hmem := hg.mem2chunk a
  have hchannel := hg.channel a
  unfold ArbiterThread.headOf
  refine wp_load_mapped (mapped_channel (by omega) (by omega)) ?_
  cases hg with
  | chunk p z u k hmem' hp hroom hlabel =>
    obtain ⟨hsize, huse, -⟩ := Heap.live_eq_some.mp hp
    obtain rfl : ArbiterThread.mem2chunk g.mem = p := by omega
    rw [a.rep.body.holds.head hsize (by rw [huse]; decide)]
    exact hchunk _ z u k hmem' hp hroom
  | lone u hu hu0 hmem' hroom hlabel =>
    obtain haddr : ArbiterThread.mem2chunk g.mem = (s.units u).addr := by omega
    rw [haddr, (a.lone u hu hu0).head]
    exact hlone u hu hu0 hmem' hroom

/-- A write to a block that was not there before the call. -/
theorem Carries.write_new {s'' : State K} {h'' : Heap}
    (hc : Carries s h s' h' (fun _ => False)) (hnew : ∀ g, Owns s h g → g.mem ≠ mem)
    (hw : Carries s' h' s'' h'' (· = mem)) (hmid : Between s s' s'') :
    Carries s h s'' h'' (fun _ => False) := by
  have htrans := hc.trans hw hmid
  have hx : ∀ g, Owns s h g → ¬ (False ∨ g.mem = mem) := fun g hg hx =>
    hnew g hg (hx.resolve_left id)
  exact ⟨htrans.arena, fun g hg _ => htrans.owns g hg (hx g hg),
    fun g hg _ => htrans.same g hg (hx g hg), htrans.vacant, htrans.counts⟩

theorem Arena.ablibCalloc (a : Arena m₀ s h) (ops : KernelOps K) (pid : Nat) {n e : Nat}
    (hP : ∀ nb av s, P nb av s → RoomFor ops pid nb av s)
    (hok : n * e < wordSize → RequestOk P (n * e) L s)
    (hE : Safe (n * e < wordSize → RequestGranted ops pid (n * e) L s) E) :
    wp (ArbiterThread.ablibCalloc ops pid n e L) (fun mem s' =>
      wordSize ≤ n * e ∧ mem = 0 ∧ s' = s ∨ n * e < wordSize ∧
        ∃ h', Supplied P s h (n * e) L mem s' h' ∧
          ∀ p z u k, mem = p + 8 → h'.live p = some (z, u, k) →
            ∀ x, mem ≤ x → x < mem + n * e → s'.mem x = 0) E s := by
  unfold ArbiterThread.ablibCalloc
  dsimp only
  by_cases hover : n ≠ 0 ∧ e ≠ n * e % wordSize / n
  · rw [if_pos hover, wp_pure]
    exact .inl ⟨(calloc_overflow_iff n e).mp hover, rfl, rfl⟩
  have hlt : n * e < wordSize := by
    by_contra hge
    exact hover ((calloc_overflow_iff n e).mpr (Nat.le_of_not_lt hge))
  rw [if_neg hover, Nat.mod_eq_of_lt hlt, wp_bind]
  refine wp_imp (a.ablibMalloc ops pid hP (hok hlt) (hE.mono (fun hC => hC hlt)))
    (fun mem s₁ ⟨h₁, hs⟩ => ?_)
  -- no memory: nothing is cleared
  by_cases hmem : mem = 0
  · rw [if_neg (not_not.mpr hmem), wp_pure]
    exact .inr ⟨hlt, h₁, hs, fun p _ _ _ hp => by omega⟩
  rw [if_pos hmem, wp_bind]
  obtain ⟨⟨room, hroom, hg⟩, hnew⟩ := hs.block hmem
  have a₁ := hs.carries.arena
  have hchannel := hg.channel a₁
  refine hg.headOf a₁ (fun p z u k hmem' hp hz => ?_) (fun u hu hu0 hmem' hlength => ?_)
  · -- a chunk: not mapped by itself, so it is cleared
    dsimp only at hmem' hz hchannel
    obtain ⟨hsz, huse, rfl, -⟩ := Heap.live_eq_some.mp hp
    have hbounds := a₁.rep.body.tidy.tiling.bounds hsz
    have hhead := a₁.rep.body.tidy.tiling.sizeOfHead hsz
    rw [if_neg (a₁.rep.body.tidy.tiling.not_isMmapped hsz), wp_bind]
    refine wp_clearBlock (hhead.trans hz.symm) (by omega) (by omega) (by omega) hchannel.2 ?_
    have hfill : ∀ x, x < mem ∨ mem + room ≤ x → s₁.mem.fill mem room 0 x = s₁.mem x := by
      intro x hx
      simp only [Mem.fill]
      rw [if_neg (by omega)]
    have hw := hg.carries_write a₁ hfill
    rw [wp_pure]
    refine .inr ⟨hlt, _, ⟨hs.carries.write_new hnew hw.1 (fun _ _ hy => hy), hs.units,
      fun _ => ⟨⟨room, hroom, hw.2⟩, hnew⟩, fun q z u' k' hq hlive => ?_, hs.locked,
      fun v hv hv0 hmem'' => ?_⟩, fun _ _ _ _ _ _ x hlo hhi => ?_⟩
    · rw [Heap.guard_live, Option.map_eq_some_iff] at hlive
      obtain ⟨⟨z₁, u₁, k₁⟩, hlive, heq⟩ := hlive
      obtain rfl : z₁ = z := congrArg Prod.fst heq
      exact hs.snug q _ _ _ hq hlive
    · exact absurd (hmem'.symm.trans hmem'') (a₁.chunk_ne_lone hp hv hv0)
    · have hwide := (request2size_spec (n * e)).2.2.1
      simp only [Mem.fill]
      rw [if_pos (by omega)]
  · -- a mapped unit: nothing is done
    dsimp only at hmem'
    rw [if_pos (a₁.lone u hu hu0).head_spec.1, wp_bind, wp_pure, wp_pure]
    exact .inr ⟨hlt, h₁, hs, fun p z v k hp hlive =>
      absurd (hp.symm.trans hmem') (a₁.chunk_ne_lone hlive hu hu0)⟩

end

end ArbiterThread
