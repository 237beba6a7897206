import ArbiterThread.Malloc.Run

/-!
# Walking the Units

What the memory looks like in all states of a run: a unit obtained by moving the break can
be walked from its first address to its unit top by adding sizes, and from the unit top to
the fenceposts. The chunks that can be reached from the header of a bin are free, with a
copy of their size behind them, and no two of them are neighbours.

All of this is read from the memory, with nothing of the heap it represents.

## Main definitions

* `Walk`: Chunks one behind the other.
* `Binned`: A chunk that can be reached from the header of a bin.
* `Tiled`: The units and the free chunks are as they should be.

## Theorems

* `Heap.Tiling.walk`: A unit can be walked.
* `units_tiled`: All states of a run are tiled.
-/

namespace ArbiterThread

open Exec Rings

variable {K : Type}

/-- The size of the chunk at `p`, from its size field. -/
def sizeAt (m : Mem) (p : Nat) : Nat := sizeOfHead (m.load32 (p + 4))

/-- The chunks from an address up to `stop`, one behind the other. -/
inductive Walk (m : Mem) (stop : Nat) : Nat → List Nat → Prop
  | done : Walk m stop stop []
  | chunk {p : Nat} {l : List Nat} (aligned : sizeAt m p % 8 = 0) (large : minSize ≤ sizeAt m p)
      (rest : Walk m stop (p + sizeAt m p) l) : Walk m stop p (p :: l)

/-- A unit obtained by moving the break: chunks up to the unit top, which is the first
    fencepost or a chunk that ends there. -/
structure TiledUnit (s : State K) (u : Nat) : Prop where
  walk : ∃ l, Walk s.mem (s.units u).unitTop (s.units u).addr l
  top : (s.units u).unitTop = (s.units u).addr + unitTopSize ∨
    sizeAt s.mem (s.units u).unitTop % 8 = 0 ∧
      (s.units u).unitTop + sizeAt s.mem (s.units u).unitTop = (s.units u).addr + unitTopSize
  fenceposts : s.mem.load32 ((s.units u).addr + unitTopSize + 4) = 5 ∧
    s.mem.load32 ((s.units u).addr + unitTopSize + 8) = 5

/-- A chunk that can be reached from the header of a bin of a `malloc_state` in use. -/
def Binned (s : State K) (p : Nat) : Prop :=
  ∃ av ∈ s.mstateList, ∃ i, 1 ≤ i ∧ i < nBins ∧ p ≠ binAt av i ∧
    Relation.ReflTransGen (fun x y => fdAt s.mem x = y) (binAt av i) p

/-- The units can be walked, and free chunks are marked as such and not neighbours. -/
structure Tiled (s : State K) : Prop where
  units : ∀ av ∈ s.mstateList, ∀ u ∈ (s.mstates av).ustateList, TiledUnit s u
  foot : ∀ p, Binned s p → s.mem.load32 (p + sizeAt s.mem p) = sizeAt s.mem p
  flag : ∀ p, Binned s p → ¬ prevInuse (s.mem.load32 (p + sizeAt s.mem p + 4))
  apart : ∀ p q, Binned s p → Binned s q → q ≠ p + sizeAt s.mem p

section

variable {m₀ : Mem} {s : State K} {h : Heap} {p u : Nat}

theorem Arena.sizeAt (a : Arena m₀ s h) (hp : h.size p ≠ 0) :
    ArbiterThread.sizeAt s.mem p = h.size p := by
  unfold ArbiterThread.sizeAt
  rw [a.rep.body.holds.head hp (a.settled.use hp id).2, a.rep.body.tidy.tiling.sizeOfHead hp]

/-- A unit can be walked from any of its chunks that is not behind the unit top. The last
    chunk before the fencepost is the unit top, or there is none. -/
theorem Arena.walk (a : Arena m₀ s h) (hu : h.base u ≠ 0) {n : Nat} :
    ∀ p, h.size p ≠ 0 → h.unit p = u → h.fence u ≤ p + n → ∃ l, Walk s.mem (h.top u) p l := by
  have t := a.rep.body.tidy.tiling
  induction n with
  | zero =>
    intro p hp hunit hfar
    have hplace := (t.place hp).2.2
    have hlarge := (t.bounds hp).2.2.2.2.1
    rw [hunit] at hplace
    unfold Heap.next at hplace
    omega
  | succ n ih =>
    intro p hp hunit hfar
    by_cases htop : p = h.top u
    · exact ⟨[], htop ▸ .done⟩
    have hb := t.bounds hp
    have hsize := a.sizeAt hp
    have hstep : ∀ l, Walk s.mem (h.top u) (h.next p) l → ∃ l, Walk s.mem (h.top u) p l :=
      fun l hl => ⟨p :: l, .chunk (by omega) (by unfold minSize; omega) (by rwa [hsize])⟩
    by_cases hend : h.next p = h.fence u
    · -- a unit top before the fencepost would end there, too
      have hfence : h.top u = h.fence u := by
        by_contra hne
        obtain ⟨hsize', huse, hunit'⟩ := a.settled.top hu hne
        have hends := (a.rep.body.tidy.tops hsize' huse).2
        rw [hunit'] at hends
        exact htop (t.next_inj hp hsize' (hend.trans hends.symm))
      exact hstep [] (by rw [hend, hfence]; exact .done)
    · have hfollow := t.follow hp (by rwa [hunit])
      obtain ⟨l, hl⟩ := ih (h.next p) hfollow.1 (hfollow.2.trans hunit) (by
        unfold Heap.next
        omega)
      exact hstep l hl

theorem Arena.tiledUnit (a : Arena m₀ s h) (hu : h.base u ≠ 0) : TiledUnit s u := by
  have t := a.rep.body.tidy.tiling
  have hunit := (a.rep.body.tracks.unit hu).2
  refine ⟨?_, ?_, ?_⟩
  · rw [hunit]
    have hfirst := t.first hu
    exact a.walk hu (n := unitTopSize) _ hfirst.1 hfirst.2 (by rfl)
  · rw [hunit]
    dsimp only
    by_cases hfence : h.top u = h.fence u
    · exact .inl hfence
    · obtain ⟨hsize, huse, hin⟩ := a.settled.top hu hfence
      have hends := (a.rep.body.tidy.tops hsize huse).2
      have hb := t.bounds hsize
      rw [hin] at hends
      rw [a.sizeAt hsize]
      exact .inr ⟨hb.2.2.2.1, hends⟩
  · rw [hunit]
    exact a.rep.body.holds.fence hu

/-- Following the links of a bin leads to its members only. -/
theorem Arena.binned (a : Arena m₀ s h) (hp : Binned s p) :
    h.size p ≠ 0 ∧ h.use p = .free := by
  obtain ⟨av, hav, i, hlo, hhi, hne, hreach⟩ := hp
  have hring := a.rep.rings ⟨a.active hav, hlo, hhi⟩
  have hmem : p ∈ binAt av i :: h.bins av i := by
    clear hne
    induction hreach with
    | refl => exact List.mem_cons_self
    | tail _ hlink ih =>
      rw [← hlink]
      exact hring.fd_mem ih
  have hin := (List.mem_cons.mp hmem).resolve_left hne
  have hbin := a.rep.body.tidy.lists.bin hin
  exact ⟨hbin.1, hbin.2.1⟩

theorem Arena.tiled (a : Arena m₀ s h) : Tiled s := by
  have hm := a.rep.body.holds
  have t := a.rep.body.tidy
  refine ⟨fun av hav u hu => ?_, fun p hp => ?_, fun p hp => ?_, fun p q hp hq => ?_⟩
  · exact a.tiledUnit ((a.rep.body.tracks.mstate (a.active hav)).units u hu).1
  · obtain ⟨hsize, huse⟩ := a.binned hp
    rw [a.sizeAt hsize]
    exact hm.foot hsize (.inl huse)
  · obtain ⟨hsize, huse⟩ := a.binned hp
    obtain ⟨hnext, hflag, -⟩ := t.flags.free hsize huse
    have hb := t.tiling.bounds hnext
    rw [a.sizeAt hsize]
    have hhead := hm.head hnext (a.settled.use hnext id).2
    change ¬ prevInuse (s.mem.load32 (h.next p + 4))
    rw [hhead]
    unfold prevInuse Heap.head
    rw [hflag, Bool.toNat_false]
    omega
  · obtain ⟨hsize, huse⟩ := a.binned hp
    obtain ⟨-, -, hnot, -⟩ := t.flags.free hsize huse
    rw [a.sizeAt hsize]
    rintro rfl
    exact hnot (a.binned hq).2

end

/-- The units are tiled all along a run. -/
theorem units_tiled {ops : KernelOps K} {s : State K} {live : List Grant}
    (hrun : HeapRun ops (HeapOk ops False) s live) : Tiled s := by
  obtain ⟨h, i⟩ := hrun.sound
  exact i.arena.tiled

set_option synthInstance.maxSize 1000 in
/-- A run that leaves a free chunk. -/
theorem units_tiled_free :
    ∃ s live, HeapRun generousKernel (HeapOk generousKernel False) s live ∧ Binned s 0x80000000 ∧
      Tiled s := by
  let L : Label := fun _ => 0
  let request : Call := .malloc 1 100 L
  let release : Call := .free 1 0x80000008
  have hok : RequestOk (RoomFor generousKernel 1) 100 L (State.start () []) := by decide +kernel
  have hall : wp (request.run generousKernel) (fun mem s1 => mem = 0x80000008 ∧
      RequestOk (RoomFor generousKernel 1) 100 L s1 ∧
      wp (request.run generousKernel) (fun mem s2 => mem ≠ 0 ∧ ¬ AtFence s2 0x80000008 ∧
        wp (release.run generousKernel) (fun _ s3 => 0 ∈ s3.mstateList ∧
          0x80000000 ≠ binAt 0 1 ∧ fdAt s3.mem (binAt 0 1) = 0x80000000) (fun _ _ => False) s2)
        (fun _ _ => False) s1) (fun _ _ => False) (State.start () []) := by decide +kernel
  obtain ⟨_, s1, h1, rfl, hok1, hall⟩ := exists_ok hall
  obtain ⟨mem, s2, h2, hmem, hok2, hall⟩ := exists_ok hall
  obtain ⟨_, s3, h3, hav, hne, hlink⟩ := exists_ok hall
  have hhonest : release.Honest (request.grants mem (request.grants 0x80000008 [])) := by
    refine .inr ⟨⟨0x80000008, 100, L⟩, ?_, rfl⟩
    simp only [request, Call.grants, addGrant_of_ne hmem,
      addGrant_of_ne (show (0x80000008 : Nat) ≠ 0 by omega), List.mem_cons, true_or, or_true]
  have hrun : HeapRun generousKernel (HeapOk generousKernel False) s3 _ :=
    .call release (.call request (.call request (.start () []) trivial hok h1) trivial hok1 h2)
      hhonest (.inr hok2) h3
  exact ⟨s3, _, hrun, ⟨0, hav, 1, le_rfl, by decide, hne, .single hlink⟩, units_tiled hrun⟩

/-- A request that leaves 8 bytes of the unit top moves it to where there is no chunk. -/
theorem units_tiled_fails :
    ∃ s live, HeapRun generousKernel (fun _ _ => True) s live ∧ ¬ Tiled s := by
  let first : Call := .malloc 1 20 (fun _ => 0)
  let second : Call := .malloc 1 40908 (fun _ => 0)
  have hall : wp (first.run generousKernel) (fun _ s1 =>
      wp (second.run generousKernel) (fun _ s2 => 0 ∈ s2.mstateList ∧
        0 ∈ (s2.mstates 0).ustateList ∧ (s2.units 0).addr = 0x80000000 ∧
        (s2.units 0).unitTop = 0x80009fe8 ∧ sizeAt s2.mem 0x80009fe8 = 0)
        (fun _ _ => False) s1) (fun _ _ => False) (State.start () []) := by decide +kernel
  obtain ⟨_, s1, h1, hall⟩ := exists_ok hall
  obtain ⟨_, s2, h2, hav, hunit, haddr, htop, hsize⟩ := exists_ok hall
  have hrun : HeapRun generousKernel (fun _ _ => True) s2 _ :=
    .call second (.call first (.start () []) trivial trivial h1) trivial trivial h2
  refine ⟨s2, _, hrun, fun ht => ?_⟩
  have hends := (ht.units 0 hav 0 hunit).top
  rw [haddr, htop, hsize] at hends
  unfold unitTopSize at hends
  omega

end ArbiterThread
