import ArbiterThread.Lib.Rings
import ArbiterThread.Malloc.Tidy
import ArbiterThread.Malloc.Frame

/-!
# The Heap in Memory

How the abstract heap is laid out in the arbiter's state: the size fields and
footers, the links of the bins and fastbins, and the records of units and
`malloc_state`s.

The link words of free chunks are kept apart from everything else. They change
in several places, are inconsistent in between, and nothing but the bins reads
them. `Body` is the state without them and `Rep` with them.

A store that touches no protected byte keeps `Body`. The words the allocator
writes while it works are of three kinds: anything in a chunk it is working on,
the links of a chunk that is free or was just taken out of its bin, and the
links of a bin header. `Loose` lists them, and none of them is protected.

## Main definitions

* `fdAt`, `bkAt`: The two link words.
* `Heap.Holds`: The memory holds the heap, apart from the links of bins.
* `Heap.Protected`: The bytes that matters for.
* `Tracks`: The records agree with the heap.
* `Loose`: The words that may be written.
* `Body`, `Rep`: The state represents the heap, without and with the bins.

## Theorems

* `Heap.Holds.congr`: Only protected bytes matter.
* `Loose.not_protected`: A loose word is not protected.
* `Body.put`: Writing a loose word.
-/

namespace ArbiterThread

open Exec Rings

variable {K : Type}

/-- The forward link of a chunk or bin header. -/
def fdAt (m : Mem) (x : Nat) : Nat := m.load32 (x + 8)

/-- The backward link. -/
def bkAt (m : Mem) (x : Nat) : Nat := m.load32 (x + 12)

/-- The word at `a` set to `v`. -/
def State.put (s : State K) (a v : Nat) : State K := { s with mem := s.mem.store32 a v }

/-- The `malloc_state` has been initialised. -/
def Active (s : State K) (av : Nat) : Prop := (s.mstates av).maxFast ≠ 0

/-! ### Memory -/

namespace Heap

/-- The memory `m` holds the heap, apart from the links of bins. What is to be
    kept, and everything in the channel heap outside of the units that are cut
    into chunks, is as in `m₀`. -/
structure Holds (m₀ m : Mem) (h : Heap) : Prop where
  head : ∀ {p}, h.size p ≠ 0 → h.use p ≠ .raw → m.load32 (p + 4) = h.head p
  foot : ∀ {p}, h.size p ≠ 0 → h.use p = .free ∨ h.use p = .held →
    m.load32 (h.next p) = h.size p
  fence : ∀ {u}, h.base u ≠ 0 →
    m.load32 (h.fence u + 4) = 5 ∧ m.load32 (h.fence u + 8) = 5
  fasts : ∀ av i, Thread (fdAt m) 0 (h.fasts av i)
  pending : Thread (fdAt m) 0 h.pending
  kept : ∀ {p}, h.size p ≠ 0 → m₀.Agree m (p + 8) (p + 8 + h.keep p)
  outside : ∀ {x}, 0x80000000 ≤ x →
    (∀ u, h.base u ≠ 0 → x < h.base u ∨ h.base u + 40960 ≤ x) → m x = m₀ x

/-- The bytes besides the size fields that must not change. -/
inductive Protected (h : Heap) (x : Nat) : Prop
  | foot (p : Nat) (size : h.size p ≠ 0) (use : h.use p = .free ∨ h.use p = .held)
      (lo : h.next p ≤ x) (hi : x < h.next p + 4)
  | fence (u : Nat) (base : h.base u ≠ 0) (lo : h.fence u + 4 ≤ x) (hi : x < h.fence u + 12)
  | fast (p : Nat) (size : h.size p ≠ 0) (use : h.use p = .fast) (lo : p + 8 ≤ x)
      (hi : x < p + 12)
  | kept (p : Nat) (size : h.size p ≠ 0) (lo : p + 8 ≤ x) (hi : x < p + 8 + h.keep p)
  | outside (channel : 0x80000000 ≤ x)
      (apart : ∀ u, h.base u ≠ 0 → x < h.base u ∨ h.base u + 40960 ≤ x)

/-- A memory that is the same in the protected bytes, with size fields that may
    have other flags. -/
theorem Holds.congr {m₀ m m' : Mem} {h : Heap} (hm : h.Holds m₀ m) (hl : h.Lists)
    {flag : Nat → Bool}
    (hhead : ∀ {p}, h.size p ≠ 0 → h.use p ≠ .raw →
      m'.load32 (p + 4) = h.size p + (flag p).toNat)
    (heq : ∀ x, h.Protected x → m' x = m x) : Holds m₀ m' { h with flag := flag } := by
  have hfd : ∀ {x}, h.size x ≠ 0 → h.use x = .fast → fdAt m' x = fdAt m x := by
    intro x hx huse
    exact Mem.load32_congr (fun y hlo hhi => heq y (.fast x hx huse hlo (by omega)))
  refine ⟨hhead, ?_, ?_, ?_, ?_, ?_, ?_⟩
  · intro p hp huse
    rw [← hm.foot hp huse]
    exact Mem.load32_congr (fun y hlo hhi => heq y (.foot p hp huse hlo hhi))
  · intro u hu
    have hfence := hm.fence hu
    change m'.load32 (h.fence u + 4) = 5 ∧ m'.load32 (h.fence u + 8) = 5
    refine ⟨?_, ?_⟩
    · rw [← hfence.1]
      exact Mem.load32_congr (fun y hlo hhi => heq y (.fence u hu hlo (by omega)))
    · rw [← hfence.2]
      exact Mem.load32_congr (fun y hlo hhi => heq y (.fence u hu (by omega) (by omega)))
  · intro av i
    refine (hm.fasts av i).congr (fun x hx => ?_)
    have hx' := hl.fast hx
    exact hfd hx'.1 hx'.2.1
  · refine hm.pending.congr (fun x hx => ?_)
    have hx' := hl.pend hx
    exact hfd hx'.1 hx'.2.1
  · intro p hp x hlo hhi
    rw [heq x (.kept p hp hlo hhi)]
    exact hm.kept hp x hlo hhi
  · intro x hx hout
    rw [heq x (.outside hx hout)]
    exact hm.outside hx hout

/-- Protected bytes are in the channel heap. -/
theorem Protected.channel {h : Heap} (t : h.Tiling) {x : Nat} (hx : h.Protected x) :
    0x80000000 ≤ x := by
  cases hx with
  | foot q hq huse hlo hhi =>
    have hbq := t.bounds hq
    unfold next at hlo
    omega
  | fence u hu hlo hhi =>
    have hin := t.inside hu
    unfold Heap.fence at hlo
    omega
  | fast q hq huse hlo hhi =>
    have hbq := t.bounds hq
    omega
  | kept q hq hlo hhi =>
    have hbq := t.bounds hq
    omega
  | outside hch hout => exact hch

/-- A protected byte among the words of a chunk is in its footer, its forward
    link or what is to be kept of it. -/
theorem Protected.inside {h : Heap} (t : h.Tidy) {p x : Nat} (hp : h.size p ≠ 0)
    (hx : h.Protected x) (hlo : p + 4 ≤ x) (hhi : x < h.next p + 4) :
    (h.use p = .free ∨ h.use p = .held) ∧ h.next p ≤ x ∨
      h.use p = .fast ∧ p + 8 ≤ x ∧ x < p + 12 ∨ p + 8 ≤ x ∧ x < p + 8 + h.keep p := by
  have hother : ∀ {q}, h.size q ≠ 0 → q ≠ p → h.next q + 4 ≤ x ∨ x < q + 4 := by
    intro q hq hne
    have hapart := t.tiling.apart_of_ne hp hq (Ne.symm hne)
    omega
  have hplace := t.tiling.place hp
  -- a protected byte of another chunk or unit is not in this chunk
  cases hx with
  | foot q hq huse hlo' hhi' =>
    by_cases hqp : q = p
    · subst hqp
      exact .inl ⟨huse, hlo'⟩
    · have hsep := hother hq hqp
      have hbq := t.tiling.bounds hq
      unfold next at *
      omega
  | fence u hu hlo' hhi' =>
    by_cases hpu : h.unit p = u
    · rw [hpu] at hplace
      omega
    · have hsep := t.tiling.arenas hplace.1 hu hpu
      simp only [Heap.fence, unitTopSize] at *
      omega
  | fast q hq huse hlo' hhi' =>
    by_cases hqp : q = p
    · subst hqp
      exact .inr (.inl ⟨huse, hlo', hhi'⟩)
    · have hsep := hother hq hqp
      have hbq := t.tiling.bounds hq
      unfold next at *
      omega
  | kept q hq hlo' hhi' =>
    by_cases hqp : q = p
    · subst hqp
      exact .inr (.inr ⟨hlo', hhi'⟩)
    · have hsep := hother hq hqp
      have hkept := t.kept hq
      unfold next at *
      omega
  | outside hch hout =>
    have hsep := hout _ hplace.1
    simp only [Heap.fence, unitTopSize] at hplace
    omega

/-- The size field of a chunk is not among the protected bytes. -/
theorem Protected.not_head {h : Heap} (t : h.Tidy) {p x : Nat} (hp : h.size p ≠ 0)
    (hlo : p + 4 ≤ x) (hhi : x < p + 8) : ¬ h.Protected x := by
  intro hx
  have hshape := t.tiling.shape hp
  have hin := hx.inside t hp hlo (by unfold next; omega)
  unfold next at hin
  omega

end Heap

/-! ### Records -/

/-- A `malloc_state` in use agrees with the heap. -/
structure TracksMstate (s : State K) (h : Heap) (av : Nat) : Prop where
  made : av < s.nextMstate
  maxFast : (s.mstates av).maxFast = 72 ∨ (s.mstates av).maxFast = 73 ∨
    (s.mstates av).maxFast = 75
  fastbins : ∀ i < 8, (s.mstates av).fastbins i = first 0 (h.fasts av i)
  units : ∀ u ∈ (s.mstates av).ustateList, h.base u ≠ 0 ∧ h.owner u = av
  binmap : ∀ b, (s.mstates av).binmap b < 4294967296
  binmapEnd : ∀ b, 3 ≤ b → (s.mstates av).binmap b = 0

/-- The records of units and `malloc_state`s agree with the heap. -/
structure Tracks (s : State K) (h : Heap) : Prop where
  unit : ∀ {u}, h.base u ≠ 0 → u ∈ s.ustateList ∧
    s.units u = { unitTop := h.top u, addr := h.base u, length := unitSize, unitAv := h.owner u }
  owner : ∀ {u}, h.base u ≠ 0 → Active s (h.owner u)
  bounded : ∀ u ∈ s.ustateList, (s.units u).addr + (s.units u).length ≤ 0xA0000000
  apart : ∀ u ∈ s.ustateList, ∀ v ∈ s.ustateList, u ≠ v →
    (s.units u).addr + (s.units u).length ≤ (s.units v).addr ∨
      (s.units v).addr + (s.units v).length ≤ (s.units u).addr
  mstate : ∀ {av}, Active s av → TracksMstate s h av
  limit : s.nextMstate ≤ 1000000

/-- The state represents the heap, apart from the links of bins. -/
structure Body (m₀ : Mem) (s : State K) (h : Heap) : Prop where
  tidy : h.Tidy
  tracks : Tracks s h
  holds : h.Holds m₀ s.mem

/-- The links of the bins of a `malloc_state`. -/
def RingAt (m : Mem) (h : Heap) (av i : Nat) : Prop :=
  Ring (fdAt m) (bkAt m) (binAt av i) (h.bins av i)

/-- A bin header. -/
structure Header (s : State K) (av i : Nat) : Prop where
  active : Active s av
  lo : 1 ≤ i
  hi : i < 96

/-- The state represents the heap. -/
structure Rep (m₀ : Mem) (s : State K) (h : Heap) : Prop where
  body : Body m₀ s h
  rings : ∀ {av i}, Header s av i → RingAt s.mem h av i

/-! ### Words that may be written -/

/-- The words that may be written while the heap stays as it is. -/
inductive Loose (s : State K) (h : Heap) (a : Nat) : Prop
  | own (p : Nat) (size : h.size p ≠ 0) (use : h.use p = .raw)
      (lo : a = p + 4 ∨ p + 8 + h.keep p ≤ a) (hi : a ≤ p + h.size p)
  | link (p : Nat) (size : h.size p ≠ 0) (use : h.use p = .free ∨ h.use p = .held)
      (spot : a = p + 8 ∨ a = p + 12)
  | header (av i : Nat) (is : Header s av i) (spot : a = binAt av i + 8 ∨ a = binAt av i + 12)

theorem Tracks.header_bounds {s : State K} {h : Heap} (t : Tracks s h) {av i : Nat}
    (hd : Header s av i) :
    privateBase ≤ binAt av i ∧ binAt av i + 16 ≤ privateBase + mstateStride * s.nextMstate ∧
      binAt av i + 16 ≤ 0x80000000 ∧ binAt av i % 4 = 0 := by
  have hmade := (t.mstate hd.active).made
  have hlimit := t.limit
  have hi := hd.hi
  simp only [binAt, privateBase, mstateStride]
  omega

theorem Loose.mapped {m₀ : Mem} {s : State K} {h : Heap} {a : Nat} (hl : Loose s h a)
    (b : Body m₀ s h) : mapped s a := by
  simp only [ArbiterThread.mapped, wordSize, channelAddr, channelSize]
  rcases hl with ⟨p, hp, -, hlo, hhi⟩ | ⟨p, hp, -, hat⟩ | ⟨av, i, hd, hat⟩
  · have hb := b.tidy.tiling.bounds hp
    omega
  · have hb := b.tidy.tiling.bounds hp
    omega
  · have hb := b.tracks.header_bounds hd
    omega

/-- A loose word belongs to a chunk, or is not in the channel heap at all. -/
theorem Loose.cases {m₀ : Mem} {s : State K} {h : Heap} {a : Nat} (hl : Loose s h a)
    (b : Body m₀ s h) :
    (∃ p, h.size p ≠ 0 ∧ p + 4 ≤ a ∧ a ≤ h.next p ∧
      (h.use p = .raw ∧ (a = p + 4 ∨ p + 8 + h.keep p ≤ a) ∨
        (h.use p = .free ∨ h.use p = .held) ∧ h.keep p = 0 ∧ (a = p + 8 ∨ a = p + 12))) ∨
      a + 4 ≤ 0x80000000 := by
  rcases hl with ⟨p, hp, huse, hlo, hhi⟩ | ⟨p, hp, huse, hat⟩ | ⟨av, i, hd, hat⟩
  · left
    exact ⟨p, hp, by omega, hhi, .inl ⟨huse, hlo⟩⟩
  · left
    have hshape := b.tidy.tiling.shape hp
    have hkeep : h.keep p = 0 := by
      refine b.tidy.unkept hp ?_ ?_
      all_goals rcases huse with huse | huse <;> rw [huse] <;> decide
    refine ⟨p, hp, by omega, ?_, .inr ⟨huse, hkeep, hat⟩⟩
    unfold Heap.next
    omega
  · right
    have hb := b.tracks.header_bounds hd
    omega

/-- No loose word is protected. -/
theorem Loose.not_protected {m₀ : Mem} {s : State K} {h : Heap} {a x : Nat} (hl : Loose s h a)
    (b : Body m₀ s h) (hlo : a ≤ x) (hhi : x < a + 4) : ¬ h.Protected x := by
  intro hx
  rcases hl.cases b with ⟨p, hp, hpa, hap, hkind⟩ | hlow
  · have hshape := b.tidy.tiling.shape hp
    have hin := hx.inside b.tidy hp (by omega) (by omega)
    rcases hkind with ⟨hraw, hat⟩ | ⟨hfree, hkeep, hat⟩
    · rw [hraw] at hin
      simp only [reduceCtorEq, false_and, false_or, or_self] at hin
      omega
    · have hfast : h.use p ≠ .fast := by
        rcases hfree with huse | huse <;> rw [huse] <;> decide
      simp only [hfast, false_and, false_or] at hin
      unfold Heap.next at hin
      omega
  · have hch := hx.channel b.tidy.tiling
    omega

/-- A loose word is not the size field of a chunk whose header is intact. -/
theorem Loose.not_head {m₀ : Mem} {s : State K} {h : Heap} {a q : Nat} (hl : Loose s h a)
    (b : Body m₀ s h) (hq : h.size q ≠ 0) (huse : h.use q ≠ .raw) : q + 8 ≤ a ∨ a + 4 ≤ q + 4 := by
  have hbq := b.tidy.tiling.bounds hq
  rcases hl.cases b with ⟨p, hp, hpa, hap, hkind⟩ | hlow
  · by_cases hqp : q = p
    · subst hqp
      simp only [huse, false_and, false_or] at hkind
      omega
    · have hapart := b.tidy.tiling.apart_of_ne hp hq (Ne.symm hqp)
      unfold Heap.next at *
      omega
  · omega

/-- The records do not depend on the memory. -/
theorem Tracks.mem {s : State K} {h : Heap} (t : Tracks s h) (m : Mem) :
    Tracks { s with mem := m } h := by
  refine ⟨t.unit, t.owner, t.bounded, t.apart, fun hav => ?_, t.limit⟩
  have ht := t.mstate hav
  exact ⟨ht.made, ht.maxFast, ht.fastbins, ht.units, ht.binmap, ht.binmapEnd⟩

/-- Writing a loose word. -/
theorem Body.put {m₀ : Mem} {s : State K} {h : Heap} (b : Body m₀ s h) {a : Nat}
    (hl : Loose s h a) (v : Nat) : Body m₀ (s.put a v) h := by
  refine ⟨b.tidy, b.tracks.mem _, b.holds.congr b.tidy.lists ?_ ?_⟩
  · intro p hp huse
    have hsep := hl.not_head b hp huse
    simp only [State.put]
    rw [Mem.load32_store32_of_disjoint _ _ _ _ (by omega)]
    exact b.holds.head hp huse
  · intro x hx
    simp only [State.put, Mem.store32]
    rw [if_neg]
    exact fun hin => hl.not_protected b hin.1 hin.2 hx

end ArbiterThread
