import Mathlib.Logic.Function.Basic
import ArbiterThread.Lib.Transitions
import ArbiterThread.Malloc.Service

/-!
# The Allocator as a Store of Labelled Blocks

What the allocator is for, without chunks, bins and units: a store of blocks that
have an address, a label and contents, and no byte in common.

A block is found by its address. It is there from the call that returned the
address up to the call that releases it or moves it elsewhere, and its contents
are what was last written to them. A `Store` cannot hold blocks that overlap, so a
step that would lead there is none. Where a new block lies and what is in it is
left open, except that a cleared one is clear and a resized one has the contents
of the old one.

Calls, writes and reads are the events of both sides. A read says which byte was
found, so that a history of the allocator is one of the store only if every read
finds what it should, although between the write and the read any number of
blocks may have been split, joined and moved.

## Main definitions

* `LabelledBlock`, `Store`: Blocks without a byte in common.
* `StoreEvent`, `Store.Step`: Requests, writes and reads.
* `HeapStep`: The same events, for the allocator.
* `StoreOk`: A call meets no defect, and cleared areas are clear.
* `storeFind`: The blocks as they are found in memory.
* `Contents`: What a call leaves of the contents.
* `StoreRel`: How the two are related.

## Theorems

* `Sound.call_contents`: The contents after a call.
* `Sound.store`: Blocks of a heap in order make a store.
* `StoreRel.step`: Every step of the allocator is one of the store.
* `heap_refines_store`: Every history of the allocator is one of the store.
-/

namespace ArbiterThread

open Exec

variable {K : Type}

/-! ### The store -/

structure LabelledBlock where
  label : Label
  data : List UInt8

/-- The blocks by their addresses. -/
structure Store where
  find : Nat → Option LabelledBlock
  apart : ∀ a b x y, find a = some x → find b = some y → a ≠ b →
    a + x.data.length ≤ b ∨ b + y.data.length ≤ a

def Store.empty : Store where
  find := fun _ => none
  apart := by
    intro a b x y hx
    cases hx

/-- Requests come with the address that was returned. -/
inductive StoreEvent where
  | malloc (bytes : Nat) (L : Label) (mem : Nat)
  | calloc (bytes : Nat) (L : Label) (mem : Nat)
  | realloc (oldmem bytes : Nat) (L : Label) (mem : Nat)
  | free (mem : Nat)
  | write (mem : Nat) (data : List UInt8)
  | read (mem i : Nat) (v : UInt8)

/-- A new block is there. -/
structure Store.Added (b : Store) (mem bytes : Nat) (L : Label) (data : List UInt8) (b' : Store) :
    Prop where
  nonnull : mem ≠ 0
  fresh : b.find mem = none
  size : data.length = bytes
  find : b'.find = Function.update b.find mem (some ⟨L, data⟩)

/-- The block is another one, which may be elsewhere, and has the contents of the old
    one. -/
structure Store.Moved (b : Store) (oldmem bytes : Nat) (L : Label) (mem : Nat) (b' : Store) :
    Prop where
  nonnull : mem ≠ 0
  fresh : mem ≠ oldmem → b.find mem = none
  moved : ∃ x data, b.find oldmem = some x ∧ data.length = bytes ∧
    (∀ i, i < x.data.length → i < bytes → data[i]? = x.data[i]?) ∧
    b'.find = Function.update (Function.update b.find oldmem none) mem (some ⟨L, data⟩)

inductive Store.Step : Store → Option StoreEvent → Store → Prop
  | malloc {b b' : Store} {bytes mem : Nat} {L : Label} {data : List UInt8}
      (added : b.Added mem bytes L data b') : Store.Step b (some (.malloc bytes L mem)) b'
  | mallocFails {b : Store} (bytes : Nat) (L : Label) :
      Store.Step b (some (.malloc bytes L 0)) b
  | calloc {b b' : Store} {bytes mem : Nat} {L : Label}
      (added : b.Added mem bytes L (List.replicate bytes 0) b') :
      Store.Step b (some (.calloc bytes L mem)) b'
  | callocFails {b : Store} (bytes : Nat) (L : Label) :
      Store.Step b (some (.calloc bytes L 0)) b
  /-- without an old block, a new one is requested -/
  | reallocNew {b b' : Store} {bytes mem : Nat} {L : Label} {data : List UInt8}
      (added : b.Added mem bytes L data b') : Store.Step b (some (.realloc 0 bytes L mem)) b'
  | realloc {b b' : Store} {oldmem bytes mem : Nat} {L : Label}
      (moved : b.Moved oldmem bytes L mem b') :
      Store.Step b (some (.realloc oldmem bytes L mem)) b'
  /-- a block that is resized to nothing is released -/
  | reallocNothing {b b' : Store} (oldmem : Nat) (L : Label)
      (find : b'.find = Function.update b.find oldmem none) :
      Store.Step b (some (.realloc oldmem 0 L 0)) b'
  | reallocFails {b : Store} (oldmem bytes : Nat) (L : Label) (nonzero : bytes ≠ 0) :
      Store.Step b (some (.realloc oldmem bytes L 0)) b
  | free {b b' : Store} (mem : Nat) (find : b'.find = Function.update b.find mem none) :
      Store.Step b (some (.free mem)) b'
  | write {b b' : Store} {mem : Nat} {x : LabelledBlock} (data : List UInt8)
      (there : b.find mem = some x) (size : data.length = x.data.length)
      (find : b'.find = Function.update b.find mem (some ⟨x.label, data⟩)) :
      Store.Step b (some (.write mem data)) b'
  | read {b : Store} {mem i : Nat} {x : LabelledBlock} {v : UInt8} (there : b.find mem = some x)
      (byte : x.data[i]? = some v) : Store.Step b (some (.read mem i v)) b

/-! ### The allocator -/

/-- A call with the address it has returned, as an event. -/
def Call.event (mem : Nat) : Call → StoreEvent
  | .malloc _ bytes L => .malloc bytes L mem
  | .calloc _ nElements elemSize L => .calloc (nElements * elemSize) L mem
  | .realloc _ oldmem bytes L => .realloc oldmem bytes L mem
  | .free _ oldmem => .free oldmem

/-- The bytes of memory from an address on. -/
def readBytes (m : Mem) (a n : Nat) : List UInt8 := (List.range n).map fun i => m (a + i)

/-- If the request takes a mapped area, then the bytes of it that will be handed out are 0. -/
def ClearArea (bytes nb av : Nat) (s : State K) : Prop :=
  TakesMmap s av nb → ∀ x, areaFor s av nb + 8 ≤ x → x < areaFor s av nb + 8 + bytes → s.mem x = 0

/-- The area that `calloc` does not clear is clear. -/
def ComesClear (ops : KernelOps K) (s : State K) : Call → Prop
  | .calloc pid n e L => n * e < wordSize → RequestOk (fun nb av s =>
      RoomFor ops pid nb av s ∧ ClearArea (n * e) nb av s) (n * e) L s
  | _ => True

/-- A call meets no defect, and cleared blocks are going to be clear. -/
def StoreOk (ops : KernelOps K) (c : Call) (s : State K) : Prop :=
  HeapOk ops True c s ∧ ComesClear ops s c

/-- Calls that meet `Ok`, and writes and reads by those who have the blocks. -/
inductive HeapStep (ops : KernelOps K) (Ok : Call → State K → Prop) :
    State K × List Grant → Option StoreEvent → State K × List Grant → Prop
  | call (c : Call) {s s' : State K} {live : List Grant} {mem : Nat} (honest : c.Honest live)
      (ok : Ok c s) (ret : c.run ops s = .ok mem s') :
      HeapStep ops Ok (s, live) (some (c.event mem)) (s', c.grants mem live)
  | write (g : Grant) (m : Mem) {s : State K} {live : List Grant} (hg : g ∈ live)
      (hm : ∀ x, x < g.mem ∨ g.mem + g.bytes ≤ x → m x = s.mem x) :
      HeapStep ops Ok (s, live) (some (.write g.mem (readBytes m g.mem g.bytes)))
        ({ s with mem := m }, live)
  | read (g : Grant) {s : State K} {live : List Grant} (hg : g ∈ live) {i : Nat}
      (hi : i < g.bytes) :
      HeapStep ops Ok (s, live) (some (.read g.mem i (s.mem (g.mem + i)))) (s, live)

/-- A block as it is found in memory. -/
def blockOf (m : Mem) (g : Grant) : LabelledBlock := ⟨g.label, readBytes m g.mem g.bytes⟩

/-- The blocks as they are found in memory. -/
def storeFind (m : Mem) (live : List Grant) (a : Nat) : Option LabelledBlock :=
  (live.find? (·.mem = a)).map (blockOf m)

/-! ### Reading blocks -/

section

variable {m m' : Mem} {g : Grant} {live : List Grant} {a n : Nat}

@[simp] theorem length_readBytes (m : Mem) (a n : Nat) : (readBytes m a n).length = n := by
  simp [readBytes]

theorem getElem?_readBytes (m : Mem) {a n i : Nat} (hi : i < n) :
    (readBytes m a n)[i]? = some (m (a + i)) := by
  simp [readBytes, hi]

theorem readBytes_congr (h : m.Agree m' a (a + n)) : readBytes m' a n = readBytes m a n :=
  List.map_congr_left fun i hi => h (a + i) (by omega) (by
    have := List.mem_range.mp hi
    omega)

theorem readBytes_zero (h : ∀ x, a ≤ x → x < a + n → m x = 0) :
    readBytes m a n = List.replicate n 0 := by
  refine List.eq_replicate_iff.mpr ⟨length_readBytes m a n, fun b hb => ?_⟩
  obtain ⟨i, hi, rfl⟩ := List.mem_map.mp hb
  have := List.mem_range.mp hi
  exact h _ (by omega) (by omega)

theorem storeFind_cons (m : Mem) (g : Grant) (live : List Grant) :
    storeFind m (g :: live) = Function.update (storeFind m live) g.mem (some (blockOf m g)) := by
  funext a
  by_cases ha : a = g.mem
  · simp [storeFind, ha]
  · simp [storeFind, Ne.symm ha, ha]

theorem storeFind_dropGrant (m : Mem) (old : Nat) (live : List Grant) :
    storeFind m (dropGrant old live) = Function.update (storeFind m live) old none := by
  funext a
  unfold storeFind dropGrant
  rw [List.find?_filter]
  by_cases ha : a = old
  · subst ha
    rw [Function.update_self, List.find?_eq_none.mpr (by simp), Option.map_none]
  · rw [Function.update_of_ne ha]
    congr 2
    funext g
    by_cases hg : g.mem = a
    · simp [hg, ha]
    · simp [hg]

/-- Blocks that have their contents are found as before. -/
theorem storeFind_congr (h : ∀ g ∈ live, m.Agree m' g.mem (g.mem + g.bytes)) :
    storeFind m' live = storeFind m live := by
  funext a
  unfold storeFind
  cases hfind : live.find? (·.mem = a) with
  | none => rfl
  | some g =>
    have hsame := readBytes_congr (h g (List.mem_of_find?_eq_some hfind))
    simp only [Option.map_some, blockOf, hsame]

theorem storeFind_eq_some {x : LabelledBlock} (h : storeFind m live a = some x) :
    ∃ g ∈ live, g.mem = a ∧ x = blockOf m g := by
  obtain ⟨g, hfind, rfl⟩ := Option.map_eq_some_iff.mp h
  exact ⟨g, List.mem_of_find?_eq_some hfind, by simpa using List.find?_some hfind, rfl⟩

theorem storeFind_eq_none (h : ∀ g ∈ live, g.mem ≠ a) : storeFind m live a = none := by
  unfold storeFind
  rw [List.find?_eq_none.mpr (by simpa using h), Option.map_none]

/-- A block is found at its address, if no other one is there. -/
theorem storeFind_of_mem (hapart : live.Pairwise fun g g' => g.mem ≠ g'.mem) (hg : g ∈ live) :
    storeFind m live g.mem = some (blockOf m g) := by
  induction live with
  | nil => cases hg
  | cons g' live ih =>
    rw [storeFind_cons]
    rw [List.pairwise_cons] at hapart
    rcases List.mem_cons.mp hg with rfl | hg
    · exact Function.update_self ..
    · rw [Function.update_of_ne (hapart.1 g hg).symm]
      exact ih hapart.2 hg

end

/-! ### The contents after a call -/

/-- The call is about the block at an address. -/
def Call.About (mem : Nat) : Call → Prop
  | .malloc .. => False
  | .calloc .. => False
  | .realloc _ oldmem _ _ => mem = oldmem
  | .free _ oldmem => mem = oldmem

/-- What is in the block that a call has returned, or in the one it has failed to resize. -/
def Call.Fills (s : State K) (live : List Grant) (mem : Nat) (s' : State K) : Call → Prop
  | .calloc _ n e _ => mem ≠ 0 → ∀ x, mem ≤ x → x < mem + n * e → s'.mem x = 0
  | .realloc _ oldmem bytes _ => ∀ g ∈ live, g.mem = oldmem →
      (mem ≠ 0 → ∀ i, i < g.bytes → i < bytes → s'.mem (mem + i) = s.mem (g.mem + i)) ∧
      (mem = 0 → bytes ≠ 0 → s.mem.Agree s'.mem g.mem (g.mem + g.bytes))
  | _ => True

/-- What a call that returned `mem` leaves of the contents, and puts into new blocks. -/
structure Contents (c : Call) (s : State K) (live : List Grant) (mem : Nat) (s' : State K) :
    Prop where
  others : ∀ g ∈ live, ¬ c.About g.mem → s.mem.Agree s'.mem g.mem (g.mem + g.bytes)
  fills : c.Fills s live mem s'

section

variable {s s' : State K} {h h' : Heap} {live : List Grant} {lab : Prop} {x : Nat → Prop}
variable {ops : KernelOps K}

theorem Sound.nonnull (i : Sound lab s h live) {g : Grant} (hg : g ∈ live) : g.mem ≠ 0 := by
  obtain ⟨n, L, -, -, ho⟩ := i.owns g hg
  have hlow : 0x80000000 + 8 ≤ g.mem := (ho.channel i.arena).1
  omega

/-- There is one block at an address. -/
theorem Sound.eq_of_mem (i : Sound lab s h live) {g g' : Grant} (hg : g ∈ live) (hg' : g' ∈ live)
    (heq : g.mem = g'.mem) : g = g' := by
  have hsymm : Std.Symm fun g g' : Grant => g.mem ≠ g'.mem := ⟨fun _ _ hne => Ne.symm hne⟩
  by_contra hne
  exact i.apart.forall hg hg' hne heq

/-- The blocks that a step leaves alone keep their contents. -/
theorem Sound.same (i : Sound lab s h live) (hc : Carries s h s' h' x) {g : Grant} (hg : g ∈ live)
    (hx : ¬ x g.mem) : s.mem.Agree s'.mem g.mem (g.mem + g.bytes) := by
  obtain ⟨n, L, hn, -, ho⟩ := i.owns g hg
  intro y hlo hhi
  exact hc.same _ ho hx y hlo (by dsimp only; omega)

theorem Sound.call_contents (i : Sound True s h live) (c : Call) (honest : c.Honest live)
    (hok : StoreOk ops c s) :
    wp (c.run ops) (fun mem s' => Contents c s live mem s') (fun _ _ => True) s := by
  obtain ⟨hheap, hclear⟩ := hok
  cases c with
  | malloc pid bytes L =>
    refine wp_imp (i.arena.ablibMalloc ops pid (fun _ _ _ hroom => hroom) hheap
      (.inr fun _ _ => trivial)) (fun mem s' hpost => ?_)
    obtain ⟨h', hs⟩ := hpost
    exact ⟨fun g hg hne => i.same hs.carries hg hne, trivial⟩
  | calloc pid n e L =>
    have hzero := i.arena.calloc_clear ops pid n e L (fun _ _ _ hP => hP.1)
      (fun _ _ _ hP htakes _ x hlo hhi _ _ => hP.2 htakes x hlo hhi) hclear
    refine wp_mono (wp_and (i.arena.ablibCalloc ops pid (fun _ _ _ hroom => hroom) hheap
      (.inr fun _ _ => trivial)) hzero) (fun mem s' hpost => ?_) (fun _ _ _ => trivial)
    obtain ⟨hcalloc, hzeros⟩ := hpost
    refine ⟨fun g hg hne => ?_, hzeros⟩
    obtain ⟨-, rfl, rfl⟩ | ⟨-, h', hs, -⟩ := hcalloc
    · exact fun _ _ _ => rfl
    · exact i.same hs.carries hg hne
  | realloc pid oldmem bytes L =>
    change wp (ablibRealloc ops pid oldmem bytes L) _ _ s
    simp only [HeapOk] at hheap
    by_cases hnull : oldmem = 0
    · -- there is no old block
      subst hnull
      rw [if_pos rfl] at hheap
      unfold ablibRealloc
      rw [if_pos rfl]
      refine wp_imp (i.arena.ablibMalloc ops pid (fun _ _ _ hroom => hroom) hheap
        (.inr fun _ _ => trivial)) (fun mem s' hpost => ?_)
      obtain ⟨h', hs⟩ := hpost
      exact ⟨fun g hg _ => i.same hs.carries hg id, fun g hg hmem => absurd hmem (i.nonnull hg)⟩
    · rw [if_neg hnull] at hheap
      obtain ⟨g₀, hg₀, rfl⟩ := honest.resolve_left hnull
      obtain ⟨n, L₀, hn, -, ho⟩ := i.owns g₀ hg₀
      refine wp_mono (i.arena.ablibRealloc (g := ⟨g₀.mem, n, L₀⟩) ops pid
        (fun _ _ _ hroom => hroom) ho hheap.1 (.inr fun _ _ => trivial))
        (fun mem s' hpost => ?_) (fun _ _ _ => trivial)
      obtain ⟨-, h', hr⟩ := hpost
      refine ⟨fun g hg hne => i.same hr.carries hg hne, fun g hg heq => ?_⟩
      obtain rfl : g = g₀ := i.eq_of_mem hg hg₀ heq
      constructor
      · exact fun hnew j hj hj' => hr.same hnew j (by dsimp only; omega) hj'
      · exact fun hmem hbytes y hlo hhi => (hr.stays hmem hbytes).2 y hlo (by dsimp only; omega)
  | free pid mem =>
    change wp (ablibFree ops pid mem >>= fun _ => pure 0) _ _ s
    rw [wp_bind]
    by_cases hnull : mem = 0
    · subst hnull
      unfold ablibFree
      rw [if_pos rfl, wp_pure, wp_pure]
      exact ⟨fun _ _ _ _ _ _ => rfl, trivial⟩
    · obtain ⟨g₀, hg₀, rfl⟩ := honest.resolve_left hnull
      obtain ⟨n, L, -, -, ho⟩ := i.owns g₀ hg₀
      refine wp_imp (i.arena.ablibFree (g := ⟨g₀.mem, n, L⟩) ops pid ho (hheap.resolve_left hnull)
        (.inr fun _ _ => trivial)) (fun _ s' hpost => ?_)
      obtain ⟨h', hf⟩ := hpost
      rw [wp_pure]
      exact ⟨fun g hg hne => i.same hf.carries hg hne, trivial⟩

/-- The blocks of a heap in order make a store. -/
def Sound.store (i : Sound lab s h live) : Store where
  find := storeFind s.mem live
  apart := by
    intro a b x y hx hy hab
    obtain ⟨g, hg, rfl, rfl⟩ := storeFind_eq_some hx
    obtain ⟨g', hg', rfl, rfl⟩ := storeFind_eq_some hy
    obtain ⟨n, L, hn, -, ho⟩ := i.owns g hg
    obtain ⟨n', L', hn', -, ho'⟩ := i.owns g' hg'
    have hdisj := ho.disjoint ho' i.arena hab
    dsimp only at hdisj
    simp only [blockOf, length_readBytes]
    omega

/-- The blocks that are found in memory are those of the store. -/
def StoreRel (t : State K × List Grant) (b : Store) : Prop :=
  (∃ h, Sound True t.1 h t.2) ∧ b.find = storeFind t.1.mem t.2

/-- A block that was handed out is a new one of the store. -/
theorem StoreRel.added {b : Store} {mem bytes : Nat} {L : Label}
    (hb : b.find = storeFind s.mem live)
    (hsame : ∀ g ∈ live, s.mem.Agree s'.mem g.mem (g.mem + g.bytes)) (hmem : mem ≠ 0)
    (i' : Sound True s' h' (addGrant mem bytes L live)) :
    b.Added mem bytes L (readBytes s'.mem mem bytes) i'.store := by
  have hlive := i'.apart
  rw [addGrant_of_ne hmem, List.pairwise_cons] at hlive
  refine ⟨hmem, ?_, length_readBytes .., ?_⟩
  · rw [hb]
    exact storeFind_eq_none fun g hg => (hlive.1 g hg).symm
  · change storeFind s'.mem (addGrant mem bytes L live) = _
    rw [addGrant_of_ne hmem, storeFind_cons, storeFind_congr hsame, hb]
    rfl

/-- A step that hands out nothing and leaves all contents leads to the same store. -/
theorem StoreRel.same {b : Store} (hb : b.find = storeFind s.mem live)
    (hsame : ∀ g ∈ live, s.mem.Agree s'.mem g.mem (g.mem + g.bytes)) :
    b.find = storeFind s'.mem live := by
  rw [hb, storeFind_congr hsame]

/-- A block that was released is gone from the store. -/
theorem StoreRel.dropped {mem : Nat} {b : Store} (hb : b.find = storeFind s.mem live)
    (hsame : ∀ g ∈ live, g.mem ≠ mem → s.mem.Agree s'.mem g.mem (g.mem + g.bytes)) :
    storeFind s'.mem (dropGrant mem live) = Function.update b.find mem none := by
  have hkeep : ∀ g ∈ dropGrant mem live, s.mem.Agree s'.mem g.mem (g.mem + g.bytes) := by
    intro g hg
    obtain ⟨hg, hne⟩ := List.mem_filter.mp hg
    exact hsame g hg (by simpa using hne)
  rw [storeFind_congr hkeep, storeFind_dropGrant, hb]

/-- A call is a step of the store. -/
theorem StoreRel.call {b : Store} {c : Call} {mem : Nat} (i : Sound True s h live)
    (hb : b.find = storeFind s.mem live) (honest : c.Honest live) (hc : Contents c s live mem s')
    (i' : Sound True s' h' (c.grants mem live)) :
    ∃ b', b.Step (some (c.event mem)) b' ∧ b'.find = storeFind s'.mem (c.grants mem live) := by
  cases c with
  | malloc pid bytes L =>
    by_cases hmem : mem = 0
    · subst hmem
      exact ⟨b, .mallocFails bytes L, StoreRel.same hb fun g hg => hc.others g hg id⟩
    · exact ⟨i'.store, .malloc (StoreRel.added hb (fun g hg => hc.others g hg id) hmem i'), rfl⟩
  | calloc pid n e L =>
    by_cases hmem : mem = 0
    · subst hmem
      exact ⟨b, .callocFails (n * e) L, StoreRel.same hb fun g hg => hc.others g hg id⟩
    · have hadd := StoreRel.added hb (fun g hg => hc.others g hg id) hmem i'
      rw [readBytes_zero (hc.fills hmem)] at hadd
      exact ⟨i'.store, .calloc hadd, rfl⟩
  | free pid oldmem =>
    exact ⟨i'.store, .free oldmem (StoreRel.dropped hb fun g hg hne => hc.others g hg hne), rfl⟩
  | realloc pid oldmem bytes L =>
    simp only [Call.grants] at i' ⊢
    by_cases hfails : mem = 0 ∧ bytes ≠ 0
    · obtain ⟨rfl, hbytes⟩ := hfails
      rw [if_pos ⟨rfl, hbytes⟩]
      refine ⟨b, .reallocFails oldmem bytes L hbytes, StoreRel.same hb fun g hg => ?_⟩
      by_cases hold : g.mem = oldmem
      · exact (hc.fills g hg hold).2 rfl hbytes
      · exact hc.others g hg hold
    rw [if_neg hfails] at i' ⊢
    have hdrop : storeFind s'.mem (dropGrant oldmem live) = _ :=
      StoreRel.dropped hb fun g hg hne => hc.others g hg hne
    by_cases hmem : mem = 0
    · -- resized to nothing
      have hbytes : bytes = 0 := by_contra fun hne => hfails ⟨hmem, hne⟩
      subst hmem hbytes
      exact ⟨i'.store, .reallocNothing oldmem L hdrop, rfl⟩
    by_cases hnull : oldmem = 0
    · subst hnull
      have hall : dropGrant 0 live = live :=
        List.filter_eq_self.mpr fun g hg => decide_eq_true (i.nonnull hg)
      rw [hall] at i' ⊢
      have hsame : ∀ g ∈ live, s.mem.Agree s'.mem g.mem (g.mem + g.bytes) :=
        fun g hg => hc.others g hg (i.nonnull hg)
      exact ⟨i'.store, .reallocNew (StoreRel.added hb hsame hmem i'), rfl⟩
    · obtain ⟨g₀, hg₀, rfl⟩ := honest.resolve_left hnull
      have hlive := i'.apart
      rw [addGrant_of_ne hmem, List.pairwise_cons] at hlive
      refine ⟨i'.store, .realloc ⟨hmem, fun hne => ?_, blockOf s.mem g₀, readBytes s'.mem mem bytes,
        ?_, length_readBytes .., fun j hj hj' => ?_, ?_⟩, rfl⟩
      · rw [hb]
        refine storeFind_eq_none fun g hg heq => ?_
        exact hlive.1 g (List.mem_filter.mpr ⟨hg, by simpa [heq] using hne⟩) heq.symm
      · rw [hb, storeFind_of_mem i.apart hg₀]
      · rw [blockOf, length_readBytes] at hj
        rw [blockOf, getElem?_readBytes _ hj', getElem?_readBytes _ hj,
          (hc.fills g₀ hg₀ rfl).1 hmem j hj hj']
      · change storeFind s'.mem (addGrant mem bytes L (dropGrant g₀.mem live)) = _
        rw [addGrant_of_ne hmem, storeFind_cons, hdrop]
        rfl

/-- Every step of the allocator is one of the store. -/
theorem StoreRel.step {t t' : State K × List Grant} {e : Option StoreEvent} {b : Store}
    (hR : StoreRel t b) (hstep : HeapStep ops (StoreOk ops) t e t') :
    ∃ b', b.Step e b' ∧ StoreRel t' b' := by
  obtain ⟨s, live⟩ := t
  obtain ⟨⟨h, i⟩, hb⟩ := hR
  cases hstep with
  | @call c _ s' _ mem honest ok ret =>
    obtain ⟨-, h', i'⟩ := wp_run (i.call ops c honest ok.1 (.inr fun _ _ => trivial)) ret
    have hc := wp_run (Q := fun mem s' => Contents c s live mem s')
      (i.call_contents c honest ok) ret
    obtain ⟨b', hstep, hb'⟩ := StoreRel.call i hb honest hc i'
    exact ⟨b', hstep, ⟨h', i'⟩, hb'⟩
  | write g m hg hm =>
    obtain ⟨-, h', i'⟩ := i.write hg hm
    have hthere : b.find g.mem = some (blockOf s.mem g) := by
      rw [hb]
      exact storeFind_of_mem i.apart hg
    refine ⟨i'.store, .write _ hthere ?_ ?_, ⟨h', i'⟩, rfl⟩
    · simp only [blockOf, length_readBytes]
    · -- the other blocks have no byte in common with the one that was written
      have hsame : ∀ g' ∈ live, g'.mem ≠ g.mem → s.mem.Agree m g'.mem (g'.mem + g'.bytes) := by
        intro g' hg' hne x hlo hhi
        have hdisj := i.store.apart g'.mem g.mem _ _ (storeFind_of_mem i.apart hg')
          (storeFind_of_mem i.apart hg) hne
        simp only [blockOf, length_readBytes] at hdisj
        exact hm x (by omega)
      have hdrop : storeFind ({ s with mem := m } : State K).mem (dropGrant g.mem live) = _ :=
        StoreRel.dropped hb hsame
      rw [storeFind_dropGrant] at hdrop
      calc storeFind m live
          = Function.update (storeFind m live) g.mem (some (blockOf m g)) := by
            rw [← storeFind_of_mem i.apart hg, Function.update_eq_self]
        _ = Function.update (Function.update b.find g.mem none) g.mem (some (blockOf m g)) := by
            rw [← hdrop, Function.update_idem]
        _ = _ := Function.update_idem ..
  | @read g _ _ hg j hj =>
    refine ⟨b, .read (hb ▸ storeFind_of_mem i.apart hg) ?_, ⟨h, i⟩, hb⟩
    rw [blockOf, getElem?_readBytes _ hj]

theorem StoreRel.simulation (ops : KernelOps K) :
    Lts.Simulation (HeapStep ops (StoreOk ops)) Store.Step StoreRel := by
  intro t e t' b hR hstep
  obtain ⟨b', hb', hR'⟩ := hR.step hstep
  exact ⟨b', .single hb', hR'⟩

end

/-- Every history of calls that meet no defect, and of writes and reads by those who have
    the blocks, is one of the store: blocks have no byte in common, they have the labels
    they were requested with, a cleared block is clear, a resized one has its contents, and
    every read finds what was last written. -/
theorem heap_refines_store (ops : KernelOps K) (kern : K) (clients : List ClientDesc)
    (trace : List StoreEvent) (s : State K) (live : List Grant)
    (run : Lts.Run (HeapStep ops (StoreOk ops)) (State.start kern clients, []) trace (s, live)) :
    ∃ b, Lts.Run Store.Step .empty trace b ∧ b.find = storeFind s.mem live := by
  have hstart : StoreRel (State.start kern clients, []) .empty := ⟨⟨_, .start kern clients⟩, rfl⟩
  obtain ⟨b, hrun, -, hb⟩ := (StoreRel.simulation ops).run hstart run
  exact ⟨b, hrun, hb⟩

/-- A block is requested, written and read. -/
theorem heap_refines_store_read :
    ∃ b, Lts.Run Store.Step .empty
      [.malloc 16 (fun _ => 0) 0x80000008, .write 0x80000008 (List.replicate 16 7),
        .read 0x80000008 3 7] b := by
  let first : Call := .malloc 1 16 (fun _ => 0)
  let g : Grant := ⟨0x80000008, 16, fun _ => 0⟩
  have hok : RequestOk (RoomFor generousKernel 1) 16 (fun _ => 0) (State.start () []) := by
    decide +kernel
  have hall : wp (first.run generousKernel) (fun mem _ => mem = 0x80000008) (fun _ _ => False)
      (State.start () []) := by decide +kernel
  obtain ⟨mem, s, hrun, rfl⟩ := exists_ok hall
  have hlive : first.grants 0x80000008 [] = [g] :=
    addGrant_of_ne (show (0x80000008 : Nat) ≠ 0 by omega)
  have hcall : Lts.Run (HeapStep generousKernel (StoreOk generousKernel))
      (State.start () [], []) _ (s, first.grants 0x80000008 []) :=
    .single (.call first trivial ⟨hok, trivial⟩ hrun)
  rw [hlive] at hcall
  have hwrite := hcall.next (.write g (s.mem.fill 0x80000008 16 7) (List.mem_singleton_self g)
    fun x hx => if_neg (by dsimp only [g] at hx; omega))
  have hread := hwrite.next (.read g (List.mem_singleton_self g) (show 3 < g.bytes by decide))
  obtain ⟨b, hb, -⟩ := heap_refines_store generousKernel () [] _ _ _ hread
  have hdata : readBytes (s.mem.fill 0x80000008 16 7) g.mem g.bytes = List.replicate 16 7 := by
    simp [readBytes, Mem.fill, g, List.range_succ]
  rw [hdata] at hb
  exact ⟨b, hb⟩

end ArbiterThread
