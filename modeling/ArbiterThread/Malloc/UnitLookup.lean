import ArbiterThread.Common.Lists
import ArbiterThread.Malloc.Placement

/-!
# Finding the Unit of an Address

`lookup_ustate_by_mem` is asked with whatever address a client sends. It walks the
list of all units from its tail to its head. The list ends in null pointers, but the
walk ends only at a unit that contains the address or at the address of the list
itself, which no node ever points to. An address inside a unit is found, and an
address outside, or any address before there is a unit, leads through the null pointer.

That the unit found is the only one is a fact about runs: a unit is obtained where no
other one is, as long as the areas of the two allocators do not meet.

## Main definitions

* `lookupUstateWalk`: The walk, node by node.
* `LookupMeets`: The answer is the unit that contains the address, or null.
* `newRange`, `ClearOf`: Where a new unit goes, and that no other one is there.
* `UnitRun`: Sequences of calls, with clients that write what they like.

## Theorems

* `lookupUstateWalk_eq`: The walk gives what `lookupUstateByMem` gives.
* `Seen.call`: A property of views is kept by every call.
* `UnitRun.seen`: Units are disjoint in every run.
* `lookup_meets_iff`: The answer is right exactly for addresses inside a unit.
* `lookup_before_units`: Without units the walk reads through the null pointer.
-/

namespace ArbiterThread

open Exec

variable {K : Type}

/-! ### The walk -/

/-- The loop of `lookup_ustate_by_mem`, followed for `fuel` turns. `prev` of the first
    node is null, which is not the address of the list, so the next turn reads the
    datum of a node that does not exist. -/
def lookupUstateWalk (list : LinkedList Nat) (units : Nat → Ustate) (ptr fuel : Nat) :
    Option (Except Fault (Option Nat)) :=
  match LinkedList.scan (fun node => (list.nodes node).prev)
    (fun node => let unit := (list.nodes node).data
      if covers (units unit) ptr then some unit else none) fuel list.tail with
  | none => none
  | some none => some (.error .segv)
  | some (some unit) => some (.ok (some unit))

/-- The address is in the range of the unit. -/
def Ustate.Contains (unit : Ustate) (ptr : Nat) : Prop := unit.addr ≤ ptr ∧ ptr < unit.stop

/-- The walk comes to an end with the only unit that contains the address, or with null
    if there is none. -/
def LookupMeets (s : State K) (list : LinkedList Nat) (ptr : Nat) : Prop :=
  ∃ fuel r, lookupUstateWalk list s.units ptr fuel = some (.ok r) ∧
    match r with
    | some u => u ∈ s.ustateList ∧ (s.units u).Contains ptr ∧
        ∀ v ∈ s.ustateList, (s.units v).Contains ptr → v = u
    | none => ∀ v ∈ s.ustateList, ¬ (s.units v).Contains ptr

/-- The walk over nodes that hold the units of the list gives what the lookup in the
    list gives. -/
theorem lookupUstateWalk_eq {list : LinkedList Nat} {seq : List (Nat × Nat)}
    (h : InOrder list seq) {s : State K} (hdata : seq.map Prod.snd = s.ustateList) (ptr : Nat)
    {fuel : Nat} (hfuel : seq.length < fuel) :
    lookupUstateWalk list s.units ptr fuel =
      some (match unitAt s ptr with
        | some u => .ok (some u)
        | none => .error .segv) := by
  have hscan := h.chained.scan_backward (fun node => let unit := (list.nodes node).data
    if covers (s.units unit) ptr then some unit else none) (by rwa [List.length_map])
  have hfind : (seq.map Prod.fst).reverse.findSome? (fun node => let unit := (list.nodes node).data
      if covers (s.units unit) ptr then some unit else none) = unitAt s ptr := by
    rw [← List.map_reverse, findSome_nodes seq.reverse (fun u => decide (covers (s.units u) ptr))
      Prod.snd _ (fun q hq => ?_), unitAt, ← hdata, ← List.map_reverse, List.find?_map]
    · rfl
    · simp only [h.data q (List.mem_reverse.mp hq), decide_eq_true_eq]
  unfold lookupUstateWalk
  rw [hscan, hfind]
  cases unitAt s ptr <;> rfl

/-! ### Disjoint units -/

/-- Two regions do not meet. -/
def Region.Apart (r r' : Region) : Prop :=
  r.addr + r.length ≤ r'.addr ∨ r'.addr + r'.length ≤ r.addr

/-- Regions are disjoint and end below the end of the address space. -/
def Unmixed (v : View K) : Prop :=
  v.regions.Pairwise Region.Apart ∧ ∀ r ∈ v.regions, r.addr + r.length < wordSize

/-- Where `__malloc_alloc` puts a new unit, and how long it is. -/
def newRange (ops : KernelOps K) (pid nb av : Nat) (s : State K) : Nat × Nat :=
  let size := mmapSize (s.mstates av) nb
  if TakesMmap s av nb then (getUnmappedArea s.units s.mmappedUstateList size, size)
  else ((s.view.oldBrk ops pid).1, unitSize)

/-- No unit is where the new one goes, and there is address space for it. -/
def ClearOf (ops : KernelOps K) (pid nb av : Nat) (s : State K) : Prop :=
  (newRange ops pid nb av s).1 + (newRange ops pid nb av s).2 < wordSize ∧
    ∀ u ∈ s.ustateList,
      Misses s.units (newRange ops pid nb av s).1 (newRange ops pid nb av s).2 u

instance (ops : KernelOps K) (pid nb av : Nat) (s : State K) :
    Decidable (ClearOf ops pid nb av s) :=
  inferInstanceAs (Decidable (_ ∧ ∀ u ∈ s.ustateList, _ ∨ _))

theorem Unmixed.addRegion {s : State K} (h : Unmixed s.view) {a n : Nat} (hend : a + n < wordSize)
    (hmiss : ∀ u ∈ s.ustateList, Misses s.units a n u) (L : Label) :
    Unmixed (s.view.addRegion a n L) := by
  refine ⟨List.pairwise_cons.mpr ⟨fun r hr => ?_, h.1⟩, fun r hr => ?_⟩
  · obtain ⟨u, hu, rfl⟩ := List.mem_map.mp hr
    exact hmiss u hu
  · rcases List.mem_cons.mp hr with rfl | hr
    · exact hend
    · exact h.2 r hr

theorem Unmixed.newUnit {ops : KernelOps K} {pid nb av : Nat} {L : Label} {s : State K} {v : View K}
    (h : Unmixed s.view) (hclear : ClearOf ops pid nb av s) (hnew : NewUnit ops pid nb av L s v) :
    Unmixed v := by
  unfold ClearOf newRange at hclear
  cases hnew with
  | mmap size mm takes hsize hmm granted =>
    rw [if_pos takes, ← hsize, ← hmm] at hclear
    exact h.addRegion hclear.1 hclear.2 L
  | sbrk takes first room granted =>
    rw [if_neg takes] at hclear
    exact h.addRegion hclear.1 hclear.2 L

theorem unmixed_releases (ops : KernelOps K) : Releases ops (Unmixed : View K → Prop) := by
  intro v pid addr size regions h hsub
  exact ⟨h.1.sublist hsub, fun r hr => h.2 r (hsub.subset hr)⟩

/-! ### Runs -/

/-- The process a call works for. -/
def Call.pid : Call → Nat
  | .malloc pid _ _ => pid
  | .calloc pid _ _ _ => pid
  | .realloc pid _ _ _ => pid
  | .free pid _ => pid

/-- The label that a call requests memory for. -/
def Call.label : Call → Option Label
  | .malloc _ _ L => some L
  | .calloc _ _ _ L => some L
  | .realloc _ _ _ L => some L
  | .free _ _ => none

/-- A property of views that a new unit keeps where `P` holds, and that releases keep, is
    kept by every call that meets the condition. -/
theorem Seen.call {ops : KernelOps K} {I : View K → Prop} (hfree : Releases ops I) (c : Call)
    {P : Nat → Nat → State K → Prop} (hnew : ∀ L, c.label = some L → ∀ nb av s v, I s.view →
      P nb av s → NewUnit ops c.pid nb av L s v → I v)
    {s : State K} (hs : Seen I s) (hok : CallOk (MallocOk P) True s c) :
    Ends (Seen I) (fun _ => True) (c.run ops) s := by
  have hsections := Seen.sections hfree
  have hM : ∀ bytes L s, Seen I s → c.label = some L ∧ MallocOk P bytes L s →
      Ends (Seen I) (fun _ => True) (ArbiterThread.ablibMalloc ops c.pid bytes L) s :=
    fun bytes L s hs hok => hs.ablibMalloc (hnew L hok.1) bytes hok.2
  cases c with
  | malloc pid bytes L => exact hM bytes L s hs ⟨rfl, hok⟩
  | calloc pid n e L => exact hsections.ablibCalloc hM n e L hs (fun hfit => ⟨rfl, hok hfit⟩)
  | realloc pid oldmem bytes L =>
    exact hsections.ablibRealloc hM _ _ L hs (fun _ _ h => h)
      (ReallocOk.mono (fun _ hreq => ⟨rfl, hreq⟩) hok)
  | free pid mem => exact (hsections.ablibFree pid mem hs).bind (fun _ _ h => .pure h 0)

/-- Sequences of calls, between which clients may have written anything. Units are
    obtained where there are none. -/
inductive UnitRun (ops : KernelOps K) (s₀ : State K) : State K → Prop
  | start : UnitRun ops s₀ s₀
  | call {s s' : State K} {r : Nat} (c : Call) (run : UnitRun ops s₀ s)
      (ok : CallOk (MallocOk (ClearOf ops c.pid)) True s c) (ret : c.run ops s = .ok r s') :
      UnitRun ops s₀ s'
  | write {s : State K} (m : Mem) (run : UnitRun ops s₀ s) : UnitRun ops s₀ { s with mem := m }

theorem UnitRun.seen {ops : KernelOps K} {s₀ s : State K} (h₀ : Seen Unmixed s₀)
    (hrun : UnitRun ops s₀ s) : Seen Unmixed s := by
  induction hrun with
  | start => exact h₀
  | call c run ok ret ih =>
    have hcall := ih.call (unmixed_releases ops) c
      (fun _ _ _ _ _ _ h hclear hnew => h.newUnit hclear hnew) ok
    unfold Ends at hcall
    exact wp_run (Q := fun _ s' => Seen Unmixed s') hcall ret
  | write m run ih => exact ⟨⟨ih.1.units, ih.1.avs, ih.1.start⟩, ih.2⟩

theorem seen_unmixed_start (k : K) (clients : List ClientDesc) :
    Seen Unmixed (State.start k clients) :=
  ⟨⟨by simp [State.start], by simp [State.start], fun _ => rfl⟩, List.Pairwise.nil,
    by simp [State.view, State.start]⟩

/-- Units that have an address in common are the same. -/
theorem Unmixed.eq_of_contains {s : State K} (h : Unmixed s.view) {u v ptr : Nat}
    (hu : u ∈ s.ustateList) (hv : v ∈ s.ustateList) (hpu : (s.units u).Contains ptr)
    (hpv : (s.units v).Contains ptr) : v = u := by
  by_contra hne
  have hsymm : Std.Symm Region.Apart := ⟨fun _ _ => Or.symm⟩
  have happart := h.1.forall (List.mem_map_of_mem hv) (List.mem_map_of_mem hu)
    (fun heq => hne (congrArg Region.unit heq))
  simp only [Region.Apart, State.region, Ustate.Contains, Ustate.stop] at happart hpu hpv
  omega

/-- Below the end of the address space the test of the walk is the right one. -/
theorem Unmixed.covers_iff {s : State K} (h : Unmixed s.view) {u : Nat} (hu : u ∈ s.ustateList)
    (ptr : Nat) : covers (s.units u) ptr ↔ (s.units u).Contains ptr := by
  have hend := h.2 _ (List.mem_map_of_mem hu)
  simp only [State.region] at hend
  unfold covers Ustate.Contains Ustate.stop
  rw [Nat.mod_eq_of_lt hend]

/-- In every run the lookup gives the only unit that contains the address, or null if
    there is none, exactly if some unit contains the address. -/
theorem lookup_meets_iff {ops : KernelOps K} {k : K} {clients : List ClientDesc} {s : State K}
    (hrun : UnitRun ops (State.start k clients) s) {list : LinkedList Nat}
    {seq : List (Nat × Nat)} (hlist : ListRun list seq)
    (hdata : seq.map Prod.snd = s.ustateList) (ptr : Nat) :
    LookupMeets s list ptr ↔ ∃ u ∈ s.ustateList, (s.units u).Contains ptr := by
  have hunmixed := (hrun.seen (seen_unmixed_start k clients)).2
  constructor
  · rintro ⟨fuel, r, hr, hright⟩
    cases r with
    | some u => exact ⟨u, hright.1, hright.2.1⟩
    | none =>
      -- the walk never answers null
      unfold lookupUstateWalk at hr
      split at hr <;> simp at hr
  · rintro ⟨u, hu, hptr⟩
    cases hat : unitAt s ptr with
    | none =>
      have hnot := List.find?_eq_none.mp hat u (List.mem_reverse.mpr hu)
      rw [decide_eq_true_eq, hunmixed.covers_iff hu] at hnot
      exact absurd hptr hnot
    | some v =>
      have hv : v ∈ s.ustateList := List.mem_reverse.mp (List.mem_of_find?_eq_some hat)
      have hfound := List.find?_some hat
      have hcovers : covers (s.units v) ptr := of_decide_eq_true hfound
      rw [hunmixed.covers_iff hv] at hcovers
      refine ⟨seq.length + 1, some v, ?_, hv, hcovers, ?_⟩
      · rw [lookupUstateWalk_eq hlist.ordered hdata ptr (Nat.lt_succ_self _), hat]
      · exact fun w hw hpw => hunmixed.eq_of_contains hv hw hcovers hpw

/-- Requests of two clients with different labels: the addresses they got are found in the
    units obtained for them, and so is the last byte before the break. -/
theorem lookup_meets_blocks :
    ∃ s, UnitRun generousKernel (State.start () []) s ∧ s.ustateList = [1, 0] ∧
      ∀ ptr ∈ [0x80000008, 0x8000a008, 0x80013fff], LookupMeets s
        (listInsertHead (listInsertHead (initLinkedList (LinkedList.empty 0)) 8 0) 16 1) ptr := by
  let first : Call := .malloc 1 16 (fun _ => 0)
  let second : Call := .malloc 2 100 (fun _ => 1)
  have hok : CallOk (MallocOk (ClearOf generousKernel first.pid)) True (State.start () [])
      first := Or.inr (Or.inr (by decide +kernel))
  obtain ⟨_, s₁, h₁, hok₁, hrest⟩ : ∃ mem s₁,
      first.run generousKernel (State.start () []) = .ok mem s₁ ∧
      wp (mallocBeforeAlloc 100 fun _ => 1) (fun r s' => r.2 = none →
        ¬ haveFastchunks (s'.mstates r.1) → ClearOf generousKernel 2 (request2size 100) r.1 s')
        (fun _ _ => True) s₁ ∧
      wp (second.run generousKernel) (fun _ s => s.ustateList = [1, 0] ∧
        ∀ ptr ∈ [0x80000008, 0x8000a008, 0x80013fff], ∃ u ∈ s.ustateList,
          (s.units u).addr ≤ ptr ∧ ptr < (s.units u).stop) (fun _ _ => False) s₁ :=
    exists_ok (by decide +kernel)
  obtain ⟨_, s, h₂, hunits, hfound⟩ := exists_ok hrest
  have hrun : UnitRun generousKernel (State.start () []) s :=
    .call second (.call first .start hok h₁) (Or.inr (Or.inr hok₁)) h₂
  have hlist : ListRun
      (listInsertHead (listInsertHead (initLinkedList (LinkedList.empty 0)) 8 0) 16 1)
      [(16, 1), (8, 0)] :=
    .insertHead 16 1 (.insertHead 8 0 (.init _) (by decide)) (by decide)
  exact ⟨s, hrun, hunits, fun ptr hptr =>
    (lookup_meets_iff hrun hlist hunits.symm ptr).mpr (hfound ptr hptr)⟩

/-- The first address a client sends, before there is a unit, is not looked up as it
    should be. -/
theorem lookup_before_units :
    UnitRun generousKernel (State.start () []) (State.start () []) ∧
      ListRun (initLinkedList (LinkedList.empty 0)) [] ∧ (State.start () []).ustateList = [] ∧
      ¬ LookupMeets (State.start () []) (initLinkedList (LinkedList.empty 0)) 0x80000008 := by
  refine ⟨.start, .init _, rfl, ?_⟩
  rintro ⟨fuel, r, hr, -⟩
  cases fuel <;> simp [lookupUstateWalk, LinkedList.scan, initLinkedList] at hr

end ArbiterThread
