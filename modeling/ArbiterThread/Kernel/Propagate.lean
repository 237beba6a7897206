import ArbiterThread.Kernel.VmCalls
import Mathlib.Data.Nat.Count

/-!
# Propagating a Mapping

When the arbiter maps an area in one task, `do_absys_vma_propagate` reserves it in the
others, without access and with as little interference as possible: what a task has
mapped there stays, and only the holes in between are filled.

The loop fills the holes in front of the areas that it meets. What remains at its end
is one of three things. Either the last area reaches the end of the interval, or
there was no area at all, and then the interval is mapped as a whole. Or there is a
hole behind the last area. The code does not tell the last two apart: it maps the
whole interval in either case, and `propagate_region` has an assertion that there is
nothing mapped.

Memory is not the only limit. The size of an address space is limited by a number of
pages, and the loop goes on when a hole does not fit, so the pages that are missing
are counted.

## Main definitions

* `propagateRegion`, `fillHole`, `doAbsysVmaPropagate`: The code.
* `holes`: The number of pages without an area.
* `Reserved`: What the call is for.
* `Filling`: The invariant of the loop.

## Theorems

* `Filling.step`: One turn of the loop.
* `fillInterval_cases`: The three ways in which the loop can end.
* `doAbsysVmaPropagate_reserved_iff`: When the interval is reserved.
-/

namespace ArbiterThread

open Span

/-! ### The code -/

/-- `none` is an assertion that fails: that nothing is mapped in the region, or one on the way
    to its pages. -/
def propagateRegion (lim : Limits) (m : MmStruct) (addr len : Nat) (flags vmFlags : BitVec 32)
    (pgoff : Nat) : Option (Nat × MmStruct) :=
  match findVmaIntersection m.areas addr (wordAdd addr len) with
  | some _ => none
  | none =>
    if mayExpandVm lim m (len / 4096) then
      (lockOrPopulate lim { m with
        areas := mapArea m.areas addr (wordAdd addr len) (regionFlags lim flags vmFlags) pgoff
        totalVm := m.totalVm + len / 4096 } addr len flags (regionFlags lim flags vmFlags)).map
          fun m => (addr, m)
    else some (errWord Errno.noMem, m)

/-- The flags of a reserved area, before the type of mapping adds its own. -/
def reserveFlags (t : VmTask) (prot flags : BitVec 32) : BitVec 32 :=
  channelFlags t prot flags &&& 0xfffffff0#32

/-- The body of the loop: the hole in front of an area. What `propagate_region` returns is
    not looked at. -/
def fillHole (lim : Limits) (flags vmFlags : BitVec 32) (pgoff stop addrTmp : Nat) (v : VmArea)
    (m : MmStruct) : Option MmStruct :=
  if addrTmp < v.start ∧ v.start < stop then
    (propagateRegion lim m addrTmp (v.start - addrTmp) flags vmFlags pgoff).map Prod.snd
  else some m

/-- The end of `do_absys_vma_propagate`, from "doing minimum interference" on. -/
def fillInterval (lim : Limits) (m : MmStruct) (addr len : Nat) (flags vmFlags : BitVec 32)
    (pgoff : Nat) : Option (Nat × MmStruct) :=
  let stop := wordAdd addr len
  match walkAreas MmStruct.areas (fillHole lim flags vmFlags pgoff stop) stop addr m with
  | none => none
  | some (addrTmp, m') =>
    if stop ≤ addrTmp then some (addr, m')
    else propagateRegion lim m' addr len flags vmFlags pgoff

def doAbsysVmaPropagate (lim : Limits) (t : VmTask) (addr len : Nat) (prot flags : BitVec 32) :
    Option (Nat × MmStruct) :=
  if len = 0 then some (errWord Errno.inval, t.mm)
  else if mlockError lim t flags (reserveFlags t prot flags) len ≠ 0 then
    some (errWord (mlockError lim t flags (reserveFlags t prot flags) len), t.mm)
  else
    match mapType flags with
    | none => some (errWord Errno.inval, t.mm)
    | some type =>
      if lim.fileMmap prot (t.prot prot) flags addr ≠ 0 then
        some (errWord (lim.fileMmap prot (t.prot prot) flags addr), t.mm)
      else
        fillInterval lim t.mm addr len flags (reserveFlags t prot flags ||| type.flags)
          (type.pgoff addr)

/-! ### Bits -/

/-- The flags with which holes are filled. -/
def holeFlags (lim : Limits) (t : VmTask) (prot flags : BitVec 32) (type : MapType) : BitVec 32 :=
  regionFlags lim flags (reserveFlags t prot flags ||| type.flags)

section Flags

variable (lim : Limits) (t : VmTask) (prot flags : BitVec 32) (type : MapType)

/-- A bit of the flags for holes. -/
theorem holeFlags_getLsbD (i : Nat) :
    (holeFlags lim t prot flags type).getLsbD i =
      ((reserveFlags t prot flags).getLsbD i || type.flags.getLsbD i ||
        (VmFlag.noReserve.getLsbD i &&
          decide (flags &&& MapFlag.noReserve ≠ 0 ∧ lim.overcommitNever = false))) := by
  unfold holeFlags regionFlags
  split <;> simp_all

theorem holeFlags_abControl : AbControl (holeFlags lim t prot flags type) := by
  rw [abControl_iff, holeFlags_getLsbD, reserveFlags, BitVec.getLsbD_and,
    (abControl_iff _).mp (channelFlags_abControl t prot flags)]
  simp

/-- Nothing in the flags allows an access. -/
theorem holeFlags_access : holeFlags lim t prot flags type &&& VmFlag.access = 0 := by
  apply BitVec.eq_of_getLsbD_eq
  intro i hi
  rw [BitVec.getLsbD_and, holeFlags_getLsbD, reserveFlags, BitVec.getLsbD_and]
  have hbits : VmFlag.access.getLsbD i = false ∨ (0xfffffff0#32).getLsbD i = false ∧
      type.flags.getLsbD i = false ∧ VmFlag.noReserve.getLsbD i = false := by
    revert i
    cases type <;> decide
  rcases hbits with h | ⟨h₁, h₂, h₃⟩
  · simp [h]
  · simp [h₁, h₂, h₃]

theorem holeFlags_linear : holeFlags lim t prot flags type &&& VmFlag.canNonlinear = 0 := by
  refine regionFlags_linear lim flags (or_linear ?_ type.flags_linear)
  rw [and_canNonlinear_iff, reserveFlags, BitVec.getLsbD_and,
    (and_canNonlinear_iff _).mp (channelFlags_linear t prot flags), Bool.false_and]

end Flags

/-- A call that reserves pages: they have no access, and need not be there at once. -/
structure Reserving (lim : Limits) (flags vmFlags : BitVec 32) : Prop where
  linear : regionFlags lim flags vmFlags &&& VmFlag.canNonlinear = 0
  access : regionFlags lim flags vmFlags &&& VmFlag.access = 0
  lazily : ¬Populates flags

/-- Locking the pages does not fault them in. -/
theorem Reserving.noFault {lim : Limits} {flags vmFlags : BitVec 32}
    (h : Reserving lim flags vmFlags) :
    ¬(regionFlags lim flags vmFlags &&& VmFlag.locked ≠ 0 ∧
      regionFlags lim flags vmFlags &&& (VmFlag.read ||| VmFlag.write) ≠ 0) := by
  have hmask : VmFlag.read ||| VmFlag.write =
      VmFlag.access &&& (VmFlag.read ||| VmFlag.write) := by decide
  rw [hmask, ← BitVec.and_assoc, h.access]
  exact fun hboth => hboth.2 BitVec.zero_and

theorem reserving_hole (lim : Limits) (t : VmTask) (prot : BitVec 32) {flags : BitVec 32}
    (type : MapType) (hpop : ¬Populates flags) :
    Reserving lim flags (reserveFlags t prot flags ||| type.flags) :=
  ⟨holeFlags_linear lim t prot flags type, holeFlags_access lim t prot flags type, hpop⟩

/-! ### Holes -/

/-- The pages without an area among the `n` pages from `first` on. -/
def holes (l : List VmArea) (first n : Nat) : Nat :=
  Nat.count (fun i => flagsAt l (first + i * 4096) = none) n

theorem holes_add (l : List VmArea) (first n k : Nat) :
    holes l first (n + k) = holes l first n + holes l (first + n * 4096) k := by
  unfold holes
  rw [Nat.count_add]
  simp only [show ∀ i, first + (n + i) * 4096 = first + n * 4096 + i * 4096 by intro i; omega]

theorem holes_free {l : List VmArea} {first n : Nat}
    (h : ∀ i < n, flagsAt l (first + i * 4096) = none) : holes l first n = n :=
  Nat.count_of_forall h

theorem holes_mapped {l : List VmArea} {first n : Nat}
    (h : ∀ i < n, flagsAt l (first + i * 4096) ≠ none) : holes l first n = 0 :=
  Nat.count_of_forall_not h

/-! ### One region -/

theorem propagateRegion_gap {lim : Limits} {m : MmStruct} {addr len : Nat}
    {flags vmFlags : BitVec 32} {pgoff : Nat} (hres : Reserving lim flags vmFlags)
    (hlt : addr + len < 2 ^ 32) (hpos : 0 < len) (hm : Ordered m.areas)
    (hfree : ∀ x, addr ≤ x → x < addr + len → flagsAt m.areas x = none) :
    ∃ k, propagateRegion lim m addr len flags vmFlags pgoff =
      if m.totalVm + len / 4096 ≤ lim.asLimit then
        some (addr, { m with
          areas := mapArea m.areas addr (addr + len) (regionFlags lim flags vmFlags) pgoff
          totalVm := m.totalVm + len / 4096
          lockedVm := k })
      else some (errWord Errno.noMem, m) := by
  have hmeet : findVmaIntersection m.areas addr (addr + len) = none :=
    (meeting_eq_none_iff hm (by omega)).mpr fun x hx hxs => flagsAt_eq_none_iff.mp (hfree x hx hxs)
  obtain ⟨k, hlock⟩ := lockOrPopulate_reserved lim { m with
    areas := mapArea m.areas addr (addr + len) (regionFlags lim flags vmFlags) pgoff
    totalVm := m.totalVm + len / 4096 } addr len hres.lazily hres.noFault
  refine ⟨k, ?_⟩
  unfold propagateRegion
  simp only [wordAdd_eq hlt, hmeet, mayExpandVm, hlock, Option.map_some]

/-- The assertion fails if something is mapped. -/
theorem propagateRegion_eq_none {lim : Limits} {m : MmStruct} {addr len x : Nat}
    (flags vmFlags : BitVec 32) (pgoff : Nat) (hlt : addr + len < 2 ^ 32) (hm : Ordered m.areas)
    (hx : addr ≤ x) (hxs : x < addr + len) (hmapped : flagsAt m.areas x ≠ none) :
    propagateRegion lim m addr len flags vmFlags pgoff = none := by
  rcases hmeet : findVmaIntersection m.areas addr (addr + len) with _ | v
  · have := get_of_meeting_eq_none hm hmeet hx hxs
    exact absurd (flagsAt_eq_none_iff.mpr this) hmapped
  · unfold propagateRegion
    simp only [wordAdd_eq hlt, hmeet]

/-! ### The loop -/

/-- The pages that are missing do not exceed the limit. -/
def HolesFit (lim : Limits) (m : MmStruct) (addr n : Nat) : Prop :=
  holes m.areas addr n = 0 ∨ m.totalVm + holes m.areas addr n ≤ lim.asLimit

instance (lim : Limits) (m : MmStruct) (addr n : Nat) : Decidable (HolesFit lim m addr n) :=
  inferInstanceAs (Decidable (_ ∨ _))

/-- The holes before `a` are filled if they fit, and otherwise one of them is left. -/
structure Filling (lim : Limits) (m₀ : MmStruct) (f : BitVec 32) (addr stop a : Nat)
    (m : MmStruct) : Prop where
  ok : AreasOk m.areas
  le : addr ≤ a
  aligned : a % 4096 = 0
  met : a = addr ∨ flagsAt m₀.areas (min a stop - 1) ≠ none
  past : ∀ x, stop ≤ x → x < a → flagsAt m₀.areas x ≠ none
  keep : ∀ x, flagsAt m₀.areas x ≠ none ∨ x < addr ∨ a ≤ x →
    flagsAt m.areas x = flagsAt m₀.areas x
  fits : HolesFit lim m₀ addr ((a - addr) / 4096) →
    m.totalVm = m₀.totalVm + holes m₀.areas addr ((a - addr) / 4096) ∧
      ∀ x, addr ≤ x → x < a → flagsAt m₀.areas x = none → flagsAt m.areas x = some f
  short : ¬HolesFit lim m₀ addr ((a - addr) / 4096) →
    ∃ x, addr ≤ x ∧ x < a ∧ x < stop ∧ flagsAt m.areas x = none

namespace Filling

variable {lim : Limits} {m₀ m : MmStruct} {f flags vmFlags : BitVec 32}
  {addr stop a : Nat} {v : VmArea}

theorem start (lim : Limits) (h : AreasOk m₀.areas) (haddr : addr % 4096 = 0) (f : BitVec 32)
    (hpos : addr < stop) : Filling lim m₀ f addr stop addr m₀ := by
  have hzero : holes m₀.areas addr ((addr - addr) / 4096) = 0 := by
    rw [Nat.sub_self]
    exact holes_mapped (by omega)
  exact ⟨h, Nat.le_refl _, haddr, .inl rfl, fun x hx hxa => by omega, fun _ _ => rfl,
    fun _ => ⟨by rw [hzero, Nat.add_zero], fun x hx hx' => by omega⟩,
    fun hshort => absurd (.inl hzero) hshort⟩

/-- The area that the loop meets, in terms of the areas it began with. -/
theorem area (h : Filling lim m₀ f addr stop a m)
    (hv : findVmaIntersection m.areas a stop = some v) :
    v.start < stop ∧ a < v.stop ∧ v.start % 4096 = 0 ∧ v.stop % 4096 = 0 ∧ v.stop ≤ taskSize ∧
    (∀ x, a ≤ x → x < v.start → flagsAt m₀.areas x = none) ∧
    ∀ x, a ≤ x → v.start ≤ x → x < v.stop → flagsAt m₀.areas x ≠ none := by
  obtain ⟨hmem, hstop, hstart, hfree⟩ := meeting_eq_some h.ok.ordered hv
  have haligned := h.ok.aligned v hmem
  refine ⟨hstart, hstop, haligned.1, haligned.2, h.ok.bounded v hmem, fun x hx hxv => ?_,
    fun x hx hvx hxv => ?_⟩
  · rw [← h.keep x (.inr (.inr hx))]
    exact flagsAt_eq_none_iff.mpr (hfree x hx hxv)
  · rw [← h.keep x (.inr (.inr hx)), Ne, flagsAt_eq_none_iff,
      h.ok.ordered.get_of_mem hmem ⟨hvx, hxv⟩]
    simp

/-- The pages missing up to the end of the area are those before it. -/
theorem holes_area (h : Filling lim m₀ f addr stop a m)
    (hv : findVmaIntersection m.areas a stop = some v) (haddr : addr % 4096 = 0) :
    holes m₀.areas addr ((v.stop - addr) / 4096) =
      holes m₀.areas addr ((a - addr) / 4096) + (v.start - a) / 4096 := by
  obtain ⟨-, hstop, hva, hvb, -, hfree, hmapped⟩ := h.area hv
  have hpos : v.start < v.stop := h.ok.ordered.pos v (meeting_eq_some h.ok.ordered hv).1
  have hle := h.le
  have ha := h.aligned
  have hn : (v.stop - addr) / 4096 =
      (a - addr) / 4096 + (v.start - a) / 4096 + (v.stop - max a v.start) / 4096 := by
    omega
  have hfirst : addr + (a - addr) / 4096 * 4096 = a := by omega
  have hsecond : a + (v.start - a) / 4096 * 4096 = max a v.start := by omega
  have hbefore : holes m₀.areas a ((v.start - a) / 4096) = (v.start - a) / 4096 :=
    holes_free fun i hi => hfree _ (by omega) (by omega)
  have hinside : holes m₀.areas (max a v.start) ((v.stop - max a v.start) / 4096) = 0 :=
    holes_mapped fun i hi => hmapped _ (by omega) (by omega) (by omega)
  rw [hn, Nat.add_assoc, holes_add, hfirst, holes_add, hsecond, hbefore, hinside, Nat.add_zero]

theorem keep_of_le (h : Filling lim m₀ f addr stop a m) {a' x : Nat} (ha : a ≤ a')
    (hx : flagsAt m₀.areas x ≠ none ∨ x < addr ∨ a' ≤ x) :
    flagsAt m.areas x = flagsAt m₀.areas x :=
  h.keep x (hx.imp_right (Or.imp_right (Nat.le_trans ha)))

/-- No hole in front of the area. -/
theorem skip (h : Filling lim m₀ f addr stop a m)
    (hv : findVmaIntersection m.areas a stop = some v) (haddr : addr % 4096 = 0)
    (ha : a < stop) (hstart : v.start ≤ a) : Filling lim m₀ f addr stop v.stop m := by
  obtain ⟨hlt, hstop, hva, hvb, -, hfree, hmapped⟩ := h.area hv
  have hle := h.le
  have hholes : holes m₀.areas addr ((v.stop - addr) / 4096) =
      holes m₀.areas addr ((a - addr) / 4096) := by
    rw [h.holes_area hv haddr, show (v.start - a) / 4096 = 0 by omega, Nat.add_zero]
  refine ⟨h.ok, by omega, hvb, .inr (hmapped _ (by omega) (by omega) (by omega)),
    fun x hx hxv => hmapped x (by omega) (by omega) hxv,
    fun x hx => h.keep_of_le (Nat.le_of_lt hstop) hx, ?_, ?_⟩
  · unfold HolesFit
    rw [hholes]
    intro hfit
    obtain ⟨htotal, hfilled⟩ := h.fits hfit
    refine ⟨htotal, fun x hx hxv hnone => hfilled x hx ?_ hnone⟩
    by_contra hxa
    exact hmapped x (by omega) (by omega) hxv hnone
  · unfold HolesFit
    rw [hholes]
    intro hshort
    obtain ⟨x, hx, hxa, hxs, hnone⟩ := h.short hshort
    exact ⟨x, hx, by omega, hxs, hnone⟩

/-- The hole in front of the area is filled, if it fits. -/
theorem fill (pgoff : Nat) (h : Filling lim m₀ (regionFlags lim flags vmFlags) addr stop a m)
    (hres : Reserving lim flags vmFlags)
    (hv : findVmaIntersection m.areas a stop = some v) (haddr : addr % 4096 = 0)
    (ha : a < stop) (hstart : a < v.start) :
    ∃ r m', propagateRegion lim m a (v.start - a) flags vmFlags pgoff = some (r, m') ∧
      Filling lim m₀ (regionFlags lim flags vmFlags) addr stop v.stop m' := by
  obtain ⟨hlt, hstop, hva, hvb, hbound, hfree, hmapped⟩ := h.area hv
  have hle := h.le
  have ha' := h.aligned
  have hv' : v.start < v.stop := h.ok.ordered.pos v (meeting_eq_some h.ok.ordered hv).1
  have hend : a + (v.start - a) = v.start := by omega
  have hfree' : ∀ x, a ≤ x → x < a + (v.start - a) → flagsAt m.areas x = none := by
    intro x hx hxv
    rw [h.keep x (.inr (.inr hx))]
    exact hfree x hx (by omega)
  have hmet : flagsAt m₀.areas (min v.stop stop - 1) ≠ none :=
    hmapped _ (by omega) (by omega) (by omega)
  have hpast : ∀ x, stop ≤ x → x < v.stop → flagsAt m₀.areas x ≠ none :=
    fun x hx hxv => hmapped x (by omega) (by omega) hxv
  have hholes := h.holes_area hv haddr
  obtain ⟨k, hregion⟩ := propagateRegion_gap hres
    (by unfold taskSize at hbound; omega) (by omega) h.ok.ordered hfree'
  rw [hregion, hend]
  -- the hole is filled if the limit allows it, and skipped if not
  by_cases hroom : m.totalVm + (v.start - a) / 4096 ≤ lim.asLimit
  · obtain ⟨-, hflags, hok⟩ := h.ok.mapArea pgoff hstart (fun x hx hxv => hfree' x hx (by omega))
      hres.linear
    rw [if_pos hroom]
    refine ⟨_, _, rfl, hok ha' hva (by omega), by omega, hvb, .inr hmet, hpast, fun x hx => ?_,
      ?_, ?_⟩
    · simp only
      rw [hflags x, h.keep_of_le (Nat.le_of_lt hstop) hx, if_neg]
      rintro ⟨hax, hxv⟩
      have := hfree x hax hxv
      rcases hx with hx | hx | hx
      · exact hx this
      · omega
      · omega
    · unfold HolesFit
      rw [hholes]
      intro hfit
      obtain ⟨htotal, hfilled⟩ := h.fits (by unfold HolesFit; omega)
      refine ⟨by simp only; omega, fun x hx hxv hnone => ?_⟩
      simp only
      rw [hflags x]
      by_cases hxa : a ≤ x ∧ x < v.start
      · rw [if_pos hxa]
      · rw [if_neg hxa]
        refine hfilled x hx ?_ hnone
        by_contra hax
        exact hmapped x (by omega) (by omega) hxv hnone
    · unfold HolesFit
      rw [hholes]
      intro hshort
      have hshort' : ¬HolesFit lim m₀ addr ((a - addr) / 4096) := by
        intro hfit
        have := (h.fits hfit).1
        omega
      obtain ⟨x, hx, hxa, hxs, hnone⟩ := h.short hshort'
      refine ⟨x, hx, by omega, hxs, ?_⟩
      simp only
      rw [hflags x, if_neg (by omega), hnone]
  · rw [if_neg hroom]
    refine ⟨_, _, rfl, h.ok, by omega, hvb, .inr hmet, hpast,
      fun x hx => h.keep_of_le (Nat.le_of_lt hstop) hx, ?_, ?_⟩
    · unfold HolesFit
      rw [hholes]
      intro hfit
      have := (h.fits (by unfold HolesFit; omega)).1
      omega
    · intro _
      exact ⟨a, by omega, by omega, ha, hfree' a (Nat.le_refl _) (by omega)⟩

/-- One turn of the loop. -/
theorem step (pgoff : Nat) (h : Filling lim m₀ (regionFlags lim flags vmFlags) addr stop a m)
    (hres : Reserving lim flags vmFlags)
    (hv : findVmaIntersection m.areas a stop = some v) (haddr : addr % 4096 = 0)
    (ha : a < stop) :
    ∃ m', fillHole lim flags vmFlags pgoff stop a v m = some m' ∧
      Filling lim m₀ (regionFlags lim flags vmFlags) addr stop v.stop m' := by
  obtain ⟨hlt, -⟩ := h.area hv
  unfold fillHole
  by_cases hstart : a < v.start
  · obtain ⟨r, m', hregion, hfill⟩ := h.fill pgoff hres hv haddr ha hstart
    exact ⟨m', by rw [if_pos ⟨hstart, hlt⟩, hregion, Option.map_some], hfill⟩
  · exact ⟨m, by rw [if_neg (by omega)], h.skip hv haddr ha (by omega)⟩

end Filling

/-- The three ways in which the loop can end. -/
theorem fillInterval_cases {lim : Limits} {m : MmStruct} {addr len : Nat}
    {flags vmFlags : BitVec 32} (pgoff : Nat) (hm : AreasOk m.areas) (haddr : addr % 4096 = 0)
    (hpos : 0 < len) (hlt : addr + len < 2 ^ 32) (hres : Reserving lim flags vmFlags) :
    (∃ a m', fillInterval lim m addr len flags vmFlags pgoff = some (addr, m') ∧
      Filling lim m (regionFlags lim flags vmFlags) addr (addr + len) a m' ∧ addr + len ≤ a ∧
      flagsAt m.areas (addr + len - 1) ≠ none) ∨
    (fillInterval lim m addr len flags vmFlags pgoff =
        propagateRegion lim m addr len flags vmFlags pgoff ∧
      ∀ x, addr ≤ x → x < addr + len → flagsAt m.areas x = none) ∨
    (fillInterval lim m addr len flags vmFlags pgoff = none ∧
      flagsAt m.areas (addr + len - 1) = none ∧
      ∃ x, addr ≤ x ∧ x < addr + len ∧ flagsAt m.areas x ≠ none) := by
  -- the walk over the areas that meet the interval
  obtain ⟨a, m', hwalk, ⟨hfill, hsame⟩, hexit⟩ := walkAreas_invariant
    MmStruct.areas (fillHole lim flags vmFlags pgoff (addr + len))
    (fun a m' => Filling lim m (regionFlags lim flags vmFlags) addr (addr + len) a m' ∧
      (a = addr → m' = m))
    (fun a m' v ha h hv => by
      obtain ⟨m'', hbody, hstep⟩ := h.1.step pgoff hres hv haddr ha
      have hle := h.1.le
      have hlt := lt_stop_of_meeting hv
      exact ⟨m'', hbody, hstep, fun h => by omega⟩)
    addr m (by omega) ⟨Filling.start lim hm haddr _ (by omega), fun _ => rfl⟩
  have heq : fillInterval lim m addr len flags vmFlags pgoff =
      if addr + len ≤ a then some (addr, m')
      else propagateRegion lim m' addr len flags vmFlags pgoff := by
    unfold fillInterval
    simp only [wordAdd_eq hlt, hwalk]
  have hle := hfill.le
  by_cases hend : addr + len ≤ a
  · refine .inl ⟨a, m', by rw [heq, if_pos hend], hfill, hend, ?_⟩
    rcases hfill.met with h | h
    · omega
    · rwa [Nat.min_eq_right hend] at h
  have hrest : ∀ x, a ≤ x → x < addr + len → flagsAt m.areas x = none := by
    intro x hx hxs
    rw [← hfill.keep x (.inr (.inr hx))]
    exact flagsAt_eq_none_iff.mpr
      (get_of_meeting_eq_none hfill.ok.ordered (hexit.resolve_left hend) hx hxs)
  rw [if_neg hend] at heq
  by_cases ha : a = addr
  · rw [hsame ha] at heq
    exact .inr (.inl ⟨heq, fun x hx hxs => hrest x (by omega) hxs⟩)
  · -- The last area met ends inside of the interval, at `a`.
    have hmapped : flagsAt m.areas (a - 1) ≠ none := by
      have := hfill.met.resolve_left ha
      rwa [Nat.min_eq_left (by omega)] at this
    refine .inr (.inr ⟨?_, hrest _ (by omega) (by omega), a - 1, by omega, by omega, hmapped⟩)
    rw [heq]
    refine propagateRegion_eq_none flags vmFlags pgoff hlt hfill.ok.ordered
      (show addr ≤ a - 1 by omega) (by omega) ?_
    rwa [hfill.keep (a - 1) (.inl hmapped)]

/-! ### The interval is reserved -/

/-- What the call is for: the interval is mapped, without access where nothing was mapped
    before, and nothing else has changed. -/
structure Reserved (l l' : List VmArea) (addr len : Nat) : Prop where
  mapped : ∀ x, addr ≤ x → x < addr + len → flagsAt l' x ≠ none
  kept : ∀ x f, flagsAt l x = some f → flagsAt l' x = some f
  fresh : ∀ x f, addr ≤ x → x < addr + len → flagsAt l x = none → flagsAt l' x = some f →
    AbControl f ∧ f &&& VmFlag.access = 0
  outside : ∀ x, x < addr ∨ addr + len ≤ x → flagsAt l' x = flagsAt l x

/-- No limit is hit: the pages that are missing fit, and neither locking nor the security
    hook refuses them. -/
structure WithinLimits (lim : Limits) (t : VmTask) (addr len : Nat) (prot flags : BitVec 32) :
    Prop where
  fit : HolesFit lim t.mm addr (len / 4096)
  lock : mlockError lim t flags (reserveFlags t prot flags) len = 0
  security : lim.fileMmap prot (t.prot prot) flags addr = 0

/-- Nothing was mapped in the interval, or its last page was. -/
def NoTailHole (l : List VmArea) (addr len : Nat) : Prop :=
  (∀ x, addr ≤ x → x < addr + len → flagsAt l x = none) ∨ flagsAt l (addr + len - 1) ≠ none

/-- The interval is mapped as a whole. -/
def AllMapped (l : List VmArea) (addr len : Nat) : Prop :=
  ∀ x, addr ≤ x → x < addr + len → flagsAt l x ≠ none

theorem reserved_self_iff (l : List VmArea) (addr len : Nat) :
    Reserved l l addr len ↔ AllMapped l addr len :=
  ⟨fun h => h.mapped, fun h => ⟨h, fun _ _ hx => hx,
    fun x _ hx hxs hnone _ => absurd hnone (h x hx hxs), fun _ _ => rfl⟩⟩

/-- The holes up to the place where the loop stopped are those of the pages of the interval. -/
theorem Filling.holesFit_iff {lim : Limits} {m₀ m : MmStruct} {f : BitVec 32}
    {addr stop n a : Nat} (h : Filling lim m₀ f addr stop a m) (haddr : addr % 4096 = 0)
    (hn : stop ≤ addr + n * 4096) (ha : addr + n * 4096 ≤ a) :
    HolesFit lim m₀ addr ((a - addr) / 4096) ↔ HolesFit lim m₀ addr n := by
  have haligned := h.aligned
  have hn : (a - addr) / 4096 = n + ((a - addr) / 4096 - n) := by omega
  have hpast : holes m₀.areas (addr + n * 4096) ((a - addr) / 4096 - n) = 0 :=
    holes_mapped fun i hi => h.past _ (by omega) (by omega)
  unfold HolesFit
  rw [hn, holes_add, hpast, Nat.add_zero]

theorem Filling.reserved {lim : Limits} {m₀ m : MmStruct} {f : BitVec 32} {addr n a : Nat}
    (h : Filling lim m₀ f addr (addr + n * 4096) a m) (haddr : addr % 4096 = 0)
    (ha : addr + n * 4096 ≤ a) (hfit : HolesFit lim m₀ addr n) (hf : AbControl f)
    (hf' : f &&& VmFlag.access = 0) : Reserved m₀.areas m.areas addr (n * 4096) := by
  have hfilled := (h.fits ((h.holesFit_iff haddr (Nat.le_refl _) ha).mpr hfit)).2
  have hkept : ∀ x g, flagsAt m₀.areas x = some g → flagsAt m.areas x = some g := by
    intro x g hx
    rw [h.keep x (.inl (by simp [hx])), hx]
  refine ⟨fun x hx hxs => ?_, hkept, fun x g hx hxs hnone hg => ?_, fun x hx => ?_⟩
  · rcases hget : flagsAt m₀.areas x with _ | g
    · rw [hfilled x hx (by omega) hget]
      simp
    · rw [hkept x g hget]
      simp
  · rw [hfilled x hx (by omega) hnone, Option.some.injEq] at hg
    rw [← hg]
    exact ⟨hf, hf'⟩
  · by_cases hxa : addr ≤ x ∧ x < a
    · exact h.keep x (.inl (h.past x (by omega) hxa.2))
    · exact h.keep x (by omega)

/-- An interval without areas becomes one area, or part of one. -/
theorem reserved_mapArea {l : List VmArea} {addr len : Nat} {f : BitVec 32} (pgoff : Nat)
    (hl : AreasOk l) (hpos : 0 < len) (hf : AbControl f) (hf' : f &&& VmFlag.access = 0)
    (hlinear : f &&& VmFlag.canNonlinear = 0)
    (hfree : ∀ x, addr ≤ x → x < addr + len → flagsAt l x = none) :
    Reserved l (mapArea l addr (addr + len) f pgoff) addr len := by
  obtain ⟨-, hflags, -⟩ := hl.mapArea pgoff (show addr < addr + len by omega) hfree hlinear
  refine ⟨fun x hx hxs => ?_, fun x g hg => ?_, fun x g hx hxs _ hg => ?_, fun x hx => ?_⟩
  · rw [hflags x, if_pos ⟨hx, hxs⟩]
    simp
  · rw [hflags x, if_neg, hg]
    rintro ⟨hx, hxs⟩
    rw [hfree x hx hxs] at hg
    exact absurd hg (by simp)
  · rw [hflags x, if_pos ⟨hx, hxs⟩, Option.some.injEq] at hg
    rw [← hg]
    exact ⟨hf, hf'⟩
  · rw [hflags x, if_neg (by omega)]

/-- `do_absys_vma_propagate` reserves an interval of pages if no limit is hit, unless there
    is a hole behind the last area in it, where the assertion of `propagate_region` fails.
    If the pages were to be there at once, it would also matter what the caller has mapped. -/
theorem doAbsysVmaPropagate_reserved_iff (lim : Limits) (t : VmTask) (addr len : Nat)
    (prot flags : BitVec 32) (hok : AreasOk t.mm.areas) (haddr : addr % 4096 = 0)
    (hlen : len % 4096 = 0) (hlt : addr + len < 2 ^ 32) (hpop : ¬Populates flags)
    (hlim : WithinLimits lim t addr len prot flags) :
    (∃ r m, doAbsysVmaPropagate lim t addr len prot flags = some (r, m) ∧
      Reserved t.mm.areas m.areas addr len) ↔
    AllMapped t.mm.areas addr len ∨
      mapType flags ≠ none ∧ NoTailHole t.mm.areas addr len := by
  -- Calls that change nothing are right only if there was nothing to do.
  have hself : ∀ w : Nat, (∃ r m, some (w, t.mm) = some (r, m) ∧
      Reserved t.mm.areas m.areas addr len) ↔ AllMapped t.mm.areas addr len := by
    intro w
    rw [← reserved_self_iff]
    constructor
    · rintro ⟨r, m, heq, hres⟩
      cases heq
      exact hres
    · exact fun h => ⟨w, t.mm, rfl, h⟩
  unfold doAbsysVmaPropagate
  by_cases hzero : len = 0
  · rw [if_pos hzero, hself]
    have hall : AllMapped t.mm.areas addr len := fun x hx hxs => by omega
    exact ⟨.inl, fun _ => hall⟩
  rw [if_neg hzero, if_neg (by rw [hlim.lock]; decide)]
  rcases htype : mapType flags with _ | type
  · simp only [hself]
    exact ⟨.inl, fun h => h.resolve_right fun h => h.1 rfl⟩
  simp only [hlim.security, ne_eq, not_true_eq_false, if_false, reduceCtorEq, not_false_eq_true,
    true_and]
  have hlast : AllMapped t.mm.areas addr len → flagsAt t.mm.areas (addr + len - 1) ≠ none :=
    fun h => h _ (by omega) (by omega)
  have hcontrol := holeFlags_abControl lim t prot flags type
  have haccess := holeFlags_access lim t prot flags type
  have hres := reserving_hole lim t prot type hpop
  have hpages : len / 4096 * 4096 = len := by omega
  rcases fillInterval_cases (type.pgoff addr) hok haddr (by omega) hlt hres with
    ⟨a, m', heq, hfill, ha, hmapped⟩ | ⟨heq, hfree⟩ | ⟨heq, htail, x, hx, hxs, hmapped⟩
  · refine iff_of_true ⟨addr, m', heq, ?_⟩ (.inr (.inr hmapped))
    rw [← hpages] at hfill ha ⊢
    exact hfill.reserved haddr ha hlim.fit hcontrol haccess
  · refine iff_of_true ?_ (.inr (.inl hfree))
    have hcount : holes t.mm.areas addr (len / 4096) = len / 4096 :=
      holes_free fun i hi => hfree _ (by omega) (by omega)
    have hfit := hlim.fit
    unfold HolesFit at hfit
    rw [hcount] at hfit
    obtain ⟨k, hregion⟩ := propagateRegion_gap hres hlt (by omega)
      hok.ordered hfree
    rw [heq, hregion, if_pos (by omega)]
    exact ⟨_, _, rfl, reserved_mapArea _ hok (by omega) hcontrol haccess hres.linear hfree⟩
  · refine iff_of_false ?_ ?_
    · rintro ⟨r, m, hsome, -⟩
      rw [heq] at hsome
      exact absurd hsome (by simp)
    · rintro (hall | hnone | hmapped')
      · exact hlast hall htail
      · exact hmapped (hnone x hx hxs)
      · exact hmapped' htail

/-- A hole in front of an area is filled. -/
theorem doAbsysVmaPropagate_reserved_front :
    ∃ r m, doAbsysVmaPropagate roomyLimits
        (taskOf [anonArea 0x80001000 0x80003000 0x20000078#32 0x80001]) 0x80000000 0x2000 0#32
        (MapFlag.priv ||| MapFlag.anonymous) = some (r, m) ∧
      Reserved [anonArea 0x80001000 0x80003000 0x20000078#32 0x80001] m.areas 0x80000000
        0x2000 :=
  (doAbsysVmaPropagate_reserved_iff roomyLimits
    (taskOf [anonArea 0x80001000 0x80003000 0x20000078#32 0x80001]) 0x80000000 0x2000 0#32
    (MapFlag.priv ||| MapFlag.anonymous) (by decide) (by decide) (by decide) (by decide) (by decide)
    ⟨by decide, by decide, rfl⟩).mpr (.inr ⟨by decide, .inr (by decide)⟩)

/-- Two pages of which the task has mapped the first: no limit is hit, and the assertion
    fails. -/
theorem doAbsysVmaPropagate_tail_hole :
    AreasOk [anonArea 0x80000000 0x80001000 0x20000078#32 0x80000] ∧
    WithinLimits roomyLimits (taskOf [anonArea 0x80000000 0x80001000 0x20000078#32 0x80000])
      0x80000000 0x2000 0#32 (MapFlag.priv ||| MapFlag.anonymous) ∧
    doAbsysVmaPropagate roomyLimits
      (taskOf [anonArea 0x80000000 0x80001000 0x20000078#32 0x80000]) 0x80000000 0x2000 0#32
      (MapFlag.priv ||| MapFlag.anonymous) = none :=
  ⟨by decide, ⟨by decide, by decide, rfl⟩, by decide +kernel⟩

end ArbiterThread
