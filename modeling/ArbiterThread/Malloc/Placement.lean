import ArbiterThread.Lib.LinkedList
import ArbiterThread.Malloc.Units

/-!
# The Placement of Mapped Units

Large requests get units of their own, placed from the end of the channel heap
downwards. `get_unmapped_area` looks for an area and `insert_mmapped_unit` puts
the new unit on an address-sorted list.

The search compares an area with the listed units only. It never looks at the
break, and the room below the lowest unit is compared with 16 times the size of
the request, because the bytes are added to a chunk pointer. Where its sums
wrap around, every area fits. So it answers an area above the break exactly
when the first area that is wide enough happens to end far enough above the
break, which is `AboveBreak`.

The insertion walks the list from its tail and links the new unit in behind
the first unit that ends below it, through the unit that follows. It works in
the middle and in front. It cannot add a unit behind the tail.

## Main definitions

* `Ustate.stop`: Where a unit ends.
* `Sorted`: The listed units are in the order of their addresses and disjoint.
* `AboveBreak`: The area the search settles on ends far enough above the break.
* `insertUnit`: `insert_mmapped_unit` on the nodes of the list.

## Theorems

* `getUnmappedArea_placed_iff`: When the area found is free.
* `wp_insertMmappedUnit_nodes`: The list of the state is what the nodes hold.
-/

namespace ArbiterThread

open Exec

variable {K : Type}

/-- Where the channel heap ends. -/
abbrev channelEnd : Nat := channelAddr + channelSize

/-- Where a unit ends. -/
def Ustate.stop (u : Ustate) : Nat := u.addr + u.length

/-- The listed units are in the order of their addresses and disjoint. -/
def Sorted (units : Nat → Ustate) (list : List Nat) : Prop :=
  list.Pairwise fun l h => (units l).stop ≤ (units h).addr

theorem Sorted.congr {units units' : Nat → Ustate} {list : List Nat} (h : Sorted units list)
    (heq : ∀ u ∈ list, units' u = units u) : Sorted units' list := by
  refine List.Pairwise.imp_of_mem (fun {l u} hl hu hlu => ?_) h
  rwa [heq l hl, heq u hu]

theorem Sorted.insert {units : Nat → Ustate} {below above : List Nat} {unit : Nat}
    (h : Sorted units (below ++ above))
    (hbelow : ∀ u ∈ below, (units u).stop ≤ (units unit).addr)
    (habove : ∀ u ∈ above, (units unit).stop ≤ (units u).addr) :
    Sorted units (below ++ unit :: above) := by
  obtain ⟨hlow, hhigh, hcross⟩ := List.pairwise_append.mp h
  refine List.pairwise_append.mpr ⟨hlow, List.pairwise_cons.mpr ⟨habove, hhigh⟩, ?_⟩
  intro l hl u hu
  rcases List.mem_cons.mp hu with rfl | hu
  · exact hbelow l hl
  · exact hcross l hl u hu

/-- Two units of the list are disjoint. -/
theorem Sorted.apart {units : Nat → Ustate} {list : List Nat} (h : Sorted units list) {u v : Nat}
    (hu : u ∈ list) (hv : v ∈ list) (hne : u ≠ v) :
    (units u).stop ≤ (units v).addr ∨ (units v).stop ≤ (units u).addr := by
  induction list with
  | nil => exact absurd hu List.not_mem_nil
  | cons w list ih =>
    obtain ⟨hw, hlist⟩ := List.pairwise_cons.mp h
    rcases List.mem_cons.mp hu with rfl | hu'
    · rcases List.mem_cons.mp hv with rfl | hv'
      · exact absurd rfl hne
      · exact Or.inl (hw v hv')
    · rcases List.mem_cons.mp hv with rfl | hv'
      · exact Or.inr (hw u hu')
      · exact ih hlist hu' hv'

/-- The listed units lie in the channel heap. -/
def InChannel (units : Nat → Ustate) (list : List Nat) : Prop :=
  ∀ u ∈ list, channelAddr ≤ (units u).addr ∧ 0 < (units u).length ∧ (units u).stop ≤ channelEnd

/-- The area of `size` bytes at `r` and the unit are disjoint. -/
def Misses (units : Nat → Ustate) (r size u : Nat) : Prop :=
  r + size ≤ (units u).addr ∨ (units u).stop ≤ r

/-! ### The search -/

/-- The first hole that is wide enough, from the listed unit on downwards, ends
    at least `size` bytes above the break. Below the lowest unit a hole is wide
    enough if 16 times the size fits above the start of the heap. -/
def HoleAboveBreak (units : Nat → Ustate) (brk size : Nat) : List Nat → Prop
  | [] => True
  | [h] =>
      (channelAddr + 16 * size) % wordSize ≤ (units h).addr → brk + size ≤ (units h).addr
  | h :: l :: rest =>
      if (units l).stop + size < (units h).addr then brk + size ≤ (units h).addr
      else HoleAboveBreak units brk size (l :: rest)

/-- The first area that is wide enough, if there is one, ends at least `size`
    bytes above the break, and no sum wraps around. A request of exactly
    `channelEnd` bytes is answered by 0, which says that there is no area. -/
def AboveBreak (units : Nat → Ustate) (list : List Nat) (brk size : Nat) : Prop :=
  size = channelEnd ∨
    match list.reverse with
    | [] => brk + size ≤ channelEnd
    | tail :: rest =>
        (units tail).stop + size < wordSize ∧
          if (units tail).stop + size ≤ channelEnd then brk + size ≤ channelEnd
          else HoleAboveBreak units brk size (tail :: rest)

/-- The part of `get_unmapped_area` below the highest unit. -/
def areaBelow (units : Nat → Ustate) (size tail : Nat) (rest : List Nat) : Nat :=
  match holeBelow units size (tail :: rest) with
  | some a => a
  | none =>
      let head := (units (rest.getLastD tail)).addr
      if (channelAddr + 16 * size) % wordSize ≤ head then (head + (wordSize - size)) % wordSize
      else 0

theorem getUnmappedArea_eq (units : Nat → Ustate) (list : List Nat) (size : Nat) :
    getUnmappedArea units list size =
      match list.reverse with
      | [] => (channelEnd + (wordSize - size)) % wordSize
      | tail :: rest =>
          if ((units tail).stop + size) % wordSize ≤ channelEnd then
            (channelEnd + (wordSize - size)) % wordSize
          else areaBelow units size tail rest := rfl

/-- If the search gets to the area below the lowest unit and takes it, the size
    is not larger than the address of that unit. -/
def LowFits (units : Nat → Ustate) (size tail : Nat) (rest : List Nat) : Prop :=
  holeBelow units size (tail :: rest) = none →
    (channelAddr + 16 * size) % wordSize ≤ (units (rest.getLastD tail)).addr →
      size ≤ (units (rest.getLastD tail)).addr

theorem areaBelow_nil (units : Nat → Ustate) (size tail : Nat) :
    areaBelow units size tail [] =
      if (channelAddr + 16 * size) % wordSize ≤ (units tail).addr then
        ((units tail).addr + (wordSize - size)) % wordSize
      else 0 := rfl

/-- The sums of the search do not wrap around below the highest unit if they did
    not there, so it is at the hole below `tail` or goes on. -/
theorem areaBelow_cons (units : Nat → Ustate) (size tail l : Nat) (rest : List Nat)
    (hbelow : (units l).stop ≤ (units tail).addr) (hpos : 0 < size)
    (hroom : (units tail).stop + size < wordSize) :
    areaBelow units size tail (l :: rest) =
        (if (units l).stop + size < (units tail).addr then (units tail).addr - size
        else areaBelow units size l rest) ∧
      (¬ (units l).stop + size < (units tail).addr →
        (LowFits units size tail (l :: rest) ↔ LowFits units size l rest)) := by
  unfold Ustate.stop at hbelow hroom
  have hmod : ((units l).addr + (units l).length + size) % wordSize =
      (units l).addr + (units l).length + size := by
    unfold wordSize at *
    omega
  by_cases hfit : (units l).addr + (units l).length + size < (units tail).addr
  · have harea : ((units tail).addr + (wordSize - size)) % wordSize = (units tail).addr - size := by
      unfold wordSize at *
      omega
    simp only [areaBelow, holeBelow, hmod, hfit, if_true, harea, Ustate.stop, not_true_eq_false,
      false_implies, and_self]
  · simp only [areaBelow, LowFits, holeBelow, hmod, hfit, if_false, List.getLastD_cons, Ustate.stop,
      not_false_eq_true, iff_self, implies_true, and_self]

/-- An area found below the highest unit lies between units: it ends at or below
    those above it, and those below it end before it starts. -/
theorem areaBelow_split (units : Nat → Ustate) (size tail : Nat) (rest : List Nat)
    (hsort : (tail :: rest).Pairwise fun h l => (units l).stop ≤ (units h).addr)
    (hpos : 0 < size) (hroom : (units tail).stop + size < wordSize)
    (hlow : LowFits units size tail rest) :
    areaBelow units size tail rest = 0 ∨
      ∃ above below, tail :: rest = above ++ below ∧ above ≠ [] ∧
        (∀ u ∈ above, areaBelow units size tail rest + size ≤ (units u).addr) ∧
        (∀ u ∈ below, (units u).stop < areaBelow units size tail rest) ∧
        ∃ u ∈ above, areaBelow units size tail rest + size = (units u).addr := by
  -- from the highest unit down, as `get_unmapped_area` goes
  induction rest generalizing tail with
  | nil =>
    rw [areaBelow_nil]
    by_cases hfit : (channelAddr + 16 * size) % wordSize ≤ (units tail).addr
    · have hle : size ≤ (units tail).addr := hlow rfl hfit
      have harea : ((units tail).addr + (wordSize - size)) % wordSize =
          (units tail).addr - size := by
        unfold Ustate.stop wordSize at *
        omega
      rw [if_pos hfit, harea]
      refine Or.inr ⟨[tail], [], rfl, List.cons_ne_nil _ _, ?_, ?_, tail, List.mem_cons_self, ?_⟩
      · simp only [List.mem_singleton, forall_eq]
        omega
      · simp only [List.not_mem_nil, false_implies, implies_true]
      · omega
    · exact Or.inl (if_neg hfit)
  | cons l rest ih =>
    rw [List.pairwise_cons] at hsort
    have hbelow := hsort.1 l List.mem_cons_self
    obtain ⟨harea, hrest⟩ := areaBelow_cons units size tail l rest hbelow hpos hroom
    by_cases hfit : (units l).stop + size < (units tail).addr
    · rw [harea, if_pos hfit]
      refine Or.inr ⟨[tail], l :: rest, rfl, List.cons_ne_nil _ _, ?_, ?_, tail,
        List.mem_cons_self, by omega⟩
      · simp only [List.mem_singleton, forall_eq]
        omega
      · intro u hu
        rcases List.mem_cons.mp hu with rfl | hu
        · omega
        · have hul := (List.pairwise_cons.mp hsort.2).1 u hu
          have hstop : (units l).stop = (units l).addr + (units l).length := rfl
          omega
    · rw [harea, if_neg hfit]
      have hroom' : (units l).stop + size < wordSize := by
        unfold Ustate.stop at *
        omega
      rcases ih l hsort.2 hroom' ((hrest hfit).mp hlow) with
        hzero | ⟨above, below, hsplit, hne, habove, hbelow', v, hv, hva⟩
      · exact Or.inl hzero
      · refine Or.inr ⟨tail :: above, below, by rw [hsplit, List.cons_append],
          List.cons_ne_nil _ _, ?_, hbelow', v, List.mem_cons_of_mem _ hv, hva⟩
        intro u hu
        rcases List.mem_cons.mp hu with rfl | hu
        · have hvl : v ∈ l :: rest := by
            rw [hsplit]
            exact List.mem_append_left _ hv
          have hsv := hsort.1 v hvl
          unfold Ustate.stop at hsv
          omega
        · exact habove u hu

/-- The break is below the area found if it is far enough below the end of the
    hole. -/
theorem areaBelow_brk (units : Nat → Ustate) (brk size tail : Nat) (rest : List Nat)
    (hsort : (tail :: rest).Pairwise fun h l => (units l).stop ≤ (units h).addr)
    (hin : InChannel units (tail :: rest)) (hpos : 0 < size)
    (hroom : (units tail).stop + size < wordSize) :
    LowFits units size tail rest ∧
    ((areaBelow units size tail rest = 0 ∧ HoleAboveBreak units brk size (tail :: rest)) ∨
    (0 < areaBelow units size tail rest ∧
      (brk ≤ areaBelow units size tail rest ↔
        HoleAboveBreak units brk size (tail :: rest)))) := by
  induction rest generalizing tail with
  | nil =>
    have htail := hin tail List.mem_cons_self
    have hlt : size < (units tail).addr := by
      unfold Ustate.stop wordSize channelAddr at *
      omega
    refine ⟨fun _ _ => hlt.le, ?_⟩
    rw [areaBelow_nil]
    by_cases hfit : (channelAddr + 16 * size) % wordSize ≤ (units tail).addr
    · have harea : ((units tail).addr + (wordSize - size)) % wordSize =
          (units tail).addr - size := by
        unfold Ustate.stop wordSize at *
        omega
      right
      simp only [HoleAboveBreak, hfit, if_true, true_implies, harea]
      omega
    · left
      simp only [HoleAboveBreak, hfit, if_false, false_implies, and_self]
  | cons l rest ih =>
    have hl := hin l (List.mem_cons_of_mem _ List.mem_cons_self)
    rw [List.pairwise_cons] at hsort
    have hbelow := hsort.1 l List.mem_cons_self
    obtain ⟨harea, hrest⟩ := areaBelow_cons units size tail l rest hbelow hpos hroom
    have hroom' : (units l).stop + size < wordSize := by
      unfold Ustate.stop at *
      omega
    obtain ⟨hlow, hbrk⟩ := ih l hsort.2 (fun u hu => hin u (List.mem_cons_of_mem _ hu)) hroom'
    by_cases hfit : (units l).stop + size < (units tail).addr
    · refine ⟨?_, Or.inr ?_⟩
      · intro hnone
        simp only [holeBelow] at hnone
        -- the loop stops at this hole, so that the last test is not reached
        rw [if_pos] at hnone
        · exact absurd hnone (Option.some_ne_none _)
        · unfold Ustate.stop wordSize at *
          omega
      · rw [harea, if_pos hfit]
        simp only [HoleAboveBreak, hfit, if_true]
        omega
    · rw [harea, if_neg hfit]
      simp only [HoleAboveBreak, hfit, if_false]
      exact ⟨(hrest hfit).mpr hlow, hbrk⟩

/-- The area at the end of the channel heap. -/
theorem lastArea_eq {size : Nat} (hpos : 0 < size) (hsize : size < wordSize) :
    (channelEnd + (wordSize - size)) % wordSize =
      if size ≤ channelEnd then channelEnd - size else channelEnd + wordSize - size := by
  unfold channelEnd channelAddr channelSize wordSize at *
  split <;> omega

/-- What `get_unmapped_area` may answer: that there is no area, or an area above
    the break, inside the channel heap, that meets no unit. -/
def Placed (units : Nat → Ustate) (list sbrked : List Nat) (brk size r : Nat) : Prop :=
  r = 0 ∨ (brk ≤ r ∧ r + size ≤ channelEnd ∧
    (∀ u ∈ list, Misses units r size u) ∧ ∀ u ∈ sbrked, Misses units r size u)

/-- For every sorted list of units in the channel heap, and units from the break
    below it, the search answers an area that is free exactly if the first area
    wide enough ends far enough above the break. -/
theorem getUnmappedArea_placed_iff (units : Nat → Ustate) (list sbrked : List Nat)
    (brk size : Nat) (hsort : Sorted units list) (hin : InChannel units list)
    (hsbrk : ∀ u ∈ sbrked, (units u).stop ≤ brk) (hpos : 0 < size) (hsize : size < wordSize) :
    Placed units list sbrked brk size (getUnmappedArea units list size) ↔
      AboveBreak units list brk size := by
  have hlast := lastArea_eq hpos hsize
  -- Above the break an area meets none of the units below it.
  have habove : ∀ r, Placed units list sbrked brk size r ↔
      r = 0 ∨ (brk ≤ r ∧ r + size ≤ channelEnd ∧ ∀ u ∈ list, Misses units r size u) := by
    intro r
    refine or_congr_right ⟨fun h => ⟨h.1, h.2.1, h.2.2.1⟩, fun h => ⟨h.1, h.2.1, h.2.2, ?_⟩⟩
    exact fun u hu => Or.inr ((hsbrk u hu).trans h.1)
  rw [habove, getUnmappedArea_eq]
  unfold AboveBreak
  cases hrev : list.reverse with
  | nil =>
    have hnil : list = [] := List.reverse_eq_nil_iff.mp hrev
    simp only [hlast, hnil, List.not_mem_nil, false_implies, implies_true, and_true]
    split <;> omega
  | cons tail rest =>
    have hsort' : (tail :: rest).Pairwise fun h l => (units l).stop ≤ (units h).addr := by
      rw [← hrev, List.pairwise_reverse]
      exact hsort
    have hmem : ∀ u, u ∈ list ↔ u ∈ tail :: rest := fun u => by rw [← hrev, List.mem_reverse]
    have hin' : InChannel units (tail :: rest) := fun u hu => hin u ((hmem u).mpr hu)
    have htail := hin' tail List.mem_cons_self
    simp only [hmem]
    have hstop : (units tail).stop = (units tail).addr + (units tail).length := rfl
    by_cases hwrap : (units tail).stop + size < wordSize
    · rw [Nat.mod_eq_of_lt hwrap]
      by_cases htop : (units tail).stop + size ≤ channelEnd
      · have hbelow : ∀ u ∈ tail :: rest, (units u).stop ≤ (units tail).stop := by
          intro u hu
          rcases List.mem_cons.mp hu with rfl | hu
          · exact le_rfl
          · have := (List.pairwise_cons.mp hsort').1 u hu
            omega
        have hmiss : ∀ u ∈ tail :: rest, Misses units (channelEnd - size) size u := by
          intro u hu
          have := hbelow u hu
          unfold Misses
          omega
        simp only [htop, if_true, hlast, if_pos (show size ≤ channelEnd by omega), hwrap,
          true_and, eq_true hmiss, and_true]
        omega
      · simp only [htop, if_false, hwrap, true_and]
        have hne : size ≠ channelEnd := by
          unfold channelEnd channelAddr channelSize wordSize at *
          omega
        obtain ⟨hlow, hbrk⟩ := areaBelow_brk units brk size tail rest hsort' hin' hpos hwrap
        rcases hbrk with ⟨hzero, hhole⟩ | ⟨hgt, hbrk⟩
        · simp only [hzero, hhole, true_or, or_true]
        · rcases areaBelow_split units size tail rest hsort' hpos hwrap hlow with
            hzero | ⟨above, below, hsplit, -, habove, hbelow, v, hv, hva⟩
          · omega
          have hfit : areaBelow units size tail rest + size ≤ channelEnd := by
            have hvin := (hin' v (by rw [hsplit]; exact List.mem_append_left _ hv)).2.2
            unfold Ustate.stop at hvin
            omega
          have hmiss : ∀ u ∈ tail :: rest,
              Misses units (areaBelow units size tail rest) size u := by
            intro u hu
            rw [hsplit] at hu
            rcases List.mem_append.mp hu with hu | hu
            · exact Or.inl (habove u hu)
            · exact Or.inr (hbelow u hu).le
          simp only [hgt.ne', hfit, eq_true hmiss, hbrk, hne, false_or, and_true]
    · -- The sum wraps around, and the area at the end of the heap is answered.
      have hmod : ((units tail).stop + size) % wordSize ≤ channelEnd := by
        unfold channelEnd channelAddr channelSize wordSize at *
        omega
      have hno : ∀ r, r = (if size ≤ channelEnd then channelEnd - size
          else channelEnd + wordSize - size) → ¬ (brk ≤ r ∧ r + size ≤ channelEnd ∧
            ∀ u ∈ tail :: rest, Misses units r size u) := by
        rintro r hr ⟨-, hle, hmiss⟩
        have htail_miss := hmiss tail List.mem_cons_self
        unfold Misses channelEnd channelAddr channelSize wordSize at *
        split at hr <;> omega
      simp only [hmod, if_true, hlast, hno _ rfl, hwrap, false_and, or_false]
      unfold channelEnd channelAddr channelSize wordSize at *
      split <;> omega

/-- Two units from the break at the start of the heap, and three mapped ones at its end,
    with a hole below each of the two higher ones. -/
def spread : Nat → Ustate
  | 0 => ⟨channelAddr, channelAddr, unitSize, 0⟩
  | 1 => ⟨channelAddr + unitSize, channelAddr + unitSize, unitSize, 1⟩
  | 2 => ⟨0, 0x9ffa0000, 0x10000, 0⟩
  | 3 => ⟨0, 0x9ffd0000, 0x10000, 1⟩
  | _ => ⟨0, 0x9fff0000, 0x10000, 0⟩

/-- A request for 16 pages does not fit between the two highest units, whose distance it
    would have to be below. It is placed under the second one. -/
theorem getUnmappedArea_placed_hole :
    Placed spread [2, 3, 4] [0, 1] (channelAddr + 2 * unitSize) 0x10000
        (getUnmappedArea spread [2, 3, 4] 0x10000) ∧
      getUnmappedArea spread [2, 3, 4] 0x10000 = 0x9ffc0000 ∧
      AboveBreak spread [2, 3, 4] (channelAddr + 2 * unitSize) 0x10000 := by
  have habove : AboveBreak spread [2, 3, 4] (channelAddr + 2 * unitSize) 0x10000 := by
    refine Or.inr ⟨by decide, ?_⟩
    rw [if_neg (by decide), HoleAboveBreak, if_neg (by decide), HoleAboveBreak,
      if_pos (by decide)]
    decide
  refine ⟨(getUnmappedArea_placed_iff spread [2, 3, 4] [0, 1] _ _ ?_ ?_ ?_ ?_ ?_).mpr habove,
    by decide, habove⟩
  · exact List.Pairwise.cons (by decide) (.cons (by decide) (.cons nofun .nil))
  · unfold InChannel
    decide
  all_goals decide

/-- One unit from the break, nothing mapped, and a request as large as the heap: the area
    found starts below the break, on the unit that is there. -/
theorem getUnmappedArea_below_break :
    Sorted (fun _ => ⟨channelAddr, channelAddr, unitSize, 0⟩) [] ∧
      InChannel (fun _ => ⟨channelAddr, channelAddr, unitSize, 0⟩) [] ∧
      (channelSize % 4096 = 0 ∧ unitSize < channelSize ∧ channelSize < wordSize) ∧
      getUnmappedArea (fun _ => ⟨channelAddr, channelAddr, unitSize, 0⟩) [] channelSize =
        channelAddr ∧
      ¬ Placed (fun _ => ⟨channelAddr, channelAddr, unitSize, 0⟩) [] [0] (channelAddr + unitSize)
        channelSize
        (getUnmappedArea (fun _ => ⟨channelAddr, channelAddr, unitSize, 0⟩) [] channelSize) := by
  have harea : getUnmappedArea (fun _ => ⟨channelAddr, channelAddr, unitSize, 0⟩) [] channelSize =
      channelAddr := by decide
  refine ⟨List.Pairwise.nil, fun u hu => absurd hu List.not_mem_nil, by decide, harea, ?_⟩
  rw [harea]
  rintro (hzero | ⟨hbrk, -⟩)
  · exact absurd hzero (by decide)
  · exact absurd hbrk (by decide)

/-! ### The insertion -/

/-- The request is not placed above the highest unit, neither in a hole there
    nor because a sum wraps around, and what is taken below the lowest unit is
    there. -/
def Insertable (units : Nat → Ustate) (list : List Nat) (size : Nat) : Prop :=
  match list.reverse with
  | [] => True
  | tail :: rest =>
      channelEnd < (units tail).stop + size ∧ (units tail).stop + size < wordSize ∧
        LowFits units size tail rest

instance (units : Nat → Ustate) (size tail : Nat) (rest : List Nat) :
    Decidable (LowFits units size tail rest) :=
  inferInstanceAs (Decidable (_ → _ → _))

instance (units : Nat → Ustate) (list : List Nat) (size : Nat) :
    Decidable (Insertable units list size) :=
  match h : list.reverse with
  | [] => isTrue (by simp only [Insertable, h])
  | tail :: rest =>
      decidable_of_iff
        (channelEnd < (units tail).stop + size ∧ (units tail).stop + size < wordSize ∧
          LowFits units size tail rest)
        (by simp only [Insertable, h])

/-- Where the area found then lies, relative to the listed units. -/
theorem getUnmappedArea_split (units : Nat → Ustate) (list : List Nat) (size : Nat)
    (hsort : Sorted units list) (hend : ∀ u ∈ list, (units u).stop ≤ channelEnd)
    (hpos : 0 < size) (hsize : size < wordSize) (hins : Insertable units list size) :
    getUnmappedArea units list size = 0 ∨ channelEnd < getUnmappedArea units list size ∨
      getUnmappedArea units list size + size ≤ channelEnd ∧
      ∃ below above, list = below ++ above ∧ (below ≠ [] → above ≠ []) ∧
        (∀ u ∈ below, (units u).stop < getUnmappedArea units list size) ∧
        (∀ u ∈ above, getUnmappedArea units list size + size ≤ (units u).addr) := by
  rw [getUnmappedArea_eq]
  unfold Insertable at hins
  cases hrev : list.reverse with
  | nil =>
    have hnil : list = [] := List.reverse_eq_nil_iff.mp hrev
    have hlast := lastArea_eq hpos hsize
    simp only [hlast]
    by_cases hle : size ≤ channelEnd
    · rw [if_pos hle]
      refine Or.inr (Or.inr ⟨by omega, [], [], hnil, fun h => absurd rfl h, ?_, ?_⟩)
      · exact fun u hu => absurd hu List.not_mem_nil
      · exact fun u hu => absurd hu List.not_mem_nil
    · rw [if_neg hle]
      omega
  | cons tail rest =>
    -- the search goes from the end of the list, hence the reverse
    rw [hrev] at hins
    have hsort' : (tail :: rest).Pairwise fun h l => (units l).stop ≤ (units h).addr := by
      rw [← hrev, List.pairwise_reverse]
      exact hsort
    have hmem : ∀ u, u ∈ list ↔ u ∈ tail :: rest := fun u => by rw [← hrev, List.mem_reverse]
    simp only [Nat.mod_eq_of_lt hins.2.1, not_le.mpr hins.1, if_false]
    rcases areaBelow_split units size tail rest hsort' hpos hins.2.1 hins.2.2 with
      hzero | ⟨above, below, hsplit, hne, habove, hbelow, v, hv, hva⟩
    · exact Or.inl hzero
    · refine Or.inr (Or.inr ⟨?_, below.reverse, above.reverse, ?_, ?_, ?_, ?_⟩)
      · have hvend := hend v ((hmem v).mpr (hsplit ▸ List.mem_append_left _ hv))
        unfold Ustate.stop at hvend
        omega
      · rw [← List.reverse_append, ← hsplit, ← hrev, List.reverse_reverse]
      · exact fun _ => by rwa [ne_eq, List.reverse_eq_nil_iff]
      · exact fun u hu => hbelow u (List.mem_reverse.mp hu)
      · exact fun u hu => habove u (List.mem_reverse.mp hu)

theorem insertBelow_append (units : Nat → Ustate) (unit p : Nat) (xs ys : List Nat)
    (hxs : ∀ u ∈ xs, ¬ ((units u).addr + (units u).length) % wordSize < (units unit).addr)
    (hp : ((units p).addr + (units p).length) % wordSize < (units unit).addr) :
    insertBelow units unit (xs ++ p :: ys) = some (xs ++ unit :: p :: ys) := by
  induction xs with
  | nil => simp only [List.nil_append, insertBelow, if_pos hp]
  | cons x xs ih =>
    rw [List.cons_append, insertBelow, if_neg (hxs x List.mem_cons_self),
      ih (fun u hu => hxs u (List.mem_cons_of_mem x hu)), Option.map_some, List.cons_append]

/-- A unit that has its place in front of the list or inside it is put there. -/
theorem wp_insertMmappedUnit_split {unit : Nat} {s : State K} {below above : List Nat}
    (hlist : s.mmappedUstateList = below ++ above) (hne : below ≠ [] → above ≠ [])
    (hend : ∀ u ∈ below ++ above, (s.units u).stop < wordSize)
    (hbelow : ∀ u ∈ below, (s.units u).stop < (s.units unit).addr)
    (habove : ∀ u ∈ above, (s.units unit).addr < (s.units u).addr)
    {Q : Unit → State K → Prop} {E : Fault → State K → Prop}
    (hQ : Q () { s with mmappedUstateList := below ++ unit :: above }) :
    wp (insertMmappedUnit unit) Q E s := by
  have htest : ∀ u ∈ below ++ above,
      (((s.units u).addr + (s.units u).length) % wordSize < (s.units unit).addr ↔
        (s.units u).stop < (s.units unit).addr) := fun u hu => by
    rw [Nat.mod_eq_of_lt (show (s.units u).addr + (s.units u).length < wordSize from hend u hu)]
    rfl
  have hfail : ∀ u ∈ above, ¬ (s.units u).stop < (s.units unit).addr := by
    intro u hu
    have := habove u hu
    unfold Ustate.stop
    omega
  unfold insertMmappedUnit
  rw [wp_bind, wp_get, hlist]
  rcases List.eq_nil_or_concat below with rfl | ⟨below, p, rfl⟩
  -- before the first unit
  · cases above with
    | nil => exact (wp_set ..).mpr hQ
    | cons h above =>
      obtain ⟨tail, rest, hrev⟩ := List.exists_cons_of_ne_nil
        (show ([] ++ h :: above).reverse ≠ [] by simp)
      rw [hrev]
      simp only [List.nil_append, habove h List.mem_cons_self, if_true]
      exact (wp_set ..).mpr hQ
  -- between two units: the walk from the end passes those above it
  · rcases List.eq_nil_or_concat above with rfl | ⟨above, t, rfl⟩
    · exact absurd rfl (hne (by simp))
    simp only [List.concat_eq_append] at *
    obtain ⟨h, tl, hcons⟩ := List.exists_cons_of_ne_nil (show below ++ [p] ≠ [] by simp)
    have hhead : ¬ (s.units unit).addr < (s.units h).addr := by
      have := hbelow h (by rw [hcons]; exact List.mem_cons_self)
      unfold Ustate.stop at this
      omega
    have hrev : (below ++ [p] ++ (above ++ [t])).reverse =
        t :: (above.reverse ++ p :: below.reverse) := by simp
    rw [hrev, hcons]
    simp only [List.cons_append]
    rw [if_neg hhead, if_neg (by rw [htest t (by simp)]; exact hfail t (by simp)),
      insertBelow_append]
    · refine (wp_set ..).mpr ?_
      convert hQ using 2
      simp
    · intro u hu
      rw [List.mem_reverse] at hu
      rw [htest u (by simp [hu])]
      exact hfail u (by simp [hu])
    · rw [htest p (by simp)]
      exact hbelow p (by simp)

/-! ### Mapping a unit -/

/-- The state after the chunk of a mapped unit was written, the area mapped and
    the unit put on `ustate_list`. -/
def State.addMapped (s : State K) (mm size av : Nat) (kern : K) : State K :=
  { s.addUnit { unitTop := mm, addr := mm, length := size, unitAv := av } with
    mem := (s.mem.store32 mm 0).store32 (mm + 4) (withMmapped size)
    kern := kern }

/-- The mmap branch of `__malloc_alloc`, for an aligned area. It stops if the
    header of the area cannot be written, if the kernel does not answer the area
    that was asked for, in `insert_mmapped_unit`, or in a system call. -/
theorem wp_mallocMmap_of (ops : KernelOps K) (pid nb av : Nat) (L : Label) {s : State K}
    (htakes : TakesMmap s av nb) {mm size : Nat} (hsize : size = mmapSize (s.mstates av) nb)
    (hmm : mm = getUnmappedArea s.units s.mmappedUstateList size) (halign : mm % 8 = 0)
    {Q : Option Nat → State K → Prop} {E : Fault → State K → Prop}
    (hsegv : ∀ m, ¬ (mapped s mm ∧ mapped s (mm + 4)) → E .segv { s with mem := m })
    (hrefused : ∀ m k, (ops.absysMmap s.kern pid mm size .protRW).1 ≠ mm →
      E .assertion { s with mem := m, kern := k })
    (hkilled : ¬ TasksLive ops pid s → ∀ t, E .killed t)
    (hins : mapped s mm → mapped s (mm + 4) →
      wp (insertMmappedUnit s.nextUnit)
        (fun _ s' => ∀ k, Q (some (chunk2mem mm)) { s' with
          mstates := Function.update s'.mstates av (countMmapped size (s'.mstates av))
          kern := k })
        E (s.addMapped mm size av (ops.absysMmap s.kern pid mm size .protRW).2)) :
    wp (mallocMmap ops pid nb av L) Q E s := by
  have hchunk : ¬ 0 < chunk2mem mm % 8 := by
    simp only [chunk2mem, wordSize]
    omega
  rw [mallocMmap, wp_bind, wp_getMstate,
    if_pos (show _ ∧ _ ∧ _ from ⟨htakes.1, htakes.2.1, htakes.2.2.1⟩), wp_bind, wp_get, ← hsize,
    ← hmm, if_pos (show mm ≠ morecoreFailure by rw [hmm, hsize]; exact htakes.2.2.2), wp_bind,
    mmapChunk, if_neg hchunk, wp_bind, setPrevSize, wp_store]
  -- the header is written before the kernel is asked for the area
  by_cases hlow : mapped s mm
  case neg =>
    rw [if_neg hlow]
    exact hsegv s.mem (fun h => hlow h.1)
  rw [if_pos hlow, wp_bind, setHead, wp_store]
  have hmem : ∀ m, mapped { s with mem := m } (mm + 4) ↔ mapped s (mm + 4) := fun _ => Iff.rfl
  by_cases hhigh : mapped s (mm + 4)
  case neg =>
    rw [if_neg (mt (hmem _).mp hhigh)]
    exact hsegv _ (fun h => hhigh h.2)
  rw [if_pos ((hmem _).mpr hhigh), wp_pure]
  rw [wp_bind]
  refine wp_absys_of (fun _ => ?_)
    (fun hoops => hkilled (fun hlive => nomatch hoops.symm.trans hlive.1) _)
  rw [wp_bind, wp_check]
  dsimp only
  by_cases hgranted : (ops.absysMmap s.kern pid mm size .protRW).1 = mm
  case neg =>
    rw [if_neg hgranted]
    exact hrefused _ _ hgranted
  rw [if_pos hgranted]
  simp only [unitInitState, wp_bind, wp_get, wp_set, wp_pure, wp_modify]
  refine wp_mono (wp_and (wp_insertMmappedUnit _ _) (hins hlow hhigh)) (fun _ s' h => ?_)
    (fun _ _ h => h.2)
  obtain ⟨⟨l, rfl⟩, h⟩ := h
  rw [setMstate, wp_modify, wp_protUpdate]
  split
  · -- the calls made so far have not made a task go
    rename_i hkills
    rw [protKills_congr (ops.oops_mmap ..)] at hkills
    exact hkilled (fun hlive => nomatch hkills.symm.trans hlive.2) _
  · exact h _

theorem getUnmappedArea_aligned (units : Nat → Ustate) (list : List Nat) {size : Nat}
    (hlist : ∀ u ∈ list, (units u).addr % 4096 = 0) (hsize : size % 4096 = 0) (hpos : 0 < size)
    (hlt : size < wordSize) : getUnmappedArea units list size % 4096 = 0 := by
  have hround : ∀ a, a % 4096 = 0 → (a + (wordSize - size)) % wordSize % 4096 = 0 := by
    intro a ha
    unfold wordSize at *
    omega
  have hlast := hround channelEnd (by decide)
  -- every answer is the start of a unit, or the channel's end, less the size
  have hhole : ∀ desc : List Nat, (∀ u ∈ desc, (units u).addr % 4096 = 0) →
      ∀ a, holeBelow units size desc = some a → a % 4096 = 0 := by
    intro desc
    induction desc with
    | nil => exact fun _ a ha => absurd ha (by simp [holeBelow])
    | cons h desc ih =>
      cases desc with
      | nil => exact fun _ a ha => absurd ha (by simp [holeBelow])
      | cons l rest =>
        intro hdesc a ha
        simp only [holeBelow] at ha
        split at ha
        · rw [← Option.some_inj.mp ha]
          exact hround _ (hdesc h List.mem_cons_self)
        · exact ih (fun u hu => hdesc u (List.mem_cons_of_mem h hu)) a ha
  have hrev : ∀ u ∈ list.reverse, (units u).addr % 4096 = 0 :=
    fun u hu => hlist u (List.mem_reverse.mp hu)
  rw [getUnmappedArea_eq]
  cases hcase : list.reverse with
  | nil => exact hlast
  | cons tail rest =>
    rw [hcase] at hrev
    simp only
    split
    · exact hlast
    · unfold areaBelow
      cases hb : holeBelow units size (tail :: rest) with
      | some a => exact hhole _ hrev a hb
      | none =>
        simp only
        split
        · exact hround _ (hrev _ (List.getLastD_mem_cons ..))
        · rfl

/-! ### The insertion, on nodes -/

/-- The loop of `insert_mmapped_unit`, from the node `ptr` on downwards. `none`
    is the access through the successor of the tail. -/
def insertUnitFrom (units : Nat → Ustate) (unit : Nat) (l : LinkedList Nat) :
    Nat → Option Nat → Option (LinkedList Nat)
  | 0, _ => some l
  -- did not insert successfully
  | _ + 1, none => some l
  | fuel + 1, some ptr =>
      let mmapped := units (l.nodes ptr).data
      if (mmapped.addr + mmapped.length) % wordSize < (units unit).addr then
        l.insertAfter ptr unit
      else insertUnitFrom units unit l fuel (l.nodes ptr).prev

/-- `insert_mmapped_unit` on the nodes of the list. -/
def insertUnit (units : Nat → Ustate) (unit : Nat) (l : LinkedList Nat) :
    Option (LinkedList Nat) :=
  if l.num = 0 then some (l.insertHead unit)
  else
    match l.head with
    | none => none
    | some h =>
        if (units unit).addr < (units (l.nodes h).data).addr then some (l.insertHead unit)
        else insertUnitFrom units unit l (l.fresh + 1) l.tail

/-- `linked_list_locate` and `list_del_entry`. `none` is the access through
    `NULL` when the datum is not in the list. -/
def deleteUnit (unit : Nat) (l : LinkedList Nat) : Option (LinkedList Nat) :=
  match l.locate unit with
  | none => none
  | some p => some (l.delEntry p).2

/-- The loop below nodes that do not end below the unit: with nodes behind it,
    a node that does takes the unit as its successor. -/
theorem insertUnitFrom_spec (units : Nat → Ustate) (unit : Nat) (l : LinkedList Nat)
    (ps qs : List Nat) (q : Nat) (h : l.Consists (ps ++ q :: qs)) (fuel : Nat)
    (hfuel : ps.length < fuel) :
    ∃ l', insertUnitFrom units unit l fuel ps.getLast? = some l' ∧
      l'.Represents
        (match insertBelow units unit (ps.reverse.map fun p => (l.nodes p).data) with
        | some r => r.reverse ++ (q :: qs).map fun p => (l.nodes p).data
        | none => (ps ++ q :: qs).map fun p => (l.nodes p).data) := by
  induction ps using List.reverseRecOn generalizing q qs fuel with
  | nil =>
    obtain ⟨fuel, rfl⟩ : ∃ k, fuel = k + 1 := ⟨fuel - 1, by simp at hfuel; omega⟩
    exact ⟨l, rfl, q :: qs, h, rfl⟩
  | append_singleton ps p ih =>
    obtain ⟨fuel, rfl⟩ : ∃ k, fuel = k + 1 := ⟨fuel - 1, by omega⟩
    have hsplit : l.Consists (ps ++ p :: q :: qs) := by
      rwa [List.append_assoc, List.singleton_append] at h
    rw [List.getLast?_concat, List.reverse_concat, List.map_cons]
    simp only [insertUnitFrom, insertBelow]
    by_cases htest : ((units (l.nodes p).data).addr + (units (l.nodes p).data).length) % wordSize <
        (units unit).addr
    · obtain ⟨l', hl', hcons, hdata⟩ := hsplit.insertAfter unit
      rw [if_pos htest, if_pos htest]
      refine ⟨l', hl', _, hcons, ?_⟩
      -- Only the new node is new.
      have hold : ∀ r ∈ ps ++ p :: q :: qs, (l'.nodes r).data = (l.nodes r).data := fun r hr => by
        rw [hdata, if_neg (hsplit.made r hr).ne]
      have hnew : (l'.nodes l.fresh).data = unit := by rw [hdata, if_pos rfl]
      have hps := List.map_congr_left (fun r (hr : r ∈ ps) => hold r (by simp [hr]))
      have hqs := List.map_congr_left (fun r (hr : r ∈ qs) => hold r (by simp [hr]))
      simp only [List.map_append, List.map_cons, hps, hqs, hnew, hold p (by simp),
        hold q (by simp), List.reverse_cons, List.map_reverse, List.reverse_reverse,
        List.append_assoc, List.cons_append, List.nil_append]
    · rw [if_neg htest, if_neg htest, hsplit.chained.prev]
      obtain ⟨l', hl', hrep⟩ := ih (q :: qs) p hsplit fuel (by simp at hfuel; omega)
      refine ⟨l', hl', ?_⟩
      cases hbelow : insertBelow units unit (ps.reverse.map fun p => (l.nodes p).data) with
      | none =>
        rw [hbelow] at hrep
        simpa using hrep
      | some r =>
        rw [hbelow] at hrep
        simpa using hrep

/-- The list of the state is what the nodes hold: `insert_mmapped_unit` does the
    same to both, and stops on both or on none. -/
theorem wp_insertMmappedUnit_nodes (unit : Nat) (s : State K) {l : LinkedList Nat}
    (h : l.Represents s.mmappedUstateList) :
    wp (insertMmappedUnit unit)
      (fun _ s' => ∃ l', insertUnit s.units unit l = some l' ∧
        l'.Represents s'.mmappedUstateList)
      (fun _ _ => insertUnit s.units unit l = none) s := by
  obtain ⟨ps, hps, hlist⟩ := h
  have hrep : l.Represents s.mmappedUstateList := ⟨ps, hps, hlist⟩
  unfold insertMmappedUnit insertUnit
  rw [wp_bind, wp_get]
  -- an empty list, a place in front, behind the last one, or a walk from it
  rcases List.eq_nil_or_concat ps with rfl | ⟨ps, t, rfl⟩
  · rw [List.map_nil] at hlist
    rw [← hlist, List.reverse_nil]
    simp only [wp_set, hps.num, List.length_nil, Nat.cast_zero, if_true]
    exact ⟨_, rfl, by simpa [← hlist] using hrep.insertHead unit⟩
  rw [List.concat_eq_append] at hps hlist
  obtain ⟨first, rest, hfirst⟩ := List.exists_cons_of_ne_nil (show ps ++ [t] ≠ [] by simp)
  have hhead : l.head = some first := by rw [hps.chained.head, hfirst, List.head?_cons]
  have htail : l.tail = some t := by rw [hps.chained.tail, List.getLast?_concat]
  have hnum : l.num ≠ 0 := by
    rw [hps.num]
    simp
    omega
  have hfwd : s.mmappedUstateList = (l.nodes first).data :: rest.map fun p => (l.nodes p).data := by
    rw [← hlist, hfirst, List.map_cons]
  have hrev : s.mmappedUstateList.reverse =
      (l.nodes t).data :: ps.reverse.map fun p => (l.nodes p).data := by
    rw [← hlist, List.map_append, List.map_singleton, List.reverse_concat, List.map_reverse]
  rw [hrev, if_neg hnum, hhead, htail]
  simp only [hfwd, wp_ite, wp_set, wp_throw]
  by_cases hlow : (s.units unit).addr < (s.units (l.nodes first).data).addr
  · rw [if_pos hlow, if_pos hlow]
    exact ⟨_, rfl, by simpa [hfwd] using hrep.insertHead unit⟩
  rw [if_neg hlow, if_neg hlow]
  simp only [insertUnitFrom]
  by_cases hbehind :
      ((s.units (l.nodes t).data).addr + (s.units (l.nodes t).data).length) % wordSize <
        (s.units unit).addr
  · rw [if_pos hbehind, if_pos hbehind]
    exact hps.insertAfter_last unit
  · rw [if_neg hbehind, if_neg hbehind, hps.chained.prev]
    obtain ⟨l', hl', hrep'⟩ := insertUnitFrom_spec s.units unit l ps [] t hps l.fresh (by
      have := hps.length_le
      rw [List.length_append, List.length_singleton] at this
      omega)
    rw [hl']
    cases hbelow : insertBelow s.units unit (ps.reverse.map fun p => (l.nodes p).data) with
    | none =>
      rw [hbelow] at hrep'
      rw [wp_pure]
      exact ⟨l', rfl, hlist ▸ hrep'⟩
    | some r =>
      rw [hbelow] at hrep'
      rw [wp_set]
      exact ⟨l', rfl, by simpa using hrep'⟩

end ArbiterThread
