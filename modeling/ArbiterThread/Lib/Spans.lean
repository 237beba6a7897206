import Mathlib.Algebra.Order.BigOperators.Group.Finset
import Mathlib.Data.List.Basic
import Mathlib.Data.List.TakeWhile
import Mathlib.Order.Interval.Finset.Nat
import Mathlib.Tactic.Common

/-!
# Lists of Spans

A finite map on addresses, kept as a list of half-open intervals with a value each.
The list is in the order of the addresses and no two spans overlap, so at most one
of them says what is at an address.

What matters about such a list is the value it gives at each address, and `get` is
that reading. The lemmas reduce the reading of a list that was edited in the middle
to the readings of its parts.

Lookups start at a given address: `below` is the part of the list that ends before
it, and the first span of `above`, if any, is the first that ends behind it.

## Main definitions

* `Span`: A value on an interval.
* `Ordered`: The spans are in order and apart.
* `get`: The value at an address.
* `below`, `above`: The two parts of a list at an address.
* `meeting`: The first span that has an address in an interval.

## Theorems

* `Ordered.get_of_mem`: In an ordered list the reading is what some span says.
* `meeting_eq_none_iff`: Nothing meets an interval if nothing is at its addresses.
* `meeting_eq_some`: What is known about the first span that meets an interval.
* `sum_length_le`: The lengths of disjoint intervals add up to at most what contains them.
-/

/-- A value on a half-open interval. -/
structure Span (α : Type) where
  start : Nat
  stop : Nat
  val : α
deriving DecidableEq

namespace Span

variable {α : Type} {l l₁ l₂ : List (Span α)} {v w : Span α} {a b x : Nat}

/-- The address lies in the span. -/
def Has (v : Span α) (a : Nat) : Prop := v.start ≤ a ∧ a < v.stop

instance (v : Span α) (a : Nat) : Decidable (v.Has a) := inferInstanceAs (Decidable (_ ∧ _))

/-- No span is empty, and each ends before the next one begins. -/
structure Ordered (l : List (Span α)) : Prop where
  pos : ∀ v ∈ l, v.start < v.stop
  apart : l.Pairwise fun v w => v.stop ≤ w.start

instance (l : List (Span α)) : Decidable (Ordered l) :=
  decidable_of_iff ((∀ v ∈ l, v.start < v.stop) ∧ l.Pairwise fun v w => v.stop ≤ w.start)
    ⟨fun h => ⟨h.1, h.2⟩, fun h => ⟨h.pos, h.apart⟩⟩

/-! ### Readings -/

/-- The value at an address. -/
def get (l : List (Span α)) (a : Nat) : Option α :=
  (l.find? fun v => decide (v.Has a)).map val

theorem get_cons (v : Span α) (l : List (Span α)) (a : Nat) :
    get (v :: l) a = if v.Has a then some v.val else get l a := by
  unfold get
  by_cases h : v.Has a
  · rw [List.find?_cons_of_pos (by simpa using h), if_pos h, Option.map_some]
  · rw [List.find?_cons_of_neg (by simpa using h), if_neg h]

theorem get_append (l₁ l₂ : List (Span α)) (a : Nat) :
    get (l₁ ++ l₂) a = (get l₁ a).or (get l₂ a) := by
  unfold get
  rw [List.find?_append]
  cases l₁.find? fun v => decide (v.Has a) <;> rfl

theorem get_eq_none_iff : get l a = none ↔ ∀ v ∈ l, ¬v.Has a := by
  simp [get]

/-- A list that ends before an address says nothing about it. -/
theorem get_of_stop_le (h : ∀ v ∈ l, v.stop ≤ b) (hx : b ≤ x) : get l x = none :=
  get_eq_none_iff.mpr fun v hv hhas => by
    have := h v hv
    have := hhas.2
    omega

/-- A list that begins behind an address says nothing about it. -/
theorem get_of_le_start (h : ∀ v ∈ l, b ≤ v.start) (hx : x < b) : get l x = none :=
  get_eq_none_iff.mpr fun v hv hhas => by
    have := h v hv
    have := hhas.1
    omega

theorem mem_of_get {y : α} (h : get l a = some y) : ∃ v ∈ l, v.Has a ∧ v.val = y := by
  unfold get at h
  obtain ⟨v, hfind, rfl⟩ := Option.map_eq_some_iff.mp h
  exact ⟨v, List.mem_of_find?_eq_some hfind, by simpa using List.find?_some hfind, rfl⟩

/-! ### Ordered lists -/

namespace Ordered

theorem nil : Ordered ([] : List (Span α)) := ⟨by simp, List.Pairwise.nil⟩

theorem cons_iff : Ordered (v :: l) ↔
    v.start < v.stop ∧ (∀ w ∈ l, v.stop ≤ w.start) ∧ Ordered l := by
  constructor
  · intro h
    have happart := List.pairwise_cons.mp h.apart
    exact ⟨h.pos v (by simp), happart.1, fun w hw => h.pos w (by simp [hw]), happart.2⟩
  · rintro ⟨hv, hbehind, hl⟩
    refine ⟨fun w hw => ?_, List.pairwise_cons.mpr ⟨hbehind, hl.apart⟩⟩
    rcases List.mem_cons.mp hw with rfl | hw
    · exact hv
    · exact hl.pos w hw

theorem append_iff : Ordered (l₁ ++ l₂) ↔
    Ordered l₁ ∧ Ordered l₂ ∧ ∀ v ∈ l₁, ∀ w ∈ l₂, v.stop ≤ w.start := by
  constructor
  · intro h
    obtain ⟨h₁, h₂, hbetween⟩ := List.pairwise_append.mp h.apart
    exact ⟨⟨fun v hv => h.pos v (by simp [hv]), h₁⟩, ⟨fun v hv => h.pos v (by simp [hv]), h₂⟩,
      hbetween⟩
  · rintro ⟨h₁, h₂, hbetween⟩
    refine ⟨fun v hv => ?_, List.pairwise_append.mpr ⟨h₁.apart, h₂.apart, hbetween⟩⟩
    rcases List.mem_append.mp hv with hv | hv
    · exact h₁.pos v hv
    · exact h₂.pos v hv

theorem sublist (h : Ordered l) (hsub : l₁.Sublist l) : Ordered l₁ :=
  ⟨fun v hv => h.pos v (hsub.subset hv), h.apart.sublist hsub⟩

/-- From the first span on that does not begin before an address, none does. -/
theorem le_start_of_mem_dropWhile (h : Ordered l)
    (hv : v ∈ l.dropWhile fun u => decide (u.start < a)) : a ≤ v.start := by
  induction l with
  | nil => simp at hv
  | cons u l ih =>
    obtain ⟨hu, hbehind, hl⟩ := cons_iff.mp h
    by_cases hua : u.start < a
    · rw [List.dropWhile_cons_of_pos (by simpa using hua)] at hv
      exact ih hl hv
    · rw [List.dropWhile_cons_of_neg (by simpa using hua)] at hv
      rcases List.mem_cons.mp hv with rfl | hv
      · omega
      · have := hbehind v hv
        omega

theorem unique (h : Ordered l) (hv : v ∈ l) (hw : w ∈ l) (hva : v.Has a) (hwa : w.Has a) :
    v = w := by
  induction l with
  | nil => simp at hv
  | cons u l ih =>
    obtain ⟨-, hbehind, hl⟩ := cons_iff.mp h
    unfold Has at hva hwa
    rcases List.mem_cons.mp hv with rfl | hv' <;> rcases List.mem_cons.mp hw with rfl | hw'
    · rfl
    · have := hbehind w hw'
      omega
    · have := hbehind v hv'
      omega
    · exact ih hl hv' hw'

theorem get_of_mem (h : Ordered l) (hv : v ∈ l) (ha : v.Has a) : get l a = some v.val := by
  rcases hget : get l a with _ | y
  · exact absurd ha (get_eq_none_iff.mp hget v hv)
  · obtain ⟨w, hw, hwa, rfl⟩ := mem_of_get hget
    rw [h.unique hv hw ha hwa]

end Ordered

/-! ### Lookups -/

/-- The spans before the first one that ends behind the address. -/
def below (l : List (Span α)) (a : Nat) : List (Span α) :=
  l.takeWhile fun v => decide (v.stop ≤ a)

/-- The spans from the first one on that ends behind the address. -/
def above (l : List (Span α)) (a : Nat) : List (Span α) :=
  l.dropWhile fun v => decide (v.stop ≤ a)

theorem below_append_above (l : List (Span α)) (a : Nat) : below l a ++ above l a = l :=
  List.takeWhile_append_dropWhile

theorem stop_le_of_mem_below (h : v ∈ below l a) : v.stop ≤ a := by
  simpa using List.mem_takeWhile_imp h

theorem mem_of_mem_above (h : v ∈ above l a) : v ∈ l :=
  (List.dropWhile_suffix _).subset h

theorem lt_stop_of_mem_above (hl : Ordered l) (h : v ∈ above l a) : a < v.stop := by
  induction l with
  | nil => simp [above] at h
  | cons u l ih =>
    obtain ⟨-, hbehind, hl'⟩ := Ordered.cons_iff.mp hl
    by_cases hu : u.stop ≤ a
    · rw [above, List.dropWhile_cons_of_pos (by simpa using hu)] at h
      exact ih hl' h
    · rw [above, List.dropWhile_cons_of_neg (by simpa using hu)] at h
      rcases List.mem_cons.mp h with rfl | hv
      · omega
      · have := hbehind v hv
        have := hl'.pos v hv
        omega

/-- A list in two parts of which the first ends before the address. -/
theorem below_append (h₁ : ∀ v ∈ l₁, v.stop ≤ a) (h₂ : ∀ v ∈ l₂.head?, a < v.stop) :
    below (l₁ ++ l₂) a = l₁ := by
  unfold below
  rw [List.takeWhile_append_of_pos (by simpa using h₁)]
  rcases l₂ with _ | ⟨v, l₂⟩
  · simp
  · rw [List.takeWhile_cons_of_neg (by simpa using h₂ v rfl), List.append_nil]

theorem above_append (h₁ : ∀ v ∈ l₁, v.stop ≤ a) (h₂ : ∀ v ∈ l₂.head?, a < v.stop) :
    above (l₁ ++ l₂) a = l₂ := by
  unfold above
  rw [List.dropWhile_append_of_pos (by simpa using h₁)]
  rcases l₂ with _ | ⟨v, l₂⟩
  · rfl
  · rw [List.dropWhile_cons_of_neg (by simpa using h₂ v rfl)]

/-- The first span that has an address in the interval. -/
def meeting (l : List (Span α)) (a b : Nat) : Option (Span α) :=
  (above l a).head?.filter fun v => decide (v.start < b)

theorem above_of_meeting (h : meeting l a b = some v) :
    v.start < b ∧ ∃ r, above l a = v :: r := by
  unfold meeting at h
  rcases habove : above l a with _ | ⟨w, r⟩
  · simp [habove] at h
  · rw [habove, List.head?_cons, Option.filter_eq_some_iff] at h
    obtain ⟨hw, hb⟩ := h
    cases hw
    exact ⟨by simpa using hb, r, rfl⟩

theorem lt_stop_of_meeting (h : meeting l a b = some v) : a < v.stop := by
  obtain ⟨-, r, habove⟩ := above_of_meeting h
  have hhead := List.head?_dropWhile_not (fun v : Span α => decide (v.stop ≤ a)) l
  rw [show l.dropWhile (fun v => decide (v.stop ≤ a)) = v :: r from habove] at hhead
  simpa using hhead

/-- The span found is the first: nothing is between the address and its start. -/
theorem meeting_eq_some (hl : Ordered l) (h : meeting l a b = some v) :
    v ∈ l ∧ a < v.stop ∧ v.start < b ∧ ∀ x, a ≤ x → x < v.start → get l x = none := by
  obtain ⟨hb, r, habove⟩ := above_of_meeting h
  have hv : v ∈ above l a := by simp [habove]
  refine ⟨mem_of_mem_above hv, lt_stop_of_mem_above hl hv, hb, fun x hx hxv => ?_⟩
  have hsplit := below_append_above l a
  rw [habove] at hsplit
  rw [← hsplit, Ordered.append_iff, Ordered.cons_iff] at hl
  rw [← hsplit, get_append, get_of_stop_le (fun w hw => stop_le_of_mem_below hw) hx, get_cons,
    if_neg (by unfold Has; omega)]
  refine get_of_le_start (b := v.start) (fun w hw => ?_) hxv
  have := hl.2.1.2.1 w hw
  omega

/-- If nothing meets the interval, what ends behind its start begins behind its end. -/
theorem le_start_of_meeting_eq_none (hl : Ordered l) (h : meeting l a b = none) (hv : v ∈ l)
    (ha : a < v.stop) : b ≤ v.start := by
  have hsplit := below_append_above l a
  have hmem : v ∈ above l a := by
    rw [← hsplit, List.mem_append] at hv
    exact hv.resolve_left fun hv => absurd (stop_le_of_mem_below hv) (by omega)
  unfold meeting at h
  rcases habove : above l a with _ | ⟨w, r⟩ <;> rw [habove] at h hmem hsplit
  · simp at hmem
  · rw [List.head?_cons, Option.filter_eq_none_iff] at h
    have hw : b ≤ w.start := by simpa using h w rfl
    rw [← hsplit, Ordered.append_iff, Ordered.cons_iff] at hl
    rcases List.mem_cons.mp hmem with rfl | hmem
    · exact hw
    · have := hl.2.1.2.1 v hmem
      have := hl.2.1.1
      omega

theorem get_of_meeting_eq_none (hl : Ordered l) (h : meeting l a b = none) (hx : a ≤ x)
    (hxb : x < b) : get l x = none :=
  get_eq_none_iff.mpr fun v hv hvx => by
    have := hvx.1
    have := hvx.2
    have := le_start_of_meeting_eq_none hl h hv (by omega)
    omega

theorem meeting_eq_none_iff (hl : Ordered l) (hab : a < b) :
    meeting l a b = none ↔ ∀ x, a ≤ x → x < b → get l x = none := by
  refine ⟨fun h x hx hxb => get_of_meeting_eq_none hl h hx hxb, fun h => ?_⟩
  rcases hmeet : meeting l a b with _ | v
  · rfl
  · obtain ⟨hv, hstop, hstart, -⟩ := meeting_eq_some hl hmeet
    -- The span and the interval share the larger of their starts.
    have hnone := h (max a v.start) (by omega) (by omega)
    have hpos := hl.pos v hv
    rw [hl.get_of_mem hv (by unfold Has; omega)] at hnone
    exact absurd hnone (by simp)

/-! ### Lengths -/

/-- The lengths of disjoint intervals add up to at most the length of a range that
    contains them all. -/
theorem sum_length_le {ι : Type} [DecidableEq ι] (S : Finset ι) (start length : ι → Nat)
    {lo hi : Nat} (hin : ∀ i ∈ S, lo ≤ start i ∧ start i + length i ≤ hi)
    (hapart : ∀ i ∈ S, ∀ j ∈ S, i ≠ j →
      start i + length i ≤ start j ∨ start j + length j ≤ start i) :
    ∑ i ∈ S, length i ≤ hi - lo := by
  let addrs := fun i => Finset.Ico (start i) (start i + length i)
  have hdisjoint : ∀ i ∈ S, ∀ j ∈ S, i ≠ j → Disjoint (addrs i) (addrs j) := by
    intro i hi j hj hne
    have happart := hapart i hi j hj hne
    refine Finset.disjoint_left.mpr fun x hx hx' => ?_
    simp only [addrs, Finset.mem_Ico] at hx hx'
    omega
  calc ∑ i ∈ S, length i = ∑ i ∈ S, (addrs i).card := by simp [addrs]
    _ = (S.biUnion addrs).card := (Finset.card_biUnion hdisjoint).symm
    _ ≤ (Finset.Ico lo hi).card := Finset.card_le_card (Finset.biUnion_subset.mpr fun i hi =>
        Finset.Ico_subset_Ico (hin i hi).1 (hin i hi).2)
    _ = hi - lo := Nat.card_Ico lo hi

end Span
