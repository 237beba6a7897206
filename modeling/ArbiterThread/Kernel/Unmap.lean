import ArbiterThread.Kernel.VmCalls

/-!
# Unmapping in a Group

`sys_absys_munmap` unmaps an interval in one task like `munmap` does, and goes through
the areas that the other tasks have there. It leaves alone what is not the arbiter's.
What is the arbiter's it unmaps with the extent of the area, not with the part that
is inside of the interval.

That is the same if every area of the arbiter in the interval ends where the interval
does. Areas that were mapped by different calls are merged when they are alike and
lie side by side, as neighbouring units of the channel heap do, and then it is not.

The loop removes the areas one by one from a list that it looks up anew each time.
`unmapControlled_areas` says what remains of it.

## Main definitions

* `unmapArea`, `unmapControlled`: One area, and one task.
* `sysAbsysMunmap`: The call.
* `Unmapped`: What the call is for.

## Theorems

* `doMunmap_area`: Unmapping an area with its own extent.
* `unmapControlled_areas`: The areas that remain in a task.
* `sysAbsysMunmap_unmapped_iff`: When the call does what it is for.
-/

namespace ArbiterThread

open Span

/-! ### The code -/

/-- The body of the loop, with the result of the last `do_munmap`. -/
def unmapArea (k : Nat) (_ : Nat) (v : VmArea) (s : Nat × MmStruct) : Option (Nat × MmStruct) :=
  some (if AbControl v.val.flags then doMunmap k s.2 v.start (v.stop - v.start) else (0, s.2))

/-- The loop over one task. A turn begins with a result of `0`, so that is the result if the
    last lookup found nothing. -/
def unmapControlled (k : Nat) (m : MmStruct) (addr length : Nat) : Nat × MmStruct :=
  let stop := wordAdd addr length
  match walkAreas (fun s => s.2.areas) (unmapArea k) stop addr (0, m) with
  | none => (0, m)
  | some (addrTmp, ret, m') => (if addrTmp < stop then 0 else ret, m')

/-- The tasks besides the target, until there is an error. -/
def unmapOthers (k addr length : Nat) : List Nat → VmGroup → Nat × VmGroup
  | [], g => (0, g)
  | u :: us, g =>
    let r := unmapControlled k (g.task u).mm addr length
    if r.1 ≠ 0 then (r.1, g.setMm u r.2) else unmapOthers k addr length us (g.setMm u r.2)

/-- The result is an error number, or `0`. -/
def sysAbsysMunmap (lim : Limits) (g : VmGroup) (t addr length : Nat) : Nat × VmGroup :=
  if t ∈ g.ring then
    let r := doMunmap lim.maxMapCount (g.task t).mm addr length
    if r.1 ≠ 0 then (r.1, g.setMm t r.2)
    else unmapOthers lim.maxMapCount addr length (g.others t) (g.setMm t r.2)
  else (Errno.perm, g)

/-! ### One area -/

theorem pageAlign_eq {n : Nat} (hn : n % 4096 = 0) (hlt : n ≤ taskSize) : pageAlign n = n := by
  unfold pageAlign
  unfold taskSize at hlt
  omega

theorem splitVma_of_cut {k a : Nat} {l : List VmArea} (h : CutAt l a) (hl : Ordered l) :
    splitVma k l a = some l := by
  unfold splitVma
  rcases habove : above l a with _ | ⟨v, r⟩
  · rfl
  · have hmem : v ∈ above l a := by simp [habove]
    have hlt := lt_stop_of_mem_above hl hmem
    have := h v (mem_of_mem_above hmem)
    exact if_pos (by omega)

/-- Unmapping an area with its own extent splits nothing and removes the area. -/
theorem doMunmap_area (k : Nat) {m : MmStruct} {b r : List VmArea} {v : VmArea}
    (hm : m.areas = b ++ v :: r) (hl : AreasOk m.areas) :
    ∃ m', doMunmap k m v.start (v.stop - v.start) = (0, m') ∧ m'.areas = b ++ r := by
  have hmem : v ∈ m.areas := by simp [hm]
  have haligned := hl.aligned v hmem
  have hbound := hl.bounded v hmem
  have hord := hl.ordered
  rw [hm, Ordered.append_iff, Ordered.cons_iff] at hord
  obtain ⟨-, ⟨hpos, hr, hord'⟩, hb⟩ := hord
  have hb' : ∀ w ∈ b, w.stop ≤ v.start := fun w hw => hb w hw v (by simp)
  have hlen : pageAlign (v.stop - v.start) = v.stop - v.start :=
    pageAlign_eq (by omega) (by omega)
  have hend : v.start + (v.stop - v.start) = v.stop := by omega
  have habove : above m.areas v.start = v :: r := by
    rw [hm]
    exact above_append hb' (by simpa using hpos)
  have hbelow : below m.areas v.start = b := by
    rw [hm]
    exact below_append hb' (by simpa using hpos)
  -- the range ends at area borders, so that nothing is split
  have hcut₁ : CutAt m.areas v.start := by
    rw [hm]
    intro w hw
    rcases List.mem_append.mp hw with hw | hw
    · exact .inl (hb' w hw)
    rcases List.mem_cons.mp hw with rfl | hw
    · exact .inr (Nat.le_refl _)
    · have := hr w hw
      exact .inr (by omega)
  have hcut₂ : CutAt m.areas v.stop := by
    rw [hm]
    intro w hw
    rcases List.mem_append.mp hw with hw | hw
    · have := hb' w hw
      exact .inl (by omega)
    rcases List.mem_cons.mp hw with rfl | hw
    · exact .inl (Nat.le_refl _)
    · exact .inr (hr w hw)
  have hmeet : findVmaIntersection m.areas v.start v.stop = some v := by
    unfold findVmaIntersection meeting
    rw [habove, List.head?_cons, Option.filter_some, if_pos (by simpa using hpos)]
  refine ⟨detach m v.start v.stop, ?_, ?_⟩
  · unfold doMunmap
    rw [if_neg (by omega), if_neg (by omega)]
    simp only [hlen, hend, hmeet, splitVma_of_cut hcut₁ hl.ordered,
      splitVma_of_cut hcut₂ hl.ordered]
  · show below m.areas v.start ++ (above m.areas v.start).dropWhile _ = b ++ r
    rw [hbelow, habove, List.dropWhile_cons_of_pos (by simpa using hpos)]
    congr 1
    rcases r with _ | ⟨w, r⟩
    · rfl
    · exact List.dropWhile_cons_of_neg (by simpa using hr w (by simp))

/-! ### One task -/

/-- An area of the arbiter with an address in the interval. -/
def Hit (addr stop : Nat) (v : VmArea) : Prop :=
  AbControl v.val.flags ∧ addr < v.stop ∧ v.start < stop

instance (addr stop : Nat) (v : VmArea) : Decidable (Hit addr stop v) :=
  inferInstanceAs (Decidable (_ ∧ _))

/-- The areas that remain when the loop has come to `a`. -/
def remaining (l : List VmArea) (addr stop a : Nat) : List VmArea :=
  l.filter fun v => decide ¬(Hit addr stop v ∧ v.stop ≤ a)

/-- The invariant of the loop. -/
structure Unmapping (l : List VmArea) (addr stop a : Nat) (s : Nat × MmStruct) : Prop where
  ret : s.1 = 0
  areas : s.2.areas = remaining l addr stop a
  le : addr ≤ a
  cut : a = addr ∨ ∃ w ∈ l, w.stop = a

/-- Only the area that the loop has met makes a difference. -/
theorem remaining_step {l b r : List VmArea} {v : VmArea} {addr stop a : Nat}
    (h : remaining l addr stop a = b ++ v :: r) (hl : Ordered l) (hb : ∀ w ∈ b, w.stop ≤ a)
    (hv : a < v.stop) :
    remaining l addr stop v.stop = if Hit addr stop v then b ++ r else b ++ v :: r := by
  have hord : Ordered (b ++ v :: r) := h ▸ hl.sublist List.filter_sublist
  rw [Ordered.append_iff, Ordered.cons_iff] at hord
  -- The longer filter is the shorter one filtered again.
  have hagain : remaining l addr stop v.stop =
      (remaining l addr stop a).filter fun w => decide ¬(Hit addr stop w ∧ w.stop ≤ v.stop) := by
    unfold remaining
    rw [List.filter_filter]
    refine List.filter_congr fun w _ => ?_
    by_cases hw : Hit addr stop w <;> simp [hw]
    omega
  have hb' : (b.filter fun w => decide ¬(Hit addr stop w ∧ w.stop ≤ v.stop)) = b := by
    rw [List.filter_eq_self]
    intro w hw
    have hkept : w ∈ remaining l addr stop a := by rw [h]; simp [hw]
    have hnot := of_decide_eq_true (List.mem_filter.mp hkept).2
    exact decide_eq_true fun hhit => hnot ⟨hhit.1, hb w hw⟩
  have hr' : (r.filter fun w => decide ¬(Hit addr stop w ∧ w.stop ≤ v.stop)) = r := by
    rw [List.filter_eq_self]
    intro w hw
    have hstart := hord.2.1.2.1 w hw
    have hpos := hord.2.1.2.2.pos w hw
    exact decide_eq_true fun hhit => by omega
  rw [hagain, h, List.filter_append, List.filter_cons, hb', hr']
  by_cases hhit : Hit addr stop v <;> simp [hhit]

theorem Unmapping.step (k : Nat) {l : List VmArea} {addr stop a : Nat} {s : Nat × MmStruct}
    {v : VmArea} (h : Unmapping l addr stop a s) (hl : AreasOk l)
    (hv : findVmaIntersection s.2.areas a stop = some v) :
    ∃ s', unmapArea k a v s = some s' ∧ Unmapping l addr stop v.stop s' := by
  have hok : AreasOk s.2.areas := by
    rw [h.areas]
    exact hl.sublist List.filter_sublist
  obtain ⟨hmem, hlt, hstart, -⟩ := meeting_eq_some hok.ordered hv
  obtain ⟨-, r, habove⟩ := above_of_meeting hv
  obtain ⟨b, hb, hsplit⟩ : ∃ b, (∀ w ∈ b, w.stop ≤ a) ∧ s.2.areas = b ++ v :: r :=
    ⟨_, fun w hw => stop_le_of_mem_below hw, by rw [← habove, below_append_above]⟩
  have hnext := remaining_step (h.areas.symm.trans hsplit) hl.ordered hb hlt
  have hle := h.le
  have hcut : v.stop = addr ∨ ∃ w ∈ l, w.stop = v.stop :=
    .inr ⟨v, List.filter_sublist.subset (h.areas ▸ hmem), rfl⟩
  unfold unmapArea
  by_cases hcontrol : AbControl v.val.flags
  · have hhit : Hit addr stop v := ⟨hcontrol, by omega, hstart⟩
    obtain ⟨m', hunmap, hareas⟩ := doMunmap_area k hsplit hok
    refine ⟨(0, m'), by rw [if_pos hcontrol, hunmap], rfl, ?_, by omega, hcut⟩
    rw [hnext, if_pos hhit, hareas]
  · have hhit : ¬Hit addr stop v := fun hhit => hcontrol hhit.1
    refine ⟨(0, s.2), by rw [if_neg hcontrol], rfl, ?_, by omega, hcut⟩
    rw [hnext, if_neg hhit, ← hsplit]

/-- Every area of the arbiter with an address in the interval goes away, and there is no
    error. -/
theorem unmapControlled_areas (k : Nat) {m : MmStruct} {addr length : Nat} (hl : AreasOk m.areas)
    (hpos : 0 < length) (hlt : addr + length < 2 ^ 32) :
    ∃ m', unmapControlled k m addr length = (0, m') ∧
      m'.areas = m.areas.filter fun v => decide ¬Hit addr (addr + length) v := by
  -- before the walk nothing is hit yet
  have hstart : Unmapping m.areas addr (addr + length) addr (0, m) := by
    refine ⟨rfl, ?_, Nat.le_refl _, .inl rfl⟩
    refine (List.filter_eq_self.mpr fun v _ => ?_).symm
    rw [decide_eq_true_eq]
    intro hhit
    have := hhit.1.2.1
    omega
  obtain ⟨a, ⟨ret, m'⟩, hwalk, hinv, hexit⟩ := walkAreas_invariant
    (fun s : Nat × MmStruct => s.2.areas) (unmapArea k) (Unmapping m.areas addr (addr + length))
    (fun a s v _ h hv => h.step k hl hv) addr (0, m) (by omega) hstart
  refine ⟨m', ?_, ?_⟩
  · have hret : ret = 0 := hinv.ret
    unfold unmapControlled
    simp only [wordAdd_eq hlt, hwalk, hret, ite_self]
  · -- An area that is hit and was not met would end behind `a`.
    have hareas : m'.areas = remaining m.areas addr (addr + length) a := hinv.areas
    rw [hareas]
    refine List.filter_congr fun v hv => ?_
    by_cases hhit : Hit addr (addr + length) v
    · have hstop : v.stop ≤ a := by
        by_contra hgt
        rcases hexit with hend | hnone
        · rcases hinv.cut with rfl | ⟨w, hw, rfl⟩
          · omega
          · -- Areas do not overlap, so `v` begins behind the end of `w`.
            have hne : v ≠ w := fun h => hgt (h ▸ Nat.le_refl _)
            have hvpos := hl.ordered.pos v hv
            have hwpos := hl.ordered.pos w hw
            have := hhit.2.2
            refine hne (hl.ordered.unique (a := w.stop - 1) hv hw ⟨?_, ?_⟩ ⟨?_, ?_⟩) <;> omega
        · have hmem : v ∈ m'.areas := by
            rw [hareas, remaining, List.mem_filter]
            exact ⟨hv, decide_eq_true fun h => hgt h.2⟩
          have hok : Ordered m'.areas := hareas ▸ hl.ordered.sublist List.filter_sublist
          have := le_start_of_meeting_eq_none hok hnone hmem (by omega)
          have := hhit.2.2
          omega
      simp [hhit, hstop]
    · simp [hhit]

/-! ### The group -/

/-- All other tasks are served, each for itself. -/
theorem unmapOthers_spec (k : Nat) {addr length : Nat} (hpos : 0 < length)
    (hlt : addr + length < 2 ^ 32) (us : List Nat) (hnodup : us.Nodup) (g : VmGroup)
    (hok : ∀ u ∈ us, AreasOk (g.areas u)) :
    ∃ g', unmapOthers k addr length us g = (0, g') ∧
      (∀ u ∈ us, g'.areas u =
        (g.areas u).filter fun v => decide ¬Hit addr (addr + length) v) ∧
      ∀ u, u ∉ us → g'.areas u = g.areas u := by
  induction us generalizing g with
  | nil => exact ⟨g, rfl, by simp, fun _ _ => rfl⟩
  | cons u us ih =>
    obtain ⟨hu, hus⟩ := List.nodup_cons.mp hnodup
    obtain ⟨m', hone, hareas⟩ := unmapControlled_areas k (hok u (by simp)) hpos hlt
    have hkeep : ∀ w, w ≠ u → (g.setMm u m').areas w = g.areas w := fun w hw => by
      unfold VmGroup.areas
      rw [g.setMm_task_of_ne hw]
    obtain ⟨g', hrest, hin, hout⟩ := ih hus (g.setMm u m') fun w hw => by
      rw [hkeep w fun h => hu (h ▸ hw)]
      exact hok w (by simp [hw])
    refine ⟨g', ?_, fun w hw => ?_, fun w hw => ?_⟩
    · simp only [unmapOthers, hone, ne_eq, not_true_eq_false, if_false, hrest]
    · rcases List.mem_cons.mp hw with rfl | hw
      · rw [hout w hu, VmGroup.areas, g.setMm_task_self]
        exact hareas
      · rw [hin w hw, hkeep w fun h => hu (h ▸ hw)]
    · rw [List.mem_cons, not_or] at hw
      rw [hout w hw.2, hkeep w hw.1]

/-- What the call is for. The pages of the interval are those up to the next page boundary. -/
structure Unmapped (g g' : VmGroup) (t addr length : Nat) : Prop where
  others : ∀ u ∈ g.ring, u ≠ t → ∀ x f, addr ≤ x → x < addr + pageAlign length →
    flagsAt (g.areas u) x = some f → AbControl f → flagsAt (g'.areas u) x = none
  outside : ∀ u ∈ g.ring, ∀ x, x < addr ∨ addr + pageAlign length ≤ x →
    flagsAt (g'.areas u) x = flagsAt (g.areas u) x
  system : ∀ u ∈ g.ring, ∀ x f, flagsAt (g.areas u) x = some f → ¬AbControl f →
    flagsAt (g'.areas u) x = some f
  unmapped : ∀ u ∈ g.ring, ∀ x, flagsAt (g.areas u) x = none → flagsAt (g'.areas u) x = none

/-- The areas of the arbiter in the interval end with it. -/
def Contained (l : List VmArea) (addr length : Nat) : Prop :=
  ∀ v ∈ l, Hit addr (addr + length) v → addr ≤ v.start ∧ v.stop ≤ addr + pageAlign length

instance (l : List VmArea) (addr length : Nat) : Decidable (Contained l addr length) :=
  inferInstanceAs (Decidable (∀ v ∈ l, _))

/-- What a task has in the interval is the arbiter's. -/
def OnlyControlled (l : List VmArea) (addr length : Nat) : Prop :=
  ∀ v ∈ l, addr < v.stop → v.start < addr + length → AbControl v.val.flags

instance (l : List VmArea) (addr length : Nat) : Decidable (OnlyControlled l addr length) :=
  inferInstanceAs (Decidable (∀ v ∈ l, _))

theorem UnmapArgs.bounds {start len : Nat} (h : UnmapArgs start len) :
    start % 4096 = 0 ∧ 0 < len ∧ start + len < 2 ^ 32 ∧ len ≤ pageAlign len ∧
      pageAlign len < len + 4096 ∧ pageAlign len % 4096 = 0 := by
  obtain ⟨hstart, hle, hlen, hpages⟩ := h
  unfold pageAlign at hpages ⊢
  unfold taskSize at hle hlen
  refine ⟨hstart, ?_, ?_, ?_, ?_, ?_⟩ <;> omega

theorem flagsAt_filter {l : List VmArea} (hl : Ordered l) (p : VmArea → Bool) {v : VmArea}
    {x : Nat} (hv : v ∈ l) (hx : v.Has x) :
    flagsAt (l.filter p) x = if p v then some v.val.flags else none := by
  by_cases hp : p v
  · rw [if_pos hp, flagsAt,
      (hl.sublist List.filter_sublist).get_of_mem (List.mem_filter.mpr ⟨hv, hp⟩) hx,
      Option.map_some]
  · rw [if_neg hp, flagsAt_eq_none_iff, get_eq_none_iff]
    intro w hw hwx
    obtain ⟨hw, hpw⟩ := List.mem_filter.mp hw
    exact hp (hl.unique hv hw hx hwx ▸ hpw)

theorem flagsAt_filter_none {l : List VmArea} (p : VmArea → Bool) {x : Nat}
    (h : flagsAt l x = none) : flagsAt (l.filter p) x = none := by
  rw [flagsAt_eq_none_iff, get_eq_none_iff] at h ⊢
  exact fun v hv => h v (List.mem_filter.mp hv).1

/-- What a call that returns `0` leaves of the areas. -/
theorem sysAbsysMunmap_areas {lim : Limits} {g : VmGroup} {t addr length : Nat}
    (hok : ∀ u ∈ g.ring, AreasOk (g.areas u))
    (hret : (sysAbsysMunmap lim g t addr length).1 = 0) :
    t ∈ g.ring ∧ UnmapArgs addr length ∧
    (∀ x, flagsAt ((sysAbsysMunmap lim g t addr length).2.areas t) x =
      if addr ≤ x ∧ x < addr + pageAlign length then none else flagsAt (g.areas t) x) ∧
    ∀ u ∈ g.ring, u ≠ t → (sysAbsysMunmap lim g t addr length).2.areas u =
      (g.areas u).filter fun v => decide ¬Hit addr (addr + length) v := by
  unfold sysAbsysMunmap at hret ⊢
  by_cases ht : t ∈ g.ring
  swap
  · rw [if_neg ht] at hret
    exact absurd hret (show Errno.perm ≠ 0 by decide)
  rw [if_pos ht] at hret ⊢
  rcases hunmap : doMunmap lim.maxMapCount (g.task t).mm addr length with ⟨e, m'⟩
  simp only [hunmap] at hret ⊢
  by_cases he : e ≠ 0
  · rw [if_pos he] at hret
    exact absurd hret he
  rw [if_neg he]
  obtain ⟨-, hspec, -⟩ := doMunmap_spec (hok t ht) hunmap
  obtain ⟨hargs, hflags⟩ := hspec (not_not.mp he)
  have hbounds := hargs.bounds
  have hkeep : ∀ u, u ≠ t → (g.setMm t m').areas u = g.areas u := fun u hu => by
    unfold VmGroup.areas
    rw [g.setMm_task_of_ne hu]
  have hothers : ∀ u ∈ g.others t, u ∈ g.ring ∧ u ≠ t := fun u hu => (VmGroup.mem_others ht).mp hu
  obtain ⟨g', hrest, hin, hout⟩ := unmapOthers_spec lim.maxMapCount hbounds.2.1 hbounds.2.2.1
    (g.others t) (VmGroup.nodup_others ht) (g.setMm t m') fun u hu => by
      rw [hkeep u (hothers u hu).2]
      exact hok u (hothers u hu).1
  rw [hrest]
  refine ⟨ht, hargs, fun x => ?_, fun u hu hne => ?_⟩
  · rw [hout t fun h => (hothers t h).2 rfl, VmGroup.areas, g.setMm_task_self]
    exact hflags x
  · rw [hin u ((VmGroup.mem_others ht).mpr ⟨hu, hne⟩), hkeep u hne]

/-- A call that returns `0` unmaps the arbiter's pages of the interval and nothing else, if the
    arbiter's areas in the interval end with it in all other tasks, and the target has only
    areas of the arbiter there. -/
theorem sysAbsysMunmap_unmapped_iff (lim : Limits) (g : VmGroup) (t addr length : Nat)
    (hok : ∀ u ∈ g.ring, AreasOk (g.areas u))
    (hret : (sysAbsysMunmap lim g t addr length).1 = 0) :
    Unmapped g (sysAbsysMunmap lim g t addr length).2 t addr length ↔
    (∀ u ∈ g.ring, u ≠ t → Contained (g.areas u) addr length) ∧
      OnlyControlled (g.areas t) addr length := by
  obtain ⟨ht, hargs, htarget, hothers⟩ := sysAbsysMunmap_areas hok hret
  obtain ⟨haddr, hpos, hlt, hle, hge, hpages⟩ := hargs.bounds
  -- Areas begin at pages, so an area that begins before the last page ends begins in it.
  have hpage : ∀ u ∈ g.ring, ∀ v ∈ g.areas u, v.start < addr + pageAlign length →
      v.start < addr + length := by
    intro u hu v hv hlt
    have := ((hok u hu).aligned v hv).1
    omega
  constructor
  · intro h
    refine ⟨fun u hu hne v hv hhit => ?_, fun v hv hstop hstart => ?_⟩
    · have hvpos := (hok u hu).ordered.pos v hv
      -- A page of the area outside of the interval would be gone.
      have hinside : ∀ x, v.Has x → ¬(x < addr ∨ addr + pageAlign length ≤ x) := by
        intro x hx hout
        have hgone := h.outside u hu x hout
        rw [hothers u hu hne, flagsAt_filter (hok u hu).ordered _ hv hx,
          if_neg (by simpa using hhit), flagsAt_of_mem (hok u hu).ordered hv hx] at hgone
        exact absurd hgone (by simp)
      have hstart := hinside v.start ⟨Nat.le_refl _, hvpos⟩
      refine ⟨by omega, ?_⟩
      by_contra hend
      have := hhit.2.2
      exact hinside (addr + pageAlign length) ⟨by omega, by omega⟩ (by omega)
    · by_contra hsystem
      have hvpos := (hok t ht).ordered.pos v hv
      have hx : v.Has (max addr v.start) := ⟨by omega, by omega⟩
      have hkept := h.system t ht _ _ (flagsAt_of_mem (hok t ht).ordered hv hx) hsystem
      rw [htarget, if_pos (by omega)] at hkept
      exact absurd hkept (by simp)
  · rintro ⟨hcontained, honly⟩
    refine ⟨fun u hu hne x f hx hxs hf hcontrol => ?_, fun u hu x hx => ?_,
      fun u hu x f hf hsystem => ?_, fun u hu x hf => ?_⟩
    · obtain ⟨v, hv, hvx, rfl⟩ := mem_of_flagsAt hf
      have := hvx.1
      have := hvx.2
      have hhit : Hit addr (addr + length) v :=
        ⟨hcontrol, by omega, hpage u hu v hv (by omega)⟩
      rw [hothers u hu hne, flagsAt_filter (hok u hu).ordered _ hv hvx,
        if_neg (by simpa using hhit)]
    · by_cases hut : u = t
      · rw [hut, htarget, if_neg (by omega)]
      rw [hothers u hu hut]
      rcases hf : flagsAt (g.areas u) x with _ | f
      · exact flagsAt_filter_none _ hf
      obtain ⟨v, hv, hvx, rfl⟩ := mem_of_flagsAt hf
      have hhit : ¬Hit addr (addr + length) v := by
        intro hhit
        have hin := hcontained u hu hut v hv hhit
        have := hvx.1
        have := hvx.2
        omega
      rw [flagsAt_filter (hok u hu).ordered _ hv hvx, if_pos (by simpa using hhit)]
    · obtain ⟨v, hv, hvx, rfl⟩ := mem_of_flagsAt hf
      by_cases hut : u = t
      · subst hut
        rw [htarget, if_neg, hf]
        rintro ⟨hx, hxs⟩
        have := hvx.1
        have := hvx.2
        exact hsystem (honly v hv (by omega) (hpage u hu v hv (by omega)))
      · have hhit : ¬Hit addr (addr + length) v := fun hhit => hsystem hhit.1
        rw [hothers u hu hut, flagsAt_filter (hok u hu).ordered _ hv hvx,
          if_pos (by simpa using hhit)]
    · by_cases hut : u = t
      · rw [hut] at hf ⊢
        rw [htarget, hf, ite_self]
      · rw [hothers u hu hut]
        exact flagsAt_filter_none _ hf

/-- A page that is an area of its own in both tasks. -/
theorem sysAbsysMunmap_unmapped_page :
    Unmapped
      (pairOf [anonArea 0x80000000 0x80001000 0x2000007b#32 0x80000]
        [anonArea 0x80000000 0x80001000 0x20000078#32 0x80000])
      (sysAbsysMunmap roomyLimits
        (pairOf [anonArea 0x80000000 0x80001000 0x2000007b#32 0x80000]
          [anonArea 0x80000000 0x80001000 0x20000078#32 0x80000]) 1 0x80000000 0x1000).2
      1 0x80000000 0x1000 :=
  (sysAbsysMunmap_unmapped_iff roomyLimits _ 1 0x80000000 0x1000 (by decide)
    (by decide +kernel)).mpr (by decide)

/-- Two neighbouring pages of the arbiter are one area. When the first is unmapped in one task,
    the other task loses both. -/
theorem sysAbsysMunmap_merged :
    (∀ u ∈ [1, 2], AreasOk ((pairOf [anonArea 0x80000000 0x80002000 0x2000007b#32 0x80000]
      [anonArea 0x80000000 0x80002000 0x20000078#32 0x80000]).areas u)) ∧
    (sysAbsysMunmap roomyLimits
      (pairOf [anonArea 0x80000000 0x80002000 0x2000007b#32 0x80000]
        [anonArea 0x80000000 0x80002000 0x20000078#32 0x80000]) 1 0x80000000 0x1000).1 = 0 ∧
    ¬Unmapped
      (pairOf [anonArea 0x80000000 0x80002000 0x2000007b#32 0x80000]
        [anonArea 0x80000000 0x80002000 0x20000078#32 0x80000])
      (sysAbsysMunmap roomyLimits
        (pairOf [anonArea 0x80000000 0x80002000 0x2000007b#32 0x80000]
          [anonArea 0x80000000 0x80002000 0x20000078#32 0x80000]) 1 0x80000000 0x1000).2
      1 0x80000000 0x1000 := by
  refine ⟨by decide, by decide +kernel, fun h => ?_⟩
  have hlost := h.outside 2 (by decide) 0x80001000 (.inr (by decide))
  revert hlost
  decide +kernel

end ArbiterThread
