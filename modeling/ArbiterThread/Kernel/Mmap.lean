import ArbiterThread.Kernel.Propagate

/-!
# Mapping in a Group

`sys_absys_mmap` maps an area in one task and reserves it in all others. What it hands
on to the others is what the mapping in the target returned, and the length of the
request.

What was returned is an address, or a negative error number in the same word. The
others take it for an address in either case. There is nothing mapped up there, so
what they do depends on the sum of the two words. If it wraps around, the interval
looks like one that has been gone through, and nothing happens. If the length is less
than the error number it does not, and an area is made of it.

The length is rounded to pages for the target only. If it is not a multiple of the
page size and nothing is in the way in another task, the area there ends in the
middle of a page.

In the target the pages may be locked, and then they are faulted in on behalf of the
arbiter. If they can be accessed, that is an assertion that fails.

## Main definitions

* `findUnmappedArea`, `mmapPlace`, `absysMmapRegion`, `doAbsysMmapPgoff`: The target.
* `propagateOthers`, `sysAbsysMmap`: The call.
* `MmapPromise`: What is expected of the call.
* `targetError`, `LocksPages`: When the target is refused, and when its pages are faulted in.
* `Untouched`, `Covers`: When the promise holds for one of the other tasks.

## Theorems

* `doAbsysMmapPgoff_cases`: What the mapping in the target returns.
* `doAbsysVmaPropagate_error`: The propagation of an error.
* `doAbsysVmaPropagate_covers_iff`: The propagation of a mapping.
* `sysAbsysMmap_promise_iff`: When the call does what is expected.
-/

namespace ArbiterThread

open Span

/-! ### The code -/

/-- `get_unmapped_area` for anonymous memory. An address that is not fixed is looked for in the
    address space of the caller; `search` is what this comes to for a hint and a length. -/
def findUnmappedArea (search : Nat → Nat → Nat) (addr len : Nat) (flags : BitVec 32) : Nat :=
  let found := if flags &&& MapFlag.fixed ≠ 0 then addr else search addr len
  if IsErrValue found then found
  else if taskSize - len < found then errWord Errno.noMem
  else if found % 4096 ≠ 0 then errWord Errno.inval
  else found

/-- The checks of `do_absys_mmap_pgoff`: the address to map, or an error. Huge pages take
    another way, with a file, which is not modelled. -/
def mmapPlace (lim : Limits) (search : Nat → Nat → Nat) (t : VmTask) (addr len : Nat)
    (prot flags : BitVec 32) (pgoff : Nat) : Nat :=
  if len = 0 then errWord Errno.inval
  else if pageAlign len = 0 ∨ taskSize < pageAlign len then errWord Errno.noMem
  else if wordAdd pgoff (pageAlign len / 4096) < pgoff then errWord Errno.overflow
  else if lim.maxMapCount < t.mm.areas.length then errWord Errno.noMem
  else
    let found := findUnmappedArea search addr (pageAlign len) flags
    if found % 4096 ≠ 0 then found
    else if mlockError lim t flags (channelFlags t prot flags) (pageAlign len) ≠ 0 then
      errWord (mlockError lim t flags (channelFlags t prot flags) (pageAlign len))
    else if mapType flags = none then errWord Errno.inval
    else if lim.fileMmap prot (t.prot prot) flags found ≠ 0 then
      errWord (lim.fileMmap prot (t.prot prot) flags found)
    else found

/-- `VM_SHARED` is among the flags, so no memory is accounted. `none` is an assertion that
    fails on the way to the pages. -/
def absysMmapRegion (lim : Limits) (m : MmStruct) (addr len : Nat) (flags vmFlags : BitVec 32)
    (pgoff : Nat) : Option (Nat × MmStruct) :=
  let cleared := clearOldMaps lim.maxMapCount m addr len
  let m := cleared.2
  if cleared.1 ≠ 0 then some (errWord Errno.noMem, m)
  else if ¬mayExpandVm lim m (len / 4096) then some (errWord Errno.noMem, m)
  else
    (lockOrPopulate lim { m with
      areas := mapArea m.areas addr (wordAdd addr len) (regionFlags lim flags vmFlags) pgoff
      totalVm := m.totalVm + len / 4096 } addr len flags (regionFlags lim flags vmFlags)).map
        fun m => (addr, m)

def doAbsysMmapPgoff (lim : Limits) (search : Nat → Nat → Nat) (t : VmTask) (addr len : Nat)
    (prot flags : BitVec 32) (pgoff : Nat) : Option (Nat × MmStruct) :=
  let place := mmapPlace lim search t addr len prot flags pgoff
  if place % 4096 ≠ 0 then some (place, t.mm)
  else
    match mapType flags with
    | none => some (place, t.mm)
    | some type =>
      absysMmapRegion lim t.mm place (pageAlign len) flags
        (channelFlags t prot flags ||| type.flags) (type.pgoff place)

/-- The tasks besides the target; `none` is the failed assertion. -/
def propagateOthers (lim : Limits) (addr len : Nat) (prot flags : BitVec 32) :
    List Nat → VmGroup → Option VmGroup
  | [], g => some g
  | u :: us, g =>
    match doAbsysVmaPropagate lim (g.task u) addr len prot flags with
    | none => none
    | some r => propagateOthers lim addr len prot flags us (g.setMm u r.2)

/-- `MAP_EXECUTABLE` and `MAP_DENYWRITE` are ignored. -/
def mmapFlags (flags : BitVec 32) : BitVec 32 :=
  flags &&& ~~~(MapFlag.executable ||| MapFlag.denyWrite)

/-- The result is an address or an error. -/
def sysAbsysMmap (lim : Limits) (search : Nat → Nat → Nat) (g : VmGroup) (t addr len : Nat)
    (prot flags : BitVec 32) (pgoff : Nat) : Option (Nat × VmGroup) :=
  let flags := mmapFlags flags
  if flags &&& MapFlag.anonymous = 0 then some (errWord Errno.inval, g)
  else if t ∈ g.ring then
    (doAbsysMmapPgoff lim search (g.task t) addr len prot flags pgoff).bind fun r =>
      (propagateOthers lim r.1 len prot flags (g.others t) (g.setMm t r.2)).map fun g' =>
        (r.1, g')
  else some (errWord Errno.perm, g)

/-! ### The target -/

/-- The address that the target is to map, if nothing stands against it. -/
def mmapAddr (search : Nat → Nat → Nat) (addr len : Nat) (flags : BitVec 32) : Nat :=
  if flags &&& MapFlag.fixed ≠ 0 then addr else search addr (pageAlign len)

/-- The number of the first error, in the order of the checks, for which there is no address
    to map. -/
def placeError (lim : Limits) (search : Nat → Nat → Nat) (t : VmTask) (addr len : Nat)
    (prot flags : BitVec 32) (pgoff : Nat) : Option Nat :=
  let place := mmapAddr search addr len flags
  let locking := mlockError lim t flags (channelFlags t prot flags) (pageAlign len)
  if pageAlign len = 0 ∨ taskSize < pageAlign len then some Errno.noMem
  else if wordAdd pgoff (pageAlign len / 4096) < pgoff then some Errno.overflow
  else if lim.maxMapCount < t.mm.areas.length then some Errno.noMem
  else if IsErrValue place then some (2 ^ 32 - place)
  else if taskSize - pageAlign len < place then some Errno.noMem
  else if place % 4096 ≠ 0 then some Errno.inval
  else if locking ≠ 0 then some locking
  else if mapType flags = none then some Errno.inval
  else if lim.fileMmap prot (t.prot prot) flags place ≠ 0 then
    some (lim.fileMmap prot (t.prot prot) flags place)
  else none

/-- The number of the error for which the target does not get its pages: there is no address
    to map, old areas cannot be cleared, or the pages do not fit. -/
def targetError (lim : Limits) (search : Nat → Nat → Nat) (t : VmTask) (addr len : Nat)
    (prot flags : BitVec 32) (pgoff : Nat) : Option Nat :=
  let cleared := clearOldMaps lim.maxMapCount t.mm (mmapAddr search addr len flags) (pageAlign len)
  (placeError lim search t addr len prot flags pgoff).or
    (if cleared.1 ≠ 0 ∨ ¬mayExpandVm lim cleared.2 (pageAlign len / 4096) then some Errno.noMem
      else none)

/-- The pages of the target are to be locked, and may be read or written. -/
def LocksPages (t : VmTask) (prot flags : BitVec 32) : Prop :=
  (flags &&& MapFlag.locked ≠ 0 ∨ t.mm.lockFuture = true) ∧
    prot &&& (ProtFlag.read ||| ProtFlag.write) ≠ 0

instance (t : VmTask) (prot flags : BitVec 32) : Decidable (LocksPages t prot flags) :=
  inferInstanceAs (Decidable (_ ∧ _))

/-- A word that stands for an error. -/
def ErrorWord (w : Nat) : Prop := IsErrValue w ∧ w < 2 ^ 32

theorem errorWord_errWord {e : Nat} (he : e ≠ 0) (hlt : e < 4096) : ErrorWord (errWord e) := by
  unfold ErrorWord IsErrValue errWord
  omega

theorem ErrorWord.mod_ne {w : Nat} (h : ErrorWord w) : w % 4096 ≠ 0 := by
  unfold ErrorWord IsErrValue errWord at h
  omega

theorem mlockError_lt (lim : Limits) (t : VmTask) (flags vmFlags : BitVec 32) (len : Nat) :
    mlockError lim t flags vmFlags len < 4096 := by
  unfold mlockError
  split_ifs <;> decide

/-- Whether pages are locked, and whether they are accessed, can be seen from the arguments. -/
theorem locksPages_iff (lim : Limits) (t : VmTask) (prot flags : BitVec 32) (type : MapType) :
    (regionFlags lim flags (channelFlags t prot flags ||| type.flags) &&& VmFlag.locked ≠ 0 ∧
      regionFlags lim flags (channelFlags t prot flags ||| type.flags) &&&
        (VmFlag.read ||| VmFlag.write) ≠ 0) ↔ LocksPages t prot flags := by
  have hbit : ∀ i, VmFlag.noReserve.getLsbD i = false → type.flags.getLsbD i = false →
      (regionFlags lim flags (channelFlags t prot flags ||| type.flags)).getLsbD i =
        (channelFlags t prot flags).getLsbD i := by
    intro i hreserve htype
    unfold regionFlags
    split <;> simp [hreserve, htype]
  have hlock : (channelFlags t prot flags).getLsbD 13 = true ↔
      flags.getLsbD 13 = true ∨ t.mm.lockFuture = true := by
    rw [channelFlags_getLsbD]
    unfold MmStruct.defFlags
    cases t.mm.lockFuture <;>
      simp [calcVmProtBits, calcVmFlagBits, ProtFlag.read, ProtFlag.write, ProtFlag.exec,
        MapFlag.growsDown, MapFlag.denyWrite, MapFlag.executable, MapFlag.locked, VmFlag.locked]
  have haccess : ∀ i, i = 0 ∨ i = 1 → (channelFlags t prot flags).getLsbD i = prot.getLsbD i := by
    rintro i (rfl | rfl) <;>
    · rw [channelFlags_getLsbD]
      unfold MmStruct.defFlags VmTask.prot
      cases t.mm.lockFuture <;> split <;>
        simp [calcVmProtBits, calcVmFlagBits, ProtFlag.read, ProtFlag.write, ProtFlag.exec,
          MapFlag.growsDown, MapFlag.denyWrite, MapFlag.executable, MapFlag.locked,
          VmFlag.locked]
  unfold LocksPages
  rw [locked_iff, readWrite_iff, hbit 13 (by decide) (by cases type <;> decide), hlock,
    hbit 0 (by decide) (by cases type <;> decide), haccess 0 (.inl rfl),
    hbit 1 (by decide) (by cases type <;> decide), haccess 1 (.inr rfl),
    show flags &&& MapFlag.locked ≠ 0 ↔ flags.getLsbD 13 = true from locked_iff flags,
    show prot &&& (ProtFlag.read ||| ProtFlag.write) ≠ 0 ↔
      prot.getLsbD 0 = true ∨ prot.getLsbD 1 = true from readWrite_iff prot]

/-- What the checks accept: pages below `TASK_SIZE`. -/
structure PagesAt (place len : Nat) : Prop where
  word : len < 2 ^ 32
  aligned : place % 4096 = 0
  pages : pageAlign len ≠ 0
  bound : place + pageAlign len ≤ taskSize

namespace PagesAt

variable {place len : Nat}

/-- The length in whole pages. -/
theorem round (h : PagesAt place len) :
    len ≤ pageAlign len ∧ pageAlign len < len + 4096 ∧ pageAlign len % 4096 = 0 ∧
      pageAlign (pageAlign len) = pageAlign len := by
  have hword := h.word
  have hpages := h.pages
  have hbound := h.bound
  unfold taskSize at hbound
  unfold pageAlign at hpages hbound ⊢
  omega

theorem lt (h : PagesAt place len) : place + pageAlign len < 2 ^ 32 := by
  have hbound := h.bound
  unfold taskSize at hbound
  omega

theorem not_err (h : PagesAt place len) : ¬IsErrValue place := by
  have hlt := h.bound
  unfold taskSize at hlt
  unfold IsErrValue errWord
  omega

end PagesAt

/-- What `get_unmapped_area` comes to. -/
theorem findUnmappedArea_eq (search : Nat → Nat → Nat) (addr len : Nat) (flags : BitVec 32) :
    findUnmappedArea search addr (pageAlign len) flags =
      if IsErrValue (mmapAddr search addr len flags) then mmapAddr search addr len flags
      else if taskSize - pageAlign len < mmapAddr search addr len flags then errWord Errno.noMem
      else if mmapAddr search addr len flags % 4096 ≠ 0 then errWord Errno.inval
      else mmapAddr search addr len flags := rfl

section Target

variable (lim : Limits) {search : Nat → Nat → Nat} (hsearch : ∀ a n, search a n < 2 ^ 32)
  (t : VmTask) {addr : Nat} (haddr : addr < 2 ^ 32) {len : Nat} (hlen : len ≠ 0)
  (hlen' : len < 2 ^ 32) (prot flags : BitVec 32) (pgoff : Nat)

include hsearch haddr

theorem mmapAddr_lt (len : Nat) : mmapAddr search addr len flags < 2 ^ 32 := by
  unfold mmapAddr
  split_ifs
  · exact haddr
  · exact hsearch _ _

include hlen hlen'

/-- The checks end with an error, or with pages that can be mapped. -/
theorem mmapPlace_cases :
    (∃ e, placeError lim search t addr len prot flags pgoff = some e ∧ ErrorWord (errWord e) ∧
      mmapPlace lim search t addr len prot flags pgoff = errWord e) ∨
    (placeError lim search t addr len prot flags pgoff = none ∧
      mmapPlace lim search t addr len prot flags pgoff = mmapAddr search addr len flags ∧
      PagesAt (mmapAddr search addr len flags) len ∧ mapType flags ≠ none) := by
  have hplace := mmapAddr_lt hsearch haddr flags len
  have hnoMem := errorWord_errWord (show Errno.noMem ≠ 0 by decide) (by decide)
  have hinval := errorWord_errWord (show Errno.inval ≠ 0 by decide) (by decide)
  unfold mmapPlace placeError
  simp only [findUnmappedArea_eq, if_neg hlen]
  by_cases hpages : pageAlign len = 0 ∨ taskSize < pageAlign len
  · simp only [if_pos hpages]
    exact .inl ⟨_, rfl, hnoMem, rfl⟩
  by_cases hoverflow : wordAdd pgoff (pageAlign len / 4096) < pgoff
  · simp only [if_neg hpages, if_pos hoverflow]
    exact .inl ⟨_, rfl, errorWord_errWord (by decide) (by decide), rfl⟩
  by_cases hcount : lim.maxMapCount < t.mm.areas.length
  · simp only [if_neg hpages, if_neg hoverflow, if_pos hcount]
    exact .inl ⟨_, rfl, hnoMem, rfl⟩
  simp only [if_neg hpages, if_neg hoverflow, if_neg hcount]
  -- The next three checks are those of `get_unmapped_area`.
  by_cases herr : IsErrValue (mmapAddr search addr len flags)
  · have hword : errWord (2 ^ 32 - mmapAddr search addr len flags) =
        mmapAddr search addr len flags := by
      unfold errWord
      omega
    have hfailed : ErrorWord (mmapAddr search addr len flags) := ⟨herr, hplace⟩
    simp only [if_pos herr, if_pos hfailed.mod_ne]
    exact .inl ⟨_, rfl, hword.symm ▸ hfailed, hword.symm⟩
  by_cases hbound : taskSize - pageAlign len < mmapAddr search addr len flags
  · simp only [if_neg herr, if_pos hbound, if_pos hnoMem.mod_ne]
    exact .inl ⟨_, rfl, hnoMem, rfl⟩
  by_cases halign : mmapAddr search addr len flags % 4096 ≠ 0
  · simp only [if_neg herr, if_neg hbound, if_pos halign, if_pos hinval.mod_ne]
    exact .inl ⟨_, rfl, hinval, rfl⟩
  simp only [if_neg herr, if_neg hbound, if_neg halign]
  split_ifs with hlock htype hsec
  · exact .inl ⟨_, rfl, errorWord_errWord hlock (mlockError_lt ..), rfl⟩
  · exact .inl ⟨_, rfl, hinval, rfl⟩
  · exact .inl ⟨_, rfl, errorWord_errWord hsec (lim.fileMmap_lt ..), rfl⟩
  · exact .inr ⟨rfl, rfl, ⟨hlen', by omega, by omega, by omega⟩, htype⟩

/-- The target gets an error, or its pages if these are not faulted in. -/
theorem doAbsysMmapPgoff_cases (hok : AreasOk t.mm.areas) (hpop : ¬Populates flags) :
    (∃ e m, targetError lim search t addr len prot flags pgoff = some e ∧
      ErrorWord (errWord e) ∧
      doAbsysMmapPgoff lim search t addr len prot flags pgoff = some (errWord e, m)) ∨
    targetError lim search t addr len prot flags pgoff = none ∧
      PagesAt (mmapAddr search addr len flags) len ∧ mapType flags ≠ none ∧
      ((LocksPages t prot flags ∧
          doAbsysMmapPgoff lim search t addr len prot flags pgoff = none) ∨
        ¬LocksPages t prot flags ∧
          ∃ m, doAbsysMmapPgoff lim search t addr len prot flags pgoff =
            some (mmapAddr search addr len flags, m) ∧ AreasOk m.areas) := by
  unfold targetError doAbsysMmapPgoff
  rcases mmapPlace_cases lim hsearch t haddr hlen hlen' prot flags pgoff with
    ⟨e, herr, hword, hplace⟩ | ⟨hnone, hplace, hplaced, htype⟩
  · simp only [herr, hplace, if_pos hword.mod_ne, Option.some_or]
    exact .inl ⟨e, t.mm, rfl, hword, rfl⟩
  simp only [hnone, hplace, Option.none_or, if_neg (not_not.mpr hplaced.aligned)]
  generalize mmapAddr search addr len flags = place at hplaced ⊢
  obtain ⟨type, htype'⟩ := Option.ne_none_iff_exists'.mp htype
  simp only [htype', absysMmapRegion]
  -- from here on the old areas of the range are gone
  rcases hclear : clearOldMaps lim.maxMapCount t.mm place (pageAlign len) with ⟨e, m⟩
  obtain ⟨hok', hflags⟩ := clearOldMaps_spec hok hplaced.lt hplaced.round.2.2.2 hclear
  have hnoMem := errorWord_errWord (show Errno.noMem ≠ 0 by decide) (by decide)
  by_cases he : e ≠ 0
  · simp only [if_pos he, if_pos (Or.inl he)]
    exact .inl ⟨_, m, rfl, hnoMem, rfl⟩
  by_cases hroom : ¬mayExpandVm lim m (pageAlign len / 4096)
  · simp only [if_neg he, if_pos hroom, if_pos (Or.inr hroom)]
    exact .inl ⟨_, m, rfl, hnoMem, rfl⟩
  simp only [if_neg he, if_neg hroom, if_neg (not_or.mpr ⟨he, hroom⟩), wordAdd_eq hplaced.lt]
  refine .inr ⟨trivial, hplaced, by simp, ?_⟩
  -- locked pages that can be accessed are populated, and that is a bug
  by_cases hlocks : LocksPages t prot flags
  · have hboth := (locksPages_iff lim t prot flags type).mpr hlocks
    rw [lockOrPopulate_access lim _ _ _ hboth.2 hpop, if_pos hboth.1]
    exact .inl ⟨hlocks, rfl⟩
  · obtain ⟨k, hlock⟩ := lockOrPopulate_reserved lim { m with
      areas := mapArea m.areas place (place + pageAlign len)
        (regionFlags lim flags (channelFlags t prot flags ||| type.flags)) (type.pgoff place)
      totalVm := m.totalVm + pageAlign len / 4096 } place (pageAlign len) hpop
      (fun h => hlocks ((locksPages_iff lim t prot flags type).mp h))
    rw [hlock]
    refine .inr ⟨hlocks, _, rfl, ?_⟩
    have hfree : ∀ x, place ≤ x → x < place + pageAlign len → flagsAt m.areas x = none := by
      intro x hx hxs
      rw [hflags (not_not.mp he) x, if_pos ⟨hx, hxs⟩]
    have hpages := hplaced.pages
    have halign := hplaced.aligned
    have hround := hplaced.round
    exact (hok'.mapArea (type.pgoff place) (show place < place + pageAlign len by omega) hfree
      (regionFlags_linear lim flags
        (or_linear (channelFlags_linear t prot flags) type.flags_linear))).2.2 halign (by omega)
      hplaced.bound

end Target

/-! ### An error for an address -/

/-- Nothing happens to a task to which the error `e` is propagated: the sum of its word and
    the length wraps around, or the task is refused. -/
def Untouched (lim : Limits) (t : VmTask) (e len : Nat) (prot flags : BitVec 32) : Prop :=
  e ≤ len ∨ mlockError lim t flags (reserveFlags t prot flags) len ≠ 0 ∨
  mapType flags = none ∨ lim.fileMmap prot (t.prot prot) flags (errWord e) ≠ 0 ∨
  ¬mayExpandVm lim t.mm (len / 4096)

/-- No area ends behind an address that is an error. -/
theorem findVmaIntersection_error {l : List VmArea} (hl : AreasOk l) {w : Nat} (hw : ErrorWord w)
    (stop : Nat) : findVmaIntersection l w stop = none := by
  have hbelow : ∀ v ∈ l, decide (v.stop ≤ w) = true := fun v hv => by
    have := hl.bounded v hv
    unfold taskSize at this
    unfold ErrorWord IsErrValue errWord at hw
    simp only [decide_eq_true_eq]
    omega
  unfold findVmaIntersection meeting above
  rw [List.dropWhile_eq_nil_iff.mpr hbelow]
  rfl

theorem doAbsysVmaPropagate_error (lim : Limits) {t : VmTask} {e len : Nat}
    (prot : BitVec 32) {flags : BitVec 32} (hok : AreasOk t.mm.areas) (hw : ErrorWord (errWord e))
    (hlen : len ≠ 0) (hlen' : len < 2 ^ 32) (hpop : ¬Populates flags) :
    ∃ r m, doAbsysVmaPropagate lim t (errWord e) len prot flags = some (r, m) ∧
      (m = t.mm ↔ Untouched lim t e len prot flags) := by
  -- an error as the address: no area reaches that high, and the sum may wrap
  have hwraps : 2 ^ 32 ≤ errWord e + len ↔ e ≤ len := by
    unfold ErrorWord IsErrValue errWord at hw
    unfold errWord
    omega
  unfold Untouched
  rw [← hwraps]
  generalize errWord e = w at hw ⊢
  unfold doAbsysVmaPropagate
  rw [if_neg hlen]
  -- the tests come in the order of `Untouched`
  by_cases hlock : mlockError lim t flags (reserveFlags t prot flags) len ≠ 0
  · rw [if_pos hlock]
    exact ⟨_, _, rfl, iff_of_true rfl (.inr (.inl hlock))⟩
  rw [if_neg hlock]
  rcases htype : mapType flags with _ | type
  · exact ⟨_, _, rfl, iff_of_true rfl (.inr (.inr (.inl rfl)))⟩
  simp only
  by_cases hsec : lim.fileMmap prot (t.prot prot) flags w ≠ 0
  · rw [if_pos hsec]
    exact ⟨_, _, rfl, iff_of_true rfl (.inr (.inr (.inr (.inl hsec))))⟩
  rw [if_neg hsec]
  unfold fillInterval
  simp only [walkAreas_of_none (findVmaIntersection_error hok hw _)]
  by_cases hwrap : 2 ^ 32 ≤ w + len
  · have hle : wordAdd w len ≤ w := by
      unfold wordAdd
      have := hw.2
      omega
    rw [if_pos hle]
    exact ⟨_, _, rfl, iff_of_true rfl (.inl hwrap)⟩
  have hend : w + len < 2 ^ 32 := by omega
  have hfree : ∀ x, w ≤ x → x < w + len → flagsAt t.mm.areas x = none := fun x hx hxs =>
    flagsAt_eq_none_iff.mpr
      (get_of_meeting_eq_none hok.ordered (findVmaIntersection_error hok hw (w + len)) hx hxs)
  obtain ⟨k, hregion⟩ := propagateRegion_gap (reserving_hole lim t prot type hpop) hend (by omega)
    hok.ordered hfree
  rw [if_neg (by rw [wordAdd_eq hend]; omega), hregion]
  by_cases hroom : t.mm.totalVm + len / 4096 ≤ lim.asLimit
  · rw [if_pos hroom]
    refine ⟨_, _, rfl, iff_of_false (fun hsame => ?_) ?_⟩
    · -- The address was not mapped, and now it is.
      obtain ⟨-, hflags, -⟩ := hok.mapArea (type.pgoff w) (show w < w + len by omega) hfree
        (holeFlags_linear lim t prot flags type)
      have hnow := hflags w
      rw [if_pos ⟨Nat.le_refl _, by omega⟩] at hnow
      have hareas := congrArg MmStruct.areas hsame
      simp only [holeFlags] at hnow hareas
      rw [hareas, hfree w (Nat.le_refl _) (by omega)] at hnow
      exact absurd hnow (by simp)
    · rintro (h | h | h | h | h)
      · exact hwrap h
      · exact hlock h
      · cases h
      · exact hsec h
      · exact h hroom
  · rw [if_neg hroom]
    exact ⟨_, _, rfl, iff_of_true rfl (.inr (.inr (.inr (.inr hroom))))⟩

/-! ### An address -/

/-- The areas begin and end on page boundaries. -/
def PageAligned (l : List VmArea) : Prop := ∀ v ∈ l, v.start % 4096 = 0 ∧ v.stop % 4096 = 0

/-- The pages are mapped in a task to which they are propagated: they were already, or the
    task is not refused, the pages that are missing fit, and the last page is mapped or else
    none is and the length is one of pages. -/
def Covers (lim : Limits) (t : VmTask) (w len : Nat) (prot flags : BitVec 32) : Prop :=
  AllMapped t.mm.areas w (pageAlign len) ∨
  mlockError lim t flags (reserveFlags t prot flags) len = 0 ∧
    lim.fileMmap prot (t.prot prot) flags w = 0 ∧
    HolesFit lim t.mm w (pageAlign len / 4096) ∧
    (flagsAt t.mm.areas (w + len - 1) ≠ none ∨
      len % 4096 = 0 ∧ ∀ x, w ≤ x → x < w + len → flagsAt t.mm.areas x = none)

/-- Areas of pages have all of a page or nothing. -/
theorem AreasOk.same_page {l : List VmArea} (hl : AreasOk l) {x y : Nat}
    (h : x / 4096 = y / 4096) (hx : flagsAt l x = none) : flagsAt l y = none := by
  rw [flagsAt_eq_none_iff, get_eq_none_iff] at hx ⊢
  intro v hv hvy
  have haligned := hl.aligned v hv
  have := hvy.1
  have := hvy.2
  exact hx v hv ⟨by omega, by omega⟩

/-- The pages are mapped after a call, and the areas are still ones of pages. -/
def MappedAfter (w len : Nat) (result : Option (Nat × MmStruct)) : Prop :=
  ∃ r m, result = some (r, m) ∧ AllMapped m.areas w (pageAlign len) ∧ PageAligned m.areas

/-- A call that changes nothing is right only if there was nothing to do. -/
theorem mappedAfter_self_iff {m : MmStruct} (hm : AreasOk m.areas) (w len e : Nat) :
    MappedAfter w len (some (e, m)) ↔ AllMapped m.areas w (pageAlign len) := by
  constructor
  · rintro ⟨r, m', heq, hall, -⟩
    cases heq
    exact hall
  · exact fun h => ⟨e, m, rfl, h, hm.aligned⟩

/-- After a loop that came to the end, the pages are mapped if the holes fit. -/
theorem Filling.allMapped_iff {lim : Limits} {m₀ m : MmStruct} {f : BitVec 32} {w len a : Nat}
    (h : Filling lim m₀ f w (w + len) a m) (hplaced : PagesAt w len) (ha : w + len ≤ a) :
    AllMapped m.areas w (pageAlign len) ↔ HolesFit lim m₀ w (pageAlign len / 4096) := by
  have haligned := h.aligned
  have hw := hplaced.aligned
  have hround := hplaced.round
  have hfit := h.holesFit_iff (n := pageAlign len / 4096) hw (by omega) (by omega)
  constructor
  · intro hall
    by_contra hshort
    obtain ⟨x, hx, -, hxs, hnone⟩ := h.short (fun h => hshort (hfit.mp h))
    exact hall x hx (by omega) hnone
  · intro hroom x hx hxs
    rcases hget : flagsAt m₀.areas x with _ | f
    · rw [(h.fits (hfit.mpr hroom)).2 x hx (by omega) hget]
      simp
    · rw [h.keep x (.inl (by simp [hget])), hget]
      simp

/-- Where nothing was mapped, the pages are mapped if the length is one of pages and they
    fit. -/
theorem propagateRegion_mappedAfter_iff {lim : Limits} {m : MmStruct} {w len : Nat}
    {flags vmFlags : BitVec 32} (pgoff : Nat) (hres : Reserving lim flags vmFlags)
    (hok : AreasOk m.areas) (hplaced : PagesAt w len) (hlen : len ≠ 0)
    (hfree : ∀ x, w ≤ x → x < w + len → flagsAt m.areas x = none) :
    MappedAfter w len (propagateRegion lim m w len flags vmFlags pgoff) ↔
      len % 4096 = 0 ∧ HolesFit lim m w (pageAlign len / 4096) := by
  have hw := hplaced.aligned
  have hround := hplaced.round
  have hlt := hplaced.lt
  have hbound := hplaced.bound
  obtain ⟨k, hregion⟩ := propagateRegion_gap hres (by omega) (by omega)
    hok.ordered hfree
  obtain ⟨-, hflags, hmap⟩ := hok.mapArea pgoff (show w < w + len by omega) hfree hres.linear
  have hfirst : ¬AllMapped m.areas w (pageAlign len) := fun hall =>
    hall w (Nat.le_refl _) (by omega) (hfree w (Nat.le_refl _) (by omega))
  rw [hregion]
  by_cases hunits : len % 4096 = 0
  · have heqlen : pageAlign len = len := by omega
    have hcount : holes m.areas w (pageAlign len / 4096) = len / 4096 := by
      rw [heqlen]
      exact holes_free fun i hi => hfree _ (by omega) (by omega)
    have hfit : HolesFit lim m w (pageAlign len / 4096) ↔
        m.totalVm + len / 4096 ≤ lim.asLimit := by
      unfold HolesFit
      rw [hcount]
      omega
    rw [hfit]
    split_ifs with hroom
    · refine iff_of_true ⟨_, _, rfl, fun x hx hxs => ?_, ?_⟩ ⟨hunits, hroom⟩
      · rw [hflags x, if_pos ⟨hx, by omega⟩]
        simp
      · exact (hmap hw (by omega) (by omega)).aligned
    · rw [mappedAfter_self_iff hok]
      exact iff_of_false hfirst fun h => hroom h.2
  · -- The byte behind the area is in the same page, and it is not mapped.
    have hnext : flagsAt m.areas (w + len) = none :=
      hok.same_page (x := w + len - 1) (by omega) (hfree _ (by omega) (by omega))
    refine iff_of_false ?_ fun h => hunits h.1
    split_ifs with hroom
    · rintro ⟨r, m', hm', hall, -⟩
      cases hm'
      have hnow := hflags (w + len)
      rw [if_neg (by omega), hnext] at hnow
      exact hall (w + len) (by omega) (by omega) hnow
    · rw [mappedAfter_self_iff hok]
      exact hfirst

/-- The pages are mapped in a task to which they are propagated if it covers them. -/
theorem doAbsysVmaPropagate_covers_iff (lim : Limits) {t : VmTask} {w len : Nat}
    (prot : BitVec 32) {flags : BitVec 32} (hok : AreasOk t.mm.areas) (hplaced : PagesAt w len)
    (hlen : len ≠ 0) (htype : mapType flags ≠ none) (hpop : ¬Populates flags) :
    MappedAfter w len (doAbsysVmaPropagate lim t w len prot flags) ↔
      Covers lim t w len prot flags := by
  have hw := hplaced.aligned
  have hround := hplaced.round
  have hlt := hplaced.lt
  unfold doAbsysVmaPropagate Covers
  rw [if_neg hlen]
  by_cases hlock : mlockError lim t flags (reserveFlags t prot flags) len ≠ 0
  · rw [if_pos hlock, mappedAfter_self_iff hok]
    exact ⟨.inl, fun h => h.resolve_right fun h => hlock h.1⟩
  rw [if_neg hlock]
  obtain ⟨type, htype'⟩ := Option.ne_none_iff_exists'.mp htype
  simp only [htype']
  by_cases hsec : lim.fileMmap prot (t.prot prot) flags w ≠ 0
  · rw [if_pos hsec, mappedAfter_self_iff hok]
    exact ⟨.inl, fun h => h.resolve_right fun h => hsec h.2.1⟩
  rw [if_neg hsec]
  have hlock' := not_not.mp hlock
  have hsec' := not_not.mp hsec
  have hres := reserving_hole lim t prot type hpop
  rcases fillInterval_cases (type.pgoff w) hok hw (show 0 < len by omega)
      (show w + len < 2 ^ 32 by omega) hres with
    ⟨a, m, heq, hfill, ha, hlast⟩ | ⟨heq, hfree⟩ | ⟨heq, htail, x, hx, hxs, hmapped⟩
  -- areas up to the end, none at all, or a hole at the end
  · have hiff := hfill.allMapped_iff hplaced ha
    rw [heq, mappedAfter_self_iff hfill.ok, hiff]
    constructor
    · exact fun hfit => .inr ⟨hlock', hsec', hfit, .inl hlast⟩
    · rintro (hall | h)
      · exact .inl (holes_mapped fun i hi => hall _ (by omega) (by omega))
      · exact h.2.2.1
  · have hlast : flagsAt t.mm.areas (w + len - 1) = none := hfree _ (by omega) (by omega)
    rw [heq, propagateRegion_mappedAfter_iff _ hres hok hplaced hlen hfree]
    constructor
    · exact fun h => .inr ⟨hlock', hsec', h.2, .inr ⟨h.1, hfree⟩⟩
    · rintro (hall | ⟨-, -, hfit, hlast' | hunits⟩)
      · exact absurd hlast (hall _ (by omega) (by omega))
      · exact absurd hlast hlast'
      · exact ⟨hunits.1, hfit⟩
  · refine iff_of_false ?_ ?_
    · rintro ⟨r, m, hm, -⟩
      rw [heq] at hm
      cases hm
    · rintro (hall | ⟨-, -, -, hlast | hfree⟩)
      · exact hall _ (by omega) (by omega) htail
      · exact hlast htail
      · exact hmapped (hfree.2 x hx hxs)

/-! ### The group -/

/-- The assertion of one task is the end of the call. -/
theorem propagateOthers_eq_none {lim : Limits} {w len : Nat} {prot flags : BitVec 32}
    {us : List Nat} (hnodup : us.Nodup) {g : VmGroup} {u : Nat} (hu : u ∈ us)
    (h : doAbsysVmaPropagate lim (g.task u) w len prot flags = none) :
    propagateOthers lim w len prot flags us g = none := by
  induction us generalizing g with
  | nil => simp at hu
  | cons u' us ih =>
    obtain ⟨hu', hus⟩ := List.nodup_cons.mp hnodup
    rw [propagateOthers]
    rcases List.mem_cons.mp hu with rfl | hu
    · rw [h]
    · rcases doAbsysVmaPropagate lim (g.task u') w len prot flags with _ | r
      · rfl
      · refine ih hus hu ?_
        rwa [g.setMm_task_of_ne (ne_of_mem_of_not_mem hu hu')]

/-- Otherwise all tasks are served, each for itself. -/
theorem propagateOthers_eq_some {lim : Limits} {w len : Nat} {prot flags : BitVec 32}
    {us : List Nat} (hnodup : us.Nodup) {g : VmGroup} {f : Nat → Nat × MmStruct}
    (h : ∀ u ∈ us, doAbsysVmaPropagate lim (g.task u) w len prot flags = some (f u)) :
    ∃ g', propagateOthers lim w len prot flags us g = some g' ∧
      (∀ u ∈ us, g'.task u = { g.task u with mm := (f u).2 }) ∧
      ∀ u, u ∉ us → g'.task u = g.task u := by
  induction us generalizing g with
  | nil => exact ⟨g, rfl, by simp, fun _ _ => rfl⟩
  | cons u us ih =>
    obtain ⟨hu, hus⟩ := List.nodup_cons.mp hnodup
    have hkeep : ∀ w ∈ us, (g.setMm u (f u).2).task w = g.task w := fun w hw =>
      g.setMm_task_of_ne (ne_of_mem_of_not_mem hw hu) _
    obtain ⟨g', hrest, hin, hout⟩ := ih hus (g := g.setMm u (f u).2) fun w hw => by
      rw [hkeep w hw]
      exact h w (by simp [hw])
    refine ⟨g', ?_, fun w hw => ?_, fun w hw => ?_⟩
    · simp only [propagateOthers, h u (by simp), hrest]
    · rcases List.mem_cons.mp hw with rfl | hw
      · rw [hout w hu, g.setMm_task_self]
      · rw [hin w hw, hkeep w hw]
    · rw [List.mem_cons, not_or] at hw
      rw [hout w hw.2, g.setMm_task_of_ne hw.1]

/-- What is expected of a call that returns `r`. -/
structure MmapPromise (g g' : VmGroup) (t r len : Nat) : Prop where
  failed : IsErrValue r → ∀ u ∈ g.ring, u ≠ t → g'.task u = g.task u
  mapped : ¬IsErrValue r → ∀ u ∈ g.ring, u ≠ t → AllMapped (g'.areas u) r (pageAlign len)
  aligned : ¬IsErrValue r → ∀ u ∈ g.ring, PageAligned (g'.areas u)

/-- The condition on the group. If the target is refused, then nothing happens to the others.
    Otherwise its pages need not be faulted in, and the others cover them. -/
def MmapOk (lim : Limits) (search : Nat → Nat → Nat) (g : VmGroup) (t addr len : Nat)
    (prot flags : BitVec 32) (pgoff : Nat) : Prop :=
  match targetError lim search (g.task t) addr len prot flags pgoff with
  | some e => ∀ u ∈ g.ring, u ≠ t → Untouched lim (g.task u) e len prot flags
  | none => ¬LocksPages (g.task t) prot flags ∧ ∀ u ∈ g.ring, u ≠ t →
      Covers lim (g.task u) (mmapAddr search addr len flags) len prot flags

/-- The other tasks have got what the propagation of `w` leaves of them, and the target the
    areas of `m`. -/
structure Propagated (lim : Limits) (g g' : VmGroup) (t w len : Nat) (prot flags : BitVec 32)
    (m : MmStruct) : Prop where
  others : ∀ u ∈ g.ring, u ≠ t → ∃ r m', doAbsysVmaPropagate lim (g.task u) w len prot flags =
    some (r, m') ∧ g'.task u = { g.task u with mm := m' }
  target : g'.areas t = m.areas

/-- The other tasks are independent of each other. -/
theorem propagateOthers_cases (lim : Limits) {g : VmGroup} {t : Nat} (ht : t ∈ g.ring)
    (m : MmStruct) (w len : Nat) (prot flags : BitVec 32) :
    (propagateOthers lim w len prot flags (g.others t) (g.setMm t m) = none ∧
      ∃ u ∈ g.ring, u ≠ t ∧ doAbsysVmaPropagate lim (g.task u) w len prot flags = none) ∨
    ∃ g', propagateOthers lim w len prot flags (g.others t) (g.setMm t m) = some g' ∧
      Propagated lim g g' t w len prot flags m := by
  have hnodup := VmGroup.nodup_others ht
  have hmem : ∀ u, u ∈ g.others t ↔ u ∈ g.ring ∧ u ≠ t := fun u => VmGroup.mem_others ht
  have hkeep : ∀ u ∈ g.others t, (g.setMm t m).task u = g.task u := fun u hu =>
    g.setMm_task_of_ne ((hmem u).mp hu).2 m
  -- the tasks are done one by one, so one bug ends the call
  by_cases hbug : ∃ u ∈ g.others t, doAbsysVmaPropagate lim (g.task u) w len prot flags = none
  · obtain ⟨u, hu, hnone⟩ := hbug
    refine .inl ⟨propagateOthers_eq_none hnodup hu ?_, u, ((hmem u).mp hu).1, ((hmem u).mp hu).2,
      hnone⟩
    rw [hkeep u hu, hnone]
  let f := fun u => (doAbsysVmaPropagate lim (g.task u) w len prot flags).getD (0, m)
  have hf : ∀ u ∈ g.others t,
      doAbsysVmaPropagate lim (g.task u) w len prot flags = some (f u) := by
    intro u hu
    rcases hcase : doAbsysVmaPropagate lim (g.task u) w len prot flags with _ | r
    · exact absurd ⟨u, hu, hcase⟩ hbug
    · simp only [f, hcase, Option.getD_some]
  obtain ⟨g', hg', hin, hout⟩ := propagateOthers_eq_some hnodup (g := g.setMm t m) (f := f)
    fun u hu => by rw [hkeep u hu, hf u hu]
  refine .inr ⟨g', hg', fun u hu hne => ?_, ?_⟩
  · have hu' := (hmem u).mpr ⟨hu, hne⟩
    have htask := hin u hu'
    rw [hkeep u hu'] at htask
    exact ⟨_, _, hf u hu', htask⟩
  · rw [VmGroup.areas, hout t fun h => ((hmem t).mp h).2 rfl, g.setMm_task_self]

namespace Propagated

variable {lim : Limits} {g g' : VmGroup} {t w len : Nat} {prot flags : BitVec 32} {m : MmStruct}

/-- The target has failed. -/
theorem promise_error {e : Nat} (h : Propagated lim g g' t (errWord e) len prot flags m)
    (hok : ∀ u ∈ g.ring, AreasOk (g.areas u)) (hw : ErrorWord (errWord e)) (hlen : len ≠ 0)
    (hlen' : len < 2 ^ 32) (hpop : ¬Populates flags) :
    MmapPromise g g' t (errWord e) len ↔
      ∀ u ∈ g.ring, u ≠ t → Untouched lim (g.task u) e len prot flags := by
  have hiff : ∀ u ∈ g.ring, u ≠ t →
      (g'.task u = g.task u ↔ Untouched lim (g.task u) e len prot flags) := by
    intro u hu hne
    obtain ⟨r, m₁, hone, htask⟩ := h.others u hu hne
    obtain ⟨r', m₂, hone', hiff⟩ :=
      doAbsysVmaPropagate_error lim prot (hok u hu) hw hlen hlen' hpop
    rw [hone, Option.some.injEq, Prod.mk.injEq] at hone'
    rw [htask, ← hiff, hone'.2]
    exact ⟨fun h => congrArg VmTask.mm h, fun h => by rw [h]⟩
  constructor
  · exact fun hp u hu hne => (hiff u hu hne).mp (hp.failed hw.1 u hu hne)
  · exact fun hothers => ⟨fun _ u hu hne => (hiff u hu hne).mpr (hothers u hu hne),
      fun hn => absurd hw.1 hn, fun hn => absurd hw.1 hn⟩

/-- The target has got the pages at `w`. -/
theorem promise_mapped (h : Propagated lim g g' t w len prot flags m)
    (hok : ∀ u ∈ g.ring, AreasOk (g.areas u)) (hm : AreasOk m.areas) (hplaced : PagesAt w len)
    (hlen : len ≠ 0) (htype : mapType flags ≠ none) (hpop : ¬Populates flags) :
    MmapPromise g g' t w len ↔
      ∀ u ∈ g.ring, u ≠ t → Covers lim (g.task u) w len prot flags := by
  have hnerr := hplaced.not_err
  have hiff : ∀ u ∈ g.ring, u ≠ t →
      (AllMapped (g'.areas u) w (pageAlign len) ∧ PageAligned (g'.areas u) ↔
        Covers lim (g.task u) w len prot flags) := by
    intro u hu hne
    obtain ⟨r, m₁, hone, htask⟩ := h.others u hu hne
    rw [← doAbsysVmaPropagate_covers_iff lim prot (hok u hu) hplaced hlen htype hpop,
      hone, VmGroup.areas, htask]
    constructor
    · exact fun h => ⟨_, _, rfl, h⟩
    · rintro ⟨r', m₂, heq, h⟩
      cases heq
      exact h
  constructor
  · exact fun hp u hu hne =>
      (hiff u hu hne).mp ⟨hp.mapped hnerr u hu hne, hp.aligned hnerr u hu⟩
  · intro hothers
    have hcovers := fun u hu hne => (hiff u hu hne).mpr (hothers u hu hne)
    refine ⟨fun herr => absurd herr hnerr, fun _ u hu hne => (hcovers u hu hne).1,
      fun _ u hu => ?_⟩
    by_cases hut : u = t
    · rw [hut, h.target]
      exact hm.aligned
    · exact (hcovers u hu hut).2

end Propagated

/-- The two flags that are ignored are not among those of the mask. -/
theorem mmapFlags_and (flags : BitVec 32) {mask : BitVec 32}
    (h : ~~~(MapFlag.executable ||| MapFlag.denyWrite) &&& mask = mask) :
    mmapFlags flags &&& mask = flags &&& mask := by
  unfold mmapFlags
  rw [BitVec.and_assoc, h]

/-- Whatever word the target comes to, the other tasks have got it, or the assertion of one of
    them has failed. -/
theorem sysAbsysMmap_result_iff {lim : Limits} {search : Nat → Nat → Nat} {g : VmGroup}
    {t addr len : Nat} {prot flags : BitVec 32} {pgoff w : Nat} {m : MmStruct} (ht : t ∈ g.ring)
    (hanon : flags &&& MapFlag.anonymous ≠ 0)
    (htarget : doAbsysMmapPgoff lim search (g.task t) addr len prot (mmapFlags flags) pgoff =
      some (w, m)) {Ok : Nat → Prop}
    (hbug : ∀ u ∈ g.ring, u ≠ t →
      doAbsysVmaPropagate lim (g.task u) w len prot (mmapFlags flags) = none → ¬Ok u)
    (hpromise : ∀ g', Propagated lim g g' t w len prot (mmapFlags flags) m →
      (MmapPromise g g' t w len ↔ ∀ u ∈ g.ring, u ≠ t → Ok u)) :
    (∃ r g', sysAbsysMmap lim search g t addr len prot flags pgoff = some (r, g') ∧
      MmapPromise g g' t r len) ↔ ∀ u ∈ g.ring, u ≠ t → Ok u := by
  unfold sysAbsysMmap
  simp only [mmapFlags_and flags (show _ &&& MapFlag.anonymous = _ by decide), if_neg hanon,
    if_pos ht, htarget, Option.bind_some]
  rcases propagateOthers_cases lim ht m w len prot (mmapFlags flags) with
    ⟨hnone, u, hu, hne, hone⟩ | ⟨g', hsome, hprop⟩
  · rw [hnone]
    exact iff_of_false (by simp) fun hothers => hbug u hu hne hone (hothers u hu hne)
  · rw [hsome, ← hpromise g' hprop]
    constructor
    · rintro ⟨r, g'', heq, h⟩
      cases heq
      exact h
    · exact fun h => ⟨w, g', rfl, h⟩

-- With a page address the same byte is mapped, and the area in the other task ends behind it.
example : (sysAbsysMmap roomyLimits (fun _ _ => 0x40000000) (pairOf [] []) 1 0x80000000 1
    VmFlag.read (MapFlag.priv ||| MapFlag.anonymous ||| MapFlag.fixed) 0).map
      (fun s => (s.1, s.2.areas 2)) =
    some (0x80000000, [anonArea 0x80000000 0x80000001 0x20000070#32 0x80000]) := by
  decide +kernel

end ArbiterThread
