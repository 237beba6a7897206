import ArbiterThread.Kernel.VmCalls

/-!
# Changing the Protection of Areas

`sys_absys_mprotect` walks over the areas of a task from `start` on and gives each of them
the access bits asked for. `mprotect_fixup` does one area, or the part of it that lies
in the interval: the part is merged with the areas next to it if it has become like
them, and is split off otherwise.

The interval is not always the one that was given: with `PROT_GROWSDOWN` it begins
where the first area does, and with `PROT_GROWSUP` it ends there.

The loop notes in the log that an area is not the arbiter's, and then changes it like
the others. So the areas of the system keep their flags only if they have the access
bits already.

All that a turn of the loop can do to the list is in `Reshaped`, and what that means for
the flags at an address in `Recast`. Areas that are merged agree on all bits but
`VM_CAN_NONLINEAR`, so nobody else's access bits change.

## Main definitions

* `mprotectFixup`: One area.
* `protectAreas`: The loop.
* `sysAbsysMprotect`: The call.
* `MprotectPromise`: What the call is for.
* `Harmless`: No page that is walked over without being meant needs a change.

## Theorems

* `mprotectFixup_turned`: All that splitting and merging can do to a part of an area.
* `Turned.recast`: A turn of the loop changes the flags of its part only.
* `protectAreas_walked`: What the loop does.
* `sysAbsysMprotect_protected_iff`: When the call does what it is for.
-/

namespace ArbiterThread

open Span

/-! ### The code -/

/-- What the kernel asks before it changes a protection. -/
structure ProtectLimits where
  /-- `sysctl_max_map_count` -/
  maxMapCount : Nat
  /-- `security_vm_enough_memory` for a number of pages -/
  enoughMemory : Nat → Bool
  /-- the error of `security_file_mprotect` for the area and the protections, or `0` -/
  fileMprotect : VmArea → BitVec 32 → BitVec 32 → Nat

/-- `split_vma` with `new_below`, unless the area begins at the address. -/
def splitBelow (maxMapCount : Nat) (f : Focus) (addr : Nat) : Option Focus :=
  if addr = f.area.start then some f
  else if maxMapCount ≤ f.areas.length then none
  else some ⟨f.before ++ [{ f.area with stop := addr }],
    resizeArea f.area addr f.area.stop (f.area.val.pgoff + (addr - f.area.start) / 4096), f.after⟩

/-- `split_vma` without `new_below`, unless the area ends at the address. -/
def splitAbove (maxMapCount : Nat) (f : Focus) (addr : Nat) : Option Focus :=
  if addr = f.area.stop then some f
  else if maxMapCount ≤ f.areas.length then none
  else some ⟨f.before, { f.area with stop := addr },
    resizeArea f.area addr f.area.stop (f.area.val.pgoff + (addr - f.area.start) / 4096) :: f.after⟩

def Focus.setFlags (f : Focus) (flags : BitVec 32) : Focus :=
  { f with area := { f.area with val := { f.area.val with flags := flags } } }

/-- Where the merging takes place: behind the area if the part is not its beginning, and else
    in front of it. -/
def Focus.place (f : Focus) (start : Nat) : Place :=
  if f.area.start < start then ⟨f.before, some f.area, f.after⟩
  else ⟨f.before.dropLast, f.before.getLast?, f.area :: f.after⟩

/-- A private area that becomes writable has to be accounted for. -/
def Charged (oldflags newflags : BitVec 32) : Prop :=
  newflags &&& VmFlag.write ≠ 0 ∧
    oldflags &&& (VmFlag.account ||| VmFlag.write ||| VmFlag.hugeTlb ||| VmFlag.shared |||
      VmFlag.noReserve) = 0

instance (oldflags newflags : BitVec 32) : Decidable (Charged oldflags newflags) :=
  inferInstanceAs (Decidable (_ ∧ _))

def chargedFlags (oldflags newflags : BitVec 32) : BitVec 32 :=
  if Charged oldflags newflags then newflags ||| VmFlag.account else newflags

/-- The result is an error number, or `0`, and the area that `*pprev` points to. -/
def mprotectFixup (lim : ProtectLimits) (f : Focus) (start stop : Nat) (newflags : BitVec 32) :
    Nat × Focus :=
  let v := f.area
  if newflags = v.val.flags then (0, f)
  else if Charged v.val.flags newflags ∧ lim.enoughMemory ((stop - start) / 4096) = false then
    (Errno.noMem, f)
  else
    let flags := chargedFlags v.val.flags newflags
    match vmaMerge (f.place start) start stop flags v.val.anonVma v.val.file
        (v.val.pgoff + (start - v.start) / 4096) with
    | some g => (0, g.setFlags flags)
    | none =>
      match splitBelow lim.maxMapCount f start with
      | none => (Errno.noMem, f)
      | some f₁ =>
        match splitAbove lim.maxMapCount f₁ stop with
        | none => (Errno.noMem, f₁)
        | some f₂ => (0, f₂.setFlags flags)

/-- The flags with other access bits. -/
def withAccess (vmFlags flags : BitVec 32) : BitVec 32 := vmFlags ||| (flags &&& ~~~VmFlag.access)

/-- The access bits are among those that the area may have. -/
def MayAccess (flags : BitVec 32) : Prop := flags &&& ~~~(flags >>> 4) &&& VmFlag.access = 0

instance (flags : BitVec 32) : Decidable (MayAccess flags) := inferInstanceAs (Decidable (_ = _))

/-- The loop, from an area on that `nstart` is in. An area of the system makes no difference. -/
def protectAreas (lim : ProtectLimits) (reqprot prot : BitVec 32) (stop : Nat) (f : Focus)
    (nstart : Nat) : Nat × List VmArea :=
  let newflags := withAccess (calcVmProtBits prot) f.area.val.flags
  if ¬MayAccess newflags then (Errno.access, f.areas)
  else if lim.fileMprotect f.area reqprot prot ≠ 0 then
    (lim.fileMprotect f.area reqprot prot, f.areas)
  else
    let tmp := min f.area.stop stop
    let r := mprotectFixup lim f nstart tmp newflags
    if r.1 ≠ 0 then (r.1, r.2.areas)
    else
      let nstart' := max tmp r.2.area.stop
      if _hend : stop ≤ nstart' then (0, r.2.areas)
      else
        match r.2.after with
        | [] => (Errno.noMem, r.2.areas)
        | v :: rest =>
          -- The second part is always true: no area is empty.
          if _hv : v.start = nstart' ∧ nstart < nstart' then
            protectAreas lim reqprot prot stop ⟨r.2.before ++ [r.2.area], v, rest⟩ nstart'
          else (Errno.noMem, r.2.areas)
termination_by stop - nstart
decreasing_by
  exact Nat.sub_lt_sub_left (Nat.lt_of_lt_of_le _hv.2 (Nat.le_of_not_le _hend)) _hv.2

/-- The interval to walk over, from the first area that ends behind `start`; or an error. -/
def protectRange (v : VmArea) (grows : BitVec 32) (start stop : Nat) : Except Nat (Nat × Nat) :=
  if grows &&& ProtFlag.growsDown ≠ 0 then
    if stop ≤ v.start then .error Errno.noMem
    else if v.val.flags &&& VmFlag.growsDown = 0 then .error Errno.inval
    else .ok (v.start, stop)
  else if start < v.start then .error Errno.noMem
  else if grows &&& ProtFlag.growsUp ≠ 0 then
    if v.val.flags &&& VmFlag.growsUp = 0 then .error Errno.inval else .ok (start, v.stop)
  else .ok (start, stop)

namespace ProtFlag

/-- Both directions. -/
def grows : BitVec 32 := growsDown ||| growsUp

/-- The bits that `arch_validate_prot` accepts. -/
def valid : BitVec 32 := read ||| write ||| exec ||| sem

end ProtFlag

/-- The areas of a task, once the arguments are checked. -/
def protectTask (lim : ProtectLimits) (t : VmTask) (start stop : Nat) (prot : BitVec 32) :
    Nat × List VmArea :=
  let reqprot := prot &&& ~~~ProtFlag.grows
  match above t.mm.areas start with
  | [] => (Errno.noMem, t.mm.areas)
  | v :: rest =>
    match protectRange v (prot &&& ProtFlag.grows) start stop with
    | .error e => (e, t.mm.areas)
    | .ok (first, last) =>
      protectAreas lim reqprot (t.prot reqprot) last ⟨below t.mm.areas start, v, rest⟩ first

/-- The result is an error number, or `0`. -/
def sysAbsysMprotect (lim : ProtectLimits) (g : VmGroup) (t start len : Nat) (prot : BitVec 32) :
    Nat × VmGroup :=
  if t ∈ g.ring then
    if prot &&& ProtFlag.grows = ProtFlag.grows then (Errno.inval, g)
    else if start % 4096 ≠ 0 then (Errno.inval, g)
    else if len = 0 then (0, g)
    else
      let stop := wordAdd start (pageAlign len)
      if stop ≤ start then (Errno.noMem, g)
      else if prot &&& ~~~ProtFlag.grows &&& ~~~ProtFlag.valid ≠ 0 then (Errno.inval, g)
      else
        let r := protectTask lim (g.task t) start stop prot
        (r.1, g.setMm t { (g.task t).mm with areas := r.2 })
  else (Errno.perm, g)

/-! ### Bits -/

theorem calcVmProtBits_and_access (prot : BitVec 32) :
    calcVmProtBits prot &&& VmFlag.access = calcVmProtBits prot := by
  have hbits : calcVmProtBits prot = prot &&& VmFlag.access := by
    unfold calcVmProtBits VmFlag.access
    rw [← BitVec.and_or_distrib_left, ← BitVec.and_or_distrib_left]
    rfl
  rw [hbits, BitVec.and_assoc, BitVec.and_self]

section Bits

variable {vmFlags : BitVec 32} (hbits : vmFlags &&& VmFlag.access = vmFlags)

include hbits

theorem withAccess_and_access (flags : BitVec 32) :
    withAccess vmFlags flags &&& VmFlag.access = vmFlags := by
  unfold withAccess
  rw [BitVec.and_or_distrib_right, hbits, BitVec.and_assoc, BitVec.not_and_self]
  simp

/-- Nothing changes if the access bits are those asked for. -/
theorem withAccess_eq_iff {flags : BitVec 32} :
    withAccess vmFlags flags = flags ↔ flags &&& VmFlag.access = vmFlags := by
  constructor
  · intro h
    rw [← h, withAccess_and_access hbits]
  · intro h
    unfold withAccess
    rw [← h, ← BitVec.and_or_distrib_left, BitVec.or_not_self, BitVec.and_allOnes]

/-- The bits besides the access bits stay. -/
theorem withAccess_and (flags : BitVec 32) {m : BitVec 32} (hm : VmFlag.access &&& m = 0) :
    withAccess vmFlags flags &&& m = flags &&& m := by
  have hm' : ~~~VmFlag.access &&& m = m := by
    have hsplit : (VmFlag.access ||| ~~~VmFlag.access) &&& m = m := by
      rw [BitVec.or_not_self, BitVec.allOnes_and]
    rwa [BitVec.and_or_distrib_right, hm, BitVec.ofNat_eq_ofNat, BitVec.zero_or] at hsplit
  unfold withAccess
  rw [BitVec.and_or_distrib_right, BitVec.and_assoc, hm', ← hbits, BitVec.and_assoc, hm]
  simp

end Bits

/-- `VM_ACCOUNT` is none of the other bits. -/
theorem chargedFlags_and (oldflags newflags : BitVec 32) {m : BitVec 32}
    (hm : VmFlag.account &&& m = 0) : chargedFlags oldflags newflags &&& m = newflags &&& m := by
  unfold chargedFlags
  split_ifs
  · rw [BitVec.and_or_distrib_right, hm]
    simp
  · rfl

/-! ### What merging can do -/

/-- What becomes of an area `v` when the part from `start` to `stop` gets other flags. The area
    `u` is this part, together with the neighbours `p` and `n` that it was merged with. Of `v`
    remain `lo` and `hi`. -/
structure Reshaped (p : Option VmArea) (v : VmArea) (n lo : Option VmArea) (u : VmArea)
    (hi : Option VmArea) (start stop : Nat) (flags : BitVec 32) : Prop where
  part : v.start ≤ start ∧ start < stop ∧ stop ≤ v.stop
  kind : u.val.flags = flags ∧ u.val.file = v.val.file
  prev : ∀ w, p = some w → w.stop = start ∧ v.start = start ∧ u.start = w.start ∧
    IsMergeableVma w v.val.file flags
  noPrev : p = none → u.start = start
  next : ∀ w, n = some w → w.start = stop ∧ v.stop = stop ∧ u.stop = w.stop ∧
    IsMergeableVma w v.val.file flags
  noNext : n = none → u.stop = stop
  low : ∀ w, lo = some w → v.start < start ∧ w.start = v.start ∧ w.stop = start ∧
    w.val.flags = v.val.flags ∧ w.val.file = v.val.file
  noLow : lo = none → v.start = start
  high : ∀ w, hi = some w → stop < v.stop ∧ w.start = stop ∧ w.stop = v.stop ∧
    w.val.flags = v.val.flags ∧ w.val.file = v.val.file
  noHigh : hi = none → v.stop = stop

/-- The part from `start` to `stop` of the list has new flags. Elsewhere the flags are the same,
    except in areas that were merged. -/
structure Recast (l l' : List VmArea) (start stop : Nat) (flags : BitVec 32) : Prop where
  ok : AreasOk l'
  inside : ∀ x, start ≤ x → x < stop → flagsAt l' x = some flags
  outside : ∀ x, ¬(start ≤ x ∧ x < stop) → flagsAt l' x = flagsAt l x ∨
    flagsAt l' x = some flags ∧ ∃ w ∈ l, w.Has x ∧ IsMergeableVma w w.val.file flags

namespace Reshaped

variable {p n lo hi : Option VmArea} {v u : VmArea} {start stop : Nat} {flags : BitVec 32}

variable (h : Reshaped p v n lo u hi start stop flags)

include h

theorem start_cases : u.start = start ∨
    ∃ w, p = some w ∧ u.start = w.start ∧ w.stop = start ∧ v.start = start := by
  rcases hp : p with _ | w
  · exact .inl (h.noPrev hp)
  · obtain ⟨hstop, hv, hu, -⟩ := h.prev w hp
    exact .inr ⟨w, rfl, hu, hstop, hv⟩

theorem stop_cases : u.stop = stop ∨
    ∃ w, n = some w ∧ u.stop = w.stop ∧ w.start = stop ∧ v.stop = stop := by
  rcases hn : n with _ | w
  · exact .inl (h.noNext hn)
  · obtain ⟨hstart, hv, hu, -⟩ := h.next w hn
    exact .inr ⟨w, rfl, hu, hstart, hv⟩

/-- Nothing is left outside of what there was. -/
theorem hull : ∀ w ∈ lo.toList ++ u :: hi.toList,
    (∃ w' ∈ p.toList ++ v :: n.toList, w'.start ≤ w.start) ∧
    ∃ w' ∈ p.toList ++ v :: n.toList, w.stop ≤ w'.stop := by
  intro w hw
  obtain ⟨hstart, hpos, hstop⟩ := h.part
  simp only [List.mem_append, Option.mem_toList, List.mem_cons] at hw
  rcases hw with hw | rfl | hw
  · obtain ⟨hlt, hws, hwe, -⟩ := h.low w hw
    exact ⟨⟨v, by simp, by omega⟩, v, by simp, by omega⟩
  · refine ⟨?_, ?_⟩
    · rcases h.start_cases with hu | ⟨w', hp, hu, -⟩
      · exact ⟨v, by simp, by omega⟩
      · exact ⟨w', by simp [hp], by omega⟩
    · rcases h.stop_cases with hu | ⟨w', hn, hu, -⟩
      · exact ⟨v, by simp, by omega⟩
      · exact ⟨w', by simp [hn], by omega⟩
  · obtain ⟨hlt, hws, hwe, -⟩ := h.high w hw
    exact ⟨⟨v, by simp, by omega⟩, v, by simp, by omega⟩

theorem cover (hl : Ordered (p.toList ++ v :: n.toList)) : u.start ≤ start ∧ stop ≤ u.stop := by
  refine ⟨?_, ?_⟩
  · rcases h.start_cases with hu | ⟨w, hp, hu, hw, -⟩
    · omega
    · have := hl.pos w (by simp [hp])
      omega
  · rcases h.stop_cases with hu | ⟨w, hn, hu, hw, -⟩
    · omega
    · have := hl.pos w (by simp [hn])
      omega

/-- The addresses of the new area besides the part are those of areas that were merged. -/
theorem mem_of_has {x : Nat} (hx : u.Has x) (hout : ¬(start ≤ x ∧ x < stop)) :
    ∃ w, (p = some w ∨ n = some w) ∧ w.Has x := by
  obtain ⟨hux, hxu⟩ := hx
  by_cases hlt : x < start
  · rcases h.start_cases with hu | ⟨w, hp, hu, hw, -⟩
    · omega
    · exact ⟨w, .inl hp, by omega, by omega⟩
  · rcases h.stop_cases with hu | ⟨w, hn, hu, hw, -⟩
    · omega
    · exact ⟨w, .inr hn, by omega, by omega⟩

theorem has_of_mem {w : VmArea} {x : Nat} (hl : Ordered (p.toList ++ v :: n.toList))
    (hw : p = some w ∨ n = some w) (hx : w.Has x) : u.Has x := by
  have hcover := h.cover hl
  have hpart := h.part
  obtain ⟨hwx, hxw⟩ := hx
  rcases hw with hp | hn
  · obtain ⟨hstop, -, hu, -⟩ := h.prev w hp
    exact ⟨by omega, by omega⟩
  · obtain ⟨hstart, -, hu, -⟩ := h.next w hn
    exact ⟨by omega, by omega⟩

theorem ordered (hl : Ordered (p.toList ++ v :: n.toList)) :
    Ordered (lo.toList ++ u :: hi.toList) := by
  obtain ⟨hstart, hpos, hstop⟩ := h.part
  have hcover := h.cover hl
  have hlow : ∀ w, lo = some w → w.start < w.stop ∧ w.stop ≤ u.start := by
    intro w hw
    obtain ⟨hlt, hws, hwe, -⟩ := h.low w hw
    rcases h.start_cases with hu | ⟨w', -, -, -, hv⟩ <;> omega
  have hhigh : ∀ w, hi = some w → w.start < w.stop ∧ u.stop ≤ w.start := by
    intro w hw
    obtain ⟨hlt, hws, hwe, -⟩ := h.high w hw
    rcases h.stop_cases with hu | ⟨w', -, -, -, hv⟩ <;> omega
  rw [Ordered.append_iff, Ordered.cons_iff]
  refine ⟨?_, ⟨by omega, fun w hw => (hhigh w (by simpa using hw)).2, ?_⟩, ?_⟩
  · rcases lo with _ | w
    · exact Ordered.nil
    · exact Ordered.cons_iff.mpr ⟨(hlow w rfl).1, by simp, Ordered.nil⟩
  · rcases hi with _ | w
    · exact Ordered.nil
    · exact Ordered.cons_iff.mpr ⟨(hhigh w rfl).1, by simp, Ordered.nil⟩
  · intro w hw w' hw'
    have hw := hlow w (by simpa using hw)
    rcases List.mem_cons.mp hw' with rfl | hw'
    · exact hw.2
    · have := hhigh w' (by simpa using hw')
      omega

/-- The areas are in order again, and so are their ends. -/
theorem areasOk (hl : AreasOk (p.toList ++ v :: n.toList)) (hstart : start % 4096 = 0)
    (hstop : stop % 4096 = 0)
    (hlinear : v.val.file = none → flags &&& VmFlag.canNonlinear = 0) :
    AreasOk (lo.toList ++ u :: hi.toList) := by
  have hv : v ∈ p.toList ++ v :: n.toList := by simp
  have hmem : ∀ w ∈ lo.toList ++ u :: hi.toList, lo = some w ∨ w = u ∨ hi = some w := by
    intro w hw
    simpa only [List.mem_append, Option.mem_toList, List.mem_cons] using hw
  refine ⟨h.ordered hl.ordered, fun w hw => ?_, fun w hw => ?_, fun w hw hfile => ?_⟩
  · have hva := hl.aligned v hv
    rcases hmem w hw with hw | rfl | hw
    · obtain ⟨-, hws, hwe, -⟩ := h.low w hw
      omega
    · refine ⟨?_, ?_⟩
      · rcases h.start_cases with hu | ⟨w', hp, hu, -⟩
        · omega
        · have := hl.aligned w' (by simp [hp])
          omega
      · rcases h.stop_cases with hu | ⟨w', hn, hu, -⟩
        · omega
        · have := hl.aligned w' (by simp [hn])
          omega
    · obtain ⟨-, hws, hwe, -⟩ := h.high w hw
      omega
  · obtain ⟨-, w', hw', hle⟩ := h.hull w hw
    exact Nat.le_trans hle (hl.bounded w' hw')
  · have hvl := hl.linear v hv
    rcases hmem w hw with hw | rfl | hw
    · obtain ⟨-, -, -, hflags, hfile'⟩ := h.low w hw
      rw [hflags]
      exact hvl (hfile' ▸ hfile)
    · rw [h.kind.1]
      exact hlinear (h.kind.2 ▸ hfile)
    · obtain ⟨-, -, -, hflags, hfile'⟩ := h.high w hw
      rw [hflags]
      exact hvl (hfile' ▸ hfile)

end Reshaped

theorem AreasOk.append_iff {l₁ l₂ : List VmArea} : AreasOk (l₁ ++ l₂) ↔
    AreasOk l₁ ∧ AreasOk l₂ ∧ ∀ v ∈ l₁, ∀ w ∈ l₂, v.stop ≤ w.start := by
  constructor
  · intro h
    exact ⟨h.sublist (List.sublist_append_left ..), h.sublist (List.sublist_append_right ..),
      (Ordered.append_iff.mp h.ordered).2.2⟩
  · rintro ⟨h₁, h₂, hapart⟩
    refine ⟨Ordered.append_iff.mpr ⟨h₁.ordered, h₂.ordered, hapart⟩, fun v hv => ?_,
      fun v hv => ?_, fun v hv => ?_⟩ <;> rcases List.mem_append.mp hv with hv | hv
    · exact h₁.aligned v hv
    · exact h₂.aligned v hv
    · exact h₁.bounded v hv
    · exact h₂.bounded v hv
    · exact h₁.linear v hv
    · exact h₂.linear v hv

/-- A list with other areas in the middle, which are not outside of those before. -/
theorem AreasOk.replace {b m m' r : List VmArea} (h : AreasOk (b ++ m ++ r)) (hm' : AreasOk m')
    (hull : ∀ w ∈ m', (∃ w' ∈ m, w'.start ≤ w.start) ∧ ∃ w' ∈ m, w.stop ≤ w'.stop) :
    AreasOk (b ++ m' ++ r) := by
  rw [AreasOk.append_iff, AreasOk.append_iff] at h ⊢
  obtain ⟨⟨hb, -, hbm⟩, hr, hmr⟩ := h
  refine ⟨⟨hb, hm', fun v hv w hw => ?_⟩, hr, fun v hv w hw => ?_⟩
  · obtain ⟨⟨w', hw', hle⟩, -⟩ := hull w hw
    exact Nat.le_trans (hbm v hv w' hw') hle
  · rcases List.mem_append.mp hv with hv | hv
    · exact hmr v (by simp [hv]) w hw
    · obtain ⟨-, w', hw', hle⟩ := hull v hv
      exact Nat.le_trans hle (hmr w' (by simp [hw']) w hw)

theorem Reshaped.recast {p n lo hi : Option VmArea} {v u : VmArea} {start stop : Nat}
    {flags : BitVec 32} (h : Reshaped p v n lo u hi start stop flags) {b r : List VmArea}
    (hl : AreasOk (b ++ (p.toList ++ v :: n.toList) ++ r)) (hstart : start % 4096 = 0)
    (hstop : stop % 4096 = 0)
    (hlinear : v.val.file = none → flags &&& VmFlag.canNonlinear = 0) :
    Recast (b ++ (p.toList ++ v :: n.toList) ++ r) (b ++ (lo.toList ++ u :: hi.toList) ++ r)
      start stop flags := by
  have hmiddle : AreasOk (p.toList ++ v :: n.toList) :=
    (AreasOk.append_iff.mp (AreasOk.append_iff.mp hl).1).2.1
  have hok := hl.replace (h.areasOk hmiddle hstart hstop hlinear) h.hull
  obtain ⟨hvs, hpos, hve⟩ := h.part
  have hcover := h.cover hmiddle.ordered
  have hu : u ∈ b ++ (lo.toList ++ u :: hi.toList) ++ r := by simp
  have hnew : ∀ x, u.Has x → flagsAt (b ++ (lo.toList ++ u :: hi.toList) ++ r) x = some flags :=
    fun x hx => by rw [flagsAt_of_mem hok.ordered hu hx, h.kind.1]
  refine ⟨hok, fun x hx hxs => hnew x ⟨by omega, by omega⟩, fun x hout => ?_⟩
  -- What was merged has the new flags, and had them nearly.
  have hmerged : ∀ w, (p = some w ∨ n = some w) → w.Has x →
      flagsAt (b ++ (lo.toList ++ u :: hi.toList) ++ r) x = some flags ∧
      ∃ w ∈ b ++ (p.toList ++ v :: n.toList) ++ r, w.Has x ∧
        IsMergeableVma w w.val.file flags := by
    intro w hw hx
    refine ⟨hnew x (h.has_of_mem hmiddle.ordered hw hx), w, ?_, hx, ?_⟩
    · rcases hw with hw | hw <;> simp [hw]
    · rcases hw with hw | hw
      · obtain ⟨-, -, -, hlike⟩ := h.prev w hw
        exact ⟨hlike.1, rfl, hlike.2.2⟩
      · obtain ⟨-, -, -, hlike⟩ := h.next w hw
        exact ⟨hlike.1, rfl, hlike.2.2⟩
  -- All other areas are in both lists, or are pieces of `v`.
  rcases hold : flagsAt (b ++ (p.toList ++ v :: n.toList) ++ r) x with _ | f
  · rw [flagsAt_eq_none_iff, get_eq_none_iff] at hold
    refine .inl (flagsAt_eq_none_iff.mpr (get_eq_none_iff.mpr fun w hw hx => ?_))
    simp only [List.mem_append, Option.mem_toList, List.mem_cons] at hw
    have hv := hold v (by simp)
    rcases hw with (hw | hw | rfl | hw) | hw
    · exact hold w (by simp [hw]) hx
    · obtain ⟨-, hws, hwe, -⟩ := h.low w hw
      exact hv ⟨by have := hx.1; omega, by have := hx.2; omega⟩
    · obtain ⟨w', hw', hx'⟩ := h.mem_of_has hx hout
      exact hold w' (by rcases hw' with hw' | hw' <;> simp [hw']) hx'
    · obtain ⟨-, hws, hwe, -⟩ := h.high w hw
      exact hv ⟨by have := hx.1; omega, by have := hx.2; omega⟩
    · exact hold w (by simp [hw]) hx
  · obtain ⟨w, hw, hx, rfl⟩ := mem_of_flagsAt hold
    simp only [List.mem_append, Option.mem_toList, List.mem_cons] at hw
    rcases hw with (hw | hw | rfl | hw) | hw
    · exact .inl (flagsAt_of_mem hok.ordered (by simp [hw]) hx)
    · exact .inr (hmerged w (.inl hw) hx)
    · left
      obtain ⟨hwx, hxw⟩ := hx
      by_cases hlt : x < start
      · rcases hlo : lo with _ | w'
        · have := h.noLow hlo
          omega
        · obtain ⟨-, hws, hwe, hflags, -⟩ := h.low w' hlo
          rw [← hlo, flagsAt_of_mem hok.ordered (v := w') (by simp [hlo]) ⟨by omega, by omega⟩,
            hflags]
      · rcases hhi : hi with _ | w'
        · have := h.noHigh hhi
          omega
        · obtain ⟨-, hws, hwe, hflags, -⟩ := h.high w' hhi
          rw [← hhi, flagsAt_of_mem hok.ordered (v := w') (by simp [hhi]) ⟨by omega, by omega⟩,
            hflags]
    · exact .inr (hmerged w (.inr hw) hx)
    · exact .inl (flagsAt_of_mem hok.ordered (by simp [hw]) hx)

/-- A turn of the loop took the focus `f` to the focus `g`. -/
def Turned (f g : Focus) (start stop : Nat) (flags : BitVec 32) : Prop :=
  ∃ b p n lo hi r, f.areas = b ++ (p.toList ++ f.area :: n.toList) ++ r ∧
    g.before = b ++ lo.toList ∧ g.after = hi.toList ++ r ∧
    Reshaped p f.area n lo g.area hi start stop flags

/-- An area that grows to the end of the one after the next takes the place of both. -/
theorem vmaAdjust_two (v : VmArea) {next last : VmArea} (rest : List VmArea) (start pgoff : Nat)
    (h : next.stop < last.stop) :
    vmaAdjust v (next :: last :: rest) start last.stop pgoff =
      (resizeArea (importAnon (importAnon v next) last) start last.stop pgoff, rest) := by
  simp [vmaAdjust, h, Nat.le_of_lt h]

/-- An area that grows into the next one takes a part of it. -/
theorem vmaAdjust_into (v : VmArea) {next : VmArea} (rest : List VmArea) (start pgoff : Nat)
    {stop : Nat} (h : next.start < stop) (h' : stop < next.stop)
    (halign : (stop - next.start) % 4096 = 0) :
    ∃ pgoff', vmaAdjust v (next :: rest) start stop pgoff =
      (resizeArea (importAnon v next) start stop pgoff,
        resizeArea next stop next.stop pgoff' :: rest) := by
  refine ⟨next.val.pgoff + (stop - next.start) / 4096, ?_⟩
  simp only [vmaAdjust, if_neg (show ¬next.stop ≤ stop by omega), if_pos h]
  rw [show next.start + (stop - next.start) / 4096 * 4096 = stop by omega]

/-- An area that shrinks gives a part of it to the next one. -/
theorem vmaAdjust_give {v next : VmArea} (rest : List VmArea) (stop pgoff : Nat)
    (hnext : next.start = v.stop) (hpos : next.start < next.stop) (h : stop < v.stop)
    (halign : (v.stop - stop) % 4096 = 0) :
    ∃ pgoff', vmaAdjust v (next :: rest) v.start stop pgoff =
      (resizeArea v v.start stop pgoff,
        resizeArea (importAnon next v) stop next.stop pgoff' :: rest) := by
  refine ⟨wordSub next.val.pgoff ((v.stop - stop) / 4096), ?_⟩
  simp only [vmaAdjust, if_neg (show ¬next.stop ≤ stop by omega),
    if_neg (show ¬next.start < stop by omega), if_pos h]
  rw [show next.start - (v.stop - stop) / 4096 * 4096 = stop by omega]

/-- Merging a part that is not the beginning of its area: the end goes to the next area. -/
theorem vmaMerge_turned_end {f g : Focus} {start stop pgoff : Nat} {flags : BitVec 32}
    {anon : Option Nat} (hl : AreasOk f.areas) (hstart : f.area.start < start)
    (halign : start % 4096 = 0) (hpos : start < stop) (hstop : stop ≤ f.area.stop)
    (h : vmaMerge ⟨f.before, some f.area, f.after⟩ start stop flags anon f.area.val.file pgoff =
      some g) : Turned f (g.setFlags flags) start stop flags := by
  have hord := hl.ordered
  rw [Focus.areas, Ordered.append_iff, Ordered.cons_iff] at hord
  obtain ⟨-, ⟨-, hbehind, hafter⟩, -⟩ := hord
  -- the area starts too early to be merged with from the front
  have hback : (some f.area).filter (fun v => decide (v.stop = start ∧
      CanVmaMergeAfter v flags anon f.area.val.file pgoff)) = none := by
    rw [Option.filter_eq_none_iff]
    intro v hv
    cases hv
    simp only [decide_eq_true_eq]
    omega
  have hcovers : (some f.area).filter (fun v => decide (start < v.stop)) = some f.area := by
    rw [Option.filter_eq_some_iff]
    exact ⟨rfl, by simp only [decide_eq_true_eq]; omega⟩
  unfold vmaMerge at h
  by_cases hspecial : flags &&& VmFlag.special ≠ 0
  · rw [if_pos hspecial] at h
    exact absurd h (by simp)
  simp only [if_neg hspecial, hback] at h
  -- so the next area takes the end of this one, or nothing is merged
  rcases hfront : (nextFor f.after stop).filter _ with _ | n
  · rw [hfront] at h
    exact absurd h (by simp)
  rw [hfront] at h
  obtain ⟨hn, hmerge⟩ := Option.filter_eq_some_iff.mp hfront
  rw [decide_eq_true_eq] at hmerge
  rcases hr : f.after with _ | ⟨next, r⟩
  · rw [hr] at hn
    exact absurd hn (by simp [nextFor])
  rw [hr] at hn h
  have hnext := hbehind next (by simp [hr])
  have hnpos := hafter.pos next (by simp [hr])
  simp only [nextFor, if_neg (show next.stop ≠ stop by omega), Option.some.injEq] at hn
  subst hn
  have hv := hl.aligned f.area (by simp [Focus.areas])
  obtain ⟨pgoff', hadjust⟩ := vmaAdjust_give (v := f.area) r start f.area.val.pgoff
    (by omega) hnpos (by omega) (by omega)
  simp only [extendFront, hcovers, hadjust, Option.some.injEq] at h
  subst h
  refine ⟨f.before, none, some next, some (resizeArea f.area f.area.start start f.area.val.pgoff),
    none, r, by simp [Focus.areas, hr], rfl, rfl, ?_⟩
  have hfile := hmerge.2.1.2.1
  exact {
    part := ⟨by omega, hpos, hstop⟩
    kind := ⟨rfl, hfile⟩
    prev := by simp
    noPrev := fun _ => rfl
    next := by
      rintro w ⟨⟩
      exact ⟨by omega, by omega, rfl, hmerge.2.1⟩
    noNext := by simp
    low := by
      rintro w ⟨⟩
      exact ⟨hstart, rfl, rfl, rfl, rfl⟩
    noLow := by simp
    high := by simp
    noHigh := fun _ => by omega }

/-- The area before a part that begins with its area. -/
theorem Focus.areas_dropLast {f : Focus} {v : VmArea} (h : f.before.getLast? = some v) :
    f.areas = f.before.dropLast ++ v :: f.area :: f.after := by
  obtain ⟨b, hb⟩ := List.getLast?_eq_some_iff.mp h
  simp [Focus.areas, hb]

section Begin

variable {f g : Focus} {start stop pgoff : Nat} {flags : BitVec 32} {anon : Option Nat}

/-- The area before takes the part. -/
theorem extendPrev_turned {v : VmArea} (hl : AreasOk f.areas) (hstart : f.area.start = start)
    (halign : stop % 4096 = 0) (hpos : start < stop) (hstop : stop ≤ f.area.stop)
    (hv : f.before.getLast? = some v) (hvstop : v.stop = start)
    (hlike : IsMergeableVma v f.area.val.file flags) :
    Turned f ((extendPrev ⟨f.before.dropLast, some v, f.area :: f.after⟩ v stop).setFlags flags)
      start stop flags := by
  have hareas := Focus.areas_dropLast hv
  have ha := hl.aligned f.area (by simp [Focus.areas])
  -- a part of the area is left over, or it goes as a whole
  rcases Nat.lt_or_eq_of_le hstop with hlt | heq
  · obtain ⟨pgoff', hadjust⟩ := vmaAdjust_into v f.after v.start v.val.pgoff
      (by omega : f.area.start < stop) hlt (by omega)
    unfold extendPrev
    simp only [hadjust]
    refine ⟨f.before.dropLast, some v, none, none,
      some (resizeArea f.area stop f.area.stop pgoff'), f.after, by simp [hareas], by
        simp [Focus.setFlags], rfl, ?_⟩
    exact {
      part := ⟨by omega, hpos, hstop⟩
      kind := ⟨rfl, hlike.2.1⟩
      prev := by
        rintro w ⟨⟩
        exact ⟨hvstop, hstart, rfl, hlike⟩
      noPrev := by simp
      next := by simp
      noNext := fun _ => rfl
      low := by simp
      noLow := fun _ => hstart
      high := by
        rintro w ⟨⟩
        exact ⟨hlt, rfl, rfl, rfl, rfl⟩
      noHigh := by simp }
  · unfold extendPrev
    simp only [heq, vmaAdjust_next]
    refine ⟨f.before.dropLast, some v, none, none, none, f.after, by simp [hareas], by
      simp [Focus.setFlags], rfl, ?_⟩
    exact {
      part := ⟨by omega, by omega, Nat.le_refl _⟩
      kind := ⟨rfl, hlike.2.1⟩
      prev := by
        rintro w ⟨⟩
        exact ⟨hvstop, hstart, rfl, hlike⟩
      noPrev := by simp
      next := by simp
      noNext := fun _ => rfl
      low := by simp
      noLow := fun _ => hstart
      high := by simp
      noHigh := fun _ => rfl }

/-- The area before takes the part and the next area. -/
theorem extendPrev_turned_next {v n : VmArea} {r : List VmArea} (hl : AreasOk f.areas)
    (hstart : f.area.start = start) (hpos : start < stop) (hstop : f.area.stop = stop)
    (hv : f.before.getLast? = some v) (hvstop : v.stop = start)
    (hlike : IsMergeableVma v f.area.val.file flags) (hafter : f.after = n :: r)
    (hn : n.start = stop) (hlike' : IsMergeableVma n f.area.val.file flags) :
    Turned f ((extendPrev ⟨f.before.dropLast, some v, f.area :: f.after⟩ v n.stop).setFlags flags)
      start stop flags := by
  have hareas := Focus.areas_dropLast hv
  have hnpos := hl.ordered.pos n (by simp [Focus.areas, hafter])
  unfold extendPrev
  simp only [hafter, vmaAdjust_two v r v.start v.val.pgoff (by omega : f.area.stop < n.stop)]
  refine ⟨f.before.dropLast, some v, some n, none, none, r, by simp [hareas, hafter], by
    simp [Focus.setFlags], rfl, ?_⟩
  exact {
    part := ⟨by omega, hpos, by omega⟩
    kind := ⟨rfl, hlike.2.1⟩
    prev := by
      rintro w ⟨⟩
      exact ⟨hvstop, hstart, rfl, hlike⟩
    noPrev := by simp
    next := by
      rintro w ⟨⟩
      exact ⟨hn, hstop, rfl, hlike'⟩
    noNext := by simp
    low := by simp
    noLow := fun _ => hstart
    high := by simp
    noHigh := fun _ => hstop }

/-- The part takes the next area. -/
theorem extendFront_turned {n : VmArea} {r : List VmArea} {pglen : Nat}
    (hl : AreasOk f.areas) (hstart : f.area.start = start) (hpos : start < stop)
    (hstop : f.area.stop = stop) (hafter : f.after = n :: r) (hn : n.start = stop)
    (hlike : IsMergeableVma n f.area.val.file flags)
    (h : extendFront ⟨f.before.dropLast, f.before.getLast?, f.area :: f.after⟩ n start pglen =
      some g) : Turned f (g.setFlags flags) start stop flags := by
  have hord := hl.ordered
  rw [Focus.areas, Ordered.append_iff] at hord
  have hprev : (f.before.getLast?.filter fun v => decide (start < v.stop)) = none := by
    rw [Option.filter_eq_none_iff]
    intro v hv
    have := hord.2.2 v (List.mem_of_getLast? hv) f.area (by simp)
    simp only [decide_eq_true_eq]
    omega
  have hbefore : f.before.dropLast ++ f.before.getLast?.toList = f.before := by
    rcases List.eq_nil_or_concat f.before with h | ⟨b, v, h⟩ <;> simp [h]
  simp only [extendFront, hprev, hafter, vmaAdjust_next, hbefore, Option.some.injEq] at h
  subst h
  refine ⟨f.before, none, some n, none, none, r, by simp [Focus.areas, hafter], by
    simp [Focus.setFlags], rfl, ?_⟩
  exact {
    part := ⟨by omega, hpos, by omega⟩
    kind := ⟨rfl, rfl⟩
    prev := by simp
    noPrev := fun _ => rfl
    next := by
      rintro w ⟨⟩
      exact ⟨hn, hstop, rfl, hlike⟩
    noNext := by simp
    low := by simp
    noLow := fun _ => hstart
    high := by simp
    noHigh := fun _ => hstop }

/-- Merging a part that is the beginning of its area. -/
theorem vmaMerge_turned_begin (hl : AreasOk f.areas) (hstart : f.area.start = start)
    (halign : stop % 4096 = 0) (hpos : start < stop) (hstop : stop ≤ f.area.stop)
    (h : vmaMerge ⟨f.before.dropLast, f.before.getLast?, f.area :: f.after⟩ start stop flags anon
      f.area.val.file pgoff = some g) : Turned f (g.setFlags flags) start stop flags := by
  unfold vmaMerge at h
  by_cases hspecial : flags &&& VmFlag.special ≠ 0
  · rw [if_pos hspecial] at h
    exact absurd h (by simp)
  simp only [if_neg hspecial] at h
  -- The next area counts only if the part is the whole area.
  have hfront : ∀ n, ((nextFor (f.area :: f.after) stop).filter fun n => decide (stop = n.start ∧
      CanVmaMergeBefore n flags anon f.area.val.file (pgoff + (stop - start) / 4096))) = some n →
      f.area.stop = stop ∧ (∃ r, f.after = n :: r) ∧ n.start = stop ∧
        IsMergeableVma n f.area.val.file flags := by
    intro n hn
    obtain ⟨hn, hmerge⟩ := Option.filter_eq_some_iff.mp hn
    rw [decide_eq_true_eq] at hmerge
    unfold nextFor at hn
    by_cases hend : f.area.stop = stop
    · simp only [if_pos hend] at hn
      exact ⟨hend, List.head?_eq_some_iff.mp hn, hmerge.1.symm, hmerge.2.1⟩
    · simp only [if_neg hend, Option.some.injEq] at hn
      subst hn
      omega
  revert h
  rcases hback : f.before.getLast?.filter _ with _ | v <;>
    rcases hnext : (nextFor (f.area :: f.after) stop).filter _ with _ | n <;> intro h
  · exact absurd h (by simp)
  · obtain ⟨hend, ⟨r, hafter⟩, hn, hlike⟩ := hfront n hnext
    exact extendFront_turned hl hstart hpos hend hafter hn hlike h
  · obtain ⟨hv, hmerge⟩ := Option.filter_eq_some_iff.mp hback
    rw [decide_eq_true_eq] at hmerge
    simp only [Option.some.injEq, hv] at h
    subst h
    exact extendPrev_turned hl hstart halign hpos hstop hv hmerge.1 hmerge.2.1
  · obtain ⟨hv, hmerge⟩ := Option.filter_eq_some_iff.mp hback
    rw [decide_eq_true_eq] at hmerge
    obtain ⟨hend, ⟨r, hafter⟩, hn, hlike⟩ := hfront n hnext
    simp only [Option.some.injEq, hv] at h
    subst h
    split_ifs
    · exact extendPrev_turned_next hl hstart hpos hend hv hmerge.1 hmerge.2.1 hafter hn hlike
    · exact extendPrev_turned hl hstart halign hpos hstop hv hmerge.1 hmerge.2.1

/-- Splitting off the part. -/
theorem split_turned {k : Nat} {f₁ f₂ : Focus} (hstart : f.area.start ≤ start)
    (hpos : start < stop) (hstop : stop ≤ f.area.stop) (h₁ : splitBelow k f start = some f₁)
    (h₂ : splitAbove k f₁ stop = some f₂) : Turned f (f₂.setFlags flags) start stop flags := by
  -- The lower piece.
  have hlow : ∃ lo : Option VmArea, f₁.before = f.before ++ lo.toList ∧ f₁.after = f.after ∧
      f₁.area.start = start ∧ f₁.area.stop = f.area.stop ∧
      f₁.area.val.flags = f.area.val.flags ∧ f₁.area.val.file = f.area.val.file ∧
      (∀ w, lo = some w → f.area.start < start ∧ w.start = f.area.start ∧ w.stop = start ∧
        w.val.flags = f.area.val.flags ∧ w.val.file = f.area.val.file) ∧
      (lo = none → f.area.start = start) := by
    unfold splitBelow at h₁
    by_cases hs : start = f.area.start
    · rw [if_pos hs] at h₁
      cases h₁
      exact ⟨none, by simp, rfl, hs.symm, rfl, rfl, rfl, by simp, fun _ => hs.symm⟩
    · rw [if_neg hs] at h₁
      split_ifs at h₁
      cases h₁
      refine ⟨some { f.area with stop := start }, rfl, rfl, rfl, rfl, rfl, rfl, ?_, by simp⟩
      rintro w ⟨⟩
      exact ⟨by omega, rfl, rfl, rfl, rfl⟩
  obtain ⟨lo, hb, ha, hs, he, hf, hfile, hlo, hnone⟩ := hlow
  unfold splitAbove at h₂
  by_cases hend : stop = f₁.area.stop
  · rw [if_pos hend] at h₂
    cases h₂
    refine ⟨f.before, none, none, lo, none, f.after, by simp [Focus.areas], hb, ha, ?_⟩
    exact {
      part := ⟨hstart, hpos, hstop⟩
      kind := ⟨rfl, hfile⟩
      prev := by simp
      noPrev := fun _ => hs
      next := by simp
      noNext := fun _ => hend.symm
      low := hlo
      noLow := hnone
      high := by simp
      noHigh := fun _ => by omega }
  · rw [if_neg hend] at h₂
    split_ifs at h₂
    cases h₂
    refine ⟨f.before, none, none, lo, some _, f.after, by simp [Focus.areas], hb,
      by simp [Focus.setFlags, ha]; rfl, ?_⟩
    exact {
      part := ⟨hstart, hpos, hstop⟩
      kind := ⟨rfl, hfile⟩
      prev := by simp
      noPrev := fun _ => hs
      next := by simp
      noNext := fun _ => rfl
      low := hlo
      noLow := hnone
      high := by
        rintro w ⟨⟩
        exact ⟨by omega, rfl, he, hf, hfile⟩
      noHigh := by simp }

end Begin

/-- A turn of the loop that does something gives the part its new flags. -/
theorem mprotectFixup_turned {lim : ProtectLimits} {f g : Focus} {start stop : Nat}
    {newflags : BitVec 32} (hl : AreasOk f.areas) (hstart : f.area.start ≤ start)
    (hpos : start < stop) (hstop : stop ≤ f.area.stop) (halign : start % 4096 = 0)
    (halign' : stop % 4096 = 0) (hne : newflags ≠ f.area.val.flags)
    (h : mprotectFixup lim f start stop newflags = (0, g)) :
    Turned f g start stop (chargedFlags f.area.val.flags newflags) := by
  unfold mprotectFixup at h
  simp only [if_neg hne] at h
  split_ifs at h
  · exact absurd (congrArg Prod.fst h) (show Errno.noMem ≠ 0 by decide)
  split at h
  · next g' hmerge =>
    cases h
    unfold Focus.place at hmerge
    by_cases hlt : f.area.start < start
    · rw [if_pos hlt] at hmerge
      exact vmaMerge_turned_end hl hlt halign hpos hstop hmerge
    · rw [if_neg hlt] at hmerge
      exact vmaMerge_turned_begin hl (by omega) halign' hpos hstop hmerge
  · split at h
    · exact absurd (congrArg Prod.fst h) (show Errno.noMem ≠ 0 by decide)
    · next f₁ h₁ =>
      split at h
      · exact absurd (congrArg Prod.fst h) (show Errno.noMem ≠ 0 by decide)
      · next f₂ h₂ =>
        cases h
        exact split_turned hstart hpos hstop h₁ h₂

theorem Turned.recast {f g : Focus} {start stop : Nat} {flags : BitVec 32}
    (h : Turned f g start stop flags) (hl : AreasOk f.areas) (halign : start % 4096 = 0)
    (halign' : stop % 4096 = 0)
    (hlinear : f.area.val.file = none → flags &&& VmFlag.canNonlinear = 0) :
    Recast f.areas g.areas start stop flags ∧ g.area.start ≤ start ∧ stop ≤ g.area.stop ∧
      g.area.val.flags = flags := by
  obtain ⟨b, p, n, lo, hi, r, hareas, hb, ha, h⟩ := h
  have hg : g.areas = b ++ (lo.toList ++ g.area :: hi.toList) ++ r := by
    simp [Focus.areas, hb, ha]
  rw [hg, hareas]
  rw [hareas] at hl
  have hmiddle := (AreasOk.append_iff.mp (AreasOk.append_iff.mp hl).1).2.1
  have hcover := h.cover hmiddle.ordered
  exact ⟨h.recast hl halign halign' hlinear, hcover.1, hcover.2, h.kind.1⟩

/-! ### The loop -/

/-- The list `old` once the pages from `lo` to `n` have the access bits `req`. Under the condition
    `P` the areas of the system have not changed. -/
structure Walked (old l : List VmArea) (req : BitVec 32) (lo n : Nat) (P : Prop) : Prop where
  ok : AreasOk l
  unmapped : ∀ x, flagsAt old x = none → flagsAt l x = none ∧ ¬(lo ≤ x ∧ x < n)
  mapped : ∀ x f, flagsAt old x = some f → ∃ f', flagsAt l x = some f' ∧
    (AbControl f' ↔ AbControl f) ∧
    f' &&& VmFlag.access = (if lo ≤ x ∧ x < n then req else f &&& VmFlag.access) ∧
    (P → ¬AbControl f → f' = f)

namespace Walked

variable {old l : List VmArea} {req : BitVec 32} {lo a : Nat} {P : Prop}

theorem start (hl : AreasOk l) : Walked l l req lo lo P where
  ok := hl
  unmapped := fun x hx => ⟨hx, by omega⟩
  mapped := fun x f hf => ⟨f, hf, Iff.rfl, by rw [if_neg (by omega)], fun _ _ => rfl⟩

/-- The pages of an area that has the access bits already are passed over. -/
theorem extend (h : Walked old l req lo a P) {u : VmArea} (hu : u ∈ l)
    (hreq : u.val.flags &&& VmFlag.access = req) (hstart : u.start ≤ a) {b : Nat}
    (hb : b ≤ u.stop) (hlo : lo ≤ a) (hab : a ≤ b) : Walked old l req lo b P := by
  have hpage : ∀ x, a ≤ x → x < b → flagsAt l x = some u.val.flags := fun x hx hxb =>
    flagsAt_of_mem h.ok.ordered hu ⟨by omega, by omega⟩
  refine ⟨h.ok, fun x hx => ?_, fun x f hf => ?_⟩
  · obtain ⟨hnone, hout⟩ := h.unmapped x hx
    refine ⟨hnone, fun hin => ?_⟩
    rw [hpage x (by omega) hin.2] at hnone
    exact absurd hnone (by simp)
  · obtain ⟨f', hf', hcontrol, haccess, hsame⟩ := h.mapped x f hf
    refine ⟨f', hf', hcontrol, ?_, hsame⟩
    by_cases hx : a ≤ x ∧ x < b
    · rw [hpage x hx.1 hx.2, Option.some.injEq] at hf'
      rw [if_pos (by omega), ← hf', hreq]
    · rw [haccess]
      exact if_congr (by omega) rfl rfl

/-- The pages from `a` to `b` of an area get new flags. -/
theorem recast (h : Walked old l req lo a P) {l' : List VmArea} {v : VmArea} {b : Nat}
    {flags : BitVec 32} (hr : Recast l l' a b flags) (hv : v ∈ l) (hstart : v.start ≤ a)
    (hstop : b ≤ v.stop) (hcontrol : AbControl flags ↔ AbControl v.val.flags)
    (hreq : flags &&& VmFlag.access = req) (hP : P → AbControl flags) (hlo : lo ≤ a)
    (hab : a ≤ b) : Walked old l' req lo b P := by
  have hpage : ∀ x, a ≤ x → x < b → flagsAt l x = some v.val.flags := fun x hx hxb =>
    flagsAt_of_mem h.ok.ordered hv ⟨by omega, by omega⟩
  refine ⟨hr.ok, fun x hx => ?_, fun x f hf => ?_⟩
  · obtain ⟨hnone, hout⟩ := h.unmapped x hx
    have hin : ¬(a ≤ x ∧ x < b) := fun hin => by
      rw [hpage x hin.1 hin.2] at hnone
      exact absurd hnone (by simp)
    refine ⟨?_, by omega⟩
    rcases hr.outside x hin with heq | ⟨-, w, hw, hwx, -⟩
    · rw [heq, hnone]
    · rw [flagsAt_of_mem h.ok.ordered hw hwx] at hnone
      exact absurd hnone (by simp)
  · obtain ⟨f₁, hf₁, hcontrol₁, haccess, hsame⟩ := h.mapped x f hf
    by_cases hin : a ≤ x ∧ x < b
    · rw [hpage x hin.1 hin.2, Option.some.injEq] at hf₁
      subst hf₁
      exact ⟨flags, hr.inside x hin.1 hin.2, hcontrol.trans hcontrol₁,
        by rw [if_pos (by omega), hreq],
        fun p hsystem => absurd ((hcontrol.trans hcontrol₁).mp (hP p)) hsystem⟩
    have hrange : (if lo ≤ x ∧ x < b then req else f &&& VmFlag.access) =
        if lo ≤ x ∧ x < a then req else f &&& VmFlag.access := if_congr (by omega) rfl rfl
    rw [hrange]
    rcases hr.outside x hin with heq | ⟨hflags, w, hw, hwx, hlike⟩
    · exact ⟨f₁, heq.trans hf₁, hcontrol₁, haccess, hsame⟩
    · rw [flagsAt_of_mem h.ok.ordered hw hwx, Option.some.injEq] at hf₁
      subst hf₁
      have hsystem : AbControl flags ↔ AbControl w.val.flags := by
        unfold AbControl
        rw [hlike.and_eq (by decide)]
      exact ⟨flags, hflags, hsystem.trans hcontrol₁, by rw [← haccess, hlike.and_eq (by decide)],
        fun p hsys => absurd ((hsystem.trans hcontrol₁).mp (hP p)) hsys⟩

/-- A turn of the loop. If no area of the system needs a change, none is changed. -/
theorem turn {f g : Focus} {b hi : Nat} {lim : ProtectLimits}
    (h : Walked old f.areas req lo a P) (hreq : req &&& VmFlag.access = req)
    (hcalm : P → ∀ x f, flagsAt old x = some f → lo ≤ x → x < hi → ¬AbControl f →
      f &&& VmFlag.access = req)
    (hlo : lo ≤ a) (hab : a < b) (hbi : b ≤ hi) (hstart : f.area.start ≤ a)
    (hstop : b ≤ f.area.stop) (halign : a % 4096 = 0) (halign' : b % 4096 = 0)
    (hfixup : mprotectFixup lim f a b (withAccess req f.area.val.flags) = (0, g)) :
    Walked old g.areas req lo b P ∧ g.area.start ≤ a ∧ b ≤ g.area.stop ∧
      g.area.val.flags &&& VmFlag.access = req := by
  have harea : f.area ∈ f.areas := by simp [Focus.areas]
  by_cases hne : withAccess req f.area.val.flags = f.area.val.flags
  · have haccess := (withAccess_eq_iff hreq).mp hne
    simp only [mprotectFixup, if_pos hne, Prod.mk.injEq, true_and] at hfixup
    subst hfixup
    exact ⟨h.extend harea haccess hstart hstop hlo (by omega), hstart, hstop, haccess⟩
  have hcontrol : AbControl (chargedFlags f.area.val.flags (withAccess req f.area.val.flags)) ↔
      AbControl f.area.val.flags := by
    unfold AbControl
    rw [chargedFlags_and _ _ (by decide), withAccess_and hreq _ (by decide)]
  obtain ⟨hr, hgs, hge, hgf⟩ := (mprotectFixup_turned h.ok hstart hab hstop halign halign' hne
    hfixup).recast h.ok halign halign' fun hfile => by
      rw [chargedFlags_and _ _ (by decide), withAccess_and hreq _ (by decide)]
      exact h.ok.linear f.area harea hfile
  have hbits : chargedFlags f.area.val.flags (withAccess req f.area.val.flags) &&& VmFlag.access =
      req := by
    rw [chargedFlags_and _ _ (by decide), withAccess_and_access hreq]
  refine ⟨h.recast hr harea hstart hstop hcontrol hbits (fun p => ?_) hlo (by omega), hgs, hge,
    by rw [hgf, hbits]⟩
  -- An area of the system would have had the bits.
  by_contra hsystem
  rw [hcontrol] at hsystem
  have hpage := flagsAt_of_mem h.ok.ordered harea ⟨hstart, by omega⟩
  rcases hold : flagsAt old a with _ | fa
  · rw [(h.unmapped a hold).1] at hpage
    exact absurd hpage (by simp)
  · obtain ⟨f', hf', hcontrol', -, hsame⟩ := h.mapped a fa hold
    rw [hpage, Option.some.injEq] at hf'
    subst hf'
    rw [hcontrol'] at hsystem
    rw [hsame p hsystem] at hne
    exact hne ((withAccess_eq_iff hreq).mpr (hcalm p a fa hold hlo (by omega) hsystem))

end Walked

/-- The loop gives all pages up to `hi` the access bits. -/
theorem protectAreas_walked {lim : ProtectLimits} {reqprot prot : BitVec 32} {old : List VmArea}
    {lo hi : Nat} {P : Prop} (hhi : hi % 4096 = 0)
    (hcalm : P → ∀ x f, flagsAt old x = some f → lo ≤ x → x < hi → ¬AbControl f →
      f &&& VmFlag.access = calcVmProtBits prot) (f : Focus) (nstart : Nat)
    (h : Walked old f.areas (calcVmProtBits prot) lo nstart P) (hlo : lo ≤ nstart)
    (hn : nstart < hi) (halign : nstart % 4096 = 0) (hf : f.area.Has nstart)
    (hret : (protectAreas lim reqprot prot hi f nstart).1 = 0) :
    Walked old (protectAreas lim reqprot prot hi f nstart).2 (calcVmProtBits prot) lo hi P := by
  -- on what is left of the range; each turn ends the loop or moves `nstart` up
  induction hk : hi - nstart using Nat.strong_induction_on generalizing f nstart with
  | _ k ih =>
  have harea := h.ok.aligned f.area (by simp [Focus.areas])
  rw [protectAreas] at hret ⊢
  by_cases hmay : ¬MayAccess (withAccess (calcVmProtBits prot) f.area.val.flags)
  · simp only [if_pos hmay] at hret
    exact absurd hret (show Errno.access ≠ 0 by decide)
  simp only [if_neg hmay] at hret ⊢
  by_cases hfile : lim.fileMprotect f.area reqprot prot ≠ 0
  · simp only [if_pos hfile] at hret
    exact absurd hret hfile
  simp only [if_neg hfile] at hret ⊢
  rcases hfixup : mprotectFixup lim f nstart (min f.area.stop hi)
    (withAccess (calcVmProtBits prot) f.area.val.flags) with ⟨e, g⟩
  simp only [hfixup] at hret ⊢
  by_cases he : e ≠ 0
  · rw [if_pos he] at hret
    exact absurd hret he
  rw [if_neg he] at hret ⊢
  obtain rfl := not_not.mp he
  have hmin : nstart < min f.area.stop hi := Nat.lt_min.mpr ⟨hf.2, hn⟩
  obtain ⟨hw, hgs, hge, hgf⟩ := h.turn (calcVmProtBits_and_access prot) hcalm hlo hmin
    (Nat.min_le_right ..) hf.1 (Nat.min_le_left ..) halign (by omega) hfixup
  have hg : g.area ∈ g.areas := by simp [Focus.areas]
  split_ifs at hret ⊢ with hend
  · exact hw.extend hg hgf (by omega) (by omega) (by omega) (Nat.min_le_right ..)
  rcases hafter : g.after with _ | ⟨v, rest⟩
  · simp only [hafter] at hret
    exact absurd hret (show Errno.noMem ≠ 0 by decide)
  simp only [hafter] at hret ⊢
  split_ifs at hret ⊢ with hv
  · have hareas : (⟨g.before ++ [g.area], v, rest⟩ : Focus).areas = g.areas := by
      simp [Focus.areas, hafter]
    have hvmem : v ∈ g.areas := by simp [Focus.areas, hafter]
    refine ih _ (by omega) _ _ ?_ (by omega) (by omega) ?_ ⟨by simp only; omega, ?_⟩ hret rfl
    · rw [hareas]
      exact hw.extend hg hgf (by omega) (by omega) (by omega) (by omega)
    · have := hw.ok.aligned g.area hg
      omega
    · have := hw.ok.ordered.pos v hvmem
      simp only
      omega
  · exact absurd hret (show Errno.noMem ≠ 0 by decide)

/-! ### The call -/

/-- The access bits that a protection asks for, as the personality of the task has it. -/
def requestedBits (t : VmTask) (prot : BitVec 32) : BitVec 32 :=
  calcVmProtBits (t.prot (prot &&& ~~~ProtFlag.grows))

/-- The call changes the access bits of the arbiter's pages in the interval to those asked for,
    and nothing else. -/
structure MprotectPromise (g g' : VmGroup) (t start len : Nat) (prot : BitVec 32) : Prop where
  inside : ∀ x f, flagsAt (g.areas t) x = some f → AbControl f → start ≤ x →
    x < start + pageAlign len →
    ∃ f', flagsAt (g'.areas t) x = some f' ∧ f' &&& VmFlag.access = requestedBits (g.task t) prot
  elsewhere : ∀ x f, flagsAt (g.areas t) x = some f →
    ¬(AbControl f ∧ start ≤ x ∧ x < start + pageAlign len) →
    ∃ f', flagsAt (g'.areas t) x = some f' ∧ f' &&& VmFlag.access = f &&& VmFlag.access
  system : ∀ x f, flagsAt (g.areas t) x = some f → ¬AbControl f → flagsAt (g'.areas t) x = some f
  unmapped : ∀ x, flagsAt (g.areas t) x = none → flagsAt (g'.areas t) x = none
  others : ∀ u, u ≠ t → g'.task u = g.task u

/-- Where the interval that is walked over differs from the one given, and where it has pages of
    the system, the access bits are already those asked for. -/
def Harmless (t : VmTask) (start len : Nat) (prot : BitVec 32) : Prop :=
  ∀ v lo hi, len ≠ 0 → findVma t.mm.areas start = some v →
    protectRange v (prot &&& ProtFlag.grows) start (start + pageAlign len) = .ok (lo, hi) →
    ∀ x f, flagsAt t.mm.areas x = some f →
      ¬((lo ≤ x ∧ x < hi) ↔ AbControl f ∧ start ≤ x ∧ x < start + pageAlign len) →
      f &&& VmFlag.access = requestedBits t prot

/-- The interval is in pages, and the first page is in the first area. -/
theorem protectRange_ok {l rest : List VmArea} {v : VmArea} {grows : BitVec 32}
    {start stop lo hi : Nat} (hl : AreasOk l) (habove : above l start = v :: rest)
    (hstart : start % 4096 = 0) (hstop : stop % 4096 = 0) (hpos : start < stop)
    (h : protectRange v grows start stop = .ok (lo, hi)) :
    lo % 4096 = 0 ∧ hi % 4096 = 0 ∧ lo < hi ∧ v.Has lo := by
  have hmem : v ∈ above l start := by simp [habove]
  have hlt := lt_stop_of_mem_above hl.ordered hmem
  have hv := mem_of_mem_above hmem
  have hvpos := hl.ordered.pos v hv
  have halign := hl.aligned v hv
  unfold protectRange at h
  split_ifs at h with h₁ h₂ h₃ h₄ h₅ h₆ <;> cases h
  · exact ⟨halign.1, hstop, by omega, Nat.le_refl _, hvpos⟩
  · exact ⟨hstart, halign.2, hlt, by omega, hlt⟩
  · exact ⟨hstart, hstop, hpos, by omega, hlt⟩

theorem protectRange_error {v : VmArea} {grows : BitVec 32} {start stop e : Nat}
    (h : protectRange v grows start stop = .error e) : e ≠ 0 := by
  unfold protectRange at h
  split_ifs at h <;> cases h <;> decide

/-- What the call does to the areas of the task. -/
theorem protectTask_walked {lim : ProtectLimits} {t : VmTask} {start stop : Nat}
    {prot : BitVec 32} (hl : AreasOk t.mm.areas) (hstart : start % 4096 = 0)
    (hstop : stop % 4096 = 0) (hpos : start < stop)
    (hret : (protectTask lim t start stop prot).1 = 0) :
    ∃ v lo hi, findVma t.mm.areas start = some v ∧
      protectRange v (prot &&& ProtFlag.grows) start stop = .ok (lo, hi) ∧
      ∀ P : Prop, (P → ∀ x f, flagsAt t.mm.areas x = some f → lo ≤ x → x < hi → ¬AbControl f →
          f &&& VmFlag.access = requestedBits t prot) →
        Walked t.mm.areas (protectTask lim t start stop prot).2 (requestedBits t prot) lo hi P := by
  unfold protectTask at hret ⊢
  rcases habove : above t.mm.areas start with _ | ⟨v, rest⟩
  · simp only [habove] at hret
    exact absurd hret (show Errno.noMem ≠ 0 by decide)
  simp only [habove] at hret ⊢
  rcases hrange : protectRange v (prot &&& ProtFlag.grows) start stop with e | ⟨lo, hi⟩
  · simp only [hrange] at hret
    exact absurd hret (protectRange_error hrange)
  simp only [hrange] at hret ⊢
  obtain ⟨hlo, hhi, hlt, hhas⟩ := protectRange_ok hl habove hstart hstop hpos hrange
  refine ⟨v, lo, hi, by simp [findVma, habove], hrange, fun P hcalm => ?_⟩
  refine protectAreas_walked hhi hcalm _ lo ?_ (Nat.le_refl _) hlt hlo hhas hret
  have hareas : (⟨below t.mm.areas start, v, rest⟩ : Focus).areas = t.mm.areas := by
    rw [Focus.areas, ← habove, below_append_above]
  rw [hareas]
  exact Walked.start hl

/-- A call that returns `0` without having walked over anything has done nothing. -/
theorem MprotectPromise.of_len_zero (g : VmGroup) (t start : Nat) (prot : BitVec 32) :
    MprotectPromise g g t start 0 prot where
  inside := fun x f _ _ hx hxs => absurd hxs (by simp [pageAlign]; omega)
  elsewhere := fun x f hf _ => ⟨f, hf, rfl⟩
  system := fun x f hf _ => hf
  unmapped := fun x hx => hx
  others := fun u _ => rfl

/-- The calls that return `0`. -/
theorem sysAbsysMprotect_cases {lim : ProtectLimits} {g : VmGroup} {t start len : Nat}
    {prot : BitVec 32} (hret : (sysAbsysMprotect lim g t start len prot).1 = 0) :
    len = 0 ∧ (sysAbsysMprotect lim g t start len prot).2 = g ∨
    len ≠ 0 ∧ start % 4096 = 0 ∧ 0 < pageAlign len ∧
      (protectTask lim (g.task t) start (start + pageAlign len) prot).1 = 0 ∧
      (sysAbsysMprotect lim g t start len prot).2 = g.setMm t { (g.task t).mm with
        areas := (protectTask lim (g.task t) start (start + pageAlign len) prot).2 } := by
  unfold sysAbsysMprotect at hret ⊢
  by_cases ht : t ∈ g.ring
  swap
  · rw [if_neg ht] at hret
    exact absurd hret (show Errno.perm ≠ 0 by decide)
  rw [if_pos ht] at hret ⊢
  by_cases hgrows : prot &&& ProtFlag.grows = ProtFlag.grows
  · rw [if_pos hgrows] at hret
    exact absurd hret (show Errno.inval ≠ 0 by decide)
  rw [if_neg hgrows] at hret ⊢
  by_cases halign : start % 4096 ≠ 0
  · rw [if_pos halign] at hret
    exact absurd hret (show Errno.inval ≠ 0 by decide)
  rw [if_neg halign] at hret ⊢
  by_cases hlen : len = 0
  · rw [if_pos hlen]
    exact .inl ⟨hlen, rfl⟩
  rw [if_neg hlen] at hret ⊢
  simp only at hret ⊢
  by_cases hstop : wordAdd start (pageAlign len) ≤ start
  · rw [if_pos hstop] at hret
    exact absurd hret (show Errno.noMem ≠ 0 by decide)
  rw [if_neg hstop] at hret ⊢
  -- The end is behind the start, so the sum has not wrapped.
  have hsum : wordAdd start (pageAlign len) = start + pageAlign len ∧ 0 < pageAlign len := by
    unfold wordAdd pageAlign at *
    omega
  rw [hsum.1] at hret ⊢
  by_cases hvalid : prot &&& ~~~ProtFlag.grows &&& ~~~ProtFlag.valid ≠ 0
  · rw [if_pos hvalid] at hret
    exact absurd hret (show Errno.inval ≠ 0 by decide)
  rw [if_neg hvalid] at hret ⊢
  exact .inr ⟨hlen, not_not.mp halign, hsum.2, hret, rfl⟩

/-- A call that returns `0` changes the arbiter's pages of the interval and nothing else, if all
    other pages that it walks over have the access bits already, and the arbiter's pages that it
    does not walk over have them too. -/
theorem sysAbsysMprotect_protected_iff (lim : ProtectLimits) (g : VmGroup) (t start len : Nat)
    (prot : BitVec 32) (hok : AreasOk (g.areas t))
    (hret : (sysAbsysMprotect lim g t start len prot).1 = 0) :
    MprotectPromise g (sysAbsysMprotect lim g t start len prot).2 t start len prot ↔
      Harmless (g.task t) start len prot := by
  rcases sysAbsysMprotect_cases hret with ⟨rfl, hsame⟩ | ⟨hlen, halign, hpos, hzero, hset⟩
  · rw [hsame]
    exact ⟨fun _ v lo hi hne => absurd rfl hne, fun _ => MprotectPromise.of_len_zero g t start prot⟩
  have halign' : (start + pageAlign len) % 4096 = 0 := by
    have : pageAlign len % 4096 = 0 := pageAlign_mod len
    omega
  obtain ⟨v, lo, hi, hfind, hrange, hwalked⟩ :=
    protectTask_walked hok halign halign' (by omega) hzero
  have hareas : (sysAbsysMprotect lim g t start len prot).2.areas t =
      (protectTask lim (g.task t) start (start + pageAlign len) prot).2 := by
    rw [hset, VmGroup.areas, g.setMm_task_self]
  constructor
  · intro h v' lo' hi' _ hfind' hrange' x f hf hdiff
    obtain rfl : v = v' := by simpa [hfind] using hfind'
    obtain ⟨rfl, rfl⟩ : lo = lo' ∧ hi = hi' := by simpa [hrange] using hrange'
    have hw := hwalked False False.elim
    obtain ⟨f', hf', -, haccess, -⟩ := hw.mapped x f hf
    rw [← hareas] at hf'
    by_cases hx : lo ≤ x ∧ x < hi
    · -- A page that is not meant keeps its bits, and has those asked for.
      obtain ⟨f₂, hf₂, hkeep⟩ := h.elsewhere x f hf fun hin => hdiff (iff_of_true hx hin)
      rw [hf', Option.some.injEq] at hf₂
      rw [← hkeep, ← hf₂, haccess, if_pos hx]
    · have hin : AbControl f ∧ start ≤ x ∧ x < start + pageAlign len := by
        by_contra hin
        exact hdiff (iff_of_false hx hin)
      obtain ⟨f₂, hf₂, hbits⟩ := h.inside x f hf hin.1 hin.2.1 hin.2.2
      rw [hf', Option.some.injEq] at hf₂
      rw [← hbits, ← hf₂, haccess, if_neg hx]
  · intro h
    have h := h v lo hi hlen hfind hrange
    have hw := hwalked True fun _ x f hf hx hxs hsystem =>
      h x f hf fun hiff => hsystem (hiff.mp ⟨hx, hxs⟩).1
    -- The bits that a page has afterwards, whether it was walked over or not.
    have hbits : ∀ x f, flagsAt (g.areas t) x = some f →
        ∃ f', flagsAt ((sysAbsysMprotect lim g t start len prot).2.areas t) x = some f' ∧
          f' &&& VmFlag.access =
            if AbControl f ∧ start ≤ x ∧ x < start + pageAlign len then
              requestedBits (g.task t) prot else f &&& VmFlag.access := by
      intro x f hf
      obtain ⟨f', hf', -, haccess, -⟩ := hw.mapped x f hf
      refine ⟨f', by rw [hareas, hf'], ?_⟩
      rw [haccess]
      by_cases hiff : (lo ≤ x ∧ x < hi) ↔ AbControl f ∧ start ≤ x ∧ x < start + pageAlign len
      · exact if_congr hiff rfl rfl
      · rw [h x f hf hiff, ite_self, ite_self]
    refine ⟨fun x f hf hcontrol hx hxs => ?_, fun x f hf hout => ?_, fun x f hf hsystem => ?_,
      fun x hx => ?_, fun u hu => ?_⟩
    · obtain ⟨f', hf', haccess⟩ := hbits x f hf
      exact ⟨f', hf', by rw [haccess, if_pos ⟨hcontrol, hx, hxs⟩]⟩
    · obtain ⟨f', hf', haccess⟩ := hbits x f hf
      exact ⟨f', hf', by rw [haccess, if_neg hout]⟩
    · obtain ⟨f', hf', -, -, hsame⟩ := hw.mapped x f hf
      rw [hareas, hf', hsame trivial hsystem]
    · rw [hareas]
      exact (hw.unmapped x hx).1
    · rw [hset, g.setMm_task_of_ne hu]

/-- A kernel that refuses nothing. -/
def roomyProtect : ProtectLimits where
  maxMapCount := 65530
  enoughMemory := fun _ => true
  fileMprotect := fun _ _ _ => 0

/-- The first of two pages of the arbiter becomes read-only. -/
theorem sysAbsysMprotect_protected_page :
    MprotectPromise (pairOf [anonArea 0x80000000 0x80002000 0x2000007b#32 0x80000] [])
      (sysAbsysMprotect roomyProtect
        (pairOf [anonArea 0x80000000 0x80002000 0x2000007b#32 0x80000] []) 1 0x80000000 0x1000
        ProtFlag.read).2 1 0x80000000 0x1000 ProtFlag.read := by
  refine (sysAbsysMprotect_protected_iff roomyProtect _ 1 0x80000000 0x1000 ProtFlag.read
    (by decide) (by decide +kernel)).mpr ?_
  intro v lo hi _ hfind hrange x f hf hdiff
  obtain ⟨w, hw, -, rfl⟩ := mem_of_flagsAt hf
  obtain rfl : w = anonArea 0x80000000 0x80002000 0x2000007b#32 0x80000 := by
    simpa [pairOf, taskOf] using hw
  obtain rfl : anonArea 0x80000000 0x80002000 0x2000007b#32 0x80000 = v := by
    simpa [pairOf, taskOf, findVma, above, anonArea] using hfind
  obtain ⟨rfl, rfl⟩ : 0x80000000 = lo ∧ 0x80001000 = hi := by
    simpa [protectRange, ProtFlag.read, ProtFlag.grows, ProtFlag.growsDown, ProtFlag.growsUp,
      anonArea, pageAlign] using hrange
  refine absurd (Iff.intro ?_ And.right) hdiff
  exact fun hx => ⟨by decide, hx⟩

/-- A writable page of the system in the interval loses its access bits. -/
theorem sysAbsysMprotect_system :
    AreasOk ((pairOf [anonArea 0x80000000 0x80001000 0x73#32 0x80000] []).areas 1) ∧
    (sysAbsysMprotect roomyProtect (pairOf [anonArea 0x80000000 0x80001000 0x73#32 0x80000] []) 1
      0x80000000 0x1000 0).1 = 0 ∧
    ¬MprotectPromise (pairOf [anonArea 0x80000000 0x80001000 0x73#32 0x80000] [])
      (sysAbsysMprotect roomyProtect (pairOf [anonArea 0x80000000 0x80001000 0x73#32 0x80000] [])
        1 0x80000000 0x1000 0).2 1 0x80000000 0x1000 0 := by
  refine ⟨by decide, by decide +kernel, fun h => ?_⟩
  have hsystem := h.system 0x80000000 0x73#32 (by decide) (by decide)
  revert hsystem
  decide +kernel

end ArbiterThread
