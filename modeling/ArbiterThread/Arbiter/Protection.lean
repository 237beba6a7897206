import ArbiterThread.Malloc.Units
import ArbiterThread.Arbiter.Rpc

/-!
# Page Protections

What the clients can access, over whole runs of the arbiter.

The kernel is the one the arbiter is written for: moving the break maps pages
for reading and writing in every process, mapping an area gives access to one
process only, changing a protection changes it for one process, and a new
process starts with its parent's protections.

On top of it the allocator hands out units. The process that asks for one has
full access to it whatever its label allows, and where the request turns out not
to fit, every process does. The other clients get what their labels allow, and
so does a new client on all the units there are.

## Main definitions

* `PageKernel`, `pageOps`: The kernel.
* `Protected`: No client has more access to a unit than its label allows.
* `UnitOk`: A new unit may be left accessible to whom it is left accessible.
* `ProtOk`: Every new unit a request needs is so, and a new client is new.
* `ProtRun`: Runs of the arbiter, with processes being cloned.

## Theorems

* `protLoop_prot`, `updateKern_prot`: What the two loops install.
* `Shielded.newUnit`: A new unit keeps the invariant.
* `protections_bounded`: In runs whose requests meet the condition, no client has
  more access than its label allows.
* `protections_bounded_fails`: A client that reads what it may only write.
-/

namespace ArbiterThread

open Exec

/-! ### The kernel -/

/-- The page is touched by the `len` bytes at `addr`. -/
def inPages (addr len page : Nat) : Prop :=
  addr / 4096 ≤ page ∧ page < (addr + len + 4095) / 4096

instance (addr len page : Nat) : Decidable (inPages addr len page) :=
  inferInstanceAs (Decidable (_ ∧ _))

structure PageKernel where
  /-- the protection of a page in a process -/
  prot : Nat → Nat → MemProt
  brk : Nat
  /-- which of the calls that may fail succeed, by their number -/
  grants : Nat → Bool
  calls : Nat

namespace PageKernel

/-- Change the protection of a range of pages, in each process by itself. -/
def update (k : PageKernel) (addr len : Nat) (f : Nat → MemProt → MemProt) : PageKernel :=
  { k with
    prot := fun pid page => if inPages addr len page then f pid (k.prot pid page)
      else k.prot pid page }

def called (k : PageKernel) : PageKernel := { k with calls := k.calls + 1 }

/-- A new process starts with its parent's protections. -/
def clone (k : PageKernel) (parent child : Nat) : PageKernel :=
  { k with prot := fun pid => if pid = child then k.prot parent else k.prot pid }

end PageKernel

def pageOps : KernelOps PageKernel where
  absysBrk := fun k _ addr =>
    if k.grants k.calls = true ∧ k.brk ≤ addr then
      (addr, { (k.update k.brk (addr - k.brk) (fun _ _ => .protRW)).called with brk := addr })
    else (k.brk, k.called)
  absysMmap := fun k pid addr len p =>
    if k.grants k.calls = true then
      (addr, (k.update addr len (fun q _ => if q = pid then p else .protN)).called)
    else (morecoreFailure, k.called)
  absysMunmap := fun k _ addr len => k.update addr len (fun _ _ => .protN)
  absysMprotect := fun k pid addr len p =>
    (0, k.update addr len (fun q old => if q = pid then p else old))
  oops := fun _ _ => false
  oops_mprotect := fun _ _ _ _ _ => rfl
  oops_brk := fun _ _ _ => rfl
  oops_mmap := fun _ _ _ _ _ => rfl

/-! ### The two loops -/

section

variable (pid addr len : Nat) (L : Label)

theorem protLoop_brk (cs : List ClientDesc) (k : PageKernel) :
    (protLoop pageOps pid addr len L cs k).brk = k.brk := by
  induction cs generalizing k with
  | nil => rfl
  | cons c cs ih =>
    unfold protLoop
    split
    · exact ih k
    · exact ih _

/-- A page outside the range and a process without a descriptor are left alone,
    and so is the process that made the request. -/
theorem protLoop_prot_of_not {q page : Nat} (cs : List ClientDesc)
    (h : ¬ inPages addr len page ∨ ∀ c ∈ cs, c.pid = q → c.pid = pid) (k : PageKernel) :
    (protLoop pageOps pid addr len L cs k).prot q page = k.prot q page := by
  induction cs generalizing k with
  | nil => rfl
  | cons c cs ih =>
    have htail := h.imp_right (fun hall c' hc' => hall c' (List.mem_cons_of_mem c hc'))
    unfold protLoop
    split
    · exact ih htail k
    · rename_i hc
      rw [ih htail]
      simp only [pageOps, PageKernel.update]
      rcases h with hout | hall
      · rw [if_neg hout]
      · have hq : ¬ q = c.pid := fun heq => hc (hall c List.mem_cons_self heq.symm)
        rw [if_neg hq, ite_self]

/-- The other clients get what their labels allow. -/
theorem protLoop_prot {page : Nat} (hpage : inPages addr len page) {cs : List ClientDesc}
    (hpids : (cs.map ClientDesc.pid).Nodup) {c : ClientDesc} (hc : c ∈ cs) (hpid : c.pid ≠ pid)
    (k : PageKernel) :
    (protLoop pageOps pid addr len L cs k).prot c.pid page =
      checkMemProt c.label c.ownership L := by
  induction cs generalizing k with
  | nil => exact absurd hc List.not_mem_nil
  | cons d cs ih =>
    rw [List.map_cons, List.nodup_cons] at hpids
    rcases List.mem_cons.mp hc with rfl | htail
    · -- nobody behind it has the same process id
      unfold protLoop
      rw [if_neg hpid, protLoop_prot_of_not]
      · simp only [pageOps, PageKernel.update, if_pos hpage, if_true]
      · exact Or.inr (fun c' hc' heq => absurd (heq ▸ List.mem_map_of_mem hc') hpids.1)
    · unfold protLoop
      split
      · exact ih hpids.2 htail k
      · exact ih hpids.2 htail _

end

/-- The other processes are left alone. -/
theorem updateKern_prot_of_ne (c : ClientDesc) (s : State PageKernel) {q page : Nat}
    (hq : q ≠ c.pid) (us : List Nat) (k : PageKernel) :
    (updateKern pageOps c s us k).prot q page = k.prot q page := by
  induction us generalizing k with
  | nil => rfl
  | cons u us ih =>
    unfold updateKern
    rw [ih]
    simp only [pageOps, PageKernel.update, if_neg hq, ite_self]

theorem updateKern_brk (c : ClientDesc) (s : State PageKernel) (us : List Nat)
    (k : PageKernel) : (updateKern pageOps c s us k).brk = k.brk := by
  induction us generalizing k with
  | nil => rfl
  | cons u us ih =>
    unfold updateKern
    exact ih _

/-- A new client gets on a page what its label allows, if all units of the page
    have one label. -/
theorem updateKern_prot (c : ClientDesc) (s : State PageKernel) {page : Nat} {L : Label}
    {us : List Nat} (hL : ∀ u ∈ us, inPages (s.units u).addr (s.units u).length page →
      (s.mstates (s.units u).unitAv).label = L)
    (k : PageKernel) (hin : (∃ u ∈ us, inPages (s.units u).addr (s.units u).length page) ∨
      k.prot c.pid page = checkMemProt c.label c.ownership L) :
    (updateKern pageOps c s us k).prot c.pid page = checkMemProt c.label c.ownership L := by
  induction us generalizing k with
  | nil => exact hin.resolve_left (fun h => absurd h.choose_spec.1 List.not_mem_nil)
  | cons u us ih =>
    have htail := fun v hv => hL v (List.mem_cons_of_mem u hv)
    unfold updateKern
    apply ih htail
    by_cases hu : inPages (s.units u).addr (s.units u).length page
    · right
      simp only [pageOps, PageKernel.update, if_pos hu, if_true]
      rw [hL u List.mem_cons_self hu]
    · rcases hin with ⟨v, hv, hpage⟩ | hdone
      · left
        rcases List.mem_cons.mp hv with rfl | hv
        · exact absurd hpage hu
        · exact ⟨v, hv, hpage⟩
      · right
        simp only [pageOps, PageKernel.update, if_neg hu]
        exact hdone

/-! ### The invariant -/

/-- No client has more access to a region than its label allows. For this to go
    on, a process has one descriptor, a page has one label, and the arbiter's idea
    of the break is the kernel's. -/
structure Shielded (v : View PageKernel) : Prop where
  prot : ∀ c ∈ v.clients, ∀ r ∈ v.regions, ∀ page, inPages r.addr r.length page →
    v.kern.prot c.pid page ≤ checkMemProt c.label c.ownership r.label
  pids : (v.clients.map ClientDesc.pid).Nodup
  labels : ∀ r ∈ v.regions, ∀ r' ∈ v.regions, ∀ page, inPages r.addr r.length page →
    inPages r'.addr r'.length page → r.label = r'.label
  brk : v.curbrk = 0 ∨ (v.curbrk = v.kern.brk ∧ v.curbrk % 4096 = 0)

/-- One more region, when the protections of its pages are right and those of other
    pages are what they were. -/
theorem Shielded.cons {v : View PageKernel} (hv : Shielded v) {addr len : Nat} {L : Label}
    {k : PageKernel} {b : Nat}
    (hin : ∀ page, inPages addr len page → ∀ c ∈ v.clients,
      k.prot c.pid page ≤ checkMemProt c.label c.ownership L)
    (hout : ∀ page, ¬ inPages addr len page → ∀ q, k.prot q page = v.kern.prot q page)
    (hlabel : ∀ r ∈ v.regions, ∀ page, inPages addr len page → inPages r.addr r.length page →
      r.label = L)
    (hbrk : b = 0 ∨ (b = k.brk ∧ b % 4096 = 0)) :
    Shielded { v.addRegion addr len L with kern := k, curbrk := b } := by
  refine ⟨?_, hv.pids, ?_, hbrk⟩
  · intro c hc r hr page hpage
    by_cases hnew : inPages addr len page
    · have hrL : r.label = L := by
        rcases List.mem_cons.mp hr with rfl | hr
        · rfl
        · exact hlabel r hr page hnew hpage
      rw [hrL]
      exact hin page hnew c hc
    · rcases List.mem_cons.mp hr with rfl | hr
      · exact absurd hpage hnew
      · simp only [hout page hnew]
        exact hv.prot c hc r hr page hpage
  · intro r hr r' hr' page hpage hpage'
    rcases List.mem_cons.mp hr with rfl | hr
    · rcases List.mem_cons.mp hr' with rfl | hr'
      · rfl
      · exact (hlabel r' hr' page hpage hpage').symm
    · rcases List.mem_cons.mp hr' with rfl | hr'
      · exact hlabel r hr page hpage' hpage
      · exact hv.labels r hr r' hr' page hpage hpage'

/-- A range of pages that was made accessible to one process, or to every one, and
    then restricted for the other clients. -/
theorem protLoop_le {cs : List ClientDesc} (hpids : (cs.map ClientDesc.pid).Nodup)
    {pid addr len page : Nat} (hpage : inPages addr len page) {L : Label} {c : ClientDesc}
    (hc : c ∈ cs) (hmine : c.pid = pid → checkMemProt c.label c.ownership L = .protRW)
    (k : PageKernel) :
    (protLoop pageOps pid addr len L cs k).prot c.pid page ≤
      checkMemProt c.label c.ownership L := by
  by_cases hpid : c.pid = pid
  · rw [hmine hpid]
    cases (protLoop pageOps pid addr len L cs k).prot c.pid page with
    | protN => decide
    | protR => decide
    | protRW => decide
  · rw [protLoop_prot pid addr len L hpage hpids hc hpid]
    exact Nat.le_refl _

/-! ### New units -/

/-- Where the break is. -/
def State.brk (s : State PageKernel) : Nat := if s.curbrk = 0 then s.kern.brk else s.curbrk

/-- The address and the length of the unit a request gets. -/
def newArea (s : State PageKernel) (av nb : Nat) : Nat × Nat :=
  let size := mmapSize (s.mstates av) nb
  if TakesMmap s av nb then (getUnmappedArea s.units s.mmappedUstateList size, size)
  else (s.brk, unitSize)

/-- A new unit for client `c` may be left as it is: it is not on a page with a unit
    of another label, and all it is left accessible to may read and write it. These
    are the process that asked for it, and every client if the request turns out
    not to fit, because then no protections are set. -/
structure UnitOk (c : ClientDesc) (L : Label) (nb av : Nat) (s : State PageKernel) : Prop where
  alone : ∀ u ∈ s.ustateList, ∀ page, inPages (newArea s av nb).1 (newArea s av nb).2 page →
    inPages (s.units u).addr (s.units u).length page →
    (s.mstates (s.units u).unitAv).label = L
  access : ∀ c' ∈ s.clients, c'.pid = c.pid ∨ (¬ TakesMmap s av nb ∧ unitTopSize < nb + minSize) →
    checkMemProt c'.label c'.ownership L = .protRW

theorem UnitOk.labels {c : ClientDesc} {L : Label} {nb av : Nat} {s : State PageKernel}
    (h : UnitOk c L nb av s) : ∀ r ∈ s.view.regions, ∀ page,
    inPages (newArea s av nb).1 (newArea s av nb).2 page → inPages r.addr r.length page →
    r.label = L := by
  intro r hr page hnew hpage
  rcases List.mem_map.mp hr with ⟨u, hu, rfl⟩
  exact h.alone u hu page hnew hpage

/-- The break that the allocator uses is the kernel's, and asking for it changes no
    protection. -/
theorem oldBrk_spec {s : State PageKernel} (hs : Shielded s.view) (pid : Nat)
    (hfirst : s.curbrk = 0 → (s.view.oldBrk pageOps pid).1 = channelAddr) :
    (s.view.oldBrk pageOps pid).1 = s.brk ∧ (s.view.oldBrk pageOps pid).2.brk = s.brk ∧
      (s.view.oldBrk pageOps pid).2.prot = s.kern.prot ∧ s.brk % 4096 = 0 := by
  unfold View.oldBrk State.brk at *
  by_cases hzero : s.curbrk = 0
  · have hzero' : s.view.curbrk = 0 := hzero
    rw [if_pos hzero'] at hfirst ⊢
    rw [if_pos hzero]
    have hstart := hfirst hzero
    simp only [pageOps] at hstart ⊢
    split at hstart
    · exact absurd hstart.symm (Nat.succ_ne_zero _)
    · rename_i hno
      rw [if_neg hno]
      refine ⟨rfl, rfl, rfl, ?_⟩
      rw [show s.kern.brk = channelAddr from hstart]
      decide
  · have hzero' : ¬ s.view.curbrk = 0 := hzero
    obtain ⟨hbrk, halign⟩ := hs.brk.resolve_left hzero'
    rw [if_neg hzero', if_neg hzero]
    exact ⟨rfl, hbrk.symm, rfl, halign⟩

/-- If the answer is the break asked for, the kernel did move it. -/
theorem absysBrk_of_le {k : PageKernel} {pid addr : Nat} (hlt : k.brk < addr)
    (h : addr ≤ (pageOps.absysBrk k pid addr).1) :
    pageOps.absysBrk k pid addr = (addr,
      { (k.update k.brk (addr - k.brk) (fun _ _ => .protRW)).called with brk := addr }) := by
  by_cases hgrants : k.grants k.calls = true ∧ k.brk ≤ addr
  · exact if_pos hgrants
  · have hno : pageOps.absysBrk k pid addr = (k.brk, k.called) := if_neg hgrants
    rw [hno] at h
    exact absurd h (Nat.not_le_of_lt hlt)

theorem inPages_unitTop {addr page : Nat} (h : addr % 4096 = 0) :
    inPages addr unitTopSize page ↔ inPages addr unitSize page := by
  unfold inPages unitTopSize unitSize
  omega

theorem Shielded.newUnit {c : ClientDesc} {L : Label} {nb av : Nat} {s : State PageKernel}
    {v : View PageKernel} (hs : Shielded s.view) (hok : UnitOk c L nb av s)
    (hnew : NewUnit pageOps c.pid nb av L s v) : Shielded v := by
  cases hnew with
  | mmap size mm htakes hsize hmm hgranted =>
    have harea : newArea s av nb = (mm, size) := by
      rw [hmm, hsize]
      exact if_pos htakes
    have hlabels := hok.labels
    rw [harea] at hlabels
    -- the answer is the address asked for, so the kernel did map the area
    have hgrants : s.kern.grants s.kern.calls = true := by
      by_contra hno
      have hfail : (pageOps.absysMmap s.kern c.pid mm size .protRW).1 = morecoreFailure := by
        simp only [pageOps, if_neg hno]
      have hne := htakes.2.2.2
      rw [← hsize, ← hmm, ← hgranted] at hne
      exact hne hfail
    refine hs.cons ?_ ?_ hlabels ?_
    · intro page hpage c' hc'
      exact protLoop_le hs.pids hpage hc' (fun h => hok.access c' hc' (Or.inl h)) _
    · intro page hpage q
      rw [protLoop_prot_of_not _ _ _ _ _ (Or.inl hpage)]
      simp only [State.view, pageOps, if_pos hgrants, PageKernel.called, PageKernel.update,
        if_neg hpage]
    · have hbrk : (pageOps.absysMmap s.kern c.pid mm size .protRW).2.brk = s.kern.brk := by
        simp only [pageOps, if_pos hgrants, PageKernel.called, PageKernel.update]
      rw [protLoop_brk]
      exact hbrk.symm ▸ hs.brk
  | sbrk htakes hfirst hroom hgranted =>
    obtain ⟨hold, hkbrk, hprot, halign⟩ := oldBrk_spec hs c.pid hfirst
    have harea : newArea s av nb = (s.brk, unitSize) := if_neg htakes
    have hlabels := hok.labels
    rw [harea] at hlabels
    unfold View.sbrked
    unfold View.newBrk at *
    rw [hold] at hgranted ⊢
    generalize hk : (s.view.oldBrk pageOps c.pid).2 = k at *
    rw [absysBrk_of_le (by unfold unitSize; omega) hgranted, hkbrk, Nat.add_sub_cancel_left]
    refine hs.cons ?_ ?_ hlabels ?_
    · intro page hpage c' hc'
      by_cases hfits : nb + minSize ≤ unitTopSize
      · rw [if_pos hfits]
        exact protLoop_le hs.pids ((inPages_unitTop halign).mpr hpage) hc'
          (fun h => hok.access c' hc' (Or.inl h)) _
      · rw [hok.access c' hc' (Or.inr ⟨htakes, by omega⟩), if_neg hfits]
        simp only [PageKernel.called, PageKernel.update, if_pos hpage]
        exact Nat.le_refl _
    · intro page hpage q
      have hmap : ({ (k.update s.brk unitSize (fun _ _ => .protRW)).called with
          brk := s.brk + unitSize } : PageKernel).prot q page = s.kern.prot q page := by
        simp only [PageKernel.called, PageKernel.update, if_neg hpage, hprot]
      by_cases hfits : nb + minSize ≤ unitTopSize
      · rw [if_pos hfits, protLoop_prot_of_not _ _ _ _ _
          (Or.inl (fun h => hpage ((inPages_unitTop halign).mp h)))]
        exact hmap
      · rw [if_neg hfits]
        exact hmap
    · right
      refine ⟨?_, by unfold unitSize; omega⟩
      by_cases hfits : nb + minSize ≤ unitTopSize
      · rw [if_pos hfits, protLoop_brk]
      · rw [if_neg hfits]

/-- Unmapping an area takes access away. -/
theorem shielded_releases : Releases pageOps Shielded := by
  intro v pid addr size regions hv hsub
  refine ⟨?_, hv.pids, ?_, hv.brk⟩
  · intro c hc r hr page hpage
    simp only [pageOps, PageKernel.update]
    by_cases hgone : inPages addr size page
    · rw [if_pos hgone]
      exact Nat.zero_le _
    · rw [if_neg hgone]
      exact hv.prot c hc r (hsub.subset hr) page hpage
  · exact fun r hr r' hr' => hv.labels r (hsub.subset hr) r' (hsub.subset hr')

/-! ### Requests -/

section

variable {K : Type}

/-- If the handler of the request gets a new unit, then `P` of the client, the
    label, the chunk size, the `malloc_state` and the state in which it does. -/
def AllocOk (P : ClientDesc → Label → Nat → Nat → State K → Prop) (req : Request) (s : State K)
    (c : ClientDesc) : Opcode → Prop
  | .malloc =>
    let L := labelAt req.data 16
    checkLabel c.label c.ownership L none = 0 → MallocOk (P c L) (req.data.load32 12) L s
  | .calloc =>
    let n := req.data.load32 12
    let e := req.data.load32 16
    let L := labelAt req.data 20
    checkLabel c.label c.ownership L none = 0 → ¬ (n ≠ 0 ∧ e ≠ n * e % wordSize / n) →
      MallocOk (P c L) (n * e % wordSize) L s
  | .realloc =>
    ∀ L ∈ blockLabelAt c s (req.data.load32 12), checkLabel c.label c.ownership L none = 0 →
      ReallocOk (fun bytes L s => MallocOk (P c L) bytes L s) True (req.data.load32 12)
        (req.data.load32 16) L s
  | _ => True

/-- A property of views is kept by the handlers that leave the client table alone,
    if it is kept by new units that meet `P` and by releases. -/
theorem Seen.dispatch {ops : KernelOps K} {I : View K → Prop}
    {P : ClientDesc → Label → Nat → Nat → State K → Prop} (hfree : Releases ops I)
    (c : ClientDesc)
    (hnew : ∀ L nb av s v, I s.view → P c L nb av s → NewUnit ops c.pid nb av L s v → I v)
    {s : State K} (hs : Seen I s) (req : Request) {op : Opcode}
    (hop : op ≠ .createCat ∧ op ≠ .fork ∧ op ≠ .pthreadJoin) (hok : AllocOk P req s c op) :
    wp (dispatch ops c req op) (fun _ s' => Seen I s') (fun _ _ => True) s := by
  have hM : ∀ bytes L s, Seen I s → MallocOk (P c L) bytes L s →
      Ends (Seen I) (fun _ => True) (ArbiterThread.ablibMalloc ops c.pid bytes L) s :=
    fun bytes L s hs hok => hs.ablibMalloc (hnew L) bytes hok
  have hsections := Seen.sections hfree
  -- only what asks for memory can make a unit, and it does by the same call
  cases op with
  | createCat => exact absurd rfl hop.1
  | fork => exact absurd rfl hop.2.1
  | pthreadJoin => exact absurd rfl hop.2.2
  | malloc =>
    change wp (handleMallocRpc ops c req) _ _ s
    rw [wp_handleMallocRpc]
    split
    · exact hs
    · rename_i hflow
      exact hM _ _ s hs (hok (not_not.mp hflow))
  | calloc =>
    change wp (handleCallocRpc ops c req) _ _ s
    rw [wp_handleCallocRpc]
    split
    · exact hs
    · rename_i hflow
      exact hsections.ablibCalloc hM _ _ _ hs (hok (not_not.mp hflow))
  | free =>
    change wp (handleFreeRpc ops c req) _ _ s
    rw [wp_handleFreeRpc]
    split
    · trivial
    · split
      · exact hs
      · exact hsections.ablibFree c.pid _ hs
  | realloc =>
    change wp (handleReallocRpc ops c req) _ _ s
    rw [wp_handleReallocRpc]
    cases hL : blockLabelAt c s (req.data.load32 12) with
    | none => trivial
    | some L =>
      by_cases hflow : checkLabel c.label c.ownership L none = 0
      · simp only [hflow, ne_eq, not_true_eq_false, if_false]
        exact hsections.ablibRealloc hM _ _ L hs (fun _ _ h => h) (hok L hL hflow)
      · simp only [ne_eq, hflow, not_false_eq_true, if_true]
        exact hs
  | getLabel => exact (wp_pure ..).mpr hs
  | getOwnership => exact (wp_pure ..).mpr hs
  | rpc => exact (wp_pure ..).mpr hs
  | getMemLabel =>
    change wp (handleGetMemLabelRpc req) _ _ s
    rw [wp_handleGetMemLabelRpc]
    split
    · exact hs
    · trivial

end

/-- A list in which the element found is replaced by one that looks the same. -/
theorem map_set_findIdx {α β : Type} (f : α → β) {p : α → Bool} {l : List α} {a b : α}
    (ha : l.find? p = some a) (hf : f b = f a) :
    (l.set (l.findIdx p) b).map f = l.map f := by
  induction l with
  | nil => rfl
  | cons x xs ih =>
    rw [List.find?_cons] at ha
    rw [List.findIdx_cons]
    cases hx : p x with
    | true =>
      rw [hx] at ha
      cases ha
      simp only [cond_true, List.set_cons_zero, List.map_cons, hf]
    | false =>
      rw [hx] at ha
      simp only [cond_false, List.set_cons_succ, List.map_cons, ih ha]

theorem Seen.afterGrant {s : State PageKernel} (hs : Seen Shielded s) {mine : ClientDesc → Bool}
    {c : ClientDesc} (hc : s.clients.find? mine = some c) (t : Cat) :
    Seen Shielded (afterGrant mine c t s) := by
  refine ⟨⟨hs.1.units, hs.1.avs, hs.1.start⟩, ?_, ?_, hs.2.labels, hs.2.brk⟩
  · intro c' hc' r hr page hpage
    rcases List.mem_or_eq_of_mem_set hc' with hold | rfl
    · exact hs.2.prot c' hold r hr page hpage
    · -- more ownership never takes access away
      have hmono := checkMemProt_mono c.label r.label
        (fun cat => addOnwership_has c.ownership (createCat s.catGen t).2 cat)
      exact Nat.le_trans (hs.2.prot c (List.mem_of_find?_eq_some hc) r hr page hpage) hmono
  · have hpids := map_set_findIdx ClientDesc.pid hc
      (b := { c with ownership := (granted c.ownership s.catGen t).1 }) rfl
    exact hpids.symm ▸ hs.2.pids

theorem Seen.forked {s : State PageKernel} (hs : Seen Shielded s) {c : ClientDesc}
    (hfresh : ∀ c' ∈ s.clients, c'.pid ≠ c.pid) :
    Seen Shielded
      { s with
        clients := s.clients ++ [c]
        kern := updateKern pageOps c { s with clients := s.clients ++ [c] } s.ustateList
          s.kern } := by
  set t : State PageKernel := { s with clients := s.clients ++ [c] }
  refine ⟨⟨hs.1.units, hs.1.avs, hs.1.start⟩, ?_, ?_, hs.2.labels, ?_⟩
  · intro c' hc' r hr page hpage
    rcases List.mem_append.mp hc' with hold | hnew
    · have hkern : (updateKern pageOps c t s.ustateList s.kern).prot c'.pid page = _ :=
        updateKern_prot_of_ne c t (hfresh c' hold) s.ustateList s.kern
      have hprot := hs.2.prot c' hold r hr page hpage
      exact hkern.symm ▸ hprot
    · rw [List.mem_singleton.mp hnew]
      rcases List.mem_map.mp hr with ⟨u, hu, rfl⟩
      have hlabel := fun v hv hv' => hs.2.labels (s.region v) (List.mem_map_of_mem hv)
        (s.region u) (List.mem_map_of_mem hu) page hv' hpage
      have hkern := updateKern_prot c t hlabel s.kern (Or.inl ⟨u, hu, hpage⟩)
      exact Nat.le_of_eq (congrArg MemProt.rank hkern)
  · change ((s.clients ++ [c]).map ClientDesc.pid).Nodup
    rw [List.map_append, List.nodup_append]
    refine ⟨hs.2.pids, List.nodup_singleton _, ?_⟩
    intro a ha b hb hab
    rcases List.mem_map.mp ha with ⟨c', hc', rfl⟩
    rw [List.map_singleton, List.mem_singleton] at hb
    exact hfresh c' hc' (hab.trans hb)
  · rcases hs.2.brk with hzero | hbrk
    · exact Or.inl hzero
    · exact Or.inr ⟨hbrk.1.trans (updateKern_brk c t s.ustateList s.kern).symm, hbrk.2⟩

/-- Forgetting clients. -/
theorem Seen.sublist {s : State PageKernel} (hs : Seen Shielded s) {cs : List ClientDesc}
    (hsub : cs.Sublist s.clients) : Seen Shielded { s with clients := cs } := by
  refine ⟨⟨hs.1.units, hs.1.avs, hs.1.start⟩, ?_, ?_, hs.2.labels, hs.2.brk⟩
  · exact fun c hc => hs.2.prot c (hsub.subset hc)
  · exact hs.2.pids.sublist (hsub.map ClientDesc.pid)

/-- Every new unit the request needs may be left as it is, and a process that is
    forked has no descriptor yet. -/
def ProtOk (req : Request) (s : State PageKernel) : Prop :=
  ∀ c op, Reaches req s c op → AllocOk UnitOk req s c op ∧
    (op = .fork → checkLabel c.label c.ownership (forked req).label
      (some (forked req).ownership) = 0 → ∀ c' ∈ s.clients, c'.pid ≠ (forked req).pid)

theorem Seen.handleClientRpc {s : State PageKernel} (hs : Seen Shielded s) {req : Request}
    (hok : ProtOk req s) :
    wp (handleClientRpc pageOps req) (fun _ s' => Seen Shielded s') (fun _ _ => True) s := by
  refine wp_handleClientRpc (fun _ => hs) (fun c op hreach => ?_)
  obtain ⟨halloc, hfork⟩ := hok c op hreach
  -- the three requests about the table, and all others
  by_cases htable : op ≠ .createCat ∧ op ≠ .fork ∧ op ≠ .pthreadJoin
  · exact hs.dispatch shielded_releases c
      (fun L nb av s v hv hunit hnew => hv.newUnit hunit hnew) req htable halloc
  cases op with
  | createCat =>
    change wp (handleCreateCatRpc c req) _ _ s
    rw [wp_handleCreateCatRpc]
    split
    · exact hs.afterGrant hreach.2.1 _
    · trivial
  | fork =>
    change wp (handleForkRpc pageOps c req) _ _ s
    rw [wp_handleForkRpc]
    split
    · exact hs
    · rename_i hflow
      have hfresh := hfork rfl (not_not.mp hflow)
      exact wp_mallocUpdate_of (hs.forked hfresh) trivial
  | pthreadJoin =>
    change wp (handlePthreadJoinRpc c req) _ _ s
    rw [wp_handlePthreadJoinRpc]
    split
    · exact hs
    · split
      · exact hs
      · exact hs.sublist List.eraseP_sublist
  | malloc | calloc | realloc | free | getLabel | getOwnership | getMemLabel | rpc =>
    exact absurd ⟨by decide, by decide, by decide⟩ htable

/-! ### Runs -/

/-- The descriptor `init_first_child` makes. Its label and ownership are whatever
    `malloc` left there, because only the first four bytes are cleared. -/
def initFirstChild (pid : Nat) (L : Label) (O : Own) : ClientDesc := ⟨clientAddrOf pid, pid, L, O⟩

/-- Runs of the arbiter, in which requests meet `Ok` and processes are cloned. A new
    process has an id that no client has. -/
inductive ProtRun (Ok : Request → State PageKernel → Prop) (s₀ : State PageKernel) :
    State PageKernel → Prop
  | start : ProtRun Ok s₀ s₀
  | request {s s' : State PageKernel} {rply : Option Reply} (req : Request) (h : ProtRun Ok s₀ s)
      (hok : Ok req s) (hs : handleClientRpc pageOps req s = .ok rply s') : ProtRun Ok s₀ s'
  | clone {s : State PageKernel} (parent child : Nat) (h : ProtRun Ok s₀ s)
      (hnew : ∀ c ∈ s.clients, c.pid ≠ child) :
      ProtRun Ok s₀ { s with kern := s.kern.clone parent child }

/-- No client has more access to a unit than its label allows. -/
def Protected (s : State PageKernel) : Prop :=
  ∀ c ∈ s.clients, ∀ u ∈ s.ustateList, ∀ page,
    inPages (s.units u).addr (s.units u).length page →
    s.kern.prot c.pid page ≤
      checkMemProt c.label c.ownership (s.mstates (s.units u).unitAv).label

theorem Seen.clone {s : State PageKernel} (hs : Seen Shielded s) (parent : Nat) {child : Nat}
    (hnew : ∀ c ∈ s.clients, c.pid ≠ child) :
    Seen Shielded { s with kern := s.kern.clone parent child } := by
  refine ⟨⟨hs.1.units, hs.1.avs, hs.1.start⟩, ?_, hs.2.pids, hs.2.labels, hs.2.brk⟩
  intro c hc r hr page hpage
  simp only [State.view, PageKernel.clone, if_neg (hnew c hc)]
  exact hs.2.prot c hc r hr page hpage

theorem seen_start (k : PageKernel) (c : ClientDesc) : Seen Shielded (State.start k [c]) := by
  refine ⟨⟨?_, ?_, fun _ => rfl⟩, ?_, List.nodup_singleton _, ?_, Or.inl rfl⟩
  · exact fun u hu => absurd hu List.not_mem_nil
  · exact fun av hav => absurd hav List.not_mem_nil
  · exact fun c hc r hr => absurd hr List.not_mem_nil
  · exact fun r hr => absurd hr List.not_mem_nil

theorem ProtRun.seen {s₀ s : State PageKernel} (h₀ : Seen Shielded s₀) (h : ProtRun ProtOk s₀ s) :
    Seen Shielded s := by
  induction h with
  | start => exact h₀
  | request req _ hok hs ih =>
    have hstep := ih.handleClientRpc hok
    exact wp_run (Q := fun _ s' => Seen Shielded s') hstep hs
  | clone parent child _ hnew ih => exact ih.clone parent hnew

/-- From the state in which `main` enters `server_loop`, as long as requests meet the
    condition, no client has more access to a unit than its label allows. -/
theorem protections_bounded (k : PageKernel) (pid : Nat) (L : Label) (O : Own)
    (s : State PageKernel)
    (hrun : ProtRun ProtOk (State.start k [initFirstChild pid L O]) s) : Protected s := by
  have hseen := hrun.seen (seen_start k (initFirstChild pid L O))
  intro c hc u hu page hpage
  exact hseen.2.prot c hc (s.region u) (List.mem_map_of_mem hu) page hpage

/-- A request of client 7 for 16 bytes whose label has at most one category. -/
def mallocReq (cat : Cat) : Request where
  pktSize := 24
  data := fun i =>
    ([0xDE, 0xC0, 0xAB, 0, 24, 0, 0, 0, 2, 0, 0, 0, 16, 0, 0, 0, cat] : List UInt8).getD i 0
  clientAddr := fun i => (clientAddrOf 7).getD i 0
  clientAddrLen := (clientAddrOf 7).length

/-- A kernel in which nothing is mapped and every call succeeds. -/
def freshKernel : PageKernel := ⟨fun _ _ => .protN, channelAddr, fun _ => true, 0⟩

/-- The arbiter with client 7, which has neither label nor ownership. -/
def protStart : State PageKernel :=
  State.start freshKernel [initFirstChild 7 (fun _ => 0) (fun _ => 0)]

/-- Where all units lie below the new one, it is alone on its pages. -/
theorem UnitOk.of_above {c : ClientDesc} {L : Label} {nb av : Nat} {s : State PageKernel}
    (habove : ∀ u ∈ s.ustateList, (s.units u).addr + (s.units u).length ≤ (newArea s av nb).1)
    (halign : (newArea s av nb).1 % 4096 = 0)
    (haccess : ∀ c' ∈ s.clients,
      c'.pid = c.pid ∨ (¬ TakesMmap s av nb ∧ unitTopSize < nb + minSize) →
      checkMemProt c'.label c'.ownership L = .protRW) : UnitOk c L nb av s where
  alone u hu page hnew hold := by
    have hbelow := habove u hu
    unfold inPages at hnew hold
    omega
  access := haccess

/-- The request reaches a handler, and meets what is asked of it there. -/
theorem ProtOk.of_reaches {req : Request} {s : State PageKernel} {c : ClientDesc} {op : Opcode}
    (h : Reaches req s c op) (halloc : AllocOk UnitOk req s c op)
    (hfork : op = .fork → ∀ c' ∈ s.clients, c'.pid ≠ (forked req).pid) : ProtOk req s := by
  rintro c' op' ⟨-, hc, hop⟩
  cases h.2.1.symm.trans hc
  cases h.2.2.symm.trans hop
  exact ⟨halloc, fun hop _ => hfork hop⟩

/-- The first client, which owns the secrecy categories 1 and 2. -/
def owner7 : ClientDesc :=
  initFirstChild 7 (fun _ => 0) (fun j => if j.val = 0 then 1 else if j.val = 1 then 2 else 0)

/-- It forks process 8, with the label that has category 2. -/
def forkReq78 : Request :=
  { mallocReq 0 with
    pktSize := 32
    data := fun i =>
      ([0xDE, 0xC0, 0xAB, 0, 32, 0, 0, 0, 0, 0, 0, 0, 2, 0, 0, 0, 0, 0, 0, 0, 0, 0, 0, 0, 0, 0, 0,
        0, 8] : List UInt8).getD i 0 }

/-- What the request of client 7 for memory with category `cat` meets. -/
def MallocClear (cat : Cat) (s : State PageKernel) : Prop :=
  Reaches (mallocReq cat) s owner7 .malloc ∧
    wp (mallocBeforeAlloc 16 (labelAt (mallocReq cat).data 16))
      (fun r s' => r.2 = none →
        (∀ u ∈ s'.ustateList, (s'.units u).addr + (s'.units u).length ≤
          (newArea s' r.1 (request2size 16)).1) ∧
        (newArea s' r.1 (request2size 16)).1 % 4096 = 0 ∧
        ∀ c' ∈ s'.clients, c'.pid = owner7.pid ∨
          (¬ TakesMmap s' r.1 (request2size 16) ∧ unitTopSize < request2size 16 + minSize) →
          checkMemProt c'.label c'.ownership (labelAt (mallocReq cat).data 16) = .protRW)
      (fun _ _ => True) s

instance (cat : Cat) (s : State PageKernel) : Decidable (MallocClear cat s) :=
  inferInstanceAs (Decidable ((_ ∧ _ ∧ _) ∧ _))

theorem MallocClear.protOk {cat : Cat} {s : State PageKernel} (h : MallocClear cat s) :
    ProtOk (mallocReq cat) s := by
  refine .of_reaches h.1 (fun _ => Or.inr (Or.inr (wp_imp h.2 ?_))) nofun
  intro r s' hs hnone _
  exact .of_above (hs hnone).1 (hs hnone).2.1 (hs hnone).2.2

set_option synthInstance.maxSize 1000 in
/-- Client 7 forks process 8, and asks for memory with category 1 and for memory with the
    empty label. It may read and write both units. Process 8 has no access to the first,
    and may read the second. -/
theorem protections_bounded_malloc :
    ∃ s, ProtRun ProtOk (State.start freshKernel [owner7]) s ∧
      s.clients.map ClientDesc.pid = [7, 8] ∧ s.ustateList = [1, 0] ∧
      (s.kern.prot 7 0x80000 = .protRW ∧ s.kern.prot 7 0x8000a = .protRW) ∧
      (s.kern.prot 8 0x80000 = .protN ∧ s.kern.prot 8 0x8000a = .protR) ∧ Protected s := by
  let s₀ : State PageKernel := State.start (freshKernel.clone 7 8) [owner7]
  have hreach : Reaches forkReq78 s₀ owner7 .fork := by
    unfold Reaches
    decide +kernel
  have hfork : ProtOk forkReq78 s₀ := .of_reaches hreach trivial (fun _ => by decide +kernel)
  obtain ⟨r₁, s₁, h₁, hclear₁, hrest⟩ : ∃ r₁ s₁, handleClientRpc pageOps forkReq78 s₀ = .ok r₁ s₁ ∧
      MallocClear 1 s₁ ∧ wp (handleClientRpc pageOps (mallocReq 1))
        (fun _ s₂ => MallocClear 0 s₂ ∧ wp (handleClientRpc pageOps (mallocReq 0))
          (fun _ s => s.clients.map ClientDesc.pid = [7, 8] ∧ s.ustateList = [1, 0] ∧
            (s.kern.prot 7 0x80000 = .protRW ∧ s.kern.prot 7 0x8000a = .protRW) ∧
            (s.kern.prot 8 0x80000 = .protN ∧ s.kern.prot 8 0x8000a = .protR))
          (fun _ _ => False) s₂)
        (fun _ _ => False) s₁ :=
    exists_ok (by decide +kernel)
  obtain ⟨r₂, s₂, h₂, hclear₂, hrest⟩ := exists_ok hrest
  obtain ⟨r₃, s, h₃, hclients, hunits, hseven, height⟩ := exists_ok hrest
  have hrun : ProtRun ProtOk (State.start freshKernel [owner7]) s :=
    .request (mallocReq 0) (.request (mallocReq 1) (.request forkReq78
      (.clone 7 8 .start (by decide)) hfork h₁) hclear₁.protOk h₂) hclear₂.protOk h₃
  exact ⟨s, hrun, hclients, hunits, hseven, height, protections_bounded _ _ _ _ s hrun⟩

/-- A client that has neither label nor ownership asks for memory with a secrecy category.
    It may write such memory, and gets a unit that it can read as well. -/
theorem protections_bounded_fails :
    ∃ s, ProtRun (fun _ _ => True) protStart s ∧ ¬ Protected s := by
  obtain ⟨rply, s, hs, hclient, hunit, hpage, hprot⟩ : ∃ rply s,
      handleClientRpc pageOps (mallocReq 1) protStart = .ok rply s ∧
      s.clients = protStart.clients ∧ s.ustateList = [0] ∧
      inPages (s.units 0).addr (s.units 0).length (channelAddr / 4096) ∧
      ¬ s.kern.prot 7 (channelAddr / 4096) ≤
        checkMemProt (fun _ => 0) (fun _ => 0) (s.mstates (s.units 0).unitAv).label :=
    exists_ok (by decide +kernel)
  refine ⟨s, .request (mallocReq 1) .start trivial hs, fun h => hprot ?_⟩
  have hmem : initFirstChild 7 (fun _ => 0) (fun _ => 0) ∈ s.clients := by
    rw [hclient]
    exact List.mem_singleton_self _
  have hlisted : 0 ∈ s.ustateList := by
    rw [hunit]
    exact List.mem_singleton_self 0
  exact h _ hmem 0 hlisted _ hpage

end ArbiterThread
