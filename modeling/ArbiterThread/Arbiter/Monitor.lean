import ArbiterThread.Malloc.Store
import ArbiterThread.Arbiter.Answers

/-!
# The Arbiter as a Reference Monitor

The arbiter between its clients and the store of labelled blocks.

Of the eleven requests four reach the allocator, and each of them after a
comparison of labels. `datagram_effect_cases` says so once: a datagram leaves the
heap alone, or it is one call of the allocator that was `Vetted`. A resized block
keeps its label here, since the handler passes on the label of the unit it was
found in, which is what `ab_realloc` cannot say for itself.

What remains is a monitor in front of a store. A client may have blocks of a label
that its own label flows to, and may release or resize a block if its label flows
to the one of the block. Everything else leaves the store as it is. The
processes' own reads and writes are not the arbiter's business, and are events
without a client.

## Main definitions

* `Vetted`: The label of a call was compared.
* `Handled`: What a handler does.
* `MonitorEvent`, `Permits`, `Monitor.Step`: The store, behind a monitor.
* `ArbiterStep`: What datagrams do, with the blocks there are.
* `MonitorOk`: A call is about a block there is, and meets no defect.

## Theorems

* `wp_dispatch`: What the handlers do.
* `datagram_effect_cases`: What a datagram does to the heap.
* `arbiter_refines_monitor`: Every history of the arbiter is one of the monitor.
* `mem_label_answered`: Anybody is told the label a block was requested with.
* `block_out_of_reach`: A client whose label does not flow to that of a block
  neither releases nor changes it.
-/

namespace ArbiterThread

open Exec

variable {K : Type}

/-! ### Vetted calls -/

/-- The call that the handler of a request makes for the client `c`, after its label was
    compared with that of the block. -/
inductive Vetted (c : ClientDesc) (req : Request) (s : State K) : Opcode → Call → Prop
  | malloc (ok : LabelOk c.label c.ownership (labelAt req.data 16) none) :
      Vetted c req s .malloc (.malloc c.pid (req.data.load32 12) (labelAt req.data 16))
  | calloc (ok : LabelOk c.label c.ownership (labelAt req.data 20) none) :
      Vetted c req s .calloc
        (.calloc c.pid (req.data.load32 12) (req.data.load32 16) (labelAt req.data 20))
  | free {L : Label} (label : blockLabelAt c s (req.data.load32 12) = some L)
      (ok : LabelOk c.label c.ownership L none) :
      Vetted c req s .free (.free c.pid (req.data.load32 12))
  | realloc {L : Label} (label : blockLabelAt c s (req.data.load32 12) = some L)
      (ok : LabelOk c.label c.ownership L none) :
      Vetted c req s .realloc (.realloc c.pid (req.data.load32 12) (req.data.load32 16) L)

section

variable {ops : KernelOps K} {c : ClientDesc} {req : Request} {s s' : State K} {op : Opcode}
variable {call : Call}

theorem labelOk_of_check {L : Label} (h : ¬ checkLabel c.label c.ownership L none ≠ 0) :
    LabelOk c.label c.ownership L none :=
  (checkLabel_eq_zero_iff ..).mp (not_ne_iff.mp h)

theorem heapCall_vetted (h : heapCall c req s op = some call) : Vetted c req s op call := by
  cases op with
  | malloc =>
    obtain ⟨hcheck, h⟩ := Option.ite_none_left_eq_some.mp h
    cases h
    exact .malloc (labelOk_of_check hcheck)
  | calloc =>
    obtain ⟨hcheck, h⟩ := Option.ite_none_left_eq_some.mp h
    cases h
    exact .calloc (labelOk_of_check hcheck)
  | free =>
    simp only [heapCall] at h
    split at h
    · cases h
    · rename_i hlabel
      obtain ⟨hcheck, h⟩ := Option.ite_none_left_eq_some.mp h
      cases h
      exact .free hlabel (labelOk_of_check hcheck)
  | realloc =>
    simp only [heapCall] at h
    split at h
    · cases h
    · rename_i hlabel
      obtain ⟨hcheck, h⟩ := Option.ite_none_left_eq_some.mp h
      cases h
      exact .realloc hlabel (labelOk_of_check hcheck)
  | createCat | fork | pthreadJoin | getLabel | getOwnership | getMemLabel | rpc => cases h

/-! ### What a handler does -/

/-- The heap is as it was: only the table of clients, the generator, the messages and the
    kernel may have changed. -/
def HeapAlone (s s' : State K) : Prop :=
  s' = { s with
    kern := s'.kern
    clients := s'.clients
    catGen := s'.catGen }

/-- What is in the reply to a call. -/
def Call.ret (mem : Nat) : Call → Ret
  | .free .. => .unset
  | _ => .word mem

theorem Call.event_ret (call : Call) (mem : Nat) :
    call.event (call.ret mem).address = call.event mem := by
  cases call <;> rfl

theorem Call.grants_ret (call : Call) (mem : Nat) (live : List Grant) :
    call.grants (call.ret mem).address live = call.grants mem live := by
  cases call <;> rfl

/-- What is known of a request that leads to no call, and of the reply. -/
def Refused (c : ClientDesc) (req : Request) (s : State K) : Opcode → Ret → Prop
  | .malloc, ret => ret = .word 0
  | .calloc, ret => ret = .word 0
  | .realloc, _ => ∃ L, blockLabelAt c s (req.data.load32 12) = some L ∧
      checkLabel c.label c.ownership L none ≠ 0
  | _, _ => True

/-- A handler leaves the heap alone, or makes the one call that its request leads to. -/
inductive Handled (ops : KernelOps K) (c : ClientDesc) (req : Request) (s s' : State K)
    (op : Opcode) : Ret → Prop
  | alone {ret : Ret} (asks : heapCall c req s op = none) (heap : HeapAlone s s')
      (refused : Refused c req s op ret) : Handled ops c req s s' op ret
  | call {call : Call} {mem : Nat} (asks : heapCall c req s op = some call)
      (run : call.run ops s = .ok mem s') : Handled ops c req s s' op (call.ret mem)

/-- The header of the reply is filled in. -/
def Replies (ops : KernelOps K) (c : ClientDesc) (req : Request) (s : State K) (op : Opcode)
    (rply : Reply) (s' : State K) : Prop :=
  ∃ ret, rply = reply ret ∧ Handled ops c req s s' op ret

theorem Replies.alone {ret : Ret} (asks : heapCall c req s op = none) (heap : HeapAlone s s')
    (refused : Refused c req s op ret) : Replies ops c req s op (reply ret) s' :=
  ⟨ret, rfl, .alone asks heap refused⟩

theorem wp_replies_call (asks : heapCall c req s op = some call) :
    wp (call.run ops) (fun mem s' => Replies ops c req s op (reply (call.ret mem)) s')
      (fun _ _ => True) s :=
  wp_eq (wp_of_forall (fun _ _ run => ⟨_, rfl, .call asks run⟩) fun _ _ _ => trivial)

theorem wp_dispatch :
    wp (dispatch ops c req op) (Replies ops c req s op) (fun _ _ => True) s := by
  -- refused without a call, or answered with what the call returned
  cases op with
  | createCat =>
    change wp (handleCreateCatRpc c req) _ _ s
    rw [wp_handleCreateCatRpc]
    split
    · exact .alone rfl rfl trivial
    · trivial
  | fork =>
    change wp (handleForkRpc ops c req) _ _ s
    rw [wp_handleForkRpc]
    split
    · exact .alone rfl rfl trivial
    · exact wp_mallocUpdate_of (.alone rfl rfl trivial) trivial
  | pthreadJoin =>
    change wp (handlePthreadJoinRpc c req) _ _ s
    rw [wp_handlePthreadJoinRpc]
    split
    · exact .alone rfl rfl trivial
    · split <;> exact .alone rfl rfl trivial
  | malloc =>
    change wp (handleMallocRpc ops c req) _ _ s
    rw [wp_handleMallocRpc]
    split
    · rename_i hcheck
      exact .alone (if_pos hcheck) rfl rfl
    · rename_i hcheck
      have asks : heapCall c req s .malloc = some (.malloc ..) := if_neg hcheck
      exact wp_replies_call asks
  | calloc =>
    change wp (handleCallocRpc ops c req) _ _ s
    rw [wp_handleCallocRpc]
    split
    · rename_i hcheck
      exact .alone (if_pos hcheck) rfl rfl
    · rename_i hcheck
      have asks : heapCall c req s .calloc = some (.calloc ..) := if_neg hcheck
      exact wp_replies_call asks
  | free =>
    change wp (handleFreeRpc ops c req) _ _ s
    rw [wp_handleFreeRpc]
    cases hlabel : blockLabelAt c s (req.data.load32 12) with
    | none => trivial
    | some L =>
      simp only
      split
      · rename_i hcheck
        exact .alone (by simp only [heapCall, hlabel, if_pos hcheck]) rfl trivial
      · rename_i hcheck
        have asks : heapCall c req s .free = some (.free c.pid (req.data.load32 12)) := by
          simp only [heapCall, hlabel, if_neg hcheck]
        have hfree : wp (Call.run ops _) _ _ s := wp_replies_call asks
        rw [Call.run, wp_bind] at hfree
        simp only [wp_pure] at hfree
        exact hfree
  | getLabel | getOwnership | rpc =>
    refine (wp_pure ..).mpr ?_
    exact .alone rfl rfl trivial
  | getMemLabel =>
    change wp (handleGetMemLabelRpc req) _ _ s
    rw [wp_handleGetMemLabelRpc]
    cases unitAt s (req.data.load32 12) with
    | none => trivial
    | some u => exact .alone rfl rfl trivial
  | realloc =>
    change wp (handleReallocRpc ops c req) _ _ s
    rw [wp_handleReallocRpc]
    cases hlabel : blockLabelAt c s (req.data.load32 12) with
    | none => trivial
    | some L =>
      simp only
      split
      · rename_i hcheck
        exact .alone (by simp only [heapCall, hlabel, if_pos hcheck]) rfl ⟨L, hlabel, hcheck⟩
      · rename_i hcheck
        have asks : heapCall c req s .realloc =
            some (.realloc c.pid (req.data.load32 12) (req.data.load32 16) L) := by
          simp only [heapCall, hlabel, if_neg hcheck]
        exact wp_replies_call asks

/-- What a datagram does to the heap. -/
inductive DatagramEffect (ops : KernelOps K) (req : Request) (s s' : State K) : Ret → Prop
  | alone {ret : Ret} (asks : req.call s = none) (h : HeapAlone s s') :
      DatagramEffect ops req s s' ret
  | call {c : ClientDesc} {op : Opcode} {call : Call} {mem : Nat}
      (sender : s.clients.find? (cmpClient req) = some c) (asks : req.call s = some call)
      (vetted : Vetted c req s op call) (run : call.run ops s = .ok mem s') :
      DatagramEffect ops req s s' (call.ret mem)

theorem datagram_effect_cases {rply : Option Reply}
    (h : handleClientRpc ops req s = .ok rply s') :
    DatagramEffect ops req s s' ((rply.map Reply.ret).getD .unset) := by
  refine wp_run (Q := fun rply s' => DatagramEffect ops req s s' ((rply.map Reply.ret).getD .unset))
    (E := fun _ _ => True) (wp_handleClientRpc (fun hr => ?_) fun c op hr => ?_) h
  · exact .alone (call_eq_none hr) rfl
  · refine wp_mono wp_dispatch (fun rply s' hreplies => ?_) fun _ _ he => he
    obtain ⟨ret, rfl, hhandled⟩ := hreplies
    cases hhandled with
    | alone asks heap => exact .alone (hr.call.trans asks) heap
    | call asks run => exact .call hr.2.1 (hr.call.trans asks) (heapCall_vetted asks) run

end

/-! ### The monitor -/

/-- A request of a client, or an access that is no request. -/
inductive MonitorEvent where
  | request (c : ClientDesc) (e : StoreEvent)
  | access (e : StoreEvent)

def StoreEvent.IsAccess : StoreEvent → Prop
  | .write .. => True
  | .read .. => True
  | _ => False

/-- The label of the client flows to that of the block. A block that is resized keeps its
    label, and without an old block the new one has the client's own label. -/
def Permits (c : ClientDesc) (b : Store) : StoreEvent → Prop
  | .malloc _ L _ => LabelOk c.label c.ownership L none
  | .calloc _ L _ => LabelOk c.label c.ownership L none
  | .realloc oldmem _ L _ => LabelOk c.label c.ownership L none ∧
      if oldmem = 0 then L = c.label else ∃ x, b.find oldmem = some x ∧ L = x.label
  | .free mem => mem = 0 ∨ ∃ x, b.find mem = some x ∧ LabelOk c.label c.ownership x.label none
  | .write .. => False
  | .read .. => False

inductive Monitor.Step : Store → Option MonitorEvent → Store → Prop
  | request {b b' : Store} {c : ClientDesc} {e : StoreEvent} (permits : Permits c b e)
      (step : b.Step (some e) b') : Monitor.Step b (some (.request c e)) b'
  | access {b b' : Store} {e : StoreEvent} (access : e.IsAccess) (step : b.Step (some e) b') :
      Monitor.Step b (some (.access e)) b'

/-! ### The arbiter -/

/-- The request that a datagram makes, if it is not refused, with the address in the
    reply. -/
def monitorEvent (req : Request) (s : State K) (ret : Ret) : Option MonitorEvent :=
  match s.clients.find? (cmpClient req), req.call s with
  | some c, some call => some (.request c (call.event ret.address))
  | _, _ => none

theorem monitorEvent_eq_none {req : Request} {s : State K} (h : req.call s = none) (ret : Ret) :
    monitorEvent req s ret = none := by
  unfold monitorEvent
  rw [h]
  cases s.clients.find? (cmpClient req) <;> rfl

/-- The call of a datagram is about a block there is, and meets no defect of the
    allocator. -/
def MonitorOk (ops : KernelOps K) (live : List Grant) (req : Request) (s : State K) : Prop :=
  ∀ call ∈ req.call s, call.Honest live ∧ HeapOk ops False call s ∧ ComesClear ops s call

/-- Datagrams that meet `Ok`, reads and writes by those who have the blocks, and whatever
    the kernel does. -/
inductive ArbiterStep (ops : KernelOps K) (Ok : List Grant → Request → State K → Prop) :
    State K × List Grant → Option MonitorEvent → State K × List Grant → Prop
  | datagram (req : Request) {s s' : State K} {live : List Grant} {rply : Option Reply}
      (ok : Ok live req s) (ret : handleClientRpc ops req s = .ok rply s') :
      ArbiterStep ops Ok (s, live) (monitorEvent req s ((rply.map Reply.ret).getD .unset))
        (s', grantsAfter (req.call s) ((rply.map Reply.ret).getD .unset) live)
  | write (g : Grant) (m : Mem) {s : State K} {live : List Grant} (hg : g ∈ live)
      (hm : ∀ x, x < g.mem ∨ g.mem + g.bytes ≤ x → m x = s.mem x) :
      ArbiterStep ops Ok (s, live) (some (.access (.write g.mem (readBytes m g.mem g.bytes))))
        ({ s with mem := m }, live)
  | read (g : Grant) {s : State K} {live : List Grant} (hg : g ∈ live) {i : Nat}
      (hi : i < g.bytes) :
      ArbiterStep ops Ok (s, live) (some (.access (.read g.mem i (s.mem (g.mem + i))))) (s, live)
  | kernel (k : K) {s : State K} {live : List Grant} :
      ArbiterStep ops Ok (s, live) none ({ s with kern := k }, live)

section

variable {ops : KernelOps K} {c : ClientDesc} {req : Request} {op : Opcode} {call : Call}
variable {s s' : State K} {h : Heap} {live : List Grant} {b : Store}

/-- The label that is found for an address is the one of its unit. -/
theorem unitAt_label_of_blockLabelAt {ptr : Nat} {L : Label} (hptr : ptr ≠ 0)
    (hlabel : blockLabelAt c s ptr = some L) :
    ∀ u ∈ unitAt s ptr, (s.mstates (s.units u).unitAv).label = L := by
  intro u hu
  unfold blockLabelAt at hlabel
  rw [if_pos hptr, show unitAt s ptr = some u from hu, Option.map_some] at hlabel
  exact Option.some.inj hlabel

/-- The label that is found for a block is the one it was requested with. -/
theorem Sound.label_found (i : Sound True s h live) {g : Grant} (hg : g ∈ live) {L : Label}
    (hlabel : blockLabelAt c s g.mem = some L) : L = g.label := by
  obtain ⟨n, L', -, hL', ho⟩ := i.owns g hg
  obtain ⟨u, hu, -⟩ := ho.kind i.arena
  have hunit := unitAt_label_of_blockLabelAt (i.nonnull hg) hlabel u hu
  exact hunit.symm.trans ((ho.unit_label i.arena hu).trans (hL' trivial))

/-- A vetted call does not resize a block for another label. -/
theorem Vetted.heapOk (hv : Vetted c req s op call) (hok : HeapOk ops False call s) :
    HeapOk ops True call s := by
  cases hv with
  | malloc | calloc | free => exact hok
  | @realloc L hlabel =>
    simp only [HeapOk] at hok ⊢
    by_cases hnull : req.data.load32 12 = 0
    · rwa [if_pos hnull] at hok ⊢
    · rw [if_neg hnull] at hok ⊢
      exact ⟨hok.1, fun _ => .inr (.inr (.inr (unitAt_label_of_blockLabelAt hnull hlabel)))⟩

/-- A vetted call is one the monitor permits. -/
theorem Vetted.permits (hv : Vetted c req s op call) (i : Sound True s h live)
    (hb : b.find = storeFind s.mem live) (honest : call.Honest live) (mem : Nat) :
    Permits c b (call.event mem) := by
  cases hv with
  | malloc ok => exact ok
  | calloc ok => exact ok
  | @free L hlabel ok =>
    rcases honest with hnull | ⟨g, hg, hmem⟩
    · exact .inl hnull
    · rw [← hmem] at hlabel
      change _ ∨ ∃ x, b.find (req.data.load32 12) = some x ∧ _
      rw [← hmem]
      refine .inr ⟨blockOf s.mem g, by rw [hb, storeFind_of_mem i.apart hg], ?_⟩
      rwa [i.label_found hg hlabel] at ok
  | @realloc L hlabel ok =>
    refine ⟨ok, ?_⟩
    by_cases hnull : req.data.load32 12 = 0
    · rw [if_pos hnull]
      unfold blockLabelAt at hlabel
      rw [if_neg (not_not.mpr hnull)] at hlabel
      exact (Option.some.inj hlabel).symm
    · rw [if_neg hnull]
      obtain ⟨g, hg, hmem⟩ := honest.resolve_left hnull
      rw [← hmem] at hlabel ⊢
      exact ⟨blockOf s.mem g, by rw [hb, storeFind_of_mem i.apart hg], i.label_found hg hlabel⟩

theorem HeapAlone.sound (ha : HeapAlone s s') (i : Sound True s h live) : Sound True s' h live :=
  i.outer (by rw [ha])

theorem monitor_simulation (ops : KernelOps K) :
    Lts.Simulation (ArbiterStep ops (MonitorOk ops)) Monitor.Step StoreRel := by
  rintro ⟨s, live⟩ e t' b ⟨⟨h, i⟩, hb⟩ hstep
  cases hstep with
  | @datagram req _ s' _ rply ok ret =>
    generalize hret : (rply.map Reply.ret).getD .unset = r
    have heffect := datagram_effect_cases ret
    rw [hret] at heffect
    -- a datagram that leads to no call is not visible in the monitor
    cases heffect with
    | alone asks ha =>
      rw [monitorEvent_eq_none asks, asks]
      refine ⟨b, .start, ⟨h, ha.sound i⟩, ?_⟩
      rw [hb, ha]
      rfl
    | @call c op call mem sender asks vetted run =>
      -- one that does is the monitor's step, with the same answer
      obtain ⟨honest, hheap, hclear⟩ := ok call asks
      have hstore : StoreOk ops call s := ⟨vetted.heapOk hheap, hclear⟩
      have hcall : HeapStep ops (StoreOk ops) (s, live) _ _ := .call call honest hstore run
      obtain ⟨b', hb', hR'⟩ := StoreRel.step ⟨⟨h, i⟩, hb⟩ hcall
      have hevent : monitorEvent req s (call.ret mem) = some (.request c (call.event mem)) := by
        unfold monitorEvent
        rw [sender, asks]
        simp only [call.event_ret]
      rw [hevent, asks, grantsAfter, call.grants_ret]
      exact ⟨b', .single (.request (vetted.permits i hb honest mem) hb'), hR'⟩
  | write g m hg hm =>
    have hwrite : HeapStep ops (StoreOk ops) (s, live) _ _ := .write g m hg hm
    obtain ⟨b', hb', hR'⟩ := StoreRel.step ⟨⟨h, i⟩, hb⟩ hwrite
    exact ⟨b', .single (.access trivial hb'), hR'⟩
  | read g hg hi =>
    have hread : HeapStep ops (StoreOk ops) (s, live) _ _ := .read g hg hi
    obtain ⟨b', hb', hR'⟩ := StoreRel.step ⟨⟨h, i⟩, hb⟩ hread
    exact ⟨b', .single (.access trivial hb'), hR'⟩
  | kernel k => exact ⟨b, .start, ⟨h, i.outer rfl⟩, hb⟩

/-! ### Out of reach -/

/-- A step of the monitor leaves a block alone if its client may not have the block, and
    if it does not write to it. -/
theorem Monitor.Step.out_of_reach {b b' : Store} {e : MonitorEvent} {a : Nat} {x : LabelledBlock}
    (hstep : Monitor.Step b (some e) b') (ha : a ≠ 0) (hx : b.find a = some x)
    (hrequest : ∀ c e', e = .request c e' → ¬ LabelOk c.label c.ownership x.label none)
    (hwrite : ∀ data, e ≠ .access (.write a data)) : b'.find a = some x := by
  have hadded : ∀ {mem bytes : Nat} {L : Label} {data : List UInt8},
      b.Added mem bytes L data b' → b'.find a = some x := by
    intro mem bytes L data hnew
    have hne : a ≠ mem := by
      rintro rfl
      rw [hnew.fresh] at hx
      cases hx
    rw [hnew.find, Function.update_of_ne hne, hx]
  have hgone : ∀ {mem : Nat}, a ≠ mem → b'.find = Function.update b.find mem none →
      b'.find a = some x := by
    intro mem hne hfind
    rw [hfind, Function.update_of_ne hne, hx]
  cases hstep with
  | @request _ c e' permits step =>
    have hno := hrequest c e' rfl
    -- the block the request is about is another one
    have hother : ∀ {mem : Nat} {L : Label}, LabelOk c.label c.ownership L none →
        (if mem = 0 then L = c.label else ∃ y, b.find mem = some y ∧ L = y.label) → a ≠ mem := by
      rintro mem L hok hlabel rfl
      rw [if_neg ha] at hlabel
      obtain ⟨y, hy, rfl⟩ := hlabel
      rw [hx] at hy
      cases hy
      exact hno hok
    cases step with
    | malloc added | calloc added | reallocNew added => exact hadded added
    | mallocFails | callocFails | reallocFails => exact hx
    | @realloc _ oldmem bytes mem L moved =>
      have hne := hother permits.1 permits.2
      have hmem : a ≠ mem := by
        rintro rfl
        rw [moved.fresh hne] at hx
        cases hx
      obtain ⟨y, data, -, -, -, hfind⟩ := moved.moved
      rw [hfind, Function.update_of_ne hmem, Function.update_of_ne hne, hx]
    | reallocNothing oldmem L hfind => exact hgone (hother permits.1 permits.2) hfind
    | free mem hfind =>
      refine hgone ?_ hfind
      rintro rfl
      obtain ⟨y, hy, hok⟩ := permits.resolve_left ha
      rw [hx] at hy
      cases hy
      exact hno hok
    | write | read => exact permits.elim
  | @access _ e' access step =>
    cases step with
    | @write _ mem y data there size hfind =>
      have hne : a ≠ mem := by
        rintro rfl
        exact hwrite data rfl
      rw [hfind, Function.update_of_ne hne, hx]
    | read => exact hx
    | malloc | mallocFails | calloc | callocFails | reallocNew | realloc | reallocNothing
    | reallocFails | free => exact access.elim

/-- The same for a whole run. -/
theorem monitor_out_of_reach {b b' : Store} {trace : List MonitorEvent} {a : Nat}
    {x : LabelledBlock} (run : Lts.Run Monitor.Step b trace b') (ha : a ≠ 0)
    (hx : b.find a = some x)
    (hrequest : ∀ c e, .request c e ∈ trace → ¬ LabelOk c.label c.ownership x.label none)
    (hwrite : ∀ data, .access (.write a data) ∉ trace) : b'.find a = some x := by
  induction run with
  | start => exact hx
  | @next trace b₁ b₂ e run hstep ih =>
    have hbefore := ih (fun c e' hmem => hrequest c e' (List.mem_append_left _ hmem))
      fun data hmem => hwrite data (List.mem_append_left _ hmem)
    cases e with
    | none => cases hstep
    | some e =>
      refine hstep.out_of_reach ha hbefore (fun c e' heq => ?_) fun data heq => ?_
      · exact hrequest c e' (List.mem_append_right _ (by simp [heq]))
      · exact hwrite data (List.mem_append_right _ (by simp [heq]))

end

/-! ### A small session -/

/-- A client with a secret, which does not flow to the empty label. -/
def client9 : ClientDesc := ⟨clientAddrOf 9, 9, ![1, 0, 0, 0, 0, 0, 0, 0], fun _ => 0⟩

/-- A request of client 9 about an address in the first page of the heap. -/
def req9 (op low : UInt8) : Request where
  pktSize := 16
  data := fun i =>
    ([0xDE, 0xC0, 0xAB, 0, 16, 0, 0, 0, op, 0, 0, 0, low, 0, 0, 0x80] : List UInt8).getD i 0
  clientAddr := fun i => (clientAddrOf 9).getD i 0
  clientAddrLen := (clientAddrOf 9).length

/-- The first block of the heap is to be released. -/
def freeReq9 : Request := req9 3 8

/-- The label of the last byte of that block is asked for. -/
def labelReq9 : Request := req9 7 0x17

/-- The block that client 7 gets. -/
def block7 : Grant := ⟨0x80000008, 16, labelAt (mallocReq 0).data 16⟩

/-- Client 7 is given a block, and client 9 may ask for its label but not release it. -/
theorem session7 :
    ∃ s, Lts.Run (ArbiterStep generousKernel (MonitorOk generousKernel))
        (State.start () [client7, client9], [])
        [.request client7 (.malloc 16 block7.label 0x80000008)] (s, [block7]) ∧
      Reaches labelReq9 s client9 .getMemLabel ∧ freeReq9.call s = none ∧
      wp (handleClientRpc generousKernel freeReq9) (fun _ _ => True) (fun _ _ => False) s := by
  have hcall : (mallocReq 0).call (State.start () [client7, client9]) =
      some (.malloc 7 16 block7.label) := by rfl
  have hok : RequestOk (RoomFor generousKernel 7) 16 block7.label
      (State.start () [client7, client9]) := by decide +kernel
  have hall : wp (handleClientRpc generousKernel (mallocReq 0)) (fun rply s =>
      (rply.map Reply.ret).getD .unset = .word 0x80000008 ∧
      (malformed labelReq9 = none ∧ s.clients.find? (cmpClient labelReq9) = some client9 ∧
        Opcode.decode (labelReq9.data.load32 8) = some .getMemLabel) ∧
      (freeReq9.call s).isNone = true ∧
      wp (handleClientRpc generousKernel freeReq9) (fun _ _ => True) (fun _ _ => False) s)
      (fun _ _ => False) (State.start () [client7, client9]) := by decide +kernel
  obtain ⟨rply, s, hret, hrply, hreach, hfree, hrun⟩ := exists_ok hall
  refine ⟨s, ?_, hreach, Option.isNone_iff_eq_none.mp hfree, hrun⟩
  have hstep : ArbiterStep generousKernel (MonitorOk generousKernel)
      (State.start () [client7, client9], []) _ _ :=
    .datagram (mallocReq 0) (fun call hmem => by
      cases hcall.symm.trans hmem
      exact ⟨trivial, hok, trivial⟩) hret
  rw [hrply, hcall] at hstep
  exact .single hstep

/-! ### What the clients can rely on -/

/-- Every history of the arbiter is one of the monitor, if the calls of the allocator meet
    no defect: a request has an effect only if the label of the client flows to the one of
    the block, and what it does is what the store does. -/
theorem arbiter_refines_monitor (ops : KernelOps K) (kern : K) (clients : List ClientDesc)
    (trace : List MonitorEvent) (s : State K) (live : List Grant)
    (run : Lts.Run (ArbiterStep ops (MonitorOk ops)) (State.start kern clients, []) trace
      (s, live)) :
    ∃ b, Lts.Run Monitor.Step .empty trace b ∧ b.find = storeFind s.mem live := by
  have hstart : StoreRel (State.start kern clients, []) .empty := ⟨⟨_, .start kern clients⟩, rfl⟩
  obtain ⟨b, hrun, -, hb⟩ := (monitor_simulation ops).run hstart run
  exact ⟨b, hrun, hb⟩

/-- The block of client 7. -/
theorem arbiter_refines_monitor_block :
    ∃ b, Lts.Run Monitor.Step .empty
      [.request client7 (.malloc 16 block7.label 0x80000008)] b := by
  obtain ⟨s, hrun, -⟩ := session7
  obtain ⟨b, hb, -⟩ := arbiter_refines_monitor generousKernel () _ _ s _ hrun
  exact ⟨b, hb⟩

section

variable {ops : KernelOps K} {kern : K} {clients : List ClientDesc} {trace : List MonitorEvent}
variable {s : State K} {live : List Grant}

theorem arbiter_storeRel
    (run : Lts.Run (ArbiterStep ops (MonitorOk ops)) (State.start kern clients, []) trace
      (s, live)) : ∃ b, StoreRel (s, live) b := by
  have hstart : StoreRel (State.start kern clients, []) .empty := ⟨⟨_, .start kern clients⟩, rfl⟩
  obtain ⟨b, -, hR⟩ := (monitor_simulation ops).run hstart run
  exact ⟨b, hR⟩

/-- The label of a block is found for all its addresses. -/
theorem Sound.unitAt_label {h : Heap} (i : Sound True s h live) {g : Grant} (hg : g ∈ live)
    {x : Nat} (hlo : g.mem ≤ x) (hhi : x < g.mem + g.bytes) :
    ∃ u, unitAt s x = some u ∧ (s.mstates (s.units u).unitAv).label = g.label := by
  obtain ⟨n, L, hn, hL, ho⟩ := i.owns g hg
  obtain ⟨u, hu, hbegin, hend, hlabel, -⟩ := ho.inside i.arena
  dsimp only at hbegin hend hlabel
  exact ⟨u, i.arena.rep.body.tracks.unitAt_listed hu (by omega) (by omega),
    hlabel.trans (hL trivial)⟩

/-- All along a run, whoever asks for the label of an address in a block is told the one
    that the block was requested with, also after it was resized. -/
theorem mem_label_answered
    (run : Lts.Run (ArbiterStep ops (MonitorOk ops)) (State.start kern clients, []) trace
      (s, live)) {g : Grant} (hg : g ∈ live) {req : Request} {c : ClientDesc}
    (hreach : Reaches req s c .getMemLabel) (hlo : g.mem ≤ req.data.load32 12)
    (hhi : req.data.load32 12 < g.mem + g.bytes) :
    wp (handleClientRpc ops req)
      (fun rply s' => rply = some (reply (.word64 g.label)) ∧ s' = s) (fun _ _ => False) s := by
  obtain ⟨b, ⟨h, i⟩, -⟩ := arbiter_storeRel run
  obtain ⟨u, hunit, hlabel⟩ := i.unitAt_label hg hlo hhi
  rw [wp_handleClientRpc_of_dispatch hreach.1 hreach.2.1 hreach.2.2]
  change wp (handleGetMemLabelRpc req) _ _ s
  rw [wp_handleGetMemLabelRpc, hunit]
  exact ⟨by rw [← hlabel], rfl⟩

/-- Client 9 is told the label of client 7's block. -/
theorem mem_label_answered_block :
    ∃ s, wp (handleClientRpc generousKernel labelReq9)
      (fun rply s' => rply = some (reply (.word64 block7.label)) ∧ s' = s)
      (fun _ _ => False) s := by
  obtain ⟨s, hrun, hreach, -⟩ := session7
  exact ⟨s, mem_label_answered hrun (List.mem_singleton_self block7) hreach (by decide) (by decide)⟩

/-- Requests of clients whose label does not flow to that of a block leave the block where
    it is, with its contents, whatever they ask for, how often, and in what order. -/
theorem block_out_of_reach
    (run : Lts.Run (ArbiterStep ops (MonitorOk ops)) (State.start kern clients, []) trace
      (s, live)) {g : Grant} (hg : g ∈ live) {trace' : List MonitorEvent} {s' : State K}
    {live' : List Grant}
    (run' : Lts.Run (ArbiterStep ops (MonitorOk ops)) (s, live) trace' (s', live'))
    (hrequest : ∀ c e, .request c e ∈ trace' → ¬ LabelOk c.label c.ownership g.label none)
    (hwrite : ∀ data, .access (.write g.mem data) ∉ trace') :
    g ∈ live' ∧ s.mem.Agree s'.mem g.mem (g.mem + g.bytes) := by
  obtain ⟨b, hR⟩ := arbiter_storeRel run
  obtain ⟨⟨h, i⟩, hb⟩ := id hR
  obtain ⟨b', hrun, -, hb'⟩ := (monitor_simulation ops).run hR run'
  have hthere : b.find g.mem = some (blockOf s.mem g) := by
    rw [hb]
    exact storeFind_of_mem i.apart hg
  have hstill := monitor_out_of_reach hrun (i.nonnull hg) hthere hrequest hwrite
  rw [hb'] at hstill
  obtain ⟨g', hg', hmem, hblock⟩ := storeFind_eq_some hstill
  -- the block that is found there has the same label, the same size and the same bytes
  simp only [blockOf, LabelledBlock.mk.injEq, hmem] at hblock
  have hbytes : g.bytes = g'.bytes := by
    have hlength := congrArg List.length hblock.2
    rwa [length_readBytes, length_readBytes] at hlength
  have hsame : g = g' := by
    cases g
    cases g'
    simp_all
  refine ⟨hsame ▸ hg', fun x hlo hhi => ?_⟩
  have hbyte := congrArg (·[x - g.mem]?) hblock.2
  simp only [← hbytes] at hbyte
  rw [getElem?_readBytes _ (by omega), getElem?_readBytes _ (by omega),
    Nat.add_sub_cancel' hlo] at hbyte
  exact (Option.some.inj hbyte).symm

/-- Client 9 wants client 7's block to be released, and it stays. -/
theorem block_out_of_reach_free :
    ∃ (s s' : State Unit) (live' : List Grant) (rply : Option Reply),
      handleClientRpc generousKernel freeReq9 s = .ok rply s' ∧
      block7 ∈ live' ∧ s.mem.Agree s'.mem block7.mem (block7.mem + block7.bytes) := by
  obtain ⟨s, hrun, -, hcall, hfree⟩ := session7
  obtain ⟨rply, s', hret, -⟩ := exists_ok hfree
  have hstep : ArbiterStep generousKernel (MonitorOk generousKernel) (s, [block7]) _ _ :=
    .datagram freeReq9 (fun call hmem => by
      rw [hcall] at hmem
      cases hmem) hret
  rw [monitorEvent_eq_none hcall] at hstep
  have hreach := block_out_of_reach hrun (List.mem_singleton_self block7) (.single hstep)
    (fun _ _ hmem => absurd hmem List.not_mem_nil) (fun _ => List.not_mem_nil)
  exact ⟨s, s', _, rply, hret, hreach⟩

end

end ArbiterThread
