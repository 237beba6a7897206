import Mathlib
import ArbiterThread.Arbiter.Category
import ArbiterThread.Client.Create

/-!
# The Table of Clients

What whole runs of the arbiter do to `client_list`.

Only three requests touch it. `CREATE_CAT` changes the ownership of the sender in
place, an accepted `FORK` appends a descriptor, and an accepted `PTHREAD_JOIN`
removes the first one with the process id it names. Nothing asks whether the
process id of a `FORK` is registered already, so two descriptors can share one.

What a descriptor may hold is a different matter. Labels and ownerships are only
ever copied from the request that made the descriptor, after `check_label` has
compared them with those of the sender, and then grow by the categories the
arbiter hands out itself. To say where each category came from, runs carry a
ledger of who forked whom and who was given what.

## Main definitions

* `TableStep`: The ways in which a request changes the table.
* `RpcRun`: Runs of the arbiter.
* `Registry`: Process ids and socket addresses are pairwise different.
* `RegisterOk`: An accepted `FORK` names a process that is not registered.
* `Ledger`, `LedgerRun`: The history of the descriptors, and runs with it.
* `Descends`: Ancestors in the tree of accepted forks.
* `Earned`: A descriptor's categories were given to it or to an ancestor.

## Theorems

* `table_step`: A request changes the table in one of these ways.
* `clientAddrOf_inj`: Different processes have different socket addresses.
* `registry_distinct`: In runs whose requests meet the condition, clients stay
  different.
* `registry_distinct_fails`: Two descriptors for one process.
* `ownership_earned`: No sequence of requests forges a category.
-/

namespace ArbiterThread

open Exec

variable {K : Type}

/-! ### What a request does to the table -/

/-- What the sender learns about the table from a reply. -/
inductive TableEvent where
  | granted (cat : Cat)
  | forked
  | joined
deriving DecidableEq

def tableEvent (req : Request) (rply : Option Reply) : Option TableEvent :=
  match Opcode.decode (req.data.load32 8), rply with
  | some .createCat, some ⟨_, _, .byte cat⟩ => some (.granted cat)
  | some .fork, some ⟨_, _, .word 0⟩ => some .forked
  | some .pthreadJoin, some ⟨_, _, .word 0⟩ => some .joined
  | _, _ => none

/-- The ways in which a request changes the table, with the replies that go with
    them. -/
inductive TableStep (req : Request) (s : State K) : Option Reply → List ClientDesc → Prop
  | same {rply : Option Reply} (none : tableEvent req rply = none) : TableStep req s rply s.clients
  | granted {c : ClientDesc} (reach : Reaches req s c .createCat)
      (room : (granted c.ownership s.catGen (req.data 12)).2 ≠ 0) :
      TableStep req s (some (reply (.byte (granted c.ownership s.catGen (req.data 12)).2)))
        (s.clients.set (s.clients.findIdx (cmpClient req))
          { c with ownership := (granted c.ownership s.catGen (req.data 12)).1 })
  | forked {c : ClientDesc} (reach : Reaches req s c .fork)
      (allowed : LabelOk c.label c.ownership (forked req).label (some (forked req).ownership)) :
      TableStep req s (some (reply (.word 0))) (s.clients ++ [forked req])
  | joined {c cJoin : ClientDesc} (reach : Reaches req s c .pthreadJoin)
      (found : s.clients.find? (cmpClientPid (req.data.load32 12)) = some cJoin) :
      TableStep req s (some (reply (.word 0)))
        (s.clients.eraseP (cmpClientPid (req.data.load32 12)))

/-- A request changes the table in one of the ways listed. -/
theorem table_step (ops : KernelOps K) (req : Request) (s : State K) :
    wp (handleClientRpc ops req) (fun rply s' => TableStep req s rply s'.clients)
      (fun _ _ => True) s := by
  apply wp_handleClientRpc
  · intro _
    refine TableStep.same ?_
    unfold tableEvent
    split <;> simp_all
  · intro c op hreach
    -- the other requests leave the table as it is
    by_cases hother : op ≠ .createCat ∧ op ≠ .fork ∧ op ≠ .pthreadJoin
    · refine wp_imp (dispatch_table ops c req hother s) ?_
      rintro rply s' ⟨hsame, -⟩
      rw [hsame]
      refine TableStep.same ?_
      unfold tableEvent
      rw [hreach.2.2]
      cases op <;> simp_all
    cases op with
    | createCat =>
      change wp (handleCreateCatRpc c req) _ _ s
      rw [wp_handleCreateCatRpc]
      split
      · rename_i hroom
        exact TableStep.granted hreach hroom
      · trivial
    | fork =>
      change wp (handleForkRpc ops c req) _ _ s
      rw [wp_handleForkRpc]
      split
      · refine TableStep.same ?_
        simp only [tableEvent, hreach.2.2, reply, failed]
      · rename_i hlabel
        rw [ne_eq, not_not, checkLabel_eq_zero_iff] at hlabel
        exact wp_mallocUpdate_of (TableStep.forked hreach hlabel) trivial
    | pthreadJoin =>
      change wp (handlePthreadJoinRpc c req) _ _ s
      rw [wp_handlePthreadJoinRpc]
      split
      · refine TableStep.same ?_
        simp only [tableEvent, hreach.2.2, reply, failed]
      · rename_i cJoin hfound
        split
        · refine TableStep.same ?_
          simp only [tableEvent, hreach.2.2, reply, failed]
        · exact TableStep.joined hreach hfound
    | malloc | free | getLabel | getOwnership | getMemLabel | calloc | realloc | rpc =>
      exact absurd ⟨by decide, by decide, by decide⟩ hother

theorem tableStep_of_ok {ops : KernelOps K} {req : Request} {s s' : State K} {rply : Option Reply}
    (h : handleClientRpc ops req s = .ok rply s') : TableStep req s rply s'.clients :=
  wp_run (Q := fun rply s' => TableStep req s rply s'.clients) (table_step ops req s) h

/-! ### Runs -/

/-- The runs of the arbiter in which every request meets `Ok`. -/
inductive RpcRun (ops : KernelOps K) (Ok : Request → State K → Prop) (s₀ : State K) :
    State K → Prop
  | start : RpcRun ops Ok s₀ s₀
  | step {s s' : State K} {rply : Option Reply} (req : Request) (run : RpcRun ops Ok s₀ s)
      (ok : Ok req s) (ret : handleClientRpc ops req s = .ok rply s') : RpcRun ops Ok s₀ s'

/-! ### Socket addresses -/

/-- A number is printed in ASCII: digits, and perhaps a sign. -/
theorem ascii_of_mem_repr {n : Int} {ch : Char} (h : ch ∈ n.repr.toList) :
    0 < ch.toNat ∧ ch.toNat < 128 := by
  have hnat : ∀ m : Nat, ∀ ch ∈ m.repr.toList, 0 < ch.toNat ∧ ch.toNat < 128 := by
    intro m ch hch
    rw [Nat.toList_repr] at hch
    have hdigit := Nat.isDigit_of_mem_toDigits (by omega) (by omega) hch
    rw [Char.isDigit_iff_toNat] at hdigit
    have hzero : '0'.toNat = 48 := rfl
    have hnine : '9'.toNat = 57 := rfl
    omega
  cases n with
  | ofNat m => exact hnat m ch h
  | negSucc m =>
    change ch ∈ ("-" ++ (m + 1).repr).toList at h
    rw [String.toList_append, List.mem_append] at h
    rcases h with h | h
    · have hminus : ch = '-' := by simpa using h
      rw [hminus]
      decide
    · exact hnat _ ch h

theorem asInt_inj {m n : Nat} (hm : m < wordSize) (hn : n < wordSize) (h : asInt m = asInt n) :
    m = n := by
  unfold wordSize at hm hn
  unfold asInt at h
  split at h <;> split at h <;> omega

/-- Different processes have different socket addresses. -/
theorem clientAddrOf_inj {m n : Nat} (hm : m < wordSize) (hn : n < wordSize)
    (h : clientAddrOf m = clientAddrOf n) : m = n := by
  apply asInt_inj hm hn
  -- the bytes of the path determine its characters
  have hback : ∀ n : Int, (n.repr.toList.map fun ch => UInt8.ofNat ch.toNat).map
      (fun b => Char.ofNat b.toNat) = n.repr.toList := by
    intro n
    rw [List.map_map]
    refine (List.map_congr_left ?_).trans (List.map_id _)
    intro ch hch
    have hlt := (ascii_of_mem_repr hch).2
    change Char.ofNat (UInt8.ofNat ch.toNat).toNat = ch
    rw [UInt8.toNat_ofNat_of_lt' (Nat.lt_trans hlt (by decide)), Char.ofNat_toNat]
  unfold clientAddrOf at h
  simp only [String.toList_append, List.map_append, List.append_assoc, List.append_cancel_left_eq,
    List.append_cancel_right_eq] at h
  apply Int.repr_inj.mp
  apply String.toList_inj.mp
  rw [← hback (asInt m), ← hback (asInt n)]
  exact congrArg (List.map fun b => Char.ofNat b.toNat) h

/-! ### Distinct clients -/

/-- Process ids and socket addresses are pairwise different. -/
structure Registry (clients : List ClientDesc) : Prop where
  pids : (clients.map ClientDesc.pid).Nodup
  addrs : (clients.map ClientDesc.unixAddr).Nodup

/-- If the request is a `FORK` that is going to be accepted, then the process it names
    is not registered. -/
def RegisterOk (req : Request) (s : State K) : Prop :=
  ∀ c, Reaches req s c .fork →
    checkLabel c.label c.ownership (forked req).label (some (forked req).ownership) = 0 →
    ∀ c' ∈ s.clients, c'.pid ≠ (forked req).pid

/-- What runs keep: a descriptor's address is made of its process id. -/
structure RegistryInv (clients : List ClientDesc) : Prop where
  pids : (clients.map ClientDesc.pid).Nodup
  addr : ∀ c ∈ clients, c.unixAddr = clientAddrOf c.pid ∧ c.pid < wordSize

theorem RegistryInv.registry {clients : List ClientDesc} (h : RegistryInv clients) :
    Registry clients := by
  refine ⟨h.pids, ?_⟩
  have haddr : clients.map ClientDesc.unixAddr =
      (clients.map ClientDesc.pid).map clientAddrOf := by
    rw [List.map_map]
    exact List.map_congr_left (fun c hc => (h.addr c hc).1)
  rw [haddr]
  refine List.Nodup.map_on ?_ h.pids
  intro m hm n hn heq
  obtain ⟨c, hc, rfl⟩ := List.mem_map.mp hm
  obtain ⟨c', hc', rfl⟩ := List.mem_map.mp hn
  exact clientAddrOf_inj (h.addr c hc).2 (h.addr c' hc').2 heq

theorem registryInv_first (pid : Nat) (L : Label) (O : Own) (hpid : pid < wordSize) :
    RegistryInv [initFirstChild pid L O] := by
  refine ⟨List.nodup_singleton _, ?_⟩
  intro c hc
  rw [List.mem_singleton] at hc
  subst hc
  exact ⟨rfl, hpid⟩

/-- One request keeps the clients apart. -/
theorem RegistryInv.step {s : State K} (h : RegistryInv s.clients) {req : Request}
    (hok : RegisterOk req s) {rply : Option Reply} {clients : List ClientDesc}
    (hstep : TableStep req s rply clients) : RegistryInv clients := by
  cases hstep with
  | same _ => exact h
  | granted reach room =>
    rename_i c
    have hmem := List.mem_of_find?_eq_some reach.2.1
    refine ⟨?_, ?_⟩
    · have hsame := map_set_findIdx ClientDesc.pid reach.2.1 (b := { c with
        ownership := (granted c.ownership s.catGen (req.data 12)).1 }) rfl
      exact hsame ▸ h.pids
    · intro c' hc'
      rcases List.mem_or_eq_of_mem_set hc' with hc' | rfl
      · exact h.addr c' hc'
      · exact h.addr c hmem
  | forked reach allowed =>
    have hnew := hok _ reach ((checkLabel_eq_zero_iff ..).mpr allowed)
    refine ⟨?_, ?_⟩
    · rw [List.map_append, List.nodup_append]
      refine ⟨h.pids, List.nodup_singleton _, ?_⟩
      intro m hm n hn heq
      obtain ⟨c', hc', rfl⟩ := List.mem_map.mp hm
      rw [List.map_singleton, List.mem_singleton] at hn
      exact hnew c' hc' (heq.trans hn)
    · intro c' hc'
      rw [List.mem_append, List.mem_singleton] at hc'
      rcases hc' with hc' | rfl
      · exact h.addr c' hc'
      · exact ⟨rfl, Mem.load32_lt _ _⟩
  | joined reach found =>
    have hsub := List.eraseP_sublist (p := cmpClientPid (req.data.load32 12)) (l := s.clients)
    exact ⟨h.pids.sublist (hsub.map _), fun c' hc' => h.addr c' (hsub.subset hc')⟩

theorem RpcRun.registryInv {ops : KernelOps K} {s₀ s : State K} (h₀ : RegistryInv s₀.clients)
    (hrun : RpcRun ops RegisterOk s₀ s) : RegistryInv s.clients := by
  induction hrun with
  | start => exact h₀
  | step req run ok ret ih => exact ih.step ok (tableStep_of_ok ret)

/-- What one request leaves of the clients there were: a process that stays
    registered keeps its descriptor, unless the request was for a category, and one
    that was joined has none. -/
structure Stable (req : Request) (rply : Option Reply) (before after : List ClientDesc) :
    Prop where
  kept : Opcode.decode (req.data.load32 8) ≠ some .createCat →
    ∀ c ∈ before, ∀ c' ∈ after, c'.pid = c.pid → c' = c
  gone : tableEvent req rply = some .joined → ∀ c' ∈ after, c'.pid ≠ req.data.load32 12

theorem RegistryInv.eq_of_pid {clients : List ClientDesc} (h : RegistryInv clients)
    {c c' : ClientDesc} (hc : c ∈ clients) (hc' : c' ∈ clients) (hpid : c'.pid = c.pid) :
    c' = c :=
  List.inj_on_of_nodup_map h.pids hc' hc hpid

/-- Removing the first client with some process id removes all of them. -/
theorem RegistryInv.not_mem_eraseP {clients : List ClientDesc} (h : RegistryInv clients)
    {c c' : ClientDesc} (hc : c ∈ clients)
    (hc' : c' ∈ clients.eraseP (cmpClientPid c.pid)) : c'.pid ≠ c.pid := by
  intro hpid
  have hcmp : cmpClientPid c.pid c = true := decide_eq_true rfl
  rcases List.exists_of_eraseP hc hcmp with ⟨d, l₁, l₂, -, hd, hl, herase⟩
  rw [cmpClientPid, decide_eq_true_iff] at hd
  rw [herase] at hc'
  have hnodup := h.pids
  rw [hl, List.map_append, List.map_cons, List.nodup_middle, List.nodup_cons,
    ← List.map_append] at hnodup
  exact hnodup.1 (hd.trans hpid.symm ▸ List.mem_map_of_mem hc')

theorem RegistryInv.stable {s : State K} (h : RegistryInv s.clients) {req : Request}
    (hok : RegisterOk req s) {rply : Option Reply} {clients : List ClientDesc}
    (hstep : TableStep req s rply clients) : Stable req rply s.clients clients := by
  cases hstep with
  | same none =>
    refine ⟨fun _ c hc c' hc' hpid => h.eq_of_pid hc hc' hpid, fun hjoined => ?_⟩
    rw [none] at hjoined
    cases hjoined
  | granted reach room =>
    refine ⟨fun hother => absurd reach.2.2 hother, fun hjoined => ?_⟩
    simp only [tableEvent, reach.2.2, reply] at hjoined
    cases hjoined
  | forked reach allowed =>
    have hnew := hok _ reach ((checkLabel_eq_zero_iff ..).mpr allowed)
    refine ⟨fun _ c hc c' hc' hpid => ?_, fun hjoined => ?_⟩
    · rw [List.mem_append, List.mem_singleton] at hc'
      rcases hc' with hc' | rfl
      · exact h.eq_of_pid hc hc' hpid
      · exact absurd hpid.symm (hnew c hc)
    · simp only [tableEvent, reach.2.2, reply] at hjoined
      cases hjoined
  | joined reach found =>
    refine ⟨fun _ c hc c' hc' hpid => h.eq_of_pid hc (List.mem_of_mem_eraseP hc') hpid, ?_⟩
    intro _ c' hc' hpid
    -- the one found is removed, and no other client has its process id
    have hfirst := List.find?_some found
    rw [cmpClientPid, decide_eq_true_iff] at hfirst
    rw [← hfirst] at hc' hpid
    exact h.not_mem_eraseP (List.mem_of_find?_eq_some found) hc' hpid

/-- As long as no accepted `FORK` names a registered process, clients have pairwise
    different process ids and socket addresses, a process that stays registered keeps
    its label and ownership, and one that was joined has no descriptor. -/
theorem registry_distinct (ops : KernelOps K) (k : K) (pid : Nat) (L : Label) (O : Own)
    (hpid : pid < wordSize) (s : State K)
    (hrun : RpcRun ops RegisterOk (State.start k [initFirstChild pid L O]) s) :
    Registry s.clients ∧
    ∀ req rply s', RegisterOk req s → handleClientRpc ops req s = .ok rply s' →
      Stable req rply s.clients s'.clients := by
  have hinv := hrun.registryInv (registryInv_first pid L O hpid)
  refine ⟨hinv.registry, ?_⟩
  intro req rply s' hok hret
  exact hinv.stable hok (tableStep_of_ok hret)

/-- Client 7 asks to have process 9 registered, without label or ownership. -/
def fork9 : Request := forkReq 7 9 (fun _ => 0) (fun _ => 0)

/-- Client 7 forks process 9. -/
theorem registry_distinct_fork :
    ∃ s, RpcRun generousKernel RegisterOk (State.start () [initFirstChild 7 (fun _ => 0)
        (fun _ => 0)]) s ∧
      s.clients.map ClientDesc.pid = [7, 9] ∧ Registry s.clients := by
  have hstep : wp (handleClientRpc generousKernel fork9)
      (fun _ s => s.clients.map ClientDesc.pid = [7, 9]) (fun _ _ => False)
      (State.start () [client7]) := by
    decide +kernel
  rcases exists_ok hstep with ⟨rply, s, hret, hpids⟩
  have hok : RegisterOk fork9 (State.start () [client7]) := by
    intro c hreach _ c' hc'
    rw [List.mem_singleton.mp hc']
    decide
  have hrun : RpcRun generousKernel RegisterOk (State.start () [client7]) s :=
    .step fork9 .start hok hret
  exact ⟨s, hrun, hpids,
    (registry_distinct generousKernel () 7 (fun _ => 0) (fun _ => 0) (by decide) s hrun).1⟩

/-- Two requests for process 9, and the table has two descriptors for it. -/
theorem registry_distinct_fails :
    ∃ s, RpcRun generousKernel (fun _ _ => True) (State.start () [initFirstChild 7 (fun _ => 0)
        (fun _ => 0)]) s ∧
      s.clients.map ClientDesc.pid = [7, 9, 9] ∧ ¬ Registry s.clients := by
  have hsteps : wp (handleClientRpc generousKernel fork9)
      (fun _ s => wp (handleClientRpc generousKernel fork9)
        (fun _ s' => s'.clients.map ClientDesc.pid = [7, 9, 9]) (fun _ _ => False) s)
      (fun _ _ => False) (State.start () [client7]) := by
    decide +kernel
  rcases exists_ok hsteps with ⟨_, s, hfirst, hstep⟩
  rcases exists_ok hstep with ⟨_, s', hsecond, hpids⟩
  refine ⟨s', .step fork9 (.step fork9 .start trivial hfirst) trivial hsecond, hpids, ?_⟩
  intro h
  have hnodup := h.pids
  rw [hpids] at hnodup
  exact absurd hnodup (by decide)

/-! ### The ledger -/

/-- The history of the descriptors. They are numbered in the order in which they were
    made, and the numbers are kept apart from the table. -/
structure Ledger where
  /-- the numbers of the descriptors in the table, in the table's order -/
  ids : List Nat
  /-- the number of descriptors made so far -/
  next : Nat
  /-- the accepted forks, as new descriptor and sender -/
  forks : List (Nat × Nat)
  /-- the categories returned, with the descriptors they were returned to -/
  returned : List (Nat × Cat)

/-- The first client, before any request. -/
def Ledger.start : Ledger := ⟨[0], 1, [], []⟩

/-- The descriptor whose handler serves the request. -/
def Ledger.sender (g : Ledger) (req : Request) (clients : List ClientDesc) : Nat :=
  g.ids.getD (clients.findIdx (cmpClient req)) 0

/-- Note what a request did, as its sender learns it. -/
def Ledger.record (g : Ledger) (req : Request) (clients : List ClientDesc) :
    Option TableEvent → Ledger
  | none => g
  | some (.granted cat) => { g with returned := (g.sender req clients, cat) :: g.returned }
  | some .forked =>
    { g with
      ids := g.ids ++ [g.next]
      next := g.next + 1
      forks := (g.next, g.sender req clients) :: g.forks }
  | some .joined =>
    { g with ids := g.ids.eraseIdx (clients.findIdx (cmpClientPid (req.data.load32 12))) }

/-- The runs of the arbiter, with their history. -/
inductive LedgerRun (ops : KernelOps K) (s₀ : State K) : State K → Ledger → Prop
  | start : LedgerRun ops s₀ s₀ .start
  | step {s s' : State K} {g : Ledger} {rply : Option Reply} (req : Request)
      (run : LedgerRun ops s₀ s g) (ret : handleClientRpc ops req s = .ok rply s') :
      LedgerRun ops s₀ s' (g.record req s.clients (tableEvent req rply))

/-- The second descriptor is the first one, or one of its ancestors. -/
inductive Descends (forks : List (Nat × Nat)) : Nat → Nat → Prop
  | self (id : Nat) : Descends forks id id
  | forked {id sender ancestor : Nat} (fork : (id, sender) ∈ forks)
      (rest : Descends forks sender ancestor) : Descends forks id ancestor

theorem Descends.mono {forks forks' : List (Nat × Nat)} (hsub : forks ⊆ forks') {id ancestor : Nat}
    (h : Descends forks id ancestor) : Descends forks' id ancestor := by
  induction h with
  | self id => exact .self id
  | forked fork rest ih => exact .forked (hsub fork) ih

/-- A category that says something about the client: one that it owns, or an
    integrity category of its label. -/
def ClientDesc.Holds (c : ClientDesc) (cat : Cat) : Prop :=
  cat ≠ 0 ∧ (Has c.ownership cat ∨ Has c.label cat ∧ getCatType cat = catI)

/-- The category was returned to the descriptor or to one of its ancestors. -/
def Ledger.Gave (g : Ledger) (id : Nat) (cat : Cat) : Prop :=
  ∃ ancestor, Descends g.forks id ancestor ∧ (ancestor, cat) ∈ g.returned

/-- What the client holds was returned to it or to one of its ancestors. -/
def Earned (g : Ledger) (c : ClientDesc) (id : Nat) : Prop := ∀ cat, c.Holds cat → g.Gave id cat

/-- What is noted stays noted. -/
theorem Ledger.Gave.record {g : Ledger} {id : Nat} {cat : Cat} (h : g.Gave id cat) (req : Request)
    (clients : List ClientDesc) (event : Option TableEvent) :
    (g.record req clients event).Gave id cat := by
  rcases h with ⟨ancestor, hup, hret⟩
  match event with
  | none => exact ⟨ancestor, hup, hret⟩
  | some (.granted _) => exact ⟨ancestor, hup, List.mem_cons_of_mem _ hret⟩
  | some .forked => exact ⟨ancestor, hup.mono (List.subset_cons_self _ _), hret⟩
  | some .joined => exact ⟨ancestor, hup, hret⟩

theorem Ledger.Gave.forked {g : Ledger} {id sender : Nat} {cat : Cat}
    (hfork : (id, sender) ∈ g.forks) (h : g.Gave sender cat) : g.Gave id cat := by
  rcases h with ⟨ancestor, hup, hret⟩
  exact ⟨ancestor, .forked hfork hup, hret⟩

/-! ### Two lists side by side -/

section

variable {α β : Type} {R : α → β → Prop} {l : List α} {m : List β}

theorem forall₂_set (h : List.Forall₂ R l m) (i : Nat) (a : α)
    (ha : ∀ b, m[i]? = some b → R a b) : List.Forall₂ R (l.set i a) m := by
  induction h generalizing i with
  | nil => exact .nil
  | cons hx hxs ih =>
    cases i with
    | zero => exact .cons (ha _ rfl) hxs
    | succ i => exact .cons hx (ih i ha)

theorem forall₂_eraseIdx (h : List.Forall₂ R l m) (i : Nat) :
    List.Forall₂ R (l.eraseIdx i) (m.eraseIdx i) := by
  induction h generalizing i with
  | nil => exact .nil
  | cons hx hxs ih =>
    cases i with
    | zero => exact hxs
    | succ i => exact .cons hx (ih i)

/-- The entry beside the first one that has a property. -/
theorem forall₂_find {p : α → Bool} {a : α} (h : List.Forall₂ R l m) (ha : l.find? p = some a) :
    ∃ b, m[l.findIdx p]? = some b ∧ R a b := by
  induction h with
  | nil => cases ha
  | cons hx hxs ih =>
    rename_i x y xs ys
    rw [List.find?_cons] at ha
    rw [List.findIdx_cons]
    cases hp : p x with
    | true =>
      rw [hp] at ha
      cases ha
      exact ⟨y, rfl, hx⟩
    | false =>
      rw [hp] at ha
      exact ih ha

end

theorem eraseP_eq_eraseIdx {α : Type} (p : α → Bool) (l : List α) :
    l.eraseP p = l.eraseIdx (l.findIdx p) := by
  induction l with
  | nil => rfl
  | cons x xs ih =>
    rw [List.findIdx_cons]
    cases hx : p x with
    | true => rw [List.eraseP_cons_of_pos hx]; rfl
    | false =>
      rw [List.eraseP_cons_of_neg (by simp [hx]), ih]
      rfl

/-! ### Where categories come from -/

theorem addLoop_has_imp {O : Own} {cat c : Cat} {is : List (Fin 8)}
    (h : Has (addLoop O cat is).1 c) :
    Has O c ∨ c = cat := by
  induction is with
  | nil => exact Or.inl h
  | cons i is ih =>
    by_cases hi : O i ≠ 0
    · rw [addLoop, if_pos hi] at h
      exact ih h
    · rw [addLoop, if_neg hi] at h
      rcases h with ⟨j, hj⟩
      by_cases hji : j = i
      · subst hji
        simp only [Function.update_self] at hj
        exact Or.inr hj.symm
      · simp only [Function.update_of_ne hji] at hj
        exact Or.inl ⟨j, hj⟩

/-- The category handed out is all that an ownership gains. -/
theorem granted_has_imp {O : Own} {g t c : Cat} (hroom : (granted O g t).2 ≠ 0)
    (h : Has (granted O g t).1 c) : Has O c ∨ c = (granted O g t).2 := by
  rw [granted_snd hroom]
  exact addLoop_has_imp h

/-- A fork that is allowed gives the new client nothing that the sender does not hold. -/
theorem LabelOk.holds {c d : ClientDesc}
    (h : LabelOk c.label c.ownership d.label (some d.ownership)) {cat : Cat} (hd : d.Holds cat) :
    c.Holds cat := by
  rcases hd with ⟨hne, hown | ⟨hlabel, htype⟩⟩
  · exact ⟨hne, Or.inl (h.2.2 _ rfl cat hown hne)⟩
  · have hflow := h.2.1 cat hlabel hne (by rw [htype]; decide)
    exact ⟨hne, hflow.imp_right (fun hl => ⟨hl, htype⟩)⟩

theorem Earned.record {g : Ledger} {c : ClientDesc} {id : Nat} (h : Earned g c id) (req : Request)
    (clients : List ClientDesc) (event : Option TableEvent) :
    Earned (g.record req clients event) c id :=
  fun cat hcat => (h cat hcat).record req clients event

/-- The sender of a request is known to the ledger. -/
theorem earned_sender {g : Ledger} {clients : List ClientDesc}
    (h : List.Forall₂ (Earned g) clients g.ids) {req : Request} {c : ClientDesc}
    (hc : clients.find? (cmpClient req) = some c) :
    g.ids[clients.findIdx (cmpClient req)]? = some (g.sender req clients) ∧
      Earned g c (g.sender req clients) := by
  rcases forall₂_find h hc with ⟨id, hid, hearned⟩
  have hsender : g.sender req clients = id := by
    rw [Ledger.sender, List.getD_eq_getElem?_getD, hid, Option.getD_some]
  rw [hsender]
  exact ⟨hid, hearned⟩

/-- One request keeps the account. -/
theorem earned_step {s : State K} {g : Ledger} (h : List.Forall₂ (Earned g) s.clients g.ids)
    {req : Request} {rply : Option Reply} {clients : List ClientDesc}
    (hstep : TableStep req s rply clients) :
    List.Forall₂ (Earned (g.record req s.clients (tableEvent req rply))) clients
      (g.record req s.clients (tableEvent req rply)).ids := by
  have hkept : ∀ event, List.Forall₂ (Earned (g.record req s.clients event)) s.clients g.ids :=
    fun event => h.imp (fun c id hc => hc.record req s.clients event)
  cases hstep with
  | same none =>
    rw [none]
    exact h
  | granted reach room =>
    rename_i c
    have hevent : tableEvent req (some (reply (.byte (granted c.ownership s.catGen
        (req.data 12)).2))) = some (.granted (granted c.ownership s.catGen (req.data 12)).2) := by
      simp only [tableEvent, reach.2.2, reply]
    rw [hevent]
    rcases earned_sender h reach.2.1 with ⟨hid, hearned⟩
    refine forall₂_set (hkept _) _ _ ?_
    intro id hid' cat hcat
    rw [hid] at hid'
    cases hid'
    rcases hcat with ⟨hne, hown | hlabel⟩
    · rcases granted_has_imp room hown with hold | rfl
      · exact (hearned cat ⟨hne, Or.inl hold⟩).record _ _ _
      · exact ⟨_, .self _, List.mem_cons_self⟩
    · exact (hearned cat ⟨hne, Or.inr hlabel⟩).record _ _ _
  | forked reach allowed =>
    have hevent : tableEvent req (some (reply (.word 0))) = some .forked := by
      simp only [tableEvent, reach.2.2, reply]
    rw [hevent]
    rcases earned_sender h reach.2.1 with ⟨-, hearned⟩
    refine List.rel_append (hkept _) (.cons ?_ .nil)
    intro cat hcat
    -- the new client holds only what its parent held
    have hgave := (hearned cat (allowed.holds hcat)).record req s.clients (some .forked)
    exact hgave.forked List.mem_cons_self
  | joined reach found =>
    have hevent : tableEvent req (some (reply (.word 0))) = some .joined := by
      simp only [tableEvent, reach.2.2, reply]
    rw [hevent, eraseP_eq_eraseIdx]
    exact forall₂_eraseIdx (hkept (some .joined)) _

/-- Starting with a client that has an empty label and an empty ownership, whatever
    requests arrive, every category that a client owns and every integrity category of
    its label was returned to it, or to one of its ancestors, by an earlier
    `CREATE_CAT`. -/
theorem ownership_earned (ops : KernelOps K) (k : K) (pid : Nat) (s : State K) (g : Ledger)
    (hrun : LedgerRun ops (State.start k [initFirstChild pid (fun _ => 0) (fun _ => 0)]) s g) :
    List.Forall₂ (Earned g) s.clients g.ids := by
  induction hrun with
  | start =>
    refine .cons ?_ .nil
    -- an empty label and ownership hold nothing
    rintro cat ⟨hne, ⟨_, hzero⟩ | ⟨⟨_, hzero⟩, -⟩⟩
    · exact absurd hzero.symm hne
    · exact absurd hzero.symm hne
  | step req run ret ih => exact earned_step ih (tableStep_of_ok ret)

/-- An ownership of one category. -/
def oneCat (cat : Cat) : Own := ![cat, 0, 0, 0, 0, 0, 0, 0]

/-- Client 7 is given a category and forks process 9 with it. -/
theorem ownership_earned_fork :
    ∃ s g, LedgerRun generousKernel (State.start () [initFirstChild 7 (fun _ => 0)
        (fun _ => 0)]) s g ∧
      s.clients.map (fun c => c.ownership 0) = [1, 1] ∧ g.forks = [(1, 0)] ∧
      g.returned = [(0, 1)] ∧ List.Forall₂ (Earned g) s.clients g.ids := by
  have hsteps : wp (handleClientRpc generousKernel (createCatReq 0))
      (fun rply s => tableEvent (createCatReq 0) rply = some (.granted 1) ∧
        wp (handleClientRpc generousKernel (forkReq 7 9 (fun _ => 0) (oneCat 1)))
        (fun rply' s' => tableEvent (forkReq 7 9 (fun _ => 0) (oneCat 1)) rply' = some .forked ∧
          s'.clients.map (fun c => c.ownership 0) = [1, 1]) (fun _ _ => False) s)
      (fun _ _ => False) (State.start () [client7]) := by
    decide +kernel
  rcases exists_ok hsteps with ⟨_, s, hfirst, hgranted, hstep⟩
  rcases exists_ok hstep with ⟨_, s', hsecond, hforked, howns⟩
  have hrun := LedgerRun.step _ (LedgerRun.step _ .start hfirst) hsecond
  rw [hgranted, hforked] at hrun
  -- with one descriptor in the table the sender is number 0
  have hsender : ∀ i, [0].getD i 0 = 0 := by
    intro i
    cases i <;> rfl
  refine ⟨s', _, hrun, howns, ?_, ?_, ownership_earned generousKernel () 7 s' _ hrun⟩
  · simp only [Ledger.record, Ledger.sender, Ledger.start, hsender]
  · simp only [Ledger.record, Ledger.sender, Ledger.start, hsender]

end ArbiterThread
