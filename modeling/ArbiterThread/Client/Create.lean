import ArbiterThread.Arbiter.Protection

/-!
# Creating a Thread

`ab_pthread_create` with its three parties: the parent, the new thread and the
arbiter, in any order of their steps.

The parent waits for the new thread to have joined the control group before it
sends the `FORK` request. The new thread waits for nothing. It goes on to
`start_routine` as soon as it has signalled, with whatever protections it
inherited, and whatever the arbiter is going to answer.

## Main definitions

* `forkReq`: The datagram the parent sends.
* `CreateInput`: A call of `ab_pthread_create` and the state in which it is made.
* `ParentPc`, `ChildPc`, `Sys`: Where the parties are, and what they share.
* `CreateStep`, `CreateRun`: One step of one party, and interleavings of them.
* `StartsRegistered`, `StaysOut`: What is expected of the new thread.

## Theorems

* `CreateRun.joined`: The request is only sent once the thread is in the group.
* `createRun_ahead`: The thread can always be the first to go on.
* `create_unprotected`: Both expectations fail, whatever the input.
* `create_unprotected_thread`: A thread that writes what it may only read.
-/

namespace ArbiterThread

open Exec

/-! ### The call -/

/-- The label and the ownership of an `abreq_fork`, at their offsets. -/
def forkFields (L : Label) (O : Own) : Mem :=
  fun i => if i < 20 then L (Fin.ofNat 8 (i - 12)) else O (Fin.ofNat 8 (i - 20))

/-- The request for the process `child`, sent by the process `parent`. -/
def forkReq (parent child : Nat) (L : Label) (O : Own) : Request where
  pktSize := 32
  data := ((((forkFields L O).store32 0 rpcMagic).store32 4 32).store32 8 0).store32 28 child
  clientAddr := fun i => (clientAddrOf parent).getD i 0
  clientAddrLen := (clientAddrOf parent).length

/-- A call of `ab_pthread_create` by the client `parent`, for which `clone` is going
    to answer `child`. -/
structure CreateInput where
  arbiter : State PageKernel
  parent : ClientDesc
  child : Nat
  label : Label
  ownership : Own
  child_lt : child < wordSize
  /-- the arbiter knows the parent by its address -/
  known : arbiter.clients.find? (cmpClient (forkReq parent.pid child label ownership)) =
    some parent

def CreateInput.request (i : CreateInput) : Request :=
  forkReq i.parent.pid i.child i.label i.ownership

/-! ### The parties -/

/-- The next statement of `ab_pthread_create`. -/
inductive ParentPc where
  | clone
  | lock
  | test
  | wait
  | unlock
  | send
  | receive
  | returned (success : Bool)
deriving DecidableEq

/-- The next statement of `_pre_start_routine`. -/
inductive ChildPc where
  | unborn
  | guardPage
  | threadControl
  | lock
  | signal
  | unlock
  | initClientState
  | startRoutine
  | running
  | exited
deriving DecidableEq

inductive Party where
  | parent
  | child
deriving DecidableEq

structure Sys where
  arbiter : State PageKernel
  parent : ParentPc
  child : ChildPc
  done : Bool
  mutex : Option Party
  /-- the `FORK` request was sent and not received -/
  request : Bool
  /-- its reply was sent and not received -/
  rply : Option Reply
  /-- whether `handle_fork_rpc` accepted it, once it has run -/
  verdict : Option Bool

def Sys.start (i : CreateInput) : Sys where
  arbiter := i.arbiter
  parent := .clone
  child := .unborn
  done := false
  mutex := none
  request := false
  rply := none
  verdict := none

/-- `start_routine` has been entered. -/
def Sys.started (s : Sys) : Prop := s.child = .running ∨ s.child = .exited

inductive CreateStep (i : CreateInput) (s : Sys) : Sys → Prop
  | clone (hp : s.parent = .clone) :
      CreateStep i s
        { s with
          parent := .lock
          child := .guardPage
          arbiter := { s.arbiter with kern := s.arbiter.kern.clone i.parent.pid i.child } }
  | cloneFails (hp : s.parent = .clone) : CreateStep i s { s with parent := .returned false }
  | parentLocks (hp : s.parent = .lock) (hm : s.mutex = none) :
      CreateStep i s { s with parent := .test, mutex := some .parent }
  | isDone (hp : s.parent = .test) (hd : s.done = true) :
      CreateStep i s { s with parent := .unlock }
  | waits (hp : s.parent = .test) (hd : s.done = false) :
      CreateStep i s { s with parent := .wait, mutex := none }
  /-- a signal, or none: `pthread_cond_wait` may return at any time -/
  | wakes (hp : s.parent = .wait) (hm : s.mutex = none) :
      CreateStep i s { s with parent := .test, mutex := some .parent }
  | parentUnlocks (hp : s.parent = .unlock) :
      CreateStep i s { s with parent := .send, mutex := none }
  | sends (hp : s.parent = .send) : CreateStep i s { s with parent := .receive, request := true }
  | receives (rply : Reply) (hp : s.parent = .receive) (hr : s.rply = some rply) :
      CreateStep i s
        { s with parent := .returned (decide (rply.ret = .word 0)), rply := none }
  | guardsPage (hc : s.child = .guardPage) : CreateStep i s { s with child := .threadControl }
  | joins (hc : s.child = .threadControl) : CreateStep i s { s with child := .lock }
  | childLocks (hc : s.child = .lock) (hm : s.mutex = none) :
      CreateStep i s { s with child := .signal, mutex := some .child }
  | signals (hc : s.child = .signal) : CreateStep i s { s with child := .unlock, done := true }
  | childUnlocks (hc : s.child = .unlock) :
      CreateStep i s { s with child := .initClientState, mutex := none }
  | inits (hc : s.child = .initClientState) : CreateStep i s { s with child := .startRoutine }
  | starts (hc : s.child = .startRoutine) : CreateStep i s { s with child := .running }
  | exits (hc : s.child = .running) : CreateStep i s { s with child := .exited }
  /-- the arbiter receives the request, and `malloc_update` runs if it accepts it -/
  | handles (rply : Reply) (a : State PageKernel) (hr : s.request = true)
      (ha : handleClientRpc pageOps i.request s.arbiter = .ok (some rply) a) :
      CreateStep i s
        { s with
          arbiter := a
          request := false
          rply := some rply
          verdict := some (decide (rply.ret = .word 0)) }
  /-- the arbiter receives something else -/
  | handlesOther (req : Request) (rply : Option Reply) (a : State PageKernel)
      (ha : handleClientRpc pageOps req s.arbiter = .ok rply a) :
      CreateStep i s { s with arbiter := a }

/-- The states that interleavings of the three lead to. -/
inductive CreateRun (i : CreateInput) : Sys → Prop
  | start : CreateRun i (Sys.start i)
  | step {s s' : Sys} (h : CreateRun i s) (hs : CreateStep i s s') : CreateRun i s'

/-! ### What the handshake is good for -/

/-- The flag is only set, and the parent only gets past its loop, when the thread is
    in the group. -/
structure Joined (s : Sys) : Prop where
  before : s.parent = .clone → s.child = .unborn
  done : s.done = true → s.child ≠ .unborn ∧ s.child ≠ .guardPage ∧ s.child ≠ .threadControl
  past : s.parent = .unlock ∨ s.parent = .send ∨ s.parent = .receive ∨ s.request = true →
    s.done = true

/-- The parent goes on. There is something to check where it is past its loop. -/
theorem Joined.parent_goes {s s' : Sys} (hs : Joined s) (hchild : s'.child = s.child)
    (hdone : s'.done = s.done) (hclone : s'.parent ≠ .clone)
    (hpast : s'.parent = .unlock ∨ s'.parent = .send ∨ s'.parent = .receive ∨ s'.request = true →
      s.done = true) : Joined s' where
  before h := absurd h hclone
  done h := hchild ▸ hs.done (hdone ▸ h)
  past h := hdone ▸ hpast h

/-- The thread goes on, which it cannot before it is born. -/
theorem Joined.child_goes {s s' : Sys} (hs : Joined s) (hborn : s.child ≠ .unborn)
    (hparent : s'.parent = s.parent) (hrequest : s'.request = s.request)
    (hset : s.done = true → s'.done = true)
    (hdone : s'.done = true →
      s'.child ≠ .unborn ∧ s'.child ≠ .guardPage ∧ s'.child ≠ .threadControl) : Joined s' where
  before h := absurd (hs.before (hparent ▸ h)) hborn
  done := hdone
  past h := hset (hs.past (hparent ▸ hrequest ▸ h))

theorem CreateStep.joined {i : CreateInput} {s s' : Sys} (h : CreateStep i s s') (hs : Joined s) :
    Joined s' := by
  have hrequest : s.request = true → s.done = true := fun h => hs.past (.inr (.inr (.inr h)))
  -- before it joins the group the thread cannot have set the flag
  have hunset : s.child = .guardPage ∨ s.child = .threadControl → s.done ≠ true := fun hc hd =>
    hc.elim (hs.done hd).2.1 (hs.done hd).2.2
  cases h with
  | clone hp =>
    have hunborn : s.done ≠ true := fun hd => (hs.done hd).1 (hs.before hp)
    exact ⟨nofun, fun hd => absurd hd hunborn, by simpa using hrequest⟩
  | cloneFails => exact hs.parent_goes rfl rfl nofun (by simpa using hrequest)
  | parentLocks => exact hs.parent_goes rfl rfl nofun (by simpa using hrequest)
  | isDone _ hd => exact hs.parent_goes rfl rfl nofun fun _ => hd
  | waits => exact hs.parent_goes rfl rfl nofun (by simpa using hrequest)
  | wakes => exact hs.parent_goes rfl rfl nofun (by simpa using hrequest)
  | parentUnlocks hp => exact hs.parent_goes rfl rfl nofun fun _ => hs.past (.inl hp)
  | sends hp => exact hs.parent_goes rfl rfl nofun fun _ => hs.past (.inr (.inl hp))
  | receives => exact hs.parent_goes rfl rfl nofun (by simpa using hrequest)
  | guardsPage hc =>
    exact hs.child_goes (by simp [hc]) rfl rfl id fun hd => absurd hd (hunset (.inl hc))
  | joins hc => exact hs.child_goes (by simp [hc]) rfl rfl id (by simp)
  | childLocks hc => exact hs.child_goes (by simp [hc]) rfl rfl id (by simp)
  | signals hc => exact hs.child_goes (by simp [hc]) rfl rfl (fun _ => rfl) (by simp)
  | childUnlocks hc => exact hs.child_goes (by simp [hc]) rfl rfl id (by simp)
  | inits hc => exact hs.child_goes (by simp [hc]) rfl rfl id (by simp)
  | starts hc => exact hs.child_goes (by simp [hc]) rfl rfl id (by simp)
  | exits hc => exact hs.child_goes (by simp [hc]) rfl rfl id (by simp)
  | handles =>
    -- the request is gone, and nobody has moved
    exact ⟨hs.before, hs.done, fun h =>
      hs.past (h.imp_right (Or.imp_right (Or.imp_right nofun)))⟩
  | handlesOther => exact ⟨hs.before, hs.done, hs.past⟩

/-- When the request is in flight, the thread has joined the control group. -/
theorem CreateRun.joined {i : CreateInput} {s : Sys} (h : CreateRun i s) (hr : s.request = true) :
    s.child ≠ .unborn ∧ s.child ≠ .guardPage ∧ s.child ≠ .threadControl := by
  have hinv : Joined s := by
    clear hr
    induction h with
    | start => exact ⟨fun _ => rfl, fun h => absurd h Bool.false_ne_true, by simp [Sys.start]⟩
    | step _ hs ih => exact hs.joined ih
  exact hinv.done (hinv.past (Or.inr (Or.inr (Or.inr hr))))

/-! ### What it is not good for -/

/-- The thread enters `start_routine` only after its request was accepted, and so
    after `malloc_update` has set its protections. -/
def StartsRegistered (i : CreateInput) : Prop :=
  ∀ s, CreateRun i s → s.started → s.verdict = some true

/-- If the request is refused, the thread does not enter it. -/
def StaysOut (i : CreateInput) : Prop :=
  ∀ s, CreateRun i s → s.verdict = some false → ¬ s.started

/-- The label and ownership asked for are more than the parent may hand on. -/
def CreateInput.refused (i : CreateInput) : Prop :=
  checkLabel i.parent.label i.parent.ownership i.label (some i.ownership) ≠ 0

/-- The state in which the thread has gone all the way and nobody else has moved. -/
def Sys.ahead (i : CreateInput) : Sys :=
  { Sys.start i with
    arbiter := { i.arbiter with kern := i.arbiter.kern.clone i.parent.pid i.child }
    parent := .lock
    child := .running
    done := true }

/-- The thread can always be the first to go on. -/
theorem createRun_ahead (i : CreateInput) : CreateRun i (Sys.ahead i) := by
  have h1 := CreateRun.step .start (CreateStep.clone (i := i) rfl)
  have h2 := h1.step (.guardsPage rfl)
  have h3 := h2.step (.joins rfl)
  have h4 := h3.step (.childLocks rfl rfl)
  have h5 := h4.step (.signals rfl)
  have h6 := h5.step (.childUnlocks rfl)
  have h7 := h6.step (.inits rfl)
  exact h7.step (.starts rfl)

/-- The parent follows and sends its request. -/
theorem createRun_sent (i : CreateInput) :
    CreateRun i { Sys.ahead i with parent := .receive, request := true } := by
  have h1 := (createRun_ahead i).step (.parentLocks rfl rfl)
  have h2 := h1.step (.isDone rfl rfl)
  have h3 := h2.step (.parentUnlocks rfl)
  exact h3.step (.sends rfl)

theorem forked_forkReq (parent : Nat) {child : Nat} (h : child < wordSize) (L : Label) (O : Own) :
    forked (forkReq parent child L O) = ⟨clientAddrOf child, child, L, O⟩ := by
  have hpid : (forkReq parent child L O).data.load32 28 = child :=
    Mem.load32_store32_self _ _ _ h
  have hlabel : labelAt (forkReq parent child L O).data 12 = L := by
    funext j
    have hj := j.isLt
    have hindex : Fin.ofNat 8 (12 + j - 12) = j := Fin.ext (by simp only [Fin.ofNat]; omega)
    simp only [labelAt, forkReq, forkFields, Mem.store32]
    rw [if_neg (by omega), if_neg (by omega), if_neg (by omega), if_neg (by omega),
      if_pos (by omega), hindex]
  have hown : labelAt (forkReq parent child L O).data 20 = O := by
    funext j
    have hj := j.isLt
    have hindex : Fin.ofNat 8 (20 + j - 20) = j := Fin.ext (by simp only [Fin.ofNat]; omega)
    simp only [labelAt, forkReq, forkFields, Mem.store32]
    rw [if_neg (by omega), if_neg (by omega), if_neg (by omega), if_neg (by omega),
      if_neg (by omega), hindex]
  unfold forked
  rw [hpid, hlabel, hown]

/-- The request reaches its handler as long as the arbiter knows the parent. -/
theorem CreateInput.reaches (i : CreateInput) {s : State PageKernel}
    (hs : s.clients = i.arbiter.clients) : Reaches i.request s i.parent .fork := by
  have hmagic : i.request.data.load32 0 = rpcMagic := by
    simp only [CreateInput.request, forkReq]
    rw [Mem.load32_store32_of_disjoint _ _ _ _ (by omega),
      Mem.load32_store32_of_disjoint _ _ _ _ (by omega),
      Mem.load32_store32_of_disjoint _ _ _ _ (by omega),
      Mem.load32_store32_self _ _ _ (by decide)]
  have hlen : i.request.data.load32 4 = 32 := by
    simp only [CreateInput.request, forkReq]
    rw [Mem.load32_store32_of_disjoint _ _ _ _ (by omega),
      Mem.load32_store32_of_disjoint _ _ _ _ (by omega),
      Mem.load32_store32_self _ _ _ (by decide)]
  have hopcode : i.request.data.load32 8 = 0 := by
    simp only [CreateInput.request, forkReq]
    rw [Mem.load32_store32_of_disjoint _ _ _ _ (by omega),
      Mem.load32_store32_self _ _ _ (by decide)]
  refine ⟨?_, ?_, ?_⟩
  · have hsize : i.request.pktSize = 32 := rfl
    unfold malformed
    rw [hsize, hmagic, hlen]
    decide
  · rw [hs]
    exact i.known
  · rw [hopcode]
    rfl

/-- The arbiter refuses the request of a client that may not make it. -/
theorem CreateInput.handle_refused (i : CreateInput) (hrefused : i.refused)
    {s : State PageKernel} (hs : s.clients = i.arbiter.clients) :
    ∃ a, handleClientRpc pageOps i.request s = .ok (some (reply failed)) a := by
  obtain ⟨hm, hc, hop⟩ := i.reaches hs
  have hforked := forked_forkReq i.parent.pid i.child_lt i.label i.ownership
  obtain ⟨rply, a, ha, hr⟩ : ∃ rply a, handleClientRpc pageOps i.request s = .ok rply a ∧
      rply = some (reply failed) := by
    apply exists_ok
    rw [wp_handleClientRpc_of_dispatch hm hc hop]
    change wp (handleForkRpc pageOps i.parent i.request) _ _ s
    rw [wp_handleForkRpc, CreateInput.request, hforked]
    split
    · rfl
    · rename_i haccepted
      exact absurd hrefused haccepted
  exact ⟨a, hr ▸ ha⟩

/-- The thread may start before its request is even sent. -/
theorem not_startsRegistered (i : CreateInput) : ¬ StartsRegistered i := by
  intro h
  have hnone := h _ (createRun_ahead i) (Or.inl rfl)
  exact absurd hnone (by simp only [Sys.ahead, Sys.start, reduceCtorEq, not_false_eq_true])

/-- Whatever the input, the thread may start before its request is even sent, and a
    thread whose request is refused may have started. -/
theorem create_unprotected (i : CreateInput) :
    ¬ StartsRegistered i ∧ (i.refused → ¬ StaysOut i) := by
  refine ⟨not_startsRegistered i, fun hrefused h => ?_⟩
  obtain ⟨a, ha⟩ := i.handle_refused hrefused (s := (Sys.ahead i).arbiter) rfl
  have hrun := (createRun_sent i).step (.handles (reply failed) a rfl ha)
  exact h _ hrun rfl (Or.inl rfl)

/-- Client 7 creates a thread with an integrity category that it does not own. -/
theorem create_unprotected_refused :
    ∃ i : CreateInput, i.refused ∧ ¬ StartsRegistered i ∧ ¬ StaysOut i := by
  let i : CreateInput :=
    { arbiter := protStart
      parent := initFirstChild 7 (fun _ => 0) (fun _ => 0)
      child := 8
      label := fun j => if j = 0 then 0x81 else 0
      ownership := fun _ => 0
      child_lt := by decide
      known := by decide +kernel }
  have hrefused : i.refused := by
    unfold CreateInput.refused
    decide +kernel
  exact ⟨i, hrefused, (create_unprotected i).1, (create_unprotected i).2 hrefused⟩

/-- The label with one secrecy category. -/
def secretLabel : Label := fun j => if j = 0 then 1 else 0

/-- Client 7 has a unit with the empty label. It creates thread 8 with a secrecy
    category, which may only read the unit. Before its request is sent the thread is
    running, and can write the unit like its parent. -/
theorem create_unprotected_thread :
    ∃ i : CreateInput, ¬ StartsRegistered i ∧ ∃ s, CreateRun i s ∧ s.started ∧ s.verdict = none ∧
      0 ∈ s.arbiter.ustateList ∧
      ¬ s.arbiter.kern.prot i.child (channelAddr / 4096) ≤
        checkMemProt i.label i.ownership
          (s.arbiter.mstates (s.arbiter.units 0).unitAv).label := by
  have hchild : 8 < wordSize := by decide
  obtain ⟨rply, a, -, hknown, hunit, hprot⟩ : ∃ rply a,
      handleClientRpc pageOps (mallocReq 0) protStart = .ok rply a ∧
      a.clients.find? (cmpClient (forkReq 7 8 secretLabel (fun _ => 0))) =
        some (initFirstChild 7 (fun _ => 0) (fun _ => 0)) ∧
      0 ∈ a.ustateList ∧
      ¬ a.kern.prot 7 (channelAddr / 4096) ≤
        checkMemProt secretLabel (fun _ => 0) (a.mstates (a.units 0).unitAv).label :=
    exists_ok (by decide +kernel)
  let i : CreateInput :=
    ⟨a, initFirstChild 7 (fun _ => 0) (fun _ => 0), 8, secretLabel, fun _ => 0, hchild, hknown⟩
  exact ⟨i, not_startsRegistered i, Sys.ahead i, createRun_ahead i, Or.inl rfl, rfl, hunit, hprot⟩

end ArbiterThread
