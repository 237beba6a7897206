import ArbiterThread.Arbiter.Protection

/-!
# Memory That Was Never Initialised

Two runs of the arbiter on the same requests, which differ only in what `malloc` and
the stack happened to hold.

There are two places where this matters. `init_first_child` clears four bytes of
the first descriptor and sets its address and its process id, but neither its label
nor its ownership, and nearly every request reads them. And each handler sends a
reply of which it has set one part. The client looks at one part too, and whether
these are the same depends on the exit that was taken: a `REALLOC` that is refused
sets nothing, and `ab_realloc` returns what the stack held.

## Main definitions

* `Scratch`: What the stack holds where a handler puts its reply.
* `seen`: The part of a reply that the client's wrapper reads.
* `PairRun`: Two runs on the same requests.
* `Twins`, `SameOutcome`: The states differ in the first descriptor at most, and
  the requests end in the same way.
* `Heedless`: The request does not make the arbiter look at the first descriptor's label
  or ownership.
* `UninitOk`: The descriptors are equal or not looked at, and no `REALLOC` is refused.

## Theorems

* `dispatch_sets`: Every handler sets what is read of its reply, unless it refuses a
  `REALLOC`.
* `UnseenPair.step`: A request that does not look keeps the states alike.
* `uninit_independent`: In runs whose requests meet the condition, nothing depends
  on uninitialised memory.
* `uninit_independent_fails`: A request that is answered or refused.
-/

namespace ArbiterThread

open Exec

variable {K : Type}

/-! ### Replies as the client reads them -/

/-- What the stack holds at `return_val` and `return_val_64`. -/
structure Scratch where
  returnVal : Nat
  returnVal64 : Label

/-- The bytes of `return_val` as they are sent. -/
def Scratch.word (x : Scratch) : Ret → Nat
  | .unset => x.returnVal
  | .byte cat => x.returnVal / 256 * 256 + cat.toNat
  | .word v => v
  | .word64 _ => x.returnVal

/-- The bytes of `return_val_64` as they are sent. -/
def Scratch.word64 (x : Scratch) : Ret → Label
  | .word64 v => v
  | _ => x.returnVal64

/-- What a wrapper takes out of a reply. -/
inductive Field where
  | nothing
  | byte (cat : Nat)
  | word (v : Nat)
  | word64 (x : Label)
deriving DecidableEq

/-- The field read by the wrapper that sends requests of this kind. -/
def wrapperReads (x : Scratch) (ret : Ret) : Opcode → Field
  | .fork => .word (x.word ret)
  | .pthreadJoin => .word (x.word ret)
  | .malloc => .word (x.word ret)
  | .free => .nothing
  | .createCat => .byte (x.word ret % 256)
  | .getLabel => .word64 (x.word64 ret)
  | .getOwnership => .word64 (x.word64 ret)
  | .getMemLabel => .word64 (x.word64 ret)
  | .calloc => .word (x.word ret)
  | .realloc => .word (x.word ret)
  | .rpc => .word (x.word ret)

/-- What the sender of a request sees: nothing if there is no reply. -/
def seen (req : Request) (x : Scratch) (rply : Option Reply) : Option Field :=
  rply.bind fun r => (Opcode.decode (req.data.load32 8)).map (wrapperReads x r.ret)

/-- The reply determines what the wrapper reads. -/
def Sets (op : Opcode) (ret : Ret) : Prop :=
  ∀ x x' : Scratch, wrapperReads x ret op = wrapperReads x' ret op

/-- The request is a `REALLOC` that is going to be refused. -/
def RefusedRealloc (req : Request) (s : State K) : Prop :=
  ∃ c L, Reaches req s c .realloc ∧ blockLabelAt c s (req.data.load32 12) = some L ∧
    checkLabel c.label c.ownership L none ≠ 0

theorem sets_byte (cat : Cat) : Sets .createCat (.byte cat) := by
  intro x x'
  have hlt := cat.toNat_lt
  simp only [wrapperReads, Scratch.word, Field.byte.injEq]
  omega

/-- A handler sets what is read of its reply, unless it refuses a `REALLOC`. -/
theorem dispatch_sets (ops : KernelOps K) {req : Request} {s : State K} {c : ClientDesc}
    {op : Opcode} (hreach : Reaches req s c op) (hok : ¬ RefusedRealloc req s) :
    wp (dispatch ops c req op) (fun rply _ => Sets op rply.ret) (fun _ _ => True) s := by
  -- every way through a handler that returns has set the answer, but one
  cases op with
  | createCat =>
    change wp (handleCreateCatRpc c req) _ _ s
    rw [wp_handleCreateCatRpc]
    split
    · exact sets_byte _
    · trivial
  | fork =>
    change wp (handleForkRpc ops c req) _ _ s
    rw [wp_handleForkRpc]
    split
    · exact fun _ _ => rfl
    · exact wp_of_forall (fun _ _ _ _ => rfl) (fun _ _ => trivial)
  | pthreadJoin =>
    change wp (handlePthreadJoinRpc c req) _ _ s
    rw [wp_handlePthreadJoinRpc]
    split
    · exact fun _ _ => rfl
    · split
      · exact fun _ _ => rfl
      · exact fun _ _ => rfl
  | malloc =>
    change wp (handleMallocRpc ops c req) _ _ s
    rw [wp_handleMallocRpc]
    split
    · exact fun _ _ => rfl
    · exact wp_of_forall (fun _ _ _ _ => rfl) (fun _ _ => trivial)
  | free => exact wp_of_forall (fun _ _ _ _ => rfl) (fun _ _ => trivial)
  | getLabel => exact (wp_pure ..).mpr (fun _ _ => rfl)
  | getOwnership => exact (wp_pure ..).mpr (fun _ _ => rfl)
  | getMemLabel =>
    change wp (handleGetMemLabelRpc req) _ _ s
    rw [wp_handleGetMemLabelRpc]
    split
    · exact fun _ _ => rfl
    · trivial
  | calloc =>
    change wp (handleCallocRpc ops c req) _ _ s
    rw [wp_handleCallocRpc]
    split
    · exact fun _ _ => rfl
    · exact wp_of_forall (fun _ _ _ _ => rfl) (fun _ _ => trivial)
  | realloc =>
    change wp (handleReallocRpc ops c req) _ _ s
    rw [wp_handleReallocRpc]
    split
    · trivial
    · rename_i L hL
      -- REALLOC that is refused goes on to send the reply as it is
      split
      · rename_i hrefused
        exact absurd ⟨c, L, hreach, hL, hrefused⟩ hok
      · exact wp_of_forall (fun _ _ _ _ => rfl) (fun _ _ => trivial)
  | rpc => exact (wp_pure ..).mpr (fun _ _ => rfl)

/-! ### Two runs -/

/-- The descriptors are the same, or they are the first one of either run. -/
def Twin (d d' c c' : ClientDesc) : Prop := c' = c ∨ c = d ∧ c' = d'

/-- The states differ in the first descriptor at most. -/
def Twins (d d' : ClientDesc) (s s' : State K) : Prop :=
  s' = { s with clients := s'.clients } ∧ List.Forall₂ (Twin d d') s.clients s'.clients

/-- Both runs of the request return, with replies in which the sender sees the same, or
    both stop with the same fault. -/
def SameOutcome (ops : KernelOps K) (d d' : ClientDesc) (req : Request) (x x' : Scratch)
    (s s' : State K) : Prop :=
  wp (handleClientRpc ops req)
    (fun rply t => wp (handleClientRpc ops req)
      (fun rply' t' => seen req x rply = seen req x' rply' ∧ Twins d d' t t')
      (fun _ _ => False) s')
    (fun e t => wp (handleClientRpc ops req) (fun _ _ => False)
      (fun e' t' => e = e' ∧ Twins d d' t t') s') s

/-- The states of two runs on the same requests, as long as both return and the
    requests meet `Ok`. -/
inductive PairRun (ops : KernelOps K) (Ok : Request → State K → Prop) (s₀ s₀' : State K) :
    State K → State K → Prop
  | start : PairRun ops Ok s₀ s₀' s₀ s₀'
  | step {s s' t t' : State K} {rply rply' : Option Reply} (req : Request)
      (run : PairRun ops Ok s₀ s₀' s s') (ok : Ok req s)
      (ret : handleClientRpc ops req s = .ok rply t)
      (ret' : handleClientRpc ops req s' = .ok rply' t') : PairRun ops Ok s₀ s₀' t t'

/-- The request makes the arbiter look at nobody's label or ownership. A `JOIN` of the
    only client compares a label with itself, and so do requests about `NULL`. -/
def Heedless (req : Request) (s : State K) : Prop :=
  ∀ c op, Reaches req s c op →
    op = .pthreadJoin ∨ op = .free ∨ op = .getMemLabel ∨ op = .rpc ∨
    (op = .realloc ∧ (req.data.load32 12 ≠ 0 ∨ req.data.load32 16 = 0 ∨
      requestOutOfRange (req.data.load32 16) ∨ s.locked))

/-- The first descriptors are equal or not looked at, and no `REALLOC` is refused. -/
def UninitOk (d d' : ClientDesc) (req : Request) (s : State K) : Prop :=
  (d' = d ∨ Heedless req s) ∧ ¬ RefusedRealloc req s

theorem Twins.refl (d d' : ClientDesc) (s : State K) : Twins d d' s s :=
  ⟨rfl, List.forall₂_same.mpr (fun _ _ => Or.inl rfl)⟩

/-- With equal states the two runs are one, and only the stack can make a difference. -/
theorem sameOutcome_self (ops : KernelOps K) (d d' : ClientDesc) {req : Request} {s : State K}
    (hok : ¬ RefusedRealloc req s) (x x' : Scratch) : SameOutcome ops d d' req x x' s s := by
  have hseen : wp (handleClientRpc ops req) (fun rply _ => seen req x rply = seen req x' rply)
      (fun _ _ => True) s := by
    refine wp_handleClientRpc (fun _ => rfl) (fun c op hreach => ?_)
    refine wp_imp (dispatch_sets ops hreach hok) ?_
    intro rply _ hsets
    simp only [seen, hreach.2.2, Option.bind_some, Option.map_some, hsets x x']
  apply wp_twice
  exact wp_mono hseen (fun _ t h => ⟨h, Twins.refl d d' t⟩)
    (fun _ t _ => ⟨rfl, Twins.refl d d' t⟩)

/-! ### Requests that do not look -/

/-- What runs keep while nobody looks: there is no client besides the first, and no
    memory. -/
structure Unseen (d : ClientDesc) (s : State K) : Prop where
  clients : s.clients = [] ∨ s.clients = [d]
  units : s.ustateList = []
  mstates : s.mstateList = []

theorem Unseen.unitAt {d : ClientDesc} {s : State K} (h : Unseen d s) (ptr : Nat) :
    unitAt s ptr = none := by
  rw [ArbiterThread.unitAt, h.units]
  rfl

/-- The state after a `REALLOC` of `NULL` whose size is out of range. -/
theorem Unseen.ablibMalloc {d : ClientDesc} {s : State K} (h : Unseen d s) (ops : KernelOps K)
    (pid bytes : Nat) (L : Label) (hbytes : bytes = 0 ∨ requestOutOfRange bytes ∨ s.locked)
    (Q : Nat → State K → Prop) (E : Fault → State K → Prop) :
    wp (ablibMalloc ops pid bytes L) Q E s ↔
      if bytes = 0 then Q 0 s
      else if s.locked then E .deadlock s
      else wp newMstate (fun _ t => Q 0 t) E { s with locked := true } := by
  change wp (ablibMallocStep ops (ablibMallocAux ops 1) pid bytes L) Q E s ↔ _
  simp only [ablibMallocStep, lookupMstateByLabel, wp_bind, wp_get, wp_pure, h.mstates,
    List.find?_nil, wp_ite, mallocEnter, wp_mallocLock]
  by_cases hzero : bytes = 0
  · rw [if_pos hzero, if_pos hzero]
  rw [if_neg hzero, if_neg hzero]
  by_cases hlocked : s.locked
  · rw [if_pos hlocked, if_pos hlocked]
  rw [if_neg hlocked, if_neg hlocked]
  have hrange : requestOutOfRange bytes := (hbytes.resolve_left hzero).resolve_right hlocked
  simp only [if_pos hrange]

theorem Unseen.newMstate {d : ClientDesc} {s : State K} (h : Unseen d s) (l' : List ClientDesc)
    {Q : State K → State K → Prop} {E : Fault → State K → Fault → State K → Prop}
    (hQ : ∀ t, Unseen d t → t.clients = s.clients → Q t { t with clients := l' })
    (hE : ∀ e, E e s e { s with clients := l' }) :
    wp newMstate (fun _ t => wp newMstate (fun _ t' => Q t t') (fun _ _ => False)
        { s with clients := l' })
      (fun e t => wp newMstate (fun _ _ => False) (fun e' t' => E e t e' t')
        { s with clients := l' }) s := by
  simp only [ArbiterThread.newMstate, wp_bind, wp_get, wp_ite, wp_set, wp_pure, wp_throw]
  by_cases hroom : s.nextMstate < mstateLimit
  · simp only [if_pos hroom]
    exact hQ _ ⟨h.clients, h.units, h.mstates⟩ rfl
  · simp only [if_neg hroom]
    exact hE _

/-- Two states while nobody looks. -/
structure UnseenPair (d d' : ClientDesc) (s s' : State K) : Prop extends Unseen d s where
  twin : s' = { s with clients := s.clients.map fun _ => d' }

theorem UnseenPair.twins {d d' : ClientDesc} {s s' : State K} (h : UnseenPair d d' s s') :
    Twins d d' s s' := by
  rw [h.twin]
  refine ⟨rfl, ?_⟩
  rcases h.clients with hnone | hfirst
  · rw [hnone]
    exact .nil
  · rw [hfirst]
    exact .cons (Or.inr ⟨rfl, rfl⟩) .nil

section

variable {d : ClientDesc} {s : State K} (ops : KernelOps K) (req : Request)
  (Q : Reply → State K → Prop) (E : Fault → State K → Prop)

theorem wp_join_only (hclients : s.clients = [d]) :
    wp (handlePthreadJoinRpc d req) Q E s ↔
      if d.pid = req.data.load32 12 then Q (reply (.word 0)) { s with clients := [] }
      else Q (reply failed) s := by
  rw [wp_handlePthreadJoinRpc, hclients]
  by_cases hpid : d.pid = req.data.load32 12
  · simp only [cmpClientPid, hpid, decide_true, List.find?_cons_of_pos, List.eraseP_cons_of_pos,
      checkLabel_self _ _ _ (Or.inr rfl), ne_eq, not_true_eq_false, if_false, if_true]
  · simp only [cmpClientPid, hpid, decide_false, Bool.false_eq_true, not_false_eq_true,
      List.find?_cons_of_neg, List.find?_nil, if_false]

/-- A block is in no unit, and `NULL` has the client's own label. -/
theorem Unseen.blockLabelAt (h : Unseen d s) (c : ClientDesc) (ptr : Nat) :
    blockLabelAt c s ptr = if ptr = 0 then some c.label else none := by
  unfold ArbiterThread.blockLabelAt
  by_cases hptr : ptr = 0
  · rw [if_neg (not_not.mpr hptr), if_pos hptr]
  · rw [if_pos hptr, if_neg hptr, h.unitAt, Option.map_none]

theorem Unseen.wp_free (h : Unseen d s) (c : ClientDesc) :
    wp (handleFreeRpc ops c req) Q E s ↔
      if req.data.load32 12 = 0 then Q (reply .unset) s else E .segv s := by
  rw [wp_handleFreeRpc, h.blockLabelAt]
  by_cases hptr : req.data.load32 12 = 0
  · simp only [checkLabel_self _ _ _ (Or.inl rfl), ne_eq, not_true_eq_false, if_false, hptr,
      ablibFree, if_true, wp_pure]
  · simp only [if_neg hptr]

theorem Unseen.wp_realloc (h : Unseen d s) (c : ClientDesc)
    (hsize : req.data.load32 12 ≠ 0 ∨ req.data.load32 16 = 0 ∨
      requestOutOfRange (req.data.load32 16) ∨ s.locked) :
    wp (handleReallocRpc ops c req) Q E s ↔
      if req.data.load32 12 = 0 then
        if req.data.load32 16 = 0 then Q (reply (.word 0)) s
        else if s.locked then E .deadlock s
        else wp ArbiterThread.newMstate (fun _ t => Q (reply (.word 0)) t) E
          { s with locked := true }
      else E .segv s := by
  rw [wp_handleReallocRpc, h.blockLabelAt]
  by_cases hptr : req.data.load32 12 = 0
  · simp only [checkLabel_self _ _ _ (Or.inl rfl), ne_eq, not_true_eq_false, if_false, hptr,
      ablibRealloc, if_true]
    exact h.ablibMalloc ops _ _ _ (hsize.resolve_left (not_not.mpr hptr)) _ _
  · simp only [if_neg hptr]

end

/-- The handler of a request that does not look, in both runs. -/
theorem UnseenPair.dispatch {d d' : ClientDesc} {s s' : State K} (h : UnseenPair d d' s s')
    (hpid : d'.pid = d.pid) (ops : KernelOps K) {req : Request} {op : Opcode}
    (hclients : s.clients = [d])
    (hheedless : op = .pthreadJoin ∨ op = .free ∨ op = .getMemLabel ∨ op = .rpc ∨
      (op = .realloc ∧ (req.data.load32 12 ≠ 0 ∨ req.data.load32 16 = 0 ∨
        requestOutOfRange (req.data.load32 16) ∨ s.locked))) :
    wp (dispatch ops d req op)
      (fun rply t => wp (dispatch ops d' req op)
        (fun rply' t' => rply = rply' ∧ Sets op rply.ret ∧ UnseenPair d d' t t')
        (fun _ _ => False) s')
      (fun e t => wp (dispatch ops d' req op) (fun _ _ => False)
        (fun e' t' => e = e' ∧ UnseenPair d d' t t') s') s := by
  have hs' := h.twin
  rw [hclients, List.map_singleton] at hs'
  subst hs'
  have hunseen' : Unseen d' { s with clients := [d'] } := ⟨Or.inr rfl, h.units, h.mstates⟩
  have hpair : UnseenPair d d' s { s with clients := [d'] } := by
    refine ⟨h.toUnseen, ?_⟩
    rw [hclients]
    rfl
  rcases hheedless with rfl | rfl | rfl | rfl | ⟨rfl, hrealloc⟩
  · change wp (handlePthreadJoinRpc d req) (fun rply t => wp (handlePthreadJoinRpc d' req) _ _ _)
      (fun e t => wp (handlePthreadJoinRpc d' req) _ _ _) s
    rw [wp_join_only _ _ _ hclients]
    simp only [wp_join_only req _ _ (s := { s with clients := [d'] }) rfl, hpid]
    by_cases hjoin : d.pid = req.data.load32 12
    · simp only [if_pos hjoin]
      exact ⟨trivial, fun _ _ => rfl, ⟨Or.inl rfl, h.units, h.mstates⟩, rfl⟩
    · simp only [if_neg hjoin]
      exact ⟨trivial, fun _ _ => rfl, ⟨h.clients, h.units, h.mstates⟩, by rw [hclients]; rfl⟩
  · change wp (handleFreeRpc ops d req) (fun rply t => wp (handleFreeRpc ops d' req) _ _ _)
      (fun e t => wp (handleFreeRpc ops d' req) _ _ _) s
    rw [h.wp_free]
    simp only [hunseen'.wp_free]
    by_cases hptr : req.data.load32 12 = 0
    · simp only [if_pos hptr]
      exact ⟨trivial, fun _ _ => rfl, hpair⟩
    · simp only [if_neg hptr]
      exact ⟨trivial, hpair⟩
  -- no unit is there to be looked up
  · change wp (handleGetMemLabelRpc req) (fun rply t => wp (handleGetMemLabelRpc req) _ _ _)
      (fun e t => wp (handleGetMemLabelRpc req) _ _ _) s
    simp only [wp_handleGetMemLabelRpc, h.unitAt, hunseen'.unitAt]
    exact ⟨trivial, hpair⟩
  · exact (wp_pure ..).mpr ((wp_pure ..).mpr ⟨rfl, fun _ _ => rfl, hpair⟩)
  · change wp (handleReallocRpc ops d req) (fun rply t => wp (handleReallocRpc ops d' req) _ _ _)
      (fun e t => wp (handleReallocRpc ops d' req) _ _ _) s
    rw [h.wp_realloc _ _ _ _ _ hrealloc]
    simp only [hunseen'.wp_realloc _ _ _ _ _ hrealloc]
    by_cases hptr : req.data.load32 12 = 0
    · simp only [if_pos hptr]
      by_cases hsize : req.data.load32 16 = 0
      · simp only [if_pos hsize]
        exact ⟨trivial, fun _ _ => rfl, hpair⟩
      · simp only [if_neg hsize]
        by_cases hlocked : s.locked
        · simp only [if_pos hlocked]
          exact ⟨trivial, hpair⟩
        -- both enter a new label, for which there is no `malloc_state` yet
        · simp only [if_neg hlocked]
          have hlock : Unseen d { s with locked := true } := ⟨h.clients, h.units, h.mstates⟩
          refine hlock.newMstate [d'] ?_ ?_
          · intro t ht htable
            refine ⟨trivial, fun _ _ => rfl, ht, ?_⟩
            rw [htable, hclients]
            rfl
          · intro e
            refine ⟨rfl, hlock, ?_⟩
            rw [hclients]
            rfl
    · simp only [if_neg hptr]
      exact ⟨trivial, hpair⟩

/-- A request that does not look keeps the states alike. -/
theorem UnseenPair.step {d d' : ClientDesc} {s s' : State K} (h : UnseenPair d d' s s')
    (hpid : d'.pid = d.pid) (haddr : d'.unixAddr = d.unixAddr) (ops : KernelOps K) {req : Request}
    (hheedless : Heedless req s) (x x' : Scratch) :
    wp (handleClientRpc ops req)
      (fun rply t => wp (handleClientRpc ops req)
        (fun rply' t' => seen req x rply = seen req x' rply' ∧ UnseenPair d d' t t')
        (fun _ _ => False) s')
      (fun e t => wp (handleClientRpc ops req) (fun _ _ => False)
        (fun e' t' => e = e' ∧ UnseenPair d d' t t') s') s := by
  have hcmp : cmpClient req d' = cmpClient req d := by
    unfold cmpClient
    rw [haddr]
  -- both runs find the same client, or none
  have hfind : (s.clients.find? (cmpClient req) = none ∧ s'.clients.find? (cmpClient req) = none) ∨
      (s.clients = [d] ∧ s.clients.find? (cmpClient req) = some d ∧
        s'.clients.find? (cmpClient req) = some d') := by
    rw [h.twin]
    rcases h.clients with hnone | hfirst
    · rw [hnone]
      exact Or.inl ⟨rfl, rfl⟩
    · rw [hfirst]
      cases hc : cmpClient req d with
      | true =>
        refine Or.inr ⟨rfl, ?_, ?_⟩
        · simp only [List.find?_cons, hc]
        · simp only [List.map_singleton, List.find?_cons, hcmp, hc]
      | false =>
        refine Or.inl ⟨?_, ?_⟩
        · simp only [List.find?_cons, hc, List.find?_nil]
        · simp only [List.map_singleton, List.find?_cons, hcmp, hc, List.find?_nil]
  cases hm : malformed req with
  | some why =>
    simp only [handleClientRpc, answer, wp_bind, wp_get, hm, wp_abMsg, wp_pure]
    exact ⟨rfl, h⟩
  | none =>
    rcases hfind with ⟨hnone, hnone'⟩ | ⟨hclients, hsome, hsome'⟩
    · simp only [handleClientRpc, answer, wp_bind, wp_get, hm, hnone, hnone', wp_abMsg, wp_pure]
      exact ⟨rfl, h⟩
    cases ho : Opcode.decode (req.data.load32 8) with
    | none =>
      simp only [handleClientRpc, answer, wp_bind, wp_get, hm, hsome, hsome', ho, wp_abMsg, wp_pure]
      exact ⟨rfl, h⟩
    | some op =>
      simp only [wp_handleClientRpc_of_dispatch hm hsome ho,
        wp_handleClientRpc_of_dispatch hm hsome' ho]
      refine wp_mono (h.dispatch hpid ops hclients (hheedless d op ⟨hm, hsome, ho⟩)) ?_ ?_
      · intro rply t hrun
        refine wp_mono hrun ?_ (fun _ _ hfalse => hfalse)
        rintro _ t' ⟨rfl, hsets, hpair⟩
        refine ⟨?_, hpair⟩
        simp only [seen, ho, Option.bind_some, Option.map_some, hsets x x']
      · intro e t hrun
        exact hrun

/-! ### Runs -/

/-- With equal descriptors the two runs are one. -/
theorem PairRun.eq {ops : KernelOps K} {Ok : Request → State K → Prop} {s₀ s s' : State K}
    (hrun : PairRun ops Ok s₀ s₀ s s') : s' = s := by
  induction hrun with
  | start => rfl
  | step req run ok ret ret' ih =>
    rw [ih, ret] at ret'
    cases ret'
    rfl

/-- With different descriptors nobody has looked. -/
theorem PairRun.unseen {ops : KernelOps K} {d d' : ClientDesc} (hne : d' ≠ d)
    (hpid : d'.pid = d.pid) (haddr : d'.unixAddr = d.unixAddr) {k : K} {s s' : State K}
    (hrun : PairRun ops (UninitOk d d') (State.start k [d]) (State.start k [d']) s s') :
    UnseenPair d d' s s' := by
  induction hrun with
  | start => exact ⟨⟨Or.inr rfl, rfl, rfl⟩, rfl⟩
  | step req run ok ret ret' ih =>
    have hboth := ih.step hpid haddr ops (ok.1.resolve_left hne) ⟨0, fun _ => 0⟩ ⟨0, fun _ => 0⟩
    have hfirst := wp_run hboth ret
    have hsecond := wp_run hfirst ret'
    exact hsecond.2

/-- As long as the first descriptors are equal or not looked at and no `REALLOC` is
    refused, what requests do and what their senders see does not depend on memory
    that was never initialised. -/
theorem uninit_independent (ops : KernelOps K) (k : K) (pid : Nat) (L L' : Label) (O O' : Own)
    (s s' : State K)
    (hrun : PairRun ops (UninitOk (initFirstChild pid L O) (initFirstChild pid L' O'))
      (State.start k [initFirstChild pid L O]) (State.start k [initFirstChild pid L' O']) s s')
    (req : Request) (hok : UninitOk (initFirstChild pid L O) (initFirstChild pid L' O') req s)
    (x x' : Scratch) :
    SameOutcome ops (initFirstChild pid L O) (initFirstChild pid L' O') req x x' s s' := by
  by_cases hsame : initFirstChild pid L' O' = initFirstChild pid L O
  · rw [hsame] at hrun
    rw [hrun.eq]
    exact sameOutcome_self ops _ _ hok.2 x x'
  · have hpair := hrun.unseen hsame rfl rfl
    have hboth := hpair.step rfl rfl ops (hok.1.resolve_left hsame) x x'
    refine wp_mono hboth ?_ ?_
    · intro rply t hret
      exact wp_imp hret (fun _ _ h => ⟨h.1, h.2.twins⟩)
    · intro e t hret
      exact wp_mono hret (fun _ _ h => h) (fun _ _ h => ⟨h.1, h.2.twins⟩)

/-- With an empty label in the descriptor the first `malloc` of the client returns the
    same block, whatever the stack holds. -/
theorem uninit_independent_malloc :
    UninitOk (initFirstChild 7 (fun _ => 0) (fun _ => 0)) (initFirstChild 7 (fun _ => 0)
        (fun _ => 0)) (mallocReq 0) (State.start () [initFirstChild 7 (fun _ => 0) (fun _ => 0)]) ∧
      SameOutcome generousKernel (initFirstChild 7 (fun _ => 0) (fun _ => 0)) (initFirstChild 7
        (fun _ => 0) (fun _ => 0)) (mallocReq 0) ⟨0, fun _ => 0⟩ ⟨1, fun _ => 1⟩
        (State.start () [initFirstChild 7 (fun _ => 0) (fun _ => 0)])
        (State.start () [initFirstChild 7 (fun _ => 0) (fun _ => 0)]) := by
  have hok : UninitOk (initFirstChild 7 (fun _ => 0) (fun _ => 0)) (initFirstChild 7 (fun _ => 0)
      (fun _ => 0)) (mallocReq 0)
      (State.start () [initFirstChild 7 (fun _ => 0) (fun _ => 0)]) := by
    refine ⟨Or.inl rfl, ?_⟩
    rintro ⟨c, L, hreach, -⟩
    have hop : Opcode.decode ((mallocReq 0).data.load32 8) = some .malloc := by decide
    rw [hreach.2.2] at hop
    cases hop
  exact ⟨hok, uninit_independent generousKernel () 7 _ _ _ _ _ _ .start _ hok _ _⟩

/-- The first `malloc` of the client is answered if its descriptor happens to hold an
    empty label, and refused if it happens to hold a secrecy category. -/
theorem uninit_independent_fails :
    ¬ SameOutcome generousKernel (initFirstChild 7 (fun _ => 0) (fun _ => 0)) (initFirstChild 7
        (fun _ => 1) (fun _ => 0)) (mallocReq 0) ⟨0, fun _ => 0⟩ ⟨0, fun _ => 0⟩
        (State.start () [initFirstChild 7 (fun _ => 0) (fun _ => 0)])
        (State.start () [initFirstChild 7 (fun _ => 1) (fun _ => 0)]) := by
  intro h
  have hanswered : wp (handleClientRpc generousKernel (mallocReq 0))
      (fun rply _ => seen (mallocReq 0) ⟨0, fun _ => 0⟩ rply = some (.word 0x80000008))
      (fun _ _ => False) (State.start () [initFirstChild 7 (fun _ => 0) (fun _ => 0)]) := by
    decide +kernel
  have hrefused : wp (handleClientRpc generousKernel (mallocReq 0))
      (fun rply _ => seen (mallocReq 0) ⟨0, fun _ => 0⟩ rply = some (.word 0))
      (fun _ _ => False) (State.start () [initFirstChild 7 (fun _ => 1) (fun _ => 0)]) := by
    decide +kernel
  rcases exists_ok hanswered with ⟨rply, t, hret, hseen⟩
  rcases exists_ok hrefused with ⟨rply', t', hret', hseen'⟩
  have hfirst := wp_run h hret
  have hsecond := wp_run hfirst hret'
  rw [hseen, hseen'] at hsecond
  exact absurd hsecond.1 (by decide)

end ArbiterThread
