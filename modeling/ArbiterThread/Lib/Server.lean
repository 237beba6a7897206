import Mathlib.Logic.Function.Basic
import ArbiterThread.Lib.Transitions

/-!
# Clients and a Server

Clients that send a request, wait for the reply and go on, and a server that
takes the requests out of one queue.

Nobody numbers the messages here. A reply says nothing about the request it
belongs to, and a client takes whatever is in its mailbox. That this works is a
consequence of every client having one request under way at most, which is not
something the system checks. It is the invariant `Tally`.

What the clients may rely on is said by the object `Obj`, which has no queue and no
mailboxes: a call, at some moment between the call and the return the whole request
at once, and the return. The system refines the object, so in every history that
the clients can see the requests take effect one at a time.

The server may also drop a request. Its client then waits forever, which is what
`Phase.lost` stands for.

## Main definitions

* `Service`: What a server does with a request, and what else happens to it.
* `Event`: What a client sees.
* `System`, `System.Step`: Clients, server, queue and mailboxes.
* `Obj`, `Obj.Step`: The same without messages.
* `Tally`: Where the request of a client is.
* `Refines`: The states of the two are related.

## Theorems

* `Refines.simulation`: The system refines the object.
* `Refines.first`, `Refines.mail`: A client that waits has one message under way.
* `Obj.simulation`: A service that does less.
-/

namespace Server

variable {ι Req Resp σ : Type}

/-- What a server does with a request of a client, with the reply if it sends one,
    and what can happen to its state from outside. -/
structure Service (ι Req Resp σ : Type) where
  handle : ι → Req → σ → Option Resp → σ → Prop
  env : σ → σ → Prop

inductive Event (ι Req Resp : Type) where
  | call (i : ι) (r : Req)
  | ret (i : ι) (r : Req) (v : Resp)

/-! ### With messages -/

structure System (ι Req Resp σ : Type) where
  server : σ
  /-- the requests sent and not yet taken, the oldest one first -/
  queue : List (ι × Req)
  /-- the replies sent to a client and not yet taken -/
  mail : ι → List Resp
  /-- the request a client is waiting for -/
  pending : ι → Option Req

section

variable [DecidableEq ι]

inductive System.Step (svc : Service ι Req Resp σ) :
    System ι Req Resp σ → Option (Event ι Req Resp) → System ι Req Resp σ → Prop
  | call {s : System ι Req Resp σ} (i : ι) (r : Req) (idle : s.pending i = none) :
      System.Step svc s (some (.call i r))
        { s with
          queue := s.queue ++ [(i, r)]
          pending := Function.update s.pending i (some r) }
  | serve {s : System ι Req Resp σ} {i : ι} {r : Req} {rest : List (ι × Req)} {v : Resp} {x : σ}
      (first : s.queue = (i, r) :: rest) (done : svc.handle i r s.server (some v) x) :
      System.Step svc s none
        { s with
          server := x
          queue := rest
          mail := Function.update s.mail i (s.mail i ++ [v]) }
  | drop {s : System ι Req Resp σ} {i : ι} {r : Req} {rest : List (ι × Req)} {x : σ}
      (first : s.queue = (i, r) :: rest) (done : svc.handle i r s.server none x) :
      System.Step svc s none { s with server := x, queue := rest }
  | ret {s : System ι Req Resp σ} {i : ι} {r : Req} {v : Resp} {rest : List Resp}
      (waits : s.pending i = some r) (first : s.mail i = v :: rest) :
      System.Step svc s (some (.ret i r v))
        { s with
          mail := Function.update s.mail i rest
          pending := Function.update s.pending i none }
  | env {s : System ι Req Resp σ} {x : σ} (h : svc.env s.server x) :
      System.Step svc s none { s with server := x }

/-! ### Without messages -/

inductive Phase (Req Resp : Type) where
  | idle
  | called (r : Req)
  | done (r : Req) (v : Resp)
  /-- the request was dropped, and the client waits forever -/
  | lost (r : Req)

structure Obj (ι Req Resp σ : Type) where
  server : σ
  phase : ι → Phase Req Resp

inductive Obj.Step (svc : Service ι Req Resp σ) :
    Obj ι Req Resp σ → Option (Event ι Req Resp) → Obj ι Req Resp σ → Prop
  | call {o : Obj ι Req Resp σ} (i : ι) (r : Req) (idle : o.phase i = .idle) :
      Obj.Step svc o (some (.call i r)) { o with phase := Function.update o.phase i (.called r) }
  | perform {o : Obj ι Req Resp σ} {i : ι} {r : Req} {v : Resp} {x : σ}
      (called : o.phase i = .called r) (done : svc.handle i r o.server (some v) x) :
      Obj.Step svc o none ⟨x, Function.update o.phase i (.done r v)⟩
  | lose {o : Obj ι Req Resp σ} {i : ι} {r : Req} {x : σ}
      (called : o.phase i = .called r) (done : svc.handle i r o.server none x) :
      Obj.Step svc o none ⟨x, Function.update o.phase i (.lost r)⟩
  | ret {o : Obj ι Req Resp σ} {i : ι} {r : Req} {v : Resp} (done : o.phase i = .done r v) :
      Obj.Step svc o (some (.ret i r v)) { o with phase := Function.update o.phase i .idle }
  | env {o : Obj ι Req Resp σ} {x : σ} (h : svc.env o.server x) :
      Obj.Step svc o none { o with server := x }

/-! ### Where a request is -/

/-- The requests of one client that are in the queue. -/
def System.sent (s : System ι Req Resp σ) (i : ι) : List Req :=
  (s.queue.filter (·.1 = i)).map Prod.snd

/-- Where the request of a client is: what it waits for, its requests in the queue
    and its mail. -/
inductive Tally : Phase Req Resp → Option Req → List Req → List Resp → Prop
  | idle : Tally .idle none [] []
  | called (r : Req) : Tally (.called r) (some r) [r] []
  | done (r : Req) (v : Resp) : Tally (.done r v) (some r) [] [v]
  | lost (r : Req) : Tally (.lost r) (some r) [] []

section

variable {p : Phase Req Resp} {w : Option Req} {r : Req} {q : List Req} {mail : List Resp}

theorem Tally.served (h : Tally p w (r :: q) mail) (v : Resp) :
    p = .called r ∧ Tally (.done r v) w q (mail ++ [v]) := by
  cases h
  exact ⟨rfl, .done r v⟩

theorem Tally.dropped (h : Tally p w (r :: q) mail) :
    p = .called r ∧ Tally (.lost r) w q mail := by
  cases h
  exact ⟨rfl, .lost r⟩

theorem Tally.returned {v : Resp} (h : Tally p (some r) q (v :: mail)) :
    p = .done r v ∧ Tally (.idle : Phase Req Resp) none q mail := by
  cases h
  exact ⟨rfl, .idle⟩

theorem Tally.sending (h : Tally p none q mail) (r : Req) :
    p = .idle ∧ Tally (.called r) (some r) (q ++ [r]) mail := by
  cases h
  exact ⟨rfl, .called r⟩

end

/-! ### Refinement -/

/-- The server is in the same state, and every client's request is where its phase
    says. -/
structure Refines (s : System ι Req Resp σ) (o : Obj ι Req Resp σ) : Prop where
  server : o.server = s.server
  tally : ∀ i, Tally (o.phase i) (s.pending i) (s.sent i) (s.mail i)

section

variable {s : System ι Req Resp σ} {i : ι} {r : Req} {rest : List (ι × Req)}

theorem sent_cons_self (h : s.queue = (i, r) :: rest) :
    s.sent i = r :: (rest.filter (·.1 = i)).map Prod.snd := by
  simp [System.sent, h]

theorem sent_cons_of_ne {j : ι} (h : s.queue = (i, r) :: rest) (hj : j ≠ i) :
    s.sent j = (rest.filter (·.1 = j)).map Prod.snd := by
  simp [System.sent, h, Ne.symm hj]

theorem Refines.simulation (svc : Service ι Req Resp σ) :
    Lts.Simulation (System.Step svc) (Obj.Step svc) Refines := by
  intro s e s' o hR hstep
  -- One step of the object each time; only the client that moves is looked at.
  cases hstep with
  | call i r idle =>
    have hi := hR.tally i
    rw [idle] at hi
    refine ⟨_, .single (.call i r (hi.sending r).1), hR.server, fun j => ?_⟩
    by_cases hj : j = i
    · subst hj
      simpa [System.sent] using (hi.sending r).2
    · simpa [System.sent, hj, Ne.symm hj] using hR.tally j
  | @serve i r rest v x first done =>
    have hi := hR.tally i
    rw [sent_cons_self first] at hi
    refine ⟨_, .single (.perform (hi.served v).1 (hR.server ▸ done)), rfl, fun j => ?_⟩
    by_cases hj : j = i
    · subst hj
      simpa [System.sent] using (hi.served v).2
    · have hother := hR.tally j
      rw [sent_cons_of_ne first hj] at hother
      simpa [System.sent, hj] using hother
  | @drop i r rest x first done =>
    have hi := hR.tally i
    rw [sent_cons_self first] at hi
    refine ⟨_, .single (.lose hi.dropped.1 (hR.server ▸ done)), rfl, fun j => ?_⟩
    by_cases hj : j = i
    · subst hj
      simpa [System.sent] using hi.dropped.2
    · have hother := hR.tally j
      rw [sent_cons_of_ne first hj] at hother
      simpa [System.sent, hj] using hother
  | @ret i r v rest waits first =>
    have hi := hR.tally i
    rw [waits, first] at hi
    refine ⟨_, .single (.ret hi.returned.1), hR.server, fun j => ?_⟩
    by_cases hj : j = i
    · subst hj
      simpa [System.sent] using hi.returned.2
    · simpa [System.sent, hj] using hR.tally j
  | env h =>
    exact ⟨_, .single (.env (hR.server ▸ h)), rfl, hR.tally⟩

/-- Where the requests are is known after every step. -/
theorem Refines.step {svc : Service ι Req Resp σ} {s' : System ι Req Resp σ}
    {e : Option (Event ι Req Resp)} (h : ∃ o, Refines s o) (hstep : System.Step svc s e s') :
    ∃ o, Refines s' o := by
  obtain ⟨o, hR⟩ := h
  obtain ⟨o', -, hR'⟩ := Refines.simulation svc s e s' o hR hstep
  exact ⟨o', hR'⟩

/-- The client of a request in the queue waits for it, and has no mail. -/
theorem Refines.first (h : ∃ o, Refines s o) (hfirst : s.queue = (i, r) :: rest) :
    s.pending i = some r ∧ s.mail i = [] := by
  obtain ⟨o, hR⟩ := h
  have hi := hR.tally i
  rw [sent_cons_self hfirst] at hi
  generalize s.pending i = w, s.mail i = mail, o.phase i = p,
    (rest.filter (·.1 = i)).map Prod.snd = q at hi ⊢
  cases hi
  exact ⟨rfl, rfl⟩

/-- A client has one reply in its mailbox at most. -/
theorem Refines.mail (h : ∃ o, Refines s o) {v : Resp} {more : List Resp}
    (hmail : s.mail i = v :: more) : more = [] := by
  obtain ⟨o, hR⟩ := h
  have hi := hR.tally i
  rw [hmail] at hi
  generalize s.pending i = w, o.phase i = p, s.sent i = q at hi
  cases hi
  rfl

end

/-- Everyone idle, and no messages. -/
def System.start (x : σ) : System ι Req Resp σ := ⟨x, [], fun _ => [], fun _ => none⟩

def Obj.start (x : σ) : Obj ι Req Resp σ := ⟨x, fun _ => .idle⟩

theorem refines_start (x : σ) :
    Refines (System.start x : System ι Req Resp σ) (Obj.start x) :=
  ⟨rfl, fun _ => .idle⟩

/-- An object whose service does no more than another one, in the states that occur, is
    answered by that one with the same steps. -/
theorem Obj.simulation {svc svc' : Service ι Req Resp σ} {I : σ → Prop}
    (hhandle : ∀ i r x v x', I x → svc.handle i r x v x' → svc'.handle i r x v x' ∧ I x')
    (henv : ∀ x x', I x → svc.env x x' → svc'.env x x' ∧ I x') :
    Lts.Simulation (Obj.Step svc) (Obj.Step svc') fun o o' => o' = o ∧ I o.server := by
  rintro o e o₁ _ ⟨rfl, hI⟩ hstep
  cases hstep with
  | call i r idle => exact ⟨_, .single (.call i r idle), rfl, hI⟩
  | perform called done =>
    obtain ⟨done', hI'⟩ := hhandle _ _ _ _ _ hI done
    exact ⟨_, .single (.perform called done'), rfl, hI'⟩
  | lose called done =>
    obtain ⟨done', hI'⟩ := hhandle _ _ _ _ _ hI done
    exact ⟨_, .single (.lose called done'), rfl, hI'⟩
  | ret done => exact ⟨_, .single (.ret done), rfl, hI⟩
  | env h =>
    obtain ⟨h', hI'⟩ := henv _ _ hI h
    exact ⟨_, .single (.env h'), rfl, hI'⟩

end

end Server
