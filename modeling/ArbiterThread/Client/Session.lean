import ArbiterThread.Lib.Server
import ArbiterThread.Arbiter.Monitor
import ArbiterThread.Client.Stubs

/-!
# Clients, Sockets and the Arbiter

The whole of the request protocol: any number of processes that call the
wrappers, the sockets between them and the arbiter, and others who send what they
like.

A wrapper sends its request and takes the next datagram that arrives as the
reply. Nothing says which request a reply belongs to. The arbiter has one buffer
for requests and one for addresses, and everyone runs at their own pace. Some
processes are `honest`: they only talk to the arbiter through the wrappers. All
the others, registered or not, may send any bytes to the arbiter, from any address
that is not the one of an honest process. What they send to an honest process
makes it abort, and the arbiter can stop at any time.

What is behind the monitor's socket is a parameter, a `Daemon`. The one of the
source is `arbiterDaemon`. What honest processes can rely on is an object without
messages, `service`: a call takes effect at one moment between the call and the
return, as `serve` says, for the client that is registered with the caller's
process id at that moment.

There is one assumption on what others send to an honest process. `recvfrom` does
not write the address of a sender that has no name, and the test of
`_client_rpc` then looks at what an earlier call left on the stack. Such a
datagram can pass as a reply, so the others are taken to have names.

## Main definitions

* `Accepts`: The tests a datagram has to pass to be taken for a reply.
* `Daemon`: The process behind the monitor's socket.
* `Net`, `Net.Step`: Everything together, and what can happen.
* `Daemon.service`: What the calls do, without messages.
* `Carried`, `Rel`: How the two are related.
* `arbiterDaemon`, `service`: The arbiter, and what the calls do to it.

## Theorems

* `accepts_reply`, `not_accepts_of_named`: Which datagrams are accepted.
* `Rel.simulation`: Everything that happens is answered by clients and a server.
* `Rel.linearizes`: Every history is one of the object.
* `calls_linearizable`: The same for the arbiter.
* `one_message_each`, `requests_authentic`: Whose messages are whose.
-/

namespace ArbiterThread

open Exec Server

variable {K σ : Type}

/-! ### Replies -/

def monitorPath : List UInt8 :=
  "/tmp/abt_monitor_socket".toList.map fun ch => UInt8.ofNat ch.toNat

/-- The address of a socket with the path given. -/
def sockAddr (path : List UInt8) : List UInt8 := [1, 0] ++ (path ++ [0])

/-- The tests of `_client_rpc` and of the wrappers. At most 20 bytes are received, and
    the sender's address is written over what the stack held. -/
def Accepts (stack : Mem) (d : Datagram) : Prop :=
  20 ≤ d.length ∧
    (writeAt stack 0 d.source 0 = 1 ∧ writeAt stack 0 d.source 1 = 0) ∧
    strncmp 108 (fun i => writeAt stack 0 d.source (i + 2)) (fun i => monitorPath.getD i 0) =
      true ∧
    d.bytes.load32 0 = rpcMagic ∧ d.bytes.load32 4 = 20

instance decidableAccepts (stack : Mem) (d : Datagram) : Decidable (Accepts stack d) :=
  inferInstanceAs (Decidable (_ ∧ (_ ∧ _) ∧ _ ∧ _ ∧ _))

/-- The reply the arbiter sends, if its stack held `stack`. -/
def replyDatagram (stack : Mem) (rply : Reply) : Datagram :=
  ⟨sockAddr monitorPath, 20, replyBytes stack rply⟩

/-! ### Processes and sockets -/

/-- The process behind the monitor's socket, as those who talk to it see it. -/
structure Daemon (σ : Type) where
  /-- what it does with a datagram, and the reply if it sends one -/
  handle : Request → σ → Option Reply → σ → Prop
  /-- what happens to it from outside -/
  moves : σ → σ → Prop
  formed : ∀ {req : Request} {s s' : σ} {rply : Reply},
    handle req s (some rply) s' → ∃ ret, rply = reply ret

inductive Proc where
  | idle
  | waiting (call : ApiCall)
  /-- an assertion has failed -/
  | dead
deriving DecidableEq

structure Net (σ : Type) where
  /-- nothing once it has stopped -/
  arbiter : Option σ
  /-- the buffer for requests -/
  data : Mem
  /-- the buffer for their senders' addresses -/
  addr : Mem
  /-- what was sent to the arbiter and not yet received -/
  inbox : List Datagram
  /-- what was sent to a process and not yet received -/
  mail : UInt32 → List Datagram
  proc : UInt32 → Proc

/-- A datagram that no honest process has sent. -/
def FromStranger (honest : UInt32 → Prop) (d : Datagram) : Prop :=
  ∀ i, honest i → d.source ≠ clientAddrOf i.toNat

/-- A datagram is put into the mailbox of the process with this address. -/
def Net.deliver (n : Net σ) (dest : List UInt8) (d : Datagram) : UInt32 → List Datagram := fun i =>
  if clientAddrOf i.toNat = dest then n.mail i ++ [d] else n.mail i

inductive Net.Step (D : Daemon σ) (honest : UInt32 → Prop) :
    Net σ → Option (Event UInt32 ApiCall Field) → Net σ → Prop
  /-- a wrapper sends its request -/
  | call {n : Net σ} (i : UInt32) (call : ApiCall) (stack : Mem) (mine : honest i)
      (idle : n.proc i = .idle) :
      Net.Step D honest n (some (.call i call))
        { n with
          inbox := n.inbox ++ [call.datagram i.toNat stack]
          proc := Function.update n.proc i (.waiting call) }
  /-- the request cannot be sent -/
  | unsent {n : Net σ} (i : UInt32) (idle : n.proc i = .idle) (gone : n.arbiter = none) :
      Net.Step D honest n none { n with proc := Function.update n.proc i .dead }
  /-- somebody else sends something to the arbiter -/
  | stranger {n : Net σ} (d : Datagram) (outside : FromStranger honest d) :
      Net.Step D honest n none { n with inbox := n.inbox ++ [d] }
  /-- somebody else sends something to a process, from a socket with a name -/
  | foreign {n : Net σ} (i : UInt32) (d : Datagram) (path : List UInt8)
      (string : ∀ b ∈ path, b ≠ 0) (named : d.source = sockAddr path)
      (other : path ≠ monitorPath) :
      Net.Step D honest n none { n with mail := Function.update n.mail i (n.mail i ++ [d]) }
  /-- the arbiter receives a datagram and sends a reply -/
  | serve {n : Net σ} {d : Datagram} {rest : List Datagram} {s s' : σ} {rply : Reply}
      (stack : Mem) (up : n.arbiter = some s) (first : n.inbox = d :: rest)
      (done : D.handle (receive n.data n.addr d) s (some rply) s') :
      Net.Step D honest n none
        { n with
          arbiter := some s'
          data := (receive n.data n.addr d).data
          addr := (receive n.data n.addr d).clientAddr
          inbox := rest
          mail := n.deliver d.source (replyDatagram stack rply) }
  /-- the arbiter receives a datagram and drops it -/
  | drop {n : Net σ} {d : Datagram} {rest : List Datagram} {s s' : σ}
      (up : n.arbiter = some s) (first : n.inbox = d :: rest)
      (done : D.handle (receive n.data n.addr d) s none s') :
      Net.Step D honest n none
        { n with
          arbiter := some s'
          data := (receive n.data n.addr d).data
          addr := (receive n.data n.addr d).clientAddr
          inbox := rest }
  /-- the arbiter stops: a fault, or a reply that cannot be sent -/
  | stop {n : Net σ} : Net.Step D honest n none { n with arbiter := none }
  /-- something happens to the arbiter from outside -/
  | outside {n : Net σ} {s s' : σ} (up : n.arbiter = some s) (moves : D.moves s s') :
      Net.Step D honest n none { n with arbiter := some s' }
  /-- a wrapper takes a datagram for the reply and returns -/
  | receive {n : Net σ} {i : UInt32} {call : ApiCall} {d : Datagram} {rest : List Datagram}
      (stack : Mem) (mine : honest i) (waits : n.proc i = .waiting call)
      (first : n.mail i = d :: rest) (ok : Accepts stack d) :
      Net.Step D honest n (some (.ret i call (replyField d.bytes call.opcode)))
        { n with
          mail := Function.update n.mail i rest
          proc := Function.update n.proc i .idle }
  /-- a wrapper does not take a datagram for the reply and aborts -/
  | abort {n : Net σ} {i : UInt32} {call : ApiCall} {d : Datagram} {rest : List Datagram}
      (stack : Mem) (waits : n.proc i = .waiting call) (first : n.mail i = d :: rest)
      (bad : ¬ Accepts stack d) :
      Net.Step D honest n none
        { n with
          mail := Function.update n.mail i rest
          proc := Function.update n.proc i .dead }

/-- Everyone idle, and no messages. `server_loop` clears its buffers. -/
def Net.start (s : σ) : Net σ where
  arbiter := some s
  data := fun _ => 0
  addr := fun _ => 0
  inbox := []
  mail := fun _ => []
  proc := fun _ => .idle

/-! ### Without messages -/

/-- A call of the process `i` that takes effect in the state `s`, with what the wrapper
    reads of the reply. -/
inductive Daemon.TakesEffect (D : Daemon σ) (i : UInt32) (call : ApiCall) (s : σ) :
    Option Field → σ → Prop
  | handled {data addr stack : Mem} {rply : Option Reply} {s' : σ} (stack' : Mem)
      (run : D.handle (receive data addr (call.datagram i.toNat stack)) s rply s') :
      D.TakesEffect i call s (rply.map fun r => replyField (replyBytes stack' r) call.opcode) s'

/-- What others do to the arbiter, and what happens to it from outside. -/
inductive Daemon.Disturbed (D : Daemon σ) (honest : UInt32 → Prop) :
    Option σ → Option σ → Prop
  | stranger {d : Datagram} {data addr : Mem} {rply : Option Reply} {s s' : σ}
      (outside : FromStranger honest d) (run : D.handle (receive data addr d) s rply s') :
      D.Disturbed honest (some s) (some s')
  | moves {s s' : σ} (moves : D.moves s s') : D.Disturbed honest (some s) (some s')
  | stop {x : Option σ} : D.Disturbed honest x none

/-- The calls of the honest processes as an object without messages. -/
def Daemon.service (D : Daemon σ) (honest : UInt32 → Prop) :
    Service UInt32 ApiCall Field (Option σ) where
  handle i call x v x' := ∃ s s', x = some s ∧ x' = some s' ∧ D.TakesEffect i call s v s'
  env := D.Disturbed honest

/-! ### Which datagrams are accepted -/

theorem monitorPath_ne_zero : ∀ b ∈ monitorPath, b ≠ 0 := by decide +kernel

theorem begins_sockAddr {m : Mem} {path : List UInt8} :
    Begins m (sockAddr path) ↔
      (m 0 = 1 ∧ m 1 = 0) ∧ Begins (fun i => m (i + 2)) (path ++ [0]) := by
  have htail : Begins (fun i => m (i + 1)) (0 :: (path ++ [0])) ↔ _ := begins_cons
  exact begins_cons.trans ((and_congr_right' htail).trans and_assoc.symm)

/-- The test of the sender looks for the monitor's address at the start of the buffer. -/
theorem accepts_iff {stack : Mem} {d : Datagram} :
    Accepts stack d ↔ 20 ≤ d.length ∧ Begins (writeAt stack 0 d.source) (sockAddr monitorPath) ∧
      d.bytes.load32 0 = rpcMagic ∧ d.bytes.load32 4 = 20 := by
  have hmonitor : Begins (fun i => monitorPath.getD i 0) (monitorPath ++ [0]) := by
    unfold Begins
    decide +kernel
  have hpath := strncmp_eq_true_iff (a := fun i => writeAt stack 0 d.source (i + 2))
    monitorPath_ne_zero hmonitor (by decide : _ < 108)
  rw [begins_sockAddr, ← hpath, and_assoc]
  rfl

/-- A datagram from a socket with another name is not accepted. -/
theorem not_accepts_of_named {d : Datagram} {path : List UInt8} (string : ∀ b ∈ path, b ≠ 0)
    (named : d.source = sockAddr path) (other : path ≠ monitorPath) (stack : Mem) :
    ¬ Accepts stack d := by
  intro h
  have hbegins := begins_writeAt stack d.source
  rw [named] at hbegins
  have hmonitor := (accepts_iff.mp h).2.1
  rw [named] at hmonitor
  exact other ((begins_sockAddr.mp hbegins).2.string_unique string monitorPath_ne_zero
    (begins_sockAddr.mp hmonitor).2)

theorem accepts_reply (stack stack' : Mem) (ret : Ret) :
    Accepts stack' (replyDatagram stack (reply ret)) := by
  obtain ⟨hmagic, hlen⟩ := replyBytes_header stack ret
  exact accepts_iff.mpr ⟨le_rfl, begins_writeAt _ _, hmagic, hlen⟩

/-! ### The two are related -/

/-- The requests of honest processes in the arbiter's queue. -/
inductive Carried (honest : UInt32 → Prop) : List Datagram → List (UInt32 × ApiCall) → Prop
  | nil : Carried honest [] []
  | mine {i : UInt32} {ds : List Datagram} {q : List (UInt32 × ApiCall)} (call : ApiCall)
      (stack : Mem) (h : honest i) (rest : Carried honest ds q) :
      Carried honest (call.datagram i.toNat stack :: ds) ((i, call) :: q)
  | stranger {d : Datagram} {ds : List Datagram} {q : List (UInt32 × ApiCall)}
      (h : FromStranger honest d) (rest : Carried honest ds q) : Carried honest (d :: ds) q

theorem Carried.append {honest : UInt32 → Prop} {ds ds' : List Datagram}
    {q q' : List (UInt32 × ApiCall)} (h : Carried honest ds q) (h' : Carried honest ds' q') :
    Carried honest (ds ++ ds') (q ++ q') := by
  induction h with
  | nil => exact h'
  | mine call stack hi _ ih => exact .mine call stack hi ih
  | stranger hd _ ih => exact .stranger hd ih

def noStack : Mem := fun _ => 0

/-- The replies in a mailbox. -/
def replies (mail : List Datagram) : List Datagram :=
  mail.filter fun d => decide (Accepts noStack d)

/-- Whether a datagram is accepted does not depend on the stack. -/
def Plain (d : Datagram) : Prop :=
  (∀ stack, Accepts stack d) ∨ ∀ stack, ¬ Accepts stack d

/-- What a process is doing, and what is in its mailbox, as clients and a server have
    it. Nothing is said of a process that is dead. -/
inductive ProcRel : Proc → List Datagram → Option ApiCall → List Field → Prop
  | idle {mail : List Datagram} (empty : replies mail = []) : ProcRel .idle mail none []
  | waiting {mail : List Datagram} (call : ApiCall) :
      ProcRel (.waiting call) mail (some call)
        ((replies mail).map fun d => replyField d.bytes call.opcode)
  | dead {mail : List Datagram} {pending : Option ApiCall} {fields : List Field} :
      ProcRel .dead mail pending fields

/-- The state of everything, as clients and a server have it. -/
structure Rel (honest : UInt32 → Prop) (n : Net σ)
    (t : System UInt32 ApiCall Field (Option σ)) : Prop where
  server : t.server = n.arbiter
  queue : Carried honest n.inbox t.queue
  proc : ∀ i, honest i → ProcRel (n.proc i) (n.mail i) (t.pending i) (t.mail i)
  plain : ∀ i, honest i → ∀ d ∈ n.mail i, Plain d
  tally : ∃ o, Refines t o

theorem replies_append (mail mail' : List Datagram) :
    replies (mail ++ mail') = replies mail ++ replies mail' :=
  List.filter_append ..

theorem replies_accepted {d : Datagram} (h : ∀ stack, Accepts stack d) : replies [d] = [d] := by
  simp [replies, h noStack]

theorem replies_rejected {d : Datagram} (h : ∀ stack, ¬ Accepts stack d) : replies [d] = [] := by
  simp [replies, h noStack]

/-- The first datagram of a mailbox, if it is accepted, is a reply. -/
theorem replies_first {d : Datagram} {rest : List Datagram} {stack : Mem} (hplain : Plain d)
    (h : Accepts stack d) : replies (d :: rest) = d :: replies rest := by
  rcases hplain with hall | hnone
  · exact List.filter_cons_of_pos (by simpa using hall noStack)
  · exact absurd h (hnone stack)

/-- Datagrams that are not accepted make no difference. -/
theorem ProcRel.foreign {p : Proc} {mail : List Datagram} {pending : Option ApiCall}
    {fields : List Field} (h : ProcRel p mail pending fields) {d : Datagram}
    (hd : ∀ stack, ¬ Accepts stack d) : ProcRel p (mail ++ [d]) pending fields := by
  have hsame : replies (mail ++ [d]) = replies mail := by
    rw [replies_append, replies_rejected hd, List.append_nil]
  cases h with
  | idle empty => exact .idle (hsame.trans empty)
  | waiting call => exact hsame ▸ .waiting call
  | dead => exact .dead

/-- A reply arrives for the call the process waits for. -/
theorem ProcRel.reply {p : Proc} {mail : List Datagram} {call : ApiCall} {fields : List Field}
    (h : ProcRel p mail (some call) fields) {d : Datagram} (hd : ∀ stack, Accepts stack d) :
    ProcRel p (mail ++ [d]) (some call) (fields ++ [replyField d.bytes call.opcode]) := by
  cases h with
  | waiting =>
    have hmore : ProcRel _ (mail ++ [d]) _ _ := .waiting call
    rwa [replies_append, replies_accepted hd, List.map_append] at hmore
  | dead => exact .dead

section

variable {D : Daemon σ} {honest : UInt32 → Prop} {n n' : Net σ}
  {t : System UInt32 ApiCall Field (Option σ)}

theorem clientAddrOf_toNat_inj {i j : UInt32} (h : clientAddrOf i.toNat = clientAddrOf j.toNat) :
    i = j :=
  UInt32.toNat_inj.mp (clientAddrOf_inj i.toNat_lt j.toNat_lt h)

/-- Only the process `i` is concerned. -/
theorem Rel.change {t' : System UInt32 ApiCall Field (Option σ)} (h : Rel honest n t) (i : UInt32)
    (hserver : t'.server = n'.arbiter) (hqueue : Carried honest n'.inbox t'.queue)
    (htally : ∃ o, Refines t' o)
    (hothers : ∀ j, j ≠ i → n'.proc j = n.proc j ∧ n'.mail j = n.mail j ∧
      t'.pending j = t.pending j ∧ t'.mail j = t.mail j)
    (hproc : honest i → ProcRel (n'.proc i) (n'.mail i) (t'.pending i) (t'.mail i))
    (hplain : honest i → ∀ d ∈ n'.mail i, Plain d) : Rel honest n' t' := by
  refine ⟨hserver, hqueue, fun j hj => ?_, fun j hj => ?_, htally⟩
  · by_cases hji : j = i
    · exact hji ▸ hproc (hji ▸ hj)
    · obtain ⟨hp, hm, hpending, hmail⟩ := hothers j hji
      rw [hp, hm, hpending, hmail]
      exact h.proc j hj
  · by_cases hji : j = i
    · exact hji ▸ hplain (hji ▸ hj)
    · rw [(hothers j hji).2.1]
      exact h.plain j hj

/-- A request of an honest process is answered. -/
theorem Rel.serve_mine (h : Rel honest n t) {i : UInt32} {call : ApiCall} {stack stack' : Mem}
    {rest : List Datagram} {q : List (UInt32 × ApiCall)} {s s' : σ} {rply : Reply}
    (up : n.arbiter = some s) (hqueue : t.queue = (i, call) :: q) (hrest : Carried honest rest q)
    (done : D.handle (receive n.data n.addr (call.datagram i.toNat stack)) s (some rply) s') :
    ∃ t', Lts.Run (System.Step (D.service honest)) t [] t' ∧
      Rel honest { n with
        arbiter := some s'
        data := (receive n.data n.addr (call.datagram i.toNat stack)).data
        addr := (receive n.data n.addr (call.datagram i.toNat stack)).clientAddr
        inbox := rest
        mail := n.deliver (clientAddrOf i.toNat) (replyDatagram stack' rply) } t' := by
  have hstep : System.Step (D.service honest) t none _ :=
    .serve hqueue ⟨s, s', h.server.trans up, rfl, .handled stack' done⟩
  obtain ⟨ret, rfl⟩ := D.formed done
  obtain ⟨hpending, hempty⟩ := Refines.first h.tally hqueue
  refine ⟨_, .single hstep, h.change i rfl hrest (Refines.step h.tally hstep) (fun j hj => ?_)
    (fun hi => ?_) fun hi d hd => ?_⟩
  · have hother : clientAddrOf j.toNat ≠ clientAddrOf i.toNat :=
      fun heq => hj (clientAddrOf_toNat_inj heq)
    simp [Net.deliver, hother, hj]
  · have hproc := h.proc i hi
    rw [hpending] at hproc
    have hreply := hproc.reply (accepts_reply stack' · ret)
    simpa [Net.deliver, replyDatagram, hpending] using hreply
  · simp only [Net.deliver, if_true, List.mem_append, List.mem_singleton] at hd
    rcases hd with hd | rfl
    · exact h.plain i hi d hd
    · exact .inl (accepts_reply stack' · ret)

/-- The arbiter is disturbed, and the honest processes do not notice. -/
theorem Rel.disturbed (h : Rel honest n t) (henv : D.Disturbed honest n.arbiter n'.arbiter)
    (hqueue : Carried honest n'.inbox t.queue)
    (hsame : ∀ i, honest i → n'.proc i = n.proc i ∧ n'.mail i = n.mail i) :
    ∃ t', Lts.Run (System.Step (D.service honest)) t [] t' ∧ Rel honest n' t' := by
  rw [← h.server] at henv
  have hstep : System.Step (D.service honest) t none _ := .env henv
  refine ⟨_, .single hstep, rfl, hqueue, fun i hi => ?_, fun i hi => ?_,
    Refines.step h.tally hstep⟩
  · rw [(hsame i hi).1, (hsame i hi).2]
    exact h.proc i hi
  · rw [(hsame i hi).2]
    exact h.plain i hi

theorem Rel.simulation (D : Daemon σ) (honest : UInt32 → Prop) :
    Lts.Simulation (Net.Step D honest) (System.Step (D.service honest)) (Rel honest) := by
  intro n e n' t h hstep
  cases hstep with
  | call i call stack mine idle =>
    have hproc := h.proc i mine
    rw [idle] at hproc
    generalize hpending : t.pending i = pending, hmail : t.mail i = fields at hproc
    cases hproc with
    | idle empty =>
      have hstep : System.Step (D.service honest) t _ _ := .call i call hpending
      refine ⟨_, .single hstep, h.change i h.server (h.queue.append (.mine call stack mine .nil))
        (Refines.step h.tally hstep) (fun j hj => by simp [hj]) (fun _ => ?_) (h.plain i)⟩
      have hwait : ProcRel _ (n.mail i) _ _ := .waiting call
      rw [empty] at hwait
      simpa [hmail] using hwait
  | unsent i idle gone =>
    refine ⟨t, .start, h.change i h.server h.queue h.tally (fun j hj => by simp [hj])
      (fun _ => ?_) (h.plain i)⟩
    simpa using ProcRel.dead
  | stranger d outside =>
    refine ⟨t, .start, h.server, ?_, h.proc, h.plain, h.tally⟩
    simpa using h.queue.append (.stranger outside .nil)
  | foreign i d path string named other =>
    have rejected := not_accepts_of_named string named other
    refine ⟨t, .start, h.change i h.server h.queue h.tally (fun j hj => by simp [hj])
      (fun hi => ?_) fun hi e he => ?_⟩
    · simpa using (h.proc i hi).foreign rejected
    · simp only [Function.update_self, List.mem_append, List.mem_singleton] at he
      rcases he with he | rfl
      · exact h.plain i hi e he
      · exact .inr rejected
  | @serve d rest s s' rply stack up first done =>
    have hqueue := h.queue
    rw [first] at hqueue
    generalize hq : t.queue = q at hqueue
    cases hqueue with
    | mine call stack' hi hrest => exact h.serve_mine up hq hrest done
    | stranger hd hrest =>
      -- the reply is sent to an address that no honest process has
      refine h.disturbed (up ▸ .stranger hd done) (hq ▸ hrest) fun i hi => ⟨rfl, ?_⟩
      simp [Net.deliver, (hd i hi).symm]
  | @drop d rest s s' up first done =>
    have hqueue := h.queue
    rw [first] at hqueue
    generalize hq : t.queue = q at hqueue
    cases hqueue with
    | mine call stack' hi hrest =>
      have hstep : System.Step (D.service honest) t none _ :=
        .drop hq ⟨s, s', h.server.trans up, rfl, .handled noStack done⟩
      exact ⟨_, .single hstep, rfl, hrest, h.proc, h.plain, Refines.step h.tally hstep⟩
    | stranger hd hrest =>
      exact h.disturbed (up ▸ .stranger hd done) (hq ▸ hrest) fun _ _ => ⟨rfl, rfl⟩
  | stop => exact h.disturbed .stop h.queue fun _ _ => ⟨rfl, rfl⟩
  | outside up moves => exact h.disturbed (up ▸ .moves moves) h.queue fun _ _ => ⟨rfl, rfl⟩
  | @receive i call d rest stack mine waits first ok =>
    have hproc := h.proc i mine
    rw [waits, first] at hproc
    generalize hpending : t.pending i = pending, hmail : t.mail i = fields at hproc
    cases hproc with
    | waiting =>
      have hplain := h.plain i mine d (by rw [first]; exact List.mem_cons_self)
      rw [replies_first hplain ok, List.map_cons] at hmail
      have hstep : System.Step (D.service honest) t _ _ := .ret hpending hmail
      refine ⟨_, .single hstep, h.change i h.server h.queue (Refines.step h.tally hstep)
        (fun j hj => by simp [hj]) (fun _ => ?_) fun hi e he => ?_⟩
      · -- there was one reply only
        have hone := Refines.mail h.tally hmail
        rw [hone]
        simpa using ProcRel.idle (List.map_eq_nil_iff.mp hone)
      · simp only [Function.update_self] at he
        exact h.plain i hi e (by rw [first]; exact List.mem_cons_of_mem _ he)
  | @abort i call d rest stack waits first bad =>
    refine ⟨t, .start, h.change i h.server h.queue h.tally (fun j hj => by simp [hj])
      (fun _ => ?_) fun hi e he => ?_⟩
    · simpa using ProcRel.dead
    · simp only [Function.update_self] at he
      exact h.plain i hi e (by rw [first]; exact List.mem_cons_of_mem _ he)

theorem Rel.start (s : σ) : Rel honest (Net.start s) (System.start (some s)) where
  server := rfl
  queue := .nil
  proc := fun _ _ => .idle rfl
  plain := fun _ _ _ hd => absurd hd List.not_mem_nil
  tally := ⟨_, refines_start _⟩

/-! ### What the processes can rely on -/

/-- The requests of a process that the arbiter has not yet received. -/
def Net.requests (n : Net σ) (i : UInt32) : List Datagram :=
  n.inbox.filter fun d => d.source = clientAddrOf i.toNat

/-- Where the call of a process is: on its way to the arbiter, on its way back, or
    dropped. -/
inductive Underway (i : UInt32) (call : ApiCall) : List Datagram → List Datagram → Prop
  | asked (stack : Mem) : Underway i call [call.datagram i.toNat stack] []
  | answered (d : Datagram) : Underway i call [] [d]
  | dropped : Underway i call [] []

/-- The requests of an honest process are those that clients and a server have. -/
theorem Carried.requests {ds : List Datagram} {q : List (UInt32 × ApiCall)}
    (h : Carried honest ds q) {i : UInt32} (hi : honest i) :
    List.Forall₂ (fun d call => ∃ stack, d = ApiCall.datagram call i.toNat stack)
      (ds.filter fun d => d.source = clientAddrOf i.toNat)
      ((q.filter (·.1 = i)).map Prod.snd) := by
  induction h with
  | nil => exact .nil
  | @mine j ds q call stack hj _ ih =>
    by_cases hji : j = i
    · subst hji
      rw [List.filter_cons_of_pos (by simp [ApiCall.datagram]), List.filter_cons_of_pos (by simp)]
      exact .cons ⟨stack, rfl⟩ ih
    · have hother : clientAddrOf j.toNat ≠ clientAddrOf i.toNat :=
        fun heq => hji (clientAddrOf_toNat_inj heq)
      rwa [List.filter_cons_of_neg (by simp [ApiCall.datagram, hother]),
        List.filter_cons_of_neg (by simpa using hji)]
  | stranger hd _ ih => rwa [List.filter_cons_of_neg (by simpa using hd i hi)]

theorem exists_of_forall₂ {α β : Type} {R : α → β → Prop} {l : List α} {l' : List β}
    (h : List.Forall₂ R l l') {x : α} (hx : x ∈ l) : ∃ y, R x y := by
  induction h with
  | nil => cases hx
  | cons hxy _ ih =>
    rcases List.mem_cons.mp hx with rfl | hx
    · exact ⟨_, hxy⟩
    · exact ih hx

/-- A process that is idle has no message under way, and one that waits has one at
    most, which belongs to its call. -/
theorem Rel.underway (h : Rel honest n t) {i : UInt32} (hi : honest i) :
    (n.proc i = .idle → n.requests i = [] ∧ replies (n.mail i) = []) ∧
      ∀ call, n.proc i = .waiting call → Underway i call (n.requests i) (replies (n.mail i)) := by
  obtain ⟨o, hR⟩ := h.tally
  have htally := hR.tally i
  have hproc := h.proc i hi
  have hsent : List.Forall₂ _ (n.requests i) (t.sent i) := h.queue.requests hi
  generalize t.sent i = sent, n.requests i = requests at htally hsent ⊢
  generalize t.pending i = pending, t.mail i = fields, o.phase i = phase at htally hproc
  refine ⟨fun hidle => ?_, fun call hwait => ?_⟩
  · rw [hidle] at hproc
    cases hproc with
    | idle empty =>
      cases htally
      exact ⟨List.forall₂_nil_right_iff.mp hsent, empty⟩
  · rw [hwait] at hproc
    cases hproc with
    | waiting =>
      generalize hfields : (replies (n.mail i)).map _ = fields at htally
      cases htally with
      | called =>
        rw [List.map_eq_nil_iff.mp hfields]
        obtain ⟨d, rest, ⟨stack, rfl⟩, hrest, rfl⟩ := List.forall₂_cons_right_iff.mp hsent
        rw [List.forall₂_nil_right_iff.mp hrest]
        exact .asked stack
      | done r v =>
        rw [List.forall₂_nil_right_iff.mp hsent]
        obtain ⟨d, hd, -⟩ := List.map_eq_singleton_iff.mp hfields
        rw [hd]
        exact .answered d
      | lost =>
        rw [List.map_eq_nil_iff.mp hfields, List.forall₂_nil_right_iff.mp hsent]
        exact .dropped

/-- A datagram in the queue that comes from the socket of an honest process is the request
    the process waits for. -/
theorem Rel.authentic (h : Rel honest n t) {d : Datagram} (hd : d ∈ n.inbox) {i : UInt32}
    (hi : honest i) (hsource : d.source = clientAddrOf i.toNat) :
    ∃ call stack, d = ApiCall.datagram call i.toNat stack ∧
      (n.proc i = .waiting call ∨ n.proc i = .dead) := by
  have hmem : d ∈ n.requests i := by
    simpa [Net.requests, hsource] using hd
  cases hproc : n.proc i with
  | idle =>
    rw [((h.underway hi).1 hproc).1] at hmem
    exact absurd hmem List.not_mem_nil
  | waiting call =>
    have hunder := (h.underway hi).2 call hproc
    generalize n.requests i = requests, replies (n.mail i) = mail at hmem hunder
    cases hunder with
    | asked stack => exact ⟨call, stack, List.mem_singleton.mp hmem, .inl rfl⟩
    | answered => exact absurd hmem List.not_mem_nil
    | dropped => exact absurd hmem List.not_mem_nil
  | dead =>
    obtain ⟨call, stack, hcall⟩ := exists_of_forall₂ (h.queue.requests hi) hmem
    exact ⟨call, stack, hcall, .inr rfl⟩

/-- Every history of calls and returns is one of the object. -/
theorem Rel.linearizes {s : σ} {trace : List (Event UInt32 ApiCall Field)}
    (run : Lts.Run (Net.Step D honest) (Net.start s) trace n) :
    ∃ o : Obj UInt32 ApiCall Field (Option σ),
      Lts.Run (Obj.Step (D.service honest)) (Obj.start (some s)) trace o ∧
      o.server = n.arbiter := by
  have hrel := (Rel.simulation D honest).comp (Refines.simulation (D.service honest))
  obtain ⟨o, hrun, t, hR, hRo⟩ := hrel.run ⟨_, Rel.start s, refines_start _⟩ run
  exact ⟨o, hrun, hRo.server.trans hR.server⟩

end

/-! ### One call at a time -/

/-- The process `i` is idle, and there is no message for it or the arbiter. -/
structure Net.Quiet (n : Net σ) (i : UInt32) (s : σ) : Prop where
  up : n.arbiter = some s
  inbox : n.inbox = []
  mail : n.mail i = []
  idle : n.proc i = .idle

/-- A call is answered while nobody else does anything. -/
theorem Net.Quiet.round {D : Daemon σ} (honest : UInt32 → Prop) {n : Net σ} {i : UInt32}
    {call : ApiCall} {s s' : σ} {ret : Ret} (quiet : n.Quiet i s) (hi : honest i)
    (done : D.handle (receive n.data n.addr (call.datagram i.toNat noStack)) s
      (some (reply ret)) s') :
    ∃ n', Lts.Run (Net.Step D honest) n [.call i call,
        .ret i call (wrapperReads (scratchOf noStack) ret.truncated call.opcode)] n' ∧
      n'.Quiet i s' := by
  have hcall : Lts.Run (Net.Step D honest) n _ _ := .single (.call i call noStack hi quiet.idle)
  have hinbox : n.inbox ++ [call.datagram i.toNat noStack] = [_] := congrArg (· ++ _) quiet.inbox
  have hserved := hcall.next (.serve noStack quiet.up hinbox done)
  have hmail : n.deliver (clientAddrOf i.toNat) (replyDatagram noStack (reply ret)) i =
      [replyDatagram noStack (reply ret)] := by
    simp [Net.deliver, quiet.mail]
  have hreturned := hserved.next (.receive noStack hi (Function.update_self ..) hmail
    (accepts_reply noStack noStack _))
  rw [← replyField_reply]
  exact ⟨_, hreturned, rfl, rfl, Function.update_self .., Function.update_self ..⟩

/-! ### The arbiter -/

section

variable {ops : KernelOps K} {honest : UInt32 → Prop}

/-- Every handler fills in the header of its reply. -/
theorem handleClientRpc_formed {req : Request} {s s' : State K} {rply : Reply}
    (h : handleClientRpc ops req s = .ok (some rply) s') : ∃ ret, rply = reply ret := by
  refine wp_run (Q := fun rply _ => ∀ r ∈ rply, ∃ ret, r = reply ret) (E := fun _ _ => True)
    (wp_handleClientRpc (fun _ r hr => by cases hr) fun c op _ => ?_) h rply rfl
  refine wp_mono wp_dispatch (fun rply _ hreplies r hr => ?_) fun _ _ he => he
  obtain ⟨ret, rfl, -⟩ := hreplies
  cases hr
  exact ⟨ret, rfl⟩

/-- The arbiter. The clients write to the memory they share with it, and the kernel moves
    on. -/
def arbiterDaemon (ops : KernelOps K) : Daemon (State K) where
  handle req s rply s' := handleClientRpc ops req s = .ok rply s'
  moves s s' := ∃ m k, s' = { s with mem := m, kern := k }
  formed := handleClientRpc_formed

/-- What a call of the process `i` does to the arbiter. -/
inductive TakesEffect (ops : KernelOps K) (i : UInt32) (call : ApiCall) (s : State K) :
    Option Field → State K → Prop
  | done {c : ClientDesc} {ret : Ret} {s' : State K} (stack : Mem)
      (registered : s.clients.find? (cmpClientPid i.toNat) = some c)
      (run : serve ops c call s = .ok ret s') :
      TakesEffect ops i call s (some (wrapperReads (scratchOf stack) ret.truncated call.opcode)) s'
  | unknown (unregistered : s.clients.find? (cmpClientPid i.toNat) = none) :
      TakesEffect ops i call s none s

/-- The calls without messages, and without bytes: `serve` is told what to do. -/
def service (ops : KernelOps K) (honest : UInt32 → Prop) :
    Service UInt32 ApiCall Field (Option (State K)) where
  handle i call x v x' := ∃ s s', x = some s ∧ x' = some s' ∧ TakesEffect ops i call s v s'
  env := (arbiterDaemon ops).Disturbed honest

/-- The datagram of a wrapper has the effect of the call. -/
theorem takesEffect_of_daemon {i : UInt32} {call : ApiCall} {s s' : State K} {v : Option Field}
    (htable : Addressed s.clients) (h : (arbiterDaemon ops).TakesEffect i call s v s') :
    TakesEffect ops i call s v s' ∧ Addressed s'.clients := by
  cases h with
  | @handled data addr stack rply _ stack' run =>
    change handleClientRpc ops _ s = _ at run
    refine ⟨?_, htable.step (tableStep_of_ok run)⟩
    cases hc : s.clients.find? (cmpClientPid i.toNat) with
    | none =>
      rw [handleClientRpc_unknown ops htable i.toNat_lt hc] at run
      cases run
      exact .unknown hc
    | some c =>
      rw [handleClientRpc_marshal ops htable i.toNat_lt hc] at run
      obtain ⟨ret, s₁, hserve, hpure⟩ := bind_eq_ok run
      cases hpure
      rw [Option.map_some, replyField_reply]
      exact .done stack' hc hserve

/-- The clients of an arbiter that is up can be told apart by their addresses. -/
def TableOk (x : Option (State K)) : Prop := ∀ s, x = some s → Addressed s.clients

theorem service_refines :
    Lts.Simulation (Obj.Step ((arbiterDaemon ops).service honest)) (Obj.Step (service ops honest))
      fun o o' => o' = o ∧ TableOk o.server := by
  refine Obj.simulation (fun i call x v x' htable heffect => ?_) fun x x' htable henv => ?_
  · obtain ⟨s, s', rfl, rfl, heffect⟩ := heffect
    obtain ⟨heffect, htable'⟩ := takesEffect_of_daemon (htable s rfl) heffect
    refine ⟨⟨s, s', rfl, rfl, heffect⟩, fun s₂ hs₂ => ?_⟩
    cases hs₂
    exact htable'
  · refine ⟨henv, fun s₂ hs₂ => ?_⟩
    cases hs₂
    cases henv with
    | stranger outside run => exact (htable _ rfl).step (tableStep_of_ok run)
    | @moves s _ moves =>
      obtain ⟨m, k, rfl⟩ := moves
      exact htable s rfl

end

section

variable {ops : KernelOps K} {honest : UInt32 → Prop} {n : Net (State K)} {k : K} {pid : Nat}
variable {L : Label} {O : Own} {trace : List (Event UInt32 ApiCall Field)}

/-- The history is one of the object, and the clients can be told apart in the end. -/
theorem service_history (hpid : pid < wordSize)
    (run : Lts.Run (Net.Step (arbiterDaemon ops) honest)
      (Net.start (State.start k [initFirstChild pid L O])) trace n) :
    ∃ o : Obj UInt32 ApiCall Field (Option (State K)),
      Lts.Run (Obj.Step (service ops honest))
        (Obj.start (some (State.start k [initFirstChild pid L O]))) trace o ∧
      o.server = n.arbiter ∧ TableOk n.arbiter := by
  obtain ⟨o, hrun, hserver⟩ := Rel.linearizes run
  have htable : TableOk (some (State.start k [initFirstChild pid L O])) := by
    intro s hs
    cases hs
    exact (registryInv_first pid L O hpid).addressed
  obtain ⟨o', hrun', rfl, htable'⟩ := service_refines.run ⟨rfl, htable⟩ hrun
  exact ⟨o', hrun', hserver, hserver ▸ htable'⟩

end

/-- The arbiter of process 7, which may do as it likes. -/
def arbiter7 : State Unit := State.start () [initFirstChild 7 (fun _ => 3) (fun _ => 0)]

theorem asked7 : Lts.Run (Net.Step (arbiterDaemon generousKernel) (· = 7)) (Net.start arbiter7)
    [.call 7 .getLabel]
    { Net.start arbiter7 with
      inbox := [ApiCall.getLabel.datagram 7 noStack]
      proc := Function.update (fun _ => .idle) 7 (.waiting .getLabel) } := by
  have hcall : Net.Step (arbiterDaemon generousKernel) (· = 7) (Net.start arbiter7) _ _ :=
    .call 7 .getLabel noStack rfl rfl
  exact .single hcall

/-- Process 7 asks for its label and is told. -/
theorem label_session :
    ∃ n, Lts.Run (Net.Step (arbiterDaemon generousKernel) (· = 7)) (Net.start arbiter7)
      [.call 7 .getLabel, .ret 7 .getLabel (.word64 fun _ => 3)] n := by
  have hfind : arbiter7.clients.find? (cmpClientPid 7) =
      some (initFirstChild 7 (fun _ => 3) (fun _ => 0)) := rfl
  have hserve : handleClientRpc generousKernel
      (receive noStack noStack (ApiCall.getLabel.datagram 7 noStack)) arbiter7 =
        .ok (some (reply (.word64 fun _ => 3))) arbiter7 :=
    handleClientRpc_marshal generousKernel
      (registryInv_first 7 (fun _ => 3) (fun _ => 0) (by decide)).addressed (by decide) hfind
  have hquiet : (Net.start arbiter7).Quiet 7 arbiter7 := ⟨rfl, rfl, rfl, rfl⟩
  obtain ⟨n, hrun, -⟩ := hquiet.round (D := arbiterDaemon generousKernel) (· = 7) rfl hserve
  exact ⟨n, hrun⟩

end ArbiterThread
