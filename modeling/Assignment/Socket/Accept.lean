import Assignment.Lib.Runs
import Assignment.Socket.Network

/-!
# The accept loop and its threads (Server.cpp)

The whole server as a step function: clients connect, send and close;
`main` accepts and creates threads; each `SocketHandler` takes the lock,
receives and unlocks. `malloc` is called once before the loop, so all
threads share the one cell `*new_socket`, and a handler looks up its
descriptor there anew at every `recv`. No step closes a descriptor, because
the program never calls `close`.
-/

namespace Assignment.Socket

/-- What an open descriptor refers to: a standard stream, the listening
socket, or the connection accepted as the `i`-th. -/
inductive Descriptor
  | standard
  | listening
  | connection (i : Nat)
deriving DecidableEq, Repr

/-- A client's connection, with all that was ever sent on it. -/
structure Peer where
  connection : Connection
  sent : Bytes
deriving DecidableEq, Repr

namespace Peer

def connected : Peer := ⟨⟨[], false⟩, []⟩

def send (p : Peer) (bytes : Bytes) : Peer :=
  ⟨{ p.connection with unread := p.connection.unread ++ bytes }, p.sent ++ bytes⟩

def close (p : Peer) : Peer := { p with connection := { p.connection with closed := true } }

/-- After a `recv` of the server. -/
def after (p : Peer) (c : Connection) : Peer := { p with connection := c }

end Peer

/-- One `recv` of a handler: the connection its descriptor denoted, the
bytes taken off it, and the lines printed until the next `recv`. -/
structure Event where
  handler : Nat
  connection : Nat
  consumed : Bytes
  printed : List Line
deriving DecidableEq, Repr

/-- Where `main` stands in its loop. -/
inductive Main
  | accepting
  | creating
  | exited
deriving DecidableEq, Repr

/-- The threads that `main` is about to create. -/
def Main.pending : Main → Nat
  | .creating => 1
  | _ => 0

/-- The process and its clients. Connections are accepted in the order in
which they were made; `handlers` are the threads in the order of creation. -/
structure Server where
  limit : Nat
  main : Main
  newSocket : Option Nat
  descriptors : List Descriptor
  peers : List Peer
  accepted : Nat
  handlers : List Handler
  lock : Option Nat
  log : List Event
deriving DecidableEq

inductive Action
  | connect
  | send (i : Nat) (bytes : Bytes)
  | close (i : Nat)
  | accept
  | create
  | acquire (i : Nat)
  | recv (i : Nat) (choice : Choice) (stack : Nat → UInt8)
  | unlock (i : Nat)

namespace Server

/-- Listening, with a descriptor table of the given size. -/
def listening (limit : Nat) : Server where
  limit := limit
  main := .accepting
  newSocket := none
  descriptors := [.standard, .standard, .standard, .listening]
  peers := []
  accepted := 0
  handlers := []
  lock := none
  log := []

/-- The thread, while the process runs. -/
def thread (s : Server) (i : Nat) : Option Handler :=
  if s.main = .exited then none else s.handlers[i]?

/-- The connection that `*csock` denotes now, for every thread the same. -/
def csock (s : Server) : Option Nat :=
  match s.newSocket.bind (s.descriptors[·]?) with
  | some (.connection j) => some j
  | _ => none

def setThread (s : Server) (i : Nat) (h : Handler) : Server :=
  { s with handlers := s.handlers.set i h }

/-- `accept` takes the lowest free descriptor at the call, before it waits for
a client; when the table is full it fails, and `main` stores the `-1` and
exits. -/
def accept (s : Server) : Server :=
  if s.descriptors.length < s.limit then
    { s with
      main := .creating
      newSocket := some s.descriptors.length
      descriptors := s.descriptors ++ [.connection s.accepted]
      accepted := s.accepted + 1 }
  else { s with main := .exited, newSocket := none }

/-- The entry for handler `i` in state `h` that receives `r` from connection
`j`, which is left as `c`. -/
def event (rt : Runtime) (i j : Nat) (h : Handler) (p : Peer) (stack : Nat → UInt8)
    (r : RecvResult) (c : Connection) : Event where
  handler := i
  connection := j
  consumed := p.connection.unread.take (p.connection.unread.length - c.unread.length)
  printed := (h.onRecv rt stack r).out.drop h.out.length

@[simp] theorem event_handler (rt : Runtime) (i j : Nat) (h : Handler) (p : Peer)
    (stack : Nat → UInt8) (r : RecvResult) (c : Connection) :
    (event rt i j h p stack r c).handler = i := rfl

@[simp] theorem event_connection (rt : Runtime) (i j : Nat) (h : Handler) (p : Peer)
    (stack : Nat → UInt8) (r : RecvResult) (c : Connection) :
    (event rt i j h p stack r c).connection = j := rfl

/-- The bytes taken and the bytes left are the bytes there were. -/
theorem event_consumed (rt : Runtime) (i j : Nat) (h : Handler) (p : Peer)
    (stack : Nat → UInt8) (r : RecvResult) (c : Connection) {n : Nat}
    (hc : c.unread = p.connection.unread.drop n) :
    (event rt i j h p stack r c).consumed ++ c.unread = p.connection.unread := by
  simp only [event, hc, List.length_drop]
  by_cases hn : n ≤ p.connection.unread.length
  · rw [Nat.sub_sub_self hn, List.take_append_drop]
  · rw [List.drop_eq_nil_of_le (by omega), List.append_nil, List.take_of_length_le (by omega)]

/-- That `recv`. -/
def receive (rt : Runtime) (s : Server) (i j : Nat) (h : Handler) (p : Peer)
    (stack : Nat → UInt8) (r : RecvResult) (c : Connection) : Server :=
  { s with
    handlers := s.handlers.set i (h.onRecv rt stack r)
    peers := s.peers.set j (p.after c)
    log := s.log ++ [event rt i j h p stack r c] }

/-- One atomic step, if it can be taken. -/
def step (rt : Runtime) (a : Action) (s : Server) : Option Server :=
  match a with
  | .connect => some { s with peers := s.peers ++ [.connected] }
  | .send i bytes => do
      let p ← s.peers[i]?
      if p.connection.closed then none else some { s with peers := s.peers.set i (p.send bytes) }
  | .close i => do
      let p ← s.peers[i]?
      some { s with peers := s.peers.set i p.close }
  | .accept =>
      -- `accept` blocks while no connection is pending, but not on a full table
      if s.main = .accepting ∧ (s.descriptors.length < s.limit → s.accepted < s.peers.length) then
        some s.accept
      else none
  | .create =>
      if s.main = .creating then
        some { s with main := .accepting, handlers := s.handlers ++ [.created] }
      else none
  | .acquire i => do
      let h ← s.thread i
      if h.pc = .lock ∧ s.lock = none then some { s.setThread i h.locked with lock := some i }
      else none
  | .recv i choice stack => do
      let h ← s.thread i
      let (flag, len) ← h.pc.request
      -- the cell is read at the call, not when the thread was created
      let j ← s.csock
      let p ← s.peers[j]?
      let (r, c) ← p.connection.recv choice flag len
      some (s.receive rt i j h p stack r c)
  | .unlock i => do
      let h ← s.thread i
      if h.pc = .unlock then some { s.setThread i h.unlocked with lock := none } else none

/-- All that a step can do. -/
inductive Moves (rt : Runtime) (s : Server) : Action → Server → Prop
  | connect : Moves rt s .connect { s with peers := s.peers ++ [.connected] }
  | send {i : Nat} {p : Peer} (bytes : Bytes) (hp : s.peers[i]? = some p)
      (hopen : p.connection.closed = false) :
      Moves rt s (.send i bytes) { s with peers := s.peers.set i (p.send bytes) }
  | close {i : Nat} {p : Peer} (hp : s.peers[i]? = some p) :
      Moves rt s (.close i) { s with peers := s.peers.set i p.close }
  | accept (hmain : s.main = .accepting) (hlt : s.accepted < s.peers.length)
      (hfree : s.descriptors.length < s.limit) :
      Moves rt s .accept { s with
        main := .creating
        newSocket := some s.descriptors.length
        descriptors := s.descriptors ++ [.connection s.accepted]
        accepted := s.accepted + 1 }
  | exit (hmain : s.main = .accepting) (hfull : s.limit ≤ s.descriptors.length) :
      Moves rt s .accept { s with main := .exited, newSocket := none }
  | create (hmain : s.main = .creating) :
      Moves rt s .create { s with main := .accepting, handlers := s.handlers ++ [.created] }
  | acquire {i : Nat} {h : Handler} (hrun : s.main ≠ .exited) (hh : s.handlers[i]? = some h)
      (hpc : h.pc = .lock) (hfree : s.lock = none) :
      Moves rt s (.acquire i) { s with handlers := s.handlers.set i h.locked, lock := some i }
  | recv {i j : Nat} {h : Handler} {p : Peer} {choice : Choice} {flag : RecvFlag} {len : Nat}
      {r : RecvResult} {c : Connection} (stack : Nat → UInt8) (hrun : s.main ≠ .exited)
      (hh : s.handlers[i]? = some h) (hreq : h.pc.request = some (flag, len))
      (hj : s.csock = some j) (hp : s.peers[j]? = some p)
      (hrecv : p.connection.recv choice flag len = some (r, c)) :
      Moves rt s (.recv i choice stack) (s.receive rt i j h p stack r c)
  | unlock {i : Nat} {h : Handler} (hrun : s.main ≠ .exited) (hh : s.handlers[i]? = some h)
      (hpc : h.pc = .unlock) :
      Moves rt s (.unlock i) { s with handlers := s.handlers.set i h.unlocked, lock := none }

variable {rt : Runtime} {s s' : Server} {a : Action}

theorem thread_eq_some {i : Nat} {h : Handler} (ht : s.thread i = some h) :
    s.main ≠ .exited ∧ s.handlers[i]? = some h := by
  unfold thread at ht
  split at ht
  · cases ht
  · exact ⟨‹_›, ht⟩

theorem moves_of_step (hstep : step rt a s = some s') : Moves rt s a s' := by
  cases a with
  | connect =>
      cases hstep
      exact .connect
  | send i bytes =>
      obtain ⟨p, hp, hif⟩ := Option.bind_eq_some_iff.mp hstep
      cases hclosed : p.connection.closed with
      | true => simp [hclosed] at hif
      | false =>
          rw [hclosed] at hif
          cases hif
          exact .send bytes hp hclosed
  | close i =>
      obtain ⟨p, hp, hsome⟩ := Option.bind_eq_some_iff.mp hstep
      cases hsome
      exact .close hp
  | accept =>
      obtain ⟨⟨hmain, hpending⟩, hsome⟩ := Option.ite_none_right_eq_some.mp hstep
      cases hsome
      by_cases hfree : s.descriptors.length < s.limit
      · rw [accept, if_pos hfree]
        exact .accept hmain (hpending hfree) hfree
      · rw [accept, if_neg hfree]
        exact .exit hmain (by omega)
  | create =>
      obtain ⟨hmain, hsome⟩ := Option.ite_none_right_eq_some.mp hstep
      cases hsome
      exact .create hmain
  | acquire i =>
      obtain ⟨h, ht, hif⟩ := Option.bind_eq_some_iff.mp hstep
      obtain ⟨hrun, hh⟩ := thread_eq_some ht
      obtain ⟨⟨hpc, hfree⟩, hsome⟩ := Option.ite_none_right_eq_some.mp hif
      cases hsome
      exact .acquire hrun hh hpc hfree
  | recv i choice stack =>
      obtain ⟨h, ht, hstep⟩ := Option.bind_eq_some_iff.mp hstep
      obtain ⟨⟨flag, len⟩, hreq, hstep⟩ := Option.bind_eq_some_iff.mp hstep
      obtain ⟨j, hj, hstep⟩ := Option.bind_eq_some_iff.mp hstep
      obtain ⟨p, hp, hstep⟩ := Option.bind_eq_some_iff.mp hstep
      obtain ⟨⟨r, c⟩, hrecv, hsome⟩ := Option.bind_eq_some_iff.mp hstep
      obtain ⟨hrun, hh⟩ := thread_eq_some ht
      cases hsome
      exact .recv stack hrun hh hreq hj hp hrecv
  | unlock i =>
      obtain ⟨h, ht, hif⟩ := Option.bind_eq_some_iff.mp hstep
      obtain ⟨hrun, hh⟩ := thread_eq_some ht
      obtain ⟨hpc, hsome⟩ := Option.ite_none_right_eq_some.mp hif
      cases hsome
      exact .unlock hrun hh hpc

/-! ## The shared cell -/

/-- What holds in every interleaving: a descriptor for every accepted
connection, a thread for each but the one `main` is about to serve, and the
latest descriptor in the cell. -/
structure Consistent (s : Server) : Prop where
  descriptors : s.descriptors = [.standard, .standard, .standard, .listening]
    ++ (List.range s.accepted).map Descriptor.connection
  connected : s.accepted ≤ s.peers.length
  created : s.handlers.length + s.main.pending = s.accepted
  latest : s.main ≠ .exited → ∀ k, s.accepted = k + 1 → s.newSocket = some (4 + k)

namespace Consistent

theorem start (limit : Nat) : Consistent (listening limit) where
  descriptors := rfl
  connected := Nat.le_refl 0
  created := rfl
  latest _ k hk := by simp [listening] at hk

theorem descriptors_length (hc : Consistent s) : s.descriptors.length = 4 + s.accepted := by
  rw [hc.descriptors]
  simp
  omega

/-- **The cell denotes the connection accepted last**, whoever reads it. -/
theorem csock (hc : Consistent s) (hrun : s.main ≠ .exited) {k : Nat} (hk : s.accepted = k + 1) :
    s.csock = some k := by
  have hcell := hc.latest hrun k hk
  have hget : s.descriptors[4 + k]? = some (.connection k) := by
    rw [hc.descriptors, hk, List.getElem?_append_right (by simp)]
    simp
  unfold Server.csock
  rw [hcell, Option.bind_some, hget]

theorem handlers_le (hc : Consistent s) : s.handlers.length ≤ s.accepted := by
  have := hc.created
  omega

/-- A handler that runs has a connection, so the cell denotes one. -/
theorem csock_of_handler (hc : Consistent s) (hrun : s.main ≠ .exited) {i : Nat} {h : Handler}
    (hh : s.handlers[i]? = some h) : ∃ k, s.accepted = k + 1 ∧ i ≤ k ∧ s.csock = some k := by
  obtain ⟨hi, -⟩ := List.getElem?_eq_some_iff.mp hh
  have hle := hc.handlers_le
  exact ⟨s.accepted - 1, by omega, by omega, hc.csock hrun (by omega)⟩

theorem moves (hc : Consistent s) (hm : Moves rt s a s') : Consistent s' := by
  cases hm with
  | connect =>
      exact ⟨hc.descriptors, by simpa using Nat.le_succ_of_le hc.connected, hc.created, hc.latest⟩
  | send bytes hp hopen =>
      exact ⟨hc.descriptors, by simpa using hc.connected, hc.created, hc.latest⟩
  | close hp => exact ⟨hc.descriptors, by simpa using hc.connected, hc.created, hc.latest⟩
  | accept hmain hlt hfree =>
      have hcreated := hc.created
      rw [hmain] at hcreated
      refine ⟨?_, hlt, congrArg (· + 1) hcreated, ?_⟩
      · simp only [hc.descriptors, List.range_succ, List.map_append, List.append_assoc]
        rfl
      · intro _ k hk
        simp only [Nat.add_right_cancel_iff] at hk
        simp only [hc.descriptors_length, hk]
  | exit hmain hfull =>
      have hcreated := hc.created
      rw [hmain] at hcreated
      exact ⟨hc.descriptors, hc.connected, hcreated, by simp⟩
  | create hmain =>
      have hcreated := hc.created
      rw [hmain] at hcreated
      exact ⟨hc.descriptors, hc.connected, by simpa [Main.pending] using hcreated,
        fun _ => hc.latest (by rw [hmain]; decide)⟩
  | acquire hrun hh hpc hfree =>
      exact ⟨hc.descriptors, hc.connected, by simpa using hc.created, hc.latest⟩
  | recv stack hrun hh hreq hj hp hrecv =>
      exact ⟨hc.descriptors, by simpa [receive] using hc.connected,
        by simpa [receive] using hc.created, hc.latest⟩
  | unlock hrun hh hpc =>
      exact ⟨hc.descriptors, hc.connected, by simpa using hc.created, hc.latest⟩

theorem reaches {ok : Action → Server → Prop} {limit : Nat}
    (h : Runs.Reaches (step rt) ok (listening limit) s) : Consistent s :=
  h.invariant Consistent (start limit) fun _ _ _ hc _ hstep => hc.moves (moves_of_step hstep)

end Consistent

end Server

end Assignment.Socket
