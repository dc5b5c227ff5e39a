import Assignment.Reference
import Assignment.Socket.Accept

/-!
# The descriptor table

Clients that come one after the other, each when the handler of the one
before has returned. The server holds what it needs and no more until the
first handler returns: that handler leaves its connection open, and so does
every later one, until `accept` finds the table full. As `accept` asks for
its descriptor before it waits for a client, the server does not live to see
the client for which there is no room (`survives_iff`).
-/

namespace Assignment.Socket

open Runs

namespace Server

/-- A client connects only after every earlier one has been served and its
handler has returned. -/
def InTurn (a : Action) (s : Server) : Prop :=
  match a with
  | .connect => s.handlers.length = s.peers.length ∧ ∀ h ∈ s.handlers, h.pc = .returned
  | _ => True

instance (a : Action) (s : Server) : Decidable (InTurn a s) := by
  unfold InTurn
  split <;> infer_instance

/-- What a client sends is a whole frame. -/
def SendsFrame (rt : Runtime) (a : Action) : Prop :=
  match a with
  | .send _ bytes => (rt.readVarint32 (bytes.take 4)).ok = true
      ∧ bytes.length = (rt.readVarint32 (bytes.take 4)).value.toNat + 4
  | _ => True

instance (rt : Runtime) (a : Action) : Decidable (SendsFrame rt a) := by
  unfold SendsFrame
  split <;> infer_instance

/-- Handler `i` has returned. -/
def returned (s : Server) (i : Nat) : Prop := ∃ h, s.handlers[i]? = some h ∧ h.pc = .returned

/-- The open descriptors are the standard streams, the listening socket and
connections whose handler has not returned, and no `accept` has failed. -/
def Survives (s : Server) : Prop :=
  (∀ d ∈ s.descriptors, d = .standard ∨ d = .listening
      ∨ ∃ i, d = .connection i ∧ ¬ s.returned i)
    ∧ s.main ≠ .exited

/-- What `main` does by itself: it calls `accept`, and it creates the thread
for the connection that it got. -/
def MainStep (a : Action) (_ : Server) : Prop :=
  match a with
  | .accept | .create => True
  | _ => False

variable {rt : Runtime} {s s' : Server} {a : Action} {limit : Nat}
variable {ok : Action → Server → Prop}

/-! ## The table -/

/-- Every accepted connection has taken a descriptor for good, and `main` has
exited only for want of another one. -/
structure Filled (limit : Nat) (s : Server) : Prop where
  consistent : Consistent s
  limit_eq : s.limit = limit
  fits : 4 + s.accepted ≤ max 4 limit
  exited : s.main = .exited → limit ≤ 4 + s.accepted

namespace Filled

theorem start (limit : Nat) : Filled limit (listening limit) where
  consistent := .start limit
  limit_eq := rfl
  fits := Nat.le_max_left _ _
  exited h := by cases h

theorem moves (hf : Filled limit s) (hm : Moves rt s a s') : Filled limit s' := by
  have hc := hf.consistent.moves hm
  cases hm with
  | connect => exact ⟨hc, hf.limit_eq, hf.fits, hf.exited⟩
  | send bytes hp hopen => exact ⟨hc, hf.limit_eq, hf.fits, hf.exited⟩
  | close hp => exact ⟨hc, hf.limit_eq, hf.fits, hf.exited⟩
  | accept hmain hlt hfree =>
      rw [hf.consistent.descriptors_length, hf.limit_eq] at hfree
      exact ⟨hc, hf.limit_eq, by simp only; omega, fun hexit => by cases hexit⟩
  | exit hmain hfull =>
      rw [hf.consistent.descriptors_length, hf.limit_eq] at hfull
      exact ⟨hc, hf.limit_eq, hf.fits, fun _ => hfull⟩
  | create hmain => exact ⟨hc, hf.limit_eq, hf.fits, fun hexit => by cases hexit⟩
  | acquire hrun hh hpc hfree => exact ⟨hc, hf.limit_eq, hf.fits, hf.exited⟩
  | recv stack hrun hh hreq hj hp hrecv => exact ⟨hc, hf.limit_eq, hf.fits, hf.exited⟩
  | unlock hrun hh hpc => exact ⟨hc, hf.limit_eq, hf.fits, hf.exited⟩

theorem reaches (h : Reaches (step rt) ok (listening limit) s) : Filled limit s :=
  h.invariant (Filled limit) (start limit) fun _ _ _ hf _ hstep => hf.moves (moves_of_step hstep)

end Filled

/-- The server dies at the `accept` after the last client that the table has
room for. -/
theorem exited_accepted (hlimit : 4 ≤ limit) (h : Reaches (step rt) ok (listening limit) s)
    (hexit : s.main = .exited) : s.accepted + 4 = limit := by
  have hf := Filled.reaches h
  have hfull := hf.exited hexit
  have hfits := hf.fits
  omega

/-! ## What `main` makes of it -/

theorem step_accept_full (hmain : s.main = .accepting) (hfull : s.limit ≤ s.descriptors.length) :
    step rt .accept s = some { s with main := .exited, newSocket := none } := by
  have hfree : ¬ s.descriptors.length < s.limit := by omega
  simp [step, accept, hmain, hfree]

theorem step_accept_pending (hmain : s.main = .accepting) (hlt : s.accepted < s.peers.length)
    (hfree : s.descriptors.length < s.limit) :
    step rt .accept s = some { s with
      main := .creating
      newSocket := some s.descriptors.length
      descriptors := s.descriptors ++ [.connection s.accepted]
      accepted := s.accepted + 1 } := by
  simp [step, accept, hmain, hlt, hfree]

/-- Whatever its handlers do, `main` accepts one client after the other until
the table is full. -/
theorem accepting_exits (rt : Runtime) :
    ∀ (waiting : Nat) (s : Server), s.main = .accepting →
      s.accepted + waiting = s.peers.length → s.limit ≤ s.descriptors.length + waiting →
      ∃ s', Reaches (step rt) MainStep s s' ∧ s'.main = .exited := by
  intro waiting
  induction waiting with
  | zero =>
      intro s hmain _ hfull
      exact ⟨_, Reaches.start.step (l := .accept) trivial (step_accept_full hmain hfull), rfl⟩
  | succ waiting ih =>
      intro s hmain hpeers hfull
      by_cases hfree : s.descriptors.length < s.limit
      · have haccept := @step_accept_pending rt s hmain (by omega) hfree
        -- `main` is back at `accept` with one client less to come
        obtain ⟨s', hreach, hexit⟩ := ih
          { s with
            main := .accepting
            newSocket := some s.descriptors.length
            descriptors := s.descriptors ++ [.connection s.accepted]
            accepted := s.accepted + 1
            handlers := s.handlers ++ [.created] }
          rfl (by simp only; omega)
          (by simp only [List.length_append, List.length_singleton]; omega)
        have hcreated := (Reaches.step .start (show MainStep .accept s from trivial) haccept).step
          (show MainStep .create _ from trivial) rfl
        exact ⟨s', hcreated.trans hreach, hexit⟩
      · exact ⟨_, Reaches.start.step (l := .accept) trivial (step_accept_full hmain (by omega)), rfl⟩

/-- A table without room for all clients and one more kills the server. -/
theorem main_exits (h : Reaches (step rt) ok (listening limit) s)
    (hfull : limit ≤ s.peers.length + 4) :
    ∃ s', Reaches (step rt) MainStep s s' ∧ s'.main = .exited := by
  have hf := Filled.reaches h
  have hconnected := hf.consistent.connected
  have hopen := hf.consistent.descriptors_length
  have hlimit := hf.limit_eq
  cases hmain : s.main with
  | exited => exact ⟨s, .start, hmain⟩
  | accepting =>
      exact accepting_exits rt (s.peers.length - s.accepted) s hmain (by omega) (by omega)
  | creating =>
      have hcreate : step rt .create s
          = some { s with main := .accepting, handlers := s.handlers ++ [.created] } := by
        simp [step, hmain]
      obtain ⟨s', hreach, hexit⟩ := accepting_exits rt (s.peers.length - s.accepted)
        { s with main := .accepting, handlers := s.handlers ++ [.created] } rfl
        (by simp only; omega) (by simp only; omega)
      exact ⟨s', (Reaches.start.step (l := .create) trivial hcreate).trans hreach, hexit⟩

/-! ## How long the server survives -/

/-- No handler has returned, and the table has room for every client and one
more. -/
structure Healthy (limit : Nat) (s : Server) : Prop where
  filled : Filled limit s
  running : ∀ i, ¬ s.returned i
  room : s.peers.length + 4 < limit

namespace Healthy

theorem survives (hh : Healthy limit s) : Survives s := by
  have hopen := hh.filled.consistent.descriptors
  have hconnected := hh.filled.consistent.connected
  have hroom := hh.room
  refine ⟨fun d hd => ?_, fun hexit => ?_⟩
  · rw [hopen] at hd
    simp only [List.mem_append, List.mem_cons, List.mem_map, List.not_mem_nil, or_false] at hd
    rcases hd with (rfl | rfl | rfl | rfl) | ⟨i, -, rfl⟩
    · exact .inl rfl
    · exact .inl rfl
    · exact .inl rfl
    · exact .inr (.inl rfl)
    · exact .inr (.inr ⟨i, rfl, hh.running i⟩)
  · have hfull := hh.filled.exited hexit
    omega

/-- `main` by itself lets no handler return. -/
theorem moves (hh : Healthy limit s) (hmain : MainStep a s) (hm : Moves rt s a s') :
    Healthy limit s' := by
  have hf := hh.filled.moves hm
  cases hm with
  | accept => exact ⟨hf, hh.running, hh.room⟩
  | exit => exact ⟨hf, hh.running, hh.room⟩
  | create =>
      refine ⟨hf, ?_, hh.room⟩
      rintro i ⟨h, hget, hpc⟩
      by_cases hi : i < s.handlers.length
      · rw [List.getElem?_append_left hi] at hget
        exact hh.running i ⟨h, hget, hpc⟩
      · rw [List.getElem?_append_right (by omega), List.getElem?_singleton] at hget
        obtain ⟨-, hget⟩ := Option.ite_none_right_eq_some.mp hget
        cases hget
        cases hpc
  | _ => exact hmain.elim

theorem reaches (hh : Healthy limit s) (h : Reaches (step rt) MainStep s s') : Healthy limit s' :=
  h.invariant (Healthy limit) hh fun _ _ _ hh hmain hstep => hh.moves hmain (moves_of_step hstep)

end Healthy

/-- A handler that has returned has left its descriptor open. -/
theorem running_of_survives (hc : Consistent s) (hs : Survives s) (i : Nat) : ¬ s.returned i := by
  intro hret
  obtain ⟨h', hh', -⟩ := id hret
  obtain ⟨hi, -⟩ := List.getElem?_eq_some_iff.mp hh'
  have hle := hc.handlers_le
  have hmem : Descriptor.connection i ∈ s.descriptors := by
    rw [hc.descriptors]
    simp only [List.mem_append, List.mem_map, List.mem_range]
    exact .inr ⟨i, by omega, rfl⟩
  rcases hs.1 _ hmem with heq | heq | ⟨j, heq, hrunning⟩
  · cases heq
  · cases heq
  · cases heq
    exact hrunning hret

/-- **The server survives until a handler returns or the table is full**: in
every reachable state, whatever order the clients come in, the server holds
no more than it needs and no `accept` fails, now and in whatever `main` does
next by itself, if and only if no handler has returned yet and the table has
room for all clients so far and one more. -/
theorem survives_iff (h : Reaches (step rt) ok (listening limit) s) :
    (∀ s', Reaches (step rt) MainStep s s' → Survives s')
      ↔ (∀ i, ¬ s.returned i) ∧ s.peers.length + 4 < limit := by
  have hf := Filled.reaches h
  constructor
  · intro hall
    refine ⟨running_of_survives hf.consistent (hall s .start), ?_⟩
    by_contra hfull
    obtain ⟨s', hreach, hexit⟩ := main_exits h (by omega)
    exact (hall s' hreach).2 hexit
  · rintro ⟨hrunning, hroom⟩ s' hreach
    exact (Healthy.reaches ⟨hf, hrunning, hroom⟩ hreach).survives

/-- One client that sends an empty packet and closes, up to the handler's
unlock. -/
def oneClient : List Action :=
  [.connect, .accept, .create, .acquire 0, .send 0 [0, 0, 0, 0], .recv 0 (.sees 3) fun _ => 0,
    .recv 0 (.sees 0) fun _ => 0, .close 0, .recv 0 (.sees 3) fun _ => 0]

theorem survives_oneClient : ∃ s,
    Reaches (step reference) (fun a s => InTurn a s ∧ SendsFrame reference a) (listening 6) s
    ∧ s.log ≠ [] ∧ ((∀ s', Reaches (step reference) MainStep s s' → Survives s')
      ↔ (∀ i, ¬ s.returned i) ∧ s.peers.length + 4 < 6) := by
  have hrun : ∃ s, exec (step reference) (fun a s => InTurn a s ∧ SendsFrame reference a)
      oneClient (listening 6) = some s ∧ s.log ≠ [] :=
    ⟨_, rfl, by decide +kernel⟩
  obtain ⟨s, hexec, hlog⟩ := hrun
  have hreach := reaches_of_exec hexec
  exact ⟨s, hreach, hlog, survives_iff hreach⟩

/-- Once that handler has returned, the next client is the last one: the
`accept` after it fails. -/
theorem not_survives : ¬ ∀ limit, 5 ≤ limit → ∀ s,
    Reaches (step reference) (fun a s => InTurn a s ∧ SendsFrame reference a) (listening limit) s →
    Survives s := by
  intro h
  have hrun : ∃ s, exec (step reference) (fun a s => InTurn a s ∧ SendsFrame reference a)
      (oneClient ++ [.unlock 0, .connect, .accept, .create, .accept]) (listening 6) = some s
      ∧ s.main = .exited :=
    ⟨_, rfl, by decide +kernel⟩
  obtain ⟨s, hexec, hexit⟩ := hrun
  exact (h 6 (by omega) s (reaches_of_exec hexec)).2 hexit

end Server

end Assignment.Socket
