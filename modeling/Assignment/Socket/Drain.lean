import Assignment.Socket.Exclusion

/-!
# The server comes to rest

Once every client has closed, the server has only so much left to do, in
whatever order its threads and `main` are scheduled: every step of its own
lowers `work`. The shared cell makes this more than the loop of one handler.
A handler that has peeked at one connection may receive the body from a
later one that has nothing to give, and goes around once more without having
consumed anything; the `accept` in between has paid for that.
-/

namespace Assignment.Socket

open Runs

/-- The steps a handler still makes without consuming anything. -/
def Pc.rank : Pc → Nat
  | .lock => 4
  | .peek => 3
  | .body _ => 2
  | .unlock => 1
  | .returned => 0

/-- Those of `main`: a thread to create brings the steps of its handler. -/
def Main.rank : Main → Nat
  | .accepting => 1
  | .creating => 6
  | .exited => 0

/-- A step of the server, with no failing `recv`. -/
def Action.Own (a : Action) (_ : Server) : Prop :=
  match a with
  | .connect | .send _ _ | .close _ => False
  | .recv _ choice _ => choice.isFailure = false
  | .accept | .create | .acquire _ | .unlock _ => True

instance (a : Action) (s : Server) : Decidable (a.Own s) :=
  match a with
  | .connect | .send _ _ | .close _ => inferInstanceAs (Decidable False)
  | .recv _ choice _ => inferInstanceAs (Decidable (choice.isFailure = false))
  | .accept | .create | .acquire _ | .unlock _ => inferInstanceAs (Decidable True)

namespace Server

/-- The thread that holds the lock. -/
def holder (s : Server) : Option Handler := s.lock.bind (s.handlers[·]?)

/-- The connection accepted last has nothing unread. -/
def exhausted (s : Server) : Bool :=
  match s.peers[s.accepted - 1]? with
  | some p => p.connection.unread.isEmpty
  | none => true

/-- A body receive is due that will find nothing. -/
def stale (s : Server) : Nat :=
  match s.holder with
  | some ⟨.body _, _, _, _⟩ => if s.exhausted then 2 else 0
  | _ => 0

/-- What is left to do once the clients have closed. -/
def work (s : Server) : Nat :=
  2 * (s.peers.map fun p => p.connection.unread.length).sum
    + (s.handlers.map fun h => h.pc.rank).sum
    + 8 * (s.peers.length - s.accepted) + s.main.rank + s.stale

variable {rt : Runtime} {s s' : Server} {a : Action} {limit : Nat}

theorem stale_le (s : Server) : s.stale ≤ 2 := by
  unfold stale
  split
  · split <;> omega
  · omega

theorem stale_free (h : s.lock = none) : s.stale = 0 := by
  simp [stale, holder, h]

/-- A handler elsewhere than at its body receive makes nothing stale. -/
theorem stale_eq_zero {h : Handler} (hh : s.holder = some h) (hpc : ∀ siz, h.pc ≠ .body siz) :
    s.stale = 0 := by
  obtain ⟨pc, buffer, out, unlocks⟩ := h
  cases pc with
  | body siz => exact absurd rfl (hpc siz)
  | _ => simp [stale, hh]

theorem stale_body {h : Handler} {siz : UInt32} (hh : s.holder = some h) (hpc : h.pc = .body siz) :
    s.stale = if s.exhausted then 2 else 0 := by
  obtain ⟨pc, buffer, out, unlocks⟩ := h
  cases hpc
  simp [stale, hh]

/-! ## The invariant -/

/-- A peek that returned nothing leaves the loop, any other goes on to the
body. -/
theorem onRecv_peek {h : Handler} {stack : Nat → UInt8} {r : RecvResult} (hpc : h.pc = .peek) :
    if r = .received [] then (h.onRecv rt stack r).pc = .unlock
    else ∃ siz, (h.onRecv rt stack r).pc = .body siz := by
  split
  · simp [Handler.onRecv, hpc, ‹r = _›]
  · simp [Handler.onRecv, hpc, ‹¬ r = _›]

/-- No handler is about to receive an empty body: no header makes `4+siz`
wrap to `0`. -/
def Sized (s : Server) : Prop :=
  ∀ h ∈ s.handlers, ∀ siz, h.pc = .body siz → 0 < ((4 : UInt32) + siz).toNat

namespace Sized

theorem onRecv (hrt : rt.Documented) {h : Handler} {flag : RecvFlag} {len : Nat}
    {stack : Nat → UInt8} {r : RecvResult} (hreq : h.pc.request = some (flag, len)) {siz : UInt32}
    (hpc : (h.onRecv rt stack r).pc = .body siz) : 0 < ((4 : UInt32) + siz).toNat := by
  cases hat : h.pc with
  | peek =>
      by_cases hr : r = .received []
      · simp [Handler.onRecv, hat, hr] at hpc
      · simp only [Handler.onRecv, hat, if_neg hr, Pc.body.injEq] at hpc
        rcases readHdr_cases hrt (h.buffer.fill r.bytes).bytes with hlt | heq
        · rw [hpc] at hlt
          rw [bodyLength_of_lt hlt]
          omega
        · rw [hpc] at heq
          rw [heq, bodyLength_incomplete]
          omega
  | body siz' => simp [Handler.onRecv, hat] at hpc
  | _ => simp [hat, Pc.request] at hreq

theorem set (hs : Sized s) {i : Nat} {g : Handler}
    (hg : ∀ siz, g.pc = .body siz → 0 < ((4 : UInt32) + siz).toNat) :
    ∀ h ∈ s.handlers.set i g, ∀ siz, h.pc = .body siz → 0 < ((4 : UInt32) + siz).toNat := by
  intro h hh
  rcases List.mem_or_eq_of_mem_set hh with hh | rfl
  · exact hs h hh
  · exact hg

theorem moves (hrt : rt.Documented) (hs : Sized s) (hm : Moves rt s a s') : Sized s' := by
  cases hm with
  | connect => exact hs
  | send bytes hp hopen => exact hs
  | close hp => exact hs
  | accept hmain hlt hfree => exact hs
  | exit hmain hfull => exact hs
  | create hmain =>
      intro h hh
      rcases List.mem_append.mp hh with hh | hh
      · exact hs h hh
      · intro siz hpc
        rw [List.mem_singleton.mp hh] at hpc
        cases hpc
  | acquire hrun hh hpc hfree => exact hs.set (by simp [Handler.locked])
  | recv stack hrun hh hreq hj hp hrecv => exact hs.set fun siz hpc => onRecv hrt hreq hpc
  | unlock hrun hh hpc => exact hs.set (by simp [Handler.unlocked])

theorem reaches (hrt : rt.Documented) {ok : Action → Server → Prop}
    (h : Reaches (step rt) ok (listening limit) s) : Sized s :=
  h.invariant Sized (by simp [Sized, listening]) fun _ _ _ hs _ hstep =>
    hs.moves hrt (moves_of_step hstep)

end Sized

/-- A reachable state in which every client has closed. -/
structure Draining (s : Server) : Prop where
  consistent : Consistent s
  exclusive : Exclusive s
  sized : Sized s
  closed : ∀ p ∈ s.peers, p.connection.closed = true

namespace Draining

/-- A handler that runs is the holder of the lock, and receives from the
connection accepted last. -/
theorem at_work (hd : Draining s) (hrun : s.main ≠ .exited) {i j : Nat} {h : Handler}
    {flag : RecvFlag} {len : Nat} (hh : s.handlers[i]? = some h)
    (hreq : h.pc.request = some (flag, len)) (hj : s.csock = some j) :
    s.lock = some i ∧ s.accepted = j + 1 := by
  obtain ⟨k, hk, -, hcsock⟩ := hd.consistent.csock_of_handler hrun hh
  rw [hj, Option.some.injEq] at hcsock
  exact ⟨hd.exclusive.lock_of_request hh hreq, by omega⟩

theorem moves (hrt : rt.Documented) (hd : Draining s) (hown : a.Own s) (hm : Moves rt s a s') :
    Draining s' := by
  refine ⟨hd.consistent.moves hm, hd.exclusive.moves hm, hd.sized.moves hrt hm, ?_⟩
  cases hm with
  | connect => exact hown.elim
  | send bytes hp hopen => exact hown.elim
  | close hp => exact hown.elim
  | recv stack hrun hh hreq hj hp hrecv =>
      intro q hq
      rcases List.mem_or_eq_of_mem_set hq with hq | rfl
      · exact hd.closed q hq
      · rw [Peer.after, Connection.recv_closed hrecv]
        exact hd.closed _ (List.mem_of_getElem? hp)
  | accept hmain hlt hfree => exact hd.closed
  | exit hmain hfull => exact hd.closed
  | create hmain => exact hd.closed
  | acquire hrun hh hpc hfree => exact hd.closed
  | unlock hrun hh hpc => exact hd.closed

end Draining

/-! ## Every step lowers the work -/

/-- What a `recv` does to the measure, apart from what is stale. -/
theorem work_receive {i j : Nat} {h : Handler} {p : Peer} {stack : Nat → UInt8} {r : RecvResult}
    {c : Connection} (hh : s.handlers[i]? = some h) (hp : s.peers[j]? = some p) :
    (s.receive rt i j h p stack r c).work + 2 * p.connection.unread.length + h.pc.rank + s.stale
      = s.work + 2 * c.unread.length + (h.onRecv rt stack r).pc.rank
        + (s.receive rt i j h p stack r c).stale := by
  have hpeers := sum_map_set (fun q : Peer => q.connection.unread.length) (b := p.after c) hp
  have hhandlers := sum_map_set (fun g : Handler => g.pc.rank) (b := h.onRecv rt stack r) hh
  simp only [Peer.after] at hpeers
  simp only [work, receive, List.length_set, Peer.after]
  omega

/-- The handler after its `recv` still holds the lock. -/
theorem holder_receive {i j : Nat} {h : Handler} {p : Peer} {stack : Nat → UInt8}
    {r : RecvResult} {c : Connection} (hh : s.handlers[i]? = some h) (hlock : s.lock = some i) :
    (s.receive rt i j h p stack r c).holder = some (h.onRecv rt stack r) := by
  obtain ⟨hi, -⟩ := List.getElem?_eq_some_iff.mp hh
  simp [holder, receive, hlock, hi]

/-- A peek goes on to a body that is there, or leaves the loop. -/
theorem work_peek {i j : Nat} {h : Handler} {p : Peer} {choice : Choice} {stack : Nat → UInt8}
    {r : RecvResult} {c : Connection} (hh : s.handlers[i]? = some h) (hp : s.peers[j]? = some p)
    (hpc : h.pc = .peek) (hlock : s.lock = some i) (hlatest : s.accepted = j + 1)
    (hok : choice.isFailure = false) (hrecv : p.connection.recv choice .peek 4 = some (r, c)) :
    (s.receive rt i j h p stack r c).work < s.work := by
  have hwork := @work_receive rt s i j h p stack r c hh hp
  have hholder := @holder_receive rt s i j h p stack r c hh hlock
  have hnext := @onRecv_peek rt h stack r hpc
  obtain ⟨hplt, -⟩ := List.getElem?_eq_some_iff.mp hp
  obtain ⟨-, heq⟩ := Option.ite_none_right_eq_some.mp hrecv
  obtain ⟨hr, rfl⟩ := Prod.mk.inj (Option.some.inj heq)
  rw [hpc] at hwork
  by_cases hend : r = .received []
  · rw [if_pos hend] at hnext
    have hstale := stale_eq_zero hholder (by simp [hnext])
    rw [hnext] at hwork
    simp only [Pc.rank] at hwork
    omega
  · -- some byte was seen, so the body receive will not be stale
    rw [if_neg hend] at hnext
    obtain ⟨siz, hbody⟩ := hnext
    have hunread : p.connection.unread ≠ [] := by
      intro hnil
      cases choice with
      | fails => cases hok
      | sees k => exact hend (by simp [← hr, hnil, Choice.result, Choice.peeked])
    have hstale := stale_body hholder hbody
    have hexhausted : (s.receive rt i j h p stack r p.connection).exhausted = false := by
      simp [exhausted, receive, hlatest, hplt, Peer.after, hunread]
    rw [hexhausted] at hstale
    rw [hbody, hstale] at hwork
    simp only [Pc.rank, Bool.false_eq_true, if_false] at hwork
    omega

/-- A body receive consumes something, or it was stale. -/
theorem work_body {i j : Nat} {h : Handler} {p : Peer} {choice : Choice} {stack : Nat → UInt8}
    {r : RecvResult} {c : Connection} {siz : UInt32} {len : Nat} (hh : s.handlers[i]? = some h)
    (hp : s.peers[j]? = some p) (hpc : h.pc = .body siz) (hlen : 0 < len)
    (hlock : s.lock = some i) (hlatest : s.accepted = j + 1) (hok : choice.isFailure = false)
    (hrecv : p.connection.recv choice .waitall len = some (r, c)) :
    (s.receive rt i j h p stack r c).work < s.work := by
  have hwork := @work_receive rt s i j h p stack r c hh hp
  have hpeek : (h.onRecv rt stack r).pc = .peek := by simp [Handler.onRecv, hpc]
  have hstale := stale_eq_zero (@holder_receive rt s i j h p stack r c hh hlock)
    (by simp [hpeek])
  have hleft : c.unread = p.connection.unread.drop len := by
    obtain ⟨-, heq⟩ := Option.ite_none_right_eq_some.mp hrecv
    obtain ⟨-, rfl⟩ := Prod.mk.inj (Option.some.inj heq)
    cases choice with
    | fails => cases hok
    | sees k => rfl
  have hdrop := congrArg List.length hleft
  rw [List.length_drop] at hdrop
  rw [hstale, hpeek, hpc] at hwork
  simp only [Pc.rank] at hwork
  by_cases hnil : p.connection.unread = []
  · -- nothing was consumed, which had been counted
    have hbefore : s.stale = 2 := by
      have hexhausted : s.exhausted = true := by simp [exhausted, hlatest, hp, hnil]
      have hholder : s.holder = some h := by simp [holder, hlock, hh]
      rw [stale_body hholder hpc, hexhausted]
      rfl
    rw [hnil, List.length_nil] at hdrop hwork
    omega
  · have hpos : 0 < p.connection.unread.length := List.length_pos_iff.mpr hnil
    omega

/-- **Every step of the server lowers the work.** -/
theorem work_moves (hd : Draining s) (hown : a.Own s) (hm : Moves rt s a s') :
    s'.work < s.work := by
  cases hm with
  | connect => exact hown.elim
  | send bytes hp hopen => exact hown.elim
  | close hp => exact hown.elim
  | accept hmain hlt hfree =>
      have hle := stale_le { s with
        main := .creating
        newSocket := some s.descriptors.length
        descriptors := s.descriptors ++ [.connection s.accepted]
        accepted := s.accepted + 1 }
      simp only [work, hmain, Main.rank]
      omega
  | exit hmain hfull =>
      have hsame : stale { s with main := .exited, newSocket := none } = s.stale := rfl
      simp only [work, hmain, Main.rank, hsame]
      omega
  | create hmain =>
      have hsame : stale { s with main := .accepting, handlers := s.handlers ++ [.created] }
          = s.stale := by
        have hholder : holder { s with
            main := .accepting, handlers := s.handlers ++ [.created] } = s.holder := by
          cases hlock : s.lock with
          | none => simp [holder, hlock]
          | some i =>
              have hlt := hd.exclusive.thread i hlock
              simp [holder, hlock, List.getElem?_append_left hlt]
        simp only [stale, hholder]
        rfl
      rw [work, work, hsame, hmain, List.map_append, List.sum_append]
      simp only [Main.rank, List.map_singleton, List.sum_singleton]
      have hnew : Handler.created.pc.rank = 4 := rfl
      omega
  | @acquire i h hrun hh hpc hfree =>
      obtain ⟨hi, -⟩ := List.getElem?_eq_some_iff.mp hh
      have hsum := sum_map_set (fun g : Handler => g.pc.rank) (b := h.locked) hh
      have hstale : stale { s with handlers := s.handlers.set i h.locked, lock := some i } = 0 :=
        @stale_eq_zero _ h.locked (by simp [holder, hi]) (by simp [Handler.locked])
      have hbefore : h.pc.rank = 4 := congrArg Pc.rank hpc
      have hafter : h.locked.pc.rank = 3 := rfl
      rw [work, work, hstale]
      simp only
      omega
  | @recv i j h p choice flag len r c stack hrun hh hreq hj hp hrecv =>
      obtain ⟨hlock, hlatest⟩ := hd.at_work hrun hh hreq hj
      cases hpc : h.pc with
      | peek =>
          rw [hpc] at hreq
          cases hreq
          exact work_peek hh hp hpc hlock hlatest hown hrecv
      | body siz =>
          have hpos := hd.sized h (List.mem_of_getElem? hh) siz hpc
          rw [hpc] at hreq
          cases hreq
          exact work_body hh hp hpc hpos hlock hlatest hown hrecv
      | _ => simp [hpc, Pc.request] at hreq
  | @unlock i h hrun hh hpc =>
      have hsum := sum_map_set (fun g : Handler => g.pc.rank) (b := h.unlocked) hh
      have hstale := @stale_free { s with handlers := s.handlers.set i h.unlocked, lock := none }
        rfl
      have hbefore : h.pc.rank = 1 := congrArg Pc.rank hpc
      have hafter : h.unlocked.pc.rank = 0 := rfl
      rw [work, work, hstale]
      simp only
      omega

/-! ## At rest -/

/-- The process has exited, or every client has been served. -/
def AtRest (s : Server) : Prop :=
  s.main = .exited ∨ s.accepted = s.peers.length ∧ s.handlers.length = s.peers.length
    ∧ ∀ h ∈ s.handlers, h.pc = .returned

/-- On a closed connection no `recv` blocks. -/
theorem recv_of_closed {c : Connection} (hclosed : c.closed = true) (flag : RecvFlag) (len : Nat) :
    ∃ r c', c.recv (.sees 0) flag len = some (r, c') := by
  cases flag <;> simp [Connection.recv, hclosed]

/-- The holder of the lock can go on. -/
theorem holder_steps (hd : Draining s) (hrun : s.main ≠ .exited) {i : Nat} {h : Handler}
    (hh : s.handlers[i]? = some h) (hin : h.pc.critical = true) :
    ∃ a, a.Own s ∧ (step rt a s).isSome = true := by
  have hthread : s.thread i = some h := by rw [thread, if_neg hrun, hh]
  by_cases hpc : h.pc = .unlock
  · exact ⟨.unlock i, trivial, by simp [step, hthread, hpc]⟩
  · obtain ⟨flag, len, hreq⟩ : ∃ flag len, h.pc.request = some (flag, len) := by
      cases hat : h.pc with
      | unlock => exact absurd hat hpc
      | lock => simp [hat, Pc.critical] at hin
      | returned => simp [hat, Pc.critical] at hin
      | _ => exact ⟨_, _, rfl⟩
    obtain ⟨k, hk, -, hcsock⟩ := hd.consistent.csock_of_handler hrun hh
    have hklt : k < s.peers.length := by
      have := hd.consistent.connected
      omega
    obtain ⟨r, c, hrecv⟩ := recv_of_closed (hd.closed _ (List.getElem_mem hklt)) flag len
    refine ⟨.recv i (.sees 0) fun _ => 0, rfl, ?_⟩
    simp [step, hthread, hreq, hcsock, List.getElem?_eq_getElem hklt, hrecv]

/-- **A server that cannot go on is at rest.** -/
theorem atRest_of_stuck (hd : Draining s) (hstuck : ∀ a : Action, a.Own s → step rt a s = none) :
    AtRest s := by
  have hno : ∀ a : Action, a.Own s → ¬ (step rt a s).isSome = true := by
    intro a hown hsome
    simp [hstuck a hown] at hsome
  by_cases hrun : s.main = .exited
  · exact .inl hrun
  · have hmain : s.main = .accepting := by
      cases hm : s.main with
      | accepting => rfl
      | creating => exact absurd (by simp [step, hm]) (hno .create trivial)
      | exited => exact absurd hm hrun
    have hall : s.accepted = s.peers.length := by
      by_contra hne
      have hlt : s.accepted < s.peers.length := by
        have := hd.consistent.connected
        omega
      exact hno .accept trivial (by simp [step, hmain, hlt])
    have hcreated := hd.consistent.created
    rw [hmain] at hcreated
    have hfree : s.lock = none := by
      cases hlock : s.lock with
      | none => rfl
      | some i =>
          have hi := hd.exclusive.thread i hlock
          have hh := List.getElem?_eq_getElem hi
          obtain ⟨a, hown, hsome⟩ := @holder_steps rt s hd hrun i _ hh
            ((hd.exclusive.holder i _ hh).mpr hlock)
          exact absurd hsome (hno a hown)
    refine .inr ⟨hall, hcreated.trans hall, ?_⟩
    intro h hmem
    obtain ⟨i, hh⟩ := List.getElem?_of_mem hmem
    have hout := hd.exclusive.not_critical hfree hh
    cases hpc : h.pc with
    | returned => rfl
    | lock =>
        have hthread : s.thread i = some h := by rw [thread, if_neg hrun, hh]
        exact absurd (by simp [step, hthread, hpc, hfree]) (hno (.acquire i) trivial)
    | _ => simp [hpc, Pc.critical] at hout

/-- **The server comes to rest**: when every client has closed, the server
takes at most `work` more steps in any schedule, and where it cannot take
another one it has exited or every client's handler has returned. -/
theorem drains (hrt : rt.Documented) (h : Reaches (step rt) anyStep (listening limit) s)
    (hclosed : ∀ p ∈ s.peers, p.connection.closed = true) {schedule : List Action} {s' : Server}
    (hrun : exec (step rt) Action.Own schedule s = some s') :
    schedule.length ≤ s.work
      ∧ ((∀ a : Action, a.Own s' → step rt a s' = none) → AtRest s') := by
  have hd : Draining s := ⟨.reaches h, .reaches h, .reaches hrt h, hclosed⟩
  obtain ⟨hd', hle⟩ := exec_length_le Draining work
    (fun a t t' ht hown hstep =>
      have hm := moves_of_step hstep
      ⟨ht.moves hrt hown hm, work_moves ht hown hm⟩) hd hrun
  exact ⟨by omega, atRest_of_stuck hd'⟩

/-- Two clients that have connected, of which the second has sent, and both
have closed. -/
def closedClients : List Action := [.connect, .connect, .send 1 [1, 2], .close 0, .close 1]

/-- A schedule in which the first handler peeks at its own connection, which
has ended. -/
def firstServed : List Action :=
  [.accept, .create, .acquire 0, .recv 0 (.sees 3) fun _ => 0, .accept, .unlock 0]

theorem drains_two : ∃ s s', Reaches (step reference) anyStep (listening 16) s
    ∧ exec (step reference) Action.Own firstServed s = some s' ∧ firstServed.length ≤ s.work
    ∧ ((∀ a : Action, a.Own s' → step reference a s' = none) → AtRest s') := by
  have hrun : ∃ s s', exec (step reference) anyStep closedClients (listening 16) = some s
      ∧ (∀ p ∈ s.peers, p.connection.closed = true)
      ∧ exec (step reference) Action.Own firstServed s = some s' :=
    ⟨_, _, rfl, by decide +kernel, rfl⟩
  obtain ⟨s, s', hexec, hclosed, hserved⟩ := hrun
  have hreach := reaches_of_exec hexec
  exact ⟨s, s', hreach, hserved, drains reference_documented hreach hclosed hserved⟩

end Server

end Assignment.Socket
