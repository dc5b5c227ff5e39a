import Assignment.Lib.Blocks
import Assignment.Reference
import Assignment.Socket.Accept

/-!
# Connections and handlers

Handler `i` is created for the `i`-th accepted connection, but reads the
cell that every `accept` overwrites: it receives from its own connection
exactly as long as no later one has been accepted. In the runs where every
`recv` is made that early (`Early`) the connections stay apart
(`Separated`), and the first `recv` that is not breaks this for good.
-/

namespace Assignment.Socket

open Blocks Runs

/-- A handler that will call `recv` again. -/
def Pc.reads : Pc → Bool
  | .lock | .peek | .body _ => true
  | .unlock | .returned => false

namespace Server

/-- The bytes that were taken off connection `j`, in order. -/
def consumed (log : List Event) (j : Nat) : Bytes :=
  (log.filter fun e => e.connection = j).flatMap Event.consumed

/-- Connection `i` has been read to its end, by handler `i` and no other. -/
def Drained (s : Server) (i : Nat) : Prop :=
  (∃ p, s.peers[i]? = some p ∧ p.connection = ⟨[], true⟩ ∧ consumed s.log i = p.sent)
    ∧ ∀ k, (∃ e ∈ s.log, e.connection = i ∧ e.handler = k) ↔ k = i

/-- The connections do not mix: every `recv` of a handler is on its own one,
what is read and printed comes in blocks of one connection each, and a
handler that has returned has drained its connection alone. -/
structure Separated (s : Server) : Prop where
  own : ∀ e ∈ s.log, e.connection = e.handler
  inBlocks : InBlocks Event.connection s.log
  drained : ∀ i h, s.handlers[i]? = some h → h.pc = .returned → Drained s i

/-- A handler calls `recv` only while its connection is the latest one. -/
def Early (a : Action) (s : Server) : Prop :=
  match a with
  | .recv i _ _ => s.accepted = i + 1
  | _ => True

instance (a : Action) (s : Server) : Decidable (Early a s) := by
  unfold Early
  split <;> infer_instance

variable {rt : Runtime} {s s' : Server} {a : Action}

/-! ## The invariant of early runs -/

/-- What carries `Separated` from state to state. -/
structure Apart (s : Server) : Prop where
  consistent : Consistent s
  own : ∀ e ∈ s.log, e.connection = e.handler ∧ e.connection < s.accepted
  sorted : s.log = blocks Event.connection (List.range s.accepted) s.log
  sent : ∀ (j : Nat) (p : Peer), s.peers[j]? = some p →
    p.sent = consumed s.log j ++ p.connection.unread
  ended : ∀ i h, s.handlers[i]? = some h → h.pc.reads = false →
    (∃ e ∈ s.log, e.handler = i) ∧ ∃ p, s.peers[i]? = some p ∧ p.connection = ⟨[], true⟩

namespace Apart

theorem start (limit : Nat) : Apart (listening limit) where
  consistent := .start limit
  own := by simp [listening]
  sorted := rfl
  sent := by simp [listening]
  ended := by simp [listening]

theorem drained (ha : Apart s) {i : Nat} {h : Handler} (hh : s.handlers[i]? = some h)
    (hpc : h.pc = .returned) : Drained s i := by
  obtain ⟨⟨e, he, hei⟩, p, hp, hconn⟩ := ha.ended i h hh (by rw [hpc]; rfl)
  refine ⟨⟨p, hp, hconn, ?_⟩, fun k => ⟨?_, ?_⟩⟩
  · have hsent := ha.sent i p hp
    rw [hconn, List.append_nil] at hsent
    exact hsent.symm
  · rintro ⟨e, he, rfl, rfl⟩
    exact ((ha.own e he).1).symm
  · rintro rfl
    exact ⟨e, he, (ha.own e he).1.trans hei, hei⟩

theorem separated (ha : Apart s) : Separated s where
  own e he := (ha.own e he).1
  inBlocks := ⟨List.range s.accepted, List.nodup_range, ha.sorted⟩
  drained _ _ hh hpc := ha.drained hh hpc

/-! ### One step -/

theorem consumed_snoc_eq {log : List Event} {e : Event} {j : Nat} (h : e.connection = j) :
    consumed (log ++ [e]) j = consumed log j ++ e.consumed := by
  simp [consumed, List.filter_append, h]

theorem consumed_snoc_ne {log : List Event} {e : Event} {j : Nat} (h : e.connection ≠ j) :
    consumed (log ++ [e]) j = consumed log j := by
  simp [consumed, List.filter_append, h]

theorem consumed_none {log : List Event} {j : Nat} (h : ∀ e ∈ log, e.connection ≠ j) :
    consumed log j = [] := by
  have hnone : log.filter (fun e => e.connection = j) = [] := by
    simpa [List.filter_eq_nil_iff] using h
  rw [consumed, hnone, List.flatMap_nil]

/-- A handler stops reading only after a peek at the end of its stream. -/
theorem onRecv_ends {h : Handler} {flag : RecvFlag} {len : Nat} {stack : Nat → UInt8}
    {r : RecvResult} (hreq : h.pc.request = some (flag, len))
    (hends : (h.onRecv rt stack r).pc.reads = false) :
    flag = .peek ∧ len = 4 ∧ r = .received [] := by
  cases hpc : h.pc with
  | peek =>
      simp only [hpc, Pc.request, Option.some.injEq, Prod.mk.injEq] at hreq
      by_cases hr : r = .received []
      · exact ⟨hreq.1.symm, hreq.2.symm, hr⟩
      · simp [Handler.onRecv, hpc, hr, Pc.reads] at hends
  | body siz => simp [Handler.onRecv, hpc, Pc.reads] at hends
  | _ => simp [hpc, Pc.request] at hreq

/-- An early `recv` of handler `i`. -/
theorem recv (ha : Apart s) {i : Nat} {h : Handler} {p : Peer} {choice : Choice}
    {flag : RecvFlag} {len : Nat} {r : RecvResult} {c : Connection} (stack : Nat → UInt8)
    (hi : s.accepted = i + 1) (hconsistent : Consistent (s.receive rt i i h p stack r c))
    (hh : s.handlers[i]? = some h) (hreq : h.pc.request = some (flag, len))
    (hp : s.peers[i]? = some p) (hrecv : p.connection.recv choice flag len = some (r, c)) :
    Apart (s.receive rt i i h p stack r c) := by
  obtain ⟨hilt, -⟩ := List.getElem?_eq_some_iff.mp hh
  obtain ⟨hplt, -⟩ := List.getElem?_eq_some_iff.mp hp
  obtain ⟨n, hdrop⟩ := Connection.recv_takes hrecv
  have hunread := event_consumed rt i i h p stack r c hdrop
  refine ⟨hconsistent, ?_, ?_, ?_, ?_⟩
  · intro e he
    rcases List.mem_append.mp he with he | he
    · exact ha.own e he
    · rw [List.mem_singleton.mp he]
      exact ⟨rfl, by simp [receive, hi]⟩
  · -- the latest connection is the last block, and the entry extends it
    have hsorted := ha.sorted
    simp only [receive, hi, List.range_succ] at hsorted ⊢
    rw [blocks_snoc (event_connection rt i i h p stack r c) (by simp), ← hsorted]
  · intro j q hq
    simp only [receive] at hq ⊢
    by_cases hj : i = j
    · subst hj
      rw [List.getElem?_set_self hplt, Option.some.injEq] at hq
      subst hq
      rw [consumed_snoc_eq (event_connection rt i i h p stack r c), List.append_assoc]
      simp only [Peer.after, hunread]
      exact ha.sent i p hp
    · rw [List.getElem?_set_ne hj] at hq
      rw [consumed_snoc_ne (by rwa [event_connection])]
      exact ha.sent j q hq
  · intro k h' hh' hends
    by_cases hk : i = k
    · subst hk
      simp only [receive, List.getElem?_set_self hilt, Option.some.injEq] at hh'
      subst hh'
      obtain ⟨rfl, rfl, rfl⟩ := onRecv_ends hreq hends
      obtain ⟨hnil, hc⟩ := Connection.peek_end (by omega) hrecv
      refine ⟨⟨event rt i i h p stack (.received []) c, by simp [receive], rfl⟩,
        p.after c, by simp [receive, hplt], ?_⟩
      cases c
      simp_all [Peer.after]
    · simp only [receive, List.getElem?_set_ne hk] at hh' ⊢
      obtain ⟨⟨e, he, hek⟩, q, hq, hconn⟩ := ha.ended k h' hh' hends
      exact ⟨⟨e, List.mem_append_left _ he, hek⟩, q, hq, hconn⟩

/-- A client that sends or closes changes nothing for the others. -/
theorem set_peer (ha : Apart s) {i : Nat} {p q : Peer} (hp : s.peers[i]? = some p)
    (hconsistent : Consistent { s with peers := s.peers.set i q })
    (hsent : q.sent = consumed s.log i ++ q.connection.unread)
    (hended : p.connection = ⟨[], true⟩ → q.connection = ⟨[], true⟩) :
    Apart { s with peers := s.peers.set i q } := by
  obtain ⟨hi, -⟩ := List.getElem?_eq_some_iff.mp hp
  refine ⟨hconsistent, ha.own, ha.sorted, ?_, ?_⟩
  · intro j r hr
    by_cases hj : i = j
    · subst hj
      simp only [List.getElem?_set_self hi, Option.some.injEq] at hr
      rw [← hr, hsent]
    · simp only [List.getElem?_set_ne hj] at hr
      exact ha.sent j r hr
  · intro k h hh hends
    obtain ⟨he, r, hr, hconn⟩ := ha.ended k h hh hends
    by_cases hk : i = k
    · subst hk
      rw [hp, Option.some.injEq] at hr
      rw [← hr] at hconn
      exact ⟨he, q, List.getElem?_set_self hi, hended hconn⟩
    · exact ⟨he, r, by simpa only [List.getElem?_set_ne hk] using hr, hconn⟩

/-- Taking and releasing the lock ends no handler's reading. -/
theorem set_thread (ha : Apart s) {i : Nat} {h h' : Handler} (hh : s.handlers[i]? = some h)
    (hreads : h'.pc.reads = false → h.pc.reads = false) :
    ∀ k g, (s.handlers.set i h')[k]? = some g → g.pc.reads = false →
      (∃ e ∈ s.log, e.handler = k) ∧ ∃ p, s.peers[k]? = some p ∧ p.connection = ⟨[], true⟩ := by
  intro k g hg hends
  by_cases hk : i = k
  · subst hk
    obtain ⟨hi, -⟩ := List.getElem?_eq_some_iff.mp hh
    rw [List.getElem?_set_self hi, Option.some.injEq] at hg
    rw [← hg] at hends
    exact ha.ended i h hh (hreads hends)
  · rw [List.getElem?_set_ne hk] at hg
    exact ha.ended k g hg hends

/-- **One early step keeps the connections apart.** -/
theorem moves (ha : Apart s) (hearly : Early a s) (hm : Moves rt s a s') : Apart s' := by
  have hc := ha.consistent.moves hm
  cases hm with
  | connect =>
      refine ⟨hc, ha.own, ha.sorted, ?_, ?_⟩
      · intro j p hp
        by_cases hj : j < s.peers.length
        · rw [List.getElem?_append_left hj] at hp
          exact ha.sent j p hp
        · -- nothing was received yet from the new connection
          have hnone : ∀ e ∈ s.log, e.connection ≠ j := by
            intro e he
            have := (ha.own e he).2
            have := ha.consistent.connected
            omega
          rw [List.getElem?_append_right (by omega), List.getElem?_singleton] at hp
          obtain ⟨-, hp⟩ := Option.ite_none_right_eq_some.mp hp
          cases hp
          simp [Peer.connected, consumed_none hnone]
      · intro k h hh hends
        obtain ⟨he, p, hp, hconn⟩ := ha.ended k h hh hends
        obtain ⟨hk, -⟩ := List.getElem?_eq_some_iff.mp hp
        exact ⟨he, p, (List.getElem?_append_left hk).trans hp, hconn⟩
  | @send i p bytes hp hopen =>
      apply ha.set_peer hp hc
      · simp only [Peer.send, ha.sent i p hp, List.append_assoc]
      · intro hconn
        rw [hconn] at hopen
        cases hopen
  | @close i p hp =>
      apply ha.set_peer hp hc
      · exact ha.sent i p hp
      · intro hconn
        simp [Peer.close, hconn]
  | accept hmain hlt hfree =>
      refine ⟨hc, fun e he => ⟨(ha.own e he).1, Nat.lt_succ_of_lt (ha.own e he).2⟩, ?_,
        ha.sent, ha.ended⟩
      have hunused : ∀ e ∈ s.log, e.connection ≠ s.accepted :=
        fun e he => Nat.ne_of_lt (ha.own e he).2
      simp only [List.range_succ]
      rw [blocks_unused hunused]
      exact ha.sorted
  | exit => exact ⟨hc, ha.own, ha.sorted, ha.sent, ha.ended⟩
  | create hmain =>
      refine ⟨hc, ha.own, ha.sorted, ha.sent, ?_⟩
      intro k h hh hends
      by_cases hk : k < s.handlers.length
      · simp only [List.getElem?_append_left hk] at hh
        exact ha.ended k h hh hends
      · simp only [List.getElem?_append_right (Nat.le_of_not_lt hk), List.getElem?_singleton] at hh
        obtain ⟨-, hh⟩ := Option.ite_none_right_eq_some.mp hh
        cases hh
        cases hends
  | acquire hrun hh =>
      exact ⟨hc, ha.own, ha.sorted, ha.sent, ha.set_thread hh fun hends => by cases hends⟩
  | @recv i j h p choice flag len r c stack hrun hh hreq hj hp hrecv =>
      -- being early, the handler finds its own descriptor in the cell
      have hown : s.csock = some i := ha.consistent.csock hrun hearly
      rw [hj, Option.some.injEq] at hown
      subst hown
      exact ha.recv stack hearly hc hh hreq hp hrecv
  | unlock hrun hh hpc =>
      exact ⟨hc, ha.own, ha.sorted, ha.sent, ha.set_thread hh fun _ => by rw [hpc]; rfl⟩

end Apart

/-! ## Every interleaving -/

/-- A `recv` that is not early goes to the wrong connection. -/
theorem late_recv (hc : Consistent s) (hlate : ¬ Early a s) (hm : Moves rt s a s') :
    ¬ Separated s' := by
  intro hsep
  cases hm with
  | @recv i j h p choice flag len r c stack hrun hh hreq hj hp hrecv =>
      have hown := hsep.own (event rt i j h p stack r c) (by simp [receive])
      simp only [event_connection, event_handler] at hown
      obtain ⟨k, hk, -, hcsock⟩ := hc.csock_of_handler hrun hh
      rw [hcsock, Option.some.injEq] at hj
      exact hlate (by rw [Early, hk, hj, hown])
  | _ => exact hlate trivial

/-- **When connections stay apart, exactly**: in every interleaving whose
`recv`s are all made while the handler's own connection is the latest one
accepted, every state is separated; and in whatever interleaving, the state
after a `recv` made later than that is not. -/
theorem separated_iff_early (rt : Runtime) (limit : Nat) :
    (∀ s, Reaches (step rt) Early (listening limit) s → Separated s)
      ∧ ∀ s a s', Reaches (step rt) anyStep (listening limit) s → step rt a s = some s' →
          ¬ Early a s → ¬ Separated s' := by
  constructor
  · intro s h
    have ha := h.invariant Apart (.start limit) fun a s s' ha hearly hstep =>
      ha.moves hearly (moves_of_step hstep)
    exact ha.separated
  · intro s a s' h hstep hlate
    exact late_recv (.reaches h) hlate (moves_of_step hstep)

/-- Two clients one after the other, up to the return of the second
handler. -/
def inTurn : List Action :=
  [.connect, .accept, .create, .acquire 0, .send 0 [0, 0, 0, 0], .recv 0 (.sees 3) fun _ => 0,
    .recv 0 (.sees 0) fun _ => 0, .close 0, .recv 0 (.sees 3) fun _ => 0, .unlock 0,
    .connect, .accept, .create, .acquire 1, .close 1, .recv 1 (.sees 3) fun _ => 0, .unlock 1]

theorem separated_inTurn : ∃ s, Reaches (step reference) Early (listening 16) s
    ∧ s.handlers.map Handler.pc = [.returned, .returned] ∧ Separated s := by
  have hrun : ∃ s, exec (step reference) Early inTurn (listening 16) = some s
      ∧ s.handlers.map Handler.pc = [.returned, .returned] :=
    ⟨_, rfl, by decide +kernel⟩
  obtain ⟨s, hexec, hpcs⟩ := hrun
  have hreach := reaches_of_exec hexec
  exact ⟨s, hreach, hpcs, (separated_iff_early reference 16).1 s hreach⟩

/-- Two clients; the second is accepted before the handler of the first has
taken the lock. -/
def twoClients : List Action :=
  [.connect, .connect, .send 1 [1, 2], .accept, .create, .accept, .create, .acquire 0,
    .recv 0 (.sees 3) fun _ => 0]

theorem not_separated : ¬ ∀ s, Reaches (step reference) anyStep (listening 16) s → Separated s := by
  intro h
  have hrun : ∃ s, exec (step reference) anyStep twoClients (listening 16) = some s
      ∧ ∃ e ∈ s.log, e.connection ≠ e.handler :=
    ⟨_, rfl, by decide +kernel⟩
  obtain ⟨s, hexec, e, he, hne⟩ := hrun
  exact hne ((h s (reaches_of_exec hexec)).own e he)

end Server

end Assignment.Socket
