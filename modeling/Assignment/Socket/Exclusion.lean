import Assignment.Socket.Separation

/-!
# The mutex (Server.cpp)

What the one `lock` does for the handlers, in every interleaving and with
any number of clients. One handler at a time is between its lock and its
unlock, so that the server holds one conversation after the other
(`conversations`), whichever connection a handler reads from. A handler
unlocks only at the end of a closed connection, so that a single client
that stays connected keeps all other handlers from their first `recv`
(`one_conversation`).
-/

namespace Assignment.Socket

open Blocks Runs

/-- Between `pthread_mutex_lock` and `pthread_mutex_unlock`. -/
def Pc.critical : Pc → Bool
  | .peek | .body _ | .unlock => true
  | .lock | .returned => false

/-- A handler that is about to call `recv` is inside. -/
theorem Pc.critical_of_request {pc : Pc} {flag : RecvFlag} {len : Nat}
    (h : pc.request = some (flag, len)) : pc.critical = true := by
  cases pc with
  | peek => rfl
  | body siz => rfl
  | _ => cases h

namespace Server

variable {rt : Runtime} {s s' : Server} {a : Action} {limit : Nat}

/-- A `recv` leaves its handler inside, with nothing unlocked. -/
theorem onRecv_critical {h : Handler} {flag : RecvFlag} {len : Nat} {stack : Nat → UInt8}
    {r : RecvResult} (hreq : h.pc.request = some (flag, len)) :
    (h.onRecv rt stack r).pc.critical = true ∧ (h.onRecv rt stack r).unlocks = h.unlocks := by
  cases hpc : h.pc with
  | peek =>
      by_cases hr : r = .received []
      · simp [Handler.onRecv, hpc, hr, Pc.critical]
      · simp [Handler.onRecv, hpc, hr, Pc.critical]
  | body siz => simp [Handler.onRecv, hpc, Pc.critical]
  | _ => simp [hpc, Pc.request] at hreq

/-! ## One handler at a time -/

/-- The mutex is held by the handler that is inside, and has been unlocked
once by every handler that has returned. -/
structure Exclusive (s : Server) : Prop where
  holder : ∀ (i : Nat) (h : Handler), s.handlers[i]? = some h →
    (h.pc.critical = true ↔ s.lock = some i)
  thread : ∀ i, s.lock = some i → i < s.handlers.length
  unlocks : ∀ (i : Nat) (h : Handler), s.handlers[i]? = some h →
    h.unlocks = if h.pc = .returned then 1 else 0

namespace Exclusive

theorem start (limit : Nat) : Exclusive (listening limit) where
  holder := by simp [listening]
  thread := by simp [listening]
  unlocks := by simp [listening]

/-- The handler at work is the one that holds the lock. -/
theorem lock_of_request (he : Exclusive s) {i : Nat} {h : Handler} {flag : RecvFlag} {len : Nat}
    (hh : s.handlers[i]? = some h) (hreq : h.pc.request = some (flag, len)) : s.lock = some i :=
  (he.holder i h hh).mp (Pc.critical_of_request hreq)

/-- Nobody is inside while the lock is free. -/
theorem not_critical (he : Exclusive s) (hfree : s.lock = none) {i : Nat} {h : Handler}
    (hh : s.handlers[i]? = some h) : h.pc.critical = false := by
  have hiff := he.holder i h hh
  rw [hfree] at hiff
  simpa using hiff

/-- One handler goes on, and takes, keeps or releases the lock. -/
theorem set (he : Exclusive s) {i : Nat} {h h' : Handler} (lock : Option Nat)
    (hh : s.handlers[i]? = some h) (hlock : h'.pc.critical = true ↔ lock = some i)
    (hothers : ∀ j, j ≠ i → (lock = some j ↔ s.lock = some j))
    (hunlocks : h'.unlocks = if h'.pc = .returned then 1 else 0) :
    Exclusive { s with handlers := s.handlers.set i h', lock := lock } := by
  obtain ⟨hi, -⟩ := List.getElem?_eq_some_iff.mp hh
  refine ⟨?_, ?_, ?_⟩
  · intro j g hg
    by_cases hj : i = j
    · subst hj
      simp only [List.getElem?_set_self hi, Option.some.injEq] at hg
      rw [← hg]
      exact hlock
    · simp only [List.getElem?_set_ne hj] at hg
      rw [he.holder j g hg]
      exact (hothers j (Ne.symm hj)).symm
  · intro j hj
    rw [List.length_set]
    by_cases heq : j = i
    · omega
    · exact he.thread j ((hothers j heq).mp hj)
  · intro j g hg
    by_cases hj : i = j
    · subst hj
      simp only [List.getElem?_set_self hi, Option.some.injEq] at hg
      rw [← hg]
      exact hunlocks
    · simp only [List.getElem?_set_ne hj] at hg
      exact he.unlocks j g hg

theorem moves (he : Exclusive s) (hm : Moves rt s a s') : Exclusive s' := by
  cases hm with
  | connect => exact ⟨he.holder, he.thread, he.unlocks⟩
  | send bytes hp hopen => exact ⟨he.holder, he.thread, he.unlocks⟩
  | close hp => exact ⟨he.holder, he.thread, he.unlocks⟩
  | accept hmain hlt hfree => exact ⟨he.holder, he.thread, he.unlocks⟩
  | exit hmain hfull => exact ⟨he.holder, he.thread, he.unlocks⟩
  | create hmain =>
      refine ⟨?_, ?_, ?_⟩
      · intro j g hg
        by_cases hj : j < s.handlers.length
        · rw [List.getElem?_append_left hj] at hg
          exact he.holder j g hg
        · -- the new thread is not inside, and the holder is an older one
          rw [List.getElem?_append_right (by omega), List.getElem?_singleton] at hg
          obtain ⟨-, hg⟩ := Option.ite_none_right_eq_some.mp hg
          cases hg
          constructor
          · intro h
            cases h
          · intro h
            exact absurd (he.thread j h) hj
      · intro j hj
        have hlt := he.thread j hj
        simp only [List.length_append, List.length_singleton]
        omega
      · intro j g hg
        by_cases hj : j < s.handlers.length
        · rw [List.getElem?_append_left hj] at hg
          exact he.unlocks j g hg
        · rw [List.getElem?_append_right (by omega), List.getElem?_singleton] at hg
          obtain ⟨-, hg⟩ := Option.ite_none_right_eq_some.mp hg
          cases hg
          rfl
  | @acquire i h hrun hh hpc hfree =>
      refine he.set _ hh (by simp [Handler.locked, Pc.critical]) ?_ ?_
      · intro j hj
        simp [hfree, Ne.symm hj]
      · have hu := he.unlocks i h hh
        rw [hpc] at hu
        exact hu
  | @recv i j h p choice flag len r c stack hrun hh hreq hj hp hrecv =>
      have hlock := he.lock_of_request hh hreq
      obtain ⟨hin, hsame⟩ := @onRecv_critical rt h flag len stack r hreq
      have hu := he.unlocks i h hh
      have hout : ∀ {g : Handler}, g.pc.critical = true → g.pc ≠ .returned := by
        intro g hg hret
        rw [hret] at hg
        cases hg
      have hset := he.set s.lock hh (by simp [hin, hlock]) (fun _ _ => Iff.rfl)
        (show (h.onRecv rt stack r).unlocks = _ by
          rw [if_neg (hout hin), hsame, hu, if_neg (hout (Pc.critical_of_request hreq))])
      exact ⟨hset.holder, hset.thread, hset.unlocks⟩
  | @unlock i h hrun hh hpc =>
      have hlock := (he.holder i h hh).mp (by rw [hpc]; rfl)
      refine he.set _ hh (by simp [Handler.unlocked, Pc.critical]) ?_ ?_
      · intro j hj
        simp [hlock, Ne.symm hj]
      · have hu := he.unlocks i h hh
        rw [hpc] at hu
        simp only [Handler.unlocked, if_true, hu]
        rfl

theorem reaches {ok : Action → Server → Prop}
    (h : Reaches (step rt) ok (listening limit) s) : Exclusive s :=
  h.invariant Exclusive (start limit) fun _ _ _ he _ hstep => he.moves (moves_of_step hstep)

end Exclusive

/-! ## One conversation after the other -/

/-- The order in which the handlers have taken the lock; the one that holds
it is the last. -/
structure Ordered (s : Server) (order : List Nat) : Prop where
  exclusive : Exclusive s
  nodup : order.Nodup
  log : s.log = blocks Event.handler order s.log
  began : ∀ i ∈ order, ∃ h, s.handlers[i]? = some h ∧ h.pc ≠ .lock
  latest : ∀ i, s.lock = some i → ∃ front, order = front ++ [i]

namespace Ordered

variable {order : List Nat}

theorem start (limit : Nat) : Ordered (listening limit) [] where
  exclusive := .start limit
  nodup := List.nodup_nil
  log := rfl
  began := by simp
  latest := by simp [listening]

/-- A handler that goes on has still begun. -/
theorem began_set (ho : Ordered s order) {i : Nat} {h h' : Handler}
    (hh : s.handlers[i]? = some h) (hpc : h'.pc ≠ .lock) :
    ∀ j ∈ order, ∃ g, (s.handlers.set i h')[j]? = some g ∧ g.pc ≠ .lock := by
  intro j hj
  by_cases hji : i = j
  · subst hji
    obtain ⟨hi, -⟩ := List.getElem?_eq_some_iff.mp hh
    exact ⟨h', List.getElem?_set_self hi, hpc⟩
  · rw [List.getElem?_set_ne hji]
    exact ho.began j hj

theorem moves (ho : Ordered s order) (hm : Moves rt s a s') : ∃ order', Ordered s' order' := by
  have he := ho.exclusive.moves hm
  cases hm with
  | connect => exact ⟨order, he, ho.nodup, ho.log, ho.began, ho.latest⟩
  | send bytes hp hopen => exact ⟨order, he, ho.nodup, ho.log, ho.began, ho.latest⟩
  | close hp => exact ⟨order, he, ho.nodup, ho.log, ho.began, ho.latest⟩
  | accept hmain hlt hfree => exact ⟨order, he, ho.nodup, ho.log, ho.began, ho.latest⟩
  | exit hmain hfull => exact ⟨order, he, ho.nodup, ho.log, ho.began, ho.latest⟩
  | create hmain =>
      refine ⟨order, he, ho.nodup, ho.log, ?_, ho.latest⟩
      intro i hi
      obtain ⟨h, hh, hpc⟩ := ho.began i hi
      obtain ⟨hlt, -⟩ := List.getElem?_eq_some_iff.mp hh
      exact ⟨h, (List.getElem?_append_left hlt).trans hh, hpc⟩
  | @acquire i h hrun hh hpc hfree =>
      -- a handler before its lock has not begun, and has no entries
      have hnew : i ∉ order := by
        intro hi
        obtain ⟨g, hg, hne⟩ := ho.began i hi
        rw [hh, Option.some.injEq] at hg
        exact hne (hg ▸ hpc)
      have hnone : ∀ e ∈ s.log, e.handler ≠ i := by
        rintro e hmem rfl
        rw [ho.log] at hmem
        exact hnew (key_mem_of_mem_blocks hmem)
      obtain ⟨hi, -⟩ := List.getElem?_eq_some_iff.mp hh
      have hinside : h.locked.pc ≠ .lock := by simp [Handler.locked]
      refine ⟨order ++ [i], he, ?_, ?_, ?_, ?_⟩
      · rw [← List.concat_eq_append, List.nodup_concat]
        exact ⟨hnew, ho.nodup⟩
      · rw [blocks_unused hnone]
        exact ho.log
      · refine List.forall_mem_append.mpr ⟨ho.began_set hh hinside, ?_⟩
        exact List.forall_mem_singleton.mpr ⟨_, List.getElem?_set_self hi, hinside⟩
      · intro j hj
        cases hj
        exact ⟨order, rfl⟩
  | @recv i j h p choice flag len r c stack hrun hh hreq hj hp hrecv =>
      -- the holder's block is the last one, and the entry extends it
      obtain ⟨front, rfl⟩ := ho.latest i (ho.exclusive.lock_of_request hh hreq)
      have hinside : (h.onRecv rt stack r).pc ≠ .lock := by
        intro hlock
        have hin := (@onRecv_critical rt h flag len stack r hreq).1
        rw [hlock] at hin
        cases hin
      have hfront : i ∉ front := by
        have hnodup := ho.nodup
        rw [← List.concat_eq_append, List.nodup_concat] at hnodup
        exact hnodup.1
      refine ⟨front ++ [i], he, ho.nodup, ?_, ho.began_set hh hinside, ho.latest⟩
      simp only [receive]
      rw [blocks_snoc (event_handler rt i j h p stack r c) hfront, ← ho.log]
  | @unlock i h hrun hh hpc =>
      refine ⟨order, he, ho.nodup, ho.log, ho.began_set hh (by simp [Handler.unlocked]), ?_⟩
      intro j hj
      cases hj

theorem reaches {ok : Action → Server → Prop} (h : Reaches (step rt) ok (listening limit) s) :
    ∃ order, Ordered s order :=
  h.invariant (fun s => ∃ order, Ordered s order) ⟨[], start limit⟩
    fun _ _ _ ⟨_, ho⟩ _ hstep => ho.moves (moves_of_step hstep)

end Ordered

/-- **One conversation after the other**: in every interleaving at most one
handler is inside, each unlocks at most once, and what was received and
printed comes in blocks of one handler each. -/
theorem conversations (h : Reaches (step rt) anyStep (listening limit) s) :
    (∀ (i j : Nat) (g g' : Handler), s.handlers[i]? = some g → s.handlers[j]? = some g' →
        g.pc.critical = true → g'.pc.critical = true → i = j)
      ∧ (∀ g ∈ s.handlers, g.unlocks ≤ 1) ∧ InBlocks Event.handler s.log := by
  have he := Exclusive.reaches h
  obtain ⟨order, ho⟩ := Ordered.reaches h
  refine ⟨?_, ?_, order, ho.nodup, ho.log⟩
  · intro i j g g' hg hg' hin hin'
    have hi := (he.holder i g hg).mp hin
    have hj := (he.holder j g' hg').mp hin'
    exact Option.some.inj (hi.symm.trans hj)
  · intro g hg
    obtain ⟨i, hi⟩ := List.getElem?_of_mem hg
    rw [he.unlocks i g hi]
    split <;> omega

/-- Two clients one after the other, each read to its end. -/
theorem conversations_inTurn : ∃ s, Reaches (step reference) anyStep (listening 16) s
    ∧ s.log.map Event.handler = [0, 0, 0, 1]
    ∧ (∀ (i j : Nat) (g g' : Handler), s.handlers[i]? = some g → s.handlers[j]? = some g' →
        g.pc.critical = true → g'.pc.critical = true → i = j)
    ∧ (∀ g ∈ s.handlers, g.unlocks ≤ 1) ∧ InBlocks Event.handler s.log := by
  have hrun : ∃ s, exec (step reference) anyStep inTurn (listening 16) = some s
      ∧ s.log.map Event.handler = [0, 0, 0, 1] :=
    ⟨_, rfl, by decide +kernel⟩
  obtain ⟨s, hexec, hlog⟩ := hrun
  have hreach := reaches_of_exec hexec
  exact ⟨s, hreach, hlog, conversations hreach⟩

/-! ## A client that stays connected -/

/-- Some connection is closed and read to its end. -/
def Ended (s : Server) : Prop := ∃ p ∈ s.peers, p.connection = ⟨[], true⟩

/-- Only the handler that holds the lock has done anything. -/
structure Alone (s : Server) : Prop where
  waiting : ∀ (i : Nat) (h : Handler), s.handlers[i]? = some h → s.lock ≠ some i →
    h = Handler.created
  log : ∀ e ∈ s.log, s.lock = some e.handler
  reads : ∀ h ∈ s.handlers, h.pc.reads = true

theorem Ended.set {i : Nat} {p q : Peer} (he : Ended s) (hp : s.peers[i]? = some p)
    (hq : p.connection = ⟨[], true⟩ → q.connection = ⟨[], true⟩) :
    ∃ r ∈ s.peers.set i q, r.connection = ⟨[], true⟩ := by
  obtain ⟨r, hr, hconn⟩ := he
  obtain ⟨j, hj⟩ := List.getElem?_of_mem hr
  obtain ⟨hi, -⟩ := List.getElem?_eq_some_iff.mp hp
  by_cases hij : i = j
  · subst hij
    rw [hp, Option.some.injEq] at hj
    rw [← hj] at hconn
    exact ⟨q, List.mem_set hi q, hq hconn⟩
  · exact ⟨r, List.mem_of_getElem? ((List.getElem?_set_ne hij).trans hj), hconn⟩

/-- A connection that has ended stays so. -/
theorem Ended.moves (he : Ended s) (hm : Moves rt s a s') : Ended s' := by
  cases hm with
  | connect =>
      obtain ⟨p, hp, hconn⟩ := he
      exact ⟨p, List.mem_append_left _ hp, hconn⟩
  | send bytes hp hopen =>
      refine he.set hp fun hconn => ?_
      rw [hconn] at hopen
      cases hopen
  | close hp => exact he.set hp fun hconn => by simp [Peer.close, hconn]
  | @recv i j h p choice flag len r c stack hrun hh hreq hj hp hrecv =>
      refine he.set hp fun hconn => ?_
      obtain ⟨n, hdrop⟩ := Connection.recv_takes hrecv
      have hclosed := Connection.recv_closed hrecv
      rw [hconn] at hdrop hclosed
      cases c
      simp_all [Peer.after]
  | accept hmain hlt hfree => exact he
  | exit hmain hfull => exact he
  | create hmain => exact he
  | acquire hrun hh hpc hfree => exact he
  | unlock hrun hh hpc => exact he

namespace Alone

theorem start (limit : Nat) : Alone (listening limit) where
  waiting := by simp [listening]
  log := by simp [listening]
  reads := by simp [listening]

/-- A handler that has begun holds the lock. -/
theorem lock_of_begun (ha : Alone s) {i : Nat} {h : Handler} (hh : s.handlers[i]? = some h)
    (hpc : h.pc ≠ .lock) : s.lock = some i := by
  by_contra hne
  rw [ha.waiting i h hh hne] at hpc
  exact hpc rfl

/-- The one handler goes on. -/
theorem set (ha : Alone s) {i : Nat} {h' : Handler} (hreads : h'.pc.reads = true)
    (hlock : s.lock = none ∨ s.lock = some i) :
    Alone { s with handlers := s.handlers.set i h', lock := some i } := by
  refine ⟨?_, ?_, ?_⟩
  · intro j g hg hj
    have hij : i ≠ j := fun heq => hj (congrArg some heq)
    simp only [List.getElem?_set_ne hij] at hg
    refine ha.waiting j g hg ?_
    rcases hlock with hnone | hsome
    · simp [hnone]
    · simpa [hsome] using hij
  · intro e he
    have hold := ha.log e he
    rcases hlock with hnone | hsome
    · simp [hnone] at hold
    · exact hsome.symm.trans hold
  · intro g hg
    rcases List.mem_or_eq_of_mem_set hg with hg | rfl
    · exact ha.reads g hg
    · exact hreads

/-- One step, unless it reads a connection to its end. -/
theorem moves (ha : Alone s) (hm : Moves rt s a s') : Ended s' ∨ Alone s' := by
  cases hm with
  | connect => exact .inr ⟨ha.waiting, ha.log, ha.reads⟩
  | send bytes hp hopen => exact .inr ⟨ha.waiting, ha.log, ha.reads⟩
  | close hp => exact .inr ⟨ha.waiting, ha.log, ha.reads⟩
  | accept hmain hlt hfree => exact .inr ⟨ha.waiting, ha.log, ha.reads⟩
  | exit hmain hfull => exact .inr ⟨ha.waiting, ha.log, ha.reads⟩
  | create hmain =>
      refine .inr ⟨?_, ha.log, ?_⟩
      · intro j g hg hj
        by_cases hlt : j < s.handlers.length
        · rw [List.getElem?_append_left hlt] at hg
          exact ha.waiting j g hg hj
        · rw [List.getElem?_append_right (by omega), List.getElem?_singleton] at hg
          obtain ⟨-, hg⟩ := Option.ite_none_right_eq_some.mp hg
          exact (Option.some.inj hg).symm
      · intro g hg
        rcases List.mem_append.mp hg with hg | hg
        · exact ha.reads g hg
        · rw [List.mem_singleton.mp hg]
          rfl
  | acquire hrun hh hpc hfree => exact .inr (ha.set rfl (.inl hfree))
  | @recv i j h p choice flag len r c stack hrun hh hreq hj hp hrecv =>
      obtain ⟨hplt, -⟩ := List.getElem?_eq_some_iff.mp hp
      have hlock : s.lock = some i := by
        refine ha.lock_of_begun hh fun hpc => ?_
        simp [hpc, Pc.request] at hreq
      cases hends : (h.onRecv rt stack r).pc.reads with
      | false =>
          -- the peek has seen the end of the connection
          obtain ⟨rfl, rfl, rfl⟩ := Apart.onRecv_ends hreq hends
          obtain ⟨hnil, hclosed⟩ := Connection.peek_end (by omega) hrecv
          refine .inl ⟨p.after c, List.mem_set hplt _, ?_⟩
          cases c
          simp_all [Peer.after]
      | true =>
          have hset := ha.set hends (.inr hlock)
          refine .inr ⟨?_, ?_, hset.reads⟩
          · intro k g hg hk
            exact hset.waiting k g hg (by simpa [receive, hlock] using hk)
          · intro e he
            rcases List.mem_append.mp he with he | he
            · exact ha.log e he
            · rw [List.mem_singleton.mp he]
              exact hlock
  | @unlock i h hrun hh hpc =>
      have hreads := ha.reads h (List.mem_of_getElem? hh)
      rw [hpc] at hreads
      cases hreads

end Alone

/-- **One conversation**: as long as no connection has been closed and read
to its end, all that was received and printed is the work of the handler
that holds the lock, and every other one waits for it. -/
theorem one_conversation (h : Reaches (step rt) anyStep (listening limit) s)
    (hopen : ∀ p ∈ s.peers, p.connection ≠ ⟨[], true⟩) :
    (∀ (i : Nat) (g : Handler), s.handlers[i]? = some g → s.lock ≠ some i →
        g = Handler.created)
      ∧ ∀ e ∈ s.log, s.lock = some e.handler := by
  have hinv : Ended s ∨ Alone s := by
    refine h.invariant (fun s => Ended s ∨ Alone s) (.inr (Alone.start limit)) ?_
    intro a s s' hs _ hstep
    rcases hs with he | ha
    · exact .inl (he.moves (moves_of_step hstep))
    · exact ha.moves (moves_of_step hstep)
  rcases hinv with ⟨p, hp, hconn⟩ | ha
  · exact absurd hconn (hopen p hp)
  · exact ⟨ha.waiting, ha.log⟩

/-- The second client's bytes are received by the handler of the first, and
its own handler waits. -/
theorem one_conversation_two : ∃ s, Reaches (step reference) anyStep (listening 16) s
    ∧ s.handlers.length = 2
    ∧ (∀ (i : Nat) (g : Handler), s.handlers[i]? = some g → s.lock ≠ some i →
        g = Handler.created)
    ∧ ∀ e ∈ s.log, s.lock = some e.handler := by
  have hrun : ∃ s, exec (step reference) anyStep twoClients (listening 16) = some s
      ∧ s.handlers.length = 2 ∧ ∀ p ∈ s.peers, p.connection ≠ ⟨[], true⟩ :=
    ⟨_, rfl, by decide +kernel⟩
  obtain ⟨s, hexec, hlength, hopen⟩ := hrun
  have hreach := reaches_of_exec hexec
  exact ⟨s, hreach, hlength, one_conversation hreach hopen⟩

end Server

end Assignment.Socket
