import Assignment.Socket.Delivery
import Assignment.Socket.Exclusion

/-!
# The server refines the session

`Session` is one handler alone with a connection that carries a whole stream
and is closed. In the server the same handler runs among others, on a
connection that is still being written. When every `recv` is early, what it
does is a session all the same (`refines_session`): whatever the client has
yet to send, there is a run of the session on the whole stream that has come
to the same point. What is known of sessions then holds of the server; here
the delivery of frames (`served`).
-/

namespace Assignment.Socket

open Runs

/-- A condition on the results of the two kinds of `recv`. -/
abbrev Results := RecvFlag → RecvResult → Prop

/-- No call fails, and a peek sees a whole varint unless the stream is at its
end. -/
def wholeHeaders : Results
  | _, .error => False
  | .peek, .received bytes => bytes = [] ∨ ∃ b ∈ bytes, b < 0x80
  | .waitall, .received _ => True

instance (flag : RecvFlag) (r : RecvResult) : Decidable (wholeHeaders flag r) := by
  unfold wholeHeaders
  split <;> infer_instance

/-- Between the two `recv` calls of an iteration, or between the break and
the unlock. -/
def Pc.inside : Pc → Bool
  | .body _ | .unlock => true
  | .lock | .peek | .returned => false

namespace Session

open Client

/-- One iteration as a step, which is always enabled. -/
def step (rt : Runtime) (a : Arrival) (s : Session) : Option Session := some (iterate rt a s)

/-- The next `recv`, if it returns, meets the condition. -/
def Meets (ok : Results) (choice : Choice) (s : Session) : Prop :=
  ∀ flag len r c, s.handler.pc.request = some (flag, len) →
    s.connection.recv choice flag len = some (r, c) → ok flag r

/-- Both calls of the iteration do. -/
def MeetsBoth (rt : Runtime) (ok : Results) (a : Arrival) (s : Session) : Prop :=
  Meets ok a.peek s ∧ Meets ok a.body (act rt a.stack a.peek s)

variable {rt : Runtime} {ok : Results}

theorem run_congr {env env' : Nat → Arrival} {n : Nat} (h : ∀ i < n, env i = env' i)
    (s : Session) : run rt env n s = run rt env' n s := by
  induction n with
  | zero => rfl
  | succ n ih =>
      rw [run_succ, run_succ, ih fun i hi => h i (by omega), h n (by omega)]

/-- What is reached by iterations is reached by `run`. -/
theorem run_of_reaches {cond : Arrival → Session → Prop} {s₀ s : Session}
    (h : Reaches (step rt) cond s₀ s) : ∃ env n, run rt env n s₀ = s := by
  induction h with
  | start => exact ⟨fun _ => ⟨.fails, .fails, fun _ => 0⟩, 0, rfl⟩
  | @step s s' a _ _ hstep ih =>
      obtain ⟨env, n, hrun⟩ := ih
      cases hstep
      refine ⟨fun i => if i < n then env i else a, n + 1, ?_⟩
      rw [run_succ, @run_congr rt _ env n (by simp +contextual), hrun]
      simp

/-! ## A session seen at every call -/

/-- A state of the session on this stream, between two iterations or inside
one. -/
inductive Reached (rt : Runtime) (ok : Results) (stream : Bytes) : Session → Prop
  | between {s : Session} (h : Reaches (step rt) (MeetsBoth rt ok) (start stream) s)
      (hpc : s.handler.pc.inside = false) : Reached rt ok stream s
  | inside {s s' : Session} {peek : Choice}
      (h : Reaches (step rt) (MeetsBoth rt ok) (start stream) s) (hpeek : Meets ok peek s)
      (hact : ∀ stack, act rt stack peek s = s') (hpc : s'.handler.pc.inside = true) :
      Reached rt ok stream s'

/-- The stack matters to a body receive only. -/
theorem onRecv_stack {h : Handler} (hpc : h.pc = .peek) (stack stack' : Nat → UInt8)
    (r : RecvResult) : h.onRecv rt stack r = h.onRecv rt stack' r := by
  simp only [Handler.onRecv, hpc]

theorem act_of_recv {h : Handler} {c c' : Connection} {choice : Choice} {flag : RecvFlag}
    {len : Nat} {r : RecvResult} (stack : Nat → UInt8) (hreq : h.pc.request = some (flag, len))
    (hrecv : c.recv choice flag len = some (r, c')) :
    act rt stack choice ⟨h, c⟩ = ⟨h.onRecv rt stack r, c'⟩ := by
  simp only [act, hreq, hrecv]

theorem meets_of_recv {h : Handler} {c c' : Connection} {choice : Choice} {flag : RecvFlag}
    {len : Nat} {r : RecvResult} (hreq : h.pc.request = some (flag, len))
    (hrecv : c.recv choice flag len = some (r, c')) (hr : ok flag r) :
    Meets ok choice ⟨h, c⟩ := by
  intro flag' len' r' c'' hreq' hrecv'
  rw [hreq] at hreq'
  cases hreq'
  rw [hrecv] at hrecv'
  cases hrecv'
  exact hr

namespace Reached

variable {stream : Bytes} {h : Handler} {c c' : Connection}

/-- A `recv` takes a session on, into its iteration or to the end of it. -/
theorem recv (hs : Reached rt ok stream ⟨h, c⟩) {choice : Choice} {flag : RecvFlag} {len : Nat}
    {r : RecvResult} (stack : Nat → UInt8) (hreq : h.pc.request = some (flag, len))
    (hrecv : c.recv choice flag len = some (r, c')) (hr : ok flag r) :
    Reached rt ok stream ⟨h.onRecv rt stack r, c'⟩ := by
  have hmeets := meets_of_recv hreq hrecv hr
  cases hpc : h.pc with
  | peek =>
      cases hs with
      | between hreach hat =>
          refine .inside hreach hmeets (fun stack' => ?_) ?_
          · rw [act_of_recv stack' hreq hrecv, onRecv_stack hpc stack' stack]
          · by_cases hend : r = .received []
            · simp [Handler.onRecv, hpc, hend, Pc.inside]
            · simp [Handler.onRecv, hpc, hend, Pc.inside]
      | inside hreach hpeek hact hat => simp [hpc, Pc.inside] at hat
  | body siz =>
      cases hs with
      | between hreach hat => simp [hpc, Pc.inside] at hat
      | @inside s _ peek hreach hpeek hact hat =>
          have hiterate : iterate rt ⟨peek, choice, stack⟩ s = ⟨h.onRecv rt stack r, c'⟩ := by
            rw [iterate]
            simp only [hact, act_of_recv stack hreq hrecv]
          refine .between (hreach.step ⟨hpeek, ?_⟩ (congrArg some hiterate)) ?_
          · simp only [hact]
            exact hmeets
          · simp [Handler.onRecv, hpc, Pc.inside]
  | _ => simp [hpc, Pc.request] at hreq

/-- So does the unlock. -/
theorem unlock (hs : Reached rt ok stream ⟨h, c⟩) (hpc : h.pc = .unlock) :
    Reached rt ok stream ⟨h.unlocked, c⟩ := by
  cases hs with
  | between hreach hat => simp [hpc, Pc.inside] at hat
  | @inside s _ peek hreach hpeek hact hat =>
      have hiterate : iterate rt ⟨peek, .sees 0, fun _ => 0⟩ s = ⟨h.unlocked, c⟩ := by
        rw [iterate]
        simp only [hact]
        simp [act, hpc, Pc.request]
      refine .between (hreach.step ⟨hpeek, ?_⟩ (congrArg some hiterate)) ?_
      · intro flag len r c hreq
        simp only [hact, hpc] at hreq
        cases hreq
      · simp [Handler.unlocked, Pc.inside]

end Reached

/-- **The kernel's answer on the whole stream**: what a `recv` returns while
more may come it can also return when all has come. -/
theorem recv_whole {c c' : Connection} {choice : Choice} {flag : RecvFlag} {len : Nat}
    {r : RecvResult} (h : c.recv choice flag len = some (r, c')) {more : Bytes}
    (hmore : c.closed = true → more = []) :
    ∃ choice', Connection.recv ⟨c.unread ++ more, true⟩ choice' flag len
      = some (r, ⟨c'.unread ++ more, true⟩) := by
  cases flag with
  | peek =>
      obtain ⟨hcond, heq⟩ := Option.ite_none_right_eq_some.mp h
      obtain ⟨rfl, rfl⟩ := Prod.mk.inj (Option.some.inj heq)
      cases choice with
      | fails => exact ⟨.fails, by simp [Connection.recv, Choice.isFailure, Choice.result]⟩
      | sees k =>
          by_cases hnil : c.unread = []
          · have hclosed : c.closed = true := by
              simpa [Choice.isFailure, hnil] using hcond
            refine ⟨.sees k, ?_⟩
            simp [Connection.recv, hnil, hmore hclosed, Choice.result, Choice.peeked]
          · -- a peek that stops where the first one stopped
            have hpos : 0 < c.unread.length := List.length_pos_iff.mpr hnil
            refine ⟨.sees (min k (c.unread.length - 1)), ?_⟩
            have hsame : (c.unread ++ more).take (min len (min k (c.unread.length - 1) + 1))
                = c.unread.take (min len (k + 1)) := by
              rw [List.take_append_of_le_length (by omega), List.take_eq_take_iff]
              omega
            simp [Connection.recv, Choice.result, Choice.peeked, hsame]
  | waitall =>
      obtain ⟨hcond, heq⟩ := Option.ite_none_right_eq_some.mp h
      obtain ⟨rfl, rfl⟩ := Prod.mk.inj (Option.some.inj heq)
      cases choice with
      | fails => exact ⟨.fails, by simp [Connection.recv, Choice.result, Choice.left]⟩
      | sees k =>
          refine ⟨.sees k, ?_⟩
          by_cases hlen : len ≤ c.unread.length
          · simp [Connection.recv, Choice.result, Choice.taken, Choice.left,
              List.take_append_of_le_length hlen, List.drop_append_of_le_length hlen]
          · have hclosed : c.closed = true := by
              simpa [Choice.isFailure, hlen] using hcond
            simp [Connection.recv, Choice.result, Choice.taken, Choice.left, hmore hclosed]

/-! ## The frames of one session -/

/-- The session stands at a frame boundary and has printed the frames before
it, or it has printed all of them and ended. -/
inductive Delivering (rt : Runtime) (sent : List Sent) : Session → Prop
  | head {done todo : List Sent} (buffer : Header) {out : List Line} (hsent : sent = done ++ todo)
      (hout : messages out = done.map Prod.fst) :
      Delivering rt sent (atHead buffer out (stream rt todo))
  | finished (buffer : Header) {out : List Line} (hout : messages out = sent.map Prod.fst) :
      Delivering rt sent (finished buffer out)

theorem recv_peek_closed (unread : Bytes) (choice : Choice) (len : Nat) :
    Connection.recv ⟨unread, true⟩ choice .peek len
      = some (choice.result (choice.peeked len unread), ⟨unread, true⟩) := by
  simp [Connection.recv]

theorem recv_waitall_closed (unread : Bytes) (choice : Choice) (len : Nat) :
    Connection.recv ⟨unread, true⟩ choice .waitall len
      = some (choice.result (choice.taken len unread), ⟨choice.left len unread, true⟩) := by
  simp [Connection.recv]

theorem peek_of_wholeHeaders {buffer : Header} {out : List Line} {unread : Bytes} {peek : Choice}
    (h : Meets wholeHeaders peek (atHead buffer out unread)) :
    ∃ k, peek = .sees k
      ∧ (unread.take (min 4 (k + 1)) = [] ∨ ∃ b ∈ unread.take (min 4 (k + 1)), b < 0x80) := by
  have hok := h .peek 4 _ _ rfl (recv_peek_closed unread peek 4)
  cases peek with
  | fails => exact hok.elim
  | sees k => exact ⟨k, rfl, hok⟩

theorem body_of_wholeHeaders {buffer : Header} {out : List Line} {unread : Bytes} {siz : UInt32}
    {body : Choice} (h : Meets wholeHeaders body ⟨⟨.body siz, buffer, out, 0⟩, ⟨unread, true⟩⟩) :
    body.isFailure = false := by
  have hok := h .waitall _ _ _ rfl (recv_waitall_closed unread body _)
  cases body with
  | fails => exact hok.elim
  | sees k => rfl

/-- A peek at unread bytes goes on to the body and prints no packet. -/
theorem act_peek {peek : Choice} (hok : peek.isFailure = false) (stack : Nat → UInt8)
    (buffer : Header) (out : List Line) {unread : Bytes} (hne : unread ≠ []) :
    ∃ siz buffer' out', act rt stack peek (atHead buffer out unread)
        = ⟨⟨.body siz, buffer', out', 0⟩, ⟨unread, true⟩⟩ ∧ messages out' = messages out := by
  cases peek with
  | fails => cases hok
  | sees k =>
      have hseen : Choice.peeked 4 unread (.sees k) ≠ [] := by simp [Choice.peeked, hne]
      let bytecount := RecvResult.bytecount (.received (Choice.peeked 4 unread (.sees k)))
      let siz := sizeRead rt buffer unread (.sees k)
      refine ⟨siz, buffer.fill (Choice.peeked 4 unread (.sees k)),
        out ++ [.firstReadByteCount bytecount, .sizeOfPayload siz], ?_, ?_⟩
      · rw [atHead, act_of_recv stack rfl (recv_peek_closed unread _ 4)]
        simp only [Handler.onRecv, Choice.result, RecvResult.received.injEq, if_neg hseen,
          errorLine, List.append_nil]
        rfl
      · rw [messages_append]
        exact List.append_nil _

theorem messages_act_peek {peek : Choice} (hok : peek.isFailure = false) (stack : Nat → UInt8)
    (buffer : Header) (out : List Line) (unread : Bytes) :
    messages (act rt stack peek (atHead buffer out unread)).handler.out = messages out := by
  by_cases hne : unread = []
  · cases peek with
    | fails => cases hok
    | sees k =>
        rw [hne, atHead, act_of_recv stack rfl (recv_peek_closed [] _ 4)]
        simp [Handler.onRecv, Choice.result, Choice.peeked]
  · obtain ⟨siz, buffer', out', hact, hout⟩ := @act_peek rt peek hok stack buffer out _ hne
    rw [hact]
    exact hout

/-- The varint of a frame ends with the first byte whose top bit is clear. -/
theorem header_length_le_of_seen (hrt : rt.Documented) {payload : LogPacket} {rest : Bytes}
    {seen : Nat} (hseen : seen ≤ 4)
    (h : ∃ b ∈ (header rt payload ++ rest).take seen, b < 0x80) :
    (header rt payload).length ≤ seen := by
  by_contra hlt
  rw [List.take_append_of_le_length (by omega)] at h
  have hfour : ((header rt payload).take seen).length ≤ 4 := by
    rw [List.length_take]
    omega
  -- a complete varint in front of the varint would leave some of it unread
  obtain ⟨n, left, hread, -, -⟩ := hrt.readVarint32_complete hfour h
  have hwhole := hrt.varint_local _ _ _ ((header rt payload).drop seen) hread
  rw [List.take_append_drop] at hwhole
  have hall := readVarint32_pkt hrt payload []
  rw [List.append_nil] at hall
  rw [hall, VarintRead.mk.injEq] at hwhole
  have hnil := congrArg List.length hwhole.2.2
  rw [List.length_append, List.length_drop, List.length_nil] at hnil
  omega

theorem Delivering.step (hrt : rt.Documented) {sent : List Sent} (hs : Sendable rt sent)
    {s : Session} (hd : Delivering rt sent s) {a : Arrival}
    (ha : MeetsBoth rt wholeHeaders a s) : Delivering rt sent (iterate rt a s) := by
  cases hd with
  | finished buffer hout => exact .finished buffer hout
  | @head done todo buffer out hsent hout =>
      obtain ⟨k, hpeek, hseen⟩ := peek_of_wholeHeaders ha.1
      cases todo with
      | nil =>
          rw [stream, List.flatMap_nil, iterate_break a (by rw [hpeek]; rfl)]
          rw [List.append_nil] at hsent
          exact .finished buffer (by rw [hout, hsent])
      | cons p ps =>
          have hp := hs p (by rw [hsent]; simp)
          have hps : Sendable rt (p :: ps) := fun q hq => hs q (by rw [hsent]; simp_all)
          have hne := stream_cons_ne_nil hrt (p := p) hp.2 ps
          have hk : (header rt p.1).length ≤ k + 1 := by
            obtain ⟨filler, hpkt, -⟩ := pkt_fits hrt p.2 hp.2
            have hvarint : ∃ b ∈ (stream rt (p :: ps)).take (min 4 (k + 1)), b < 0x80 := by
              refine hseen.resolve_left fun hnil => ?_
              rw [List.take_eq_nil_iff] at hnil
              rcases hnil with hzero | hnil
              · omega
              · exact hne hnil
            rw [stream_cons, hpkt, List.append_assoc] at hvarint
            have hle := header_length_le_of_seen hrt (by omega) hvarint
            omega
          have hsize := sizeRead_of_seen hrt hp.2 ps buffer hk
          rw [← hpeek] at hsize
          have hfailures : a.failures = 0 := by
            obtain ⟨siz, buffer', out', hinside, -⟩ :=
              @act_peek rt a.peek (by rw [hpeek]; rfl) a.stack buffer out _ hne
            have hbody := body_of_wholeHeaders (hinside ▸ ha.2)
            have hseen : a.peek.isFailure = false := by rw [hpeek]; rfl
            simp only [Arrival.failures, hbody, hseen, Bool.toNat_false]
          obtain ⟨out', hout', hturn⟩ := iterate_frame hrt hp.1 hp.2 hfailures buffer out
            (.inl hsize)
          rw [hturn]
          refine @Delivering.head rt sent (done ++ [p]) ps _ _ ?_ ?_
          · rw [hsent, List.append_assoc, List.singleton_append]
          · rw [hout', hout, List.map_append, List.map_singleton]

/-- A session whose peeks see whole headers delivers the frames. -/
theorem delivering (hrt : rt.Documented) {sent : List Sent} (hs : Sendable rt sent) {s : Session}
    (h : Reaches (step rt) (MeetsBoth rt wholeHeaders) (start (stream rt sent)) s) :
    Delivering rt sent s := by
  refine h.invariant (Delivering rt sent) (.head .zero (List.nil_append _).symm rfl) ?_
  intro a s s' hd ha hstep
  cases hstep
  exact hd.step hrt hs ha

/-- What has been printed at any call. -/
theorem Reached.delivers (hrt : rt.Documented) {sent : List Sent} (hs : Sendable rt sent)
    {s : Session} (h : Reached rt wholeHeaders (stream rt sent) s) :
    messages s.handler.out <+: sent.map Prod.fst
      ∧ (s.handler.pc = .returned → messages s.handler.out = sent.map Prod.fst) := by
  cases h with
  | between hreach hpc =>
      cases delivering hrt hs hreach with
      | @head done todo buffer out hsent hout =>
          refine ⟨?_, fun hret => by cases hret⟩
          simp only [atHead, hout, hsent, List.map_append]
          exact List.prefix_append _ _
      | finished buffer hout =>
          simp only [finished, hout]
          exact ⟨List.prefix_refl _, fun _ => trivial⟩
  | @inside s _ peek hreach hpeek hact hpc =>
      have hret : ∀ {s' : Session}, s'.handler.pc.inside = true → s'.handler.pc ≠ .returned := by
        intro s' hin heq
        rw [heq] at hin
        cases hin
      refine ⟨?_, fun heq => absurd heq (hret hpc)⟩
      rw [← hact fun _ => 0] at hpc ⊢
      cases delivering hrt hs hreach with
      | @head done todo buffer out hsent hout =>
          obtain ⟨k, rfl, -⟩ := peek_of_wholeHeaders hpeek
          rw [messages_act_peek rfl, hout, hsent, List.map_append]
          exact List.prefix_append _ _
      | finished buffer hout => cases hpc

end Session

namespace Server

variable {rt : Runtime} {ok : Results} {s s' : Server} {a : Action} {limit : Nat}

/-- What the `recv` of this thread is and returns. -/
def received (s : Server) (i : Nat) (choice : Choice) : Option (RecvFlag × RecvResult) := do
  let h ← s.thread i
  let (flag, len) ← h.pc.request
  let j ← s.csock
  let p ← s.peers[j]?
  let (r, _) ← p.connection.recv choice flag len
  some (flag, r)

/-- The results of the `recv`s meet the condition. -/
def ResultMeets (ok : Results) (s : Server) : Action → Prop
  | .recv i choice _ => ∀ x ∈ s.received i choice, ok x.1 x.2
  | .connect | .send _ _ | .close _ | .accept | .create | .acquire _ | .unlock _ => True

instance (ok : Results) [∀ flag r, Decidable (ok flag r)] (s : Server) (a : Action) :
    Decidable (ResultMeets ok s a) :=
  match a with
  | .recv i choice _ => inferInstanceAs (Decidable (∀ x ∈ s.received i choice, ok x.1 x.2))
  | .connect | .send _ _ | .close _ | .accept | .create | .acquire _ | .unlock _ =>
    inferInstanceAs (Decidable True)

/-- An early `recv` whose result meets the condition. -/
def EarlyMeets (ok : Results) (a : Action) (s : Server) : Prop := Early a s ∧ ResultMeets ok s a

instance (ok : Results) [∀ flag r, Decidable (ok flag r)] (a : Action) (s : Server) :
    Decidable (EarlyMeets ok a s) :=
  inferInstanceAs (Decidable (_ ∧ _))

/-- A connection with the handler created for it, if there is one yet: the
handler has come to a point of the session on all that the client will have
sent. -/
def Follows (rt : Runtime) (ok : Results) (p : Peer) : Option Handler → Prop
  | none => p.connection.unread = p.sent
  | some h =>
      if h.pc = .lock then h = .created ∧ p.connection.unread = p.sent
      else ∀ more, (p.connection.closed = true → more = []) →
        Session.Reached rt ok (p.sent ++ more) ⟨h, ⟨p.connection.unread ++ more, true⟩⟩

/-- Every connection is served by a session of its own. -/
structure Followed (rt : Runtime) (ok : Results) (s : Server) : Prop where
  consistent : Consistent s
  follows : ∀ (i : Nat) (p : Peer), s.peers[i]? = some p → Follows rt ok p s.handlers[i]?

namespace Followed

theorem start (limit : Nat) : Followed rt ok (listening limit) where
  consistent := .start limit
  follows := by simp [listening]

/-- The client writes on. -/
theorem send {p : Peer} {bytes : Bytes} {h : Option Handler} (hf : Follows rt ok p h)
    (hopen : p.connection.closed = false) : Follows rt ok (p.send bytes) h := by
  cases h with
  | none => simp only [Follows, Peer.send] at hf ⊢; rw [hf]
  | some h =>
      by_cases hpc : h.pc = .lock
      · simp only [Follows, if_pos hpc, Peer.send] at hf ⊢
        rw [hf.2]
        exact ⟨hf.1, rfl⟩
      · simp only [Follows, if_neg hpc, Peer.send] at hf ⊢
        intro more _
        simp only [List.append_assoc]
        exact hf (bytes ++ more) (by simp [hopen])

theorem close {p : Peer} {h : Option Handler} (hf : Follows rt ok p h) :
    Follows rt ok p.close h := by
  cases h with
  | none => exact hf
  | some h =>
      by_cases hpc : h.pc = .lock
      · simpa only [Follows, if_pos hpc, Peer.close] using hf
      · simp only [Follows, if_neg hpc, Peer.close] at hf ⊢
        intro more hmore
        exact hf more fun _ => hmore trivial

/-- One connection and its handler go on. -/
theorem set (hs : Followed rt ok s) {peers : List Peer} {handlers : List Handler} {i : Nat}
    {q : Peer} {g : Option Handler} (hq : peers[i]? = some q) (hg : handlers[i]? = g)
    (hpeers : ∀ j, j ≠ i → peers[j]? = s.peers[j]?)
    (hhandlers : ∀ j, j ≠ i → handlers[j]? = s.handlers[j]?) (hf : Follows rt ok q g) :
    ∀ (j : Nat) (p : Peer), peers[j]? = some p → Follows rt ok p handlers[j]? := by
  intro j p hp
  by_cases hj : j = i
  · subst hj
    rw [hq, Option.some.injEq] at hp
    rw [hg, ← hp]
    exact hf
  · rw [hhandlers j hj]
    exact hs.follows j p (hpeers j hj ▸ hp)

/-- A handler has a connection. -/
theorem peer (hs : Followed rt ok s) {i : Nat} {h : Handler} (hh : s.handlers[i]? = some h) :
    ∃ p, s.peers[i]? = some p ∧ Follows rt ok p (some h) := by
  obtain ⟨hi, -⟩ := List.getElem?_eq_some_iff.mp hh
  have hle := hs.consistent.handlers_le
  have hconnected := hs.consistent.connected
  have hp := List.getElem?_eq_getElem (show i < s.peers.length by omega)
  exact ⟨_, hp, hh ▸ hs.follows i _ hp⟩

/-- Taking the lock starts the session. -/
theorem acquire {p : Peer} {h : Handler} (hf : Follows rt ok p (some h)) (hpc : h.pc = .lock) :
    Follows rt ok p (some h.locked) := by
  simp only [Follows, if_pos hpc] at hf
  obtain ⟨rfl, hunread⟩ := hf
  rw [Follows, if_neg (by simp [Handler.locked])]
  intro more _
  rw [hunread]
  exact .between .start rfl

/-- A `recv` of the handler on its own connection is one of the session. -/
theorem recv {p : Peer} {h : Handler} {choice : Choice} {flag : RecvFlag} {len : Nat}
    {r : RecvResult} {c : Connection} (stack : Nat → UInt8) (hf : Follows rt ok p (some h))
    (hreq : h.pc.request = some (flag, len))
    (hrecv : p.connection.recv choice flag len = some (r, c)) (hr : ok flag r) :
    Follows rt ok (p.after c) (some (h.onRecv rt stack r)) := by
  have hbefore : h.pc ≠ .lock := by
    intro hpc
    rw [hpc] at hreq
    cases hreq
  have hafter : (h.onRecv rt stack r).pc ≠ .lock := by
    intro hlock
    have hin := (@onRecv_critical rt h flag len stack r hreq).1
    rw [hlock] at hin
    cases hin
  simp only [Follows, if_neg hbefore] at hf
  simp only [Follows, if_neg hafter, Peer.after]
  intro more hmore
  rw [Connection.recv_closed hrecv] at hmore
  obtain ⟨choice', hwhole⟩ := Session.recv_whole hrecv hmore
  exact (hf more hmore).recv stack hreq hwhole hr

theorem unlock {p : Peer} {h : Handler} (hf : Follows rt ok p (some h)) (hpc : h.pc = .unlock) :
    Follows rt ok p (some h.unlocked) := by
  simp only [Follows, hpc, reduceCtorEq, if_false] at hf
  simp only [Follows, Handler.unlocked, reduceCtorEq, if_false]
  intro more hmore
  exact (hf more hmore).unlock hpc

theorem moves (hs : Followed rt ok s) (ha : EarlyMeets ok a s) (hm : Moves rt s a s') :
    Followed rt ok s' := by
  refine ⟨hs.consistent.moves hm, ?_⟩
  have hle := hs.consistent.handlers_le
  have hconnected := hs.consistent.connected
  cases hm with
  | connect =>
      have hnone := List.getElem?_eq_none (show s.handlers.length ≤ s.peers.length by omega)
      refine hs.set (i := s.peers.length) (q := .connected) (by simp) hnone ?_ (fun _ _ => rfl) rfl
      intro j hj
      by_cases hlt : j < s.peers.length
      · exact List.getElem?_append_left hlt
      · rw [List.getElem?_eq_none (by simp; omega), List.getElem?_eq_none (by omega)]
  | @send i p bytes hp hopen =>
      obtain ⟨hi, -⟩ := List.getElem?_eq_some_iff.mp hp
      exact hs.set (List.getElem?_set_self hi) rfl
        (fun j hj => List.getElem?_set_ne (Ne.symm hj)) (fun _ _ => rfl)
        (send (hs.follows i p hp) hopen)
  | @close i p hp =>
      obtain ⟨hi, -⟩ := List.getElem?_eq_some_iff.mp hp
      exact hs.set (List.getElem?_set_self hi) rfl
        (fun j hj => List.getElem?_set_ne (Ne.symm hj)) (fun _ _ => rfl)
        (close (hs.follows i p hp))
  | accept hmain hlt hfree => exact hs.follows
  | exit hmain hfull => exact hs.follows
  | create hmain =>
      have hcreated := hs.consistent.created
      rw [hmain] at hcreated
      have hpending : Main.creating.pending = 1 := rfl
      have hp := List.getElem?_eq_getElem (show s.handlers.length < s.peers.length by omega)
      have hf := hs.follows _ _ hp
      rw [List.getElem?_eq_none (Nat.le_refl _)] at hf
      refine hs.set hp (g := some .created) (by simp) (fun _ _ => rfl) ?_ ⟨rfl, hf⟩
      intro j hj
      by_cases hlt : j < s.handlers.length
      · exact List.getElem?_append_left hlt
      · rw [List.getElem?_eq_none (by simp; omega), List.getElem?_eq_none (by omega)]
  | @acquire i h hrun hh hpc hfree =>
      obtain ⟨hi, -⟩ := List.getElem?_eq_some_iff.mp hh
      obtain ⟨p, hp, hf⟩ := hs.peer hh
      exact hs.set hp (List.getElem?_set_self hi) (fun _ _ => rfl)
        (fun j hj => List.getElem?_set_ne (Ne.symm hj)) (acquire hf hpc)
  | @recv i j h p choice flag len r c stack hrun hh hreq hj hp hrecv =>
      -- being early, the handler finds its own descriptor in the cell
      have hown : s.csock = some i := hs.consistent.csock hrun ha.1
      rw [hj, Option.some.injEq] at hown
      subst hown
      have hr : ok flag r := by
        refine ha.2 (flag, r) ?_
        simp [received, thread, hrun, hh, hreq, hj, hp, hrecv]
      obtain ⟨hi, -⟩ := List.getElem?_eq_some_iff.mp hh
      obtain ⟨hplt, -⟩ := List.getElem?_eq_some_iff.mp hp
      have hf := hs.follows _ _ hp
      rw [hh] at hf
      exact hs.set (List.getElem?_set_self hplt) (List.getElem?_set_self hi)
        (fun k hk => List.getElem?_set_ne (Ne.symm hk))
        (fun k hk => List.getElem?_set_ne (Ne.symm hk)) (recv stack hf hreq hrecv hr)
  | @unlock i h hrun hh hpc =>
      obtain ⟨hi, -⟩ := List.getElem?_eq_some_iff.mp hh
      obtain ⟨p, hp, hf⟩ := hs.peer hh
      exact hs.set hp (List.getElem?_set_self hi) (fun _ _ => rfl)
        (fun j hj => List.getElem?_set_ne (Ne.symm hj)) (unlock hf hpc)

theorem reaches (h : Reaches (step rt) (EarlyMeets ok) (listening limit) s) : Followed rt ok s :=
  h.invariant (Followed rt ok) (start limit) fun _ _ _ hs ha hstep =>
    hs.moves ha (moves_of_step hstep)

end Followed

/-! ## The refinement and what it brings -/

/-- **The server refines the session**: in every interleaving of early
`recv`s, a handler at the head of its loop or returned is in the state of a
session on all that its client has sent and may still send, after some
number of iterations. -/
theorem refines_session (h : Reaches (step rt) Early (listening limit) s) {i : Nat} {g : Handler}
    {p : Peer} (hg : s.handlers[i]? = some g) (hp : s.peers[i]? = some p)
    (hpc : g.pc = .peek ∨ g.pc = .returned) (more : Bytes)
    (hmore : p.connection.closed = true → more = []) :
    ∃ env n, Session.run rt env n (Session.start (p.sent ++ more))
      = ⟨g, ⟨p.connection.unread ++ more, true⟩⟩ := by
  have hs : Followed rt (fun _ _ => True) s := by
    refine .reaches (h.mono fun a s hearly => ⟨hearly, ?_⟩)
    cases a with
    | recv i choice stack => exact fun _ _ => trivial
    | _ => trivial
  have hf := hs.follows i p hp
  have hlock : g.pc ≠ .lock := by rcases hpc with hpc | hpc <;> simp [hpc]
  simp only [hg, Follows, if_neg hlock] at hf
  cases hf more hmore with
  | between hreach _ => exact Session.run_of_reaches hreach
  | inside hreach hpeek hact hin =>
      rcases hpc with hpc | hpc <;> simp [hpc, Pc.inside] at hin

/-- The handler of the second of two clients in turn. -/
theorem refines_session_inTurn : ∃ s g p, Reaches (step reference) Early (listening 16) s
    ∧ s.handlers[1]? = some g ∧ s.peers[1]? = some p
    ∧ ∃ env n, Session.run reference env n (Session.start (p.sent ++ []))
        = ⟨g, ⟨p.connection.unread ++ [], true⟩⟩ := by
  have hrun : ∃ s g p, exec (step reference) Early inTurn (listening 16) = some s
      ∧ s.handlers[1]? = some g ∧ s.peers[1]? = some p ∧ g.pc = .returned :=
    ⟨_, _, _, rfl, rfl, rfl, by decide +kernel⟩
  obtain ⟨s, g, p, hexec, hg, hp, hpc⟩ := hrun
  have hreach := reaches_of_exec hexec
  exact ⟨s, g, p, hreach, hg, hp, refines_session hreach hg hp (.inr hpc) [] fun _ => rfl⟩

/-- **Every client is served its own messages**: in every interleaving of
early `recv`s that do not fail and whose peeks see whole headers, what the
handler of a client has printed is a beginning of the packets that this
client sends, and all of them once the handler has returned. -/
theorem served (hrt : rt.Documented)
    (h : Reaches (step rt) (EarlyMeets wholeHeaders) (listening limit) s) {i : Nat} {g : Handler}
    {p : Peer} (hg : s.handlers[i]? = some g) (hp : s.peers[i]? = some p) {more : Bytes}
    (hmore : p.connection.closed = true → more = []) {sent : List Sent}
    (hs : Session.Sendable rt sent) (hsent : p.sent ++ more = Session.stream rt sent) :
    messages g.out <+: sent.map Prod.fst
      ∧ (g.pc = .returned → messages g.out = sent.map Prod.fst) := by
  have hf := (Followed.reaches h).follows i p hp
  rw [hg] at hf
  by_cases hpc : g.pc = .lock
  · simp only [Follows, if_pos hpc] at hf
    rw [hf.1]
    exact ⟨List.nil_prefix, fun hret => by cases hret⟩
  · simp only [Follows, if_neg hpc] at hf
    have hreached := hf more hmore
    rw [hsent] at hreached
    exact hreached.delivers hrt hs

/-- The packet `hi` in a block of zeros. -/
def hello : Sent := (⟨[0x68, 0x69], []⟩, fun _ => 0)

/-- A client that sends it and closes, seen through peeks of two bytes, and
another one that connects meanwhile. -/
def helloRun : List Action :=
  [.connect, .send 0 (Client.pkt reference hello.1 hello.2), .connect, .accept, .create,
    .acquire 0, .recv 0 (.sees 1) fun _ => 5, .recv 0 (.sees 0) fun _ => 5, .close 0,
    .recv 0 (.sees 1) fun _ => 5, .unlock 0]

theorem served_hello : ∃ s g, Reaches (step reference) (EarlyMeets wholeHeaders) (listening 16) s
    ∧ s.handlers[0]? = some g ∧ messages g.out = [hello].map Prod.fst := by
  have hrun : ∃ s g p, exec (step reference) (EarlyMeets wholeHeaders) helloRun (listening 16)
        = some s
      ∧ s.handlers[0]? = some g ∧ s.peers[0]? = some p ∧ g.pc = .returned
      ∧ p.sent ++ [] = Session.stream reference [hello] :=
    ⟨_, _, _, rfl, rfl, rfl, by decide +kernel, by decide +kernel⟩
  obtain ⟨s, g, p, hexec, hg, hp, hpc, hsent⟩ := hrun
  have hreach := reaches_of_exec hexec
  have hsendable : Session.Sendable reference [hello] := by
    intro q hq
    rw [List.mem_singleton] at hq
    rw [hq]
    exact ⟨⟨by decide +kernel, rfl⟩, by decide +kernel⟩
  exact ⟨s, g, hreach, hg,
    (served reference_documented hreach hg hp (fun _ => rfl) hsendable hsent).2 hpc⟩

end Server

end Assignment.Socket
