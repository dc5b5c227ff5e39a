import Assignment.Socket.Server

/-!
# One connection

What the kernel may answer to the two `recv` calls of a handler, and the
loop of `SocketHandler` run against it. A `Choice` picks one of the
answers: a failure, or for a peek how much of the unread bytes it gets to
see. `Session.run` follows the loop for a sequence of such choices.
-/

namespace Assignment.Socket

/-- The receiving end of a connection: the bytes sent and not yet consumed,
and whether the peer has closed. -/
structure Connection where
  unread : Bytes
  closed : Bool
deriving DecidableEq, Repr

/-- One answer of the kernel: the call fails with `-1`, or it succeeds, a
peek with at most `k + 1` bytes. -/
inductive Choice
  | fails
  | sees (k : Nat)
deriving DecidableEq, Repr

namespace Choice

def isFailure : Choice → Bool
  | fails => true
  | sees _ => false

/-- What a peek for `len` bytes stores: a non-empty prefix of the unread
bytes, if there are any. -/
def peeked (len : Nat) (unread : Bytes) : Choice → Bytes
  | fails => []
  | sees k => unread.take (min len (k + 1))

/-- What a `MSG_WAITALL` receive of `len` bytes stores. -/
def taken (len : Nat) (unread : Bytes) : Choice → Bytes
  | fails => []
  | sees _ => unread.take len

/-- What such a receive leaves unread. -/
def left (len : Nat) (unread : Bytes) : Choice → Bytes
  | fails => unread
  | sees _ => unread.drop len

/-- What `recv` returns when it stored these bytes. -/
def result (stored : Bytes) : Choice → RecvResult
  | fails => .error
  | sees _ => .received stored

theorem peeked_result_bytes (choice : Choice) (len : Nat) (unread : Bytes) :
    (choice.result (choice.peeked len unread)).bytes = choice.peeked len unread := by
  cases choice <;> rfl

/-- A peek that fails or finds bytes does not return `0`. -/
theorem peeked_result_ne {choice : Choice} {unread : Bytes}
    (h : choice.isFailure = true ∨ unread ≠ []) :
    choice.result (choice.peeked 4 unread) ≠ .received [] := by
  cases choice with
  | fails => simp [result]
  | sees k =>
      have hne : unread ≠ [] := by simpa [isFailure] using h
      simp [result, peeked, hne]

end Choice

/-- `recv` on the connection; `none` while it blocks. A peek waits for the
first byte, a `MSG_WAITALL` receive for all the bytes it asks for, and both
for the peer to close. -/
def Connection.recv (c : Connection) (choice : Choice) :
    RecvFlag → Nat → Option (RecvResult × Connection)
  | .peek, len =>
      -- nothing is consumed
      if choice.isFailure ∨ c.unread ≠ [] ∨ c.closed then
        some (choice.result (choice.peeked len c.unread), c)
      else none
  | .waitall, len =>
      if choice.isFailure ∨ len ≤ c.unread.length ∨ c.closed then
        some (choice.result (choice.taken len c.unread),
          { c with unread := choice.left len c.unread })
      else none

namespace Connection

variable {c c' : Connection} {choice : Choice} {flag : RecvFlag} {len : Nat}

/-- A `recv` takes bytes off the front, if any. -/
theorem recv_takes {r : RecvResult} (h : c.recv choice flag len = some (r, c')) :
    ∃ n, c'.unread = c.unread.drop n := by
  cases flag with
  | peek =>
      obtain ⟨-, heq⟩ := Option.ite_none_right_eq_some.mp h
      cases heq
      exact ⟨0, rfl⟩
  | waitall =>
      obtain ⟨-, heq⟩ := Option.ite_none_right_eq_some.mp h
      cases heq
      cases choice with
      | fails => exact ⟨0, rfl⟩
      | sees k => exact ⟨len, rfl⟩

/-- A `recv` does not close the connection. -/
theorem recv_closed {r : RecvResult} (h : c.recv choice flag len = some (r, c')) :
    c'.closed = c.closed := by
  cases flag with
  | peek =>
      obtain ⟨-, heq⟩ := Option.ite_none_right_eq_some.mp h
      cases heq
      rfl
  | waitall =>
      obtain ⟨-, heq⟩ := Option.ite_none_right_eq_some.mp h
      cases heq
      rfl

/-- A peek returns no bytes only at the end of the stream. -/
theorem peek_end (hlen : 0 < len) (h : c.recv choice .peek len = some (.received [], c')) :
    c'.unread = [] ∧ c'.closed = true := by
  obtain ⟨hcond, heq⟩ := Option.ite_none_right_eq_some.mp h
  obtain ⟨hresult, rfl⟩ := Prod.mk.inj (Option.some.inj heq)
  cases choice with
  | fails => cases hresult
  | sees k =>
      have hnil : c.unread.take (min len (k + 1)) = [] := RecvResult.received.inj hresult
      have hunread : c.unread = [] := by
        rw [List.take_eq_nil_iff] at hnil
        exact hnil.resolve_left (by omega)
      exact ⟨hunread, by simpa [Choice.isFailure, hunread] using hcond⟩

end Connection

/-- A handler together with the connection it serves. -/
structure Session where
  handler : Handler
  connection : Connection
deriving DecidableEq

/-- The environment of one iteration of the loop: the outcomes of the peek
and of the body receive, and what the stack of `readBody` held before. -/
structure Arrival where
  peek : Choice
  body : Choice
  stack : Nat → UInt8

/-- The number of failing calls of an iteration. -/
def Arrival.failures (a : Arrival) : Nat :=
  a.peek.isFailure.toNat + a.body.isFailure.toNat

namespace Session

/-- The next `recv` of the handler, or its unlock after the break. -/
def act (rt : Runtime) (stack : Nat → UInt8) (choice : Choice) (s : Session) : Session :=
  match s.handler.pc.request with
  | some (flag, len) => match s.connection.recv choice flag len with
      | some (r, c) => ⟨s.handler.onRecv rt stack r, c⟩
      | none => s
  | none => if s.handler.pc = .unlock then { s with handler := s.handler.unlocked } else s

/-- One iteration of `while(1)`; after the break, the unlock. -/
def iterate (rt : Runtime) (a : Arrival) (s : Session) : Session :=
  act rt a.stack a.body (act rt a.stack a.peek s)

/-- The session after `n` iterations. -/
def run (rt : Runtime) : (Nat → Arrival) → Nat → Session → Session
  | _, 0, s => s
  | env, n + 1, s => run rt (fun i => env (i + 1)) n (iterate rt (env 0) s)

/-- The head of the loop, with the peer closed after the unread bytes. -/
def atHead (buffer : Header) (out : List Line) (unread : Bytes) : Session :=
  ⟨⟨.peek, buffer, out, 0⟩, ⟨unread, true⟩⟩

/-- After the unlock. -/
def finished (buffer : Header) (out : List Line) : Session :=
  ⟨⟨.returned, buffer, out, 1⟩, ⟨[], true⟩⟩

/-- The handler has taken the lock of a connection that carries `stream`. -/
def start (stream : Bytes) : Session := ⟨Handler.created.locked, ⟨stream, true⟩⟩

theorem start_eq (stream : Bytes) : start stream = atHead .zero [] stream := rfl

/-! ## What one iteration does -/

variable {rt : Runtime}

/-- The size that the iteration reads: the peeked bytes over the header left
by the previous one. -/
def sizeRead (rt : Runtime) (buffer : Header) (unread : Bytes) (peek : Choice) : UInt32 :=
  readHdr rt (buffer.fill (peek.peeked 4 unread)).bytes

/-- The length of its body receive. -/
def bodyLength (rt : Runtime) (buffer : Header) (unread : Bytes) (peek : Choice) : Nat :=
  (4 + sizeRead rt buffer unread peek).toNat

/-- A peek at the end of the stream leaves the loop. -/
theorem iterate_break (a : Arrival) (h : a.peek.isFailure = false) (buffer : Header)
    (out : List Line) : iterate rt a (atHead buffer out []) = finished buffer out := by
  cases hp : a.peek with
  | fails => simp [hp, Choice.isFailure] at h
  | sees k => simp [iterate, act, atHead, finished, Pc.request, Connection.recv, hp,
      Choice.result, Choice.peeked, Handler.onRecv, Handler.unlocked]

/-- What such an iteration prints. -/
def turnLines (rt : Runtime) (a : Arrival) (buffer : Header) (unread : Bytes) : List Line :=
  let first := a.peek.result (a.peek.peeked 4 unread)
  let siz := sizeRead rt buffer unread a.peek
  let second := a.body.result (a.body.taken (bodyLength rt buffer unread a.peek) unread)
  errorLine first ++ [.firstReadByteCount first.bytecount, .sizeOfPayload siz]
    ++ readBody rt siz a.stack second

/-- The packet among these lines. -/
def turnMessage (rt : Runtime) (a : Arrival) (buffer : Header) (unread : Bytes) : LogPacket :=
  decodeBody rt (Buffer.overwrite
    (uninitialised (sizeRead rt buffer unread a.peek) a.stack)
    (a.body.taken (bodyLength rt buffer unread a.peek) unread))

theorem messages_turnLines (a : Arrival) (buffer : Header) (unread : Bytes) :
    messages (turnLines rt a buffer unread) = [turnMessage rt a buffer unread] := by
  have hbody : ∀ stored, (a.body.result (a.body.taken stored unread)).bytes
      = a.body.taken stored unread := by
    intro stored
    cases a.body <;> rfl
  simp only [turnLines, messages_append, messages_errorLine, messages_readBody, hbody,
    turnMessage]
  rfl

/-- Any other iteration fills the header, receives up to `4+siz` bytes,
prints one packet and comes back to the head. -/
theorem iterate_turn (a : Arrival) (buffer : Header) (out : List Line) (unread : Bytes)
    (h : a.peek.isFailure = true ∨ unread ≠ []) :
    iterate rt a (atHead buffer out unread)
      = atHead (buffer.fill (a.peek.peeked 4 unread)) (out ++ turnLines rt a buffer unread)
          (a.body.left (bodyLength rt buffer unread a.peek) unread) := by
  simp only [iterate, act, atHead, Pc.request, Connection.recv, Handler.onRecv, or_true,
    if_true, if_neg (Choice.peeked_result_ne h), Choice.peeked_result_bytes, turnLines,
    List.append_assoc]
  rfl

theorem iterate_finished (a : Arrival) (buffer : Header) (out : List Line) :
    iterate rt a (finished buffer out) = finished buffer out := rfl

theorem run_finished (env : Nat → Arrival) (n : Nat) (buffer : Header) (out : List Line) :
    run rt env n (finished buffer out) = finished buffer out := by
  induction n generalizing env with
  | zero => rfl
  | succ n ih => rw [run, iterate_finished, ih]

theorem run_add (env : Nat → Arrival) (m n : Nat) (s : Session) :
    run rt env (m + n) s = run rt (fun i => env (i + m)) n (run rt env m s) := by
  induction m generalizing env s with
  | zero => rw [Nat.zero_add]; rfl
  | succ m ih =>
      rw [Nat.succ_add, run, run, ih]
      simp only [Nat.add_assoc]

theorem run_succ (env : Nat → Arrival) (n : Nat) (s : Session) :
    run rt env (n + 1) s = iterate rt (env n) (run rt env n s) := by
  rw [run_add, run, run, Nat.zero_add]

/-- A session at the head of its loop takes an iteration before it is
finished. -/
theorem run_finished_succ {env : Nat → Arrival} {n : Nat} {buffer buffer' : Header}
    {out out' : List Line} {unread : Bytes}
    (h : run rt env n (atHead buffer out unread) = finished buffer' out') :
    ∃ m, n = m + 1 ∧ run rt (fun i => env (i + 1)) m
      (iterate rt (env 0) (atHead buffer out unread)) = finished buffer' out' := by
  cases n with
  | zero => simp [run, atHead, finished] at h
  | succ m => exact ⟨m, rfl, h⟩

/-- From the start on, a session is at the head of its loop or finished. -/
theorem run_shape (env : Nat → Arrival) (stream : Bytes) (n : Nat) :
    (∃ buffer out unread, run rt env n (start stream) = atHead buffer out unread)
      ∨ ∃ buffer out, run rt env n (start stream) = finished buffer out := by
  induction n with
  | zero => exact .inl ⟨_, _, _, rfl⟩
  | succ n ih =>
      rw [run_succ]
      rcases ih with ⟨buffer, out, unread, h⟩ | ⟨buffer, out, h⟩
      · rw [h]
        by_cases hgo : (env n).peek.isFailure = true ∨ unread ≠ []
        · exact .inl ⟨_, _, _, iterate_turn _ _ _ _ hgo⟩
        · simp only [not_or, Bool.not_eq_true, not_not] at hgo
          obtain ⟨hpeek, rfl⟩ := hgo
          exact .inr ⟨_, _, iterate_break _ hpeek _ _⟩
      · rw [h]
        exact .inr ⟨_, _, rfl⟩

end Session

end Assignment.Socket
