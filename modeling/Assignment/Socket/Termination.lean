import Assignment.Reference
import Assignment.Socket.Network

/-!
# The handler ends, if its stack holds out

Every iteration of the loop consumes a byte of the stream or uses up a
failing `recv`: the length `4+siz` is never `0` modulo `2^32`, because the
header decodes to less than `2^28` or to `0xFFFFFFFF`. The measure of the
loop is the number of unread bytes plus the number of failures to come.

The array of `readBody` is as long as the client likes, and it is on the
thread's stack. `Session.runOn` is the loop on a stack with a given room;
it ends, and unlocks, exactly when no header announces more than fits
(`handler_ends_iff`).
-/

namespace Assignment.Socket

namespace Session

variable {rt : Runtime}

/-- The failing `recv` calls of the first `n` iterations. -/
def failures : (Nat → Arrival) → Nat → Nat
  | _, 0 => 0
  | env, n + 1 => (env 0).failures + failures (fun i => env (i + 1)) n

/-- No header makes `4+siz` wrap to `0`. -/
theorem bodyLength_pos (hrt : rt.Documented) (buffer : Header) (unread : Bytes)
    (peek : Choice) : 0 < bodyLength rt buffer unread peek := by
  rw [bodyLength]
  rcases readHdr_cases hrt (buffer.fill (peek.peeked 4 unread)).bytes with hlt | heq
  · rw [sizeRead, bodyLength_of_lt hlt]
    omega
  · rw [sizeRead, heq, bodyLength_incomplete]
    omega

theorem failures_eq_zero {a : Arrival} (h : a.failures = 0) :
    a.peek.isFailure = false ∧ a.body.isFailure = false := by
  simp only [Arrival.failures] at h
  constructor
  · cases hp : a.peek.isFailure with
    | false => rfl
    | true => simp [hp] at h
  · cases hb : a.body.isFailure with
    | false => rfl
    | true => simp [hb] at h

/-- **Progress**: an iteration that comes back to the head has consumed a
byte or used up a failure, and never puts bytes back. -/
theorem turn_progress (hrt : rt.Documented) (a : Arrival) (buffer : Header) (unread : Bytes)
    (h : a.peek.isFailure = true ∨ unread ≠ []) :
    (a.body.left (bodyLength rt buffer unread a.peek) unread).length < unread.length + a.failures
      ∧ (a.body.left (bodyLength rt buffer unread a.peek) unread).length ≤ unread.length := by
  have hpos := bodyLength_pos hrt buffer unread a.peek
  cases hb : a.body with
  | fails =>
      have hf : 1 ≤ a.failures := by
        simp [Arrival.failures, hb, Choice.isFailure]
      simp only [Choice.left]
      omega
  | sees k =>
      simp only [Choice.left, List.length_drop]
      rcases h with hp | hne
      · have hf : 1 ≤ a.failures := by
          simp [Arrival.failures, hp]
        omega
      · have hlen : 0 < unread.length := List.length_pos_iff.mpr hne
        omega

/-- From the head of the loop, with `fails` failures to come at most. -/
theorem atHead_ends (hrt : rt.Documented) :
    ∀ (measure fails : Nat) (env : Nat → Arrival) (buffer : Header) (out : List Line)
      (unread : Bytes), (∀ n, failures env n ≤ fails) → unread.length + fails ≤ measure →
      ∃ n ≤ measure + 1, ∃ buffer' out',
        run rt env n (atHead buffer out unread) = finished buffer' out' := by
  intro measure
  induction measure with
  | zero =>
      intro fails env buffer out unread henv hm
      -- no byte and no failure is left: the peek sees the end of the stream
      have hnil : unread = [] := List.length_eq_zero_iff.mp (by omega)
      have hzero : (env 0).failures = 0 := by
        have := henv 1
        simp only [failures] at this
        omega
      subst hnil
      exact ⟨1, by omega, _, _, iterate_break (env 0) (failures_eq_zero hzero).1 buffer out⟩
  | succ measure ih =>
      intro fails env buffer out unread henv hm
      by_cases hgo : (env 0).peek.isFailure = true ∨ unread ≠ []
      · obtain ⟨hlt, hle⟩ := turn_progress hrt (env 0) buffer unread hgo
        have hfirst : (env 0).failures ≤ fails := by
          have := henv 1
          simp only [failures] at this
          omega
        obtain ⟨n, hn, buffer', out', hrun⟩ := ih (fails - (env 0).failures)
          (fun i => env (i + 1)) (buffer.fill ((env 0).peek.peeked 4 unread))
          (out ++ turnLines rt (env 0) buffer unread)
          ((env 0).body.left (bodyLength rt buffer unread (env 0).peek) unread)
          (fun n => by
            have := henv (n + 1)
            simp only [failures] at this
            omega)
          (by omega)
        exact ⟨n + 1, by omega, buffer', out', by rw [run, iterate_turn _ _ _ _ hgo, hrun]⟩
      · simp only [not_or, Bool.not_eq_true, not_not] at hgo
        obtain ⟨hpeek, rfl⟩ := hgo
        exact ⟨1, by omega, _, _, iterate_break (env 0) hpeek buffer out⟩

/-- After at most `stream.length + fails + 1` iterations the handler has left
the loop and unlocked the mutex exactly once, for good. -/
theorem run_ends (hrt : rt.Documented) (stream : Bytes) (env : Nat → Arrival) (fails : Nat)
    (henv : ∀ n, failures env n ≤ fails) :
    ∃ n ≤ stream.length + fails + 1, ∀ m, n ≤ m →
      (run rt env m (start stream)).handler.pc = .returned
        ∧ (run rt env m (start stream)).handler.unlocks = 1 := by
  obtain ⟨n, hn, buffer, out, hrun⟩ :=
    atHead_ends hrt _ fails env .zero [] stream henv (Nat.le_refl _)
  refine ⟨n, hn, fun m hm => ?_⟩
  obtain ⟨d, rfl⟩ := Nat.exists_eq_add_of_le hm
  rw [run_add, start_eq, hrun, run_finished]
  exact ⟨rfl, rfl⟩

/-- Every iteration before that consumes a byte or uses up a failure. -/
theorem run_progress (hrt : rt.Documented) (stream : Bytes) (env : Nat → Arrival) (n : Nat)
    (hpc : (run rt env (n + 1) (start stream)).handler.pc ≠ .returned) :
    (run rt env (n + 1) (start stream)).connection.unread.length
        < (run rt env n (start stream)).connection.unread.length
      ∨ 0 < (env n).failures := by
  rcases @run_shape rt env stream n with ⟨buffer, out, unread, h⟩ | ⟨buffer, out, h⟩
  · rw [run_succ, h] at hpc ⊢
    by_cases hgo : (env n).peek.isFailure = true ∨ unread ≠ []
    · rw [iterate_turn _ _ _ _ hgo]
      have hlt := (turn_progress hrt (env n) buffer unread hgo).1
      simp only [atHead]
      omega
    · simp only [not_or, Bool.not_eq_true, not_not] at hgo
      obtain ⟨hpeek, rfl⟩ := hgo
      rw [iterate_break _ hpeek] at hpc
      exact absurd rfl hpc
  · rw [run_succ, h, iterate_finished] at hpc
    exact absurd rfl hpc

end Session

/-! ## The stack of the thread -/

/-- What becomes of the process: it goes on, or a thread has run over its
stack and the process is killed. -/
inductive Fate
  | running (s : Session)
  | killed
deriving DecidableEq

namespace Session

/-- `char buffer [siz+4]` takes more than the room left on the stack. -/
def overflows (room : Nat) (s : Session) : Bool :=
  match s.handler.pc with
  | .body siz => decide (room < (siz + 4).toNat)
  | _ => false

/-- The code from one `recv` to the next, where `readBody` declares its array
before its `recv`. -/
def actOn (room : Nat) (rt : Runtime) (stack : Nat → UInt8) (choice : Choice) : Fate → Fate
  | .killed => .killed
  | .running s =>
      let s' := act rt stack choice s
      if overflows room s' then .killed else .running s'

/-- One iteration of `while(1)` on a stack with this room. -/
def iterateOn (room : Nat) (rt : Runtime) (a : Arrival) (f : Fate) : Fate :=
  actOn room rt a.stack a.body (actOn room rt a.stack a.peek f)

/-- The process after `n` iterations. -/
def runOn (room : Nat) (rt : Runtime) : (Nat → Arrival) → Nat → Fate → Fate
  | _, 0, f => f
  | env, n + 1, f => runOn room rt (fun i => env (i + 1)) n (iterateOn room rt (env 0) f)

/-- None of the headers that the first `n` iterations read makes an array
that is larger than the room. -/
def HeadersFit (rt : Runtime) (room : Nat) : (Nat → Arrival) → Nat → Header → Bytes → Prop
  | _, 0, _, _ => True
  | env, n + 1, buffer, unread =>
      (env 0).peek.isFailure = true ∨ unread ≠ [] →
        (sizeRead rt buffer unread (env 0).peek + 4).toNat ≤ room
          ∧ HeadersFit rt room (fun i => env (i + 1)) n
              (buffer.fill ((env 0).peek.peeked 4 unread))
              ((env 0).body.left (bodyLength rt buffer unread (env 0).peek) unread)

variable {room : Nat} {env : Nat → Arrival}

theorem runOn_killed (n : Nat) : runOn room rt env n .killed = .killed := by
  induction n generalizing env with
  | zero => rfl
  | succ n ih => exact ih

theorem runOn_finished (n : Nat) (buffer : Header) (out : List Line) :
    runOn room rt env n (.running (finished buffer out)) = .running (finished buffer out) := by
  induction n generalizing env with
  | zero => rfl
  | succ n ih => exact ih

/-- The handler after the peek of an iteration that goes on to the body. -/
theorem pc_act_peek (a : Arrival) (buffer : Header) (out : List Line) (unread : Bytes)
    (h : a.peek.isFailure = true ∨ unread ≠ []) :
    (act rt a.stack a.peek (atHead buffer out unread)).handler.pc
      = .body (sizeRead rt buffer unread a.peek) := by
  simp only [act, atHead, Pc.request, Connection.recv, Handler.onRecv, or_true, if_true,
    if_neg (Choice.peeked_result_ne h), Choice.peeked_result_bytes, sizeRead]

/-- An iteration whose array fits is an iteration. -/
theorem iterateOn_fits (a : Arrival) (buffer : Header) (out : List Line) (unread : Bytes)
    (h : a.peek.isFailure = true ∨ unread ≠ [])
    (hfits : (sizeRead rt buffer unread a.peek + 4).toNat ≤ room) :
    iterateOn room rt a (.running (atHead buffer out unread))
      = .running (iterate rt a (atHead buffer out unread)) := by
  have hpeek : overflows room (act rt a.stack a.peek (atHead buffer out unread)) = false := by
    rw [overflows, pc_act_peek a buffer out unread h]
    simpa using hfits
  have hbody : overflows room (iterate rt a (atHead buffer out unread)) = false := by
    rw [iterate_turn a buffer out unread h]
    rfl
  rw [iterate] at hbody ⊢
  simp only [iterateOn, actOn, hpeek, hbody, Bool.false_eq_true, if_false]

/-- An array that does not fit kills the process. -/
theorem iterateOn_overflows (a : Arrival) (buffer : Header) (out : List Line) (unread : Bytes)
    (h : a.peek.isFailure = true ∨ unread ≠ [])
    (hroom : room < (sizeRead rt buffer unread a.peek + 4).toNat) :
    iterateOn room rt a (.running (atHead buffer out unread)) = .killed := by
  have hpeek : overflows room (act rt a.stack a.peek (atHead buffer out unread)) = true := by
    rw [overflows, pc_act_peek a buffer out unread h]
    simpa using hroom
  simp only [iterateOn, actOn, hpeek, if_true]

/-- A peek at the end of the stream needs no array. -/
theorem iterateOn_break (a : Arrival) (h : a.peek.isFailure = false) (buffer : Header)
    (out : List Line) :
    iterateOn room rt a (.running (atHead buffer out [])) = .running (finished buffer out) := by
  cases hp : a.peek with
  | fails => simp [hp, Choice.isFailure] at h
  | sees k => simp [iterateOn, actOn, overflows, act, atHead, finished, Pc.request,
      Connection.recv, hp, Choice.result, Choice.peeked, Handler.onRecv, Handler.unlocked]

/-- **A stack that holds every array changes nothing.** -/
theorem runOn_of_fit (n : Nat) (buffer : Header) (out : List Line) (unread : Bytes)
    (hfit : HeadersFit rt room env n buffer unread) :
    runOn room rt env n (.running (atHead buffer out unread))
      = .running (run rt env n (atHead buffer out unread)) := by
  induction n generalizing env buffer out unread with
  | zero => rfl
  | succ n ih =>
      rw [runOn, run]
      by_cases hgo : (env 0).peek.isFailure = true ∨ unread ≠ []
      · obtain ⟨hroom, hrest⟩ := hfit hgo
        rw [iterateOn_fits (env 0) buffer out unread hgo hroom, iterate_turn _ _ _ _ hgo]
        exact ih _ _ _ hrest
      · simp only [not_or, Bool.not_eq_true, not_not] at hgo
        obtain ⟨hpeek, rfl⟩ := hgo
        rw [iterateOn_break _ hpeek, iterate_break _ hpeek, runOn_finished, run_finished]

/-- **A header that is too large kills the process.** -/
theorem runOn_of_not_fit (n : Nat) (buffer : Header) (out : List Line) (unread : Bytes)
    (hfit : ¬ HeadersFit rt room env n buffer unread) :
    runOn room rt env n (.running (atHead buffer out unread)) = .killed := by
  induction n generalizing env buffer out unread with
  | zero => exact absurd trivial hfit
  | succ n ih =>
      rw [HeadersFit, Classical.not_imp] at hfit
      obtain ⟨hgo, hfit⟩ := hfit
      rw [runOn]
      by_cases hroom : (sizeRead rt buffer unread (env 0).peek + 4).toNat ≤ room
      · rw [iterateOn_fits (env 0) buffer out unread hgo hroom, iterate_turn _ _ _ _ hgo]
        exact ih _ _ _ fun hrest => hfit ⟨hroom, hrest⟩
      · rw [iterateOn_overflows (env 0) buffer out unread hgo (by omega), runOn_killed]

/-- No header announces more than `2^28` bytes. -/
theorem headersFit_of_room (hrt : rt.Documented) (hroom : 2 ^ 28 + 3 ≤ room) (n : Nat)
    (buffer : Header) (unread : Bytes) : HeadersFit rt room env n buffer unread := by
  induction n generalizing env buffer unread with
  | zero => trivial
  | succ n ih =>
      refine fun _ => ⟨?_, ih _ _⟩
      rw [bufferLength_eq]
      rcases readHdr_cases hrt (buffer.fill ((env 0).peek.peeked 4 unread)).bytes with hlt | heq
      · rw [sizeRead, bodyLength_of_lt hlt]
        omega
      · rw [sizeRead, heq, bodyLength_incomplete]
        omega

/-- More iterations read more headers. -/
theorem HeadersFit.mono {m n : Nat} (hmn : m ≤ n) {buffer : Header} {unread : Bytes}
    (hfit : HeadersFit rt room env n buffer unread) : HeadersFit rt room env m buffer unread := by
  induction m generalizing env n buffer unread with
  | zero => trivial
  | succ m ih =>
      obtain ⟨n, rfl⟩ := Nat.exists_eq_add_one.mpr (show 0 < n by omega)
      exact fun hgo => ⟨(hfit hgo).1, ih (by omega) (hfit hgo).2⟩

/-- A handler on a stack with this room ends and releases the lock: after at
most `stream.length + fails + 1` iterations it has left the loop and unlocked
the mutex exactly once, for good; and every iteration before that consumed a
byte or used up a failure. -/
structure HandlerEnds (rt : Runtime) (room : Nat) (stream : Bytes) (env : Nat → Arrival)
    (fails : Nat) : Prop where
  ends : ∃ n ≤ stream.length + fails + 1, ∀ m, n ≤ m →
    ∃ s, runOn room rt env m (.running (start stream)) = .running s
      ∧ s.handler.pc = .returned ∧ s.handler.unlocks = 1
  progress : ∀ n s s', runOn room rt env n (.running (start stream)) = .running s →
    runOn room rt env (n + 1) (.running (start stream)) = .running s' →
    s'.handler.pc ≠ .returned →
    s'.connection.unread.length < s.connection.unread.length ∨ 0 < (env n).failures

/-- **When the handler ends and releases the lock**: for every stream and
every arrival of its bytes, if and only if no header that the handler reads
decodes to an array larger than the room on its stack. -/
theorem handler_ends_iff (hrt : rt.Documented) (room : Nat) (stream : Bytes)
    (env : Nat → Arrival) (fails : Nat) (henv : ∀ n, failures env n ≤ fails) :
    HandlerEnds rt room stream env fails ↔ ∀ n, HeadersFit rt room env n .zero stream := by
  constructor
  · intro hends n
    by_contra hfit
    obtain ⟨n', -, hafter⟩ := hends.ends
    -- once killed, the process never gets to the unlock
    have hkilled : ∀ m, n ≤ m → runOn room rt env m (.running (start stream)) = .killed := by
      intro m hm
      refine runOn_of_not_fit m .zero [] stream fun hfit' => hfit ?_
      exact HeadersFit.mono hm hfit'
    obtain ⟨s, hrun, -⟩ := hafter (max n n') (Nat.le_max_right _ _)
    rw [hkilled _ (Nat.le_max_left _ _)] at hrun
    cases hrun
  · intro hfit
    have hsame : ∀ n, runOn room rt env n (.running (start stream))
        = .running (run rt env n (start stream)) :=
      fun n => runOn_of_fit n .zero [] stream (hfit n)
    refine ⟨?_, ?_⟩
    · obtain ⟨n, hn, hafter⟩ := run_ends hrt stream env fails henv
      exact ⟨n, hn, fun m hm => ⟨_, hsame m, hafter m hm⟩⟩
    · intro n s s' hs hs' hpc
      rw [hsame] at hs hs'
      cases hs
      cases hs'
      exact run_progress hrt stream env n hpc

/-- Both calls of the first iteration fail; later peeks see one byte. -/
def failingFirst : Nat → Arrival
  | 0 => ⟨.fails, .fails, fun _ => 0⟩
  | _ + 1 => ⟨.sees 0, .sees 0, fun _ => 0⟩

theorem failures_failingFirst (n : Nat) : failures failingFirst n ≤ 2 := by
  have hrest : ∀ n, failures (fun i => failingFirst (i + 1)) n = 0 := by
    intro n
    induction n with
    | zero => rfl
    | succ n ih =>
        rw [failures]
        exact (Nat.zero_add _).trans ih
  cases n with
  | zero => exact Nat.zero_le 2
  | succ n =>
      rw [failures, hrest]
      exact Nat.le_refl 2

/-- A stream that holds no complete header, on a stack with room for every
array. -/
theorem handler_ends_incomplete :
    HandlerEnds reference (2 ^ 28 + 3) [0x80, 0x80, 0x80, 0x80, 0x80] failingFirst 2 :=
  (handler_ends_iff reference_documented _ _ _ 2 failures_failingFirst).mpr fun n =>
    headersFit_of_room reference_documented (Nat.le_refl _) n _ _

/-- On the usual stack of `2^23` bytes, four bytes of a client kill the
server with the lock held. -/
theorem not_handler_ends : ¬ ∀ (stream : Bytes) (env : Nat → Arrival) (fails : Nat),
    (∀ n, failures env n ≤ fails) → HandlerEnds reference (2 ^ 23) stream env fails := by
  intro h
  have henv : ∀ n, failures (fun _ => ⟨.sees 3, .sees 0, fun _ => 0⟩) n ≤ 0 := by
    intro n
    induction n with
    | zero => exact Nat.le_refl 0
    | succ n ih =>
        rw [failures]
        exact (Nat.zero_add _).le.trans ih
  obtain ⟨n, -, hafter⟩ := (h [0xFF, 0xFF, 0xFF, 0x7F] _ 0 henv).ends
  obtain ⟨s, hrun, -⟩ := hafter (n + 1) (Nat.le_succ n)
  have hfirst : iterateOn (2 ^ 23) reference ⟨.sees 3, .sees 0, fun _ => 0⟩
      (.running (start [0xFF, 0xFF, 0xFF, 0x7F])) = .killed := by
    decide +kernel
  rw [runOn, hfirst, runOn_killed] at hrun
  cases hrun

end Session

end Assignment.Socket
