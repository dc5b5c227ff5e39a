import Assignment.Socket.Message

/-!
# The connection handler (Server.cpp)

`SocketHandler` as a state machine that stops at each of its two `recv`
calls: `Handler.onRecv` runs the code from one `recv` to the next, given
what the call returned. `readHdr` and `readBody` are the functions of that
name. Everything printed is a `Line`; the uninitialised array of `readBody`
is the parameter `stack`.
-/

namespace Assignment.Socket

open Buffer

/-- What a `recv` returns: `-1`, or the bytes it stored (none at the end of
the stream). -/
inductive RecvResult
  | error
  | received (bytes : Bytes)
deriving DecidableEq, Repr

namespace RecvResult

/-- The bytes stored at the front of the buffer. -/
def bytes : RecvResult → Bytes
  | error => []
  | received bytes => bytes

/-- The `int` returned. -/
def bytecount : RecvResult → Int
  | error => -1
  | received bytes => bytes.length

end RecvResult

/-- What the server prints. -/
inductive Line
  | receivedConnection
  | errorReceivingData
  | firstReadByteCount (bytecount : Int)
  | sizeOfPayload (size : UInt32)
  | secondReadByteCount (bytecount : Int)
  | messageIs (payload : LogPacket)
deriving DecidableEq, Repr

/-- The `Message is` lines among the printed ones. -/
def messages (out : List Line) : List LogPacket :=
  out.filterMap fun
    | .messageIs payload => some payload
    | _ => none

@[simp] theorem messages_append (out out' : List Line) :
    messages (out ++ out') = messages out ++ messages out' := by
  simp [messages]

/-- `if (… == -1) fprintf(stderr, "Error receiving data %d\n", errno);` -/
def errorLine : RecvResult → List Line
  | .error => [.errorReceivingData]
  | .received _ => []

@[simp] theorem messages_errorLine (r : RecvResult) : messages (errorLine r) = [] := by
  cases r <;> rfl

/-- `char buffer[4]`, which the peeks share. -/
structure Header where
  bytes : Bytes
  length_eq : bytes.length = 4
deriving DecidableEq

namespace Header

/-- `memset(buffer, '\0', 4)` -/
def zero : Header := ⟨[0, 0, 0, 0], rfl⟩

/-- The header after a `recv` stored these bytes into it. -/
def fill (h : Header) (got : Bytes) : Header :=
  ⟨overwrite h.bytes got, by rw [overwrite_length, h.length_eq]⟩

end Header

/-- The value `readHdr` returns for the four bytes at `buf`: the output
variable of `ReadVarint32`, whose success is not looked at. -/
def readHdr (rt : Runtime) (buf : Bytes) : UInt32 :=
  (rt.readVarint32 (buf.take 4)).value

/-- What `readBody` makes of its buffer: the inner length, a limit of that
length, and a parse whose result is not looked at. -/
def decodeBody (rt : Runtime) (buffer : Bytes) : LogPacket :=
  -- `ReadVarint32(&siz)` overwrites the size that was received for
  let siz := rt.readVarint32 buffer
  (LogPacket.parseFromCodedStream rt (rt.pushLimit siz.value.toInt32.toInt siz.rest)).1

/-- `char buffer [siz+4]` as the stack left it, on a stack that has room for
it. -/
def uninitialised (siz : UInt32) (stack : Nat → UInt8) : Bytes :=
  (List.range (siz + 4).toNat).map stack

@[simp] theorem uninitialised_length (siz : UInt32) (stack : Nat → UInt8) :
    (uninitialised siz stack).length = (siz + 4).toNat := by
  simp [uninitialised]

/-- What `readBody` prints once its `recv` of `4+siz` bytes has returned. -/
def readBody (rt : Runtime) (siz : UInt32) (stack : Nat → UInt8) (r : RecvResult) : List Line :=
  let buffer := overwrite (uninitialised siz stack) r.bytes
  errorLine r ++ [.secondReadByteCount r.bytecount, .messageIs (decodeBody rt buffer)]

@[simp] theorem messages_readBody (rt : Runtime) (siz : UInt32) (stack : Nat → UInt8)
    (r : RecvResult) :
    messages (readBody rt siz stack r)
      = [decodeBody rt (overwrite (uninitialised siz stack) r.bytes)] := by
  rw [readBody, messages_append, messages_errorLine]
  rfl

/-- Where a handler stands: before `pthread_mutex_lock`, before the `recv`
at the head of the loop, before the `recv` inside `readBody`, before
`pthread_mutex_unlock`, or returned. -/
inductive Pc
  | lock
  | peek
  | body (siz : UInt32)
  | unlock
  | returned
deriving DecidableEq

inductive RecvFlag
  | peek
  | waitall
deriving DecidableEq

/-- The `recv` a handler is about to make: its flag and its length, which
for the body is `4+siz` in 32-bit arithmetic. -/
def Pc.request : Pc → Option (RecvFlag × Nat)
  | .peek => some (.peek, 4)
  | .body siz => some (.waitall, (4 + siz).toNat)
  | _ => none

/-- A thread of `SocketHandler`: its place in the code, the peek buffer, the
lines it printed and how often it unlocked the mutex. -/
structure Handler where
  pc : Pc
  buffer : Header
  out : List Line
  unlocks : Nat
deriving DecidableEq

namespace Handler

/-- The thread as `pthread_create` starts it. -/
def created : Handler := ⟨.lock, .zero, [], 0⟩

/-- The thread once it holds the lock and has cleared its buffer. -/
def locked (h : Handler) : Handler := { h with pc := .peek, buffer := .zero }

/-- The code from a `recv` that returned `r` to the next one. -/
def onRecv (rt : Runtime) (stack : Nat → UInt8) (h : Handler) (r : RecvResult) : Handler :=
  match h.pc with
  | .peek =>
      if r = .received [] then { h with pc := .unlock }
      else
        -- after an error the loop goes on with the bytes of earlier peeks
        let buffer := h.buffer.fill r.bytes
        let siz := readHdr rt buffer.bytes
        { h with
          pc := .body siz
          buffer := buffer
          out := h.out ++ errorLine r ++ [.firstReadByteCount r.bytecount, .sizeOfPayload siz] }
  | .body siz => { h with pc := .peek, out := h.out ++ readBody rt siz stack r }
  | _ => h

/-- `pthread_mutex_unlock(&lock)` and the return. -/
def unlocked (h : Handler) : Handler := { h with pc := .returned, unlocks := h.unlocks + 1 }

end Handler

/-! ## What the two functions compute -/

section
variable {rt : Runtime} (hrt : rt.Documented)
include hrt

/-- The header of four bytes is a size below `2^28`, or `0xFFFFFFFF`. -/
theorem readHdr_cases (buf : Bytes) :
    (readHdr rt buf).toNat < 2 ^ 28 ∨ readHdr rt buf = 0xFFFFFFFF := by
  have h4 : (buf.take 4).length ≤ 4 := by
    rw [List.length_take]
    omega
  rcases hrt.readVarint32_four h4 with ⟨n, rest, hread, hn, -⟩ | ⟨-, hvalue⟩
  · exact .inl (by rw [readHdr, hread]; exact hn)
  · exact .inr hvalue

/-- A complete varint in front of the buffer is what `readHdr` returns. -/
theorem readHdr_complete {front : Bytes} {n : UInt32} {rest : Bytes} (hlen : front.length ≤ 4)
    (hread : rt.readVarint32 front = ⟨true, n, rest⟩) (more : Bytes) :
    readHdr rt (front ++ more) = n := by
  have htake : (front ++ more).take 4 = front ++ more.take (4 - front.length) := by
    rw [List.take_append, List.take_of_length_le hlen]
  rw [readHdr, htake, hrt.varint_local _ _ _ _ hread]

/-- Once the buffer holds the length and the bytes it announces, the packet
is parsed from these bytes, whatever follows. -/
theorem decodeBody_complete {front : Bytes} {n : UInt32} {rest : Bytes}
    (hread : rt.readVarint32 front = ⟨true, n, rest⟩) (hn : n.toNat < 2 ^ 31)
    (hrest : n.toNat ≤ rest.length) (more : Bytes) :
    decodeBody rt (front ++ more)
      = (LogPacket.parseFromCodedStream rt (rest.take n.toNat)).1 := by
  have hint : n.toInt32.toInt = (n.toNat : Int) :=
    BitVec.toInt_eq_toNat_of_lt (by change 2 * n.toNat < 2 ^ 32; omega)
  have hlimit : rt.pushLimit (n.toNat : Int) (rest ++ more) = rest.take n.toNat := by
    rw [hrt.limit_take _ _ (by omega), Int.toNat_natCast, List.take_append_of_le_length hrest]
  rw [decodeBody, hrt.varint_local _ _ _ more hread]
  simp only [hint, hlimit]

end

/-- The length of the body `recv` for a size that `readHdr` decoded. -/
theorem bodyLength_of_lt {siz : UInt32} (h : siz.toNat < 2 ^ 28) :
    (4 + siz).toNat = siz.toNat + 4 := by
  rw [UInt32.toNat_add]
  have h4 : (4 : UInt32).toNat = 4 := rfl
  omega

/-- The length of the body `recv` after an incomplete header. -/
theorem bodyLength_incomplete : ((4 : UInt32) + 0xFFFFFFFF).toNat = 3 := rfl

theorem bufferLength_eq (siz : UInt32) : (siz + 4).toNat = (4 + siz).toNat := by
  rw [UInt32.add_comm]

end Assignment.Socket
