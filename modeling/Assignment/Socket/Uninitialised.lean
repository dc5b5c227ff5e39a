import Assignment.Lib.Runs
import Assignment.Reference
import Assignment.Socket.Server

/-!
# Bytes that were never received

Two handlers get the same script of `recv` results, but the array
`buffer[siz+4]` of `readBody` starts with different contents in each.
`readBody` decodes the whole array whatever `recv` returned, so the two
print the same only while every body receive stores all that the decoder
goes on to look at (`prints_same`).
-/

namespace Assignment.Socket

open Buffer Runs

/-- What is stored by a `recv` of `len` bytes. -/
def RecvResult.clip (len : Nat) : RecvResult → RecvResult
  | error => error
  | received bytes => received (bytes.take len)

/-- One entry of the script, and what the stacks of the two handlers hold. -/
structure Receive where
  result : RecvResult
  stack₁ : Nat → UInt8
  stack₂ : Nat → UInt8

namespace Receive

/-- The handler's next `recv` returns `r`. -/
def deliver (rt : Runtime) (stack : Nat → UInt8) (r : RecvResult) (h : Handler) : Handler :=
  match h.pc.request with
  | some (_, len) => h.onRecv rt stack (r.clip len)
  | none => h

/-- The next `recv` of both handlers. -/
def both (rt : Runtime) (l : Receive) (p : Handler × Handler) : Option (Handler × Handler) :=
  some (deliver rt l.stack₁ l.result p.1, deliver rt l.stack₂ l.result p.2)

/-- Both hold the lock and have received nothing. -/
def begin : Handler × Handler := (Handler.created.locked, Handler.created.locked)

/-- The bytes stored for a request of `len` are all of it, or begin with a
length and as many bytes as it says. -/
def Covers (rt : Runtime) (len : Nat) (stored : Bytes) : Prop :=
  stored.length = len ∨ ((rt.readVarint32 stored).ok = true
    ∧ (rt.readVarint32 stored).value.toNat ≤ (rt.readVarint32 stored).rest.length)

instance (rt : Runtime) (len : Nat) (stored : Bytes) : Decidable (Covers rt len stored) :=
  inferInstanceAs (Decidable (_ ∨ _))

/-- A body receive covers what will be decoded; a peek may store anything. -/
def Filled (rt : Runtime) (l : Receive) (p : Handler × Handler) : Prop :=
  match p.1.pc.request with
  | some (.waitall, len) => Covers rt len (l.result.clip len).bytes
  | _ => True

instance (rt : Runtime) (l : Receive) (p : Handler × Handler) : Decidable (Filled rt l p) := by
  unfold Filled
  split <;> infer_instance

variable {rt : Runtime}

/-! ## One receive -/

theorem clip_length_le (len : Nat) (r : RecvResult) : (r.clip len).bytes.length ≤ len := by
  cases r with
  | error => exact Nat.zero_le _
  | received bytes => exact List.length_take_le _ _

/-- Stored bytes that cover the request leave the stack no say. -/
theorem decodeBody_covered (hrt : rt.Documented) {siz : UInt32} {stored : Bytes}
    (hsiz : (4 + siz).toNat < 2 ^ 31) (hlen : stored.length ≤ (4 + siz).toNat)
    (h : Covers rt (4 + siz).toNat stored) (stack₁ stack₂ : Nat → UInt8) :
    decodeBody rt (overwrite (uninitialised siz stack₁) stored)
      = decodeBody rt (overwrite (uninitialised siz stack₂) stored) := by
  have hsize : ∀ stack, (uninitialised siz stack).length = (4 + siz).toNat := by
    intro stack
    rw [uninitialised_length, bufferLength_eq]
  rcases h with hfull | ⟨hok, hvalue⟩
  · rw [overwrite_of_length_eq (hfull.trans (hsize stack₁).symm),
      overwrite_of_length_eq (hfull.trans (hsize stack₂).symm)]
  · obtain ⟨n, rest, hread⟩ : ∃ n rest, rt.readVarint32 stored = ⟨true, n, rest⟩ :=
      ⟨_, _, by rw [← hok]⟩
    have hrest := hrt.varint_le stored
    rw [hread] at hvalue hrest
    simp only at hvalue hrest
    have hn : n.toNat < 2 ^ 31 := by omega
    rw [overwrite_of_le (by rw [hsize]; exact hlen), overwrite_of_le (by rw [hsize]; exact hlen),
      decodeBody_complete hrt hread hn hvalue, decodeBody_complete hrt hread hn hvalue]

/-- No header announces a body that the limit of the decoder cannot hold. -/
def Bounded (h : Handler) : Prop := ∀ siz, h.pc = .body siz → (4 + siz).toNat < 2 ^ 31

theorem deliver_bounded (hrt : rt.Documented) (stack : Nat → UInt8) (r : RecvResult)
    (h : Handler) (hb : Bounded h) : Bounded (deliver rt stack r h) := by
  intro siz hpc
  unfold deliver at hpc
  split at hpc
  · rw [Handler.onRecv] at hpc
    split at hpc
    · split at hpc
      · cases hpc
      · cases hpc
        rcases readHdr_cases hrt (h.buffer.fill (r.clip _).bytes).bytes with hlt | heq
        · rw [bodyLength_of_lt hlt]
          omega
        · rw [heq, bodyLength_incomplete]
          omega
    · cases hpc
    · exact hb siz hpc
  · exact hb siz hpc

/-- The same handler, given the same covered result, goes on the same way. -/
theorem deliver_filled (hrt : rt.Documented) (l : Receive) (h : Handler) (hb : Bounded h)
    (hfilled : Filled rt l (h, h)) :
    deliver rt l.stack₁ l.result h = deliver rt l.stack₂ l.result h := by
  cases hpc : h.pc with
  | body siz =>
      -- the only place where the stack is looked at
      simp only [Filled, hpc, Pc.request] at hfilled
      have hdecode := decodeBody_covered hrt (hb siz hpc) (clip_length_le _ _) hfilled
        l.stack₁ l.stack₂
      simp only [deliver, Handler.onRecv, hpc, Pc.request, readBody, hdecode]
  | _ => simp only [deliver, Handler.onRecv, hpc, Pc.request]

/-! ## Whole scripts -/

/-- **Nothing unreceived is printed while every body receive is covered**:
in every run in which each of them stores all of what it asks for, or the
length and as many bytes as it says, the two handlers stay the same. -/
theorem prints_same (hrt : rt.Documented) {p : Handler × Handler}
    (h : Reaches (both rt) (Filled rt) begin p) : messages p.1.out = messages p.2.out := by
  have hbegin : Bounded Handler.created.locked := by
    intro siz hpc
    cases hpc
  have hsame : p.1 = p.2 ∧ Bounded p.1 := by
    refine h.invariant (fun p => p.1 = p.2 ∧ Bounded p.1) ⟨rfl, hbegin⟩ ?_
    rintro l ⟨h₁, h₂⟩ p' ⟨hsame, hb⟩ hfilled hstep
    cases hsame
    cases hstep
    exact ⟨deliver_filled hrt l h₁ hb hfilled, deliver_bounded hrt _ _ _ hb⟩
  rw [hsame.1]

/-- The script of a frame whose filler is cut off, over two stacks. -/
def cutFiller : List Receive :=
  [⟨.received [3, 0x0A, 1, 0x61], fun _ => 0, fun _ => 0⟩,
    ⟨.received [3, 0x0A, 1, 0x61], fun _ => 1, fun _ => 2⟩,
    ⟨.received [], fun _ => 0, fun _ => 0⟩]

/-- The same frame, cut inside its body. -/
def cutBody : List Receive :=
  [⟨.received [3, 0x0A, 1], fun _ => 0, fun _ => 0⟩,
    ⟨.received [3, 0x0A, 1], fun _ => 0x61, fun _ => 0x62⟩,
    ⟨.received [], fun _ => 0, fun _ => 0⟩]

theorem prints_same_cutFiller : ∃ p, Reaches (both reference) (Filled reference) begin p
    ∧ p.1.pc = .unlock ∧ messages p.1.out = [⟨[0x61], []⟩]
    ∧ messages p.1.out = messages p.2.out := by
  have hrun : ∃ p, exec (both reference) (Filled reference) cutFiller begin = some p
      ∧ p.1.pc = .unlock ∧ messages p.1.out = [⟨[0x61], []⟩] :=
    ⟨_, rfl, by decide +kernel, by decide +kernel⟩
  obtain ⟨p, hexec, hpc, hprints⟩ := hrun
  have hreach := reaches_of_exec hexec
  exact ⟨p, hreach, hpc, hprints, prints_same reference_documented hreach⟩

/-- The last letter of what is printed was on the stack. -/
theorem stack_printed : ¬ ∀ p : Handler × Handler,
    Reaches (both reference) anyStep begin p → messages p.1.out = messages p.2.out := by
  intro h
  have hrun : ∃ p, exec (both reference) anyStep cutBody begin = some p
      ∧ messages p.1.out ≠ messages p.2.out :=
    ⟨_, rfl, by decide +kernel⟩
  obtain ⟨p, hexec, hne⟩ := hrun
  exact hne (h p (reaches_of_exec hexec))

end Receive

end Assignment.Socket
