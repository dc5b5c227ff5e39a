import Assignment.Runtime

/-!
# The generated parse loop

Every `MergePartialFromCodedStream` that protoc generated (`message.pb.cc`,
`addressbook.pb.cc`) is one loop around a `switch` on the tag. `mergeLoop`
is that loop and `Generated` is what differs: the fields of the `switch`
and where the unknown fields are kept. One turn of the loop is `mergeTurn`;
the lemmas advance the loop over one written field at a time.
-/

namespace Assignment

/-- How a `MergePartialFromCodedStream` returns: `false`, or `true` together
with what `ConsumedEntireMessage` answers afterwards. -/
inductive MergeEnd
  | failure
  | success (consumedEntireMessage : Bool)
deriving DecidableEq, Repr

/-- What one turn of the loop leads to. -/
inductive Turn
  | more (rest : Bytes)
  | stop (how : MergeEnd)
deriving DecidableEq, Repr

/-- A failed reader is the `goto failure` of `DO_`. -/
def Turn.ofRead : Option Bytes → Turn
  | some rest => .more rest
  | none => .stop .failure

/-- A member of a message. -/
structure Slot (M A : Type) where
  get : M → A
  set : A → M → M
  get_set : ∀ s m, get (set s m) = s := by intros; rfl
  set_get : ∀ m, set (get m) m = m := by intros; rfl
  set_set : ∀ s s' m, set s (set s' m) = set s m := by intros; rfl

/-- The part of a generated parser that belongs to its message. -/
structure Generated (M : Type) where
  /-- The `case` labels: the reader of the field with this tag. -/
  field : UInt32 → Option (Bytes → M → M × Option Bytes)
  /-- `_internal_metadata_.mutable_unknown_fields()` -/
  unknownFields : Slot M Bytes

variable {M : Type}

/-- `ReadString` into a member, then `VerifyUtf8String` on it. -/
def readText (rt : Runtime) (slot : Slot M Bytes) (input : Bytes) (m : M) : M × Option Bytes :=
  let r := rt.readString input (slot.get m)
  (slot.set r.1 m, if rt.verifyUtf8String r.1 then r.2 else none)

/-- `SkipField` into the unknown fields. -/
def skipInto (rt : Runtime) (slot : Slot M Bytes) (tag : UInt32) (input : Bytes) (m : M) :
    M × Option Bytes :=
  let r := rt.skipField tag input (slot.get m)
  (slot.set r.1 m, r.2)

/-- One turn of the `for (;;)`: the `switch`, and `handle_unusual`. -/
def mergeTurn (rt : Runtime) (msg : Generated M) (input : Bytes) (m : M) : M × Turn :=
  let p := rt.readTag input
  match if p.known then msg.field p.tag else none with
  | some read => ((read p.rest m).1, .ofRead (read p.rest m).2)
  | none =>
      -- `handle_unusual`: tag 0 ends the message, any other is an unknown field
      if p.tag = 0 then (m, .stop (.success p.atEnd))
      else ((skipInto rt msg.unknownFields p.tag p.rest m).1,
        .ofRead (skipInto rt msg.unknownFields p.tag p.rest m).2)

/-- The `for (;;)` of a generated `MergePartialFromCodedStream`. -/
def mergeLoop (rt : Runtime) (msg : Generated M) : Nat → Bytes → M → M × MergeEnd
  | 0, _, m => (m, .failure)
  | fuel + 1, input, m => match mergeTurn rt msg input m with
      | (m', .more rest) => mergeLoop rt msg fuel rest m'
      | (m', .stop how) => (m', how)

/-- `MergePartialFromCodedStream`: every turn consumes input, so the length
of the input bounds the number of turns (`mergeLoop_fuel`). -/
def mergeFrom (rt : Runtime) (msg : Generated M) (input : Bytes) (m : M) : M × MergeEnd :=
  mergeLoop rt msg (input.length + 1) input m

/-- The readers of the `switch` do not move backward, and no `case` is `0`. -/
structure Generated.Forward (msg : Generated M) : Prop where
  field_zero : msg.field 0 = none
  field_le : ∀ tag read, msg.field tag = some read →
    ∀ input m m' rest, read input m = (m', some rest) → rest.length ≤ input.length

theorem Turn.ofRead_eq_more {r : Option Bytes} {rest : Bytes} :
    Turn.ofRead r = .more rest ↔ r = some rest := by
  cases r <;> simp [Turn.ofRead]

theorem readText_le {rt : Runtime} (hrt : rt.Documented) {slot : Slot M Bytes}
    {input rest : Bytes} {m m' : M} (h : readText rt slot input m = (m', some rest)) :
    rest.length ≤ input.length := by
  simp only [readText, Prod.mk.injEq, Option.ite_none_right_eq_some] at h
  exact hrt.string_le input _ _ _ (Prod.ext rfl h.2.2)

/-- The turn over a field that the `switch` has a reader for. -/
theorem mergeTurn_field {rt : Runtime} {msg : Generated M} {input payload : Bytes} {tag : UInt32}
    {read : Bytes → M → M × Option Bytes} (htag : rt.readTag input = ⟨tag, true, payload, false⟩)
    (hfield : msg.field tag = some read) (m : M) :
    mergeTurn rt msg input m = ((read payload m).1, .ofRead (read payload m).2) := by
  simp only [mergeTurn, htag, if_true, hfield]

/-- A turn that goes on has consumed input. -/
theorem mergeTurn_shortens {rt : Runtime} (hrt : rt.Documented) {msg : Generated M}
    (hmsg : msg.Forward) {input rest : Bytes} {m m' : M}
    (h : mergeTurn rt msg input m = (m', .more rest)) : rest.length < input.length := by
  simp only [mergeTurn] at h
  split at h
  · rename_i read hread
    rw [Option.ite_none_right_eq_some] at hread
    -- a `case` of the `switch` is never 0, so the tag was read
    have htag : (rt.readTag input).tag ≠ 0 := by
      intro h0
      rw [h0, hmsg.field_zero] at hread
      cases hread.2
    have hlt := hrt.tag_shortens input htag
    simp only [Prod.mk.injEq, Turn.ofRead_eq_more] at h
    have hle := hmsg.field_le _ read hread.2 _ m m' rest (Prod.ext h.1 h.2)
    omega
  · split at h
    · cases h
    · rename_i htag
      have hlt := hrt.tag_shortens input htag
      simp only [Prod.mk.injEq, Turn.ofRead_eq_more, skipInto] at h
      have hle := hrt.skip_le _ _ _ _ rest (Prod.ext rfl h.2)
      omega

/-- A turn that ends the loop successfully leaves the message as it is. -/
theorem mergeTurn_success {rt : Runtime} {msg : Generated M} {input : Bytes} {m m' : M}
    {b : Bool} (h : mergeTurn rt msg input m = (m', .stop (.success b))) : m' = m := by
  simp only [mergeTurn] at h
  split at h
  · rename_i read _
    cases hr : (read (rt.readTag input).rest m).2 <;> simp [Turn.ofRead, hr] at h
  · split at h
    · cases h
      rfl
    · rename_i htag
      cases hr : (skipInto rt msg.unknownFields (rt.readTag input).tag
        (rt.readTag input).rest m).2 <;> simp [Turn.ofRead, hr] at h

section
variable {rt : Runtime} (hrt : rt.Documented) {msg : Generated M} (hmsg : msg.Forward)
include hrt hmsg

/-- Any fuel above the length of the input gives the same result. -/
theorem mergeLoop_fuel (fuel fuel' : Nat) (input : Bytes) (m : M) (hf : input.length < fuel)
    (hf' : input.length < fuel') :
    mergeLoop rt msg fuel input m = mergeLoop rt msg fuel' input m := by
  induction hn : input.length using Nat.strong_induction_on generalizing fuel fuel' input m with
  | h n ih =>
      obtain ⟨fuel, rfl⟩ := Nat.exists_eq_succ_of_ne_zero (show fuel ≠ 0 by omega)
      obtain ⟨fuel', rfl⟩ := Nat.exists_eq_succ_of_ne_zero (show fuel' ≠ 0 by omega)
      rw [mergeLoop, mergeLoop]
      split
      · rename_i m' rest hturn
        -- the turn has consumed a byte, so one unit of fuel less is still enough
        have hlt := mergeTurn_shortens hrt hmsg hturn
        exact ih rest.length (by omega) fuel fuel' rest m' (by omega) (by omega) rfl
      · rfl

theorem mergeFrom_more {input rest : Bytes} {m m' : M}
    (h : mergeTurn rt msg input m = (m', .more rest)) :
    mergeFrom rt msg input m = mergeFrom rt msg rest m' := by
  have hlt := mergeTurn_shortens hrt hmsg h
  rw [mergeFrom, mergeLoop, h]
  exact mergeLoop_fuel hrt hmsg _ _ _ _ hlt (Nat.lt_succ_self _)

omit hrt hmsg in
theorem mergeFrom_stop {input : Bytes} {m m' : M} {how : MergeEnd}
    (h : mergeTurn rt msg input m = (m', .stop how)) :
    mergeFrom rt msg input m = (m', how) := by
  rw [mergeFrom, mergeLoop, h]

omit hmsg in
/-- The end of the input is a success. -/
theorem mergeFrom_nil (m : M) : mergeFrom rt msg [] m = (m, .success true) := by
  apply mergeFrom_stop
  simp [mergeTurn, hrt.tag_end]

/-- **The invariant rule** of the loop: what every turn preserves holds of a
successfully parsed message. -/
theorem mergeFrom_invariant (P : M → Prop)
    (hturn : ∀ input m m' rest, P m → mergeTurn rt msg input m = (m', .more rest) → P m')
    {input : Bytes} {m m' : M} {b : Bool} (hm : P m)
    (h : mergeFrom rt msg input m = (m', .success b)) : P m' := by
  induction hn : input.length using Nat.strong_induction_on generalizing input m with
  | h n ih =>
      cases ht : mergeTurn rt msg input m with
      | mk m₁ turn =>
          cases turn with
          | more rest =>
              have hlt := mergeTurn_shortens hrt hmsg ht
              rw [mergeFrom_more hrt hmsg ht] at h
              exact ih rest.length (by omega) (hturn _ _ _ _ hm ht) h rfl
          | stop how =>
              rw [mergeFrom_stop ht] at h
              cases h
              rwa [mergeTurn_success ht]

/-- A field that is read goes on with the rest of the input, or fails. -/
theorem mergeFrom_field {input payload : Bytes} {tag : UInt32}
    {read : Bytes → M → M × Option Bytes} (htag : rt.readTag input = ⟨tag, true, payload, false⟩)
    (hfield : msg.field tag = some read) (m : M) :
    mergeFrom rt msg input m = match (read payload m).2 with
      | some rest => mergeFrom rt msg rest (read payload m).1
      | none => ((read payload m).1, .failure) := by
  have hturn := mergeTurn_field htag hfield m
  cases hread : (read payload m).2 with
  | some rest => exact mergeFrom_more hrt hmsg (by rw [hturn, hread, Turn.ofRead])
  | none => exact mergeFrom_stop (by rw [hturn, hread, Turn.ofRead])

end

/-! ## String fields -/

theorem text_length {rt : Runtime} (hrt : rt.Documented) {field : Nat} (h1 : 1 ≤ field)
    (h15 : field ≤ 15) {s : Bytes} (hs : s.length < 2 ^ 31) :
    (if s.length > 0 then rt.writeString field s else []).length
      = if s.length > 0 then 1 + rt.stringSize s else 0 := by
  rw [apply_ite List.length, hrt.string_size field s h1 h15 hs, List.length_nil]

/-- **A string field**, left out when it is empty: parsing goes on with the
string stored, or stops there when it is not valid UTF-8. -/
theorem mergeFrom_text {rt : Runtime} (hrt : rt.Documented) {msg : Generated M}
    (hmsg : msg.Forward) {slot : Slot M Bytes} {field : Nat} (h1 : 1 ≤ field) (h15 : field ≤ 15)
    (hfield : msg.field (lengthDelimitedTag field) = some (readText rt slot)) {s : Bytes}
    (hs : s.length < 2 ^ 31) (rest : Bytes) {m : M} (hm : slot.get m = []) :
    mergeFrom rt msg ((if s.length > 0 then rt.writeString field s else []) ++ rest) m
      = if rt.verifyUtf8String s then mergeFrom rt msg rest (slot.set s m)
        else (slot.set s m, .failure) := by
  by_cases hpos : s.length > 0
  · obtain ⟨payload, htag, hread⟩ := hrt.string_roundTrip field s rest (slot.get m) h1 h15 hs
    rw [if_pos hpos, mergeFrom_field hrt hmsg htag hfield]
    simp only [readText, hread]
    by_cases hutf : rt.verifyUtf8String s = true
    · rw [if_pos hutf, if_pos hutf]
    · rw [if_neg hutf, if_neg hutf]
  · obtain rfl : s = [] := List.length_eq_zero_iff.mp (by omega)
    rw [if_neg hpos, if_pos hrt.utf8_empty, List.nil_append, ← hm, slot.set_get]

/-- A string that was read into a member was verified. -/
theorem readText_valid {rt : Runtime} {slot : Slot M Bytes} {input rest : Bytes} {m m' : M}
    (h : readText rt slot input m = (m', some rest)) :
    ∃ s, m' = slot.set s m ∧ rt.verifyUtf8String s = true := by
  simp only [readText, Prod.mk.injEq, Option.ite_none_right_eq_some] at h
  exact ⟨_, h.1.symm, h.2.1⟩

/-! ## Unknown fields -/

/-- One field as `SkipField` stores it: read back, it takes the same way
through the `switch` and is stored again. -/
def UnknownField (rt : Runtime) (msg : Generated M) (stored : Bytes) : Prop :=
  ∃ tag known, tag ≠ 0 ∧ (if known then msg.field tag else none) = none ∧
    ∀ rest kept, ∃ payload, rt.readTag (stored ++ rest) = ⟨tag, known, payload, false⟩
      ∧ rt.skipField tag payload kept = (kept ++ stored, some rest)

/-- The unknown fields that parsing can leave in a message. -/
inductive UnknownFields (rt : Runtime) (msg : Generated M) : Bytes → Prop
  | nil : UnknownFields rt msg []
  | append {stored field : Bytes} : UnknownFields rt msg stored → UnknownField rt msg field →
      UnknownFields rt msg (stored ++ field)

/-- Stored unknown fields are read back as they are. -/
theorem mergeFrom_unknownFields {rt : Runtime} (hrt : rt.Documented) {msg : Generated M}
    (hmsg : msg.Forward) {stored : Bytes} (h : UnknownFields rt msg stored) (m : M)
    (rest : Bytes) :
    mergeFrom rt msg (stored ++ rest) m
      = mergeFrom rt msg rest
          (msg.unknownFields.set (msg.unknownFields.get m ++ stored) m) := by
  induction h generalizing rest with
  | nil => simp [msg.unknownFields.set_get]
  | @append stored field _ hfield ih =>
      obtain ⟨tag, known, htag, hcase, hreads⟩ := hfield
      rw [List.append_assoc, ih]
      obtain ⟨payload, hread, hskip⟩ := hreads rest (msg.unknownFields.get m ++ stored)
      apply mergeFrom_more hrt hmsg
      simp only [mergeTurn, hread, hcase, if_neg htag, skipInto, msg.unknownFields.get_set,
        hskip, msg.unknownFields.set_set, Turn.ofRead, List.append_assoc]

/-- What a turn through `handle_unusual` adds is an unknown field. -/
theorem skipInto_unknownField {rt : Runtime} (hrt : rt.Documented) {msg : Generated M}
    {input rest : Bytes} {m m' : M} (htag : (rt.readTag input).tag ≠ 0)
    (hcase : (if (rt.readTag input).known then msg.field (rt.readTag input).tag else none) = none)
    (h : skipInto rt msg.unknownFields (rt.readTag input).tag (rt.readTag input).rest m
      = (m', some rest)) :
    ∃ field, UnknownField rt msg field
      ∧ m' = msg.unknownFields.set (msg.unknownFields.get m ++ field) m := by
  simp only [skipInto, Prod.mk.injEq] at h
  obtain ⟨field, hkept, hreads⟩ :=
    hrt.skip_reencodes input (msg.unknownFields.get m) _ rest htag (Prod.ext rfl h.2)
  refine ⟨field, ⟨_, _, htag, hcase, hreads⟩, ?_⟩
  rw [← h.1]
  exact congrArg (fun kept => msg.unknownFields.set kept m) hkept

/-- A turn that goes on has read a field of the `switch` or stored an unknown
one. -/
theorem mergeTurn_more {rt : Runtime} (hrt : rt.Documented) {msg : Generated M}
    {input rest : Bytes} {m m' : M} (h : mergeTurn rt msg input m = (m', .more rest)) :
    (∃ tag read payload, msg.field tag = some read ∧ read payload m = (m', some rest))
      ∨ ∃ field, UnknownField rt msg field
        ∧ m' = msg.unknownFields.set (msg.unknownFields.get m ++ field) m := by
  simp only [mergeTurn] at h
  split at h
  · rename_i read hread
    obtain ⟨-, hread⟩ := Option.ite_none_right_eq_some.mp hread
    obtain ⟨hm, hrest⟩ := Prod.mk.inj h
    exact .inl ⟨_, read, _, hread, Prod.ext hm (Turn.ofRead_eq_more.mp hrest)⟩
  · rename_i hcase
    split at h
    · cases h
    · rename_i htag
      obtain ⟨hm, hrest⟩ := Prod.mk.inj h
      exact .inr (skipInto_unknownField hrt htag hcase
        (Prod.ext hm (Turn.ofRead_eq_more.mp hrest)))

/-- `SerializeUnknownFields`, where the message has any. -/
def writeUnknownFields (rt : Runtime) (stored : Bytes) : Bytes :=
  if stored ≠ [] ∧ rt.preserveUnknowns = true then stored else []

theorem writeUnknownFields_eq {rt : Runtime} (hrt : rt.Documented) (stored : Bytes) :
    writeUnknownFields rt stored = stored := by
  by_cases h : stored = []
  · simp [writeUnknownFields, h]
  · simp [writeUnknownFields, h, hrt.unknowns_kept]

/-! ## `MergeFrom` -/

/-- `if (from.x().size() > 0) x_.AssignWithDefault(…, from.x_)` -/
def mergeString (slot : Slot M Bytes) (s : Bytes) (m : M) : M :=
  if s.length > 0 then slot.set s m else m

/-- `if (from.x() != 0) set_x(from.x())` -/
def mergeNumber (slot : Slot M Int32) (v : Int32) (m : M) : M :=
  if v ≠ 0 then slot.set v m else m

/-- A valid string field is read into a message as `MergeFrom` assigns it. -/
theorem mergeFrom_mergeString {rt : Runtime} (hrt : rt.Documented) {msg : Generated M}
    (hmsg : msg.Forward) {slot : Slot M Bytes} {field : Nat} (h1 : 1 ≤ field) (h15 : field ≤ 15)
    (hfield : msg.field (lengthDelimitedTag field) = some (readText rt slot)) {s : Bytes}
    (hs : s.length < 2 ^ 31) (hutf : rt.verifyUtf8String s = true) (rest : Bytes) (m : M) :
    mergeFrom rt msg ((if s.length > 0 then rt.writeString field s else []) ++ rest) m
      = mergeFrom rt msg rest (mergeString slot s m) := by
  by_cases hpos : s.length > 0
  · obtain ⟨payload, htag, hread⟩ := hrt.string_roundTrip field s rest (slot.get m) h1 h15 hs
    rw [if_pos hpos, mergeString, if_pos hpos, mergeFrom_field hrt hmsg htag hfield]
    simp only [readText, hread, hutf, if_true]
  · rw [if_neg hpos, mergeString, if_neg hpos, List.nil_append]

/-- Messages back to back, each of which merges into what was read before. -/
theorem mergeFrom_flatMap {rt : Runtime} (hrt : rt.Documented) {msg : Generated M}
    {serialize : M → Bytes} {merge : M → M → M} {parts : List M}
    (hparts : ∀ part ∈ parts, ∀ rest m,
      mergeFrom rt msg (serialize part ++ rest) m = mergeFrom rt msg rest (merge m part)) (m : M) :
    mergeFrom rt msg (parts.flatMap serialize) m = (parts.foldl merge m, .success true) := by
  induction parts generalizing m with
  | nil => exact mergeFrom_nil hrt m
  | cons part parts ih =>
      rw [List.flatMap_cons, hparts part (by simp), List.foldl_cons]
      exact ih (fun part' h => hparts part' (by simp [h])) _

end Assignment
