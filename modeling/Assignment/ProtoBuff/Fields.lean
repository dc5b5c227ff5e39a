import Assignment.ProtoBuff.Library

/-!
# Number and message fields of the generated parsers

The readers that the `switch`es of `addressbook.pb.cc` use besides
`readText`, and what the parse loop makes of each field as the generated
serialisers write it.
-/

namespace Assignment.ProtoBuff

variable {T M N : Type}

/-- `ReadPrimitive` into a member, which a failed read leaves alone. -/
def readNumber (rt : Runtime) (slot : Slot M Int32) (input : Bytes) (m : M) : M × Option Bytes :=
  match readInt32 rt input with
  | some (v, rest) => (slot.set v m, some rest)
  | none => (m, none)

/-- `ReadMessage` into a nested message, which keeps what a failed parse has
read so far. -/
def readSub (lib : Library T) (merge : Bytes → N → N × MergeEnd) (get : M → N) (put : N → M → M)
    (input : Bytes) (m : M) : M × Option Bytes :=
  let r := lib.readMessage merge input (get m)
  (put r.1 m, r.2)

/-- `ReadMessage` into a new last element of a repeated field. -/
def readElement (lib : Library T) (merge : Bytes → N → N × MergeEnd) (new : N)
    (slot : Slot M (List N)) : Bytes → M → M × Option Bytes :=
  readSub lib merge (fun _ => new) fun n m => slot.set (slot.get m ++ [n]) m

section
variable {lib : Library T} (hlib : lib.Documented)
include hlib

theorem readNumber_le {slot : Slot M Int32} {input rest : Bytes} {m m' : M}
    (h : readNumber lib.toRuntime slot input m = (m', some rest)) :
    rest.length ≤ input.length := by
  have hle := hlib.varint_le input
  simp only [readNumber, readInt32] at h
  split at h
  · rename_i v r hread
    obtain ⟨-, hvr⟩ := Option.ite_none_right_eq_some.mp hread
    cases hvr
    cases h
    exact hle
  · cases h

omit hlib in
theorem readNumber_sound {rt : Runtime} {slot : Slot M Int32} {input rest : Bytes} {m m' : M}
    (h : readNumber rt slot input m = (m', some rest)) : ∃ v, m' = slot.set v m := by
  rw [readNumber] at h
  split at h
  · cases h
    exact ⟨_, rfl⟩
  · cases h

theorem readSub_le {merge : Bytes → N → N × MergeEnd} {get : M → N} {put : N → M → M}
    {input rest : Bytes} {m m' : M} (h : readSub lib merge get put input m = (m', some rest)) :
    rest.length ≤ input.length :=
  (hlib.message_sound merge input (get m) _ rest (Prod.ext rfl (Prod.mk.inj h).2)).1

/-- What was read into a nested message had been parsed. -/
theorem readSub_sound {merge : Bytes → N → N × MergeEnd} {get : M → N} {put : N → M → M}
    {input rest : Bytes} {m m' : M} (h : readSub lib merge get put input m = (m', some rest)) :
    ∃ body n, merge body (get m) = (n, .success true) ∧ m' = put n m := by
  obtain ⟨hm, hrest⟩ := Prod.mk.inj h
  obtain ⟨-, body, hbody⟩ := hlib.message_sound merge input (get m) _ rest (Prod.ext rfl hrest)
  exact ⟨body, _, hbody, hm.symm⟩

variable {msg : Generated M} (hmsg : msg.Forward) {field : Nat} (h1 : 1 ≤ field) (h15 : field ≤ 15)
include hmsg h1 h15

omit hlib hmsg in
theorem number_length {write : Nat → Int32 → Bytes} {size : Int32 → Nat}
    (hwrite : lib.NumberField write size) (v : Int32) :
    (if v ≠ 0 then write field v else []).length = if v ≠ 0 then 1 + size v else 0 := by
  rw [apply_ite List.length, hwrite.length field v h1 h15, List.length_nil]

/-- **A number field**, left out when it is `0`. -/
theorem mergeFrom_number {write : Nat → Int32 → Bytes} {size : Int32 → Nat}
    (hwrite : lib.NumberField write size) {slot : Slot M Int32}
    (hfield : msg.field (varintTag field) = some (readNumber lib.toRuntime slot)) (v : Int32)
    (rest : Bytes) {m : M} (hm : slot.get m = 0) :
    mergeFrom lib.toRuntime msg ((if v ≠ 0 then write field v else []) ++ rest) m
      = mergeFrom lib.toRuntime msg rest (slot.set v m) := by
  by_cases hv : v ≠ 0
  · obtain ⟨payload, htag, hread⟩ := hwrite.roundTrip field v rest h1 h15
    rw [if_pos hv, mergeFrom_field hlib.toDocumented hmsg htag hfield]
    simp only [readNumber, hread]
  · obtain rfl : v = 0 := not_not.mp hv
    rw [if_neg hv, List.nil_append, ← hm, slot.set_get]

/-- **A nested message**: parsing goes on when its bytes parse. -/
theorem mergeFrom_sub {merge : Bytes → N → N × MergeEnd} {get : M → N} {put : N → M → M}
    (hfield : msg.field (lengthDelimitedTag field) = some (readSub lib merge get put))
    {body : Bytes} (hbody : body.length < 2 ^ 31) (rest : Bytes) (m : M) :
    mergeFrom lib.toRuntime msg (lib.writeMessage field body.length body ++ rest) m
      = if (merge body (get m)).2 = .success true then
          mergeFrom lib.toRuntime msg rest (put (merge body (get m)).1 m)
        else (put (merge body (get m)).1 m, .failure) := by
  obtain ⟨payload, htag, hread⟩ := hlib.message_roundTrip merge field body rest (get m) h1 h15 hbody
  rw [mergeFrom_field hlib.toDocumented hmsg htag hfield]
  simp only [readSub, hread]
  by_cases hend : (merge body (get m)).2 = .success true
  · rw [if_pos hend, if_pos hend]
  · rw [if_neg hend, if_neg hend]

/-! ## Repeated messages -/

/-- The elements of a repeated field, one after the other. -/
def writeElements (lib : Library T) (field : Nat) (size : N → Nat) (serialize : N → Bytes)
    (ns : List N) : Bytes :=
  ns.flatMap fun n => lib.writeMessage field (size n) (serialize n)

omit hlib hmsg h1 h15 in
theorem writeElements_cons (field : Nat) {size : N → Nat} {serialize : N → Bytes} {n : N}
    (hlen : (serialize n).length = size n) (ns : List N) :
    writeElements lib field size serialize (n :: ns)
      = lib.writeMessage field (serialize n).length (serialize n)
        ++ writeElements lib field size serialize ns := by
  rw [hlen]
  rfl

/-- What `ByteSizeLong` counts for a repeated field. -/
def elementsSize (lib : Library T) (size : N → Nat) (ns : List N) : Nat :=
  1 * ns.length + (ns.map fun n => lib.messageSize (size n)).sum

omit hlib hmsg h1 h15 in
theorem size_lt_elementsSize (hlib : lib.Documented) (size : N → Nat) {ns : List N} {n : N}
    (hn : n ∈ ns) : size n < elementsSize lib size ns := by
  have hmem : lib.messageSize (size n) ≤ (ns.map fun n => lib.messageSize (size n)).sum :=
    List.le_sum_of_mem (List.mem_map_of_mem hn)
  have hgt := hlib.message_size_gt (size n)
  rw [elementsSize]
  omega

variable {merge : Bytes → N → N × MergeEnd} {new : N} {slot : Slot M (List N)} {size : N → Nat}
  {serialize : N → Bytes}
  (hfield : msg.field (lengthDelimitedTag field) = some (readElement lib merge new slot))
include hfield

/-- **Elements that parse as themselves** are read back, in order. -/
theorem mergeFrom_elements {ns : List N}
    (hsize : ∀ n ∈ ns, (serialize n).length = size n ∧ size n < 2 ^ 31)
    (hns : ∀ n ∈ ns, merge (serialize n) new = (n, .success true)) (rest : Bytes) (m : M) :
    mergeFrom lib.toRuntime msg (writeElements lib field size serialize ns ++ rest) m
      = mergeFrom lib.toRuntime msg rest (slot.set (slot.get m ++ ns) m) := by
  induction ns generalizing m with
  | nil => rw [List.append_nil, slot.set_get]; rfl
  | cons n ns ih =>
      obtain ⟨hlen, hlt⟩ := hsize n (by simp)
      rw [writeElements_cons field hlen, List.append_assoc,
        mergeFrom_sub hlib hmsg h1 h15 hfield (by omega), hns n (by simp), if_pos rfl]
      have hrest := ih (fun n hn => hsize n (by simp [hn])) (fun n hn => hns n (by simp [hn]))
        (slot.set (slot.get m ++ [n]) m)
      rw [slot.get_set, slot.set_set, List.append_assoc, List.singleton_append] at hrest
      exact hrest

/-- **The first element that does not parse** is the last that is read, as
far as it goes. -/
theorem mergeFrom_elements_cut {good more : List N} {n : N}
    (hsize : ∀ n' ∈ good ++ n :: more, (serialize n').length = size n' ∧ size n' < 2 ^ 31)
    (hgood : ∀ n' ∈ good, merge (serialize n') new = (n', .success true))
    (hbad : (merge (serialize n) new).2 ≠ .success true) (rest : Bytes) (m : M) :
    mergeFrom lib.toRuntime msg
        (writeElements lib field size serialize (good ++ n :: more) ++ rest) m
      = (slot.set (slot.get m ++ good ++ [(merge (serialize n) new).1]) m, .failure) := by
  obtain ⟨hlen, hlt⟩ := hsize n (by simp)
  have hsplit : writeElements lib field size serialize (good ++ n :: more) ++ rest
      = writeElements lib field size serialize good
        ++ (lib.writeMessage field (serialize n).length (serialize n)
          ++ (writeElements lib field size serialize more ++ rest)) := by
    simp only [writeElements, List.flatMap_append, List.flatMap_cons, List.append_assoc, hlen]
  rw [hsplit, mergeFrom_elements hlib hmsg h1 h15 hfield
      (fun n' hn' => hsize n' (List.mem_append_left _ hn')) hgood,
    mergeFrom_sub hlib hmsg h1 h15 hfield (by omega), if_neg hbad, slot.get_set, slot.set_set]

omit hmsg hfield in
/-- `ByteSizeLong` counts what is written. -/
theorem writeElements_length {ns : List N}
    (hsize : ∀ n ∈ ns, (serialize n).length = size n ∧ size n < 2 ^ 31) :
    (writeElements lib field size serialize ns).length = elementsSize lib size ns := by
  induction ns with
  | nil => rfl
  | cons n ns ih =>
      obtain ⟨hlen, hlt⟩ := hsize n (by simp)
      have hn := hlib.message_size field (serialize n) h1 h15 (by omega)
      have hns := ih fun n hn => hsize n (by simp [hn])
      rw [writeElements_cons field hlen, List.length_append, hn, hns]
      simp only [elementsSize, List.map_cons, List.sum_cons, List.length_cons, hlen]
      omega

end

end Assignment.ProtoBuff
