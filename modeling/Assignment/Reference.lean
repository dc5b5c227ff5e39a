import Assignment.Lib.Varint
import Assignment.Lib.Utf8
import Assignment.Runtime

/-!
# A runtime that follows the documented wire format

`reference` implements the calls of `Runtime` over base-128 varints, as the
protocol-buffer encoding describes them, and `reference_documented` shows
that it meets every documented property at once. Concrete runs of the
programs are evaluated with it. Groups, which proto3 cannot declare, are
the one wire type it refuses to skip.
-/

namespace Assignment.Reference

/-- Up to ten groups, truncated to 32 bits. -/
def readVarint32 (input : Bytes) : VarintRead :=
  match Varint.decode 9 input with
  | some (n, rest) => ⟨true, UInt32.ofNat n, rest⟩
  | none => ⟨false, 0xFFFFFFFF, []⟩

def writeVarint32 (n : UInt32) : Bytes := Varint.encode 4 n.toNat

/-- A negative limit is ignored. -/
def pushLimit (limit : Int) (input : Bytes) : Bytes :=
  if 0 ≤ limit then input.take limit.toNat else input

def readTag (input : Bytes) : TagRead :=
  if input = [] then ⟨0, false, [], true⟩
  else
    let v := readVarint32 input
    if v.ok then ⟨v.value, decide (0 < v.value ∧ v.value ≤ 127), v.rest, false⟩
    else ⟨0, false, [], false⟩

def writeTag (field wireType : Nat) : Bytes := writeVarint32 (UInt32.ofNat (8 * field + wireType))

/-- A length and that many bytes; a string that the input cuts short is
kept as far as it goes. -/
def readString (input old : Bytes) : Bytes × Option Bytes :=
  let v := readVarint32 input
  if v.ok = true ∧ v.value.toNat < 2 ^ 31 then
    (v.rest.take v.value.toNat,
      if v.value.toNat ≤ v.rest.length then some (v.rest.drop v.value.toNat) else none)
  else (old, none)

/-- The bytes after a length-delimited tag. -/
def lengthDelimited (s : Bytes) : Bytes := writeVarint32 (UInt32.ofNat s.length) ++ s

def writeString (field : Nat) (s : Bytes) : Bytes := writeTag field 2 ++ lengthDelimited s

def stringSize (s : Bytes) : Nat := (lengthDelimited s).length

/-- The payload of a skipped field in its shortest encoding, and the rest. -/
def skipPayload (wireType : Nat) (input : Bytes) : Option (Bytes × Bytes) :=
  match wireType with
  | 0 => (Varint.decode 9 input).map fun p => (Varint.encode 9 (p.1 % 2 ^ 64), p.2)
  | 1 => if 8 ≤ input.length then some (input.take 8, input.drop 8) else none
  | 2 => (readString input []).2.map fun rest => (lengthDelimited (readString input []).1, rest)
  | 5 => if 4 ≤ input.length then some (input.take 4, input.drop 4) else none
  | _ => none

def skipField (tag : UInt32) (input kept : Bytes) : Bytes × Option Bytes :=
  match skipPayload (tag.toNat % 8) input with
  | some (payload, rest) => (kept ++ (writeVarint32 tag ++ payload), some rest)
  | none => (kept, none)

/-! ## Varints -/

theorem toNat_ofNat {n : Nat} (h : n < 2 ^ 32) : (UInt32.ofNat n).toNat = n :=
  UInt32.toNat_ofNat_of_lt' h

theorem readVarint32_of_decode {input rest : Bytes} {n : Nat}
    (h : Varint.decode 9 input = some (n, rest)) :
    readVarint32 input = ⟨true, UInt32.ofNat n, rest⟩ := by
  rw [readVarint32, h]

theorem decode_of_readVarint32 {input rest : Bytes} {n : UInt32}
    (h : readVarint32 input = ⟨true, n, rest⟩) :
    ∃ m, Varint.decode 9 input = some (m, rest) ∧ UInt32.ofNat m = n := by
  rw [readVarint32] at h
  split at h
  · rename_i m r hd
    simp only [VarintRead.mk.injEq, true_and] at h
    exact ⟨m, by rw [hd, h.2], h.1⟩
  · simp at h

theorem varint_roundTrip (n : UInt32) (rest : Bytes) :
    readVarint32 (writeVarint32 n ++ rest) = ⟨true, n, rest⟩ := by
  have hn : n.toNat < 2 ^ 32 := n.toNat_lt
  -- the reader allows ten groups where the writer needs five
  have hd : Varint.decode 9 (Varint.encode 4 n.toNat ++ rest) = some (n.toNat, rest) :=
    Varint.decode_encode_of_le (by omega) _ _ (by omega)
  rw [writeVarint32, readVarint32_of_decode hd, UInt32.ofNat_toNat]

theorem varint_minimal (n : UInt32) (k : Nat) :
    (writeVarint32 n).length ≤ k + 1 ↔ n.toNat < 2 ^ (7 * (k + 1)) :=
  Varint.encode_length_le_iff 4 n.toNat k (by have := n.toNat_lt; omega)

theorem varint_incomplete (input : Bytes) (h : ∀ b ∈ input, 0x80 ≤ b) :
    (readVarint32 input).ok = false ∧ (readVarint32 input).value = 0xFFFFFFFF := by
  have hd : Varint.decode 9 input = none :=
    Varint.decode_incomplete 9 (fun b hb => UInt8.le_iff_toNat_le.mp (h b hb))
  rw [readVarint32, hd]
  exact ⟨rfl, rfl⟩

theorem varint_complete (front : Bytes) (b : UInt8) (hlen : front.length ≤ 3)
    (hfront : ∀ x ∈ front, 0x80 ≤ x) (hb : b < 0x80) :
    ∃ n, n.toNat < 2 ^ (7 * (front.length + 1)) ∧ readVarint32 (front ++ [b]) = ⟨true, n, []⟩ := by
  obtain ⟨n, hn, hd⟩ := Varint.decode_complete 9 (show front.length ≤ 9 by omega)
    (fun x hx => UInt8.le_iff_toNat_le.mp (hfront x hx)) (UInt8.lt_iff_toNat_lt.mp hb)
  have hsmall : n < 2 ^ 32 := by
    calc n < 2 ^ (7 * (front.length + 1)) := hn
      _ ≤ 2 ^ 28 := Nat.pow_le_pow_right (by omega) (by omega)
      _ < 2 ^ 32 := by omega
  refine ⟨UInt32.ofNat n, ?_, readVarint32_of_decode hd⟩
  rwa [toNat_ofNat hsmall]

theorem varint_local (input : Bytes) (n : UInt32) (rest more : Bytes)
    (h : readVarint32 input = ⟨true, n, rest⟩) :
    readVarint32 (input ++ more) = ⟨true, n, rest ++ more⟩ := by
  obtain ⟨m, hd, hm⟩ := decode_of_readVarint32 h
  rw [readVarint32_of_decode (Varint.decode_append 9 more hd), hm]

theorem readVarint32_shortens {input : Bytes} (h : (readVarint32 input).ok = true) :
    (readVarint32 input).rest.length < input.length := by
  rw [readVarint32] at h ⊢
  split
  · rename_i m rest hd
    exact Varint.decode_shortens 9 hd
  · rename_i hd
    simp [hd] at h

/-! ## Tags and strings -/

theorem readTag_write (tag : UInt32) (rest : Bytes) :
    readTag (writeVarint32 tag ++ rest)
      = ⟨tag, decide (0 < tag ∧ tag ≤ 127), rest, false⟩ := by
  have hne : writeVarint32 tag ++ rest ≠ [] := by
    simp [writeVarint32, Varint.encode_ne_nil]
  rw [readTag, if_neg hne, varint_roundTrip]
  rfl

theorem tag_shortens (input : Bytes) (h : (readTag input).tag ≠ 0) :
    (readTag input).rest.length < input.length := by
  rw [readTag] at h ⊢
  by_cases hnil : input = []
  · simp [hnil] at h
  · rw [if_neg hnil] at h ⊢
    by_cases hok : (readVarint32 input).ok = true
    · simpa [hok] using readVarint32_shortens hok
    · simp [hok] at h

theorem readString_lengthDelimited {s : Bytes} (hs : s.length < 2 ^ 31) (rest old : Bytes) :
    readString (lengthDelimited s ++ rest) old = (s, some rest) := by
  have hn : (UInt32.ofNat s.length).toNat = s.length := toNat_ofNat (by omega)
  have hle : s.length ≤ (s ++ rest).length := by simp
  rw [readString, lengthDelimited, List.append_assoc, varint_roundTrip]
  simp only [hn, true_and, if_pos hs, if_pos hle, List.take_left, List.drop_left]

theorem readString_eq_some {input old s rest : Bytes}
    (h : readString input old = (s, some rest)) :
    s.length < 2 ^ 31 ∧ rest.length ≤ input.length := by
  simp only [readString] at h
  split at h
  · rename_i hv
    have hlt := readVarint32_shortens hv.1
    simp only [Prod.mk.injEq, Option.ite_none_right_eq_some, Option.some.injEq] at h
    obtain ⟨rfl, hle, rfl⟩ := h
    simp only [List.length_take, List.length_drop]
    omega
  · simp at h

theorem writeTag_length {field wireType : Nat} (h1 : 1 ≤ field) (h15 : field ≤ 15)
    (hw : wireType < 8) : (writeTag field wireType).length = 1 := by
  have hn : (UInt32.ofNat (8 * field + wireType)).toNat = 8 * field + wireType :=
    toNat_ofNat (by omega)
  have hle := (varint_minimal (UInt32.ofNat (8 * field + wireType)) 0).mpr (by omega)
  have hpos := List.length_pos_iff.mpr
    (Varint.encode_ne_nil 4 (UInt32.ofNat (8 * field + wireType)).toNat)
  rw [writeTag]
  rw [writeVarint32] at hle ⊢
  omega

theorem readTag_writeTag {field wireType : Nat} (h1 : 1 ≤ field) (h15 : field ≤ 15)
    (hw : wireType < 8) (rest : Bytes) :
    readTag (writeTag field wireType ++ rest)
      = ⟨UInt32.ofNat (8 * field + wireType), true, rest, false⟩ := by
  have hn : (UInt32.ofNat (8 * field + wireType)).toNat = 8 * field + wireType :=
    toNat_ofNat (by omega)
  have hpos : 0 < UInt32.ofNat (8 * field + wireType) := by
    rw [UInt32.lt_iff_toNat_lt, hn]
    exact (by omega : 0 < 8 * field + wireType)
  have hle : UInt32.ofNat (8 * field + wireType) ≤ 127 := by
    rw [UInt32.le_iff_toNat_le, hn]
    exact (by omega : 8 * field + wireType ≤ 127)
  rw [writeTag, readTag_write, decide_eq_true ⟨hpos, hle⟩]

/-! ## Skipped fields -/

theorem skipPayload_le {wireType : Nat} {input payload rest : Bytes}
    (h : skipPayload wireType input = some (payload, rest)) : rest.length ≤ input.length := by
  unfold skipPayload at h
  split at h
  · obtain ⟨p, hd, hp⟩ := Option.map_eq_some_iff.mp h
    cases hp
    exact Nat.le_of_lt (Varint.decode_shortens 9 hd)
  · split at h
    · cases h
      simp
    · cases h
  · obtain ⟨r, hd, hp⟩ := Option.map_eq_some_iff.mp h
    cases hp
    exact (readString_eq_some (Prod.ext rfl hd)).2
  · split at h
    · cases h
      simp
    · cases h
  · cases h

/-- The stored payload is skipped again to the same effect. -/
theorem skipPayload_again {wireType : Nat} {input payload rest : Bytes}
    (h : skipPayload wireType input = some (payload, rest)) (rest₁ : Bytes) :
    skipPayload wireType (payload ++ rest₁) = some (payload, rest₁) := by
  unfold skipPayload at h
  split at h
  · obtain ⟨p, -, hp⟩ := Option.map_eq_some_iff.mp h
    cases hp
    have hlt : p.1 % 2 ^ 64 < 2 ^ (7 * (9 + 1)) := by omega
    simp only [skipPayload, Varint.decode_encode 9 _ rest₁ hlt, Option.map_some]
    rw [Nat.mod_mod]
  · split at h
    · rename_i hlen
      cases h
      have htake : (input.take 8).length = 8 := by rw [List.length_take]; omega
      have hle : 8 ≤ (input.take 8 ++ rest₁).length := by rw [List.length_append]; omega
      simp only [skipPayload, if_pos hle, List.take_left' htake, List.drop_left' htake]
    · cases h
  · obtain ⟨r, hd, hp⟩ := Option.map_eq_some_iff.mp h
    cases hp
    have hs := (readString_eq_some (s := (readString input []).1) (Prod.ext rfl hd)).1
    simp only [skipPayload, readString_lengthDelimited hs, Option.map_some]
  · split at h
    · rename_i hlen
      cases h
      have htake : (input.take 4).length = 4 := by rw [List.length_take]; omega
      have hle : 4 ≤ (input.take 4 ++ rest₁).length := by rw [List.length_append]; omega
      simp only [skipPayload, if_pos hle, List.take_left' htake, List.drop_left' htake]
    · cases h
  · cases h

theorem readTag_known {input : Bytes} (h : (readTag input).tag ≠ 0) :
    (readTag input).known = decide (0 < (readTag input).tag ∧ (readTag input).tag ≤ 127) := by
  rw [readTag] at h ⊢
  by_cases hnil : input = []
  · simp [hnil] at h
  · rw [if_neg hnil] at h ⊢
    by_cases hok : (readVarint32 input).ok = true
    · simp [hok]
    · simp [hok] at h

theorem skip_reencodes (input kept kept' rest : Bytes) (htag : (readTag input).tag ≠ 0)
    (h : skipField (readTag input).tag (readTag input).rest kept = (kept', some rest)) :
    ∃ field, kept' = kept ++ field ∧ ∀ rest₁ kept₁, ∃ payload,
      readTag (field ++ rest₁) = ⟨(readTag input).tag, (readTag input).known, payload, false⟩
      ∧ skipField (readTag input).tag payload kept₁ = (kept₁ ++ field, some rest₁) := by
  have hknown := readTag_known htag
  generalize (readTag input).tag = tag at *
  rw [skipField] at h
  split at h
  · rename_i payload r hskip
    cases h
    refine ⟨writeVarint32 tag ++ payload, rfl, fun rest₁ kept₁ => ⟨payload ++ rest₁, ?_, ?_⟩⟩
    · rw [List.append_assoc, readTag_write, hknown]
    · rw [skipField, skipPayload_again hskip]
  · simp at h

end Reference

/-- libprotobuf as its wire format documents it. -/
def reference : Runtime where
  readVarint32 := Reference.readVarint32
  writeVarint32 := Reference.writeVarint32
  pushLimit := Reference.pushLimit
  readTag := Reference.readTag
  readString := Reference.readString
  writeString := Reference.writeString
  stringSize := Reference.stringSize
  verifyUtf8String := Utf8.valid
  skipField := Reference.skipField
  preserveUnknowns := true
  writeArray := Buffer.overwrite

open Reference in
theorem reference_documented : reference.Documented where
  varint_roundTrip := varint_roundTrip
  varint_minimal := varint_minimal
  varint_incomplete := varint_incomplete
  varint_complete := varint_complete
  varint_local := varint_local
  varint_le input := by
    change (readVarint32 input).rest.length ≤ _
    rw [readVarint32]
    split
    · rename_i hread
      exact Nat.le_of_lt (Varint.decode_shortens 9 hread)
    · exact Nat.zero_le _
  limit_take n input h := by simp [reference, pushLimit, h]
  tag_end := rfl
  tag_shortens := tag_shortens
  string_roundTrip field s rest old h1 h15 hs :=
    ⟨lengthDelimited s ++ rest,
      by
        change readTag (writeTag field 2 ++ lengthDelimited s ++ rest) = _
        rw [List.append_assoc, readTag_writeTag h1 h15 (by omega)]
        rfl,
      readString_lengthDelimited hs rest old⟩
  string_size field s h1 h15 _ := by
    change (writeTag field 2 ++ lengthDelimited s).length = _
    rw [List.length_append, writeTag_length h1 h15 (by omega)]
    rfl
  string_size_gt s := by
    have hpos := List.length_pos_iff.mpr (Varint.encode_ne_nil 4 (UInt32.ofNat s.length).toNat)
    change s.length < (writeVarint32 (UInt32.ofNat s.length) ++ s).length
    rw [List.length_append, writeVarint32]
    omega
  string_le input old s rest h := (readString_eq_some h).2
  utf8_empty := rfl
  skip_reencodes := skip_reencodes
  skip_le tag input kept kept' rest h := by
    change skipField tag input kept = _ at h
    rw [skipField] at h
    split at h
    · rename_i payload r hskip
      cases h
      exact skipPayload_le hskip
    · simp at h
  unknowns_kept := rfl
  array_fits _ _ _ := rfl
  array_length array written := Buffer.overwrite_length array written

end Assignment
