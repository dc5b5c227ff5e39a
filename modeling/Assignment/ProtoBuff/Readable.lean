import Assignment.ProtoBuff.AddressBook

/-!
# What is read back of what was written

The serialisers write any strings, the parsers stop at the first one that is
not valid UTF-8 and keep what they have read. `readable` is that part of a
message, and the codec is then known exactly: a book that is written is read
back as its readable part (`AddressBook.parse_serialize`). What was read
once is read again (`AddressBook.readable_readable`), and a book that is cut
short takes no more people (`AddressBook.readable_add`).
-/

namespace Assignment.ProtoBuff

variable {T N : Type}

/-- A repeated field as it is read back: up to the first element that is not
valid, of which a part is kept. -/
def readUpTo (valid : N → Prop) [DecidablePred valid] (cut : N → N) : List N → List N
  | [] => []
  | n :: ns => if valid n then n :: readUpTo valid cut ns else [cut n]

section
variable {valid : N → Prop} [DecidablePred valid] {cut : N → N}

theorem readUpTo_cut {good more : List N} {n : N} (hgood : ∀ m ∈ good, valid m)
    (hn : ¬ valid n) : readUpTo valid cut (good ++ n :: more) = good ++ [cut n] := by
  induction good with
  | nil => rw [List.nil_append, readUpTo, if_neg hn, List.nil_append]
  | cons m good ih =>
      rw [List.cons_append, readUpTo, if_pos (hgood m (by simp)),
        ih fun m hm => hgood m (by simp [hm]), List.cons_append]

/-- Nothing is read behind an element that is not valid. -/
theorem readUpTo_append {ns : List N} (h : ¬ ∀ n ∈ ns, valid n) (more : List N) :
    readUpTo valid cut (ns ++ more) = readUpTo valid cut ns := by
  push Not at h
  obtain ⟨good, n, rest, rfl, hgood, hn⟩ := Buffer.cut_at_first h
  rw [readUpTo_cut hgood hn, List.append_assoc, List.cons_append, readUpTo_cut hgood hn]

/-- The element that is cut is still not valid, and is cut no further. -/
theorem readUpTo_readUpTo (hcut : ∀ n, ¬ valid n → ¬ valid (cut n) ∧ cut (cut n) = cut n)
    {ns : List N} (h : ¬ ∀ n ∈ ns, valid n) :
    (¬ ∀ n ∈ readUpTo valid cut ns, valid n)
      ∧ readUpTo valid cut (readUpTo valid cut ns) = readUpTo valid cut ns := by
  push Not at h
  obtain ⟨good, n, rest, rfl, hgood, hn⟩ := Buffer.cut_at_first h
  obtain ⟨hinvalid, hsame⟩ := hcut n hn
  rw [readUpTo_cut hgood hn]
  refine ⟨fun hall => hinvalid (hall _ (by simp)), ?_⟩
  rw [readUpTo_cut hgood hinvalid, hsame]

/-- What all elements have, and what the cut preserves. -/
theorem forall_mem_readUpTo {P : N → Prop} {ns : List N} (h : ∀ n ∈ ns, P n)
    (hcut : ∀ n, P n → P (cut n)) : ∀ n ∈ readUpTo valid cut ns, P n := by
  induction ns with
  | nil => simp [readUpTo]
  | cons n ns ih =>
      rw [readUpTo]
      split
      · exact List.forall_mem_cons.mpr ⟨h n (by simp), ih fun m hm => h m (by simp [hm])⟩
      · exact List.forall_mem_singleton.mpr (hcut n (h n (by simp)))

end

/-- **Elements of which a part is read back**: parsing goes on behind them
when all are valid, and stops at the first one that is not. -/
theorem mergeFrom_readUpTo {M : Type} {lib : Library T} (hlib : lib.Documented) {msg : Generated M}
    (hmsg : msg.Forward) {field : Nat} (h1 : 1 ≤ field) (h15 : field ≤ 15)
    {merge : Bytes → N → N × MergeEnd} {new : N} {slot : Slot M (List N)} {size : N → Nat}
    {serialize : N → Bytes} {valid : N → Prop} [DecidablePred valid] {cut : N → N}
    (hfield : msg.field (lengthDelimitedTag field) = some (readElement lib merge new slot))
    {ns : List N} (hsize : ∀ n ∈ ns, (serialize n).length = size n ∧ size n < 2 ^ 31)
    (hns : ∀ n ∈ ns, merge (serialize n) new
      = if valid n then (n, .success true) else (cut n, .failure)) (rest : Bytes) (m : M) :
    mergeFrom lib.toRuntime msg (writeElements lib field size serialize ns ++ rest) m
      = if ∀ n ∈ ns, valid n then mergeFrom lib.toRuntime msg rest (slot.set (slot.get m ++ ns) m)
        else (slot.set (slot.get m ++ readUpTo valid cut ns) m, .failure) := by
  by_cases hall : ∀ n ∈ ns, valid n
  · rw [if_pos hall]
    exact mergeFrom_elements hlib hmsg h1 h15 hfield hsize
      (fun n hn => (hns n hn).trans (if_pos (hall n hn))) rest m
  · rw [if_neg hall]
    push Not at hall
    obtain ⟨good, n, more, rfl, hgood, hn⟩ := Buffer.cut_at_first hall
    have hbad := (hns n (by simp)).trans (if_neg hn)
    rw [mergeFrom_elements_cut hlib hmsg h1 h15 hfield hsize
      (fun n' hn' => (hns n' (List.mem_append_left _ hn')).trans (if_pos (hgood n' hn')))
      (by rw [hbad]; simp) rest m, hbad, readUpTo_cut hgood hn, List.append_assoc]

/-! ## Phone numbers -/

namespace PhoneNumber

/-- What is read of a number that is not valid UTF-8: only itself. -/
def shortened (n : PhoneNumber) : PhoneNumber := { number := n.number }

theorem shortened_shortened (rt : Runtime) (n : PhoneNumber) (h : ¬ n.Text rt) :
    ¬ n.shortened.Text rt ∧ n.shortened.shortened = n.shortened := ⟨h, rfl⟩

theorem merge_readable {lib : Library T} (hlib : lib.Documented) {n : PhoneNumber}
    (hsize : byteSizeLong lib n < 2 ^ 31) (hstored : Stored lib.toRuntime n) :
    mergePartialFromCodedStream lib.toRuntime (serializeWithCachedSizes lib n) {}
      = if n.Text lib.toRuntime then (n, .success true) else (n.shortened, .failure) :=
  merge_serialize hlib hsize hstored

end PhoneNumber

/-! ## People -/

namespace Person

/-- What is read of a person up to the first string that is not valid UTF-8:
the name comes first, then the id, the e-mail address and the phones. -/
def shortened (rt : Runtime) (p : Person T) : Person T :=
  if rt.verifyUtf8String p.name ≠ true then { name := p.name }
  else if rt.verifyUtf8String p.email ≠ true then { name := p.name, id := p.id, email := p.email }
  else
    { name := p.name
      id := p.id
      email := p.email
      phones := readUpTo (PhoneNumber.Text rt) PhoneNumber.shortened p.phones }

section
variable {rt : Runtime} {p : Person T}

theorem shortened_of_name (h : ¬ rt.verifyUtf8String p.name = true) :
    p.shortened rt = { name := p.name } := if_pos h

theorem shortened_of_email (hname : rt.verifyUtf8String p.name = true)
    (h : ¬ rt.verifyUtf8String p.email = true) :
    p.shortened rt = { name := p.name, id := p.id, email := p.email } := by
  rw [shortened, if_neg (not_not.mpr hname), if_pos h]

theorem shortened_of_phones (hname : rt.verifyUtf8String p.name = true)
    (hemail : rt.verifyUtf8String p.email = true) :
    p.shortened rt = ⟨p.name, p.id, p.email,
      readUpTo (PhoneNumber.Text rt) PhoneNumber.shortened p.phones, none, []⟩ := by
  rw [shortened, if_neg (not_not.mpr hname), if_neg (not_not.mpr hemail)]

/-- The string that ended the reading is kept, and ends it again. -/
theorem shortened_shortened (h : ¬ p.Text rt) :
    ¬ (p.shortened rt).Text rt ∧ (p.shortened rt).shortened rt = p.shortened rt := by
  by_cases hname : rt.verifyUtf8String p.name = true
  · by_cases hemail : rt.verifyUtf8String p.email = true
    · have hphones : ¬ ∀ n ∈ p.phones, n.Text rt := fun hall => h ⟨hname, hemail, hall⟩
      obtain ⟨hinvalid, hsame⟩ :=
        readUpTo_readUpTo (fun n => PhoneNumber.shortened_shortened rt n) hphones
      rw [shortened_of_phones hname hemail]
      refine ⟨fun htext => hinvalid htext.2.2, ?_⟩
      have hagain := @shortened_of_phones T rt ⟨p.name, p.id, p.email,
        readUpTo (PhoneNumber.Text rt) PhoneNumber.shortened p.phones, none, []⟩ hname hemail
      rwa [hsame] at hagain
    · rw [shortened_of_email hname hemail]
      exact ⟨fun htext => hemail htext.2.1, shortened_of_email hname hemail⟩
  · rw [shortened_of_name hname]
    exact ⟨fun htext => hname htext.1, shortened_of_name hname⟩

end

theorem shortened_stored (lib : Library T) (p : Person T) (h : Stored lib p) :
    Stored lib (p.shortened lib.toRuntime) := by
  unfold shortened
  split
  · exact ⟨.nil, by simp⟩
  · split
    · exact ⟨.nil, by simp⟩
    · exact ⟨.nil, forall_mem_readUpTo h.2 fun _ _ => .nil⟩

/-- **A person is read back** whole, or up to the first string that is not
valid. -/
theorem merge_readable {lib : Library T} (hlib : lib.Documented) {p : Person T}
    (hsize : byteSizeLong lib p < 2 ^ 31) (hstored : Stored lib p) :
    mergePartialFromCodedStream lib (serializeWithCachedSizes lib p) {}
      = if p.Text lib.toRuntime then (p, .success true) else (p.shortened lib.toRuntime, .failure) := by
  by_cases htext : p.Text lib.toRuntime
  · rw [if_pos htext, parses hlib hsize hstored htext]
  · obtain ⟨hname, hemail, hphones, -⟩ := parts_lt hlib hsize
    have hforward := generated_forward hlib
    have hns : ∀ n ∈ p.phones, PhoneNumber.mergePartialFromCodedStream lib.toRuntime
        (n.serializeWithCachedSizes lib) {}
        = if n.Text lib.toRuntime then (n, .success true) else (n.shortened, .failure) := fun n hn =>
      PhoneNumber.merge_readable hlib (hphones n hn) (hstored.2 n hn)
    rw [if_neg htext, mergePartialFromCodedStream, serializeWithCachedSizes,
      mergeFrom_text hlib.toDocumented hforward (by omega) (by omega) generated_name hname _ rfl]
    by_cases hutfName : lib.verifyUtf8String p.name = true
    · rw [if_pos hutfName,
        mergeFrom_number hlib hforward (by omega) (by omega) hlib.int32 generated_id _ _ rfl,
        mergeFrom_text hlib.toDocumented hforward (by omega) (by omega) generated_email hemail _
          rfl]
      by_cases hutfEmail : lib.verifyUtf8String p.email = true
      · have hbad : ¬ ∀ n ∈ p.phones, n.Text lib.toRuntime := fun hall =>
          htext ⟨hutfName, hutfEmail, hall⟩
        rw [if_pos hutfEmail, shortened_of_phones hutfName hutfEmail,
          mergeFrom_readUpTo hlib hforward (by omega) (by omega) generated_phones
            (phones_length hlib hsize) hns, if_neg hbad]
        rfl
      · rw [if_neg hutfEmail, shortened_of_email hutfName hutfEmail]
        rfl
    · rw [if_neg hutfName, shortened_of_name hutfName]
      rfl

end Person

/-! ## Books -/

namespace AddressBook

instance (rt : Runtime) (b : AddressBook T) : Decidable (b.Text rt) :=
  inferInstanceAs (Decidable (∀ p ∈ b.people, p.Text rt))

/-- The part of a book that is read back. The book's own unknown fields come
behind the people. -/
def readable (rt : Runtime) (b : AddressBook T) : AddressBook T :=
  if b.Text rt then b else { people := readUpTo (Person.Text rt) (Person.shortened rt) b.people }

theorem readable_of_text {rt : Runtime} {b : AddressBook T} (h : b.Text rt) :
    b.readable rt = b := if_pos h

/-- **What is written and read back, exactly**: the readable part of the
book, and a success when that is all of it. -/
theorem parse_serialize {lib : Library T} (hlib : lib.Documented) {b : AddressBook T}
    (hsize : byteSizeLong lib b < 2 ^ 31) (hstored : Stored lib b) :
    parseFromIstream lib (serializeWithCachedSizes lib b)
      = (b.readable lib.toRuntime, decide (b.Text lib.toRuntime)) := by
  have hlength := people_length hlib hsize
  have hps : ∀ p ∈ b.people, Person.mergePartialFromCodedStream lib
      (p.serializeWithCachedSizes lib) {}
      = if p.Text lib.toRuntime then (p, .success true)
        else (p.shortened lib.toRuntime, .failure) := fun p hp =>
    Person.merge_readable hlib (hlength p hp).2 (hstored.2 p hp)
  by_cases htext : b.Text lib.toRuntime
  · rw [parses hlib hsize hstored htext, readable_of_text htext, decide_eq_true htext]
  · have hbook : mergePartialFromCodedStream lib (serializeWithCachedSizes lib b) {}
        = (b.readable lib.toRuntime, .failure) := by
      rw [mergePartialFromCodedStream, serializeWithCachedSizes,
        mergeFrom_readUpTo hlib (generated_forward hlib) (by omega) (by omega) generated_people
          hlength hps, if_neg (show ¬ ∀ p ∈ b.people, p.Text lib.toRuntime from htext),
        readable, if_neg htext]
      rfl
    rw [parseFromIstream, hbook, decide_eq_false htext]
    rfl

/-- The readable part of a book is valid only when it is the whole book. -/
theorem readable_text {rt : Runtime} {b : AddressBook T} :
    (b.readable rt).Text rt ↔ b.Text rt := by
  by_cases htext : b.Text rt
  · rw [readable_of_text htext]
  · refine iff_of_false ?_ htext
    rw [readable, if_neg htext]
    exact (readUpTo_readUpTo (fun _ h => Person.shortened_shortened h) htext).1

/-- **What was read once is read again.** -/
theorem readable_readable (rt : Runtime) (b : AddressBook T) :
    (b.readable rt).readable rt = b.readable rt := by
  by_cases htext : b.Text rt
  · rw [readable_of_text htext, readable_of_text htext]
  · have hinvalid := mt readable_text.mp htext
    rw [readable, if_neg hinvalid, readable, if_neg htext]
    simp only [(readUpTo_readUpTo (fun _ h => Person.shortened_shortened h) htext).2]

theorem readable_stored {lib : Library T} {b : AddressBook T} (h : Stored lib b) :
    Stored lib (b.readable lib.toRuntime) := by
  unfold readable
  split
  · exact h
  · exact ⟨.nil, forall_mem_readUpTo h.2 (Person.shortened_stored lib)⟩

/-- Nobody is read behind a person that is cut short. -/
theorem readable_append_of_not_text {rt : Runtime} {b : AddressBook T} (h : ¬ b.Text rt)
    (more : List (Person T)) :
    readable rt { b with people := b.people ++ more } = b.readable rt := by
  have hall : ¬ Text rt { b with people := b.people ++ more } := fun hall =>
    h fun p hp => hall p (List.mem_append_left _ hp)
  rw [readable, if_neg hall, readable, if_neg h]
  simp only [readUpTo_append h]

/-- It makes no difference whether people join a book or what is read of it. -/
theorem readable_append (rt : Runtime) (b : AddressBook T) (more : List (Person T)) :
    readable rt { b.readable rt with people := (b.readable rt).people ++ more }
      = readable rt { b with people := b.people ++ more } := by
  by_cases htext : b.Text rt
  · rw [readable_of_text htext]
  · rw [readable_append_of_not_text (mt readable_text.mp htext),
      readable_append_of_not_text htext, readable_readable]

end AddressBook

end Assignment.ProtoBuff
