import Assignment.Lib.Istream
import Assignment.ProtoBuff.Person

/-!
# `PromptForAddress` (add_person.cc)

The dialogue that fills in a person, as a function of what standard input
delivers. The prompts it prints are left out. `Answers` is a dialogue in
which every line holds what was asked for, and `promptForAddress_answers`
says that the person entered is then the one typed.
-/

namespace Assignment.ProtoBuff

open Istream

variable {T : Type}

/-- The bytes of an ASCII literal. -/
def ascii (s : String) : Bytes := s.toList.map fun c => UInt8.ofNat c.toNat

/-- The chain of comparisons with the line typed; anything but the three
names leaves the default. -/
def typeOf (line : Bytes) : Int32 :=
  if line = ascii "mobile" then PhoneType.mobile.number
  else if line = ascii "home" then PhoneType.home.number
  else if line = ascii "work" then PhoneType.work.number
  else PhoneType.mobile.number

/-- `add_phones()`, `set_number` and `set_type` -/
def addPhone (person : Person T) (number : Bytes) (type : Int32) : Person T :=
  { person with phones := person.phones ++ [{ number := number, type := type }] }

/-- The `while (true)` over phone numbers. -/
def phoneLoop : Nat → Istream → Person T → Person T × Istream
  | 0, cin, person => (person, cin)
  | fuel + 1, cin, person =>
      let number := getline cin []
      if number.1 = [] then (person, number.2)
      else
        let type := getline number.2 []
        phoneLoop fuel type.2 (addPhone person number.1 (typeOf type.1))

/-- `PromptForAddress`. The variable `id` is not initialised: it starts with
`garbage`. A phone number takes a byte of the input at least, so the length
of the input bounds the number of turns of the loop (`phoneLoop_fuel`). -/
def promptForAddress (lib : Library T) (garbage : Int32) (now : Int) (cin : Istream)
    (person : Person T) : Person T × Istream :=
  let id := readInt cin garbage
  -- `getline` goes straight into the name; the email goes through a variable
  let name := getline (id.2.ignore 256) person.name
  let email := getline name.2 []
  let entered := { person with
    id := id.1
    name := name.1
    email := if email.1 ≠ [] then email.1 else person.email }
  let phones := phoneLoop (email.2.rest.length + 1) email.2 entered
  ({ phones.1 with lastUpdated := some (lib.secondsToTimestamp now) }, phones.2)

/-- **The phone loop ends**: any fuel above the length of the input gives the
same result. -/
theorem phoneLoop_fuel : ∀ (fuel fuel' : Nat) (cin : Istream) (person : Person T),
    cin.rest.length < fuel → cin.rest.length < fuel' →
    phoneLoop fuel cin person = phoneLoop fuel' cin person := by
  intro fuel
  induction fuel with
  | zero => intro fuel' cin person h; omega
  | succ fuel ih =>
      intro fuel' cin person h h'
      obtain ⟨fuel', rfl⟩ := Nat.exists_eq_succ_of_ne_zero (show fuel' ≠ 0 by omega)
      have hnumber := getline_rest_le cin
      have htype := getline_rest_le (getline cin []).2
      rw [phoneLoop, phoneLoop]
      by_cases hnil : (getline cin []).1 = []
      · rw [if_pos hnil, if_pos hnil]
      · have hpos := List.length_pos_iff.mpr hnil
        rw [if_neg hnil, if_neg hnil]
        exact ih _ _ _ (by omega) (by omega)

theorem phoneLoop_stored {lib : Library T} : ∀ (fuel : Nat) (cin : Istream) {person : Person T},
    person.Stored lib → (phoneLoop fuel cin person).1.Stored lib := by
  intro fuel
  induction fuel with
  | zero => intro cin person h; exact h
  | succ fuel ih =>
      intro cin person h
      rw [phoneLoop]
      simp only
      split
      · exact h
      · apply ih
        exact ⟨h.1, List.forall_mem_append.mpr ⟨h.2, List.forall_mem_singleton.mpr .nil⟩⟩

/-- The loop is about the phones only. -/
theorem phoneLoop_keeps : ∀ (fuel : Nat) (cin : Istream) (person : Person T),
    (phoneLoop fuel cin person).1.id = person.id
      ∧ (phoneLoop fuel cin person).1.name = person.name
      ∧ (phoneLoop fuel cin person).1.email = person.email := by
  intro fuel
  induction fuel with
  | zero => intro cin person; exact ⟨rfl, rfl, rfl⟩
  | succ fuel ih =>
      intro cin person
      rw [phoneLoop]
      simp only
      split
      · exact ⟨rfl, rfl, rfl⟩
      · exact ih _ _

/-- A person just entered has no unknown fields. -/
theorem promptForAddress_stored (lib : Library T) (garbage : Int32) (now : Int) (cin : Istream) :
    (promptForAddress lib garbage now cin {}).1.Stored lib :=
  phoneLoop_stored _ _ ⟨.nil, by simp⟩

/-! ## A dialogue as it was meant -/

/-- What can be typed in answer to a question: a line without its newline. -/
abbrev Answer := { line : Bytes // newline ∉ line }

/-- An `int32` in decimal. -/
structure IdLine where
  negative : Bool
  digits : Bytes
  value : Int32
  digits_ne_nil : digits ≠ []
  isDigit : ∀ c ∈ digits, isDigit c = true
  value_eq : value.toInt = if negative then -(decimal digits : Int) else decimal digits

/-- An answer to every question, up to the blank one that ends the phones. -/
structure Answers where
  id : IdLine
  name : Answer
  email : Answer
  phones : List ({ number : Answer // number.1 ≠ [] } × Answer)

namespace Answers

/-- What is typed for the phones. -/
def phoneLines (phones : List ({ number : Answer // number.1 ≠ [] } × Answer)) : Bytes :=
  phones.flatMap (fun phone => phone.1.1.1 ++ newline :: (phone.2.1 ++ [newline])) ++ [newline]

/-- What is typed altogether. -/
def stdin (a : Answers) : Bytes :=
  (if a.id.negative then [0x2D] else []) ++ (a.id.digits ++ newline ::
    (a.name.1 ++ newline :: (a.email.1 ++ newline :: phoneLines a.phones)))

/-- The phones typed. -/
def phoneNumbers (phones : List ({ number : Answer // number.1 ≠ [] } × Answer)) :
    List PhoneNumber :=
  phones.map fun phone => { number := phone.1.1.1, type := typeOf phone.2.1 }

/-- The person typed. -/
def person (a : Answers) (stamp : T) : Person T where
  name := a.name.1
  id := a.id.value
  email := a.email.1
  phones := phoneNumbers a.phones
  lastUpdated := some stamp

theorem phoneLines_cons (phone : { number : Answer // number.1 ≠ [] } × Answer)
    (phones : List ({ number : Answer // number.1 ≠ [] } × Answer)) :
    phoneLines (phone :: phones)
      = phone.1.1.1 ++ newline :: (phone.2.1 ++ newline :: phoneLines phones) := by
  simp [phoneLines]

theorem length_lt_phoneLines (phones : List ({ number : Answer // number.1 ≠ [] } × Answer)) :
    phones.length < (phoneLines phones).length := by
  induction phones with
  | nil => exact Nat.zero_lt_one
  | cons phone phones ih =>
      rw [phoneLines_cons]
      simp only [List.length_append, List.length_cons]
      omega

theorem phoneLoop_phones (phones : List ({ number : Answer // number.1 ≠ [] } × Answer)) :
    ∀ (fuel : Nat) (person : Person T), phones.length < fuel →
      phoneLoop fuel ⟨phoneLines phones, false, false⟩ person
        = ({ person with phones := person.phones ++ phoneNumbers phones }, ⟨[], false, false⟩) := by
  induction phones with
  | nil =>
      intro fuel person h
      obtain ⟨fuel, rfl⟩ := Nat.exists_eq_succ_of_ne_zero (show fuel ≠ 0 by omega)
      have hblank : getline ⟨phoneLines [], false, false⟩ [] = ([], ⟨[], false, false⟩) :=
        getline_line (List.not_mem_nil) [] []
      simp [phoneLoop, hblank, phoneNumbers]
  | cons phone phones ih =>
      intro fuel person h
      obtain ⟨fuel, rfl⟩ := Nat.exists_eq_succ_of_ne_zero (show fuel ≠ 0 by omega)
      obtain ⟨⟨⟨number, hnumber⟩, hne⟩, type, htype⟩ := phone
      rw [phoneLines_cons, phoneLoop]
      simp only [getline_line hnumber, getline_line htype, if_neg hne]
      rw [ih fuel _ (by rw [List.length_cons] at h; omega)]
      simp [addPhone, phoneNumbers]

/-- **What is typed is what is entered.** -/
theorem promptForAddress_answers (lib : Library T) (garbage : Int32) (now : Int) (a : Answers) :
    promptForAddress lib garbage now ⟨a.stdin, false, false⟩ {}
      = (a.person (lib.secondsToTimestamp now), ⟨[], false, false⟩) := by
  have hid := readInt_line a.id.digits_ne_nil a.id.isDigit a.id.negative a.id.value_eq
    (a.name.1 ++ newline :: (a.email.1 ++ newline :: phoneLines a.phones)) garbage
  have hcount := Nat.lt_succ_of_lt (length_lt_phoneLines a.phones)
  simp only [promptForAddress, stdin, hid, ignore_newline, getline_line a.name.2,
    getline_line a.email.2, phoneLoop_phones a.phones _ _ hcount]
  simp [person]

/-- All strings typed are valid UTF-8. -/
def Utf8 (rt : Runtime) (a : Answers) : Prop :=
  rt.verifyUtf8String a.name.1 = true ∧ rt.verifyUtf8String a.email.1 = true
    ∧ ∀ phone ∈ a.phones, rt.verifyUtf8String phone.1.1.1 = true

instance (rt : Runtime) (a : Answers) : Decidable (a.Utf8 rt) :=
  inferInstanceAs (Decidable (_ ∧ _ ∧ _))

theorem person_text (rt : Runtime) (a : Answers) (stamp : T) :
    (a.person stamp).Text rt ↔ a.Utf8 rt := by
  simp only [Person.Text, Utf8, person, phoneNumbers, List.forall_mem_map, PhoneNumber.Text]

end Answers

end Assignment.ProtoBuff
