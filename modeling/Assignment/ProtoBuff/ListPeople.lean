import Assignment.Lib.Ostream
import Assignment.ProtoBuff.AddressBook
import Assignment.ProtoBuff.Dialogue

/-!
# `ListPeople` (list_people.cc)

The listing of an address book, and that it can be read back: for people as
`add_person` enters them, every line shows by its first bytes what it is,
and the people end with their `Updated` line. `TimeUtil::ToString` is not in
the repository; it is the parameter `toString`.
-/

namespace Assignment.ProtoBuff

open Istream Ostream

variable {T : Type}

/-- The `switch (phone_number.type())` -/
def phoneLabel (type : Int32) : Bytes :=
  if type = PhoneType.mobile.number then ascii "  Mobile phone #: "
  else if type = PhoneType.home.number then ascii "  Home phone #: "
  else if type = PhoneType.work.number then ascii "  Work phone #: "
  else ascii "  Unknown phone #: "

/-- One turn of the loop over the people. -/
def listPerson (toString : T → Bytes) (person : Person T) : Bytes :=
  if person.name = [] then []
  else
    ascii "Person ID: " ++ showInt person.id.toInt ++ [newline]
      ++ (ascii "  Name: " ++ person.name ++ [newline])
      ++ (if person.email ≠ [] then ascii "  E-mail address: " ++ person.email ++ [newline]
        else [])
      ++ person.phones.flatMap (fun phone => phoneLabel phone.type ++ phone.number ++ [newline])
      ++ (match person.lastUpdated with
        | some time => ascii "  Updated: " ++ toString time ++ [newline]
        | none => [])

/-- What `ListPeople` prints. -/
def listPeople (toString : T → Bytes) (book : AddressBook T) : Bytes :=
  book.people.flatMap (listPerson toString)

/-- What is shown of a phone. -/
def PhoneNumber.shown (phone : PhoneNumber) : Bytes × Int32 := (phone.number, phone.type)

/-- What is shown of a person. -/
def Person.shown (person : Person T) : Int32 × Bytes × Bytes × List (Bytes × Int32) × Option T :=
  (person.id, person.name, person.email, person.phones.map PhoneNumber.shown, person.lastUpdated)

/-- A phone of one of the three types, with a number on one line. -/
structure PhoneNumber.Listed (phone : PhoneNumber) : Prop where
  number_ne_nil : phone.number ≠ []
  number_line : newline ∉ phone.number
  type_known : ∃ type : PhoneType, phone.type = type.number

/-- A person with a name, without newlines, and with the time of a valid
update. -/
structure Person.Listed (valid : T → Prop) (person : Person T) : Prop where
  name_ne_nil : person.name ≠ []
  name_line : newline ∉ person.name
  email_line : newline ∉ person.email
  phones : ∀ phone ∈ person.phones, phone.Listed
  updated : ∃ time, person.lastUpdated = some time ∧ valid time

/-! ## What is entered is listed -/

theorem phoneLoop_listed : ∀ (fuel : Nat) (cin : Istream) (person : Person T),
    (∀ phone ∈ person.phones, phone.Listed) →
    ∀ phone ∈ (phoneLoop fuel cin person).1.phones, phone.Listed := by
  intro fuel
  induction fuel with
  | zero => intro cin person h; exact h
  | succ fuel ih =>
      intro cin person h
      rw [phoneLoop]
      by_cases hnil : (getline cin []).1 = []
      · simp only [if_pos hnil]
        exact h
      · simp only [if_neg hnil]
        refine ih _ _ (List.forall_mem_append.mpr ⟨h, List.forall_mem_singleton.mpr ?_⟩)
        exact ⟨hnil, newline_not_mem_getline cin, _, typeOf_eq _⟩

/-- A person with a name from `PromptForAddress` is listed. -/
theorem promptForAddress_listed (lib : Library T) (valid : T → Prop) (garbage : Int32) (now : Int)
    (cin : Istream) (hnow : valid (lib.secondsToTimestamp now))
    (hname : (promptForAddress lib garbage now cin {}).1.name ≠ []) :
    (promptForAddress lib garbage now cin {}).1.Listed valid := by
  refine ⟨hname, ?_, ?_, ?_, _, rfl, hnow⟩
  · simp only [promptForAddress, phoneLoop_keeps]
    exact newline_not_mem_getline _
  · simp only [promptForAddress, phoneLoop_keeps]
    split
    · exact newline_not_mem_getline _
    · exact List.not_mem_nil
  · exact phoneLoop_listed _ _ _ (by simp)

/-! ## The lines of a listing -/

def phoneLines (phones : List PhoneNumber) : List Bytes :=
  phones.map fun phone => phoneLabel phone.type ++ phone.number

def emailLines (email : Bytes) : List Bytes :=
  if email ≠ [] then [ascii "  E-mail address: " ++ email] else []

theorem emailLines_nil : emailLines [] = [] := rfl

theorem emailLines_of_ne_nil {email : Bytes} (h : email ≠ []) :
    emailLines email = [ascii "  E-mail address: " ++ email] := if_pos h

/-- The lines printed for a person with a name, updated at this time. -/
def personLines (person : Person T) (time : Bytes) : List Bytes :=
  (ascii "Person ID: " ++ showInt person.id.toInt) :: (ascii "  Name: " ++ person.name)
    :: (emailLines person.email ++ (phoneLines person.phones ++ [ascii "  Updated: " ++ time]))

theorem newline_not_mem_label (type : Int32) : newline ∉ phoneLabel type := by
  unfold phoneLabel
  split
  · decide +kernel
  · split
    · decide +kernel
    · split <;> decide +kernel

/-- The third byte of a line is that of its label. -/
theorem label_third {label label' text text' : Bytes} (hlen : 2 < label.length)
    (hlen' : 2 < label'.length) (h : label ++ text = label' ++ text') :
    label[2]? = label'[2]? := by
  have hthird := congrArg (·[2]?) h
  simp only [List.getElem?_append_left hlen, List.getElem?_append_left hlen'] at hthird
  exact hthird

theorem phoneLabel_known (type : PhoneType) : 2 < (phoneLabel type.number).length
    ∧ (phoneLabel type.number)[2]? ≠ (ascii "  E-mail address: ")[2]?
    ∧ (phoneLabel type.number)[2]? ≠ (ascii "  Updated: ")[2]? := by
  cases type <;> decide +kernel

theorem phoneLabel_injective {type type' : PhoneType}
    (h : (phoneLabel type.number)[2]? = (phoneLabel type'.number)[2]?) : type = type' := by
  cases type <;> cases type' <;> first | rfl | exact absurd h (by decide +kernel)

section
variable {toString : T → Bytes} {valid : T → Prop}
  (hline : ∀ time, valid time → newline ∉ toString time)
include hline

/-- A listed person is printed in whole lines. -/
theorem listPerson_lines {person : Person T} (h : person.Listed valid) :
    ∃ time, person.lastUpdated = some time ∧ valid time
      ∧ listPerson toString person = (personLines person (toString time)).flatMap (· ++ [newline])
      ∧ ∀ line ∈ personLines person (toString time), newline ∉ line := by
  obtain ⟨time, htime, hvalid⟩ := h.updated
  refine ⟨time, htime, hvalid, ?_, ?_⟩
  · rw [listPerson, if_neg h.name_ne_nil, htime, personLines, emailLines, phoneLines]
    by_cases hemail : person.email = []
    · simp [hemail, List.flatMap_map]
    · simp [hemail, List.flatMap_map]
  · have hlabels : newline ∉ ascii "Person ID: " ∧ newline ∉ ascii "  Name: "
        ∧ newline ∉ ascii "  E-mail address: " ∧ newline ∉ ascii "  Updated: " := by
      decide +kernel
    intro line hmem
    simp only [personLines, emailLines, phoneLines, List.mem_cons, List.mem_append, List.mem_map,
      List.not_mem_nil, or_false] at hmem
    rcases hmem with rfl | rfl | hmem | ⟨phone, hphone, rfl⟩ | rfl
    · exact List.not_mem_append hlabels.1 (newline_not_mem_showInt _)
    · exact List.not_mem_append hlabels.2.1 h.name_line
    · split at hmem
      · rw [List.mem_singleton.mp hmem]
        exact List.not_mem_append hlabels.2.2.1 h.email_line
      · cases hmem
    · exact List.not_mem_append (newline_not_mem_label _) (h.phones phone hphone).number_line
    · exact List.not_mem_append hlabels.2.2.2 (hline time hvalid)

/-- The lines of a listing. -/
theorem lines_listPeople {book : AddressBook T} (h : ∀ person ∈ book.people, person.Listed valid) :
    lines (listPeople toString book) = book.people.flatMap fun person =>
      personLines person (person.lastUpdated.elim [] toString) := by
  have hprint : listPeople toString book = (book.people.flatMap fun person =>
      personLines person (person.lastUpdated.elim [] toString)).flatMap (· ++ [newline]) := by
    rw [listPeople, List.flatMap_assoc]
    refine List.flatMap_congr fun person hperson => ?_
    obtain ⟨time, htime, -, hlisted, -⟩ := listPerson_lines hline (h person hperson)
    rw [hlisted, htime]
    rfl
  rw [hprint]
  refine lines_flatMap fun line hmem => ?_
  obtain ⟨person, hperson, hmem⟩ := List.mem_flatMap.mp hmem
  obtain ⟨time, htime, -, -, hfree⟩ := listPerson_lines hline (h person hperson)
  rw [htime] at hmem
  exact hfree line hmem

end

/-! ## Reading the lines back -/

/-- The line of a listed phone starts with the label of its type. -/
theorem phoneLines_cons {phone : PhoneNumber} (h : phone.Listed) (phones : List PhoneNumber) :
    ∃ type : PhoneType, phone.type = type.number ∧ phoneLines (phone :: phones)
      = (phoneLabel type.number ++ phone.number) :: phoneLines phones := by
  obtain ⟨type, htype⟩ := h.type_known
  exact ⟨type, htype, by rw [← htype]; rfl⟩

/-- The phones end where the `Updated` line stands. -/
theorem phoneLines_injective : ∀ {phones phones' : List PhoneNumber} {time time' : Bytes}
    {rest rest' : List Bytes},
    (∀ phone ∈ phones, phone.Listed) → (∀ phone ∈ phones', phone.Listed) →
    phoneLines phones ++ (ascii "  Updated: " ++ time) :: rest
      = phoneLines phones' ++ (ascii "  Updated: " ++ time') :: rest' →
    phones.map PhoneNumber.shown = phones'.map PhoneNumber.shown ∧ time = time' ∧ rest = rest' := by
  have hupdated : 2 < (ascii "  Updated: ").length := by decide +kernel
  intro phones
  induction phones with
  | nil =>
      intro phones' time time' rest rest' _ hphones' h
      cases phones' with
      | nil =>
          obtain ⟨hhead, hrest⟩ := List.cons.inj h
          exact ⟨rfl, List.append_cancel_left hhead, hrest⟩
      | cons phone' phones' =>
          obtain ⟨type', -, hlines'⟩ := phoneLines_cons (hphones' phone' (by simp)) phones'
          obtain ⟨hlen', -, hne'⟩ := phoneLabel_known type'
          rw [hlines'] at h
          exact absurd (label_third hlen' hupdated (List.cons.inj h).1.symm) hne'
  | cons phone phones ih =>
      intro phones' time time' rest rest' hphones hphones' h
      obtain ⟨type, htype, hlines⟩ := phoneLines_cons (hphones phone (by simp)) phones
      obtain ⟨hlen, -, hne⟩ := phoneLabel_known type
      rw [hlines] at h
      cases phones' with
      | nil => exact absurd (label_third hlen hupdated (List.cons.inj h).1) hne
      | cons phone' phones' =>
          obtain ⟨type', htype', hlines'⟩ := phoneLines_cons (hphones' phone' (by simp)) phones'
          obtain ⟨hlen', -, -⟩ := phoneLabel_known type'
          rw [hlines'] at h
          obtain ⟨hhead, htail⟩ := List.cons.inj h
          have heq := phoneLabel_injective (label_third hlen hlen' hhead)
          rw [heq] at hhead
          have hnumber := List.append_cancel_left hhead
          obtain ⟨hshown, hrest⟩ := ih (fun p hp => hphones p (by simp [hp]))
            (fun p hp => hphones' p (by simp [hp])) htail
          refine ⟨?_, hrest⟩
          rw [List.map_cons, List.map_cons, hshown, PhoneNumber.shown, PhoneNumber.shown, hnumber,
            htype, htype', heq]

/-- No line from the phones on is an e-mail line. -/
theorem not_emailLine {phones : List PhoneNumber} {email time : Bytes} {rest rest' : List Bytes}
    (hphones : ∀ phone ∈ phones, phone.Listed) :
    (ascii "  E-mail address: " ++ email) :: rest'
      ≠ phoneLines phones ++ (ascii "  Updated: " ++ time) :: rest := by
  have hemail : 2 < (ascii "  E-mail address: ").length := by decide +kernel
  have hupdated : 2 < (ascii "  Updated: ").length
      ∧ (ascii "  E-mail address: ")[2]? ≠ (ascii "  Updated: ")[2]? := by decide +kernel
  intro h
  cases phones with
  | nil =>
      exact hupdated.2 (label_third hemail hupdated.1 (List.cons.inj h).1)
  | cons phone phones =>
      obtain ⟨type, -, hlines⟩ := phoneLines_cons (hphones phone (by simp)) phones
      obtain ⟨hlen, hne, -⟩ := phoneLabel_known type
      rw [hlines] at h
      exact hne (label_third hlen hemail (List.cons.inj h).1.symm)

/-- The e-mail line is the line of that label, if there is one. -/
theorem emailLines_injective {email email' : Bytes} {phones phones' : List PhoneNumber}
    {time time' : Bytes} {rest rest' : List Bytes}
    (hphones : ∀ phone ∈ phones, phone.Listed)
    (hphones' : ∀ phone ∈ phones', phone.Listed)
    (h : emailLines email ++ (phoneLines phones ++ (ascii "  Updated: " ++ time) :: rest)
      = emailLines email' ++ (phoneLines phones' ++ (ascii "  Updated: " ++ time') :: rest')) :
    email = email' ∧ phoneLines phones ++ (ascii "  Updated: " ++ time) :: rest
      = phoneLines phones' ++ (ascii "  Updated: " ++ time') :: rest' := by
  by_cases hnil : email = []
  · subst hnil
    rw [emailLines_nil, List.nil_append] at h
    by_cases hnil' : email' = []
    · subst hnil'
      exact ⟨rfl, h⟩
    · rw [emailLines_of_ne_nil hnil', List.singleton_append] at h
      exact absurd h.symm (not_emailLine hphones)
  · rw [emailLines_of_ne_nil hnil, List.singleton_append] at h
    by_cases hnil' : email' = []
    · subst hnil'
      exact absurd h (not_emailLine hphones')
    · rw [emailLines_of_ne_nil hnil', List.singleton_append] at h
      obtain ⟨hhead, htail⟩ := List.cons.inj h
      exact ⟨List.append_cancel_left hhead, htail⟩

/-- The first person is read off the front of the lines. -/
theorem personLines_injective {person person' : Person T} {time time' : Bytes}
    {rest rest' : List Bytes}
    (hphones : ∀ phone ∈ person.phones, phone.Listed)
    (hphones' : ∀ phone ∈ person'.phones, phone.Listed)
    (h : personLines person time ++ rest = personLines person' time' ++ rest') :
    person.id = person'.id ∧ person.name = person'.name ∧ person.email = person'.email
      ∧ person.phones.map PhoneNumber.shown = person'.phones.map PhoneNumber.shown
      ∧ time = time' ∧ rest = rest' := by
  simp only [personLines, List.cons_append, List.append_assoc, List.nil_append] at h
  obtain ⟨hid, h⟩ := List.cons.inj h
  obtain ⟨hname, h⟩ := List.cons.inj h
  obtain ⟨hemail, h⟩ := emailLines_injective hphones hphones' h
  obtain ⟨hshown, htime, hrest⟩ := phoneLines_injective hphones hphones' h
  have hint := showInt_injective (List.append_cancel_left hid)
  exact ⟨Int32.toInt_inj.mp hint, List.append_cancel_left hname, hemail, hshown, htime, hrest⟩

/-- **The listing is unambiguous**: two books of listed people that are
printed alike show the same people, provided that `TimeUtil::ToString` is
injective and writes no newline on valid timestamps. -/
theorem listPeople_injective {toString : T → Bytes} {valid : T → Prop}
    (hinjective : ∀ time time', valid time → valid time' → toString time = toString time' →
      time = time')
    (hline : ∀ time, valid time → newline ∉ toString time) {book book' : AddressBook T}
    (hbook : ∀ person ∈ book.people, person.Listed valid)
    (hbook' : ∀ person ∈ book'.people, person.Listed valid)
    (h : listPeople toString book = listPeople toString book') :
    book.people.map Person.shown = book'.people.map Person.shown := by
  have hlines := congrArg lines h
  rw [lines_listPeople hline hbook, lines_listPeople hline hbook'] at hlines
  clear h
  generalize book.people = people at *
  generalize book'.people = people' at *
  induction people generalizing people' with
  | nil =>
      cases people' with
      | nil => rfl
      | cons person' people' => cases hlines
  | cons person people ih =>
      cases people' with
      | nil => cases hlines
      | cons person' people' =>
          have hlisted := hbook person (by simp)
          have hlisted' := hbook' person' (by simp)
          obtain ⟨hid, hname, hemail, hphones, htime, hrest⟩ :=
            personLines_injective hlisted.phones hlisted'.phones hlines
          have hpeople := ih (fun p hp => hbook p (by simp [hp])) people'
            (fun p hp => hbook' p (by simp [hp])) hrest
          obtain ⟨time, hupdated, hvalid⟩ := hlisted.updated
          obtain ⟨time', hupdated', hvalid'⟩ := hlisted'.updated
          rw [hupdated, hupdated'] at htime
          have hsame := hinjective time time' hvalid hvalid' htime
          rw [List.map_cons, List.map_cons, hpeople, Person.shown, Person.shown, hid, hname,
            hemail, hphones, hupdated, hupdated', hsame]

/-- A book with one person, whose phone has these unknown fields. -/
def sample (unknownFields : Bytes) : AddressBook Int where
  people := [{
    name := ascii "Ada"
    id := 7
    phones := [{ number := ascii "12", type := 2, unknownFields := unknownFields }]
    lastUpdated := some 1 }]

theorem sample_listed (unknownFields : Bytes) :
    ∀ person ∈ (sample unknownFields).people, person.Listed (fun time => time = 0 ∨ time = 1) := by
  refine List.forall_mem_singleton.mpr ⟨?_, ?_, ?_, ?_, 1, rfl, .inr rfl⟩
  · exact (by decide +kernel : ascii "Ada" ≠ [])
  · exact (by decide +kernel : newline ∉ ascii "Ada")
  · exact List.not_mem_nil
  · refine List.forall_mem_singleton.mpr ⟨?_, ?_, .work, rfl⟩
    · exact (by decide +kernel : ascii "12" ≠ [])
    · exact (by decide +kernel : newline ∉ ascii "12")

theorem listPeople_injective_sample :
    (sample []).people.map Person.shown = (sample [0x18, 0x01]).people.map Person.shown := by
  let toString : Int → Bytes := fun time =>
    if time = 0 then ascii "1970-01-01T00:00:00Z" else ascii "1970-01-01T00:00:01Z"
  have hdistinct : toString 0 ≠ toString 1 := by decide +kernel
  refine @listPeople_injective Int toString (fun time => time = 0 ∨ time = 1) ?_ ?_ _ _
    (sample_listed []) (sample_listed _) rfl
  · rintro time time' (rfl | rfl) (rfl | rfl) h
    · rfl
    · exact absurd h hdistinct
    · exact absurd h.symm hdistinct
    · rfl
  · rintro time (rfl | rfl)
    · decide +kernel
    · decide +kernel

end Assignment.ProtoBuff
