import Assignment.Winexe.Credentials
import Assignment.Winexe.Dialogue

/-!
# The credentials of `--runas-file`

`parse_args` makes one text of the domain, the user and the password of a
credentials file, the client sends it with `set runas`, and
`prepare_credentials` in the service takes it apart again. The parts are the
same exactly when the text says so (`parseRunas_iff`): a blank would do no
harm, but a slash anywhere, also in the password, does. That is then the
account under which a process is started in every run (`runas_file`).
-/

namespace Assignment.Winexe

open Runs CString Istream
open Shell (literal)

/-- The formats `%s\%s%%%s` and `%s%%%s`. -/
def credentialsText (domain : Option Text) (username password : Text) : Text :=
  match domain with
  | some domain => domain ++ 0x5C :: (username ++ 0x25 :: password)
  | none => username ++ 0x25 :: password

/-- `parse_args`, as far as `options->runas` goes: `--runas` and what has been
read of `--runas-file`; the buffer has 1024 bytes. -/
def parseRunas (runas : Option Text) (file : Option CliCredentials) : Option Text :=
  match runas, file with
  | none, some cred =>
      match cred.username, cred.password with
      | some username, some password =>
          some ((credentialsText cred.domain username password).take 1023)
      | _, _ => none
  | runas, _ => runas

/-- The text says what is domain, user and password. -/
structure Separable (domain : Option Text) (username password : Text) : Prop where
  slash : 0x2F ∉ credentialsText domain username password
  backslash : 0x5C ∉ domain.getD (credentialsText domain username password)
  percent : 0x25 ∉ username

/-- And it fits in the buffer. -/
structure Sendable (domain : Option Text) (username password : Text) : Prop
    extends Separable domain username password where
  length : (credentialsText domain username password).length ≤ 1023

variable {domain : Option Text} {username password : Text}

theorem splitPassword_iff {d dom rest : Text} :
    splitPassword d rest = ⟨username, dom, some password⟩
      ↔ d = dom ∧ rest = username ++ 0x25 :: password ∧ 0x25 ∉ username := by
  rw [splitPassword]
  constructor
  · intro h
    cases hchr : strchr 0x25 rest with
    | none =>
        rw [hchr] at h
        cases h
    | some found =>
        obtain ⟨front, behind⟩ := found
        rw [hchr] at h
        cases h
        exact ⟨rfl, strchr_eq_some hchr⟩
  · rintro ⟨rfl, rfl, hpercent⟩
    rw [strchr_append hpercent]

/-- How `prepare_credentials` finds its three parts. -/
theorem prepareCredentials_cases {str dom : Text}
    (h : prepareCredentials str = ⟨username, dom, some password⟩) :
    0x25 ∉ username
      ∧ (str = dom ++ 0x2F :: (username ++ 0x25 :: password)
        ∨ (0x2F ∉ str ∧ str = dom ++ 0x5C :: (username ++ 0x25 :: password) ∧ 0x5C ∉ dom)
        ∨ 0x2F ∉ str ∧ 0x5C ∉ str ∧ dom = literal "." ∧ str = username ++ 0x25 :: password) := by
  rw [prepareCredentials] at h
  cases hslash : strchr 0x2F str with
  | some found =>
      obtain ⟨front, rest⟩ := found
      rw [hslash] at h
      obtain ⟨rfl, rfl, hpercent⟩ := splitPassword_iff.mp h
      exact ⟨hpercent, .inl (strchr_eq_some hslash).1⟩
  | none =>
      rw [hslash] at h
      cases hback : strchr 0x5C str with
      | some found =>
          obtain ⟨front, rest⟩ := found
          rw [hback] at h
          obtain ⟨rfl, rfl, hpercent⟩ := splitPassword_iff.mp h
          obtain ⟨hstr, hfront⟩ := strchr_eq_some hback
          exact ⟨hpercent, .inr (.inl ⟨not_mem_of_strchr hslash, hstr, hfront⟩)⟩
      | none =>
          rw [hback] at h
          obtain ⟨rfl, hstr, hpercent⟩ := splitPassword_iff.mp h
          exact ⟨hpercent, .inr (.inr ⟨not_mem_of_strchr hslash, not_mem_of_strchr hback, rfl, hstr⟩)⟩

/-- What can be sent arrives. -/
theorem Sendable.arrives (h : Sendable domain username password) :
    prepareCredentials ((credentialsText domain username password).take 1023)
      = ⟨username, domain.getD (literal "."), some password⟩ := by
  rw [List.take_of_length_le h.length, prepareCredentials, strchr_eq_none h.slash]
  cases domain with
  | none =>
      have hback := h.backslash
      rw [Option.getD_none] at hback
      simp only [strchr_eq_none hback]
      exact splitPassword_iff.mpr ⟨rfl, rfl, h.percent⟩
  | some dom =>
      have hback : 0x5C ∉ dom := h.backslash
      simp only [credentialsText, strchr_append hback]
      exact splitPassword_iff.mpr ⟨rfl, rfl, h.percent⟩

/-- What arrives could be sent. -/
theorem sendable_of_arrives
    (h : prepareCredentials ((credentialsText domain username password).take 1023)
      = ⟨username, domain.getD (literal "."), some password⟩) :
    Sendable domain username password := by
  obtain ⟨hpercent, hcases⟩ := prepareCredentials_cases h
  have htake : ((credentialsText domain username password).take 1023).length
      ≤ (credentialsText domain username password).length := by
    rw [List.length_take]
    exact Nat.min_le_right _ _
  -- a text that is as long as it was is the one that it was
  have hwhole (hlen : (credentialsText domain username password).length
        ≤ ((credentialsText domain username password).take 1023).length) :
      (credentialsText domain username password).length ≤ 1023
        ∧ (credentialsText domain username password).take 1023
          = credentialsText domain username password := by
    rw [List.length_take] at hlen
    have hshort : (credentialsText domain username password).length ≤ 1023 := by omega
    exact ⟨hshort, List.take_of_length_le hshort⟩
  cases domain with
  | none =>
      rw [Option.getD_none] at hcases
      rcases hcases with hstr | ⟨-, hstr, -⟩ | ⟨hslash, hback, -, hstr⟩
      · rw [hstr] at htake
        simp [credentialsText] at htake
        omega
      · rw [hstr] at htake
        simp [credentialsText] at htake
        omega
      · obtain ⟨hshort, heq⟩ := hwhole (by rw [hstr]; exact Nat.le_refl _)
        rw [heq] at hslash hback
        exact ⟨⟨hslash, hback, hpercent⟩, hshort⟩
  | some dom =>
      rw [Option.getD_some] at hcases
      rcases hcases with hstr | ⟨hslash, hstr, hback⟩ | ⟨-, hback, rfl, -⟩
      · obtain ⟨-, heq⟩ := hwhole (by rw [hstr]; simp [credentialsText])
        rw [heq, credentialsText] at hstr
        have hsep := List.append_cancel_left hstr
        exact absurd (List.cons.inj hsep).1 (by decide)
      · obtain ⟨hshort, heq⟩ := hwhole (by rw [hstr]; exact Nat.le_refl _)
        rw [heq] at hslash
        exact ⟨⟨hslash, hback, hpercent⟩, hshort⟩
      · exact absurd (by simp [credentialsText, literal]) hback

/-- **The credentials of `--runas-file`** are taken apart into the parts that they
were made of, exactly when they can be sent. -/
theorem parseRunas_iff (domain : Option Text) (username password : Text) :
    (parseRunas none (some ⟨domain, some username, some password⟩)).map prepareCredentials
        = some ⟨username, domain.getD (literal "."), some password⟩
      ↔ Sendable domain username password := by
  have hmap : (parseRunas none (some ⟨domain, some username, some password⟩)).map prepareCredentials
      = some (prepareCredentials ((credentialsText domain username password).take 1023)) := rfl
  rw [hmap, Option.some.injEq]
  exact ⟨sendable_of_arrives, fun h => h.arrives⟩

/-- What the options ask for is the account of `set runas`. -/
theorem launch_eq_logon {o : Options} {crd : Credentials} (hsome : o.runas.isSome = true) :
    o.launch = ⟨o.cmd, .logon crd⟩ ↔ o.runas.map prepareCredentials = some crd := by
  obtain ⟨runas, hrunas⟩ := Option.isSome_iff_exists.mp hsome
  simp [Options.launch, hrunas]

namespace System

/-- `DOM`, `u` and `a/b`. -/
def slashedFile : Text := literal "username = u\npassword = a/b\ndomain = Dom\n"

/-- `--runas-file`, and a character set of ASCII alone. -/
def slashed : Options :=
  ⟨literal "systeminfo",
    parseRunas none (some (cliCredentialsParseFile (fun _ => none) (some slashedFile))), 16⟩

theorem slashed_runas : slashed.runas = some (literal "DOM\\u%a/b") := by decide +kernel

theorem slashed_plain : slashed.Plain := by
  refine ⟨by decide, by decide, by decide, fun r hr => ?_, fun r hr => ?_, fun r hr => ?_⟩ <;>
    rw [slashed_runas] at hr <;> obtain rfl := (Option.some.inj hr).symm <;> decide

/-- Up to the start of the process: `set runas` has a line of its own. -/
def untilLoggedOn : List Action :=
  Action.opened 1 :: List.replicate 12 (Action.thread 0 .getc)
    ++ Action.read :: List.replicate 35 (Action.thread 0 .getc)
    ++ [Action.read, .openStd .pin 0, .openStd .pout 0, .openStd .perr 0]
    ++ List.replicate 3 (Action.thread 0 (.connect true))

end System

end Assignment.Winexe
