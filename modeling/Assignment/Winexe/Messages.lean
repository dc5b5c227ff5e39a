import Mathlib.Data.Nat.Digits.Defs
import Assignment.Winexe.System

/-!
# What the two sides make of each other's lines

The service on each command line that the client sends, and the client on
each line that the service answers with. The service's own texts are short
enough for one read of the client, those with the command or the
credentials in them as long as these are (`Options.Plain`).
-/

namespace Assignment.Winexe

open CString Istream
open Shell (literal)

/-- The strings fit on a line, are C strings, and leave room for the text of
an error around them in 256 bytes. -/
structure Options.Plain (o : Options) : Prop where
  cmd_line : newline ∉ o.cmd
  cmd_string : (0 : UInt8) ∉ o.cmd
  cmd_length : o.cmd.length ≤ 219
  runas_line : ∀ r ∈ o.runas, newline ∉ r
  runas_string : ∀ r ∈ o.runas, (0 : UInt8) ∉ r
  runas_length : ∀ r ∈ o.runas, r.length ≤ 210

/-- A line that reports an error and fits in one read. -/
def IsError (text : Text) : Prop :=
  text.length ≤ 256 ∧ ∃ rest, text = literal "error " ++ rest

/-- `version 0x0064\n` -/
def versionLine : Text := line (literal "version 0x" ++ hexPad 4 version)

def stdIoErrLine (nr : UInt32) : Text := line (literal "std_io_err " ++ hex8 nr)

def returnCodeLine (ec : UInt32) : Text := line (literal "return_code " ++ hex8 ec)

def ignoringAbort : Text := line (literal "error Ignoring unknown command (abort)")

theorem line_eq (text : Text) : line text = text ++ [newline] := rfl

@[simp] theorem line_length (text : Text) : (line text).length = text.length + 1 := by
  simp [line]

@[simp] theorem hex8_length (n : UInt32) : (hex8 n).length = 8 := by
  simp [hex8]

theorem hprintf_short {text : Text} (h : text.length ≤ 1023) : hprintf text = text :=
  List.take_of_length_le h

/-! ## The client reads -/

namespace Client

theorem cmdCheck_chunk {buffer name rest : Text} {sep : UInt8}
    (hsep : sep = space ∨ sep = newline) (hlen : (name ++ sep :: rest).length ≤ buffer.length) :
    cmdCheck (Buffer.overwrite buffer (name ++ sep :: rest)) name (name ++ sep :: rest).length
      = some (rest ++ buffer.drop (name ++ sep :: rest).length) := by
  have hlong : ¬ (name ++ sep :: rest).length ≤ name.length := by simp
  rw [Buffer.overwrite_of_le hlen, cmdCheck, if_neg hlong, List.append_assoc, List.cons_append,
    if_pos]
  · rw [← List.drop_drop, List.drop_left, List.drop_one, List.tail_cons]
  · refine ⟨List.take_left, ?_⟩
    rw [List.getElem?_append_right le_rfl, Nat.sub_self, List.getElem?_cons_zero]
    simpa using hsep

theorem cmdCheck_other {buffer chunk name : Text} (hlen : chunk.length ≤ buffer.length)
    (h : chunk.take name.length ≠ name) :
    cmdCheck (Buffer.overwrite buffer chunk) name chunk.length = none := by
  rw [cmdCheck]
  split
  · rfl
  · rename_i hlong
    rw [Buffer.overwrite_of_le hlen, if_neg]
    rintro ⟨htake, -⟩
    rw [List.take_append_of_le_length (by omega)] at htake
    exact h htake

variable {o : Options} {c : Client}

theorem read_stdIoErr (hbuffer : c.buffer.length = 256) (nr : UInt32) :
    c.onCtrlPipeRead o (stdIoErrLine nr)
      = ({ c with buffer := Buffer.overwrite c.buffer (stdIoErrLine nr) }, [.openStd nr]) := by
  have hline : stdIoErrLine nr = literal "std_io_err" ++ space :: (hex8 nr ++ [newline]) := by
    rw [stdIoErrLine, line_eq, show literal "std_io_err " = literal "std_io_err" ++ [space] from rfl]
    simp
  have hlen : (literal "std_io_err" ++ space :: (hex8 nr ++ [newline])).length
      ≤ c.buffer.length := by
    rw [hbuffer, ← hline, stdIoErrLine, line_length, List.length_append, hex8_length]
    decide
  simp only [onCtrlPipeRead, hline, cmdCheck_chunk (.inl rfl) hlen, List.append_assoc,
    List.singleton_append, strtoul_hex8, UInt32.ofNat_toNat]

theorem read_returnCode (hbuffer : c.buffer.length = 256) (ec : UInt32) :
    c.onCtrlPipeRead o (returnCodeLine ec)
      = ({ c with
            buffer := Buffer.overwrite c.buffer (returnCodeLine ec)
            returnCode := ec }, []) := by
  have hline : returnCodeLine ec = literal "return_code" ++ space :: (hex8 ec ++ [newline]) := by
    rw [returnCodeLine, line_eq,
      show literal "return_code " = literal "return_code" ++ [space] from rfl]
    simp
  have hlen : (literal "return_code" ++ space :: (hex8 ec ++ [newline])).length
      ≤ c.buffer.length := by
    rw [hbuffer, ← hline, returnCodeLine, line_length, List.length_append, hex8_length]
    decide
  have hother : (literal "return_code" ++ space :: (hex8 ec ++ [newline])).take
      (literal "std_io_err").length ≠ literal "std_io_err" := by
    rw [List.take_append_of_le_length (by decide)]
    decide
  simp only [onCtrlPipeRead, hline, cmdCheck_other hlen hother, cmdCheck_chunk (.inl rfl) hlen,
    List.append_assoc, List.singleton_append, strtoul_hex8, UInt32.ofNat_toNat]

/-- The service's version is accepted. -/
theorem read_version (hbuffer : c.buffer.length = 256) :
    c.onCtrlPipeRead o versionLine
      = ({ c with buffer := Buffer.overwrite c.buffer versionLine, state := .running },
          [.writeCtrl o.script]) := by
  have hline : versionLine = literal "version" ++ space :: (0x30 :: 0x78
      :: (hexPad 4 version ++ [newline])) := rfl
  have hlen : (literal "version" ++ space :: (0x30 :: 0x78 :: (hexPad 4 version
      ++ [newline]))).length ≤ c.buffer.length := by
    rw [hbuffer]
    decide
  have hstd : (literal "version" ++ space :: (0x30 :: 0x78 :: (hexPad 4 version
      ++ [newline]))).take (literal "std_io_err").length ≠ literal "std_io_err" := by decide
  have hreturn : (literal "version" ++ space :: (0x30 :: 0x78 :: (hexPad 4 version
      ++ [newline]))).take (literal "return_code").length ≠ literal "return_code" := by decide
  have hversion (rest : Text) :
      badVersion (0x30 :: 0x78 :: (hexPad 4 version ++ newline :: rest)) = false := by
    rw [badVersion, strtoul_zero_hexPad (by decide) (by decide) (by decide) (by decide)]
    decide
  simp only [onCtrlPipeRead, hline, cmdCheck_other hlen hstd, cmdCheck_other hlen hreturn,
    cmdCheck_chunk (.inl rfl) hlen, List.cons_append, List.append_assoc, List.nil_append,
    hversion, Bool.false_eq_true, if_false]

/-- An error that is reported once the version is known is printed and no
more. -/
theorem read_error (hbuffer : c.buffer.length = 256) (hstate : c.state = .running) {text : Text}
    (h : IsError text) :
    c.onCtrlPipeRead o text = ({ c with buffer := Buffer.overwrite c.buffer text }, []) := by
  obtain ⟨hlen, rest, rfl⟩ := h
  rw [← hbuffer] at hlen
  have hstart (name : Text) (hname : name.length ≠ 0) (hhead : name.head? ≠ some 0x65) :
      (literal "error " ++ rest).take name.length ≠ name := by
    cases name with
    | nil => exact absurd rfl hname
    | cons a name =>
        intro htake
        have ha : (0x65 : UInt8) = a := (List.cons.inj htake).1
        exact hhead (by rw [← ha]; rfl)
  have hstd := hstart (literal "std_io_err") (by decide) (by decide)
  have hreturn := hstart (literal "return_code") (by decide) (by decide)
  have hversion := hstart (literal "version") (by decide) (by decide)
  have hnot : ¬ c.state = .gettingVersion := by
    rw [hstate]
    decide
  simp only [onCtrlPipeRead, cmdCheck_other hlen hstd, cmdCheck_other hlen hreturn,
    cmdCheck_other hlen hversion, hnot, if_false]
  split <;> rfl

end Client

/-! ## The lengths of the errors -/

theorem errorNumber_length (e : UInt32) : (errorNumber e).length ≤ 11 := by
  have hnat {n : Nat} (h : n ≤ 2 ^ 31) : (Ostream.showNat n).length ≤ 10 := by
    rw [Ostream.showNat, List.length_map]
    exact Nat.toDigits_length 10 n 10 (by decide) (by omega)
  have hlow := Int32.le_toInt e.toInt32
  have hhigh := Int32.toInt_lt e.toInt32
  rw [errorNumber, Ostream.showInt]
  split
  · have := hnat (n := e.toInt32.toInt.natAbs) (by omega)
    simp only [List.length_cons]
    omega
  · have := hnat (n := e.toInt32.toInt.natAbs) (by omega)
    omega

theorem isError_line {rest : Text} (h : rest.length ≤ 249) :
    IsError (line (literal "error " ++ rest)) := by
  refine ⟨?_, rest ++ [newline], by rw [line_eq, List.append_assoc]⟩
  rw [line_length, List.length_append, show (literal "error ").length = 6 from rfl]
  omega

theorem IsError.hprintf_eq {text : Text} (h : IsError text) : hprintf text = text :=
  hprintf_short (by have := h.1; omega)

theorem splitPassword_length (domain rest : Text) :
    (splitPassword domain rest).user.length + (splitPassword domain rest).domain.length
      + (showString (splitPassword domain rest).password).length
        ≤ domain.length + rest.length + 6 := by
  rw [splitPassword]
  cases hpercent : strchr 0x25 rest with
  | none =>
      have hnull : (showString none).length = 6 := rfl
      simp only [hnull]
      omega
  | some p =>
      have := strchr_length hpercent
      simp only [showString]
      omega

theorem prepareCredentials_length (str : Text) :
    (prepareCredentials str).user.length + (prepareCredentials str).domain.length
      + (showString (prepareCredentials str).password).length ≤ str.length + 7 := by
  rw [prepareCredentials]
  cases hslash : strchr 0x2F str with
  | some p =>
      have := strchr_length hslash
      have := splitPassword_length p.1 p.2
      simp only
      omega
  | none =>
      cases hback : strchr 0x5C str with
      | some p =>
          have := strchr_length hback
          have := splitPassword_length p.1 p.2
          simp only
          omega
      | none =>
          have hdot : (literal ".").length = 1 := rfl
          have := splitPassword_length (literal ".") str
          simp only
          omega

/-! ## The service executes -/

theorem named_append (name rest : Text) : named name (name ++ space :: rest) = true := by
  simp [named]

theorem named_of_take_ne {name cmd : Text} (h : cmd.take name.length ≠ name) :
    named name cmd = false := by
  simp [named, h]

/-- The token that a `run` asks for in a context. -/
def Context.requested (c : Context) : Token :=
  match c.runas with
  | some str => .logon (prepareCredentials str)
  | none => if c.system ≠ 0 then .process c.implevel else .client c.implevel

theorem handle_getVersion (w : Windows) (c : Context) :
    handle w c (literal "get version") = ⟨[versionLine], c, .reading []⟩ := rfl

theorem handle_abort (w : Windows) (c : Context) :
    handle w c (literal "abort") = ⟨[ignoringAbort], c, .reading []⟩ := rfl

theorem handle_setSystem (w : Windows) (c : Context) :
    handle w c (literal "set system 1") = ⟨[], { c with system := 1 }, .reading []⟩ := rfl

theorem cString_literal_append {front text : Text} (hfront : (0 : UInt8) ∉ front)
    (h : (0 : UInt8) ∉ text) : cString (front ++ text) = front ++ text :=
  cString_of_not_mem (by simp [hfront, h])

theorem handle_setRunas (w : Windows) (c : Context) {r : Text} (h : (0 : UInt8) ∉ r) :
    handle w c (literal "set runas " ++ r) = ⟨[], { c with runas := some r }, .reading []⟩ := by
  have hcmd : literal "set runas " ++ r = literal "set" ++ space :: (literal "runas " ++ r) := rfl
  have hblank : strchr space (literal "set" ++ space :: (literal "runas " ++ r))
      = some (literal "set", literal "runas " ++ r) := strchr_append (by decide) _
  have hrun : named (literal "run") (literal "set" ++ space :: (literal "runas " ++ r)) = false :=
    named_of_take_ne (by rw [List.take_append_of_le_length (by decide)]; decide)
  have hsystem : (literal "runas " ++ r).take ((literal "system").length + 1)
      ≠ literal "system" ++ [space] := fun heq => absurd (List.cons.inj heq).1 (by decide)
  have himplevel : (literal "runas " ++ r).take ((literal "implevel").length + 1)
      ≠ literal "implevel" ++ [space] := fun heq => absurd (List.cons.inj heq).1 (by decide)
  have hrunas : (literal "runas " ++ r).take ((literal "runas").length + 1)
      = literal "runas" ++ [space] := rfl
  have hargument : (literal "runas " ++ r).drop ((literal "runas").length + 1) = r := rfl
  rw [handle, cString_literal_append (by decide) h, hcmd]
  simp only [hrun, named_append, Bool.false_eq_true, if_false, if_true, cmdSet, hblank, hsystem,
    himplevel, hrunas, hargument]

/-- The token asked for, or none and the errors. -/
def TokenOrErrors (token : Token) (result : List Text × Option Token) : Prop :=
  result = ([], some token) ∨ result.2 = none ∧ ∀ text ∈ result.1, IsError text

theorem noToken_errors {call : String} (rest : Text)
    (hcall : literal call = literal "error " ++ rest) (hlen : rest.length ≤ 100) (e : UInt32)
    (token : Token) : TokenOrErrors token (noToken call e) := by
  refine .inr ⟨rfl, fun text htext => ?_⟩
  rw [noToken, List.mem_singleton] at htext
  have hnumber := errorNumber_length e
  rw [htext, hcall, List.append_assoc, List.append_assoc]
  refine isError_line ?_
  rw [List.length_append, List.length_append, show (literal " ").length = 1 from rfl]
  omega

theorem duplicate_errors (w : Windows) (token : Token) :
    TokenOrErrors token (duplicate w token) := by
  rw [duplicate]
  cases w.duplicateTokenEx with
  | none => exact .inl rfl
  | some e => exact noToken_errors (literal "Cannot Duplicate Token") rfl (by decide) e _

theorem revert_errors {w : Windows} {token : Token} {result : List Text × Option Token}
    (h : TokenOrErrors token result) : TokenOrErrors token (revert w result) := by
  rw [revert]
  cases w.revertToSelf with
  | none => exact h
  | some e =>
      have herror := noToken_errors (literal "Cannot RevertToSelf")
        (rfl : literal "error Cannot RevertToSelf" = _) (by decide) e token
      refine .inr ⟨rfl, fun text htext => ?_⟩
      rcases List.mem_append.mp htext with hmem | hmem
      · rcases h with rfl | ⟨-, hall⟩
        · cases hmem
        · exact hall text hmem
      · rcases herror with heq | ⟨-, hall⟩
        · cases heq
        · exact hall text hmem

theorem logonError_isError {str : Text} (h : str.length ≤ 210) (e : UInt32) :
    IsError (line (literal "error Cannot LogonUser(" ++ (prepareCredentials str).user
      ++ literal "," ++ (prepareCredentials str).domain ++ literal ","
      ++ showString (prepareCredentials str).password ++ literal ") " ++ errorNumber e)) := by
  have hnumber := errorNumber_length e
  have hcrd := prepareCredentials_length str
  rw [show literal "error Cannot LogonUser(" = literal "error " ++ literal "Cannot LogonUser(" from
    rfl]
  simp only [List.append_assoc]
  refine isError_line ?_
  simp only [List.length_append, show (literal "Cannot LogonUser(").length = 17 from rfl,
    show (literal ",").length = 1 from rfl, show (literal ") ").length = 2 from rfl]
  omega

/-- `get_token` comes back with the token asked for, or with errors. -/
theorem getToken_errors (w : Windows) (c : Context) (h : ∀ r ∈ c.runas, r.length ≤ 210) :
    TokenOrErrors c.requested (getToken w c) := by
  rw [getToken, Context.requested]
  cases hrunas : c.runas with
  | some str =>
      simp only
      cases w.logonUser (prepareCredentials str) with
      | none => exact .inl rfl
      | some e =>
          refine .inr ⟨rfl, fun text htext => ?_⟩
          rw [List.mem_singleton] at htext
          rw [htext]
          exact logonError_isError (h str hrunas) e
  | none =>
      simp only
      split
      · cases w.openProcessToken with
        | none => exact duplicate_errors w _
        | some e =>
            exact noToken_errors (literal "Cannot OpenProcessToken") rfl (by decide) e _
      · cases w.impersonateNamedPipeClient with
        | some e =>
            exact noToken_errors (literal "Cannot ImpersonateNamedPipeClient") rfl
              (by decide) e _
        | none =>
            cases w.openThreadToken with
            | some e =>
                exact revert_errors (noToken_errors (literal "Cannot OpenThreadToken") rfl
                  (by decide) e _)
            | none => exact revert_errors (duplicate_errors w _)

theorem createPipes_isError {w : Windows} {nr : UInt32} {ps : List Std} {error : Text}
    (h : createPipes w nr ps = some error) : IsError error := by
  induction ps with
  | nil => cases h
  | cons p ps ih =>
      rw [createPipes] at h
      split at h
      · rename_i e _
        cases h
        have hname : p.name.length ≤ 3 := by cases p <;> decide
        have hhex : (p.hex e).length = 8 := by cases p <;> simp [Std.hex]
        rw [show literal "error Cannot create " = literal "error " ++ literal "Cannot create " from
          rfl, Std.pipeName]
        simp only [List.append_assoc]
        refine isError_line ?_
        simp only [List.length_append, hhex, hex8_length,
          show (literal "Cannot create ").length = 14 from rfl,
          show (literal " pipe(").length = 6 from rfl,
          show (literal "\\\\.\\pipe\\ahexec_std").length = 19 from rfl,
          show (literal "), error 0x").length = 11 from rfl]
        omega
      · exact ih h

/-- **A `run` either goes on to the pipes, with the command line as it was
sent and the token asked for, or ends the connection with errors.** -/
theorem handle_run (w : Windows) (c : Context) {cmd : Text} (h : (0 : UInt8) ∉ cmd)
    (hr : ∀ r ∈ c.runas, r.length ≤ 210) :
    handle w c (literal "run " ++ cmd)
        = ⟨[stdIoErrLine (pipeNr w c)], c, .connecting .pin ⟨cmd, c.requested⟩⟩
      ∨ ∃ errors, handle w c (literal "run " ++ cmd) = ⟨errors, c, .finished⟩
          ∧ ∀ text ∈ errors, IsError text := by
  have hcmd : literal "run " ++ cmd = literal "run" ++ space :: cmd := rfl
  have hblank : strchr space (literal "run" ++ space :: cmd) = some (literal "run", cmd) :=
    strchr_append (by decide) _
  rw [handle, cString_literal_append (by decide) h, hcmd]
  simp only [named_append, if_true, cmdRun, hblank]
  rcases hget : getToken w c with ⟨out, token⟩
  have herrors := getToken_errors w c hr
  rw [hget] at herrors
  rcases herrors with heq | ⟨hnone, hall⟩
  · cases heq
    simp only
    cases hpipes : createPipes w (pipeNr w c) [.pin, .pout, .perr] with
    | none => exact .inl rfl
    | some error =>
        refine .inr ⟨_, rfl, fun text htext => ?_⟩
        rw [List.nil_append, List.mem_singleton] at htext
        rw [htext]
        exact createPipes_isError hpipes
  · simp only at hnone
    rw [hnone]
    exact .inr ⟨out, rfl, hall⟩

theorem createProcess_error {cmd : Text} (h : cmd.length ≤ 219) (e : UInt32) :
    IsError (line (literal "error Creating process(" ++ cmd ++ literal ") " ++ errorNumber e)) := by
  have hnumber := errorNumber_length e
  rw [show literal "error Creating process(" = literal "error " ++ literal "Creating process(" from
    rfl]
  simp only [List.append_assoc]
  refine isError_line ?_
  simp only [List.length_append, show (literal "Creating process(").length = 17 from rfl,
    show (literal ") ").length = 2 from rfl]
  omega

theorem connect_error (p : Std) :
    IsError (line (literal "error ConnectNamedPipe(p" ++ p.name ++ literal ")")) := by
  cases p <;> exact ⟨by decide, _, rfl⟩

theorem ignoringAbort_isError : IsError ignoringAbort := ⟨by decide, _, rfl⟩

end Assignment.Winexe
