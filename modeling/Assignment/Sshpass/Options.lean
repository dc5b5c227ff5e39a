import Assignment.Sshpass.Main

/-!
# The options of sshpass

Which command lines `parse_options` accepts, and what it makes of them
(`accepted`): at most one of them names a source of the password, whatever
their order, and the last `-P` counts.
-/

namespace Assignment.Sshpass

open CString
open Shell (literal)

/-- The source that an option names. -/
def Opt.source (env : Option Text) : Opt → Option Source
  | .file filename => some (.file filename)
  | .fd number => some (.fd (atoi number))
  | .pass password => some (.pass password)
  | .env => env.map .pass
  | .prompt _ | .verbose | .help | .version | .invalid => none

/-- The prompt that an option gives. -/
def Opt.pwprompt : Opt → Option Text
  | .prompt text => some text
  | _ => none

/-- The option is an error, or ends the program, by itself. -/
def Opt.ends (env : Option Text) : Opt → Bool
  | .help | .version | .invalid => true
  | .env => env.isNone
  | _ => false

/-- The sources that the options name. -/
def sources (env : Option Text) (opts : List Opt) : List Source := opts.filterMap (Opt.source env)

/-- What the options make of `args`. -/
def Args.with (env : Option Text) (a : Args) (opts : List Opt) : Args where
  source := (sources env opts).getLast?.getD a.source
  pwprompt := ((opts.filterMap Opt.pwprompt).getLast?).or a.pwprompt
  verbose := a.verbose + opts.count .verbose

/-- How many sources have been taken before. -/
def Args.taken (a : Args) : Nat := if a.source = .stdin then 0 else 1

variable {env : Option Text} {a b : Args} {opt : Opt} {opts : List Opt} {source : Source}

theorem source_ne_stdin (h : opt.source env = some source) : source ≠ .stdin := by
  cases opt with
  | env =>
      obtain ⟨password, -, rfl⟩ := Option.map_eq_some_iff.mp h
      exact Source.noConfusion
  | file _ | fd _ | pass _ =>
      cases h
      exact Source.noConfusion
  | prompt _ | verbose | help | version | invalid => cases h

/-- An option that names a source is taken, or it is one too many. -/
theorem option_source (h : opt.source env = some source) :
    a.option env opt = a.take source ∧ opt.ends env = false ∧ opt ≠ .version
      ∧ opt.pwprompt = none ∧ opt ≠ .verbose := by
  cases opt with
  | env =>
      obtain ⟨password, rfl, rfl⟩ := Option.map_eq_some_iff.mp h
      exact ⟨rfl, rfl, Opt.noConfusion, rfl, Opt.noConfusion⟩
  | file _ | fd _ | pass _ =>
      cases h
      exact ⟨rfl, rfl, Opt.noConfusion, rfl, Opt.noConfusion⟩
  | prompt _ | verbose | help | version | invalid => cases h

/-- An option that names none goes on, or it ends the loop. -/
theorem option_other (h : opt.source env = none) :
    opt.ends env = true ∧ (opt = .version ∨ ∃ c error, a.option env opt = (c, some error))
      ∨ opt.ends env = false ∧ opt ≠ .version ∧ a.option env opt = (a.with env [opt], none) := by
  cases opt with
  | file _ | fd _ | pass _ => cases h
  | env =>
      cases env with
      | some password => cases h
      | none => exact .inl ⟨rfl, .inr ⟨_, _, rfl⟩⟩
  | prompt text => exact .inr ⟨rfl, Opt.noConfusion, rfl⟩
  | verbose => exact .inr ⟨rfl, Opt.noConfusion, rfl⟩
  | help => exact .inl ⟨rfl, .inr ⟨_, _, rfl⟩⟩
  | version => exact .inl ⟨rfl, .inl rfl⟩
  | invalid => exact .inl ⟨rfl, .inr ⟨_, _, rfl⟩⟩

theorem options_cons (hversion : opt ≠ .version) :
    a.options env (opt :: opts) =
      match a.option env opt with
      | (c, none) => c.options env opts
      | (_, some error) => .rejected error := by
  cases opt with
  | version => exact absurd rfl hversion
  | _ => rfl

theorem with_append (more : List Opt) :
    (a.with env opts).with env more = a.with env (opts ++ more) := by
  simp only [Args.with, sources, List.filterMap_append, List.getLast?_append, List.count_append,
    Args.mk.injEq]
  refine ⟨?_, ?_, by omega⟩
  · cases (List.filterMap (Opt.source env) more).getLast? <;> rfl
  · rw [Option.or_assoc]

theorem taken_le (a : Args) : a.taken ≤ 1 := by
  rw [Args.taken]
  split <;> omega

theorem taken_with (a : Args) (h : sources env opts = []) : (a.with env opts).taken = a.taken := by
  rw [Args.taken, Args.taken, Args.with, h]
  rfl

/-- **What `parse_options` accepts**, after some options have been read. -/
theorem options_accepted (env : Option Text) (opts : List Opt) (a b : Args) :
    a.options env opts = .accepted b
      ↔ (∀ opt ∈ opts, opt.ends env = false) ∧ a.taken + (sources env opts).length ≤ 1
        ∧ b = a.with env opts := by
  induction opts generalizing a with
  | nil =>
      constructor
      · intro h
        cases h
        exact ⟨fun opt hopt => absurd hopt List.not_mem_nil, taken_le _, rfl⟩
      · rintro ⟨-, -, rfl⟩
        rfl
  | cons opt opts ih =>
      rw [List.forall_mem_cons]
      cases hsource : opt.source env with
      | some source =>
          have hsources : sources env (opt :: opts) = source :: sources env opts :=
            List.filterMap_cons_some hsource
          obtain ⟨hoption, hends, hversion, hprompt, hverbose⟩ := option_source (a := a) hsource
          rw [options_cons hversion, hoption, Args.take, hsources, List.length_cons]
          by_cases hstdin : a.source = .stdin
          · have hwith : ({ a with source := source } : Args).with env opts
                = a.with env (opt :: opts) := by
              simp [Args.with, hsources, hprompt, hverbose, List.getLast?_cons]
            have htaken : ({ a with source := source } : Args).taken = 1 :=
              if_neg (source_ne_stdin hsource)
            have hfirst : a.taken = 0 := if_pos hstdin
            simp only [hstdin, if_true, ih, hwith, htaken, hfirst, hends]
            constructor
            · rintro ⟨hall, hlen, hb⟩
              exact ⟨⟨trivial, hall⟩, by omega, hb⟩
            · rintro ⟨⟨-, hall⟩, hlen, hb⟩
              exact ⟨hall, by omega, hb⟩
          · have hsecond : a.taken = 1 := if_neg hstdin
            simp only [hstdin, if_false, hsecond]
            constructor
            · intro h
              cases h
            · rintro ⟨-, hlen, -⟩
              omega
      | none =>
          have hsources : sources env (opt :: opts) = sources env opts :=
            List.filterMap_cons_none hsource
          rcases option_other (a := a) hsource with ⟨hends, hend⟩ | ⟨hends, hversion, hoption⟩
          · rw [hends]
            constructor
            · intro h
              rcases hend with rfl | ⟨c, error, hoption⟩
              · cases h
              · have hversion : opt ≠ .version := by
                  rintro rfl
                  cases hoption
                rw [options_cons hversion, hoption] at h
                cases h
            · rintro ⟨⟨hfalse, -⟩, -⟩
              cases hfalse
          · have hnone : sources env [opt] = [] := List.filterMap_cons_none hsource
            rw [options_cons hversion, hoption, hends, hsources]
            simp only [ih, with_append, taken_with a hnone, List.singleton_append, true_and]

/-- **What `parse_options` accepts**: options of which none is an error and at most
one names a source of the password, in any order. -/
theorem accepted (env : Option Text) (opts : List Opt) (b : Args) :
    parseOptions env opts = .accepted b
      ↔ (∀ opt ∈ opts, opt.ends env = false)
        ∧ (sources env opts = [] ∧ b.source = .stdin ∨ sources env opts = [b.source])
        ∧ b.pwprompt = (opts.filterMap Opt.pwprompt).getLast?
        ∧ b.verbose = opts.count .verbose := by
  obtain ⟨source, pwprompt, verbose⟩ := b
  have htaken : Args.taken ⟨.stdin, none, 0⟩ = 0 := rfl
  rw [parseOptions, options_accepted, htaken]
  simp only [Args.with, Args.mk.injEq, Option.or_none, Nat.zero_add]
  refine and_congr_right fun _ => ?_
  constructor
  · rintro ⟨hlen, rfl, hprompt, hverbose⟩
    refine ⟨?_, hprompt, hverbose⟩
    cases hsources : sources env opts with
    | nil => exact .inl ⟨rfl, rfl⟩
    | cons first rest =>
        rw [hsources, List.length_cons] at hlen
        obtain rfl : rest = [] := List.length_eq_zero_iff.mp (by omega)
        exact .inr rfl
  · rintro ⟨⟨hsources, rfl⟩ | hsources, hprompt, hverbose⟩
    · rw [hsources]
      exact ⟨Nat.zero_le 1, rfl, hprompt, hverbose⟩
    · rw [hsources]
      exact ⟨Nat.le_refl 1, rfl, hprompt, hverbose⟩

end Assignment.Sshpass
