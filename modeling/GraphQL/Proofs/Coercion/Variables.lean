import GraphQL.Coercion.Variables
import GraphQL.Proofs.Entries

/-!
# Coercion of the variables of a request

One declaration after the other is turned into an outcome, which is stored or reported. What the whole
loop does is said here about that step, `Coercion.coerceEachVariable_cons` and
`Coercion.step_of_coerceEachVariable`, and from it about any declarations.

* `Coercion.get?_of_coerceEachVariable` — in a request whose variables are accepted, a variable has the
  value that its own declaration gives it;
* `Coercion.exists_of_isAccepted` — a request is accepted if its declarations are, one by one;
* `Coercion.coerceDeclaredVariable_eq_panicked_iff`, `Coercion.coerceVariables_eq_panicked_iff` — the
  only panic is that of a type with too many lists, if its declaration is reached;
* `Coercion.failures_of_coerceVariables` — what the errors of a request are about.
-/

namespace GraphQL

namespace Variables

theorem get?_insert_self (vars : Variables) (name : String) (value : Value) :
    (vars.insert name value).get? name = some value := by
  suffices h : ∀ entries, Entries.get? (insertEntry name value entries) name = some value from
    h vars.entries
  -- The variables are kept in order, so the entry is put before a greater one, in place of its own,
  -- or further behind.
  intro entries
  induction entries with
  | nil => exact if_pos rfl
  | cons entry rest ih =>
    rw [insertEntry]
    split
    · exact if_pos rfl
    · split
      · exact if_pos rfl
      next hne => rw [Entries.get?, if_neg fun heq => hne heq.symm, ih]

theorem get?_insert_of_ne (vars : Variables) {name other : String} (value : Value)
    (h : other ≠ name) : (vars.insert name value).get? other = vars.get? other := by
  suffices hentries : ∀ entries, Entries.get? (insertEntry name value entries) other =
      Entries.get? entries other from hentries vars.entries
  -- An entry of another name is found before the new one, or behind it.
  intro entries
  induction entries with
  | nil => exact if_neg h.symm
  | cons entry rest ih =>
    rw [insertEntry]
    split
    · exact if_neg h.symm
    · split
      next heq => rw [Entries.get?, Entries.get?, if_neg h.symm, if_neg fun hother =>
          h (hother.symm.trans heq.symm)]
      next => rw [Entries.get?, Entries.get?, ih]

theorem get?_erase_of_ne (vars : Variables) {name other : String} (h : other ≠ name) :
    (vars.erase name).get? other = vars.get? other := Entries.get?_erase_of_ne h

end Variables

namespace Coercion

/-- The coerced variables after an outcome. -/
def VariableOutcome.store (name : String) (coerced : Variables) : VariableOutcome → Variables
  | .value result => coerced.insert name result
  | .absent | .failed _ => coerced

/-- The errors that an outcome adds. -/
def VariableOutcome.errors : VariableOutcome → List GraphQLError
  | .failed error => [error]
  | .absent | .value _ => []

variable {types : TypeSystem} {limit : Nat} {raw coerced coerced' : Variables}
  {definition : VariableDefinition} {definitions rest : List VariableDefinition}
  {errors errors' : List GraphQLError}

/-! ### The step of one declaration -/

/-- What a declaration leaves of the values of a request. -/
def remaining (types : TypeSystem) (definition : VariableDefinition) (raw : Variables) : Variables :=
  if (TypeRef.ofSyntax? definition.type).any (types.namedTypeIs TypeDefinition.isInput) then
    raw.erase definition.name
  else raw

theorem get?_remaining_of_ne {name : String} (h : name ≠ definition.name) :
    (remaining types definition raw).get? name = raw.get? name := by
  rw [remaining]
  split
  · exact raw.get?_erase_of_ne h
  · rfl

/-- **One step**: the outcome of a declaration is stored, or its error is added, unless there are too
many errors already. -/
theorem coerceEachVariable_cons :
    coerceEachVariable types limit (definition :: rest) raw coerced errors =
      if limit ≤ errors.length then .ok (coerced, errors ++ [tooManyVariableErrors])
      else coerceDeclaredVariable types definition (raw.get? definition.name) >>= fun outcome =>
        coerceEachVariable types limit rest (remaining types definition raw)
          (outcome.store definition.name coerced) (errors ++ outcome.errors) := by
  rw [coerceEachVariable]
  split
  · rfl
  · refine bind_congr fun outcome => ?_
    cases outcome with
    | absent => rw [VariableOutcome.errors, List.append_nil]; rfl
    | value value => rw [VariableOutcome.errors, List.append_nil]; rfl
    | failed error => rfl

/-- **What one step leads to**: the loop gives up with one more error, or the declaration has an outcome,
with which the loop goes on. -/
theorem step_of_coerceEachVariable
    (h : coerceEachVariable types limit (definition :: rest) raw coerced errors =
      .ok (coerced', errors')) :
    (coerced' = coerced ∧ errors' = errors ++ [tooManyVariableErrors]) ∨
      ∃ outcome, coerceDeclaredVariable types definition (raw.get? definition.name) = .ok outcome ∧
        coerceEachVariable types limit rest (remaining types definition raw)
          (outcome.store definition.name coerced) (errors ++ outcome.errors) = .ok (coerced', errors') := by
  rw [coerceEachVariable_cons] at h
  split at h
  · obtain ⟨rfl, rfl⟩ := Prod.mk.inj (Except.ok.inj h)
    exact .inl ⟨rfl, rfl⟩
  · cases houtcome : coerceDeclaredVariable types definition (raw.get? definition.name) with
    | error why =>
      rw [houtcome] at h
      cases h
    | ok outcome =>
      rw [houtcome] at h
      exact .inr ⟨outcome, rfl, h⟩

/-- Errors are never taken back. -/
theorem initial_errors (h : coerceEachVariable types limit definitions raw coerced errors =
    .ok (coerced', errors')) : errors <+: errors' := by
  induction definitions generalizing raw coerced errors with
  | nil =>
    obtain ⟨-, rfl⟩ := Prod.mk.inj (Except.ok.inj h)
    exact List.prefix_rfl
  | cons definition rest ih =>
    -- The loop gives up with the errors so far and one more, or goes on with more errors.
    rcases step_of_coerceEachVariable h with ⟨-, rfl⟩ | ⟨outcome, -, hrest⟩
    · exact List.prefix_append errors _
    · exact (List.prefix_append errors _).trans (ih hrest)

/-! ### The value of a variable -/

/-- Later declarations of other names leave a variable as it is. -/
theorem get?_kept {name : String} (hname : name ∉ definitions.map VariableDefinition.name)
    (h : coerceEachVariable types limit definitions raw coerced errors = .ok (coerced', errors')) :
    coerced'.get? name = coerced.get? name := by
  induction definitions generalizing raw coerced errors with
  | nil =>
    obtain ⟨rfl, -⟩ := Prod.mk.inj (Except.ok.inj h)
    rfl
  | cons definition rest ih =>
    obtain ⟨hne, hrest⟩ := not_or.mp fun hmem => hname (List.mem_cons.mpr hmem)
    -- The loop gives up, or goes on with what this declaration stores under its own name.
    rcases step_of_coerceEachVariable h with ⟨rfl, -⟩ | ⟨outcome, -, hlater⟩
    · rfl
    · rw [ih hrest hlater]
      cases outcome with
      | value value => exact coerced.get?_insert_of_ne value hne
      | absent | failed _ => rfl

/-- **Where all variables are accepted, each has the value that its own declaration gives it.** -/
theorem get?_of_coerceDeclaredVariable {value : Value}
    (hnames : (definitions.map VariableDefinition.name).Nodup) (hmem : definition ∈ definitions)
    (hvalue : coerceDeclaredVariable types definition (raw.get? definition.name) = .ok (.value value))
    (h : coerceEachVariable types limit definitions raw coerced errors = .ok (coerced', [])) :
    coerced'.get? definition.name = some value := by
  induction definitions generalizing raw coerced errors with
  | nil => exact absurd hmem List.not_mem_nil
  | cons first rest ih =>
    obtain ⟨hfirst, hnames⟩ := List.nodup_cons.mp hnames
    rcases step_of_coerceEachVariable h with ⟨-, hmore⟩ | ⟨outcome, houtcome, hlater⟩
    · exact absurd hmore (by simp)
    · rcases List.mem_cons.mp hmem with rfl | hmem
      · -- The declaration itself: its value is stored, and no later name is the same.
        obtain rfl : VariableOutcome.value value = outcome := Except.ok.inj (hvalue.symm.trans houtcome)
        rw [get?_kept hfirst hlater]
        exact coerced.get?_insert_self definition.name value
      · -- It is behind the first declaration, which has another name and does not take its value out.
        have hne : definition.name ≠ first.name := fun heq =>
          hfirst (heq ▸ List.mem_map_of_mem hmem)
        exact ih hnames hmem (by rw [get?_remaining_of_ne hne, hvalue]) hlater

/-- The same of a value that the request gives. -/
theorem get?_of_coerceEachVariable {given value : Value}
    (hnames : (definitions.map VariableDefinition.name).Nodup) (hmem : definition ∈ definitions)
    (hgiven : raw.get? definition.name = some given)
    (hvalue : coerceDeclaredVariable types definition (some given) = .ok (.value value))
    (h : coerceEachVariable types limit definitions raw coerced errors = .ok (coerced', [])) :
    coerced'.get? definition.name = some value :=
  get?_of_coerceDeclaredVariable hnames hmem (by rw [hgiven, hvalue]) h

/-- A declaration is accepted if it comes to no error by itself. -/
def IsAccepted (types : TypeSystem) (raw : Variables) (definition : VariableDefinition) : Prop :=
  ∃ outcome, coerceDeclaredVariable types definition (raw.get? definition.name) = .ok outcome ∧
    outcome.errors = []

/-- An accepted declaration adds no error. -/
theorem coerceEachVariable_of_accepted {outcome : VariableOutcome} (hroom : errors.length < limit)
    (houtcome : coerceDeclaredVariable types definition (raw.get? definition.name) = .ok outcome)
    (herrors : outcome.errors = []) :
    coerceEachVariable types limit (definition :: rest) raw coerced errors =
      coerceEachVariable types limit rest (remaining types definition raw)
        (outcome.store definition.name coerced) errors := by
  rw [coerceEachVariable_cons, if_neg (Nat.not_le_of_lt hroom), houtcome]
  change coerceEachVariable types limit rest (remaining types definition raw) _
    (errors ++ outcome.errors) = _
  rw [herrors, List.append_nil]

/-- **Declarations that are accepted one by one are accepted together**, if there may be any errors. -/
theorem exists_of_isAccepted (hlimit : 0 < limit)
    (hnames : (definitions.map VariableDefinition.name).Nodup)
    (h : ∀ definition ∈ definitions, IsAccepted types raw definition) :
    ∃ accepted, coerceEachVariable types limit definitions raw coerced [] = .ok (accepted, []) := by
  induction definitions generalizing raw coerced with
  | nil => exact ⟨coerced, rfl⟩
  | cons first rest ih =>
    obtain ⟨hfirst, hnames⟩ := List.nodup_cons.mp hnames
    obtain ⟨outcome, houtcome, herrors⟩ := h first List.mem_cons_self
    -- The first one is accepted, so the others go on without errors.
    rw [coerceEachVariable_of_accepted hlimit houtcome herrors]
    refine ih hnames fun definition hmem => ?_
    -- Its name is another one, so its value is still there.
    have hne : definition.name ≠ first.name := fun heq => hfirst (heq ▸ List.mem_map_of_mem hmem)
    rw [IsAccepted, get?_remaining_of_ne hne]
    exact h definition (List.mem_cons_of_mem first hmem)

/-! ### Types with too many lists -/

/-- A declaration panics exactly if its type has too many lists. -/
theorem coerceDeclaredVariable_eq_panicked_iff {given : Option Value} {message : String} :
    coerceDeclaredVariable types definition given = .error (.panicked message) ↔
      message = Wrapping.overflowMessage ∧ TypeRef.ofSyntax? definition.type = none := by
  rw [coerceDeclaredVariable]
  cases TypeRef.ofSyntax? definition.type with
  | none => exact ⟨fun h => ⟨(Abort.panicked.inj (Except.error.inj h)).symm, rfl⟩, fun h => h.1 ▸ rfl⟩
  | some ty =>
    refine ⟨fun h => ?_, fun h => by cases h.2⟩
    -- A type that is read leads to a value or an error.
    dsimp only at h
    split at h
    · cases h
    · split at h
      · split at h <;> cases h
      · split at h <;> cases h

/-- The loop panics exactly if it reaches a declaration that does. The induction is on the
declarations, with the values and errors so far: a declaration is reached if those before it have an
outcome and leave fewer errors than the limit. -/
theorem coerceEachVariable_eq_panicked_iff {message : String} :
    coerceEachVariable types limit definitions raw coerced errors = .error (.panicked message) ↔
      message = Wrapping.overflowMessage ∧ ∃ before definition after,
        definitions = before ++ definition :: after ∧ TypeRef.ofSyntax? definition.type = none ∧
          ∃ coerced' errors', coerceEachVariable types limit before raw coerced errors =
            .ok (coerced', errors') ∧ errors'.length < limit := by
  induction definitions generalizing raw coerced errors with
  | nil => exact ⟨nofun, fun ⟨_, before, _, _, h, _⟩ => by simp at h⟩
  | cons first rest ih =>
    rw [coerceEachVariable_cons]
    split
    next hfull =>
      refine ⟨nofun, ?_⟩
      rintro ⟨-, before, definition, after, -, -, coerced', errors', hbefore, hroom⟩
      -- The errors are too many from the start, and they never become fewer.
      have hle := (initial_errors hbefore).length_le
      omega
    next hroom =>
      cases houtcome : coerceDeclaredVariable types first (raw.get? first.name) with
      -- The first declaration fails to have an outcome: it panics, or goes on for ever.
      | error why =>
        refine ⟨fun h => ?_, ?_⟩
        · obtain rfl : why = .panicked message := Except.error.inj h
          obtain ⟨rfl, htype⟩ := coerceDeclaredVariable_eq_panicked_iff.mp houtcome
          exact ⟨rfl, [], first, rest, rfl, htype, coerced, errors, rfl, Nat.lt_of_not_le hroom⟩
        · rintro ⟨rfl, before, definition, after, hsplit, htype, coerced', errors', hbefore, -⟩
          cases before with
          | nil =>
            obtain ⟨rfl, rfl⟩ := List.cons.inj hsplit
            have hpanics := houtcome.symm.trans
              (coerceDeclaredVariable_eq_panicked_iff.mpr ⟨rfl, htype⟩)
            exact congrArg _ (Except.error.inj hpanics)
          | cons other before =>
            obtain ⟨rfl, rfl⟩ := List.cons.inj hsplit
            rw [coerceEachVariable_cons, if_neg hroom, houtcome] at hbefore
            exact nomatch hbefore
      | ok outcome =>
        -- The first declaration has an outcome, so the loop panics exactly if the rest does.
        refine (ih).trans (and_congr_right fun _ => ⟨?_, ?_⟩)
        · rintro ⟨before, definition, after, rfl, htype, coerced', errors', hbefore, hfew⟩
          refine ⟨first :: before, definition, after, rfl, htype, coerced', errors', ?_, hfew⟩
          rw [coerceEachVariable_cons, if_neg hroom, houtcome]
          exact hbefore
        · rintro ⟨before, definition, after, hsplit, htype, coerced', errors', hbefore, hfew⟩
          cases before with
          | nil =>
            obtain ⟨rfl, rfl⟩ := List.cons.inj hsplit
            have hpanics := houtcome.symm.trans
              (coerceDeclaredVariable_eq_panicked_iff.mpr ⟨rfl, htype⟩)
            exact nomatch hpanics
          | cons other before =>
            obtain ⟨rfl, rfl⟩ := List.cons.inj hsplit
            rw [coerceEachVariable_cons, if_neg hroom, houtcome] at hbefore
            exact ⟨before, definition, after, rfl, htype, coerced', errors', hbefore, hfew⟩

/-- **Coercing variables panics exactly if a declaration is reached whose type has too many lists.** -/
theorem coerceVariables_eq_panicked_iff {message : String} :
    coerceVariables types limit definitions raw = .error (.panicked message) ↔
      message = Wrapping.overflowMessage ∧ ∃ before definition after,
        definitions = before ++ definition :: after ∧ TypeRef.ofSyntax? definition.type = none ∧
          ∃ coerced errors, coerceEachVariable types limit before raw .empty [] =
            .ok (coerced, errors) ∧ errors.length < limit := by
  rw [← coerceEachVariable_eq_panicked_iff, coerceVariables]
  cases coerceEachVariable types limit definitions raw .empty [] with
  | error why =>
    exact ⟨fun h => congrArg _ (Except.error.inj h), fun h => congrArg _ (Except.error.inj h)⟩
  | ok result => exact ⟨nofun, nofun⟩

/-- Accepted variables are those that the loop leaves, without any error. -/
theorem coerceVariables_eq_ok_iff {accepted : Variables} :
    coerceVariables types limit definitions raw = .ok (.ok accepted) ↔
      coerceEachVariable types limit definitions raw .empty [] = .ok (accepted, []) := by
  rw [coerceVariables]
  -- The errors of the loop decide, and there are none.
  cases coerceEachVariable types limit definitions raw .empty [] with
  | error why => exact ⟨nofun, nofun⟩
  | ok result =>
    obtain ⟨coerced, errors⟩ := result
    cases errors with
    | nil =>
      exact ⟨fun h => by rw [Except.ok.inj (Except.ok.inj h)], fun h => by
        rw [(Prod.mk.inj (Except.ok.inj h)).1]; rfl⟩
    | cons error rest => exact ⟨fun h => absurd (Except.ok.inj h) nofun, nofun⟩

/-! ### Errors -/

/-- What an error of a request is about: there are too many of them, or one of the declarations fails. -/
def IsVariableFailure (types : TypeSystem) (definitions : List VariableDefinition)
    (error : GraphQLError) : Prop :=
  error = tooManyVariableErrors ∨ ∃ definition ∈ definitions, ∃ given,
    coerceDeclaredVariable types definition given = .ok (.failed error)

/-- The loop adds no other errors. The induction is on the declarations. -/
theorem failures_of_coerceEachVariable
    (h : coerceEachVariable types limit definitions raw coerced errors = .ok (coerced', errors')) :
    ∀ error ∈ errors', error ∈ errors ∨ IsVariableFailure types definitions error := by
  induction definitions generalizing raw coerced errors with
  | nil =>
    obtain ⟨-, rfl⟩ := Prod.mk.inj (Except.ok.inj h)
    exact fun error hmem => .inl hmem
  | cons definition rest ih =>
    intro error hmem
    -- The loop gives up, and adds that there are too many errors, or it goes on.
    rcases step_of_coerceEachVariable h with ⟨-, rfl⟩ | ⟨outcome, houtcome, hlater⟩
    · rcases List.mem_append.mp hmem with hmem | hmem
      · exact .inl hmem
      · exact .inr (.inl (List.mem_singleton.mp hmem))
    · -- The error has been there before, or is that of this declaration, or of one behind it.
      rcases ih hlater error hmem with hmem | htoo | ⟨other, hother, hfails⟩
      · rcases List.mem_append.mp hmem with hmem | hmem
        · exact .inl hmem
        · cases outcome with
          | failed failure =>
            obtain rfl := List.mem_singleton.mp hmem
            exact .inr (.inr ⟨definition, List.mem_cons_self, _, houtcome⟩)
          | absent | value _ => exact absurd hmem List.not_mem_nil
      · exact .inr (.inl htoo)
      · exact .inr (.inr ⟨other, List.mem_cons_of_mem definition hother, hfails⟩)

/-- **A request whose variables are not accepted has errors**, each of them about a declaration or about
their number. -/
theorem failures_of_coerceVariables
    (h : coerceVariables types limit definitions raw = .ok (.error errors)) :
    errors ≠ [] ∧ ∀ error ∈ errors, IsVariableFailure types definitions error := by
  -- A request is refused where the loop ends with errors, and these are its errors.
  rw [coerceVariables] at h
  cases hloop : coerceEachVariable types limit definitions raw .empty [] with
  | error why => rw [hloop] at h; exact nomatch h
  | ok result =>
    obtain ⟨coerced, found⟩ := result
    rw [hloop] at h
    cases found with
    | nil => exact nomatch Except.ok.inj h
    | cons first others =>
      obtain rfl : first :: others = errors := Except.error.inj (Except.ok.inj h)
      refine ⟨List.cons_ne_nil first others, fun error hmem => ?_⟩
      exact (failures_of_coerceEachVariable hloop error hmem).resolve_left List.not_mem_nil

end Coercion

end GraphQL
