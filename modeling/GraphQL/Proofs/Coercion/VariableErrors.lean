import GraphQL.Proofs.Coercion.LiteralAsVariable
import GraphQL.Proofs.Coercion.Variables
import GraphQL.Proofs.Wrapping.Lists
import Mathlib.Data.List.Induction

/-!
# Variables are coerced one by one, and only so many errors are reported

The loop over the declarations carries the values that are left, the variables that are coerced and the
errors so far. With distinct names no declaration touches what another one reads, so the loop only puts
together what each of them comes to by itself.

* `Coercion.coerceEachVariable_of_accepted_outcomes`, `Coercion.coerceEachVariable_errors` — the loop
  from the outcomes of the declarations;
* `Coercion.isCut_zero_iff` — where the loop gives up;
* `Coercion.coerceVariables_congr` — values that are not declared are never read;
* `Coercion.variables_coerced_one_by_one` — the outcomes decide whether a request is accepted, which
  variables it has then, and which errors it gets otherwise.
-/

namespace GraphQL

namespace Coercion

variable {types : TypeSystem} {limit : Nat} {raw raw' coerced : Variables}
  {definitions rest : List VariableDefinition} {definition : VariableDefinition}
  {errors : List GraphQLError} {outcome : VariableDefinition → VariableOutcome}

@[simp] theorem VariableOutcome.errors_absent : VariableOutcome.absent.errors = [] := rfl

@[simp] theorem VariableOutcome.errors_value (value : Value) :
    (VariableOutcome.value value).errors = [] := rfl

@[simp] theorem VariableOutcome.errors_failed (error : GraphQLError) :
    (VariableOutcome.failed error).errors = [error] := rfl

/-- The outcome of each declaration, given the value that the request has for its name. -/
def HaveOutcomes (types : TypeSystem) (raw : Variables) (outcome : VariableDefinition → VariableOutcome)
    (definitions : List VariableDefinition) : Prop :=
  ∀ definition ∈ definitions,
    coerceDeclaredVariable types definition (raw.get? definition.name) = .ok (outcome definition)

/-- The errors of some declarations, in their order. -/
def errorsOf (outcome : VariableDefinition → VariableOutcome)
    (definitions : List VariableDefinition) : List GraphQLError :=
  definitions.flatMap fun definition => (outcome definition).errors

/-- The variables that some declarations leave, in their order. -/
def storeAll (outcome : VariableDefinition → VariableOutcome) (coerced : Variables)
    (definitions : List VariableDefinition) : Variables :=
  definitions.foldl (fun coerced definition => (outcome definition).store definition.name coerced)
    coerced

/-- The request with a single declaration that has an outcome. -/
def VariableOutcome.alone (name : String) : VariableOutcome → Except (List GraphQLError) Variables
  | .absent => .ok .empty
  | .value result => .ok (Variables.empty.insert name result)
  | .failed error => .error [error]

/-! ### What one declaration leaves to the next -/

/-- The values that are left still give the other declarations their outcomes. -/
theorem HaveOutcomes.remaining (hfirst : definition.name ∉ rest.map VariableDefinition.name)
    (h : HaveOutcomes types raw outcome (definition :: rest)) :
    HaveOutcomes types (remaining types definition raw) outcome rest := by
  intro other hmem
  have hne : other.name ≠ definition.name := fun heq => hfirst (heq ▸ List.mem_map_of_mem hmem)
  rw [get?_remaining_of_ne hne]
  exact h other (List.mem_cons_of_mem definition hmem)

/-- One step, where the outcome is known and there is room for another error. -/
theorem coerceEachVariable_cons_of_outcome (hroom : errors.length < limit)
    (h : HaveOutcomes types raw outcome (definition :: rest)) :
    coerceEachVariable types limit (definition :: rest) raw coerced errors =
      coerceEachVariable types limit rest (Coercion.remaining types definition raw)
        ((outcome definition).store definition.name coerced)
        (errors ++ (outcome definition).errors) := by
  rw [coerceEachVariable_cons, if_neg (Nat.not_le_of_lt hroom),
    h definition List.mem_cons_self]
  rfl

/-! ### Accepted declarations -/

/-- **Declarations without an error leave their values.** -/
theorem coerceEachVariable_of_accepted_outcomes (hlimit : 0 < limit)
    (hnames : (definitions.map VariableDefinition.name).Nodup)
    (houtcome : HaveOutcomes types raw outcome definitions)
    (haccepted : errorsOf outcome definitions = []) :
    coerceEachVariable types limit definitions raw coerced [] =
      .ok (storeAll outcome coerced definitions, []) := by
  induction definitions generalizing raw coerced with
  | nil => rfl
  | cons first rest ih =>
    obtain ⟨hfirst, hnames⟩ := List.nodup_cons.mp hnames
    rw [errorsOf, List.flatMap_cons, List.append_eq_nil_iff] at haccepted
    rw [coerceEachVariable_cons_of_outcome hlimit houtcome, haccepted.1]
    exact ih hnames (houtcome.remaining hfirst) haccepted.2

/-- The value that an outcome stores under a name. -/
theorem get?_store {name other : String} {result : VariableOutcome} :
    (result.store name coerced).get? other =
      if other = name then (match result with
        | .value value => some value
        | .absent | .failed _ => coerced.get? other)
      else coerced.get? other := by
  cases result with
  | value value =>
    split
    next heq => rw [heq]; exact coerced.get?_insert_self name value
    next hne => exact coerced.get?_insert_of_ne value hne
  | absent | failed _ => exact (ite_self _).symm

/-- Names that are not declared keep the value that they had. -/
theorem get?_storeAll_of_not_mem {name : String}
    (h : name ∉ definitions.map VariableDefinition.name) :
    (storeAll outcome coerced definitions).get? name = coerced.get? name := by
  induction definitions generalizing coerced with
  | nil => rfl
  | cons first rest ih =>
    obtain ⟨hne, hrest⟩ := not_or.mp fun hmem => h (List.mem_cons.mpr hmem)
    exact (ih hrest).trans (get?_store.trans (if_neg hne))

/-- **A variable has a value exactly if the outcome of its declaration is that value.** The
induction is on the declarations. Their names are distinct, so what one of them stores is neither
overwritten nor read by another one. -/
theorem get?_storeAll_iff (hnames : (definitions.map VariableDefinition.name).Nodup)
    (haccepted : errorsOf outcome definitions = []) {name : String} {value : Value} :
    (storeAll outcome .empty definitions).get? name = some value ↔
      ∃ definition ∈ definitions, definition.name = name ∧ outcome definition = .value value := by
  -- Earlier declarations may have stored variables of other names, so the induction is for any
  -- variables in which this one has no value yet.
  suffices h : ∀ coerced : Variables, coerced.get? name = none →
      ((storeAll outcome coerced definitions).get? name = some value ↔
        ∃ definition ∈ definitions, definition.name = name ∧ outcome definition = .value value) from
    h .empty rfl
  induction definitions with
  | nil => exact fun coerced hnone => by simp [storeAll, hnone]
  | cons first rest ih =>
    intro coerced hnone
    obtain ⟨hfirst, hnames⟩ := List.nodup_cons.mp hnames
    rw [errorsOf, List.flatMap_cons, List.append_eq_nil_iff] at haccepted
    by_cases hname : first.name = name
    · -- No other declaration has this name, so that what the first one stores remains.
      subst hname
      have hstored : (storeAll outcome coerced (first :: rest)).get? first.name =
          ((outcome first).store first.name coerced).get? first.name :=
        get?_storeAll_of_not_mem hfirst
      have hrest : ∀ definition ∈ rest, definition.name ≠ first.name := fun definition hmem heq =>
        hfirst (heq ▸ List.mem_map_of_mem hmem)
      rw [hstored, get?_store, if_pos rfl]
      -- The outcome of this declaration is the only one that is stored under its name.
      cases houtcome : outcome first with
      | value result =>
        simp only [List.mem_cons, exists_eq_or_imp, houtcome, true_and, Option.some.injEq,
          VariableOutcome.value.injEq]
        exact ⟨.inl, fun h => h.resolve_right fun ⟨other, hmem, heq, _⟩ => hrest other hmem heq⟩
      | absent | failed _ =>
        simp only [List.mem_cons, exists_eq_or_imp, houtcome, hnone, reduceCtorEq, and_false,
          false_or, false_iff]
        exact fun ⟨other, hmem, heq, _⟩ => hrest other hmem heq
    -- The declaration is one of another name, which leaves the variable without a value.
    · refine (ih hnames haccepted.2 _ ?_).trans ?_
      · rw [get?_store, if_neg fun heq => hname heq.symm, hnone]
      · simp only [List.mem_cons, exists_eq_or_imp, hname, false_and, false_or]

/-! ### Too many errors -/

/-- The loop gives up with that many errors so far: some of the declarations fill the limit, and they
are not all. -/
def IsCut (outcome : VariableDefinition → VariableOutcome) (limit count : Nat)
    (definitions : List VariableDefinition) : Prop :=
  ∃ before after, definitions = before ++ after ∧ after ≠ [] ∧
    count + (errorsOf outcome before).length = limit

theorem not_isCut_nil {count : Nat} : ¬ IsCut outcome limit count [] := by
  rintro ⟨before, after, hsplit, hafter, -⟩
  exact hafter (List.append_eq_nil_iff.mp hsplit.symm).2

/-- With the limit reached, the loop gives up at the next declaration. -/
theorem isCut_cons_of_eq : IsCut outcome limit limit (definition :: rest) :=
  ⟨[], definition :: rest, rfl, List.cons_ne_nil definition rest, rfl⟩

/-- Below the limit, whether the loop gives up is decided after the first declaration. -/
theorem isCut_cons_iff {count : Nat} (hroom : count < limit) :
    IsCut outcome limit count (definition :: rest) ↔
      IsCut outcome limit (count + (outcome definition).errors.length) rest := by
  constructor
  -- The declaration at which the limit is reached is not the first one, since there is still room.
  · rintro ⟨before, after, hsplit, hafter, hcount⟩
    cases before with
    | nil => exact absurd hcount (Nat.ne_of_lt hroom)
    | cons other before =>
      obtain ⟨rfl, rfl⟩ := List.cons.inj hsplit
      -- The errors of the first declaration count for those before it.
      refine ⟨before, after, rfl, hafter, ?_⟩
      rw [errorsOf, List.flatMap_cons, List.length_append] at hcount
      rw [errorsOf]
      omega
  · rintro ⟨before, after, rfl, hafter, hcount⟩
    refine ⟨definition :: before, after, rfl, hafter, ?_⟩
    rw [errorsOf, List.flatMap_cons, List.length_append]
    rw [errorsOf] at hcount
    omega

/-- An outcome has at most one error. -/
theorem length_errors_le (result : VariableOutcome) : result.errors.length ≤ 1 := by
  cases result <;> simp

/-- **The errors of the loop**: those of the declarations up to the limit, and one more if it gives up.
The induction is on the declarations, with the errors so far below the limit or at it. -/
theorem coerceEachVariable_errors (hnames : (definitions.map VariableDefinition.name).Nodup)
    (houtcome : HaveOutcomes types raw outcome definitions) (hroom : errors.length ≤ limit) :
    ∃ stored more, coerceEachVariable types limit definitions raw coerced errors =
        .ok (stored, (errors ++ errorsOf outcome definitions).take limit ++ more) ∧
      (more = [tooManyVariableErrors] ∧ IsCut outcome limit errors.length definitions ∨
        more = [] ∧ ¬ IsCut outcome limit errors.length definitions) := by
  induction definitions generalizing raw coerced errors with
  | nil =>
    refine ⟨coerced, [], ?_, .inr ⟨rfl, not_isCut_nil⟩⟩
    rw [errorsOf, List.flatMap_nil, List.append_nil, List.append_nil, List.take_of_length_le hroom]
    rfl
  | cons first rest ih =>
    obtain ⟨hfirst, hnames⟩ := List.nodup_cons.mp hnames
    -- There is room for the errors of the first declaration, or the limit has been reached.
    rcases Nat.lt_or_eq_of_le hroom with hlt | heq
    · have hroom' : (errors ++ (outcome first).errors).length ≤ limit := by
        have hone := length_errors_le (outcome first)
        rw [List.length_append]
        omega
      -- The errors so far and those of the first declaration are what the rest goes on from.
      obtain ⟨stored, more, hrun, hmore⟩ := @ih (Coercion.remaining types first raw)
        ((outcome first).store first.name coerced) (errors ++ (outcome first).errors) hnames
        (houtcome.remaining hfirst) hroom'
      refine ⟨stored, more, ?_, ?_⟩
      · rw [coerceEachVariable_cons_of_outcome hlt houtcome, hrun, errorsOf, errorsOf,
          List.flatMap_cons, List.append_assoc]
      · rw [isCut_cons_iff hlt, ← List.length_append]
        exact hmore
    -- The limit has been reached, so the loop gives up at this declaration.
    · refine ⟨coerced, [tooManyVariableErrors], ?_, .inl ⟨rfl, heq ▸ isCut_cons_of_eq⟩⟩
      rw [coerceEachVariable_cons, if_pos (Nat.le_of_eq heq.symm), ← heq, List.take_left]

/-- **Where the loop gives up**: at a declaration that is not the last one, whose error is the last
that may be reported. The declarations behind this error that have none of their own make no
difference, so they are taken off by a reverse induction. -/
theorem isCut_zero_iff (hlimit : 0 < limit) :
    IsCut outcome limit 0 definitions ↔
      ∃ before definition after, definitions = before ++ definition :: after ∧ after ≠ [] ∧
        (outcome definition).errors ≠ [] ∧ (errorsOf outcome before).length + 1 = limit := by
  constructor
  · rintro ⟨before, after, rfl, hafter, hcount⟩
    -- The declarations before the cut are taken back up to the last one that has an error.
    induction before using List.reverseRecOn generalizing after with
    | nil => exact absurd hcount (by simpa [errorsOf] using Nat.ne_of_lt hlimit)
    | append_singleton before last ih =>
      rw [errorsOf, List.flatMap_append, List.flatMap_singleton, List.length_append] at hcount
      by_cases herrors : (outcome last).errors = []
      · rw [List.append_assoc]
        refine ih ([last] ++ after) (by simp) ?_
        rwa [herrors, List.length_nil, Nat.add_zero] at hcount
      · refine ⟨before, last, after, by simp, hafter, herrors, ?_⟩
        have hone := length_errors_le (outcome last)
        have hpos := List.length_pos_of_ne_nil herrors
        rw [errorsOf]
        omega
  · rintro ⟨before, definition, after, rfl, hafter, herrors, hcount⟩
    refine ⟨before ++ [definition], after, by simp, hafter, ?_⟩
    have hone := length_errors_le (outcome definition)
    have hpos := List.length_pos_of_ne_nil herrors
    rw [errorsOf] at hcount
    rw [errorsOf, List.flatMap_append, List.flatMap_singleton, List.length_append]
    omega

/-! ### Values that are not declared -/

/-- The loop reads the values of the declared names, and no others. -/
theorem coerceEachVariable_congr
    (h : ∀ definition ∈ definitions, raw'.get? definition.name = raw.get? definition.name)
    (hnames : (definitions.map VariableDefinition.name).Nodup) :
    coerceEachVariable types limit definitions raw' coerced errors =
      coerceEachVariable types limit definitions raw coerced errors := by
  induction definitions generalizing raw raw' coerced errors with
  | nil => rfl
  | cons first rest ih =>
    obtain ⟨hfirst, hnames⟩ := List.nodup_cons.mp hnames
    -- Neither side takes out the values of the declarations behind the first one.
    have hrest : ∀ definition ∈ rest, (remaining types first raw').get? definition.name =
        (remaining types first raw).get? definition.name := by
      intro definition hmem
      have hne : definition.name ≠ first.name := fun heq => hfirst (heq ▸ List.mem_map_of_mem hmem)
      rw [get?_remaining_of_ne hne, get?_remaining_of_ne hne]
      exact h definition (List.mem_cons_of_mem first hmem)
    rw [coerceEachVariable_cons, coerceEachVariable_cons, h first List.mem_cons_self]
    split
    · rfl
    · exact bind_congr fun result => ih hrest hnames

/-- **Values that are not declared never change the result.** -/
theorem coerceVariables_congr
    (h : ∀ definition ∈ definitions, raw'.get? definition.name = raw.get? definition.name)
    (hnames : (definitions.map VariableDefinition.name).Nodup) :
    coerceVariables types limit definitions raw' = coerceVariables types limit definitions raw := by
  rw [coerceVariables, coerceVariables, coerceEachVariable_congr h hnames]

/-! ### A whole request -/

/-- Declarations with few enough lists, whose values can be coerced at all, have outcomes. -/
theorem exists_haveOutcomes
    (hlists : ∀ definition ∈ definitions, definition.type.listDepth ≤ Wrapping.maxLists)
    (hends : ∀ definition ∈ definitions,
      coerceDeclaredVariable types definition (raw.get? definition.name) ≠ .error .endless) :
    ∃ outcome, HaveOutcomes types raw outcome definitions := by
  -- Every declaration has an outcome of its own; those that are not among the given ones do not
  -- matter.
  have hexists : ∀ definition : VariableDefinition, ∃ result, definition ∈ definitions →
      coerceDeclaredVariable types definition (raw.get? definition.name) = .ok result := by
    intro definition
    cases hresult : coerceDeclaredVariable types definition (raw.get? definition.name) with
    | ok result => exact ⟨result, fun _ => rfl⟩
    | error why =>
      refine ⟨.absent, fun hmem => ?_⟩
      cases why with
      | endless => exact absurd hresult (hends definition hmem)
      -- A declaration panics only where it has too many lists.
      | panicked message =>
        obtain ⟨-, htype⟩ := coerceDeclaredVariable_eq_panicked_iff.mp hresult
        exact absurd (TypeRef.ofSyntax?_eq_none_iff.mp htype) (Nat.not_lt.mpr (hlists _ hmem))
  choose outcome houtcome using hexists
  exact ⟨outcome, houtcome⟩

/-- A request is accepted with what the loop leaves, if there are no errors. -/
theorem coerceVariables_of_accepted (hlimit : 0 < limit)
    (hnames : (definitions.map VariableDefinition.name).Nodup)
    (houtcome : HaveOutcomes types raw outcome definitions)
    (haccepted : errorsOf outcome definitions = []) :
    coerceVariables types limit definitions raw = .ok (.ok (storeAll outcome .empty definitions)) :=
  coerceVariables_eq_ok_iff.mpr
    (coerceEachVariable_of_accepted_outcomes hlimit hnames houtcome haccepted)

/-- A request is refused with the errors of the loop, if there are any. -/
theorem coerceVariables_of_errors (hlimit : 0 < limit)
    (hnames : (definitions.map VariableDefinition.name).Nodup)
    (houtcome : HaveOutcomes types raw outcome definitions)
    (hrefused : errorsOf outcome definitions ≠ []) :
    ∃ more, coerceVariables types limit definitions raw =
        .ok (.error ((errorsOf outcome definitions).take limit ++ more)) ∧
      (more = [tooManyVariableErrors] ∧ IsCut outcome limit 0 definitions ∨
        more = [] ∧ ¬ IsCut outcome limit 0 definitions) := by
  have hnone : ([] : List GraphQLError).length ≤ limit := Nat.zero_le limit
  obtain ⟨stored, more, hrun, hmore⟩ :=
    @coerceEachVariable_errors types limit raw .empty definitions [] outcome hnames houtcome hnone
  refine ⟨more, ?_, hmore⟩
  -- The loop starts without errors, and ends with some.
  rw [coerceVariables, hrun, List.nil_append]
  cases herrors : errorsOf outcome definitions with
  | nil => exact absurd herrors hrefused
  | cons error others =>
    cases limit with
    | zero => exact absurd hlimit (Nat.lt_irrefl 0)
    | succ limit => rfl

/-- Where a request is accepted, there are no errors. -/
theorem errorsOf_eq_nil_of_accepted {accepted : Variables} (hlimit : 0 < limit)
    (hnames : (definitions.map VariableDefinition.name).Nodup)
    (houtcome : HaveOutcomes types raw outcome definitions)
    (h : coerceVariables types limit definitions raw = .ok (.ok accepted)) :
    errorsOf outcome definitions = [] := by
  by_contra hrefused
  obtain ⟨more, hrun, -⟩ := coerceVariables_of_errors hlimit hnames houtcome hrefused
  exact nomatch Except.ok.inj (hrun.symm.trans h)

/-- A declaration alone comes to its outcome. -/
theorem coerceVariables_singleton (hlimit : 0 < limit)
    (h : HaveOutcomes types raw outcome [definition]) :
    coerceVariables types limit [definition] raw =
      .ok ((outcome definition).alone definition.name) := by
  rw [coerceVariables, coerceEachVariable_cons_of_outcome hlimit h]
  cases outcome definition <;> rfl

end Coercion

/-- **Variables are coerced one by one, and the errors are capped.** The declarations of a request have
distinct names, each of them has few enough lists, and the coercion of each ends. Then each has an
outcome, which depends on the value of its own name only, and

* the request is accepted exactly if no outcome is an error, and its variables are then exactly those
  with a value;
* otherwise it gets the errors of the outcomes in the order of the declarations, up to the limit. One
  more error says that there were too many, exactly if the last one that may be reported is of a
  declaration that is not the last;
* the values of other names make no difference. -/
theorem variables_coerced_one_by_one (schema : Schema) (definitions : List VariableDefinition)
    (raw : Variables) (hlimit : 1 ≤ schema.config.maxVariableErrors)
    (hnames : (definitions.map VariableDefinition.name).Nodup)
    (hlists : ∀ definition ∈ definitions, definition.type.listDepth ≤ 11)
    (hends : ∀ definition ∈ definitions, Coercion.coerceDeclaredVariable schema.types definition
      (raw.get? definition.name) ≠ .error .endless) :
    let limit := schema.config.maxVariableErrors
    let coerce := Coercion.coerceVariables schema.types limit
    ∃ outcome : VariableDefinition → Coercion.VariableOutcome,
      let errors := Coercion.errorsOf outcome
      (∀ definition ∈ definitions,
        Coercion.coerceDeclaredVariable schema.types definition (raw.get? definition.name) =
          .ok (outcome definition) ∧
        coerce [definition] raw = .ok ((outcome definition).alone definition.name)) ∧
      ((∃ coerced, coerce definitions raw = .ok (.ok coerced)) ↔
        ∀ definition ∈ definitions, (outcome definition).errors = []) ∧
      (∀ coerced, coerce definitions raw = .ok (.ok coerced) → ∀ name value,
        coerced.get? name = some value ↔
          ∃ definition ∈ definitions, definition.name = name ∧ outcome definition = .value value) ∧
      ((∃ definition ∈ definitions, (outcome definition).errors ≠ []) →
        ∃ more, coerce definitions raw = .ok (.error ((errors definitions).take limit ++ more)) ∧
          (more = [Coercion.tooManyVariableErrors] ∨ more = []) ∧
          (more = [Coercion.tooManyVariableErrors] ↔
            ∃ before definition after, definitions = before ++ definition :: after ∧ after ≠ [] ∧
              (outcome definition).errors ≠ [] ∧ (errors before).length + 1 = limit) ∧
          ((errors definitions).take limit ++ more).length ≤ limit + 1) ∧
      ∀ raw' : Variables,
        (∀ definition ∈ definitions, raw'.get? definition.name = raw.get? definition.name) →
        coerce definitions raw' = coerce definitions raw := by
  intro limit coerce
  obtain ⟨outcome, houtcome⟩ := Coercion.exists_haveOutcomes hlists hends
  have haccepted : (∀ definition ∈ definitions, (outcome definition).errors = []) ↔
      Coercion.errorsOf outcome definitions = [] := List.flatMap_eq_nil_iff.symm
  -- The conjuncts, in order: each declaration by itself, when the request is accepted, its
  -- variables, its errors, and that no other names matter.
  refine ⟨outcome, fun definition hmem => ⟨houtcome definition hmem, ?_⟩, ?_, ?_, ?_, ?_⟩
  · refine Coercion.coerceVariables_singleton hlimit fun other hother => ?_
    exact houtcome other (List.mem_singleton.mp hother ▸ hmem)
  -- The request is accepted exactly if there is no error.
  · refine ⟨fun ⟨coerced, hcoerced⟩ => ?_, fun h => ?_⟩
    · exact haccepted.mpr (Coercion.errorsOf_eq_nil_of_accepted hlimit hnames houtcome hcoerced)
    · exact ⟨_, Coercion.coerceVariables_of_accepted hlimit hnames houtcome (haccepted.mp h)⟩
  · intro coerced hcoerced name value
    -- An accepted request has no errors, so its variables are what all declarations store.
    have hnone := Coercion.errorsOf_eq_nil_of_accepted hlimit hnames houtcome hcoerced
    have hstored := Coercion.coerceVariables_of_accepted hlimit hnames houtcome hnone
    obtain rfl := Except.ok.inj (Except.ok.inj (hstored.symm.trans hcoerced))
    exact Coercion.get?_storeAll_iff hnames hnone
  · rintro ⟨definition, hmem, herrors⟩
    have hrefused : Coercion.errorsOf outcome definitions ≠ [] := fun hnone =>
      herrors (haccepted.mpr hnone definition hmem)
    -- The errors are those of the loop.
    obtain ⟨more, hrun, hmore⟩ := Coercion.coerceVariables_of_errors hlimit hnames houtcome hrefused
    -- At most one more error is added to those within the limit.
    have hlength : more.length ≤ 1 := by
      rcases hmore with ⟨rfl, -⟩ | ⟨rfl, -⟩ <;> simp
    refine ⟨more, hrun, hmore.imp And.left And.left, ?_, ?_⟩
    · refine Iff.trans ?_ (Coercion.isCut_zero_iff hlimit)
      rcases hmore with ⟨rfl, hcut⟩ | ⟨rfl, hcut⟩
      · exact iff_of_true rfl hcut
      · exact iff_of_false (by simp) hcut
    · have hfew := List.length_take_le limit (Coercion.errorsOf outcome definitions)
      rw [List.length_append]
      omega
  · exact fun raw' h => Coercion.coerceVariables_congr h hnames

namespace FilterSample

/-- A required number. -/
def required : VariableDefinition := ⟨"a", .named "Int" true, [], none, ⟨1, 7⟩⟩

/-- A number with a default. -/
def defaulted : VariableDefinition := ⟨"b", .named "Int" false, [], some (.int 3), ⟨1, 16⟩⟩

/-- A required list of numbers. -/
def requiredList : VariableDefinition :=
  ⟨"c", .list (.named "Int" true) true, [], none, ⟨1, 29⟩⟩

/-- A number that may be left out. -/
def optional : VariableDefinition := ⟨"d", .named "Int" false, [], none, ⟨1, 42⟩⟩

/-- The declarations of a request for which only two errors are reported. -/
def counts : List VariableDefinition := [required, defaulted, requiredList, optional]

/-- The request does not declare the only value that it has. -/
def undeclared : Variables := Variables.empty.insert "e" (.int 1)

/-- A required variable that is not given. -/
def notProvided (definition : VariableDefinition) (type : String) : GraphQLError :=
  (Coercion.variableError
    s!"Variable ${definition.name} of required type {type} was not provided.").withLocation
      definition.location

theorem forall_mem_counts {p : VariableDefinition → Prop} :
    (∀ definition ∈ counts, p definition) ↔
      p required ∧ p defaulted ∧ p requiredList ∧ p optional := by
  simp [counts]

end FilterSample

open FilterSample in
/-- Two required variables are missing where only two errors are reported. The last declaration is not
looked at any more, so there is a third error. -/
theorem variables_coerced_one_by_one_sample :
    Coercion.coerceVariables (schema 2).types 2 counts undeclared =
      .ok (.error [notProvided required "Int!", notProvided requiredList "[Int!]!",
        Coercion.tooManyVariableErrors]) := by
  obtain ⟨outcome, houtcome, -, -, hrefused, -⟩ :=
    variables_coerced_one_by_one (schema 2) counts undeclared (by decide) (by decide)
      (forall_mem_counts.mpr (by decide)) (forall_mem_counts.mpr ⟨nofun, nofun, nofun, nofun⟩)
  obtain ⟨⟨hrequired, -⟩, ⟨hdefaulted, -⟩, ⟨hlist, -⟩, ⟨hoptional, -⟩⟩ := forall_mem_counts.mp houtcome
  replace hrequired : outcome required = .failed (notProvided required "Int!") :=
    (Except.ok.inj hrequired).symm
  replace hdefaulted : outcome defaulted = .value (.int 3) := (Except.ok.inj hdefaulted).symm
  replace hlist : outcome requiredList = .failed (notProvided requiredList "[Int!]!") :=
    (Except.ok.inj hlist).symm
  replace hoptional : outcome optional = .absent := (Except.ok.inj hoptional).symm
  have herrors : Coercion.errorsOf outcome counts =
      [notProvided required "Int!", notProvided requiredList "[Int!]!"] := by
    simp [Coercion.errorsOf, counts, hrequired, hdefaulted, hlist, hoptional]
  obtain ⟨more, hrun, -, hmore, -⟩ := hrefused
    ⟨required, List.mem_cons_self, by simp [hrequired]⟩
  -- The second error is that of the list, and there is one more declaration.
  obtain rfl := hmore.mpr ⟨[required, defaulted], requiredList, [optional], rfl, by simp,
    by simp [hlist], by simp [Coercion.errorsOf, hrequired, hdefaulted]; rfl⟩
  rw [herrors] at hrun
  exact hrun

end GraphQL
