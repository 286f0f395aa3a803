import GraphQL.Proofs.Document.Names

/-!
# Reading types

The text of a type is read from both of its ends, and trimmed at every step. It is read exactly if it
spells a type, and what is read is the reference of that type. So reading and writing are inverse to each
other, on references, on texts up to white space and on the types of documents.

The reader looks for a final exclamation mark and for brackets at both ends, where the grammar goes
from left to right. They agree because brackets are balanced by the recursion itself: what stands
between the outer ones is shorter, and is read in the same way. Both directions are inductions on
this.

* `TypeRef.splitRequired_around`, `TypeRef.exists_splitRequired` — what one step takes off a text;
* `TypeRef.ofChars_of_spells` — a text that spells a type is read as that type;
* `TypeRef.exists_spells_of_ofChars` — and all other texts are refused;
* `TypeRef.parse_inverts_display` — reading and writing are inverse.
-/

namespace GraphQL

open Text (AllBlank IsSolid isBlank trim)

namespace TypeRef

variable {cs core before after inside : List Char} {required : Bool}

/-! ### One step -/

/-- **A step takes off what stands around a type**: white space, and the exclamation mark behind it. -/
theorem splitRequired_around (hsolid : IsSolid core) (hmark : core.getLast? ≠ some '!')
    (hbefore : AllBlank before) (hafter : TypeSyntax.SpellsMark required after) :
    splitRequired (trim (before ++ core ++ after)) = (core, required) := by
  cases hafter with
  | nullable hblank => rw [Text.trim_around hsolid hbefore hblank, splitRequired, if_neg hmark]
  | @required between after hbetween hblank =>
    -- What the mark belongs to begins like the core and ends with the mark, so that trimming leaves
    -- it alone.
    have hmarked : IsSolid (core ++ between ++ ['!']) := by
      refine ⟨by simp, fun c hc => hsolid.head c ?_, fun c hc => ?_⟩
      · rwa [List.append_assoc, List.head?_append_of_ne_nil _ hsolid.nonempty] at hc
      · rw [List.getLast?_concat, Option.mem_some_iff] at hc
        subst hc
        decide
    -- The white space in front of the mark is trimmed once the mark is off.
    have htext : before ++ core ++ (between ++ '!' :: after) =
        before ++ (core ++ between ++ ['!']) ++ after := by simp
    rw [htext, Text.trim_around hmarked hbefore hblank, splitRequired, List.getLast?_concat, if_pos rfl,
      List.dropLast_concat, Text.trimEnd_append hsolid.last hbetween]

/-- A step takes nothing else off. -/
theorem exists_splitRequired (cs : List Char) :
    ∃ before after, cs = before ++ (splitRequired (trim cs)).1 ++ after ∧ AllBlank before ∧
      TypeSyntax.SpellsMark (splitRequired (trim cs)).2 after := by
  obtain ⟨before, after, hcs, hbefore, hafter⟩ := Text.exists_trim cs
  rw [splitRequired]
  split
  -- There is a mark: what is in front of it is trimmed again.
  next hmark =>
    obtain ⟨between, hbetween, hblank⟩ := Text.exists_trimEnd (trim cs).dropLast
    refine ⟨before, between ++ '!' :: after, ?_, hbefore, .required hblank hafter⟩
    have htrim : trim cs = Text.trimEnd (trim cs).dropLast ++ between ++ ['!'] := by
      rw [← hbetween]
      exact (List.dropLast_append_getLast? '!' hmark).symm
    calc cs = before ++ trim cs ++ after := hcs
      _ = before ++ (Text.trimEnd (trim cs).dropLast ++ between ++ ['!']) ++ after := by rw [← htrim]
      _ = _ := by simp
  next => exact ⟨before, after, hcs, hbefore, .nullable hafter⟩

/-! ### All steps -/

/-- A list is read by reading what its brackets hold. -/
theorem ofChars_list (h : splitRequired (trim cs) = ('[' :: inside ++ [']'], required)) :
    ofChars cs = (ofChars inside).bind fun item =>
      match item.wrapList? required with
      | some ty => .ok ty
      | none => .error .tooManyLists := by
  rw [ofChars]
  split
  -- The core opens with a bracket, and closes with one.
  next rest _ hsplit =>
    rw [h, List.cons_append] at hsplit
    obtain ⟨rfl, rfl⟩ : inside ++ [']'] = rest ∧ required = _ := by simpa using hsplit
    rw [if_pos List.getLast?_concat, List.dropLast_concat]
    rfl
  -- A core with a bracket in front is read as no name.
  next name _ hopen hsplit =>
    rw [h] at hsplit
    exact absurd (congrArg Prod.fst hsplit).symm (hopen (inside ++ [']']))

/-- A name is read as it is. -/
theorem ofChars_name (hname : isName core = true) (h : splitRequired (trim cs) = (core, required)) :
    ofChars cs = .ok ⟨String.ofList core, .ofRequired required⟩ := by
  rw [ofChars]
  split
  -- No name opens with a bracket.
  next rest _ hsplit =>
    rw [h] at hsplit
    obtain rfl : core = '[' :: rest := congrArg Prod.fst hsplit
    exact absurd rfl (isNameChar_of_mem hname '[' List.mem_cons_self).ne_open
  next name _ _ hsplit =>
    rw [h] at hsplit
    obtain ⟨rfl, rfl⟩ : core = name ∧ required = _ := by simpa using hsplit
    rw [if_pos hname]

/-- What a written type is read as, unless it has too many lists. -/
def ofSyntax (type : TypeSyntax) : Except TypeTextError TypeRef :=
  match ofSyntax? type with
  | some ty => .ok ty
  | none => .error .tooManyLists

/-- **A text that spells a type is read as that type.** -/
theorem ofChars_of_spells {type : TypeSyntax} (h : type.Spells cs) : ofChars cs = ofSyntax type := by
  induction h with
  | @named name required before after hname hbefore hafter =>
    have hmark : name.toList.getLast? ≠ some '!' := fun hlast =>
      (isNameChar_of_mem hname '!' (List.mem_of_getLast? hlast)).ne_mark rfl
    rw [ofChars_name hname (splitRequired_around (isSolid_of_isName hname) hmark hbefore hafter),
      String.ofList_toList]
    rfl
  | @list item required inside before after _ hbefore hafter ih =>
    -- The brackets are neither white space nor the mark, so one step takes off all that is around them.
    have hsolid : IsSolid ('[' :: inside ++ [']']) := by
      refine ⟨by simp, fun c hc => ?_, fun c hc => ?_⟩
      · obtain rfl : '[' = c := by simpa using hc
        decide
      · rw [List.getLast?_concat, Option.mem_some_iff] at hc
        subst hc
        decide
    have hmark : ('[' :: inside ++ [']']).getLast? ≠ some '!' := by
      rw [List.getLast?_concat]
      decide
    rw [ofChars_list (splitRequired_around hsolid hmark hbefore hafter), ih, ofSyntax, ofSyntax, ofSyntax?]
    cases ofSyntax? item with
    | none => rfl
    | some inner => rfl

/-- **A text that spells no type is refused.** The induction is on the length of the text, since
what stands inside of brackets is shorter, whatever white space there is. Reading takes the same
steps as the grammar, so each way to get stuck is a text that has no rule. -/
theorem exists_spells_of_ofChars (cs : List Char) (h : ofChars cs ≠ .error .malformed) :
    ∃ type : TypeSyntax, type.Spells cs := by
  induction hlength : cs.length using Nat.strongRecOn generalizing cs with
  | ind length ih =>
    obtain ⟨before, after, hcs, hbefore, hafter⟩ := exists_splitRequired cs
    rw [ofChars] at h
    split at h
    -- The core is in brackets: they hold a type, unless the text is malformed.
    next rest required hsplit =>
      rw [hsplit] at hcs hafter
      split at h
      next hclose =>
        have hrest : rest = rest.dropLast ++ [']'] := (List.dropLast_append_getLast? ']' hclose).symm
        have hinside : ofChars rest.dropLast ≠ .error .malformed := by
          intro hmalformed
          rw [hmalformed] at h
          exact h rfl
        -- What the brackets hold is shorter than the text, whatever white space there is.
        have hshorter : rest.dropLast.length < length := by
          rw [← hlength, hcs]
          simp only [List.length_append, List.length_cons, List.length_dropLast]
          omega
        obtain ⟨item, hitem⟩ := ih _ hshorter _ hinside rfl
        refine ⟨.list item required, ?_⟩
        rw [hcs, hrest]
        exact .list hitem hbefore hafter
      next => exact absurd rfl h
    -- The core is no list: it is a name, unless the text is malformed.
    next name required _ hsplit =>
      rw [hsplit] at hcs hafter
      split at h
      next hname =>
        refine ⟨.named (String.ofList name) required, ?_⟩
        have hread : isName (String.ofList name).toList = true := by rwa [String.toList_ofList]
        have hspells := TypeSyntax.Spells.named hread hbefore hafter
        rw [String.toList_ofList] at hspells
        rwa [hcs]
      next => exact absurd rfl h

/-! ### Both ways -/

theorem parse_of_spells {type : TypeSyntax} {text : String} (h : type.Spells text.toList) :
    parse text = ofSyntax type := ofChars_of_spells h

/-- The text of a written type without any white space is read as the type. -/
theorem parse_display_of_isWellNamed {type : TypeSyntax} (h : type.IsWellNamed) :
    parse type.display = ofSyntax type := by
  refine parse_of_spells ?_
  rw [TypeSyntax.display, String.toList_ofList]
  exact TypeSyntax.spells_chars h

theorem ofSyntax_eq_ok_iff {type : TypeSyntax} {ty : TypeRef} :
    ofSyntax type = .ok ty ↔ ofSyntax? type = some ty := by
  rw [ofSyntax]
  cases ofSyntax? type <;> simp

/-- Written types with room for their lists have a reference. -/
theorem exists_ofSyntax?_of_le {type : TypeSyntax} (h : type.listDepth ≤ Wrapping.maxLists) :
    ∃ ty, ofSyntax? type = some ty := by
  refine Option.ne_none_iff_exists'.mp fun hnone => ?_
  exact absurd (ofSyntax?_eq_none_iff.mp hnone) (Nat.not_lt.mpr h)

/-- What is read is the reference of a type that the text spells. -/
theorem exists_spells_of_parse {text : String} {ty : TypeRef} (h : parse text = .ok ty) :
    ∃ type : TypeSyntax, type.Spells text.toList ∧ ofSyntax? type = some ty := by
  obtain ⟨type, hspells⟩ := exists_spells_of_ofChars text.toList (by
    rw [show ofChars text.toList = .ok ty from h]
    exact nofun)
  rw [parse_of_spells hspells] at h
  exact ⟨type, hspells, ofSyntax_eq_ok_iff.mp h⟩

theorem exists_represents_of_run {steps : List Wrapping.WrappingStep} {wrapping : Wrapping}
    (h : (Wrapping.ofRequired required).run steps = some wrapping) :
    ∃ pair, wrapping.Represents pair := by
  have hrun := (Wrapping.Represents.bare required).run steps
  rw [h] at hrun
  revert hrun
  generalize (Wrapping.Layers.bare required).run steps = pair
  rintro ⟨hpair⟩
  exact ⟨_, hpair⟩

/-- **Reading and writing types are inverse.**

* The text of a reference to a name, with a wrapping that the operations on wrappings lead to, is read as
  that reference.
* A text is read as a reference exactly if it spells a type of at most `Wrapping.maxLists` lists: its
  tokens with white space around them. It is malformed exactly if it spells no type at all. The text of
  what is read is the text without its white space.
* The types of documents have names, and a type of at most that many lists has the reference that its own
  text is read as. -/
theorem parse_inverts_display :
    (∀ (name : String) (required : Bool) (steps : List Wrapping.WrappingStep) (wrapping : Wrapping),
      isName name.toList = true → (Wrapping.ofRequired required).run steps = some wrapping →
        parse (display ⟨name, wrapping⟩) = .ok ⟨name, wrapping⟩) ∧
      (∀ text : String,
        ((∃ ty, parse text = .ok ty) ↔
          ∃ type : TypeSyntax, type.Spells text.toList ∧ type.listDepth ≤ Wrapping.maxLists) ∧
        (parse text = .error .malformed ↔ ¬∃ type : TypeSyntax, type.Spells text.toList) ∧
        ∀ ty, parse text = .ok ty → ty.display.toList = text.toList.filter fun c => !isBlank c) ∧
      (∀ fuel cursor type rest, (Grammar.type fuel).run cursor = some (type, rest) →
        type.IsWellNamed) ∧
      ∀ type : TypeSyntax, type.IsWellNamed → type.listDepth ≤ Wrapping.maxLists →
        ∃ ty, ofSyntax? type = some ty ∧ parse type.display = .ok ty := by
  refine ⟨?_, fun text => ⟨?_, ?_, ?_⟩, Grammar.yields_type, ?_⟩
  -- What the operations build stands for a type, and the text of the reference is that of the type.
  · intro name required steps wrapping hname hrun
    obtain ⟨pair, hpair⟩ := exists_represents_of_run hrun
    have hbuilt : (TypeRef.mk name wrapping).wrapping.Represents pair := hpair
    obtain ⟨type, htype, hresult⟩ := exists_ofSyntax? hbuilt
    have hwellNamed : type.IsWellNamed := by rwa [TypeSyntax.IsWellNamed, htype]
    rw [display_of_ofSyntax? hresult, parse_display_of_isWellNamed hwellNamed,
      ofSyntax_eq_ok_iff.mpr hresult]
  -- A reference is read from what spells a type that is not too deep.
  · constructor
    · rintro ⟨ty, hty⟩
      obtain ⟨type, hspells, hresult⟩ := exists_spells_of_parse hty
      refine ⟨type, hspells, Nat.not_lt.mp fun hdeep => ?_⟩
      rw [ofSyntax?_eq_none_iff.mpr hdeep] at hresult
      cases hresult
    · rintro ⟨type, hspells, hdepth⟩
      obtain ⟨ty, hty⟩ := exists_ofSyntax?_of_le hdepth
      exact ⟨ty, by rw [parse_of_spells hspells, ofSyntax_eq_ok_iff.mpr hty]⟩
  -- A text that spells a type may be too deep, but it is not malformed.
  · constructor
    · rintro hmalformed ⟨type, hspells⟩
      rw [parse_of_spells hspells, ofSyntax] at hmalformed
      cases hresult : ofSyntax? type <;> rw [hresult] at hmalformed <;> cases hmalformed
    · intro hnone
      by_contra hread
      exact hnone (exists_spells_of_ofChars text.toList hread)
  -- The text of a type is its spelling without white space.
  · intro ty hty
    obtain ⟨type, hspells, hresult⟩ := exists_spells_of_parse hty
    rw [display_of_ofSyntax? hresult, TypeSyntax.display, String.toList_ofList, hspells.filter_eq]
  -- The text of a type spells it.
  · intro type hwellNamed hdepth
    obtain ⟨ty, hty⟩ := exists_ofSyntax?_of_le hdepth
    exact ⟨ty, hty, by rw [parse_display_of_isWellNamed hwellNamed, ofSyntax_eq_ok_iff.mpr hty]⟩

/-- A required list of required integers, with white space in it and without, and a list that is not
closed. -/
theorem parse_inverts_display_sample :
    (∃ ty, parse " [ Int !\t] !" = .ok ty ∧ ty.display = "[Int!]!") ∧
      (∃ wrapping, (Wrapping.ofRequired true).run [.wrapListNonNull] = some wrapping ∧
        parse (display ⟨"Int", wrapping⟩) = .ok ⟨"Int", wrapping⟩) ∧
      ∃ ty, ofSyntax? (.list (.named "Int" true) true) = some ty ∧ parse "[Int!]!" = .ok ty := by
  obtain ⟨hdisplay, htext, -, htype⟩ := parse_inverts_display
  have hint : isName "Int".toList = true := by decide
  have hspace : AllBlank [' '] := by decide
  have htab : AllBlank ['\t'] := by decide
  have hitem : TypeSyntax.Spells (.named "Int" true) " Int !\t".toList :=
    .named hint hspace (.required hspace htab)
  have hspells : TypeSyntax.Spells (.list (.named "Int" true) true) " [ Int !\t] !".toList :=
    .list hitem hspace (.required hspace Text.allBlank_nil)
  obtain ⟨hread, -, hwritten⟩ := htext " [ Int !\t] !"
  obtain ⟨ty, hty⟩ := hread.mpr ⟨_, hspells, by decide⟩
  refine ⟨⟨ty, hty, ?_⟩, ⟨_, rfl, hdisplay "Int" true [.wrapListNonNull] _ hint rfl⟩, ?_⟩
  · exact String.toList_inj.mp ((hwritten ty hty).trans (by decide))
  · exact htype (.list (.named "Int" true) true) hint (by decide)

end TypeRef

end GraphQL
