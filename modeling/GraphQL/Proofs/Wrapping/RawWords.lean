import GraphQL.Proofs.Wrapping.Pairs

/-!
# Words that no operation has built

A wrapping is read from any word of sixteen bits, also from those that no operation leads to: words that
count more lists than there is room for, and words with a flag of a list that is not there. Such words
are told apart from the words that the operations build here, and it is said what they break.

The number of lists decides alone whether flags stay inside of the word, now and after any operation.
What else can be expected of a word, that it is wrapped only if that shows in its text and that its text
tells it from the other words, holds after every operation exactly for the words in normal form; and
those are the words that the operations build.

* `Wrapping.IsCanonical`, `Wrapping.isBuilt_iff_isCanonical` — words in normal form, and that they are
  the built ones;
* `Wrapping.Layers.display_injective`, `Wrapping.display_ne_iff` — what the text of a type tells;
* `Wrapping.listCount_run_le` — the number of lists along operations, whatever flags are set;
* `Wrapping.safe_iff` — which words can be used like the built ones.
-/

namespace GraphQL

namespace Wrapping

variable {w w' : Wrapping}

/-! ### Words in normal form -/

/-- The word counts no more lists than there may be, and has no flag of a list that is not there. -/
structure IsCanonical (w : Wrapping) : Prop where
  room : w.listCount ≤ maxLists
  clear : ∀ index < maxLists, w.listCount ≤ index → w.hasBit (listFlag index) = false

/-- The word comes from a bare type by operations. -/
def IsBuilt (w : Wrapping) : Prop := ∃ required steps, (ofRequired required).run steps = some w

/-- A word in normal form stands for its layers. -/
theorem IsCanonical.represents (h : w.IsCanonical) : w.Represents w.layers where
  room := w.length_listWrappings.symm ▸ h.room
  inner := (hasBit_of_isFlag one_isFlag).symm
  count := w.length_listWrappings.symm
  flag index hindex := by
    change w.bit (5 + index) = (w.listWrappings[index]? == some .required)
    rw [← hasBit_of_isFlag (listFlag_isFlag hindex), listWrappings, List.getElem?_map]
    -- The flag of a list is its wrapper, and flags beyond the lists are clear.
    rcases Nat.lt_or_ge index w.listCount with hlist | hstale
    · rw [List.getElem?_range hlist, Option.map_some, listAt]
      cases w.hasBit (listFlag index) <;> rfl
    · rw [h.clear index hindex hstale, List.getElem?_eq_none_iff.mpr (by simpa using hstale)]
      rfl

theorem Represents.isCanonical {pair : Layers} (h : w.Represents pair) : w.IsCanonical where
  room := h.count ▸ h.room
  clear index hindex hstale := h.mirrors.noStaleFlag index (h.count ▸ hstale) hindex

/-- Every pair with room for its lists is built by putting them around the bare type one by one. The
induction is on the lists, from the outermost one on. -/
theorem Layers.run_push (required : Bool) {lists : List ListWrapping} (h : lists.length ≤ maxLists) :
    (Layers.bare required).run (lists.map .push) = some ⟨required, lists⟩ := by
  induction lists using List.reverseRecOn with
  | nil => rfl
  | append_singleton lists wrapper ih =>
    rw [List.length_append, List.length_singleton] at h
    -- The inner lists fit if all of them do, and the outer one is put around them last.
    have hinner := ih (Nat.le_of_succ_le h)
    rw [Layers.run] at hinner ⊢
    rw [List.map_append, List.foldlM_append, hinner]
    change (Layers.pushList? ⟨required, lists⟩ wrapper).bind some = _
    rw [Layers.pushList?, if_pos (Nat.lt_of_succ_le h)]
    rfl

/-- Every pair with room for its lists has a word that is built. -/
theorem Layers.exists_isBuilt {pair : Layers} (h : pair.lists.length ≤ maxLists) :
    ∃ w : Wrapping, w.IsBuilt ∧ w.Represents pair := by
  have hrun := (Represents.bare pair.innerRequired).run (pair.lists.map .push)
  rw [Layers.run_push pair.innerRequired h] at hrun
  generalize hword : (ofRequired pair.innerRequired).run (pair.lists.map .push) = word at hrun
  cases hrun with
  | some hrepresents => exact ⟨_, ⟨_, _, hword⟩, hrepresents⟩

theorem IsBuilt.represents (h : w.IsBuilt) : w.Represents w.layers := by
  obtain ⟨required, steps, hsteps⟩ := h
  have hrun := (Represents.bare required).run steps
  rw [hsteps] at hrun
  generalize (Layers.bare required).run steps = pair at hrun
  cases hrun with
  | some hrepresents =>
    rw [hrepresents.layers_eq]
    exact hrepresents

/-- **The built words are those in normal form.** -/
theorem isBuilt_iff_isCanonical : w.IsBuilt ↔ w.IsCanonical := by
  refine ⟨fun h => h.represents.isCanonical, fun h => ?_⟩
  obtain ⟨built, hbuilt, hrepresents⟩ := Layers.exists_isBuilt h.represents.room
  obtain rfl := hrepresents.word_unique h.represents
  exact hbuilt

/-- Operations on built words build words. -/
theorem IsBuilt.run (h : w.IsBuilt) {steps : List WrappingStep} (hrun : w.run steps = some w') :
    w'.IsBuilt := by
  obtain ⟨required, before, hbefore⟩ := h
  refine ⟨required, before ++ steps, ?_⟩
  rw [Wrapping.run] at hbefore hrun ⊢
  rw [List.foldlM_append, hbefore]
  exact hrun

/-! ### What the text of a type tells -/

namespace Layers

/-- The text of the outermost list stands around the text of its items. -/
theorem toList_display_concat (required : Bool) (lists : List ListWrapping) (wrapper : ListWrapping)
    (name : String) : (display ⟨required, lists ++ [wrapper]⟩ name).toList =
      '[' :: ((display ⟨required, lists⟩ name).toList ++ (closing wrapper).toList) := by
  rw [display, List.foldl_append]
  simp [display, String.toList_append]

theorem toList_display_nil (required : Bool) (name : String) :
    (display ⟨required, []⟩ name).toList = name.toList ++ if required then ['!'] else [] := by
  cases required <;> simp [display, String.toList_append]

/-- Every list adds two characters at least. The induction is on the lists, from the outermost one on. -/
theorem length_le_display (required : Bool) (lists : List ListWrapping) (name : String) :
    name.toList.length + 2 * lists.length ≤ (display ⟨required, lists⟩ name).toList.length := by
  induction lists using List.reverseRecOn with
  | nil =>
    rw [toList_display_nil, List.length_append]
    exact Nat.le_add_right _ _
  | append_singleton lists wrapper ih =>
    have hclosing : 0 < (closing wrapper).toList.length := by cases wrapper <;> decide
    rw [toList_display_concat, List.length_cons, List.length_append, List.length_append,
      List.length_singleton]
    omega

/-- A bare type is not spelled like a list. -/
theorem display_concat_ne (required required' : Bool) (lists : List ListWrapping)
    (wrapper : ListWrapping) (name : String) :
    (display ⟨required, lists ++ [wrapper]⟩ name).toList ≠ (display ⟨required', []⟩ name).toList := by
  intro h
  have hle := length_le_display required (lists ++ [wrapper]) name
  have hmark : (if required' then ['!'] else []).length ≤ 1 := by cases required' <;> decide
  rw [h, toList_display_nil, List.length_append, List.length_append, List.length_singleton] at hle
  omega

/-- The brackets of two lists tell them apart. -/
theorem closing_injective {wrapper wrapper' : ListWrapping} {text text' : List Char}
    (h : text ++ (closing wrapper).toList = text' ++ (closing wrapper').toList) :
    text = text' ∧ wrapper = wrapper' := by
  have hlast := congrArg List.getLast? h
  cases wrapper <;> cases wrapper'
  · exact ⟨List.append_cancel_right h, rfl⟩
  · simp [closing] at hlast
  · simp [closing] at hlast
  · exact ⟨List.append_cancel_right h, rfl⟩

/-- **Types of one name with the same text are the same.** The induction is on the lists, from the
outermost one on. -/
theorem display_injective (name : String) : Function.Injective (display · name) := by
  rintro ⟨required, lists⟩ ⟨required', lists'⟩ h
  replace h : (display ⟨required, lists⟩ name).toList = (display ⟨required', lists'⟩ name).toList :=
    congrArg String.toList h
  induction lists using List.reverseRecOn generalizing lists' with
  | nil =>
    obtain rfl | ⟨lists', wrapper', rfl⟩ := List.eq_nil_or_concat lists'
    -- Two bare types differ in the mark behind the name, and no bare type is written like a list.
    · rw [toList_display_nil, toList_display_nil, List.append_cancel_left_eq] at h
      have hmark : required = required' := by
        cases required <;> cases required' <;> simp at h ⊢
      rw [hmark]
    · rw [List.concat_eq_append] at h
      exact absurd h.symm (display_concat_ne required' required lists' wrapper' name)
  | append_singleton lists wrapper ih =>
    obtain rfl | ⟨lists', wrapper', rfl⟩ := List.eq_nil_or_concat lists'
    · exact absurd h (display_concat_ne required required' lists wrapper name)
    -- Two lists have the same mark behind the same text inside of them.
    · rw [List.concat_eq_append] at h ⊢
      rw [toList_display_concat, toList_display_concat, List.cons.injEq] at h
      obtain ⟨hitems, rfl⟩ := closing_injective h.2
      obtain ⟨rfl, rfl⟩ := Layers.mk.inj (ih lists' hitems)
      rfl

/-- The text differs from the name exactly if there is a wrapper. -/
theorem display_ne_iff (pair : Layers) (name : String) :
    pair.display name ≠ name ↔ pair.isWrapped := by
  have hbare : (bare false).display name = name := by simp [bare, display]
  have hname : pair.display name = name ↔ pair = bare false :=
    ⟨fun h => display_injective name (h.trans hbare.symm), fun h => h ▸ hbare⟩
  rw [Ne, hname]
  obtain ⟨required, lists⟩ := pair
  cases required <;> cases lists <;> simp [isWrapped, isList, bare]

end Layers

/-! ### The number of lists along operations -/

/-- **One operation** leaves at most `maxLists` lists, whatever flags are set. Only a push adds a
list, and it asks for room first; stray flags of a raw word are of no account here, since the count
has bits of its own. -/
theorem listCount_step?_le (h : w.listCount ≤ maxLists) {step : WrappingStep}
    (hstep : w.step? step = some w') : w'.listCount ≤ maxLists := by
  have hpush : ∀ wrapper, w.pushList? wrapper = some w' → w'.listCount ≤ maxLists := by
    intro wrapper hpush
    -- There is room, since otherwise nothing could be pushed.
    have hroom : w.listCount < maxLists := by
      refine Nat.lt_of_not_le fun hfull => ?_
      rw [pushList?_eq_none_iff.mpr hfull] at hpush
      cases hpush
    rw [listCount_pushList? hpush]
    exact hroom
  have hpop : w.withoutList? = some w' → w'.listCount ≤ maxLists := by
    intro hpop
    rw [listCount_withoutList? hpop] at h
    exact Nat.le_of_succ_le h
  -- A push adds a list where there is room, a pop removes one, and flags are no lists.
  cases step with
  | wrapList => exact hpush .nullable hstep
  | wrapListNonNull => exact hpush .required hstep
  | push wrapper => exact hpush wrapper hstep
  | withoutList => exact hpop hstep
  | wrapNonNull =>
    obtain rfl := Option.some.inj hstep
    exact listCount_set (outerFlag_and_countMask h) w.bits ▸ h
  | withoutNonNull =>
    obtain rfl := Option.some.inj hstep
    exact listCount_clear (outerFlag_and_countMask h) w.bits ▸ h
  | pop =>
    obtain rfl := Option.some.inj hstep
    change (w.withoutList?.getD w).listCount ≤ maxLists
    cases hinner : w.withoutList? with
    | none => exact h
    | some inner =>
      rw [listCount_withoutList? hinner] at h
      exact Nat.le_of_succ_le h

/-- Any number of operations leaves at most `maxLists` lists. The induction is on the operations. -/
theorem listCount_run_le (h : w.listCount ≤ maxLists) {steps : List WrappingStep}
    (hrun : w.run steps = some w') : w'.listCount ≤ maxLists := by
  induction steps generalizing w with
  | nil => exact Option.some.inj hrun ▸ h
  | cons step rest ih =>
    rw [run, List.foldlM_cons] at hrun
    obtain ⟨next, hnext, hrest⟩ := Option.bind_eq_some_iff.mp hrun
    exact ih (listCount_step?_le h hnext) hrest

/-! ### Which words can be used like the built ones -/

/-- No flag that an operation or a view looks at is outside of the word. -/
def ShiftsFit (w : Wrapping) : Prop := ∀ index ∈ w.flagsInUse, 5 + index < 16

/-- The flags in use are inside of the word exactly if there is room for its lists. -/
theorem shiftsFit_iff : w.ShiftsFit ↔ w.listCount ≤ maxLists := by
  rw [ShiftsFit, flagsInUse]
  constructor
  · intro h
    -- Otherwise the first flag beyond the room would be in use, and it does not fit.
    refine Nat.le_of_not_lt fun hdeep => ?_
    have hflag := h maxLists (by rw [if_neg (by omega), List.mem_range]; exact hdeep)
    rw [maxLists] at hflag
    omega
  · intro h index hindex
    rw [maxLists] at h hindex
    rw [List.mem_range] at hindex
    split at hindex <;> omega

/-- The text differs from the name exactly if there is a list or the named type is required. -/
theorem display_ne_iff (w : Wrapping) (name : String) :
    w.display name ≠ name ↔ w.innerIsRequired ∨ w.isList := by
  rw [display_layers, Layers.display_ne_iff, Layers.isWrapped, Bool.or_eq_true]
  refine or_congr_right ?_
  rw [Layers.isList, layers, isList, ← length_listWrappings]
  cases w.listWrappings <;> simp

/-- Whether a word is wrapped shows in its text, unless all it has is flags of lists that are not
there. -/
theorem isWrapped_shows_iff (w : Wrapping) (name : String) :
    (w.isWrapped ↔ w.display name ≠ name) ↔ (w.bits ≠ 0 → w.innerIsRequired ∨ w.isList) := by
  rw [display_ne_iff, isWrapped, bne_iff_ne]
  refine ⟨Iff.mp, fun h => ⟨h, fun hwrapped hbits => ?_⟩⟩
  obtain rfl : w = nullable := congrArg Wrapping.mk hbits
  rcases hwrapped with hinner | hlist
  · cases hinner
  · cases hlist

/-- What can be expected of every word: flags and number of lists are in bounds, it is wrapped exactly if
that shows in the text, and no other word with the same text is built. -/
structure BehavesAsBuilt (w : Wrapping) : Prop where
  shifts : w.ShiftsFit
  room : w.listCount ≤ maxLists
  isWrapped : ∀ name, w.isWrapped ↔ w.display name ≠ name
  unique : ∀ {w' : Wrapping} {name : String}, w'.IsBuilt → w.display name = w'.display name → w = w'

/-- The built words behave as they should. -/
theorem IsBuilt.behavesAsBuilt (h : w.IsBuilt) : w.BehavesAsBuilt where
  shifts := shiftsFit_iff.mpr h.represents.isCanonical.room
  room := h.represents.isCanonical.room
  isWrapped name := by
    rw [h.represents.isWrapped_eq, h.represents.display_eq, Layers.display_ne_iff]
  unique := by
    intro w' name h' htext
    rw [display_layers w, display_layers w'] at htext
    have hlayers := Layers.display_injective name htext
    exact h.represents.word_unique (hlayers ▸ h'.represents)

/-- A word that behaves like a built one is the built word with its text. -/
theorem BehavesAsBuilt.isBuilt (h : w.BehavesAsBuilt) : w.IsBuilt := by
  have hroom : w.layers.lists.length ≤ maxLists := w.length_listWrappings.symm ▸ h.room
  obtain ⟨built, hbuilt, hrepresents⟩ := Layers.exists_isBuilt hroom
  have htext : w.display "" = built.display "" := by
    rw [display_layers, hrepresents.display_eq]
  exact h.unique hbuilt htext ▸ hbuilt

/-- **Which words are safe.** Of the words that a wrapping can be read from,
* those with at most `maxLists` lists keep all flags inside of the word and at most that many lists,
  whatever operations follow, and no others do;
* those that the operations build behave like built words, whatever operations follow, and no others do;
* the built words are those in normal form, and two of them with the same text are equal;
* all others than those that have flags of missing lists and nothing else are wrapped exactly if that
  shows in their text. -/
theorem safe_iff (w : Wrapping) :
    ((∀ steps w', w.run steps = some w' → w'.ShiftsFit ∧ w'.listCount ≤ maxLists) ↔
        w.listCount ≤ maxLists) ∧
      ((∀ steps w', w.run steps = some w' → w'.BehavesAsBuilt) ↔ w.IsBuilt) ∧
      (w.IsBuilt ↔ w.IsCanonical) ∧
      (∀ w' name, w.IsCanonical → w'.IsCanonical → (w.display name = w'.display name ↔ w = w')) ∧
      ∀ name, (w.isWrapped ↔ w.display name ≠ name) ↔
        (w.bits ≠ 0 → w.innerIsRequired ∨ w.isList) := by
  refine ⟨⟨fun h => (h [] w rfl).2, fun h steps w' hrun => ?_⟩,
    ⟨fun h => (h [] w rfl).isBuilt, fun h steps w' hrun => (h.run hrun).behavesAsBuilt⟩,
    isBuilt_iff_isCanonical, fun w' name h h' => ?_, w.isWrapped_shows_iff⟩
  · have hroom := listCount_run_le h hrun
    exact ⟨shiftsFit_iff.mpr hroom, hroom⟩
  · have hbuilt := isBuilt_iff_isCanonical.mpr h
    have hbuilt' := isBuilt_iff_isCanonical.mpr h'
    exact ⟨fun htext => hbuilt.behavesAsBuilt.unique hbuilt' htext, fun heq => heq ▸ rfl⟩

/-- The flag of a list without the list is a wrapper that the text does not show; and twelve lists need a
flag that the word does not have. -/
theorem flagWithoutList_isWrapped :
    (isWrapped ⟨32⟩ = true ∧ display ⟨32⟩ "T" = "T") ∧
      (display ⟨32⟩ "T" = nullable.display "T" ∧ (⟨32⟩ : Wrapping) ≠ nullable) ∧
      (listCount ⟨24⟩ = 12 ∧ ¬ ShiftsFit ⟨24⟩) ∧
      ¬ ∀ w : Wrapping, w.BehavesAsBuilt := by
  have hflag : isWrapped ⟨32⟩ = true ∧ display ⟨32⟩ "T" = "T" := ⟨by decide, by decide⟩
  refine ⟨hflag, ⟨by decide, by decide⟩, ⟨by decide, ?_⟩, fun h => ?_⟩
  · rw [shiftsFit_iff]
    decide
  · exact ((h ⟨32⟩).isWrapped "T").mp hflag.1 hflag.2

end Wrapping

end GraphQL
