import GraphQL.Proofs.Wrapping.Bits
import Mathlib.Data.List.Induction

/-!
# Packed wrappings as pairs

A word stands for a pair: whether the named type is required, and the list wrappers around it from the
innermost one on. On the pair every operation is plain: a list goes to the end, the outermost wrapper is
the last list or the named type. Words that are built by the operations carry nothing else, so that
operations and views agree with those of the pair, and equal words are equal pairs.

* `Wrapping.Layers.pushList?`, `Wrapping.Layers.popList?`, … — the operations on pairs;
* `Wrapping.Represents` — what the bits of a word say of a pair, with no flag left over;
* `Wrapping.WrappingStep`, `Wrapping.run_represents` — sequences of operations, on both sides;
* `Wrapping.run_mirrors` — what can be asked of every word that they lead to.
-/

namespace GraphQL

namespace Wrapping

/-! ### Operations on pairs -/

namespace Layers

/-- A bare type. -/
def bare (required : Bool) : Layers := ⟨required, []⟩

/-- Puts a list around the type, unless there are `maxLists` lists already. -/
def pushList? (pair : Layers) (wrapper : ListWrapping) : Option Layers :=
  if pair.lists.length < maxLists then some ⟨pair.innerRequired, pair.lists ++ [wrapper]⟩ else none

/-- Takes the outermost list off and returns it with what it wrapped. -/
def popList? (pair : Layers) : Option (ListWrapping × Layers) :=
  pair.lists.getLast?.map fun wrapper => (wrapper, ⟨pair.innerRequired, pair.lists.dropLast⟩)

/-- Says whether the outermost wrapper, list or named type, is required. -/
def setOuter (pair : Layers) (required : Bool) : Layers :=
  match pair.popList? with
  | none => bare required
  | some (_, inner) =>
      ⟨inner.innerRequired, inner.lists ++ [if required then .required else .nullable]⟩

/-- Whether the outermost wrapper, list or named type, is required. -/
def isRequired (pair : Layers) : Bool :=
  match pair.lists.getLast? with
  | none => pair.innerRequired
  | some wrapper => wrapper == .required

/-- Whether there is a list. -/
def isList (pair : Layers) : Bool := !pair.lists.isEmpty

/-- Whether there is any wrapper at all. -/
def isWrapped (pair : Layers) : Bool := pair.innerRequired || pair.isList

/-- The text of a type of the given name: every list stands around the text of its items. -/
def display (pair : Layers) (name : String) : String :=
  pair.lists.foldl (fun text wrapper => "[" ++ text ++ closing wrapper)
    (name ++ if pair.innerRequired then "!" else "")

end Layers

/-! ### What a word says of a pair -/

/-- The text of a word is that of its layers, whatever else the word has: the brackets that are opened at
once are those that the lists open one by one. The induction is on the lists, from the outermost one on. -/
theorem display_layers (w : Wrapping) (name : String) : w.display name = w.layers.display name := by
  rw [display, Layers.display, layers, ← w.length_listWrappings]
  generalize w.listWrappings = lists
  induction lists using List.reverseRecOn with
  | nil => simp [String.join]
  | append_singleton lists wrapper ih =>
    rw [List.foldl_append, ← ih]
    simp [List.replicate_succ, String.join_cons, String.join_append, String.append_assoc]

/-- The bits of a word are those of a pair: the flag of the named type, the number of lists, their flags,
and no flag of a list that is not there. -/
structure Represents (w : Wrapping) (pair : Layers) : Prop where
  room : pair.lists.length ≤ maxLists
  inner : w.bit 0 = pair.innerRequired
  count : w.listCount = pair.lists.length
  flag : ∀ index < maxLists, w.bit (5 + index) = (pair.lists[index]? == some .required)

namespace Represents

variable {w w' : Wrapping} {pair pair' : Layers}

/-- **A pair has one word.** -/
theorem word_unique (h : w.Represents pair) (h' : w'.Represents pair) : w = w' := by
  refine ext_bit fun index hindex => ?_
  rcases Nat.lt_or_ge index 5 with hlow | hhigh
  · rcases Nat.eq_zero_or_pos index with rfl | hpos
    · rw [h.inner, h'.inner]
    · exact bit_of_listCount (h.count.trans h'.count.symm) ⟨hpos, hlow⟩
  · obtain ⟨list, rfl⟩ := Nat.exists_eq_add_of_le hhigh
    have hlist : list < maxLists := by rw [maxLists]; omega
    rw [h.flag list hlist, h'.flag list hlist]

/-- A list is read back from its flag. -/
theorem listAt_eq (h : w.Represents pair) {index : Nat} {wrapper : ListWrapping}
    (hindex : pair.lists[index]? = some wrapper) : w.listAt index = wrapper := by
  have hroom : index < maxLists :=
    Nat.lt_of_lt_of_le (List.getElem?_eq_some_iff.mp hindex).1 h.room
  rw [listAt, hasBit_of_isFlag (listFlag_isFlag hroom), h.flag index hroom, hindex]
  cases wrapper <;> rfl

/-- **A word has one pair**, which is the one that its layers are. -/
theorem layers_eq (h : w.Represents pair) : w.layers = pair := by
  -- The lists are compared by their places.
  have hlists : w.listWrappings = pair.lists := by
    refine List.ext_getElem? fun index => ?_
    rw [listWrappings, h.count]
    cases hwrapper : pair.lists[index]? with
    | none =>
      have hlength := List.getElem?_eq_none_iff.mp hwrapper
      exact List.getElem?_eq_none_iff.mpr (by simpa using hlength)
    | some wrapper =>
      have hlength := (List.getElem?_eq_some_iff.mp hwrapper).1
      rw [List.getElem?_map, List.getElem?_range hlength, Option.map_some, h.listAt_eq hwrapper]
  rw [layers, innerIsRequired, hasBit_of_isFlag one_isFlag, h.inner, hlists]

/-- The word of a list around a type: the flag of the list, and otherwise what the type has. That
the flags above the last list are clear is part of it, since a list that is added finds its flag
there. -/
theorem concat_iff {required : Bool} {lists : List ListWrapping} {wrapper : ListWrapping} :
    w.Represents ⟨required, lists ++ [wrapper]⟩ ↔
      lists.length < maxLists ∧ w.bit 0 = required ∧ w.listCount = lists.length + 1 ∧
        w.bit (5 + lists.length) = (wrapper == .required) ∧
          ∀ index < maxLists, index ≠ lists.length →
            w.bit (5 + index) = (lists[index]? == some .required) := by
  -- The last list has its flag at the end of the others, and they keep theirs.
  have hlast : (lists ++ [wrapper])[lists.length]? = some wrapper := List.getElem?_concat_length
  have hother : ∀ index, index ≠ lists.length → (lists ++ [wrapper])[index]? = lists[index]? := by
    intro index hne
    rcases Nat.lt_or_gt_of_ne hne with hlt | hgt
    · exact List.getElem?_append_left hlt
    · rw [List.getElem?_eq_none_iff.mpr (Nat.le_of_lt hgt), List.getElem?_eq_none_iff.mpr]
      rw [List.length_append, List.length_singleton]
      omega
  constructor
  · intro h
    -- A word has no more lists than there is room for.
    have hroom : lists.length < maxLists := by
      have hle := h.room
      rw [List.length_append, List.length_singleton] at hle
      omega
    have hcount := h.count
    rw [List.length_append, List.length_singleton] at hcount
    refine ⟨hroom, h.inner, hcount, ?_, fun index hindex hne => ?_⟩
    · have hflag := h.flag lists.length hroom
      rw [hlast] at hflag
      exact hflag
    · rw [h.flag index hindex, hother index hne]
  -- Conversely every flag is the one of the last list, or one of the others.
  · rintro ⟨hroom, hinner, hcount, houter, hflags⟩
    refine ⟨?_, hinner, ?_, fun index hindex => ?_⟩
    · rw [List.length_append, List.length_singleton]
      omega
    · rw [hcount, List.length_append, List.length_singleton]
    · by_cases hne : index = lists.length
      · subst hne
        rw [houter, hlast]
        rfl
      · rw [hflags index hindex hne, hother index hne]

/-! ### Operations keep words and pairs together -/

/-- A bare type. -/
theorem bare (required : Bool) : (ofRequired required).Represents (.bare required) := by
  cases required <;> exact ⟨Nat.zero_le _, by decide, by decide, by decide⟩

/-- The bits after a list has been put around a type. -/
theorem bit_pushList? {wrapper : ListWrapping} (h : w.pushList? wrapper = some w') (index : Nat) :
    w'.bit index = if 5 + w.listCount = index then wrapper == .required
      else (w.withListCount (w.listCount + 1)).bit index := by
  -- There is room for the list, since otherwise nothing could be pushed.
  have hroom : w.listCount < maxLists := by
    refine Nat.lt_of_not_le fun hfull => ?_
    rw [pushList?_eq_none_iff.mpr hfull] at h
    cases h
  have hflag := listFlag_isFlag hroom
  -- The flag of the list is cleared or set, according to the wrapper. All other bits stay.
  cases wrapper with
  | nullable =>
    rw [pushList?, wrapList?, if_pos hroom] at h
    obtain rfl := Option.some.inj h
    rw [bit_clear hflag]
    split
    next heq => rw [decide_eq_true heq]; exact Bool.and_false _
    next hne => rw [decide_eq_false hne]; exact Bool.and_true _
  | required =>
    rw [pushList?, wrapListNonNull?, if_pos hroom] at h
    obtain rfl := Option.some.inj h
    rw [bit_set hflag]
    split
    next heq => rw [decide_eq_true heq]; exact Bool.or_true _
    next hne => rw [decide_eq_false hne]; exact Bool.or_false _

/-- **A list around the type**, if there is room for it. -/
theorem pushList? (h : w.Represents pair) (wrapper : ListWrapping) :
    Option.Rel Represents (w.pushList? wrapper) (pair.pushList? wrapper) := by
  rw [Layers.pushList?]
  -- Word and pair have the same number of lists, so there is room in both or in neither.
  cases hpush : w.pushList? wrapper with
  | none =>
    rw [if_neg (Nat.not_lt.mpr (h.count ▸ pushList?_eq_none_iff.mp hpush))]
    exact .none
  | some w' =>
    have hroom : pair.lists.length < maxLists := by
      refine Nat.lt_of_not_le fun hfull => ?_
      rw [pushList?_eq_none_iff.mpr (h.count ▸ hfull)] at hpush
      cases hpush
    -- The count takes four bits, and there are fewer lists than they can hold.
    have hcount : w.listCount + 1 < 16 := by
      rw [h.count]
      rw [maxLists] at hroom
      omega
    have hbit := bit_pushList? hpush
    rw [if_pos hroom]
    refine .some (concat_iff.mpr ⟨hroom, ?_, ?_, ?_, fun index hindex hne => ?_⟩)
    · rw [hbit, if_neg (by omega), bit_withListCount w hcount, if_neg (by omega), h.inner]
    · rw [listCount_pushList? hpush, h.count]
    · rw [hbit, if_pos (by rw [h.count])]
    · rw [hbit, if_neg (by rw [h.count]; omega), bit_withListCount w hcount, if_neg (by omega),
        h.flag index hindex]

/-- **The outermost list comes off**, if there is one. Its flag has to be cleared as well, so that
what is left is the word of the pair without it, and not one that differs in an unused bit. -/
theorem popList? (h : w.Represents pair) :
    Option.Rel (fun popped popped' => popped.1 = popped'.1 ∧ popped.2.Represents popped'.2)
      w.popList? pair.popList? := by
  obtain ⟨required, lists⟩ := pair
  -- Without a list nothing comes off; otherwise the last one does.
  obtain rfl | ⟨lists, wrapper, rfl⟩ := List.eq_nil_or_concat lists
  · have hcount : w.listCount = 0 := h.count
    rw [Wrapping.popList?, hcount]
    exact .none
  · rw [List.concat_eq_append] at h
    obtain ⟨hroom, hinner, hcount, -, hflags⟩ := concat_iff.mp h
    have hwrapper : w.listAt lists.length = wrapper := h.listAt_eq List.getElem?_concat_length
    -- On both sides it is the last list that comes off.
    have hpop : w.popList? =
        some (wrapper, withListCount ⟨w.bits &&& ~~~listFlag lists.length⟩ lists.length) := by
      rw [Wrapping.popList?, hcount]
      exact congrArg (fun popped => some (popped, _)) hwrapper
    have hpop' : Layers.popList? ⟨required, lists.concat wrapper⟩ = some (wrapper, ⟨required, lists⟩) := by
      rw [Layers.popList?, List.concat_eq_append, List.getLast?_concat, List.dropLast_concat]
      rfl
    rw [hpop, hpop']
    have hfits : lists.length < 16 := by
      rw [maxLists] at hroom
      omega
    have hbit := bit_clear (w := w) (listFlag_isFlag hroom)
    refine .some ⟨rfl, Nat.le_of_lt hroom, ?_, listCount_withListCount _ hfits, fun index hindex => ?_⟩
    · rw [bit_withListCount _ hfits, if_neg (by omega), hbit, decide_eq_false (by omega)]
      exact (Bool.and_true _).trans hinner
    · rw [bit_withListCount _ hfits, if_neg (by omega), hbit]
      by_cases hne : index = lists.length
      · -- The flag of the list itself is not left behind.
        rw [hne, decide_eq_true rfl, List.getElem?_eq_none_iff.mpr (Nat.le_refl _)]
        exact Bool.and_false _
      · rw [decide_eq_false (by omega), hflags index hindex hne]
        exact Bool.and_true _

/-- A word that differs from another one in the bit of the outermost wrapper only. Which bit that is
depends on the number of lists, which is not changed by it, so the word represents the pair with
another outermost wrapper. -/
theorem setOuter (h : w.Represents pair) (required : Bool)
    (hbit : ∀ index, w'.bit index =
      if outerPosition w.listCount = index then required else w.bit index) :
    w'.Represents (pair.setOuter required) := by
  -- Neither of the two bits is one of the count.
  have hcount : w'.listCount = w.listCount := by
    refine listCount_of_bits fun index hlow hhigh => ?_
    rw [hbit, if_neg]
    rw [outerPosition.eq_def]
    split <;> omega
  -- The bit is that of the named type, or else that of the last list.
  obtain ⟨inner, lists⟩ := pair
  obtain rfl | ⟨lists, wrapper, rfl⟩ := List.eq_nil_or_concat lists
  · have hbare : w.listCount = 0 := h.count
    rw [hbare] at hbit
    refine ⟨h.room, ?_, hcount.trans h.count, fun index hindex => ?_⟩
    · rw [hbit]
      rfl
    · rw [hbit, if_neg (by rw [outerPosition]; omega)]
      exact h.flag index hindex
  · rw [List.concat_eq_append] at h
    obtain ⟨hroom, hinner, hlists, houter, hflags⟩ := concat_iff.mp h
    -- In the pair the last list is replaced by one of the new kind.
    have hset : Layers.setOuter ⟨inner, lists.concat wrapper⟩ required =
        ⟨inner, lists ++ [if required then .required else .nullable]⟩ := by
      rw [Layers.setOuter, Layers.popList?, List.concat_eq_append, List.getLast?_concat,
        List.dropLast_concat]
      rfl
    rw [hlists, outerPosition] at hbit
    rw [hset]
    refine concat_iff.mpr ⟨hroom, ?_, hcount.trans hlists, ?_, fun index hindex hne => ?_⟩
    · rw [hbit, if_neg (by omega), hinner]
    · rw [hbit, if_pos rfl]
      cases required <;> rfl
    · rw [hbit, if_neg (by omega), hflags index hindex hne]

/-- **The outermost wrapper becomes required.** -/
theorem wrapNonNull (h : w.Represents pair) : w.wrapNonNull.Represents (pair.setOuter true) := by
  refine h.setOuter true fun index => ?_
  rw [Wrapping.wrapNonNull, bit_set (outerFlag_isFlag (h.count ▸ h.room))]
  split
  next heq => rw [decide_eq_true heq, Bool.or_true]
  next hne => rw [decide_eq_false hne, Bool.or_false]

/-- **The outermost wrapper becomes nullable.** -/
theorem withoutNonNull (h : w.Represents pair) :
    w.withoutNonNull.Represents (pair.setOuter false) := by
  refine h.setOuter false fun index => ?_
  rw [Wrapping.withoutNonNull, bit_clear (outerFlag_isFlag (h.count ▸ h.room))]
  split
  next heq => rw [decide_eq_true heq]; exact Bool.and_false _
  next hne => rw [decide_eq_false hne]; exact Bool.and_true _

/-! ### Views -/

/-- Whether the outermost wrapper is required. -/
theorem isRequired_eq (h : w.Represents pair) : w.isRequired = pair.isRequired := by
  rw [isRequired, hasBit_of_isFlag (outerFlag_isFlag (h.count ▸ h.room))]
  -- Without a list the outermost wrapper is that of the named type, else that of the last list.
  obtain ⟨required, lists⟩ := pair
  obtain rfl | ⟨lists, wrapper, rfl⟩ := List.eq_nil_or_concat lists
  · have hcount : w.listCount = 0 := h.count
    rw [hcount]
    exact h.inner
  · rw [List.concat_eq_append] at h
    obtain ⟨-, -, hcount, houter, -⟩ := concat_iff.mp h
    rw [hcount, outerPosition, houter, Layers.isRequired, List.concat_eq_append,
      List.getLast?_concat]

theorem isList_eq (h : w.Represents pair) : w.isList = pair.isList := by
  rw [isList, h.count, Layers.isList]
  cases pair.lists <;> rfl

/-- There is no wrapper exactly in the word that is zero. -/
theorem isWrapped_eq (h : w.Represents pair) : w.isWrapped = pair.isWrapped := by
  -- The word is zero exactly if the pair has neither a list nor a required type.
  have hzero : w.bits = 0 ↔ pair = .bare false := by
    constructor
    · intro hbits
      obtain rfl : w = ofRequired false := congrArg Wrapping.mk hbits
      exact h.layers_eq.symm.trans (bare false).layers_eq
    · rintro rfl
      exact congrArg bits (h.word_unique (bare false))
  have hbare : pair.isWrapped = false ↔ pair = .bare false := by
    obtain ⟨required, lists⟩ := pair
    cases required <;> cases lists <;> simp [Layers.isWrapped, Layers.isList, Layers.bare]
  rw [isWrapped]
  cases hwrapped : pair.isWrapped with
  | false => rw [hzero.mpr (hbare.mp hwrapped)]; rfl
  | true =>
    rw [bne_iff_ne]
    exact fun hbits => Bool.noConfusion (hwrapped.symm.trans (hbare.mpr (hzero.mp hbits)))

/-- The text of a word is that of its pair. -/
theorem display_eq (h : w.Represents pair) (name : String) : w.display name = pair.display name := by
  rw [display_layers, h.layers_eq]

end Represents

/-! ### Sequences of operations -/

/-- An operation on a wrapping. -/
inductive WrappingStep where
  | wrapList
  | wrapListNonNull
  | wrapNonNull
  | withoutNonNull
  | withoutList
  /-- Puts a list around a wrapping that is being built. -/
  | push (wrapper : ListWrapping)
  /-- Takes the outermost list off a wrapping that is being peeled; one without a list stays. -/
  | pop

/-- The word after an operation. -/
def step? (w : Wrapping) : WrappingStep → Option Wrapping
  | .wrapList => w.wrapList?
  | .wrapListNonNull => w.wrapListNonNull?
  | .wrapNonNull => some w.wrapNonNull
  | .withoutNonNull => some w.withoutNonNull
  | .withoutList => w.withoutList?
  | .push wrapper => w.pushList? wrapper
  | .pop => some ((w.popList?.map Prod.snd).getD w)

/-- The word after some operations, one after the other. -/
def run (w : Wrapping) (steps : List WrappingStep) : Option Wrapping := steps.foldlM step? w

namespace Layers

/-- The pair after an operation. -/
def step? (pair : Layers) : WrappingStep → Option Layers
  | .wrapList => pair.pushList? .nullable
  | .wrapListNonNull => pair.pushList? .required
  | .wrapNonNull => some (pair.setOuter true)
  | .withoutNonNull => some (pair.setOuter false)
  | .withoutList => pair.popList?.map Prod.snd
  | .push wrapper => pair.pushList? wrapper
  | .pop => some ((pair.popList?.map Prod.snd).getD pair)

/-- The pair after some operations, one after the other. -/
def run (pair : Layers) (steps : List WrappingStep) : Option Layers := steps.foldlM step? pair

end Layers

/-- **One operation** keeps word and pair together. The cases are the operations, each of which has
been dealt with above. -/
theorem Represents.step? {w : Wrapping} {pair : Layers} (h : w.Represents pair) (step : WrappingStep) :
    Option.Rel Represents (w.step? step) (pair.step? step) := by
  -- Each operation is one that has been dealt with, or the removal of the outermost list.
  cases step with
  | wrapList => exact h.pushList? .nullable
  | wrapListNonNull => exact h.pushList? .required
  | wrapNonNull => exact .some h.wrapNonNull
  | withoutNonNull => exact .some h.withoutNonNull
  | push wrapper => exact h.pushList? wrapper
  | withoutList =>
    have hpop := h.popList?
    rw [Wrapping.step?, withoutList?, Layers.step?]
    revert hpop
    generalize w.popList? = popped
    generalize pair.popList? = popped'
    rintro (⟨-, hrest⟩ | _)
    · exact .some hrest
    · exact .none
  | pop =>
    have hpop := h.popList?
    rw [Wrapping.step?, Layers.step?]
    revert hpop
    generalize w.popList? = popped
    generalize pair.popList? = popped'
    rintro (⟨-, hrest⟩ | _)
    · exact .some hrest
    · exact .some h

/-- Any number of operations keep word and pair together. The induction is on the operations. -/
theorem Represents.run {w : Wrapping} {pair : Layers} (h : w.Represents pair)
    (steps : List WrappingStep) : Option.Rel Represents (w.run steps) (pair.run steps) := by
  -- The first operation fails on both sides, and so do all of them, or it leads to a pair of its
  -- word.
  induction steps generalizing w pair with
  | nil => exact .some h
  | cons step rest ih =>
    have hstep := h.step? step
    rw [Wrapping.run, Layers.run, List.foldlM_cons, List.foldlM_cons]
    revert hstep
    generalize w.step? step = next
    generalize pair.step? step = next'
    rintro (hnext | _)
    · exact ih hnext
    · exact .none

/-- The flags that operations on a word look at or change: those of its lists, and that of one list more
if there is room for it. -/
def flagsInUse (w : Wrapping) : List Nat :=
  List.range (if w.listCount < maxLists then w.listCount + 1 else w.listCount)

/-- What can be asked of a word is what can be asked of a pair. -/
structure Mirrors (w : Wrapping) (pair : Layers) : Prop where
  room : pair.lists.length ≤ maxLists
  innerIsRequired : w.innerIsRequired = pair.innerRequired
  listWrappings : w.listWrappings = pair.lists
  isRequired : w.isRequired = pair.isRequired
  isNullable : w.isNullable = !pair.isRequired
  isList : w.isList = pair.isList
  isWrapped : w.isWrapped = pair.isWrapped
  display : ∀ name, w.display name = pair.display name
  popped : w.popList?.map Prod.fst = pair.lists.getLast?
  /-- Lists cannot be put around the greatest number of lists, and around all others they can. -/
  overflow : ∀ wrapper, w.pushList? wrapper = none ↔ pair.lists.length = maxLists
  /-- No flag is set for a list that is not there. -/
  noStaleFlag : ∀ index, pair.lists.length ≤ index → index < maxLists →
    w.hasBit (listFlag index) = false
  /-- Flags and number of lists are shifted as in a word of any length. -/
  shifts : (∀ index ∈ w.flagsInUse, 5 + index < 16 ∧ (listFlag index).toNat = 1 <<< (5 + index)) ∧
    (UInt16.ofNat w.listCount <<< 1).toNat = w.listCount <<< 1

/-- A word that represents a pair mirrors it in every view. All views are read from the number of
lists and the flags of these, which the representation fixes, so they are compared one by one. -/
theorem Represents.mirrors {w : Wrapping} {pair : Layers} (h : w.Represents pair) : w.Mirrors pair where
  room := h.room
  innerIsRequired := congrArg Layers.innerRequired h.layers_eq
  listWrappings := congrArg Layers.lists h.layers_eq
  isRequired := h.isRequired_eq
  isNullable := by rw [Wrapping.isNullable, h.isRequired_eq]
  isList := h.isList_eq
  isWrapped := h.isWrapped_eq
  display := h.display_eq
  popped := by
    -- What comes off is the last list on both sides.
    have hpop := h.popList?
    revert hpop
    rw [Layers.popList?]
    generalize w.popList? = popped
    cases pair.lists.getLast? with
    | none => rintro (_ | _); rfl
    | some wrapper => rintro (⟨hfst, -⟩ | _); exact congrArg some hfst
  overflow wrapper := by
    rw [pushList?_eq_none_iff, h.count]
    exact ⟨fun hge => Nat.le_antisymm h.room hge, fun heq => Nat.le_of_eq heq.symm⟩
  noStaleFlag index hlists hindex := by
    rw [hasBit_of_isFlag (listFlag_isFlag hindex), h.flag index hindex,
      List.getElem?_eq_none_iff.mpr hlists]
    rfl
  shifts := by
    -- The places of all flags are below the width of a word: there are few counts to look at.
    have hcount : w.listCount ≤ maxLists := h.count ▸ h.room
    refine ⟨fun index hindex => ?_, ?_⟩
    · have hroom : index < maxLists := by
        rw [flagsInUse, List.mem_range] at hindex
        split at hindex <;> omega
      exact ⟨(listFlag_isFlag hroom).fits, toNat_listFlag hroom⟩
    · revert hcount
      generalize w.listCount = count
      revert count
      decide

/-- **Words and pairs are built alike**: a sequence of operations fails on both, or leads to a word that
mirrors the pair; and such words are equal exactly if their pairs are. -/
theorem run_mirrors (required : Bool) (steps : List WrappingStep) :
    Option.Rel Mirrors ((ofRequired required).run steps) ((Layers.bare required).run steps) ∧
      ∀ (required' : Bool) (steps' : List WrappingStep),
        (ofRequired required).run steps = (ofRequired required').run steps' ↔
          (Layers.bare required).run steps = (Layers.bare required').run steps' := by
  have hrun := (Represents.bare required).run steps
  revert hrun
  generalize (ofRequired required).run steps = word
  generalize (Layers.bare required).run steps = pair
  intro hrun
  -- The two words and pairs are built by sequences of their own, so each is related by itself.
  refine ⟨?_, fun required' steps' => ?_⟩
  · cases hrun with
    | some h => exact .some h.mirrors
    | none => exact .none
  · have hrun' := (Represents.bare required').run steps'
    revert hrun'
    generalize (ofRequired required').run steps' = word'
    generalize (Layers.bare required').run steps' = pair'
    intro hrun'
    cases hrun with
    | none => cases hrun' <;> simp
    | some h =>
      cases hrun' with
      | none => simp
      | some h' =>
        -- A word has one pair, and a pair one word.
        rw [Option.some_inj, Option.some_inj]
        constructor
        · rintro rfl
          exact h.layers_eq.symm.trans h'.layers_eq
        · rintro rfl
          exact h.word_unique h'

end Wrapping

end GraphQL
