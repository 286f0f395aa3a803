import GraphQL.TypeRef
import Mathlib.Data.Nat.Init

/-!
# How many lists a type has

Putting a list around a type counts one list more, until there is no room for another one. So a type
that is written in a document has a reference exactly if its lists do not nest too deep.

* `Wrapping.listCount_pushList?`, `Wrapping.pushList?_eq_none_iff` — one list more;
* `Wrapping.listCount_withoutList?`, `Wrapping.withoutList?_wrapNonNull` — one list less, whether
  the type is required or not;
* `TypeRef.ofSyntax?_eq_none_iff` — all lists of a written type.
-/

namespace GraphQL

namespace Wrapping

/-! ### The bits of the count -/

/-- A mask that leaves the count alone does not change it when it is cleared. -/
theorem listCount_clear {flag : UInt16} (h : flag &&& countMask = 0) (bits : UInt16) :
    listCount ⟨bits &&& ~~~flag⟩ = listCount ⟨bits⟩ := by
  have hbits : (bits &&& ~~~flag) &&& countMask = bits &&& countMask := by
    apply UInt16.toBitVec_inj.mp
    ext i hi
    have hflag := congrArg (fun word : UInt16 => word.toBitVec[i]) h
    simp at hflag ⊢
    grind
  rw [listCount, listCount, hbits]

/-- A mask that leaves the count alone does not change it when it is set. -/
theorem listCount_set {flag : UInt16} (h : flag &&& countMask = 0) (bits : UInt16) :
    listCount ⟨bits ||| flag⟩ = listCount ⟨bits⟩ := by
  have hbits : (bits ||| flag) &&& countMask = bits &&& countMask := by
    apply UInt16.toBitVec_inj.mp
    ext i hi
    have hflag := congrArg (fun word : UInt16 => word.toBitVec[i]) h
    simp at hflag ⊢
    grind
  rw [listCount, listCount, hbits]

/-- The flags of the lists are outside of the count. -/
theorem listFlag_and_countMask {index : Nat} (h : index < maxLists) :
    listFlag index &&& countMask = 0 := by
  revert h index
  decide

/-- A count that fits is read back. -/
theorem listCount_withListCount (w : Wrapping) {count : Nat} (h : count < 16) :
    (w.withListCount count).listCount = count := by
  -- The rest of the word is masked out again when the number is read.
  have hbits : ((w.bits &&& ~~~countMask) ||| (UInt16.ofNat count <<< 1)) &&& countMask =
      (UInt16.ofNat count <<< 1) &&& countMask := by
    -- Bit by bit the masks cancel.
    apply UInt16.toBitVec_inj.mp
    ext i hi
    simp
    grind
  have hcount : ∀ count < 16, (((UInt16.ofNat count <<< 1) &&& countMask) >>> 1).toNat = count := by
    decide
  rw [listCount, withListCount, hbits]
  exact hcount count h

/-! ### One list more -/

/-- A list around a type is one list more. -/
theorem listCount_pushList? {w w' : Wrapping} {wrapper : ListWrapping}
    (h : w.pushList? wrapper = some w') : w'.listCount = w.listCount + 1 := by
  -- The number that is written is read back; setting or clearing the flag does not touch it.
  have hcount : w.listCount < maxLists →
      (w.withListCount (w.listCount + 1)).listCount = w.listCount + 1 := fun hroom =>
    listCount_withListCount w (by rw [maxLists] at hroom; omega)
  cases wrapper with
  | nullable =>
    rw [pushList?, wrapList?] at h
    split at h
    next hroom =>
      obtain rfl := Option.some.inj h
      exact (listCount_clear (listFlag_and_countMask hroom) _).trans (hcount hroom)
    next => exact nomatch h
  | required =>
    rw [pushList?, wrapListNonNull?] at h
    split at h
    next hroom =>
      obtain rfl := Option.some.inj h
      exact (listCount_set (listFlag_and_countMask hroom) _).trans (hcount hroom)
    next => exact nomatch h

/-- There is no room for a list around a type with as many lists as there may be. -/
theorem pushList?_eq_none_iff {w : Wrapping} {wrapper : ListWrapping} :
    w.pushList? wrapper = none ↔ maxLists ≤ w.listCount := by
  cases wrapper <;>
    simp only [pushList?, wrapList?, wrapListNonNull?, ite_eq_right_iff, reduceCtorEq, imp_false,
      Nat.not_lt]

/-! ### One list less -/

/-- The count takes four bits. -/
theorem listCount_lt (w : Wrapping) : w.listCount < 16 := by
  have hmask : w.bits.toNat &&& 30 ≤ 30 := Nat.and_le_right
  have hcount : w.listCount = (w.bits.toNat &&& 30) / 2 := by
    rw [listCount, UInt16.toNat_shiftRight, UInt16.toNat_and, Nat.shiftRight_eq_div_pow]
    rfl
  omega

/-- What is inside of a list has one list less. -/
theorem listCount_withoutList? {w inner : Wrapping} (h : w.withoutList? = some inner) :
    w.listCount = inner.listCount + 1 := by
  rw [withoutList?, popList?] at h
  cases hcount : w.listCount with
  | zero => rw [hcount] at h; exact nomatch h
  | succ n =>
    rw [hcount] at h
    obtain rfl := Option.some.inj h
    -- The number of a word fits in its four bits, so one less does as well.
    have hfits : n < 16 := by
      have hlt := w.listCount_lt
      omega
    rw [listCount_withListCount _ hfits]

theorem length_listWrappings (w : Wrapping) : w.listWrappings.length = w.listCount := by
  rw [listWrappings, List.length_map, List.length_range]

theorem withoutList?_isSome_iff {w : Wrapping} : w.withoutList?.isSome ↔ w.isList := by
  rw [withoutList?, popList?, isList]
  cases w.listCount <;> simp

/-- The flag of the outermost wrapper is outside of the count. -/
theorem outerFlag_and_countMask {w : Wrapping} (h : w.listCount ≤ maxLists) :
    w.outerFlag &&& countMask = 0 := by
  rw [outerFlag]
  cases hcount : w.listCount with
  | zero => decide
  | succ n => exact listFlag_and_countMask (by omega)

/-- Whether a list may be null does not matter to what is inside of it. -/
theorem withoutList?_wrapNonNull {w : Wrapping} (h : w.listCount ≤ maxLists) :
    w.wrapNonNull.withoutList? = w.withoutList? := by
  have hcount : w.wrapNonNull.listCount = w.listCount := listCount_set (outerFlag_and_countMask h) _
  rw [withoutList?, popList?, withoutList?, popList?, hcount]
  cases hlists : w.listCount with
  | zero => rfl
  | succ n =>
    -- The outermost null that is excluded is that of the list which comes off, so its flag is
    -- cleared anyway.
    have hflag : w.outerFlag = listFlag n := by rw [outerFlag, hlists]
    have hbits : w.wrapNonNull.bits &&& ~~~listFlag n = w.bits &&& ~~~listFlag n := by
      rw [wrapNonNull, hflag]
      apply UInt16.toBitVec_inj.mp
      ext i hi
      simp
      grind
    simp only [hbits, Option.map_some]

end Wrapping

/-- How many lists there are around the name of a written type. -/
def TypeSyntax.listDepth : TypeSyntax → Nat
  | .named _ _ => 0
  | .list item _ => item.listDepth + 1

namespace TypeRef

/-- A reference has as many lists as the written type that it stands for. -/
theorem listCount_ofSyntax? {type : TypeSyntax} {ty : TypeRef} (h : ofSyntax? type = some ty) :
    ty.wrapping.listCount = type.listDepth := by
  induction type generalizing ty with
  | named name required =>
    obtain rfl := Option.some.inj h
    change (Wrapping.ofRequired required).listCount = 0
    cases required <;> decide
  | list item required ih =>
    rw [ofSyntax?, Option.bind_eq_some_iff] at h
    obtain ⟨inner, hinner, h⟩ := h
    -- There is room for one more list.
    rw [wrapList?, Option.map_eq_some_iff] at h
    obtain ⟨wrapping, hpush, rfl⟩ := h
    rw [Wrapping.listCount_pushList? hpush, ih hinner, TypeSyntax.listDepth]

/-- **A written type has no reference exactly if its lists nest too deep.** -/
theorem ofSyntax?_eq_none_iff {type : TypeSyntax} :
    ofSyntax? type = none ↔ Wrapping.maxLists < type.listDepth := by
  induction type with
  | named name required => exact ⟨nofun, nofun⟩
  | list item required ih =>
    rw [ofSyntax?, TypeSyntax.listDepth]
    cases hitem : ofSyntax? item with
    | none =>
      -- What is inside nests too deep already, or it just fits and the list around it does not.
      have hdeep := ih.mp hitem
      exact ⟨fun _ => Nat.lt_succ_of_lt hdeep, fun _ => rfl⟩
    | some inner =>
      rw [Option.bind_some, wrapList?, Option.map_eq_none_iff, Wrapping.pushList?_eq_none_iff,
        listCount_ofSyntax? hitem]
      exact Nat.lt_succ_iff.symm

end TypeRef

end GraphQL
