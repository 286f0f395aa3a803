import GraphQL.Proofs.Coercion.Literals
import GraphQL.Proofs.Value.Equality
import GraphQL.Proofs.Wrapping.Lists

/-!
# Names of enum types in arguments

A name of an enum type, or names in lists of lists, may be written as a literal or sent as the value of a
variable, there as enums or as strings. Either way resolvers see the internal values of the names in the
same places.

* `EnumType.IsNest` — names of an enum type in so many lists;
* `EnumType.internal` — what resolvers see of them;
* `Coercion.coerceLiteral_of_isNest`, `Coercion.coerceConstant_of_isNest` — the two ways to get there.
-/

namespace GraphQL

/-- A type with an enum type inside so many lists. -/
structure TypeRef.IsNestOf (ty : TypeRef) (types : TypeSystem) (type : EnumType) (depth : Nat) : Prop where
  named : types.namedType? ty = some (.enum type)
  lists : ty.wrapping.listCount = depth

namespace TypeRef.IsNestOf

variable {ty : TypeRef} {types : TypeSystem} {type : EnumType} {depth : Nat}

theorem isList_eq (h : ty.IsNestOf types type depth) : ty.isList = decide (0 < depth) := by
  rw [TypeRef.isList, Wrapping.isList, h.lists]

/-- The items of a list have one list less. -/
theorem exists_item (h : ty.IsNestOf types type (depth + 1)) :
    ∃ item, ty.itemType? = some item ∧ item.IsNestOf types type depth := by
  have hlist : ty.wrapping.isList := by
    rw [Wrapping.isList, h.lists]
    exact decide_eq_true (Nat.succ_pos depth)
  obtain ⟨wrapping, hwrapping⟩ := Option.isSome_iff_exists.mp (Wrapping.withoutList?_isSome_iff.mpr hlist)
  refine ⟨⟨ty.name, wrapping⟩, by rw [TypeRef.itemType?, hwrapping]; rfl, h.named, ?_⟩
  exact Nat.succ.inj ((Wrapping.listCount_withoutList? hwrapping).symm.trans h.lists)

end TypeRef.IsNestOf

namespace EnumType

/-- Names of an enum type in so many lists. -/
def IsNest (type : EnumType) : Nat → Literal → Prop
  | 0, .enum name => (type.parse? name).isSome
  | depth + 1, .list items => ∀ item ∈ items, type.IsNest depth item
  | _, _ => False

/-- What resolvers see of names in so many lists. -/
def internal (type : EnumType) : Nat → Literal → Value
  | 0, .enum name => (type.parse? name).getD .null
  | depth + 1, .list items => .list (items.map (type.internal depth))
  | _, _ => .null

variable {type : EnumType} {depth : Nat} {literal : Literal}

theorem exists_name_of_isNest (h : type.IsNest 0 literal) :
    ∃ name value, literal = .enum name ∧ type.parse? name = some value ∧
      type.internal 0 literal = value := by
  cases literal with
  | enum name =>
    obtain ⟨value, hvalue⟩ := Option.isSome_iff_exists.mp h
    exact ⟨name, value, rfl, hvalue, by rw [internal, hvalue, Option.getD_some]⟩
  | _ => exact h.elim

theorem exists_items_of_isNest (h : type.IsNest (depth + 1) literal) :
    ∃ items, literal = .list items ∧ ∀ item ∈ items, type.IsNest depth item := by
  cases literal with
  | list items => exact ⟨items, rfl, h⟩
  | _ => exact h.elim

end EnumType

theorem Literal.constant_list (items : List Literal) :
    (Literal.list items).constant = .list (items.map Literal.constant) := by
  rw [Literal.constant, Literal.toValue]
  congr 1
  induction items with
  | nil => rfl
  | cons item rest ih => rw [Literal.toValueItems, ih]; rfl

namespace Coercion

variable {types : TypeSystem} {type : EnumType} {depth : Nat} {vars : Variables}

/-! ### Literals -/

theorem coerceLiteralItems_of_forall {items : List Literal} {ty : TypeRef} {f : Literal → Value}
    (h : ∀ item ∈ items, ∀ path, coerceLiteral types vars false item ty path = .ok (some (f item)))
    (path : ValuePath) (index : Nat) :
    coerceLiteralItems types vars items ty path index = .ok (items.map f) := by
  induction items generalizing index with
  | nil => rfl
  | cons item rest ih =>
    rw [List.forall_mem_cons] at h
    rw [coerceLiteralItems, h.1, ih h.2]
    rfl

/-- **A literal of names is coerced to their internal values.** -/
theorem coerceLiteral_of_isNest {literal : Literal} (h : type.IsNest depth literal) {ty : TypeRef}
    (hty : ty.IsNestOf types type depth) (lenient : Bool) (path : ValuePath) :
    coerceLiteral types vars lenient literal ty path = .ok (some (type.internal depth literal)) := by
  induction depth generalizing literal ty lenient path with
  | zero =>
    -- A single name: it is no list, and its type is the enum.
    obtain ⟨name, value, rfl, hvalue, hinternal⟩ := EnumType.exists_name_of_isNest h
    have hlist : ty.isList = false := hty.isList_eq
    change coerceLiteralSingle lenient .enum (coerceLiteralNamed types vars (.enum name) none) ty path = _
    rw [coerceLiteralSingle, hlist, if_neg Bool.false_ne_true, coerceLiteralNamed, hty.named, hinternal]
    dsimp only
    rw [coerceEnumName, hvalue]
    rfl
  | succ depth ih =>
    -- A list of names: each of them nests one level less deep, in a type of one list less.
    obtain ⟨items, rfl, hitems⟩ := EnumType.exists_items_of_isNest h
    obtain ⟨item, hitem, hinner⟩ := hty.exists_item
    rw [coerceLiteral, hitem]
    dsimp only
    rw [coerceLiteralItems_of_forall fun literal hmem => ih (hitems literal hmem) hinner false]
    rfl

/-! ### Values -/

theorem coerceItems_of_forall {expand : Value → Deferred} {given : List Value} {items : List Literal}
    {ty : TypeRef} {f : Literal → Value}
    (hsame : List.Forall₂ (fun given item => Value.same given item = true) given
      (items.map Literal.constant))
    (h : ∀ item ∈ items, ∀ given, Value.same given item.constant = true →
      ∀ path, coerceValue types expand false given ty path = .ok (f item))
    (path : ValuePath) (index : Nat) :
    coerceItems types expand given ty path index = .ok (items.map f) := by
  induction items generalizing given index with
  | nil =>
    obtain rfl := List.forall₂_nil_right_iff.mp hsame
    rfl
  | cons item rest ih =>
    obtain ⟨first, others, hfirst, hothers, rfl⟩ := List.forall₂_cons_right_iff.mp hsame
    rw [List.forall_mem_cons] at h
    rw [coerceItems, h.1 first hfirst, ih hothers h.2]
    rfl

/-- **Names as the value of a variable are coerced to their internal values**, be they enums or
strings. The induction is on the number of lists around the names. Clients may write the same
constant in different ways, so it is taken up to equality and not as it is written. -/
theorem coerceValue_of_isNest {expand : Value → Deferred} {literal : Literal}
    (h : type.IsNest depth literal) {given : Value} (hsame : Value.same given literal.constant = true)
    {ty : TypeRef} (hty : ty.IsNestOf types type depth) (lenient : Bool) (path : ValuePath) :
    coerceValue types expand lenient given ty path = .ok (type.internal depth literal) := by
  induction depth generalizing literal given ty lenient path with
  | zero =>
    -- A single name, which is the constant of the literal in one of its two forms.
    obtain ⟨name, value, rfl, hvalue, hinternal⟩ := EnumType.exists_name_of_isNest h
    have hlist : ty.isList = false := hty.isList_eq
    have hnamed : coerceEnumName type name path = .ok value := by rw [coerceEnumName, hvalue]
    have hsingle : ∀ (kind : ValueKind) (named : Deferred), coerceSingle lenient kind named ty path =
        named ty path := fun _ _ => by rw [coerceSingle, hlist, if_neg Bool.false_ne_true]
    rw [hinternal]
    -- Clients send names as strings, and defaults write them as enums.
    rcases Value.eq_of_same_enum hsame with rfl | rfl
    · change coerceSingle lenient .enum (coerceNamed types expand (.enum name) none) ty path = _
      rw [hsingle, coerceNamed, hty.named]
      exact hnamed
    · change coerceSingle lenient .string (coerceNamed types expand (.string name) none) ty path = _
      rw [hsingle, coerceNamed, hty.named]
      exact hnamed
  | succ depth ih =>
    obtain ⟨items, rfl, hitems⟩ := EnumType.exists_items_of_isNest h
    obtain ⟨item', hitem, hinner⟩ := hty.exists_item
    rw [Literal.constant_list] at hsame
    -- A list that is the same constant has as many items, and they are the same one by one.
    obtain ⟨given, rfl, hforall⟩ := Value.exists_of_list_same hsame
    have hinternal : ∀ item ∈ items, ∀ given, Value.same given item.constant = true → ∀ path,
        coerceValue types expand false given item' path = .ok (type.internal depth item) :=
      fun item hmem given hsame path => ih (hitems item hmem) hsame hinner false path
    rw [coerceValue, hitem]
    dsimp only
    rw [coerceItems_of_forall hforall hinternal]
    rfl

theorem coerceConstant_of_isNest {literal : Literal} (h : type.IsNest depth literal) {given : Value}
    (hsame : Value.same given literal.constant = true) {ty : TypeRef} (hty : ty.IsNestOf types type depth)
    (path : ValuePath) :
    coerceConstant types given ty path = .ok (type.internal depth literal) := by
  rw [coerceConstant, expandDefault]
  exact coerceValue_of_isNest h hsame hty true path

end Coercion

end GraphQL
