import GraphQL.Proofs.Text.Trimming
import GraphQL.Proofs.Wrapping.Pairs

/-!
# How types are written

A type in the text of a document is a name or a list of a type, with an exclamation mark behind it where
it is required. White space may stand around each of these tokens.

Spelling is a relation between types and texts, as white space makes it many to one. It follows the
grammar, one rule for each form of a type, so the reader and the writer can both be compared with it
instead of with each other.

* `TypeSyntax.Spells` — the texts of a type;
* `TypeSyntax.chars` — the one without any white space, which `Spells.filter_eq` shows to be all other
  texts without theirs;
* `TypeRef.represents_of_ofSyntax?`, `TypeRef.display_of_ofSyntax?` — the reference of a written type has
  its name and its wrappers, and hence its text;
* `TypeRef.exists_ofSyntax?` — every reference is that of a written type.
-/

namespace GraphQL

open Text (AllBlank IsSolid allBlank_nil isBlank)

namespace TypeRef

/-- The characters of a name are neither white space nor brackets nor marks. -/
structure IsNameChar (c : Char) : Prop where
  solid : isBlank c = false
  ne_mark : c ≠ '!'
  ne_open : c ≠ '['

theorem isNameChar_of_range {c : Char} (h : c.toNat = 95 ∨ (48 ≤ c.toNat ∧ c.toNat ≤ 57) ∨
    (65 ≤ c.toNat ∧ c.toNat ≤ 90) ∨ (97 ≤ c.toNat ∧ c.toNat ≤ 122)) : IsNameChar c where
  solid := by
    simp only [isBlank, Text.blankRanges, List.any_cons, List.any_nil, Bool.or_eq_false_iff,
      Bool.and_eq_false_iff, decide_eq_false_iff_not, Bool.or_false]
    omega
  ne_mark := by rintro rfl; revert h; decide
  ne_open := by rintro rfl; revert h; decide

theorem isNameChar {c : Char} (h : (isNameStart c || c.isDigit) = true) : IsNameChar c := by
  refine isNameChar_of_range ?_
  -- Letters and digits are ranges of characters.
  have hrange {low high : Nat} (h : (decide (low ≤ c.toNat) && decide (c.toNat ≤ high)) = true) :
      low ≤ c.toNat ∧ c.toNat ≤ high := by
    rw [Bool.and_eq_true, decide_eq_true_eq, decide_eq_true_eq] at h
    exact h
  rw [isNameStart, Bool.or_eq_true, Bool.or_eq_true] at h
  rcases h with (hletter | hline) | hdigit
  · rcases Bool.or_eq_true_iff.mp hletter with hupper | hlower
    · exact .inr (.inr (.inl (of_decide_eq_true hupper)))
    · exact .inr (.inr (.inr (hrange hlower)))
  · rw [beq_iff_eq.mp hline]
    exact .inl rfl
  · exact .inr (.inl (hrange hdigit))

theorem isNameChar_of_mem {name : List Char} (h : isName name = true) : ∀ c ∈ name, IsNameChar c := by
  cases name with
  | nil => exact nofun
  | cons first rest =>
    rw [isName, Bool.and_eq_true, List.all_eq_true] at h
    intro c hmem
    rcases List.mem_cons.mp hmem with rfl | hrest
    · exact isNameChar (by rw [h.1]; rfl)
    · exact isNameChar (h.2 c hrest)

theorem isSolid_of_isName {name : List Char} (h : isName name = true) : IsSolid name where
  nonempty := by rintro rfl; exact Bool.false_ne_true h
  head c hc := (isNameChar_of_mem h c (List.mem_of_mem_head? hc)).solid
  last c hc := (isNameChar_of_mem h c (List.mem_of_mem_getLast? hc)).solid

end TypeRef

namespace TypeSyntax

/-- The name inside all lists. -/
def typeName : TypeSyntax → String
  | .named name _ => name
  | .list item _ => item.typeName

/-- The wrappers around the name. -/
def layers : TypeSyntax → Wrapping.Layers
  | .named _ required => .bare required
  | .list item required =>
      ⟨item.layers.innerRequired, item.layers.lists ++ [if required then .required else .nullable]⟩

/-- Whether the name of a type is one. -/
def IsWellNamed (type : TypeSyntax) : Prop := TypeRef.isName type.typeName.toList = true

/-- What stands behind a type to say whether it is required. -/
def mark : Bool → List Char
  | true => ['!']
  | false => []

/-- The characters of a type, without any white space. -/
def chars : TypeSyntax → List Char
  | .named name required => name.toList ++ mark required
  | .list item required => '[' :: item.chars ++ [']'] ++ mark required

/-- The text of a type. -/
def display (type : TypeSyntax) : String := String.ofList type.chars

/-- What may stand behind a type: an exclamation mark exactly if it is required, and white space. -/
inductive SpellsMark : Bool → List Char → Prop
  | nullable {after : List Char} (h : AllBlank after) : SpellsMark false after
  | required {between after : List Char} (h : AllBlank between) (h' : AllBlank after) :
      SpellsMark true (between ++ '!' :: after)

/-- **The texts of a type**: its tokens in their order, with white space around each of them. -/
inductive Spells : TypeSyntax → List Char → Prop
  | named {name : String} {required : Bool} {before after : List Char}
      (hname : TypeRef.isName name.toList = true) (hbefore : AllBlank before)
      (hafter : SpellsMark required after) :
      Spells (.named name required) (before ++ name.toList ++ after)
  | list {item : TypeSyntax} {required : Bool} {inside before after : List Char}
      (hitem : Spells item inside) (hbefore : AllBlank before) (hafter : SpellsMark required after) :
      Spells (.list item required) (before ++ ('[' :: inside ++ [']']) ++ after)

theorem spellsMark_mark (required : Bool) : SpellsMark required (mark required) := by
  cases required with
  | false => exact .nullable allBlank_nil
  | true => exact .required allBlank_nil allBlank_nil

theorem SpellsMark.filter_eq {required : Bool} {after : List Char} (h : SpellsMark required after) :
    (after.filter fun c => !isBlank c) = mark required := by
  cases h with
  | nullable h => exact h.filter_eq
  | required h h' => rw [List.filter_append, h.filter_eq, List.filter_cons, h'.filter_eq]; rfl

/-- The text without white space is one of the texts of a type. -/
theorem spells_chars {type : TypeSyntax} (h : type.IsWellNamed) : type.Spells type.chars := by
  induction type with
  | named name required => exact .named h allBlank_nil (spellsMark_mark required)
  | list item required ih =>
    exact .list (ih h) allBlank_nil (spellsMark_mark required)

/-- **All texts of a type are the same up to white space.** -/
theorem Spells.filter_eq {type : TypeSyntax} {cs : List Char} (h : type.Spells cs) :
    (cs.filter fun c => !isBlank c) = type.chars := by
  induction h with
  | @named name required before after hname hbefore hafter =>
    -- A name has no white space in it.
    have hsolid : (name.toList.filter fun c => !isBlank c) = name.toList := by
      refine List.filter_eq_self.mpr fun c hmem => ?_
      rw [(TypeRef.isNameChar_of_mem hname c hmem).solid]
      rfl
    rw [List.filter_append, List.filter_append, hbefore.filter_eq, hsolid, hafter.filter_eq]
    rfl
  | @list item required inside before after _ hbefore hafter ih =>
    -- Brackets are no white space, so they stay.
    have hopen : isBlank '[' = false := by decide
    have hclose : isBlank ']' = false := by decide
    rw [List.filter_append, List.filter_append, hbefore.filter_eq, hafter.filter_eq, List.cons_append,
      List.filter_cons, List.filter_append, ih, List.filter_cons, hopen, hclose]
    rfl

/-- The text of the wrappers around the name is the text of the type. -/
theorem layers_display (type : TypeSyntax) : type.layers.display type.typeName = type.display := by
  induction type with
  | named name required => cases required <;> simp [Wrapping.Layers.display, layers,
      Wrapping.Layers.bare, display, chars, mark, typeName]
  | list item required ih =>
    rw [Wrapping.Layers.display] at ih
    rw [Wrapping.Layers.display, layers, List.foldl_append, typeName, ih]
    cases required <;> apply String.toList_inj.mp <;> simp [display, chars, mark, Wrapping.closing]

theorem length_layers (type : TypeSyntax) : type.layers.lists.length = type.listDepth := by
  induction type with
  | named name required => rfl
  | list item required ih => rw [layers, listDepth, List.length_append, ih]; rfl

/-- Every name with wrappers around it can be written. The induction is on the lists, from the outermost
one on. -/
theorem exists_layers (name : String) (pair : Wrapping.Layers) :
    ∃ type : TypeSyntax, type.typeName = name ∧ type.layers = pair := by
  obtain ⟨inner, lists⟩ := pair
  induction lists using List.reverseRecOn with
  | nil => exact ⟨.named name inner, rfl, rfl⟩
  | append_singleton lists wrapper ih =>
    obtain ⟨item, hname, hlayers⟩ := ih
    refine ⟨.list item (wrapper == .required), hname, ?_⟩
    rw [layers, hlayers]
    cases wrapper <;> rfl

end TypeSyntax

namespace TypeRef

/-- The reference of a written type has its name, and its wrapping stands for its wrappers. -/
theorem represents_of_ofSyntax? {type : TypeSyntax} {ty : TypeRef} (h : ofSyntax? type = some ty) :
    ty.name = type.typeName ∧ ty.wrapping.Represents type.layers := by
  induction type generalizing ty with
  | named name required =>
    obtain rfl := Option.some.inj h
    exact ⟨rfl, .bare required⟩
  | list item required ih =>
    rw [ofSyntax?, Option.bind_eq_some_iff] at h
    obtain ⟨inner, hinner, h⟩ := h
    rw [wrapList?, Option.map_eq_some_iff] at h
    obtain ⟨wrapping, hpush, rfl⟩ := h
    obtain ⟨hname, hrepresents⟩ := ih hinner
    refine ⟨hname, ?_⟩
    -- There is room for one more list on both sides.
    have hpushed := hrepresents.pushList? (if required then .required else .nullable)
    rw [hpush, Wrapping.Layers.pushList?] at hpushed
    split at hpushed
    next => cases hpushed with | some h => exact h
    next => cases hpushed

/-- **The text of the reference is the text of the type.** -/
theorem display_of_ofSyntax? {type : TypeSyntax} {ty : TypeRef} (h : ofSyntax? type = some ty) :
    ty.display = type.display := by
  obtain ⟨hname, hrepresents⟩ := represents_of_ofSyntax? h
  rw [display, hrepresents.display_eq, hname, type.layers_display]

/-- **Every reference whose wrapping is built by its operations is that of a written type.** -/
theorem exists_ofSyntax? {ty : TypeRef} {pair : Wrapping.Layers} (h : ty.wrapping.Represents pair) :
    ∃ type : TypeSyntax, type.typeName = ty.name ∧ ofSyntax? type = some ty := by
  obtain ⟨type, hname, hlayers⟩ := TypeSyntax.exists_layers ty.name pair
  refine ⟨type, hname, ?_⟩
  -- A pair with room for its lists has a written type. It is not too deep, and has the same word.
  cases hbuild : ofSyntax? type with
  | none =>
    have hdeep := ofSyntax?_eq_none_iff.mp hbuild
    rw [← type.length_layers, hlayers] at hdeep
    exact absurd h.room (Nat.not_le.mpr hdeep)
  | some other =>
    obtain ⟨hother, hrepresents⟩ := represents_of_ofSyntax? hbuild
    have hwrapping : other.wrapping = ty.wrapping := (hlayers ▸ hrepresents).word_unique h
    have hnames : other.name = ty.name := hother.trans hname
    cases other
    cases ty
    subst hwrapping hnames
    rfl

end TypeRef

end GraphQL
