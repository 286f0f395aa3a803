import GraphQL.Document.Reader
import Mathlib.Data.List.Basic

/-!
# Documents of plain fields

Documents have literals inside selections inside selections, and no equality of them is decided. An
`Outline` is a decidable record of a document that is a single line with one operation: its kind, its
variables, one field and the fields selected inside it, all without label, arguments, directives and
defaults. `Document.outline?` takes the outline of a document that has this form, and the document is
recovered from it (`eq_of_outline?_eq_some`). To see that a text is such a document it is enough to
run the reader and to compare outlines (`parse_eq_of_outline?`).
-/

namespace GraphQL

/-- A name and the column where it is written. -/
abbrev Mark := String × Nat

/-- What a document says that selects one plain field. -/
structure Outline where
  type : OperationType
  /-- The variables that are declared. -/
  declared : List (Mark × TypeSyntax)
  field : Mark
  /-- The fields that are selected inside the field. -/
  inner : List Mark
deriving DecidableEq

namespace Outline

/-- The selection of a plain field. -/
def selection (mark : Mark) (inner : List Selection) : Selection :=
  .field ⟨none, mark.1, [], [], inner, ⟨1, mark.2⟩⟩

/-- The declaration of a variable without default. -/
def declaration (entry : Mark × TypeSyntax) : VariableDefinition :=
  ⟨entry.1.1, entry.2, [], none, ⟨1, entry.1.2⟩⟩

/-- The document of an outline. -/
def document (o : Outline) : Document :=
  ⟨.anonymous ⟨o.type, o.declared.map declaration, [],
    [selection o.field (o.inner.map (selection · []))], ⟨1, 1⟩⟩, []⟩

end Outline

/-- The mark of a plain field without sub-selections. -/
def Selection.mark? : Selection → Option Mark
  | .field ⟨none, name, [], [], [], ⟨1, column⟩⟩ => some (name, column)
  | _ => none

/-- The mark and the type of a variable without directives and default. -/
def VariableDefinition.mark? : VariableDefinition → Option (Mark × TypeSyntax)
  | ⟨name, type, [], none, ⟨1, column⟩⟩ => some ((name, column), type)
  | _ => none

/-- The outline of a document that has one. -/
def Document.outline? : Document → Option Outline
  | ⟨.anonymous ⟨type, declared, [], [.field ⟨none, name, [], [], inner, ⟨1, column⟩⟩], ⟨1, 1⟩⟩, []⟩ =>
      match declared.mapM VariableDefinition.mark?, inner.mapM Selection.mark? with
      | some entries, some marks => some ⟨type, entries, (name, column), marks⟩
      | _, _ => none
  | _ => none

theorem Selection.eq_of_mark?_eq_some {s : Selection} {mark : Mark} (h : s.mark? = some mark) :
    s = Outline.selection mark [] := by
  unfold Selection.mark? at h
  split at h
  · cases h
    rfl
  · cases h

theorem VariableDefinition.eq_of_mark?_eq_some {definition : VariableDefinition}
    {entry : Mark × TypeSyntax} (h : definition.mark? = some entry) :
    definition = Outline.declaration entry := by
  unfold VariableDefinition.mark? at h
  split at h
  · cases h
    rfl
  · cases h

/-- Where every item that has an image is recovered from it, so is a list. -/
theorem eq_map_of_mapM_eq_some {α β : Type} {f : α → Option β} {g : β → α}
    (hf : ∀ a b, f a = some b → a = g b) {as : List α} {bs : List β}
    (h : as.mapM f = some bs) : as = bs.map g := by
  induction as generalizing bs with
  | nil =>
    rw [List.mapM_nil] at h
    cases h
    rfl
  | cons a as ih =>
    simp only [List.mapM_cons, Option.bind_eq_bind, Option.bind_eq_some_iff, Option.pure_def,
      Option.some.injEq] at h
    -- The first item and the rest of the list have images of their own.
    obtain ⟨b, hb, bs, hbs, rfl⟩ := h
    rw [List.map_cons, ← hf a b hb, ← ih hbs]

namespace Document

/-- **A document that has an outline is the document of this outline.** -/
theorem eq_of_outline?_eq_some {document : Document} {outline : Outline}
    (h : document.outline? = some outline) : document = outline.document := by
  unfold outline? at h
  split at h
  -- Only documents with one anonymous operation have an outline at all.
  · split at h
    · rename_i hvariables hmarks
      cases h
      -- Its variables and its selections are recovered from what the outline says of them.
      rw [Outline.document,
        ← eq_map_of_mapM_eq_some (fun _ _ => VariableDefinition.eq_of_mark?_eq_some) hvariables,
        ← eq_map_of_mapM_eq_some (fun _ _ => Selection.eq_of_mark?_eq_some) hmarks,
        Outline.selection]
    · cases h
  · cases h

/-- A text of which the reader makes an outline is the document of this outline. -/
theorem parse_eq_of_outline? {text : String} (outline : Outline)
    (h : (parse text).toOption.bind outline? = some outline) : parse text = .ok outline.document := by
  obtain ⟨document, hparsed, houtline⟩ := Option.bind_eq_some_iff.mp h
  cases hread : parse text with
  | error error => rw [hread] at hparsed; cases hparsed
  | ok read =>
    rw [hread] at hparsed
    cases hparsed
    rw [eq_of_outline?_eq_some houtline]

end Document

end GraphQL
