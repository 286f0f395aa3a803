import GraphQL.Document.Grammar
import GraphQL.Proofs.TypeRef.Spelling

/-!
# Names in documents

What a reader gives when it succeeds. Readers are put together from smaller ones, and so is what can be
said of their results; here that is used for the names of types.

* `Parser.Yields` — a property of all results of a reader, with one rule for each way to combine readers;
* `Grammar.yields_type` — the name inside the lists of a type is a name.
-/

namespace GraphQL

namespace Parser

variable {α β : Type} {P : α → Prop} {Q : β → Prop} {p q : Parser α}

/-- All results of a reader have a property. -/
def Yields (p : Parser α) (P : α → Prop) : Prop :=
  ∀ cursor result rest, p.run cursor = some (result, rest) → P result

theorem Yields.pure {result : α} (h : P result) : Yields (pure result) P := by
  intro cursor found rest hrun
  obtain ⟨rfl, -⟩ : result = found ∧ cursor = rest := by simpa using hrun
  exact h

theorem Yields.failure : Yields failure P := by
  intro cursor result rest hrun
  cases hrun

theorem Yields.bind {next : α → Parser β} (h : Yields p P) (hnext : ∀ a, P a → Yields (next a) Q) :
    Yields (p >>= next) Q := by
  intro cursor result rest hrun
  rw [StateT.run_bind, Option.bind_eq_bind, Option.bind_eq_some_iff] at hrun
  obtain ⟨⟨found, cursor'⟩, hfound, hrun⟩ := hrun
  exact hnext found (h cursor found cursor' hfound) cursor' result rest hrun

/-- What comes before does not matter if it is not used. -/
theorem Yields.after {r : Parser β} (h : Yields p P) : Yields (r >>= fun _ => p) P :=
  Yields.bind (P := fun _ => True) (fun _ _ _ _ => trivial) fun _ _ => h

theorem Yields.map {f : α → β} (h : Yields p P) (hf : ∀ a, P a → Q (f a)) : Yields (f <$> p) Q := by
  rw [map_eq_pure_bind]
  exact h.bind fun a ha => .pure (hf a ha)

theorem Yields.orElse (h : Yields p P) (h' : Yields q P) : Yields (p <|> q) P := by
  intro cursor result rest hrun
  have hchoice : (p.run cursor <|> q.run cursor) = some (result, rest) := hrun
  cases hfirst : p.run cursor with
  | some found =>
    rw [hfirst] at hchoice
    exact h cursor result rest (hfirst.trans hchoice)
  | none =>
    rw [hfirst] at hchoice
    exact h' cursor result rest hchoice

theorem yields_charIf (p : Char → Bool) : Yields (charIf p) fun c => p c = true := by
  refine Yields.bind (P := fun _ => True) (fun _ _ _ _ => trivial) fun cursor _ => ?_
  split
  · split
    next hc => exact .after (.pure hc)
    next => exact .failure
  · exact .failure

theorem yields_takeWhile (p : Char → Bool) : Yields (takeWhile p) fun cs => cs.all p = true := by
  refine Yields.bind (P := fun _ => True) (fun _ _ _ _ => trivial) fun cursor _ => ?_
  exact .after (.pure List.all_takeWhile)

end Parser

namespace Grammar

open GraphQL.Parser

/-- A name is one for types as well. -/
theorem yields_name : Yields name fun name => TypeRef.isName name.toList = true := by
  refine (yields_charIf isNameStart).bind fun first hfirst => ?_
  refine (yields_takeWhile isNameChar).bind fun rest hrest => .pure ?_
  rw [String.toList_ofList, TypeRef.isName, Bool.and_eq_true]
  exact ⟨hfirst, hrest⟩

/-- **The types of documents have names.** The induction is on how deep the lists may nest. -/
theorem yields_type (fuel : Nat) : Yields (type fuel) TypeSyntax.IsWellNamed := by
  induction fuel with
  | zero => exact .failure
  | succ fuel ih =>
    -- The type before its mark is a name, or a list of a type with less fuel.
    have hbare : Yields ((TypeSyntax.named <$> name) <|> (do
        char '['
        let item ← type fuel
        char ']'
        return TypeSyntax.list item)) fun bare => ∀ required, (bare required).IsWellNamed := by
      refine .orElse (yields_name.map fun name hname _ => hname) ?_
      exact .after (ih.bind fun item hitem => .after (.pure fun _ => hitem))
    exact hbare.bind fun bare hwellNamed =>
      Yields.bind (P := fun _ => True) (fun _ _ _ _ => trivial) fun _ _ => .pure (hwellNamed _)

end Grammar

end GraphQL
