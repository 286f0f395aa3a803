import GraphQL.Proofs.Entries
import GraphQL.Value.Basic
import Mathlib.Data.List.Perm.Subperm

/-!
# The equality of constant values

`Value.same` takes an enum for a string, the two zeros for one number, and objects with the same entries in
another order for one object. It is an equality all the same, on values as the engine has them: their
floats are finite, and every key of an object occurs once.

Lists are compared item by item, so for them the laws follow from those of their items. Objects are
compared by looking up each key of the first one in the second one: that this goes both ways rests
on the number of entries being the same and keys being distinct.

* `Value.IsWellFormed` — values as the engine has them;
* `Value.same_self`, `Value.IsWellFormed.same_symm`, `Value.IsWellFormed.same_trans` — the three laws. Only
  one value has to be known to be well formed: the others are, as far as equality sees.
-/

namespace GraphQL

/-! ### Numbers -/

/-- Exponents and mantissas compare as equal if they are the same. -/
theorem then_compare_eq_iff (m n : Nat) (e f : Int) :
    (compare e f).then (compare m n) = .eq ↔ e = f ∧ m = n := by
  rw [Ordering.then_eq_eq, Int.compare_eq_eq, Nat.compare_eq_eq]

open Float.Model in
/-- All but a failed computation is equal to itself. -/
theorem unpacked_compare_self {a : UnpackedFloat} (h : a ≠ .notANumber) : a.compare a = some .eq := by
  cases a with
  | notANumber => exact absurd rfl h
  | infinity s => cases s <;> rfl
  | zero s => rfl
  | finite s m e hm =>
    have hplace := (then_compare_eq_iff m m e e).mpr ⟨rfl, rfl⟩
    cases s
    · exact congrArg (fun place : Ordering => some place.swap) hplace
    · exact congrArg some hplace

open Float.Model in
/-- Floats are equal if both are zeros, or if they are the same and not a failed computation.
Infinities and zeros are told by their kind and sign; finite numbers are compared by sign, exponent
and mantissa, so equal ones agree in all three. -/
theorem unpacked_compare_eq_iff {a b : UnpackedFloat} : a.compare b = some .eq ↔
    (∃ s t, a = .zero s ∧ b = .zero t) ∨ (a = b ∧ a ≠ .notANumber) := by
  constructor
  · intro h
    cases a with
    -- Infinities are equal if their signs are, zeros always are, and finite numbers are compared in
    -- full.
    | notANumber => cases b <;> cases h
    | infinity s =>
      cases b with
      | infinity t => cases s <;> cases t <;> first | exact .inr ⟨rfl, nofun⟩ | cases h
      | _ => cases s <;> cases h
    | zero s =>
      cases b with
      | zero t => exact .inl ⟨s, t, rfl, rfl⟩
      | infinity t => cases t <;> cases h
      | finite t => cases t <;> cases h
      | notANumber => cases h
    | finite s m e hm =>
      cases b with
      | finite t n f hn =>
        -- Negative numbers compare the other way, and unlike signs decide at once.
        have hplace : s = t ∧ (compare e f).then (compare m n) = .eq := by
          cases s <;> cases t
          · exact ⟨rfl, Ordering.swap_eq_eq.mp (Option.some.inj h)⟩
          · cases h
          · cases h
          · exact ⟨rfl, Option.some.inj h⟩
        obtain ⟨rfl, hplace⟩ := hplace
        obtain ⟨rfl, rfl⟩ := (then_compare_eq_iff m n e f).mp hplace
        exact .inr ⟨rfl, nofun⟩
      | infinity t => cases t <;> cases h
      | _ => cases s <;> cases h
  · rintro (⟨s, t, rfl, rfl⟩ | ⟨rfl, hnumber⟩)
    · rfl
    · exact unpacked_compare_self hnumber

theorem float_beq_iff {f g : Float} : (f == g) = true ↔
    (∃ s t, f.toModel.unpack = .zero s ∧ g.toModel.unpack = .zero t) ∨
      (f.toModel.unpack = g.toModel.unpack ∧ f.toModel.unpack ≠ .notANumber) := by
  rw [← unpacked_compare_eq_iff]
  change (f.toModel.unpack.compare g.toModel.unpack == some .eq) = true ↔ _
  rw [beq_iff_eq]

namespace Number

variable {a b c : Number}

theorem same_self (h : a.isFinite = true) : same a a = true := by
  cases a with
  | int n => exact beq_self_eq_true n
  | float f =>
    have hnumber : f.toModel.unpack ≠ .notANumber := by
      intro hnot
      have hfinite : f.toModel.unpack.isFinite = true := h
      rw [hnot] at hfinite
      exact Bool.false_ne_true hfinite
    exact float_beq_iff.mpr (.inr ⟨rfl, hnumber⟩)

theorem same_symm (h : same a b = true) : same b a = true := by
  cases a <;> cases b
  case int.int m n => exact beq_iff_eq.mpr (beq_iff_eq.mp h).symm
  case float.float f g =>
    refine float_beq_iff.mpr ((float_beq_iff.mp h).imp ?_ ?_)
    · exact fun ⟨s, t, hf, hg⟩ => ⟨t, s, hg, hf⟩
    · exact fun ⟨heq, hnumber⟩ => ⟨heq.symm, heq ▸ hnumber⟩
  all_goals cases h

theorem same_trans (h : same a b = true) (h' : same b c = true) : same a c = true := by
  cases a <;> cases b <;> cases c
  -- Unlike forms are never equal, so only two cases are left.
  case int.int.int m n k => exact beq_iff_eq.mpr ((beq_iff_eq.mp h).trans (beq_iff_eq.mp h'))
  case float.float.float f g k =>
    refine float_beq_iff.mpr ?_
    -- The number in the middle is a zero on both sides, or the same as one of the others.
    rcases float_beq_iff.mp h with ⟨s, t, hf, hg⟩ | ⟨heq, hnumber⟩ <;>
      rcases float_beq_iff.mp h' with ⟨s', t', hg', hk⟩ | ⟨heq', hnumber'⟩
    · exact .inl ⟨s, t', hf, hk⟩
    · exact .inl ⟨s, t, hf, heq' ▸ hg⟩
    · exact .inl ⟨s', t', heq ▸ hg', hk⟩
    · exact .inr ⟨heq.trans heq', hnumber⟩
  all_goals first | cases h | cases h'

end Number

/-! ### Values -/

namespace Value

/-- Values as the engine has them: floats are finite, and every key of an object occurs once. -/
inductive IsWellFormed : Value → Prop
  | null : IsWellFormed .null
  | bool (b : Bool) : IsWellFormed (.bool b)
  | number {n : Number} (h : n.isFinite = true) : IsWellFormed (.number n)
  | string (s : String) : IsWellFormed (.string s)
  | enum (name : String) : IsWellFormed (.enum name)
  | binary (bytes : List UInt8) : IsWellFormed (.binary bytes)
  | list {items : List Value} (h : ∀ item ∈ items, IsWellFormed item) : IsWellFormed (.list items)
  | object {entries : List (String × Value)} (hkeys : (Entries.keys entries).Nodup)
      (h : ∀ entry ∈ entries, IsWellFormed entry.2) : IsWellFormed (.object entries)

variable {a b c : Value} {as bs cs : List Value} {xs ys zs : List (String × Value)}

theorem sameItems_iff : sameItems as bs = true ↔ List.Forall₂ (fun a b => same a b = true) as bs := by
  induction as generalizing bs with
  | nil => cases bs <;> simp [sameItems]
  | cons a as ih => cases bs <;> simp [sameItems, ih]

theorem sameEntries_iff : sameEntries xs ys = true ↔
    ∀ entry ∈ xs, ∃ b, Entries.get? ys entry.1 = some b ∧ same entry.2 b = true := by
  induction xs with
  | nil => simp [sameEntries]
  | cons entry xs ih =>
    obtain ⟨key, a⟩ := entry
    rw [sameEntries, Bool.and_eq_true, ih, List.forall_mem_cons]
    refine and_congr_left' ?_
    cases Entries.get? ys key <;> simp

theorem same_object_iff : same (.object xs) (.object ys) = true ↔ xs.length = ys.length ∧
    ∀ entry ∈ xs, ∃ b, Entries.get? ys entry.1 = some b ∧ same entry.2 b = true := by
  rw [same, Bool.and_eq_true, beq_iff_eq, sameEntries_iff]

/-- **A well-formed value equals itself.** -/
theorem same_self (h : a.IsWellFormed) : same a a = true := by
  induction h with
  | null => rw [same]
  | number h => exact Number.same_self h
  | bool _ | string _ | enum _ | binary _ => rw [same, beq_self_eq_true]
  | list _ ih => exact sameItems_iff.mpr (List.forall₂_same.mpr ih)
  | object hkeys _ ih =>
    refine same_object_iff.mpr ⟨rfl, fun entry hmem => ⟨entry.2, ?_, ih entry hmem⟩⟩
    exact Entries.get?_of_mem hkeys hmem

/-- Objects that are equal have the same keys. -/
theorem keys_perm_of_same_object (hkeys : (Entries.keys xs).Nodup)
    (h : same (.object xs) (.object ys) = true) : (Entries.keys xs).Perm (Entries.keys ys) := by
  obtain ⟨hlength, hentries⟩ := same_object_iff.mp h
  have hsubset : Entries.keys xs ⊆ Entries.keys ys := by
    intro key hkey
    obtain ⟨entry, hmem, rfl⟩ := List.mem_map.mp hkey
    obtain ⟨b, hb, -⟩ := hentries entry hmem
    exact (Entries.get?_isSome_iff_mem_keys ys entry.1).mp (by rw [hb]; rfl)
  -- Equally many keys, so the first object cannot leave one out.
  refine (hkeys.subperm hsubset).perm_of_length_le (Nat.le_of_eq ?_)
  rw [Entries.keys, Entries.keys, List.length_map, List.length_map, hlength]

theorem exists_of_same_number {n : Number} (h : same (.number n) b = true) :
    ∃ m, b = .number m ∧ Number.same n m = true := by
  cases b <;> first | exact ⟨_, rfl, h⟩ | cases h

theorem exists_of_same_list (h : same (.list as) b = true) :
    ∃ bs, b = .list bs ∧ List.Forall₂ (fun a b => same a b = true) as bs := by
  cases b <;> first | exact ⟨_, rfl, sameItems_iff.mp h⟩ | cases h

theorem exists_of_list_same (h : same a (.list bs) = true) :
    ∃ as, a = .list as ∧ List.Forall₂ (fun a b => same a b = true) as bs := by
  cases a <;> first | exact ⟨_, rfl, sameItems_iff.mp h⟩ | cases h

theorem exists_of_same_object (h : same (.object xs) b = true) :
    ∃ ys, b = .object ys ∧ same (.object xs) (.object ys) = true := by
  cases b <;> first | exact ⟨_, rfl, h⟩ | cases h

/-- An enum is equal to itself and to the string of its name. -/
theorem eq_of_same_enum {name : String} (h : same a (.enum name) = true) :
    a = .enum name ∨ a = .string name := by
  cases a with
  | enum other => exact .inl (congrArg enum (beq_iff_eq.mp h))
  | string other => exact .inr (congrArg string (beq_iff_eq.mp h))
  | _ => cases h

/-- **Equality goes both ways.** The induction is on the first value. For objects it takes that keys
are distinct: the entries of the first one are found in the second, which is not larger, so they are
all there are. -/
theorem IsWellFormed.same_symm (ha : a.IsWellFormed) (h : same a b = true) : same b a = true := by
  induction ha generalizing b with
  | null => cases b <;> first | rfl | cases h
  | bool _ | string _ | enum _ | binary _ =>
    cases b <;> first
      | exact beq_iff_eq.mpr (beq_iff_eq.mp h).symm
      | cases h
  | number _ =>
    obtain ⟨m, rfl, h⟩ := exists_of_same_number h
    exact Number.same_symm h
  -- Lists are compared item by item.
  | list _ ih =>
    obtain ⟨bs, rfl, hforall⟩ := exists_of_same_list h
    obtain ⟨hlength, hitems⟩ := List.forall₂_iff_get.mp hforall
    refine sameItems_iff.mpr (List.forall₂_iff_get.mpr ⟨hlength.symm, fun i hi hi' => ?_⟩)
    exact ih _ (List.get_mem _ _) (hitems i hi' hi)
  | object hkeys _ ih =>
    -- Objects have the same number of entries, and each entry has an equal one under its key.
    obtain ⟨ys, rfl, h⟩ := exists_of_same_object h
    obtain ⟨hlength, hentries⟩ := same_object_iff.mp h
    have hperm := keys_perm_of_same_object hkeys h
    refine same_object_iff.mpr ⟨hlength.symm, fun entry hmem => ?_⟩
    -- The key of the entry is one of the first object, whose entry equals this one.
    have hkey := hperm.mem_iff.mpr (List.mem_map_of_mem hmem)
    obtain ⟨other, hother, hname⟩ := List.mem_map.mp hkey
    obtain ⟨b, hb, hsame⟩ := hentries other hother
    rw [hname, Entries.get?_of_mem (hperm.nodup_iff.mp hkeys) hmem] at hb
    obtain rfl := Option.some.inj hb
    exact ⟨other.2, hname ▸ Entries.get?_of_mem hkeys hother, ih other hother hsame⟩

/-- **What equals the same is equal.** The induction is on the first value; the item or entry in the
middle is found at the same index or under the same key. -/
theorem IsWellFormed.same_trans (ha : a.IsWellFormed) (h : same a b = true) (h' : same b c = true) :
    same a c = true := by
  induction ha generalizing b c with
  | null => cases b <;> first | exact h' | cases h
  | bool _ | string _ | enum _ | binary _ =>
    cases b <;> cases c <;> first
      | exact beq_iff_eq.mpr ((beq_iff_eq.mp h).trans (beq_iff_eq.mp h'))
      | cases h
      | cases h'
  | number _ =>
    obtain ⟨m, rfl, h⟩ := exists_of_same_number h
    obtain ⟨k, rfl, h'⟩ := exists_of_same_number h'
    exact Number.same_trans h h'
  | list _ ih =>
    obtain ⟨bs, rfl, hforall⟩ := exists_of_same_list h
    obtain ⟨cs, rfl, hforall'⟩ := exists_of_same_list h'
    obtain ⟨hlength, hitems⟩ := List.forall₂_iff_get.mp hforall
    obtain ⟨hlength', hitems'⟩ := List.forall₂_iff_get.mp hforall'
    -- The item in the middle has the same index.
    refine sameItems_iff.mpr (List.forall₂_iff_get.mpr ⟨hlength.trans hlength', fun i hi hi' => ?_⟩)
    have hmiddle : i < bs.length := hlength ▸ hi
    exact ih _ (List.get_mem _ _) (hitems i hi hmiddle) (hitems' i hmiddle hi')
  | object hkeys _ ih =>
    obtain ⟨ys, rfl, h⟩ := exists_of_same_object h
    obtain ⟨zs, rfl, h'⟩ := exists_of_same_object h'
    obtain ⟨hlength, hentries⟩ := same_object_iff.mp h
    obtain ⟨hlength', hentries'⟩ := same_object_iff.mp h'
    refine same_object_iff.mpr ⟨hlength.trans hlength', fun entry hmem => ?_⟩
    -- The entry in the middle is found under the same key.
    obtain ⟨b, hb, hab⟩ := hentries entry hmem
    obtain ⟨c, hc, hbc⟩ := hentries' _ (Entries.get?_mem hb)
    exact ⟨c, hc, ih entry hmem hab hbc⟩

end Value

end GraphQL
