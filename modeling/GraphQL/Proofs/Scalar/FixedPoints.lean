import GraphQL.Proofs.Scalar.Timestamps
import GraphQL.Scalar.Builtin

/-!
# Values that scalars keep

What a scalar gives out should come back as it is: given out again, and read from a variable or a literal.
Each scalar gives out values of one form, and keeps all values of that form. There is one exception: `Float`
gives truth values out as integers, and takes integers in as floats.

So the proof is in two parts for each scalar: the form of what is given out, and that values of this
form are kept by each of the three functions. The forms are integers in range, finite floats, texts,
truth values and timestamps in range.

* `ScalarType.IsFixed` — the values that a scalar keeps;
* `ScalarType.serializeInt_eq_ok_form`, … — the form of what a scalar gives out;
* `ScalarType.fixed_iff_not_float_of_bool` — what is given out is kept, unless it is a truth value as a
  `Float`.
-/

namespace GraphQL

namespace Number

theorem toInt32?_int {n : Int} (h : NumberText.isInt32 n = true) : (Number.int n).toInt32? = some n :=
  if_pos h

theorem isInt32_of_toInt32? {n : Number} {i : Int} (h : n.toInt32? = some i) :
    NumberText.isInt32 i = true := by
  cases n with
  | int n =>
    obtain ⟨hrange, h⟩ := Option.ite_none_right_eq_some.mp h
    rwa [← Option.some.inj h]
  | float f =>
    obtain ⟨parts, -, h⟩ := Option.bind_eq_some_iff.mp h
    obtain ⟨n, -, h⟩ := Option.bind_eq_some_iff.mp h
    obtain ⟨hrange, h⟩ := Option.ite_none_right_eq_some.mp h
    rwa [← Option.some.inj h]

theorem toFiniteFloat?_eq_some {n : Number} {f : Float} (h : n.toFiniteFloat? = some f) :
    f.isFinite = true ∧ f = n.toFloat := by
  obtain ⟨hfinite, h⟩ := Option.ite_none_right_eq_some.mp h
  obtain rfl := Option.some.inj h
  exact ⟨hfinite, rfl⟩

theorem toFiniteFloat?_float {f : Float} (h : f.isFinite = true) :
    (Number.float f).toFiniteFloat? = some f := if_pos h

end Number

namespace NumberText

theorem isInt32_of_int32? {text : String} {n : Int} (h : int32? text = some n) : isInt32 n = true := by
  obtain ⟨-, h⟩ := Option.ite_none_left_eq_some.mp h
  obtain ⟨hrange, h⟩ := Option.ite_none_right_eq_some.mp h
  rwa [← Option.some.inj h]

theorem isFinite_of_float? {text : String} {f : Float} (h : float? text = some f) :
    f.isFinite = true := by
  unfold float? at h
  obtain ⟨-, h⟩ := Option.ite_none_left_eq_some.mp h
  obtain ⟨exponent, -, h⟩ := Option.bind_eq_some_iff.mp h
  obtain ⟨hfinite, h⟩ := Option.ite_none_right_eq_some.mp h
  rwa [← Option.some.inj h]

end NumberText

namespace ScalarType

variable {value result : Value}

/-- A value that a scalar gives out as it is, and reads from variables and literals as it is. -/
structure IsFixed (scalar : ScalarType) (value : Value) : Prop where
  serialize : scalar.serialize value = .ok value
  parseValue : scalar.parseValue value = .ok value
  parseLiteral : scalar.parseLiteral value = .ok value

/-! ### The values that each scalar keeps -/

theorem isFixed_int {n : Int} (h : NumberText.isInt32 n = true) : int.IsFixed (.int n) := by
  have hparse : parseIntNumber (.int n) = .ok (.int n) := by rw [parseIntNumber, Number.toInt32?_int h]
  refine ⟨?_, hparse, hparse⟩
  change serializeInt (.number (.int n)) = _
  rw [serializeInt, Number.toInt32?_int h]
  rfl

theorem isFixed_float {f : Float} (h : f.isFinite = true) : float.IsFixed (.number (.float f)) := by
  have hparse : parseFloat (.number (.float f)) = .ok (.number (.float f)) := by
    rw [parseFloat, Number.toFiniteFloat?_float h]
  refine ⟨?_, hparse, hparse⟩
  change serializeFloat (.number (.float f)) = _
  rw [serializeFloat, Number.toFiniteFloat?_float h]
  rfl

theorem isFixed_string (s : String) : string.IsFixed (.string s) := ⟨rfl, rfl, rfl⟩

theorem isFixed_boolean (b : Bool) : boolean.IsFixed (.bool b) := ⟨rfl, rfl, rfl⟩

theorem isFixed_id (s : String) : id.IsFixed (.string s) := ⟨rfl, rfl, rfl⟩

theorem isFixed_timestamp {n : Int} (h : DateTime.isInRange n = true) : timestamp.IsFixed (.int n) := by
  have hparse : parseTimestamp (.int n) = .ok (.int n) := if_pos h
  refine ⟨?_, hparse, hparse⟩
  change serializeTimestamp (.int n) = _
  rw [serializeTimestamp, hparse]

/-! ### The values that each scalar gives out -/

theorem cannot_ne_ok {α : Type} {what : String} {a : α} : cannot what value ≠ .ok a := nofun

theorem orCannot_eq_ok {what : String} {converted : Option Value} :
    orCannot what value converted = .ok result ↔ converted = some result := by
  cases converted with
  | none => exact ⟨fun h => absurd h cannot_ne_ok, nofun⟩
  | some converted => simp [orCannot]

theorem serializeInt_eq_ok_form (h : serializeInt value = .ok result) :
    ∃ n, NumberText.isInt32 n = true ∧ result = .int n := by
  unfold serializeInt at h
  -- Only numbers, truth values and texts are serialized, each in a way of its own.
  split at h
  next n =>
    obtain ⟨i, hi, rfl⟩ := Option.map_eq_some_iff.mp (orCannot_eq_ok.mp h)
    exact ⟨i, Number.isInt32_of_toInt32? hi, rfl⟩
  next b => exact ⟨_, by cases b <;> rfl, (Except.ok.inj h).symm⟩
  next s =>
    split at h
    next i hi => exact ⟨i, NumberText.isInt32_of_int32? hi, (Except.ok.inj h).symm⟩
    next => cases h
  next => exact absurd h cannot_ne_ok

/-- A truth value is the one that `Float` does not give out as a float. -/
theorem serializeFloat_eq_ok_form (h : serializeFloat value = .ok result) :
    (∃ f : Float, f.isFinite = true ∧ (∀ b, value ≠ .bool b) ∧ result = .number (.float f)) ∨
      ∃ b : Bool, value = .bool b ∧ result = .int (if b then 1 else 0) := by
  unfold serializeFloat at h
  -- Numbers and texts give finite floats; a truth value gives an integer instead.
  split at h
  next n =>
    obtain ⟨f, hf, rfl⟩ := Option.map_eq_some_iff.mp (orCannot_eq_ok.mp h)
    exact .inl ⟨f, (Number.toFiniteFloat?_eq_some hf).1, nofun, rfl⟩
  next b => exact .inr ⟨b, rfl, (Except.ok.inj h).symm⟩
  next s =>
    split at h
    next f hf => exact .inl ⟨f, NumberText.isFinite_of_float? hf, nofun, (Except.ok.inj h).symm⟩
    next => cases h
  next => exact absurd h cannot_ne_ok

theorem serializeString_eq_ok_form (h : serializeString value = .ok result) :
    ∃ s, result = .string s := by
  unfold serializeString at h
  split at h
  case h_5 => exact absurd h cannot_ne_ok
  all_goals exact ⟨_, (Except.ok.inj h).symm⟩

theorem serializeBoolean_eq_ok_form (h : serializeBoolean value = .ok result) :
    ∃ b, result = .bool b := by
  unfold serializeBoolean at h
  split at h
  case h_3 => exact absurd h cannot_ne_ok
  all_goals exact ⟨_, (Except.ok.inj h).symm⟩

theorem serializeId_eq_ok_form (h : serializeId value = .ok result) : ∃ s, result = .string s := by
  unfold serializeId at h
  split at h
  case h_3 => exact absurd h cannot_ne_ok
  all_goals exact ⟨_, (Except.ok.inj h).symm⟩

theorem serializeTimestamp_eq_ok_form (h : serializeTimestamp value = .ok result) :
    ∃ n, DateTime.isInRange n = true ∧ result = .int n := by
  unfold serializeTimestamp at h
  split at h
  -- What is serialized is what is parsed, and that is a number in the range.
  next parsed hparsed =>
    obtain rfl := Except.ok.inj h
    unfold parseTimestamp at hparsed
    split at hparsed
    next n =>
      split at hparsed
      next hrange => exact ⟨n, hrange, (Except.ok.inj hparsed).symm⟩
      next => cases hparsed
    next => cases hparsed
    next s =>
      split at hparsed
      next n hn => exact ⟨n, DateTime.isInRange_of_parse hn, (Except.ok.inj hparsed).symm⟩
      next => cases hparsed
    next => cases hparsed
  next => exact absurd h cannot_ne_ok

/-! ### What is given out and taken in -/

/-- `Float` keeps no integer. -/
theorem not_isFixed_float_int (n : Int) : ¬float.IsFixed (.int n) := by
  intro h
  have hserialize : serializeFloat (.int n) = .ok (.int n) := h.serialize
  rcases serializeFloat_eq_ok_form hserialize with ⟨f, -, -, hresult⟩ | ⟨b, hvalue, -⟩
  · exact absurd hresult nofun
  · exact absurd hvalue nofun

/-- **What a scalar gives out is kept**, by each of the scalars that engines have or may ask for but `JSON`,
which keeps everything: it is given out again as it is, and it is read from a variable and from a literal as
it is. The one exception are the truth values that `Float` gives out. -/
theorem fixed_iff_not_float_of_bool {scalar : ScalarType} (hscalar : scalar ∈ builtins ++ [timestamp])
    (h : scalar.serialize value = .ok result) :
    scalar.IsFixed result ↔ ¬(scalar.name = "Float" ∧ ∃ b, value = .bool b) := by
  have other {scalar : ScalarType} (hname : scalar.name ≠ "Float") (hfixed : scalar.IsFixed result) :
      scalar.IsFixed result ↔ ¬(scalar.name = "Float" ∧ ∃ b, value = .bool b) :=
    iff_of_true hfixed fun hfloat => hname hfloat.1
  -- Each scalar gives out values of one form only, and keeps all values of that form.
  simp only [builtins, List.cons_append, List.nil_append, List.mem_cons, List.not_mem_nil, or_false]
    at hscalar
  rcases hscalar with rfl | rfl | rfl | rfl | rfl | rfl
  · obtain ⟨n, hrange, rfl⟩ := serializeInt_eq_ok_form h
    exact other (by decide) (isFixed_int hrange)
  · rcases serializeFloat_eq_ok_form h with ⟨f, hfinite, hvalue, rfl⟩ | ⟨b, rfl, rfl⟩
    · exact iff_of_true (isFixed_float hfinite) fun ⟨_, b, hbool⟩ => hvalue b hbool
    · exact iff_of_false (not_isFixed_float_int _) fun hnot => hnot ⟨rfl, b, rfl⟩
  · obtain ⟨s, rfl⟩ := serializeString_eq_ok_form h
    exact other (by decide) (isFixed_string s)
  · obtain ⟨b, rfl⟩ := serializeBoolean_eq_ok_form h
    exact other (by decide) (isFixed_boolean b)
  · obtain ⟨s, rfl⟩ := serializeId_eq_ok_form h
    exact other (by decide) (isFixed_id s)
  · obtain ⟨n, hrange, rfl⟩ := serializeTimestamp_eq_ok_form h
    exact other (by decide) (isFixed_timestamp hrange)

/-- A number in a string that `Int` gives out, and a truth value that `Float` gives out. -/
theorem fixed_iff_not_float_of_bool_sample :
    int.IsFixed (.int 7) ∧ ¬float.IsFixed (.int 1) := by
  have hint : int.serialize (.string "7") = .ok (.int 7) := by
    change serializeInt (.string "7") = _
    rw [serializeInt, show NumberText.int32? "7" = some 7 by decide]
  have hfloat : float.serialize (.bool true) = .ok (.int 1) := rfl
  exact ⟨(fixed_iff_not_float_of_bool (by simp [builtins]) hint).mpr fun h => absurd h.1 (by decide),
    fun h => (fixed_iff_not_float_of_bool (by simp [builtins]) hfloat).mp h ⟨rfl, true, rfl⟩⟩

/-- What `Float` gives out for a truth value is an integer, which `Float` gives out and takes in as a
float. -/
theorem float_of_bool_not_fixed :
    float.serialize (.bool true) = .ok (.int 1) ∧ ¬float.IsFixed (.int 1) ∧
      float.serialize (.int 1) = .ok (.number (.float (Float.ofInt 1))) ∧
      float.parseValue (.int 1) = .ok (.number (.float (Float.ofInt 1))) ∧
      float.parseLiteral (.int 1) = .ok (.number (.float (Float.ofInt 1))) := by
  have hfinite : (Number.int 1).toFiniteFloat? = some (Float.ofInt 1) := if_pos (by decide)
  have hparse : parseFloat (.int 1) = .ok (.number (.float (Float.ofInt 1))) := by
    change parseFloat (.number (.int 1)) = _
    rw [parseFloat, hfinite]
  refine ⟨rfl, not_isFixed_float_int 1, ?_, hparse, hparse⟩
  change serializeFloat (.number (.int 1)) = _
  rw [serializeFloat, hfinite]
  rfl

end ScalarType

end GraphQL
