import GraphQL.Proofs.Schema.Finish
import GraphQL.Scalar.DateTime
import Mathlib.Algebra.GroupWithZero.Nat

/-!
# Dates and times that are read

A date and time that is read has four digits for its year, a day that the calendar has, and a time and
an offset within a day. So the instant it stands for is far within the range of timestamps.

The bounds are those of the digits: a month and a day are looked up in the calendar, a fraction has
nine digits that count, and an offset is less than a day. So their sum stays within what timestamps
can have.

* `DateTime.exists_parts_of_parse` — what a date and time that is read is made of;
* `DateTime.isInRange_of_parse` — its instant is in the range of timestamps.
-/

namespace GraphQL

section

variable {β ε : Type} {c : Prop} [Decidable c] {error : ε} {next : PUnit → Except ε β} {result : β}

/-- What goes on behind a check that refuses. -/
theorem refuse_eq_ok : (if c then throw error >>= next else next ()) = .ok result ↔
    ¬c ∧ next () = .ok result := by
  by_cases h : c <;> simp [h, bind, Except.bind, throw, throwThe, MonadExceptOf.throw]

/-- What goes on behind a check that demands. -/
theorem demand_eq_ok : (if c then next () else throw error >>= next) = .ok result ↔
    c ∧ next () = .ok result := by
  by_cases h : c <;> simp [h, bind, Except.bind, throw, throwThe, MonadExceptOf.throw]

end

namespace DateTime

/-- The parts of a date and time, the fraction of its second in nanoseconds and its offset in
seconds. -/
structure Parts where
  year : Nat
  month : Nat
  day : Nat
  hour : Nat
  minute : Nat
  second : Nat
  nanos : Nat
  offset : Int

namespace Parts

/-- The instant, in milliseconds. -/
def millis (p : Parts) : Int :=
  1000 * (86400 * daysFromEpoch p.year p.month p.day +
    (3600 * p.hour + 60 * p.minute + p.second : Nat) - p.offset) + (p.nanos / 1000000 : Nat)

/-- The parts are those of a day of the calendar and of a time of the day. -/
structure IsValid (p : Parts) : Prop where
  year : p.year < 10000
  date : isDate p.year p.month p.day = true
  hour : p.hour ≤ 23
  minute : p.minute ≤ 59
  second : p.second ≤ 60
  nanos : p.nanos < 1000000000
  offset : p.offset.natAbs < 86400

end Parts

/-! ### Numbers of digits -/

theorem le_nine_of_digit? {byte : UInt8} {d : Nat} (h : digit? byte = some d) : d ≤ 9 := by
  rw [digit?] at h
  split at h
  next hrange =>
    obtain rfl := Option.some.inj h
    have hzero : '0'.toNat = 48 := rfl
    have hnine : '9'.toNat = 57 := rfl
    omega
  next => cases h

/-- Another digit behind a number that so many digits may follow. -/
theorem append_digit_le {n d count : Nat} (h : d ≤ 9) :
    (10 * n + d + 1) * 10 ^ count ≤ (n + 1) * 10 ^ (count + 1) := by
  rw [Nat.pow_succ', ← Nat.mul_assoc]
  exact Nat.mul_le_mul_right _ (by omega)

/-- Digits that are taken make a number of at most as many digits. -/
theorem digits_lt {count n value : Nat} {bytes rest : List UInt8}
    (h : digits count n bytes = .ok (value, rest)) : value < (n + 1) * 10 ^ count := by
  induction count generalizing n bytes with
  | zero =>
    obtain ⟨rfl, -⟩ := Prod.mk.inj (Except.ok.inj h)
    omega
  | succ count ih =>
    -- One digit more makes the number at most ten times as large, and nine.
    cases bytes with
    | nil => cases h
    | cons byte bytes =>
      rw [digits] at h
      cases hdigit : digit? byte with
      | none => rw [hdigit] at h; cases h
      | some d =>
        rw [hdigit] at h
        exact Nat.lt_of_lt_of_le (ih h) (append_digit_le (le_nine_of_digit? hdigit))

theorem foldl_digits_lt {ds : List Nat} (h : ∀ d ∈ ds, d ≤ 9) (n : Nat) :
    ds.foldl (fun n d => 10 * n + d) n < (n + 1) * 10 ^ ds.length := by
  induction ds generalizing n with
  | nil => simp
  | cons d ds ih =>
    rw [List.forall_mem_cons] at h
    exact Nat.lt_of_lt_of_le (ih h.2 _) (append_digit_le h.1)

/-- A fraction is less than a second. However many digits are written, nine of them count, with
zeros in place of those that are missing, and a number of nine digits is less than ten to the ninth.
-/
theorem fraction_lt {bytes rest : List UInt8} {nanos : Nat} (h : fraction bytes = .ok (nanos, rest)) :
    nanos < 1000000000 := by
  -- Nine digits count, with zeros in place of those that are not written.
  have hfold : ∀ ds : List UInt8, (((ds.filterMap digit? ++ List.replicate 9 0).take 9).foldl
      (fun n d => 10 * n + d) 0) < 1000000000 := by
    intro ds
    -- A digit is at most nine, and so is a zero that stands for one.
    have hdigits : ∀ d ∈ (ds.filterMap digit? ++ List.replicate 9 0).take 9, d ≤ 9 := by
      intro d hd
      rcases List.mem_append.mp (List.mem_of_mem_take hd) with hd | hd
      · obtain ⟨byte, -, hbyte⟩ := List.mem_filterMap.mp hd
        exact le_nine_of_digit? hbyte
      · rw [List.eq_of_mem_replicate hd]
        omega
    have hlength : ((ds.filterMap digit? ++ List.replicate 9 0).take 9).length = 9 := by simp
    have hlt := foldl_digits_lt hdigits 0
    rw [hlength] at hlt
    exact hlt
  cases bytes with
  | nil => obtain ⟨rfl, -⟩ := Prod.mk.inj (Except.ok.inj h); omega
  | cons byte bytes =>
    rw [fraction] at h
    split at h
    next =>
      -- Without any digit the fraction is malformed.
      dsimp only at h
      split at h
      next => cases h
      next => cases h
      next =>
        obtain ⟨rfl, -⟩ := Prod.mk.inj (Except.ok.inj h)
        exact hfold _
    next => obtain ⟨rfl, -⟩ := Prod.mk.inj (Except.ok.inj h); omega

/-- **What a date and time that is read is made of.** -/
theorem exists_parts_of_parse {text : String} {n : Int} (h : parse text = .ok n) :
    ∃ p : Parts, p.IsValid ∧ n = p.millis := by
  unfold parse at h
  obtain ⟨-, h⟩ := refuse_eq_ok.mp h
  -- The readers and the checks between them, from the left to the right.
  obtain ⟨⟨year, bytes⟩, hyear, h⟩ := bind_eq_ok.mp h
  obtain ⟨bytes, -, h⟩ := bind_eq_ok.mp h
  obtain ⟨⟨month, bytes⟩, -, h⟩ := bind_eq_ok.mp h
  obtain ⟨bytes, -, h⟩ := bind_eq_ok.mp h
  obtain ⟨⟨day, bytes⟩, -, h⟩ := bind_eq_ok.mp h
  obtain ⟨hdate, h⟩ := demand_eq_ok.mp h
  obtain ⟨bytes, -, h⟩ := bind_eq_ok.mp h
  obtain ⟨⟨hour, bytes⟩, -, h⟩ := bind_eq_ok.mp h
  obtain ⟨bytes, -, h⟩ := bind_eq_ok.mp h
  obtain ⟨⟨minute, bytes⟩, -, h⟩ := bind_eq_ok.mp h
  obtain ⟨bytes, -, h⟩ := bind_eq_ok.mp h
  obtain ⟨⟨second, bytes⟩, -, h⟩ := bind_eq_ok.mp h
  obtain ⟨⟨nanos, bytes⟩, hnanos, h⟩ := bind_eq_ok.mp h
  obtain ⟨htime, h⟩ := refuse_eq_ok.mp h
  obtain ⟨⟨offset, bytes⟩, -, h⟩ := bind_eq_ok.mp h
  obtain ⟨-, h⟩ := demand_eq_ok.mp h
  obtain ⟨hoffset, h⟩ := refuse_eq_ok.mp h
  obtain ⟨hhour, hminute, hsecond⟩ : hour ≤ 23 ∧ minute ≤ 59 ∧ second ≤ 60 := by omega
  exact ⟨⟨year, month, day, hour, minute, second, nanos, offset⟩,
    ⟨digits_lt hyear, hdate, hhour, hminute, hsecond, fraction_lt hnanos, Nat.not_le.mp hoffset⟩,
    (Except.ok.inj h).symm⟩

/-! ### The calendar -/

theorem daysInMonth_le (year month : Nat) : daysInMonth year month ≤ 31 := by
  rw [daysInMonth]
  grind

theorem daysOfMonths_le (year months : Nat) : daysOfMonths year months ≤ 31 * months := by
  induction months with
  | zero => exact Nat.le_refl 0
  | succ months ih =>
    have := daysInMonth_le year (months + 1)
    rw [daysOfMonths]
    omega

/-- The days of the calendar in the years of four digits. -/
theorem daysFromEpoch_bounds {year month day : Nat} (hyear : year < 10000)
    (h : isDate year month day = true) :
    -800000 ≤ daysFromEpoch year month day ∧ daysFromEpoch year month day ≤ 3000000 := by
  simp only [isDate, Bool.and_eq_true, decide_eq_true_eq] at h
  have hday : day ≤ 31 := Nat.le_trans h.2 (daysInMonth_le year month)
  have hmonths := daysOfMonths_le year (month - 1)
  simp only [daysFromEpoch, daysBeforeYear]
  omega

theorem Parts.IsValid.isInRange {p : Parts} (h : p.IsValid) : DateTime.isInRange p.millis = true := by
  have ⟨hyear, hdate, hhour, hminute, hsecond, hnanos, hoffset⟩ := h
  have hdays := daysFromEpoch_bounds hyear hdate
  -- The bounds are linear once the days are known to be few.
  rw [DateTime.isInRange, Bool.and_eq_true, decide_eq_true_eq, decide_eq_true_eq, Parts.millis]
  omega

/-- **A date and time that is read is in the range of timestamps.** -/
theorem isInRange_of_parse {text : String} {n : Int} (h : parse text = .ok n) : isInRange n = true := by
  obtain ⟨p, hvalid, rfl⟩ := exists_parts_of_parse h
  exact hvalid.isInRange

end DateTime

end GraphQL
