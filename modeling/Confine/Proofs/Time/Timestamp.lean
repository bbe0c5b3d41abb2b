import Confine.Proofs.Text.Numeral
import Confine.Proofs.Time.Calendar
import Confine.Time.Timestamp

/-!
# Points in time, read back

* `Time.Timestamp.Valid` — a point in time that has a written form: it lies in the years that can be read, and a leap
  second follows second 59;
* `Time.Timestamp.number?_padded` — a number is read from as many digits as it is written with;
* `Time.Timestamp.ofText?_spelled` — a date and a time of the day are read, if both exist;
* `Time.Timestamp.ofText?_text` — **a point in time is read as it was written**.
-/

namespace Confine.Time.Timestamp

open Text (isDigit ofDigits trimLeft)

/-- A point in time that has a written form. -/
structure Valid (t : Timestamp) : Prop where
  years : t.inYears = true
  nanos : t.nanos < 2000000000
  leap : 1000000000 ≤ t.nanos → t.seconds % 60 = 59

instance (t : Timestamp) : Decidable t.Valid :=
  decidable_of_iff (t.inYears = true ∧ t.nanos < 2000000000 ∧ (1000000000 ≤ t.nanos → t.seconds % 60 = 59))
    ⟨fun ⟨h₁, h₂, h₃⟩ => ⟨h₁, h₂, h₃⟩, fun ⟨h₁, h₂, h₃⟩ => ⟨h₁, h₂, h₃⟩⟩

/-! ### Digits -/

theorem not_isBlank_of_isDigit {c : Char} (h : isDigit c = true) : Text.isBlank c = false := by
  have hrange : 48 ≤ c.toNat ∧ c.toNat ≤ 57 := by
    simpa [isDigit, Char.le_def, UInt32.le_iff_toNat_le] using h
  simp only [Text.isBlank, Bool.or_eq_false_iff, Bool.and_eq_false_iff, decide_eq_false_iff_not, beq_eq_false_iff_ne]
  omega

theorem trimLeft_of_isDigit {d rest : List Char} (hne : d ≠ []) (hd : ∀ c ∈ d, isDigit c = true) :
    trimLeft (d ++ rest) = d ++ rest := by
  obtain ⟨c, d, rfl⟩ := List.exists_cons_of_ne_nil hne
  simp [trimLeft, not_isBlank_of_isDigit (hd c List.mem_cons_self)]

theorem isDigit_of_mem_padded {w n : Nat} {c : Char} (h : c ∈ padded w n) : isDigit c = true := by
  rcases List.mem_append.1 h with h | h
  · rw [List.eq_of_mem_replicate h]
    rfl
  · exact Text.isDigit_of_mem_toDigits h

theorem padded_ne_nil (w n : Nat) : padded w n ≠ [] := by
  simp [padded, Nat.toDigits_ne_nil]

/-- **Zeros in front of a number do not count.** -/
theorem ofDigits_padded (w n : Nat) : ofDigits (padded w n) = n := by
  have hzeros : ∀ k, (List.replicate k '0').foldl (fun n c => 10 * n + Text.digitValue c) 0 = 0 := by
    intro k
    induction k with
    | zero => rfl
    | succ k ih => exact ih
  have hn : ofDigits (Nat.toDigits 10 n) = n := Nat.ofDigitChars_toDigits (b := 10) (by decide) (by decide)
  simp only [padded, ofDigits, List.foldl_append, hzeros]
  exact hn

theorem length_padded {w n : Nat} (h : n < 10 ^ w) (hw : 0 < w) : (padded w n).length = w := by
  have hle : (Nat.toDigits 10 n).length ≤ w := (Nat.length_toDigits_le_iff (by decide) hw).2 h
  simp only [padded, List.length_append, List.length_replicate]
  omega

/-- **A number is read from as many digits as it is written with.** -/
theorem number?_padded {w n : Nat} (h : n < 10 ^ w) (hw : 0 < w) (rest : List Char) :
    number? w (padded w n ++ rest) = some (n, rest) := by
  have hdigits : ∀ c ∈ padded w n, isDigit c = true := fun c hc => isDigit_of_mem_padded hc
  have htake : ((padded w n ++ rest).takeWhile isDigit).take w = padded w n := by
    rw [List.takeWhile_append_of_pos hdigits, List.take_left' (length_padded h hw)]
  have hempty : (padded w n).isEmpty = false := by simp [List.isEmpty_eq_false_iff, padded_ne_nil]
  simp only [number?, trimLeft_of_isDigit (padded_ne_nil w n) hdigits, htake, hempty, Bool.false_eq_true, if_false,
    ofDigits_padded, List.drop_left]

theorem takeWhile_padded (w n : Nat) {c : Char} (hc : isDigit c = false) (rest : List Char) :
    (padded w n ++ c :: rest).takeWhile isDigit = padded w n := by
  rw [List.takeWhile_append_of_pos fun c hc => isDigit_of_mem_padded hc, List.takeWhile_cons_of_neg (by simp [hc]),
    List.append_nil]

/-- **A year is read from its text**, whether it has a sign or not. -/
theorem year?_yearText (y : Int) (rest : List Char) : year? (yearText y ++ '-' :: rest) = some (y, '-' :: rest) := by
  have hempty : (padded 4 y.natAbs).isEmpty = false := by simp [List.isEmpty_eq_false_iff, padded_ne_nil]
  have hdigits := takeWhile_padded 4 y.natAbs (c := '-') (by decide) rest
  unfold yearText
  split
  · next hy =>
    obtain ⟨n, rfl⟩ := Int.eq_ofNat_of_zero_le hy.1
    have hn : n < 10 ^ 4 := by omega
    have hread := number?_padded hn (by decide) ('-' :: rest)
    have hall : ∀ c ∈ padded 4 n, isDigit c = true := fun c hc => isDigit_of_mem_padded hc
    have htrim := @trimLeft_of_isDigit _ ('-' :: rest) (padded_ne_nil 4 n) hall
    show year? (padded 4 n ++ '-' :: rest) = _
    unfold year?
    rw [htrim]
    -- the text starts with a digit, which is no sign
    obtain ⟨c, d, hcons⟩ := List.exists_cons_of_ne_nil (padded_ne_nil 4 n)
    have hc : isDigit c = true := hall c (hcons ▸ List.mem_cons_self)
    rw [hcons, List.cons_append] at hread ⊢
    dsimp only
    split
    · next heq => obtain ⟨rfl, -⟩ := List.cons.inj heq; cases hc
    · next heq => obtain ⟨rfl, -⟩ := List.cons.inj heq; cases hc
    · rw [hread]
      rfl
  · next hy =>
    -- a year before the era, or one of more than four digits, is written with its sign
    by_cases hneg : y < 0
    · have hvalue : -(y.natAbs : Int) = y := by omega
      simpa [if_pos hneg, year?, trimLeft, Text.isBlank, hdigits, hempty, ofDigits_padded] using hvalue
    · have hvalue : (y.natAbs : Int) = y := by omega
      simpa [if_neg hneg, year?, trimLeft, Text.isBlank, hdigits, hempty, ofDigits_padded] using hvalue

/-- A fraction of a second that is written in `k` digits. -/
theorem fraction?_padded {k n : Nat} (hk : 0 < k) (hk' : k ≤ 9) (hn : n < 10 ^ k) :
    fraction? ('.' :: padded k n ++ ['Z']) = some (n * 10 ^ (9 - k), ['Z']) := by
  have hempty : (padded k n).isEmpty = false := by simp [List.isEmpty_eq_false_iff, padded_ne_nil]
  have hdigits := takeWhile_padded k n (c := 'Z') (by decide) []
  have hlength := length_padded hn hk
  have htake : (padded k n).take 9 = padded k n := List.take_of_length_le (by omega)
  have hvalue : ∀ j, ofDigits (padded k n ++ List.replicate j '0') = n * 10 ^ j := by
    intro j
    induction j with
    | zero => rw [List.replicate_zero, List.append_nil, ofDigits_padded, pow_zero, Nat.mul_one]
    | succ j ih =>
      rw [List.replicate_succ', ← List.append_assoc, ofDigits, List.foldl_append]
      rw [ofDigits] at ih
      rw [ih, pow_succ]
      show 10 * (n * 10 ^ j) + 0 = _
      rw [Nat.add_zero, Nat.mul_comm 10, Nat.mul_assoc]
  simp [fraction?, hdigits, hempty, htake, hlength, hvalue]

/-- **A fraction of a second is read as it was written**, in as many digits as it needs. -/
theorem fraction?_fractionText {n : Nat} (h : n < 1000000000) :
    fraction? (fractionText n ++ ['Z']) = some (n, ['Z']) := by
  unfold fractionText
  split
  · next hn =>
    rw [hn]
    rfl
  split
  · rw [fraction?_padded (by decide) (by decide) (by omega)]
    exact congrArg (fun n => some (n, ['Z'])) (by omega)
  split
  · rw [fraction?_padded (by decide) (by decide) (by omega)]
    exact congrArg (fun n => some (n, ['Z'])) (by omega)
  · rw [fraction?_padded (by decide) (by decide) (by omega)]
    exact congrArg (fun n => some (n, ['Z'])) (by omega)

/-! ### Points in time -/

/-- Years go by as days do, up to either end of those that can be read. -/
theorem civilYear_within (x : CivilDay) (hlow : daysOfDate leastYear 1 1 ≤ x.days)
    (hhigh : x.days ≤ daysOfDate greatestYear 12 31) : leastYear ≤ x.civilYear ∧ x.civilYear ≤ greatestYear := by
  have hl : daysOfDate leastYear 1 1 = -656 * 146097 + 93808 - 719468 := by decide
  have hh : daysOfDate greatestYear 12 31 = 655 * 146097 + 52169 - 719468 := by decide
  have hlt := x.dayOfEra_lt
  have hyears := x.yearOfEra_lt
  have hstart := x.start_eq
  have hle := x.t_le
  have hday := x.day
  have hyear : x.civilYear = x.yearOfEra + x.era * 400 + if x.month ≤ 2 then 1 else 0 := rfl
  rw [hl] at hlow
  rw [hh] at hhigh
  unfold CivilDay.days at hlow hhigh
  unfold leastYear greatestYear
  simp only [x.month_le_two_iff] at hyear
  generalize x.yearOfEra = yearOfEra at *
  generalize x.dayOfEra = dayOfEra at *
  generalize x.t = t at *
  constructor
  · rcases Int.lt_or_le x.era (-656) with hera | hera
    · omega
    · split at hyear <;> omega
  · rcases Int.lt_or_le 655 x.era with hera | hera
    · omega
    · split at hyear <;> omega

theorem Valid.year_within {t : Timestamp} (h : t.Valid) :
    leastYear ≤ (dateOfDays (t.seconds.fdiv 86400)).1 ∧ (dateOfDays (t.seconds.fdiv 86400)).1 ≤ greatestYear := by
  have hyears := h.years
  simp only [inYears, Bool.and_eq_true, decide_eq_true_eq] at hyears
  obtain ⟨x, hx⟩ := exists_civilDay (t.seconds.fdiv 86400)
  rw [← hx] at hyears ⊢
  rw [x.dateOfDays_days]
  exact civilYear_within x hyears.1 hyears.2

theorem mark?_cons {c : Char} (h : Text.isBlank c = false) (rest : List Char) : mark? c (c :: rest) = some rest := by
  simp [mark?, trimLeft, take?, h]

theorem daysInMonth_le (y : Int) (m : Nat) : daysInMonth y m ≤ 31 := by
  unfold daysInMonth
  split_ifs <;> decide

/-- A date and a time of the day as they are written in UTC, where `second` is 60 in a leap second. -/
def spelled (y : Int) (m d hour minute second nanos : Nat) : List Char :=
  yearText y ++ '-' :: (padded 2 m ++ '-' :: (padded 2 d ++ 'T' :: (padded 2 hour ++ ':' :: (padded 2 minute ++
    ':' :: (padded 2 second ++ (fractionText nanos ++ ['Z']))))))

/-- **A date and a time of the day are read**, if both exist and lie in the years that can be read. -/
theorem ofText?_spelled {y : Int} {m d hour minute second nanos : Nat} (hyear : leastYear ≤ y ∧ y ≤ greatestYear)
    (hmonth : 1 ≤ m ∧ m ≤ 12) (hday : 1 ≤ d ∧ d ≤ daysInMonth y m) (hhour : hour ≤ 23) (hminute : minute ≤ 59)
    (hsecond : second ≤ 60) (hnanos : nanos < 1000000000) {t : Timestamp} (ht : t.inYears = true)
    (hread : (⟨daysOfDate y m d * 86400 +
        (hour * 3600 + minute * 60 + (second - if second = 60 then 1 else 0) : Nat) - 0,
      nanos + (if second = 60 then 1 else 0) * 1000000000⟩ : Timestamp) = t) :
    ofText? (String.ofList (spelled y m d hour minute second nanos)) = some t := by
  have hday31 := daysInMonth_le y m
  rw [ofText?, String.toList_ofList, spelled]
  -- the date, part by part
  refine Option.bind_eq_some_iff.2 ⟨_, year?_yearText _ _, ?_⟩
  refine Option.bind_eq_some_iff.2 ⟨_, mark?_cons (by decide) _, ?_⟩
  refine Option.bind_eq_some_iff.2 ⟨_, number?_padded (by omega) (by decide) _, ?_⟩
  refine Option.bind_eq_some_iff.2 ⟨_, mark?_cons (by decide) _, ?_⟩
  refine Option.bind_eq_some_iff.2 ⟨_, number?_padded (by omega) (by decide) _, ?_⟩
  -- the time of day
  refine Option.bind_eq_some_iff.2 ⟨('T', _), rfl, ?_⟩
  refine Option.bind_eq_some_iff.2 ⟨_, number?_padded (by omega) (by decide) _, ?_⟩
  refine Option.bind_eq_some_iff.2 ⟨_, mark?_cons (by decide) _, ?_⟩
  refine Option.bind_eq_some_iff.2 ⟨_, number?_padded (by omega) (by decide) _, ?_⟩
  refine Option.bind_eq_some_iff.2 ⟨_, mark?_cons (by decide) _, ?_⟩
  refine Option.bind_eq_some_iff.2 ⟨_, number?_padded (by omega) (by decide) _, ?_⟩
  -- what is left of the second, and the zone
  refine Option.bind_eq_some_iff.2 ⟨_, fraction?_fractionText hnanos, ?_⟩
  refine Option.bind_eq_some_iff.2 ⟨(0, []), by decide, ?_⟩
  have hyear' : (decide (y < leastYear) || decide (greatestYear < y)) = false := by simp [hyear]
  have hdate : (decide (m < 1) || decide (12 < m) || decide (d < 1) || decide (daysInMonth y m < d)) = false := by
    simp only [Bool.or_eq_false_iff, decide_eq_false_iff_not]
    omega
  have htime : (decide (23 < hour) || decide (59 < minute) || decide (60 < second)) = false := by
    simp only [Bool.or_eq_false_iff, decide_eq_false_iff_not]
    omega
  simp only [hyear', hdate, htime, Bool.false_eq_true, if_false]
  rw [hread, if_pos ht]
  rfl

/-- **A point in time is read as it was written.** -/
theorem ofText?_text {t : Timestamp} (h : t.Valid) : ofText? t.text = some t := by
  have hwithin := h.year_within
  obtain ⟨hmonth, hmonth', hday⟩ := isDate_dateOfDays (t.seconds.fdiv 86400)
  have hdays := daysOfDate_dateOfDays (t.seconds.fdiv 86400)
  have hinDay : (t.seconds - t.seconds.fdiv 86400 * 86400).toNat < 86400 ∧
      t.seconds = t.seconds.fdiv 86400 * 86400 + (t.seconds - t.seconds.fdiv 86400 * 86400).toNat := by
    rw [Int.fdiv_eq_ediv_of_nonneg _ (by decide)]
    omega
  obtain ⟨seconds, nanos⟩ := t
  have hyears := h.years
  have hnanos : nanos < 2000000000 := h.nanos
  have hleap : 1000000000 ≤ nanos → seconds % 60 = 59 := h.leap
  simp only [text]
  generalize seconds.fdiv 86400 = days at *
  generalize dateOfDays days = date at *
  generalize (seconds - days * 86400).toNat = inDay at *
  obtain ⟨y, m, d⟩ := date
  obtain ⟨hinDay, rfl⟩ := hinDay
  have hread := @ofText?_spelled y m d (inDay / 3600) (inDay / 60 % 60) (inDay % 60 + nanos / 1000000000)
    (nanos % 1000000000) hwithin ⟨hmonth, hmonth'⟩ hday (by omega) (by omega) (by omega) (Nat.mod_lt _ (by decide)) _
    hyears (by
      rw [hdays]
      -- the second is 60 just where a leap second is written
      split <;> (congr 1 <;> omega))
  simpa only [spelled, List.append_assoc, List.cons_append] using hread

end Confine.Time.Timestamp
