import Mathlib.Tactic.IntervalCases

/-!
# Calendar dates

The dates of the Gregorian calendar in the years 1 to 9999, with their order, the
next day, the weekday, and the text of ISO 8601.  The text has a fixed width, and so
the order of the texts is that of the dates (`Date.textLt_isoformat`).
-/

namespace Basis

/-! ## Numbers of a fixed width -/

/-- The last `k` digits of a number. -/
def padded : ℕ → ℕ → List Char
  | 0, _ => []
  | k + 1, n => padded k (n / 10) ++ [Nat.digitChar (n % 10)]

@[simp] theorem length_padded (k n : ℕ) : (padded k n).length = k := by
  induction k generalizing n with
  | zero => rfl
  | succ k ih => rw [padded, List.length_append, ih, List.length_singleton]

/-- The order of texts: by the code points, the first difference decides. -/
def textLt : List Char → List Char → Bool
  | _, [] => false
  | [], _ :: _ => true
  | a :: l, b :: m => a.toNat < b.toNat || a.toNat == b.toNat && textLt l m

@[simp] theorem textLt_self (l : List Char) : textLt l l = false := by
  induction l with
  | nil => rfl
  | cons a l ih => simp [textLt, ih]

theorem digitChar_toNat {a : ℕ} (h : a < 10) : (Nat.digitChar a).toNat = 48 + a := by
  interval_cases a <;> rfl

theorem isDigit_of_mem_padded {k n : ℕ} {c : Char} (h : c ∈ padded k n) : c.isDigit = true := by
  induction k generalizing n with
  | zero => cases h
  | succ k ih =>
      rcases List.mem_append.mp h with h | h
      · exact ih h
      · have hlt := Nat.mod_lt n (by decide : 0 < 10)
        obtain rfl := List.mem_singleton.mp h
        interval_cases n % 10 <;> rfl

/-- The value of a digit. -/
def digitValue (c : Char) : Option ℕ := if c.isDigit then some (c.toNat - 48) else none

theorem digitValue_digitChar {a : ℕ} (ha : a < 10) : digitValue (Nat.digitChar a) = some a := by
  interval_cases a <;> rfl

/-- The number that digits write. -/
def parseDigits (l : List Char) : Option ℕ :=
  l.foldl (fun acc c => acc.bind fun n => (digitValue c).map fun d => 10 * n + d) (some 0)

theorem parseDigits_concat (l : List Char) (c : Char) : parseDigits (l ++ [c]) =
    (parseDigits l).bind fun n => (digitValue c).map fun d => 10 * n + d := by
  unfold parseDigits
  rw [List.foldl_append]
  rfl

theorem parseDigits_padded {k n : ℕ} (h : n < 10 ^ k) : parseDigits (padded k n) = some n := by
  induction k generalizing n with
  | zero =>
      have hn : n = 0 := by omega
      subst hn
      rfl
  | succ k ih =>
      rw [Nat.pow_succ] at h
      have hmod : n % 10 < 10 := Nat.mod_lt n (by decide)
      rw [padded, parseDigits_concat, ih (by omega), digitValue_digitChar hmod]
      show some (10 * (n / 10) + n % 10) = some n
      congr 1
      omega

theorem padded_inj {k n m : ℕ} (hn : n < 10 ^ k) (hm : m < 10 ^ k)
    (h : padded k n = padded k m) : n = m := by
  have hparse := congrArg parseDigits h
  rw [parseDigits_padded hn, parseDigits_padded hm] at hparse
  exact Option.some.inj hparse

/-- Texts of one length are compared by their beginnings first. -/
theorem textLt_append {l l' m m' : List Char} (h : l.length = m.length) :
    textLt (l ++ l') (m ++ m') = true ↔ textLt l m = true ∨ l = m ∧ textLt l' m' = true := by
  induction l generalizing m with
  | nil =>
      cases m with
      | nil => simp
      | cons b m => cases h
  | cons a l ih =>
      cases m with
      | nil => cases h
      | cons b m =>
          have hab : a = b ↔ a.toNat = b.toNat := Char.toNat_inj.symm
          have ih := ih (m := m) (Nat.succ.inj h)
          simp only [List.cons_append, textLt, Bool.or_eq_true, Bool.and_eq_true,
            decide_eq_true_eq, beq_iff_eq, List.cons.injEq, ih, hab]
          tauto

theorem textLt_padded {k n m : ℕ} (hn : n < 10 ^ k) (hm : m < 10 ^ k) :
    textLt (padded k n) (padded k m) = true ↔ n < m := by
  induction k generalizing n m with
  | zero =>
      have hn0 : n = 0 := by omega
      have hm0 : m = 0 := by omega
      subst hn0 hm0
      simp [padded]
  | succ k ih =>
      rw [Nat.pow_succ] at hn hm
      have hn' : n / 10 < 10 ^ k := by omega
      have hm' : m / 10 < 10 ^ k := by omega
      have heq : padded k (n / 10) = padded k (m / 10) ↔ n / 10 = m / 10 :=
        ⟨padded_inj hn' hm', congrArg _⟩
      have hdigit (a : ℕ) := digitChar_toNat (Nat.mod_lt a (by decide : 0 < 10))
      rw [padded, padded, textLt_append (by simp), ih hn' hm', heq]
      simp only [textLt, hdigit, Bool.and_false, Bool.or_false, decide_eq_true_eq]
      omega

/-! ## Dates -/

def isLeap (year : ℕ) : Bool := year % 4 == 0 && (year % 100 != 0 || year % 400 == 0)

def daysInMonth (year month : ℕ) : ℕ :=
  if month = 2 then if isLeap year then 29 else 28
  else if month = 4 ∨ month = 6 ∨ month = 9 ∨ month = 11 then 30
  else 31

theorem one_le_daysInMonth (year month : ℕ) : 1 ≤ daysInMonth year month := by
  unfold daysInMonth
  split_ifs <;> decide

theorem daysInMonth_le (year month : ℕ) : daysInMonth year month ≤ 31 := by
  unfold daysInMonth
  split_ifs <;> decide

/-- A date. -/
structure Date where
  year : ℕ
  month : ℕ
  day : ℕ
  year_pos : 1 ≤ year
  year_le : year ≤ 9999
  month_pos : 1 ≤ month
  month_le : month ≤ 12
  day_pos : 1 ≤ day
  day_le : day ≤ daysInMonth year month
deriving DecidableEq

namespace Date

/-- The number `yyyymmdd`. -/
def key (d : Date) : ℕ := d.year * 10000 + d.month * 100 + d.day

theorem day_lt (d : Date) : d.day < 100 := by
  have h := d.day_le.trans (daysInMonth_le d.year d.month)
  omega

theorem month_lt (d : Date) : d.month < 100 := by
  have h := d.month_le
  omega

theorem year_lt (d : Date) : d.year < 10000 := by
  have h := d.year_le
  omega

theorem key_injective : Function.Injective key := by
  rintro ⟨y, m, d, h1, h2, h3, h4, h5, h6⟩ ⟨y', m', d', h1', h2', h3', h4', h5', h6'⟩ h
  have hd := h6.trans (daysInMonth_le y m)
  have hd' := h6'.trans (daysInMonth_le y' m')
  have hy : y = y' := by simp only [key] at h; omega
  have hm : m = m' := by simp only [key] at h; omega
  have hday : d = d' := by simp only [key] at h; omega
  subst hy hm hday
  rfl

instance : LinearOrder Date := LinearOrder.lift' key key_injective

theorem lt_iff_key {a b : Date} : a < b ↔ a.key < b.key := Iff.rfl

/-! ### The text of a date -/

/-- `yyyy-mm-dd`. -/
def isoformat (d : Date) : String :=
  String.ofList (padded 4 d.year ++ '-' :: (padded 2 d.month ++ '-' :: padded 2 d.day))

/-- The text of a date has digits and hyphens only. -/
theorem mem_isoformat {d : Date} {c : Char} (h : c ∈ d.isoformat.toList) :
    c.isDigit = true ∨ c = '-' := by
  rw [isoformat, String.toList_ofList] at h
  simp only [List.mem_append, List.mem_cons] at h
  rcases h with h | h | h | h | h
  · exact .inl (isDigit_of_mem_padded h)
  · exact .inr h
  · exact .inl (isDigit_of_mem_padded h)
  · exact .inr h
  · exact .inl (isDigit_of_mem_padded h)

/-- The order of the texts is the order of the dates. -/
theorem textLt_isoformat {a b : Date} :
    textLt a.isoformat.toList b.isoformat.toList = true ↔ a < b := by
  have hyear : padded 4 a.year = padded 4 b.year ↔ a.year = b.year :=
    ⟨padded_inj a.year_lt b.year_lt, congrArg _⟩
  have hmonth : padded 2 a.month = padded 2 b.month ↔ a.month = b.month :=
    ⟨padded_inj a.month_lt b.month_lt, congrArg _⟩
  have hda := a.day_lt
  have hdb := b.day_lt
  have hma := a.month_lt
  have hmb := b.month_lt
  unfold isoformat
  rw [String.toList_ofList, String.toList_ofList, textLt_append (by simp),
    textLt_padded a.year_lt b.year_lt, hyear, lt_iff_key]
  simp only [textLt, lt_irrefl, decide_false, Bool.false_or, beq_self_eq_true, Bool.true_and]
  rw [textLt_append (by simp), textLt_padded a.month_lt b.month_lt, hmonth]
  simp only [textLt, lt_irrefl, decide_false, Bool.false_or, beq_self_eq_true, Bool.true_and]
  rw [textLt_padded a.day_lt b.day_lt]
  unfold key
  omega

/-- The date of three numbers, if they are one. -/
def ofYmd (y m d : ℕ) : Option Date :=
  if h : 1 ≤ y ∧ y ≤ 9999 ∧ 1 ≤ m ∧ m ≤ 12 ∧ 1 ≤ d ∧ d ≤ daysInMonth y m then
    some ⟨y, m, d, h.1, h.2.1, h.2.2.1, h.2.2.2.1, h.2.2.2.2.1, h.2.2.2.2.2⟩
  else none

theorem ofYmd_self (d : Date) : ofYmd d.year d.month d.day = some d :=
  dif_pos ⟨d.year_pos, d.year_le, d.month_pos, d.month_le, d.day_pos, d.day_le⟩

/-- The date of a text `yyyy-mm-dd`. -/
def fromisoformat (s : String) : Option Date :=
  let l := s.toList
  if l.length = 10 ∧ (l.drop 4).head? = some '-' ∧ (l.drop 7).head? = some '-' then
    (parseDigits (l.take 4)).bind fun y => (parseDigits ((l.drop 5).take 2)).bind fun m =>
      (parseDigits (l.drop 8)).bind fun d => ofYmd y m d
  else none

theorem fromisoformat_isoformat (d : Date) : fromisoformat d.isoformat = some d := by
  have hl : d.isoformat.toList =
      padded 4 d.year ++ '-' :: (padded 2 d.month ++ '-' :: padded 2 d.day) :=
    String.toList_ofList
  have hy : d.isoformat.toList.take 4 = padded 4 d.year := by
    rw [hl, List.take_left' (by simp)]
  have hm : (d.isoformat.toList.drop 5).take 2 = padded 2 d.month := by
    rw [hl, List.append_cons, List.drop_left' (by simp), List.take_left' (by simp)]
  have hd : d.isoformat.toList.drop 8 = padded 2 d.day := by
    rw [hl, List.append_cons, List.append_cons _ _ (padded 2 d.day), ← List.append_assoc,
      List.drop_left' (by simp)]
  have h4 : d.isoformat.toList.drop 4 = '-' :: (padded 2 d.month ++ '-' :: padded 2 d.day) := by
    rw [hl, List.drop_left' (by simp)]
  have h7 : d.isoformat.toList.drop 7 = '-' :: padded 2 d.day := by
    rw [hl, List.append_cons, ← List.append_assoc, List.drop_left' (by simp)]
  have hlen : d.isoformat.toList.length = 10 := by
    rw [hl]
    simp
  unfold fromisoformat
  dsimp only
  rw [h4, h7, hy, hm, hd, parseDigits_padded d.year_lt, parseDigits_padded d.month_lt,
    parseDigits_padded d.day_lt, if_pos ⟨hlen, rfl, rfl⟩]
  exact ofYmd_self d

theorem isoformat_injective : Function.Injective isoformat := by
  intro a b h
  have hparse := congrArg fromisoformat h
  rw [fromisoformat_isoformat, fromisoformat_isoformat] at hparse
  exact Option.some.inj hparse

/-! ### The next day -/

/-- The next day, `none` after the last one. -/
def next (d : Date) : Option Date :=
  if h : d.day < daysInMonth d.year d.month then
    some { d with day := d.day + 1, day_pos := Nat.le_add_left 1 d.day, day_le := h }
  else if h : d.month < 12 then
    some ⟨d.year, d.month + 1, 1, d.year_pos, d.year_le, Nat.le_add_left 1 _, h, le_rfl,
      one_le_daysInMonth _ _⟩
  else if h : d.year < 9999 then
    some ⟨d.year + 1, 1, 1, Nat.le_add_left 1 _, h, le_rfl, by decide, le_rfl,
      one_le_daysInMonth _ _⟩
  else none

/-- A day ends before the next one begins. -/
theorem lt_next {d d' : Date} (h : d.next = some d') : d < d' := by
  have hd := d.day_lt
  have hm := d.month_lt
  unfold next at h
  rw [lt_iff_key]
  unfold key
  split at h
  next =>
    cases h
    dsimp only
    omega
  next =>
    split at h
    next =>
      cases h
      dsimp only
      omega
    next =>
      split at h
      next =>
        cases h
        dsimp only
        omega
      next => cases h

/-- The days before a month of a year. -/
def daysBefore (year : ℕ) : ℕ → ℕ
  | 0 => 0
  | m + 1 => daysBefore year m + daysInMonth year (m + 1)

/-- The leap days before a year. -/
def leapDays (y : ℕ) : ℕ := (y - 1) / 4 - (y - 1) / 100 + (y - 1) / 400

/-- The number of a day, 1 for the first one. -/
def toordinal (d : Date) : ℕ :=
  (d.year - 1) * 365 + leapDays d.year + daysBefore d.year (d.month - 1) + d.day

/-- The day of the week, 0 for Monday. -/
def weekday (d : Date) : ℕ := (d.toordinal + 6) % 7

theorem daysBefore_dec (year : ℕ) : daysBefore year 11 + 31 = if isLeap year then 366 else 365 := by
  cases h : isLeap year with
  | true => simp [daysBefore, daysInMonth, h]
  | false => simp [daysBefore, daysInMonth, h]

theorem isLeap_iff {y : ℕ} : isLeap y = true ↔ 4 ∣ y ∧ (¬100 ∣ y ∨ 400 ∣ y) := by
  simp [isLeap, Nat.dvd_iff_mod_eq_zero]

theorem leapDays_succ {y : ℕ} (h : 1 ≤ y) :
    leapDays (y + 1) = leapDays y + if isLeap y then 1 else 0 := by
  obtain ⟨n, rfl⟩ : ∃ n, y = n + 1 := ⟨y - 1, (Nat.sub_add_cancel h).symm⟩
  have hle : n / 100 ≤ n / 4 := Nat.div_le_div_left (by decide) (by decide)
  have h4 : (n + 1) / 4 = n / 4 + if 4 ∣ n + 1 then 1 else 0 := Nat.succ_div
  have h100 : (n + 1) / 100 = n / 100 + if 100 ∣ n + 1 then 1 else 0 := Nat.succ_div
  have h400 : (n + 1) / 400 = n / 400 + if 400 ∣ n + 1 then 1 else 0 := Nat.succ_div
  have hhundred : 100 ∣ n + 1 → 4 ∣ n + 1 := Nat.dvd_trans (by decide)
  have hfourHundred : 400 ∣ n + 1 → 100 ∣ n + 1 := Nat.dvd_trans (by decide)
  rw [leapDays, leapDays, Nat.add_sub_cancel, Nat.add_sub_cancel, if_congr isLeap_iff rfl rfl,
    h4, h100, h400]
  generalize n / 4 = a, n / 100 = b, n / 400 = c at hle ⊢
  rcases Classical.em (4 ∣ n + 1) with hfour | hfour
  · rcases Classical.em (100 ∣ n + 1) with hcent | hcent
    · rcases Classical.em (400 ∣ n + 1) with hquad | hquad
      · rw [if_pos hfour, if_pos hcent, if_pos hquad, if_pos ⟨hfour, .inr hquad⟩,
          Nat.add_sub_add_right, ← Nat.add_assoc]
      · rw [if_pos hfour, if_pos hcent, if_neg hquad, Nat.add_sub_add_right,
          if_neg fun hleap => hleap.2.elim (absurd hcent) hquad]
        rfl
    · rw [if_pos hfour, if_neg hcent, if_neg (mt hfourHundred hcent), if_pos ⟨hfour, .inl hcent⟩]
      show a + 1 - b + c = a - b + c + 1
      rw [Nat.sub_add_comm hle, Nat.add_right_comm]
  · rw [if_neg hfour, if_neg (mt hhundred hfour), if_neg (mt hfourHundred (mt hhundred hfour)),
      if_neg fun hleap => hfour hleap.1]
    rfl

theorem toordinal_next {d d' : Date} (h : d.next = some d') : d'.toordinal = d.toordinal + 1 := by
  have hday := d.day_le
  have hmonth := d.month_le
  have hpos := d.month_pos
  unfold next at h
  unfold toordinal
  split at h
  next =>
    cases h
    exact (Nat.add_assoc _ _ _).symm
  next hlast =>
    split at h
    next hm =>
      cases h
      -- the last day of a month that is not December
      obtain ⟨m, hm'⟩ := Nat.exists_eq_add_of_le hpos
      have hdays : daysBefore d.year d.month = daysBefore d.year (d.month - 1)
          + daysInMonth d.year d.month := by
        rw [hm', Nat.add_sub_cancel_left, Nat.add_comm 1 m]
        rfl
      dsimp only
      rw [Nat.add_sub_cancel, hdays]
      omega
    next hdec =>
      split at h
      next hy =>
        cases h
        have hmonth12 : d.month = 12 := by omega
        have hdays : d.day = 31 := by
          rw [hmonth12] at hday hlast
          have hdec31 : daysInMonth d.year 12 = 31 := rfl
          omega
        have hyear := daysBefore_dec d.year
        have hleap := leapDays_succ d.year_pos
        have hypos := d.year_pos
        have hjan : daysBefore (d.year + 1) (1 - 1) = 0 := rfl
        have hmonths : d.month - 1 = 11 := by omega
        dsimp only
        rw [hjan, hmonths, hdays, hleap]
        split at hyear
        next hy366 =>
          rw [if_pos hy366]
          omega
        next hy365 =>
          rw [if_neg hy365]
          omega
      next => cases h

theorem weekday_lt (d : Date) : d.weekday < 7 := Nat.mod_lt _ (by decide)

theorem weekday_next {d d' : Date} (h : d.next = some d') :
    d'.weekday = (d.weekday + 1) % 7 := by
  have hord := toordinal_next h
  unfold weekday
  omega

end Date

end Basis
