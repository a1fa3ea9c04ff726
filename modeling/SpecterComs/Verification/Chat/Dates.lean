import SpecterComs.Model.Chat.Dates

/-! # Dates in the ISO format

A date from year 0 to year 9999 is written in the format the server takes, and earlier
dates come before later ones in the order of strings.
-/

namespace SpecterComs.Chat

/-! ## Years -/

theorem dayOfYear_succ (y : ℤ) :
    dayOfYear (y + 1) = dayOfYear y + if isLeap y then 366 else 365 := by
  have h4 : (y + 1 + 3) / 4 = (y + 3) / 4 + if y % 4 = 0 then 1 else 0 := by
    split_ifs <;> omega
  have h100 : (y + 1 + 99) / 100 = (y + 99) / 100 + if y % 100 = 0 then 1 else 0 := by
    split_ifs <;> omega
  have h400 : (y + 1 + 399) / 400 = (y + 399) / 400 + if y % 400 = 0 then 1 else 0 := by
    split_ifs <;> omega
  have hfour : y % 100 = 0 → y % 4 = 0 := by omega
  have hhundred : y % 400 = 0 → y % 100 = 0 := by omega
  unfold dayOfYear isLeap
  rw [h4, h100, h400]
  by_cases h4 : y % 4 = 0
  · by_cases h100 : y % 100 = 0
    · by_cases h400 : y % 400 = 0
      · simp [h4, h100, h400]
        ring
      · simp [h4, h100, h400]
        ring
    · simp [h4, h100, mt hhundred h100]
      ring
  · simp [h4, mt hfour h4, mt (hfour ∘ hhundred) h4]
    ring

variable {y z t u : ℤ}

theorem dayOfYear_lt (h : y < z) : dayOfYear y < dayOfYear z := by
  unfold dayOfYear
  omega

theorem dayOfYear_le (h : y ≤ z) : dayOfYear y ≤ dayOfYear z := by
  rcases eq_or_lt_of_le h with heq | hlt
  · rw [heq]
  · exact (dayOfYear_lt hlt).le

theorem dayOfYear_yearOfDay (d : ℤ) :
    dayOfYear (yearOfDay d) ≤ d ∧ d < dayOfYear (yearOfDay d + 1) := by
  unfold yearOfDay
  simp only
  split_ifs with hlow hhigh
  · rw [sub_add_cancel]
    refine ⟨?_, hlow⟩
    unfold dayOfYear
    omega
  · refine ⟨hhigh, ?_⟩
    unfold dayOfYear
    omega
  · exact ⟨by omega, by omega⟩

theorem yearOfDay_le {d e : ℤ} (h : d ≤ e) : yearOfDay d ≤ yearOfDay e := by
  by_contra hlt
  have hle : dayOfYear (yearOfDay e + 1) ≤ dayOfYear (yearOfDay d) := dayOfYear_le (by omega)
  have hd := (dayOfYear_yearOfDay d).1
  have he := (dayOfYear_yearOfDay e).2
  omega

/-! ## Digits -/

variable {width n m a b : ℕ}

@[simp] theorem length_digits : (digits width n).length = width := by
  induction width generalizing n with
  | zero => rfl
  | succ width ih => simp [digits, ih]

theorem digitChar_isDigit : ∀ n < 10, (Nat.digitChar n).isDigit := by
  decide

theorem digitValue_digitChar : ∀ n < 10, digitValue (Nat.digitChar n) = n := by
  decide

theorem digits_isDigit : (digits width n).all Char.isDigit := by
  induction width generalizing n with
  | zero => rfl
  | succ width ih =>
      have hlast := digitChar_isDigit (n % 10) (Nat.mod_lt n (by norm_num))
      rw [digits, List.all_append, ih]
      simp [hlast]

variable {cs : List Char}

theorem numberOf_append {c : Char} : numberOf (cs ++ [c]) = 10 * numberOf cs + digitValue c := by
  simp [numberOf]

theorem numberOf_digits (h : n < 10 ^ width) : numberOf (digits width n) = n := by
  induction width generalizing n with
  | zero =>
      have : n = 0 := by simpa using h
      simp [digits, numberOf, this]
  | succ width ih =>
      have hn : n / 10 < 10 ^ width := by
        rw [Nat.pow_succ] at h
        omega
      rw [digits, numberOf_append, ih hn, digitValue_digitChar _ (Nat.mod_lt n (by norm_num))]
      omega

/-! ## Months -/

theorem splitMonths_spec {lengths : List ℕ} {d : ℕ} (h : d < lengths.sum) :
    ∃ n, lengths[(splitMonths lengths d).1]? = some n ∧ (splitMonths lengths d).2 < n := by
  induction lengths generalizing d with
  | nil => simp at h
  | cons n ns ih =>
      by_cases hd : d < n
      · exact ⟨n, by simp [splitMonths, hd], by simp [splitMonths, hd]⟩
      · have hrest : d - n < ns.sum := by
          simp only [List.sum_cons] at h
          omega
        simpa [splitMonths, hd] using ih hrest

theorem sum_monthLengths (leap : Bool) : (monthLengths leap).sum = if leap then 366 else 365 := by
  cases leap <;> decide

/-- The day of a moment is one of its month. -/
theorem momentOf_date (t : ℤ) : ∃ n,
    (monthLengths (isLeap (momentOf t).year))[(momentOf t).month - 1]? = some n ∧
      1 ≤ (momentOf t).month ∧ 1 ≤ (momentOf t).day ∧ (momentOf t).day ≤ n := by
  obtain ⟨hlow, hhigh⟩ := dayOfYear_yearOfDay (t / msPerDay + epochDay)
  rw [dayOfYear_succ] at hhigh
  have hday : (t / msPerDay + epochDay - dayOfYear (yearOfDay (t / msPerDay + epochDay))).toNat <
      (monthLengths (isLeap (yearOfDay (t / msPerDay + epochDay)))).sum := by
    rw [sum_monthLengths]
    split_ifs at hhigh ⊢ <;> omega
  obtain ⟨n, hn, hlt⟩ := splitMonths_spec hday
  exact ⟨n, by simpa [momentOf] using hn, by simp [momentOf], by simp [momentOf],
    Nat.succ_le_of_lt hlt⟩

/-! ## The server's format -/

theorem momentOf_time (t : ℤ) : (momentOf t).hour < 24 ∧ (momentOf t).minute < 60 ∧
    (momentOf t).second < 60 ∧ (momentOf t).ms < 1000 := by
  have hpos : 0 ≤ t % msPerDay := Int.emod_nonneg _ (by decide)
  have hlt : t % msPerDay < msPerDay := Int.emod_lt_of_pos _ (by decide)
  have hday : (t % msPerDay).toNat < 86400000 := by
    unfold msPerDay at *
    omega
  simp only [momentOf]
  omega

theorem exists_two (h : cs.length = 2) : ∃ a b, cs = [a, b] := by
  match cs, h with
  | [a, b], _ => exact ⟨a, b, rfl⟩

theorem exists_four (h : cs.length = 4) : ∃ a b c d, cs = [a, b, c, d] := by
  match cs, h with
  | [a, b, c, d], _ => exact ⟨a, b, c, d, rfl⟩

/-- The format, field by field. -/
theorem isDatetime_fields {y mo d h mi s fraction : List Char} (hy : y.length = 4)
    (hmo : mo.length = 2) (hd : d.length = 2) (hh : h.length = 2) (hmi : mi.length = 2)
    (hs : s.length = 2) :
    isDatetime (String.ofList (y ++ '-' :: mo ++ '-' :: d ++ 'T' :: h ++ ':' :: mi ++ ':' :: s ++
      fraction)) =
      ([y, mo, d, h, mi, s].flatten.all Char.isDigit &&
        isDate (numberOf y) (numberOf mo) (numberOf d) && numberOf h < 24 && numberOf mi < 60 &&
        numberOf s < 60 && isFractionEnd fraction) := by
  obtain ⟨y1, y2, y3, y4, rfl⟩ := exists_four hy
  obtain ⟨mo1, mo2, rfl⟩ := exists_two hmo
  obtain ⟨d1, d2, rfl⟩ := exists_two hd
  obtain ⟨h1, h2, rfl⟩ := exists_two hh
  obtain ⟨mi1, mi2, rfl⟩ := exists_two hmi
  obtain ⟨s1, s2, rfl⟩ := exists_two hs
  simp [isDatetime]

theorem toISOString_eq (hlow : 0 ≤ (momentOf t).year) (hhigh : (momentOf t).year ≤ 9999) :
    (momentOf t).text = digits 4 (momentOf t).year.toNat ++ '-' :: digits 2 (momentOf t).month ++
      '-' :: digits 2 (momentOf t).day ++ 'T' :: digits 2 (momentOf t).hour ++
      ':' :: digits 2 (momentOf t).minute ++ ':' :: digits 2 (momentOf t).second ++
      ('.' :: digits 3 (momentOf t).ms ++ ['Z']) := by
  simp [Moment.text, yearText, hlow, hhigh]

theorem isFractionEnd_digits : isFractionEnd ('.' :: digits 3 n ++ ['Z']) := by
  have hall : (digits 3 n).all Char.isDigit := digits_isDigit
  obtain ⟨a, b, c, habc⟩ : ∃ a b c, digits 3 n = [a, b, c] := ⟨_, _, _, rfl⟩
  rw [habc] at hall ⊢
  simp only [List.all_cons, List.all_nil, Bool.and_true, Bool.and_eq_true] at hall
  simp [isFractionEnd, hall]

theorem month_le_twelve {leap : Bool} (h : (monthLengths leap)[m - 1]? = some n) :
    m ≤ 12 ∧ n ≤ 31 := by
  obtain ⟨hlt, hn⟩ := List.getElem?_eq_some_iff.mp h
  have hlength : (monthLengths leap).length = 12 := by cases leap <;> rfl
  refine ⟨by omega, ?_⟩
  have hall : ∀ n ∈ monthLengths leap, n ≤ 31 := by cases leap <;> decide
  exact hall n (hn ▸ List.getElem_mem hlt)

theorem numberOf_digits_two (h : n < 100) : numberOf (digits 2 n) = n :=
  numberOf_digits h

/-- A year of more digits starts with its sign. -/
theorem isDatetime_sign {c : Char} (h : c.isDigit = false) :
    isDatetime (String.ofList (c :: cs)) = false := by
  simp [isDatetime, h]

/-- The server takes the text of a date exactly where its year has four digits. -/
theorem isDatetime_toISOString :
    isDatetime (toISOString t) ↔ 0 ≤ (momentOf t).year ∧ (momentOf t).year ≤ 9999 := by
  constructor
  · intro h
    by_contra hyear
    have htext : ∃ c cs, (momentOf t).text = c :: cs ∧ c.isDigit = false := by
      simp only [Moment.text, yearText, if_neg hyear]
      by_cases hneg : (momentOf t).year < 0
      · exact ⟨'-', _, by rw [if_pos hneg]; rfl, rfl⟩
      · exact ⟨'+', _, by rw [if_neg hneg]; rfl, rfl⟩
    obtain ⟨c, cs, htext, hdigit⟩ := htext
    rw [toISOString, htext, isDatetime_sign hdigit] at h
    cases h
  · rintro ⟨hlow, hhigh⟩
    obtain ⟨n, hn, hmonth, hday, hle⟩ := momentOf_date t
    obtain ⟨hhour, hminute, hsecond, -⟩ := momentOf_time t
    obtain ⟨hm12, hn31⟩ := month_le_twelve hn
    have hy : (momentOf t).year.toNat < 10 ^ 4 := by omega
    have hyear : (((momentOf t).year.toNat : ℕ) : ℤ) = (momentOf t).year := by omega
    have hdigits : [digits 4 (momentOf t).year.toNat, digits 2 (momentOf t).month,
        digits 2 (momentOf t).day, digits 2 (momentOf t).hour, digits 2 (momentOf t).minute,
        digits 2 (momentOf t).second].flatten.all Char.isDigit := by
      simp only [List.flatten_cons, List.flatten_nil, List.all_append, digits_isDigit, List.all_nil,
        Bool.and_self]
    have hdate : isDate (momentOf t).year.toNat (momentOf t).month (momentOf t).day := by
      simp [isDate, hyear, hn, hmonth, hday, hle]
    rw [toISOString, toISOString_eq hlow hhigh,
      isDatetime_fields length_digits length_digits length_digits length_digits length_digits
        length_digits, isFractionEnd_digits, numberOf_digits hy, numberOf_digits_two (by omega),
      numberOf_digits_two (by omega), numberOf_digits_two (by omega),
      numberOf_digits_two (by omega), numberOf_digits_two (by omega), hdigits, hdate]
    simp [hhour, hminute, hsecond]

/-- The years of four digits, in milliseconds. -/
theorem year_four_digits :
    (0 ≤ (momentOf t).year ∧ (momentOf t).year ≤ 9999) ↔
      -62167219200000 ≤ t ∧ t < 253402300800000 := by
  obtain ⟨hlow, hhigh⟩ := dayOfYear_yearOfDay (t / msPerDay + epochDay)
  have hyear : (momentOf t).year = yearOfDay (t / msPerDay + epochDay) := rfl
  rw [hyear]
  have hd0 : dayOfYear 0 = 0 := by decide
  have hd1 : dayOfYear 10000 = 3652425 := by decide
  constructor
  · rintro ⟨hnonneg, hle⟩
    have h0 := dayOfYear_le hnonneg
    have h1 : dayOfYear (yearOfDay (t / msPerDay + epochDay) + 1) ≤ dayOfYear 10000 :=
      dayOfYear_le (by omega)
    unfold msPerDay epochDay at *
    omega
  · rintro ⟨hnonneg, hlt⟩
    constructor
    · by_contra hneg
      have h0 : dayOfYear (yearOfDay (t / msPerDay + epochDay) + 1) ≤ dayOfYear 0 :=
        dayOfYear_le (by omega)
      unfold msPerDay epochDay at *
      omega
    · by_contra hbig
      have h1 : dayOfYear 10000 ≤ dayOfYear (yearOfDay (t / msPerDay + epochDay)) :=
        dayOfYear_le (by omega)
      unfold msPerDay epochDay at *
      omega

/-! ## The order of the texts -/

theorem append_lt_append {a b c d : List ℕ} (hlength : a.length = b.length) (h : a < b) :
    a ++ c < b ++ d := by
  induction a generalizing b with
  | nil =>
      have : b = [] := List.length_eq_zero_iff.mp hlength.symm
      simp [this] at h
  | cons x xs ih =>
      cases b with
      | nil => simp at hlength
      | cons y ys =>
          rw [List.cons_append, List.cons_append, List.cons_lt_cons_iff]
          rcases List.cons_lt_cons_iff.mp h with hlt | ⟨heq, hlt⟩
          · exact .inl hlt
          · exact .inr ⟨heq, ih (by simpa using hlength) hlt⟩

/-- The code units of a number of fixed width. -/
def code (width n : ℕ) : List ℕ :=
  (digits width n).map Char.toNat

theorem digitChar_lt : ∀ n < 10, ∀ m < 10, n < m → (Nat.digitChar n).toNat < (Nat.digitChar m).toNat := by
  decide

theorem code_lt (hm : m < 10 ^ width) (h : n < m) : code width n < code width m := by
  induction width generalizing n m with
  | zero =>
      have : m = 0 := by simpa using hm
      omega
  | succ width ih =>
      simp only [code, digits, List.map_append, List.map_cons, List.map_nil] at ih ⊢
      have hm' : m / 10 < 10 ^ width := by
        rw [Nat.pow_succ] at hm
        omega
      rcases Nat.lt_or_ge (n / 10) (m / 10) with hlt | hge
      · exact append_lt_append (by simp) (ih hm' hlt)
      · have heq : n / 10 = m / 10 := by omega
        rw [heq]
        apply List.append_left_lt
        rw [List.cons_lt_cons_iff]
        exact .inl (digitChar_lt _ (Nat.mod_lt _ (by norm_num)) _ (Nat.mod_lt _ (by norm_num))
          (by omega))

/-- One field of fixed width decides, or the rest does. -/
theorem field_lt {rest rest' : List ℕ} (hm : m < 10 ^ width) (h : n < m ∨ n = m ∧ rest < rest') :
    code width n ++ rest < code width m ++ rest' := by
  rcases h with h | ⟨rfl, h⟩
  · exact append_lt_append (by simp [code]) (code_lt hm h)
  · exact List.append_left_lt h

theorem splitMonths_lt {lengths : List ℕ} {d e : ℕ} (h : d < e) :
    (splitMonths lengths d).1 < (splitMonths lengths e).1 ∨
      (splitMonths lengths d).1 = (splitMonths lengths e).1 ∧
        (splitMonths lengths d).2 < (splitMonths lengths e).2 := by
  induction lengths generalizing d e with
  | nil => exact .inr ⟨rfl, h⟩
  | cons n ns ih =>
      by_cases hd : d < n
      · by_cases he : e < n
        · simpa [splitMonths, hd, he] using h
        · simp [splitMonths, hd, he]
      · have he : ¬e < n := by omega
        simpa [splitMonths, hd, he] using ih (by omega : d - n < e - n)

/-- The fields of a moment, most significant first. -/
def Moment.Before (m n : Moment) : Prop :=
  m.year < n.year ∨ m.year = n.year ∧ (m.month < n.month ∨ m.month = n.month ∧
    (m.day < n.day ∨ m.day = n.day ∧ (m.hour < n.hour ∨ m.hour = n.hour ∧
      (m.minute < n.minute ∨ m.minute = n.minute ∧ (m.second < n.second ∨
        m.second = n.second ∧ m.ms < n.ms)))))

theorem div_lex (n : ℕ) (h : a < b) : a / n < b / n ∨ a / n = b / n ∧ a % n < b % n := by
  rcases lt_or_eq_of_le (Nat.div_le_div_right h.le : a / n ≤ b / n) with hlt | heq
  · exact .inl hlt
  · refine .inr ⟨heq, ?_⟩
    have ha := Nat.div_add_mod a n
    have hb := Nat.div_add_mod b n
    rw [heq] at ha
    omega

/-- The time of day, most significant field first. -/
theorem clock_lt (h : a < b) :
    a / 3600000 < b / 3600000 ∨ a / 3600000 = b / 3600000 ∧
      (a / 60000 % 60 < b / 60000 % 60 ∨ a / 60000 % 60 = b / 60000 % 60 ∧
        (a / 1000 % 60 < b / 1000 % 60 ∨ a / 1000 % 60 = b / 1000 % 60 ∧ a % 1000 < b % 1000)) := by
  have hminutes : ∀ c : ℕ, c / 1000 / 60 = c / 60000 := fun c => Nat.div_div_eq_div_mul c 1000 60
  have hhours : ∀ c : ℕ, c / 60000 / 60 = c / 3600000 := fun c => Nat.div_div_eq_div_mul c 60000 60
  rcases div_lex 1000 h with hlt | ⟨hsame, hms⟩
  · rcases div_lex 60 hlt with hlt | ⟨hsame, hsecond⟩
    · rw [hminutes, hminutes] at hlt
      rcases div_lex 60 hlt with hlt | ⟨hsame, hminute⟩
      · rw [hhours, hhours] at hlt
        exact .inl hlt
      · rw [hhours, hhours] at hsame
        exact .inr ⟨hsame, .inl hminute⟩
    · rw [hminutes, hminutes] at hsame
      rw [← hhours, ← hhours, hsame]
      exact .inr ⟨rfl, .inr ⟨rfl, .inl hsecond⟩⟩
  · rw [← hhours, ← hhours, ← hminutes, ← hminutes, hsame]
    exact .inr ⟨rfl, .inr ⟨rfl, .inr ⟨rfl, hms⟩⟩⟩

/-- An earlier time value is an earlier moment. -/
theorem momentOf_before (h : t < u) : (momentOf t).Before (momentOf u) := by
  have hdays : t / msPerDay ≤ u / msPerDay := Int.ediv_le_ediv (by decide) h.le
  have hyear : (momentOf t).year ≤ (momentOf u).year := yearOfDay_le (by omega)
  rcases lt_or_eq_of_le hyear with hlt | heq
  · exact .inl hlt
  refine .inr ⟨heq, ?_⟩
  have heq' : yearOfDay (t / msPerDay + epochDay) = yearOfDay (u / msPerDay + epochDay) := heq
  rcases lt_or_eq_of_le hdays with hday | hday
  · -- an earlier day of the same year
    have hlow := (dayOfYear_yearOfDay (t / msPerDay + epochDay)).1
    simp only [momentOf, ← heq']
    generalize yearOfDay (t / msPerDay + epochDay) = year at hlow ⊢
    have hdays : (t / msPerDay + epochDay - dayOfYear year).toNat <
        (u / msPerDay + epochDay - dayOfYear year).toNat := by omega
    rcases @splitMonths_lt (monthLengths (isLeap year)) _ _ hdays with hmonth | ⟨hmonth, hdate⟩
    · exact .inl (Nat.succ_lt_succ hmonth)
    · exact .inr ⟨congrArg (· + 1) hmonth, .inl (Nat.succ_lt_succ hdate)⟩
  · -- the same day
    have hsame : (momentOf t).month = (momentOf u).month ∧ (momentOf t).day = (momentOf u).day := by
      simp [momentOf, hday]
    have hin : (t % msPerDay).toNat < (u % msPerDay).toNat := by
      unfold msPerDay at *
      omega
    exact .inr ⟨hsame.1, .inr ⟨hsame.2, clock_lt hin⟩⟩

theorem utf16_ofList (h : ∀ c ∈ cs, c.toNat < 0x10000) :
    utf16 (String.ofList cs) = cs.map Char.toNat := by
  simp only [utf16, String.toList_ofList]
  induction cs with
  | nil => rfl
  | cons c cs ih =>
      have hc : c.toNat < 0x10000 := h c (by simp)
      simp [hc, ih fun x hx => h x (List.mem_cons_of_mem _ hx)]

theorem digits_ascii : ∀ c ∈ digits width n, c.toNat < 0x10000 := by
  intro c hc
  have hdigit : c.isDigit := by
    have hall : (digits width n).all Char.isDigit := digits_isDigit
    exact List.all_eq_true.mp hall c hc
  have hle : c.toNat ≤ 57 := by
    simp only [Char.isDigit, Bool.and_eq_true, decide_eq_true_eq] at hdigit
    exact hdigit.2
  omega

/-- The code units of a date's text. -/
theorem utf16_toISOString (hlow : 0 ≤ (momentOf t).year) (hhigh : (momentOf t).year ≤ 9999) :
    utf16 (toISOString t) = code 4 (momentOf t).year.toNat ++ 45 ::
      (code 2 (momentOf t).month ++ 45 :: (code 2 (momentOf t).day ++ 84 ::
        (code 2 (momentOf t).hour ++ 58 :: (code 2 (momentOf t).minute ++ 58 ::
          (code 2 (momentOf t).second ++ 46 :: (code 3 (momentOf t).ms ++ [90])))))) := by
  rw [toISOString, utf16_ofList]
  · rw [toISOString_eq hlow hhigh]
    simp [code]
  · rw [toISOString_eq hlow hhigh]
    intro c hc
    simp only [List.mem_append, List.mem_cons, List.not_mem_nil, or_false] at hc
    rcases hc with
      (((((h | rfl | h) | rfl | h) | rfl | h) | rfl | h) | rfl | h) | (rfl | h) | rfl <;>
      first
        | exact digits_ascii c h
        | decide

/-- A time value whose year has four digits. -/
def FourDigits (t : ℤ) : Prop :=
  -62167219200000 ≤ t ∧ t < 253402300800000

instance (t : ℤ) : Decidable (FourDigits t) :=
  inferInstanceAs (Decidable (_ ∧ _))

theorem toISOString_lt (ht : FourDigits t) (hu : FourDigits u) (h : t < u) :
    utf16 (toISOString t) < utf16 (toISOString u) := by
  obtain ⟨htlow, hthigh⟩ := year_four_digits.mpr ht
  obtain ⟨hulow, huhigh⟩ := year_four_digits.mpr hu
  obtain ⟨n, hn, hmonth, hday, hle⟩ := momentOf_date u
  obtain ⟨hhour, hminute, hsecond, hms⟩ := momentOf_time u
  obtain ⟨hm12, hn31⟩ := month_le_twelve hn
  have tail : ∀ {sep : ℕ} {xs ys : List ℕ}, xs < ys → sep :: xs < sep :: ys := by
    intro sep xs ys hxs
    exact List.cons_lt_cons_iff.mpr (.inr ⟨rfl, hxs⟩)
  rw [utf16_toISOString htlow hthigh, utf16_toISOString hulow huhigh]
  have hb := momentOf_before h
  refine field_lt (by omega) (hb.imp (by omega) fun ⟨heq, hb⟩ => ⟨by rw [heq], tail ?_⟩)
  refine field_lt (by omega) (hb.imp id fun ⟨heq, hb⟩ => ⟨heq, tail ?_⟩)
  refine field_lt (by omega) (hb.imp id fun ⟨heq, hb⟩ => ⟨heq, tail ?_⟩)
  refine field_lt (by omega) (hb.imp id fun ⟨heq, hb⟩ => ⟨heq, tail ?_⟩)
  refine field_lt (by omega) (hb.imp id fun ⟨heq, hb⟩ => ⟨heq, tail ?_⟩)
  refine field_lt (by omega) (hb.imp id fun ⟨heq, hb⟩ => ⟨heq, tail ?_⟩)
  exact field_lt (by omega) (.inl hb)

/-- Dates are in the order of their texts. -/
theorem before_toISOString (ht : FourDigits t) (hu : FourDigits u) :
    before (toISOString t) (toISOString u) ↔ t < u := by
  rw [before, decide_eq_true_iff]
  constructor
  · intro h
    by_contra hge
    rcases eq_or_lt_of_le (not_lt.mp hge) with heq | hlt
    · exact List.lt_irrefl _ (heq ▸ h)
    · exact List.lt_asymm h (toISOString_lt hu ht hlt)
  · exact toISOString_lt ht hu

theorem toISOString_inj (ht : FourDigits t) (hu : FourDigits u)
    (h : toISOString t = toISOString u) : t = u := by
  rcases lt_trichotomy t u with hlt | heq | hlt
  · exact absurd (toISOString_lt ht hu hlt) (by rw [h]; exact List.lt_irrefl _)
  · exact heq
  · exact absurd (toISOString_lt hu ht hlt) (by rw [h]; exact List.lt_irrefl _)

end SpecterComs.Chat
