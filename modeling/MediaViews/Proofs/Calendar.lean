import Mathlib
import MediaViews.Instant

/-! Reading calendar texts. What is read back is the instant that was written. -/
namespace MediaViews.Instant

def dayOf (year month dayOfMonth : Int) : Int :=
  let march := if month ≤ 2 then month + 9 else month - 3
  let shifted := if month ≤ 2 then year - 1 else year
  let ofCycle := shifted % 400
  146097 * (shifted / 400) + (365 * ofCycle + ofCycle / 4 - ofCycle / 100) +
    (153 * march + 2) / 5 + dayOfMonth - 719469

theorem yearOfCycle_bounds {day : Nat} (h : day < 146097) :
    let year := (day - day / 1460 + day / 36524 - day / 146096) / 365
    year < 400 ∧ 365 * year + year / 4 - year / 100 ≤ day ∧
      day ≤ 365 * year + year / 4 - year / 100 + 365 := by
  -- The day lies within the year that is counted for it. A year is found from quotients by the
  -- lengths of four years, a century and a cycle, so the quotients are bounded first.
  intro year
  have hyear : year = (day - day / 1460 + day / 36524 - day / 146096) / 365 := rfl
  clear_value year
  generalize hg : day / 1460 = g at hyear
  generalize he : day / 36524 = e at hyear
  generalize hf : day / 146096 = f at hyear
  have hg' : 1460 * g ≤ day ∧ day < 1460 * g + 1460 := by omega
  have he' : 36524 * e ≤ day ∧ day < 36524 * e + 36524 := by omega
  have hf' : 146096 * f ≤ day ∧ day < 146096 * f + 146096 := by omega
  have hyear' : 365 * year + g + f ≤ day + e ∧ day + e < 365 * year + 365 + g + f := by omega
  clear hg he hf hyear
  have hlow : 4 * g ≤ year + 1 := by omega
  obtain ⟨t, ht⟩ : ∃ t, year + 1 = 4 * g + t := ⟨year + 1 - 4 * g, by omega⟩
  have ht' : t ≤ 4 := by omega
  have hcentury : e ≤ 4 := by omega
  -- By this count the last day of a cycle falls into a fifth century, hence five cases for `e`.
  interval_cases e <;> interval_cases t <;> omega

theorem exists_dayOfCycle (day : Int) : ∃ n : Nat, (day + 719468) % 146097 = n ∧ n < 146097 :=
  ⟨((day + 719468) % 146097).toNat, by omega, by omega⟩

theorem dayOf_civil (day : Int) : dayOf (civil day).1 (civil day).2.1 (civil day).2.2 = day := by
  obtain ⟨ofCycle, hofCycle, hbound⟩ := exists_dayOfCycle day
  obtain ⟨cycle, hcycle⟩ : ∃ c, (day + 719468) / 146097 = c := ⟨_, rfl⟩
  have hday : day = 146097 * cycle + ofCycle - 719468 := by omega
  have hyears := yearOfCycle_bounds hbound
  simp only [civil, hofCycle, hcycle, Int.toNat_natCast]
  obtain ⟨year, hyear⟩ :
      ∃ n, (ofCycle - ofCycle / 1460 + ofCycle / 36524 - ofCycle / 146096) / 365 = n := ⟨_, rfl⟩
  simp only [hyear] at hyears ⊢
  obtain ⟨hlt, hle, hge⟩ := hyears
  obtain ⟨start, hstart⟩ : ∃ n, 365 * year + year / 4 - year / 100 = n := ⟨_, rfl⟩
  rw [hstart] at hle hge ⊢
  obtain ⟨march, hmarch⟩ : ∃ n, (5 * (ofCycle - start) + 2) / 153 = n := ⟨_, rfl⟩
  rw [hmarch]
  have hmarch' : march ≤ 11 := by omega
  have hmonth : (153 * march + 2) / 5 ≤ ofCycle - start := by omega
  have hstart' : (365 * year + year / 4 - year / 100 : Int) = start := by omega
  have hquot : ((year : Int) + cycle * 400) / 400 = cycle := by omega
  have hrem : ((year : Int) + cycle * 400) % 400 = year := by omega
  -- Years begin with March, so the last two months belong to the calendar year that follows.
  by_cases h : march < 10
  · have hlate : ¬((march + 3 : Nat) : Int) ≤ 2 := by omega
    have hlate' : ¬(march + 3 : Nat) ≤ 2 := by omega
    simp only [dayOf, h, if_true, hlate, hlate', if_false, add_zero, hquot, hrem, hstart']
    omega
  · have hearly : ((march - 9 : Nat) : Int) ≤ 2 := by omega
    have hearly' : (march - 9 : Nat) ≤ 2 := by omega
    simp only [dayOf, h, if_false, hearly, hearly', if_true, add_sub_cancel_right, hquot, hrem,
      hstart']
    omega

theorem civil_lt_hundred (day : Int) : (civil day).2.1 < 100 ∧ (civil day).2.2 < 100 := by
  obtain ⟨ofCycle, hofCycle, hbound⟩ := exists_dayOfCycle day
  have hyears := yearOfCycle_bounds hbound
  simp only [civil, hofCycle, Int.toNat_natCast]
  obtain ⟨year, hyear⟩ :
      ∃ n, (ofCycle - ofCycle / 1460 + ofCycle / 36524 - ofCycle / 146096) / 365 = n := ⟨_, rfl⟩
  simp only [hyear] at hyears ⊢
  obtain ⟨start, hstart⟩ : ∃ n, 365 * year + year / 4 - year / 100 = n := ⟨_, rfl⟩
  rw [hstart] at hyears ⊢
  constructor
  · split <;> omega
  · omega

def number (digits : List Char) : Int := Nat.ofDigitChars 10 digits 0

def yearOf : List Char → Int
  | '-' :: digits => -number digits
  | '+' :: digits => number digits
  | digits => number digits

def millisOf (text : List Char) : Int :=
  let year := text.take (text.length - 20)
  let rest := text.drop (text.length - 20)
  let part (start count : Nat) : Int := number ((rest.drop start).take count)
  86400000 * dayOf (yearOf year) (part 1 2) (part 4 2) +
    (3600000 * part 7 2 + 60000 * part 10 2 + 1000 * part 13 2 + part 16 3)

def ofText? (text : String) : Option Instant :=
  (ofMillis? (millisOf text.toList)).filter (·.text == text)

theorem toList_padded (width n : Nat) :
    (padded width n).toList =
      List.replicate (width - (Nat.toDigits 10 n).length) '0' ++ Nat.toDigits 10 n :=
  String.toList_ofList

theorem length_padded {n : Nat} (width : Nat) (hw : 0 < width) (h : n < 10 ^ width) :
    (padded width n).toList.length = width := by
  have hdigits := (Nat.length_toDigits_le_iff (b := 10) (by decide) hw).2 h
  rw [toList_padded, List.length_append, List.length_replicate]
  omega

theorem number_padded (width n : Nat) : number (padded width n).toList = n := by
  rw [number, toList_padded, Nat.ofDigitChars_append, Nat.ofDigitChars_replicate_zero,
    Nat.mul_zero, Nat.ofDigitChars_ten_toDigits]

theorem exists_two_digits {n : Nat} (h : n < 100) :
    ∃ a b, (padded 2 n).toList = [a, b] ∧ number [a, b] = n := by
  obtain ⟨a, b, hab⟩ := List.length_eq_two.1 (length_padded 2 (by decide) h)
  exact ⟨a, b, hab, hab ▸ number_padded 2 n⟩

theorem exists_three_digits {n : Nat} (h : n < 1000) :
    ∃ a b c, (padded 3 n).toList = [a, b, c] ∧ number [a, b, c] = n := by
  obtain ⟨a, b, c, habc⟩ := List.length_eq_three.1 (length_padded 3 (by decide) h)
  exact ⟨a, b, c, habc, habc ▸ number_padded 3 n⟩

theorem isDigit_of_mem_padded {width n : Nat} {c : Char} (hc : c ∈ (padded width n).toList) :
    c.isDigit := by
  rw [toList_padded, List.mem_append] at hc
  rcases hc with hc | hc
  · rw [(List.mem_replicate.1 hc).2]
    decide
  · exact Nat.isDigit_of_mem_toDigits (by decide) (by decide) hc

theorem yearOf_digits {digits : List Char} (h : ∀ c ∈ digits, c.isDigit) :
    yearOf digits = number digits := by
  unfold yearOf
  split
  · exact absurd (h '-' List.mem_cons_self) (by decide)
  · exact absurd (h '+' List.mem_cons_self) (by decide)
  · rfl

theorem yearOf_yearText (year : Int) : yearOf (yearText year).toList = year := by
  simp only [yearText]
  split
  · rw [String.toList_append]
    show -number (padded 4 year.natAbs).toList = year
    rw [number_padded]
    omega
  · split
    · rw [String.toList_append]
      show number (padded 4 year.natAbs).toList = year
      rw [number_padded]
      omega
    · rw [yearOf_digits fun c => isDigit_of_mem_padded, number_padded]
      omega

theorem millisOf_text (t : Instant) : millisOf t.text.toList = t.millis := by
  obtain ⟨hmonth, hday⟩ := civil_lt_hundred (t.millis / 86400000)
  have hciv := dayOf_civil (t.millis / 86400000)
  obtain ⟨ofDay, hofDay⟩ : ∃ n : Nat, t.millis % 86400000 = n :=
    ⟨_, (Int.toNat_of_nonneg (by omega)).symm⟩
  simp only [text, hofDay, Int.toNat_natCast]
  generalize civil (t.millis / 86400000) = date at *
  obtain ⟨year, month, day⟩ := date
  simp only at hmonth hday hciv ⊢
  obtain ⟨m₁, m₂, hm, hm'⟩ := exists_two_digits hmonth
  obtain ⟨d₁, d₂, hd, hd'⟩ := exists_two_digits hday
  obtain ⟨h₁, h₂, hh, hh'⟩ := exists_two_digits (n := ofDay / 3600000) (by omega)
  obtain ⟨n₁, n₂, hn, hn'⟩ := exists_two_digits (n := ofDay / 60000 % 60) (by omega)
  obtain ⟨s₁, s₂, hs, hs'⟩ := exists_two_digits (n := ofDay / 1000 % 60) (by omega)
  obtain ⟨f₁, f₂, f₃, hf, hf'⟩ := exists_three_digits (n := ofDay % 1000) (by omega)
  have hy := yearOf_yearText year
  simp only [String.toList_append, hm, hd, hh, hn, hs, hf]
  generalize (yearText year).toList = ys at *
  have hlist : ys ++ "-".toList ++ [m₁, m₂] ++ "-".toList ++ [d₁, d₂] ++ "T".toList ++ [h₁, h₂] ++
      ":".toList ++ [n₁, n₂] ++ ":".toList ++ [s₁, s₂] ++ ".".toList ++ [f₁, f₂, f₃] ++ "Z".toList =
      ys ++ ['-', m₁, m₂, '-', d₁, d₂, 'T', h₁, h₂, ':', n₁, n₂, ':', s₁, s₂, '.', f₁, f₂, f₃,
        'Z'] := by
    simp
  rw [hlist, millisOf]
  simp [hy, hm', hd', hh', hn', hs', hf', hciv]
  omega

theorem ofText?_text (t : Instant) : ofText? t.text = some t := by
  rw [ofText?, millisOf_text, ofMillis?, dif_pos ⟨t.earliest_le, t.le_latest⟩]
  simp

end MediaViews.Instant
