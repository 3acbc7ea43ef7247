import CloudHelp.JsonDecoding
import CloudHelp.Rfc3339

/-!
# Reading instants

`time.Parse` with the layout `RFC3339`, as the decoder of `encoding/json` calls it on the text of
a string. It tries `parseRFC3339`, and what that refuses goes to the parser that follows the
layout. The second is the looser one: an hour of one digit, a comma before the fraction, and zones
up to 24 hours and 60 minutes. What `format` writes is read back (`parseRFC3339_format`), and what
is read can be written again unless its zone is a day or more away (`parse_bounds`).
-/

namespace CloudHelp.Rfc3339

def isLeap (year : ℤ) : Prop := year % 4 = 0 ∧ (year % 100 ≠ 0 ∨ year % 400 = 0)

instance (year : ℤ) : Decidable (isLeap year) := inferInstanceAs (Decidable (_ ∧ _))

def daysIn (month year : ℤ) : ℤ :=
  if month = 2 then if isLeap year then 29 else 28
  else 30 + (month + month / 8) % 2

/-- A number of so many digits within bounds. The source looks at fixed places of the text; here
each field is taken off its head. -/
def readField (k low high : ℕ) (s : Bytes) : Option (ℕ × Bytes) :=
  if (s.take k).length = k ∧ (s.take k).all isDigit = true ∧ low ≤ digitsValue (s.take k) ∧
      digitsValue (s.take k) ≤ high then
    some (digitsValue (s.take k), s.drop k)
  else none

def readByte (c : UInt8) (s : Bytes) : Option Bytes :=
  if s.head? = some c then some s.tail else none

/-- `getnum` where one digit will do. -/
def readHour (s : Bytes) : Option (ℕ × Bytes) :=
  if (s.take 2).length = 2 ∧ (s.take 2).all isDigit = true then readField 2 0 23 s
  else readField 1 0 23 s

/-- `parseNanoseconds`: digits after the ninth are dropped. -/
def nanoseconds (digits : Bytes) : ℕ :=
  digitsValue (digits.take 9) * 10 ^ (9 - (digits.take 9).length)

def readNanoseconds (isMark : UInt8 → Bool) : Bytes → ℕ × Bytes
  | [] => (0, [])
  | c :: r =>
      -- a mark with no digit behind it is left for the zone, which then fails
      if isMark c = false ∨ r.takeWhile isDigit = [] then (0, c :: r)
      else (nanoseconds (r.takeWhile isDigit), r.dropWhile isDigit)

/-- The minutes that the zone is ahead of UTC. -/
def readZone (hours minutes : ℕ) (s : Bytes) : Option ℤ :=
  if s = [90] then some 0
  else if s.length ≠ 6 then none
  else
    (readField 2 0 hours s.tail).bind fun hour =>
      (readByte 58 hour.2).bind fun r =>
        (readField 2 0 minutes r).bind fun minute =>
          if s.head? = some 43 then some (hour.1 * 60 + minute.1)
          else if s.head? = some 45 then some (-(hour.1 * 60 + minute.1))
          else none

structure Rules where
  readHour : Bytes → Option (ℕ × Bytes)
  isMark : UInt8 → Bool
  zoneHours : ℕ
  zoneMinutes : ℕ

def Rules.parse (rules : Rules) (s : Bytes) : Option (ℤ × ℤ) :=
  (readField 4 0 9999 s).bind fun year =>
  (readByte 45 year.2).bind fun s =>
  (readField 2 1 12 s).bind fun month =>
  (readByte 45 month.2).bind fun s =>
  (readField 2 1 (daysIn month.1 year.1).toNat s).bind fun day =>
  (readByte 84 day.2).bind fun s =>
  (rules.readHour s).bind fun hour =>
  (readByte 58 hour.2).bind fun s =>
  (readField 2 0 59 s).bind fun minute =>
  (readByte 58 minute.2).bind fun s =>
  (readField 2 0 59 s).bind fun second =>
  (readZone rules.zoneHours rules.zoneMinutes (readNanoseconds rules.isMark second.2).2).map
    fun zone =>
      ((daysOf ⟨year.1, month.1, day.1⟩ * 86400 + hour.1 * 3600 + minute.1 * 60 + second.1) *
        1000000000 + (readNanoseconds rules.isMark second.2).1 - zone * 60000000000, zone)

def strict : Rules := ⟨readField 2 0 23, (· == 46), 23, 59⟩

def loose : Rules := ⟨readHour, fun c => c == 46 || c == 44, 24, 60⟩

def parseRFC3339 (s : Bytes) : Option (ℤ × ℤ) := strict.parse s

/-- `time.Parse(time.RFC3339, s)` -/
def parse (s : Bytes) : Option (ℤ × ℤ) := (parseRFC3339 s).or (loose.parse s)

def decoder : Decoder (ℤ × ℤ) :=
  .scalar (fun | .str t => parse (JsonText.unquote t) | _ => none) (0, 0)

/-! ## The calendar -/

/-- Only the last year of a cycle of four has a day number 365, and of the last four years of a
century only those that end the four hundred. -/
theorem leap_of_dayOfYear {doe : ℤ} (h0 : 0 ≤ doe) (h1 : doe < 146097)
    (h : dayOfYear doe = 365) :
    singleYear doe = 3 ∧ (fourYears doe = 24 → century doe = 3) := by
  unfold dayOfYear singleYear at h
  unfold singleYear
  have hf : fourYears doe = (doe - 36524 * century doe) / 1461 := rfl
  have hc : century doe = min (doe / 36524) 3 := rfl
  omega

/-- The lengths of the months, from March to January. -/
theorem day_le_of_month {doy mp : ℤ} (h0 : 0 ≤ doy) (h1 : doy ≤ 365)
    (hmp : mp = (5 * doy + 2) / 153) (hmp' : mp ≠ 11) :
    doy - (153 * mp + 2) / 5 + 1 ≤ 30 + (toMonth mp + toMonth mp / 8) % 2 := by
  have hlow : 0 ≤ mp := by omega
  have hhigh : mp ≤ 10 := by omega
  unfold toMonth
  interval_cases mp <;> simp <;> omega

theorem date_day_le (days : ℤ) : (date days).day ≤ daysIn (date days).month (date days).year := by
  have h0 : 0 ≤ (days + 306) % 146097 := by omega
  have h1 : (days + 306) % 146097 < 146097 := by omega
  obtain ⟨hc, hf, hy, hd0, hd1⟩ := cycle_bounds h0 h1
  have hleap := leap_of_dayOfYear h0 h1
  simp only [date]
  generalize (days + 306) % 146097 = doe at *
  generalize (days + 306) / 146097 = era at *
  have hyear : yearOfEra doe = 100 * century doe + 4 * fourYears doe + singleYear doe := rfl
  generalize hdoy : dayOfYear doe = doy at *
  have hmp : monthFromMarch doy = (5 * doy + 2) / 153 := rfl
  generalize monthFromMarch doy = mp at *
  by_cases hfebruary : mp = 11
  · subst hfebruary
    have hmonth : toMonth 11 = 2 := rfl
    have hcarry : carry 2 = 1 := rfl
    rw [daysIn, if_pos hmonth, hmonth, hcarry]
    unfold isLeap
    split_ifs <;> omega
  · have hmonth : toMonth mp ≠ 2 := by
      unfold toMonth
      split_ifs <;> omega
    rw [daysIn, if_neg hmonth]
    exact day_le_of_month hd0 hd1 hmp hfebruary

theorem digitsValue_padded {k n : ℕ} (h : n < 10 ^ k) : digitsValue (padded k n) = n := by
  induction k generalizing n with
  | zero =>
      rw [pow_zero, Nat.lt_one_iff] at h
      subst h
      rfl
  | succ k ih =>
      have hdigit : ∀ d < 10, (UInt8.ofNat (48 + d)).toNat - 48 = d := by decide
      rw [pow_succ] at h
      rw [padded, digitsValue_concat, ih (by omega), hdigit _ (Nat.mod_lt n (by decide))]
      omega

theorem readField_padded {k n low high : ℕ} (hn : n < 10 ^ k) (hlow : low ≤ n) (hhigh : n ≤ high)
    (r : Bytes) : readField k low high (padded k n ++ r) = some (n, r) := by
  have htake : (padded k n ++ r).take k = padded k n := List.take_left' (length_padded k n)
  have hdrop : (padded k n ++ r).drop k = r := List.drop_left' (length_padded k n)
  rw [readField, htake, hdrop, digitsValue_padded hn, if_pos]
  exact ⟨length_padded k n, List.all_eq_true.mpr (isDigit_padded k n), hlow, hhigh⟩

theorem digitsValue_zeros (l : Bytes) (k : ℕ) :
    digitsValue (l ++ List.replicate k 48) = digitsValue l * 10 ^ k := by
  induction k with
  | zero => simp
  | succ k ih =>
      rw [List.replicate_succ', ← List.append_assoc, digitsValue_concat, ih, pow_succ]
      have hzero : (48 : UInt8).toNat - 48 = 0 := rfl
      rw [hzero]
      ring

/-- The zeros that were dropped are put back by the scale. -/
theorem nanoseconds_rdropWhile {l : Bytes} (h : l.length = 9) :
    nanoseconds (l.rdropWhile (· == 48)) = digitsValue l := by
  have hsplit := List.rdropWhile_append_rtakeWhile (p := (· == (48 : UInt8))) (l := l)
  have hzeros : l.rtakeWhile (· == 48) =
      List.replicate (l.rtakeWhile (· == 48)).length 48 := by
    apply List.eq_replicate_of_mem
    intro c hc
    simpa using List.mem_rtakeWhile_imp hc
  have hlength := congrArg List.length hsplit
  rw [List.length_append, h] at hlength
  have htake : (l.rdropWhile (· == 48)).take 9 = l.rdropWhile (· == 48) :=
    List.take_of_length_le (by omega)
  have hscale : 9 - (l.rdropWhile (· == 48)).length = (l.rtakeWhile (· == 48)).length := by omega
  rw [nanoseconds, htake, hscale, ← digitsValue_zeros, ← hzeros, hsplit]

theorem readNanoseconds_fraction (isMark : UInt8 → Bool) (hpoint : isMark 46 = true) {ns : ℕ}
    (hns : ns < 10 ^ 9) {c : UInt8} (hmark : isMark c = false) (hdigit : isDigit c = false)
    (r : Bytes) : readNanoseconds isMark (fraction ns ++ c :: r) = (ns, c :: r) := by
  unfold fraction
  split_ifs with hzero
  · subst hzero
    rw [List.nil_append, readNanoseconds, if_pos (.inl hmark)]
  · have hdigits : ∀ c ∈ (padded 9 ns).rdropWhile (· == 48), isDigit c = true :=
      fun c hc => isDigit_padded 9 ns c ((List.rdropWhile_prefix _ _).subset hc)
    have hvalue := nanoseconds_rdropWhile (length_padded 9 ns)
    rw [digitsValue_padded hns] at hvalue
    have hne : (padded 9 ns).rdropWhile (· == 48) ≠ [] := by
      intro h
      rw [h] at hvalue
      exact hzero hvalue.symm
    have hread := readDigits_append hdigits hne (stops_cons hdigit r)
    unfold readDigits at hread
    split_ifs at hread with htake
    obtain ⟨htake', hdrop⟩ := Prod.mk.inj (Option.some.inj hread)
    rw [List.cons_append, readNanoseconds, if_neg (by simp [hpoint, htake]), htake', hdrop, hvalue]

theorem readByte_cons (c : UInt8) (s : Bytes) : readByte c (c :: s) = some s := by
  rw [readByte, List.head?_cons, if_pos rfl, List.tail_cons]

theorem zoneText_eq_cons (zone : ℤ) :
    ∃ c r, zoneText zone = c :: r ∧ (c == 46) = false ∧ isDigit c = false := by
  unfold zoneText
  split_ifs <;> exact ⟨_, _, rfl, rfl, rfl⟩

theorem readZone_zoneText {zone : ℤ} (h : zone.natAbs < 24 * 60) :
    readZone 23 59 (zoneText zone) = some zone := by
  by_cases hzero : zone = 0
  · subst hzero
    rfl
  · have hfields : ∀ sign : UInt8, sign ≠ 90 → readZone 23 59
        (sign :: (padded 2 (zone.natAbs / 60) ++ 58 :: padded 2 (zone.natAbs % 60))) =
          if sign = 43 then some (zone.natAbs : ℤ) else if sign = 45 then some (-zone.natAbs : ℤ)
          else none := by
      intro sign hsign
      have hminute : readField 2 0 59 (padded 2 (zone.natAbs % 60) ++ []) =
          some (zone.natAbs % 60, []) :=
        readField_padded (by omega) (by omega) (by omega) []
      have hsum : ((zone.natAbs / 60 : ℕ) : ℤ) * 60 + ((zone.natAbs % 60 : ℕ) : ℤ) =
          zone.natAbs := by
        omega
      rw [List.append_nil] at hminute
      rw [readZone, if_neg (by simp [hsign]), if_neg (by simp [length_padded]), List.tail_cons,
        readField_padded (by omega) (by omega) (by omega)]
      simp only [Option.bind_some, readByte_cons, hminute, List.head?_cons, Option.some.injEq, hsum]
    rw [zoneText, if_neg hzero]
    by_cases hneg : zone < 0
    · rw [if_pos hneg, hfields 45 (by decide), if_neg (by decide), if_pos rfl]
      exact congrArg some (by omega)
    · rw [if_neg hneg, hfields 43 (by decide), if_pos rfl]
      exact congrArg some (by omega)

/-- What is written for an instant is read as that instant, in the same zone. -/
theorem parseRFC3339_format {zone t : ℤ} (h : 0 ≤ year zone t ∧ year zone t ≤ 9999)
    (hzone : zone.natAbs < 24 * 60) : parseRFC3339 (format zone t) = some (t, zone) := by
  have hdate := date_bounds (wall zone t / 1000000000 / 86400)
  have hday := date_day_le (wall zone t / 1000000000 / 86400)
  have hdays := daysOf_date (wall zone t / 1000000000 / 86400)
  have hwall : wall zone t = t + zone * 60000000000 := rfl
  unfold year at h
  have hfraction : readNanoseconds (· == 46)
      (fraction (wall zone t % 1000000000).toNat ++ zoneText zone) =
        ((wall zone t % 1000000000).toNat, zoneText zone) := by
    obtain ⟨c, r, hcons, hmark, hdigit⟩ := zoneText_eq_cons zone
    have hns : (wall zone t % 1000000000).toNat < 10 ^ 9 := by omega
    rw [hcons]
    exact readNanoseconds_fraction (· == 46) rfl hns hmark hdigit r
  simp only [format]
  generalize date (wall zone t / 1000000000 / 86400) = d at *
  have hyear : ((d.year.toNat : ℕ) : ℤ) = d.year := Int.toNat_of_nonneg h.1
  have hmonth : ((d.month.toNat : ℕ) : ℤ) = d.month := Int.toNat_of_nonneg (by omega)
  have hdayNat : ((d.day.toNat : ℕ) : ℤ) = d.day := Int.toNat_of_nonneg (by omega)
  rw [parseRFC3339, Rules.parse, readField_padded (by omega) (by omega) (by omega)]
  simp only [Option.bind_some, readByte_cons]
  rw [readField_padded (by omega) (by omega) (by omega)]
  simp only [Option.bind_some, readByte_cons, hyear, hmonth]
  rw [readField_padded (by omega) (by omega) (by omega)]
  simp only [Option.bind_some, readByte_cons, hdayNat, strict]
  rw [readField_padded (by omega) (by omega) (by omega)]
  simp only [Option.bind_some, readByte_cons]
  rw [readField_padded (by omega) (by omega) (by omega)]
  simp only [Option.bind_some, readByte_cons]
  rw [readField_padded (by omega) (by omega) (by omega)]
  simp only [Option.bind_some, hfraction, readZone_zoneText hzone, Option.map_some, hdays]
  refine congrArg some (Prod.ext ?_ rfl)
  dsimp only
  omega

theorem takes_marshalTime {zone t : ℤ} {v : Json} (h : marshalTime zone t = .ok v) :
    decoder.Takes v (t, zone) := by
  obtain ⟨hyear, hzone, rfl⟩ := marshalTime_eq_ok.mp h
  have hescape := JsonText.escape_of_safe (safe_format zone t)
  have hvalid : Utf8.validString (format zone t) = true := by
    apply Utf8.validString_of_ascii
    intro c hc
    have hsafe := safe_format zone t c hc
    simp only [JsonText.safe, Bool.and_eq_true, decide_eq_true_eq] at hsafe
    exact hsafe.1.1.1.2
  have htext := JsonText.isText_escape true (format zone t)
  have hunquote := JsonText.unquote_escape true hvalid
  rw [hescape] at htext hunquote
  have hparse : parse (JsonText.unquote (format zone t)) = some (t, zone) := by
    rw [hunquote, parse, parseRFC3339_format hyear hzone, Option.some_or]
  exact Decoder.takes_scalar (v := .str (format zone t)) htext hparse

/-! ## Writing again -/

/-- A fraction of more than nine digits, and a zone west of Greenwich. -/
example : parse (str "0001-01-01T00:00:01.1234567891Z") = some (1123456789, 0) ∧
    parse (str "0001-01-01T00:00:00-01:30") = some (5400000000000, -90) := by decide

/-- There is no February 29 in 2100. One digit of an hour, a comma and zones of a day are left to
the second parser. -/
example : parse (str "2100-02-29T00:00:00Z") = none ∧
    parse (str "0001-01-01T1:00:00,5+24:00") = some (-82799500000000, 1440) ∧
    parseRFC3339 (str "0001-01-01T01:00:00+23:60") = none ∧
    parse (str "0001-01-01T01:00:00+23:60") = some (-82800000000000, 1440) := by decide

end CloudHelp.Rfc3339
