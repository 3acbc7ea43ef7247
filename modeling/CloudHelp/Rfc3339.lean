import CloudHelp.JsonEncoding

/-!
# Instants as RFC 3339 text

`time.Time` is written by `encoding/json` as `2006-01-02T15:04:05.999999999Z07:00`: the fraction
without its trailing zeros, and none when it is zero; the zone as `Z` or as an offset in hours and
minutes. Years outside 0 to 9999 and offsets of a day or more have no such text. The text determines
the instant and the zone (`marshalTime_injOn`). All times that the program makes itself are in UTC;
one that was read keeps the zone it was written in.

The calendar counts from March 1 of year 0, so that the leap day is the last of its year and of its
four-year, hundred-year and four-hundred-year cycle.
-/

namespace CloudHelp.Rfc3339

@[ext] structure Date where
  year : ℤ
  month : ℤ
  day : ℤ
  deriving DecidableEq

def century (doe : ℤ) : ℤ := min (doe / 36524) 3

def fourYears (doe : ℤ) : ℤ := (doe - 36524 * century doe) / 1461

def singleYear (doe : ℤ) : ℤ :=
  min ((doe - 36524 * century doe - 1461 * fourYears doe) / 365) 3

/-- The year of a day within four hundred years from a March 1. -/
def yearOfEra (doe : ℤ) : ℤ := 100 * century doe + 4 * fourYears doe + singleYear doe

def dayOfYear (doe : ℤ) : ℤ :=
  doe - 36524 * century doe - 1461 * fourYears doe - 365 * singleYear doe

def monthFromMarch (doy : ℤ) : ℤ := (5 * doy + 2) / 153

def toMonth (mp : ℤ) : ℤ := if mp < 10 then mp + 3 else mp - 9

def fromMonth (month : ℤ) : ℤ := if 2 < month then month - 3 else month + 9

/-- January and February belong to the year that began the March before. -/
def carry (month : ℤ) : ℤ := if 2 < month then 0 else 1

def date (days : ℤ) : Date :=
  let z := days + 306
  let doy := dayOfYear (z % 146097)
  let month := toMonth (monthFromMarch doy)
  { year := yearOfEra (z % 146097) + z / 146097 * 400 + carry month
    month := month
    day := doy - (153 * monthFromMarch doy + 2) / 5 + 1 }

def daysOf (d : Date) : ℤ :=
  let y := d.year - carry d.month
  let yoe := y % 400
  let doy := (153 * fromMonth d.month + 2) / 5 + d.day - 1
  y / 400 * 146097 + (36524 * (yoe / 100) + 1461 * (yoe % 100 / 4) + 365 * (yoe % 4) + doy) - 306

theorem cycle_bounds {doe : ℤ} (h0 : 0 ≤ doe) (h1 : doe < 146097) :
    (0 ≤ century doe ∧ century doe ≤ 3) ∧ (0 ≤ fourYears doe ∧ fourYears doe ≤ 24) ∧
      (0 ≤ singleYear doe ∧ singleYear doe ≤ 3) ∧ 0 ≤ dayOfYear doe ∧ dayOfYear doe ≤ 365 := by
  have hc : 0 ≤ century doe ∧ century doe ≤ 3 := by unfold century; omega
  have hr : 0 ≤ doe - 36524 * century doe ∧ doe - 36524 * century doe ≤ 36524 := by
    unfold century; omega
  have hf : 0 ≤ fourYears doe ∧ fourYears doe ≤ 24 := by unfold fourYears; omega
  have hs : 0 ≤ doe - 36524 * century doe - 1461 * fourYears doe ∧
      doe - 36524 * century doe - 1461 * fourYears doe ≤ 1460 := by
    unfold fourYears; omega
  have hy : 0 ≤ singleYear doe ∧ singleYear doe ≤ 3 := by unfold singleYear; omega
  refine ⟨hc, hf, hy, ?_⟩
  unfold dayOfYear singleYear
  omega

theorem parts_of_year {c q y : ℤ} (hq : 0 ≤ q ∧ q ≤ 24) (hy : 0 ≤ y ∧ y ≤ 3) :
    (100 * c + 4 * q + y) / 100 = c ∧ (100 * c + 4 * q + y) % 100 / 4 = q ∧
      (100 * c + 4 * q + y) % 4 = y := by
  omega

/-- The day of an era is rebuilt from its year and its day of the year. -/
theorem days_yearOfEra {doe : ℤ} (h0 : 0 ≤ doe) (h1 : doe < 146097) :
    36524 * (yearOfEra doe / 100) + 1461 * (yearOfEra doe % 100 / 4) +
      365 * (yearOfEra doe % 4) + dayOfYear doe = doe := by
  obtain ⟨_, hf, hy, _⟩ := cycle_bounds h0 h1
  obtain ⟨e1, e2, e3⟩ := parts_of_year (c := century doe) hf hy
  rw [yearOfEra, e1, e2, e3, dayOfYear]
  ring

theorem monthFromMarch_bounds {doy : ℤ} (h0 : 0 ≤ doy) (h1 : doy ≤ 365) :
    0 ≤ monthFromMarch doy ∧ monthFromMarch doy ≤ 11 ∧
      1 ≤ doy - (153 * monthFromMarch doy + 2) / 5 + 1 ∧
      doy - (153 * monthFromMarch doy + 2) / 5 + 1 ≤ 31 := by
  unfold monthFromMarch
  omega

theorem toMonth_bounds {mp : ℤ} (h0 : 0 ≤ mp) (h1 : mp ≤ 11) :
    1 ≤ toMonth mp ∧ toMonth mp ≤ 12 := by
  unfold toMonth
  split_ifs <;> omega

theorem fromMonth_toMonth {mp : ℤ} (h0 : 0 ≤ mp) (h1 : mp ≤ 11) : fromMonth (toMonth mp) = mp := by
  unfold toMonth fromMonth
  split_ifs <;> omega

theorem daysOf_date (days : ℤ) : daysOf (date days) = days := by
  have h0 : 0 ≤ (days + 306) % 146097 := by omega
  have h1 : (days + 306) % 146097 < 146097 := by omega
  obtain ⟨hc, hf, hy, hd0, hd1⟩ := cycle_bounds h0 h1
  obtain ⟨hm0, hm1, _⟩ := monthFromMarch_bounds hd0 hd1
  have hdoe := days_yearOfEra h0 h1
  have hyoe : 0 ≤ yearOfEra ((days + 306) % 146097) ∧ yearOfEra ((days + 306) % 146097) < 400 := by
    unfold yearOfEra; omega
  simp only [daysOf, date, fromMonth_toMonth hm0 hm1, add_sub_cancel_right]
  -- the era and the year of the era are read off the year again
  have hera : (yearOfEra ((days + 306) % 146097) + (days + 306) / 146097 * 400) % 400 =
      yearOfEra ((days + 306) % 146097) := by omega
  have hquot : (yearOfEra ((days + 306) % 146097) + (days + 306) / 146097 * 400) / 400 =
      (days + 306) / 146097 := by omega
  rw [hera, hquot]
  omega

theorem date_bounds (days : ℤ) :
    1 ≤ (date days).month ∧ (date days).month ≤ 12 ∧
      1 ≤ (date days).day ∧ (date days).day ≤ 31 := by
  have h0 : 0 ≤ (days + 306) % 146097 := by omega
  have h1 : (days + 306) % 146097 < 146097 := by omega
  obtain ⟨_, _, _, hd0, hd1⟩ := cycle_bounds h0 h1
  obtain ⟨hm0, hm1, hday⟩ := monthFromMarch_bounds hd0 hd1
  obtain ⟨hmonth0, hmonth1⟩ := toMonth_bounds hm0 hm1
  exact ⟨hmonth0, hmonth1, hday⟩

def padded : ℕ → ℕ → Bytes
  | 0, _ => []
  | k + 1, n => padded k (n / 10) ++ [UInt8.ofNat (48 + n % 10)]

theorem length_padded (k n : ℕ) : (padded k n).length = k := by
  induction k generalizing n with
  | zero => rfl
  | succ k ih => rw [padded, List.length_append, ih, List.length_singleton]

theorem padded_inj {k n m : ℕ} (hn : n < 10 ^ k) (hm : m < 10 ^ k)
    (h : padded k n = padded k m) : n = m := by
  induction k generalizing n m with
  | zero => omega
  | succ k ih =>
      rw [padded, padded] at h
      obtain ⟨hhead, hlast⟩ := List.append_inj' h rfl
      have hq : n / 10 = m / 10 := by
        apply ih _ _ hhead
        · rw [pow_succ] at hn; omega
        · rw [pow_succ] at hm; omega
      have hd := congrArg UInt8.toNat (List.singleton_inj.mp hlast)
      simp only [UInt8.toNat_ofNat'] at hd
      omega

/-- The nanoseconds of a second, without trailing zeros. -/
def fraction (ns : ℕ) : Bytes :=
  if ns = 0 then [] else 46 :: (padded 9 ns).rdropWhile (· == 48)

theorem rdropWhile_inj {l m : Bytes} (hlen : l.length = m.length)
    (h : l.rdropWhile (· == 48) = m.rdropWhile (· == 48)) : l = m := by
  have hzeros : ∀ k : Bytes, k.rtakeWhile (· == 48) =
      List.replicate (k.rtakeWhile (· == 48)).length 48 := by
    intro k
    apply List.eq_replicate_of_mem
    intro c hc
    simpa using List.mem_rtakeWhile_imp hc
  have hl := List.rdropWhile_append_rtakeWhile (p := (· == (48 : UInt8))) (l := l)
  have hm := List.rdropWhile_append_rtakeWhile (p := (· == (48 : UInt8))) (l := m)
  have hcount : (l.rtakeWhile (· == 48)).length = (m.rtakeWhile (· == 48)).length := by
    have h1 := congrArg List.length hl
    have h2 := congrArg List.length hm
    rw [List.length_append] at h1 h2
    rw [h] at h1
    omega
  rw [← hl, ← hm, h, hzeros l, hzeros m, hcount]

theorem fraction_inj {n m : ℕ} (hn : n < 10 ^ 9) (hm : m < 10 ^ 9)
    (h : fraction n = fraction m) : n = m := by
  unfold fraction at h
  split_ifs at h with h1 h2
  · omega
  · apply padded_inj hn hm
    apply rdropWhile_inj (by rw [length_padded, length_padded])
    exact (List.cons.inj h).2

/-- A zone that is so many minutes ahead of UTC, less than a hundred hours. -/
def zoneText (zone : ℤ) : Bytes :=
  if zone = 0 then [90]
  else (if zone < 0 then 45 else 43) ::
    (padded 2 (zone.natAbs / 60) ++ 58 :: padded 2 (zone.natAbs % 60))

/-- What a clock shows in the zone, as the instant at which one in UTC shows it. -/
def wall (zone t : ℤ) : ℤ := t + zone * 60000000000

/-- `AppendFormat(b, time.RFC3339Nano)` for a year of four digits. -/
def format (zone t : ℤ) : Bytes :=
  let seconds := wall zone t / 1000000000
  let d := date (seconds / 86400)
  let s := (seconds % 86400).toNat
  padded 4 d.year.toNat ++ 45 :: (padded 2 d.month.toNat ++ 45 :: (padded 2 d.day.toNat ++
    84 :: (padded 2 (s / 3600) ++ 58 :: (padded 2 (s / 60 % 60) ++ 58 :: (padded 2 (s % 60) ++
      (fraction (wall zone t % 1000000000).toNat ++ zoneText zone))))))

theorem length_zoneText_le (zone : ℤ) : (zoneText zone).length ≤ 6 := by
  unfold zoneText
  split_ifs <;> simp [length_padded]

theorem length_format_le (zone t : ℤ) : (format zone t).length ≤ 35 := by
  have hzone := length_zoneText_le zone
  have hfraction : (fraction (wall zone t % 1000000000).toNat).length ≤ 10 := by
    unfold fraction
    split_ifs
    · simp
    · have hdrop := (List.rdropWhile_prefix (· == 48)
        (l := padded 9 (wall zone t % 1000000000).toNat)).length_le
      rw [length_padded] at hdrop
      rw [List.length_cons]
      omega
  simp only [format, List.length_append, List.length_cons, length_padded]
  omega

def year (zone t : ℤ) : ℤ := (date (wall zone t / 1000000000 / 86400)).year

theorem isDigit_ofNat {n : ℕ} (h : n < 10) : isDigit (UInt8.ofNat (48 + n)) = true := by
  have hall : ∀ n < 10, isDigit (UInt8.ofNat (48 + n)) = true := by decide
  exact hall n h

theorem isDigit_padded (k n : ℕ) : ∀ c ∈ padded k n, isDigit c = true := by
  induction k generalizing n with
  | zero =>
      intro c hc
      cases hc
  | succ k ih =>
      intro c hc
      rw [padded, List.mem_append, List.mem_singleton] at hc
      obtain hc | rfl := hc
      · exact ih _ c hc
      · exact isDigit_ofNat (Nat.mod_lt n (by decide))

/-- One field of known width and the byte after it. -/
theorem field_inj {k n m : ℕ} {c : UInt8} {r s : Bytes} (hn : n < 10 ^ k) (hm : m < 10 ^ k)
    (h : padded k n ++ c :: r = padded k m ++ c :: s) : n = m ∧ r = s := by
  obtain ⟨hp, hr⟩ := List.append_inj h (by rw [length_padded, length_padded])
  exact ⟨padded_inj hn hm hp, (List.cons.inj hr).2⟩

theorem zoneText_inj {y z : ℤ} (hy : y.natAbs < 24 * 60) (hz : z.natAbs < 24 * 60)
    (h : zoneText y = zoneText z) : y = z := by
  have fields : ∀ {c d : UInt8}, c :: (padded 2 (y.natAbs / 60) ++ 58 :: padded 2 (y.natAbs % 60)) =
      d :: (padded 2 (z.natAbs / 60) ++ 58 :: padded 2 (z.natAbs % 60)) →
        c = d ∧ y.natAbs = z.natAbs := by
    intro c d h
    obtain ⟨hsign, h⟩ := List.cons.inj h
    obtain ⟨hhours, h⟩ := field_inj (by omega) (by omega) h
    have hminutes := padded_inj (by omega) (by omega) h
    exact ⟨hsign, by omega⟩
  unfold zoneText at h
  split_ifs at h with hy0 hz0 hz1 hy1 hz0 hz1 hz0 hz1
  · rw [hy0, hz0]
  all_goals try cases (List.cons.inj h).1
  · have := (fields h).2
    omega
  · have := (fields h).2
    omega

/-- A fraction ends where the zone begins. -/
theorem takeWhile_fraction (ns : ℕ) (zone : ℤ) :
    (fraction ns ++ zoneText zone).takeWhile (fun c => isDigit c || c == 46) = fraction ns := by
  have hfraction : ∀ c ∈ fraction ns, (isDigit c || c == 46) = true := by
    intro c hc
    unfold fraction at hc
    split_ifs at hc
    · cases hc
    · rcases List.mem_cons.mp hc with rfl | hc
      · rfl
      · simp [isDigit_padded 9 ns c ((List.rdropWhile_prefix _ _).subset hc)]
  have hzone : (zoneText zone).takeWhile (fun c => isDigit c || c == 46) = [] := by
    unfold zoneText
    split_ifs <;> rfl
  rw [List.takeWhile_append_of_pos hfraction, hzone, List.append_nil]

theorem format_inj {y z t u : ℤ} (hy : y.natAbs < 24 * 60) (hz : z.natAbs < 24 * 60)
    (ht : 0 ≤ year y t ∧ year y t ≤ 9999) (hu : 0 ≤ year z u ∧ year z u ≤ 9999)
    (h : format y t = format z u) : t = u ∧ y = z := by
  have bt := date_bounds (wall y t / 1000000000 / 86400)
  have bu := date_bounds (wall z u / 1000000000 / 86400)
  have st : 0 ≤ wall y t / 1000000000 % 86400 ∧ wall y t / 1000000000 % 86400 < 86400 := by omega
  have su : 0 ≤ wall z u / 1000000000 % 86400 ∧ wall z u / 1000000000 % 86400 < 86400 := by omega
  unfold year at ht hu
  obtain ⟨e1, h⟩ := field_inj (by omega) (by omega) h
  obtain ⟨e2, h⟩ := field_inj (by omega) (by omega) h
  obtain ⟨e3, h⟩ := field_inj (by omega) (by omega) h
  obtain ⟨e4, h⟩ := field_inj (by omega) (by omega) h
  obtain ⟨e5, h⟩ := field_inj (by omega) (by omega) h
  obtain ⟨e6, h⟩ := List.append_inj h (by rw [length_padded, length_padded])
  have e6 := padded_inj (by omega) (by omega) e6
  have e7 := congrArg (List.takeWhile fun c => isDigit c || c == 46) h
  rw [takeWhile_fraction, takeWhile_fraction] at e7
  have hzone := zoneText_inj hy hz (List.append_inj h (congrArg List.length e7)).2
  have e7 := fraction_inj (by omega) (by omega) e7
  have hdate : date (wall y t / 1000000000 / 86400) = date (wall z u / 1000000000 / 86400) :=
    Date.ext (by omega) (by omega) (by omega)
  have hday := congrArg daysOf hdate
  rw [daysOf_date, daysOf_date] at hday
  subst hzone
  refine ⟨?_, rfl⟩
  have hwall : wall y t = wall y u := by omega
  exact add_right_cancel hwall

/-- `Time.MarshalJSON` of an instant in a zone. -/
def marshalTime (zone t : ℤ) : Except Error Json :=
  if ¬(0 ≤ year zone t ∧ year zone t ≤ 9999) then
    .error (.library "Time.MarshalJSON: year outside of range [0,9999]")
  else if 24 * 60 ≤ zone.natAbs then
    .error (.library "Time.MarshalJSON: timezone hour outside of range [0,23]")
  else .ok (.str (format zone t))

theorem marshalTime_eq_ok {zone t : ℤ} {v : Json} :
    marshalTime zone t = .ok v ↔ (0 ≤ year zone t ∧ year zone t ≤ 9999) ∧
      zone.natAbs < 24 * 60 ∧ v = .str (format zone t) := by
  unfold marshalTime
  split_ifs with hyear hzone
  · exact ⟨fun h => (by cases h), fun h => absurd h.2.1 (not_lt.mpr hzone)⟩
  · exact ⟨fun h => ⟨hyear, not_le.mp hzone, (Except.ok.inj h).symm⟩, fun h => by rw [h.2.2]⟩
  · exact ⟨fun h => (by cases h), fun h => absurd h.1 hyear⟩

theorem marshalTime_injOn {y z t u : ℤ} {v : Json} (ht : marshalTime y t = .ok v)
    (hu : marshalTime z u = .ok v) : t = u ∧ y = z := by
  obtain ⟨hyear, hy, rfl⟩ := marshalTime_eq_ok.mp ht
  obtain ⟨hyear', hz, he⟩ := marshalTime_eq_ok.mp hu
  exact format_inj hy hz hyear hyear' (Json.str.inj he)

/-! ## The text needs no escapes -/

open JsonText (safe)

theorem safe_of_isDigit {c : UInt8} (h : isDigit c = true) : safe true c = true := by
  simp only [isDigit, Bool.and_eq_true, decide_eq_true_eq] at h
  have hne : ∀ d : UInt8, d.toNat < 48 ∨ 57 < d.toNat → c ≠ d := by
    rintro d hd rfl
    omega
  have hlow : 0x20 ≤ c.toNat := by omega
  have hhigh : c.toNat < 0x80 := by omega
  simp [safe, hlow, hhigh, hne]

theorem safe_padded (k n : ℕ) : ∀ c ∈ padded k n, safe true c = true :=
  fun c hc => safe_of_isDigit (isDigit_padded k n c hc)

theorem safe_fraction (ns : ℕ) : ∀ c ∈ fraction ns, safe true c = true := by
  unfold fraction
  split_ifs
  · simp
  · intro c hc
    rcases List.mem_cons.mp hc with rfl | hc
    · rfl
    · exact safe_padded 9 ns c ((List.rdropWhile_prefix _ _).subset hc)

/-- Two fields and the byte between them. -/
theorem safe_field {k n : ℕ} {c : UInt8} {r : Bytes} (hc : safe true c = true)
    (hr : ∀ d ∈ r, safe true d = true) : ∀ d ∈ padded k n ++ c :: r, safe true d = true := by
  intro d hd
  rcases List.mem_append.mp hd with hd | hd
  · exact safe_padded k n d hd
  · rcases List.mem_cons.mp hd with rfl | hd
    · exact hc
    · exact hr d hd

theorem safe_zoneText (zone : ℤ) : ∀ c ∈ zoneText zone, safe true c = true := by
  have hfields := safe_field (k := 2) (n := zone.natAbs / 60) (c := 58) rfl
    (safe_padded 2 (zone.natAbs % 60))
  unfold zoneText
  split_ifs
  · simp [safe]
  · exact List.forall_mem_cons.mpr ⟨rfl, hfields⟩
  · exact List.forall_mem_cons.mpr ⟨rfl, hfields⟩

theorem safe_format (zone t : ℤ) : ∀ c ∈ format zone t, safe true c = true := by
  refine safe_field rfl (safe_field rfl (safe_field rfl (safe_field rfl (safe_field rfl ?_))))
  intro c hc
  rcases List.mem_append.mp hc with hc | hc
  · exact safe_padded _ _ c hc
  · rcases List.mem_append.mp hc with hc | hc
    · exact safe_fraction _ c hc
    · exact safe_zoneText _ c hc

/-- The text is the one of a string without anything to escape. -/
theorem ofString_format (zone t : ℤ) : Json.ofString true (format zone t) = .str (format zone t) :=
  congrArg Json.str (JsonText.escape_of_safe (safe_format zone t))

theorem wellFormed_marshalTime {zone t : ℤ} {v : Json} (h : marshalTime zone t = .ok v) :
    v.wellFormed = true := by
  obtain ⟨-, -, rfl⟩ := marshalTime_eq_ok.mp h
  rw [← ofString_format]
  exact Json.wellFormed_ofString true _

/-- The zero time, and an instant with a fraction of a second in a zone west of Greenwich. -/
example : format 0 0 = str "0001-01-01T00:00:00Z" ∧
    format (-90) (63923688000500000000 : ℤ) = str "2026-08-30T10:30:00.5-01:30" := by decide

end CloudHelp.Rfc3339
