import Star9.Base.Calendar
import Star9.Base.Digits
import Star9.Core.Basic

/-!
# The dates of signatures

A signature is dated by the day and the second of the day. The day number becomes a date by a
chain of truncating divisions, on years that begin in March and eras of 400 years.
-/
namespace Star9
open Base

/-- The day number is below 2^64 / 86400, so the 64-bit sums do not overflow; the year is cast to
32 bits. -/
def civilFromDays (daysSinceEpoch : Int) : Int × Nat × Nat :=
  let z := daysSinceEpoch + 719468
  let era := (if 0 ≤ z then z else z - 146096).tdiv 146097
  let doe := z - era * 146097
  let yoe := (doe - doe.tdiv 1460 + doe.tdiv 36524 - doe.tdiv 146096).tdiv 365
  let y := yoe + era * 400
  let doy := doe - (365 * yoe + yoe.tdiv 4 - yoe.tdiv 100)
  let mp := (5 * doy + 2).tdiv 153
  let day := doy - (153 * mp + 2).tdiv 5 + 1
  let month := mp + (if mp < 10 then 3 else -9)
  let year := y + (if month ≤ 2 then 1 else 0)
  (year.bmod (2 ^ 32), (month % 2 ^ 32).toNat, (day % 2 ^ 32).toNat)

/-- `{value:0width$}`; a sign counts for the width. -/
def formatPadded (width : Nat) (value : Int) : String :=
  String.ofList (if value < 0 then '-' :: padNat (width - 1) value.natAbs else padNat width value.toNat)

def formatAmzDate (time : SystemTime) : Except Error (String × String) :=
  if time < unixEpoch then .error (.message "S3 signing time predates Unix epoch")
  else
    let secs := (time - unixEpoch).toNat / 1000000000
    let days := secs / 86400
    let secondsOfDay := secs % 86400
    let (year, month, day) := civilFromDays days
    let hour := secondsOfDay / 3600
    let minute := secondsOfDay % 3600 / 60
    let second := secondsOfDay % 60
    let shortDate := formatPadded 4 year ++ formatPadded 2 month ++ formatPadded 2 day
    let amzDate := shortDate ++ "T" ++ formatPadded 2 hour ++ formatPadded 2 minute ++ formatPadded 2 second ++ "Z"
    .ok (amzDate, shortDate)

/-! ## The calendar behind the chain -/

/-- A March year by centuries, cycles of four years and years, and the days before it. -/
theorem marchDays_parts {y e c a b : Nat} (hy : y = 400 * e + 100 * c + 4 * a + b) (hc : c < 4) (ha : a < 25) (hb : b < 4) :
    marchDays y = 146097 * e + (36524 * c + 1461 * a + 365 * b) := by
  have h4 : y / 4 = 100 * e + 25 * c + a := by omega
  have h100 : y / 100 = 4 * e + c := by omega
  have h400 : y / 400 = e := by omega
  rw [marchDays, h4, h100, h400]
  omega

/-- The leap day closes every fourth year but those that close a century, other than the fourth. -/
theorem lt_marchLength_iff {y e c a b d : Nat} (hy : y = 400 * e + 100 * c + 4 * a + b) (hc : c < 4) (ha : a < 25) (hb : b < 4) :
    d < marchLength y ↔ d < 365 ∨ d = 365 ∧ b = 3 ∧ (a = 24 → c = 3) := by
  have hleap : isLeapYear (y + 1) = true ↔ b = 3 ∧ (a = 24 → c = 3) := by
    have h4 : 4 ∣ y + 1 ↔ b = 3 := by omega
    have h100 : 100 ∣ y + 1 ↔ a = 24 ∧ b = 3 := by omega
    have h400 : 400 ∣ y + 1 ↔ c = 3 ∧ a = 24 ∧ b = 3 := by omega
    rw [isLeapYear_iff, h4, h100, h400]
    tauto
  unfold marchLength
  split
  case isTrue h =>
    have hb := hleap.mp h
    omega
  case isFalse h =>
    have hb : ¬ (b = 3 ∧ (a = 24 → c = 3)) := fun hb => h (hleap.mpr hb)
    omega

/-- The days of an era determine the year in it. -/
theorem year_of_era {c a b d : Nat} (hc : c < 4) (ha : a < 25) (hb : b < 4)
    (hd : d < 365 ∨ d = 365 ∧ b = 3 ∧ (a = 24 → c = 3)) :
    let doe := 36524 * c + 1461 * a + 365 * b + d
    doe < 146097 ∧ (doe - doe / 1460 + doe / 36524 - doe / 146096) / 365 = 100 * c + 4 * a + b := by
  intro doe
  have hdoe : doe = 36524 * c + 1461 * a + 365 * b + d := rfl
  clear_value doe
  -- the very last day of an era is the only one past the last whole century
  by_cases hlast : c = 3 ∧ a = 24 ∧ b = 3 ∧ d = 365
  · obtain ⟨rfl, rfl, rfl, rfl⟩ := hlast
    subst hdoe
    decide
  · have hcentury : doe / 36524 = c := by omega
    have hera : doe / 146096 = 0 := by omega
    have hcycle : doe / 1460 = 25 * c + a ∨ doe / 1460 = 25 * c + a + 1 ∧ b = 3 ∧ 269 ≤ d := by omega
    refine ⟨by omega, ?_⟩
    rw [hcentury, hera]
    omega

/-! ## The chain on natural numbers -/

theorem tdiv_natCast (m k : Nat) : (m : Int).tdiv k = (m / k : Nat) := (Int.ofNat_tdiv m k).symm

theorem yearChain_cast (doe : Nat) :
    ((doe : Int) - (doe : Int).tdiv 1460 + (doe : Int).tdiv 36524 - (doe : Int).tdiv 146096).tdiv 365 =
      ((doe - doe / 1460 + doe / 36524 - doe / 146096) / 365 : Nat) := by
  have h1460 : (doe : Int).tdiv 1460 = (doe / 1460 : Nat) := tdiv_natCast doe 1460
  have h36524 : (doe : Int).tdiv 36524 = (doe / 36524 : Nat) := tdiv_natCast doe 36524
  have h146096 : (doe : Int).tdiv 146096 = (doe / 146096 : Nat) := tdiv_natCast doe 146096
  have hle : doe / 1460 ≤ doe := Nat.div_le_self doe 1460
  have hle' : doe / 146096 ≤ doe / 36524 := Nat.div_le_div_left (by decide) (by decide)
  have hsum : (doe : Int) - (doe / 1460 : Nat) + (doe / 36524 : Nat) - (doe / 146096 : Nat) =
      (doe - doe / 1460 + doe / 36524 - doe / 146096 : Nat) := by
    generalize doe / 1460 = p at *
    generalize doe / 36524 = q at *
    generalize doe / 146096 = r at *
    omega
  rw [h1460, h36524, h146096, hsum]
  exact tdiv_natCast _ 365

theorem yearDay_cast {yoe doe d : Nat} (h : doe = 365 * yoe + yoe / 4 - yoe / 100 + d) :
    (doe : Int) - (365 * yoe + (yoe : Int).tdiv 4 - (yoe : Int).tdiv 100) = d := by
  have h4 : (yoe : Int).tdiv 4 = (yoe / 4 : Nat) := tdiv_natCast yoe 4
  have h100 : (yoe : Int).tdiv 100 = (yoe / 100 : Nat) := tdiv_natCast yoe 100
  have hle : yoe / 100 ≤ yoe / 4 := Nat.div_le_div_left (by decide) (by decide)
  rw [h4, h100]
  generalize yoe / 4 = p at *
  generalize yoe / 100 = q at *
  omega

/-- The month and the day of a day of a March year. -/
theorem marchParts_cast {d : Nat} (hd : d < 366) :
    let mp : Int := ((5 * d + 2) / 153 : Nat)
    let month := mp + (if mp < 10 then 3 else -9)
    (month % 2 ^ 32).toNat = (marchParts d).2.1 ∧
      (((d : Int) - ((153 * ((5 * d + 2) / 153) + 2) / 5 : Nat) + 1) % 2 ^ 32).toNat = (marchParts d).2.2 ∧
      (if month ≤ 2 then (1 : Int) else 0) = (marchParts d).1 := by
  intro mp month
  have hmp : (5 * d + 2) / 153 ≤ 11 := by omega
  have hday : (153 * ((5 * d + 2) / 153) + 2) / 5 ≤ d := by omega
  have hcast : mp = ((5 * d + 2) / 153 : Nat) := rfl
  have hmonth : month = mp + (if mp < 10 then 3 else -9) := rfl
  clear_value month mp
  unfold marchParts
  dsimp only
  generalize (5 * d + 2) / 153 = k at *
  generalize (153 * k + 2) / 5 = start at *
  by_cases hk : k < 10
  · rw [if_pos (by omega)] at hmonth
    rw [if_pos hk, if_neg (by omega)]
    dsimp only
    exact ⟨by omega, by omega, rfl⟩
  · rw [if_neg (by omega)] at hmonth
    rw [if_neg hk, if_pos (by omega)]
    dsimp only
    exact ⟨by omega, by omega, rfl⟩

/-- The chain finds the March year and the day in it. -/
theorem civilFromDays_marchDays {y d : Nat} (hd : d < marchLength y) {n : Int} (hn : n + 719468 = (marchDays y + d : Nat)) :
    civilFromDays n = ((marchDate y d).year.bmod (2 ^ 32), (marchDate y d).month, (marchDate y d).day) := by
  obtain ⟨e, c, a, b, hy, hc, ha, hb⟩ : ∃ e c a b, y = 400 * e + 100 * c + 4 * a + b ∧ c < 4 ∧ a < 25 ∧ b < 4 :=
    ⟨y / 400, y % 400 / 100, y % 100 / 4, y % 4, by omega, by omega, by omega, by omega⟩
  have hleap := (lt_marchLength_iff hy hc ha hb).mp hd
  obtain ⟨hdoe, hyoe⟩ := year_of_era hc ha hb hleap
  have hdays : 36524 * c + 1461 * a + 365 * b + d =
      365 * (100 * c + 4 * a + b) + (100 * c + 4 * a + b) / 4 - (100 * c + 4 * a + b) / 100 + d := by
    have h4 : (100 * c + 4 * a + b) / 4 = 25 * c + a := by omega
    have h100 : (100 * c + 4 * a + b) / 100 = c := by omega
    rw [h4, h100]
    omega
  have hdoy := yearDay_cast hdays
  have hbound := (marchLength_bounds y).2
  rw [marchDays_parts hy hc ha hb, Nat.add_assoc] at hn
  generalize 36524 * c + 1461 * a + 365 * b + d = doe at hdoe hyoe hn hdoy
  have hera : (if 0 ≤ n + 719468 then n + 719468 else n + 719468 - 146096).tdiv 146097 = (e : Int) := by
    rw [hn, if_pos (Int.natCast_nonneg _)]
    refine (tdiv_natCast _ 146097).trans (congrArg Nat.cast ?_)
    omega
  have hrest : n + 719468 - (e : Int) * 146097 = doe := by omega
  have hyear : ((doe : Int) - (doe : Int).tdiv 1460 + (doe : Int).tdiv 36524 - (doe : Int).tdiv 146096).tdiv 365 =
      (100 * c + 4 * a + b : Nat) := by rw [yearChain_cast, hyoe]
  have hmp : (5 * (d : Int) + 2).tdiv 153 = ((5 * d + 2) / 153 : Nat) := tdiv_natCast (5 * d + 2) 153
  have hday : (153 * (((5 * d + 2) / 153 : Nat) : Int) + 2).tdiv 5 = ((153 * ((5 * d + 2) / 153) + 2) / 5 : Nat) :=
    tdiv_natCast (153 * ((5 * d + 2) / 153) + 2) 5
  have hsum : ((100 * c + 4 * a + b : Nat) : Int) + (e : Int) * 400 = y := by omega
  obtain ⟨hmonthCast, hdayCast, hyearCast⟩ := marchParts_cast (show d < 366 by omega)
  simp only [civilFromDays, hera, hrest, hyear, hdoy, hmp, hday, hsum, marchDate, partsDate]
  rw [hmonthCast, hdayCast, hyearCast]

/-! ## The calendar -/

def epochDate : Date := { year := 1970, month := 1, day := 1 }

theorem epochDate_valid : epochDate.Valid := ⟨by decide, by decide, by decide, by decide⟩

theorem epochDate_after_year (n : Nat) : 1970 ≤ (epochDate.after n).year := Date.year_mono (Nat.zero_le n)

theorem civilFromDays_after {n : Nat} (h : (epochDate.after n).year < 2 ^ 31) : civilFromDays n = (epochDate.after n).parts := by
  obtain ⟨y, d, hn, hd, hdate⟩ := after_eq_marchDate n
  have hyear := epochDate_after_year n
  have hparts : epochDate.after n = marchDate y d := hdate
  rw [hparts] at h hyear ⊢
  rw [civilFromDays_marchDays hd (n := n) (by omega), Date.parts, Int.bmod_eq_of_le (by omega) (by omega)]

/-! ## The texts -/

/-- The whole seconds since the epoch. -/
def secondsOf (time : SystemTime) : Nat := (time - unixEpoch).toNat / 1000000000

/-- The text of a time, with its seconds as digits. -/
def amzDigits (d : Date) (second : Nat) : List Char :=
  padNat 4 d.year.toNat ++ (padNat 2 d.month ++ (padNat 2 d.day ++ ('T' :: (padNat 2 (second / 3600) ++
    (padNat 2 (second % 3600 / 60) ++ (padNat 2 (second % 60) ++ ['Z']))))))

theorem formatPadded_of_nonneg (width : Nat) {value : Int} (h : 0 ≤ value) :
    (formatPadded width value).toList = padNat width value.toNat := by
  rw [formatPadded, if_neg (not_lt.mpr h), String.toList_ofList]

theorem formatPadded_natCast (width n : Nat) : (formatPadded width n).toList = padNat width n :=
  formatPadded_of_nonneg width (Int.natCast_nonneg n)

theorem formatAmzDate_eq {time : SystemTime} (htime : 0 ≤ time) (h : (epochDate.after (secondsOf time / 86400)).year < 2 ^ 31) :
    ∃ shortDate, formatAmzDate time =
      .ok (String.ofList (amzDigits (epochDate.after (secondsOf time / 86400)) (secondsOf time % 86400)), shortDate) := by
  have hyear := epochDate_after_year (secondsOf time / 86400)
  have hcivil := civilFromDays_after h
  unfold formatAmzDate
  rw [if_neg (by simpa [unixEpoch] using htime)]
  dsimp only
  rw [show (time - unixEpoch).toNat / 1000000000 = secondsOf time from rfl, hcivil]
  refine ⟨_, congrArg Except.ok (Prod.ext (String.toList_inj.mp ?_) rfl)⟩
  have hlong := formatPadded_of_nonneg 4 (show 0 ≤ (epochDate.after (secondsOf time / 86400)).year by omega)
  simp only [Date.parts, String.toList_append, formatPadded_natCast, hlong, String.toList_ofList, amzDigits, List.append_assoc]
  rfl

theorem amzDigits_lt_iff {d e : Date} (hd : d.Valid) (he : e.Valid) (hdy : 0 ≤ d.year ∧ d.year ≤ 9999) (hey : 0 ≤ e.year ∧ e.year ≤ 9999)
    {s t : Nat} (hs : s < 86400) (ht : t < 86400) :
    amzDigits d s < amzDigits e t ↔ d.key < e.key ∨ d.key = e.key ∧ s < t := by
  have hdb := d.monthDays_bounds
  have heb := e.monthDays_bounds
  obtain ⟨-, hdm, -, hdd⟩ := hd
  obtain ⟨-, hem, -, hed⟩ := he
  unfold amzDigits Date.key
  rw [padNat_append_lt_iff (by decide) (by omega) (by omega), padNat_append_lt_iff (by decide) (by omega) (by omega),
    padNat_append_lt_iff (by decide) (by omega) (by omega), List.cons_lt_cons_iff, padNat_append_lt_iff (by decide) (by omega) (by omega),
    padNat_append_lt_iff (by decide) (by omega) (by omega), padNat_append_lt_iff (by decide) (by omega) (by omega)]
  have hz : ¬ (['Z'] < ['Z']) := List.lt_irrefl _
  have ht' : ¬ ('T' < 'T') := lt_irrefl _
  simp only [hz, ht', false_or, and_false, or_false, true_and]
  omega

/-- The text gives back its date and second, however long the year is. -/
theorem amzDigits_injective {d e : Date} (hd : d.Valid) (he : e.Valid) (hdy : 0 ≤ d.year) (hey : 0 ≤ e.year) {s t : Nat} (hs : s < 86400)
    (ht : t < 86400) (h : amzDigits d s = amzDigits e t) : d = e ∧ s = t := by
  have hdb := d.monthDays_bounds
  have heb := e.monthDays_bounds
  obtain ⟨-, hdm, -, hdd⟩ := hd
  obtain ⟨-, hem, -, hed⟩ := he
  have hlen : ∀ {n : Nat}, n < 100 → (padNat 2 n).length = 2 := fun hn => length_padNat (by decide) hn
  unfold amzDigits at h
  obtain ⟨hyear, h⟩ := List.append_inj' h (by
    simp only [List.length_append, List.length_cons, List.length_nil]
    rw [hlen (by omega), hlen (by omega), hlen (by omega), hlen (by omega), hlen (by omega), hlen (by omega), hlen (by omega),
      hlen (by omega), hlen (by omega), hlen (by omega)])
  obtain ⟨hmonth, h⟩ := List.append_inj h (by rw [hlen (by omega), hlen (by omega)])
  obtain ⟨hday, h⟩ := List.append_inj h (by rw [hlen (by omega), hlen (by omega)])
  rw [List.cons.injEq] at h
  obtain ⟨hhour, h⟩ := List.append_inj h.2 (by rw [hlen (by omega), hlen (by omega)])
  obtain ⟨hminute, h⟩ := List.append_inj h (by rw [hlen (by omega), hlen (by omega)])
  obtain ⟨hsecond, -⟩ := List.append_inj h (by rw [hlen (by omega), hlen (by omega)])
  have hyear := padNat_injective 4 hyear
  have hhour := padNat_injective 2 hhour
  have hminute := padNat_injective 2 hminute
  have hsecond := padNat_injective 2 hsecond
  exact ⟨Date.ext (by omega) (padNat_injective 2 hmonth) (padNat_injective 2 hday), by omega⟩

/-- The day number becomes the date of the Gregorian calendar, and the text of a time is in the
order of its seconds, from which no two times with different seconds have one text. -/
theorem civilFromDays_gregorian :
    (∀ n : Nat, (epochDate.after n).year < 2 ^ 31 →
      civilFromDays n = (epochDate.after n).parts ∧ (epochDate.after n).Valid) ∧
    civilFromDays 0 = (1970, 1, 1) ∧
    (∀ n : Nat, (epochDate.after (n + 1)).year < 2 ^ 31 →
      ∃ d : Date, civilFromDays n = d.parts ∧ civilFromDays (n + 1) = d.next.parts) ∧
    (∀ a b : SystemTime, 0 ≤ a → 0 ≤ b → (epochDate.after (secondsOf a / 86400)).year < 2 ^ 31 →
      (epochDate.after (secondsOf b / 86400)).year < 2 ^ 31 → formatAmzDate a = formatAmzDate b → secondsOf a = secondsOf b) ∧
    (∀ a b : SystemTime, 0 ≤ a → 0 ≤ b → (epochDate.after (secondsOf a / 86400)).year ≤ 9999 →
      (epochDate.after (secondsOf b / 86400)).year ≤ 9999 →
      ∃ amzA shortA amzB shortB, formatAmzDate a = .ok (amzA, shortA) ∧ formatAmzDate b = .ok (amzB, shortB) ∧
        (amzA < amzB ↔ secondsOf a < secondsOf b)) := by
  refine ⟨fun n h => ⟨civilFromDays_after h, epochDate_valid.after n⟩, ?_, ?_, ?_, ?_⟩
  · exact civilFromDays_after (n := 0) (by decide)
  · intro n h
    have hmono : (epochDate.after n).year ≤ (epochDate.after (n + 1)).year := Date.year_mono (Nat.le_succ n)
    refine ⟨epochDate.after n, civilFromDays_after (by omega), ?_⟩
    rw [← Date.after_succ, ← civilFromDays_after h, Nat.cast_succ]
  · intro a b ha hb hya hyb h
    obtain ⟨shortA, hfa⟩ := formatAmzDate_eq ha hya
    obtain ⟨shortB, hfb⟩ := formatAmzDate_eq hb hyb
    rw [hfa, hfb, Except.ok.injEq, Prod.mk.injEq, String.ofList_inj] at h
    have hposA := epochDate_after_year (secondsOf a / 86400)
    have hposB := epochDate_after_year (secondsOf b / 86400)
    obtain ⟨hdate, hsecond⟩ := amzDigits_injective (epochDate_valid.after _) (epochDate_valid.after _) (by omega) (by omega)
      (Nat.mod_lt _ (by decide)) (Nat.mod_lt _ (by decide)) h.1
    have hday := Date.after_injective epochDate_valid hdate
    omega
  · intro a b ha hb hya hyb
    obtain ⟨shortA, hfa⟩ := formatAmzDate_eq ha (by omega)
    obtain ⟨shortB, hfb⟩ := formatAmzDate_eq hb (by omega)
    have hposA := epochDate_after_year (secondsOf a / 86400)
    have hposB := epochDate_after_year (secondsOf b / 86400)
    refine ⟨_, shortA, _, shortB, hfa, hfb, ?_⟩
    rw [String.lt_iff_toList_lt, String.toList_ofList, String.toList_ofList,
      amzDigits_lt_iff (epochDate_valid.after _) (epochDate_valid.after _) (by omega) (by omega) (Nat.mod_lt _ (by decide))
        (Nat.mod_lt _ (by decide))]
    have hkeys := Date.strictMono_key_after epochDate_valid
    rw [hkeys.lt_iff_lt, hkeys.injective.eq_iff]
    omega

/-- The last day of February 1972 and the first of March. -/
theorem civilFromDays_gregorian_leap :
    civilFromDays 789 = (epochDate.after 789).parts ∧ (∃ d : Date, civilFromDays 789 = d.parts ∧ civilFromDays (789 + 1) = d.next.parts) ∧
      (formatAmzDate 0 = formatAmzDate 999999999 → secondsOf 0 = secondsOf 999999999) ∧
      ∃ amzA shortA amzB shortB, formatAmzDate 0 = .ok (amzA, shortA) ∧ formatAmzDate 1000000000 = .ok (amzB, shortB) ∧
        (amzA < amzB ↔ secondsOf 0 < secondsOf 1000000000) :=
  ⟨(civilFromDays_gregorian.1 789 (by decide +kernel)).1, civilFromDays_gregorian.2.2.1 789 (by decide +kernel),
    civilFromDays_gregorian.2.2.2.1 0 999999999 (by decide) (by decide) (by decide) (by decide),
    civilFromDays_gregorian.2.2.2.2 0 1000000000 (by decide) (by decide) (by decide) (by decide)⟩

end Star9
