/-
The texts of aware datetimes and of identifiers: how Python writes them, and
readers of the texts it writes.
-/
import AuthCore.Audit.Search
import AuthCore.Codec.Numerals

namespace AuthCore

def daysInMonth (year month : Nat) : Nat :=
  if month = 2 then
    if year % 4 = 0 ∧ (year % 100 ≠ 0 ∨ year % 400 = 0) then 29 else 28
  else if month ∈ [4, 6, 9, 11] then 30
  else 31

/-- A local time and how far it is ahead of UTC, in microseconds. -/
structure DatetimeFields where
  year : Nat
  month : Nat
  day : Nat
  hour : Nat
  minute : Nat
  second : Nat
  microsecond : Nat
  utcoffset : Int
deriving DecidableEq, Repr

/-- The ranges of the fields; an offset is less than a day. -/
def DatetimeFields.Valid (t : DatetimeFields) : Prop :=
  (1 ≤ t.year ∧ t.year ≤ 9999) ∧ (1 ≤ t.month ∧ t.month ≤ 12) ∧
    (1 ≤ t.day ∧ t.day ≤ daysInMonth t.year t.month) ∧
    (t.hour < 24 ∧ t.minute < 60 ∧ t.second < 60 ∧ t.microsecond < 1000000) ∧
    t.utcoffset.natAbs < 86400000000

instance (t : DatetimeFields) : Decidable t.Valid :=
  inferInstanceAs (Decidable (_ ∧ _))

structure AwareDatetime extends DatetimeFields where
  valid : toDatetimeFields.Valid
deriving DecidableEq

/-- `uuid.UUID` -/
structure UUID where
  int : Nat
  lt : int < 16 ^ 32
deriving DecidableEq

namespace IsoText

open Numeral

def dateText (year month day : Nat) : List Char :=
  text 10 4 year ++ '-' :: (text 10 2 month ++ '-' :: text 10 2 day)

def minutesText (hour minute : Nat) : List Char :=
  text 10 2 hour ++ ':' :: text 10 2 minute

/-- Microseconds are left out where there are none. -/
def secondsText (second microsecond : Nat) : List Char :=
  ':' :: (text 10 2 second ++ if microsecond = 0 then [] else '.' :: text 10 6 microsecond)

/-- The seconds of an offset are left out as well. -/
def offsetText (utcoffset : Int) : List Char :=
  let size := utcoffset.natAbs
  let second := size / 1000000 % 60
  let microsecond := size % 1000000
  (if utcoffset < 0 then '-' else '+') ::
    (minutesText (size / 3600000000) (size / 60000000 % 60) ++
      if second = 0 ∧ microsecond = 0 then [] else secondsText second microsecond)

def expect (c : Char) : List Char → Option (List Char)
  | [] => none
  | d :: rest => if d = c then some rest else none

def readDate (characters : List Char) : Option ((Nat × Nat × Nat) × List Char) := do
  let (year, rest) ← read 10 4 characters
  let (month, rest) ← read 10 2 (← expect '-' rest)
  let (day, rest) ← read 10 2 (← expect '-' rest)
  return ((year, month, day), rest)

def readMinutes (characters : List Char) : Option ((Nat × Nat) × List Char) := do
  let (hour, rest) ← read 10 2 characters
  let (minute, rest) ← read 10 2 (← expect ':' rest)
  return ((hour, minute), rest)

def readFraction : List Char → Option (Nat × List Char)
  | [] => some (0, [])
  | c :: rest => if c = '.' then read 10 6 rest else some (0, c :: rest)

def readSeconds (characters : List Char) : Option ((Nat × Nat) × List Char) := do
  let (second, rest) ← read 10 2 (← expect ':' characters)
  let (microsecond, rest) ← readFraction rest
  return ((second, microsecond), rest)

/-- The parts of an offset that may be missing. -/
def readRest : List Char → Option (Nat × Nat)
  | [] => some (0, 0)
  | c :: rest =>
      match readSeconds (c :: rest) with
      | some (parts, []) => some parts
      | _ => none

def readOffset : List Char → Option Int
  | [] => none
  | sign :: characters => do
      let ((hour, minute), rest) ← readMinutes characters
      let (second, microsecond) ← readRest rest
      let size : Int := ((hour * 3600 + minute * 60 + second) * 1000000 + microsecond : Nat)
      if sign = '+' then some size else if sign = '-' then some (-size) else none

variable {rest : List Char}

theorem expect_cons (c : Char) : expect c (c :: rest) = some rest :=
  if_pos rfl

theorem read_decimal (width : Nat) {n : Nat} (hn : n < 10 ^ width) (rest : List Char) :
    read 10 width (text 10 width n ++ rest) = some (n, rest) :=
  read_text (by decide) (by decide) hn rest

theorem readDate_dateText {year month day : Nat} (hyear : year < 10000) (hmonth : month < 100)
    (hday : day < 100) : readDate (dateText year month day ++ rest) =
      some ((year, month, day), rest) := by
  unfold readDate dateText
  rw [List.append_assoc, read_decimal 4 hyear]
  simp only [List.cons_append, List.append_assoc, Option.bind_eq_bind, Option.bind_some,
    expect_cons, read_decimal 2 hmonth, read_decimal 2 hday, Option.pure_def]

theorem readMinutes_minutesText {hour minute : Nat} (hhour : hour < 100) (hminute : minute < 100) :
    readMinutes (minutesText hour minute ++ rest) = some ((hour, minute), rest) := by
  unfold readMinutes minutesText
  rw [List.append_assoc, read_decimal 2 hhour]
  simp only [List.cons_append, Option.bind_eq_bind, Option.bind_some, expect_cons,
    read_decimal 2 hminute, Option.pure_def]

/-- What follows the seconds is no point, so a missing fraction is seen. -/
theorem readSeconds_secondsText {second microsecond : Nat} (hsecond : second < 100)
    (hmicrosecond : microsecond < 1000000) (hrest : ∀ tail, rest ≠ '.' :: tail) :
    readSeconds (secondsText second microsecond ++ rest) = some ((second, microsecond), rest) := by
  unfold readSeconds secondsText
  rw [List.cons_append, expect_cons, List.append_assoc, Option.bind_eq_bind, Option.bind_some,
    read_decimal 2 hsecond]
  by_cases hwhole : microsecond = 0
  · rw [if_pos hwhole, hwhole, List.nil_append]
    cases rest with
    | nil => rfl
    | cons c tail =>
        have hpoint : c ≠ '.' := fun heq => hrest tail (heq ▸ rfl)
        simp only [Option.bind_eq_bind, Option.bind_some, readFraction, if_neg hpoint,
          Option.pure_def]
  · rw [if_neg hwhole]
    simp only [List.cons_append, Option.bind_eq_bind, Option.bind_some, readFraction, if_true,
      read_decimal 6 hmicrosecond, Option.pure_def]

theorem readRest_secondsText {second microsecond : Nat} (hsecond : second < 100)
    (hmicrosecond : microsecond < 1000000) :
    readRest (if second = 0 ∧ microsecond = 0 then [] else secondsText second microsecond) =
      some (second, microsecond) := by
  by_cases hzero : second = 0 ∧ microsecond = 0
  · rw [if_pos hzero, hzero.1, hzero.2]
    rfl
  · have hread := @readSeconds_secondsText [] second microsecond hsecond hmicrosecond
      (fun _ heq => nomatch heq)
    rw [List.append_nil] at hread
    rw [if_neg hzero]
    change (match readSeconds (secondsText second microsecond) with
      | some (parts, []) => some parts
      | _ => none) = _
    rw [hread]

/-- An offset of less than a day is read from its text. -/
theorem readOffset_offsetText {utcoffset : Int} (h : utcoffset.natAbs < 86400000000) :
    readOffset (offsetText utcoffset) = some utcoffset := by
  unfold offsetText
  dsimp only
  generalize hsize : utcoffset.natAbs = size at h
  have hhour : size / 3600000000 < 100 := by omega
  have hminute : size / 60000000 % 60 < 100 := by omega
  have hsecond : size / 1000000 % 60 < 100 := by omega
  have hmicrosecond : size % 1000000 < 1000000 := by omega
  have hsum : (size / 3600000000 * 3600 + size / 60000000 % 60 * 60 + size / 1000000 % 60) *
      1000000 + size % 1000000 = size := by
    omega
  rw [readOffset, readMinutes_minutesText hhour hminute]
  simp only [Option.bind_eq_bind, Option.bind_some, readRest_secondsText hsecond hmicrosecond, hsum]
  by_cases hnegative : utcoffset < 0
  · rw [if_pos hnegative, if_neg (by decide), if_pos rfl]
    congr 1
    omega
  · rw [if_neg hnegative, if_pos rfl]
    congr 1
    omega

end IsoText

namespace AwareDatetime

open IsoText Numeral

/-- `t.isoformat()` -/
def isoformat (t : AwareDatetime) : String :=
  String.ofList (dateText t.year t.month t.day ++ 'T' :: (minutesText t.hour t.minute ++
    (secondsText t.second t.microsecond ++ offsetText t.utcoffset)))

/-- Reads the texts that `isoformat` writes, with an offset or without one. -/
def readIsoformat (text : String) : Option (ParsedTime AwareDatetime) := do
  let ((year, month, day), rest) ← readDate text.toList
  let ((hour, minute), rest) ← readMinutes (← expect 'T' rest)
  let ((second, microsecond), rest) ← readSeconds rest
  let utcoffset ← if rest = [] then some none else (readOffset rest).map some
  let fields : DatetimeFields :=
    ⟨year, month, day, hour, minute, second, microsecond, utcoffset.getD 0⟩
  if h : fields.Valid then
    match utcoffset with
    | none => some .naive
    | some _ => some (.aware ⟨fields, h⟩)
  else
    none

theorem readIsoformat_isoformat (t : AwareDatetime) :
    readIsoformat t.isoformat = some (.aware t) := by
  obtain ⟨hyear, hmonth, hday, ⟨hhour, hminute, hsecond, hmicrosecond⟩, hoffset⟩ := t.valid
  have hdays : daysInMonth t.year t.month < 100 := by
    unfold daysInMonth
    split_ifs <;> decide
  have hpoint : ∀ tail, offsetText t.utcoffset ≠ '.' :: tail := by
    intro tail heq
    have hsign := List.head_eq_of_cons_eq heq
    split_ifs at hsign <;> exact absurd hsign (by decide)
  have hsome : offsetText t.utcoffset ≠ [] := List.cons_ne_nil _ _
  unfold readIsoformat isoformat
  rw [String.toList_ofList, readDate_dateText (by omega) (by omega) (by omega)]
  simp only [Option.bind_eq_bind, Option.bind_some, expect_cons]
  rw [readMinutes_minutesText (by omega) (by omega)]
  simp only [Option.bind_some]
  rw [readSeconds_secondsText (by omega) hmicrosecond hpoint]
  simp only [Option.bind_some]
  rw [if_neg hsome, readOffset_offsetText hoffset]
  simp only [Option.map_some, Option.bind_some, Option.getD_some]
  exact dif_pos t.valid

/-- The bar of a cursor is in no such text. -/
theorem bar_not_mem_isoformat (t : AwareDatetime) : '|' ∉ t.isoformat.toList := by
  have hdigits := @not_mem_text 10 (by decide) (by decide) '|' (by decide)
  have hseconds : ∀ second microsecond, '|' ∉ secondsText second microsecond := by
    intro second microsecond
    unfold secondsText
    split_ifs <;> simp [hdigits]
  have hoffset : '|' ∉ offsetText t.utcoffset := by
    unfold offsetText
    dsimp only
    split_ifs <;> simp [minutesText, hdigits, hseconds]
  unfold isoformat
  rw [String.toList_ofList]
  simp [dateText, minutesText, hdigits, hseconds, hoffset]

end AwareDatetime

namespace UUID

/-- `str(uuid)` -/
def text (id : UUID) : String :=
  let hex := Numeral.text 16 32 id.int
  String.ofList (hex.take 8 ++ '-' :: ((hex.drop 8).take 4 ++ '-' :: ((hex.drop 12).take 4 ++
    '-' :: ((hex.drop 16).take 4 ++ '-' :: hex.drop 20))))

/-- Reads a text of 32 digits with hyphens anywhere between them. -/
def readText (text : String) : Option UUID :=
  match Numeral.read 16 32 (text.toList.filter (· != '-')) with
  | some (int, []) => if h : int < 16 ^ 32 then some ⟨int, h⟩ else none
  | _ => none

theorem take_append_drop_add (l : List Char) (i n : Nat) :
    (l.drop i).take n ++ l.drop (i + n) = l.drop i := by
  rw [← List.drop_drop, List.take_append_drop]

theorem readText_text (id : UUID) : readText id.text = some id := by
  have hdigits := @Numeral.not_mem_text 16 (by decide) (by decide) '-' (by decide) 32 id.int
  have hread := Numeral.read_text (by decide) (by decide) id.lt []
  have hfilter : id.text.toList.filter (· != '-') = Numeral.text 16 32 id.int := by
    unfold text
    dsimp only
    rw [String.toList_ofList]
    generalize Numeral.text 16 32 id.int = hex at hdigits
    have hkeep : ∀ l : List Char, l ⊆ hex → l.filter (· != '-') = l := by
      intro l hl
      apply List.filter_eq_self.mpr
      intro c hc
      exact bne_iff_ne.mpr fun heq => hdigits (heq ▸ hl hc)
    have hdrop : ∀ i n, (hex.drop i).take n ⊆ hex := fun i n =>
      List.Subset.trans (List.take_subset n _) (List.drop_subset i hex)
    simp only [List.filter_append, List.filter_cons, bne_self_eq_false, Bool.false_eq_true,
      if_false, hkeep _ (List.take_subset 8 hex), hkeep _ (hdrop _ _),
      hkeep _ (List.drop_subset 20 hex)]
    have h16 : (hex.drop 16).take 4 ++ hex.drop 20 = hex.drop 16 := take_append_drop_add hex 16 4
    have h12 : (hex.drop 12).take 4 ++ hex.drop 16 = hex.drop 12 := take_append_drop_add hex 12 4
    have h8 : (hex.drop 8).take 4 ++ hex.drop 12 = hex.drop 8 := take_append_drop_add hex 8 4
    rw [h16, h12, h8, List.take_append_drop]
  rw [List.append_nil] at hread
  unfold readText
  rw [hfilter, hread]
  exact dif_pos id.lt

end UUID

end AuthCore
