import Mathlib

/-!
# Values of the Go runtime

A Go string and a Go byte slice are both sequences of bytes; nothing makes a string valid UTF-8.
`Error` keeps an error as the call that made it, so that two branches of a function stay apart
even where their texts agree in part. Instants are counted in nanoseconds from Go's zero time,
January 1 of year 1, and durations in nanoseconds.
-/

namespace CloudHelp

abbrev Bytes := List UInt8

instance Bytes.lawfulBEq : LawfulBEq Bytes := List.instLawfulBEq

def str (s : String) : Bytes := s.toUTF8.data.toList

/-- One operand of `fmt.Errorf`. -/
inductive Arg where
  | num (n : ℤ)
  | text (s : Bytes)
  | duration (d : ℤ)
  deriving DecidableEq, Repr

inductive Error where
  /-- `errors.New(text)` -/
  | new (text : String)
  /-- `fmt.Errorf(format, args...)` without `%w` -/
  | errorf (format : String) (args : List Arg)
  /-- `fmt.Errorf(format, args..., cause)` whose last verb is `%w` -/
  | wrap (format : String) (args : List Arg) (cause : Error)
  /-- an error for which `errors.Is(err, os.ErrNotExist)` holds -/
  | notExist
  /-- any other error of the operating system or of Go's library -/
  | library (text : String)
  deriving DecidableEq, Repr

namespace Error

/-- `errors.Is(err, os.ErrNotExist)`: the chain of wrapped errors is searched. -/
def isNotExist : Error → Bool
  | .notExist => true
  | .wrap _ _ cause => cause.isNotExist
  | _ => false

end Error

namespace Duration

def second : ℤ := 1000000000

def minute : ℤ := 60 * second

def hour : ℤ := 60 * minute

end Duration

theorem exists_of_isOk {α : Type} {result : Except Error α} (h : result.isOk = true) :
    ∃ a, result = .ok a := by
  cases result with
  | error e => cases h
  | ok a => exact ⟨a, rfl⟩

theorem exists_of_isOk_false {α : Type} {result : Except Error α} (h : result.isOk = false) :
    ∃ e, result = .error e := by
  cases result with
  | error e => exact ⟨e, rfl⟩
  | ok a => cases h

theorem eq_ok_getD {α : Type} {result : Except Error α} (h : result.isOk = true) (a : α) :
    result = .ok (result.toOption.getD a) := by
  cases result with
  | error e => cases h
  | ok b => rfl

namespace Time

/-- `t.IsZero()` -/
def isZero (t : ℤ) : Bool := t == 0

/-- `t.Truncate(time.Second)`: down to a multiple of a second since the zero time. -/
def truncateSecond (t : ℤ) : ℤ := t - t % Duration.second

theorem truncateSecond_le (t : ℤ) : truncateSecond t ≤ t := by
  unfold truncateSecond Duration.second
  omega

theorem truncateSecond_mono {t u : ℤ} (h : t ≤ u) : truncateSecond t ≤ truncateSecond u := by
  unfold truncateSecond Duration.second
  omega

theorem truncateSecond_idem (t : ℤ) : truncateSecond (truncateSecond t) = truncateSecond t := by
  unfold truncateSecond Duration.second
  omega

end Time

end CloudHelp
