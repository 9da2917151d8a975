import Mathlib.Data.List.TakeWhile
import Mathlib.Data.Int.Basic
import Mathlib.Order.Lattice
import Mathlib.Algebra.Group.Int.Defs
import Mathlib.Algebra.Group.Nat.Defs

/-!
# C++ strings and their numeric conversions

A `std::string` is the list of its characters, the null character included. Reading it
through a `const char *` keeps only what precedes the first null character. The
conversions follow the C library: `strtol` skips blanks, takes an optional sign and the
longest run of decimal digits, and `std::stoi` rejects a missing or oversized number.

Characters are compared by code only, so a byte string is the special case in which every
code is below 256.
-/

namespace Cxx

/-- A `std::string`. -/
abbrev Str := List Char

/-- The character that ends a C string. -/
def nul : Char := Char.ofNat 0

/-- The C string a `const char *` to the characters denotes. -/
def cstr (s : Str) : Str := s.takeWhile (fun c => c ≠ nul)

/-- A C string holds no null character. -/
theorem nul_notMem_cstr (s : Str) : nul ∉ cstr s := by
  intro h
  have := List.mem_takeWhile_imp h
  simp at this

/-- Reading a string as a C string loses nothing exactly when it holds no null character. -/
theorem cstr_eq_self_iff (s : Str) : cstr s = s ↔ nul ∉ s := by
  constructor
  · intro h hmem
    rw [← h] at hmem
    exact nul_notMem_cstr s hmem
  · intro h
    refine List.takeWhile_eq_self_iff.mpr fun c hc => ?_
    simp only [ne_eq, decide_eq_true_eq]
    rintro rfl
    exact h hc

/-- A string without null characters is its own C string. -/
theorem cstr_of_notMem {s : Str} (h : nul ∉ s) : cstr s = s := (cstr_eq_self_iff s).mpr h

/-- Taking the C string twice changes nothing. -/
@[simp] theorem cstr_cstr (s : Str) : cstr (cstr s) = cstr s :=
  cstr_of_notMem (nul_notMem_cstr s)

/-- `isspace` in the "C" locale. -/
def isSpace (c : Char) : Bool := c == ' ' || (9 ≤ c.toNat && c.toNat ≤ 13)

/-- The number a run of decimal digits denotes. -/
def digitsValue (ds : Str) : ℕ := Nat.ofDigitChars 10 ds 0

/-- The optional sign of a subject sequence and what follows it. -/
def takeSign : Str → Bool × Str
  | '-' :: rest => (true, rest)
  | '+' :: rest => (false, rest)
  | rest => (false, rest)

/-- `strtol` in base 10 before range checks: the number and the unread rest, or no conversion. -/
def strtol (s : Str) : Option (ℤ × Str) :=
  let signed := takeSign (s.dropWhile isSpace)
  let digits := signed.2.takeWhile Char.isDigit
  if digits = [] then none
  else some (if signed.1 then -(digitsValue digits : ℤ) else digitsValue digits,
    signed.2.dropWhile Char.isDigit)

/-- The least `int`. -/
def intMin : ℤ := -2 ^ 31

/-- The greatest `int`. -/
def intMax : ℤ := 2 ^ 31 - 1

/-- The standard exceptions that the library functions of the program can raise. -/
inductive StdException
  | runtimeError (what : Str)
  | invalidArgument (what : Str)
  | outOfRange (what : Str)
deriving DecidableEq, Repr

/-- `std::stoi`. -/
def stoi (s : Str) : Except StdException ℤ :=
  match strtol s with
  | none => .error (.invalidArgument "stoi".toList)
  | some (n, _) => if intMin ≤ n ∧ n ≤ intMax then .ok n else .error (.outOfRange "stoi".toList)

/-- `std::to_string` on a non-negative number. -/
def decimal (n : ℕ) : Str := Nat.toDigits 10 n

/-- `std::to_string(int)`. -/
def stdToString : ℤ → Str
  | .ofNat n => decimal n
  | .negSucc n => '-' :: decimal (n + 1)

/-- Two's complement wrap-around of a result that does not fit an `int`. -/
def wrapInt (z : ℤ) : ℤ := z.bmod (2 ^ 32)

/-- The saturation of `strtol` at the ends of a 64-bit `long`. -/
def clampLong (z : ℤ) : ℤ := max (-2 ^ 63) (min (2 ^ 63 - 1) z)

/-- The `%d` conversion of `sscanf`: the stored `int` and the unread rest. -/
def scanInt (s : Str) : Option (ℤ × Str) :=
  (strtol s).map fun r => (wrapInt (clampLong r.1), r.2)

/-- The decimal digits of a number are digits. -/
theorem isDigit_of_mem_decimal {n : ℕ} {c : Char} (h : c ∈ decimal n) : c.isDigit = true :=
  Nat.isDigit_of_mem_toDigits (by decide) (by decide) h

/-- A decimal numeral has at least one digit. -/
theorem decimal_ne_nil (n : ℕ) : decimal n ≠ [] := Nat.toDigits_ne_nil

/-- The digits of a number denote it. -/
theorem digitsValue_decimal (n : ℕ) : digitsValue (decimal n) = n :=
  Nat.ofDigitChars_toDigits (by decide) (by decide)

/-- No digit is a blank. -/
theorem isSpace_of_isDigit {c : Char} (h : c.isDigit = true) : isSpace c = false := by
  have hc : 48 ≤ c.toNat ∧ c.toNat ≤ 57 := by
    simpa [Char.isDigit, UInt32.le_iff_toNat_le] using h
  have hne : c ≠ ' ' := by
    rintro rfl
    simp at hc
  simp only [isSpace, Bool.or_eq_false_iff, beq_eq_false_iff_ne, Bool.and_eq_false_imp,
    decide_eq_true_eq, decide_eq_false_iff_not]
  exact ⟨hne, fun _ => by omega⟩

/-- A leading digit is neither skipped nor taken for a sign. -/
theorem takeSign_of_isDigit {c : Char} (h : c.isDigit = true) (rest : Str) :
    takeSign (c :: rest) = (false, c :: rest) := by
  unfold takeSign
  split
  · simp_all
  · simp_all
  · rfl

/-- `strtol` reads an all-digit string completely. -/
theorem strtol_digits {ds : Str} (hne : ds ≠ []) (hds : ∀ c ∈ ds, c.isDigit = true) :
    strtol ds = some ((digitsValue ds : ℤ), []) := by
  obtain ⟨c, rest, rfl⟩ := List.exists_cons_of_ne_nil hne
  have hc : c.isDigit = true := hds c List.mem_cons_self
  have hskip : (c :: rest).dropWhile isSpace = c :: rest := by
    simp [isSpace_of_isDigit hc]
  have htake : (c :: rest).takeWhile Char.isDigit = c :: rest :=
    List.takeWhile_eq_self_iff.mpr hds
  have hdrop : (c :: rest).dropWhile Char.isDigit = [] := List.dropWhile_eq_nil_iff.mpr hds
  simp only [strtol, hskip, takeSign_of_isDigit hc, htake, hdrop]
  simp

/-- `std::stoi` reads back what `std::to_string` writes, exactly up to the greatest `int`. -/
theorem stoi_decimal (n : ℕ) :
    stoi (decimal n) =
      if (n : ℤ) ≤ intMax then .ok n else .error (.outOfRange "stoi".toList) := by
  have hn : intMin ≤ (n : ℤ) := le_trans (by decide) (Int.natCast_nonneg n)
  simp only [stoi, strtol_digits (decimal_ne_nil n) (fun _ => isDigit_of_mem_decimal),
    digitsValue_decimal, hn, true_and]

/-- No decimal numeral holds a null character. -/
theorem nul_notMem_decimal (n : ℕ) : nul ∉ decimal n := fun h =>
  absurd (isDigit_of_mem_decimal h) (by decide)

/-- A decimal numeral is its own C string. -/
@[simp] theorem cstr_decimal (n : ℕ) : cstr (decimal n) = decimal n :=
  cstr_of_notMem (nul_notMem_decimal n)

end Cxx
