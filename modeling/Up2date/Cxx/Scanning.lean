import Up2date.Cxx.Strings

/-!
# Scanning by character classes

A scanner reads the longest run of a class of characters and goes on with what follows. The
run and the rest are determined by the text: the rest does not begin in the class, and any
two such splits of a text agree. The numbers that `strtol` reads are described by the parts
of their text.
-/

namespace Cxx

variable {α : Type*} {p : α → Bool}

/-- A text that does not begin in a class. -/
def Stops (p : α → Bool) (s : List α) : Prop := ∀ c, s.head? = some c → p c = false

/-- Nothing goes on at the end. -/
@[simp] theorem stops_nil : Stops p [] := by simp [Stops]

/-- Before a character a run ends when the character is not of its kind. -/
@[simp] theorem stops_cons_iff {c : α} {s : List α} : Stops p (c :: s) ↔ p c = false := by
  simp [Stops]

/-- What a run of a class leaves does not begin in the class. -/
theorem stops_dropWhile (p : α → Bool) (s : List α) : Stops p (s.dropWhile p) := by
  intro c hc
  have hhead := List.head?_dropWhile_not p s
  rw [hc] at hhead
  simpa using hhead

/-- The run of a class at the head of a text that begins with one. -/
theorem takeWhile_append_of_stops {run rest : List α} (hrun : ∀ c ∈ run, p c = true)
    (hrest : Stops p rest) : (run ++ rest).takeWhile p = run := by
  rw [List.takeWhile_append_of_pos hrun]
  cases rest with
  | nil => exact List.append_nil run
  | cons c rest => simp [stops_cons_iff.mp hrest]

/-- What follows the run of a class at the head of a text. -/
theorem dropWhile_append_of_stops {run rest : List α} (hrun : ∀ c ∈ run, p c = true)
    (hrest : Stops p rest) : (run ++ rest).dropWhile p = rest := by
  rw [List.dropWhile_append_of_pos hrun]
  cases rest with
  | nil => rfl
  | cons c rest => simp [stops_cons_iff.mp hrest]

/-- A text splits in one way into a run of a class and a rest that does not begin in it. -/
theorem run_unique {run rest run' rest' : List α} (h : run ++ rest = run' ++ rest')
    (hrun : ∀ c ∈ run, p c = true) (hrest : Stops p rest) (hrun' : ∀ c ∈ run', p c = true)
    (hrest' : Stops p rest') : run = run' ∧ rest = rest' := by
  constructor
  · rw [← takeWhile_append_of_stops hrun hrest, h, takeWhile_append_of_stops hrun' hrest']
  · rw [← dropWhile_append_of_stops hrun hrest, h, dropWhile_append_of_stops hrun' hrest']

/-! ### Numerals -/

/-- The sign of a numeral. -/
inductive Sign
  | none | plus | minus
deriving DecidableEq, Repr

/-- The text of a sign. -/
def Sign.text : Sign → Str
  | .none => []
  | .plus => ['+']
  | .minus => ['-']

/-- The text a decimal conversion reads: blanks, an optional sign and digits. -/
structure Numeral where
  blanks : Str
  sign : Sign
  digits : Str
  isSpace_of_mem : ∀ c ∈ blanks, isSpace c = true
  digits_ne_nil : digits ≠ []
  isDigit_of_mem : ∀ c ∈ digits, c.isDigit = true

namespace Numeral

/-- The text of a numeral. -/
def text (n : Numeral) : Str := n.blanks ++ (n.sign.text ++ n.digits)

/-- The value of a numeral. -/
def value (n : Numeral) : ℤ :=
  if n.sign = .minus then -(digitsValue n.digits : ℤ) else digitsValue n.digits

/-- A numeral of digits only. -/
def IsPlain (n : Numeral) : Prop := n.blanks = [] ∧ n.sign = .none

/-- The numeral that a non-empty run of digits is. -/
def ofDigits (ds : Str) (hne : ds ≠ []) (hds : ∀ c ∈ ds, c.isDigit = true) : Numeral :=
  ⟨[], .none, ds, by simp, hne, hds⟩

/-- The digits of a numeral begin with a digit. -/
theorem exists_digits (n : Numeral) : ∃ c ds, n.digits = c :: ds ∧ c.isDigit = true := by
  obtain ⟨c, ds, h⟩ := List.exists_cons_of_ne_nil n.digits_ne_nil
  exact ⟨c, ds, h, n.isDigit_of_mem c (h ▸ List.mem_cons_self)⟩

/-- The sign and the digits do not begin with a blank. -/
theorem stops_isSpace (n : Numeral) (rest : Str) :
    Stops isSpace (n.sign.text ++ n.digits ++ rest) := by
  obtain ⟨c, ds, hdigits, hc⟩ := n.exists_digits
  rw [hdigits]
  cases n.sign with
  | none => exact stops_cons_iff.mpr (isSpace_of_isDigit hc)
  | plus => exact stops_cons_iff.mpr (by decide)
  | minus => exact stops_cons_iff.mpr (by decide)

/-- The sign of a numeral is taken off its text. -/
theorem takeSign_text (n : Numeral) (rest : Str) :
    takeSign (n.sign.text ++ n.digits ++ rest) =
      (decide (n.sign = .minus), n.digits ++ rest) := by
  obtain ⟨c, ds, hdigits, hc⟩ := n.exists_digits
  cases hsign : n.sign with
  | none =>
    rw [hdigits]
    exact takeSign_of_isDigit hc _
  | plus => rfl
  | minus => rfl

/-- A text begins with one numeral at most, and what follows it is determined. -/
theorem text_append_inj {n n' : Numeral} {rest rest' : Str}
    (h : n.text ++ rest = n'.text ++ rest') (hrest : Stops Char.isDigit rest)
    (hrest' : Stops Char.isDigit rest') : n = n' ∧ rest = rest' := by
  have hspaces : n.blanks ++ (n.sign.text ++ n.digits ++ rest) =
      n'.blanks ++ (n'.sign.text ++ n'.digits ++ rest') := by
    simpa only [text, List.append_assoc] using h
  obtain ⟨hblanks, hsigned⟩ := run_unique hspaces n.isSpace_of_mem (n.stops_isSpace rest)
    n'.isSpace_of_mem (n'.stops_isSpace rest')
  have htake := congrArg takeSign hsigned
  rw [takeSign_text, takeSign_text, Prod.mk.injEq] at htake
  obtain ⟨hdigits, hrests⟩ := run_unique htake.2 n.isDigit_of_mem hrest n'.isDigit_of_mem hrest'
  have hsign : n.sign.text = n'.sign.text := by
    rw [hdigits, hrests] at hsigned
    exact List.append_cancel_right (List.append_cancel_right hsigned)
  have hsign : n.sign = n'.sign := by
    cases hn : n.sign <;> cases hn' : n'.sign <;> simp_all [Sign.text]
  exact ⟨by cases n; cases n'; simp_all, hrests⟩

end Numeral

/-- What `takeSign` takes away is a sign. -/
theorem exists_sign (s : Str) :
    ∃ sign : Sign, s = sign.text ++ (takeSign s).2 ∧ (takeSign s).1 = decide (sign = .minus) := by
  unfold takeSign
  split
  · exact ⟨.minus, rfl, rfl⟩
  · exact ⟨.plus, rfl, rfl⟩
  · exact ⟨.none, rfl, rfl⟩

/-- `strtol` converts exactly the texts that begin with a numeral. -/
theorem strtol_eq_some_iff {s : Str} {z : ℤ} {rest : Str} :
    strtol s = some (z, rest) ↔
      ∃ n : Numeral, s = n.text ++ rest ∧ Stops Char.isDigit rest ∧ z = n.value := by
  constructor
  · intro h
    obtain ⟨sign, hsign, hminus⟩ := exists_sign (s.dropWhile isSpace)
    simp only [strtol, Option.ite_none_left_eq_some, Option.some.injEq, Prod.mk.injEq] at h
    obtain ⟨hne, hz, hrest⟩ := h
    let n : Numeral := ⟨s.takeWhile isSpace, sign, _, fun _ => List.mem_takeWhile_imp, hne,
      fun _ => List.mem_takeWhile_imp⟩
    refine ⟨n, ?_, hrest ▸ stops_dropWhile _ _, ?_⟩
    · calc s = s.takeWhile isSpace ++ s.dropWhile isSpace := List.takeWhile_append_dropWhile.symm
        _ = s.takeWhile isSpace ++ (sign.text ++ (takeSign (s.dropWhile isSpace)).2) := by rw [← hsign]
        _ = n.text ++ rest := by
          rw [← hrest, Numeral.text, List.append_assoc, List.append_assoc,
            List.takeWhile_append_dropWhile]
    · rw [← hz, hminus]
      simp only [n, Numeral.value, decide_eq_true_eq]
  · intro h
    obtain ⟨n, rfl, hrest, rfl⟩ := h
    have hskip : (n.text ++ rest).dropWhile isSpace = n.sign.text ++ n.digits ++ rest := by
      rw [Numeral.text, List.append_assoc]
      exact dropWhile_append_of_stops n.isSpace_of_mem (n.stops_isSpace rest)
    simp only [strtol, hskip, n.takeSign_text, takeWhile_append_of_stops n.isDigit_of_mem hrest,
      dropWhile_append_of_stops n.isDigit_of_mem hrest, if_neg n.digits_ne_nil, Numeral.value,
      decide_eq_true_eq]

end Cxx
