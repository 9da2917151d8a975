import Up2date.Json.Value
import Mathlib.Data.List.Basic

/-!
# JSON texts

A writer of compact JSON texts and a recursive-descent parser of JSON texts whose numbers
are integers. Both work on trees of any depth and on strings of any characters: quotes,
backslashes and control characters are escaped. Every value without floating-point numbers
is read back from what is written for it.
-/

namespace Json

open Cxx

/-- The quotation mark. -/
def quote : Char := Char.ofNat 34

/-- The backslash. -/
def backslash : Char := Char.ofNat 92

/-- The bracket that opens an object. -/
def openBrace : Char := Char.ofNat 123

/-- The bracket that closes an object. -/
def closeBrace : Char := Char.ofNat 125

/-! ### Writing -/

/-- The characters with an escape of their own, and the letters of those escapes. -/
def escapes : List (Char × Char) :=
  [(quote, quote), (backslash, backslash), (Char.ofNat 8, 'b'), (Char.ofNat 9, 't'),
    (Char.ofNat 10, 'n'), (Char.ofNat 12, 'f'), (Char.ofNat 13, 'r')]

/-- The digit of a number below 16. -/
def hexDigit (n : ℕ) : Char := "0123456789ABCDEF".toList.getD n '0'

/-- A character inside a string. -/
def escape (c : Char) : Str :=
  match escapes.lookup c with
  | some letter => [backslash, letter]
  | none =>
    if c.toNat < 32 then
      [backslash, 'u', '0', '0', hexDigit (c.toNat / 16), hexDigit (c.toNat % 16)]
    else [c]

/-- A string between quotes, with its characters escaped. -/
def writeString (s : Str) : Str := quote :: (s.flatMap escape ++ [quote])

mutual

/-- The text of a value. -/
def write : Value → Str
  | .null => "null".toList
  | .bool true => "true".toList
  | .bool false => "false".toList
  | .int i => stdToString i
  | .double mantissa exponent => stdToString mantissa ++ 'e' :: stdToString exponent
  | .string s => writeString s
  | .array [] => "[]".toList
  | .array (v :: rest) => '[' :: (write v ++ writeItems rest)
  | .object [] => [openBrace, closeBrace]
  | .object ((name, v) :: rest) =>
    openBrace :: (writeString name ++ ':' :: (write v ++ writeMembers rest))

/-- What follows the first element of an array. -/
def writeItems : List Value → Str
  | [] => "]".toList
  | v :: rest => ',' :: (write v ++ writeItems rest)

/-- What follows the first member of an object. -/
def writeMembers : List (Str × Value) → Str
  | [] => [closeBrace]
  | (name, v) :: rest => ',' :: (writeString name ++ ':' :: (write v ++ writeMembers rest))

end

/-! ### Parsing -/

/-- A blank, a tab or a character that ends a line. -/
def isBlank (c : Char) : Bool := c = ' ' || c.toNat = 9 || c.toNat = 10 || c.toNat = 13

/-- A text without the blanks in front of it. -/
def skipBlanks (s : Str) : Str := s.dropWhile isBlank

/-- The value of a hexadecimal digit. -/
def hexValue (c : Char) : Option ℕ :=
  if '0' ≤ c ∧ c ≤ '9' then some (c.toNat - 48)
  else if 'A' ≤ c ∧ c ≤ 'F' then some (c.toNat - 55)
  else if 'a' ≤ c ∧ c ≤ 'f' then some (c.toNat - 87)
  else none

/-- The character a letter after a backslash stands for. -/
def unescape (letter : Char) : Option Char :=
  if letter = '/' then some '/' else (escapes.find? fun e => e.2 = letter).map Prod.fst

/-- The rest of a string up to its closing quote. -/
def parseChars : Str → Option (Str × Str)
  | [] => none
  | c :: rest =>
    if c = quote then some ([], rest)
    else if c = backslash then
      match rest with
      | [] => none
      | letter :: rest =>
        if letter = 'u' then
          match rest with
          | h₃ :: h₂ :: h₁ :: h₀ :: rest => do
            let n₃ ← hexValue h₃
            let n₂ ← hexValue h₂
            let n₁ ← hexValue h₁
            let n₀ ← hexValue h₀
            let (s, rest) ← parseChars rest
            some (Char.ofNat (((n₃ * 16 + n₂) * 16 + n₁) * 16 + n₀) :: s, rest)
          | _ => none
        else do
          let c ← unescape letter
          let (s, rest) ← parseChars rest
          some (c :: s, rest)
    else if c.toNat < 32 then none
    else do
      let (s, rest) ← parseChars rest
      some (c :: s, rest)

/-- A natural number without leading zeros. -/
def parseDigits (s : Str) : Option (ℕ × Str) :=
  let digits := s.takeWhile Char.isDigit
  if digits = [] ∨ (digits.head? = some '0' ∧ digits ≠ ['0']) then none
  else some (digitsValue digits, s.dropWhile Char.isDigit)

/-- A number with an optional sign. -/
def parseInt : Str → Option (Value × Str)
  | '-' :: rest => (parseDigits rest).map fun p => (.int (-(p.1 : ℤ)), p.2)
  | s => (parseDigits s).map fun p => (.int p.1, p.2)

/-- A fixed word. -/
def parseWord (word : Str) (v : Value) (s : Str) : Option (Value × Str) :=
  if word.isPrefixOf s then some (v, s.drop word.length) else none

/-- A value that begins with none of the brackets. -/
def parseScalar (s : Str) : Option (Value × Str) :=
  (parseWord "null".toList .null s).or <| (parseWord "true".toList (.bool true) s).or <|
    (parseWord "false".toList (.bool false) s).or (parseInt s)

section Sequences

variable {α : Type} (item : Str → Option (α × Str)) (close : Char)

/-- The elements after the first one, each after a comma, up to the closing bracket. -/
def parseRest : ℕ → Str → Option (List α × Str)
  | 0, _ => none
  | n + 1, s =>
    match skipBlanks s with
    | [] => none
    | c :: rest =>
      if c = close then some ([], rest)
      else if c = ',' then do
        let (a, rest) ← item rest
        let (as, rest) ← parseRest n rest
        some (a :: as, rest)
      else none

/-- The elements up to the closing bracket. -/
def parseSequence (n : ℕ) (s : Str) : Option (List α × Str) :=
  match skipBlanks s with
  | [] => none
  | c :: rest =>
    if c = close then some ([], rest)
    else do
      let (a, rest) ← item s
      let (as, rest) ← parseRest item close n rest
      some (a :: as, rest)

end Sequences

/-- A name, a colon and a value. -/
def parseMember (value : Str → Option (Value × Str)) (s : Str) : Option ((Str × Value) × Str) :=
  match skipBlanks s with
  | [] => none
  | c :: rest =>
    if c = quote then do
      let (name, rest) ← parseChars rest
      match skipBlanks rest with
      | ':' :: rest => do
        let (v, rest) ← value rest
        some ((name, v), rest)
      | _ => none
    else none

/-- A value of at most the given depth. -/
def parseValue : ℕ → Str → Option (Value × Str)
  | 0, _ => none
  | n + 1, s =>
    match skipBlanks s with
    | [] => none
    | c :: rest =>
      if c = quote then do
        let (s, rest) ← parseChars rest
        some (.string s, rest)
      else if c = '[' then do
        let (items, rest) ← parseSequence (parseValue n) ']' n rest
        some (.array items, rest)
      else if c = openBrace then do
        let (members, rest) ← parseSequence (parseMember (parseValue n)) closeBrace n rest
        some (.object members, rest)
      else parseScalar (c :: rest)

/-- A text holds one value, and blanks around it. -/
def parse (s : Str) : Option Value := do
  let (v, rest) ← parseValue s.length s
  if skipBlanks rest = [] then some v else none

/-! ### Strings are read back -/

/-- A digit that is written is read. -/
theorem hexValue_hexDigit {n : ℕ} (h : n < 16) : hexValue (hexDigit n) = some n := by
  revert h n
  decide

/-- Every escape has a letter other than the one of a hexadecimal escape. -/
theorem unescape_of_mem_escapes : ∀ e ∈ escapes, e.2 ≠ 'u' ∧ unescape e.2 = some e.1 := by
  decide

/-- What is found in a table stands in it. -/
theorem mem_of_lookup_eq_some {α β : Type} [BEq α] [LawfulBEq α] {a : α} {b : β}
    {entries : List (α × β)} (h : entries.lookup a = some b) : (a, b) ∈ entries := by
  induction entries with
  | nil => cases h
  | cons e entries ih =>
    rw [List.lookup_cons] at h
    split at h
    next heq =>
      rw [LawfulBEq.eq_of_beq heq, ← Option.some.inj h]
      exact List.mem_cons_self
    next => exact List.mem_cons_of_mem e (ih h)

/-- A letter escape stands for one character. -/
theorem parseChars_letter {c letter : Char} (hletter : letter ≠ 'u')
    (hunescape : unescape letter = some c) (t : Str) :
    parseChars (backslash :: letter :: t) = (parseChars t).map fun p => (c :: p.1, p.2) := by
  have hbackslash : backslash ≠ quote := by decide
  rw [parseChars.eq_def]
  simp only [hbackslash, hletter, hunescape, if_false, if_true, Option.bind_eq_bind,
    Option.bind_some]
  cases parseChars t <;> rfl

/-- So does a hexadecimal escape. -/
theorem parseChars_hex {c : Char} (hcontrol : c.toNat < 32) (t : Str) :
    parseChars (backslash :: 'u' :: '0' :: '0' :: hexDigit (c.toNat / 16) ::
        hexDigit (c.toNat % 16) :: t) = (parseChars t).map fun p => (c :: p.1, p.2) := by
  have hbackslash : backslash ≠ quote := by decide
  have hhigh : hexValue (hexDigit (c.toNat / 16)) = some (c.toNat / 16) :=
    hexValue_hexDigit (by omega)
  have hlow : hexValue (hexDigit (c.toNat % 16)) = some (c.toNat % 16) :=
    hexValue_hexDigit (by omega)
  have hzero : hexValue '0' = some 0 := by decide
  have hcode : ((0 * 16 + 0) * 16 + c.toNat / 16) * 16 + c.toNat % 16 = c.toNat := by omega
  rw [parseChars.eq_def]
  simp only [hbackslash, hhigh, hlow, hzero, if_false, if_true, Option.bind_eq_bind,
    Option.bind_some, hcode, Char.ofNat_toNat]
  cases parseChars t <;> rfl

/-- A character without a meaning of its own stands for itself. -/
theorem parseChars_plain {c : Char} (hquote : c ≠ quote) (hbackslash : c ≠ backslash)
    (hcontrol : ¬ c.toNat < 32) (t : Str) :
    parseChars (c :: t) = (parseChars t).map fun p => (c :: p.1, p.2) := by
  rw [parseChars.eq_def]
  simp only [hquote, hbackslash, hcontrol, if_false, Option.bind_eq_bind]
  cases parseChars t <;> rfl

/-- An escaped character is read back. -/
theorem parseChars_escape (c : Char) (t : Str) :
    parseChars (escape c ++ t) = (parseChars t).map fun p => (c :: p.1, p.2) := by
  unfold escape
  split
  next letter hlookup =>
    obtain ⟨hletter, hunescape⟩ := unescape_of_mem_escapes _ (mem_of_lookup_eq_some hlookup)
    exact parseChars_letter hletter hunescape t
  next hlookup =>
    have hquote : c ≠ quote := by
      rintro rfl
      cases hlookup
    have hbackslash : c ≠ backslash := by
      rintro rfl
      cases hlookup
    split
    next hcontrol => exact parseChars_hex hcontrol t
    next hcontrol => exact parseChars_plain hquote hbackslash hcontrol t

/-- A string is read back, with whatever follows its closing quote. -/
theorem parseChars_flatMap_escape (s rest : Str) :
    parseChars (s.flatMap escape ++ quote :: rest) = some (s, rest) := by
  induction s with
  | nil =>
    rw [parseChars.eq_def]
    rfl
  | cons c s ih =>
    rw [List.flatMap_cons, List.append_assoc, parseChars_escape, ih]
    rfl

/-! ### Numbers are read back -/

/-- A text that does not go on with a digit. -/
def Delimited (rest : Str) : Prop := ∀ c ∈ rest.head?, c.isDigit = false

/-- Digits end where a delimiter stands. -/
theorem takeWhile_isDigit_append {ds rest : Str} (hds : ∀ c ∈ ds, c.isDigit = true)
    (h : Delimited rest) :
    (ds ++ rest).takeWhile Char.isDigit = ds ∧ (ds ++ rest).dropWhile Char.isDigit = rest := by
  rw [List.takeWhile_append_of_pos hds, List.dropWhile_append_of_pos hds]
  cases rest with
  | nil => simp
  | cons c rest => simp [h c rfl]

/-- Only zero has a numeral that begins with a zero. -/
theorem eq_zero_of_head_decimal {n : ℕ} (h : (decimal n).head? = some '0') : n = 0 := by
  induction n using Nat.strongRecOn with
  | ind n ih =>
    unfold decimal at h ih
    by_cases hn : n < 10
    · rw [Nat.toDigits_of_lt_base hn] at h
      exact Nat.digitChar_eq_zero.mp (Option.some.inj h)
    · rw [Nat.toDigits_of_base_le (by decide) (by omega),
        List.head?_append_of_ne_nil _ Nat.toDigits_ne_nil] at h
      have hzero := ih (n / 10) (by omega) h
      omega

/-- A number that is written in digits is read. -/
theorem parseDigits_decimal (n : ℕ) {rest : Str} (h : Delimited rest) :
    parseDigits (decimal n ++ rest) = some (n, rest) := by
  obtain ⟨htake, hdrop⟩ := takeWhile_isDigit_append (fun _ => isDigit_of_mem_decimal (n := n)) h
  have haccepted : ¬ (decimal n = [] ∨ ((decimal n).head? = some '0' ∧ decimal n ≠ ['0'])) := by
    rintro (hnil | ⟨hhead, hne⟩)
    · exact decimal_ne_nil n hnil
    · rw [eq_zero_of_head_decimal hhead] at hne
      exact hne rfl
  simp only [parseDigits, htake, hdrop, haccepted, if_false, digitsValue_decimal]

/-- An integer is read back. -/
theorem parseInt_stdToString (i : ℤ) {rest : Str} (h : Delimited rest) :
    parseInt (stdToString i ++ rest) = some (.int i, rest) := by
  cases i with
  | ofNat n =>
    have hsign : ∀ t, decimal n ++ rest ≠ '-' :: t := by
      intro t ht
      obtain ⟨c, ds, hds⟩ := List.exists_cons_of_ne_nil (decimal_ne_nil n)
      have hc : c.isDigit = true := isDigit_of_mem_decimal (hds ▸ List.mem_cons_self)
      rw [hds] at ht
      cases ht
      cases hc
    change parseInt (decimal n ++ rest) = _
    rw [parseInt.eq_2 _ hsign, parseDigits_decimal n h]
    rfl
  | negSucc n =>
    change (parseDigits (decimal (n + 1) ++ rest)).map _ = _
    rw [parseDigits_decimal (n + 1) h]
    rfl

/-! ### Sequences are read back -/

section Sequences

variable {α : Type} (text : α → Str) (close : Char)

/-- The text of the elements after the first one. -/
def restText : List α → Str
  | [] => [close]
  | a :: rest => ',' :: (text a ++ restText rest)

/-- The text of a sequence up to its closing bracket. -/
def sequenceText : List α → Str
  | [] => [close]
  | a :: rest => text a ++ restText text close rest

/-- A closing bracket is told from what else may follow an element. -/
def Closes (close : Char) : Prop :=
  close ≠ ',' ∧ isBlank close = false ∧ close.isDigit = false

/-- A text that begins neither with a blank nor with the closing bracket. -/
def Opens (s : Str) : Prop :=
  ∃ c t, s = c :: t ∧ isBlank c = false ∧ c ≠ close

/-- A text that begins with no blank is kept. -/
theorem skipBlanks_cons {c : Char} (h : isBlank c = false) (rest : Str) :
    skipBlanks (c :: rest) = c :: rest :=
  List.dropWhile_cons_of_neg (by simp [h])

/-- A number may stand in front of what is left of a sequence. -/
theorem delimited_restText (hclose : Closes close) (items : List α) (rest : Str) :
    Delimited (restText text close items ++ rest) := by
  intro c hc
  cases items with
  | nil =>
    cases hc
    exact hclose.2.2
  | cons a items =>
    cases hc
    rfl

/-- What is left of a sequence is longer than the number of its items. -/
theorem length_lt_restText (items : List α) : items.length < (restText text close items).length := by
  induction items with
  | nil => exact Nat.zero_lt_one
  | cons a items ih =>
    simp only [restText, List.length_cons, List.length_append]
    omega

/-- It is as long as each of its items at least. -/
theorem length_le_restText {a : α} {items : List α} (h : a ∈ items) :
    (text a).length ≤ (restText text close items).length := by
  induction items with
  | nil => cases h
  | cons b items ih =>
    simp only [restText, List.length_cons, List.length_append]
    rcases List.mem_cons.mp h with rfl | h
    · omega
    · have := ih h
      omega

/-- The text of an element is no longer than that of the sequence. -/
theorem length_le_sequenceText {a : α} {items : List α} (h : a ∈ items) :
    (text a).length ≤ (sequenceText text close items).length := by
  cases items with
  | nil => cases h
  | cons b items =>
    simp only [sequenceText, List.length_append]
    rcases List.mem_cons.mp h with rfl | h
    · omega
    · have := length_le_restText text close h
      omega

variable {text close}

/-- A parser reads the text of an element and nothing of what follows. -/
def Reads (item : Str → Option (α × Str)) (text : α → Str) (a : α) : Prop :=
  ∀ rest, Delimited rest → item (text a ++ rest) = some (a, rest)

/-- What is left of a sequence is read when its items are. -/
theorem parseRest_restText {item : Str → Option (α × Str)} (hclose : Closes close)
    {items : List α} (h : ∀ a ∈ items, Reads item text a) {n : ℕ} (hn : items.length < n)
    (rest : Str) :
    parseRest item close n (restText text close items ++ rest) = some (items, rest) := by
  induction items generalizing n with
  | nil =>
    obtain ⟨n, rfl⟩ := Nat.exists_eq_succ_of_ne_zero (Nat.ne_of_gt hn)
    simp only [restText, List.cons_append, List.nil_append, parseRest, skipBlanks_cons hclose.2.1,
      if_true]
  | cons a items ih =>
    obtain ⟨n, rfl⟩ := Nat.exists_eq_succ_of_ne_zero (Nat.ne_of_gt (Nat.zero_lt_of_lt hn))
    have hcomma : isBlank ',' = false := rfl
    have hfirst := h a List.mem_cons_self _ (delimited_restText text close hclose items rest)
    have hrest := ih (fun b hb => h b (List.mem_cons_of_mem a hb)) (Nat.lt_of_succ_lt_succ hn)
    simp only [restText, List.cons_append, List.append_assoc, parseRest, skipBlanks_cons hcomma,
      hclose.1.symm, hfirst, hrest, if_false, if_true, Option.bind_eq_bind, Option.bind_some]

/-- A sequence is read back when its elements are. -/
theorem parseSequence_sequenceText {item : Str → Option (α × Str)} (hclose : Closes close)
    {items : List α} (hopens : ∀ a ∈ items, Opens close (text a))
    (h : ∀ a ∈ items, Reads item text a) {n : ℕ}
    (hn : (sequenceText text close items).length ≤ n) (rest : Str) :
    parseSequence item close n (sequenceText text close items ++ rest) = some (items, rest) := by
  cases items with
  | nil =>
    simp only [sequenceText, List.cons_append, List.nil_append, parseSequence,
      skipBlanks_cons hclose.2.1, if_true]
  | cons a items =>
    obtain ⟨c, t, htext, hblank, hc⟩ := hopens a List.mem_cons_self
    have hlength : items.length < n := by
      have := length_lt_restText text close items
      simp only [sequenceText, List.length_append] at hn
      omega
    have hfirst := h a List.mem_cons_self _ (delimited_restText text close hclose items rest)
    have hrest := parseRest_restText hclose (fun b hb => h b (List.mem_cons_of_mem a hb)) hlength rest
    have hskip : skipBlanks (text a ++ (restText text close items ++ rest)) =
        c :: (t ++ (restText text close items ++ rest)) := by
      rw [htext, List.cons_append, skipBlanks_cons hblank]
    simp only [sequenceText, List.append_assoc, parseSequence, hskip, hc, hfirst, hrest, if_false,
      Option.bind_eq_bind, Option.bind_some]

end Sequences

/-! ### Values are read back -/

/-- A value with an exact text: integers of 64 bits and no floating-point numbers. -/
inductive Value.IsExact : Value → Prop
  | null : IsExact .null
  | bool (b : Bool) : IsExact (.bool b)
  | int {i : ℤ} (hmin : -2 ^ 63 ≤ i) (hmax : i < 2 ^ 64) : IsExact (.int i)
  | string (s : Str) : IsExact (.string s)
  | array {items : List Value} (h : ∀ v ∈ items, IsExact v) : IsExact (.array items)
  | object {members : List (Str × Value)} (h : ∀ m ∈ members, IsExact m.2) :
      IsExact (.object members)

/-- An object is exact when its members are. -/
theorem Value.isExact_object_iff {members : List (Str × Value)} :
    (Value.object members).IsExact ↔ ∀ m ∈ members, m.2.IsExact := by
  constructor
  · intro h
    cases h with
    | object hmembers => exact hmembers
  · exact .object

/-- An array of encoded items is exact when they are. -/
theorem Value.isExact_array_map {α : Type} {encode : α → Value} (h : ∀ a, (encode a).IsExact)
    (items : List α) : (Value.array (items.map encode)).IsExact := by
  apply Value.IsExact.array
  intro v hv
  obtain ⟨a, _, rfl⟩ := List.mem_map.mp hv
  exact h a

/-- The text of a member. -/
def memberText (m : Str × Value) : Str := writeString m.1 ++ ':' :: write m.2

/-- The items of an array are written behind each other. -/
theorem writeItems_eq (items : List Value) : writeItems items = restText write ']' items := by
  induction items with
  | nil => rfl
  | cons v items ih => rw [writeItems, restText, ih]

/-- The members of an object are written behind each other. -/
theorem writeMembers_eq (members : List (Str × Value)) :
    writeMembers members = restText memberText closeBrace members := by
  induction members with
  | nil => rfl
  | cons m members ih =>
    rw [writeMembers, restText, ih, memberText, List.append_assoc, List.cons_append]

/-- An array is a sequence of its items. -/
theorem write_array (items : List Value) :
    write (.array items) = '[' :: sequenceText write ']' items := by
  cases items with
  | nil => rfl
  | cons v items => rw [write, writeItems_eq, sequenceText]

/-- An object is a sequence of its members. -/
theorem write_object (members : List (Str × Value)) :
    write (.object members) = openBrace :: sequenceText memberText closeBrace members := by
  cases members with
  | nil => rfl
  | cons m members =>
    rw [write, writeMembers_eq, sequenceText, memberText, List.append_assoc, List.cons_append]

/-- The first character of a number. -/
theorem stdToString_eq_cons (i : ℤ) :
    ∃ c t, stdToString i = c :: t ∧ (c.isDigit = true ∨ c = '-') := by
  cases i with
  | ofNat n =>
    obtain ⟨c, t, ht⟩ := List.exists_cons_of_ne_nil (decimal_ne_nil n)
    exact ⟨c, t, ht, Or.inl (isDigit_of_mem_decimal (ht ▸ List.mem_cons_self))⟩
  | negSucc n => exact ⟨'-', _, rfl, Or.inr rfl⟩

/-- A number does not begin with any other character. -/
theorem ne_of_numeral {c d : Char} (h : c.isDigit = true ∨ c = '-')
    (hd : (d.isDigit || d = '-') = false) : c ≠ d := by
  rintro rfl
  simp only [Bool.or_eq_false_iff, decide_eq_false_iff_not] at hd
  rcases h with h | h
  · exact Bool.false_ne_true (hd.1.symm.trans h)
  · exact hd.2 h

/-- It does not begin with a blank. -/
theorem isBlank_of_numeral {c : Char} (h : c.isDigit = true ∨ c = '-') : isBlank c = false := by
  rcases h with h | rfl
  · have hcode := isSpace_of_isDigit h
    simp only [isSpace, Bool.or_eq_false_iff, beq_eq_false_iff_ne, Bool.and_eq_false_imp,
      decide_eq_true_eq, decide_eq_false_iff_not] at hcode
    simp only [isBlank, Bool.or_eq_false_iff, decide_eq_false_iff_not]
    exact ⟨⟨⟨hcode.1, by omega⟩, by omega⟩, by omega⟩
  · rfl

/-- A text that begins like a number is read as one. -/
theorem parseScalar_of_numeral {c : Char} (h : c.isDigit = true ∨ c = '-') (t : Str) :
    parseScalar (c :: t) = parseInt (c :: t) := by
  have hword : ∀ (d : Char) (word : Str) (v : Value), (d.isDigit || d = '-') = false →
      parseWord (d :: word) v (c :: t) = none := by
    intro d word v hd
    have hne : (d == c) = false := beq_eq_false_iff_ne.mpr (ne_of_numeral h hd).symm
    simp [parseWord, List.isPrefixOf, hne]
  unfold parseScalar
  rw [show "null".toList = 'n' :: "ull".toList from rfl,
    show "true".toList = 't' :: "rue".toList from rfl,
    show "false".toList = 'f' :: "alse".toList from rfl,
    hword _ _ _ rfl, hword _ _ _ rfl, hword _ _ _ rfl]
  rfl

/-- The text of a value does not close the sequence it stands in. -/
theorem opens_write {v : Value} (h : v.IsExact) : Opens ']' (write v) := by
  cases h with
  | null => exact ⟨_, _, rfl, rfl, by decide⟩
  | bool b => cases b <;> exact ⟨_, _, rfl, rfl, by decide⟩
  | @int i =>
    obtain ⟨c, t, ht, hc⟩ := stdToString_eq_cons i
    exact ⟨c, t, ht, isBlank_of_numeral hc, ne_of_numeral hc rfl⟩
  | string s => exact ⟨_, _, rfl, rfl, by decide⟩
  | array _ => exact ⟨_, _, write_array _, rfl, by decide⟩
  | object _ => exact ⟨_, _, write_object _, rfl, by decide⟩

/-- A member is read when its value is. -/
theorem parseMember_memberText {value : Str → Option (Value × Str)} {m : Str × Value}
    (h : Reads value write m.2) : Reads (parseMember value) memberText m := by
  intro rest hrest
  have hquote : isBlank quote = false := rfl
  have hcolon : isBlank ':' = false := rfl
  simp only [memberText, writeString, List.cons_append, List.append_assoc, List.nil_append,
    parseMember, skipBlanks_cons hquote, if_true, parseChars_flatMap_escape, Option.bind_eq_bind,
    Option.bind_some, skipBlanks_cons hcolon, h rest hrest]

/-- A bracket, a quote or the first character of a scalar decides what is parsed. -/
theorem parseValue_scalar {c : Char} (hblank : isBlank c = false) (hquote : c ≠ quote)
    (hbracket : c ≠ '[') (hbrace : c ≠ openBrace) (n : ℕ) (t : Str) :
    parseValue (n + 1) (c :: t) = parseScalar (c :: t) := by
  simp only [parseValue, skipBlanks_cons hblank, hquote, hbracket, hbrace, if_false]

/-- What is not empty leaves a depth for the rest. -/
theorem exists_depth {c : Char} {t : Str} {n : ℕ} (h : (c :: t).length ≤ n) :
    ∃ m, n = m + 1 ∧ t.length ≤ m := by
  obtain ⟨m, hm, rfl⟩ := Nat.exists_eq_add_of_le h
  exact ⟨t.length + m, by rw [List.length_cons]; omega, by omega⟩

/-- A number that is written is read in front of a delimiter. -/
theorem parseValue_int (i : ℤ) {n : ℕ} (hn : (stdToString i).length ≤ n) {rest : Str}
    (hrest : Delimited rest) : parseValue n (stdToString i ++ rest) = some (.int i, rest) := by
  obtain ⟨c, t, ht, hc⟩ := stdToString_eq_cons i
  rw [ht] at hn
  obtain ⟨n, rfl, _⟩ := exists_depth hn
  have hscalar : parseValue (n + 1) (stdToString i ++ rest) = parseInt (stdToString i ++ rest) := by
    rw [ht, List.cons_append, parseValue_scalar (isBlank_of_numeral hc) (ne_of_numeral hc rfl)
      (ne_of_numeral hc rfl) (ne_of_numeral hc rfl), parseScalar_of_numeral hc]
  rw [hscalar, parseInt_stdToString i hrest]

/-- A string that is written is read. -/
theorem parseValue_string (s : Str) (n : ℕ) (rest : Str) :
    parseValue (n + 1) (writeString s ++ rest) = some (.string s, rest) := by
  have hquote : isBlank quote = false := rfl
  simp only [writeString, List.cons_append, List.append_assoc, List.nil_append, parseValue,
    skipBlanks_cons hquote, if_true, parseChars_flatMap_escape, Option.bind_eq_bind,
    Option.bind_some]

/-- An array is read back when its elements are, one level deeper. -/
theorem parseValue_array {items : List Value} {n : ℕ} (hexact : ∀ v ∈ items, v.IsExact)
    (h : ∀ v ∈ items, (write v).length ≤ n → Reads (parseValue n) write v)
    (hn : (sequenceText write ']' items).length ≤ n) (rest : Str) :
    parseValue (n + 1) (write (.array items) ++ rest) = some (.array items, rest) := by
  have hclose : Closes ']' := ⟨by decide, rfl, rfl⟩
  have hitems := parseSequence_sequenceText hclose (fun v hv => opens_write (hexact v hv))
    (fun v hv => h v hv (le_trans (length_le_sequenceText write ']' hv) hn)) hn rest
  have hbracket : isBlank '[' = false := rfl
  have hquote : '[' ≠ quote := by decide
  simp only [write_array, List.cons_append, parseValue, skipBlanks_cons hbracket, hquote, if_false,
    if_true, hitems, Option.bind_eq_bind, Option.bind_some]

/-- An object is read back when its members are, one level deeper. -/
theorem parseValue_object {members : List (Str × Value)} {n : ℕ}
    (h : ∀ m ∈ members, (write m.2).length ≤ n → Reads (parseValue n) write m.2)
    (hn : (sequenceText memberText closeBrace members).length ≤ n) (rest : Str) :
    parseValue (n + 1) (write (.object members) ++ rest) = some (.object members, rest) := by
  have hclose : Closes closeBrace := ⟨by decide, rfl, rfl⟩
  have hopens : ∀ m ∈ members, Opens closeBrace (memberText m) :=
    fun m _ => ⟨quote, _, rfl, rfl, by decide⟩
  have hvalue : ∀ m ∈ members, (write m.2).length ≤ n := by
    intro m hm
    have hmember := length_le_sequenceText memberText closeBrace hm
    simp only [memberText, List.length_append, List.length_cons] at hmember
    omega
  have hmembers := parseSequence_sequenceText hclose hopens
    (fun m hm => parseMember_memberText (h m hm (hvalue m hm))) hn rest
  have hbrace : isBlank openBrace = false := rfl
  have hquote : openBrace ≠ quote := by decide
  have hbracket : openBrace ≠ '[' := by decide
  simp only [write_object, List.cons_append, parseValue, skipBlanks_cons hbrace, hquote, hbracket,
    if_false, if_true, hmembers, Option.bind_eq_bind, Option.bind_some]

/-- An exact value is read back from its text, with enough depth. -/
theorem parseValue_write {v : Value} (h : v.IsExact) :
    ∀ n, (write v).length ≤ n → Reads (parseValue n) write v := by
  induction h with
  | null =>
    intro n hn rest _
    obtain ⟨n, rfl, _⟩ := exists_depth hn
    exact parseValue_scalar rfl (by decide) (by decide) (by decide) n _
  | bool b =>
    intro n hn rest _
    cases b with
    | false =>
      obtain ⟨n, rfl, _⟩ := exists_depth hn
      exact parseValue_scalar rfl (by decide) (by decide) (by decide) n _
    | true =>
      obtain ⟨n, rfl, _⟩ := exists_depth hn
      exact parseValue_scalar rfl (by decide) (by decide) (by decide) n _
  | @int i _ _ =>
    intro n hn rest hrest
    exact parseValue_int i hn hrest
  | string s =>
    intro n hn rest _
    obtain ⟨n, rfl, _⟩ := exists_depth hn
    exact parseValue_string s n rest
  | @array items hexact ih =>
    intro n hn rest _
    rw [write_array] at hn
    obtain ⟨n, rfl, hlength⟩ := exists_depth hn
    exact parseValue_array hexact (fun v hv => ih v hv n) hlength rest
  | @object members _ ih =>
    intro n hn rest _
    rw [write_object] at hn
    obtain ⟨n, rfl, hlength⟩ := exists_depth hn
    exact parseValue_object (fun m hm => ih m hm n) hlength rest

/-- Every exact value is read back from its text. -/
theorem parse_write {v : Value} (h : v.IsExact) : parse (write v) = some v := by
  have hread := parseValue_write h (write v).length le_rfl [] nofun
  rw [List.append_nil] at hread
  simp only [parse, hread, Option.bind_eq_bind, Option.bind_some]
  rfl

/-! ### Texts as C strings -/

/-- No escape has a null character. -/
theorem nul_notMem_escape (c : Char) : nul ∉ escape c := by
  have hletters : ∀ e ∈ escapes, nul ∉ [backslash, e.2] := by decide
  have hdigits : ∀ n < 16, hexDigit n ≠ nul := by decide
  unfold escape
  split
  next letter hlookup => exact hletters _ (mem_of_lookup_eq_some hlookup)
  next =>
    split
    next hcontrol =>
      have hhigh := hdigits (c.toNat / 16) (by omega)
      have hlow := hdigits (c.toNat % 16) (by omega)
      simp only [List.mem_cons, List.not_mem_nil, or_false, hhigh.symm, hlow.symm]
      decide
    next hcontrol =>
      intro h
      rw [← List.mem_singleton.mp h] at hcontrol
      exact hcontrol (by decide)

/-- No string is written with a null character. -/
theorem nul_notMem_writeString (s : Str) : nul ∉ writeString s := by
  have hquote : nul ≠ quote := by decide
  simp only [writeString, List.mem_cons, List.mem_append, List.mem_flatMap, List.not_mem_nil,
    hquote, false_or, or_false, not_exists, not_and]
  exact fun c _ => nul_notMem_escape c

/-- No number is written with a null character. -/
theorem nul_notMem_stdToString (i : ℤ) : nul ∉ stdToString i := by
  cases i with
  | ofNat n => exact nul_notMem_decimal n
  | negSucc n =>
    intro h
    rcases List.mem_cons.mp h with h | h
    · cases h
    · exact nul_notMem_decimal (n + 1) h

/-- What is left of a sequence has no characters but those of its items and its own. -/
theorem notMem_restText {α : Type} {text : α → Str} {close c : Char} {items : List α}
    (hclose : c ≠ close) (hcomma : c ≠ ',') (h : ∀ a ∈ items, c ∉ text a) :
    c ∉ restText text close items := by
  induction items with
  | nil => simp [restText, hclose]
  | cons a items ih =>
    simp only [restText, List.mem_cons, List.mem_append, hcomma, false_or, not_or]
    exact ⟨h a List.mem_cons_self, ih fun b hb => h b (List.mem_cons_of_mem a hb)⟩

/-- A sequence has no characters but those of its items and its own. -/
theorem notMem_sequenceText {α : Type} {text : α → Str} {close c : Char} {items : List α}
    (hclose : c ≠ close) (hcomma : c ≠ ',') (h : ∀ a ∈ items, c ∉ text a) :
    c ∉ sequenceText text close items := by
  cases items with
  | nil => simp [sequenceText, hclose]
  | cons a items =>
    simp only [sequenceText, List.mem_append, not_or]
    exact ⟨h a List.mem_cons_self,
      notMem_restText hclose hcomma fun b hb => h b (List.mem_cons_of_mem a hb)⟩

/-- No null character is written, so the text is its own C string. -/
theorem nul_notMem_write {v : Value} (h : v.IsExact) : nul ∉ write v := by
  induction h with
  | null => decide
  | bool b => cases b <;> decide
  | @int i _ _ => exact nul_notMem_stdToString i
  | string s => exact nul_notMem_writeString s
  | array _ ih =>
    rw [write_array]
    exact List.not_mem_cons_of_ne_of_not_mem (by decide)
      (notMem_sequenceText (by decide) (by decide) ih)
  | object _ ih =>
    rw [write_object]
    apply List.not_mem_cons_of_ne_of_not_mem (by decide)
    apply notMem_sequenceText (by decide) (by decide)
    intro m hm
    have hcolon : nul ≠ ':' := by decide
    simp only [memberText, List.mem_append, List.mem_cons, hcolon, false_or, not_or]
    exact ⟨nul_notMem_writeString m.1, ih m hm⟩

/-- A parser reads the C string of every exact value that is written. -/
def ReadsBack (parse : Str → Option Value) (write : Value → Str) : Prop :=
  ∀ v : Value, v.IsExact → parse (cstr (write v)) = some v

/-- The parser reads what the writer writes. -/
theorem readsBack_parse_write : ReadsBack parse write := by
  intro v h
  rw [cstr_of_notMem (nul_notMem_write h), parse_write h]

end Json
