import Up2date.Httplib.Lines

/-!
# Headers of a message

The names of headers are compared without regard to case. A header is read from a line with a
colon, blanks around its value are dropped, and percent escapes in the value are decoded; a
header without a value is not kept.
-/

namespace Up2date.Httplib

open Cxx

/-! ### Percent escapes -/

/-- `is_hex` -/
def hexValue (c : Char) : Option ℕ :=
  if c.isDigit then some (c.toNat - '0'.toNat)
  else if 'A' ≤ c ∧ c ≤ 'F' then some (c.toNat - 'A'.toNat + 10)
  else if 'a' ≤ c ∧ c ≤ 'f' then some (c.toNat - 'a'.toNat + 10)
  else none

/-- `from_hex_to_i`, from the digits that follow an index. -/
def fromHexToI : ℕ → Str → ℕ → Option ℕ
  | 0, _, val => some val
  | _ + 1, [], _ => none
  | cnt + 1, c :: s, val =>
    match hexValue c with
    | some v => fromHexToI cnt s (val * 16 + v)
    | none => none

/-- `to_utf8`, whose bytes are characters below 256; surrogates have none. -/
def toUtf8 (code : ℕ) : Str :=
  let continuation (shift : ℕ) := Char.ofNat (0x80 + code / 2 ^ shift % 0x40)
  if code < 0x80 then [Char.ofNat code]
  else if code < 0x800 then [Char.ofNat (0xC0 + code / 2 ^ 6 % 0x20), continuation 0]
  else if 0xD800 ≤ code ∧ code < 0xE000 then []
  else if code < 0x10000 then
    [Char.ofNat (0xE0 + code / 2 ^ 12 % 0x10), continuation 6, continuation 0]
  else if code < 0x110000 then
    [Char.ofNat (0xF0 + code / 2 ^ 18 % 8), continuation 12, continuation 6, continuation 0]
  else []

/-- The loop of `decode_url`, which skips the digits of the escape before. -/
def decodeFrom (convertPlusToSpace : Bool) : ℕ → Str → Str
  | _, [] => []
  | skip + 1, _ :: rest => decodeFrom convertPlusToSpace skip rest
  | 0, c :: rest =>
    if c = '%' ∧ rest ≠ [] then
      if rest.head? = some 'u' then
        match fromHexToI 4 rest.tail 0 with
        | some val => toUtf8 val ++ decodeFrom convertPlusToSpace 5 rest
        | none => c :: decodeFrom convertPlusToSpace 0 rest
      else
        match fromHexToI 2 rest 0 with
        | some val => Char.ofNat val :: decodeFrom convertPlusToSpace 2 rest
        | none => c :: decodeFrom convertPlusToSpace 0 rest
    else if convertPlusToSpace = true ∧ c = '+' then ' ' :: decodeFrom convertPlusToSpace 0 rest
    else c :: decodeFrom convertPlusToSpace 0 rest

/-- `decode_url`. -/
def decodeUrl (s : Str) (convertPlusToSpace : Bool) : Str := decodeFrom convertPlusToSpace 0 s

/-- A text without escapes is not changed. -/
theorem decodeUrl_of_notMem {s : Str} (h : '%' ∉ s) : decodeUrl s false = s := by
  unfold decodeUrl
  induction s with
  | nil => rfl
  | cons c s ih =>
    obtain ⟨hc, hs⟩ := not_or.mp (mt List.mem_cons.mpr h)
    simp [decodeFrom, Ne.symm hc, ih hs]

/-! ### Headers -/

/-- The name of a header as it is compared. -/
def fold (name : Str) : Str := name.map Char.toLower

/-- `httplib::Headers`, entries of which hold the name of the header before its value. -/
@[ext] structure Headers where
  fields : Multimap Str (Str × Str)
  folded : ∀ f ∈ fields.entries, f.1 = fold f.2.1

namespace Headers

/-- No headers. -/
def empty : Headers := ⟨.empty, fun _ h => by cases h⟩

/-- `emplace` -/
def emplace (headers : Headers) (name value : Str) : Headers where
  fields := headers.fields.insert (fold name) (name, value)
  folded f hf := by
    rcases mem_insertUpper.mp hf with rfl | hf
    · rfl
    · exact headers.folded f hf

/-- The headers in their order. -/
def list (headers : Headers) : List (Str × Str) := headers.fields.entries.map Prod.snd

/-- The values of a header, in the order in which they were added. -/
def values (headers : Headers) (key : Str) : List Str :=
  (headers.fields.values (fold key)).map Prod.snd

/-- `has_header` -/
def hasHeader (headers : Headers) (key : Str) : Bool := headers.values key ≠ []

/-- `get_header_value`, which returns a C string. -/
def getHeaderValue (headers : Headers) (key default : Str) : Str :=
  cstr (((headers.values key).head?).getD default)

/-- Without headers no name has a value. -/
@[simp] theorem values_empty (key : Str) : empty.values key = [] := rfl

/-- A header is found under every spelling of its name. -/
theorem values_emplace_of_eq {headers : Headers} {key name : Str} (h : fold key = fold name)
    (value : Str) : (headers.emplace name value).values key = headers.values key ++ [value] := by
  simp [values, emplace, h]

end Headers

/-- `is_space_or_tab`. -/
def isSpaceOrTab (c : Char) : Bool := c == ' ' || c == '\t'

/-- `parse_header`: the header of a line, if it has a colon and a value. -/
def parseHeader (text : Str) : Option (Str × Str) :=
  let trimmed := text.rdropWhile isSpaceOrTab
  match trimmed.dropWhile (· ≠ ':') with
  | [] => none
  | _ :: rest =>
    let value := rest.dropWhile isSpaceOrTab
    if value = [] then none else some (trimmed.takeWhile (· ≠ ':'), decodeUrl value false)

/-- Add the header of a line, if it has one. -/
def Headers.addLine (headers : Headers) (line : Str) : Headers :=
  match parseHeader (line.take (line.length - 2)) with
  | some (name, value) => headers.emplace name value
  | none => headers

/-- `read_headers` -/
def readHeaders (headers : Headers) (strm : InStream Char) : Option (Headers × InStream Char) :=
  match _h : getline strm with
  | none => none
  | some (line, rest) =>
    if endWithCrlf line then
      if line.length = 2 then some (headers, rest)
      else if line.length > CPPHTTPLIB_HEADER_MAX_LENGTH then none
      else readHeaders (headers.addLine line) rest
    else readHeaders headers rest
termination_by strm.content.length
decreasing_by all_goals exact getline_length _h

/-- The lines up to an empty one, and what they add to the headers. -/
inductive HeaderBlock (broken : Bool) : Str → Headers → Headers → Str → Prop
  | blank {s line tail : Str} {headers : Headers} : IsLine broken s line tail →
      endWithCrlf line = true → line.length = 2 → HeaderBlock broken s headers headers tail
  | field {s line mid tail : Str} {headers headers' : Headers} : IsLine broken s line mid →
      endWithCrlf line = true → line.length ≠ 2 → line.length ≤ CPPHTTPLIB_HEADER_MAX_LENGTH →
      HeaderBlock broken mid (headers.addLine line) headers' tail →
      HeaderBlock broken s headers headers' tail
  | skipped {s line mid tail : Str} {headers headers' : Headers} : IsLine broken s line mid →
      endWithCrlf line = false → HeaderBlock broken mid headers headers' tail →
      HeaderBlock broken s headers headers' tail

/-- What is read behind a line. -/
theorem readHeaders_of_getline {strm rest : InStream Char} {line : Str}
    (h : getline strm = some (line, rest)) (headers : Headers) :
    readHeaders headers strm =
      if endWithCrlf line then
        if line.length = 2 then some (headers, rest)
        else if line.length > CPPHTTPLIB_HEADER_MAX_LENGTH then none
        else readHeaders (headers.addLine line) rest
      else readHeaders headers rest := by
  rw [readHeaders]
  split
  next hnone => cases hnone.symm.trans h
  next line' rest' hsome =>
    obtain ⟨rfl, rfl⟩ := Prod.mk.inj (Option.some.inj (hsome.symm.trans h))
    rfl

/-- A connection without a further line has no complete block of headers. -/
theorem readHeaders_of_none {strm : InStream Char} (h : getline strm = none) (headers : Headers) :
    readHeaders headers strm = none := by
  rw [readHeaders]
  split
  · rfl
  next hsome => cases hsome.symm.trans h

/-- The headers are read exactly when their lines come. -/
theorem readHeaders_parses (headers : Headers) :
    Parses (readHeaders headers) fun broken s headers' tail =>
      HeaderBlock broken s headers headers' tail where
  sound {strm headers' rest} h := by
    induction hn : strm.content.length using Nat.strong_induction_on generalizing strm headers with
    | _ n ih =>
      cases hline : getline strm with
      | none =>
        rw [readHeaders_of_none hline] at h
        cases h
      | some r =>
        obtain ⟨line, mid⟩ := r
        obtain ⟨hisLine, hbroken⟩ := getline_parses.sound hline
        have hlt : mid.content.length < n := hn ▸ getline_length hline
        rw [readHeaders_of_getline hline] at h
        split at h
        next hcrlf =>
          split at h
          next htwo =>
            obtain ⟨rfl, rfl⟩ := Prod.mk.inj (Option.some.inj h)
            exact ⟨.blank hisLine hcrlf htwo, hbroken⟩
          next htwo =>
            split at h
            · cases h
            next hmax =>
              obtain ⟨hblock, hrest⟩ := ih _ hlt _ h rfl
              rw [hbroken] at hblock
              exact ⟨.field hisLine hcrlf htwo (not_lt.mp hmax) hblock, hrest.trans hbroken⟩
        next hcrlf =>
          obtain ⟨hblock, hrest⟩ := ih _ hlt _ h rfl
          rw [hbroken] at hblock
          exact ⟨.skipped hisLine (Bool.eq_false_of_not_eq_true hcrlf) hblock, hrest.trans hbroken⟩
  complete {strm headers' tail} h := by
    generalize hs : strm.content = s at h
    generalize hb : strm.broken = broken at h
    induction h generalizing strm with
    | blank hline hcrlf htwo =>
      obtain ⟨rest, hread, htail⟩ := getline_parses.complete (hs ▸ hb ▸ hline)
      exact ⟨rest, by rw [readHeaders_of_getline hread, if_pos hcrlf, if_pos htwo], htail⟩
    | field hline hcrlf htwo hmax _ ih =>
      obtain ⟨mid, hread, hmid⟩ := getline_parses.complete (hs ▸ hb ▸ hline)
      rw [readHeaders_of_getline hread, if_pos hcrlf, if_neg htwo, if_neg (not_lt.mpr hmax)]
      exact ih hmid ((getline_parses.sound hread).2.trans hb)
    | skipped hline hcrlf _ ih =>
      obtain ⟨mid, hread, hmid⟩ := getline_parses.complete (hs ▸ hb ▸ hline)
      rw [readHeaders_of_getline hread, if_neg (Bool.eq_false_iff.mp hcrlf)]
      exact ih hmid ((getline_parses.sound hread).2.trans hb)

end Up2date.Httplib
