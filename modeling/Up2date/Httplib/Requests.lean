import Up2date.Httplib.Framing
import Up2date.Modules.UnixClient

/-!
# Requests

A request is a line with a method and an escaped path, headers, and a body whose length they
tell. The client adds headers that the caller has not given. What is written for a request is
read back: a path cannot leave its line, and headers without line endings and escapes come
back as they were given, with the body behind them.
-/

namespace Up2date.Httplib

open Cxx
open Httpclient (Method)
open Unix (ClientImpl)

/-! ### Paths -/

/-- A digit of `%02X`. -/
def upperHexDigit (d : ℕ) : Char := (Nat.digitChar d).toUpper

/-- A character escaped by its code. -/
def escape (c : Char) : Str := ['%', upperHexDigit (c.toNat / 16 % 16), upperHexDigit (c.toNat % 16)]

/-- A turn of the loop of `encode_url`. -/
def encodeChar (c : Char) : Str :=
  if c = ' ' then "%20".toList
  else if c = '+' then "%2B".toList
  else if c = '\r' then "%0D".toList
  else if c = '\n' then "%0A".toList
  else if c = '\'' then "%27".toList
  else if c = ',' then "%2C".toList
  else if c = ';' then "%3B".toList
  else if 0x80 ≤ c.toNat then escape c
  else [c]

/-- `encode_url`, which ends at a null character. -/
def encodeUrl (s : Str) : Str := (cstr s).flatMap encodeChar

/-- Characters that end a part of the line of a request. -/
def isSeparator (c : Char) : Bool := c == ' ' || c == '\r' || c == '\n' || c == nul

/-- A digit separates no parts of a request line. -/
theorem isSeparator_upperHexDigit : ∀ d < 16, isSeparator (upperHexDigit d) = false := by decide

/-- The value of a digit is read back. -/
theorem hexValue_upperHexDigit : ∀ d < 16, hexValue (upperHexDigit d) = some d := by decide

/-- No digit starts an escape of the other kind. -/
theorem upperHexDigit_ne_u : ∀ d < 16, upperHexDigit d ≠ 'u' := by decide

/-- A character is escaped by its code, or kept. -/
theorem encodeChar_cases (c : Char) :
    encodeChar c = escape c ∨ encodeChar c = [c] ∧ c ≠ ' ' ∧ c ≠ '\r' ∧ c ≠ '\n' := by
  unfold encodeChar
  split
  next h => subst h; exact Or.inl (by decide)
  next hspace =>
  split
  next h => subst h; exact Or.inl (by decide)
  split
  next h => subst h; exact Or.inl (by decide)
  next hcr =>
  split
  next h => subst h; exact Or.inl (by decide)
  next hlf =>
  split
  next h => subst h; exact Or.inl (by decide)
  split
  next h => subst h; exact Or.inl (by decide)
  split
  next h => subst h; exact Or.inl (by decide)
  split
  · exact Or.inl rfl
  · exact Or.inr ⟨rfl, hspace, hcr, hlf⟩

/-- An encoded character separates no parts of a request line. -/
theorem isSeparator_of_mem_encodeChar {c d : Char} (hc : c ≠ nul) (h : d ∈ encodeChar c) :
    isSeparator d = false := by
  obtain hescape | ⟨hkept, hspace, hcr, hlf⟩ := encodeChar_cases c
  · rw [hescape, escape] at h
    simp only [List.mem_cons, List.not_mem_nil, or_false] at h
    obtain rfl | rfl | rfl := h
    · decide
    · exact isSeparator_upperHexDigit _ (Nat.mod_lt _ (by decide))
    · exact isSeparator_upperHexDigit _ (Nat.mod_lt _ (by decide))
  · rw [hkept] at h
    obtain rfl := List.mem_singleton.mp h
    simp [isSeparator, hspace, hcr, hlf, hc]

/-- An escaped path holds no separator. -/
theorem isSeparator_of_mem_encodeUrl {s : Str} {c : Char} (h : c ∈ encodeUrl s) :
    isSeparator c = false := by
  obtain ⟨d, hd, hc⟩ := List.mem_flatMap.mp h
  refine isSeparator_of_mem_encodeChar ?_ hc
  rintro rfl
  exact nul_notMem_cstr s hd

/-- An escape of two digits is decoded. -/
theorem decodeFrom_escape {a b : ℕ} (ha : a < 16) (hb : b < 16) (rest : Str) :
    decodeFrom false 0 ('%' :: upperHexDigit a :: upperHexDigit b :: rest) =
      Char.ofNat (a * 16 + b) :: decodeFrom false 0 rest := by
  have hu : (upperHexDigit a :: upperHexDigit b :: rest).head? ≠ some 'u' := by
    simpa using upperHexDigit_ne_u a ha
  have hhex : fromHexToI 2 (upperHexDigit a :: upperHexDigit b :: rest) 0 = some (a * 16 + b) := by
    simp [fromHexToI, hexValue_upperHexDigit a ha, hexValue_upperHexDigit b hb]
  rw [decodeFrom, if_pos ⟨rfl, List.cons_ne_nil _ _⟩, if_neg hu, hhex]
  rfl

/-- A byte that is encoded is decoded again. -/
theorem decodeFrom_encodeChar {c : Char} (hc : c ≠ '%') (hbyte : c.toNat < 256) (rest : Str) :
    decodeFrom false 0 (encodeChar c ++ rest) = c :: decodeFrom false 0 rest := by
  obtain hescape | ⟨hkept, -⟩ := encodeChar_cases c
  · have hcode : c.toNat / 16 % 16 * 16 + c.toNat % 16 = c.toNat := by omega
    have hdecode := decodeFrom_escape (Nat.mod_lt (c.toNat / 16) (show 0 < 16 by decide))
      (Nat.mod_lt c.toNat (show 0 < 16 by decide)) rest
    rw [hcode, Char.ofNat_toNat] at hdecode
    rw [hescape]
    exact hdecode
  · rw [hkept, List.singleton_append, decodeFrom, if_neg fun h => hc h.1,
      if_neg fun h => absurd h.1 (by decide)]

/-- A path without escapes is read back. -/
theorem decodeUrl_encodeUrl {s : Str} (hs : '%' ∉ s) (hbyte : ∀ c ∈ s, c.toNat < 256) :
    decodeUrl (encodeUrl s) false = cstr s := by
  have hmem : ∀ c ∈ cstr s, c ≠ '%' ∧ c.toNat < 256 := fun c hc =>
    have hc' := (List.takeWhile_prefix _).subset hc
    ⟨fun heq => hs (heq ▸ hc'), hbyte c hc'⟩
  unfold decodeUrl encodeUrl
  generalize cstr s = text at hmem
  induction text with
  | nil => rfl
  | cons c text ih =>
    obtain ⟨⟨hc, hbyte⟩, hrest⟩ := List.forall_mem_cons.mp hmem
    rw [List.flatMap_cons, decodeFrom_encodeChar hc hbyte, ih hrest]

/-! ### Headers -/

/-- One turn of the loop of `write_headers`. -/
def writeField (f : Str × Str) : Str := cstr f.1 ++ ": ".toList ++ cstr f.2 ++ crlf

/-- `write_headers` -/
def writeHeaders (headers : Headers) : Str := (headers.list.map writeField).flatten ++ crlf

/-- A header that a line can hold: its name ends at the colon, and its value is not changed by
the end of the line, the blanks around it or an escape. -/
structure IsField (f : Str × Str) : Prop where
  colon : ':' ∉ f.1
  newline : '\n' ∉ f.1 ++ f.2
  nul : nul ∉ f.1 ++ f.2
  value : f.2 ≠ []
  first : Stops isSpaceOrTab f.2
  last : Stops isSpaceOrTab f.2.reverse
  decoded : decodeUrl f.2 false = f.2
  short : (writeField f).length ≤ CPPHTTPLIB_HEADER_MAX_LENGTH

/-- The text of a header before the end of its line. -/
def fieldText (f : Str × Str) : Str := f.1 ++ ':' :: ' ' :: f.2

/-- A field is written as its text and the end of the line. -/
theorem IsField.writeField_eq {f : Str × Str} (h : IsField f) : writeField f = fieldText f ++ crlf := by
  obtain ⟨hname, hvalue⟩ := not_or.mp (mt List.mem_append.mpr h.nul)
  rw [writeField, cstr_of_notMem hname, cstr_of_notMem hvalue, fieldText]
  simp

/-- The text of a field is parsed as the field. -/
theorem IsField.parseHeader_eq {f : Str × Str} (h : IsField f) : parseHeader (fieldText f) = some f := by
  have htrimmed : (fieldText f).rdropWhile isSpaceOrTab = fieldText f := by
    have hstops : Stops isSpaceOrTab (fieldText f).reverse := fun c hc => by
      rw [fieldText, List.reverse_append, List.reverse_cons, List.reverse_cons, List.append_assoc,
        List.append_assoc, List.head?_append_of_ne_nil _ (by simpa using h.value)] at hc
      exact h.last c hc
    rw [List.rdropWhile, ← List.nil_append (fieldText f).reverse,
      dropWhile_append_of_stops (fun _ hc => absurd hc List.not_mem_nil) hstops, List.reverse_reverse]
  have hname : ∀ c ∈ f.1, decide (c ≠ ':') = true := fun c hc =>
    decide_eq_true fun heq => h.colon (heq ▸ hc)
  have hstops : Stops (fun c => decide (c ≠ ':')) (':' :: ' ' :: f.2) := by simp
  have hdrop : (fieldText f).dropWhile (· ≠ ':') = ':' :: ' ' :: f.2 :=
    dropWhile_append_of_stops hname hstops
  have htake : (fieldText f).takeWhile (· ≠ ':') = f.1 := takeWhile_append_of_stops hname hstops
  have hblank : ∀ c ∈ [' '], isSpaceOrTab c = true := fun c hc => List.mem_singleton.mp hc ▸ rfl
  have hvalue : (' ' :: f.2).dropWhile isSpaceOrTab = f.2 := dropWhile_append_of_stops hblank h.first
  simp only [parseHeader, htrimmed, hdrop, htake, hvalue, if_neg h.value, h.decoded]

/-- A header that is written is added when its line is read. -/
theorem IsField.addLine_eq {f : Str × Str} (h : IsField f) (headers : Headers) :
    headers.addLine (writeField f) = headers.emplace f.1 f.2 := by
  have htake : (writeField f).take ((writeField f).length - 2) = fieldText f := by
    rw [h.writeField_eq, List.length_append]
    exact List.take_left' rfl
  rw [Headers.addLine, htake, h.parseHeader_eq]

/-- The headers that are written one after the other, before an empty line. -/
theorem headerBlock_written {broken : Bool} {fields : List (Str × Str)} (h : ∀ f ∈ fields, IsField f)
    (headers : Headers) (tail : Str) :
    HeaderBlock broken ((fields.map writeField).flatten ++ (crlf ++ tail)) headers
      (fields.foldl (fun headers f => headers.emplace f.1 f.2) headers) tail := by
  induction fields generalizing headers with
  | nil => exact .blank (isLine_crlf tail) (by decide) rfl
  | cons f fields ih =>
    obtain ⟨hf, hfields⟩ := List.forall_mem_cons.mp h
    have hline : IsLine broken (writeField f ++ ((fields.map writeField).flatten ++ (crlf ++ tail)))
        (writeField f) ((fields.map writeField).flatten ++ (crlf ++ tail)) := by
      have hnewline : '\n' ∉ fieldText f ++ ['\r'] := by
        have hmem := hf.newline
        simp only [fieldText, List.mem_append, List.mem_cons, not_or] at hmem ⊢
        simp [hmem]
      have hend := append_crlf (fieldText f) []
      rw [List.append_nil] at hend
      rw [hf.writeField_eq, append_crlf, hend]
      exact isLine_of_notMem hnewline
    have hcrlf : endWithCrlf (writeField f) = true := decide_eq_true ⟨_, hf.writeField_eq.symm⟩
    have htwo : (writeField f).length ≠ 2 := by
      rw [hf.writeField_eq]
      simp [fieldText, crlf]
      omega
    rw [List.map_cons, List.flatten_cons, List.append_assoc, List.foldl_cons, ← hf.addLine_eq]
    exact .field hline hcrlf htwo hf.short (ih hfields _)

/-- Headers are what adding them in their order makes. -/
theorem Headers.foldl_emplace (headers : Headers) :
    headers.list.foldl (fun headers f => headers.emplace f.1 f.2) .empty = headers := by
  obtain ⟨fields, folded⟩ := headers
  have hfields : ∀ (entries : List (Str × (Str × Str))) (acc : Headers),
      (∀ e ∈ entries, e.1 = fold e.2.1) →
      ((entries.map Prod.snd).foldl (fun headers f => headers.emplace f.1 f.2) acc).fields =
        entries.foldl (fun m e => m.insert e.1 e.2) acc.fields := by
    intro entries
    induction entries with
    | nil => exact fun _ _ => rfl
    | cons e entries ih =>
      intro acc h
      obtain ⟨he, hentries⟩ := List.forall_mem_cons.mp h
      rw [List.map_cons, List.foldl_cons, List.foldl_cons, ih _ hentries, he]
      rfl
  ext1
  exact (hfields fields.entries .empty folded).trans fields.foldl_insert_empty

/-- Headers that are written are read back. -/
theorem headerBlock_writeHeaders {broken : Bool} {headers : Headers}
    (h : ∀ f ∈ headers.list, IsField f) (tail : Str) :
    HeaderBlock broken (writeHeaders headers ++ tail) .empty headers tail := by
  have hblock := @headerBlock_written broken _ h .empty tail
  rwa [headers.foldl_emplace, ← List.append_assoc] at hblock

/-! ### The request that is sent -/

/-- `adjust_host_string` -/
def adjustHostString (host : Str) : Str := if ':' ∈ host then "[".toList ++ host ++ "]".toList else host

/-- `host_and_port_` -/
def hostAndPort (cli : ClientImpl) : Str :=
  adjustHostString cli.host ++ ":".toList ++ stdToString cli.port

/-- `toHttpLibHeaders` -/
def toHttpLibHeaders (headers : Httpclient.Headers) : Headers :=
  headers.entries.foldl (fun headers f => headers.emplace f.1 f.2) .empty

/-- A header that is added when the caller has not given one of this name. -/
def Headers.withDefault (name value : Str) (headers : Headers) : Headers :=
  if headers.hasHeader name then headers else headers.emplace name value

/-- The name of a method on a request line. -/
def methodText : Method → Str
  | .get => "GET".toList
  | .put => "PUT".toList
  | .post => "POST".toList

/-- The headers of a request as `Get`, `Put` and `Post` pass them on. -/
def givenHeaders (r : Httpclient.Request) : Headers :=
  let headers := toHttpLibHeaders r.headers
  match r.method with
  | .get => headers
  | _ => headers.emplace "Content-Type".toList (cstr r.contentType)

/-- The `Host` header, without the port when it is the one of the scheme. -/
def hostValue (cli : ClientImpl) : Str :=
  if cli.port = if cli.isSsl then 443 else 80 then cli.host else hostAndPort cli

/-- The headers that `write_request` adds to every request. -/
def commonHeaders (cli : ClientImpl) (r : Httpclient.Request) : Headers :=
  (givenHeaders r).withDefault "Connection".toList "close".toList
    |>.withDefault "Host".toList (hostValue cli)
    |>.withDefault "Accept".toList "*/*".toList
    |>.withDefault "User-Agent".toList "cpp-httplib/0.10.1".toList

/-- The headers of a request, among which those that tell its body. -/
def prepareHeaders (cli : ClientImpl) (r : Httpclient.Request) : Headers :=
  if r.body = [] then
    if r.method = .get then commonHeaders cli r
    else (commonHeaders cli r).emplace contentLengthName "0".toList
  else
    (commonHeaders cli r).withDefault "Content-Type".toList "text/plain".toList
      |>.withDefault contentLengthName (decimal r.body.length)

/-- The line that a request begins with. -/
def requestLine (r : Httpclient.Request) : Str :=
  methodText r.method ++ " ".toList ++ encodeUrl r.target ++ " HTTP/1.1".toList ++ crlf

/-- `write_request` -/
def writeRequest (cli : ClientImpl) (r : Httpclient.Request) : Str :=
  requestLine r ++ writeHeaders (prepareHeaders cli r) ++ r.body

/-! ### The request that is read -/

/-- Read a message: a line, headers, and as many bytes as they tell. -/
def readMessage : Reader Char (Str × Headers × Str) := fun strm =>
  (getline strm).bind fun line =>
    (readHeaders .empty line.2).bind fun headers =>
      (contentWithLength (contentLength headers.1) headers.2).whole.map fun body =>
        ((line.1, headers.1, body.1), body.2)

/-- A line, a block of headers and a body of the right length are read as a message. -/
theorem readMessage_of_parts {strm : InStream Char} {line mid mid' body tail : Str} {headers : Headers}
    (hline : IsLine strm.broken strm.content line mid)
    (hheaders : HeaderBlock strm.broken mid .empty headers mid') (hbody : mid' = body ++ tail)
    (hlength : body.length = contentLength headers) :
    ∃ rest, readMessage strm = some ((line, headers, body), rest) ∧ rest.content = tail := by
  obtain ⟨rest, hread, rfl⟩ := getline_parses.complete hline
  rw [← (getline_parses.sound hread).2] at hheaders
  obtain ⟨rest', hread', rfl⟩ := (readHeaders_parses .empty).complete hheaders
  obtain ⟨rest'', hread'', htail⟩ :=
    (contentWithLength_parses (contentLength headers)).complete ⟨hbody, hlength⟩
  refine ⟨rest'', ?_, htail⟩
  simp only [readMessage, hread, Option.bind_some, hread', hread'', Option.map_some]

/-- The name of a method separates no parts of a request line. -/
theorem isSeparator_of_mem_methodText {method : Method} {c : Char} (h : c ∈ methodText method) :
    isSeparator c = false := by
  have hall : ∀ m, (methodText m).all (fun c => !isSeparator c) = true := by
    intro m
    cases m <;> decide
  simpa using List.all_eq_true.mp (hall method) c h

/-- The request line is read as one line. -/
theorem isLine_requestLine {broken : Bool} (r : Httpclient.Request) (tail : Str) :
    IsLine broken (requestLine r ++ tail) (requestLine r) tail := by
  have hmethod : '\n' ∉ methodText r.method := fun h => absurd (isSeparator_of_mem_methodText h) (by decide)
  have hpath : '\n' ∉ encodeUrl r.target := fun h => absurd (isSeparator_of_mem_encodeUrl h) (by decide)
  have hversion : '\n' ∉ " HTTP/1.1".toList ++ ['\r'] := by decide
  have hspace : '\n' ∉ " ".toList := by decide
  have hnewline : '\n' ∉ methodText r.method ++ " ".toList ++ encodeUrl r.target ++
      " HTTP/1.1".toList ++ ['\r'] := by
    rw [List.append_assoc _ _ ['\r']]
    simp only [List.mem_append, not_or] at hversion ⊢
    exact ⟨⟨⟨hmethod, hspace⟩, hpath⟩, hversion⟩
  have hend := append_crlf (methodText r.method ++ " ".toList ++ encodeUrl r.target ++
    " HTTP/1.1".toList) []
  rw [List.append_nil] at hend
  rw [requestLine, append_crlf, hend]
  exact isLine_of_notMem hnewline

/-- The parts of the line of a request are the method, the path and the version. -/
theorem splitOn_requestLine (r : Httpclient.Request) :
    (requestLine r).splitOn ' ' = [methodText r.method, encodeUrl r.target, "HTTP/1.1".toList ++ crlf] := by
  have hmethod : ' ' ∉ methodText r.method := fun h => absurd (isSeparator_of_mem_methodText h) (by decide)
  have hpath : ' ' ∉ encodeUrl r.target := fun h => absurd (isSeparator_of_mem_encodeUrl h) (by decide)
  have hversion : ' ' ∉ "HTTP/1.1".toList ++ crlf := by decide
  have hparts : requestLine r =
      methodText r.method ++ ' ' :: (encodeUrl r.target ++ ' ' :: ("HTTP/1.1".toList ++ crlf)) := by
    have hspace : " HTTP/1.1".toList = ' ' :: "HTTP/1.1".toList := rfl
    rw [requestLine, hspace]
    simp only [List.append_assoc, List.cons_append]
    rfl
  rw [hparts, List.splitOn_append_cons_self_of_not_mem hmethod,
    List.splitOn_append_cons_self_of_not_mem hpath, List.splitOn_eq_singleton hversion]

/-- A header does not change the values of another name. -/
theorem Headers.values_emplace_of_ne {headers : Headers} {key name : Str} (h : fold name ≠ fold key)
    (value : Str) : (headers.emplace name value).values key = headers.values key := by
  simp [values, emplace, Multimap.values_insert_of_ne h]

/-- A default does not change the values of another name. -/
theorem Headers.values_withDefault_of_ne {headers : Headers} {key name : Str}
    (h : fold name ≠ fold key) (value : Str) :
    (headers.withDefault name value).values key = headers.values key := by
  unfold Headers.withDefault
  split
  · rfl
  · exact Headers.values_emplace_of_ne h value

/-- A default is the value of a name that has none. -/
theorem Headers.values_withDefault {headers : Headers} {name : Str} (h : headers.values name = [])
    (value : Str) : (headers.withDefault name value).values name = [value] := by
  rw [Headers.withDefault, Headers.hasHeader, h]
  simp [Headers.values_emplace_of_eq, h]

/-- The length of the body is the first value of its header. -/
theorem contentLength_of_values {headers : Headers} {values : List Str}
    (h : headers.values contentLengthName = values) :
    contentLength headers = strtoull (cstr (values.head?.getD [])) := by
  rw [contentLength, Headers.getHeaderValue, h]

/-- A length is read back. -/
theorem strtoull_decimal {n : ℕ} (h : n ≤ ULONG_MAX) : strtoull (cstr (decimal n)) = n := by
  rw [cstr_decimal, strtoull, strtol_digits (decimal_ne_nil n) fun _ => isDigit_of_mem_decimal,
    digitsValue_decimal]
  simp [toUnsignedLong, not_lt.mpr h]

/-- The length that is announced is the length of the body. -/
theorem contentLength_prepareHeaders (cli : ClientImpl) {r : Httpclient.Request}
    (hgiven : (givenHeaders r).values contentLengthName = [])
    (hbody : r.body.length ≤ ULONG_MAX) :
    r.body.length = contentLength (prepareHeaders cli r) := by
  have hcommon : (commonHeaders cli r).values contentLengthName = [] := by
    rw [commonHeaders, Headers.values_withDefault_of_ne (by decide),
      Headers.values_withDefault_of_ne (by decide), Headers.values_withDefault_of_ne (by decide),
      Headers.values_withDefault_of_ne (by decide), hgiven]
  unfold prepareHeaders
  split
  next hempty =>
    rw [hempty]
    split
    · rw [contentLength_of_values hcommon]
      decide
    · rw [contentLength_of_values (Headers.values_emplace_of_eq rfl _), hcommon]
      decide
  next hbody' =>
    have htype : ((commonHeaders cli r).withDefault "Content-Type".toList "text/plain".toList).values
        contentLengthName = [] := (Headers.values_withDefault_of_ne (by decide) _).trans hcommon
    rw [contentLength_of_values (Headers.values_withDefault htype _)]
    exact (strtoull_decimal hbody).symm

/-! ### The headers that are added -/

/-- Characters that nothing happens to in a header. -/
def isPlain (c : Char) : Bool :=
  !isSpaceOrTab c && c != ':' && c != '\n' && c != nul && c != '%'

/-- A short header of plain characters is a field. -/
theorem isField_of_isPlain {f : Str × Str} (hname : f.1.all isPlain = true)
    (hvalue : f.2.all isPlain = true) (hne : f.2 ≠ []) (hshort : f.1.length + f.2.length ≤ 8000) :
    IsField f := by
  have hplain : ∀ c ∈ f.1 ++ f.2, isPlain c = true := fun c hc =>
    (List.mem_append.mp hc).elim (List.all_eq_true.mp hname c) (List.all_eq_true.mp hvalue c)
  have hmem : ∀ c, isPlain c = false → c ∉ f.1 ++ f.2 := fun c hc h =>
    absurd (hplain c h) (Bool.eq_false_iff.mp hc)
  have hblank : ∀ c ∈ f.2, isSpaceOrTab c = false := fun c hc => by
    have hc' := List.all_eq_true.mp hvalue c hc
    simp only [isPlain, Bool.and_eq_true, Bool.not_eq_true'] at hc'
    exact hc'.1.1.1.1
  have hnul := not_or.mp (mt List.mem_append.mpr (hmem nul (by decide)))
  refine ⟨fun h => hmem ':' (by decide) (List.mem_append_left _ h), hmem '\n' (by decide),
    hmem nul (by decide), hne, fun c hc => hblank c (List.mem_of_mem_head? hc),
    fun c hc => hblank c (List.mem_reverse.mp (List.mem_of_mem_head? hc)),
    decodeUrl_of_notMem fun h => hmem '%' (by decide) (List.mem_append_right _ h), ?_⟩
  rw [writeField, cstr_of_notMem hnul.1, cstr_of_notMem hnul.2]
  simp only [List.length_append, crlf, CPPHTTPLIB_HEADER_MAX_LENGTH]
  simp
  omega

/-- Every header is of a kind that holds of given ones and of those that are added. -/
theorem Headers.forall_emplace {P : Str × Str → Prop} {headers : Headers} {name value : Str}
    (h : ∀ f ∈ headers.list, P f) (hf : P (name, value)) :
    ∀ f ∈ (headers.emplace name value).list, P f := by
  intro f hmem
  obtain ⟨e, he, rfl⟩ := List.mem_map.mp hmem
  obtain rfl | he := mem_insertUpper.mp he
  · exact hf
  · exact h _ (List.mem_map.mpr ⟨e, he, rfl⟩)

/-- What holds of the headers and of a default holds of both together. -/
theorem Headers.forall_withDefault {P : Str × Str → Prop} {headers : Headers} {name value : Str}
    (h : ∀ f ∈ headers.list, P f) (hf : P (name, value)) :
    ∀ f ∈ (headers.withDefault name value).list, P f := by
  unfold Headers.withDefault
  split
  · exact h
  · exact Headers.forall_emplace h hf

/-- A digit is a plain character. -/
theorem isPlain_of_isDigit {c : Char} (h : c.isDigit = true) : isPlain c = true := by
  by_contra hplain
  have hcases : c = ' ' ∨ c = '\t' ∨ c = ':' ∨ c = '\n' ∨ c = nul ∨ c = '%' := by
    simp only [isPlain, isSpaceOrTab] at hplain
    grind
  obtain rfl | rfl | rfl | rfl | rfl | rfl := hcases <;> exact absurd h (by decide)

/-- The length of a body is a field. -/
theorem isField_contentLength {n : ℕ} (h : n ≤ ULONG_MAX) : IsField (contentLengthName, decimal n) := by
  have hdigits : (decimal n).length ≤ 20 := by
    refine (Nat.length_toDigits_le_iff (by decide) (by decide)).mpr (h.trans_lt ?_)
    decide
  have hname : contentLengthName.length = 14 := by decide
  have hplain : contentLengthName.all isPlain = true := by decide
  refine isField_of_isPlain hplain ?_ (decimal_ne_nil n) (by dsimp only; omega)
  exact List.all_eq_true.mpr fun c hc => isPlain_of_isDigit (isDigit_of_mem_decimal hc)

/-- All headers of a request are fields when those of the caller and the host are. -/
theorem isField_of_mem_prepareHeaders {cli : ClientImpl} {r : Httpclient.Request}
    (hgiven : ∀ f ∈ (givenHeaders r).list, IsField f)
    (hhost : IsField ("Host".toList, hostValue cli)) (hbody : r.body.length ≤ ULONG_MAX) :
    ∀ f ∈ (prepareHeaders cli r).list, IsField f := by
  have hconnection : IsField ("Connection".toList, "close".toList) :=
    isField_of_isPlain (by decide) (by decide) (by decide) (by decide)
  have haccept : IsField ("Accept".toList, "*/*".toList) :=
    isField_of_isPlain (by decide) (by decide) (by decide) (by decide)
  have hagent : IsField ("User-Agent".toList, "cpp-httplib/0.10.1".toList) :=
    isField_of_isPlain (by decide) (by decide) (by decide) (by decide)
  have htype : IsField ("Content-Type".toList, "text/plain".toList) :=
    isField_of_isPlain (by decide) (by decide) (by decide) (by decide)
  have hcommon : ∀ f ∈ (commonHeaders cli r).list, IsField f :=
    Headers.forall_withDefault (Headers.forall_withDefault (Headers.forall_withDefault
      (Headers.forall_withDefault hgiven hconnection) hhost) haccept) hagent
  unfold prepareHeaders
  split
  · split
    · exact hcommon
    · exact Headers.forall_emplace hcommon
        (isField_of_isPlain (by decide) (by decide) (by decide) (by decide))
  · exact Headers.forall_withDefault (Headers.forall_withDefault hcommon htype)
      (isField_contentLength hbody)

/-- A request whose headers the lines of a message can hold, without a length of their own. -/
structure Sendable (cli : ClientImpl) (r : Httpclient.Request) : Prop where
  given : ∀ f ∈ (givenHeaders r).list, IsField f
  host : IsField ("Host".toList, hostValue cli)
  length : (givenHeaders r).values contentLengthName = []
  body : r.body.length ≤ ULONG_MAX

/-- What is written for a request is read back: its line, its headers and its body, with
whatever comes behind it left. -/
theorem Sendable.readMessage_eq {cli : ClientImpl} {r : Httpclient.Request}
    (hr : Sendable cli r) {strm : InStream Char} {tail : Str}
    (h : strm.content = writeRequest cli r ++ tail) :
    ∃ rest, readMessage strm = some ((requestLine r, prepareHeaders cli r, r.body), rest) ∧
      rest.content = tail := by
  have hfields := isField_of_mem_prepareHeaders hr.given hr.host hr.body
  apply readMessage_of_parts _ (headerBlock_writeHeaders hfields _) rfl
  · exact contentLength_prepareHeaders cli hr.length hr.body
  · rw [h, writeRequest, List.append_assoc, List.append_assoc]
    exact isLine_requestLine r _

end Up2date.Httplib
