import Up2date.Httplib.Arrivals

/-!
# Contents in chunks

The grammar of a content in chunks, as the loop over the chunks reads it. The end of a content
is a chunk without data and an empty line. The loop is also left, as after a complete content,
when another line than an empty one follows the data of a chunk; whatever comes behind that
line is not read. Contents that are written in chunks are read back, and of a part of such a
content it is known exactly when it is taken for a complete one.
-/

namespace Up2date.Httplib

open Cxx

/-! ### Complete contents -/

/-- The bytes of a content that arrives completely, and what follows it. -/
def Arrival.whole (a : Arrival) : Option (Str × InStream Char) :=
  a.rest.map fun rest => (a.chunks.flatten, rest)

/-- Chunks in front of a content stand in front of what arrives completely. -/
theorem Arrival.whole_afterAll (chunks : List Str) (a : Arrival) :
    (a.afterAll chunks).whole = a.whole.map fun r => (chunks.flatten ++ r.1, r.2) := by
  obtain ⟨chunks', rest⟩ := a
  cases rest <;> simp [whole, afterAll]

/-- A content of so many bytes. -/
theorem contentWithLength_parses (len : ℕ) :
    Parses (fun strm => (contentWithLength len strm).whole) fun _ s body tail =>
      s = body ++ tail ∧ body.length = len where
  sound {strm body rest} h := by
    have hdata := contentWithLength_isContent len strm
    obtain ⟨rest', hrest, hbody⟩ := Option.map_eq_some_iff.mp h
    obtain ⟨rfl, rfl⟩ := Prod.mk.inj hbody
    have hle : len ≤ strm.content.length := by
      by_contra hcut
      rw [hdata.cut (not_le.mp hcut)] at hrest
      cases hrest
    obtain ⟨rest'', hsome, hdrop, hbroken⟩ := hdata.complete hle
    obtain rfl := Option.some.inj (hrest.symm.trans hsome)
    rw [hdata.bytes, hdrop, List.take_append_drop, List.length_take_of_le hle]
    exact ⟨⟨rfl, rfl⟩, hbroken⟩
  complete {strm body tail} h := by
    obtain ⟨hcontent, rfl⟩ := h
    have hdata := contentWithLength_isContent body.length strm
    obtain ⟨rest, hsome, hdrop, -⟩ := hdata.complete (by simp [hcontent])
    refine ⟨rest, ?_, by rw [hdrop, hcontent, List.drop_left]⟩
    rw [Arrival.whole, hsome, hdata.bytes, hcontent, List.take_left]
    rfl

/-- A content up to the end of the connection. -/
theorem contentWithoutLength_parses :
    Parses (fun strm => (contentWithoutLength strm).whole) fun broken s body tail =>
      broken = false ∧ body = s ∧ tail = [] where
  sound {strm body rest} h := by
    obtain ⟨-, hbytes, hrest⟩ := contentWithoutLength_spec strm
    obtain ⟨rest', hsome, hbody⟩ := Option.map_eq_some_iff.mp h
    obtain ⟨rfl, rfl⟩ := Prod.mk.inj hbody
    cases hbroken : strm.broken with
    | true =>
      rw [if_pos hbroken, hsome] at hrest
      cases hrest
    | false =>
      rw [if_neg (Bool.eq_false_iff.mp hbroken)] at hrest
      obtain ⟨rest'', hsome', hnil, hclosed⟩ := hrest
      obtain rfl := Option.some.inj (hsome.symm.trans hsome')
      exact ⟨⟨rfl, hbytes, hnil⟩, hclosed⟩
  complete {strm body tail} h := by
    obtain ⟨hbroken, rfl, rfl⟩ := h
    obtain ⟨-, hbytes, hrest⟩ := contentWithoutLength_spec strm
    rw [if_neg (Bool.eq_false_iff.mp hbroken)] at hrest
    obtain ⟨rest, hsome, hnil, -⟩ := hrest
    exact ⟨rest, by rw [Arrival.whole, hsome, hbytes]; rfl, hnil⟩

/-! ### Lines between chunks -/

/-- A text up to its first line feed is a line. -/
theorem isLine_of_notMem {broken : Bool} {text tail : Str} (h : '\n' ∉ text) :
    IsLine broken (text ++ '\n' :: tail) (text ++ ['\n']) tail :=
  ⟨by simp, Or.inl ⟨text, h, rfl⟩⟩

/-- The line up to the first line feed. -/
theorem IsLine.eq_of_notMem {broken : Bool} {text tail line tail' : Str}
    (h : IsLine broken (text ++ '\n' :: tail) line tail') (htext : '\n' ∉ text) :
    line = text ++ ['\n'] ∧ tail' = tail :=
  getline_parses.functional (isLine_of_notMem htext) h

/-- Without a line feed a line is all that comes. -/
theorem IsLine.eq_of_last {broken : Bool} {s line tail : Str} (h : IsLine broken s line tail)
    (hs : '\n' ∉ s) : line = s ∧ tail = [] ∧ broken = false := by
  obtain ⟨rfl, ⟨text, -, rfl⟩ | ⟨-, -, rfl, hbroken⟩⟩ := h
  · simp at hs
  · exact ⟨(List.append_nil line).symm, rfl, hbroken⟩

/-- A stream with a line is not at its end. -/
theorem IsLine.ne_nil {broken : Bool} {s line tail : Str} (h : IsLine broken s line tail) :
    s ≠ [] := by
  obtain ⟨rfl, ⟨text, -, rfl⟩ | ⟨hne, -⟩⟩ := h
  · simp
  · exact List.append_ne_nil_of_left_ne_nil hne tail

/-- The empty line is a line. -/
theorem isLine_crlf {broken : Bool} (tail : Str) : IsLine broken (crlf ++ tail) crlf tail :=
  isLine_of_notMem (show '\n' ∉ ['\r'] by decide)

/-- The line up to an empty one. -/
theorem IsLine.eq_crlf {broken : Bool} {tail line tail' : Str}
    (h : IsLine broken (crlf ++ tail) line tail') : line = crlf ∧ tail' = tail :=
  h.eq_of_notMem (show '\n' ∉ ['\r'] by decide)

/-- A line is compared with an empty one as a C string. -/
theorem IsLine.cstr_eq_crlf_iff {broken : Bool} {s line tail : Str} (h : IsLine broken s line tail) :
    cstr line = crlf ↔ line = crlf := by
  refine ⟨fun hcrlf => ?_, fun hline => by rw [hline]; decide⟩
  obtain ⟨more, hmore⟩ : crlf <+: line := hcrlf ▸ List.takeWhile_prefix _
  obtain ⟨-, ⟨text, htext, rfl⟩ | ⟨-, hmem, -⟩⟩ := h
  · have hline : IsLine broken (crlf ++ more) (text ++ ['\n']) [] := by
      rw [hmore]
      exact isLine_of_notMem htext
    exact hline.eq_crlf.1
  · rw [← hmore] at hmem
    exact absurd (List.mem_append_left more (by decide)) hmem

/-- A line is read, and it is blank when it holds nothing but its end. -/
theorem readBlank_parses :
    Parses readBlank fun broken s blank tail =>
      ∃ line, IsLine broken s line tail ∧ blank = decide (line = crlf) where
  sound {strm blank rest} h := by
    obtain ⟨⟨line, rest'⟩, hline, hblank⟩ := Option.map_eq_some_iff.mp h
    obtain ⟨rfl, rfl⟩ := Prod.mk.inj hblank
    obtain ⟨hisLine, hbroken⟩ := getline_parses.sound hline
    exact ⟨⟨line, hisLine, by simp only [hisLine.cstr_eq_crlf_iff]⟩, hbroken⟩
  complete {strm blank tail} h := by
    obtain ⟨line, hline, rfl⟩ := h
    obtain ⟨rest, hread, htail⟩ := getline_parses.complete hline
    refine ⟨rest, ?_, htail⟩
    simp only [readBlank, hread, Option.map_some, hline.cstr_eq_crlf_iff]

/-! ### The grammar of chunks -/

/-- Chunks behind the line with the length of the first one. -/
inductive Chunks (broken : Bool) : Str → Str → Str → Str → Prop
  | last {line s tail : Str} : chunkLength line = some 0 → IsLine broken s crlf tail →
      Chunks broken line s [] tail
  | torn {line data text mid tail : Str} : chunkLength line = some data.length → data ≠ [] →
      IsLine broken mid text tail → text ≠ crlf → Chunks broken line (data ++ mid) data tail
  | chunk {line line' data mid mid' mid'' body tail : Str} :
      chunkLength line = some data.length → data ≠ [] → IsLine broken mid crlf mid' →
      IsLine broken mid' line' mid'' → Chunks broken line' mid'' body tail →
      Chunks broken line (data ++ mid) (data ++ body) tail

/-- A content in chunks. -/
def IsChunked (broken : Bool) (s body tail : Str) : Prop :=
  ∃ line mid, IsLine broken s line mid ∧ Chunks broken line mid body tail

/-- A chunk of length zero ends the content. -/
theorem contentChunks_last {line : Str} (hlen : chunkLength line = some 0) (strm : InStream Char) :
    (contentChunks line strm).whole = (lastChunk strm).map fun rest => ([], rest) := by
  rw [contentChunks_of_ended (a := ⟨[], lastChunk strm⟩) (by simp only [chunkTurn, hlen])]
  rfl

/-- A chunk, an empty line behind it, and the line and the chunks that follow. -/
theorem contentChunks_chunk {line : Str} {len : ℕ} (hlen : chunkLength line = some (len + 1))
    (strm : InStream Char) :
    (contentChunks line strm).whole =
      (contentWithLength (len + 1) strm).whole.bind fun data =>
        (readBlank data.2).bind fun blank =>
          if blank.1 then
            (getline blank.2).bind fun next =>
              (contentChunks next.1 next.2).whole.map fun r => (data.1 ++ r.1, r.2)
          else some (data.1, blank.2) := by
  cases hdata : contentWithLength (len + 1) strm with
  | mk chunks rest =>
    cases rest with
    | none =>
      rw [contentChunks_of_ended (chunkTurn_of_none hlen (by rw [hdata])), hdata]
      rfl
    | some mid =>
      have hturn := chunkTurn_of_some hlen (by rw [hdata])
      rw [hdata] at hturn
      simp only [Arrival.whole, Option.map_some, Option.bind_some]
      cases hblank : readBlank mid with
      | none =>
        rw [contentChunks_of_ended (hturn.trans (by simp only [behindChunk, hblank]; rfl))]
        rfl
      | some r =>
        obtain ⟨blank, rest⟩ := r
        cases blank with
        | false =>
          rw [contentChunks_of_ended (hturn.trans (by simp only [behindChunk, hblank]; rfl))]
          rfl
        | true =>
          cases hline : getline rest with
          | none =>
            rw [contentChunks_of_ended (hturn.trans (by simp only [behindChunk, hblank, hline]; rfl))]
            simp [hline]
          | some r =>
            rw [contentChunks_of_more (hturn.trans (by simp only [behindChunk, hblank, hline]; rfl))]
            simp only [Option.bind_some, if_true, hline]
            exact Arrival.whole_afterAll chunks _

/-- What is read behind the data of a chunk. -/
theorem contentChunks_of_data {line data mid : Str} {strm : InStream Char}
    (hlen : chunkLength line = some data.length) (hne : data ≠ [])
    (hcontent : strm.content = data ++ mid) :
    ∃ rest, rest.content = mid ∧ rest.broken = strm.broken ∧
      (contentChunks line strm).whole =
        (readBlank rest).bind fun blank =>
          if blank.1 then
            (getline blank.2).bind fun next =>
              (contentChunks next.1 next.2).whole.map fun r => (data ++ r.1, r.2)
          else some (data, blank.2) := by
  obtain ⟨len, hlength⟩ := Nat.exists_eq_add_one.mpr (List.length_pos_iff.mpr hne)
  rw [hlength] at hlen
  obtain ⟨rest, hdata, hmid⟩ :=
    (contentWithLength_parses (len + 1)).complete
      (show _ ∧ data.length = len + 1 from ⟨hcontent, hlength⟩)
  refine ⟨rest, hmid, ((contentWithLength_parses (len + 1)).sound hdata).2, ?_⟩
  rw [contentChunks_chunk hlen, hdata, Option.bind_some]

/-- The chunks are read exactly when they come. -/
theorem contentChunks_parses (line : Str) :
    Parses (fun strm => (contentChunks line strm).whole) fun broken s body tail =>
      Chunks broken line s body tail where
  sound {strm body rest} h := by
    induction hn : strm.content.length using Nat.strong_induction_on
      generalizing line strm body rest with
    | _ n ih =>
      cases hlen : chunkLength line with
      | none =>
        rw [contentChunks_of_ended (a := ⟨[], none⟩) (by simp only [chunkTurn, hlen])] at h
        cases h
      | some len =>
        cases len with
        | zero =>
          rw [contentChunks_last hlen] at h
          obtain ⟨rest', hlast, hbody⟩ := Option.map_eq_some_iff.mp h
          obtain ⟨rfl, rfl⟩ := Prod.mk.inj hbody
          unfold lastChunk at hlast
          split at hlast
          next rest'' hblank =>
            obtain rfl := Option.some.inj hlast
            obtain ⟨⟨text, hline, htext⟩, hbroken⟩ := readBlank_parses.sound hblank
            rw [of_decide_eq_true htext.symm] at hline
            exact ⟨.last hlen hline, hbroken⟩
          · cases hlast
        | succ len =>
          rw [contentChunks_chunk hlen] at h
          obtain ⟨⟨data, mid⟩, hdata, h⟩ := Option.bind_eq_some_iff.mp h
          obtain ⟨⟨blank, mid'⟩, hblank, h⟩ := Option.bind_eq_some_iff.mp h
          obtain ⟨⟨hcontent, hlength⟩, hmid⟩ := (contentWithLength_parses (len + 1)).sound hdata
          obtain ⟨⟨text, hline, htext⟩, hmid'⟩ := readBlank_parses.sound hblank
          have hne : data ≠ [] := List.ne_nil_of_length_eq_add_one hlength
          rw [← hlength] at hlen
          rw [hcontent, ← hmid]
          cases blank with
          | false =>
            obtain ⟨rfl, rfl⟩ := Prod.mk.inj (Option.some.inj h)
            exact ⟨.torn hlen hne hline (of_decide_eq_false htext.symm), hmid'⟩
          | true =>
            rw [of_decide_eq_true htext.symm] at hline
            obtain ⟨⟨line', mid''⟩, hnext, h⟩ := Option.bind_eq_some_iff.mp h
            obtain ⟨⟨body', rest'⟩, hwhole, hbody⟩ := Option.map_eq_some_iff.mp h
            obtain ⟨rfl, rfl⟩ := Prod.mk.inj hbody
            obtain ⟨hnextLine, hmid''⟩ := getline_parses.sound hnext
            have hlt : mid''.content.length < n := by
              rw [← hn, hcontent, List.length_append]
              have hshort := (getline_length hnext).trans (readBlank_length hblank)
              exact hshort.trans_le (Nat.le_add_left _ _)
            obtain ⟨hchunks, hrest⟩ := ih _ hlt line' hwhole rfl
            rw [hmid'', hmid'] at hchunks
            rw [hmid'] at hnextLine
            exact ⟨.chunk hlen hne hline hnextLine hchunks, hrest.trans (hmid''.trans hmid')⟩
  complete {strm body tail} h := by
    generalize hs : strm.content = s at h
    generalize hb : strm.broken = broken at h
    induction h generalizing strm with
    | last hlen hline =>
      subst hs hb
      obtain ⟨rest, hblank, htail⟩ := readBlank_parses.complete ⟨crlf, hline, rfl⟩
      rw [decide_eq_true rfl] at hblank
      exact ⟨rest, by rw [contentChunks_last hlen]; simp only [lastChunk, hblank, Option.map_some], htail⟩
    | torn hlen hne hline htext =>
      obtain ⟨mid, rfl, hmid, hwhole⟩ := contentChunks_of_data hlen hne hs
      rw [← hb, ← hmid] at hline
      obtain ⟨rest, hblank, htail⟩ := readBlank_parses.complete ⟨_, hline, rfl⟩
      rw [decide_eq_false htext] at hblank
      exact ⟨rest, by rw [hwhole, hblank]; rfl, htail⟩
    | chunk hlen hne hline hnext _ ih =>
      obtain ⟨mid, rfl, hmid, hwhole⟩ := contentChunks_of_data hlen hne hs
      rw [← hb, ← hmid] at hline
      obtain ⟨mid', hblank, rfl⟩ := readBlank_parses.complete ⟨_, hline, rfl⟩
      have hmid' := (readBlank_parses.sound hblank).2
      rw [decide_eq_true rfl] at hblank
      rw [← hb, ← hmid, ← hmid'] at hnext
      obtain ⟨mid'', hnextLine, rfl⟩ := getline_parses.complete hnext
      have hmid'' := (getline_parses.sound hnextLine).2
      obtain ⟨rest, hrest, htail⟩ := ih rfl ((hmid''.trans (hmid'.trans hmid)).trans hb)
      refine ⟨rest, ?_, htail⟩
      rw [hwhole, hblank, Option.bind_some, if_pos rfl, hnextLine, Option.bind_some, hrest]
      rfl

/-- A content in chunks is complete exactly when its chunks come. -/
theorem contentChunked_parses :
    Parses (fun strm => (contentChunked strm).whole) IsChunked := by
  have hwhole : (fun strm => (contentChunked strm).whole) = fun strm =>
      (getline strm).bind fun r => (contentChunks r.1 r.2).whole := by
    funext strm
    unfold contentChunked
    cases getline strm <;> rfl
  rw [hwhole]
  exact getline_parses.bind contentChunks_parses

/-! ### Writing chunks -/

/-- The loop of `from_i_to_hex`. -/
def fromIToHexFrom (n : ℕ) (ret : Str) : Str :=
  if 0 < n / 16 then fromIToHexFrom (n / 16) (Nat.digitChar (n % 16) :: ret)
  else Nat.digitChar (n % 16) :: ret
termination_by n
decreasing_by omega

/-- `from_i_to_hex`. -/
def fromIToHex (n : ℕ) : Str := fromIToHexFrom n []

/-- The digits are put in front of those found so far. -/
theorem fromIToHexFrom_eq (n : ℕ) (ret : Str) : fromIToHexFrom n ret = Nat.toDigits 16 n ++ ret := by
  induction n using Nat.strong_induction_on generalizing ret with
  | _ n ih =>
    rw [fromIToHexFrom, Nat.toDigits_eq_if (by decide)]
    split
    next hpos =>
      have hle : 16 ≤ n := by omega
      rw [ih _ (by omega), if_neg (not_lt.mpr hle), List.append_assoc, List.singleton_append]
    next hpos =>
      have hlt : n < 16 := by omega
      rw [if_pos hlt, Nat.mod_eq_of_lt hlt]
      rfl

/-- A length is written with the hexadecimal digits of the number. -/
theorem fromIToHex_eq (n : ℕ) : fromIToHex n = Nat.toDigits 16 n :=
  (fromIToHexFrom_eq n []).trans (List.append_nil _)

/-- The value of a digit is read back. -/
theorem hexValue_digitChar : ∀ d < 16, hexValue (Nat.digitChar d) = some d := by decide

/-- A length is written with hexadecimal digits only. -/
theorem isHexDigit_of_mem_fromIToHex {n : ℕ} {c : Char} (h : c ∈ fromIToHex n) :
    isHexDigit c = true := by
  rw [fromIToHex_eq] at h
  induction n using Nat.strong_induction_on with
  | _ n ih =>
    rw [Nat.toDigits_eq_if (by decide)] at h
    split at h
    next hlt =>
      obtain rfl := List.mem_singleton.mp h
      rw [isHexDigit, hexValue_digitChar n hlt]
      rfl
    next hle =>
      rcases List.mem_append.mp h with h | h
      · exact ih _ (by omega) h
      · obtain rfl := List.mem_singleton.mp h
        rw [isHexDigit, hexValue_digitChar _ (Nat.mod_lt n (by decide))]
        rfl

/-- A number is read back from its hexadecimal digits. -/
theorem hexDigitsValue_fromIToHex (n : ℕ) : hexDigitsValue (fromIToHex n) = n := by
  rw [fromIToHex_eq]
  induction n using Nat.strong_induction_on with
  | _ n ih =>
    rw [Nat.toDigits_eq_if (by decide)]
    split
    next hlt => simp [hexDigitsValue, hexValue_digitChar n hlt]
    next hle =>
      have hinit := ih (n / 16) (by omega)
      rw [hexDigitsValue] at hinit ⊢
      rw [List.foldl_append, hinit, List.foldl_cons, List.foldl_nil,
        hexValue_digitChar _ (Nat.mod_lt n (by decide)), Option.getD_some]
      omega

/-- Other characters do not occur in it. -/
theorem notMem_fromIToHex {n : ℕ} {c : Char} (hc : isHexDigit c = false) : c ∉ fromIToHex n :=
  fun hmem => absurd (isHexDigit_of_mem_fromIToHex hmem) (Bool.eq_false_iff.mp hc)

/-- The line before a chunk. -/
def chunkHeader (n : ℕ) : Str := fromIToHex n ++ crlf

/-- The chunk that `data_sink.write` of `write_content_chunked` emits for a payload. -/
def writeChunk (payload : Str) : Str :=
  if payload = [] then [] else chunkHeader payload.length ++ payload ++ crlf

/-- What `data_sink.done` emits. -/
def doneMarker : Str := "0\r\n\r\n".toList

/-- `write_content_chunked`, for a provider that writes these payloads and is done. -/
def writeContentChunked (payloads : List Str) : Str :=
  (payloads.map writeChunk).flatten ++ doneMarker

/-- The digits start at the character zero. -/
theorem le_toNat_of_isHexDigit {c : Char} (h : isHexDigit c = true) : 48 ≤ c.toNat := by
  unfold isHexDigit hexValue at h
  split at h
  next hdigit =>
    have hc : 48 ≤ c.toNat ∧ c.toNat ≤ 57 := by
      simpa [Char.isDigit, UInt32.le_iff_toNat_le] using hdigit
    exact hc.1
  split at h
  next hupper => exact le_trans (by decide) (show 'A'.toNat ≤ c.toNat from hupper.1)
  split at h
  next hlower => exact le_trans (by decide) (show 'a'.toNat ≤ c.toNat from hlower.1)
  · cases h

/-- A digit is no space. -/
theorem isSpace_of_isHexDigit {c : Char} (h : isHexDigit c = true) : isSpace c = false := by
  have hle := le_toNat_of_isHexDigit h
  simp only [isSpace, Bool.or_eq_false_iff, beq_eq_false_iff_ne, Bool.and_eq_false_imp,
    decide_eq_true_eq, decide_eq_false_iff_not]
  refine ⟨?_, fun _ => by omega⟩
  rintro rfl
  exact absurd hle (by decide)

/-- Without an x behind the first character no prefix is dropped. -/
theorem dropHexPrefix_of_ne {c x : Char} {s : Str} (hx : x ≠ 'x' ∧ x ≠ 'X') :
    dropHexPrefix (c :: x :: s) = c :: x :: s := by
  unfold dropHexPrefix
  split <;> simp_all

/-- A digit differs from every character that is none. -/
theorem ne_of_isHexDigit {c x : Char} (h : isHexDigit c = true) (hx : isHexDigit x = false) :
    c ≠ x := by
  rintro rfl
  exact absurd h (Bool.eq_false_iff.mp hx)

/-- Digits up to the end of a line are neither skipped nor taken for a prefix. -/
theorem strtoulHex_of_hex {ds : Str} (hne : ds ≠ []) (hds : ∀ c ∈ ds, isHexDigit c = true) :
    strtoulHex (ds ++ crlf) = some (toUnsignedLong false (hexDigitsValue ds)) := by
  obtain ⟨c, cs, rfl⟩ := List.exists_cons_of_ne_nil hne
  have hc : isHexDigit c = true := hds c List.mem_cons_self
  have hskip : (c :: cs ++ crlf).dropWhile isSpace = c :: cs ++ crlf := by
    simp [isSpace_of_isHexDigit hc]
  have hsign : takeSign (c :: cs ++ crlf) = (false, c :: cs ++ crlf) := by
    unfold takeSign
    split
    next h => exact absurd (List.cons.inj h).1 (ne_of_isHexDigit hc (by decide))
    next h => exact absurd (List.cons.inj h).1 (ne_of_isHexDigit hc (by decide))
    · rfl
  have hinit : dropHexPrefix (c :: cs ++ crlf) = c :: cs ++ crlf := by
    cases cs with
    | nil => exact dropHexPrefix_of_ne (by decide)
    | cons d ds =>
      have hd : isHexDigit d = true := hds d (by simp)
      exact dropHexPrefix_of_ne
        ⟨ne_of_isHexDigit hd (by decide), ne_of_isHexDigit hd (by decide)⟩
  have htake : (c :: cs ++ crlf).takeWhile isHexDigit = c :: cs := by
    rw [List.takeWhile_append_of_pos hds]
    exact List.append_nil _
  simp only [strtoulHex, hskip, hsign, hinit, htake, if_neg hne]

/-- The length of a chunk is read back. -/
theorem chunkLength_chunkHeader {n : ℕ} (h : n < ULONG_MAX) :
    chunkLength (chunkHeader n) = some n := by
  have hne : fromIToHex n ≠ [] := fromIToHex_eq n ▸ Nat.toDigits_ne_nil
  have hnul : nul ∉ chunkHeader n := fun hmem => by
    rcases List.mem_append.mp hmem with hmem | hmem
    · exact notMem_fromIToHex (by decide) hmem
    · exact absurd hmem (by decide)
  rw [chunkLength, cstr_of_notMem hnul, chunkHeader,
    strtoulHex_of_hex hne fun c => isHexDigit_of_mem_fromIToHex, hexDigitsValue_fromIToHex,
    toUnsignedLong, if_neg (not_lt.mpr h.le)]
  simp [h.ne]

/-! ### What is written is read -/

/-- The line feed comes last in the line with the length. -/
theorem chunkHeader_append (n : ℕ) (tail : Str) :
    chunkHeader n ++ tail = (fromIToHex n ++ ['\r']) ++ '\n' :: tail :=
  append_crlf (fromIToHex n) tail

/-- No line feed stands in front of it. -/
theorem newline_notMem_fromIToHex (n : ℕ) : '\n' ∉ fromIToHex n ++ ['\r'] := by
  simp [notMem_fromIToHex (show isHexDigit '\n' = false by decide)]

/-- The line with the length is read as one line. -/
theorem isLine_chunkHeader {broken : Bool} (n : ℕ) (tail : Str) :
    IsLine broken (chunkHeader n ++ tail) (chunkHeader n) tail := by
  have hheader : chunkHeader n = (fromIToHex n ++ ['\r']) ++ ['\n'] := by
    rw [← chunkHeader_append, List.append_nil]
  rw [chunkHeader_append, hheader]
  exact isLine_of_notMem (newline_notMem_fromIToHex n)

/-- Payloads that a chunk can hold. -/
def IsPayloads (payloads : List Str) : Prop := ∀ p ∈ payloads, p ≠ [] ∧ p.length < ULONG_MAX

/-- Payloads are legal when the first one is and the others are. -/
theorem isPayloads_cons {p : Str} {payloads : List Str} :
    IsPayloads (p :: payloads) ↔ (p ≠ [] ∧ p.length < ULONG_MAX) ∧ IsPayloads payloads :=
  List.forall_mem_cons

/-- The first payload is written as a chunk in front of the others. -/
theorem writeContentChunked_cons {p : Str} (hp : p ≠ []) (payloads : List Str) :
    writeContentChunked (p :: payloads) =
      chunkHeader p.length ++ (p ++ (crlf ++ writeContentChunked payloads)) := by
  simp [writeContentChunked, writeChunk, hp]

/-- The line of the last chunk is read as one line. -/
theorem isLine_doneMarker {broken : Bool} (tail : Str) :
    IsLine broken (doneMarker ++ tail) "0\r\n".toList (crlf ++ tail) :=
  isLine_of_notMem (show '\n' ∉ "0\r".toList by decide)

/-- Written chunks are chunks, whatever comes behind them. -/
theorem isChunked_written {payloads : List Str} (hp : IsPayloads payloads) (broken : Bool)
    (tail : Str) : IsChunked broken (writeContentChunked payloads ++ tail) payloads.flatten tail := by
  induction payloads with
  | nil => exact ⟨_, _, isLine_doneMarker tail, .last (by decide) (isLine_crlf tail)⟩
  | cons p payloads ih =>
    obtain ⟨⟨hne, hlt⟩, hps⟩ := isPayloads_cons.mp hp
    obtain ⟨line, mid, hline, hchunks⟩ := ih hps
    refine ⟨chunkHeader p.length, p ++ (crlf ++ (writeContentChunked payloads ++ tail)), ?_, ?_⟩
    · rw [writeContentChunked_cons hne]
      simpa using isLine_chunkHeader p.length (p ++ (crlf ++ (writeContentChunked payloads ++ tail)))
    · exact .chunk (chunkLength_chunkHeader hlt) hne (isLine_crlf _) hline hchunks

/-- A content that is written in chunks is read back, however it is cut into segments, and
what comes behind it is left. -/
theorem read_writeContentChunked {payloads : List Str} (hp : IsPayloads payloads)
    {strm : InStream Char} {tail : Str} (h : strm.content = writeContentChunked payloads ++ tail) :
    ∃ rest, (contentChunked strm).whole = some (payloads.flatten, rest) ∧ rest.content = tail :=
  contentChunked_parses.complete (h ▸ isChunked_written hp strm.broken tail)

/-- Two payloads. -/
def twoPayloads : List Str := ["ab".toList, "c".toList]

/-- They are legal. -/
theorem isPayloads_twoPayloads : IsPayloads twoPayloads := by
  unfold twoPayloads
  rw [isPayloads_cons, isPayloads_cons]
  exact ⟨by decide, by decide, fun _ h => absurd h List.not_mem_nil⟩

/-- Both are read back, and what follows them is left. -/
theorem read_writeContentChunked_twoPayloads :
    ∃ rest, (contentChunked (.ofList (writeContentChunked twoPayloads ++ "x".toList) false)).whole =
      some (twoPayloads.flatten, rest) ∧ rest.content = "x".toList :=
  read_writeContentChunked isPayloads_twoPayloads (InStream.content_ofList _ _)

/-! ### Parts of what is written -/

/-- Chunks are not empty. -/
theorem Chunks.ne_nil {broken : Bool} {line s body tail : Str}
    (h : Chunks broken line s body tail) : s ≠ [] := by
  cases h with
  | last _ hline => exact hline.ne_nil
  | torn _ hne _ _ => exact List.append_ne_nil_of_left_ne_nil hne _
  | chunk _ hne _ _ _ => exact List.append_ne_nil_of_left_ne_nil hne _

/-- Behind the line of the last chunk comes an empty line. -/
theorem Chunks.isLine_of_zero {broken : Bool} {line s body tail : Str}
    (h : Chunks broken line s body tail) (hlen : chunkLength line = some 0) :
    IsLine broken s crlf tail := by
  cases h with
  | last _ hline => exact hline
  | torn hlen' hne _ _ =>
    exact absurd (List.eq_nil_of_length_eq_zero (Option.some.inj (hlen'.symm.trans hlen))) hne
  | chunk hlen' hne _ _ _ =>
    exact absurd (List.eq_nil_of_length_eq_zero (Option.some.inj (hlen'.symm.trans hlen))) hne

/-- Behind the data of a chunk comes another line than an empty one, or more chunks. -/
theorem Chunks.data_of_pos {broken : Bool} {line s body tail : Str} {len : ℕ}
    (h : Chunks broken line s body tail) (hlen : chunkLength line = some len) (hpos : 0 < len) :
    ∃ data mid, s = data ++ mid ∧ data.length = len ∧
      ((∃ text, IsLine broken mid text tail ∧ text ≠ crlf ∧ body = data) ∨
        ∃ mid' body', IsLine broken mid crlf mid' ∧ IsChunked broken mid' body' tail ∧
          body = data ++ body') := by
  cases h with
  | last hzero _ =>
    obtain rfl := Option.some.inj (hlen.symm.trans hzero)
    cases hpos
  | torn hlen' _ hline htext =>
    exact ⟨_, _, rfl, Option.some.inj (hlen'.symm.trans hlen), Or.inl ⟨_, hline, htext, rfl⟩⟩
  | chunk hlen' _ hline hnext hchunks =>
    exact ⟨_, _, rfl, Option.some.inj (hlen'.symm.trans hlen),
      Or.inr ⟨_, _, hline, ⟨_, _, hnext, hchunks⟩, rfl⟩⟩

/-- Without a line feed nothing follows the line with the length of a chunk. -/
theorem not_isChunked_of_notMem {broken : Bool} {s body tail : Str} (hs : '\n' ∉ s) :
    ¬ IsChunked broken s body tail := by
  rintro ⟨line, mid, hline, hchunks⟩
  exact hchunks.ne_nil (hline.eq_of_last hs).2.1

/-- A first part of a text with a line holds the line, or no line feed. -/
theorem cut_line {s more text tail : Str} (h : s ++ more = text ++ '\n' :: tail)
    (htext : '\n' ∉ text) : '\n' ∉ s ∨ ∃ u, s = text ++ '\n' :: u ∧ u ++ more = tail := by
  rcases List.append_eq_append_iff.mp h with ⟨u, rfl, hmore⟩ | ⟨u, rfl, htail⟩
  · exact Or.inl fun hmem => htext (List.mem_append_left u hmem)
  · cases u with
    | nil => exact Or.inl (by simpa using htext)
    | cons c u =>
      obtain ⟨rfl, rfl⟩ := List.cons.inj htail
      exact Or.inr ⟨u, rfl, rfl⟩

/-- Without its line feed an empty line is a carriage return. -/
theorem eq_of_append_crlf {s more tail : Str} (hne : s ≠ []) (hs : '\n' ∉ s)
    (h : s ++ more = crlf ++ tail) : s = ['\r'] := by
  obtain ⟨c, s, rfl⟩ := List.exists_cons_of_ne_nil hne
  have h : c :: (s ++ more) = '\r' :: '\n' :: tail := h
  obtain ⟨rfl, hrest⟩ := List.cons.inj h
  cases s with
  | nil => rfl
  | cons d s =>
    obtain ⟨rfl, -⟩ := List.cons.inj hrest
    exact absurd (by simp) hs

/-- A part of a written content is complete only where it ends between the two characters
behind the data of a chunk, and the connection is closed there. -/
theorem IsChunked.of_part {payloads : List Str} (hp : IsPayloads payloads) {broken : Bool}
    {s more body tail : Str} (h : IsChunked broken s body tail)
    (hs : s ++ more = writeContentChunked payloads) (hmore : more ≠ []) :
    broken = false ∧ ∃ sent, sent <+: payloads ∧ sent ≠ [] ∧
      s ++ ['\n'] = (sent.map writeChunk).flatten ∧ body = sent.flatten := by
  induction payloads generalizing s body with
  | nil =>
    have hmarker : writeContentChunked [] = "0\r".toList ++ '\n' :: crlf := rfl
    obtain hnone | ⟨u, rfl, hu⟩ := cut_line (hs.trans hmarker) (by decide)
    · exact absurd h (not_isChunked_of_notMem hnone)
    · obtain ⟨line, mid, hline, hchunks⟩ := h
      obtain ⟨rfl, rfl⟩ := hline.eq_of_notMem (by decide)
      have hblank := hchunks.isLine_of_zero (by decide)
      rw [hblank.1] at hu
      exact absurd (List.append_eq_nil_iff.mp (List.append_right_eq_self.mp
        ((List.append_assoc ..).symm.trans hu))).2 hmore
  | cons p payloads ih =>
    obtain ⟨⟨hne, hlt⟩, hps⟩ := isPayloads_cons.mp hp
    rw [writeContentChunked_cons hne, chunkHeader_append] at hs
    obtain hnone | ⟨u, rfl, hu⟩ := cut_line hs (newline_notMem_fromIToHex _)
    · exact absurd h (not_isChunked_of_notMem hnone)
    obtain ⟨line, mid, hline, hchunks⟩ := h
    obtain ⟨rfl, rfl⟩ := hline.eq_of_notMem (newline_notMem_fromIToHex _)
    have hlen : chunkLength ((fromIToHex p.length ++ ['\r']) ++ ['\n']) = some p.length := by
      rw [← chunkHeader_append, List.append_nil]
      exact chunkLength_chunkHeader hlt
    obtain ⟨data, mid, rfl, hlength, hbehind⟩ :=
      hchunks.data_of_pos hlen (List.length_pos_iff.mpr hne)
    rw [List.append_assoc] at hu
    obtain ⟨rfl, hmid⟩ := List.append_inj hu hlength
    obtain ⟨text, htextLine, htext, hbody⟩ | ⟨mid', body', hblank, hrest, rfl⟩ := hbehind
    · obtain hnone | ⟨v, rfl, -⟩ := cut_line hmid (show '\n' ∉ ['\r'] by decide)
      · obtain ⟨rfl, -, hbroken⟩ := htextLine.eq_of_last hnone
        obtain rfl := eq_of_append_crlf htextLine.ne_nil hnone hmid
        refine ⟨hbroken, [data], List.cons_prefix_cons.mpr ⟨rfl, List.nil_prefix⟩,
          List.cons_ne_nil _ _, ?_, by simpa using hbody⟩
        rw [← chunkHeader_append]
        simp [writeChunk, hne, crlf]
      · exact absurd htextLine.eq_crlf.1 htext
    · rw [hblank.1, List.append_assoc, List.append_cancel_left_eq] at hmid
      obtain ⟨hbroken, sent, hsent, -, hwritten, rfl⟩ := ih hps hrest hmid
      refine ⟨hbroken, data :: sent, List.cons_prefix_cons.mpr ⟨rfl, hsent⟩, List.cons_ne_nil _ _, ?_, rfl⟩
      rw [← chunkHeader_append, hblank.1, List.map_cons, List.flatten_cons, ← hwritten]
      simp [writeChunk, hne]

/-- Written chunks end with a line feed. -/
theorem exists_written_newline {sent : List Str} (hp : IsPayloads sent) (hne : sent ≠ []) :
    ∃ s, (sent.map writeChunk).flatten = s ++ ['\n'] := by
  obtain ⟨sent, p, rfl⟩ := (List.eq_nil_or_concat sent).resolve_left hne
  have hp' : p ≠ [] := (hp p (by simp)).1
  exact ⟨(sent.map writeChunk).flatten ++ (chunkHeader p.length ++ (p ++ ['\r'])),
    by simp [writeChunk, hp', crlf]⟩

/-- Chunks that are sent up to the last character behind their data are a complete content. -/
theorem isChunked_of_part {sent : List Str} (hp : IsPayloads sent) (hne : sent ≠ []) {s : Str}
    (hs : s ++ ['\n'] = (sent.map writeChunk).flatten) : IsChunked false s sent.flatten [] := by
  induction sent generalizing s with
  | nil => exact absurd rfl hne
  | cons p sent ih =>
    obtain ⟨⟨hp', hlt⟩, hps⟩ := isPayloads_cons.mp hp
    have hlen := chunkLength_chunkHeader hlt
    rw [List.map_cons, List.flatten_cons, writeChunk, if_neg hp'] at hs
    cases sent with
    | nil =>
      obtain rfl : s = chunkHeader p.length ++ (p ++ ['\r']) := by
        refine List.append_cancel_right (hs.trans (?_ : _ = _ ++ ['\n']))
        simp [crlf]
      have hline : IsLine false ['\r'] ['\r'] [] := ⟨rfl, Or.inr (by decide)⟩
      refine ⟨_, _, isLine_chunkHeader p.length _, ?_⟩
      simpa using Chunks.torn hlen hp' hline (by decide)
    | cons q sent =>
      obtain ⟨s', hs'⟩ := exists_written_newline hps (List.cons_ne_nil q sent)
      obtain rfl : s = chunkHeader p.length ++ (p ++ (crlf ++ s')) := by
        refine List.append_cancel_right (hs.trans (?_ : _ = _ ++ ['\n']))
        rw [hs']
        simp
      obtain ⟨line, mid, hline, hchunks⟩ := ih hps (List.cons_ne_nil q sent) hs'.symm
      exact ⟨_, _, isLine_chunkHeader p.length _, .chunk hlen hp' (isLine_crlf _) hline hchunks⟩

/-- What is read of a part of a content that is written in chunks: nothing, unless the part
ends between the two characters behind the data of a chunk and the connection is closed there;
then the chunks up to this one are taken for the complete content. -/
theorem read_part_iff {payloads : List Str} (hp : IsPayloads payloads) {strm : InStream Char}
    {more : Str} (hs : strm.content ++ more = writeContentChunked payloads) (hmore : more ≠ [])
    (body : Str) :
    (∃ rest, (contentChunked strm).whole = some (body, rest)) ↔
      strm.broken = false ∧ ∃ sent, sent <+: payloads ∧ sent ≠ [] ∧
        strm.content ++ ['\n'] = (sent.map writeChunk).flatten ∧ body = sent.flatten := by
  constructor
  · rintro ⟨rest, hwhole⟩
    exact (contentChunked_parses.sound hwhole).1.of_part hp hs hmore
  · rintro ⟨hbroken, sent, hsent, hne, hwritten, rfl⟩
    have hps : IsPayloads sent := fun p hp' => hp p (hsent.subset hp')
    have hchunked := isChunked_of_part hps hne hwritten
    rw [← hbroken] at hchunked
    obtain ⟨rest, hwhole, -⟩ := contentChunked_parses.complete hchunked
    exact ⟨rest, hwhole⟩

/-- The first of two chunks, without the line feed behind its data. -/
def partOfChunks : InStream Char := .ofList (chunkHeader 2 ++ "ab\r".toList) false

/-- It is taken for the complete content. -/
theorem read_part_iff_ab :
    (∃ rest, (contentChunked partOfChunks).whole = some ("ab".toList, rest)) ↔
      partOfChunks.broken = false ∧ ∃ sent, sent <+: twoPayloads ∧ sent ≠ [] ∧
        partOfChunks.content ++ ['\n'] = (sent.map writeChunk).flatten ∧
          "ab".toList = sent.flatten := by
  have hwritten : partOfChunks.content ++ '\n' :: writeContentChunked ["c".toList] =
      writeContentChunked twoPayloads := by
    rw [twoPayloads, writeContentChunked_cons (show "ab".toList ≠ [] by decide), partOfChunks,
      InStream.content_ofList, List.append_assoc]
    rfl
  exact read_part_iff isPayloads_twoPayloads hwritten (List.cons_ne_nil _ _) _

end Up2date.Httplib
