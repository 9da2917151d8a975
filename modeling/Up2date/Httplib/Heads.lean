import Up2date.Httplib.Chunked
import Up2date.Httplib.Responses

/-!
# Heads of responses

What comes up to the content of a response. A head ends by itself: it is read again when more
comes behind it, and nothing is read of a part of it, although the end of the connection ends a
line.
-/

namespace Up2date.Httplib

open Cxx

/-! ### Lines that end by themselves -/

/-- A line with its line feed does not depend on what comes behind it. -/
theorem IsLine.ended {broken : Bool} {s line tail : Str} (h : IsLine broken s line tail)
    (hline : '\n' ∈ line) (broken' : Bool) (tail' : Str) :
    IsLine broken' (line ++ tail') line tail' := by
  obtain ⟨-, ⟨text, htext, rfl⟩ | ⟨-, hmem, -⟩⟩ := h
  · exact ⟨rfl, Or.inl ⟨text, htext, rfl⟩⟩
  · exact absurd hline hmem

/-- A line with something behind it has its line feed. -/
theorem IsLine.newline_mem {broken : Bool} {s line tail : Str} (h : IsLine broken s line tail)
    (hne : tail ≠ []) : '\n' ∈ line := by
  obtain ⟨-, ⟨text, -, rfl⟩ | ⟨-, -, hnil, -⟩⟩ := h
  · simp
  · exact absurd hnil hne

/-- What ends like a line contains a line feed. -/
theorem newline_mem_of_endWithCrlf {line : Str} (h : endWithCrlf line = true) : '\n' ∈ line :=
  (of_decide_eq_true h).subset (by decide)

/-- A reason that matches is followed by a line feed. -/
theorem newline_mem_of_matchReason {s reason : Str} (h : matchReason s = some reason) : '\n' ∈ s := by
  unfold matchReason at h
  split at h
  next hcrlf => rw [hcrlf]; decide
  split at h
  next rest =>
    split at h
    next hcrlf =>
      refine List.mem_cons_of_mem _ ((List.dropWhile_suffix isReasonChar).subset ?_)
      rw [hcrlf]
      decide
    · cases h
  · cases h

/-- A status line that matches contains a line feed. -/
theorem newline_mem_of_matchStatusLine {s : Str} {line : StatusLine}
    (h : matchStatusLine s = some line) : '\n' ∈ s := by
  unfold matchStatusLine at h
  split at h
  next =>
    split at h
    next minor a b c rest hdrop =>
      split at h
      next =>
        obtain ⟨reason, hreason, -⟩ := Option.map_eq_some_iff.mp h
        have hmem : '\n' ∈ s.drop httpVersion.length := by
          rw [hdrop]
          simp [newline_mem_of_matchReason hreason]
        exact List.mem_of_mem_drop hmem
      · cases h
    · cases h
  · cases h

/-- A line with a status has its line feed. -/
theorem newline_mem_of_status {text : Str} {line : StatusLine}
    (h : matchStatusLine (cstr text) = some line) : '\n' ∈ text :=
  (List.takeWhile_prefix _).subset (newline_mem_of_matchStatusLine h)

/-! ### The grammar of heads -/

/-- Status lines that ask to continue, each with a line behind it, up to another one. -/
inductive Continued (broken : Bool) : StatusLine → Str → StatusLine → Str → Prop
  | last {line : StatusLine} {s : Str} : line.status ≠ 100 → Continued broken line s line s
  | more {line line' final : StatusLine} {s blank mid text mid' tail : Str} :
      line.status = 100 → IsLine broken s blank mid → IsLine broken mid text mid' →
      matchStatusLine (cstr text) = some line' → Continued broken line' mid' final tail →
      Continued broken line s final tail

/-- A status line that is not followed by another one. -/
def IsStatus (broken : Bool) (s : Str) (final : StatusLine) (tail : Str) : Prop :=
  ∃ text mid line, IsLine broken s text mid ∧ matchStatusLine (cstr text) = some line ∧
    Continued broken line mid final tail

/-- The status line and the headers of a response. -/
def IsHead (broken : Bool) (s : Str) (head : ResponseHead) (tail : Str) : Prop :=
  ∃ mid, IsStatus broken s head.line mid ∧ HeaderBlock broken mid .empty head.headers tail

/-- A status other than 100 is kept. -/
theorem skipContinue_of_ne {line : StatusLine} (h : line.status ≠ 100) (strm : InStream Char) :
    skipContinue line strm = some (line, strm) := by
  rw [skipContinue, if_neg h]

/-- What is read behind a status line that asks to continue. -/
theorem skipContinue_of_eq {line : StatusLine} (h : line.status = 100) (strm : InStream Char) :
    skipContinue line strm =
      (getline strm).bind fun blank =>
        (getline blank.2).bind fun text =>
          (matchStatusLine (cstr text.1)).bind fun line => skipContinue line text.2 := by
  rw [skipContinue, if_pos h]
  split
  next hnone => rw [hnone]; rfl
  next hblank =>
    rw [hblank, Option.bind_some]
    split
    next hnone => rw [hnone]; rfl
    next htext =>
      rw [htext, Option.bind_some]
      split
      next hnone => rw [hnone]; rfl
      next hline => rw [hline]; rfl

/-- The status lines behind a 100 are read up to the final one. -/
theorem skipContinue_parses (line : StatusLine) :
    Parses (skipContinue line) fun broken s final tail => Continued broken line s final tail where
  sound {strm final rest} h := by
    induction hn : strm.content.length using Nat.strong_induction_on generalizing line strm with
    | _ n ih =>
      by_cases hstatus : line.status = 100
      · rw [skipContinue_of_eq hstatus] at h
        obtain ⟨⟨blank, mid⟩, hblank, h⟩ := Option.bind_eq_some_iff.mp h
        obtain ⟨⟨text, mid'⟩, htext, h⟩ := Option.bind_eq_some_iff.mp h
        obtain ⟨line', hline', h⟩ := Option.bind_eq_some_iff.mp h
        obtain ⟨hisBlank, hmid⟩ := getline_parses.sound hblank
        obtain ⟨hisText, hmid'⟩ := getline_parses.sound htext
        have hlt : mid'.content.length < n :=
          hn ▸ (getline_length htext).trans (getline_length hblank)
        obtain ⟨hcontinued, hrest⟩ := ih _ hlt line' h rfl
        rw [hmid] at hmid' hisText
        rw [hmid'] at hcontinued hrest
        exact ⟨.more hstatus hisBlank hisText hline' hcontinued, hrest⟩
      · rw [skipContinue_of_ne hstatus] at h
        obtain ⟨rfl, rfl⟩ := Prod.mk.inj (Option.some.inj h)
        exact ⟨.last hstatus, rfl⟩
  complete {strm final tail} h := by
    generalize hs : strm.content = s at h
    generalize hb : strm.broken = broken at h
    induction h generalizing strm with
    | last hstatus => exact ⟨strm, skipContinue_of_ne hstatus strm, hs⟩
    | more hstatus hblank htext hline _ ih =>
      subst hs hb
      obtain ⟨mid, hread, rfl⟩ := getline_parses.complete hblank
      have hmid := (getline_parses.sound hread).2
      rw [← hmid] at htext
      obtain ⟨mid', hread', rfl⟩ := getline_parses.complete htext
      have hmid' := (getline_parses.sound hread').2
      obtain ⟨rest, hrest, htail⟩ := ih rfl (hmid'.trans hmid)
      refine ⟨rest, ?_, htail⟩
      rw [skipContinue_of_eq hstatus, hread, Option.bind_some, hread', Option.bind_some, hline]
      exact hrest

/-- A response begins with a status line. -/
theorem readResponseLine_eq (strm : InStream Char) :
    readResponseLine strm = (getline strm).bind fun text =>
      (matchStatusLine (cstr text.1)).bind fun line => skipContinue line text.2 := by
  unfold readResponseLine
  refine congrArg (Option.bind (getline strm)) (funext fun r => ?_)
  cases matchStatusLine (cstr r.1) <;> rfl

/-- The status of a response is read exactly when its lines allow it. -/
theorem readResponseLine_parses : Parses readResponseLine IsStatus where
  sound {strm final rest} h := by
    rw [readResponseLine_eq] at h
    obtain ⟨⟨text, mid⟩, htext, h⟩ := Option.bind_eq_some_iff.mp h
    obtain ⟨line, hline, h⟩ := Option.bind_eq_some_iff.mp h
    obtain ⟨hisText, hmid⟩ := getline_parses.sound htext
    obtain ⟨hcontinued, hrest⟩ := (skipContinue_parses line).sound h
    rw [hmid] at hcontinued hrest
    exact ⟨⟨text, mid.content, line, hisText, hline, hcontinued⟩, hrest⟩
  complete {strm final tail} h := by
    obtain ⟨text, mid, line, htext, hline, hcontinued⟩ := h
    obtain ⟨rest, hread, rfl⟩ := getline_parses.complete htext
    rw [← (getline_parses.sound hread).2] at hcontinued
    obtain ⟨rest', hrest', htail⟩ := (skipContinue_parses line).complete hcontinued
    refine ⟨rest', ?_, htail⟩
    rw [readResponseLine_eq, hread, Option.bind_some, hline]
    exact hrest'

/-- The head of a response is read exactly when one comes. -/
theorem readHead_parses : Parses readHead IsHead where
  sound {strm head rest} h := by
    obtain ⟨⟨line, mid⟩, hline, h⟩ := Option.bind_eq_some_iff.mp h
    obtain ⟨⟨headers, rest'⟩, hheaders, hhead⟩ := Option.map_eq_some_iff.mp h
    obtain ⟨rfl, rfl⟩ := Prod.mk.inj hhead
    obtain ⟨hstatus, hmid⟩ := readResponseLine_parses.sound hline
    obtain ⟨hblock, hrest⟩ := (readHeaders_parses .empty).sound hheaders
    rw [hmid] at hblock hrest
    exact ⟨⟨mid.content, hstatus, hblock⟩, hrest⟩
  complete {strm head tail} h := by
    obtain ⟨mid, hstatus, hblock⟩ := h
    obtain ⟨rest, hread, rfl⟩ := readResponseLine_parses.complete hstatus
    rw [← (readResponseLine_parses.sound hread).2] at hblock
    obtain ⟨rest', hrest', htail⟩ := (readHeaders_parses .empty).complete hblock
    exact ⟨rest', by simp only [readHead, hread, Option.bind_some, hrest', Option.map_some], htail⟩

/-! ### A head ends by itself -/

/-- The lines up to the final status end by themselves. -/
theorem Continued.delimited {line : StatusLine} :
    Delimited fun broken s final tail => Continued broken line s final tail := by
  intro broken s final tail h
  induction h with
  | last hstatus => exact ⟨[], rfl, fun _ _ => .last hstatus⟩
  | @more line line' final s blank mid text mid' tail hstatus hblank htext hline _ ih =>
    obtain ⟨rest, rfl, hrest⟩ := ih
    have hblankLine := hblank.ended (hblank.newline_mem htext.ne_nil)
    have htextLine := htext.ended (newline_mem_of_status hline)
    refine ⟨blank ++ (text ++ rest), ?_, fun broken' tail' => ?_⟩
    · rw [hblank.1, htext.1, List.append_assoc, List.append_assoc]
    · rw [List.append_assoc, List.append_assoc]
      exact .more hstatus (hblankLine broken' _) (htextLine broken' _) hline (hrest broken' tail')

/-- The lines of a status end by themselves. -/
theorem IsStatus.delimited : Delimited IsStatus := by
  rintro broken s final tail ⟨text, mid, line, htext, hline, hcontinued⟩
  obtain ⟨rest, rfl, hrest⟩ := Continued.delimited hcontinued
  refine ⟨text ++ rest, by rw [htext.1, List.append_assoc], fun broken' tail' => ?_⟩
  rw [List.append_assoc]
  exact ⟨text, _, line, htext.ended (newline_mem_of_status hline) broken' _, hline,
    hrest broken' tail'⟩

/-- A block of headers is not empty. -/
theorem HeaderBlock.ne_nil {broken : Bool} {s tail : Str} {headers headers' : Headers}
    (h : HeaderBlock broken s headers headers' tail) : s ≠ [] := by
  cases h with
  | blank hline _ _ => exact hline.ne_nil
  | field hline _ _ _ _ => exact hline.ne_nil
  | skipped hline _ _ => exact hline.ne_nil

/-- A block of headers ends by itself. -/
theorem HeaderBlock.delimited {headers : Headers} :
    Delimited fun broken s headers' tail => HeaderBlock broken s headers headers' tail := by
  intro broken s headers' tail h
  induction h with
  | @blank s line tail headers hline hcrlf htwo =>
    refine ⟨line, hline.1, fun broken' tail' => ?_⟩
    exact .blank (hline.ended (newline_mem_of_endWithCrlf hcrlf) broken' tail') hcrlf htwo
  | @field s line mid tail headers headers' hline hcrlf htwo hmax _ ih =>
    obtain ⟨rest, rfl, hrest⟩ := ih
    refine ⟨line ++ rest, by rw [hline.1, List.append_assoc], fun broken' tail' => ?_⟩
    rw [List.append_assoc]
    exact .field (hline.ended (newline_mem_of_endWithCrlf hcrlf) broken' _) hcrlf htwo hmax
      (hrest broken' tail')
  | @skipped s line mid tail headers headers' hline hcrlf hblock ih =>
    obtain ⟨rest, rfl, hrest⟩ := ih
    refine ⟨line ++ rest, by rw [hline.1, List.append_assoc], fun broken' tail' => ?_⟩
    rw [List.append_assoc]
    exact .skipped (hline.ended (hline.newline_mem hblock.ne_nil) broken' _) hcrlf
      (hrest broken' tail')

/-- A head ends by itself. -/
theorem IsHead.delimited : Delimited IsHead := by
  rintro broken s head tail ⟨mid, hstatus, hblock⟩
  obtain ⟨text, rfl, htext⟩ := IsStatus.delimited hstatus
  obtain ⟨rest, rfl, hrest⟩ := HeaderBlock.delimited hblock
  refine ⟨text ++ rest, by rw [List.append_assoc], fun broken' tail' => ?_⟩
  rw [List.append_assoc]
  exact ⟨rest ++ tail', htext broken' _, hrest broken' tail'⟩

/-! ### Heads without headers -/

/-- A line is read from the segment that begins with it. -/
theorem getlineFrom_pushFront {text : Str} (htext : '\n' ∉ text) (line s : Str)
    (segments : List { s : Str // s ≠ [] }) (broken : Bool) :
    getlineFrom line ⟨InStream.pushFront (text ++ '\n' :: s) segments, broken⟩ =
      some (line ++ (text ++ ['\n']), ⟨InStream.pushFront s segments, broken⟩) := by
  induction text generalizing line with
  | nil =>
    have hread : InStream.read 1 ⟨InStream.pushFront ([] ++ '\n' :: s) segments, broken⟩ =
        .data ['\n'] ⟨InStream.pushFront s segments, broken⟩ := rfl
    rw [getlineFrom_of_data hread, if_pos rfl]
    rfl
  | cons c text ih =>
    obtain ⟨hc, htext⟩ := not_or.mp (mt List.mem_cons.mpr htext)
    have hread : InStream.read 1 ⟨InStream.pushFront (c :: text ++ '\n' :: s) segments, broken⟩ =
        .data [c] ⟨InStream.pushFront (text ++ '\n' :: s) segments, broken⟩ := rfl
    rw [getlineFrom_of_data hread, if_neg (by simpa using Ne.symm hc), ih htext, List.append_assoc]
    rfl

/-- The three digits of a status. -/
def statusDigits (n : ℕ) : Str :=
  [Nat.digitChar (n / 100), Nat.digitChar (n / 10 % 10), Nat.digitChar (n % 10)]

/-- A head without headers and without a reason. -/
def headText (n : ℕ) : Str := "HTTP/1.1 ".toList ++ statusDigits n ++ crlf ++ crlf

/-- The character of a digit is a digit. -/
theorem isDigit_digitChar : ∀ d < 10, (Nat.digitChar d).isDigit = true := by decide

/-- The value of three digits is the status. -/
theorem digitsValue_statusDigits {n : ℕ} (hn : n < 1000) : digitsValue (statusDigits n) = n := by
  have hhundreds : n / 100 < 10 := by omega
  have htens : n / 10 % 10 < 10 := by omega
  have hones : n % 10 < 10 := by omega
  simp only [digitsValue, statusDigits, Nat.ofDigitChars_cons_digitChar_of_lt_ten hhundreds,
    Nat.ofDigitChars_cons_digitChar_of_lt_ten htens, Nat.ofDigitChars_cons_digitChar_of_lt_ten hones,
    Nat.ofDigitChars_nil]
  omega

/-- A status line without a reason is matched. -/
theorem matchStatusLine_statusDigits {n : ℕ} (hn : n < 1000) :
    matchStatusLine ("HTTP/1.1 ".toList ++ statusDigits n ++ crlf) =
      some ⟨"HTTP/1.1".toList, n, []⟩ := by
  have hinit : httpVersion <+: "HTTP/1.1 ".toList ++ statusDigits n ++ crlf := ⟨_, rfl⟩
  have hdrop : ("HTTP/1.1 ".toList ++ statusDigits n ++ crlf).drop httpVersion.length =
      '1' :: ' ' :: Nat.digitChar (n / 100) :: Nat.digitChar (n / 10 % 10) ::
        Nat.digitChar (n % 10) :: crlf := rfl
  have hdigits : (statusDigits n).all Char.isDigit = true := by
    simp only [statusDigits, List.all_cons, List.all_nil, Bool.and_true, Bool.and_eq_true]
    exact ⟨isDigit_digitChar _ (by omega), isDigit_digitChar _ (by omega),
      isDigit_digitChar _ (by omega)⟩
  have hvalue := digitsValue_statusDigits hn
  unfold statusDigits at hdigits hvalue
  rw [matchStatusLine, if_pos hinit, hdrop]
  simp only [hvalue]
  rw [if_pos ⟨Or.inr trivial, hdigits⟩]
  rfl

/-- Other characters do not occur in the digits of a status. -/
theorem notMem_statusDigits {n : ℕ} (hn : n < 1000) {c : Char} (hc : c.isDigit = false) :
    c ∉ statusDigits n := by
  intro hmem
  have hdigit : c.isDigit = true := by
    simp only [statusDigits, List.mem_cons, List.not_mem_nil, or_false] at hmem
    obtain rfl | rfl | rfl := hmem
    · exact isDigit_digitChar _ (by omega)
    · exact isDigit_digitChar _ (by omega)
    · exact isDigit_digitChar _ (by omega)
  exact absurd hdigit (Bool.eq_false_iff.mp hc)

/-- A head in a segment of its own is read, and the segments behind it are left. -/
theorem readHead_headText {n : ℕ} (hn : n < 1000) (hcontinue : n ≠ 100)
    (segments : List { s : Str // s ≠ [] }) (broken : Bool) :
    readHead ⟨InStream.pushFront (headText n) segments, broken⟩ =
      some (⟨⟨"HTTP/1.1".toList, n, []⟩, .empty⟩, ⟨segments, broken⟩) := by
  have hstatus : ((n : ℤ) ≠ 100) := by omega
  have htext : '\n' ∉ "HTTP/1.1 ".toList ++ statusDigits n ++ ['\r'] := by
    have hdigits := notMem_statusDigits hn (show '\n'.isDigit = false by decide)
    simp [hdigits]
  have hline : getline ⟨InStream.pushFront (headText n) segments, broken⟩ =
      some ("HTTP/1.1 ".toList ++ statusDigits n ++ crlf,
        ⟨InStream.pushFront crlf segments, broken⟩) := by
    have hread := getlineFrom_pushFront htext [] crlf segments broken
    rw [← append_crlf, List.nil_append, List.append_assoc _ ['\r'] ['\n']] at hread
    exact hread
  have hblank : getline ⟨InStream.pushFront crlf segments, broken⟩ =
      some (crlf, ⟨segments, broken⟩) :=
    getlineFrom_pushFront (show '\n' ∉ ['\r'] by decide) [] [] segments broken
  have hnul : nul ∉ "HTTP/1.1 ".toList ++ statusDigits n ++ crlf := by
    have hdigits := notMem_statusDigits hn (show nul.isDigit = false by decide)
    have hinit : nul ∉ "HTTP/1.1 ".toList := by decide
    have hcrlf : nul ∉ crlf := by decide
    simp only [List.mem_append, not_or]
    exact ⟨⟨hinit, hdigits⟩, hcrlf⟩
  rw [readHead, readResponseLine_eq, hline, Option.bind_some, cstr_of_notMem hnul,
    matchStatusLine_statusDigits hn, Option.bind_some, skipContinue_of_ne hstatus, Option.bind_some,
    readHeaders_of_getline hblank]
  rfl

end Up2date.Httplib
