import Up2date.Cxx.InStreams
import Up2date.Cxx.Multimap
import Up2date.Cxx.Scanning
import Mathlib.Data.Char
import Mathlib.Data.List.Lex
import Mathlib.Data.List.DropRight
import Mathlib.Order.Lex

/-!
# Lines and headers of a message

A message begins with lines, which are read from a connection one byte at a time. A line ends
with a line feed, or where the connection is closed. The lines of the headers hold a name, a
colon and a value whose percent escapes are decoded, up to an empty line; a line without its
carriage return, a name or a value is skipped.
-/

namespace Up2date.Httplib

open Cxx

/-- The greatest length of a header. -/
def CPPHTTPLIB_HEADER_MAX_LENGTH : ℕ := 8192

/-- The end of a line. -/
def crlf : Str := "\r\n".toList

/-! ### Lines -/

/-- The loop of `stream_line_reader::getline`, with what it has read of the line. -/
def getlineFrom (line : Str) (strm : InStream Char) : Option (Str × InStream Char) :=
  match _h : strm.read 1 with
  | .failed => none
  | .closed => if line = [] then none else some (line, strm)
  | .data byte rest =>
    if byte = ['\n'] then some (line ++ byte, rest) else getlineFrom (line ++ byte) rest
termination_by strm.content.length
decreasing_by
  obtain ⟨hne, -, hcontent, -⟩ := InStream.read_data Nat.one_pos _h
  rw [hcontent, List.length_append]
  exact Nat.lt_add_of_pos_left (List.length_pos_iff.mpr hne)

/-- `stream_line_reader::getline` -/
def getline : Reader Char Str := getlineFrom []

/-- `stream_line_reader::end_with_crlf` -/
def endWithCrlf (line : Str) : Bool := decide (crlf <:+ line)

/-- The line feed of a line ending. -/
theorem append_crlf (s tail : Str) : s ++ crlf ++ tail = (s ++ ['\r']) ++ '\n' :: tail := by
  simp [crlf]

/-- A text begins with a line, which is ended by a line feed or by the end of the connection. -/
def IsLine (broken : Bool) (s line tail : Str) : Prop :=
  s = line ++ tail ∧ ((∃ text, '\n' ∉ text ∧ line = text ++ ['\n']) ∨
    line ≠ [] ∧ '\n' ∉ line ∧ tail = [] ∧ broken = false)

/-- At the end of the connection a line is what has been read of it. -/
theorem getlineFrom_of_nil {strm : InStream Char} (h : strm.content = []) (line : Str) :
    getlineFrom line strm = if strm.broken = true ∨ line = [] then none else some (line, strm) := by
  have hread := InStream.read_of_content_nil (n := 1) h
  rw [getlineFrom]
  cases hbroken : strm.broken <;> rw [hbroken] at hread <;> split <;> simp_all

/-- A line goes on up to the first line feed. -/
theorem getlineFrom_of_data {strm rest : InStream Char} {byte : Str}
    (h : strm.read 1 = .data byte rest) (line : Str) :
    getlineFrom line strm =
      if byte = ['\n'] then some (line ++ byte, rest) else getlineFrom (line ++ byte) rest := by
  rw [getlineFrom]
  split
  next hfailed => cases h.symm.trans hfailed
  next hclosed => cases h.symm.trans hclosed
  next hdata =>
    obtain ⟨rfl, rfl⟩ := Received.data.inj (h.symm.trans hdata)
    rfl

/-- The next byte ends a line, or belongs to it. -/
theorem getlineFrom_of_cons {strm : InStream Char} {c : Char} {tail : Str}
    (h : strm.content = c :: tail) (line : Str) :
    ∃ rest, rest.content = tail ∧ rest.broken = strm.broken ∧
      getlineFrom line strm =
        if c = '\n' then some (line ++ [c], rest) else getlineFrom (line ++ [c]) rest := by
  obtain ⟨rest, hread, hcontent, hbroken⟩ := InStream.exists_read_one h
  refine ⟨rest, hcontent, hbroken, ?_⟩
  simp only [getlineFrom_of_data hread, List.cons.injEq, and_true]

/-- A text with a line feed behind it is read as a line. -/
theorem getlineFrom_of_mem {text tail : Str} (htext : '\n' ∉ text) (line : Str)
    {strm : InStream Char} (h : strm.content = text ++ '\n' :: tail) :
    ∃ rest, getlineFrom line strm = some (line ++ (text ++ ['\n']), rest) ∧ rest.content = tail ∧
      rest.broken = strm.broken := by
  induction text generalizing line strm with
  | nil =>
    obtain ⟨rest, hcontent, hbroken, hline⟩ := getlineFrom_of_cons h line
    exact ⟨rest, by rw [hline, if_pos rfl]; rfl, hcontent, hbroken⟩
  | cons c text ih =>
    obtain ⟨hc, htext⟩ := not_or.mp (mt List.mem_cons.mpr htext)
    obtain ⟨rest, hcontent, hbroken, hline⟩ := getlineFrom_of_cons h line
    obtain ⟨rest', hline', htail, hbroken'⟩ := ih htext (line ++ [c]) hcontent
    refine ⟨rest', ?_, htail, hbroken'.trans hbroken⟩
    rw [hline, if_neg (Ne.symm hc), hline', List.append_assoc]
    rfl

/-- A text without a line feed is a line only where the stream ends without an error. -/
theorem getlineFrom_of_notMem {s : Str} (hs : '\n' ∉ s) (line : Str) {strm : InStream Char}
    (h : strm.content = s) :
    if strm.broken = true ∨ line ++ s = [] then getlineFrom line strm = none
    else ∃ rest, getlineFrom line strm = some (line ++ s, rest) ∧ rest.content = [] ∧
      rest.broken = strm.broken := by
  induction s generalizing line strm with
  | nil =>
    rw [List.append_nil, getlineFrom_of_nil h]
    split
    · rfl
    · exact ⟨strm, rfl, h, rfl⟩
  | cons c s ih =>
    obtain ⟨hc, hs⟩ := not_or.mp (mt List.mem_cons.mpr hs)
    obtain ⟨rest, hcontent, hbroken, hline⟩ := getlineFrom_of_cons h line
    have hrest := ih hs (line ++ [c]) hcontent
    rw [hbroken, List.append_assoc, List.singleton_append] at hrest
    rwa [hline, if_neg (Ne.symm hc)]

/-- A line is read exactly when one comes. -/
theorem getline_parses : Parses getline IsLine where
  sound {strm line rest} h := by
    by_cases hmem : '\n' ∈ strm.content
    · obtain ⟨text, tail, hcontent, htext⟩ := List.eq_append_cons_of_mem hmem
      obtain ⟨rest', hline, htail, hbroken⟩ := getlineFrom_of_mem htext [] hcontent
      rw [getline, hline, List.nil_append, Option.some.injEq, Prod.mk.injEq] at h
      obtain ⟨rfl, rfl⟩ := h
      refine ⟨⟨?_, Or.inl ⟨text, htext, rfl⟩⟩, hbroken⟩
      rw [hcontent, htail, List.append_assoc, List.singleton_append]
    · have hread := getlineFrom_of_notMem hmem [] rfl
      split at hread
      · cases hread.symm.trans h
      next hend =>
        obtain ⟨hbroken, hne⟩ := not_or.mp hend
        obtain ⟨rest', hline, htail, hrest⟩ := hread
        rw [getline, hline, List.nil_append, Option.some.injEq, Prod.mk.injEq] at h
        obtain ⟨rfl, rfl⟩ := h
        refine ⟨⟨?_, Or.inr ⟨hne, hmem, htail, Bool.eq_false_of_not_eq_true hbroken⟩⟩, hrest⟩
        rw [htail, List.append_nil]
  complete {strm line tail} h := by
    obtain ⟨hcontent, ⟨text, htext, rfl⟩ | ⟨hne, hmem, rfl, hbroken⟩⟩ := h
    · rw [List.append_assoc, List.singleton_append] at hcontent
      obtain ⟨rest, hline, htail, -⟩ := getlineFrom_of_mem htext [] hcontent
      exact ⟨rest, hline, htail⟩
    · rw [List.append_nil] at hcontent
      have hread := getlineFrom_of_notMem hmem [] hcontent
      rw [if_neg (by simp [hbroken, hne])] at hread
      obtain ⟨rest, hline, htail, -⟩ := hread
      exact ⟨rest, hline, htail⟩

/-- A line is not empty, so that less is to come behind it. -/
theorem getline_length {strm rest : InStream Char} {line : Str} (h : getline strm = some (line, rest)) :
    rest.content.length < strm.content.length := by
  obtain ⟨⟨hcontent, hline⟩, -⟩ := getline_parses.sound h
  have hne : line ≠ [] := by
    obtain ⟨text, -, rfl⟩ | ⟨hne, -⟩ := hline
    · simp
    · exact hne
  rw [hcontent, List.length_append]
  exact Nat.lt_add_of_pos_left (List.length_pos_iff.mpr hne)

end Up2date.Httplib
