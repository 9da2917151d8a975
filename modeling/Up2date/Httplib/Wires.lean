import Up2date.Httplib.Framing

/-!
# What can happen to a request

The replies of the interface of the library that come from streams of bytes: which statuses,
pieces and failures a server can bring about, and that it can bring about all of them.
-/

namespace Up2date.Httplib

open Cxx
open Httpclient (Failure Wire)

/-! ### Statuses -/

/-- Three digits are a number below 1000. -/
theorem lt_of_digits {a b c : Char} (h : [a, b, c].all Char.isDigit = true) :
    digitsValue [a, b, c] < 1000 := by
  have hdigit : ∀ d : Char, d.isDigit = true → d.toNat - '0'.toNat < 10 := fun d hd => by
    have hd' : 48 ≤ d.toNat ∧ d.toNat ≤ 57 := by
      simpa [Char.isDigit, UInt32.le_iff_toNat_le] using hd
    have : '0'.toNat = 48 := rfl
    omega
  simp only [List.all_cons, List.all_nil, Bool.and_true, Bool.and_eq_true] at h
  have ha := hdigit a h.1
  have hb := hdigit b h.2.1
  have hc := hdigit c h.2.2
  simp only [digitsValue, Nat.ofDigitChars_cons, Nat.ofDigitChars_nil]
  omega

/-- A status has three digits. -/
theorem status_of_matchStatusLine {s : Str} {line : StatusLine} (h : matchStatusLine s = some line) :
    0 ≤ line.status ∧ line.status < 1000 := by
  unfold matchStatusLine at h
  split at h
  next =>
    split at h
    next minor a b c rest hdrop =>
      split at h
      next hdigits =>
        obtain ⟨reason, -, rfl⟩ := Option.map_eq_some_iff.mp h
        have hlt := lt_of_digits hdigits.2
        dsimp only
        omega
      · cases h
    · cases h
  · cases h

/-- The final status is a number of three digits other than 100. -/
theorem Continued.status {broken : Bool} {line final : StatusLine} {s tail : Str}
    (h : Continued broken line s final tail) (hline : 0 ≤ line.status ∧ line.status < 1000) :
    (0 ≤ final.status ∧ final.status < 1000) ∧ final.status ≠ 100 := by
  induction h with
  | last hstatus => exact ⟨hline, hstatus⟩
  | more _ _ _ hmatch _ ih => exact ih (status_of_matchStatusLine hmatch)

/-- The statuses of responses, which do not ask to continue. -/
theorem IsHead.status {broken : Bool} {s tail : Str} {head : ResponseHead}
    (h : IsHead broken s head tail) :
    (0 ≤ head.line.status ∧ head.line.status < 1000) ∧ head.line.status ≠ 100 := by
  obtain ⟨mid, ⟨text, mid', line, -, hline, hcontinued⟩, -⟩ := h
  exact hcontinued.status (status_of_matchStatusLine hline)

/-! ### Pieces -/

/-- Legal pieces behind legal pieces are legal. -/
theorem isPieces_append {chunks chunks' : List Str} (h : IsPieces chunks) (h' : IsPieces chunks') :
    IsPieces (chunks ++ chunks') :=
  fun c hc => (List.mem_append.mp hc).elim (h c) (h' c)

/-- The pieces a turn gives. -/
def ChunkTurn.chunks : ChunkTurn → List Str
  | .ended a => a.chunks
  | .more chunks _ _ => chunks

/-- The pieces of a chunk are kept by what follows it. -/
theorem behindChunk_chunks (chunks : List Str) (strm : InStream Char) :
    (behindChunk chunks strm).chunks = chunks := by
  unfold behindChunk
  split
  · rfl
  · rfl
  · split <;> rfl

/-- The pieces of a turn are legal. -/
theorem chunkTurn_isPieces (line : Str) (strm : InStream Char) :
    IsPieces (chunkTurn line strm).chunks := by
  cases hline : chunkLength line with
  | none => simp only [chunkTurn, hline, ChunkTurn.chunks, isPieces_nil]
  | some len =>
    cases len with
    | zero => simp only [chunkTurn, hline, ChunkTurn.chunks, isPieces_nil]
    | succ len =>
      have hpieces := (contentWithLength_isContent (len + 1) strm).pieces
      cases hrest : (contentWithLength (len + 1) strm).rest with
      | none => rwa [chunkTurn_of_none hline hrest]
      | some rest => rwa [chunkTurn_of_some hline hrest, behindChunk_chunks]

/-- The pieces of a chunked content are legal. -/
theorem contentChunks_isPieces (line : Str) (strm : InStream Char) :
    IsPieces (contentChunks line strm).chunks := by
  induction hn : strm.content.length using Nat.strong_induction_on generalizing line strm with
  | _ n ih =>
    have hpieces := chunkTurn_isPieces line strm
    cases hturn : chunkTurn line strm with
    | ended a =>
      rw [hturn] at hpieces
      rwa [contentChunks_of_ended hturn]
    | more chunks line' rest =>
      rw [hturn] at hpieces
      rw [contentChunks_of_more hturn]
      exact isPieces_append hpieces (ih _ (hn ▸ chunkTurn_length hturn) line' rest rfl)

/-- What arrives of a body arrives in pieces. -/
theorem Framing.arrival_isPieces (framing : Framing) (strm : InStream Char) :
    IsPieces (framing.arrival strm).chunks := by
  cases framing with
  | noContent => exact isPieces_nil
  | refused => exact isPieces_nil
  | chunked =>
    simp only [Framing.arrival, contentChunked]
    rcases getline strm with _ | ⟨line, rest⟩
    · exact isPieces_nil
    · exact contentChunks_isPieces line rest
  | close => exact (contentWithoutLength_spec strm).1
  | length len => exact (contentWithLength_isContent len strm).pieces

/-! ### Replies of servers -/

/-- What a server can bring about. -/
def Observable : Wire → Prop
  | .threw _ => False
  | .failed e => e = readFailure
  | .answered status chunks cut =>
    (0 ≤ status ∧ status < 1000) ∧ status ≠ 100 ∧ IsPieces chunks ∧
      (cut = none ∨ cut = some readFailure) ∧
      (status = HTTP_NO_CONTENT → chunks = [] ∧ cut = none)

/-- The reply that a stream is can be brought about by a server. -/
theorem observable_wireOf (strm : InStream Char) : Observable (wireOf strm) := by
  cases hhead : readHead strm with
  | none => rw [wireOf_of_none hhead]; rfl
  | some r =>
    obtain ⟨head, rest⟩ := r
    obtain ⟨hstatus, hcontinue⟩ := (readHead_parses.sound hhead).1.status
    rw [wireOf_of_some hhead]
    refine ⟨hstatus, hcontinue, head.framing.arrival_isPieces rest, ?_, fun hno => ?_⟩
    · unfold Arrival.cut
      split
      · exact Or.inl rfl
      · exact Or.inr rfl
    · simp [ResponseHead.framing, hno, Framing.arrival, Arrival.cut]

/-! ### Streams that bring them about -/

/-- The segments up to the end of the connection are the pieces of a body without a length. -/
theorem contentWithoutLength_segments (segments : List { s : Str // s ≠ [] })
    (h : IsPieces (segments.map Subtype.val)) (broken : Bool) :
    contentWithoutLength ⟨segments, broken⟩ =
      ⟨segments.map Subtype.val, if broken then none else some ⟨[], broken⟩⟩ := by
  induction segments with
  | nil =>
    rw [contentWithoutLength_eq]
    cases broken <;> rfl
  | cons seg segments ih =>
    obtain ⟨⟨-, hle⟩, hpieces⟩ := isPieces_cons.mp h
    have hread : InStream.read CPPHTTPLIB_RECV_BUFSIZ ⟨seg :: segments, broken⟩ =
        .data seg.val ⟨segments, broken⟩ := by
      simp only [InStream.read, List.take_of_length_le hle, List.drop_of_length_le hle]
      rfl
    rw [contentWithoutLength_eq, hread]
    dsimp only
    rw [ih hpieces]
    rfl

/-- A connection that is closed at once has no head. -/
theorem readHead_of_nil {strm : InStream Char} (h : strm.content = []) : readHead strm = none := by
  rw [readHead, readResponseLine_eq, getline, getlineFrom_of_nil h]
  simp

/-- A response without headers is framed by the end of the connection. -/
theorem framing_empty {line : StatusLine} (h : line.status ≠ HTTP_NO_CONTENT) :
    (⟨line, .empty⟩ : ResponseHead).framing = .close := by
  rw [ResponseHead.framing, if_neg h]
  rfl

/-- A server sends the status in a segment of its own, and then the pieces. -/
theorem wireOf_headText {n : ℕ} (hn : n < 1000) (hcontinue : n ≠ 100) (hno : (n : ℤ) ≠ HTTP_NO_CONTENT)
    {segments : List { s : Str // s ≠ [] }} (h : IsPieces (segments.map Subtype.val)) (broken : Bool) :
    wireOf ⟨InStream.pushFront (headText n) segments, broken⟩ =
      .answered n (segments.map Subtype.val) (if broken then some readFailure else none) := by
  rw [wireOf_of_some (readHead_headText hn hcontinue segments broken), framing_empty hno,
    Framing.arrival, contentWithoutLength_segments segments h]
  cases broken <;> rfl

/-- Every status with legal pieces is the reply of some stream, whole or cut. -/
theorem exists_wireOf_answered {n : ℕ} (hn : n < 1000) (hcontinue : n ≠ 100) {chunks : List Str}
    (hpieces : IsPieces chunks) (broken : Bool) (hno : (n : ℤ) = HTTP_NO_CONTENT →
      chunks = [] ∧ broken = false) :
    ∃ strm, wireOf strm = .answered n chunks (if broken then some readFailure else none) := by
  obtain ⟨segments, rfl⟩ : ∃ segments : List { s : Str // s ≠ [] }, segments.map Subtype.val = chunks :=
    ⟨chunks.pmap Subtype.mk fun c hc => (hpieces c hc).1, by simp [List.map_pmap]⟩
  refine ⟨⟨InStream.pushFront (headText n) segments, broken⟩, ?_⟩
  by_cases hstatus : (n : ℤ) = HTTP_NO_CONTENT
  · obtain ⟨hnil, rfl⟩ := hno hstatus
    rw [wireOf_of_some (readHead_headText hn hcontinue segments false), hnil]
    simp [ResponseHead.framing, hstatus, Framing.arrival, Arrival.cut]
  · exact wireOf_headText hn hcontinue hstatus hpieces broken

/-- What can happen to a request of the library is exactly what a server can bring about by
the bytes it sends, and by how it cuts them into segments. -/
theorem exists_wireOf_iff (w : Wire) : (∃ strm, wireOf strm = w) ↔ Observable w := by
  constructor
  · rintro ⟨strm, rfl⟩
    exact observable_wireOf strm
  · intro h
    cases w with
    | threw e => exact h.elim
    | failed e =>
      obtain rfl : e = readFailure := h
      exact ⟨⟨[], false⟩, wireOf_of_none (readHead_of_nil rfl)⟩
    | answered status chunks cut =>
      obtain ⟨⟨hpos, hlt⟩, hcontinue, hpieces, hcut, hno⟩ := h
      lift status to ℕ using hpos
      have hn : status < 1000 := by omega
      have hne : status ≠ 100 := by omega
      obtain rfl | rfl := hcut
      · exact exists_wireOf_answered hn hne hpieces false fun hs => ⟨(hno hs).1, rfl⟩
      · exact exists_wireOf_answered hn hne hpieces true fun hs => by cases (hno hs).2

end Up2date.Httplib
