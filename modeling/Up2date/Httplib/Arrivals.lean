import Up2date.Httplib.Content

/-!
# What arrives of a content

The pieces of a content that arrive, and the stream behind them when it is complete, are
determined by the stream alone. Reading with a receiver gives it these pieces one by one, so
that all a receiver can do is to end the reading early.
-/

namespace Up2date.Httplib

open Cxx
open Httpclient (Failure deliver)

/-- The pieces of a content, and the stream behind a complete one. -/
structure Arrival where
  chunks : List Str
  rest : Option (InStream Char)

namespace Arrival

/-- What arrives behind one more piece. -/
def after (chunk : Str) (a : Arrival) : Arrival := { a with chunks := chunk :: a.chunks }

/-- What arrives behind another content. -/
def afterAll (chunks : List Str) (a : Arrival) : Arrival := { a with chunks := chunks ++ a.chunks }

variable {ε σ : Type}

/-- Give what arrives to a receiver. -/
def receive (a : Arrival) (out : Str → Effect ε σ Bool) :
    Effect ε σ (Except Failure (InStream Char)) := do
  if ← deliver out a.chunks then
    match a.rest with
    | some rest => return .ok rest
    | none => return .error readFailure
  else return .error canceled

variable (out : Str → Effect ε σ Bool)

/-- A content at its end is received. -/
theorem receive_nil (rest : InStream Char) : receive ⟨[], some rest⟩ out = pure (.ok rest) := by
  simp [receive, deliver]

/-- A content that breaks off is a failure to read. -/
theorem receive_failed : receive ⟨[], none⟩ out = pure (.error readFailure) := by
  simp [receive, deliver]

/-- The first piece of a content is handed to the receiver, which may refuse it. -/
theorem receive_after (chunk : Str) (a : Arrival) :
    (a.after chunk).receive out =
      do if ← out chunk then a.receive out else return .error canceled := by
  simp only [receive, after, deliver, bind_assoc]
  refine bind_congr fun more => ?_
  cases more <;> simp

/-- What arrives behind a complete content is received behind it. -/
theorem receive_afterAll {chunks : List Str} {mid : InStream Char} {a : Arrival}
    {k : InStream Char → Effect ε σ (Except Failure (InStream Char))} (h : k mid = a.receive out) :
    (do match ← receive ⟨chunks, some mid⟩ out with
      | .error e => return .error e
      | .ok rest => k rest) = (a.afterAll chunks).receive out := by
  induction chunks with
  | nil =>
    rw [receive_nil, pure_bind]
    exact h
  | cons chunk chunks ih =>
    have hafter : a.afterAll (chunk :: chunks) = (a.afterAll chunks).after chunk := rfl
    rw [hafter, receive_after, ← ih, show (⟨chunk :: chunks, some mid⟩ : Arrival) =
      (⟨chunks, some mid⟩ : Arrival).after chunk from rfl, receive_after, bind_assoc]
    refine bind_congr fun more => ?_
    cases more <;> simp

/-- Nothing is received behind a content that is cut. -/
theorem receive_cut {chunks : List Str}
    (k : InStream Char → Effect ε σ (Except Failure (InStream Char))) :
    (do match ← receive ⟨chunks, none⟩ out with
      | .error e => return .error e
      | .ok rest => k rest) = receive ⟨chunks, none⟩ out := by
  induction chunks with
  | nil => rw [receive_failed, pure_bind]
  | cons chunk chunks ih =>
    rw [show (⟨chunk :: chunks, none⟩ : Arrival) = (⟨chunks, none⟩ : Arrival).after chunk from rfl,
      receive_after, bind_assoc]
    refine bind_congr fun more => ?_
    cases more
    · simp
    · simpa using ih

end Arrival

/-- What arrives of a content of so many bytes. -/
def contentWithLength (len : ℕ) (strm : InStream Char) : Arrival :=
  if _hlen : 0 < len then
    match _h : strm.read (min len CPPHTTPLIB_RECV_BUFSIZ) with
    | .data buf rest => (contentWithLength (len - buf.length) rest).after buf
    | _ => ⟨[], none⟩
  else ⟨[], some strm⟩
termination_by strm.content.length
decreasing_by
  have hpos : 0 < min len CPPHTTPLIB_RECV_BUFSIZ := lt_min _hlen (by decide)
  obtain ⟨hne, -, hcontent, -⟩ := InStream.read_data hpos _h
  rw [hcontent, List.length_append]
  exact Nat.lt_add_of_pos_left (List.length_pos_iff.mpr hne)

/-- What arrives up to the end of the connection. -/
def contentWithoutLength (strm : InStream Char) : Arrival :=
  match _h : strm.read CPPHTTPLIB_RECV_BUFSIZ with
  | .failed => ⟨[], none⟩
  | .closed => ⟨[], some strm⟩
  | .data buf rest => (contentWithoutLength rest).after buf
termination_by strm.content.length
decreasing_by
  obtain ⟨hne, -, hcontent, -⟩ := InStream.read_data (by decide) _h
  rw [hcontent, List.length_append]
  exact Nat.lt_add_of_pos_left (List.length_pos_iff.mpr hne)

/-- A content with some bytes left begins with a piece of at most the size of the buffer. -/
theorem contentWithLength_of_pos {len : ℕ} (hlen : 0 < len) (strm : InStream Char) :
    contentWithLength len strm =
      match strm.read (min len CPPHTTPLIB_RECV_BUFSIZ) with
      | .data buf rest => (contentWithLength (len - buf.length) rest).after buf
      | _ => ⟨[], none⟩ := by
  rw [contentWithLength, dif_pos hlen]
  split <;> simp_all

/-- A content without a length goes on until the connection is closed. -/
theorem contentWithoutLength_eq (strm : InStream Char) :
    contentWithoutLength strm =
      match strm.read CPPHTTPLIB_RECV_BUFSIZ with
      | .failed => ⟨[], none⟩
      | .closed => ⟨[], some strm⟩
      | .data buf rest => (contentWithoutLength rest).after buf := by
  rw [contentWithoutLength]
  split <;> simp_all

/-- Pieces that a receiver is given: not empty, and no longer than the buffer. -/
def IsPieces (chunks : List Str) : Prop :=
  ∀ c ∈ chunks, c ≠ [] ∧ c.length ≤ CPPHTTPLIB_RECV_BUFSIZ

/-- No pieces are legal. -/
theorem isPieces_nil : IsPieces [] := fun _ h => absurd h List.not_mem_nil

/-- Pieces are legal when the first one is and the others are. -/
theorem isPieces_cons {chunk : Str} {chunks : List Str} :
    IsPieces (chunk :: chunks) ↔
      (chunk ≠ [] ∧ chunk.length ≤ CPPHTTPLIB_RECV_BUFSIZ) ∧ IsPieces chunks :=
  List.forall_mem_cons

/-- The pieces of a content of so many bytes are its bytes, as far as they come. -/
structure IsContent (len : ℕ) (strm : InStream Char) (a : Arrival) : Prop where
  pieces : IsPieces a.chunks
  bytes : a.chunks.flatten = strm.content.take len
  complete : len ≤ strm.content.length → ∃ rest, a.rest = some rest ∧
    rest.content = strm.content.drop len ∧ rest.broken = strm.broken
  cut : strm.content.length < len → a.rest = none

/-- What arrives of a content with a length is such a content. -/
theorem contentWithLength_isContent (len : ℕ) (strm : InStream Char) :
    IsContent len strm (contentWithLength len strm) := by
  induction hn : strm.content.length using Nat.strong_induction_on generalizing strm len with
  | _ n ih =>
    rw [contentWithLength]
    split
    next hlen =>
      have hpos : 0 < min len CPPHTTPLIB_RECV_BUFSIZ := lt_min hlen (by decide)
      split
      next buf rest hread =>
        obtain ⟨hne, hle, hcontent, hbroken⟩ := InStream.read_data hpos hread
        obtain ⟨hlength, hmax⟩ := Nat.le_min.mp hle
        have hsum : buf.length + rest.content.length = n := by
          rw [← hn, hcontent, List.length_append]
        have hbuf := List.length_pos_iff.mpr hne
        have hrest := ih rest.content.length (by omega) (len - buf.length) rest rfl
        refine ⟨isPieces_cons.mpr ⟨⟨hne, hmax⟩, hrest.pieces⟩, ?_, fun hcomplete => ?_, fun hcut => ?_⟩
        · rw [hcontent, List.take_append, List.take_of_length_le hlength]
          exact congrArg (buf ++ ·) hrest.bytes
        · obtain ⟨rest', hsome, hdrop, hbroken'⟩ := hrest.complete (by omega)
          refine ⟨rest', hsome, ?_, hbroken'.trans hbroken⟩
          rw [hdrop, hcontent, List.drop_append, List.drop_of_length_le hlength, List.nil_append]
        · exact hrest.cut (by omega)
      next hnone =>
        have hnil : strm.content = [] := by
          by_contra hne
          obtain ⟨chunk, rest, hread⟩ := InStream.exists_read_of_ne_nil _ hne
          exact hnone chunk rest hread
        rw [hnil] at hn
        obtain rfl : 0 = n := hn
        refine ⟨isPieces_nil, by rw [hnil, List.take_nil]; rfl, fun hle => ?_, fun _ => rfl⟩
        rw [hnil] at hle
        exact absurd hle (Nat.not_le.mpr hlen)
    next hlen =>
      obtain rfl : len = 0 := by omega
      exact ⟨isPieces_nil, rfl, fun _ => ⟨strm, rfl, rfl, rfl⟩, fun hlt => absurd hlt (Nat.not_lt_zero _)⟩

/-- Up to the end of the connection everything arrives. -/
theorem contentWithoutLength_spec (strm : InStream Char) :
    IsPieces (contentWithoutLength strm).chunks ∧
      (contentWithoutLength strm).chunks.flatten = strm.content ∧
      if strm.broken then (contentWithoutLength strm).rest = none
      else ∃ rest, (contentWithoutLength strm).rest = some rest ∧ rest.content = [] ∧
        rest.broken = false := by
  induction hn : strm.content.length using Nat.strong_induction_on generalizing strm with
  | _ n ih =>
    rw [contentWithoutLength]
    by_cases hnil : strm.content = []
    · have hread := InStream.read_of_content_nil (n := CPPHTTPLIB_RECV_BUFSIZ) hnil
      cases hbroken : strm.broken <;> rw [hbroken] at hread
      · split
        next hfailed => cases hread.symm.trans hfailed
        next => exact ⟨isPieces_nil, hnil.symm, strm, rfl, hnil, hbroken⟩
        next hdata => cases hread.symm.trans hdata
      · split
        next => exact ⟨isPieces_nil, hnil.symm, rfl⟩
        next hclosed => cases hread.symm.trans hclosed
        next hdata => cases hread.symm.trans hdata
    · obtain ⟨buf, rest, hread⟩ := InStream.exists_read_of_ne_nil CPPHTTPLIB_RECV_BUFSIZ hnil
      obtain ⟨hne, hle, hcontent, hbroken⟩ := InStream.read_data (by decide) hread
      have hlt : rest.content.length < n := by
        rw [← hn, hcontent, List.length_append]
        exact Nat.lt_add_of_pos_left (List.length_pos_iff.mpr hne)
      obtain ⟨hpieces, hbytes, hrest⟩ := ih rest.content.length hlt rest rfl
      rw [hbroken] at hrest
      split
      next hfailed => cases hread.symm.trans hfailed
      next hclosed => cases hread.symm.trans hclosed
      next hdata =>
        obtain ⟨rfl, rfl⟩ := Received.data.inj (hread.symm.trans hdata)
        refine ⟨isPieces_cons.mpr ⟨⟨hne, hle⟩, hpieces⟩, ?_, hrest⟩
        rw [hcontent, ← hbytes]
        rfl

/-! ### Chunks -/

/-- What one turn of the loop over the chunks makes of a line and the stream behind it: the end
of the content, or a chunk and the line behind it. -/
inductive ChunkTurn
  | ended (a : Arrival)
  | more (chunks : List Str) (line : Str) (rest : InStream Char)

/-- What follows the last chunk. -/
def lastChunk (strm : InStream Char) : Option (InStream Char) :=
  match readBlank strm with
  | some (true, rest) => some rest
  | _ => none

/-- What follows the pieces of a chunk. -/
def behindChunk (chunks : List Str) (strm : InStream Char) : ChunkTurn :=
  match readBlank strm with
  | none => .ended ⟨chunks, none⟩
  | some (false, rest) => .ended ⟨chunks, some rest⟩
  | some (true, rest) =>
    match getline rest with
    | none => .ended ⟨chunks, none⟩
    | some (line, rest) => .more chunks line rest

/-- One turn of the loop over the chunks. -/
def chunkTurn (line : Str) (strm : InStream Char) : ChunkTurn :=
  match chunkLength line with
  | none => .ended ⟨[], none⟩
  | some 0 => .ended ⟨[], lastChunk strm⟩
  | some len =>
    let data := contentWithLength len strm
    match data.rest with
    | none => .ended data
    | some rest => behindChunk data.chunks rest

/-- A line that is read makes the stream shorter. -/
theorem readBlank_length {strm rest : InStream Char} {blank : Bool}
    (h : readBlank strm = some (blank, rest)) : rest.content.length < strm.content.length := by
  obtain ⟨⟨line, rest'⟩, hline, hblank⟩ := Option.map_eq_some_iff.mp h
  obtain ⟨-, rfl⟩ := Prod.mk.inj hblank
  exact getline_length hline

/-- A turn that goes on has read two lines. -/
theorem behindChunk_more {chunks chunks' : List Str} {line : Str} {strm rest : InStream Char}
    (h : behindChunk chunks strm = .more chunks' line rest) :
    ∃ mid, readBlank strm = some (true, mid) ∧ getline mid = some (line, rest) ∧ chunks' = chunks := by
  unfold behindChunk at h
  split at h
  · cases h
  · cases h
  next mid hblank =>
    split at h
    · cases h
    next line' rest' hline =>
      obtain ⟨rfl, rfl, rfl⟩ := ChunkTurn.more.inj h
      exact ⟨mid, hblank, hline, rfl⟩

/-- A chunk that is read makes the stream shorter. -/
theorem chunkTurn_length {line line' : Str} {strm rest : InStream Char} {chunks : List Str}
    (h : chunkTurn line strm = .more chunks line' rest) :
    rest.content.length < strm.content.length := by
  unfold chunkTurn at h
  split at h
  · cases h
  · cases h
  next len _ _ =>
    have hdata := contentWithLength_isContent len strm
    dsimp only at h
    split at h
    · cases h
    next mid hmid =>
      obtain ⟨mid', hblank, hline, -⟩ := behindChunk_more h
      have hcomplete : len ≤ strm.content.length := by
        by_contra hcut
        rw [hdata.cut (not_le.mp hcut)] at hmid
        cases hmid
      obtain ⟨mid'', hsome, hdrop, -⟩ := hdata.complete hcomplete
      obtain rfl := Option.some.inj (hmid.symm.trans hsome)
      calc rest.content.length < mid'.content.length := getline_length hline
        _ < mid.content.length := readBlank_length hblank
        _ ≤ strm.content.length := by rw [hdrop, List.length_drop]; exact Nat.sub_le _ _

/-- A turn ends where the data of a chunk is cut. -/
theorem chunkTurn_of_none {line : Str} {strm : InStream Char} {len : ℕ}
    (hlen : chunkLength line = some (len + 1)) (h : (contentWithLength (len + 1) strm).rest = none) :
    chunkTurn line strm = .ended (contentWithLength (len + 1) strm) := by
  simp only [chunkTurn, hlen, h]

/-- A chunk that arrives is followed by its end of line. -/
theorem chunkTurn_of_some {line : Str} {strm rest : InStream Char} {len : ℕ}
    (hlen : chunkLength line = some (len + 1))
    (h : (contentWithLength (len + 1) strm).rest = some rest) :
    chunkTurn line strm = behindChunk (contentWithLength (len + 1) strm).chunks rest := by
  simp only [chunkTurn, hlen, h]

/-- What arrives of chunks, the first of which has its length in a line. -/
def contentChunks (line : Str) (strm : InStream Char) : Arrival :=
  match _h : chunkTurn line strm with
  | .ended a => a
  | .more chunks line rest => (contentChunks line rest).afterAll chunks
termination_by strm.content.length
decreasing_by exact chunkTurn_length _h

/-- What arrives of a content in chunks. -/
def contentChunked (strm : InStream Char) : Arrival :=
  match getline strm with
  | none => ⟨[], none⟩
  | some (line, rest) => contentChunks line rest

/-- The loop ends with the turn that ends the content. -/
theorem contentChunks_of_ended {line : Str} {strm : InStream Char} {a : Arrival}
    (h : chunkTurn line strm = .ended a) : contentChunks line strm = a := by
  rw [contentChunks]
  split
  next a' hended => exact ChunkTurn.ended.inj (hended.symm.trans h)
  next hmore => cases hmore.symm.trans h

/-- The loop goes on behind a chunk. -/
theorem contentChunks_of_more {line line' : Str} {strm rest : InStream Char} {chunks : List Str}
    (h : chunkTurn line strm = .more chunks line' rest) :
    contentChunks line strm = (contentChunks line' rest).afterAll chunks := by
  rw [contentChunks]
  split
  next hended => cases hended.symm.trans h
  next chunks' line'' rest' hmore =>
    obtain ⟨rfl, rfl, rfl⟩ := ChunkTurn.more.inj (hmore.symm.trans h)
    rfl

/-- What arrives of the content of a message. -/
def contentArrival (headers : Headers) (strm : InStream Char) : Arrival :=
  if isCompressed headers then ⟨[], none⟩
  else if isChunkedTransferEncoding headers then contentChunked strm
  else if !headers.hasHeader contentLengthName then contentWithoutLength strm
  else if contentLength headers > ULONG_MAX then ⟨[], none⟩
  else contentWithLength (contentLength headers) strm

/-! ### Reading is receiving what arrives -/

section Reading

variable {ε σ : Type} (out : Str → Effect ε σ Bool)

/-- `read_content_with_length` hands over what arrives. -/
theorem readContentWithLength_eq {len r : ℕ} (hr : r ≤ len) (strm : InStream Char) :
    readContentWithLength out len r strm = (contentWithLength (len - r) strm).receive out := by
  induction hn : strm.content.length using Nat.strong_induction_on generalizing strm r with
  | _ n ih =>
    rw [readContentWithLength]
    by_cases hlt : r < len
    · have hpos : 0 < len - r := Nat.sub_pos_of_lt hlt
      rw [dif_pos hlt, contentWithLength_of_pos hpos]
      have hmin : 0 < min (len - r) CPPHTTPLIB_RECV_BUFSIZ := Nat.lt_min.mpr ⟨hpos, by decide⟩
      split
      next buf rest hread =>
        obtain ⟨hne, hle, hcontent, -⟩ := InStream.read_data hmin hread
        have hbuf : buf.length ≤ len - r := (Nat.le_min.mp hle).1
        have hrest : rest.content.length < n := by
          rw [← hn, hcontent, List.length_append]
          exact Nat.lt_add_of_pos_left (List.length_pos_iff.mpr hne)
        simp only [hread, Arrival.receive_after]
        refine bind_congr fun more => ?_
        rw [ih _ hrest (by omega) rest rfl, Nat.sub_add_eq]
      next hnone =>
        split
        next buf rest hread => exact absurd hread (hnone buf rest)
        · exact (Arrival.receive_failed out).symm
    · rw [dif_neg hlt, contentWithLength, dif_neg (by omega)]
      exact (Arrival.receive_nil out strm).symm

/-- `read_content_without_length` hands over what arrives. -/
theorem readContentWithoutLength_eq (strm : InStream Char) :
    readContentWithoutLength out strm = (contentWithoutLength strm).receive out := by
  induction hn : strm.content.length using Nat.strong_induction_on generalizing strm with
  | _ n ih =>
    rw [readContentWithoutLength, contentWithoutLength_eq]
    split
    next hfailed => simp only [hfailed, Arrival.receive_failed]
    next hclosed => simp only [hclosed, Arrival.receive_nil]
    next buf rest hread =>
      obtain ⟨hne, -, hcontent, -⟩ := InStream.read_data (by decide) hread
      have hrest : rest.content.length < n := by
        rw [← hn, hcontent, List.length_append]
        exact Nat.lt_add_of_pos_left (List.length_pos_iff.mpr hne)
      simp only [hread, Arrival.receive_after]
      refine bind_congr fun more => ?_
      rw [ih _ hrest rest rfl]

variable {next : Str → InStream Char → Effect ε σ (Except Failure (InStream Char))}

/-- What follows a chunk is received behind its pieces. -/
theorem readChunk_of_some {line : Str} {len : ℕ} (hlen : chunkLength line = some (len + 1))
    {strm : InStream Char} (hnext : ∀ line' rest, rest.content.length < strm.content.length →
      next line' rest = (contentChunks line' rest).receive out) :
    readChunk out next line strm = (contentChunks line strm).receive out := by
  simp only [readChunk, hlen, readContentWithLength_eq out (Nat.zero_le _), Nat.sub_zero]
  cases hdata : contentWithLength (len + 1) strm with
  | mk chunks rest =>
    cases rest with
    | none =>
      rw [contentChunks_of_ended (chunkTurn_of_none hlen (by rw [hdata])), hdata]
      exact Arrival.receive_cut out _
    | some mid =>
      have hturn := chunkTurn_of_some hlen (by rw [hdata])
      rw [hdata] at hturn
      have hended : ∀ rest, behindChunk chunks mid = .ended ⟨chunks, rest⟩ →
          contentChunks line strm = Arrival.afterAll chunks ⟨[], rest⟩ := fun rest hbehind => by
        rw [contentChunks_of_ended (hturn.trans hbehind), Arrival.afterAll, List.append_nil]
      cases hblank : readBlank mid with
      | none =>
        rw [hended none (by simp only [behindChunk, hblank])]
        refine Arrival.receive_afterAll out ?_
        simp only [hblank, Arrival.receive_failed]
      | some r =>
        obtain ⟨blank, rest⟩ := r
        cases blank with
        | false =>
          rw [hended (some rest) (by simp only [behindChunk, hblank])]
          refine Arrival.receive_afterAll out ?_
          simp only [hblank, Arrival.receive_nil]
        | true =>
          cases hline : getline rest with
          | none =>
            rw [hended none (by simp only [behindChunk, hblank, hline])]
            refine Arrival.receive_afterAll out ?_
            simp only [hblank, hline, Arrival.receive_failed]
          | some r =>
            obtain ⟨line', rest'⟩ := r
            have hmore : chunkTurn line strm = .more chunks line' rest' := by
              rw [hturn]
              simp only [behindChunk, hblank, hline]
            rw [contentChunks_of_more hmore]
            refine Arrival.receive_afterAll out ?_
            simp only [hblank, hline]
            exact hnext line' rest' (chunkTurn_length hmore)

/-- With a turn for every byte the loop receives what arrives. -/
theorem readChunks_eq {turns : ℕ} (line : Str) {strm : InStream Char}
    (h : strm.content.length < turns) :
    readChunks out turns line strm = (contentChunks line strm).receive out := by
  induction turns generalizing line strm with
  | zero => exact absurd h (Nat.not_lt_zero _)
  | succ turns ih =>
    cases hlen : chunkLength line with
    | none =>
      have hturn : chunkTurn line strm = .ended ⟨[], none⟩ := by simp only [chunkTurn, hlen]
      rw [contentChunks_of_ended hturn, Arrival.receive_failed]
      simp only [readChunks, readChunk, hlen]
    | some len =>
      cases len with
      | zero =>
        have hturn : chunkTurn line strm = .ended ⟨[], lastChunk strm⟩ := by
          simp only [chunkTurn, hlen]
        rw [contentChunks_of_ended hturn]
        simp only [readChunks, readChunk, hlen, lastChunk]
        rcases readBlank strm with _ | ⟨blank, rest⟩
        · exact (Arrival.receive_failed out).symm
        · cases blank
          · exact (Arrival.receive_failed out).symm
          · exact (Arrival.receive_nil out rest).symm
      | succ len =>
        refine readChunk_of_some out hlen fun line' rest hlt => ih line' ?_
        omega

/-- Reading a content is receiving what arrives of it, however its bytes are sent. -/
theorem readContent_eq (headers : Headers) (strm : InStream Char) :
    readContent headers out strm = (contentArrival headers strm).receive out := by
  unfold readContent contentArrival
  split
  · rw [Arrival.receive_failed]
  split
  · unfold readContentChunked contentChunked
    cases getline strm with
    | none => exact (Arrival.receive_failed out).symm
    | some r => exact readChunks_eq out r.1 (Nat.lt_succ_self _)
  split
  · exact readContentWithoutLength_eq out strm
  split
  · rw [Arrival.receive_failed]
  · rw [readContentWithLength_eq out (Nat.zero_le _), Nat.sub_zero]

end Reading

end Up2date.Httplib
