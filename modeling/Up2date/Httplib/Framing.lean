import Up2date.Httplib.Heads

/-!
# Framing of responses

The head of a response says how the end of its body is found. A response is complete exactly
when its bytes are a head and a body in this framing, so that it does not depend on how the
bytes are cut into segments. A body without a length ends with the connection, and one in
chunks may end with it too: exactly there a part of a response is taken for a complete one.
-/

namespace Up2date.Httplib

open Cxx
open Httpclient (Failure Wire Response)

/-! ### Framings -/

/-- How the end of a body is found. -/
inductive Framing
  | noContent | refused | chunked | close
  | length (len : ℕ)
deriving DecidableEq, Repr

/-- How the body behind a head is framed. -/
def ResponseHead.framing (head : ResponseHead) : Framing :=
  if head.line.status = HTTP_NO_CONTENT then .noContent
  else if isCompressed head.headers then .refused
  else if isChunkedTransferEncoding head.headers then .chunked
  else if !head.headers.hasHeader contentLengthName then .close
  else .length (contentLength head.headers)

/-- What arrives of a body. -/
def Framing.arrival (strm : InStream Char) : Framing → Arrival
  | .noContent => ⟨[], some strm⟩
  | .refused => ⟨[], none⟩
  | .chunked => contentChunked strm
  | .close => contentWithoutLength strm
  | .length len => contentWithLength len strm

/-- A body with its framing. -/
def Framing.IsBody : Framing → Bool → Str → Str → Str → Prop
  | .noContent, _, s, body, tail => body = [] ∧ tail = s
  | .refused, _, _, _, _ => False
  | .chunked, broken, s, body, tail => IsChunked broken s body tail
  | .close, broken, s, body, tail => broken = false ∧ body = s ∧ tail = []
  | .length len, _, s, body, tail => s = body ++ tail ∧ body.length = len

/-- The value is within its bounds. -/
theorem toUnsignedLong_le (negative : Bool) (n : ℕ) : toUnsignedLong negative n ≤ ULONG_MAX := by
  unfold toUnsignedLong
  split
  · exact le_rfl
  split
  · have := Nat.mod_lt (2 ^ 64 - n) (show 0 < 2 ^ 64 by decide)
    unfold ULONG_MAX
    omega
  · omega

/-- No content is longer than the greatest `size_t`. -/
theorem contentLength_le (headers : Headers) : contentLength headers ≤ ULONG_MAX := by
  unfold contentLength strtoull
  split
  · exact Nat.zero_le _
  · exact toUnsignedLong_le _ _

/-- What arrives of a content is determined by its framing. -/
theorem contentArrival_eq {head : ResponseHead} (h : head.line.status ≠ HTTP_NO_CONTENT)
    (strm : InStream Char) :
    contentArrival head.headers strm = head.framing.arrival strm := by
  unfold contentArrival ResponseHead.framing
  rw [if_neg h]
  split
  · rfl
  split
  · rfl
  split
  · rfl
  · rw [if_neg (not_lt.mpr (contentLength_le head.headers))]
    rfl

/-- A connection without a head is a failure to read. -/
theorem wireOf_of_none {strm : InStream Char} (h : readHead strm = none) :
    wireOf strm = .failed readFailure := by
  rw [wireOf, h]

/-- What happens to a request is a status, and what arrives of the body. -/
theorem wireOf_of_some {strm rest : InStream Char} {head : ResponseHead}
    (h : readHead strm = some (head, rest)) :
    wireOf strm = .answered head.line.status (head.framing.arrival rest).chunks
      (head.framing.arrival rest).cut := by
  rw [wireOf, h]
  by_cases hstatus : head.line.status = HTTP_NO_CONTENT
  · simp [hstatus, ResponseHead.framing, Framing.arrival, Arrival.cut]
  · simp only [if_neg hstatus, contentArrival_eq hstatus]

/-- A body is complete exactly when it comes in its framing. -/
theorem Framing.arrival_parses (framing : Framing) :
    Parses (fun strm => (framing.arrival strm).whole) framing.IsBody := by
  cases framing with
  | noContent => exact Parses.pure []
  | refused => exact { sound := fun h => (nomatch h), complete := fun h => (h : False).elim }
  | chunked => exact contentChunked_parses
  | close => exact contentWithoutLength_parses
  | length len => exact contentWithLength_parses len

/-! ### Complete responses -/

/-- A response with its body. -/
def IsResponse (broken : Bool) (s : Str) (r : ResponseHead × Str) (tail : Str) : Prop :=
  ∃ mid, IsHead broken s r.1 mid ∧ r.1.framing.IsBody broken mid r.2 tail

/-- Read a complete response. -/
def readResponse : Reader Char (ResponseHead × Str) := fun strm =>
  (readHead strm).bind fun r =>
    (r.1.framing.arrival r.2).whole.map fun body => ((r.1, body.1), body.2)

/-- A response is a head and a body that arrives completely. -/
theorem readResponse_eq_some_iff {strm rest : InStream Char} {head : ResponseHead} {body : Str} :
    readResponse strm = some ((head, body), rest) ↔
      ∃ mid, readHead strm = some (head, mid) ∧
        (head.framing.arrival mid).whole = some (body, rest) := by
  unfold readResponse
  cases readHead strm with
  | none => simp
  | some r => simp only [Option.bind_some, Option.map_eq_some_iff, Prod.mk.injEq, Prod.exists,
      Option.some.injEq]; grind

/-- A response is read exactly when it is written by the grammar. -/
theorem readResponse_parses : Parses readResponse IsResponse where
  sound {strm r rest} h := by
    obtain ⟨head, body⟩ := r
    obtain ⟨mid, hhead, hbody⟩ := readResponse_eq_some_iff.mp h
    obtain ⟨hisHead, hmid⟩ := readHead_parses.sound hhead
    obtain ⟨hisBody, hrest⟩ := head.framing.arrival_parses.sound hbody
    rw [hmid] at hisBody hrest
    exact ⟨⟨mid.content, hisHead, hisBody⟩, hrest⟩
  complete {strm r tail} h := by
    obtain ⟨mid, hhead, hbody⟩ := h
    obtain ⟨rest, hread, rfl⟩ := readHead_parses.complete hhead
    rw [← (readHead_parses.sound hread).2] at hbody
    obtain ⟨rest', hwhole, htail⟩ := r.1.framing.arrival_parses.complete hbody
    exact ⟨rest', readResponse_eq_some_iff.mpr ⟨rest, hread, hwhole⟩, htail⟩

/-- A complete response is one that is read. -/
theorem collect_eq_response_iff_read (strm : InStream Char) (r : Response) :
    (wireOf strm).collect = .ok (.response r) ↔
      ∃ head rest, head.line.status = r.status ∧ readResponse strm = some ((head, r.body), rest) := by
  cases hhead : readHead strm with
  | none => simp [wireOf_of_none hhead, Wire.collect, readResponse, hhead]
  | some h =>
    obtain ⟨head, rest⟩ := h
    rw [wireOf_of_some hhead]
    simp only [readResponse, hhead, Option.bind_some, Arrival.whole, Arrival.cut]
    obtain ⟨status, body⟩ := r
    cases harrival : (head.framing.arrival rest).rest with
    | none => simp [Wire.collect]
    | some rest' => simp [Wire.collect]

/-- A response is received exactly when a complete one comes. -/
theorem collect_eq_response_iff (strm : InStream Char) (r : Response) :
    (wireOf strm).collect = .ok (.response r) ↔
      ∃ head tail, head.line.status = r.status ∧
        IsResponse strm.broken strm.content (head, r.body) tail := by
  rw [collect_eq_response_iff_read]
  constructor
  · rintro ⟨head, rest, hstatus, hr⟩
    exact ⟨head, rest.content, hstatus, (readResponse_parses.sound hr).1⟩
  · rintro ⟨head, tail, hstatus, hr⟩
    obtain ⟨rest, hr, -⟩ := readResponse_parses.complete hr
    exact ⟨head, rest, hstatus, hr⟩

/-- `Get`, `Post` and `Put` return a response exactly when the bytes that come are a complete
one, with its status and its body. -/
theorem collectResponse_eq_response_iff (strm : InStream Char) (r : Response) :
    ending (collectResponse (ε := StdException) strm []) = .ok (.response r) ↔
      ∃ head tail, head.line.status = r.status ∧
        IsResponse strm.broken strm.content (head, r.body) tail := by
  rw [← collect_eq_response_iff, collectResponse_eq id strm]
  cases (wireOf strm).collect with
  | error e => simp [Except.mapError]
  | ok result => simp [Except.mapError]

/-! ### Segments -/

/-- The bytes of a content, as far as they arrive. -/
def Arrival.bytes (a : Arrival) : Str := a.chunks.flatten

/-- Without a further chunk no bytes arrive. -/
theorem contentChunks_bytes_zero {line : Str} (hlen : ∀ len, chunkLength line ≠ some (len + 1))
    (strm : InStream Char) : (contentChunks line strm).bytes = [] := by
  cases hline : chunkLength line with
  | none => rw [contentChunks_of_ended (a := ⟨[], none⟩) (by simp only [chunkTurn, hline])]; rfl
  | some len =>
    cases len with
    | zero =>
      rw [contentChunks_of_ended (a := ⟨[], lastChunk strm⟩) (by simp only [chunkTurn, hline])]
      rfl
    | succ len => exact absurd hline (hlen len)

/-- The bytes of a chunk, and of those that follow it. -/
theorem contentChunks_bytes {line : Str} {len : ℕ} (hlen : chunkLength line = some (len + 1))
    (strm : InStream Char) :
    (contentChunks line strm).bytes = strm.content.take (len + 1) ++
      (((contentWithLength (len + 1) strm).whole.bind fun data =>
        (readBlank data.2).bind fun blank =>
          if blank.1 then
            (getline blank.2).map fun next => (contentChunks next.1 next.2).bytes
          else none).getD []) := by
  have hbytes := (contentWithLength_isContent (len + 1) strm).bytes
  cases hdata : contentWithLength (len + 1) strm with
  | mk chunks rest =>
    rw [hdata] at hbytes
    rw [← hbytes]
    cases rest with
    | none =>
      rw [contentChunks_of_ended (chunkTurn_of_none hlen (by rw [hdata])), hdata]
      exact (List.append_nil _).symm
    | some mid =>
      have hturn := chunkTurn_of_some hlen (by rw [hdata])
      rw [hdata] at hturn
      simp only [Arrival.whole, Option.map_some, Option.bind_some]
      cases hblank : readBlank mid with
      | none =>
        rw [contentChunks_of_ended (hturn.trans (by simp only [behindChunk, hblank]; rfl))]
        exact (List.append_nil _).symm
      | some r =>
        obtain ⟨blank, rest⟩ := r
        cases blank with
        | false =>
          rw [contentChunks_of_ended (hturn.trans (by simp only [behindChunk, hblank]; rfl))]
          exact (List.append_nil _).symm
        | true =>
          simp only [Option.bind_some, if_true]
          cases hline : getline rest with
          | none =>
            rw [contentChunks_of_ended (hturn.trans (by simp only [behindChunk, hblank, hline]; rfl))]
            exact (List.append_nil _).symm
          | some r =>
            rw [contentChunks_of_more (hturn.trans (by simp only [behindChunk, hblank, hline]; rfl))]
            exact List.flatten_append

/-- The bytes that arrive of chunks do not depend on how they are cut. -/
theorem contentChunks_bytes_alike {line : Str} {s t : InStream Char} (h : s.Alike t) :
    (contentChunks line s).bytes = (contentChunks line t).bytes := by
  induction hn : s.content.length using Nat.strong_induction_on generalizing line s t with
  | _ n ih =>
    by_cases hlen : ∀ len, chunkLength line ≠ some (len + 1)
    · rw [contentChunks_bytes_zero hlen, contentChunks_bytes_zero hlen]
    obtain ⟨len, hlen⟩ := not_forall_not.mp hlen
    rw [contentChunks_bytes hlen, contentChunks_bytes hlen, h.1]
    congr 2
    have hdata : Agree (contentWithLength (len + 1) s).whole (contentWithLength (len + 1) t).whole :=
      (contentWithLength_parses (len + 1)).steady s t h
    obtain ⟨hs, ht⟩ | ⟨data, mid, mid', hs, ht, hmid⟩ := hdata
    · rw [hs, ht]
    rw [hs, ht, Option.bind_some, Option.bind_some]
    obtain ⟨hs', ht'⟩ | ⟨blank, rest, rest', hs', ht', hrest⟩ := readBlank_parses.steady mid mid' hmid
    · rw [hs', ht']
    rw [hs', ht', Option.bind_some, Option.bind_some]
    cases blank with
    | false => rfl
    | true =>
      obtain ⟨hs'', ht''⟩ | ⟨next, last, last', hs'', ht'', hlast⟩ := getline_parses.steady rest rest' hrest
      · rw [if_pos rfl, if_pos rfl, hs'', ht'']
      · have hlt : last.content.length < n := by
          have hshort := (getline_length hs'').trans (readBlank_length hs')
          rw [← hn, ((contentWithLength_parses (len + 1)).sound hs).1.1, List.length_append]
          exact hshort.trans_le (Nat.le_add_left _ _)
        rw [if_pos rfl, if_pos rfl, hs'', ht'', Option.map_some, Option.map_some]
        exact congrArg some (ih _ hlt hlast rfl)

/-- The bytes of a body that arrive do not depend on how they are cut. -/
theorem Framing.arrival_bytes_alike (framing : Framing) {s t : InStream Char} (h : s.Alike t) :
    (framing.arrival s).bytes = (framing.arrival t).bytes := by
  cases framing with
  | noContent => rfl
  | refused => rfl
  | chunked =>
    simp only [Framing.arrival, contentChunked]
    obtain ⟨hs, ht⟩ | ⟨line, mid, mid', hs, ht, hmid⟩ := getline_parses.steady s t h
    · rw [hs, ht]
    · rw [hs, ht]
      exact contentChunks_bytes_alike hmid
  | close =>
    exact (contentWithoutLength_spec s).2.1.trans (h.1.trans (contentWithoutLength_spec t).2.1.symm)
  | length len =>
    refine (contentWithLength_isContent len s).bytes.trans ?_
    rw [h.1]
    exact (contentWithLength_isContent len t).bytes.symm

/-- Streams that are alike are cut alike. -/
theorem Framing.arrival_cut_alike (framing : Framing) {s t : InStream Char} (h : s.Alike t) :
    (framing.arrival s).cut = (framing.arrival t).cut := by
  have hcut : ∀ a : Arrival, a.cut = if a.whole.isSome then none else some readFailure := fun a => by
    simp [Arrival.cut, Arrival.whole]
  have hwhole : Agree (framing.arrival s).whole (framing.arrival t).whole :=
    framing.arrival_parses.steady s t h
  rw [hcut, hcut]
  obtain ⟨hs, ht⟩ | ⟨body, rest, rest', hs, ht, -⟩ := hwhole
  · rw [hs, ht]
  · rw [hs, ht]
    rfl

/-- The same happens to two requests, except for the pieces in which a body comes. -/
def SameWire : Wire → Wire → Prop
  | .answered status chunks cut, .answered status' chunks' cut' =>
    status = status' ∧ chunks.flatten = chunks'.flatten ∧ cut = cut'
  | w, w' => w = w'

/-- What happens to a request does not depend on how the bytes that come are cut. -/
theorem wireOf_alike {s t : InStream Char} (h : s.Alike t) : SameWire (wireOf s) (wireOf t) := by
  obtain ⟨hs, ht⟩ | ⟨head, rest, rest', hs, ht, hrest⟩ := readHead_parses.steady s t h
  · rw [wireOf_of_none hs, wireOf_of_none ht]
    rfl
  · rw [wireOf_of_some hs, wireOf_of_some ht]
    exact ⟨rfl, head.framing.arrival_bytes_alike hrest, head.framing.arrival_cut_alike hrest⟩

/-- A head in a segment of its own, and a body without a length. -/
def closedBy (body : Str) : InStream Char :=
  ⟨InStream.pushFront (headText 200) (InStream.pushFront body []), false⟩

/-- The same bytes in two segments, and in one. -/
theorem wireOf_alike_ab :
    SameWire (wireOf (closedBy "ab".toList)) (wireOf (.ofList (headText 200 ++ "ab".toList) false)) :=
  wireOf_alike ⟨rfl, rfl⟩

/-! ### Parts of responses -/

/-- A body as a server writes it in a framing. -/
def Framing.IsWritten : Framing → Str → Prop
  | .noContent, text => text = []
  | .refused, _ => False
  | .chunked, text => ∃ payloads, IsPayloads payloads ∧ text = writeContentChunked payloads
  | .close, _ => True
  | .length len, text => text.length = len

/-- The part of a body that is taken for a complete one when the connection is closed behind it. -/
def Framing.IsTaken : Framing → Str → Str → Prop
  | .close, text, body => body = text
  | .chunked, text, body => ∃ sent, IsPayloads sent ∧ sent ≠ [] ∧
      text ++ ['\n'] = (sent.map writeChunk).flatten ∧ body = sent.flatten
  | _, _, _ => False

/-- A part of a body is read as a body exactly when it is taken for a complete one. -/
theorem Framing.isBody_part_iff {framing : Framing} {text more : Str}
    (hwritten : framing.IsWritten (text ++ more)) (hmore : more ≠ []) (broken : Bool) (body : Str) :
    (∃ tail, framing.IsBody broken text body tail) ↔ broken = false ∧ framing.IsTaken text body := by
  cases framing with
  | noContent => exact absurd (List.append_eq_nil_iff.mp hwritten).2 hmore
  | refused => exact hwritten.elim
  | chunked =>
    obtain ⟨payloads, hp, hpayloads⟩ := hwritten
    constructor
    · rintro ⟨tail, hbody⟩
      obtain ⟨hbroken, sent, hsent, hne, hs, rfl⟩ := IsChunked.of_part hp hbody hpayloads hmore
      exact ⟨hbroken, sent, fun p h => hp p (hsent.subset h), hne, hs, rfl⟩
    · rintro ⟨rfl, sent, hsent, hne, hs, rfl⟩
      exact ⟨[], isChunked_of_part hsent hne hs⟩
  | close =>
    constructor
    · rintro ⟨tail, hbroken, rfl, -⟩
      exact ⟨hbroken, rfl⟩
    · rintro ⟨rfl, rfl⟩
      exact ⟨[], rfl, rfl, rfl⟩
  | length len =>
    refine ⟨?_, fun h => h.2.elim⟩
    rintro ⟨tail, rfl, hlength⟩
    have htotal : (body ++ tail ++ more).length = len := hwritten
    have hpos := List.length_pos_iff.mpr hmore
    simp only [List.length_append] at htotal
    omega

/-- A part of a response is taken for a complete one exactly when it holds the head, the
connection is closed, and either the body has no length, or it comes in chunks and the part
ends between the two characters behind the data of one. -/
theorem collect_part_iff {strm rest part : InStream Char} {head : ResponseHead} {more : Str}
    (hhead : readHead strm = some (head, rest)) (hwritten : head.framing.IsWritten rest.content)
    (hpart : part.content ++ more = strm.content) (hmore : more ≠ []) (r : Response) :
    (wireOf part).collect = .ok (.response r) ↔
      part.broken = false ∧ r.status = head.line.status ∧
        ∃ rest', readHead part = some (head, rest') ∧ head.framing.IsTaken rest'.content r.body := by
  have hsame : ∀ {head' mid}, readHead part = some (head', mid) →
      head' = head ∧ rest.content = mid.content ++ more ∧ mid.broken = part.broken := by
    intro head' mid hread
    obtain ⟨again, hagain, hrest⟩ :=
      IsHead.delimited.exists_of_prefix readHead_parses hread hpart.symm
    obtain ⟨rfl, rfl⟩ := Prod.mk.inj (Option.some.inj (hhead.symm.trans hagain))
    exact ⟨rfl, hrest, (readHead_parses.sound hread).2⟩
  rw [collect_eq_response_iff_read]
  constructor
  · rintro ⟨head', tail, hstatus, hr⟩
    obtain ⟨mid, hread, hbody⟩ := readResponse_eq_some_iff.mp hr
    obtain ⟨rfl, hrest, hbroken⟩ := hsame hread
    rw [hrest] at hwritten
    have htaken := (Framing.isBody_part_iff hwritten hmore _ _).mp
      ⟨_, (head'.framing.arrival_parses.sound hbody).1⟩
    exact ⟨hbroken.symm.trans htaken.1, hstatus.symm, mid, hread, htaken.2⟩
  · rintro ⟨hbroken, hstatus, mid, hread, htaken⟩
    obtain ⟨-, hrest, hmid⟩ := hsame hread
    rw [hrest] at hwritten
    obtain ⟨tail, hbody⟩ := (Framing.isBody_part_iff hwritten hmore _ _).mpr ⟨hmid.trans hbroken, htaken⟩
    obtain ⟨rest', hwhole, -⟩ := head.framing.arrival_parses.complete hbody
    exact ⟨head, rest', hstatus.symm, readResponse_eq_some_iff.mpr ⟨mid, hread, hwhole⟩⟩

/-- A part of the body is taken for it. -/
theorem collect_part_iff_ab :
    (wireOf (closedBy "ab".toList)).collect = .ok (.response ⟨200, "ab".toList⟩) ↔
      (closedBy "ab".toList).broken = false ∧ (200 : ℤ) = 200 ∧
        ∃ rest', readHead (closedBy "ab".toList) =
            some (⟨⟨"HTTP/1.1".toList, 200, []⟩, .empty⟩, rest') ∧
          Framing.close.IsTaken rest'.content "ab".toList := by
  have hhead := readHead_headText (show 200 < 1000 by decide) (by decide)
    (InStream.pushFront "abc".toList []) false
  have hpart : (closedBy "ab".toList).content ++ "c".toList = (closedBy "abc".toList).content := rfl
  exact collect_part_iff hhead trivial hpart (by decide) _

end Up2date.Httplib
