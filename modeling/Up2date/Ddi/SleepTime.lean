import Up2date.Cxx.Scanning
import Up2date.Ddi.PayloadShape

/-!
# The polling time

The polling time is sent as a text. What is read from it are three numerals with colons
between them; blanks and signs before a number and anything behind the last one are
accepted, and numbers that do not fit are reduced. A text keeps its meaning when it is
`HH:MM:SS` in digits and its duration in milliseconds fits an `int`.
-/

namespace Up2date.Ddi

open Cxx
open Json (Value)

/-- The parts of a text that three conversions with colons between them read. -/
structure SleepParts where
  hours : Numeral
  minutes : Numeral
  seconds : Numeral
  rest : Str
  rest_stops : Stops Char.isDigit rest

namespace SleepParts

/-- The parts as they are written. -/
def text (t : SleepParts) : Str :=
  t.hours.text ++ ':' :: (t.minutes.text ++ ':' :: (t.seconds.text ++ t.rest))

/-- The values of the subexpressions of the duration, and last the duration in milliseconds. -/
def values (t : SleepParts) : List ℤ :=
  let hh := t.hours.value
  let mm := t.minutes.value
  let ss := t.seconds.value
  [hh, mm, ss, hh * 3600, mm * 60, hh * 3600 + mm * 60, hh * 3600 + mm * 60 + ss]

/-- The time that the parts name. -/
def milliseconds (t : SleepParts) : ℤ :=
  (t.hours.value * 3600 + t.minutes.value * 60 + t.seconds.value) * 1000

/-- `HH:MM:SS` in digits, with nothing before, between and behind them. -/
def IsPlain (t : SleepParts) : Prop :=
  t.hours.IsPlain ∧ t.minutes.IsPlain ∧ t.seconds.IsPlain ∧ t.rest = []

end SleepParts

/-- A member `sleep` of the polling configuration. -/
def HasSleep (document : Value) (sleep : Str) : Prop :=
  ∃ config polling, document.Has "config".toList config ∧ config.Has "polling".toList polling ∧
    polling.Has "sleep".toList (.string sleep)

/-- A text is a duration, and so many milliseconds are it. -/
def IsDuration (sleep : Str) (sleepTime : ℤ) : Prop :=
  ∃ t : SleepParts, t.text = sleep ∧ t.IsPlain ∧ sleepTime = t.milliseconds ∧
    ∀ v ∈ t.milliseconds :: t.values, intMin ≤ v ∧ v ≤ intMax

/-- Whatever else a response holds, it is refused as `unexpected_payload`, or its polling time is a
duration, and is understood. -/
def SleepUnderstood (sleep : Str) : Prop :=
  ∀ parse body document, parse (cstr body) = some document → HasSleep document sleep →
    PollingData.fromString parse body = Decoder.raise .unexpectedPayload ∨
      ∃ sleepTime, IsDuration sleep sleepTime ∧ ∀ polingData,
        PollingData.fromString parse body = .ok polingData → polingData.sleepTime = sleepTime

/-- What is read as three numbers is plain, fits, and is all of a text. -/
structure Unambiguous (sleep : Str) (t : SleepParts) : Prop where
  whole : nul ∉ sleep
  plain : t.IsPlain
  fits : t.milliseconds ≤ intMax

/-! ### Scanning -/

/-- A number is read exactly when the text begins with a numeral, and it is wrapped to an int. -/
theorem scanInt_eq_some_iff {s : Str} {z : ℤ} {rest : Str} :
    scanInt s = some (z, rest) ↔ ∃ n : Numeral, s = n.text ++ rest ∧ Stops Char.isDigit rest ∧
      z = wrapInt (clampLong n.value) := by
  simp only [scanInt, Option.map_eq_some_iff, Prod.exists, Prod.mk.injEq, strtol_eq_some_iff]
  constructor
  · intro h
    obtain ⟨w, rest', ⟨n, hs, hstops, rfl⟩, rfl, rfl⟩ := h
    exact ⟨n, hs, hstops, rfl⟩
  · intro h
    obtain ⟨n, hs, hstops, rfl⟩ := h
    exact ⟨n.value, rest, ⟨n, hs, hstops, rfl⟩, rfl, rfl⟩

/-- The `int` that a conversion stores. -/
def stored (n : Numeral) : ℤ := wrapInt (clampLong n.value)

/-- The three conversions one after the other. -/
theorem scanSleep_conversions {s : Str} {hh mm ss : ℤ} :
    scanSleep s = some (hh, mm, ss) ↔ ∃ afterHours afterMinutes rest,
      scanInt s = some (hh, ':' :: afterHours) ∧
      scanInt afterHours = some (mm, ':' :: afterMinutes) ∧ scanInt afterMinutes = some (ss, rest) := by
  constructor
  · intro h
    unfold scanSleep at h
    split at h
    next hh' afterHours hhours =>
      split at h
      next mm' afterMinutes hminutes =>
        obtain ⟨⟨ss', rest⟩, hseconds, heq⟩ := Option.map_eq_some_iff.mp h
        cases heq
        exact ⟨afterHours, afterMinutes, rest, hhours, hminutes, hseconds⟩
      next => cases h
    next => cases h
  · intro h
    obtain ⟨afterHours, afterMinutes, rest, hhours, hminutes, hseconds⟩ := h
    simp only [scanSleep, hhours, hminutes, hseconds, Option.map_some]

/-- `sscanf` finds three numbers exactly in the texts of three numerals. -/
theorem scanSleep_eq_some_iff {s : Str} {hh mm ss : ℤ} :
    scanSleep s = some (hh, mm, ss) ↔ ∃ t : SleepParts, t.text = s ∧
      hh = stored t.hours ∧ mm = stored t.minutes ∧ ss = stored t.seconds := by
  have hcolon : ∀ rest : Str, Stops Char.isDigit (':' :: rest) := fun rest =>
    stops_cons_iff.mpr (by decide)
  simp only [scanSleep_conversions, scanInt_eq_some_iff]
  constructor
  · intro h
    obtain ⟨afterHours, afterMinutes, rest, ⟨hours, rfl, -, rfl⟩, ⟨minutes, rfl, -, rfl⟩,
      ⟨seconds, rfl, hstops, rfl⟩⟩ := h
    exact ⟨⟨hours, minutes, seconds, rest, hstops⟩, rfl, rfl, rfl, rfl⟩
  · intro h
    obtain ⟨t, rfl, rfl, rfl, rfl⟩ := h
    exact ⟨_, _, _, ⟨t.hours, rfl, hcolon _, rfl⟩, ⟨t.minutes, rfl, hcolon _, rfl⟩,
      ⟨t.seconds, rfl, t.rest_stops, rfl⟩⟩

/-- A text has one list of these parts at most. -/
theorem SleepParts.text_injective : Function.Injective SleepParts.text := by
  have hcolon : ∀ rest : Str, Stops Char.isDigit (':' :: rest) := fun rest =>
    stops_cons_iff.mpr (by decide)
  intro t t' h
  obtain ⟨hhours, hrest⟩ := Numeral.text_append_inj h (hcolon _) (hcolon _)
  obtain ⟨hminutes, hrest⟩ := Numeral.text_append_inj (List.cons.inj hrest).2 (hcolon _) (hcolon _)
  obtain ⟨hseconds, hrest⟩ :=
    Numeral.text_append_inj (List.cons.inj hrest).2 t.rest_stops t'.rest_stops
  cases t
  cases t'
  simp_all

/-! ### Durations that fit -/

/-- A number that fits an int is not clamped. -/
theorem clampLong_of_fits {z : ℤ} (h : intMin ≤ z) (h' : z ≤ intMax) : clampLong z = z := by
  unfold intMin at h
  unfold intMax at h'
  unfold clampLong
  omega

/-- A number that fits an int is not wrapped. -/
theorem wrapInt_of_fits {z : ℤ} (h : intMin ≤ z) (h' : z ≤ intMax) : wrapInt z = z := by
  unfold intMin at h
  unfold intMax at h'
  exact Int.bmod_eq_of_le (by omega) (by omega)

namespace SleepParts

variable {t : SleepParts}

/-- A plain numeral has no negative value. -/
theorem value_nonneg_of_isPlain {n : Numeral} (h : n.IsPlain) : 0 ≤ n.value := by
  rw [Numeral.value, h.2, if_neg (by decide)]
  exact Int.natCast_nonneg _

/-- Plain parts name no negative time. -/
theorem milliseconds_nonneg (h : t.IsPlain) : 0 ≤ t.milliseconds := by
  have hhours := value_nonneg_of_isPlain h.1
  have hminutes := value_nonneg_of_isPlain h.2.1
  have hseconds := value_nonneg_of_isPlain h.2.2.1
  unfold milliseconds
  omega

/-- A plain duration that fits has subexpressions that fit. -/
theorem values_fit (h : t.IsPlain) (hfits : t.milliseconds ≤ intMax) :
    ∀ v ∈ t.milliseconds :: t.values, intMin ≤ v ∧ v ≤ intMax := by
  have hhours := value_nonneg_of_isPlain h.1
  have hminutes := value_nonneg_of_isPlain h.2.1
  have hseconds := value_nonneg_of_isPlain h.2.2.1
  have hmin : intMin ≤ 0 := by decide
  simp only [milliseconds] at hfits
  simp only [values, milliseconds, List.forall_mem_cons, List.not_mem_nil, IsEmpty.forall_iff,
    implies_true, and_true]
  omega

/-- Then it is computed without reductions. -/
theorem sleepMilliseconds_eq (h : t.IsPlain) (hfits : t.milliseconds ≤ intMax) :
    sleepMilliseconds (stored t.hours) (stored t.minutes) (stored t.seconds) = t.milliseconds := by
  have hvalues := values_fit h hfits
  simp only [values, List.forall_mem_cons] at hvalues
  obtain ⟨hms, hhh, hmm, hss, hh, hm, hhm, hhms, -⟩ := hvalues
  have hstored : ∀ n : Numeral, intMin ≤ n.value ∧ n.value ≤ intMax → stored n = n.value := by
    intro n hn
    rw [stored, clampLong_of_fits hn.1 hn.2, wrapInt_of_fits hn.1 hn.2]
  rw [hstored _ hhh, hstored _ hmm, hstored _ hss, sleepMilliseconds, wrapInt_of_fits hh.1 hh.2,
    wrapInt_of_fits hm.1 hm.2, wrapInt_of_fits hhm.1 hhm.2, wrapInt_of_fits hhms.1 hhms.2]
  exact wrapInt_of_fits hms.1 hms.2

/-- A plain text holds no null character. -/
theorem nul_notMem_text (h : t.IsPlain) : nul ∉ t.text := by
  have hnumeral : ∀ n : Numeral, n.IsPlain → nul ∉ n.text := by
    intro n hn hmem
    rw [Numeral.text, hn.1, hn.2] at hmem
    exact absurd (n.isDigit_of_mem nul hmem) (by decide)
  have hcolon : nul ≠ ':' := by decide
  simp only [text, h.2.2.2, List.append_nil, List.mem_append, List.mem_cons, hcolon,
    hnumeral _ h.1, hnumeral _ h.2.1, hnumeral _ h.2.2.1, or_self, not_false_eq_true]

end SleepParts

/-! ### Responses -/

/-- The text is the first thing that is decoded of a response that has one. -/
theorem sleepTimeString_of_hasSleep {document : Value} {sleep : Str} (h : HasSleep document sleep) :
    sleepTimeString document = .ok (cstr sleep) := by
  obtain ⟨config, polling, hconfig, hpolling, htext⟩ := h
  exact sleepTimeString_eq_ok_iff.mpr (Or.inr ⟨config, hconfig, Or.inr ⟨polling, hpolling,
    Or.inr ⟨sleep, htext, rfl⟩⟩⟩)

section Responses

variable {parse : Str → Option Value} {body sleep : Str} {document : Value}
  (hparse : parse (cstr body) = some document) (hsleep : HasSleep document sleep)

include hparse hsleep

/-- The polling time of decoded polling data comes from the text in the response. -/
theorem decodeSleepTime_of_fromString {polingData : PollingData}
    (h : PollingData.fromString parse body = .ok polingData) :
    decodeSleepTime (cstr sleep) = .ok polingData.sleepTime := by
  have hdocument : parseDocument parse body = .ok document := by
    rw [parseDocument, hparse]
  simp only [PollingData.fromString, hdocument, sleepTimeString_of_hasSleep hsleep,
    Decoder.bind_eq_ok_iff, Except.ok.injEq, exists_eq_left', Bool.exists_bool, Bool.false_eq_true,
    if_false, if_true, Decoder.pure_eq_ok_iff] at h
  obtain ⟨sleepTime, hdecode, h⟩ := h
  obtain ⟨-, rfl⟩ | ⟨-, links, -, action, -, rfl⟩ := h
  · exact hdecode
  · exact hdecode

/-- A response whose text is refused is refused. -/
theorem fromString_of_refused {fault : Fault Exn} (h : decodeSleepTime (cstr sleep) = .error fault) :
    PollingData.fromString parse body = .error fault := by
  have hdocument : parseDocument parse body = .ok document := by
    rw [parseDocument, hparse]
  rw [PollingData.fromString, hdocument]
  change (sleepTimeString document >>= _) = _
  rw [sleepTimeString_of_hasSleep hsleep]
  change (decodeSleepTime (cstr sleep) >>= _) = _
  rw [h]
  rfl

end Responses

/-- A response with nothing but a polling time. -/
def sleepDocument (sleep : Str) : Value :=
  .object [("config".toList, .object [("polling".toList, .object [("sleep".toList, .string sleep)])])]

/-- The document has the text as its sleep time. -/
theorem hasSleep_sleepDocument (sleep : Str) : HasSleep (sleepDocument sleep) sleep :=
  ⟨_, _, rfl, rfl, rfl⟩

/-- Its polling time is all that is decoded. -/
theorem fromString_sleepDocument {sleep : Str} {sleepTime : ℤ}
    (h : decodeSleepTime (cstr sleep) = .ok sleepTime) (body : Str) :
    PollingData.fromString (fun _ => some (sleepDocument sleep)) body =
      .ok { sleepTime, action := .none, followURI := {} } := by
  change (do
    let sleepTime ← decodeSleepTime (cstr sleep)
    pure ({ sleepTime, action := .none, followURI := {} } : PollingData)) = _
  rw [h]
  rfl

/-- A text is understood whatever the response exactly when its parts are unambiguous. -/
theorem sleepUnderstood_iff {sleep : Str} (hne : sleep ≠ []) :
    SleepUnderstood sleep ↔ cstr sleep ≠ [] ∧
      ∀ t : SleepParts, t.text = cstr sleep → Unambiguous sleep t := by
  constructor
  · intro h
    have hduration : ∀ sleepTime, decodeSleepTime (cstr sleep) = .ok sleepTime →
        ∃ t : SleepParts, t.text = sleep ∧ nul ∉ sleep ∧ t.IsPlain ∧ t.milliseconds ≤ intMax := by
      intro sleepTime hdecode
      have hok := fromString_sleepDocument hdecode []
      obtain hrefused | ⟨_, ⟨t, htext, hplain, -, hfit⟩, -⟩ :=
        h (fun _ => some (sleepDocument sleep)) [] _ rfl (hasSleep_sleepDocument sleep)
      · cases hrefused.symm.trans hok
      · exact ⟨t, htext, htext ▸ t.nul_notMem_text hplain, hplain, (hfit _ List.mem_cons_self).2⟩
    constructor
    · intro hempty
      obtain ⟨t, -, hnul, -⟩ := hduration (-1) (by rw [hempty]; rfl)
      exact hne ((cstr_of_notMem hnul).symm.trans hempty)
    · intro t htext
      have hnonempty : cstr sleep ≠ [] := by
        rw [← htext]
        simp [SleepParts.text]
      have hscan : scanSleep (cstr sleep) = some _ :=
        scanSleep_eq_some_iff.mpr ⟨t, htext, rfl, rfl, rfl⟩
      obtain ⟨t', htext', hnul, hplain, hfits⟩ := hduration _
        (by rw [decodeSleepTime, if_neg hnonempty, hscan]; rfl)
      rw [cstr_of_notMem hnul, ← htext'] at htext
      rw [SleepParts.text_injective htext]
      exact ⟨hnul, hplain, hfits⟩
  · intro h parse body document hparse hsleep
    cases hscan : scanSleep (cstr sleep) with
    | none =>
      have hdecode : decodeSleepTime (cstr sleep) = Decoder.raise .unexpectedPayload := by
        rw [decodeSleepTime, if_neg h.1, hscan]
      exact Or.inl (fromString_of_refused hparse hsleep hdecode)
    | some time =>
      obtain ⟨hh, mm, ss⟩ := time
      obtain ⟨t, htext, rfl, rfl, rfl⟩ := scanSleep_eq_some_iff.mp hscan
      obtain ⟨hwhole, hplain, hfits⟩ := h.2 t htext
      refine Or.inr ⟨t.milliseconds,
        ⟨t, htext.trans (cstr_of_notMem hwhole), hplain, rfl, t.values_fit hplain hfits⟩,
        fun polingData hok => ?_⟩
      have hdecode := decodeSleepTime_of_fromString hparse hsleep hok
      rw [decodeSleepTime, if_neg h.1, hscan] at hdecode
      exact (Except.ok.inj hdecode).symm.trans (t.sleepMilliseconds_eq hplain hfits)

/-- Half a minute is understood. -/
theorem sleepUnderstood_half_minute : SleepUnderstood "00:00:30".toList := by
  let zero : Numeral := .ofDigits "00".toList (by decide) (List.all_eq_true.mp (by decide))
  let thirty : Numeral := .ofDigits "30".toList (by decide) (List.all_eq_true.mp (by decide))
  let t : SleepParts := ⟨zero, zero, thirty, [], stops_nil⟩
  refine (sleepUnderstood_iff (by decide)).mpr ⟨by decide, fun t' ht' => ?_⟩
  obtain rfl : t' = t := SleepParts.text_injective (ht'.trans (by decide))
  exact ⟨by decide, ⟨⟨rfl, rfl⟩, ⟨rfl, rfl⟩, ⟨rfl, rfl⟩, rfl⟩, by decide⟩

/-- Six hundred hours are more milliseconds than an `int` holds, and are read as a negative time. -/
theorem six_hundred_hours_not_understood : ¬SleepUnderstood "600:00:00".toList := by
  intro h
  have hread : decodeSleepTime (cstr "600:00:00".toList) = .ok (-2134967296) := by decide +kernel
  have hok := fromString_sleepDocument hread []
  obtain hrefused | ⟨_, ⟨t, -, hplain, rfl, -⟩, hall⟩ :=
    h (fun _ => some (sleepDocument _)) [] _ rfl (hasSleep_sleepDocument _)
  · cases hrefused.symm.trans hok
  · have hnonneg := t.milliseconds_nonneg hplain
    have htime : -2134967296 = t.milliseconds := hall _ hok
    omega

end Up2date.Ddi
