import Up2date.Ddi.Fetching

/-!
# A download to a file

`downloadTo` opens its file before the first attempt and looks at the stream only while it
writes, and then only at `badbit`. A write that fails ends the download in an exception; a file
that could not be opened takes every chunk without storing it, and what is lost when the file is
closed goes unnoticed. A download that returns has stored the body of its last response exactly
when neither happened.
-/

namespace Up2date.Ddi

open Cxx Uri Httpclient

/-- The reply to the last request of a trace. -/
def lastReply (trace : List Event) : Option Wire := (trace.filterMap Event.reply?).getLast?

/-- A download that returns leaves the body of the last response in the file, which has the
status 200. -/
def FileDelivered (env : Environment) (uri : URI) (path : Str) (w : World) : Prop :=
  ending (downloadTo env uri path w) = .ok () →
    ∃ chunks, lastReply (finalState (downloadTo env uri path w)).trace =
        some (.answered HTTP_OK chunks none) ∧
      (finalState (downloadTo env uri path w)).files path = some chunks.flatten

/-- The state in which the request of a download begins. -/
def opened (env : Environment) (path : Str) (w : World) : World :=
  if env.fileOpens w.trace path = true then
    { w with file := { path }, files := Function.update w.files path (some []) }
  else { w with file := { path, failbit := true } }

/-- All chunks are written to a stream. -/
def WritesSucceed (env : Environment) (trace : List Event) : FileStream → List Str → Prop
  | _, [] => True
  | file, chunk :: rest => env.fileWrites trace file chunk = true ∧
    WritesSucceed env trace { file with writes := file.writes ++ [chunk] } rest

/-- The trace of a download that closes its file after an attempt returned. -/
def closingTrace (env : Environment) (a : Attempt) (uri : URI) (s : World) : List Event :=
  (meeting env a uri s).trace ++ [.ended .download a (.ok ()), .concluded .download (.ok ())]

/-- Closing a file stores everything that was written to it. -/
def FlushesAll (env : Environment) (trace : List Event) (file : FileStream) : Prop :=
  ∀ n, env.fileFlushes trace file = some n → file.writes.flatten.length ≤ n

/-- The file keeps the body of a whole response: it is open, and closing it stores what was
written, or it is not open and has held the body before. -/
def FileKept (env : Environment) (uri : URI) (path : Str) (w : World) : Prop :=
  ∀ a s chunks, AttemptedIn env uri (opened env path w) a s →
    met env uri s = .answered HTTP_OK chunks none →
      if env.fileOpens w.trace path = true then
        WritesSucceed env (meeting env a uri s).trace { path } chunks →
          FlushesAll env (closingTrace env a uri s) { path, writes := chunks }
      else w.files path = some chunks.flatten

/-! ### Writing -/

/-- The consumer of `downloadTo`. -/
def streamFile (env : Environment) : Consumer := fun wire =>
  wire.stream Exn.std acceptOk (writeFile env)

/-- `downloadTo` is a request between the opening and the closing of a file. -/
theorem downloadTo_eq (env : Environment) (uri : URI) (path : Str) :
    downloadTo env uri path = (do
      openFile env path
      Effect.noting (do
        let _ ← retryHandler env .download uri (fetch env uri (streamFile env)))
        fun _ w => closeFile env w) := rfl

/-- The state after chunks were written to the open file. -/
def World.written (w : World) (chunks : List Str) : World :=
  { w with file := { w.file with writes := w.file.writes ++ chunks } }

/-- The opening of a file always returns. -/
theorem openFile_apply (env : Environment) (path : Str) (w : World) :
    openFile env path w = .ok () (opened env path w) := rfl

/-- A file that is not open takes every chunk. -/
theorem deliver_of_failbit {env : Environment} {w : World} (hfail : w.file.failbit = true)
    (hbad : w.file.badbit = false) (chunks : List Str) :
    deliver (writeFile env) chunks w = .ok true w := by
  induction chunks with
  | nil => rfl
  | cons chunk rest ih =>
    have hwrite : writeFile env chunk w = .ok true w := by
      unfold writeFile
      rw [Effect.bind_of_ok (Effect.get_apply w)]
      simp only [hfail, hbad, Bool.true_or, if_true]
      rfl
    unfold deliver
    rw [Effect.bind_of_ok hwrite]
    exact ih

/-- A file that is open takes the chunks as long as they can be written. -/
theorem deliver_of_good {env : Environment} {w : World} (hfail : w.file.failbit = false)
    (hbad : w.file.badbit = false) (chunks : List Str) :
    (WritesSucceed env w.trace w.file chunks ∧
        deliver (writeFile env) chunks w = .ok true (w.written chunks)) ∨
      ¬ WritesSucceed env w.trace w.file chunks ∧
        ending (deliver (writeFile env) chunks w) = .ok false := by
  induction chunks generalizing w with
  | nil => exact Or.inl ⟨trivial, by simp [deliver, World.written]⟩
  | cons chunk rest ih =>
    have hwrite : writeFile env chunk w = .ok (env.fileWrites w.trace w.file chunk)
        { w with file := { w.file with
            writes := w.file.writes ++ [chunk], badbit := !env.fileWrites w.trace w.file chunk } } := by
      unfold writeFile
      rw [Effect.bind_of_ok (Effect.get_apply w)]
      simp only [hfail, hbad, Bool.or_self, Bool.false_eq_true, if_false]
      rw [Effect.bind_of_ok (Effect.modify_apply _ w)]
      simp only [Bool.not_not]
      rfl
    unfold deliver
    rw [Effect.bind_of_ok hwrite]
    cases hsucceeds : env.fileWrites w.trace w.file chunk with
    | false => exact Or.inr ⟨fun h => absurd h.1 (by simp [hsucceeds]), rfl⟩
    | true =>
      have hnext := ih (w := w.written [chunk]) hfail hbad
      have hrest : WritesSucceed env w.trace w.file (chunk :: rest) ↔
          WritesSucceed env w.trace (w.written [chunk]).file rest := and_iff_right hsucceeds
      have hall : (w.written [chunk]).written rest = w.written (chunk :: rest) := by
        simp only [World.written, List.append_assoc, List.singleton_append]
      rw [hrest, ← hall]
      simpa only [World.written, hbad, if_true, Bool.not_true] using hnext

/-- The stream takes all chunks without setting `badbit`. -/
def Taken (env : Environment) (w : World) (chunks : List Str) : Prop :=
  w.file.failbit = true ∨ WritesSucceed env w.trace w.file chunks

/-- The state after the stream took chunks. -/
def World.taken (w : World) (chunks : List Str) : World :=
  if w.file.failbit = true then w else w.written chunks

/-- What the receiver of `downloadTo` makes of a body. -/
theorem deliver_writeFile (env : Environment) {w : World} (hbad : w.file.badbit = false)
    (chunks : List Str) :
    (Taken env w chunks ∧ deliver (writeFile env) chunks w = .ok true (w.taken chunks)) ∨
      ¬ Taken env w chunks ∧ ending (deliver (writeFile env) chunks w) = .ok false := by
  cases hfail : w.file.failbit with
  | true =>
    refine Or.inl ⟨Or.inl hfail, ?_⟩
    rw [World.taken, if_pos hfail]
    exact deliver_of_failbit hfail hbad chunks
  | false =>
    have htaken : Taken env w chunks ↔ WritesSucceed env w.trace w.file chunks := by
      simp [Taken, hfail]
    rw [htaken, World.taken, if_neg (by simp [hfail])]
    exact deliver_of_good hfail hbad chunks

/-- What `downloadTo` makes of a reply: it returns for a whole response whose chunks are all
taken, and goes on for the status 401. -/
inductive FileStreamed (env : Environment) (wire : Wire) (w : World) :
    EStateM.Result (Fault Exn) World Httpclient.Result → Prop
  | returned {chunks} : wire = .answered HTTP_OK chunks none → Taken env w chunks →
      FileStreamed env wire w (.ok (.response ⟨HTTP_OK, []⟩) (w.taken chunks))
  | rejected : StatusUnauthorized wire →
      FileStreamed env wire w (.error (.thrown .unauthorizedException) w)
  | failed {r e} : checked (ending r) = .error (.thrown e) → e ≠ .unauthorizedException →
      (∀ chunks, wire = .answered HTTP_OK chunks none → ¬ Taken env w chunks) →
      FileStreamed env wire w r

/-- A reply is streamed to the file. -/
theorem streamFile_spec (env : Environment) {w : World} (hbad : w.file.badbit = false) (wire : Wire) :
    FileStreamed env wire w (streamFile env wire w) := by
  cases wire with
  | threw e => exact .failed (e := .std e) rfl nofun nofun
  | failed e => exact .failed (e := .httpLibError e.val.toInt) rfl nofun nofun
  | answered status chunks cut =>
    by_cases hstatus : status = HTTP_OK
    · subst hstatus
      have hstream := stream_ok_apply (writeFile env) chunks cut w
      rw [streamFile, hstream]
      obtain ⟨htaken, hdeliver⟩ | ⟨htaken, hdeliver⟩ := deliver_writeFile env hbad chunks
      · rw [hdeliver]
        cases cut with
        | none => exact .returned rfl htaken
        | some e => exact .failed (e := .httpLibError e.val.toInt) rfl nofun nofun
      · obtain ⟨t, ht⟩ := eq_ok_of_ending hdeliver
        rw [ht]
        refine .failed (e := .httpLibError Httpclient.Error.canceled.toInt) rfl nofun ?_
        intro chunks' hwire
        obtain rfl : chunks = chunks' := by cases hwire; rfl
        exact htaken
    · obtain ⟨e, he, hcases⟩ := acceptOk_error hstatus
      rw [streamFile, stream_of_error he]
      obtain ⟨rfl, h401⟩ | ⟨rfl, -⟩ := hcases
      · exact .rejected ⟨chunks, cut, by rw [h401]⟩
      · refine .failed rfl nofun ?_
        intro chunks' hwire
        cases hwire
        exact absurd rfl hstatus

/-- A download returns for a whole response whose chunks are all taken. -/
theorem FileStreamed.of_ok {env : Environment} {wire : Wire} {w : World}
    {r : EStateM.Result (Fault Exn) World Httpclient.Result} {resp : Httpclient.Response}
    (h : FileStreamed env wire w r) (hok : checked (ending r) = .ok resp) :
    ∃ chunks, wire = .answered HTTP_OK chunks none ∧ Taken env w chunks := by
  cases h with
  | returned hwire htaken => exact ⟨_, hwire, htaken⟩
  | rejected => cases hok
  | failed herror => rw [herror] at hok; cases hok

/-- Only the status 401 is unauthorized for a download to a file. -/
theorem FileStreamed.of_unauthorized {env : Environment} {wire : Wire} {w : World}
    {r : EStateM.Result (Fault Exn) World Httpclient.Result}
    (h : FileStreamed env wire w r) (hunauthorized : checked (ending r) = unauthorized) :
    StatusUnauthorized wire := by
  cases h with
  | returned => cases hunauthorized
  | rejected hwire => exact hwire
  | failed herror hne =>
    rw [herror] at hunauthorized
    exact absurd (Fault.thrown.inj (Except.error.inj hunauthorized)) hne

/-! ### The attempts of a download to a file -/

section Files

variable {env : Environment} {uri : URI} {w s : World} {a : Attempt} {chunks : List Str}

/-- An exception of the backend passes the streaming to a file. -/
theorem passesThrown_streamFile (env : Environment) : PassesThrown (streamFile env) :=
  fun _ _ => rfl

/-- An attempt starts with the data that the download started with. -/
theorem attemptedIn_data (h : AttemptedIn env uri w a s) : s.data = w.data := by
  cases h with
  | first => rfl
  | @second onAuthError _ _ _ hcall =>
    have hdata := restoreRules_data.handlerRules.callOnAuthError (some .download) onAuthError
      ((meeting env .first uri (w.log (.issued .download))).log (.ended .download .first unauthorized))
    rw [hcall] at hdata
    exact hdata.trans (meeting_data env .first uri _)

/-- A request does not change the file. -/
theorem meeting_file (h : AttemptedIn env uri w a s) : (meeting env a uri s).file = w.file :=
  congrArg (fun data => data.2.1) ((meeting_data env a uri s).trans (attemptedIn_data h))

/-- The status 401 is not looked into. -/
theorem consumed_of_statusUnauthorized (h : StatusUnauthorized (met env uri s)) :
    consumed env a uri (streamFile env) s = unauthorized ∧
      consumedState env a uri (streamFile env) s =
        (meeting env a uri s).log (.ended .download a unauthorized) := by
  obtain ⟨chunks, cut, hmet⟩ := h
  have hstream : streamFile env (met env uri s) (meeting env a uri s) =
      .error (.thrown .unauthorizedException) (meeting env a uri s) := by
    rw [hmet]
    exact stream_of_error rfl _ _ _ _
  rw [consumedState, consumed, hstream]
  exact ⟨rfl, rfl⟩

/-- An attempt that gets a whole response returns when the stream takes it. -/
theorem consumed_of_taken (hmet : met env uri s = .answered HTTP_OK chunks none)
    (hbad : (meeting env a uri s).file.badbit = false)
    (htaken : Taken env (meeting env a uri s) chunks) :
    consumed env a uri (streamFile env) s = .ok ⟨HTTP_OK, []⟩ ∧
      consumedState env a uri (streamFile env) s =
        ((meeting env a uri s).taken chunks).log (.ended .download a (.ok ())) := by
  have hstream : streamFile env (met env uri s) (meeting env a uri s) =
      .ok (.response ⟨HTTP_OK, []⟩) ((meeting env a uri s).taken chunks) := by
    obtain ⟨-, hdeliver⟩ | ⟨hnot, -⟩ := deliver_writeFile env hbad chunks
    · rw [hmet, streamFile, stream_ok_apply, hdeliver]
    · exact absurd htaken hnot
  rw [consumedState, consumed, hstream]
  exact ⟨rfl, rfl⟩

/-- The state after a download whose last attempt returned. -/
def returnedState (env : Environment) (a : Attempt) (uri : URI) (s : World) (chunks : List Str) :
    World :=
  (((meeting env a uri s).taken chunks).log (.ended .download a (.ok ()))).log
    (.concluded .download (.ok ()))

/-- A download returns once an attempt gets a whole response that the stream takes. -/
theorem fetch_of_taken (h : AttemptedIn env uri w a s) (hbad : w.file.badbit = false)
    (hmet : met env uri s = .answered HTTP_OK chunks none)
    (htaken : Taken env (meeting env a uri s) chunks) :
    retryHandler env .download uri (fetch env uri (streamFile env)) w =
      .ok ⟨HTTP_OK, []⟩ (returnedState env a uri s chunks) := by
  have hpasses := passesThrown_streamFile env
  obtain ⟨hconsumed, hstate⟩ := consumed_of_taken hmet (meeting_file h ▸ hbad) htaken
  have hrun : ending (retryHandler env .download uri (fetch env uri (streamFile env)) w) =
        consumed env a uri (streamFile env) s ∧
      finalState (retryHandler env .download uri (fetch env uri (streamFile env)) w) =
        (consumedState env a uri (streamFile env) s).log
          (.concluded .download (outcome (consumed env a uri (streamFile env) s))) := by
    cases h with
    | first => exact fetch_once hpasses fun _ => by rw [hconsumed]; nofun
    | second hunauthorized henv hcall =>
      obtain ⟨hfirst, hfirstState⟩ :=
        consumed_of_statusUnauthorized (a := .first) hunauthorized
      exact fetch_twice hpasses henv hfirst (hfirstState ▸ hcall)
  rw [hconsumed, hstate] at hrun
  obtain ⟨t, ht⟩ := eq_ok_of_ending hrun.1
  rw [ht] at hrun ⊢
  exact congrArg _ hrun.2

/-- A download returns in no other way. -/
theorem taken_of_fetch {resp : Httpclient.Response} (hbad : w.file.badbit = false)
    (h : ending (retryHandler env .download uri (fetch env uri (streamFile env)) w) = .ok resp) :
    ∃ a s chunks, AttemptedIn env uri w a s ∧ met env uri s = .answered HTTP_OK chunks none ∧
      Taken env (meeting env a uri s) chunks := by
  have hpasses := passesThrown_streamFile env
  have hspec (a : Attempt) (s : World) (hs : AttemptedIn env uri w a s) :=
    streamFile_spec env (meeting_file hs ▸ hbad) (met env uri s)
  cases fetchRun env uri (streamFile env) w with
  | once honce =>
    rw [(fetch_once hpasses honce).1] at h
    obtain ⟨chunks, hmet, htaken⟩ := (hspec .first _ .first).of_ok h
    exact ⟨.first, _, chunks, .first, hmet, htaken⟩
  | abandoned henv hfirst hcall =>
    rw [(fetch_abandoned hpasses henv hfirst hcall).1] at h
    cases h
  | @twice onAuthError w₂ henv hfirst hcall =>
    have hunauthorized := (hspec .first _ .first).of_unauthorized hfirst
    rw [(fetch_twice hpasses henv hfirst hcall).1] at h
    rw [(consumed_of_statusUnauthorized (a := .first) hunauthorized).2] at hcall
    have hsecond : AttemptedIn env uri w .second w₂ := .second hunauthorized henv hcall
    obtain ⟨chunks, hmet, htaken⟩ := (hspec .second w₂ hsecond).of_ok h
    exact ⟨.second, w₂, chunks, hsecond, hmet, htaken⟩

/-- The trace that a returned download ends with. -/
theorem returnedState_trace (env : Environment) (a : Attempt) (uri : URI) (s : World)
    (chunks : List Str) : (returnedState env a uri s chunks).trace = closingTrace env a uri s := by
  have htaken (w : World) : (w.taken chunks).trace = w.trace := by
    unfold World.taken
    split <;> rfl
  change ((meeting env a uri s).taken chunks).trace ++ [_] ++ [_] = _
  rw [htaken, List.append_assoc]
  rfl

/-- Its last reply is the one that was returned. -/
theorem lastReply_closingTrace (hmet : met env uri s = .answered HTTP_OK chunks none) :
    lastReply (closingTrace env a uri s) = some (.answered HTTP_OK chunks none) := by
  have hsignals (signals : List Signal) :
      (signals.map Event.signal).filterMap Event.reply? = [] := by
    simp [Event.reply?]
  obtain ⟨e, hthrew, -⟩ | ⟨signals, hsent⟩ := meeting_trace env a uri s
  · rw [hmet] at hthrew
    cases hthrew
  · rw [hmet] at hsent
    simp only [lastReply, closingTrace, hsent, List.filterMap_append, List.filterMap_cons,
      Event.reply?, hsignals, List.append_assoc, List.filterMap_nil, List.append_nil]
    exact List.getLast?_concat

end Files

/-! ### The file -/

section File

variable {env : Environment} {uri : URI} {path : Str} {w s : World} {a : Attempt} {chunks : List Str}

/-- A file that was just opened has no badbit. -/
theorem opened_badbit (env : Environment) (path : Str) (w : World) :
    (opened env path w).file.badbit = false := by
  unfold opened
  split <;> rfl

/-- The failbit tells whether the file could be opened. -/
theorem opened_file (env : Environment) (path : Str) (w : World) :
    (opened env path w).file = { path, failbit := !env.fileOpens w.trace path } := by
  unfold opened
  cases env.fileOpens w.trace path <;> rfl

/-- The stream takes everything unless it is open and a write fails. -/
theorem taken_iff (h : AttemptedIn env uri (opened env path w) a s) :
    Taken env (meeting env a uri s) chunks ↔
      (env.fileOpens w.trace path = true →
        WritesSucceed env (meeting env a uri s).trace { path } chunks) := by
  rw [Taken, (meeting_file h).trans (opened_file env path w)]
  cases env.fileOpens w.trace path <;> simp

/-- A download that gets a whole response which the stream takes closes its file and returns. -/
theorem downloadTo_of_taken (h : AttemptedIn env uri (opened env path w) a s)
    (hmet : met env uri s = .answered HTTP_OK chunks none)
    (htaken : Taken env (meeting env a uri s) chunks) :
    downloadTo env uri path w = .ok () (closeFile env (returnedState env a uri s chunks)) := by
  have hrun := fetch_of_taken h (opened_badbit env path w) hmet htaken
  have hbody : (do
      let _ ← retryHandler env .download uri (fetch env uri (streamFile env)) : Program Unit)
      (opened env path w) = .ok () (returnedState env a uri s chunks) := Effect.bind_of_ok hrun
  rw [downloadTo_eq, Effect.bind_of_ok (openFile_apply env path w), Effect.noting_of_ok hbody]

/-- A download that returned has met a whole response whose chunks were all taken. -/
theorem taken_of_downloadTo (h : ending (downloadTo env uri path w) = .ok ()) :
    ∃ a s chunks, AttemptedIn env uri (opened env path w) a s ∧
      met env uri s = .answered HTTP_OK chunks none ∧ Taken env (meeting env a uri s) chunks := by
  rw [downloadTo_eq, Effect.bind_of_ok (openFile_apply env path w), (Effect.noting_spec _ _ _).1] at h
  cases hrun : retryHandler env .download uri (fetch env uri (streamFile env)) (opened env path w) with
  | error f t =>
    rw [Effect.bind_of_error hrun] at h
    cases h
  | ok resp t => exact taken_of_fetch (opened_badbit env path w) (by rw [hrun]; rfl)

/-- The closing of a file is not recorded. -/
theorem closeFile_trace (env : Environment) (w : World) : (closeFile env w).trace = w.trace := by
  unfold closeFile
  split <;> rfl

/-- A file that was not opened is left as it was. -/
theorem files_of_not_opened (h : AttemptedIn env uri (opened env path w) a s)
    (hopens : env.fileOpens w.trace path = false) :
    (closeFile env (returnedState env a uri s chunks)).files path = w.files path := by
  have hopened : (opened env path w).files = w.files := by
    rw [opened, if_neg (by simp [hopens])]
  have hfile : (meeting env a uri s).file.failbit = true := by
    rw [meeting_file h, opened_file, hopens]
    rfl
  have hfiles : (meeting env a uri s).files = w.files :=
    (congrArg (fun data => data.2.2)
      ((meeting_data env a uri s).trans (attemptedIn_data h))).trans hopened
  have htaken : (meeting env a uri s).taken chunks = meeting env a uri s := if_pos hfile
  have hfailbit : (returnedState env a uri s chunks).file.failbit = true := by
    rw [returnedState, htaken]
    exact hfile
  rw [closeFile, if_pos hfailbit, returnedState, htaken]
  exact congrFun hfiles path

/-- A file that was opened holds the body when closing it stores everything. -/
theorem files_of_opened (h : AttemptedIn env uri (opened env path w) a s)
    (hopens : env.fileOpens w.trace path = true) :
    (closeFile env (returnedState env a uri s chunks)).files path = some chunks.flatten ↔
      FlushesAll env (closingTrace env a uri s) { path, writes := chunks } := by
  have hfile : (meeting env a uri s).file = { path } := by
    rw [meeting_file h, opened_file, hopens]
    rfl
  have htaken : (meeting env a uri s).taken chunks = (meeting env a uri s).written chunks :=
    if_neg (by simp [hfile])
  have hstream : (returnedState env a uri s chunks).file = { path, writes := chunks } := by
    rw [returnedState, htaken]
    change ((meeting env a uri s).written chunks).file = _
    simp only [World.written, hfile, List.nil_append]
  rw [closeFile, if_neg (by simp [hstream]), hstream, returnedState_trace, FlushesAll]
  cases env.fileFlushes (closingTrace env a uri s) { path, writes := chunks } with
  | none => simp
  | some n => simp [List.take_eq_self_iff]

end File

/-- A download that returns leaves the body in the file exactly when the file keeps it. -/
theorem fileDelivered_iff (env : Environment) (uri : URI) (path : Str) (w : World) :
    FileDelivered env uri path w ↔ FileKept env uri path w := by
  constructor
  · intro hdelivered a s chunks hattempt hmet
    have hfiles (htaken : Taken env (meeting env a uri s) chunks) :
        (closeFile env (returnedState env a uri s chunks)).files path = some chunks.flatten := by
      have hrun := downloadTo_of_taken hattempt hmet htaken
      rw [FileDelivered, hrun] at hdelivered
      obtain ⟨chunks', hlast, hstored⟩ := hdelivered rfl
      rw [finalState_ok, closeFile_trace, returnedState_trace, lastReply_closingTrace hmet] at hlast
      obtain rfl : chunks = chunks' := by cases hlast; rfl
      exact hstored
    by_cases hopens : env.fileOpens w.trace path = true
    · rw [if_pos hopens]
      intro hwrites
      exact (files_of_opened hattempt hopens).mp (hfiles ((taken_iff hattempt).mpr fun _ => hwrites))
    · rw [if_neg hopens, ← files_of_not_opened hattempt (Bool.eq_false_of_not_eq_true hopens)]
      exact hfiles ((taken_iff hattempt).mpr fun h => absurd h hopens)
  · intro hkept hok
    obtain ⟨a, s, chunks, hattempt, hmet, htaken⟩ := taken_of_downloadTo hok
    have hkeeps := hkept a s chunks hattempt hmet
    rw [downloadTo_of_taken hattempt hmet htaken]
    refine ⟨chunks, ?_, ?_⟩
    · rw [finalState_ok, closeFile_trace, returnedState_trace, lastReply_closingTrace hmet]
    · by_cases hopens : env.fileOpens w.trace path = true
      · rw [if_pos hopens] at hkeeps
        exact (files_of_opened hattempt hopens).mpr (hkeeps ((taken_iff hattempt).mp htaken hopens))
      · rw [if_neg hopens] at hkeeps
        exact (files_of_not_opened hattempt (Bool.eq_false_of_not_eq_true hopens)).trans hkeeps

/-- A file system on which no file can be opened. -/
def readOnlyEnvironment : Environment := { idleEnvironment with fileOpens := fun _ _ => false }

/-- A download to a file that cannot be opened returns, and there is no file. -/
theorem not_opened_not_delivered :
    ¬ FileDelivered readOnlyEnvironment endpointClient.hawkbitURI "f".toList
      { client := endpointClient } := by
  intro hdelivered
  obtain ⟨chunks, -, hfile⟩ := hdelivered rfl
  cases hfile

end Up2date.Ddi
