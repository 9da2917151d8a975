import Up2date.Cxx.Contracts
import Up2date.Cxx.Logs
import Up2date.Modules.WinHttp
import Mathlib.Data.List.Basic
import Mathlib.Tactic.Common

/-!
# Reading a response of the Windows backend

Once the status code is accepted, the body is read in turns: an amount is reported, a buffer of
that amount and one more byte is allocated, and a read is requested into it. The size of the
read is left over from the query of the status code, four bytes, so the buffer is too small for
it when one or two bytes are reported, or so many that the size of the buffer wraps around.
Whatever is read is handed on in order, and nothing is after a failure or a refusal.
-/

namespace Up2date.Win

open Cxx Uri Httpclient Computability

/-- The error of a receiver that does not want more. -/
def ERROR_CANCELLED : ℕ := 1223

/-- The code of a failed call, which is not zero. -/
abbrev FailureCode := { code : ℕ // code ≠ 0 }

/-- What the API does in one turn of the loop: the reported amount, whether there is memory for
a buffer, and the bytes written to the buffer. -/
structure Turn where
  available : Except FailureCode UInt32
  hasMemory : Bool
  read : Except FailureCode Str

/-- The calls of the loop, with what came of them. -/
inductive ReadEvent
  | queryDataAvailable (answer : Except FailureCode UInt32)
  | localAlloc (dwReqSize : UInt32) (allocated : Bool)
  | readData (capacity requested : UInt32) (answer : Except FailureCode Str)
  | contentReceiver (chunk : Str) (more : Bool)

/-- How the function ends, or that its loop goes on. -/
inductive Ending
  | returned (code : ℕ)
  | undefined
  | running
deriving DecidableEq

/-- The calls of a run of the loop, and its end. -/
structure Reading where
  log : List ReadEvent
  ending : Ending

/-- A reading with some events in front of it. -/
def Reading.after (r : Reading) (events : List ReadEvent) : Reading :=
  { r with log := events ++ r.log }

/-- A content receiver, as a function of the chunks given before and of the next one. -/
abbrev ChunkReceiver := List Str → Str → Bool

/-- `stringDataReader`, which collects everything. -/
def stringDataReader : ChunkReceiver := fun _ _ => true

/-- `cbDataReader`, which passes on the answer of a user's receiver. -/
def cbDataReader (receiver : ChunkReceiver) : ChunkReceiver := fun delivered chunk =>
  if receiver delivered chunk then true else false

/-- The value of `dwSize` behind the query of the status code: the size of a `DWORD`. -/
def dwSize : UInt32 := 4

/-- The read loop. The size of the buffer is computed in 32 bits; without memory for a buffer,
or with more bytes written than it holds, the behaviour is undefined. -/
def readLoop (pfContentReceiver : ChunkReceiver) : List Turn → List Str → Reading
  | [], _ => { log := [], ending := .running }
  | turn :: rest, delivered =>
    match turn.available with
    | .error code =>
      { log := [.queryDataAvailable (.error code)], ending := .returned code }
    | .ok dwReqSize =>
      if dwReqSize = 0 then
        { log := [.queryDataAvailable (.ok dwReqSize)], ending := .returned 0 }
      else if turn.hasMemory then
        let capacity := dwReqSize + 1
        let calls := [.queryDataAvailable (.ok dwReqSize), .localAlloc dwReqSize true,
          .readData capacity dwSize turn.read]
        match turn.read with
        | .error code => { log := calls, ending := .returned code }
        | .ok chunk =>
          if capacity.toNat < chunk.length then { log := calls, ending := .undefined }
          else if pfContentReceiver delivered chunk then
            (readLoop pfContentReceiver rest (delivered ++ [chunk])).after
              (calls ++ [.contentReceiver chunk true])
          else
            { log := calls ++ [.contentReceiver chunk false], ending := .returned ERROR_CANCELLED }
      else
        { log := [.queryDataAvailable (.ok dwReqSize), .localAlloc dwReqSize false],
          ending := .undefined }

/-- The callbacks of `struct request_config`. -/
structure ResponseCallbacks where
  pfRetCodeHandler : ℤ → Bool
  pfContentReceiver : ChunkReceiver

/-- What the API makes of a response: its status code, and the turns of the loop. -/
structure WinResponse where
  statusCode : ℤ
  turns : List Turn

/-- `do_http_request_ctx` -/
def doHttpRequestCtx (api : WinApi) (config : RequestConfig) (ctx : Option CertContext)
    (callbacks : ResponseCallbacks) (response : WinResponse) : Reading :=
  match sendHttpRequestCtx api config ctx [] with
  | .error (.thrown code) _ => { log := [], ending := .returned code }
  | .error .undefined _ => { log := [], ending := .undefined }
  | .ok _ _ =>
    if callbacks.pfRetCodeHandler response.statusCode then
      readLoop callbacks.pfContentReceiver response.turns []
    else { log := [], ending := .returned ERROR_CANCELLED }

/-! ### What is asked of a run -/

/-- The chunks given to the receiver. -/
def ReadEvent.chunk : ReadEvent → Option Str
  | .contentReceiver chunk _ => some chunk
  | _ => none

/-- The pieces that the receiver was given. -/
def Reading.delivered (r : Reading) : List Str := r.log.filterMap ReadEvent.chunk

/-- A call failed, or a chunk was refused. -/
def ReadEvent.Failed : ReadEvent → Prop
  | .queryDataAvailable (.error _) => True
  | .readData _ _ (.error _) => True
  | .contentReceiver _ false => True
  | _ => False

/-- A failure is the last call. -/
def FailsLast (log : List ReadEvent) : Prop :=
  ∀ earlier e later, log = earlier ++ e :: later → e.Failed → later = []

/-- Reads fit their buffers, a success has handed on the whole body, and after a failure there
are no more calls, and the code is not zero. -/
structure ReadsWell (body : Str) (r : Reading) : Prop where
  within : ∀ capacity requested answer,
    .readData capacity requested answer ∈ r.log → requested ≤ capacity
  complete : r.ending = .returned 0 → r.delivered.flatten = body
  failsLast : FailsLast r.log
  failsWithCode : ∀ e ∈ r.log, e.Failed → ∃ code, r.ending = .returned code ∧ code ≠ 0

/-- A sequence of turns reads a body: no more than is requested is written at a time, in order,
and an amount of zero is reported at the end of the body only. -/
def Serves : Str → List Turn → Prop
  | _, [] => True
  | body, turn :: rest =>
    (turn.available = .ok 0 → body = []) ∧
      ∀ chunk, turn.read = .ok chunk → chunk.length ≤ dwSize.toNat ∧
        ∃ left, body = chunk ++ left ∧ Serves left rest

/-- An amount whose buffer holds what is requested. -/
def HoldsRequest (amount : UInt32) : Prop := 3 ≤ amount ∧ amount ≠ 4294967295

/-- The buffer for an amount, with its wrap, holds what is requested exactly when the amount is one
of those. -/
theorem dwSize_le_iff (amount : UInt32) : dwSize ≤ amount + 1 ↔ HoldsRequest amount := by
  have hlt : amount.toNat < 4294967296 := amount.toNat_lt
  simp only [HoldsRequest, dwSize, ne_eq, UInt32.le_iff_toNat_le, ← UInt32.toNat_inj,
    UInt32.toNat_add, UInt32.reduceToNat]
  omega

/-! ### The calls of a run -/

/-- The calls of one turn. -/
inductive TurnCalls : List ReadEvent → Prop
  | queryFailed (code : FailureCode) : TurnCalls [.queryDataAvailable (.error code)]
  | bodyEnded : TurnCalls [.queryDataAvailable (.ok 0)]
  | noMemory (amount : UInt32) :
    TurnCalls [.queryDataAvailable (.ok amount), .localAlloc amount false]
  | read (amount : UInt32) (answer : Except FailureCode Str) :
    TurnCalls [.queryDataAvailable (.ok amount), .localAlloc amount true,
      .readData (amount + 1) dwSize answer]
  | received (amount : UInt32) (answer : Except FailureCode Str) (chunk : Str) (more : Bool) :
    TurnCalls [.queryDataAvailable (.ok amount), .localAlloc amount true,
      .readData (amount + 1) dwSize answer, .contentReceiver chunk more]

/-- The logs that are made of turns. -/
def turnLogs : Language ReadEvent := {log | TurnCalls log}

/-- The calls of one turn are a log of turns. -/
theorem turn_mem {log : List ReadEvent} (h : TurnCalls log) : log ∈ turnLogs∗ :=
  (le_kstar : turnLogs ≤ turnLogs∗) h

/-- The log of the loop is made of turns. -/
theorem readLoop_log_mem (receiver : ChunkReceiver) (turns : List Turn) (delivered : List Str) :
    (readLoop receiver turns delivered).log ∈ turnLogs∗ := by
  fun_induction readLoop receiver turns delivered with
  | case1 => exact Language.nil_mem_kstar _
  | case2 _ _ _ code _ => exact turn_mem (.queryFailed code)
  | case3 => exact turn_mem .bodyEnded
  | case4 turn _ _ amount _ _ _ _ _ code _ => exact turn_mem (.read amount turn.read)
  | case5 turn _ _ amount _ _ _ _ _ chunk _ _ => exact turn_mem (.read amount turn.read)
  | case6 turn _ _ amount _ _ _ _ _ chunk _ _ _ ih =>
    exact append_mem_kstar (turn_mem (.received amount turn.read chunk true)) ih
  | case7 turn _ _ amount _ _ _ _ _ chunk _ _ _ =>
    exact turn_mem (.received amount turn.read chunk false)
  | case8 _ _ _ amount _ _ _ => exact turn_mem (.noMemory amount)

/-- A read fits its buffer. -/
def ReadEvent.Fits : ReadEvent → Prop
  | .readData capacity requested _ => requested ≤ capacity
  | _ => True

/-- A buffer is allocated for an amount that suffices. -/
def ReadEvent.Suffices : ReadEvent → Prop
  | .localAlloc amount true => HoldsRequest amount
  | _ => True

/-- In every turn the read fits exactly when the amount suffices. -/
theorem TurnCalls.fits_iff {log : List ReadEvent} (h : TurnCalls log) :
    (∀ e ∈ log, e.Fits) ↔ ∀ e ∈ log, e.Suffices := by
  cases h <;> simp [ReadEvent.Fits, ReadEvent.Suffices, dwSize_le_iff]

/-- In a log of turns every read fits exactly when every amount suffices. -/
theorem fits_iff_suffices {log : List ReadEvent} (h : log ∈ turnLogs∗) :
    (∀ e ∈ log, e.Fits) ↔ ∀ e ∈ log, e.Suffices := by
  refine kstar_induction (P := fun log => (∀ e ∈ log, e.Fits) ↔ ∀ e ∈ log, e.Suffices)
    ⟨fun _ e he => absurd he List.not_mem_nil, fun _ e he => absurd he List.not_mem_nil⟩ ?_ h
  intro turn rest hturn hrest
  rw [List.forall_mem_append, List.forall_mem_append, TurnCalls.fits_iff hturn, hrest]

/-- Every event fits when every read asks for no more than its buffer holds. -/
theorem forall_fits_iff {log : List ReadEvent} :
    (∀ e ∈ log, e.Fits) ↔ ∀ capacity requested answer,
      .readData capacity requested answer ∈ log → requested ≤ capacity := by
  constructor
  · exact fun h capacity requested answer hmem => h _ hmem
  · intro h e he
    cases e with
    | readData capacity requested answer => exact h capacity requested answer he
    | _ => trivial

/-- Every event suffices when every amount with a buffer does. -/
theorem forall_suffices_iff {log : List ReadEvent} :
    (∀ e ∈ log, e.Suffices) ↔ ∀ amount, .localAlloc amount true ∈ log → HoldsRequest amount := by
  constructor
  · exact fun h amount hmem => h _ hmem
  · intro h e he
    cases e with
    | localAlloc amount allocated =>
      cases allocated with
      | true => exact h amount he
      | false => trivial
    | _ => trivial

/-! ### What is handed on -/

/-- Behind calls that do not fail, a failure is the last call if it is the last of the rest. -/
theorem FailsLast.append {first rest : List ReadEvent} (hfirst : ∀ e ∈ first, ¬e.Failed)
    (hrest : FailsLast rest) : FailsLast (first ++ rest) := by
  induction first with
  | nil => exact hrest
  | cons a first ih =>
    obtain ⟨ha, hfirst⟩ := List.forall_mem_cons.mp hfirst
    intro earlier e later hsplit hfailed
    cases earlier with
    | nil =>
      obtain rfl : a = e := (List.cons.inj hsplit).1
      exact absurd hfailed ha
    | cons b earlier => exact ih hfirst earlier e later (List.cons.inj hsplit).2 hfailed

/-- One event alone can only fail last. -/
theorem failsLast_singleton (e : ReadEvent) : FailsLast [e] := by
  intro earlier e' later hsplit _
  cases earlier with
  | nil => exact (List.cons.inj hsplit).2.symm
  | cons b earlier =>
    have hnil := (List.cons.inj hsplit).2
    exact absurd hnil.symm (List.append_ne_nil_of_right_ne_nil _ (List.cons_ne_nil _ _))

section Loop

variable (receiver : ChunkReceiver) (turns : List Turn) (delivered : List Str)

/-- A call of the loop that fails is the last one. -/
theorem readLoop_failsLast : FailsLast (readLoop receiver turns delivered).log := by
  fun_induction readLoop receiver turns delivered with
  | case1 => intro earlier e later hsplit; simp at hsplit
  | case2 => exact failsLast_singleton _
  | case3 => exact failsLast_singleton _
  | case4 turn _ _ amount _ _ _ _ calls code _ =>
    exact @FailsLast.append [_, _] _ (by simp [ReadEvent.Failed]) (failsLast_singleton _)
  | case5 turn _ _ amount _ _ _ _ calls chunk _ _ =>
    exact @FailsLast.append [_, _] _ (by simp [ReadEvent.Failed]) (failsLast_singleton _)
  | case6 turn _ _ amount _ _ _ _ calls chunk hread _ _ ih =>
    exact FailsLast.append (by simp [calls, hread, ReadEvent.Failed]) ih
  | case7 turn _ _ amount _ _ _ _ calls chunk hread _ _ =>
    exact FailsLast.append (by simp [calls, hread, ReadEvent.Failed]) (failsLast_singleton _)
  | case8 =>
    exact @FailsLast.append [_] _ (by simp [ReadEvent.Failed]) (failsLast_singleton _)

/-- Behind a call that fails the loop returns an error code that is not zero. -/
theorem readLoop_failsWithCode : ∀ e ∈ (readLoop receiver turns delivered).log, e.Failed →
    ∃ code, (readLoop receiver turns delivered).ending = .returned code ∧ code ≠ 0 := by
  fun_induction readLoop receiver turns delivered with
  | case1 => exact fun e he => absurd he List.not_mem_nil
  | case2 _ _ _ code _ => exact fun e _ _ => ⟨code, rfl, code.property⟩
  | case3 => simp [ReadEvent.Failed]
  | case4 _ _ _ _ _ _ _ _ _ code _ => exact fun e _ _ => ⟨code, rfl, code.property⟩
  | case5 turn _ _ amount _ _ _ _ calls chunk hread _ => simp [calls, hread, ReadEvent.Failed]
  | case6 turn _ _ amount _ _ _ _ calls chunk hread _ _ ih =>
    intro e he hfailed
    have hcalls : ∀ e ∈ calls ++ [.contentReceiver chunk true], ¬e.Failed := by
      simp [calls, hread, ReadEvent.Failed]
    rcases List.mem_append.mp he with he | he
    · exact absurd hfailed (hcalls e he)
    · exact ih e he hfailed
  | case7 => exact fun e _ _ => ⟨ERROR_CANCELLED, rfl, by decide⟩
  | case8 => simp [ReadEvent.Failed]

/-- A loop that ends without an error has handed on what was read. -/
theorem readLoop_complete : ∀ body, Serves body turns →
    (readLoop receiver turns delivered).ending = .returned 0 →
      (readLoop receiver turns delivered).delivered.flatten = body := by
  fun_induction readLoop receiver turns delivered with
  | case1 =>
    intro body _ h
    cases h
  | case2 _ _ _ code _ =>
    intro body _ h
    exact absurd (Ending.returned.inj h) code.property
  | case3 turn rest _ havailable =>
    intro body hserves _
    rw [hserves.1 havailable]
    rfl
  | case4 _ _ _ _ _ _ _ _ _ code _ =>
    intro body _ h
    exact absurd (Ending.returned.inj h) code.property
  | case5 =>
    intro body _ h
    cases h
  | case6 turn rest _ amount _ _ _ _ calls chunk hread _ _ ih =>
    intro body hserves h
    obtain ⟨-, left, rfl, hleft⟩ := hserves.2 chunk hread
    exact congrArg (chunk ++ ·) (ih left hleft h)
  | case7 =>
    intro body _ h
    cases h
  | case8 =>
    intro body _ h
    cases h

end Loop

/-! ### Whole requests -/

/-- A computation that fails does so with an error code. -/
def FailsWithCode (m : Calling Unit) : Prop :=
  Contract (fun _ => True) m (fun _ _ => True) fun f _ => ∃ code, f = .thrown code ∧ code ≠ 0

/-- Calls one after the other report the error of the one that failed. -/
theorem FailsWithCode.bind {m : Calling Unit} {k : Unit → Calling Unit} (hm : FailsWithCode m)
    (hk : FailsWithCode (k ())) : FailsWithCode (m >>= k) :=
  Contract.bind hm fun _ => hk

/-- The last error is not zero after a failure. -/
def NonzeroErrors (api : WinApi) : Prop :=
  ∀ calls c code, api.lastError calls c = some code → code ≠ 0

section Request

variable {api : WinApi} (hapi : NonzeroErrors api) {config : RequestConfig}
  {ctx : Option CertContext} {callbacks : ResponseCallbacks} {response : WinResponse}

include hapi

/-- A single call reports its error. -/
theorem failsWithCode_call (c : WinCall) : FailsWithCode (api.call c) := by
  intro calls _
  have hset : (set (calls ++ [c]) : Calling PUnit) calls = .ok ⟨⟩ (calls ++ [c]) := rfl
  unfold WinApi.call
  rw [Effect.bind_of_ok (Effect.get_apply calls), Effect.bind_of_ok hset]
  cases h : api.lastError calls c with
  | none => exact Contract.of_eq_ok (Effect.pure_apply () _) trivial
  | some code =>
    exact Contract.of_eq_error (Effect.raise_apply code _) ⟨code, rfl, hapi calls c code h⟩

/-- A call under a condition reports its error. -/
theorem failsWithCode_guarded {k : Unit → Calling Unit} (hk : FailsWithCode (k ())) (b : Bool)
    (c : WinCall) : FailsWithCode (if b = true then api.call c >>= k else k ()) := by
  cases b with
  | true => exact (failsWithCode_call hapi c).bind hk
  | false => exact hk

/-- The calls of a request report the error of the one that failed. -/
theorem failsWithCode_sendHttpRequestCtx : FailsWithCode (sendHttpRequestCtx api config ctx) := by
  have hcall := failsWithCode_call hapi
  have hstatus : FailsWithCode (Effect.catching (api.call .queryStatusCode)
      fun _ => some (Effect.raise ERROR_API_UNAVAILABLE)) := by
    refine Contract.catching (hcall _) (fun e handler he => ?_) (fun e s he => by cases he)
      fun s h => ?_
    · obtain rfl := Option.some.inj he
      exact Contract.throw fun _ _ => ⟨ERROR_API_UNAVAILABLE, rfl, by decide⟩
    · obtain ⟨code, hcode, -⟩ := h
      cases hcode
  have hsent := (hcall (.winHttpSendRequest config.headers config.body)).bind (k := fun _ => _)
    ((hcall .winHttpReceiveResponse).bind (k := fun _ => _) hstatus)
  exact (hcall _).bind <| (hcall _).bind <| (hcall _).bind <|
    failsWithCode_guarded hapi (k := fun _ => _)
      (failsWithCode_guarded hapi (k := fun _ => _) hsent _ _) _ _

/-- A request is a run of the loop, or ends before it with an error code. -/
theorem doHttpRequestCtx_cases :
    doHttpRequestCtx api config ctx callbacks response =
        readLoop callbacks.pfContentReceiver response.turns [] ∨
      ∃ code, doHttpRequestCtx api config ctx callbacks response =
        { log := [], ending := .returned code } ∧ code ≠ 0 := by
  have hfails : FailsWithCode (sendHttpRequestCtx api config ctx) :=
    failsWithCode_sendHttpRequestCtx hapi
  obtain ⟨-, herror⟩ := hfails [] trivial
  unfold doHttpRequestCtx
  cases hsend : sendHttpRequestCtx api config ctx [] with
  | ok a s =>
    by_cases haccepted : callbacks.pfRetCodeHandler response.statusCode = true
    · exact Or.inl (if_pos haccepted)
    · exact Or.inr ⟨ERROR_CANCELLED, if_neg haccepted, by decide⟩
  | error f s =>
    obtain ⟨code, rfl, hcode⟩ := herror f s hsend
    exact Or.inr ⟨code, rfl, hcode⟩

/-- The body of a response is read well exactly when every amount for which a buffer is
allocated is at least three, and not the greatest. -/
theorem readsWell_iff {body : Str} (hserves : Serves body response.turns) :
    ReadsWell body (doHttpRequestCtx api config ctx callbacks response) ↔
      ∀ amount, .localAlloc amount true ∈
        (doHttpRequestCtx api config ctx callbacks response).log → HoldsRequest amount := by
  obtain hloop | ⟨code, hended, hcode⟩ :=
    @doHttpRequestCtx_cases _ hapi config ctx callbacks response
  · rw [hloop, ← forall_suffices_iff, ← fits_iff_suffices (readLoop_log_mem _ _ _), forall_fits_iff]
    exact ⟨ReadsWell.within, fun hwithin => ⟨hwithin, readLoop_complete _ _ _ body hserves,
      readLoop_failsLast _ _ _, readLoop_failsWithCode _ _ _⟩⟩
  · rw [hended]
    refine iff_of_true ⟨fun _ _ _ h => ?_, fun h => ?_, fun earlier e later h => ?_, fun e he => ?_⟩
      fun amount h => ?_
    · cases h
    · exact absurd (Ending.returned.inj h) hcode
    · simp at h
    · cases he
    · cases h

end Request

/-! ### Two responses -/

/-- An API without failures. -/
def readyApi : WinApi where
  lastError _ _ := none
  certContext _ := .ok ⟨0⟩

/-- A receiver that takes every piece. -/
def collecting : ResponseCallbacks where
  pfRetCodeHandler _ := true
  pfContentReceiver := stringDataReader

/-- A request without TLS and without a body. -/
def plainConfig : RequestConfig :=
  { scheme := "http".toList, host := "h".toList, path := "/".toList, method := "GET".toList
    headers := [], body := [], verifyServerCrt := true }

/-- A response that is reported whole, read, and then at its end. -/
def wholeResponse (amount : UInt32) (body : Str) : WinResponse where
  statusCode := 200
  turns := [{ available := .ok amount, hasMemory := true, read := .ok body },
    { available := .ok 0, hasMemory := true, read := .ok [] }]

/-- A body that comes in one piece is served. -/
theorem serves_wholeResponse {amount : UInt32} (hne : amount ≠ 0) {body : Str}
    (hbody : body.length ≤ dwSize.toNat) : Serves body (wholeResponse amount body).turns := by
  refine ⟨fun h => absurd (Except.ok.inj h) hne, fun chunk h => ?_⟩
  obtain rfl := Except.ok.inj h
  refine ⟨hbody, [], (List.append_nil _).symm, fun _ => rfl, fun chunk h => ?_⟩
  obtain rfl := Except.ok.inj h
  exact ⟨Nat.zero_le _, [], rfl, trivial⟩

/-- Four bytes are read well. -/
theorem readsWell_four :
    ReadsWell "body".toList
      (doHttpRequestCtx readyApi plainConfig none collecting (wholeResponse 4 "body".toList)) := by
  refine (readsWell_iff (fun _ _ _ h => by cases h)
    (serves_wholeResponse (by decide) (by decide))).mpr ?_
  have hlog : (doHttpRequestCtx readyApi plainConfig none collecting
      (wholeResponse 4 "body".toList)).log =
    [.queryDataAvailable (.ok 4), .localAlloc 4 true, .readData 5 4 (.ok "body".toList),
      .contentReceiver "body".toList true, .queryDataAvailable (.ok 0)] := rfl
  rw [hlog]
  intro amount h
  have hamount : amount = 4 := by simpa using h
  rw [hamount]
  exact ⟨by decide, by decide⟩

/-- With two bytes left, four are requested into a buffer of three. -/
theorem two_bytes_overrun :
    Serves "ok".toList (wholeResponse 2 "ok".toList).turns ∧ ¬ReadsWell "ok".toList
      (doHttpRequestCtx readyApi plainConfig none collecting (wholeResponse 2 "ok".toList)) := by
  refine ⟨serves_wholeResponse (by decide) (by decide), fun h => ?_⟩
  have hread : .readData 3 4 (.ok "ok".toList) ∈ (doHttpRequestCtx readyApi plainConfig none
      collecting (wholeResponse 2 "ok".toList)).log :=
    List.mem_cons_of_mem _ (List.mem_cons_of_mem _ List.mem_cons_self)
  exact absurd (h.within _ _ _ hread) (by decide)

end Up2date.Win
