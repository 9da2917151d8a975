import Up2date.Cxx.Contracts
import Up2date.Modules.WinMtls

/-!
# The steps of a request with a key pair

Apart from the deletion and the addition of certificates, the steps only record events and
assign variables. A property that these two do not affect holds behind every such step, and
what a step returns is known from the API.
-/

namespace Up2date.Win

open Cxx Uri Httpclient

/-- The calls that do not change the store. -/
def MtlsCall.Quiet : MtlsCall → Prop
  | .certDeleteCertificateFromStore _ => False
  | .certAddCertificateContextToStore _ => False
  | _ => True

/-- The events of steps that do not change the store. -/
def MtlsEvent.Quiet : MtlsEvent → Prop
  | .succeeded call _ => call.Quiet
  | .failed call => call.Quiet
  | .doHttpRequestCtx _ => False
  | _ => True

variable {σ : Type}

/-- Behind a call that succeeds its event is recorded, and behind one that fails it is too. -/
theorem call_contract {api : MtlsApi σ} {c : MtlsCall} {P : MtlsState σ → Prop}
    {Q : ℕ → MtlsState σ → Prop} {E : Fault ℕ → MtlsState σ → Prop}
    (hok : ∀ s, P s → api.lastError s.log c = none →
      Q s.log.length { s with log := s.log ++ [.succeeded c s.log.length] })
    (herror : ∀ s code, P s → api.lastError s.log c = some code →
      E (.thrown code) { s with log := s.log ++ [.failed c] }) :
    Contract P (api.call c) Q E := by
  intro s hs
  unfold MtlsApi.call
  rw [Effect.bind_of_ok (Effect.get_apply s)]
  cases hlast : api.lastError s.log c with
  | none => exact Contract.of_eq_ok rfl (hok s hs hlast)
  | some code => exact Contract.of_eq_error rfl (herror s code hs hlast)

/-- A property that quiet events and assignments do not affect, and what holds behind the
failure of a quiet call. -/
structure Frame (api : MtlsApi σ) (P : MtlsState σ → Prop) (E : Fault ℕ → MtlsState σ → Prop) :
    Prop where
  record : ∀ s e, e.Quiet → P s → P { s with log := s.log ++ [e] }
  assign : ∀ s x r, P s → P { s with locals := Function.update s.locals x r }
  fails : ∀ s c code, c.Quiet → P s → api.lastError s.log c = some code →
    E (.thrown code) { s with log := s.log ++ [.failed c] }

namespace Frame

variable {api : MtlsApi σ} {P : MtlsState σ → Prop} {E : Fault ℕ → MtlsState σ → Prop}
  (frame : Frame api P E)

include frame

/-- A frame with a weaker condition for faults. -/
theorem mono {E' : Fault ℕ → MtlsState σ → Prop} (h : ∀ f s, E f s → E' f s) : Frame api P E' where
  record := frame.record
  assign := frame.assign
  fails s c code hc hs hlast := h _ _ (frame.fails s c code hc hs hlast)

/-- A quiet event that is logged is within the frame. -/
theorem recordEvent {e : MtlsEvent} (h : e.Quiet := by trivial) :
    Contract P (Win.record e : Mtls σ Unit) (fun _ => P) E :=
  Contract.modify fun s hs => frame.record s e h hs

/-- An assignment is within the frame. -/
theorem assignLocal (x : Local) (r : Option Resource) :
    Contract P (Win.assign x r : Mtls σ Unit) (fun _ => P) E :=
  Contract.modify fun s hs => frame.assign s x r hs

/-- The release of a local variable is within the frame. -/
theorem releaseLocal (x : Local) : Contract P (Win.releaseLocal x : Mtls σ Unit) (fun _ => P) E := by
  refine Contract.get_bind fun s hs => ?_
  cases s.locals x with
  | none => exact Contract.pure fun t ht => ht ▸ hs
  | some r => exact frame.recordEvent.pre fun t ht => ht ▸ hs

/-- A quiet call is within the frame. -/
theorem call {c : MtlsCall} (h : c.Quiet := by trivial) : Contract P (api.call c) (fun _ => P) E :=
  call_contract (fun s hs _ => frame.record s _ h hs) fun s code hs => frame.fails s c code h hs

/-- A resource that is acquired by a quiet call is within the frame. -/
theorem acquireInto (x : Local) {c : MtlsCall} (kind : ℕ → Resource)
    (h : c.Quiet := by trivial) : Contract P (api.acquireInto x c kind) (fun _ => P) E :=
  (frame.call h).bind fun _ => (frame.assignLocal x _).bind fun _ => Contract.pure fun _ hs => hs

/-- An allocation is within the frame. -/
theorem allocInto (x : Local) (size : ℕ) : Contract P (api.allocInto x size) (fun _ => P) E := by
  refine Contract.get_bind fun s hs => Contract.pre ?_ fun t ht => ht ▸ hs
  exact frame.recordEvent.bind fun _ => (frame.assignLocal x _).bind fun _ =>
    Contract.pure fun _ hs => hs

/-- The question for a size is within the frame. -/
theorem querySize (text : Str) : Contract P (api.querySize text) (fun _ => P) E :=
  frame.call.bind fun _ => Contract.pure fun _ hs => hs

/-- The decoding of a text is within the frame. -/
theorem decryptInto (text : Str) (decoding : PemDecoding) :
    Contract P (api.decryptInto text decoding) (fun _ => P) E :=
  (frame.allocInto _ _).bind fun _ => frame.call.bind fun _ => Contract.pure fun _ hs => hs

/-- The creation of a context is within the frame. -/
theorem createContext (x : Local) (encoded : Str) :
    Contract P (api.createContext x encoded) (fun _ => P) E :=
  (frame.acquireInto x _).bind fun _ => Contract.pure fun _ hs => hs

/-- The reading of a certificate is within the frame. -/
theorem readCertificate (crt : Str) : Contract P (api.readCertificate crt) (fun _ => P) E :=
  (frame.querySize crt).bind fun _ => (frame.decryptInto crt _).bind fun _ =>
    (frame.createContext _ _).bind fun _ => Contract.pure fun _ hs => hs

/-- The creation of a key set is within the frame. -/
theorem newKeyset : Contract P api.newKeyset (fun _ => P) E :=
  (frame.acquireInto _ _).bind fun _ => Contract.pure fun _ hs => hs

/-- The deletion of a key set is within the frame. -/
theorem deleteKeyset : Contract P api.deleteKeyset (fun _ => P) E := by
  refine frame.call.bind fun _ => Contract.get_bind fun s hs => Contract.pre ?_
    fun t ht => ht ▸ hs
  exact frame.recordEvent.bind fun _ => frame.assignLocal _ _

/-- The failure to open a key set that does not exist is not an error. -/
theorem acquireKeyset (hE : ∀ code s, E (.thrown code) s → P s) :
    Contract P api.acquireKeyset (fun _ => P) E := by
  have hopen : Contract P (do
      let _ ← api.acquireInto .hProv (.cryptAcquireContextA .none) Resource.provider
      return true) (fun _ => P) E :=
    (frame.acquireInto _ _).bind fun _ => Contract.pure fun _ hs => hs
  refine (hopen.catching (fun code handler hcode => ?_) (fun _ _ _ h => h) fun _ h => h).bind
    fun found => ?_
  · split at hcode
    · obtain rfl := Option.some.inj hcode
      exact Contract.pure fun s hs => hE code s hs
    · cases hcode
  · cases found with
    | true =>
      exact (frame.releaseLocal _).bind fun _ => frame.deleteKeyset.bind fun _ => frame.newKeyset
    | false => exact frame.newKeyset

/-- The import of a key is within the frame. -/
theorem importKey (key : Str) (ctx : CertContextData) :
    Contract P (api.importKey key ctx) (fun _ => P) E := by
  refine (frame.querySize key).bind fun _ => (frame.releaseLocal _).bind fun _ =>
    (frame.decryptInto key _).bind fun _ => frame.call.bind fun _ =>
    (frame.allocInto _ _).bind fun _ => frame.call.bind fun _ =>
    (frame.acquireInto _ _).bind fun _ => frame.call.bind fun _ => ?_
  exact Contract.pure fun _ hs => hs

end Frame

/-! ### The loop over the chain -/

/-- Without a further certificate the chain ends. -/
theorem loadChain_of_none {api : MtlsApi σ} {pos : Str} {pdwSkip : ℕ}
    (hlength : ¬pos.length < pdwSkip + 1)
    (h : strstr beginCertificate (pos.drop (pdwSkip + 1)) = none) :
    api.loadChain pos pdwSkip = pure () := by
  rw [MtlsApi.loadChain, if_neg hlength]
  split
  · rfl
  next next hsome => cases h.symm.trans hsome

/-- A further certificate is loaded, and the chain goes on behind it. -/
theorem loadChain_of_some {api : MtlsApi σ} {pos next : Str} {pdwSkip : ℕ}
    (hlength : ¬pos.length < pdwSkip + 1)
    (h : strstr beginCertificate (pos.drop (pdwSkip + 1)) = some next) :
    api.loadChain pos pdwSkip = api.loadCertificate next >>= fun skip => api.loadChain next skip := by
  rw [MtlsApi.loadChain, if_neg hlength]
  split
  next hnone => cases h.symm.trans hnone
  next next' hsome =>
    obtain rfl := Option.some.inj (h.symm.trans hsome)
    rfl

/-- What every turn of the loop over the chain keeps, the whole loop keeps. -/
theorem loadChain_contract {api : MtlsApi σ} {P : MtlsState σ → Prop}
    {E : Fault ℕ → MtlsState σ → Prop}
    (hturn : ∀ pos, Contract P (api.loadCertificate pos) (fun _ => P) E)
    (hundefined : ∀ s, P s → E .undefined s) (pos : Str) (pdwSkip : ℕ) :
    Contract P (api.loadChain pos pdwSkip) (fun _ => P) E := by
  induction pos, pdwSkip using MtlsApi.loadChain.induct with
  | case1 pos pdwSkip h =>
    rw [MtlsApi.loadChain, if_pos h]
    exact Contract.throw hundefined
  | case2 pos pdwSkip h hnone =>
    rw [loadChain_of_none h hnone]
    exact Contract.pure fun _ hs => hs
  | case3 pos pdwSkip h next hnext ih =>
    rw [loadChain_of_some h hnext]
    exact (hturn next).bind ih

end Up2date.Win
