import Up2date.Modules.WinChain
import Mathlib.Data.List.Chain

/-!
# The resources of a request with a key pair

The variables that are released at the end contain what the function holds, so that its calls
are balanced. They do not when a call fails right behind a release whose variable keeps its
value: the decryption buffer in the loop over the chain, and the handle of the key set, which
its deletion may set to anything. Then the clean-up releases what is not held.
-/

namespace Up2date.Win

open Cxx Uri Httpclient

variable {σ : Type}

/-! ### What calls acquire and release -/

/-- What an event acquires and releases. The deletion of a certificate releases its context also
when it fails, and an enumeration releases the context it is given. -/
def MtlsEvent.transfers : MtlsEvent → List (Transfer Resource)
  | .succeeded .certOpenStore id => [.acquire (.store id)]
  | .succeeded (.certCreateCertificateContext _) id => [.acquire (.context id)]
  | .succeeded (.cryptAcquireContextA .none) id => [.acquire (.provider id)]
  | .succeeded (.cryptAcquireContextA .newKeyset) id => [.acquire (.provider id)]
  | .succeeded (.cryptImportKey _) id => [.acquire (.key id)]
  | .succeeded (.certDeleteCertificateFromStore c) _ => [.release (.storeContext c)]
  | .succeeded _ _ => []
  | .failed (.certDeleteCertificateFromStore c) => [.release (.storeContext c)]
  | .failed _ => []
  | .certEnumCertificatesInStore prev next =>
    (prev.map fun c => .release (.storeContext c)).toList ++
      (next.map fun c => .acquire (.storeContext c)).toList
  | .certDuplicateCertificateContext c => [.acquire (.storeContext c)]
  | .localAlloc _ id => (id.map fun n => .acquire (.buffer n)).toList
  | .keysetDeleted _ => []
  | .release r => [.release r]
  | .doHttpRequestCtx _ => []

/-- The changes of ownership of a log. -/
def transfersOf (log : List MtlsEvent) : List (Transfer Resource) := log.flatMap MtlsEvent.transfers

/-- Resources whose variables keep their value behind the release. -/
def Resource.Kept : Resource → Prop
  | .buffer _ => True
  | .provider _ => True
  | _ => False

instance : DecidablePred Resource.Kept
  | .buffer _ => isTrue trivial
  | .provider _ => isTrue trivial
  | .storeContext _ => isFalse id
  | .context _ => isFalse id
  | .key _ => isFalse id
  | .store _ => isFalse id

/-- Behind the event a variable may have a value that is not held. -/
def MtlsEvent.Dangles : MtlsEvent → Prop
  | .release r => r.Kept
  | .keysetDeleted hProv => hProv ≠ none
  | _ => False

instance : DecidablePred MtlsEvent.Dangles
  | .release r => inferInstanceAs (Decidable r.Kept)
  | .keysetDeleted hProv => inferInstanceAs (Decidable (hProv ≠ none))
  | .succeeded _ _ => isFalse id
  | .failed _ => isFalse id
  | .certEnumCertificatesInStore _ _ => isFalse id
  | .certDuplicateCertificateContext _ => isFalse id
  | .localAlloc _ _ => isFalse id
  | .doHttpRequestCtx _ => isFalse id

/-- The event is a call that failed. -/
def MtlsEvent.Failed : MtlsEvent → Prop
  | .failed _ => True
  | _ => False

instance : DecidablePred MtlsEvent.Failed
  | .failed _ => isTrue trivial
  | .release _ => isFalse id
  | .keysetDeleted _ => isFalse id
  | .succeeded _ _ => isFalse id
  | .certEnumCertificatesInStore _ _ => isFalse id
  | .certDuplicateCertificateContext _ => isFalse id
  | .localAlloc _ _ => isFalse id
  | .doHttpRequestCtx _ => isFalse id

/-- No call fails right behind a release whose variable keeps its value, or behind a deletion
of the key set that leaves one. -/
def FailsSafely (log : List MtlsEvent) : Prop := log.IsChain fun a b => a.Dangles → ¬b.Failed

instance (log : List MtlsEvent) : Decidable (FailsSafely log) :=
  inferInstanceAs (Decidable (log.IsChain fun a b => a.Dangles → ¬b.Failed))

/-- The last event may leave a value that is not held. -/
def EndsDangling (log : List MtlsEvent) : Prop := ∃ e ∈ log.getLast?, e.Dangles

/-- A log with one more event fails safely when the log does and the event does not fail behind a
value that dangles. -/
theorem failsSafely_concat_iff (log : List MtlsEvent) (e : MtlsEvent) :
    FailsSafely (log ++ [e]) ↔ FailsSafely log ∧ (EndsDangling log → ¬e.Failed) := by
  unfold FailsSafely EndsDangling
  rw [List.isChain_append]
  constructor
  · intro h
    refine ⟨h.1, fun hlast => ?_⟩
    obtain ⟨a, ha, hdangles⟩ := hlast
    exact h.2.2 a ha e rfl hdangles
  · intro h
    refine ⟨h.1, List.isChain_singleton e, fun a ha b hb hdangles => ?_⟩
    obtain rfl : e = b := Option.some.inj hb
    exact h.2 ⟨a, ha, hdangles⟩

/-- The last event decides whether a log ends with a value that dangles. -/
theorem endsDangling_concat_iff (log : List MtlsEvent) (e : MtlsEvent) :
    EndsDangling (log ++ [e]) ↔ e.Dangles := by
  simp [EndsDangling]

/-- One more event adds its own transfers. -/
theorem transfersOf_concat (log : List MtlsEvent) (e : MtlsEvent) :
    transfersOf (log ++ [e]) = transfersOf log ++ e.transfers := by
  simp [transfersOf]

/-! ### The variables -/

/-- Every local variable is released at the end. -/
theorem mem_clearOrder (x : Local) : x ∈ clearOrder := by
  cases x <;> decide

/-- No local variable is released twice. -/
theorem clearOrder_nodup : clearOrder.Nodup := by decide

/-- The variables that keep their value behind a release. -/
def Local.Keeps : Local → Prop
  | .pbDecryptedData => True
  | .pbKeyBlob => True
  | .hProv => True
  | _ => False

/-- Every variable contains resources of its kind. -/
def Typed (locals : Local → Option Resource) : Prop :=
  ∀ x r, locals x = some r → (r.Kept ↔ x.Keeps)

/-- A local variable that gets a resource of its own kind keeps the locals typed. -/
theorem Typed.update {locals : Local → Option Resource} (h : Typed locals) {x : Local}
    {o : Option Resource} (ho : ∀ r, o = some r → (r.Kept ↔ x.Keeps)) :
    Typed (Function.update locals x o) := by
  intro y r hy
  by_cases hne : y = x
  · subst hne
    rw [Function.update_self] at hy
    exact ho r hy
  · rw [Function.update_of_ne hne] at hy
    exact h y r hy

/-- A resource that is put into a local variable is one more in the contents. -/
theorem contents_update (locals : Local → Option Resource) (x : Local) (r : Resource) :
    contents clearOrder (Function.update locals x (some r)) =
      r ::ₘ contents clearOrder (Function.update locals x none) :=
  contents_update_some clearOrder_nodup (mem_clearOrder x) locals r

/-- What a local variable holds stands in the contents. -/
theorem contents_of_eq_some {locals : Local → Option Resource} {x : Local} {r : Resource}
    (h : locals x = some r) :
    contents clearOrder locals = r ::ₘ contents clearOrder (Function.update locals x none) := by
  rw [← contents_update, ← h, Function.update_eq_self]

/-- Variables without a value keep none when another one is assigned. -/
theorem update_empty {locals : Local → Option Resource} {vacant : List Local} {x : Local}
    (hx : x ∉ vacant) (h : ∀ y ∈ vacant, locals y = none) (o : Option Resource) :
    ∀ y ∈ vacant, Function.update locals x o y = none := by
  intro y hy
  have hne : y ≠ x := fun heq => hx (heq ▸ hy)
  rw [Function.update_of_ne hne]
  exact h y hy

/-! ### The account of a state -/

/-- What is held after the events are the contents of the variables, where these may differ
from the ones of the state. -/
structure Account (owned : Local → Option Resource) (s : MtlsState σ) : Prop where
  held : Cxx.held 0 (transfersOf s.log) = some (contents clearOrder owned)
  safe : FailsSafely s.log
  typed : Typed s.locals

/-- The clean-up will balance the calls exactly when they failed safely. -/
def Exact (s : MtlsState σ) : Prop :=
  held 0 (transfersOf s.log) = some (contents clearOrder s.locals) ↔ FailsSafely s.log

/-- Every variable contains what is held, and some contain nothing. -/
structure Settled (vacant : List Local) (s : MtlsState σ) : Prop where
  account : Account s.locals s
  calm : ¬EndsDangling s.log
  empty : ∀ x ∈ vacant, s.locals x = none

/-- The value of a variable is not held. -/
structure Dangling (x : Local) (vacant : List Local) (s : MtlsState σ) : Prop where
  account : Account (Function.update s.locals x none) s
  empty : ∀ y ∈ vacant, s.locals y = none

/-- The value of a variable is not held, and a failure would show that. -/
structure Exposed (x : Local) (vacant : List Local) (s : MtlsState σ) : Prop extends
    Dangling x vacant s where
  exposed : EndsDangling s.log ↔ s.locals x ≠ none

/-- One event keeps the account when its transfers lead from the old contents to the new ones. -/
theorem Account.step {owned owned' locals : Local → Option Resource} {s : MtlsState σ}
    (h : Account owned s) {e : MtlsEvent}
    (he : Cxx.held (contents clearOrder owned) e.transfers = some (contents clearOrder owned'))
    (hsafe : EndsDangling s.log → ¬e.Failed) (hlocals : Typed locals) (store : σ) :
    Account owned' { store, log := s.log ++ [e], locals } where
  held := by rw [transfersOf_concat, held_append_of_eq h.held, he]
  safe := (failsSafely_concat_iff _ _).mpr ⟨h.safe, hsafe⟩
  typed := hlocals

/-- What is settled is exact. -/
theorem Settled.exact {vacant : List Local} {s : MtlsState σ} (h : Settled vacant s) : Exact s :=
  iff_of_true h.account.held h.account.safe

/-- A settled state stays settled when fewer variables have to be vacant. -/
theorem Settled.mono {vacant vacant' : List Local} {s : MtlsState σ} (h : Settled vacant s)
    (hsub : vacant' ⊆ vacant) : Settled vacant' s where
  account := h.account
  calm := h.calm
  empty x hx := h.empty x (hsub hx)

/-- The certificate store does not matter for the account. -/
theorem Settled.withStore {vacant : List Local} {s : MtlsState σ} (h : Settled vacant s)
    (store : σ) : Settled vacant { s with store } where
  account := ⟨h.account.held, h.account.safe, h.account.typed⟩
  calm := h.calm
  empty := h.empty

/-- A variable without a value is exposed. -/
theorem Settled.exposed {x : Local} {vacant : List Local} {s : MtlsState σ}
    (h : Settled (x :: vacant) s) : Exposed x vacant s where
  account := by
    rw [← h.empty x List.mem_cons_self, Function.update_eq_self]
    exact h.account
  empty y hy := h.empty y (List.mem_cons_of_mem x hy)
  exposed := iff_of_false h.calm fun hne => hne (h.empty x List.mem_cons_self)

/-- Behind the failure of a call the state is exact. -/
theorem Exposed.failed {x : Local} {vacant : List Local} {s : MtlsState σ} (h : Exposed x vacant s)
    {c : MtlsCall} (hc : (MtlsEvent.failed c).transfers = []) :
    Exact { s with log := s.log ++ [.failed c] } := by
  have hheld : held 0 (transfersOf (s.log ++ [.failed c])) =
      some (contents clearOrder (Function.update s.locals x none)) := by
    rw [transfersOf_concat, hc, List.append_nil, h.account.held]
  have hsafe : FailsSafely (s.log ++ [.failed c]) ↔ s.locals x = none := by
    rw [failsSafely_concat_iff, h.exposed]
    simp [h.account.safe, MtlsEvent.Failed]
  unfold Exact
  rw [hheld, hsafe, Option.some_inj]
  cases hx : s.locals x with
  | none =>
    rw [← hx, Function.update_eq_self]
    exact iff_of_true rfl rfl
  | some r =>
    rw [contents_of_eq_some hx]
    exact iff_of_false (Multiset.lt_cons_self _ _).ne (fun h => by cases h)

/-! ### Steps -/

/-- Calls that acquire and release nothing. -/
def MtlsCall.Neutral (c : MtlsCall) : Prop :=
  (∀ id, (MtlsEvent.succeeded c id).transfers = []) ∧ (MtlsEvent.failed c).transfers = []

section Steps

variable {api : MtlsApi σ} {vacant : List Local} {x : Local} {r : Resource} {s : MtlsState σ}

/-- An event without transfers changes nothing. -/
theorem Settled.record (h : Settled vacant s) {e : MtlsEvent} (he : e.transfers = [])
    (hcalm : ¬e.Dangles) : Settled vacant { s with log := s.log ++ [e] } where
  account := h.account.step (by rw [he]; rfl) (fun hends => absurd hends h.calm) h.account.typed _
  calm := by rwa [endsDangling_concat_iff]
  empty := h.empty

/-- Behind an acquisition into a variable the variables contain what is held. -/
theorem Dangling.acquire (h : Dangling x vacant s) (hx : x ∉ vacant) {e : MtlsEvent}
    {o : Option Resource} (he : e.transfers = (o.map Transfer.acquire).toList)
    (hquiet : ¬e.Dangles ∧ ¬e.Failed) (ho : ∀ r, o = some r → (r.Kept ↔ x.Keeps)) :
    Settled vacant { s with log := s.log ++ [e], locals := Function.update s.locals x o } where
  account := by
    refine h.account.step ?_ (fun _ => hquiet.2) (h.account.typed.update ho) _
    rw [he]
    cases o with
    | none => rfl
    | some r => rw [contents_update]; rfl
  calm := by
    rw [endsDangling_concat_iff]
    exact hquiet.1
  empty := update_empty hx h.empty o

/-- Behind its release the value of a variable is not held. -/
theorem Settled.release (h : Settled vacant s) (hr : s.locals x = some r) :
    Dangling x vacant { s with log := s.log ++ [.release r] } where
  account := by
    refine h.account.step ?_ (fun hends => absurd hends h.calm) h.account.typed _
    rw [contents_of_eq_some hr]
    exact held_release_cons r _
  empty := h.empty

/-- A variable that is assigned null behind a release is settled. -/
theorem Dangling.emptied (h : Dangling x vacant s) (hcalm : ¬EndsDangling s.log) :
    Settled (x :: vacant) { s with locals := Function.update s.locals x none } where
  account := ⟨h.account.held, h.account.safe, h.account.typed.update fun r hr => by cases hr⟩
  calm := hcalm
  empty y hy := by
    by_cases hne : y = x
    · subst hne
      exact Function.update_self y none s.locals
    · exact (Function.update_of_ne hne _ _).trans
        (h.empty y ((List.mem_cons.mp hy).resolve_left hne))

/-- A call that owns nothing keeps a settled state, also when it fails. -/
theorem call_settled {c : MtlsCall} (hc : c.Neutral) :
    Contract (Settled vacant) (api.call c) (fun _ => Settled vacant) fun _ => Settled vacant :=
  call_contract (fun _ hs _ => hs.record (hc.1 _) id) fun _ _ hs _ => hs.record hc.2 id

/-- A call that owns nothing keeps a variable dangling, and behind its failure the state is exact.
-/
theorem call_exposed {c : MtlsCall} (hc : c.Neutral) :
    Contract (Exposed x vacant) (api.call c) (fun _ => Dangling x vacant) fun _ => Exact :=
  call_contract
    (fun s hs _ => ⟨hs.account.step (by rw [hc.1]; rfl) (fun _ => id) hs.account.typed _, hs.empty⟩)
    fun _ _ hs _ => hs.failed hc.2

/-- A successful call acquires a resource of the kind of the variable, and a failed one does
nothing. -/
structure MtlsCall.Acquires (c : MtlsCall) (x : Local) (kind : ℕ → Resource) : Prop where
  succeeded : ∀ id, (MtlsEvent.succeeded c id).transfers = [.acquire (kind id)]
  failed : (MtlsEvent.failed c).transfers = []
  typed : ∀ id, (kind id).Kept ↔ x.Keeps

/-- A resource that is acquired goes into its local variable. -/
theorem acquireInto_contract {c : MtlsCall} {kind : ℕ → Resource} (hc : c.Acquires x kind)
    (hx : x ∉ vacant) {P : MtlsState σ → Prop} {E : Fault ℕ → MtlsState σ → Prop}
    (hP : ∀ s, P s → Dangling x vacant s)
    (hE : ∀ s code, P s → E (.thrown code) { s with log := s.log ++ [.failed c] }) :
    Contract P (api.acquireInto x c kind)
      (fun id s => Settled vacant s ∧ s.locals x = some (kind id)) E := by
  refine Contract.bind (Q := fun id t => ∃ s, Dangling x vacant s ∧
    t = { s with log := s.log ++ [.succeeded c id] }) ?_ fun n => ?_
  · exact call_contract (fun s hs _ => ⟨s, hP s hs, rfl⟩) fun s code hs _ => hE s code hs
  · refine Contract.bind (Q := fun _ s => Settled vacant s ∧ s.locals x = some (kind n))
      (Contract.modify fun t ht => ?_) fun _ => Contract.pure fun _ hs => hs
    obtain ⟨s, hs, rfl⟩ := ht
    refine ⟨hs.acquire hx (hc.succeeded n) ⟨id, id⟩ fun r hr => ?_, Function.update_self _ _ _⟩
    rw [← Option.some.inj hr]
    exact hc.typed n

/-- An exposed variable that is filled is settled, and behind a failure the state is exact. -/
theorem acquireInto_exposed {c : MtlsCall} {kind : ℕ → Resource} (hc : c.Acquires x kind)
    (hx : x ∉ vacant) :
    Contract (Exposed x vacant) (api.acquireInto x c kind)
      (fun id s => Settled vacant s ∧ s.locals x = some (kind id)) fun _ => Exact :=
  acquireInto_contract hc hx (fun _ hs => hs.toDangling) fun _ _ hs => hs.failed hc.failed

/-- An empty variable is filled, or stays empty when the call fails. -/
theorem acquireInto_settled {c : MtlsCall} {kind : ℕ → Resource} (hc : c.Acquires x kind)
    (hx : x ∉ vacant) :
    Contract (Settled (x :: vacant)) (api.acquireInto x c kind)
      (fun id s => Settled vacant s ∧ s.locals x = some (kind id))
      fun _ => Settled (x :: vacant) :=
  acquireInto_contract hc hx (fun _ hs => hs.exposed.toDangling) fun _ _ hs =>
    hs.record hc.failed id

/-- The variable of a buffer is settled, with memory or without. -/
theorem allocInto_contract (hx : x ∉ vacant) (hkeeps : x.Keeps) (size : ℕ)
    {E : Fault ℕ → MtlsState σ → Prop} :
    Contract (Dangling x vacant) (api.allocInto x size) (fun _ => Settled vacant) E := by
  refine Contract.get_bind fun s hs => ?_
  let buffer := if api.hasMemory s.log size then some s.log.length else none
  refine Contract.bind (Q := fun _ t => t = { s with log := s.log ++ [.localAlloc size buffer] })
    (Contract.modify fun t ht => by subst ht; rfl) fun _ => ?_
  refine Contract.bind (Q := fun _ => Settled vacant) (Contract.modify fun t ht => ?_)
    fun _ => Contract.pure fun _ hs => hs
  subst ht
  refine hs.acquire hx ?_ ⟨id, id⟩ fun r hr => ?_
  · rw [MtlsEvent.transfers, Option.map_map]
    rfl
  · obtain ⟨n, -, rfl⟩ := Option.map_eq_some_iff.mp hr
    exact iff_of_true trivial hkeeps

/-- A release from which a failure would show, or behind which there is nothing to fail. -/
theorem releaseLocal_exposed (x : Local) (hkeeps : x.Keeps) {E : Fault ℕ → MtlsState σ → Prop} :
    Contract (Settled vacant) (releaseLocal x) (fun _ => Exposed x vacant) E := by
  refine Contract.get_bind fun s hs => ?_
  cases hx : s.locals x with
  | none =>
    refine Contract.pure fun t ht => ?_
    subst ht
    exact Settled.exposed ⟨hs.account, hs.calm, List.forall_mem_cons.mpr ⟨hx, hs.empty⟩⟩
  | some r =>
    refine Contract.modify fun t ht => ?_
    subst ht
    refine ⟨hs.release hx, ?_⟩
    rw [endsDangling_concat_iff]
    have hne : t.locals x ≠ none := by
      rw [hx]
      exact Option.some_ne_none r
    exact iff_of_true ((hs.account.typed x r hx).mpr hkeeps) hne

end Steps

/-! ### The stages of the function -/

section Clearing

variable (api : MtlsApi σ) {vacant : List Local} (hvacant : Local.pCertContext ∉ vacant)

/-- The enumeration has reached a context, which its variable contains. -/
structure Holding (pCertContext : Option Certificate) (vacant : List Local) (s : MtlsState σ) :
    Prop extends Settled vacant s where
  holds : s.locals .pCertContext = pCertContext.map Resource.storeContext

/-- An enumeration releases the context in its variable. -/
theorem held_released {locals : Local → Option Resource} {prev : Option Certificate}
    (h : locals .pCertContext = prev.map Resource.storeContext) :
    held (contents clearOrder locals)
        (prev.map fun c => Transfer.release (Resource.storeContext c)).toList =
      some (contents clearOrder (Function.update locals .pCertContext none)) := by
  cases prev with
  | none =>
    rw [Option.map_none] at h
    rw [← h, Function.update_eq_self]
    rfl
  | some c =>
    rw [contents_of_eq_some h]
    exact held_release_cons _ _

include hvacant

/-- An enumeration exchanges the context for the next one. -/
theorem Holding.enumerated {prev : Option Certificate} {s : MtlsState σ} (h : Holding prev vacant s)
    (next : Option Certificate) :
    Holding next vacant { s with
      log := s.log ++ [.certEnumCertificatesInStore prev next]
      locals := Function.update s.locals .pCertContext (next.map Resource.storeContext) } where
  account := by
    refine h.account.step ?_ (fun _ => id) (h.account.typed.update fun r hr => ?_) _
    · rw [MtlsEvent.transfers, held_append_of_eq (held_released h.holds)]
      cases next with
      | none => rfl
      | some c => exact congrArg some (contents_update _ _ _).symm
    · obtain ⟨c, -, rfl⟩ := Option.map_eq_some_iff.mp hr
      exact Iff.rfl
  calm := by
    rw [endsDangling_concat_iff]
    exact id
  empty := update_empty hvacant h.empty _
  holds := Function.update_self Local.pCertContext (next.map Resource.storeContext) s.locals

/-- The enumeration gives up the old certificate and holds the next one. -/
theorem enumCertificates_holding (pCertContext : Option Certificate)
    {E : Fault ℕ → MtlsState σ → Prop} :
    Contract (Holding pCertContext vacant) (api.enumCertificates pCertContext)
      (fun next => Holding next vacant) E := by
  refine Contract.get_bind fun s hs => ?_
  let next := api.enumerate s.store pCertContext
  refine Contract.bind (Q := fun _ t => t = { s with
    log := s.log ++ [.certEnumCertificatesInStore pCertContext next] })
    (Contract.modify fun t ht => by subst ht; rfl) fun _ => ?_
  refine Contract.bind (Q := fun _ => Holding next vacant) (Contract.modify fun t ht => ?_)
    fun _ => Contract.pure fun _ ht => ht
  subst ht
  exact hs.enumerated hvacant next

omit hvacant in
/-- The deletion of a certificate releases the context that was duplicated for it. -/
theorem Holding.deleted {pCertContext : Option Certificate} {s : MtlsState σ}
    (h : Holding pCertContext vacant s) {c : Certificate} {e : MtlsEvent}
    (he : e.transfers = [.release (.storeContext c)]) (hcalm : ¬e.Dangles) (store : σ) :
    Holding pCertContext vacant
      { s with store, log := (s.log ++ [.certDuplicateCertificateContext c]) ++ [e] } where
  account := by
    refine ⟨?_, ?_, h.account.typed⟩
    · rw [transfersOf_concat, transfersOf_concat, List.append_assoc,
        held_append_of_eq h.account.held, he]
      exact held_release_cons _ _
    · rw [failsSafely_concat_iff, failsSafely_concat_iff, endsDangling_concat_iff]
      exact ⟨⟨h.account.safe, fun _ => id⟩, fun hends => hends.elim⟩
  calm := by rwa [endsDangling_concat_iff]
  empty := h.empty
  holds := h.holds

omit hvacant in
/-- The certificate in hand stays there when its duplicate is deleted. -/
theorem deleteCertificate_holding (pCertContext : Option Certificate) (c : Certificate) :
    Contract (Holding pCertContext vacant) (api.deleteCertificate c)
      (fun _ => Holding pCertContext vacant) fun _ => Exact := by
  refine Contract.bind (Q := fun _ t => ∃ s, Holding pCertContext vacant s ∧
    t = { s with log := s.log ++ [.certDuplicateCertificateContext c] })
    (Contract.modify fun s hs => ⟨s, hs, rfl⟩) fun _ => ?_
  refine Contract.bind (Q := fun _ => Holding pCertContext vacant)
    (call_contract (fun t ht _ => ?_) fun t code ht _ => ?_) fun _ => Contract.modify fun s hs => ?_
  · obtain ⟨s, hs, rfl⟩ := ht
    exact hs.deleted rfl id s.store
  · obtain ⟨s, hs, rfl⟩ := ht
    exact (hs.deleted (e := .failed _) rfl id s.store).exact
  · exact ⟨hs.withStore _, hs.holds⟩

/-- The clearing of the store ends with no certificate in hand. -/
theorem clearStore_settled (n : ℕ) (pCertContext : Option Certificate) :
    Contract (Holding pCertContext vacant) (api.clearStore n pCertContext)
      (fun _ => Settled (.pCertContext :: vacant)) fun _ => Exact := by
  induction n generalizing pCertContext with
  | zero => exact Contract.throw fun _ hs => hs.exact
  | succ n ih =>
    refine (enumCertificates_holding api hvacant pCertContext).bind fun next => ?_
    cases next with
    | none =>
      refine Contract.pure fun s hs => ⟨hs.account, hs.calm, ?_⟩
      exact List.forall_mem_cons.mpr ⟨hs.holds, hs.empty⟩
    | some c =>
      exact (deleteCertificate_holding api _ c).bind fun _ =>
        (enumCertificates_holding api hvacant _).bind fun next => ih next

end Clearing

section Stages

variable (api : MtlsApi σ) {vacant : List Local}

/-- A failure that leaves the state settled leaves it exact. -/
theorem settled_exact {α : Type} {P : MtlsState σ → Prop} {m : Mtls σ α}
    {Q : α → MtlsState σ → Prop} (h : Contract P m Q fun _ => Settled vacant) :
    Contract P m Q fun _ => Exact :=
  h.mono (fun _ hs => hs) (fun _ _ hs => hs) fun _ _ hs => hs.exact

/-- The question for a size keeps a settled state. -/
theorem querySize_settled (text : Str) :
    Contract (Settled vacant) (api.querySize text) (fun _ => Settled vacant) fun _ => Exact :=
  (settled_exact (call_settled ⟨fun _ => rfl, rfl⟩)).bind fun _ => Contract.pure fun _ hs => hs

/-- The size of the next text is queried behind the release of the last one. -/
theorem querySize_exposed {x : Local} (text : Str) :
    Contract (Exposed x vacant) (api.querySize text) (fun _ => Dangling x vacant) fun _ => Exact :=
  (call_exposed ⟨fun _ => rfl, rfl⟩).bind fun _ => Contract.pure fun _ hs => hs

/-- The decoded text goes into its buffer. -/
theorem decryptInto_settled (hx : .pbDecryptedData ∉ vacant) (text : Str) (decoding : PemDecoding) :
    Contract (Dangling .pbDecryptedData vacant) (api.decryptInto text decoding)
      (fun _ => Settled vacant) fun _ => Exact :=
  (allocInto_contract hx trivial _).bind fun _ =>
    (settled_exact (call_settled ⟨fun _ => rfl, rfl⟩)).bind fun _ => Contract.pure fun _ hs => hs

/-- A certificate context goes into its local variable. -/
theorem createContext_settled {x : Local} (hx : x ∉ vacant) (hkeeps : ¬x.Keeps) (encoded : Str) :
    Contract (Settled (x :: vacant)) (api.createContext x encoded)
      (fun ctx s => Settled vacant s ∧ s.locals x = some (.context ctx.id)) fun _ => Exact :=
  (settled_exact (acquireInto_settled
    ⟨fun _ => rfl, rfl, fun _ => iff_of_false id hkeeps⟩ hx)).bind fun _ =>
      Contract.pure fun _ hs => hs

/-- A certificate that is added to the store changes nothing that is owned. -/
theorem addToStore_contract {P : MtlsState σ → Prop} (ctx : CertContextData)
    (hcall : Contract P (api.call (.certAddCertificateContextToStore ctx)) (fun _ => P)
      fun _ => Exact)
    (hstore : ∀ s store, P s → P { s with store }) :
    Contract P (api.addToStore ctx) (fun _ => P) fun _ => Exact :=
  hcall.bind fun _ => Contract.modify fun s hs => hstore s _ hs

/-- The reading of a certificate settles the context and the buffer. -/
theorem readCertificate_settled (hctx : .ctx_ ∉ vacant) (hdata : .pbDecryptedData ∉ .ctx_ :: vacant)
    (crt : Str) :
    Contract (Settled (.pbDecryptedData :: .ctx_ :: vacant)) (api.readCertificate crt)
      (fun _ => Settled vacant) fun _ => Exact :=
  (querySize_settled api crt).bind fun _ =>
    ((decryptInto_settled api hdata crt _).pre fun _ hs => hs.exposed.toDangling).bind fun _ =>
    (createContext_settled api hctx id _).bind fun _ => Contract.pure fun _ hs => hs.1

/-- Whatever the deletion of the key set leaves in its variable is not held. -/
theorem Dangling.keysetDeleted {s : MtlsState σ} (h : Dangling .hProv vacant s)
    (hx : .hProv ∉ vacant) (left : Option ℕ) :
    Exposed .hProv vacant { s with
      log := s.log ++ [.keysetDeleted left]
      locals := Function.update s.locals .hProv (left.map Resource.provider) } where
  account := by
    rw [Function.update_idem]
    refine h.account.step rfl (fun _ => id) (h.account.typed.update fun r hr => ?_) _
    obtain ⟨n, -, rfl⟩ := Option.map_eq_some_iff.mp hr
    exact Iff.rfl
  empty := update_empty hx h.empty _
  exposed := by
    rw [endsDangling_concat_iff]
    refine (not_congr ?_).symm
    exact (Function.update_self Local.hProv _ s.locals).congr_left.trans Option.map_eq_none_iff

/-- The provider stays exposed when the old key set is deleted. -/
theorem deleteKeyset_exposed (hx : .hProv ∉ vacant) :
    Contract (Exposed .hProv vacant) api.deleteKeyset (fun _ => Exposed .hProv vacant)
      fun _ => Exact := by
  refine (call_exposed ⟨fun _ => rfl, rfl⟩).bind fun _ => Contract.get_bind fun s hs => ?_
  let left := api.deletedKeyset s.log
  refine Contract.bind (Q := fun _ t => t = { s with log := s.log ++ [.keysetDeleted left] })
    (Contract.modify fun t ht => by subst ht; rfl) fun _ => Contract.modify fun t ht => ?_
  subst ht
  exact hs.keysetDeleted hx left

/-- The new key set settles the provider. -/
theorem newKeyset_exposed (hx : .hProv ∉ vacant) :
    Contract (Exposed .hProv vacant) api.newKeyset (fun _ => Settled vacant) fun _ => Exact :=
  (acquireInto_exposed ⟨fun _ => rfl, rfl, fun _ => Iff.rfl⟩ hx).bind fun _ =>
    Contract.pure fun _ hs => hs.1

/-- The key set is opened, or its variable is still empty. -/
theorem acquireKeyset_settled (hx : .hProv ∉ vacant) :
    Contract (Settled (.hProv :: vacant)) api.acquireKeyset (fun _ => Settled vacant)
      fun _ => Exact := by
  have hopen : Contract (Settled (.hProv :: vacant)) (do
      let _ ← api.acquireInto .hProv (.cryptAcquireContextA .none) Resource.provider
      return true)
      (fun found s => found = true ∧ Settled vacant s ∨
        found = false ∧ Settled (.hProv :: vacant) s)
      fun _ => Settled (.hProv :: vacant) :=
    (acquireInto_settled ⟨fun _ => rfl, rfl, fun _ => Iff.rfl⟩ hx).bind fun _ =>
      Contract.pure fun _ hs => Or.inl ⟨rfl, hs.1⟩
  have hfound : ∀ found, Contract (fun s => found = true ∧ Settled vacant s ∨
      found = false ∧ Settled (.hProv :: vacant) s) (do
      if found then
        releaseLocal .hProv
        api.deleteKeyset
      api.newKeyset)
      (fun _ => Settled vacant) fun _ => Exact := by
    intro found
    cases found with
    | true =>
      refine Contract.pre ?_ fun s hs => (hs.resolve_right fun h => by cases h.1).2
      exact (releaseLocal_exposed .hProv trivial).bind fun _ =>
        (deleteKeyset_exposed api hx).bind fun _ => newKeyset_exposed api hx
    | false =>
      refine Contract.pre (newKeyset_exposed api hx) fun s hs => ?_
      exact (hs.resolve_left fun h => by cases h.1).2.exposed
  refine Contract.bind (hopen.catching (fun code handler hcode => ?_) (fun _ _ _ hs => hs.exact)
    fun _ hs => hs.exact) hfound
  split at hcode
  · obtain rfl := Option.some.inj hcode
    exact Contract.pure fun s hs => Or.inr ⟨rfl, hs⟩
  · cases hcode

/-- The import of a key settles its variables. -/
theorem importKey_settled (hkey : .hKey ∉ vacant) (hblob : .pbKeyBlob ∉ .hKey :: vacant)
    (hdata : .pbDecryptedData ∉ .pbKeyBlob :: .hKey :: vacant) (key : Str) (ctx : CertContextData) :
    Contract (Settled (.pbKeyBlob :: .hKey :: vacant)) (api.importKey key ctx)
      (fun _ => Settled vacant) fun _ => Exact := by
  refine (querySize_settled api key).bind fun _ =>
    (releaseLocal_exposed .pbDecryptedData trivial).bind fun _ =>
    ((decryptInto_settled api hdata key _).pre fun _ hs => hs.toDangling).bind fun _ =>
    (settled_exact (call_settled ⟨fun _ => rfl, rfl⟩)).bind fun _ => ?_
  refine ((allocInto_contract hblob trivial _).pre fun _ hs => hs.exposed.toDangling).bind fun _ =>
    (settled_exact (call_settled ⟨fun _ => rfl, rfl⟩)).bind fun _ => ?_
  refine (settled_exact (acquireInto_settled
    ⟨fun _ => rfl, rfl, fun _ => Iff.rfl⟩ hkey)).bind fun _ => ?_
  refine Contract.bind ((settled_exact (call_settled ⟨fun _ => rfl, rfl⟩)).pre fun _ hs => hs.1)
    fun _ => Contract.pure fun _ hs => hs

/-- A turn of the loop over the chain leaves the variable of its context empty. -/
theorem loadCertificate_settled (pos : Str) :
    Contract (Settled [.ctx__]) (api.loadCertificate pos) (fun _ => Settled [.ctx__])
      fun _ => Exact := by
  refine (releaseLocal_exposed .pbDecryptedData trivial).bind fun _ =>
    (querySize_exposed api _).bind fun _ =>
    (decryptInto_settled api (by decide) _ _).bind fun _ =>
    (createContext_settled api (by decide) id _).bind fun ctx => ?_
  have hadd : Contract (fun s => Settled [] s ∧ s.locals .ctx__ = some (.context ctx.id))
      (api.addToStore ctx) (fun _ s => Settled [] s ∧ s.locals .ctx__ = some (.context ctx.id))
      fun _ => Exact :=
    addToStore_contract api ctx (call_contract (fun s hs _ => ⟨hs.1.record rfl id, hs.2⟩)
      fun s code hs _ => (hs.1.record rfl id).exact) fun s store hs => ⟨hs.1.withStore store, hs.2⟩
  refine hadd.bind fun _ => Contract.bind
    (Q := fun _ s => Dangling .ctx__ [] s ∧ ¬EndsDangling s.log) ?_ fun _ => ?_
  · refine Contract.get_bind fun s hs => ?_
    rw [hs.2]
    refine Contract.modify fun t ht => ?_
    subst ht
    exact ⟨hs.1.release hs.2, (not_congr (endsDangling_concat_iff _ _)).mpr id⟩
  · refine Contract.bind (Q := fun _ => Settled [.ctx__])
      (Contract.modify fun s hs => hs.1.emptied hs.2) fun _ => Contract.pure fun _ hs => hs

end Stages

/-- The variables in the order in which the function assigns them. -/
def assignOrder : List Local :=
  [.hMemStore, .pCertContext, .pbDecryptedData, .ctx_, .hProv, .pbKeyBlob, .hKey, .ctx__]

/-- The whole function is exact in the end, whatever fails. -/
theorem requestWithKeyPair_exact (api : MtlsApi σ) (kp : MTLSKeyPair)
    (request : CertContextData → ℕ) :
    Contract (Settled assignOrder) (api.requestWithKeyPair kp request) (fun _ => Exact)
      fun _ => Exact := by
  have hopen : Contract (Settled assignOrder) api.openStore
      (fun _ => Settled [.pbDecryptedData, .ctx_, .hProv, .pbKeyBlob, .hKey, .ctx__])
      fun _ => Exact := by
    refine (settled_exact (acquireInto_settled
      ⟨fun _ => rfl, rfl, fun _ => Iff.rfl⟩ (by decide))).bind fun _ => ?_
    refine Contract.get_bind fun s hs => ?_
    refine (clearStore_settled api (by decide) _ none).mono (fun t ht => ?_)
      (fun _ t ht => ht.mono (List.subset_cons_self _ _)) fun _ _ ht => ht
    subst ht
    exact ⟨hs.1.mono (List.subset_cons_self _ _), hs.1.empty _ List.mem_cons_self⟩
  have hload : Contract (Settled [.pbDecryptedData, .ctx_, .hProv, .pbKeyBlob, .hKey, .ctx__])
      (api.loadKeyPair kp) (fun _ => Settled [.ctx__]) fun _ => Exact := by
    refine (readCertificate_settled api (by decide) (by decide) _).bind fun _ =>
      (acquireKeyset_settled api (by decide)).bind fun _ =>
      (importKey_settled api (by decide) (by decide) (by decide) _ _).bind fun _ =>
      (loadChain_contract (loadCertificate_settled api) (fun _ hs => hs.exact) _ _).bind fun _ => ?_
    refine (addToStore_contract api _ (settled_exact (call_settled ⟨fun _ => rfl, rfl⟩))
      fun s store hs => hs.withStore store).bind fun _ => Contract.pure fun _ hs => hs
  refine hopen.bind fun _ => hload.bind fun ctx => Contract.bind (Q := fun _ => Settled [.ctx__])
    (Contract.modify fun s hs => hs.record rfl id) fun _ => Contract.pure fun _ hs => hs.exact

/-! ### The clean-up -/

/-- The releases of the clean-up fail nothing. -/
theorem failsSafely_releases_iff (log : List MtlsEvent) (l : List Resource) :
    FailsSafely (log ++ l.map MtlsEvent.release) ↔ FailsSafely log := by
  induction l generalizing log with
  | nil => rw [List.map_nil, List.append_nil]
  | cons r l ih =>
    rw [List.map_cons, List.append_cons, ih, failsSafely_concat_iff]
    exact and_iff_left fun _ => id

/-- The releases at the end of a log come behind its other transfers. -/
theorem transfersOf_releases (log : List MtlsEvent) (l : List Resource) :
    transfersOf (log ++ l.map MtlsEvent.release) = transfersOf log ++ l.map Transfer.release := by
  rw [transfersOf, List.flatMap_append, List.flatMap_map, List.map_eq_flatMap]
  rfl

/-- The clean-up of an exact state balances the calls when they failed safely. -/
theorem Exact.cleared {s : MtlsState σ} (h : Exact s) :
    Balanced (transfersOf s.cleared.log) ↔ FailsSafely s.cleared.log := by
  rw [MtlsState.cleared, transfersOf_releases, balanced_append_releases_iff,
    failsSafely_releases_iff]
  exact h

/-- The calls are balanced exactly when no call fails right behind the release of the
decryption buffer or of the key set, or behind a deletion of the key set that leaves a value. -/
theorem balanced_iff {api : MtlsApi σ} {kp : MTLSKeyPair} {request : CertContextData → ℕ}
    {store : σ} (h : (doHttpRequestMtls_ api kp request store).1 ≠ none) :
    Balanced (transfersOf (doHttpRequestMtls_ api kp request store).2.log) ↔
      FailsSafely (doHttpRequestMtls_ api kp request store).2.log := by
  have hinitial : Settled assignOrder ({ store } : MtlsState σ) :=
    ⟨⟨rfl, List.isChain_nil, fun _ _ hr => by cases hr⟩,
      fun hends => by simp [EndsDangling] at hends, fun _ _ => rfl⟩
  obtain ⟨hok, herror⟩ := requestWithKeyPair_exact api kp request { store } hinitial
  unfold doHttpRequestMtls_ at h ⊢
  cases hrun : api.requestWithKeyPair kp request { store } with
  | ok code s => exact (hok code s hrun).cleared
  | error f s =>
    cases f with
    | thrown code => exact (herror _ s hrun).cleared
    | undefined =>
      rw [hrun] at h
      exact absurd rfl h

/-- The calls of a request that does not fail are balanced. -/
theorem balanced_twoBlocks :
    Balanced (transfersOf (doHttpRequestMtls_ pemApi twoBlocks (fun _ => 0) (storeOf 0)).2.log) :=
  (balanced_iff (by decide +kernel)).mpr (by decide +kernel)

/-- The first block of a text holds characters that stand for nothing. -/
def malformed (text : Str) : Bool :=
  match strstr beginCertificate text with
  | none => false
  | some found => ((found.drop beginCertificate.length).takeWhile (· ≠ '-')).any
      fun c => c ∉ base64Alphabet ∧ c ∉ ['=', ' ', '\t', '\r', '\n']

/-- The error that the library of the example reports. -/
def ERROR_INVALID_DATA : ℕ := 13

/-- An API that fails to decode malformed blocks only. -/
def strictApi : MtlsApi NumberedStore :=
  { pemApi with
    lastError := fun _ c => match c with
      | .cryptStringToBinaryA text _ => if malformed text then some ERROR_INVALID_DATA else none
      | _ => none }

/-- Two blocks, of which the second is malformed. -/
def malformedSecond : MTLSKeyPair where
  crt := "-----BEGIN CERTIFICATE-----\nQQ==\n-----END CERTIFICATE-----\n".toList ++
    "-----BEGIN CERTIFICATE-----\n?\n-----END CERTIFICATE-----\n".toList
  key := []

/-- Behind a malformed second block the buffer of the private key is released twice. -/
theorem malformedSecond_not_balanced :
    ¬∀ (api : MtlsApi NumberedStore) (kp : MTLSKeyPair) (store : NumberedStore),
      (doHttpRequestMtls_ api kp (fun _ => 0) store).1 ≠ none →
        Balanced (transfersOf (doHttpRequestMtls_ api kp (fun _ => 0) store).2.log) := by
  intro h
  have hbalanced := h strictApi malformedSecond (storeOf 0) (by decide +kernel)
  revert hbalanced
  decide +kernel

end Up2date.Win
