import Up2date.Cxx.Ownership
import Up2date.Cxx.Searching
import Up2date.Modules.WinHttp

/-!
# Requests with a key pair on Windows

A request with a key pair clears the certificate store of the client, decodes the first block
of the certificate text, replaces the key set by the private key, adds the further blocks to
the store and then the first one, and makes the request with it. The first call that fails
ends this, and whatever the local variables hold is released in one place. The API is a
parameter: any call may fail, and what the calls return is described by laws.
-/

namespace Up2date.Win

open Cxx Uri Httpclient

/-- A certificate of a system store. -/
structure Certificate where
  handle : ℕ
  encoded : Str
deriving DecidableEq, Repr

/-- A system store of certificates. Enumeration returns the successor of a certificate, also of
one that was just deleted. -/
structure CertStore (σ : Type) where
  certificates : σ → List Certificate
  enumerate : σ → Option Certificate → Option Certificate
  delete : σ → Certificate → σ
  add : σ → Str → σ
  enumerate_none : ∀ s, enumerate s none = (certificates s).head?
  enumerate_some : ∀ {s before c after}, certificates s = before ++ c :: after →
    enumerate s (some c) = after.head?
  enumerate_deleted : ∀ {s before c after}, certificates s = before ++ c :: after →
    enumerate (delete s c) (some c) = after.head?
  certificates_delete : ∀ {s before c after}, certificates s = before ++ c :: after →
    certificates (delete s c) = before ++ after
  mem_add : ∀ {s encoded c}, c ∈ certificates (add s encoded) →
    c ∈ certificates s ∨ c.encoded = encoded

/-- A certificate context made from an encoded certificate. -/
structure CertContextData where
  id : ℕ
  encoded : Str
deriving DecidableEq, Repr

/-- What is acquired by a call and released by another: memory, certificate contexts of the
store and of our own, and handles. -/
inductive Resource
  | buffer (id : ℕ)
  | storeContext (c : Certificate)
  | context (id : ℕ)
  | provider (id : ℕ)
  | key (id : ℕ)
  | store (id : ℕ)
deriving DecidableEq, Repr

/-- The flags of `CryptAcquireContextA`. -/
inductive KeysetFlags
  | none | newKeyset | deleteKeyset
deriving DecidableEq, Repr

/-- The calls after which the function may end. -/
inductive MtlsCall
  | certOpenStore
  | certDeleteCertificateFromStore (pDupCertContext : Certificate)
  | cryptStringToBinaryA (text : Str) (writes : Bool)
  | certCreateCertificateContext (encoded : Str)
  | cryptAcquireContextA (flags : KeysetFlags)
  | cryptDecodeObjectEx (encoded : Str) (writes : Bool)
  | cryptImportKey (keyBlob : Str)
  | certSetCertificateContextProperty (ctx : CertContextData)
  | certAddCertificateContextToStore (ctx : CertContextData)
deriving DecidableEq, Repr

/-- What is seen of a run. A resource acquired by a call has the position of the call as its id;
a deletion of the key set leaves any value in `hProv`. -/
inductive MtlsEvent
  | succeeded (call : MtlsCall) (id : ℕ)
  | failed (call : MtlsCall)
  | certEnumCertificatesInStore (prev next : Option Certificate)
  | certDuplicateCertificateContext (c : Certificate)
  | localAlloc (size : ℕ) (id : Option ℕ)
  | keysetDeleted (hProv : Option ℕ)
  | release (r : Resource)
  | doHttpRequestCtx (ctx : CertContextData)
deriving DecidableEq, Repr

/-- The result of `CryptStringToBinaryA`: the characters it skips, and the decoded bytes. -/
structure PemDecoding where
  skip : ℕ
  bytes : Str
deriving DecidableEq, Repr

/-- The API: the code of a call's failure after the events before it, whether there is memory
left, and what calls compute. -/
structure MtlsApi (σ : Type) extends CertStore σ where
  lastError : List MtlsEvent → MtlsCall → Option ℕ
  hasMemory : List MtlsEvent → ℕ → Bool
  stringToBinary : Str → PemDecoding
  decodeObject : Str → Str
  deletedKeyset : List MtlsEvent → Option ℕ

/-- The variables that are released at the end. -/
inductive Local
  | pbDecryptedData | pbKeyBlob | pCertContext | ctx_ | ctx__ | hKey | hProv | hMemStore
deriving DecidableEq, Repr

/-- The order in which the variables are released. -/
def clearOrder : List Local :=
  [.pbDecryptedData, .pbKeyBlob, .pCertContext, .ctx_, .ctx__, .hKey, .hProv, .hMemStore]

/-- The system store, the events so far, and what the variables contain. -/
structure MtlsState (σ : Type) where
  store : σ
  log : List MtlsEvent := []
  locals : Local → Option Resource := fun _ => none

variable {σ : Type}

/-- Computations of the function, which end early with the code of a failure. -/
abbrev Mtls (σ α : Type) := Effect ℕ (MtlsState σ) α

/-- An event is logged. -/
def record (e : MtlsEvent) : Mtls σ Unit := modify fun s => { s with log := s.log ++ [e] }

/-- Assign a variable. -/
def assign (x : Local) (r : Option Resource) : Mtls σ Unit :=
  modify fun s => { s with locals := Function.update s.locals x r }

/-- Release what a variable contains, which stays in the variable; null is ignored. -/
def releaseLocal (x : Local) : Mtls σ Unit := do
  match (← get).locals x with
  | none => pure ()
  | some r => record (.release r)

namespace MtlsApi

variable (api : MtlsApi σ)

/-- `HANDLE_ERROR` of a call; the id of what it acquires is returned. -/
def call (c : MtlsCall) : Mtls σ ℕ := do
  let s ← get
  match api.lastError s.log c with
  | none =>
    record (.succeeded c s.log.length)
    return s.log.length
  | some code =>
    record (.failed c)
    Effect.raise code

/-- A call that acquires a resource into a variable. -/
def acquireInto (x : Local) (c : MtlsCall) (kind : ℕ → Resource) : Mtls σ ℕ := do
  let id ← api.call c
  assign x (some (kind id))
  return id

/-- `LocalAlloc` into a variable, which is null without memory; whether there was memory is
returned. -/
def allocInto (x : Local) (size : ℕ) : Mtls σ Bool := do
  let s ← get
  let id := if api.hasMemory s.log size then some s.log.length else none
  record (.localAlloc size id)
  assign x (id.map Resource.buffer)
  return id.isSome

/-- `pCertContext = CertEnumCertificatesInStore(hMemStore, pCertContext)` -/
def enumCertificates (pCertContext : Option Certificate) : Mtls σ (Option Certificate) := do
  let s ← get
  let next := api.enumerate s.store pCertContext
  record (.certEnumCertificatesInStore pCertContext next)
  assign .pCertContext (next.map Resource.storeContext)
  return next

/-- Delete a certificate through a duplicate of its context. -/
def deleteCertificate (pCertContext : Certificate) : Mtls σ Unit := do
  record (.certDuplicateCertificateContext pCertContext)
  let _ ← api.call (.certDeleteCertificateFromStore pCertContext)
  modify fun s => { s with store := api.delete s.store pCertContext }

/-- The loop that clears the store, in at most so many turns. -/
def clearStore : ℕ → Option Certificate → Mtls σ Unit
  | 0, _ => throw .undefined
  | n + 1, pCertContext => do
    match ← api.enumCertificates pCertContext with
    | none => pure ()
    | some c =>
      api.deleteCertificate c
      let next ← api.enumCertificates (some c)
      clearStore n next

/-- The size of a decoded text, and the number of characters skipped. -/
def querySize (text : Str) : Mtls σ PemDecoding := do
  let _ ← api.call (.cryptStringToBinaryA text false)
  return api.stringToBinary text

/-- Allocate `pbDecryptedData` and decode a text into it; a null buffer holds nothing. -/
def decryptInto (text : Str) (decoding : PemDecoding) : Mtls σ Str := do
  let allocated ← api.allocInto .pbDecryptedData decoding.bytes.length
  let _ ← api.call (.cryptStringToBinaryA text true)
  return if allocated then decoding.bytes else []

/-- `CertCreateCertificateContext` -/
def createContext (x : Local) (encoded : Str) : Mtls σ CertContextData := do
  let id ← api.acquireInto x (.certCreateCertificateContext encoded) Resource.context
  return { id, encoded }

/-- `CertAddCertificateContextToStore` -/
def addToStore (ctx : CertContextData) : Mtls σ Unit := do
  let _ ← api.call (.certAddCertificateContextToStore ctx)
  modify fun s => { s with store := api.add s.store ctx.encoded }

/-- Read the first block of the certificate text. -/
def readCertificate (crt : Str) : Mtls σ (CertContextData × ℕ) := do
  let decoding ← api.querySize crt
  let encoded ← api.decryptInto crt decoding
  let ctx ← api.createContext .ctx_ encoded
  return (ctx, decoding.skip)

end MtlsApi

/-- The error for a key set that is not there. -/
def NTE_BAD_KEYSET : ℕ := 2148073494

namespace MtlsApi

variable (api : MtlsApi σ)

/-- Create a key set, and take its provider into `hProv`. -/
def newKeyset : Mtls σ Unit := do
  let _ ← api.acquireInto .hProv (.cryptAcquireContextA .newKeyset) Resource.provider

/-- Delete the key set; the value of `hProv` is not defined then. -/
def deleteKeyset : Mtls σ Unit := do
  let _ ← api.call (.cryptAcquireContextA .deleteKeyset)
  let s ← get
  let left := api.deletedKeyset s.log
  record (.keysetDeleted left)
  assign .hProv (left.map Resource.provider)

/-- Open the key set, create it if it is missing, and otherwise replace it by a new one. -/
def acquireKeyset : Mtls σ Unit := do
  let found ← Effect.catching
    (do
      let _ ← api.acquireInto .hProv (.cryptAcquireContextA .none) Resource.provider
      return true)
    fun code => if code = NTE_BAD_KEYSET then some (pure false) else none
  if found then
    releaseLocal .hProv
    api.deleteKeyset
  api.newKeyset

/-- Import the private key, and attach it to the client certificate. -/
def importKey (key : Str) (ctx : CertContextData) : Mtls σ Unit := do
  let decoding ← api.querySize key
  releaseLocal .pbDecryptedData
  let encoded ← api.decryptInto key decoding
  let _ ← api.call (.cryptDecodeObjectEx encoded false)
  let allocated ← api.allocInto .pbKeyBlob (api.decodeObject encoded).length
  let _ ← api.call (.cryptDecodeObjectEx encoded true)
  let keyBlob := if allocated then api.decodeObject encoded else []
  let _ ← api.acquireInto .hKey (.cryptImportKey keyBlob) Resource.key
  let _ ← api.call (.certSetCertificateContextProperty ctx)

/-- One turn of the loop over the certificate chain; the skipped characters are returned. -/
def loadCertificate (pos : Str) : Mtls σ ℕ := do
  releaseLocal .pbDecryptedData
  let decoding ← api.querySize (cstr pos)
  let encoded ← api.decryptInto (cstr pos) decoding
  let ctx ← api.createContext .ctx__ encoded
  api.addToStore ctx
  releaseLocal .ctx__
  assign .ctx__ none
  return decoding.skip

end MtlsApi

/-- The marker in front of a certificate. -/
def beginCertificate : Str := "-----BEGIN CERTIFICATE-----".toList

namespace MtlsApi

variable (api : MtlsApi σ)

/-- The loop over the certificate chain. The search begins behind the skipped characters and
one more; a position behind the end of the text is not defined. -/
def loadChain (pos : Str) (pdwSkip : ℕ) : Mtls σ Unit :=
  if pos.length < pdwSkip + 1 then throw .undefined
  else
    match _h : strstr beginCertificate (pos.drop (pdwSkip + 1)) with
    | none => pure ()
    | some next => do
      let skip ← api.loadCertificate next
      loadChain next skip
termination_by pos.length
decreasing_by
  have hle := strstr_length_le _h
  rw [List.length_drop] at hle
  omega

/-- The part of the function that uses the key pair. -/
def loadKeyPair (kp : MTLSKeyPair) : Mtls σ CertContextData := do
  let (ctx, pdwSkip) ← api.readCertificate kp.crt
  api.acquireKeyset
  api.importKey kp.key ctx
  api.loadChain kp.crt pdwSkip
  api.addToStore ctx
  return ctx

/-- Open the store and clear it. Every turn of the loop deletes a certificate, so there are no
more turns than certificates. -/
def openStore : Mtls σ Unit := do
  let _ ← api.acquireInto .hMemStore .certOpenStore Resource.store
  let s ← get
  api.clearStore ((api.certificates s.store).length + 1) none

/-- Everything up to `do_http_request_ctx`, whose code is returned. -/
def requestWithKeyPair (kp : MTLSKeyPair) (request : CertContextData → ℕ) : Mtls σ ℕ := do
  api.openStore
  let ctx ← api.loadKeyPair kp
  record (.doHttpRequestCtx ctx)
  return request ctx

end MtlsApi

/-- What the clean-up block releases. -/
def MtlsState.cleanUp (s : MtlsState σ) : List Resource := clearOrder.filterMap s.locals

/-- The state behind the clean-up block. -/
def MtlsState.cleared (s : MtlsState σ) : MtlsState σ :=
  { s with log := s.log ++ s.cleanUp.map MtlsEvent.release }

/-- `do_http_request_mtls_`: its code, unless its behaviour is undefined, and the final state. -/
def doHttpRequestMtls_ (api : MtlsApi σ) (kp : MTLSKeyPair) (request : CertContextData → ℕ)
    (store : σ) : Option ℕ × MtlsState σ :=
  match api.requestWithKeyPair kp request { store } with
  | .ok code s => (some code, s.cleared)
  | .error (.thrown code) s => (some code, s.cleared)
  | .error .undefined s => (none, s)

end Up2date.Win
