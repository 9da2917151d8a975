import Up2date.Modules.WinSteps
import Mathlib.Data.List.MinMax
import Mathlib.Order.Nat
import Mathlib.Tactic.Common

/-!
# Clearing the certificate store

The loop that clears the store advances its enumeration twice in each turn, once behind the
deletion and once in its condition, and begins anew when the first of these is at the end. It
deletes every other certificate, and goes over the others again while their number is odd at
the beginning of a pass. So the store is empty afterwards when the number of certificates is
one less than a power of two.
-/

namespace Up2date.Win

open Cxx Uri Httpclient

/-! ### Every other element -/

section Survivors

variable {α : Type}

/-- Every other element, from the second one on. -/
def seconds : List α → List α
  | [] => []
  | [_] => []
  | _ :: b :: rest => b :: seconds rest

/-- Every other element is half of the list, rounded down. -/
theorem seconds_length (l : List α) : (seconds l).length = l.length / 2 := by
  induction l using seconds.induct with
  | case1 => simp [seconds]
  | case2 => simp [seconds]
  | case3 a b rest ih =>
    simp only [seconds, List.length_cons, ih]
    omega

/-- What is left by passes that take every other element, up to one that takes the element
before the last. -/
def survivors (l : List α) : List α :=
  if l.length % 2 = 0 then seconds l else survivors (seconds l)
termination_by l.length
decreasing_by
  rw [seconds_length]
  omega

/-- Nothing is left of a list that is one shorter than a power of two. -/
theorem survivors_eq_nil_iff (l : List α) : survivors l = [] ↔ ∃ k, l.length + 1 = 2 ^ k := by
  induction l using survivors.induct with
  | case1 l heven =>
    rw [survivors, if_pos heven, ← List.length_eq_zero_iff, seconds_length]
    constructor
    · intro h
      exact ⟨0, by omega⟩
    · intro h
      obtain ⟨k, hk⟩ := h
      cases k with
      | zero => omega
      | succ k => omega
  | case2 l hodd ih =>
    rw [survivors, if_neg hodd, ih, seconds_length]
    constructor
    · intro h
      obtain ⟨k, hk⟩ := h
      exact ⟨k + 1, by omega⟩
    · intro h
      obtain ⟨k, hk⟩ := h
      cases k with
      | zero => omega
      | succ k => exact ⟨k, by omega⟩

/-- What is left when a pass goes on behind the elements it has kept. -/
def leftOver (kept rest : List α) : List α :=
  if rest.length % 2 = 0 then kept ++ seconds rest else survivors (kept ++ seconds rest)

/-- With nothing kept so far the survivors of the rest are left. -/
theorem leftOver_nil_left (l : List α) : leftOver [] l = survivors l := by
  rw [survivors, leftOver, List.nil_append]

/-- At the end what was kept is left. -/
theorem leftOver_nil_right (kept : List α) : leftOver kept [] = kept := by
  simp [leftOver, seconds]

/-- Behind the last element the next pass begins. -/
theorem leftOver_singleton (kept : List α) (a : α) : leftOver kept [a] = survivors kept := by
  simp [leftOver, seconds]

/-- Of two elements the first is dropped and the second one kept. -/
theorem leftOver_cons_cons (kept : List α) (a b : α) (rest : List α) :
    leftOver kept (a :: b :: rest) = leftOver (kept ++ [b]) rest := by
  have hparity : (a :: b :: rest).length % 2 = rest.length % 2 := by
    simp only [List.length_cons]
    omega
  simp only [leftOver, hparity, seconds, List.append_assoc, List.singleton_append]

end Survivors

/-! ### The loop -/

variable {σ : Type}

/-- An event that is logged does not change the store. -/
theorem record_keeps_store (e : MtlsEvent) (store : σ) (E : Fault ℕ → MtlsState σ → Prop) :
    Contract (fun s => s.store = store) (record e : Mtls σ Unit) (fun _ s => s.store = store) E :=
  Contract.modify fun _ hs => hs

/-- A local variable that is assigned does not change the store. -/
theorem assign_keeps_store (x : Local) (r : Option Resource) (store : σ)
    (E : Fault ℕ → MtlsState σ → Prop) :
    Contract (fun s => s.store = store) (assign x r : Mtls σ Unit) (fun _ s => s.store = store) E :=
  Contract.modify fun _ hs => hs

/-- The enumeration gives the next certificate of the store as it stands. -/
theorem enumCertificates_contract (api : MtlsApi σ) (pCertContext : Option Certificate) (store : σ)
    (E : Fault ℕ → MtlsState σ → Prop) :
    Contract (fun s => s.store = store) (api.enumCertificates pCertContext)
      (fun next s => next = api.enumerate store pCertContext ∧ s.store = store) E := by
  refine Contract.get_bind fun s hs => Contract.pre ?_ fun t ht => ht ▸ hs
  rw [hs]
  exact (record_keeps_store _ store E).bind fun _ => (assign_keeps_store _ _ store E).bind fun _ =>
    Contract.pure fun t ht => ⟨rfl, ht⟩

/-- The certificate is deleted from the store. -/
theorem deleteCertificate_contract (api : MtlsApi σ) (c : Certificate) (store : σ) :
    Contract (fun s => s.store = store) (api.deleteCertificate c)
      (fun _ s => s.store = api.delete store c) fun f _ => f ≠ .undefined := by
  have hcall : Contract (fun s => s.store = store) (api.call (.certDeleteCertificateFromStore c))
      (fun _ s => s.store = store) fun f _ => f ≠ .undefined := by
    refine call_contract (fun s hs _ => hs) fun s code _ _ h => ?_
    cases h
  refine (record_keeps_store _ store _).bind fun _ => hcall.bind fun _ => ?_
  exact Contract.modify fun t ht => congrArg (fun s => api.delete s c) ht

/-- The certificate that an enumeration has reached is the last of those it has kept. -/
def Reached (pCertContext : Option Certificate) (kept : List Certificate) : Prop :=
  pCertContext = none ∧ kept = [] ∨ ∃ front c, pCertContext = some c ∧ kept = front ++ [c]

/-- Behind the certificates kept so far the enumeration gives the first of the rest. -/
theorem enumerate_reached (api : MtlsApi σ) {pCertContext : Option Certificate}
    {kept rest : List Certificate} {store : σ} (h : Reached pCertContext kept)
    (hstore : api.certificates store = kept ++ rest) :
    api.enumerate store pCertContext = rest.head? := by
  obtain ⟨rfl, rfl⟩ | ⟨front, c, rfl, rfl⟩ := h
  · rw [api.enumerate_none, hstore, List.nil_append]
  · have hsplit : api.certificates store = front ++ c :: rest := by
      rw [hstore, List.append_assoc, List.singleton_append]
    exact api.enumerate_some hsplit

/-- Behind the deletion of a certificate the loop has passed the one after it, or begins anew. -/
theorem exists_pass (kept after : List Certificate) (c : Certificate) :
    ∃ kept' rest', kept ++ after = kept' ++ rest' ∧ Reached after.head? kept' ∧
      leftOver kept (c :: after) = leftOver kept' rest' := by
  cases after with
  | nil =>
    refine ⟨[], kept, List.append_nil kept, Or.inl ⟨rfl, rfl⟩, ?_⟩
    rw [leftOver_singleton, leftOver_nil_left]
  | cons d rest =>
    refine ⟨kept ++ [d], rest, List.append_cons kept d rest, Or.inr ⟨kept, d, rfl, rfl⟩, ?_⟩
    rw [leftOver_cons_cons]

/-- From a certificate it has reached the loop leaves every other of those behind it, or begins
another pass over what is left. The induction is on the number of turns, each of which deletes
a certificate. -/
theorem clearStore_contract (api : MtlsApi σ) (n : ℕ) (pCertContext : Option Certificate)
    (kept rest : List Certificate) (h : Reached pCertContext kept)
    (hlength : (kept ++ rest).length < n) :
    Contract (fun s => api.certificates s.store = kept ++ rest) (api.clearStore n pCertContext)
      (fun _ s => api.certificates s.store = leftOver kept rest) fun f _ => f ≠ .undefined := by
  induction n generalizing pCertContext kept rest with
  | zero => exact absurd hlength (Nat.not_lt_zero _)
  | succ n ih =>
    intro s hs
    have hfirst := enumerate_reached api h hs
    refine Contract.bind (enumCertificates_contract api pCertContext s.store _) (fun first => ?_)
      s rfl
    rw [hfirst]
    cases rest with
    | nil =>
      intro t ht
      rw [ht.1]
      refine Contract.of_eq_ok (Effect.pure_apply () t) ?_
      rw [ht.2, hs, List.append_nil, leftOver_nil_right]
    | cons c after =>
      intro t ht
      rw [ht.1]
      obtain ⟨kept', rest', hsplit, hreached, hleft⟩ := exists_pass kept after c
      have hdeleted := api.certificates_delete hs
      have hnext := api.enumerate_deleted hs
      refine Contract.bind (deleteCertificate_contract api c s.store) (fun _ => ?_) t ht.2
      refine Contract.bind (enumCertificates_contract api (some c) (api.delete s.store c) _)
        fun next u hu => ?_
      rw [hnext] at hu
      have hlt : (kept' ++ rest').length < n := by
        rw [← hsplit]
        simp only [List.length_append, List.length_cons] at hlength ⊢
        omega
      have hcerts : api.certificates u.store = kept' ++ rest' := by rw [hu.2, hdeleted, hsplit]
      have hpass := ih after.head? kept' rest' hreached hlt u hcerts
      rw [← hleft] at hpass
      rw [hu.1]
      exact hpass

/-- The loop returns or ends with an error, and leaves the survivors of the store. -/
theorem clearStore_survivors (api : MtlsApi σ) (store : σ) :
    Contract (fun s => s.store = store)
      (api.clearStore ((api.certificates store).length + 1) none)
      (fun _ s => api.certificates s.store = survivors (api.certificates store))
      fun f _ => f ≠ .undefined := by
  rw [← leftOver_nil_left]
  exact (clearStore_contract api _ none [] (api.certificates store) (Or.inl ⟨rfl, rfl⟩)
    (Nat.lt_succ_self _)).pre fun s hs => congrArg api.certificates hs

/-! ### The store of a request -/

/-- The encoded certificates that were added to the store. -/
def MtlsEvent.added : MtlsEvent → Option Str
  | .succeeded (.certAddCertificateContextToStore ctx) _ => some ctx.encoded
  | _ => none

/-- The store holds only certificates that were added to it. -/
def HoldsAddedOnly (api : MtlsApi σ) (s : MtlsState σ) : Prop :=
  ∀ c ∈ api.certificates s.store, c.encoded ∈ s.log.filterMap MtlsEvent.added

/-- A quiet event adds no certificate. -/
theorem added_quiet {e : MtlsEvent} (h : e.Quiet) : e.added = none := by
  cases e with
  | succeeded c id => cases c <;> first | rfl | cases h
  | _ => rfl

/-- Quiet steps add no certificates. -/
theorem holdsAddedOnly_frame (api : MtlsApi σ) :
    Frame api (HoldsAddedOnly api) (fun _ s => HoldsAddedOnly api s) where
  record s e he hs := by
    intro c hc
    simpa [added_quiet he] using hs c hc
  assign s x r hs := hs
  fails s c code hc hs _ := by
    intro cert hcert
    simpa [MtlsEvent.added] using hs cert hcert

/-- The store holds what was added, one certificate more. -/
theorem addToStore_holdsAddedOnly (api : MtlsApi σ) (ctx : CertContextData) :
    Contract (HoldsAddedOnly api) (api.addToStore ctx) (fun _ => HoldsAddedOnly api)
      fun _ s => HoldsAddedOnly api s := by
  have hcall : Contract (HoldsAddedOnly api) (api.call (.certAddCertificateContextToStore ctx))
      (fun _ s => HoldsAddedOnly api s ∧ ctx.encoded ∈ s.log.filterMap MtlsEvent.added)
      fun _ s => HoldsAddedOnly api s := by
    refine call_contract (fun s hs _ => ⟨fun c hc => ?_, ?_⟩) fun s code hs _ c hc => ?_
    · rw [List.filterMap_append]
      exact List.mem_append_left _ (hs c hc)
    · rw [List.filterMap_append]
      exact List.mem_append_right _ List.mem_cons_self
    · rw [List.filterMap_append]
      exact List.mem_append_left _ (hs c hc)
  refine hcall.bind fun _ => Contract.modify fun s hs c hc => ?_
  rcases api.mem_add hc with hold | hnew
  · exact hs.1 c hold
  · exact hnew ▸ hs.2

/-- After a certificate is loaded the store holds what was added. -/
theorem loadCertificate_holdsAddedOnly (api : MtlsApi σ) (pos : Str) :
    Contract (HoldsAddedOnly api) (api.loadCertificate pos) (fun _ => HoldsAddedOnly api)
      fun _ s => HoldsAddedOnly api s := by
  have frame := holdsAddedOnly_frame api
  exact (frame.releaseLocal _).bind fun _ => (frame.querySize _).bind fun _ =>
    (frame.decryptInto _ _).bind fun _ => (frame.createContext _ _).bind fun _ =>
    (addToStore_holdsAddedOnly api _).bind fun _ => (frame.releaseLocal _).bind fun _ =>
    (frame.assignLocal _ _).bind fun _ => Contract.pure fun _ hs => hs

/-- The key pair adds its certificates only. -/
theorem loadKeyPair_holdsAddedOnly (api : MtlsApi σ) (kp : MTLSKeyPair) :
    Contract (HoldsAddedOnly api) (api.loadKeyPair kp) (fun _ => HoldsAddedOnly api)
      fun _ s => HoldsAddedOnly api s := by
  have frame := holdsAddedOnly_frame api
  exact (frame.readCertificate _).bind fun _ => (frame.acquireKeyset fun _ _ h => h).bind fun _ =>
    (frame.importKey _ _).bind fun _ =>
    (loadChain_contract (loadCertificate_holdsAddedOnly api) (fun _ h => h) _ _).bind fun _ =>
    (addToStore_holdsAddedOnly api _).bind fun _ => Contract.pure fun _ hs => hs

/-- Opening the store leaves its survivors. -/
theorem openStore_survivors (api : MtlsApi σ) (store : σ) :
    Contract (fun s => s.store = store) api.openStore
      (fun _ s => api.certificates s.store = survivors (api.certificates store))
      fun f _ => f ≠ .undefined := by
  have hcall : Contract (fun s => s.store = store) (api.call .certOpenStore)
      (fun _ s => s.store = store) fun f _ => f ≠ .undefined := by
    refine call_contract (fun s hs _ => hs) fun s code _ _ h => ?_
    cases h
  have hopen : Contract (fun s => s.store = store)
      (api.acquireInto .hMemStore .certOpenStore Resource.store) (fun _ s => s.store = store)
      fun f _ => f ≠ .undefined :=
    hcall.bind fun _ => (assign_keeps_store _ _ store _).bind fun _ => Contract.pure fun _ hs => hs
  refine hopen.bind fun _ => Contract.get_bind fun s hs => Contract.pre ?_ fun t ht => ht ▸ hs
  rw [hs]
  exact clearStore_survivors api store

/-- When the store is cleared without an error, it is empty, and holds only the certificates of
the key pair at the request, exactly when the number of certificates was one less than a power
of two. -/
theorem storeCleared_iff {api : MtlsApi σ} {store : σ} {t : MtlsState σ}
    (h : api.openStore { store } = .ok () t) (kp : MTLSKeyPair) :
    (api.certificates t.store = [] ∧
        ∀ ctx u, api.loadKeyPair kp t = .ok ctx u → HoldsAddedOnly api u) ↔
      ∃ k, (api.certificates store).length + 1 = 2 ^ k := by
  have hleft := (openStore_survivors api store { store } rfl).1 () t h
  rw [← survivors_eq_nil_iff, ← hleft]
  refine ⟨And.left, fun hempty => ⟨hempty, ?_⟩⟩
  have hadded : HoldsAddedOnly api t := by
    intro c hc
    rw [hempty] at hc
    cases hc
  exact (loadKeyPair_holdsAddedOnly api kp t hadded).1

/-! ### A store that numbers its certificates -/

/-- Certificates in the order of their handles. -/
structure NumberedStore where
  certs : List Certificate
  sorted : certs.Pairwise fun a b => a.handle < b.handle

namespace NumberedStore

/-- The first certificate, or the next one behind a certificate. -/
def enumerate (s : NumberedStore) : Option Certificate → Option Certificate
  | none => s.certs.head?
  | some c => s.certs.find? fun d => c.handle < d.handle

/-- The store without a certificate. -/
def delete (s : NumberedStore) (c : Certificate) : NumberedStore where
  certs := s.certs.filter fun d => d.handle ≠ c.handle
  sorted := s.sorted.filter _

/-- The next handle. -/
def fresh (s : NumberedStore) : ℕ := (s.certs.map Certificate.handle).foldr max ⊥ + 1

/-- The handles of the certificates are below the next one. -/
theorem lt_fresh {s : NumberedStore} {c : Certificate} (h : c ∈ s.certs) : c.handle < s.fresh := by
  refine Nat.lt_succ_of_le ?_
  exact List.le_max_of_le (List.mem_map_of_mem h) le_rfl

/-- The store with one more certificate at its end. -/
def add (s : NumberedStore) (encoded : Str) : NumberedStore where
  certs := s.certs ++ [{ handle := s.fresh, encoded }]
  sorted := by
    refine List.pairwise_append.mpr ⟨s.sorted, List.pairwise_singleton _ _, fun c hc d hd => ?_⟩
    obtain rfl := List.mem_singleton.mp hd
    exact lt_fresh hc

section Split

variable {before after : List Certificate} {c : Certificate}
  (h : (before ++ c :: after).Pairwise fun a b => a.handle < b.handle)

include h

/-- The handles in front of a certificate are below its own. -/
theorem lt_of_mem_before {d : Certificate} (hd : d ∈ before) : d.handle < c.handle :=
  (List.pairwise_append.mp h).2.2 d hd c List.mem_cons_self

/-- The handles behind a certificate are above its own. -/
theorem lt_of_mem_after {d : Certificate} (hd : d ∈ after) : c.handle < d.handle :=
  (List.pairwise_cons.mp (List.pairwise_append.mp h).2.1).1 d hd

/-- The first certificate with a greater handle is the next one. -/
theorem find_after {l : List Certificate} (hl : ∀ d ∈ l, ¬c.handle < d.handle) :
    (l ++ after).find? (fun d => c.handle < d.handle) = after.head? := by
  have hnone : l.find? (fun d => c.handle < d.handle) = none :=
    List.find?_eq_none.mpr fun d hd => by simpa using hl d hd
  rw [List.find?_append, hnone, Option.none_or]
  cases after with
  | nil => rfl
  | cons d rest =>
    rw [List.find?_cons_of_pos (by simpa using lt_of_mem_after h List.mem_cons_self)]
    rfl

/-- Without a certificate what stands in front of it and behind it is left. -/
theorem filter_ne : (before ++ c :: after).filter (fun d => d.handle ≠ c.handle) =
    before ++ after := by
  have hbefore : before.filter (fun d => d.handle ≠ c.handle) = before :=
    List.filter_eq_self.mpr fun d hd => by simpa using (lt_of_mem_before h hd).ne
  have hafter : after.filter (fun d => d.handle ≠ c.handle) = after :=
    List.filter_eq_self.mpr fun d hd => by simpa using (lt_of_mem_after h hd).ne'
  rw [List.filter_append, List.filter_cons_of_neg (by simp), hbefore, hafter]

end Split

end NumberedStore

/-- The system store that numbers its certificates. -/
def numberedStore : CertStore NumberedStore where
  certificates := NumberedStore.certs
  enumerate := NumberedStore.enumerate
  delete := NumberedStore.delete
  add := NumberedStore.add
  enumerate_none _ := rfl
  enumerate_some := by
    intro s before c after h
    have hsorted := h ▸ s.sorted
    change s.certs.find? _ = _
    rw [h, ← List.singleton_append, ← List.append_assoc]
    refine NumberedStore.find_after hsorted fun d hd => ?_
    rcases List.mem_append.mp hd with hd | hd
    · exact (NumberedStore.lt_of_mem_before hsorted hd).not_gt
    · exact List.mem_singleton.mp hd ▸ lt_irrefl _
  enumerate_deleted := by
    intro s before c after h
    have hsorted := h ▸ s.sorted
    change (s.certs.filter _).find? _ = _
    rw [h, NumberedStore.filter_ne hsorted]
    exact NumberedStore.find_after hsorted fun d hd =>
      (NumberedStore.lt_of_mem_before hsorted hd).not_gt
  certificates_delete := by
    intro s before c after h
    change s.certs.filter _ = _
    rw [h, NumberedStore.filter_ne (h ▸ s.sorted)]
  mem_add := by
    intro s encoded c h
    rcases List.mem_append.mp h with h | h
    · exact Or.inl h
    · exact Or.inr (List.mem_singleton.mp h ▸ rfl)

/-- A store of so many certificates. -/
def storeOf (n : ℕ) : NumberedStore where
  certs := (List.range n).map fun handle => { handle, encoded := [] }
  sorted := List.pairwise_map.mpr List.pairwise_lt_range

/-- An API without failures. -/
def numberedApi : MtlsApi NumberedStore where
  toCertStore := numberedStore
  lastError _ _ := none
  hasMemory _ _ := true
  stringToBinary text := { skip := 0, bytes := text }
  decodeObject _ := []
  deletedKeyset _ := none

/-- The state behind the opening of a store of so many certificates. -/
def opened (n : ℕ) : MtlsState NumberedStore :=
  finalState (numberedApi.openStore { store := storeOf n })

/-- A key pair with one certificate. -/
def oneCertificate : MTLSKeyPair := { crt := "c".toList, key := [] }

/-- A store of three certificates is emptied, and holds the one of the key pair at the request. -/
theorem storeCleared_three :
    (numberedApi.certificates (opened 3).store = [] ∧
      ∀ ctx u, numberedApi.loadKeyPair oneCertificate (opened 3) = .ok ctx u →
        HoldsAddedOnly numberedApi u) ∧
      ∃ ctx u, numberedApi.loadKeyPair oneCertificate (opened 3) = .ok ctx u ∧
        (numberedApi.certificates u.store).map Certificate.encoded = ["c".toList] := by
  have hopen : numberedApi.openStore { store := storeOf 3 } = .ok () (opened 3) := rfl
  have hloaded : (ending (numberedApi.loadKeyPair oneCertificate (opened 3))).toOption.isSome = true ∧
      (numberedApi.certificates (finalState (numberedApi.loadKeyPair oneCertificate
        (opened 3))).store).map Certificate.encoded = ["c".toList] := by
    decide +kernel
  refine ⟨(storeCleared_iff hopen oneCertificate).mpr ⟨2, rfl⟩, ?_⟩
  cases hload : numberedApi.loadKeyPair oneCertificate (opened 3) with
  | ok ctx u =>
    rw [hload] at hloaded
    exact ⟨ctx, u, rfl, hloaded.2⟩
  | error fault u =>
    rw [hload] at hloaded
    exact absurd hloaded.1 Bool.false_ne_true

/-- Of two certificates the second is left. -/
theorem store_of_two_not_cleared :
    ¬∀ store t, numberedApi.openStore { store } = .ok () t →
      numberedApi.certificates t.store = [] := by
  intro h
  have hleft : numberedApi.certificates (opened 2).store = [{ handle := 1, encoded := [] }] := rfl
  rw [h (storeOf 2) (opened 2) rfl] at hleft
  cases hleft

end Up2date.Win
