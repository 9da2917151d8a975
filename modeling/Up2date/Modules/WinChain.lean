import Up2date.Modules.WinStore

/-!
# The certificate chain

Each turn of the loop over the chain begins the search behind the first dash of the block that
was decoded last, and the next header is found there, as nothing up to it is a marker. So every
block behind the first one is added to the store once and in order, and then the first one is.
-/

namespace Up2date.Win

open Cxx Uri Httpclient

/-! ### Certificate texts -/

/-- The dashes of a marker. -/
def dashes : Str := "-----".toList

/-- What every marker of a block begins with. -/
def beginMarker : Str := "-----BEGIN".toList

/-- The marker behind a certificate. -/
def endCertificate : Str := "-----END CERTIFICATE-----".toList

/-- A block of a certificate. What stands between its header and its footer begins with white
space and holds no dash. -/
structure PemBlock where
  body : Str
  white : ∃ c ∈ [' ', '\t', '\r', '\n'], body.head? = some c
  dash_notMem : '-' ∉ body

/-- A block with its markers. -/
def PemBlock.text (block : PemBlock) : Str := beginCertificate ++ (block.body ++ endCertificate)

/-- Blocks, and the text behind each of them. -/
def chainText : List (PemBlock × Str) → Str
  | [] => []
  | (block, behind) :: rest => block.text ++ (behind ++ chainText rest)

/-- What is searched for the header of the next block holds no marker, unless the text behind
the block does with the dashes before it. -/
theorem PemBlock.unmarked (block : PemBlock) {behind : Str}
    (h : ¬beginMarker <:+: dashes ++ behind) :
    ¬beginMarker <:+: block.text.tail ++ behind := by
  obtain ⟨c, hc, hhead⟩ := block.white
  obtain ⟨body, hbody⟩ : ∃ body, block.body = c :: body := List.head?_eq_some_iff.mp hhead
  have hdash : '-' ∉ body := fun hmem => block.dash_notMem (hbody ▸ List.mem_cons_of_mem c hmem)
  have hsplit : block.text.tail ++ behind = ("----BEGIN CERTIFICATE-----".toList ++ [c]) ++
      (body ++ ("-----END CERTIFICATE".toList ++ (dashes ++ behind))) := by
    have hheader : block.text.tail =
        "----BEGIN CERTIFICATE-----".toList ++ (block.body ++ endCertificate) := rfl
    have hfooter : endCertificate = "-----END CERTIFICATE".toList ++ dashes := rfl
    rw [hheader, hfooter, hbody]
    simp only [List.append_assoc, List.cons_append, List.nil_append]
  have hend : ¬beginMarker <:+: "-----END CERTIFICATE".toList ++ (dashes ++ behind) :=
    not_isInfix_append (by decide) h
  rw [hsplit]
  refine not_isInfix_append ?_ (not_isInfix_append_of_notMem hdash hend)
  simp only [List.mem_cons, List.not_mem_nil, or_false] at hc
  rcases hc with rfl | rfl | rfl | rfl <;> decide

/-- Behind the first character of a block the text goes on with the rest of the block. -/
theorem cstr_drop_header {s before behind : Str} {block : PemBlock}
    (h : cstr s = before ++ (block.text ++ behind)) :
    before.length < s.length ∧ cstr (s.drop (before.length + 1)) = block.text.tail ++ behind := by
  have htext : block.text = '-' :: block.text.tail := rfl
  have hlength : before.length + 1 ≤ (cstr s).length := by
    rw [h, htext]
    simp only [List.length_append, List.length_cons]
    omega
  refine ⟨hlength.trans (List.takeWhile_prefix _).length_le, ?_⟩
  rw [cstr_drop hlength, h, htext, ← List.drop_drop, List.drop_left]
  rfl

/-! ### The contexts that are handed over -/

variable {σ : Type}

/-- The context that a call hands to the store. -/
def MtlsEvent.handed : MtlsEvent → Option CertContextData
  | .succeeded (.certAddCertificateContextToStore ctx) _ => some ctx
  | .failed (.certAddCertificateContextToStore ctx) => some ctx
  | _ => none

/-- The contexts handed to the store so far, in this order. -/
def Handed (ctxs : List CertContextData) (s : MtlsState σ) : Prop :=
  s.log.filterMap MtlsEvent.handed = ctxs

/-- A quiet event hands no certificate over. -/
theorem handed_quiet {e : MtlsEvent} (h : e.Quiet) : e.handed = none := by
  cases e with
  | succeeded c id => cases c <;> first | rfl | cases h
  | failed c => cases c <;> first | rfl | cases h
  | _ => rfl

/-- An event that hands nothing over leaves the certificates that were handed. -/
theorem Handed.append {ctxs : List CertContextData} {s : MtlsState σ} (h : Handed ctxs s)
    {e : MtlsEvent} (he : e.handed = none) : Handed ctxs { s with log := s.log ++ [e] } := by
  unfold Handed at h ⊢
  simp [h, he]

/-- The clean-up hands nothing over. -/
theorem Handed.cleared {ctxs : List CertContextData} {s : MtlsState σ} (h : Handed ctxs s) :
    Handed ctxs s.cleared := by
  have hreleases : (s.cleanUp.map MtlsEvent.release).filterMap MtlsEvent.handed = [] := by
    refine List.filterMap_eq_nil_iff.mpr fun e he => ?_
    obtain ⟨r, -, rfl⟩ := List.mem_map.mp he
    rfl
  have hlog : s.cleared.log.filterMap MtlsEvent.handed = s.log.filterMap MtlsEvent.handed := by
    rw [MtlsState.cleared, List.filterMap_append, hreleases, List.append_nil]
  exact hlog.trans h

/-- A fault is the code of a call that failed. -/
def FailedCall (api : MtlsApi σ) (f : Fault ℕ) : Prop :=
  ∃ code log c, f = .thrown code ∧ api.lastError log c = some code

/-- Quiet steps hand nothing over. -/
theorem handed_frame (api : MtlsApi σ) (ctxs : List CertContextData) :
    Frame api (Handed ctxs) fun f s => FailedCall api f ∧ Handed ctxs s where
  record _ _ he hs := hs.append (handed_quiet he)
  assign _ _ _ hs := hs
  fails s c code hc hs hlast :=
    ⟨⟨code, s.log, c, rfl, hlast⟩, hs.append (handed_quiet (e := .failed c) hc)⟩

/-- A certificate that is added to the store is the next one that was handed. -/
theorem addToStore_handed (api : MtlsApi σ) (ctxs : List CertContextData) (ctx : CertContextData) :
    Contract (Handed ctxs) (api.addToStore ctx) (fun _ => Handed (ctxs ++ [ctx]))
      fun f _ => FailedCall api f := by
  have hcall : Contract (Handed ctxs) (api.call (.certAddCertificateContextToStore ctx))
      (fun _ => Handed (ctxs ++ [ctx])) fun f _ => FailedCall api f := by
    refine call_contract (fun s hs _ => ?_) fun s code _ hlast => ⟨code, s.log, _, rfl, hlast⟩
    unfold Handed at hs ⊢
    simp [hs, MtlsEvent.handed]
  exact hcall.bind fun _ => Contract.modify fun _ hs => hs

/-! ### What is decoded -/

/-- There is memory left whenever some is allocated. -/
def HasMemory (api : MtlsApi σ) : Prop := ∀ log size, api.hasMemory log size = true

/-- Nothing is known of the result of a call. -/
theorem call_any (api : MtlsApi σ) (c : MtlsCall) : Yields (api.call c) fun _ => True :=
  Yields.any _

/-- The question for a size gives the decoding of the text. -/
theorem querySize_yields (api : MtlsApi σ) (text : Str) :
    Yields (api.querySize text) fun decoding => decoding = api.stringToBinary text :=
  (call_any api _).bind fun _ _ => Yields.pure rfl

/-- An allocation succeeds when memory is there. -/
theorem allocInto_yields (api : MtlsApi σ) (x : Local) (size : ℕ) :
    Yields (api.allocInto x size) fun allocated => HasMemory api → allocated = true := by
  refine Contract.get_bind fun s _ => Contract.pre ?_ fun _ _ => trivial
  refine Yields.bind (Yields.any _) fun _ _ => Yields.bind (Yields.any _) fun _ _ =>
    Yields.pure fun hmemory => ?_
  simp [hmemory s.log size]

/-- The bytes are those of the decoding when memory is there. -/
theorem decryptInto_yields (api : MtlsApi σ) (text : Str) (decoding : PemDecoding) :
    Yields (api.decryptInto text decoding) fun encoded =>
      HasMemory api → encoded = decoding.bytes := by
  refine (allocInto_yields api _ _).bind fun allocated hallocated => ?_
  refine (call_any api _).bind fun _ _ => Yields.pure fun hmemory => ?_
  rw [hallocated hmemory, if_pos rfl]

/-- A context is that of the encoded certificate. -/
theorem createContext_yields (api : MtlsApi σ) (x : Local) (encoded : Str) :
    Yields (api.createContext x encoded) fun ctx => ctx.encoded = encoded :=
  (Yields.any _).bind fun _ _ => Yields.pure rfl

/-- The certificate is the decoding of the first block and the rest lies behind its skip. -/
theorem readCertificate_yields (api : MtlsApi σ) (crt : Str) :
    Yields (api.readCertificate crt) fun read =>
      (HasMemory api → read.1.encoded = (api.stringToBinary crt).bytes) ∧
        read.2 = (api.stringToBinary crt).skip := by
  refine (querySize_yields api crt).bind fun decoding hdecoding => ?_
  refine (decryptInto_yields api crt decoding).bind fun encoded hencoded => ?_
  refine (createContext_yields api .ctx_ encoded).bind fun ctx hctx => Yields.pure ?_
  rw [← hdecoding, hctx]
  exact ⟨hencoded, rfl⟩

/-- One turn hands over the certificate that is decoded, and returns what is skipped. -/
theorem loadCertificate_handed (api : MtlsApi σ) (ctxs : List CertContextData) (pos : Str) :
    Contract (Handed ctxs) (api.loadCertificate pos)
      (fun skip s => skip = (api.stringToBinary (cstr pos)).skip ∧ ∃ ctx : CertContextData,
        (HasMemory api → ctx.encoded = (api.stringToBinary (cstr pos)).bytes) ∧
          Handed (ctxs ++ [ctx]) s)
      fun f _ => FailedCall api f := by
  have frame := (handed_frame api ctxs).mono fun _ _ h => h.1
  refine (frame.releaseLocal _).bind fun _ => ?_
  refine ((querySize_yields api _).add (frame.querySize _)).bind fun decoding =>
    Contract.assuming fun hdecoding => ?_
  refine ((decryptInto_yields api _ decoding).add (frame.decryptInto _ _)).bind fun encoded =>
    Contract.assuming fun hencoded => ?_
  refine ((createContext_yields api .ctx__ encoded).add (frame.createContext _ _)).bind fun ctx =>
    Contract.assuming fun hctx => ?_
  have frame' := (handed_frame api (ctxs ++ [ctx])).mono fun _ _ h => h.1
  refine (addToStore_handed api ctxs ctx).bind fun _ => (frame'.releaseLocal _).bind fun _ =>
    (frame'.assignLocal _ _).bind fun _ => Contract.pure fun s hs => ?_
  rw [← hdecoding]
  exact ⟨rfl, ctx, hctx ▸ hencoded, hs⟩

/-! ### The loop -/

/-- `CryptStringToBinaryA` decodes the first block of a text, and tells how many characters
stand before it. -/
def DecodesFirstBlock (api : MtlsApi σ) (bytes : PemBlock → Str) : Prop :=
  ∀ before block rest, ¬beginMarker <:+: before → nul ∉ before →
    api.stringToBinary (before ++ (block.text ++ rest)) =
      { skip := before.length, bytes := bytes block }

/-- A marker does not overlap with itself. -/
theorem unbordered_beginMarker : Unbordered beginMarker := by decide

/-- A marker has no null character. -/
theorem nul_notMem_beginCertificate : nul ∉ beginCertificate := by decide

/-- Behind the last block no header is found. -/
theorem strstr_of_unmarked {s : Str} (h : ¬beginMarker <:+: cstr s) :
    strstr beginCertificate s = none := by
  refine strstr_eq_none (by decide) nul_notMem_beginCertificate fun hheader => h ?_
  have hprefix : beginMarker <+: beginCertificate := by decide
  exact hprefix.isInfix.trans hheader

/-- The next header is found behind a text without a marker. -/
theorem strstr_header {s front behind : Str} {block : PemBlock}
    (hs : cstr s = front ++ (block.text ++ behind)) (hfront : ¬beginMarker <:+: front) :
    ∃ next, strstr beginCertificate s = some next ∧ cstr next = block.text ++ behind := by
  obtain ⟨junk, hjunk⟩ : cstr s <+: s := List.takeWhile_prefix _
  have hnul : nul ∉ front := fun h => nul_notMem_cstr s (hs ▸ List.mem_append_left _ h)
  let next := beginCertificate ++ ((block.body ++ endCertificate) ++ behind ++ junk)
  have hsplit : s = front ++ next := by
    rw [← hjunk, hs]
    simp only [next, PemBlock.text, List.append_assoc]
  refine ⟨next, ?_, ?_⟩
  · rw [hsplit]
    exact strstr_append unbordered_beginMarker (by decide) hfront hnul (by decide) _
  · have hcstr : front ++ cstr next = front ++ (block.text ++ behind) := by
      rw [← cstr_append hnul, ← hsplit, hs]
    exact List.append_cancel_left hcstr

section Chain

variable {api : MtlsApi σ} {bytes : PemBlock → Str} (hdecodes : DecodesFirstBlock api bytes)

include hdecodes

/-- From behind the first dash of a block the loop hands over the blocks that follow. The
induction is on these. -/
theorem loadChain_handed (others : List (PemBlock × Str)) :
    ∀ (pos front : Str) (pdwSkip : ℕ) (ctxs : List CertContextData), pdwSkip < pos.length →
      cstr (pos.drop (pdwSkip + 1)) = front ++ chainText others → ¬beginMarker <:+: front →
      (∀ p ∈ others, ¬beginMarker <:+: dashes ++ p.2) →
      Contract (Handed ctxs) (api.loadChain pos pdwSkip)
        (fun _ s => ∃ chain : List CertContextData,
          (HasMemory api → chain.map CertContextData.encoded = others.map fun p => bytes p.1) ∧
            Handed (ctxs ++ chain) s)
        fun f _ => FailedCall api f := by
  induction others with
  | nil =>
    intro pos front pdwSkip ctxs hlength htext hfront _
    have hnone : strstr beginCertificate (pos.drop (pdwSkip + 1)) = none :=
      strstr_of_unmarked (by simpa [htext, chainText] using hfront)
    rw [loadChain_of_none (by omega) hnone]
    refine Contract.pure fun s hs => ⟨[], fun _ => rfl, ?_⟩
    rw [List.append_nil]
    exact hs
  | cons p others ih =>
    obtain ⟨block, behind⟩ := p
    intro pos front pdwSkip ctxs hlength htext hfront hbehind
    obtain ⟨hblock, hothers⟩ := List.forall_mem_cons.mp hbehind
    obtain ⟨next, hnext, hcstr⟩ := strstr_header htext hfront
    have hread : api.stringToBinary (cstr next) = { skip := 0, bytes := bytes block } := by
      rw [hcstr]
      exact hdecodes [] block _ (by decide) List.not_mem_nil
    obtain ⟨hlt, hdrop⟩ := cstr_drop_header (List.nil_append _ ▸ hcstr : cstr next = [] ++ _)
    rw [← List.append_assoc] at hdrop
    rw [loadChain_of_some (by omega) hnext]
    refine (loadCertificate_handed api ctxs next).bind fun skip => Contract.assuming fun hskip => ?_
    rw [hread] at hskip ⊢
    intro s hs
    obtain ⟨ctx, hctx, hs⟩ := hs
    rw [hskip]
    refine (ih next _ 0 (ctxs ++ [ctx]) hlt hdrop (block.unmarked hblock) hothers).mono
      (fun _ h => h) (fun _ t ht => ?_) (fun _ _ h => h) s hs
    obtain ⟨chain, hchain, ht⟩ := ht
    refine ⟨ctx :: chain, fun hmemory => ?_, ?_⟩
    · rw [List.map_cons, List.map_cons, hctx hmemory, hchain hmemory]
    · rw [← List.append_cons] at ht
      exact ht

end Chain

/-! ### A request -/

/-- The clearing of the store hands nothing over. -/
theorem clearStore_handed (api : MtlsApi σ) (ctxs : List CertContextData) (n : ℕ)
    (pCertContext : Option Certificate) :
    Contract (Handed ctxs) (api.clearStore n pCertContext) (fun _ => Handed ctxs)
      fun f _ => FailedCall api f ∨ f = .undefined := by
  have frame := (handed_frame api ctxs).mono fun f _ h => Or.inl (b := f = .undefined) h.1
  have henumerate : ∀ c, Contract (Handed ctxs) (api.enumCertificates c) (fun _ => Handed ctxs)
      fun f _ => FailedCall api f ∨ f = .undefined := fun c =>
    Contract.get_bind fun s hs => Contract.pre (frame.recordEvent.bind fun _ =>
      (frame.assignLocal _ _).bind fun _ => Contract.pure fun _ ht => ht) fun t ht => ht ▸ hs
  have hdelete : ∀ c, Contract (Handed ctxs) (api.deleteCertificate c) (fun _ => Handed ctxs)
      fun f _ => FailedCall api f ∨ f = .undefined := fun c =>
    frame.recordEvent.bind fun _ => Contract.bind
      (call_contract (fun _ hs _ => hs.append rfl) fun s code _ hlast =>
        Or.inl ⟨code, s.log, _, rfl, hlast⟩)
      fun _ => Contract.modify fun _ hs => hs
  induction n generalizing pCertContext with
  | zero => exact Contract.throw fun _ _ => Or.inr rfl
  | succ n ih =>
    refine (henumerate pCertContext).bind fun next => ?_
    cases next with
    | none => exact Contract.pure fun _ hs => hs
    | some c => exact (hdelete c).bind fun _ => (henumerate _).bind fun next => ih next

/-- Opening the store hands nothing over, and ends. -/
theorem openStore_handed (api : MtlsApi σ) (store : σ) :
    Contract (fun s => Handed [] s ∧ s.store = store) api.openStore (fun _ => Handed [])
      fun f _ => FailedCall api f := by
  have frame := (handed_frame api []).mono fun f _ h => Or.inl (b := f = .undefined) h.1
  have hopen : Contract (Handed []) api.openStore (fun _ => Handed [])
      fun f _ => FailedCall api f ∨ f = .undefined :=
    (frame.acquireInto _ _).bind fun _ => Contract.get_bind fun s hs =>
      (clearStore_handed api [] _ none).pre fun t ht => ht ▸ hs
  exact (hopen.and (openStore_survivors api store)).mono (fun _ h => h) (fun _ _ h => h.1)
    fun f _ h => h.1.resolve_right h.2

/-- Contexts of these blocks were handed over, the one of the first block at last. -/
def HandedBlocks (api : MtlsApi σ) (first : Str) (others : List Str) (ctx : CertContextData)
    (s : MtlsState σ) : Prop :=
  ∃ chain : List CertContextData,
    (HasMemory api → ctx.encoded = first ∧ chain.map CertContextData.encoded = others) ∧
      Handed (chain ++ [ctx]) s

section Request

variable {api : MtlsApi σ} {bytes : PemBlock → Str} (hdecodes : DecodesFirstBlock api bytes)
  {kp : MTLSKeyPair} {before behind : Str} {block : PemBlock} {others : List (PemBlock × Str)}
  (htext : cstr kp.crt = before ++ chainText ((block, behind) :: others))
  (hbefore : ¬beginMarker <:+: before)
  (hbehind : ∀ p ∈ (block, behind) :: others, ¬beginMarker <:+: dashes ++ p.2)

include hdecodes htext hbefore hbehind

omit hbehind in
/-- The first block of the certificate text is decoded. -/
theorem stringToBinary_crt :
    api.stringToBinary kp.crt = { skip := before.length, bytes := bytes block } := by
  obtain ⟨junk, hjunk⟩ : cstr kp.crt <+: kp.crt := List.takeWhile_prefix _
  have hnul : nul ∉ before := fun h => nul_notMem_cstr kp.crt (htext ▸ List.mem_append_left _ h)
  rw [← hjunk, htext, List.append_assoc, chainText, List.append_assoc]
  exact hdecodes before block _ hbefore hnul

/-- The key pair hands over the blocks behind the first one, and then the first one. -/
theorem loadKeyPair_handed :
    Contract (Handed []) (api.loadKeyPair kp)
      (HandedBlocks api (bytes block) (others.map (bytes ·.1))) fun f _ => FailedCall api f := by
  have frame := handed_frame api []
  have frame' := frame.mono fun _ _ h => h.1
  obtain ⟨hblock, hothers⟩ := List.forall_mem_cons.mp hbehind
  obtain ⟨hlength, hdrop⟩ := cstr_drop_header htext
  rw [← List.append_assoc] at hdrop
  refine ((readCertificate_yields api kp.crt).add (frame'.readCertificate _)).bind fun read =>
    Contract.assuming fun hvalue => ?_
  obtain ⟨ctx, pdwSkip⟩ := read
  obtain ⟨hctx, hskip⟩ := hvalue
  rw [stringToBinary_crt hdecodes htext hbefore] at hctx hskip
  obtain rfl : pdwSkip = before.length := hskip
  have hkeyset : Contract (Handed []) api.acquireKeyset (fun _ => Handed [])
      fun f _ => FailedCall api f :=
    (frame.acquireKeyset fun _ _ h => h.2).mono (fun _ h => h) (fun _ _ h => h) fun _ _ h => h.1
  refine hkeyset.bind fun _ => (frame'.importKey _ _).bind fun _ => ?_
  have hchain := loadChain_handed hdecodes others kp.crt _ before.length [] hlength hdrop
    (block.unmarked hblock) hothers
  refine hchain.bind fun _ s hs => ?_
  obtain ⟨chain, hencoded, hs⟩ := hs
  refine ((addToStore_handed api chain ctx).bind fun _ => Contract.pure fun t ht => ?_) s hs
  exact ⟨chain, fun hmemory => ⟨hctx hmemory, hencoded hmemory⟩, ht⟩

/-- The function hands these blocks over and makes its request, unless a call fails. -/
theorem requestWithKeyPair_handed (request : CertContextData → ℕ) (store : σ) :
    Contract (fun s => Handed [] s ∧ s.store = store) (api.requestWithKeyPair kp request)
      (fun code s => ∃ ctx, code = request ctx ∧
        HandedBlocks api (bytes block) (others.map (bytes ·.1)) ctx s)
      fun f _ => FailedCall api f := by
  refine (openStore_handed api store).bind fun _ =>
    (loadKeyPair_handed hdecodes htext hbefore hbehind).bind fun ctx => ?_
  refine Contract.bind (Q := fun _ => HandedBlocks api (bytes block) (others.map (bytes ·.1)) ctx)
    (Contract.modify fun s hs => ?_) fun _ => Contract.pure fun s hs => ⟨ctx, rfl, hs⟩
  obtain ⟨chain, hencoded, hs⟩ := hs
  exact ⟨chain, hencoded, hs.append rfl⟩

/-- The loop over the chain ends, and when no call fails every block behind the first one is
added once and in order, and then the first one, with which the request is made. -/
theorem chain_handed (request : CertContextData → ℕ) (store : σ) :
    (doHttpRequestMtls_ api kp request store).1.isSome ∧
      ((∀ log c, api.lastError log c = none) → HasMemory api →
        ∃ (ctx : CertContextData) (chain : List CertContextData),
          (doHttpRequestMtls_ api kp request store).1 = some (request ctx) ∧
          (doHttpRequestMtls_ api kp request store).2.log.filterMap MtlsEvent.handed =
            chain ++ [ctx] ∧
          ctx.encoded = bytes block ∧
          chain.map CertContextData.encoded = others.map fun p => bytes p.1) := by
  obtain ⟨hok, herror⟩ := requestWithKeyPair_handed hdecodes htext hbefore hbehind request store
    { store } ⟨rfl, rfl⟩
  unfold doHttpRequestMtls_
  cases h : api.requestWithKeyPair kp request { store } with
  | ok code t =>
    obtain ⟨ctx, rfl, chain, hencoded, ht⟩ := hok code t h
    refine ⟨rfl, fun _ hmemory => ⟨ctx, chain, rfl, ?_, hencoded hmemory⟩⟩
    exact Handed.cleared ht
  | error f t =>
    obtain ⟨code, log, c, rfl, hlast⟩ := herror f t h
    refine ⟨rfl, fun hsucceeds _ => ?_⟩
    rw [hsucceeds] at hlast
    cases hlast

end Request

/-! ### An API that decodes blocks -/

/-- The letters of the encoding in the order of their values. -/
def base64Alphabet : Str :=
  "ABCDEFGHIJKLMNOPQRSTUVWXYZabcdefghijklmnopqrstuvwxyz0123456789+/".toList

/-- The bytes that groups of four values of six bits stand for. -/
def base64Bytes : List ℕ → Str
  | a :: b :: c :: d :: rest =>
    Char.ofNat (4 * a + b / 16) :: Char.ofNat (16 * (b % 16) + c / 4) ::
      Char.ofNat (64 * (c % 4) + d) :: base64Bytes rest
  | [a, b, c] => [Char.ofNat (4 * a + b / 16), Char.ofNat (16 * (b % 16) + c / 4)]
  | [a, b] => [Char.ofNat (4 * a + b / 16)]
  | _ => []

/-- The bytes of a body; white space and padding stand for nothing. -/
def base64Decode (body : Str) : Str :=
  base64Bytes ((body.filter (· ∈ base64Alphabet)).map base64Alphabet.idxOf)

/-- The first block of a text. -/
def pemDecode (text : Str) : PemDecoding :=
  match strstr beginCertificate text with
  | none => { skip := 0, bytes := [] }
  | some found =>
    { skip := text.length - found.length,
      bytes := base64Decode ((found.drop beginCertificate.length).takeWhile (· ≠ '-')) }

/-- An API without failures that decodes blocks. -/
def pemApi : MtlsApi NumberedStore := { numberedApi with stringToBinary := pemDecode }

/-- The library of the example decodes the first block of a text. -/
theorem pemApi_decodesFirstBlock :
    DecodesFirstBlock pemApi fun block => base64Decode block.body := by
  intro before block rest hbefore hnul
  have hbody : ∀ c ∈ block.body, decide (c ≠ '-') = true := by
    intro c hc
    have hne : c ≠ '-' := fun h => block.dash_notMem (h ▸ hc)
    simpa using hne
  have htake : (block.body ++ (endCertificate ++ rest)).takeWhile (· ≠ '-') = block.body := by
    have hdash : endCertificate ++ rest = '-' :: (endCertificate.tail ++ rest) := rfl
    rw [List.takeWhile_append_of_pos hbody, hdash, List.takeWhile_cons_of_neg (by decide),
      List.append_nil]
  have hfound : strstr beginCertificate
      (before ++ (beginCertificate ++ (block.body ++ (endCertificate ++ rest)))) =
      some (beginCertificate ++ (block.body ++ (endCertificate ++ rest))) :=
    strstr_append unbordered_beginMarker (by decide) hbefore hnul (by decide) _
  change pemDecode (before ++ (block.text ++ rest)) = _
  rw [PemBlock.text, List.append_assoc, List.append_assoc, pemDecode, hfound]
  simp only [List.length_append, Nat.add_sub_cancel, List.drop_left, htake]

/-- The block of the byte `A`. -/
def blockA : PemBlock := ⟨"\nQQ==\n".toList, ⟨'\n', by decide, rfl⟩, by decide⟩

/-- The block of the byte `B`. -/
def blockB : PemBlock := ⟨"\nQg==\n".toList, ⟨'\n', by decide, rfl⟩, by decide⟩

/-- Two blocks with text before, between and behind them. -/
def twoBlocks : MTLSKeyPair where
  crt := "a\n-----BEGIN CERTIFICATE-----\nQQ==\n-----END CERTIFICATE-----\n".toList ++
    "b\n-----BEGIN CERTIFICATE-----\nQg==\n-----END CERTIFICATE-----\n".toList
  key := []

/-- Of two blocks the second is added, and then the first. -/
theorem chain_handed_twoBlocks :
    ∃ (ctx : CertContextData) (chain : List CertContextData),
      (doHttpRequestMtls_ pemApi twoBlocks (fun _ => 0) (storeOf 0)).1 = some 0 ∧
      (doHttpRequestMtls_ pemApi twoBlocks (fun _ => 0) (storeOf 0)).2.log.filterMap
        MtlsEvent.handed = chain ++ [ctx] ∧
      ctx.encoded = "A".toList ∧ chain.map CertContextData.encoded = ["B".toList] := by
  have htext : cstr twoBlocks.crt =
      "a\n".toList ++ chainText [(blockA, "\nb\n".toList), (blockB, "\n".toList)] := by
    decide +kernel
  have hbehind : ∀ p ∈ [(blockA, "\nb\n".toList), (blockB, "\n".toList)],
      ¬beginMarker <:+: dashes ++ p.2 := by
    intro p hp
    rcases List.mem_pair.mp hp with rfl | rfl <;> decide
  exact (chain_handed pemApi_decodesFirstBlock htext (by decide) hbehind (fun _ => 0)
    (storeOf 0)).2 (fun _ _ => rfl) fun _ _ => rfl

end Up2date.Win
