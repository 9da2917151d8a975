import Up2date.Cxx.Effects
import Up2date.Modules.UriParse
import Mathlib.Data.List.Forall2

/-!
# Exceptions of the DDI client

The exception types of the library, the standard exceptions its callees raise, and
everything else that user code may throw through it.
-/

namespace Up2date.Ddi

open Cxx

/-- The status of a request without valid credentials. -/
def HTTP_UNAUTHORIZED : ℤ := 401

/-- The status of a request that was served. -/
def HTTP_OK : ℤ := 200

/-- The exceptions that can pass through the client. -/
inductive Exn
  | unauthorizedException
  | httpUnexpectedCodeException (presented expected : ℤ)
  | unexpectedPayload
  | wrongResponse
  | httpLibError (errorNum : ℤ)
  | clientInitializeError (msg : Str)
  | std (e : StdException)
  | user (n : ℕ)
deriving DecidableEq, Repr

/-- A status other than the expected one throws, 401 with its own exception. -/
def checkHttpCode (presented expected : ℤ) : Except Exn Unit :=
  if presented = HTTP_UNAUTHORIZED then .error .unauthorizedException
  else if presented ≠ expected then .error (.httpUnexpectedCodeException presented expected)
  else .ok ()

/-- The check against 200 has exactly three outcomes. -/
theorem checkHttpCode_ok_iff (status : ℤ) :
    checkHttpCode status HTTP_OK = .ok () ↔ status = HTTP_OK := by
  unfold checkHttpCode HTTP_UNAUTHORIZED HTTP_OK
  split
  · simp_all
  · split <;> simp_all

/-- Only the status 401 is reported as unauthorized. -/
theorem checkHttpCode_unauthorized_iff (status : ℤ) :
    checkHttpCode status HTTP_OK = .error .unauthorizedException ↔ status = HTTP_UNAUTHORIZED := by
  unfold checkHttpCode
  split
  · simp_all
  · split <;> simp_all

/-- The outcome of code that reads a payload. -/
abbrev Decoder (α : Type) := Except (Fault Exn) α

namespace Decoder

/-- Use an accessor; outside its precondition the behaviour is undefined. -/
def demand {α : Type} : Option α → Decoder α
  | some a => .ok a
  | none => .error .undefined

/-- Throw an exception of the library. -/
def raise {α : Type} (e : Exn) : Decoder α := .error (.thrown e)

/-- Let an exception of a standard function pass. -/
def ofStd {α : Type} : Except StdException α → Decoder α
  | .ok a => .ok a
  | .error e => raise (.std e)

/-- A decoder that returns. -/
def Returns {α : Type} (d : Decoder α) : Prop := ∃ a, d = .ok a

/-- A decoder that reports an invalid payload. -/
def Rejects {α : Type} (d : Decoder α) : Prop := d = raise .unexpectedPayload

/-- A decoder that returns or reports an invalid payload, and nothing else. -/
def Clean {α : Type} (d : Decoder α) : Prop := Returns d ∨ Rejects d

section Outcomes

variable {α β : Type}

/-- A decoder that returns a value returns no other. -/
@[simp] theorem pure_eq_ok_iff {a b : α} : (pure a : Decoder α) = .ok b ↔ a = b :=
  Except.ok.injEq a b ▸ Iff.rfl

/-- A value that is demanded is the one that is there. -/
@[simp] theorem demand_eq_ok_iff {o : Option α} {a : α} : demand o = .ok a ↔ o = some a := by
  cases o <;> simp [demand]

/-- A demand returns exactly when the value is there. -/
@[simp] theorem returns_demand_iff {o : Option α} : Returns (demand o) ↔ ∃ a, o = some a := by
  simp only [Returns, demand_eq_ok_iff]

/-- A decoder that throws returns nothing. -/
@[simp] theorem raise_ne_ok {e : Exn} {a : α} : (raise e : Decoder α) ≠ .ok a := by simp [raise]

/-- A call of the standard library returns what it returns in a decoder. -/
@[simp] theorem ofStd_eq_ok_iff {r : Except StdException α} {a : α} :
    ofStd r = .ok a ↔ r = .ok a := by
  cases r <;> simp [ofStd, raise]

/-- A sequence returns through both of its steps. -/
theorem bind_eq_ok_iff {d : Decoder α} {k : α → Decoder β} {b : β} :
    d >>= k = .ok b ↔ ∃ a, d = .ok a ∧ k a = .ok b := by
  cases d <;> simp [bind, Except.bind]

/-- Returning, when the returned value does not matter. -/
theorem exists_eq_ok_iff {d : Decoder α} : (∃ a, d = .ok a) ↔ Returns d := Iff.rfl

/-- A plain value is returned. -/
@[simp] theorem returns_pure {a : α} : Returns (pure a : Decoder α) := ⟨a, rfl⟩

/-- A sequence returns when its first step returns into a returning second step. -/
theorem returns_bind_iff {d : Decoder α} {k : α → Decoder β} :
    Returns (d >>= k) ↔ ∃ a, d = .ok a ∧ Returns (k a) := by
  cases d <;> simp [bind, Except.bind, Returns]

/-- A plain value refuses nothing. -/
@[simp] theorem not_rejects_pure {a : α} : ¬ Rejects (pure a : Decoder α) := nofun

/-- A decoder that returned has refused nothing. -/
@[simp] theorem not_rejects_ok {a : α} : ¬ Rejects (.ok a : Decoder α) := nofun

/-- A missing value is an assertion that fails, not a refusal. -/
@[simp] theorem not_rejects_demand {o : Option α} : ¬ Rejects (demand o) := by
  cases o <;> simp [demand, Rejects, raise]

/-- An exception of the standard library is no refusal. -/
@[simp] theorem not_rejects_ofStd {r : Except StdException α} : ¬ Rejects (ofStd r) := by
  cases r <;> simp [ofStd, Rejects, raise]

/-- The exception unexpected_payload is the refusal. -/
@[simp] theorem rejects_raise : Rejects (raise .unexpectedPayload : Decoder α) := rfl

/-- A sequence rejects in its first step, or in its second after the first returned. -/
theorem rejects_bind_iff {d : Decoder α} {k : α → Decoder β} :
    Rejects (d >>= k) ↔ Rejects d ∨ ∃ a, d = .ok a ∧ Rejects (k a) := by
  cases d <;> simp [bind, Except.bind, Rejects, raise]

/-- A plain value is clean. -/
@[simp] theorem clean_pure {a : α} : Clean (pure a : Decoder α) := Or.inl ⟨a, rfl⟩

/-- Undefined behaviour is neither of the two allowed outcomes. -/
theorem not_clean_undefined : ¬ Clean (.error .undefined : Decoder α) := by
  simp [Clean, Returns, Rejects, raise]

/-- A sequence is clean when its first step rejects, or returns into a clean second step. -/
theorem clean_bind_iff {d : Decoder α} {k : α → Decoder β} :
    Clean (d >>= k) ↔ Rejects d ∨ ∃ a, d = .ok a ∧ Clean (k a) := by
  simp only [Clean, returns_bind_iff, rejects_bind_iff, and_or_left, exists_or]
  exact or_left_comm

/-- Rebuilding the value afterwards does not matter. -/
theorem clean_bind_pure_iff {d : Decoder α} {f : α → β} :
    Clean (d >>= fun a => pure (f a)) ↔ Clean d := by
  simp only [clean_bind_iff, clean_pure, and_true, exists_eq_ok_iff]
  exact or_comm

/-- A loop returns when the decoder returns on every item, in the same order. -/
theorem mapM_eq_ok_iff {decode : α → Decoder β} {items : List α} {out : List β} :
    items.mapM decode = .ok out ↔ List.Forall₂ (fun a b => decode a = .ok b) items out := by
  induction items generalizing out with
  | nil =>
    rw [List.mapM_nil, pure_eq_ok_iff, List.forall₂_nil_left_iff]
    exact eq_comm
  | cons a rest ih =>
    simp only [List.mapM_cons, bind_eq_ok_iff, ih, pure_eq_ok_iff]
    constructor
    · intro h
      obtain ⟨b, hb, bs, hbs, rfl⟩ := h
      exact List.Forall₂.cons hb hbs
    · intro h
      cases h with
      | cons hb hbs => exact ⟨_, hb, _, hbs, rfl⟩

/-- A loop returns when the decoder returns on every item. -/
theorem returns_mapM_iff {decode : α → Decoder β} {items : List α} :
    Returns (items.mapM decode) ↔ ∀ a ∈ items, Returns (decode a) := by
  induction items with
  | nil => simp [List.mapM_nil]
  | cons a rest ih =>
    simp only [List.mapM_cons, returns_bind_iff, returns_pure, and_true, List.forall_mem_cons]
    constructor
    · intro h
      obtain ⟨b, hb, hrest⟩ := h
      exact ⟨⟨b, hb⟩, ih.mp hrest⟩
    · intro h
      obtain ⟨⟨b, hb⟩, hrest⟩ := h
      exact ⟨b, hb, ih.mpr hrest⟩

/-- A loop rejects when it meets a rejected item after items on which the decoder returns. -/
theorem rejects_mapM_iff {decode : α → Decoder β} {items : List α} :
    Rejects (items.mapM decode) ↔ ∃ before a after, items = before ++ a :: after ∧
      (∀ x ∈ before, Returns (decode x)) ∧ Rejects (decode a) := by
  induction items with
  | nil => simp [List.mapM_nil]
  | cons a rest ih =>
    simp only [List.mapM_cons, rejects_bind_iff, ih, not_rejects_pure, and_false, exists_false,
      or_false]
    constructor
    · rintro (h | ⟨b, hb, before, x, after, rfl, hbefore, hx⟩)
      · exact ⟨[], a, rest, rfl, by simp, h⟩
      · exact ⟨a :: before, x, after, rfl, List.forall_mem_cons.mpr ⟨⟨b, hb⟩, hbefore⟩, hx⟩
    · intro h
      obtain ⟨before, x, after, hsplit, hbefore, hx⟩ := h
      cases before with
      | nil =>
        obtain ⟨rfl, rfl⟩ := List.cons.inj hsplit
        exact Or.inl hx
      | cons y before =>
        obtain ⟨rfl, rfl⟩ := List.cons.inj hsplit
        obtain ⟨⟨b, hb⟩, hrest⟩ := List.forall_mem_cons.mp hbefore
        exact Or.inr ⟨b, hb, before, x, after, rfl, hrest, hx⟩

end Outcomes

end Decoder

end Up2date.Ddi
