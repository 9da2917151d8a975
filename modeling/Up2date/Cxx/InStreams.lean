import Mathlib.Data.List.Basic
import Mathlib.Data.Nat.Init

/-!
# Input streams

What a peer sends arrives in segments. A read returns a first part of the next segment; behind
the last one the stream is closed, or reading it fails. A reader takes a value from a stream.
It is described by what it makes of the elements still to come, so that how they are cut into
segments does not matter.
-/

namespace Cxx

variable {α β γ : Type*}

/-- The segments still to come, and whether reading fails behind them. -/
structure InStream (α : Type*) where
  segments : List { s : List α // s ≠ [] }
  broken : Bool := false

/-- What a read returns. -/
inductive Received (α : Type*)
  | data (chunk : List α) (rest : InStream α)
  | closed
  | failed

namespace InStream

/-- The elements still to come. -/
def content (strm : InStream α) : List α := (strm.segments.map Subtype.val).flatten

/-- Put back what is left of a segment. -/
def pushFront : List α → List { s : List α // s ≠ [] } → List { s : List α // s ≠ [] }
  | [], segments => segments
  | a :: s, segments => ⟨a :: s, List.cons_ne_nil a s⟩ :: segments

/-- Read at most so many elements. -/
def read (n : ℕ) (strm : InStream α) : Received α :=
  match strm.segments with
  | [] => if strm.broken then .failed else .closed
  | seg :: rest => .data (seg.val.take n) { strm with segments := pushFront (seg.val.drop n) rest }

/-- What is put back is to come first. -/
theorem flatten_pushFront (s : List α) (segments : List { s : List α // s ≠ [] }) :
    ((pushFront s segments).map Subtype.val).flatten = s ++ (segments.map Subtype.val).flatten := by
  cases s <;> rfl

/-- A read takes away a first part of what is to come. -/
theorem read_data {n : ℕ} {strm rest : InStream α} {chunk : List α} (hn : 0 < n)
    (h : strm.read n = .data chunk rest) :
    chunk ≠ [] ∧ chunk.length ≤ n ∧ strm.content = chunk ++ rest.content ∧
      rest.broken = strm.broken := by
  obtain ⟨segments, broken⟩ := strm
  cases segments with
  | nil => cases broken <;> simp [read] at h
  | cons seg rest' =>
    simp only [read, Received.data.injEq] at h
    obtain ⟨rfl, rfl⟩ := h
    obtain ⟨s, hs⟩ := seg
    refine ⟨?_, List.length_take_le n s, ?_, rfl⟩
    · have hne : n ≠ 0 := Nat.ne_of_gt hn
      simp [List.take_eq_nil_iff, hs, hne]
    · simp only [content, flatten_pushFront, List.map_cons, List.flatten_cons, ← List.append_assoc,
        List.take_append_drop]

/-- Nothing is read behind the end only. -/
theorem content_eq_nil_iff {strm : InStream α} : strm.content = [] ↔ strm.segments = [] := by
  obtain ⟨segments, broken⟩ := strm
  cases segments with
  | nil => simp [content]
  | cons seg rest =>
    obtain ⟨s, hs⟩ := seg
    simp [content, hs]

/-- Behind the end nothing is read. -/
theorem read_of_content_nil {n : ℕ} {strm : InStream α} (h : strm.content = []) :
    strm.read n = if strm.broken then .failed else .closed := by
  rw [read, content_eq_nil_iff.mp h]

/-- Before it something is. -/
theorem exists_read_of_ne_nil {strm : InStream α} (n : ℕ) (h : strm.content ≠ []) :
    ∃ chunk rest, strm.read n = .data chunk rest := by
  obtain ⟨segments, broken⟩ := strm
  cases segments with
  | nil => exact absurd rfl h
  | cons seg rest => exact ⟨_, _, rfl⟩

/-- A read of one element returns the next one. -/
theorem exists_read_one {strm : InStream α} {a : α} {tail : List α} (h : strm.content = a :: tail) :
    ∃ rest, strm.read 1 = .data [a] rest ∧ rest.content = tail ∧ rest.broken = strm.broken := by
  obtain ⟨chunk, rest, hread⟩ := exists_read_of_ne_nil 1 (h ▸ List.cons_ne_nil a tail)
  obtain ⟨hne, hlength, hcontent, hbroken⟩ := read_data Nat.one_pos hread
  obtain ⟨c, cs, rfl⟩ := List.exists_cons_of_ne_nil hne
  obtain rfl : cs = [] := List.eq_nil_of_length_eq_zero (by simpa using hlength)
  rw [h, List.cons_append, List.nil_append, List.cons.injEq] at hcontent
  exact ⟨rest, hcontent.1 ▸ hread, hcontent.2.symm, hbroken⟩

/-- A stream with these elements, in one segment. -/
def ofList (s : List α) (broken : Bool) : InStream α := ⟨pushFront s [], broken⟩

/-- The elements of a list are to come. -/
@[simp] theorem content_ofList (s : List α) (broken : Bool) : (ofList s broken).content = s :=
  (flatten_pushFront s []).trans (List.append_nil s)

/-- Such a stream ends as it was to. -/
@[simp] theorem broken_ofList (s : List α) (broken : Bool) : (ofList s broken).broken = broken := rfl

end InStream

/-! ### Readers -/

/-- Take a value from a stream, or fail. -/
abbrev Reader (α β : Type*) := InStream α → Option (β × InStream α)

/-- A reader takes a value from a stream exactly when the elements to come, and the way the
stream ends, allow it. -/
structure Parses (f : Reader α β) (P : Bool → List α → β → List α → Prop) : Prop where
  sound : ∀ {strm b rest}, f strm = some (b, rest) →
    P strm.broken strm.content b rest.content ∧ rest.broken = strm.broken
  complete : ∀ {strm b tail}, P strm.broken strm.content b tail →
    ∃ rest, f strm = some (b, rest) ∧ rest.content = tail

namespace Parses

variable {f : Reader α β} {P : Bool → List α → β → List α → Prop}

/-- A value is parsed from nothing. -/
theorem pure (b : β) :
    Parses (fun strm : InStream α => some (b, strm)) fun _ s b' tail => b' = b ∧ tail = s where
  sound h := by
    obtain ⟨rfl, rfl⟩ := Prod.mk.inj (Option.some.inj h)
    exact ⟨⟨rfl, rfl⟩, rfl⟩
  complete h := by
    obtain ⟨rfl, rfl⟩ := h
    exact ⟨_, rfl, rfl⟩

/-- The second of two readers starts where the first one ends. -/
theorem bind {g : β → Reader α γ} {Q : β → Bool → List α → γ → List α → Prop} (hf : Parses f P)
    (hg : ∀ b, Parses (g b) (Q b)) :
    Parses (fun strm => (f strm).bind fun r => g r.1 r.2) fun broken s c tail =>
      ∃ b mid, P broken s b mid ∧ Q b broken mid c tail where
  sound h := by
    obtain ⟨⟨b, mid⟩, hb, hc⟩ := Option.bind_eq_some_iff.mp h
    obtain ⟨hP, hmid⟩ := hf.sound hb
    obtain ⟨hQ, hrest⟩ := (hg b).sound hc
    rw [hmid] at hQ
    exact ⟨⟨b, mid.content, hP, hQ⟩, hrest.trans hmid⟩
  complete h := by
    obtain ⟨b, mid, hP, hQ⟩ := h
    obtain ⟨rest, hb, rfl⟩ := hf.complete hP
    rw [← (hf.sound hb).2] at hQ
    obtain ⟨rest', hc, htail⟩ := (hg b).complete hQ
    exact ⟨rest', by rw [hb]; exact hc, htail⟩

/-- The elements to come determine what is read. -/
theorem functional (hf : Parses f P) {broken : Bool} {s tail tail' : List α} {b b' : β}
    (h : P broken s b tail) (h' : P broken s b' tail') : b' = b ∧ tail' = tail := by
  have hP : ∀ {b tail}, P broken s b tail →
      P (InStream.ofList s broken).broken (InStream.ofList s broken).content b tail := by simp
  obtain ⟨rest, hread, rfl⟩ := hf.complete (hP h)
  obtain ⟨rest', hread', rfl⟩ := hf.complete (hP h')
  obtain ⟨rfl, rfl⟩ := Prod.mk.inj (Option.some.inj (hread.symm.trans hread'))
  exact ⟨rfl, rfl⟩

end Parses

/-! ### Readers that find the end of what they read -/

/-- What is read ends by itself, whatever comes behind it and however the stream ends. -/
def Delimited (P : Bool → List α → β → List α → Prop) : Prop :=
  ∀ ⦃broken s b tail⦄, P broken s b tail →
    ∃ text, s = text ++ tail ∧ ∀ broken' tail', P broken' (text ++ tail') b tail'

section Delimited

variable {f : Reader α β} {P : Bool → List α → β → List α → Prop} {b : β}
  {strm strm' rest : InStream α}

/-- What is read is read again when more comes behind it. -/
theorem Delimited.exists_of_prefix (hP : Delimited P) (hf : Parses f P)
    (h : f strm = some (b, rest)) {more : List α} (hmore : strm'.content = strm.content ++ more) :
    ∃ rest', f strm' = some (b, rest') ∧ rest'.content = rest.content ++ more := by
  obtain ⟨text, hcontent, htext⟩ := hP (hf.sound h).1
  rw [hcontent, List.append_assoc] at hmore
  exact hf.complete (hmore ▸ htext strm'.broken (rest.content ++ more))

end Delimited

/-! ### Readers of the same bytes -/

/-- Streams with the same elements, however they are cut, that end in the same way. -/
def InStream.Alike (s t : InStream α) : Prop := s.content = t.content ∧ s.broken = t.broken

/-- Two readings take the same value and leave streams alike, or both fail. -/
def Agree (r r' : Option (β × InStream α)) : Prop :=
  r = none ∧ r' = none ∨ ∃ b rest rest', r = some (b, rest) ∧ r' = some (b, rest') ∧ rest.Alike rest'

/-- A reader does not depend on how its stream is cut. -/
def Steady (f : Reader α β) : Prop := ∀ s t : InStream α, s.Alike t → Agree (f s) (f t)

/-- What is described by the elements to come does not depend on how they are cut. -/
theorem Parses.steady {f : Reader α β} {P : Bool → List α → β → List α → Prop} (hf : Parses f P) :
    Steady f := by
  have hsome : ∀ {s t rest : InStream α} {b : β}, s.Alike t → f s = some (b, rest) →
      ∃ rest', f t = some (b, rest') ∧ rest.Alike rest' := by
    intro s t rest b halike h
    obtain ⟨hP, hrest⟩ := hf.sound h
    rw [halike.1, halike.2] at hP
    obtain ⟨rest', hread, hcontent⟩ := hf.complete hP
    refine ⟨rest', hread, hcontent.symm, ?_⟩
    rw [(hf.sound hread).2, hrest, halike.2]
  intro s t halike
  cases hs : f s with
  | some r =>
    obtain ⟨b, rest⟩ := r
    obtain ⟨rest', ht, hrest⟩ := hsome halike hs
    exact Or.inr ⟨b, rest, rest', rfl, ht, hrest⟩
  | none =>
    cases ht : f t with
    | none => exact Or.inl ⟨rfl, rfl⟩
    | some r =>
      obtain ⟨rest', hs', -⟩ := hsome ⟨halike.1.symm, halike.2.symm⟩ ht
      cases hs.symm.trans hs'

end Cxx
