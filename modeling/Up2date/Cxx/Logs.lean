import Mathlib.Computability.Language
import Mathlib.Order.CompletePartialOrder

/-!
# States with an append-only log

A computation that only appends to a log relates the state before to the state after by
the language of what it may append. For an iterated language this relation is reflexive
and transitive, so it is carried through a computation by the rules for such relations,
and a property of whole logs follows from the shape of their blocks.
-/

namespace Cxx

open Computability

variable {σ τ : Type*}

/-- The later log extends the earlier one by a word of the language. -/
def GrowsBy (log : σ → List τ) (L : Language τ) (s s' : σ) : Prop :=
  ∃ seg ∈ L, log s' = log s ++ seg

variable {log : σ → List τ} {K L : Language τ}

/-- Words of an iterated language can be appended. -/
theorem append_mem_kstar {u v : List τ} (hu : u ∈ L∗) (hv : v ∈ L∗) : u ++ v ∈ L∗ := by
  rw [← kstar_mul_kstar]
  exact Language.append_mem_mul hu hv

instance GrowsBy.instRefl : Std.Refl (GrowsBy log L∗) :=
  ⟨fun s => ⟨[], Language.nil_mem_kstar L, (List.append_nil (log s)).symm⟩⟩

instance GrowsBy.instIsTrans : IsTrans σ (GrowsBy log L∗) where
  trans := by
    rintro s t u ⟨first, hfirst, ht⟩ ⟨second, hsecond, hu⟩
    exact ⟨first ++ second, append_mem_kstar hfirst hsecond, by rw [hu, ht, List.append_assoc]⟩

/-- A part of the state is not changed. -/
def Keeps {β : Type*} (part : σ → β) (s s' : σ) : Prop := part s' = part s

instance Keeps.instRefl {β : Type*} (part : σ → β) : Std.Refl (Keeps part) := ⟨fun _ => rfl⟩

instance Keeps.instIsTrans {β : Type*} (part : σ → β) : IsTrans σ (Keeps part) :=
  ⟨fun _ _ _ hst htu => htu.trans hst⟩

/-- A part of the state is what the appended events make of it. -/
def Replays {β : Type*} (log : σ → List τ) (apply : β → τ → β) (part : σ → β) (s s' : σ) : Prop :=
  ∃ seg, log s' = log s ++ seg ∧ part s' = seg.foldl apply (part s)

instance Replays.instRefl {β : Type*} (log : σ → List τ) (apply : β → τ → β) (part : σ → β) :
    Std.Refl (Replays log apply part) :=
  ⟨fun s => ⟨[], (List.append_nil (log s)).symm, rfl⟩⟩

instance Replays.instIsTrans {β : Type*} (log : σ → List τ) (apply : β → τ → β) (part : σ → β) :
    IsTrans σ (Replays log apply part) where
  trans := by
    rintro s t u ⟨first, ht, hfirst⟩ ⟨second, hu, hsecond⟩
    refine ⟨first ++ second, ?_, ?_⟩
    · rw [hu, ht, List.append_assoc]
    · rw [hsecond, hfirst, List.foldl_append]

/-- The last letter of a word with a property. -/
theorem exists_last_of_mem {p : τ → Prop} {w : List τ} {e : τ} (he : e ∈ w) (hp : p e) :
    ∃ before e later, w = before ++ e :: later ∧ p e ∧ ∀ x ∈ later, ¬ p x := by
  induction w generalizing e with
  | nil => cases he
  | cons a rest ih =>
    by_cases hrest : ∃ x ∈ rest, p x
    · obtain ⟨x, hx, hpx⟩ := hrest
      obtain ⟨before, y, later, rfl, hy, hlater⟩ := ih hx hpx
      exact ⟨a :: before, y, later, rfl, hy, hlater⟩
    · have hlater : ∀ x ∈ rest, ¬ p x := fun x hx hpx => hrest ⟨x, hx, hpx⟩
      obtain rfl := (List.mem_cons.mp he).resolve_right fun hmem => hlater e hmem hp
      exact ⟨[], e, rest, rfl, hp, hlater⟩

/-- Every letter is allowed in the state that the letters before it lead to. -/
def Allowed {β : Type*} (apply : β → τ → β) (ok : β → τ → Prop) : β → List τ → Prop
  | _, [] => True
  | b, e :: rest => ok b e ∧ Allowed apply ok (apply b e) rest

section Allowed

variable {β : Type*} {apply : β → τ → β} {ok : β → τ → Prop}

/-- A log is allowed when its parts are, one behind the other. -/
theorem allowed_append (b : β) (first rest : List τ) :
    Allowed apply ok b (first ++ rest) ↔
      Allowed apply ok b first ∧ Allowed apply ok (first.foldl apply b) rest := by
  induction first generalizing b with
  | nil => simp [Allowed]
  | cons e first ih => simp [Allowed, ih, and_assoc]

/-- A log of entries that are always allowed is allowed. -/
theorem allowed_of_forall {b : β} {seg : List τ} (h : ∀ e ∈ seg, ∀ b, ok b e) :
    Allowed apply ok b seg := by
  induction seg generalizing b with
  | nil => trivial
  | cons e rest ih =>
    exact ⟨h e List.mem_cons_self b, ih fun x hx => h x (List.mem_cons_of_mem _ hx)⟩

/-- A letter of an allowed word is allowed where it comes. -/
theorem Allowed.of_append {b : β} {pre post : List τ} {e : τ}
    (h : Allowed apply ok b (pre ++ e :: post)) : ok (pre.foldl apply b) e :=
  ((allowed_append b pre (e :: post)).mp h).2.1

end Allowed

/-- A part of the state is what the appended events make of it, and each of them is allowed. -/
def Accounts {β : Type*} (log : σ → List τ) (apply : β → τ → β) (ok : β → τ → Prop) (part : σ → β)
    (s s' : σ) : Prop :=
  ∃ seg, log s' = log s ++ seg ∧ part s' = seg.foldl apply (part s) ∧ Allowed apply ok (part s) seg

section Accounts

variable {β : Type*} (log : σ → List τ) (apply : β → τ → β) (ok : β → τ → Prop) (part : σ → β)

instance Accounts.instRefl : Std.Refl (Accounts log apply ok part) :=
  ⟨fun s => ⟨[], (List.append_nil (log s)).symm, rfl, trivial⟩⟩

instance Accounts.instIsTrans : IsTrans σ (Accounts log apply ok part) where
  trans := by
    rintro s t u ⟨first, ht, hfirst, hallowed⟩ ⟨second, hu, hsecond, hallowed'⟩
    refine ⟨first ++ second, ?_, ?_, ?_⟩
    · rw [hu, ht, List.append_assoc]
    · rw [hsecond, hfirst, List.foldl_append]
    · rw [hfirst] at hallowed'
      exact (allowed_append _ first second).mpr ⟨hallowed, hallowed'⟩

end Accounts

/-- A single block of the iterated language is allowed. -/
theorem GrowsBy.block {s s' : σ} {seg : List τ} (h : seg ∈ L) (hlog : log s' = log s ++ seg) :
    GrowsBy log L∗ s s' :=
  ⟨seg, (le_kstar : L ≤ L∗) h, hlog⟩

/-- An unchanged log is allowed. -/
theorem GrowsBy.unchanged {s s' : σ} (hlog : log s' = log s) : GrowsBy log L∗ s s' :=
  ⟨[], Language.nil_mem_kstar L, by rw [hlog, List.append_nil]⟩

/-- A larger language allows more. -/
theorem GrowsBy.mono {s s' : σ} (hKL : K ≤ L) (h : GrowsBy log K s s') : GrowsBy log L s s' := by
  obtain ⟨seg, hseg, hlog⟩ := h
  exact ⟨seg, hKL hseg, hlog⟩

/-- The one-letter words over the letters with a property. -/
def letters (P : τ → Prop) : Language τ := {w | ∃ e, P e ∧ w = [e]}

/-- Words over the letters with a property are the lists of such letters. -/
theorem mem_letters_kstar {P : τ → Prop} {w : List τ} :
    w ∈ (letters P)∗ ↔ ∀ e ∈ w, P e := by
  constructor
  · intro h
    obtain ⟨blocks, rfl, hblocks⟩ := Language.mem_kstar.mp h
    intro e he
    obtain ⟨b, hb, heb⟩ := List.mem_flatten.mp he
    obtain ⟨x, hx, rfl⟩ := hblocks b hb
    rw [List.mem_singleton.mp heb]
    exact hx
  · intro h
    refine Language.mem_kstar.mpr ⟨w.map fun e => [e], ?_, fun b hb => ?_⟩
    · induction w with
      | nil => rfl
      | cons e w ih => simp [← ih fun x hx => h x (List.mem_cons_of_mem _ hx)]
    obtain ⟨e, he, rfl⟩ := List.mem_map.mp hb
    exact ⟨e, h e he, rfl⟩

/-- A word of an iterated language satisfies what every block does and concatenation keeps. -/
theorem kstar_induction {P : List τ → Prop} (hnil : P [])
    (happend : ∀ b w, b ∈ L → P w → P (b ++ w)) {w : List τ} (hw : w ∈ L∗) : P w := by
  obtain ⟨blocks, rfl, hblocks⟩ := Language.mem_kstar.mp hw
  induction blocks with
  | nil => exact hnil
  | cons b rest ih =>
    have hrest : ∀ y ∈ rest, y ∈ L := fun y hy => hblocks y (List.mem_cons_of_mem _ hy)
    exact happend b rest.flatten (hblocks b List.mem_cons_self)
      (ih hrest (Language.join_mem_kstar hrest))

/-- A log that grows step by step is made of what its steps append. -/
theorem log_eq_flatten {log block : ℕ → List τ} (h : ∀ n, log (n + 1) = log n ++ block n) (n : ℕ) :
    log n = log 0 ++ ((List.range n).map block).flatten := by
  induction n with
  | zero => exact (List.append_nil _).symm
  | succ n ih =>
    rw [h, ih, List.range_succ, List.map_append, List.flatten_append, List.append_assoc]
    simp

/-- What was appended is determined by the longer log. -/
theorem exists_append_iff {t earlier seg : List τ} (h : t = earlier ++ seg)
    {P : List τ → Prop} : (∃ seg, t = earlier ++ seg ∧ P seg) ↔ P seg := by
  constructor
  · intro hexists
    obtain ⟨seg', htrace, hP⟩ := hexists
    rw [List.append_cancel_left (h.symm.trans htrace)]
    exact hP
  · exact fun hP => ⟨seg, h, hP⟩

end Cxx
