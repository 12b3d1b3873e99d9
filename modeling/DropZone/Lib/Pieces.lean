import Mathlib.Data.Finset.Card
import Mathlib.Order.Interval.Finset.Nat

/-!
# An array written in pieces

Pieces of an array are written over it in some order. When do they leave the array equal to the
source they were cut from?

* `overlay`, `overlayAll`: writing one piece, writing several in turn.
* `overlayAll_eq`: pieces of one source that cover it leave the source, in whatever order.
* `Span`: an offset and a length; `covers_iff_apart`: spans inside `n` positions whose lengths add up
  to `n` cover all of them exactly when no two overlap.
-/

namespace Pieces

/-! ## Spans -/

/-- An offset and a length. -/
abbrev Span := Nat × Nat

/-- The positions of a span. -/
def Span.positions (w : Span) : Finset Nat := Finset.Ico w.1 (w.1 + w.2)

/-- Every position below `n` is in some span. -/
def Covers (n : Nat) (ws : List Span) : Prop := ∀ i < n, ∃ w ∈ ws, i ∈ w.positions

/-- No two spans of the list share a position. -/
def Apart (ws : List Span) : Prop := ws.Pairwise fun v w => Disjoint v.positions w.positions

instance (ws : List Span) : Decidable (Apart ws) := inferInstanceAs (Decidable (ws.Pairwise _))

/-- The sum of the lengths. -/
def total (ws : List Span) : Nat := ws.foldr (fun w n => w.2 + n) 0

@[simp] theorem total_cons (w : Span) (ws : List Span) : total (w :: ws) = w.2 + total ws := rfl

theorem total_append (vs ws : List Span) : total (vs ++ ws) = total vs + total ws := by
  induction vs with
  | nil => simp [total]
  | cons v vs ih => simp [ih, Nat.add_assoc]

theorem total_perm {vs ws : List Span} (h : vs.Perm ws) : total vs = total ws := by
  induction h with
  | nil => rfl
  | cons w _ ih => rw [total_cons, total_cons, ih]
  | swap v w ws => simp only [total_cons, Nat.add_left_comm]
  | trans _ _ ih₁ ih₂ => exact ih₁.trans ih₂

/-- The positions of all spans. -/
def covered (ws : List Span) : Finset Nat := ws.foldr (fun w acc => w.positions ∪ acc) ∅

variable {ws : List Span}

theorem mem_covered {i : Nat} : i ∈ covered ws ↔ ∃ w ∈ ws, i ∈ w.positions := by
  induction ws with
  | nil => simp [covered]
  | cons w ws ih =>
    rw [covered, List.foldr_cons, Finset.mem_union, ← covered, ih]
    simp

theorem card_positions (w : Span) : w.positions.card = w.2 := by
  simp [Span.positions]

theorem card_covered_le (ws : List Span) : (covered ws).card ≤ total ws := by
  induction ws with
  | nil => simp [covered, total]
  | cons w ws ih =>
    have h := Finset.card_union_le w.positions (covered ws)
    rw [card_positions] at h
    rw [total_cons, covered, List.foldr_cons, ← covered]
    omega

/-- Spans are apart exactly when together they have as many positions as their lengths say. -/
theorem card_covered_iff (ws : List Span) : (covered ws).card = total ws ↔ Apart ws := by
  induction ws with
  | nil => simp [covered, total, Apart]
  | cons w ws ih =>
    have hle := Finset.card_union_le w.positions (covered ws)
    have hrest := card_covered_le ws
    have hdisj : Disjoint w.positions (covered ws) ↔ ∀ v ∈ ws, Disjoint w.positions v.positions := by
      simp only [Finset.disjoint_left, mem_covered]
      constructor
      · intro h v hv i hi hiv
        exact h hi ⟨v, hv, hiv⟩
      · rintro h i hi ⟨v, hv, hiv⟩
        exact h v hv hi hiv
    rw [Apart, List.pairwise_cons, ← Apart, ← ih, ← hdisj, ← Finset.card_union_eq_card_add_card,
      total_cons, covered, List.foldr_cons, ← covered, card_positions]
    rw [card_positions] at hle
    omega

theorem covered_subset {n : Nat} (hin : ∀ w ∈ ws, w.1 + w.2 ≤ n) :
    covered ws ⊆ Finset.range n := by
  intro i hi
  obtain ⟨w, hw, hiw⟩ := mem_covered.mp hi
  have hlt : i < w.1 + w.2 := (Finset.mem_Ico.mp hiw).2
  exact Finset.mem_range.mpr (Nat.lt_of_lt_of_le hlt (hin w hw))

/-- Spans inside `n` positions that are apart have at most `n` positions together. -/
theorem total_le_of_apart {n : Nat} (hin : ∀ w ∈ ws, w.1 + w.2 ≤ n)
    (hapart : Apart ws) : total ws ≤ n := by
  rw [← (card_covered_iff ws).mpr hapart, ← Finset.card_range n]
  exact Finset.card_le_card (covered_subset hin)

/-- Spans inside `n` positions whose lengths add up to `n` cover all positions exactly when no two
overlap. -/
theorem covers_iff_apart {n : Nat} (hin : ∀ w ∈ ws, w.1 + w.2 ≤ n)
    (htotal : total ws = n) : Covers n ws ↔ Apart ws := by
  have hsub := covered_subset hin
  have hcov : Covers n ws ↔ Finset.range n ⊆ covered ws := by
    refine forall_congr' fun i => ?_
    rw [Finset.mem_range, mem_covered]
  rw [hcov, ← card_covered_iff, htotal]
  constructor
  · intro h
    rw [Finset.Subset.antisymm hsub h, Finset.card_range]
  · intro h
    exact (Finset.eq_of_subset_of_card_le hsub (by rw [Finset.card_range, h])).ge

/-! ## Writing pieces -/

variable {α : Type}

/-- `data` written over `base` at `offset`. -/
def overlay (base : List α) (offset : Nat) (data : List α) : List α :=
  base.take offset ++ data ++ base.drop (offset + data.length)

/-- The pieces written in turn. -/
def overlayAll (base : List α) (ws : List (Nat × List α)) : List α :=
  ws.foldl (fun b w => overlay b w.1 w.2) base

@[simp] theorem overlayAll_append (base : List α) (ws : List (Nat × List α)) (w : Nat × List α) :
    overlayAll base (ws ++ [w]) = overlay (overlayAll base ws) w.1 w.2 := by
  simp [overlayAll]

theorem length_overlay {base data : List α} {offset : Nat}
    (h : offset + data.length ≤ base.length) : (overlay base offset data).length = base.length := by
  simp only [overlay, List.length_append, List.length_take, List.length_drop]
  omega

theorem getElem?_overlay {base data : List α} {offset : Nat}
    (h : offset + data.length ≤ base.length) (i : Nat) :
    (overlay base offset data)[i]? =
      if offset ≤ i ∧ i < offset + data.length then data[i - offset]? else base[i]? := by
  have hlen : (base.take offset).length = offset := by
    rw [List.length_take]
    omega
  unfold overlay
  by_cases h1 : i < offset
  · rw [if_neg (by omega), List.append_assoc, List.getElem?_append_left (by omega),
      List.getElem?_take_of_lt h1]
  · by_cases h2 : i < offset + data.length
    · rw [if_pos ⟨by omega, h2⟩, List.append_assoc, List.getElem?_append_right (by omega), hlen,
        List.getElem?_append_left (by omega)]
    · rw [if_neg (by omega), List.getElem?_append_right (by
        rw [List.length_append, hlen]; omega), List.getElem?_drop, List.length_append, hlen]
      congr 1
      omega

/-- `w` is the piece of `source` at its offset. -/
def PieceOf (source : List α) (w : Nat × List α) : Prop :=
  w.1 + w.2.length ≤ source.length ∧ w.2 = (source.drop w.1).take w.2.length

/-- Where a piece of the source was written, the array agrees with it; elsewhere it keeps what
agreed. -/
theorem overlayAll_agrees {source base : List α} {ws : List (Nat × List α)}
    (hlen : base.length = source.length) (hws : ∀ w ∈ ws, PieceOf source w) :
    (overlayAll base ws).length = source.length ∧
      ∀ i, (base[i]? = source[i]? ∨ ∃ w ∈ ws, i ∈ Span.positions (w.1, w.2.length)) →
        (overlayAll base ws)[i]? = source[i]? := by
  induction ws generalizing base with
  | nil =>
    refine ⟨hlen, fun i h => ?_⟩
    simpa [overlayAll] using h
  | cons w ws ih =>
    obtain ⟨hbound, hdata⟩ := hws w List.mem_cons_self
    rw [← hlen] at hbound
    obtain ⟨hlen', hagree⟩ := ih ((length_overlay hbound).trans hlen)
      fun v hv => hws v (List.mem_cons_of_mem _ hv)
    refine ⟨hlen', fun i h => hagree i ?_⟩
    -- Inside the piece the array has the source's value, outside it is unchanged.
    have hpiece : w.1 ≤ i → i < w.1 + w.2.length →
        (overlay base w.1 w.2)[i]? = source[i]? := by
      intro h1 h2
      rw [getElem?_overlay hbound, if_pos ⟨h1, h2⟩, hdata, List.getElem?_take_of_lt (by omega),
        List.getElem?_drop]
      congr 1
      omega
    by_cases hin : w.1 ≤ i ∧ i < w.1 + w.2.length
    · exact .inl (hpiece hin.1 hin.2)
    · rcases h with h | ⟨v, hv, hiv⟩
      · rw [getElem?_overlay hbound, if_neg hin]
        exact .inl h
      · rcases List.mem_cons.mp hv with rfl | hv
        · exact absurd (Finset.mem_Ico.mp hiv) hin
        · exact .inr ⟨v, hv, hiv⟩

/-- Pieces of a source that cover it leave the source. -/
theorem overlayAll_eq {source base : List α} {ws : List (Nat × List α)}
    (hlen : base.length = source.length) (hws : ∀ w ∈ ws, PieceOf source w)
    (hcovers : Covers source.length (ws.map fun w => (w.1, w.2.length))) :
    overlayAll base ws = source := by
  obtain ⟨hlen', hagree⟩ := overlayAll_agrees hlen hws
  apply List.ext_getElem?
  intro i
  by_cases hi : i < source.length
  · obtain ⟨s, hs, his⟩ := hcovers i hi
    obtain ⟨w, hw, rfl⟩ := List.mem_map.mp hs
    exact hagree i (.inr ⟨w, hw, his⟩)
  · rw [List.getElem?_eq_none (by omega), List.getElem?_eq_none (by omega)]

end Pieces
