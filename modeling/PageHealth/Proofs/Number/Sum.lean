import PageHealth.Proofs.Number.Order

/-! Sums of doubles that are not negative. A sum is at least each of its terms, and it stops growing
where the terms are too small to move it, so terms of bounded size never add up to infinity. -/
namespace PageHealth.Binary64

variable {x step limit start : Binary64} {xs ys : List Binary64}

theorem foldl_add_nonneg (hstart : 0 ≤ start) (nonneg : ∀ x ∈ xs, 0 ≤ x) :
    0 ≤ xs.foldl (· + ·) start ∧ start ≤ xs.foldl (· + ·) start := by
  induction xs generalizing start with
  | nil => exact ⟨hstart, le_refl_of_nonneg hstart⟩
  | cons x xs ih =>
    have hx := nonneg x List.mem_cons_self
    have step := ih (add_nonneg hstart hx) (fun y hy => nonneg y (List.mem_cons_of_mem _ hy))
    exact ⟨step.1, le_trans (le_add_right hstart hx) step.2⟩

theorem sum_nonneg (nonneg : ∀ x ∈ xs, 0 ≤ x) : 0 ≤ Scalar.sum xs :=
  (foldl_add_nonneg (nonneg_iff.mpr ⟨0, hasRank_zero⟩) nonneg).1

theorem mem_le_foldl_add (hstart : 0 ≤ start) (nonneg : ∀ x ∈ xs, 0 ≤ x) (member : x ∈ xs) :
    x ≤ xs.foldl (· + ·) start := by
  induction xs generalizing start with
  | nil => cases member
  | cons y ys ih =>
    have hy := nonneg y List.mem_cons_self
    have others := fun z hz => nonneg z (List.mem_cons_of_mem _ hz)
    rcases List.mem_cons.mp member with rfl | later
    · exact le_trans (le_add_left hstart hy) (foldl_add_nonneg (add_nonneg hstart hy) others).2
    · exact ih (add_nonneg hstart hy) others later

theorem mem_le_sum (nonneg : ∀ x ∈ xs, 0 ≤ x) (member : x ∈ xs) : x ≤ Scalar.sum xs :=
  mem_le_foldl_add (nonneg_iff.mpr ⟨0, hasRank_zero⟩) nonneg member

theorem foldl_add_le_foldl_add {other : Binary64} (hstart : 0 ≤ start) (ordered : start ≤ other)
    (nonneg : ∀ x ∈ xs, 0 ≤ x) (below : List.Forall₂ (· ≤ ·) xs ys) :
    xs.foldl (· + ·) start ≤ ys.foldl (· + ·) other := by
  induction below generalizing start other with
  | nil => exact ordered
  | cons head _ ih =>
    have hx := nonneg _ List.mem_cons_self
    exact ih (add_nonneg hstart hx) (add_le_add hstart hx ordered head)
      (fun y hy => nonneg y (List.mem_cons_of_mem _ hy))

theorem sum_le_sum (nonneg : ∀ x ∈ xs, 0 ≤ x) (below : List.Forall₂ (· ≤ ·) xs ys) :
    Scalar.sum xs ≤ Scalar.sum ys :=
  have none := nonneg_iff.mpr ⟨0, hasRank_zero⟩
  foldl_add_le_foldl_add none (le_refl_of_nonneg none) nonneg below

/-- A limit that a term of the size of a step does not move is never passed by such terms. -/
theorem sum_le_of_absorbs (limited : 0 ≤ limit) (absorbs : limit + step ≤ limit)
    (bounded : ∀ x ∈ xs, 0 ≤ x ∧ x ≤ step) : Scalar.sum xs ≤ limit := by
  have run : ∀ (ys : List Binary64) (start : Binary64), (∀ y ∈ ys, 0 ≤ y ∧ y ≤ step) → 0 ≤ start →
      start ≤ limit → ys.foldl (· + ·) start ≤ limit := by
    intro ys
    induction ys with
    | nil => exact fun _ _ _ below => below
    | cons y ys ih =>
      intro start bounded hstart below
      obtain ⟨hy, small⟩ := bounded y List.mem_cons_self
      exact ih _ (fun z hz => bounded z (List.mem_cons_of_mem _ hz)) (add_nonneg hstart hy)
        (le_trans (add_le_add hstart hy below small) absorbs)
  exact run xs 0 bounded (nonneg_iff.mpr ⟨0, hasRank_zero⟩) limited

/-- Three powers of two, each too small to move the next. -/
def stepLimit : Binary64 := ofNat (2 ^ 32)

def sumLimit : Binary64 := ofNat (2 ^ 86)

def totalLimit : Binary64 := ofNat (2 ^ 140)

theorem sumLimit_absorbs : sumLimit + stepLimit ≤ sumLimit := by decide +kernel

theorem totalLimit_absorbs : totalLimit + sumLimit ≤ totalLimit := by decide +kernel

theorem zero_absorbs : (0 : Binary64) + 0 ≤ 0 := by decide +kernel

theorem sumLimit_le_totalLimit : sumLimit ≤ totalLimit := ofNat_le_ofNat (by decide)

theorem isFinite_totalLimit : totalLimit.isFinite := by decide +kernel

theorem isFinite_sumLimit : sumLimit.isFinite :=
  isFinite_of_le (ofNat_nonneg _) sumLimit_le_totalLimit isFinite_totalLimit

theorem isFinite_stepLimit : stepLimit.isFinite :=
  isFinite_of_le (ofNat_nonneg _) (ofNat_le_ofNat (by decide)) isFinite_totalLimit

theorem isFinite_hundred : (ofNat 100).isFinite :=
  isFinite_of_le (ofNat_nonneg _) (ofNat_le_ofNat (by decide)) isFinite_totalLimit

end PageHealth.Binary64
