import TickGrinder.Proofs.SmaWindow

/-!
# What the averaging loop computes

The loop of `average` and `average_tick` sums `price a * (b - a)` over the consecutive pairs of the
deque (`spanSum`), and the gaps, which telescope to the deque's span, back minus front (`span`).
With every sum inside the range of `usize` the loop returns exactly these (`sumLoop_eq`), and
`weightedAverage` divides them, after adding the reference tick's share when it is set
(`weightedAverage_eq`).
-/

namespace TickGrinder

/-- `Σ price a * (b - a)` over the consecutive pairs `(a, b)` of `a :: l`, oldest first. -/
def spanSum (g : Tick → ℕ) : Tick → List Tick → ℕ
  | _, [] => 0
  | a, b :: l => g a * (b.timestamp - a.timestamp) + spanSum g b l

/-- The time from `a` to the newest tick of `a :: l`. -/
def span (a : Tick) (l : List Tick) : ℕ := (l.getLast?.getD a).timestamp - a.timestamp

theorem le_getLast?_getD {a : Tick} {l : List Tick} (h : Increasing (a :: l)) :
    a.timestamp ≤ (l.getLast?.getD a).timestamp := by
  cases hl : l.getLast? with
  | none => exact le_rfl
  | some y => exact (List.rel_of_pairwise_cons h (List.mem_of_getLast?_eq_some hl)).le

theorem span_cons {a b : Tick} {l : List Tick} (h : Increasing (a :: b :: l)) :
    span a (b :: l) = (b.timestamp - a.timestamp) + span b l := by
  have hab := List.rel_of_pairwise_cons h (List.mem_cons_self b l)
  have hb := le_getLast?_getD h.of_cons
  simp only [span, List.getLast?_cons, Option.getD_some] at hb ⊢
  omega

theorem span_pos {a b : Tick} {l : List Tick} (h : Increasing (a :: b :: l)) :
    0 < span a (b :: l) := by
  have hab := List.rel_of_pairwise_cons h (List.mem_cons_self b l)
  rw [span_cons h]
  omega

namespace SimpleMovingAverage

variable (lim : Option ℕ) {g : Tick → ℕ} {f : Tick → Option ℕ}

/-- The loop returns the price sum and the span, when both fit in `usize`. -/
theorem sumLoop_eq :
    ∀ (a : Tick) (l : List Tick) (p t : ℕ), Increasing (a :: l) →
      (∀ x ∈ a :: l, f x = some (g x)) →
      fits lim (p + spanSum g a l) = true → fits lim (t + span a l) = true →
      sumLoop lim f a l p t = some (p + spanSum g a l, t + span a l)
  | a, [], p, t, _, _, _, _ => by simp [sumLoop, spanSum, span]
  | a, b :: l, p, t, h, hf, hp, ht => by
    have hab := (List.rel_of_pairwise_cons h (List.mem_cons_self b l)).le
    rw [spanSum] at hp ⊢
    rw [span_cons h] at ht ⊢
    have h1 : fits lim (g a * (b.timestamp - a.timestamp)) = true := fits_of_le hp (by omega)
    have h2 : fits lim (p + g a * (b.timestamp - a.timestamp)) = true := fits_of_le hp (by omega)
    have h3 : fits lim (t + (b.timestamp - a.timestamp)) = true := fits_of_le ht (by omega)
    have ih := sumLoop_eq b l _ _ h.of_cons (fun x hx => hf x (List.mem_cons_of_mem a hx))
      (by rwa [Nat.add_assoc]) (by rwa [Nat.add_assoc])
    simp only [sumLoop, checkedSub_of_le hab, Option.bind_eq_bind, Option.some_bind,
      hf a (List.mem_cons_self a _), checkedMul_of_fits h1, checkedAdd_of_fits h2,
      checkedAdd_of_fits h3, ih, Nat.add_assoc]

/-- `average` for the prices `g`, on a deque `a :: l`: the reference tick's price over the rest of
the period when it is set, then the quotient. -/
theorem weightedAverage_eq {s : SimpleMovingAverage} {a : Tick} {l : List Tick}
    (hs : s.ticks = a :: l) (h : Increasing (a :: l))
    (hf : ∀ x ∈ s.refTick :: a :: l, f x = some (g x))
    (hfit : fits lim (spanSum g a l) = true ∧ fits lim (span a l) = true)
    (href : s.refTick.bid ≠ 0 → span a l ≤ s.period ∧
      fits lim (spanSum g a l + (s.period - span a l) * g s.refTick) = true) :
    s.weightedAverage lim f = if s.refTick.bid ≠ 0
      then checkedDiv (spanSum g a l + (s.period - span a l) * g s.refTick) s.period
      else checkedDiv (spanSum g a l) (span a l) := by
  have hloop := sumLoop_eq lim a l 0 0 h (fun x hx => hf x (List.mem_cons_of_mem _ hx))
    (by simpa using hfit.1) (by simpa using hfit.2)
  simp only [Nat.zero_add] at hloop
  simp only [weightedAverage, hs, List.head?_cons, List.tail_cons, Option.bind_eq_bind,
    Option.some_bind, hloop]
  split
  · rename_i hb
    obtain ⟨hle, hfit'⟩ := href hb
    rw [checkedSub_of_le hle]
    simp only [Option.some_bind, hf s.refTick (List.mem_cons_self _ _)]
    rw [checkedMul_of_fits (fits_of_le hfit' (Nat.le_add_left _ _)), Option.some_bind,
      checkedAdd_of_fits hfit', Option.some_bind]
  · rfl

end SimpleMovingAverage

end TickGrinder
