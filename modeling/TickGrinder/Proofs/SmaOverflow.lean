import TickGrinder.Proofs.SmaRun

/-!
# `usize` overflow in the averages

The loop's time sum telescopes to the window's span, less than the period in every state a run
reaches, and the price sum after each step is at most the largest price `P` times the span so far
(`spanSum_le`); with the reference tick's share the total is at most `period * P`
(`average_loop_bounded`). So when the period and `period * max (bid, ask)` and `bid + ask` of every
tick pushed fit in `usize`, below `2 ^ w` on a `w`-bit target, the run of a debug build on that
target returns exactly what the run over the naturals returns (`run_fits_usize`).

The time sum is not bounded by `period * P` itself: with every price 0 it is positive while the
bound is 0 (`time_sum_exceeds_price_bound`).
-/

namespace TickGrinder

theorem le_foldr_max {n : ℕ} : ∀ {l : List ℕ}, n ∈ l → n ≤ l.foldr max 0
  | _ :: _, .head _ => le_max_left _ _
  | _ :: _, .tail _ h => (le_foldr_max h).trans (le_max_right _ _)

theorem mul_foldr_max_lt {p m : ℕ} (hm : 0 < m) :
    ∀ {l : List ℕ}, (∀ n ∈ l, p * n < m) → p * l.foldr max 0 < m
  | [], _ => by simpa using hm
  | n :: l, h => by
    have ih := mul_foldr_max_lt hm fun x hx => h x (List.mem_cons_of_mem n hx)
    rcases le_total n (l.foldr max 0) with hle | hle
    · simpa [max_eq_right hle] using ih
    · simpa [max_eq_left hle] using h n (List.mem_cons_self n l)

/-- `Σ price * gap` is at most the largest price times the span. -/
theorem spanSum_le {g : Tick → ℕ} {P : ℕ} :
    ∀ (a : Tick) (l : List Tick), Increasing (a :: l) → (∀ x ∈ a :: l, g x ≤ P) →
      spanSum g a l ≤ P * span a l
  | a, [], _, _ => by simp [spanSum]
  | a, b :: l, h, hg => by
    rw [spanSum, span_cons h, Nat.mul_add]
    have ih := spanSum_le b l h.of_cons fun x hx => hg x (List.mem_cons_of_mem a hx)
    have := Nat.mul_le_mul_right (b.timestamp - a.timestamp) (hg a (List.mem_cons_self a _))
    omega

theorem spanSum_take_le (g : Tick → ℕ) :
    ∀ (a : Tick) (l : List Tick) (k : ℕ), spanSum g a (l.take k) ≤ spanSum g a l
  | _, [], _ => by simp
  | _, _ :: _, 0 => by simp [spanSum]
  | a, b :: l, k + 1 => by
    simp only [List.take_succ_cons, spanSum]
    exact Nat.add_le_add_left (spanSum_take_le g b l k) _

theorem le_last_of_mem {a x : Tick} {l : List Tick} (h : Increasing (a :: l)) (hx : x ∈ a :: l) :
    x.timestamp ≤ (l.getLast?.getD a).timestamp := by
  rcases List.mem_cons.mp hx with rfl | hx
  · exact le_getLast?_getD h
  · obtain ⟨last, hl, hle⟩ := exists_getLast?_ge h.of_cons hx
    rwa [Option.mem_def.mp hl]

theorem span_take_le {a : Tick} {l : List Tick} (h : Increasing (a :: l)) (k : ℕ) :
    span a (l.take k) ≤ span a l := by
  have hmem : (l.take k).getLast?.getD a ∈ a :: l := by
    cases hl : (l.take k).getLast? with
    | none => exact List.mem_cons_self a l
    | some y =>
      exact List.mem_cons_of_mem a (List.mem_of_mem_take (List.mem_of_getLast?_eq_some hl))
  have := le_last_of_mem h hmem
  simp only [span]
  omega

namespace SimpleMovingAverage

/-- The largest bid or ask among the deque and `ref_tick`: the `P` of the overflow bound. -/
def maxPrice (s : SimpleMovingAverage) : ℕ :=
  ((s.refTick :: s.ticks).map fun x => max x.bid x.ask).foldr max 0

theorem le_maxPrice {s : SimpleMovingAverage} {x : Tick} (hx : x ∈ s.refTick :: s.ticks) :
    max x.bid x.ask ≤ s.maxPrice :=
  le_foldr_max (List.mem_map_of_mem _ hx)

/-- The three prices the averages sum, each at most the larger of bid and ask. -/
theorem price_le_max {g : Tick → ℕ} (hg : g = Tick.midPrice ∨ g = Tick.bid ∨ g = Tick.ask)
    (x : Tick) : g x ≤ max x.bid x.ask := by
  rcases hg with rfl | rfl | rfl
  · exact x.midPrice_le
  · exact le_max_left _ _
  · exact le_max_right _ _

variable {period : ℕ}

theorem mem_ofHistory {hs : List Tick} {x : Tick}
    (hx : x ∈ (ofHistory period hs).refTick :: (ofHistory period hs).ticks) :
    x = Tick.null ∨ x ∈ hs := by
  simp only [ofHistory, List.mem_cons] at hx
  rcases hx with rfl | hx
  · cases hl : (hs.takeWhile (stale period (newest hs))).getLast? with
    | none => exact Or.inl rfl
    | some y =>
      exact Or.inr ((List.takeWhile_sublist _).subset (List.mem_of_getLast?_eq_some hl))
  · exact Or.inr ((List.dropWhile_sublist _).subset hx)

/-- In every state a run reaches, the averaging loop's time sum stays below the period after each
step, its price sum and each step's product stay at most `period * P`, and so does the total with
the reference tick's share. -/
theorem average_loop_bounded (hp : 0 < period) {calls : List Call} {s : SimpleMovingAverage}
    {rs : List Reply} (hrun : (new period).run none calls = some (s, rs)) {a : Tick}
    {l : List Tick} (hs : s.ticks = a :: l) {g : Tick → ℕ}
    (hg : g = Tick.midPrice ∨ g = Tick.bid ∨ g = Tick.ask) :
    (∀ k, sumLoop none (fun x => some (g x)) a (l.take k) 0 0
        = some (spanSum g a (l.take k), span a (l.take k)) ∧
      span a (l.take k) < period ∧ spanSum g a (l.take k) ≤ period * s.maxPrice) ∧
    (∀ x ∈ a :: l, ∀ y ∈ a :: l, x.timestamp ≤ y.timestamp →
      g x * (y.timestamp - x.timestamp) ≤ period * s.maxPrice) ∧
    (s.refTick.bid ≠ 0 → (period - span a l) * g s.refTick ≤ period * s.maxPrice ∧
      spanSum g a l + (period - span a l) * g s.refTick ≤ period * s.maxPrice) := by
  rw [← ofHistory_nil] at hrun
  obtain ⟨hinc, rfl⟩ := run_ofHistory_inv hp [] calls s rs List.Pairwise.nil hrun
  rw [List.nil_append] at hinc hs ⊢
  obtain ⟨G, t, hGt⟩ := List.eq_nil_or_concat (calls.map Call.tick) |>.resolve_left fun h0 => by
    simp [h0, ofHistory] at hs
  rw [List.concat_eq_append] at hGt
  rw [hGt] at hinc hs ⊢
  have hlt := span_lt_of_ofHistory hp hs
  have ha : Increasing (a :: l) := hs ▸ increasing_ofHistory hinc
  set P := (ofHistory period (G ++ [t])).maxPrice
  have hgP : ∀ x ∈ (ofHistory period (G ++ [t])).refTick :: a :: l, g x ≤ P := fun x hx =>
    (price_le_max hg x).trans (le_maxPrice (by rwa [hs]))
  have hsum := spanSum_le a l ha fun x hx => hgP x (List.mem_cons_of_mem _ hx)
  have hPs : P * span a l ≤ period * P := by
    rw [Nat.mul_comm period]; exact Nat.mul_le_mul_left P hlt.le
  refine ⟨fun k => ⟨?_, (span_take_le ha k).trans_lt hlt, ?_⟩, fun x hx y hy hxy => ?_, fun _ => ?_⟩
  · simpa using sumLoop_eq none a (l.take k) 0 0 (ha.sublist ((List.take_sublist k l).cons₂ a))
      (fun _ _ => rfl) (by simp) (by simp)
  · exact (spanSum_take_le g a l k).trans (hsum.trans hPs)
  · have hax : a.timestamp ≤ x.timestamp := by
      rcases List.mem_cons.mp hx with rfl | hx
      · exact le_rfl
      · exact (List.rel_of_pairwise_cons ha hx).le
    have hy' := le_last_of_mem ha hy
    have hgap : y.timestamp - x.timestamp ≤ period := by simp only [span] at hlt; omega
    calc g x * (y.timestamp - x.timestamp) ≤ P * period :=
          Nat.mul_le_mul (hgP x (List.mem_cons_of_mem _ hx)) hgap
      _ = period * P := Nat.mul_comm _ _
  · have hr := Nat.mul_le_mul_left (period - span a l) (hgP _ (List.mem_cons_self _ _))
    have htot : P * span a l + (period - span a l) * P = period * P := by
      rw [Nat.mul_comm (period - span a l), ← Nat.mul_add, Nat.add_sub_cancel' hlt.le,
        Nat.mul_comm]
    constructor <;> omega

/-- On a `w`-bit target, with every sum below the range, `average` returns what it returns over
the naturals. -/
theorem weightedAverage_some_eq_none {m P : ℕ} {s : SimpleMovingAverage} {a : Tick}
    {l : List Tick} (hs : s.ticks = a :: l) (h : Increasing (a :: l))
    (hspan : span a l ≤ s.period) (hpm : s.period < m) {gp : Tick → ℕ}
    {f f' : Tick → Option ℕ} (hf : ∀ x ∈ s.refTick :: a :: l, f x = some (gp x))
    (hf' : ∀ x ∈ s.refTick :: a :: l, f' x = some (gp x))
    (hgp : ∀ x ∈ s.refTick :: a :: l, gp x ≤ P) (hP : s.period * P < m) :
    s.weightedAverage (some m) f = s.weightedAverage none f' := by
  have hsum := spanSum_le a l h fun x hx => hgp x (List.mem_cons_of_mem _ hx)
  have hPs : P * span a l ≤ s.period * P := by
    rw [Nat.mul_comm s.period]; exact Nat.mul_le_mul_left P hspan
  have hr := Nat.mul_le_mul_left (s.period - span a l) (hgp _ (List.mem_cons_self _ _))
  have htot : P * span a l + (s.period - span a l) * P = s.period * P := by
    rw [Nat.mul_comm (s.period - span a l), ← Nat.mul_add, Nat.add_sub_cancel' hspan,
      Nat.mul_comm]
  rw [weightedAverage_eq (some m) hs h hf ⟨by simp; omega, by simp; omega⟩
      fun _ => ⟨hspan, by simp; omega⟩,
    weightedAverage_eq none hs h hf' (by simp) fun _ => ⟨hspan, by simp⟩]

/-- With every tick's `bid + ask` and `period * max (bid, ask)` below the range, a call replies on
a `w`-bit target what it replies over the naturals. -/
theorem reply_some_eq_none (hp : 0 < period) {m : ℕ} (hpm : period < m) {g : List Tick} {t : Tick}
    (h : Increasing (g ++ [t]))
    (hb : ∀ x ∈ g ++ [t], x.bid + x.ask < m ∧ period * max x.bid x.ask < m) (c : Call) :
    (ofHistory period (g ++ [t])).reply (some m) c =
      (ofHistory period (g ++ [t])).reply none c := by
  set s := ofHistory period (g ++ [t])
  have hbs : ∀ x ∈ s.refTick :: s.ticks, x.bid + x.ask < m ∧ period * max x.bid x.ask < m := by
    intro x hx
    rcases mem_ofHistory hx with rfl | hx
    · simp [Tick.null]
      omega
    · exact hb x hx
  have hP : period * s.maxPrice < m :=
    mul_foldr_max_lt (by omega) fun n hn => by
      obtain ⟨x, hx, rfl⟩ := List.mem_map.mp hn
      exact (hbs x hx).2
  have hmid : ∀ x ∈ s.refTick :: s.ticks, x.mid (some m) = some x.midPrice := fun x hx => by
    simp [Tick.mid, checkedAdd_of_lt (hbs x hx).1, Tick.midPrice]
  have hgP : ∀ {gp : Tick → ℕ}, (gp = Tick.midPrice ∨ gp = Tick.bid ∨ gp = Tick.ask) →
      ∀ x ∈ s.refTick :: s.ticks, gp x ≤ s.maxPrice := fun hg x hx =>
    (price_le_max hg x).trans (le_maxPrice hx)
  rcases hw : s.ticks with _ | ⟨a, _ | ⟨b, l⟩⟩
  · simp [s, ofHistory_ticks_concat hp] at hw
  · cases c <;> simp [reply, hw, hmid a (by simp [hw])]
  · have hinc : Increasing (a :: b :: l) := hw ▸ increasing_ofHistory h
    have hspan := (span_lt_of_ofHistory hp hw).le
    have key : ∀ {gp : Tick → ℕ} {f f' : Tick → Option ℕ},
        (gp = Tick.midPrice ∨ gp = Tick.bid ∨ gp = Tick.ask) →
        (∀ x ∈ s.refTick :: s.ticks, f x = some (gp x)) →
        (∀ x ∈ s.refTick :: s.ticks, f' x = some (gp x)) →
        s.weightedAverage (some m) f = s.weightedAverage none f' := fun hg hf hf' =>
      weightedAverage_some_eq_none hw hinc hspan hpm (by rwa [← hw]) (by rwa [← hw])
        (by rw [← hw]; exact hgP hg) hP
    cases c
    · simp only [reply, hw, average]
      rw [key (Or.inl rfl) hmid fun x _ => Tick.mid_none x]
    · simp only [reply, hw, averageTick]
      rw [key (Or.inr (Or.inl rfl)) (fun _ _ => rfl) (fun _ _ => rfl),
        key (Or.inr (Or.inr rfl)) (fun _ _ => rfl) (fun _ _ => rfl)]

theorem replies_some_eq_none (hp : 0 < period) {m : ℕ} (hpm : period < m) :
    ∀ (hs : List Tick) (cs : List Call), Increasing (hs ++ cs.map Call.tick) →
      (∀ x ∈ hs ++ cs.map Call.tick, x.bid + x.ask < m ∧ period * max x.bid x.ask < m) →
      replies (some m) period hs cs = replies none period hs cs
  | hs, [], _, _ => rfl
  | hs, c :: cs, h, hb => by
    have h2 : Increasing (hs ++ [c.tick] ++ cs.map Call.tick) := by simpa using h
    have hb2 : ∀ x ∈ hs ++ [c.tick] ++ cs.map Call.tick,
        x.bid + x.ask < m ∧ period * max x.bid x.ask < m := fun x hx => hb x (by simpa using hx)
    simp only [replies]
    rw [reply_some_eq_none hp hpm (h2.sublist (List.sublist_append_left _ _))
        (fun x hx => hb2 x (List.mem_append_left _ hx)),
      replies_some_eq_none hp hpm _ cs h2 hb2]

/-- A run of strictly increasing ticks on a target whose `usize` holds the values below `m`
(`m = 2 ^ w` on a `w`-bit target) never overflows and returns what it returns over the naturals,
when the period and every tick's `bid + ask` and `period * max (bid, ask)` are below `m`. -/
theorem run_fits_usize (hp : 0 < period) {m : ℕ} (hpm : period < m) {calls : List Call}
    (hinc : Increasing (calls.map Call.tick))
    (hb : ∀ x ∈ calls.map Call.tick, x.bid + x.ask < m ∧ period * max x.bid x.ask < m) :
    (new period).run (some m) calls = (new period).run none calls := by
  rw [← ofHistory_nil, run_ofHistory _ hp [] calls (by simpa using hinc),
    run_ofHistory _ hp [] calls (by simpa using hinc),
    replies_some_eq_none hp hpm [] calls (by simpa using hinc) (by simpa using hb)]

/-- For every period of at least one: in every state a run reaches, the averaging loop's time sum
stays below the period and every other value it computes is at most `period * P`; and on a target
whose `usize` holds the values below `m`, where the period and every tick's `bid + ask` and
`period * max (bid, ask)` are below `m`, a run of strictly increasing ticks returns what it returns
over the naturals. -/
theorem average_fits_usize (hp : 0 < period) :
    (∀ (calls : List Call) (s : SimpleMovingAverage) (rs : List Reply) (a : Tick)
      (l : List Tick) (g : Tick → ℕ), (new period).run none calls = some (s, rs) →
      s.ticks = a :: l → (g = Tick.midPrice ∨ g = Tick.bid ∨ g = Tick.ask) →
      (∀ k, sumLoop none (fun x => some (g x)) a (l.take k) 0 0
          = some (spanSum g a (l.take k), span a (l.take k)) ∧
        span a (l.take k) < period ∧ spanSum g a (l.take k) ≤ period * s.maxPrice) ∧
      (∀ x ∈ a :: l, ∀ y ∈ a :: l, x.timestamp ≤ y.timestamp →
        g x * (y.timestamp - x.timestamp) ≤ period * s.maxPrice) ∧
      (s.refTick.bid ≠ 0 → (period - span a l) * g s.refTick ≤ period * s.maxPrice ∧
        spanSum g a l + (period - span a l) * g s.refTick ≤ period * s.maxPrice)) ∧
    ∀ (m : ℕ) (calls : List Call), period < m → Increasing (calls.map Call.tick) →
      (∀ x ∈ calls.map Call.tick, x.bid + x.ask < m ∧ period * max x.bid x.ask < m) →
      (new period).run (some m) calls = (new period).run none calls :=
  ⟨fun _ _ _ _ _ _ hrun hs hg => average_loop_bounded hp hrun hs hg,
    fun _ _ hpm hinc hb => run_fits_usize hp hpm hinc hb⟩

/-- The tick parser's benchmark pushes on a 64-bit target. -/
theorem bench_run_fits_64_bits :
    (new 15).run (some 18446744073709551616)
        [.push ⟨1239123, 112312, 1⟩, .push ⟨1239123, 112312, 2⟩]
      = (new 15).run none [.push ⟨1239123, 112312, 1⟩, .push ⟨1239123, 112312, 2⟩] :=
  (average_fits_usize (by decide)).2 18446744073709551616 _ (by decide) (by decide) (by decide)

/-- With every price 0 the time sum, 1, exceeds `period * P = 0`. -/
theorem time_sum_exceeds_price_bound :
    (new 2).run none [.push ⟨0, 0, 1⟩, .push ⟨0, 0, 2⟩]
        = some (⟨2, [⟨0, 0, 1⟩, ⟨0, 0, 2⟩], Tick.null⟩, [.avg 0, .avg 0]) ∧
      sumLoop none (Tick.mid none) ⟨0, 0, 1⟩ [⟨0, 0, 2⟩] 0 0 = some (0, 1) ∧
      maxPrice ⟨2, [⟨0, 0, 1⟩, ⟨0, 0, 2⟩], Tick.null⟩ = 0 := by
  decide

end SimpleMovingAverage

end TickGrinder
