import TickGrinder.Proofs.SmaOverflow

/-!
# The SMA against the time-weighted average

The spec's average of a price over the trailing window `[L, now)`, `L = max (h₁, now - period)`,
weighs each tick's price by the part of `[L, now)` until the next tick (`windowAverage`). Over a
window of two ticks or more this is what `average` and `average_tick` compute: the evicted ticks
before the reference tick weigh nothing, the reference tick weighs `period - t_sum`, and the
window's ticks their whole gaps (`windowAverage_eq`).

When the newest tick is alone in the window, `push` returns its mid and `push_tick` the tick
itself, by the `len == 1` early return, although a reference tick may be set: the time-weighted
average is then the reference tick's price (`push_alone_ignores_ref`). On a target whose `usize`
holds the values below `m`, all of this holds as long as the period and the prices keep the loop's
values below `m` (`run_fits_usize`).
-/

namespace TickGrinder

/-- The length of `[a, b) ∩ [c, d)`. -/
def overlap (a b c d : ℕ) : ℕ := min b d - max a c

/-- `Σ price hᵢ * |[hᵢ, hᵢ₊₁) ∩ [L, now)|` over the consecutive pairs of a history. -/
def clippedSum (g : Tick → ℕ) (L now : ℕ) : List Tick → ℕ
  | a :: b :: l => g a * overlap a.timestamp b.timestamp L now + clippedSum g L now (b :: l)
  | _ => 0

/-- The spec's time-weighted average of the price `g` after the history `hs`, over
`[L, now)` with `L = max (h₁, now - period)`, rounded down. -/
def windowAverage (period : ℕ) (g : Tick → ℕ) (hs : List Tick) : ℕ :=
  let now := newest hs
  let L := max ((hs.head?.map Tick.timestamp).getD 0) (now - period)
  clippedSum g L now hs / (now - L)

/-- What the spec's law says the call `c` returns after the pushes `g`: when its tick is alone in
the window (the first push, or one `period` or more after the last), its mid or the tick itself;
otherwise the time-weighted averages. -/
def twapReply (period : ℕ) (g : List Tick) (c : Call) : Reply :=
  let alone := g.getLast?.all fun x => decide (period ≤ c.tick.timestamp - x.timestamp)
  match c with
  | .push t => .avg (if alone then t.midPrice else windowAverage period Tick.midPrice (g ++ [t]))
  | .pushTick t => .tick (if alone then t else
      ⟨windowAverage period Tick.bid (g ++ [t]), windowAverage period Tick.ask (g ++ [t]),
        t.timestamp⟩)

section Clipped

variable (g : Tick → ℕ) (L now : ℕ)

theorem clippedSum_split :
    ∀ (l : List Tick) (r : Tick) (m : List Tick),
      clippedSum g L now (l ++ r :: m) = clippedSum g L now (l ++ [r]) + clippedSum g L now (r :: m)
  | [], r, m => by simp [clippedSum]
  | [x], r, m => by simp [clippedSum]
  | x :: y :: l, r, m => by
    have := clippedSum_split (y :: l) r m
    simp only [List.cons_append] at this ⊢
    cases l <;> simp only [List.nil_append, List.cons_append, clippedSum] at this ⊢ <;> omega

/-- Pairs that end by `L` weigh nothing. -/
theorem clippedSum_eq_zero : ∀ l : List Tick, (∀ x ∈ l, x.timestamp ≤ L) → clippedSum g L now l = 0
  | [] , _ => rfl
  | [_], _ => rfl
  | a :: b :: l, h => by
    have hb := h b (by simp)
    rw [clippedSum, clippedSum_eq_zero (b :: l) fun x hx => h x (List.mem_cons_of_mem a hx),
      overlap, Nat.sub_eq_zero_of_le (by omega), Nat.mul_zero]

/-- Pairs inside `[L, now]` weigh their whole gap. -/
theorem clippedSum_eq_spanSum :
    ∀ (a : Tick) (m : List Tick), Increasing (a :: m) → L ≤ a.timestamp →
      (∀ x ∈ m, x.timestamp ≤ now) → clippedSum g L now (a :: m) = spanSum g a m
  | a, [], _, _, _ => rfl
  | a, b :: m, h, hL, hnow => by
    have hab := List.rel_of_pairwise_cons h (List.mem_cons_self b m)
    have hb := hnow b (List.mem_cons_self b m)
    rw [clippedSum, spanSum, clippedSum_eq_spanSum b m h.of_cons (by omega)
      fun x hx => hnow x (List.mem_cons_of_mem b hx), overlap, Nat.min_eq_left hb,
      Nat.max_eq_left hL]

end Clipped

namespace SimpleMovingAverage

variable {period : ℕ}

theorem ofHistory_split (t : Tick) (g : List Tick) :
    g ++ [t] = (g ++ [t]).takeWhile (stale period t.timestamp)
      ++ (ofHistory period (g ++ [t])).ticks := by
  simp only [ofHistory, newest_concat, List.takeWhile_append_dropWhile]

/-- Over a window of two ticks or more, the spec's average is what `average` computes. -/
theorem windowAverage_eq (hp : 0 < period) {g : List Tick} {t a b : Tick} {l : List Tick}
    (h : Increasing (g ++ [t])) (hbid : ∀ x ∈ g ++ [t], 0 < x.bid)
    (hw : (ofHistory period (g ++ [t])).ticks = a :: b :: l) (gp : Tick → ℕ) :
    windowAverage period gp (g ++ [t]) =
      if (ofHistory period (g ++ [t])).refTick.bid ≠ 0
        then (spanSum gp a (b :: l) + (period - span a (b :: l))
          * gp (ofHistory period (g ++ [t])).refTick) / period
        else spanSum gp a (b :: l) / span a (b :: l) := by
  have hsplit := @ofHistory_split period t g
  rw [hw] at hsplit
  have hinc : Increasing (a :: b :: l) := hw ▸ increasing_ofHistory h
  have hlast : ((b :: l).getLast?.getD a) = t := by
    have := congrArg List.getLast? hsplit
    simp only [List.getLast?_concat, List.getLast?_append, List.getLast?_cons_cons] at this
    simpa [List.getLast?_cons] using this.symm
  have hlt : t.timestamp - a.timestamp < period := by
    simpa [span, hlast] using span_lt_of_ofHistory hp hw
  have hat : a.timestamp ≤ t.timestamp := hlast ▸ le_getLast?_getD hinc
  have hnow : ∀ x ∈ b :: l, x.timestamp ≤ t.timestamp := fun x hx => by
    obtain ⟨last, hl, hle⟩ := exists_getLast?_ge hinc.of_cons hx
    rw [← hlast, Option.mem_def.mp hl]
    exact hle
  have hstale : ∀ x ∈ (g ++ [t]).takeWhile (stale period t.timestamp),
      x.timestamp ≤ t.timestamp - period ∧ period ≤ t.timestamp ∧ 0 < x.bid := fun x hx => by
    have := List.mem_takeWhile_imp hx
    simp only [stale, decide_eq_true_eq] at this
    exact ⟨by omega, by omega, hbid x ((List.takeWhile_sublist _).subset hx)⟩
  have href : (ofHistory period (g ++ [t])).refTick
      = ((g ++ [t]).takeWhile (stale period t.timestamp)).getLast?.getD Tick.null := by
    simp [ofHistory]
  rw [href, span, hlast]
  simp only [windowAverage, newest_concat]
  generalize (g ++ [t]).takeWhile (stale period t.timestamp) = T at hsplit hstale
  rw [hsplit]
  rcases List.eq_nil_or_concat T with rfl | ⟨T', r, rfl⟩
  · have hL : max a.timestamp (t.timestamp - period) = a.timestamp := by omega
    simp only [List.nil_append, List.head?_cons, Option.map_some', Option.getD_some, hL,
      List.getLast?_nil, Option.getD_none, Tick.null_bid, ne_eq, not_true_eq_false, if_false]
    rw [clippedSum_eq_spanSum gp _ _ a (b :: l) hinc le_rfl hnow]
  · rw [List.concat_eq_append] at hstale ⊢
    obtain ⟨hr, hpt, hrbid⟩ := hstale r (by simp)
    have hhead : ∀ f ∈ (T' ++ [r] ++ a :: b :: l).head?, f.timestamp ≤ t.timestamp - period := by
      intro f hf
      rw [List.head?_append_of_ne_nil _ (by simp)] at hf
      exact (hstale f (List.mem_of_mem_head? hf)).1
    have hL : max (((T' ++ [r] ++ a :: b :: l).head?.map Tick.timestamp).getD 0)
        (t.timestamp - period) = t.timestamp - period := by
      cases hf : (T' ++ [r] ++ a :: b :: l).head? with
      | none => simp
      | some f => simpa using Nat.max_eq_right (hhead f hf)
    have hzero := clippedSum_eq_zero gp (t.timestamp - period) t.timestamp (T' ++ [r])
      fun x hx => (hstale x hx).1
    have hrest := clippedSum_eq_spanSum gp (t.timestamp - period) t.timestamp a (b :: l) hinc
      (by omega) hnow
    have hgap : a.timestamp - (t.timestamp - period) = period - (t.timestamp - a.timestamp) := by
      omega
    rw [hL, List.append_assoc, List.singleton_append, clippedSum_split, hzero, clippedSum, hrest,
      overlap, Nat.min_eq_left hat, Nat.max_eq_right hr, hgap, List.getLast?_concat,
      Option.getD_some, if_pos (Nat.pos_iff_ne_zero.mp hrbid), Nat.sub_sub_self hpt, Nat.zero_add,
      Nat.add_comm, Nat.mul_comm (gp r)]

/-- The newest tick is alone in the window exactly when the tick before it is `period` or more
older. -/
theorem ticks_eq_singleton_iff (hp : 0 < period) {g : List Tick} {t : Tick}
    (h : Increasing (g ++ [t])) :
    (ofHistory period (g ++ [t])).ticks = [t] ↔
      (g.getLast?.all fun x => decide (period ≤ t.timestamp - x.timestamp)) = true := by
  rw [ofHistory_ticks_concat hp, List.append_left_eq_self, List.dropWhile_eq_nil_iff]
  rcases List.eq_nil_or_concat g with rfl | ⟨g', y, rfl⟩
  · simp
  rw [List.concat_eq_append] at h ⊢
  simp only [List.getLast?_concat, Option.all_some, decide_eq_true_eq, List.mem_append,
    List.mem_singleton, stale]
  refine ⟨fun hall => by simpa using hall y (Or.inr rfl), fun hy x hx => ?_⟩
  rcases hx with hx | rfl
  · have := Increasing.lt_of_concat (h.sublist (List.sublist_append_left _ _)) hx
    omega
  · simpa using hy

/-- Each call replies as the spec's law says, after an increasing history of positive bids. -/
theorem reply_ofHistory_eq (hp : 0 < period) {g : List Tick} {c : Call}
    (h : Increasing (g ++ [c.tick])) (hbid : ∀ x ∈ g ++ [c.tick], 0 < x.bid) :
    (ofHistory period (g ++ [c.tick])).reply none c = some (twapReply period g c) := by
  by_cases halone :
    (g.getLast?.all fun x => decide (period ≤ c.tick.timestamp - x.timestamp)) = true
  · have hw := (ticks_eq_singleton_iff hp h).mpr halone
    cases c <;> simp_all [reply, twapReply, Call.tick]
  · have hw := ofHistory_ticks_concat hp g c.tick
    have hne : g.dropWhile (stale period c.tick.timestamp) ≠ [] := fun h0 =>
      halone ((ticks_eq_singleton_iff hp h).mp (by rw [hw, h0, List.nil_append]))
    obtain ⟨a, D, hD⟩ := List.exists_cons_of_ne_nil hne
    obtain ⟨b, l, hbl⟩ : ∃ b l, D ++ [c.tick] = b :: l := List.exists_cons_of_ne_nil (by simp)
    rw [hD, List.cons_append, hbl] at hw
    cases c with
    | push t =>
      simp only [Call.tick] at h hbid hw halone
      simp [reply, hw, average, twapReply, Call.tick, halone,
        weightedAverage_ofHistory hp h hw (Tick.mid_none), windowAverage_eq hp h hbid hw]
    | pushTick t =>
      simp only [Call.tick] at h hbid hw halone hbl
      have hlast : (b :: l).getLast? = some t := by rw [← hbl]; simp
      have hfb : ∀ x : Tick, (fun y : Tick => some y.bid) x = some (Tick.bid x) := fun _ => rfl
      have hfa : ∀ x : Tick, (fun y : Tick => some y.ask) x = some (Tick.ask x) := fun _ => rfl
      simp [reply, hw, averageTick, twapReply, Call.tick, halone, hlast,
        weightedAverage_ofHistory hp h hw hfb, weightedAverage_ofHistory hp h hw hfa,
        windowAverage_eq hp h hbid hw]

theorem replies_concat (lim : Option ℕ) :
    ∀ (hs : List Tick) (cs : List Call) (c : Call),
      replies lim period hs (cs ++ [c]) = (replies lim period hs cs).bind fun rs =>
        (fun r => rs ++ [r]) <$> (ofHistory period (hs ++ cs.map Call.tick ++ [c.tick])).reply lim c
  | hs, [], c => by
    simp only [replies, List.nil_append, List.map_nil, List.append_nil]
    cases (ofHistory period (hs ++ [c.tick])).reply lim c <;> rfl
  | hs, c' :: cs, c => by
    have ih := replies_concat lim (hs ++ [c'.tick]) cs c
    rw [List.cons_append, replies, replies, ih]
    simp only [List.map_cons, List.append_assoc, List.singleton_append]
    cases (ofHistory period (hs ++ [c'.tick])).reply lim c' <;>
      cases replies lim period (hs ++ [c'.tick]) cs <;>
      simp [Option.map_eq_bind, Function.comp_def, Option.bind_assoc]

/-- Over the naturals, for every period of at least one and every run of strictly increasing ticks
with positive bids, by any mix of `push` and `push_tick`, the last call returns what the spec's
law gives: the time-weighted averages over the window, or, when its tick is alone in the window,
its mid or the tick itself. -/
theorem run_none_returns_window_average (hp : 0 < period) {pre : List Call} {c : Call}
    (hinc : Increasing (pre.map Call.tick ++ [c.tick]))
    (hbid : ∀ x ∈ pre.map Call.tick ++ [c.tick], 0 < x.bid) :
    ∃ s rs, (new period).run none (pre ++ [c])
      = some (s, rs ++ [twapReply period (pre.map Call.tick) c]) := by
  have hinc' : Increasing ([] ++ (pre ++ [c]).map Call.tick) := by simpa using hinc
  obtain ⟨rs, hrs⟩ := Option.isSome_iff_exists.mp
    (replies_isSome hp [] pre (by simpa using hinc.sublist (List.sublist_append_left _ _)))
  rw [← ofHistory_nil, run_ofHistory none hp [] _ hinc', replies_concat, hrs]
  simp only [List.nil_append, Option.some_bind, reply_ofHistory_eq hp hinc hbid]
  exact ⟨_, rs, rfl⟩

/-- On a target whose `usize` holds the values below `m` (`m = 2 ^ 64` on a 64-bit target), where
the period and every tick's `bid + ask` and `period * max (bid, ask)` are below `m`, the last of
any run of `push` and `push_tick` calls with strictly increasing timestamps and bids above 0
returns the spec's time-weighted average over the trailing window, except when its tick is alone
in the window. -/
theorem push_returns_window_average (hp : 0 < period) {m : ℕ} (hpm : period < m)
    {pre : List Call} {c : Call} (hinc : Increasing (pre.map Call.tick ++ [c.tick]))
    (hbid : ∀ x ∈ pre.map Call.tick ++ [c.tick], 0 < x.bid)
    (hb : ∀ x ∈ pre.map Call.tick ++ [c.tick], x.bid + x.ask < m ∧ period * max x.bid x.ask < m) :
    ∃ s rs, (new period).run (some m) (pre ++ [c])
      = some (s, rs ++ [twapReply period (pre.map Call.tick) c]) := by
  rw [run_fits_usize hp hpm (by simpa using hinc) (by simpa using hb)]
  exact run_none_returns_window_average hp hinc hbid

theorem twap_after_three_pushes :
    ∃ s rs, (new 5).run (some 18446744073709551616)
        ([.push ⟨2, 2, 1⟩, .push ⟨4, 4, 2⟩] ++ [.pushTick ⟨6, 6, 4⟩])
      = some (s, rs ++ [twapReply 5 ([Call.push ⟨2, 2, 1⟩, .push ⟨4, 4, 2⟩].map Call.tick)
          (.pushTick ⟨6, 6, 4⟩)]) :=
  push_returns_window_average (by decide) (by decide) (by decide) (by decide) (by decide)

/-- After a gap of a whole period the newest tick is alone in the window: `push` returns its mid,
4, where the time-weighted average over the last period is the reference tick's mid, 2. -/
theorem push_alone_ignores_ref :
    (new 1).run none [.push ⟨2, 2, 1⟩, .push ⟨4, 4, 2⟩]
        = some (⟨1, [⟨4, 4, 2⟩], ⟨2, 2, 1⟩⟩, [.avg 2, .avg 4]) ∧
      windowAverage 1 Tick.midPrice [⟨2, 2, 1⟩, ⟨4, 4, 2⟩] = 2 := by
  decide

end SimpleMovingAverage

end TickGrinder
