import TickGrinder.Proofs.SmaRange

/-!
# A shifted market

Raising every bid and ask by `k` raises every value the SMA returns by `k`, exactly, although
every division in `average` rounds down. The window and the reference tick depend on the
timestamps only (`ofHistory_map_shift`). The price sum gains `k` times the span it covers
(`spanSum_add_const`), and the reference tick's share `k` times the rest of the period, so the
numerator gains `k` times the divisor (`weightedAverage_shift`). The null tick stays the null
tick, and a tick pushed with a positive bid keeps one, so the branch on `ref_tick.bid` is the same.
-/

namespace TickGrinder

/-- The tick with its bid and ask raised by `k`. -/
def Tick.shift (k : ℕ) (x : Tick) : Tick := ⟨x.bid + k, x.ask + k, x.timestamp⟩

/-- The call on the tick with its bid and ask raised by `k`. -/
def Call.shift (k : ℕ) : Call → Call
  | .push t => .push (t.shift k)
  | .pushTick t => .pushTick (t.shift k)

/-- The reply raised by `k`: the average, or the bid and ask of the tick. -/
def Reply.shift (k : ℕ) : Reply → Reply
  | .avg v => .avg (v + k)
  | .tick t => .tick (t.shift k)

variable {k : ℕ}

@[simp] theorem Tick.shift_timestamp (x : Tick) : (x.shift k).timestamp = x.timestamp := rfl

@[simp] theorem Tick.shift_bid (x : Tick) : (x.shift k).bid = x.bid + k := rfl

@[simp] theorem Tick.shift_ask (x : Tick) : (x.shift k).ask = x.ask + k := rfl

theorem Tick.midPrice_shift (x : Tick) : (x.shift k).midPrice = x.midPrice + k := by
  simp only [Tick.midPrice, Tick.shift_bid, Tick.shift_ask]
  omega

@[simp] theorem Call.tick_shift (c : Call) : (c.shift k).tick = c.tick.shift k := by
  cases c <;> rfl

theorem Increasing.map_shift {hs : List Tick} (h : Increasing hs) :
    Increasing (hs.map (Tick.shift k)) :=
  List.pairwise_map.2 h

theorem spanSum_map_shift (g : Tick → ℕ) :
    ∀ (a : Tick) (l : List Tick),
      spanSum g (a.shift k) (l.map (Tick.shift k)) = spanSum (fun x => g (x.shift k)) a l
  | _, [] => rfl
  | a, b :: l => by simp only [List.map_cons, spanSum, Tick.shift_timestamp, spanSum_map_shift g b l]

theorem span_map_shift (a : Tick) (l : List Tick) :
    span (a.shift k) (l.map (Tick.shift k)) = span a l := by
  cases hl : l.getLast? <;> simp [span, hl]

/-- Raising a price by `k` raises the price sum by `k` times the span. -/
theorem spanSum_add_const (g : Tick → ℕ) :
    ∀ (a : Tick) (l : List Tick), Increasing (a :: l) →
      spanSum (fun x => g x + k) a l = spanSum g a l + k * span a l
  | a, [], _ => by simp [spanSum, span]
  | a, b :: l, h => by
    rw [spanSum, spanSum, spanSum_add_const g b l h.of_cons, span_cons h, Nat.add_mul, Nat.mul_add]
    omega

namespace SimpleMovingAverage

variable {period : ℕ}

/-- The window and the reference tick of a shifted history are those of the history, shifted;
the null tick stays the null tick. -/
theorem ofHistory_map_shift (hs : List Tick) :
    (ofHistory period (hs.map (Tick.shift k))).ticks = (ofHistory period hs).ticks.map (Tick.shift k) ∧
      (ofHistory period (hs.map (Tick.shift k))).refTick =
        (((hs.takeWhile (stale period (newest hs))).getLast?).map (Tick.shift k)).getD Tick.null := by
  have hn : newest (hs.map (Tick.shift k)) = newest hs := by
    simp [newest, List.getLast?_map, Option.map_map, Function.comp_def]
  have hst : (stale period (newest hs) ∘ Tick.shift k) = stale period (newest hs) := rfl
  constructor <;> simp only [ofHistory, hn, List.dropWhile_map, List.takeWhile_map, hst,
    List.getLast?_map]

/-- `average` for a price that every shift raises by `k`, over a window of two ticks or more of
a history with positive bids, is raised by `k`. -/
theorem weightedAverage_shift (hp : 0 < period) {g : List Tick} {t a b : Tick} {l : List Tick}
    (h : Increasing (g ++ [t])) (hbid : ∀ x ∈ g ++ [t], 0 < x.bid)
    (hw : (ofHistory period (g ++ [t])).ticks = a :: b :: l)
    {gp : Tick → ℕ} {f : Tick → Option ℕ} (hf : ∀ x, f x = some (gp x))
    (hsh : ∀ x, gp (x.shift k) = gp x + k) :
    (ofHistory period (g.map (Tick.shift k) ++ [t.shift k])).weightedAverage none f =
      ((ofHistory period (g ++ [t])).weightedAverage none f).map (· + k) := by
  have hmap : g.map (Tick.shift k) ++ [t.shift k] = (g ++ [t]).map (Tick.shift k) := by simp
  obtain ⟨hw', href⟩ := @ofHistory_map_shift k period (g ++ [t])
  rw [hw] at hw'
  rw [← hmap] at hw' href
  have hinc : Increasing (a :: b :: l) := hw ▸ increasing_ofHistory h
  have hlt := span_lt_of_ofHistory hp hw
  have hS := spanSum_add_const (k := k) gp a (b :: l) hinc
  rw [weightedAverage_ofHistory hp (hmap ▸ h.map_shift) hw' hf, weightedAverage_ofHistory hp h hw hf,
    href, ← List.map_cons, spanSum_map_shift, span_map_shift]
  simp only [hsh, hS, Option.map_some']
  have hsp := span_pos hinc
  rcases hr : ((g ++ [t]).takeWhile (stale period (newest (g ++ [t])))).getLast? with _ | x
  · have hnull : (ofHistory period (g ++ [t])).refTick = Tick.null := by
      simp only [ofHistory, hr, Option.getD_none]
    simp only [hnull, Option.map_none', Option.getD_none, Tick.null_bid, ne_eq, not_true_eq_false,
      if_false]
    rw [Nat.add_mul_div_right _ _ hsp]
  · have hx : (ofHistory period (g ++ [t])).refTick = x := by
      simp only [ofHistory, hr, Option.getD_some]
    have hxb : 0 < x.bid :=
      hbid x ((List.takeWhile_sublist _).subset (List.mem_of_getLast?_eq_some hr))
    have hkp : k * period = k * (period - span a (b :: l)) + k * span a (b :: l) := by
      rw [← Nat.mul_add, Nat.sub_add_cancel hlt.le]
    have hnum : spanSum gp a (b :: l) + k * span a (b :: l) +
        (period - span a (b :: l)) * (gp x + k) =
        spanSum gp a (b :: l) + (period - span a (b :: l)) * gp x + k * period := by
      rw [Nat.mul_add, hkp, Nat.mul_comm (period - span a (b :: l)) k]
      omega
    simp only [hx, Option.map_some', Option.getD_some, Tick.shift_bid, hsh, ne_eq,
      Nat.pos_iff_ne_zero.1 hxb, not_false_eq_true, if_true, Nat.add_eq_zero, false_and]
    rw [hnum, Nat.add_mul_div_right _ _ hp]

theorem reply_shift (hp : 0 < period) {g : List Tick} {c : Call} (h : Increasing (g ++ [c.tick]))
    (hbid : ∀ x ∈ g ++ [c.tick], 0 < x.bid) :
    (ofHistory period (g.map (Tick.shift k) ++ [(c.shift k).tick])).reply none (c.shift k) =
      ((ofHistory period (g ++ [c.tick])).reply none c).map (Reply.shift k) := by
  have hmap : g.map (Tick.shift k) ++ [(c.shift k).tick] = (g ++ [c.tick]).map (Tick.shift k) := by
    simp
  have hw' := (@ofHistory_map_shift k period (g ++ [c.tick])).1
  rw [← hmap] at hw'
  rcases ofHistory_ticks_cases hp g c.tick with hw | ⟨a, b, l, hw, hlast⟩
  · rw [hw, List.map_singleton] at hw'
    cases c <;> simp only [Call.shift, Call.tick] at hw hw' ⊢ <;>
      simp [reply, hw, hw', Reply.shift, Tick.midPrice_shift]
  · rw [hw] at hw'
    cases c with
    | push t =>
      simp only [Call.shift, Call.tick] at h hbid hw hw'
      have hv := weightedAverage_shift (k := k) hp h hbid hw Tick.mid_none Tick.midPrice_shift
      simp only [Call.shift, Call.tick, reply, hw, hw', List.map_cons, average, hv]
      cases (ofHistory period (g ++ [t])).weightedAverage none (Tick.mid none) <;> rfl
    | pushTick t =>
      simp only [Call.shift, Call.tick] at h hbid hw hw' hlast
      have hfb : ∀ x : Tick, (fun y : Tick => some y.bid) x = some (Tick.bid x) := fun _ => rfl
      have hfa : ∀ x : Tick, (fun y : Tick => some y.ask) x = some (Tick.ask x) := fun _ => rfl
      have hvb := weightedAverage_shift (k := k) hp h hbid hw hfb Tick.shift_bid
      have hva := weightedAverage_shift (k := k) hp h hbid hw hfa Tick.shift_ask
      simp only [Call.shift, Call.tick, reply, hw, hw', averageTick, hvb, hva, List.getLast?_map,
        hlast]
      cases (ofHistory period (g ++ [t])).weightedAverage none (fun y => some y.bid) <;>
        cases (ofHistory period (g ++ [t])).weightedAverage none (fun y => some y.ask) <;> rfl

theorem replies_shift (hp : 0 < period) :
    ∀ (hs : List Tick) (cs : List Call), Increasing (hs ++ cs.map Call.tick) →
      (∀ x ∈ hs ++ cs.map Call.tick, 0 < x.bid) →
      replies none period (hs.map (Tick.shift k)) (cs.map (Call.shift k)) =
        (replies none period hs cs).map (List.map (Reply.shift k))
  | hs, [], _, _ => rfl
  | hs, c :: cs, h, hb => by
    have h2 : Increasing (hs ++ [c.tick] ++ cs.map Call.tick) := by simpa using h
    have hb2 : ∀ x ∈ hs ++ [c.tick] ++ cs.map Call.tick, 0 < x.bid := by simpa using hb
    have ih := replies_shift hp (hs ++ [c.tick]) cs h2 hb2
    rw [List.map_append, List.map_singleton, ← Call.tick_shift] at ih
    have hr := reply_shift hp (k := k) (h2.sublist (List.sublist_append_left _ _))
      fun x hx => hb2 x (List.mem_append_left _ hx)
    simp only [List.map_cons, replies, hr, ih]
    cases (ofHistory period (hs ++ [c.tick])).reply none c <;>
      cases replies none period (hs ++ [c.tick]) cs <;> rfl

/-- Raising the market raises the SMA by as much: for every period of at least one, every run of
`push` and `push_tick` calls on `SimpleMovingAverage::new` whose ticks have strictly increasing
timestamps and positive bids, and every `k`, the same run with every bid and ask raised by `k`
returns, over the naturals, every average raised by exactly `k` and every average tick with its
bid and ask raised by `k` at the same timestamp, with no loss to the rounding. -/
theorem shifted_market_shifts_replies (hp : 0 < period) (k : ℕ) (cs : List Call)
    (hinc : Increasing (cs.map Call.tick)) (hbid : ∀ c ∈ cs, 0 < c.tick.bid) :
    ∃ s rs s', (new period).run none cs = some (s, rs) ∧
      (new period).run none (cs.map (Call.shift k)) = some (s', rs.map (Reply.shift k)) := by
  have hinc' : Increasing ([] ++ cs.map Call.tick) := by simpa using hinc
  have hb' : ∀ x ∈ [] ++ cs.map Call.tick, 0 < x.bid := fun x hx => by
    obtain ⟨c, hc, rfl⟩ := List.mem_map.1 (by simpa using hx)
    exact hbid c hc
  have hinck : Increasing ([] ++ (cs.map (Call.shift k)).map Call.tick) := by
    simpa [Function.comp_def] using hinc.map_shift (k := k)
  obtain ⟨rs, hrs⟩ := Option.isSome_iff_exists.1 (replies_isSome hp [] cs hinc')
  have hsh := replies_shift hp (k := k) [] cs hinc' hb'
  rw [List.map_nil, hrs] at hsh
  rw [← ofHistory_nil, run_ofHistory none hp [] cs hinc', run_ofHistory none hp [] _ hinck, hrs, hsh]
  exact ⟨_, rs, _, rfl, rfl⟩

/-- Three calls, the last after a gap longer than the period, raised by 10. -/
theorem shifted_three_calls :
    ∃ s rs s', (new 2).run none [.push ⟨2, 4, 1⟩, .pushTick ⟨6, 8, 2⟩, .push ⟨4, 6, 5⟩] =
        some (s, rs) ∧
      (new 2).run none ([.push ⟨2, 4, 1⟩, .pushTick ⟨6, 8, 2⟩, .push ⟨4, 6, 5⟩].map
        (Call.shift 10)) = some (s', rs.map (Reply.shift 10)) :=
  shifted_market_shifts_replies (by decide) 10 _ (by decide) (by decide)

end SimpleMovingAverage

end TickGrinder
