import TickGrinder.Proofs.SmaRange

/-!
# A constant market

When every tick pushed has the same bid and ask, every call returns them: `push` the mid, and
`push_tick` a tick with that bid and ask at its own timestamp. Both branches of `average` give the
price back exactly, with or without a reference tick, since an average lies between the least and
the greatest price averaged (`weightedAverage_within`), here the same.
-/

namespace TickGrinder

namespace SimpleMovingAverage

variable {period : ℕ}

/-- `average` for a price that is `k` on every tick pushed is `k`. -/
theorem weightedAverage_const (hp : 0 < period) {g : List Tick} {t a b : Tick} {l : List Tick}
    (h : Increasing (g ++ [t])) (hw : (ofHistory period (g ++ [t])).ticks = a :: b :: l)
    {gp : Tick → ℕ} {f : Tick → Option ℕ} (hf : ∀ x, f x = some (gp x)) {k : ℕ}
    (hk : ∀ x ∈ g ++ [t], gp x = k) :
    (ofHistory period (g ++ [t])).weightedAverage none f = some k := by
  obtain ⟨v, hv, h₁, h₂⟩ :=
    weightedAverage_within hp h hw hf fun x hx => ⟨(hk x hx).ge, (hk x hx).le⟩
  rw [hv, Nat.le_antisymm h₂ h₁]

/-- What a call returns in a market whose every tick has the bid `bid` and the ask `ask`. -/
def constReply (bid ask : ℕ) : Call → Reply
  | .push _ => .avg ((bid + ask) / 2)
  | .pushTick t => .tick ⟨bid, ask, t.timestamp⟩

theorem reply_const (hp : 0 < period) {bid ask : ℕ} {g : List Tick} {c : Call}
    (h : Increasing (g ++ [c.tick])) (hc : ∀ x ∈ g ++ [c.tick], x.bid = bid ∧ x.ask = ask) :
    (ofHistory period (g ++ [c.tick])).reply none c = some (constReply bid ask c) := by
  have hw := ofHistory_ticks_concat hp g c.tick
  obtain ⟨hb, ha⟩ := hc c.tick (List.mem_append_right _ (List.mem_singleton_self _))
  have hmid : ∀ x ∈ g ++ [c.tick], x.midPrice = (bid + ask) / 2 := fun x hx => by
    simp [Tick.midPrice, (hc x hx).1, (hc x hx).2]
  rcases hD : g.dropWhile (stale period c.tick.timestamp) with _ | ⟨a, D⟩
  · rw [hD, List.nil_append] at hw
    cases c with
    | push t => simp_all [reply, constReply, Call.tick, Tick.midPrice]
    | pushTick t =>
      simp only [Call.tick] at hb ha hw
      subst hb ha
      simp only [reply, Call.tick, hw]
      rfl
  · obtain ⟨b, l, hbl⟩ : ∃ b l, D ++ [c.tick] = b :: l := List.exists_cons_of_ne_nil (by simp)
    rw [hD, List.cons_append, hbl] at hw
    cases c with
    | push t =>
      simp [reply, hw, average, constReply, weightedAverage_const hp h hw Tick.mid_none hmid]
    | pushTick t =>
      simp only [Call.tick] at h hc hw hbl
      have hlast : (b :: l).getLast? = some t := by rw [← hbl]; simp
      have hfb : ∀ x : Tick, (fun y : Tick => some y.bid) x = some (Tick.bid x) := fun _ => rfl
      have hfa : ∀ x : Tick, (fun y : Tick => some y.ask) x = some (Tick.ask x) := fun _ => rfl
      simp [reply, Call.tick, hw, averageTick, constReply, hlast,
        weightedAverage_const hp h hw hfb fun x hx => (hc x hx).1,
        weightedAverage_const hp h hw hfa fun x hx => (hc x hx).2]

theorem replies_const (hp : 0 < period) {bid ask : ℕ} :
    ∀ (hs : List Tick) (cs : List Call), Increasing (hs ++ cs.map Call.tick) →
      (∀ x ∈ hs ++ cs.map Call.tick, x.bid = bid ∧ x.ask = ask) →
      replies none period hs cs = some (cs.map (constReply bid ask))
  | hs, [], _, _ => rfl
  | hs, c :: cs, h, hc => by
    have h2 : Increasing (hs ++ [c.tick] ++ cs.map Call.tick) := by simpa using h
    have hc2 : ∀ x ∈ hs ++ [c.tick] ++ cs.map Call.tick, x.bid = bid ∧ x.ask = ask := by
      simpa using hc
    simp only [replies, reply_const hp (h2.sublist (List.sublist_append_left _ _))
      fun x hx => hc2 x (List.mem_append_left _ hx), replies_const hp _ cs h2 hc2]
    rfl

/-- In a constant market the SMA returns the market's price: for every period of at least one and
every run of strictly increasing ticks that all have the same bid and ask, by any mix of `push`
and `push_tick`, nothing panics over the naturals, each `push` returns the mid and each
`push_tick` a tick with that bid and ask at its own timestamp. -/
theorem constant_market_constant_average (hp : 0 < period) (bid ask : ℕ) (cs : List Call)
    (hinc : Increasing (cs.map Call.tick)) (hc : ∀ c ∈ cs, c.tick.bid = bid ∧ c.tick.ask = ask) :
    ∃ s, (new period).run none cs = some (s, cs.map (constReply bid ask)) := by
  have hc' : ∀ x ∈ [] ++ cs.map Call.tick, x.bid = bid ∧ x.ask = ask := fun x hx => by
    obtain ⟨c, hcs, rfl⟩ := List.mem_map.1 (by simpa using hx)
    exact hc c hcs
  rw [← ofHistory_nil, run_ofHistory none hp [] cs (by simpa using hinc),
    replies_const hp [] cs (by simpa using hinc) hc']
  exact ⟨_, rfl⟩

/-- Three ticks of bid 4 and ask 6, the last after a gap longer than the period. -/
theorem constant_market_three_calls :
    ∃ s, (new 2).run none [.push ⟨4, 6, 1⟩, .pushTick ⟨4, 6, 2⟩, .push ⟨4, 6, 5⟩] =
      some (s, [.push ⟨4, 6, 1⟩, .pushTick ⟨4, 6, 2⟩, .push ⟨4, 6, 5⟩].map (constReply 4 6)) :=
  constant_market_constant_average (by decide) 4 6 _ (by decide) (by decide)

end SimpleMovingAverage

end TickGrinder
