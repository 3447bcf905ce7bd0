import TickGrinder.Proofs.SmaOverflow

/-!
# The average stays within the prices

Each value the SMA returns is a weighted mean, rounded down, of prices it was pushed with: the
loop's price sum lies between the least and the greatest price times the span (`le_spanSum`,
`spanSum_le`), and the reference tick's share of the period is at the price of a tick pushed before
(`weightedAverage_within`). So in every run of strictly increasing ticks over the naturals, whatever
the gaps and the period, a `push` returns a value between the least and the greatest mid that bids
and asks in the given ranges allow, and a `push_tick` a tick whose bid and ask are in those ranges.
-/

namespace TickGrinder

/-- `Σ price * gap` is at least the least price times the span. -/
theorem le_spanSum {g : Tick → ℕ} {m : ℕ} :
    ∀ (a : Tick) (l : List Tick), Increasing (a :: l) → (∀ x ∈ a :: l, m ≤ g x) →
      m * span a l ≤ spanSum g a l
  | a, [], _, _ => by simp [span]
  | a, b :: l, h, hg => by
    rw [spanSum, span_cons h, Nat.mul_add]
    have ih := le_spanSum b l h.of_cons fun x hx => hg x (List.mem_cons_of_mem a hx)
    have := Nat.mul_le_mul_right (b.timestamp - a.timestamp) (hg a (List.mem_cons_self a _))
    omega

/-- A tick's bid and ask lie in the given ranges. -/
def Tick.PricesWithin (x : Tick) (bidLo bidHi askLo askHi : ℕ) : Prop :=
  bidLo ≤ x.bid ∧ x.bid ≤ bidHi ∧ askLo ≤ x.ask ∧ x.ask ≤ askHi

instance (x : Tick) (bidLo bidHi askLo askHi : ℕ) :
    Decidable (x.PricesWithin bidLo bidHi askLo askHi) :=
  inferInstanceAs (Decidable (_ ∧ _ ∧ _ ∧ _))

/-- A reply within the ranges of bid and ask: an average between the least and the greatest mid
they allow, or a tick with its bid and ask in them. -/
def Reply.Within (bidLo bidHi askLo askHi : ℕ) : Reply → Prop
  | .avg v => (bidLo + askLo) / 2 ≤ v ∧ v ≤ (bidHi + askHi) / 2
  | .tick t => t.PricesWithin bidLo bidHi askLo askHi

instance (bidLo bidHi askLo askHi : ℕ) : (r : Reply) → Decidable (r.Within bidLo bidHi askLo askHi)
  | .avg _ => inferInstanceAs (Decidable (_ ∧ _))
  | .tick t => inferInstanceAs (Decidable (t.PricesWithin _ _ _ _))

variable {bidLo bidHi askLo askHi : ℕ}

theorem Tick.PricesWithin.midPrice {x : Tick} (h : x.PricesWithin bidLo bidHi askLo askHi) :
    (bidLo + askLo) / 2 ≤ x.midPrice ∧ x.midPrice ≤ (bidHi + askHi) / 2 := by
  obtain ⟨h₁, h₂, h₃, h₄⟩ := h
  exact ⟨Nat.div_le_div_right (by omega), Nat.div_le_div_right (by omega)⟩

namespace SimpleMovingAverage

variable {period : ℕ}

/-- The window after a push holds the pushed tick alone, or two ticks or more, the pushed one
last. -/
theorem ofHistory_ticks_cases (hp : 0 < period) (g : List Tick) (t : Tick) :
    (ofHistory period (g ++ [t])).ticks = [t] ∨
      ∃ a b l, (ofHistory period (g ++ [t])).ticks = a :: b :: l ∧
        (a :: b :: l).getLast? = some t := by
  rw [ofHistory_ticks_concat hp]
  rcases g.dropWhile (stale period t.timestamp) with _ | ⟨a, D⟩
  · exact .inl rfl
  · obtain ⟨b, l, hbl⟩ : ∃ b l, D ++ [t] = b :: l := List.exists_cons_of_ne_nil (by simp)
    exact .inr ⟨a, b, l, by rw [List.cons_append, hbl],
      by rw [← hbl, ← List.cons_append, List.getLast?_concat]⟩

/-- `average` over a window of two ticks or more, for a price between `m` and `M` on every tick
pushed, is between `m` and `M`. -/
theorem weightedAverage_within (hp : 0 < period) {g : List Tick} {t a b : Tick} {l : List Tick}
    (h : Increasing (g ++ [t])) (hw : (ofHistory period (g ++ [t])).ticks = a :: b :: l)
    {gp : Tick → ℕ} {f : Tick → Option ℕ} (hf : ∀ x, f x = some (gp x)) {m M : ℕ}
    (hk : ∀ x ∈ g ++ [t], m ≤ gp x ∧ gp x ≤ M) :
    ∃ v, (ofHistory period (g ++ [t])).weightedAverage none f = some v ∧ m ≤ v ∧ v ≤ M := by
  have hinc : Increasing (a :: b :: l) := hw ▸ increasing_ofHistory h
  have hwin : ∀ x ∈ a :: b :: l, m ≤ gp x ∧ gp x ≤ M := fun x hx => by
    rw [← hw] at hx
    exact hk x ((List.dropWhile_sublist _).subset hx)
  have hlo := le_spanSum a (b :: l) hinc fun x hx => (hwin x hx).1
  have hhi := spanSum_le a (b :: l) hinc fun x hx => (hwin x hx).2
  rw [weightedAverage_ofHistory hp h hw hf]
  refine ⟨_, rfl, ?_⟩
  split_ifs with hr
  · have hlt := span_lt_of_ofHistory hp hw
    obtain ⟨hrm, hrM⟩ : m ≤ gp (ofHistory period (g ++ [t])).refTick ∧
        gp (ofHistory period (g ++ [t])).refTick ≤ M := by
      rcases mem_ofHistory (List.mem_cons_self _ _) with h0 | hm
      · exact absurd (h0 ▸ Tick.null_bid) hr
      · exact hk _ hm
    have hsplit : ∀ k, k * period = k * span a (b :: l) + (period - span a (b :: l)) * k :=
      fun k => by rw [Nat.mul_comm _ k, ← Nat.mul_add, Nat.add_sub_of_le hlt.le]
    have h₁ := Nat.mul_le_mul_left (period - span a (b :: l)) hrm
    have h₂ := Nat.mul_le_mul_left (period - span a (b :: l)) hrM
    have h₃ := hsplit m
    have h₄ := hsplit M
    refine ⟨(Nat.le_div_iff_mul_le hp).2 (by omega), Nat.div_le_of_le_mul ?_⟩
    rw [Nat.mul_comm period M]
    omega
  · have hs := span_pos hinc
    exact ⟨(Nat.le_div_iff_mul_le hs).2 hlo, Nat.div_le_of_le_mul (Nat.mul_comm M _ ▸ hhi)⟩

theorem reply_within (hp : 0 < period) {g : List Tick} {c : Call} (h : Increasing (g ++ [c.tick]))
    (hc : ∀ x ∈ g ++ [c.tick], x.PricesWithin bidLo bidHi askLo askHi) :
    ∃ r, (ofHistory period (g ++ [c.tick])).reply none c = some r ∧
      r.Within bidLo bidHi askLo askHi := by
  rcases ofHistory_ticks_cases hp g c.tick with hw | ⟨a, b, l, hw, hlast⟩
  · have ht := hc c.tick (List.mem_append_right _ (List.mem_singleton_self _))
    cases c with
    | push t =>
      simp only [Call.tick] at hw ht
      exact ⟨.avg t.midPrice, by simp [reply, Call.tick, hw], ht.midPrice⟩
    | pushTick t =>
      simp only [Call.tick] at hw ht
      exact ⟨.tick t, by simp [reply, Call.tick, hw], ht⟩
  · cases c with
    | push t =>
      obtain ⟨v, hv, hlo, hhi⟩ :=
        weightedAverage_within hp h hw Tick.mid_none fun x hx => (hc x hx).midPrice
      exact ⟨.avg v, by simp [reply, hw, average, hv], hlo, hhi⟩
    | pushTick t =>
      have hfb : ∀ x : Tick, (fun y : Tick => some y.bid) x = some (Tick.bid x) := fun _ => rfl
      have hfa : ∀ x : Tick, (fun y : Tick => some y.ask) x = some (Tick.ask x) := fun _ => rfl
      obtain ⟨vb, hvb, hb₁, hb₂⟩ :=
        weightedAverage_within hp h hw hfb fun x hx => ⟨(hc x hx).1, (hc x hx).2.1⟩
      obtain ⟨va, hva, ha₁, ha₂⟩ :=
        weightedAverage_within hp h hw hfa fun x hx => ⟨(hc x hx).2.2.1, (hc x hx).2.2.2⟩
      simp only [Call.tick] at hw hlast hvb hva ⊢
      exact ⟨.tick ⟨vb, va, t.timestamp⟩, by simp [reply, hw, averageTick, hvb, hva, hlast],
        hb₁, hb₂, ha₁, ha₂⟩

theorem replies_within (hp : 0 < period) :
    ∀ (hs : List Tick) (cs : List Call), Increasing (hs ++ cs.map Call.tick) →
      (∀ x ∈ hs ++ cs.map Call.tick, x.PricesWithin bidLo bidHi askLo askHi) →
      ∃ rs, replies none period hs cs = some rs ∧ ∀ r ∈ rs, r.Within bidLo bidHi askLo askHi
  | hs, [], _, _ => ⟨[], rfl, fun _ h => absurd h (List.not_mem_nil _)⟩
  | hs, c :: cs, h, hc => by
    have h2 : Increasing (hs ++ [c.tick] ++ cs.map Call.tick) := by simpa using h
    have hc2 : ∀ x ∈ hs ++ [c.tick] ++ cs.map Call.tick,
        x.PricesWithin bidLo bidHi askLo askHi := by simpa using hc
    obtain ⟨r, hr, hrw⟩ := reply_within hp (h2.sublist (List.sublist_append_left _ _))
      fun x hx => hc2 x (List.mem_append_left _ hx)
    obtain ⟨rs, hrs, hrsw⟩ := replies_within hp _ cs h2 hc2
    refine ⟨r :: rs, by simp [replies, hr, hrs], ?_⟩
    rintro r' (_ | ⟨_, hr'⟩)
    exacts [hrw, hrsw r' hr']

/-- The SMA's values stay within the prices it is given: for every period of at least one and
every run of `push` and `push_tick` calls on `SimpleMovingAverage::new` whose ticks have strictly
increasing timestamps and bids and asks in given ranges, nothing panics over the naturals, every
`push` returns a value between the least and the greatest mid those ranges allow, and every
`push_tick` a tick with its bid and ask in the ranges. -/
theorem replies_within_price_ranges (hp : 0 < period) (bidLo bidHi askLo askHi : ℕ)
    (cs : List Call) (hinc : Increasing (cs.map Call.tick))
    (hc : ∀ c ∈ cs, c.tick.PricesWithin bidLo bidHi askLo askHi) :
    ∃ s rs, (new period).run none cs = some (s, rs) ∧
      ∀ r ∈ rs, r.Within bidLo bidHi askLo askHi := by
  have hc' : ∀ x ∈ [] ++ cs.map Call.tick, x.PricesWithin bidLo bidHi askLo askHi := fun x hx => by
    obtain ⟨c, hcs, rfl⟩ := List.mem_map.1 (by simpa using hx)
    exact hc c hcs
  obtain ⟨rs, hrs, hw⟩ := replies_within hp [] cs (by simpa using hinc) hc'
  rw [← ofHistory_nil, run_ofHistory none hp [] cs (by simpa using hinc), hrs]
  exact ⟨_, rs, rfl, hw⟩

/-- Three ticks with bids from 2 to 6 and asks from 4 to 8, the last after a gap longer than the
period. -/
theorem replies_within_three_calls :
    ∃ s rs, (new 2).run none [.push ⟨2, 4, 1⟩, .pushTick ⟨6, 8, 2⟩, .push ⟨4, 6, 5⟩] =
      some (s, rs) ∧ ∀ r ∈ rs, r.Within 2 6 4 8 :=
  replies_within_price_ranges (by decide) 2 6 4 8 _ (by decide) (by decide)

end SimpleMovingAverage

end TickGrinder
