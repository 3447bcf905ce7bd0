import TickGrinder.Sma

/-!
# A delayed market

The SMA reads time only through differences: `is_overflown` subtracts the front's timestamp from
the back's, the loop of `average` each tick's from the next one's, and the order assertion
compares two. So delaying every tick by the same `k` changes nothing it computes, at every width
of `usize`: a run on the delayed ticks panics where the run on the ticks does, and otherwise
returns the same averages, and the same average ticks `k` later.

The states of the two runs are related by `Delayed`: the same period, the deque delayed, and a
reference tick with the same bid and ask (the null tick of `new` is not delayed, and nothing reads
a reference tick's timestamp). `trim`, `enqueue`, `push` and `push_tick` keep the relation, and so
does a run (`run_delayed`).
-/

namespace TickGrinder

/-- The tick `k` later. -/
def Tick.delay (k : ℕ) (x : Tick) : Tick := ⟨x.bid, x.ask, x.timestamp + k⟩

/-- The call on the tick `k` later. -/
def Call.delay (k : ℕ) : Call → Call
  | .push t => .push (t.delay k)
  | .pushTick t => .pushTick (t.delay k)

/-- The reply to the call `k` later: the same average, or the average tick `k` later. -/
def Reply.delay (k : ℕ) : Reply → Reply
  | .avg v => .avg v
  | .tick t => .tick (t.delay k)

variable {k : ℕ}

@[simp] theorem Tick.delay_bid (x : Tick) : (x.delay k).bid = x.bid := rfl

@[simp] theorem Tick.delay_ask (x : Tick) : (x.delay k).ask = x.ask := rfl

@[simp] theorem Tick.delay_timestamp (x : Tick) : (x.delay k).timestamp = x.timestamp + k := rfl

@[simp] theorem checkedSub_add_add (a b k : ℕ) : checkedSub (a + k) (b + k) = checkedSub a b := by
  simp [checkedSub, Nat.add_sub_add_right]

/-! ## Relating two computations that may panic -/

section Rel

variable {α β γ δ : Type} {r : α → β → Prop} {r' : γ → δ → Prop}
  {x : Option α} {y : Option β}

theorem rel_bind {f : α → Option γ} {g : β → Option δ} (h : Option.Rel r x y)
    (hf : ∀ a b, r a b → Option.Rel r' (f a) (g b)) : Option.Rel r' (x.bind f) (y.bind g) := by
  cases h with
  | some hab => exact hf _ _ hab
  | none => exact .none

theorem rel_map {f : α → γ} {g : β → δ} (h : Option.Rel r x y)
    (hf : ∀ a b, r a b → r' (f a) (g b)) : Option.Rel r' (x.map f) (y.map g) := by
  cases h with
  | some hab => exact .some (hf _ _ hab)
  | none => exact .none

theorem rel_of_eq {x' : Option α} (h : x' = x) : Option.Rel (fun a b => b = a) x x' := by
  subst h
  cases x' with
  | some a => exact .some rfl
  | none => exact .none

theorem rel_of_eq_map {f : α → β} {x' : Option β} (h : x' = x.map f) :
    Option.Rel (fun a b => b = f a) x x' := by
  subst h
  cases x with
  | some a => exact .some rfl
  | none => exact .none

theorem map_eq_of_rel {f : α → γ} {g : β → γ} (h : Option.Rel r x y)
    (hf : ∀ a b, r a b → g b = f a) : y.map g = x.map f := by
  cases h with
  | some hab => exact congrArg some (hf _ _ hab)
  | none => rfl

end Rel

namespace SimpleMovingAverage

/-- `s'` is `s` with every tick of its deque `k` later and a reference tick with the same bid and
ask. -/
structure Delayed (k : ℕ) (s s' : SimpleMovingAverage) : Prop where
  period : s'.period = s.period
  ticks : s'.ticks = s.ticks.map (Tick.delay k)
  refBid : s'.refTick.bid = s.refTick.bid
  refAsk : s'.refTick.ask = s.refTick.ask

variable (lim : Option ℕ) {s s' : SimpleMovingAverage}

theorem isOverflown_delay (period : ℕ) (ts : List Tick) :
    isOverflown period (ts.map (Tick.delay k)) = isOverflown period ts := by
  simp only [isOverflown, List.getLast?_map, List.head?_map]
  cases ts.getLast? <;> cases ts.head? <;> simp

theorem assertOrdered_delay (ts : List Tick) (t : Tick) :
    assertOrdered (ts.map (Tick.delay k)) (t.delay k) = assertOrdered ts t := by
  simp only [assertOrdered, List.getLast?_map]
  cases ts.getLast? <;> simp

theorem trimLoop_delay (period : ℕ) :
    ∀ (t t' : Tick) (ts : List Tick), t'.bid = t.bid → t'.ask = t.ask →
      Option.Rel
        (fun a b => b.1 = a.1.map (Tick.delay k) ∧ b.2.bid = a.2.bid ∧ b.2.ask = a.2.ask)
        (trimLoop period t ts) (trimLoop period t' (ts.map (Tick.delay k)))
  | _, _, [], _, _ => .none
  | t, t', x :: xs, hb, ha => by
    have ho := isOverflown_delay (k := k) period (x :: xs)
    rw [List.map_cons] at ho
    rw [List.map_cons, trimLoop, trimLoop, ho]
    cases isOverflown period (x :: xs) with
    | none => exact .none
    | some o =>
      cases o
      · exact .some ⟨rfl, hb, ha⟩
      · exact trimLoop_delay period x (x.delay k) xs rfl rfl

theorem trim_delayed (h : Delayed k s s') :
    Option.Rel (fun a b => Delayed k a.1 b.1 ∧ b.2.bid = a.2.bid ∧ b.2.ask = a.2.ask)
      s.trim s'.trim := by
  obtain ⟨p', ts', r'⟩ := s'
  obtain ⟨rfl, rfl, hb, ha⟩ := h
  exact rel_bind (trimLoop_delay s.period Tick.null Tick.null s.ticks rfl rfl)
    fun ⟨l, r⟩ ⟨l', r''⟩ ⟨hl, hb', ha'⟩ => .some ⟨⟨rfl, hl, hb, ha⟩, hb', ha'⟩

/-- `enqueue` on two states keeps a relation when its checks agree on them: the same order
check, the same overflow check with the tick pushed, related states after the push, and a `trim`
of those whose results give related states once their reference tick is set. -/
theorem enqueue_rel {R : SimpleMovingAverage → SimpleMovingAverage → Prop} {t t' : Tick}
    {T : SimpleMovingAverage × Tick → SimpleMovingAverage × Tick → Prop}
    (hA : assertOrdered s'.ticks t' = assertOrdered s.ticks t)
    (hO : isOverflown s'.period (s'.ticks ++ [t']) = isOverflown s.period (s.ticks ++ [t]))
    (hs : R { s with ticks := s.ticks ++ [t] } { s' with ticks := s'.ticks ++ [t'] })
    (htrim : Option.Rel T { s with ticks := s.ticks ++ [t] }.trim
      { s' with ticks := s'.ticks ++ [t'] }.trim)
    (hT : ∀ a b, T a b → R { a.1 with refTick := a.2 } { b.1 with refTick := b.2 }) :
    Option.Rel R (s.enqueue t) (s'.enqueue t') := by
  simp only [enqueue, hA, hO]
  cases assertOrdered s.ticks t with
  | none => exact .none
  | some _ =>
    cases isOverflown s.period (s.ticks ++ [t]) with
    | none => exact .none
    | some o =>
      cases o
      · exact .some hs
      · simp only [Option.bind_eq_bind, Option.some_bind, ↓reduceIte]
        exact rel_bind htrim fun ⟨_, _⟩ ⟨_, _⟩ h => .some (hT _ _ h)

theorem enqueue_delayed (h : Delayed k s s') (t : Tick) :
    Option.Rel (Delayed k) (s.enqueue t) (s'.enqueue (t.delay k)) := by
  have hs : Delayed k { s with ticks := s.ticks ++ [t] }
      { s' with ticks := s'.ticks ++ [t.delay k] } :=
    ⟨h.period, by simp [h.ticks], h.refBid, h.refAsk⟩
  refine enqueue_rel (by rw [h.ticks, assertOrdered_delay]) ?_ hs (trim_delayed hs)
    fun _ _ ⟨hd, hb, ha⟩ => ⟨hd.period, hd.ticks, hb, ha⟩
  rw [h.period, h.ticks, ← List.map_singleton (Tick.delay k), ← List.map_append, isOverflown_delay]

theorem sumLoop_delay {price : Tick → Option ℕ} (hprice : ∀ x, price (x.delay k) = price x) :
    ∀ (last : Tick) (ts : List Tick) (pSum tSum : ℕ),
      sumLoop lim price (last.delay k) (ts.map (Tick.delay k)) pSum tSum =
        sumLoop lim price last ts pSum tSum
  | _, [], _, _ => rfl
  | last, t :: ts, pSum, tSum => by
    simp only [List.map_cons, sumLoop, Tick.delay_timestamp, checkedSub_add_add, hprice,
      sumLoop_delay hprice t ts]

/-- `average` for a price read from the bid and the ask gives the same on related states. -/
theorem weightedAverage_delayed (h : Delayed k s s') {price : Tick → Option ℕ}
    (hprice : ∀ x y : Tick, y.bid = x.bid → y.ask = x.ask → price y = price x) :
    s'.weightedAverage lim price = s.weightedAverage lim price := by
  unfold weightedAverage
  rw [h.ticks, h.period, h.refBid, hprice _ _ h.refBid h.refAsk]
  cases s.ticks with
  | nil => rfl
  | cons a l => simp [sumLoop_delay lim fun x => hprice x _ rfl rfl]

theorem average_delayed (h : Delayed k s s') : s'.average lim = s.average lim :=
  weightedAverage_delayed lim h fun _ _ hb ha => by simp only [Tick.mid, hb, ha]

theorem averageTick_delayed (h : Delayed k s s') :
    s'.averageTick lim = (s.averageTick lim).map (Tick.delay k) := by
  unfold averageTick
  rw [weightedAverage_delayed lim h fun _ _ hb _ => congrArg some hb,
    weightedAverage_delayed lim h fun _ _ _ ha => congrArg some ha, h.ticks, List.getLast?_map]
  cases s.weightedAverage lim (fun t => some t.bid) <;>
    cases s.weightedAverage lim (fun t => some t.ask) <;> cases s.ticks.getLast? <;> rfl

theorem push_delayed (h : Delayed k s s') (t : Tick) :
    Option.Rel (fun a b => Delayed k a.1 b.1 ∧ b.2 = a.2) (s.push lim t)
      (s'.push lim (t.delay k)) := by
  refine rel_bind (enqueue_delayed h t) fun a b hab => ?_
  rw [hab.ticks]
  rcases a.ticks with _ | ⟨x, _ | ⟨y, l⟩⟩
  · exact rel_map (rel_of_eq (average_delayed lim hab)) fun _ _ hv => ⟨hab, hv⟩
  · exact rel_map (rel_of_eq rfl) fun _ _ hv => ⟨hab, hv⟩
  · exact rel_map (rel_of_eq (average_delayed lim hab)) fun _ _ hv => ⟨hab, hv⟩

theorem pushTick_delayed (h : Delayed k s s') (t : Tick) :
    Option.Rel (fun a b => Delayed k a.1 b.1 ∧ b.2 = a.2.delay k) (s.pushTick lim t)
      (s'.pushTick lim (t.delay k)) := by
  refine rel_bind (enqueue_delayed h t) fun a b hab => ?_
  rw [hab.ticks]
  rcases a.ticks with _ | ⟨x, _ | ⟨y, l⟩⟩
  · exact rel_map (rel_of_eq_map (averageTick_delayed lim hab)) fun _ _ hv => ⟨hab, hv⟩
  · exact .some ⟨hab, rfl⟩
  · exact rel_map (rel_of_eq_map (averageTick_delayed lim hab)) fun _ _ hv => ⟨hab, hv⟩

theorem call_delayed (h : Delayed k s s') :
    ∀ c : Call, Option.Rel (fun a b => Delayed k a.1 b.1 ∧ b.2 = a.2.delay k) (s.call lim c)
      (s'.call lim (c.delay k))
  | .push t =>
    rel_map (push_delayed lim h t) fun ⟨_, _⟩ ⟨_, _⟩ ⟨hd, hv⟩ =>
      ⟨hd, congrArg Reply.avg hv⟩
  | .pushTick t =>
    rel_map (pushTick_delayed lim h t) fun ⟨_, _⟩ ⟨_, _⟩ ⟨hd, hv⟩ =>
      ⟨hd, congrArg Reply.tick hv⟩

theorem run_delayed :
    ∀ {s s' : SimpleMovingAverage} (cs : List Call), Delayed k s s' →
      Option.Rel (fun a b => Delayed k a.1 b.1 ∧ b.2 = a.2.map (Reply.delay k)) (s.run lim cs)
        (s'.run lim (cs.map (Call.delay k)))
  | _, _, [], h => .some ⟨h, rfl⟩
  | _, _, c :: cs, h =>
    rel_bind (call_delayed lim h c) fun ⟨_, _⟩ ⟨_, _⟩ ⟨hd, hr⟩ =>
      rel_bind (run_delayed cs hd) fun ⟨_, _⟩ ⟨_, _⟩ ⟨hd', hrs⟩ =>
        .some ⟨hd', congrArg₂ List.cons hr hrs⟩

/-- The SMA reads time only through differences: for every width of `usize`, every period and
every run of `push` and `push_tick` calls on `SimpleMovingAverage::new`, the same run with every
tick `k` later panics exactly when the run does, and otherwise returns the same averages and the
same average ticks `k` later. -/
theorem delayed_market_same_replies (lim : Option ℕ) (period k : ℕ) (cs : List Call) :
    ((new period).run lim (cs.map (Call.delay k))).map Prod.snd =
      ((new period).run lim cs).map fun r => r.2.map (Reply.delay k) :=
  map_eq_of_rel (run_delayed lim cs ⟨rfl, rfl, rfl, rfl⟩) fun _ _ h => h.2

/-- Three calls, the last after a gap longer than the period, each ten time units later. -/
example : ((new 2).run none ([.push ⟨2, 4, 1⟩, .pushTick ⟨6, 8, 2⟩, .push ⟨4, 6, 5⟩].map
    (Call.delay 10))).map Prod.snd = some [.avg 3, .tick ⟨2, 4, 12⟩, .avg 5] := by
  decide

end SimpleMovingAverage

end TickGrinder
