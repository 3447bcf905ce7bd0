import TickGrinder.Proofs.SmaDelay
import Mathlib.Data.List.Forall2

/-!
# Higher prices, higher averages

The SMA reads prices only through sums, products with the gaps between timestamps and divisions by
a time, all of them monotone, and it reads the same times in two runs whose ticks have the same
timestamps. So raising bids and asks can only raise what it returns, at every width of `usize`:
if a run on the raised ticks returns, the run on the ticks returns too, with each average at most
the raised run's and each average tick with a bid and an ask at most its bid and ask
(`higher_prices_higher_replies`).

One branch reads a price as a flag: `average` weighs the reference tick only when its bid is not
0, the mark of the null tick. A tick pushed with bid 0 and trimmed later is taken for no reference
tick at all, so the order holds only where a bid of 0 is raised to nothing but 0, as it is when
every bid is above 0, the spec's convention for every tick but the null one.

The states of the two runs are related by `Below`, and the two computations by `Under`: wherever
the raised one returns, the other returns a value below. Where only times are read, the two are
related by `Option.Rel`: both panic, or both return.
-/

namespace TickGrinder

/-- `y` is the tick `x` at the same time, with a bid and an ask at least as high, and with a bid
of 0, the mark of the null tick, wherever `x` has one. -/
structure Tick.Below (x y : Tick) : Prop where
  bid : x.bid ≤ y.bid
  ask : x.ask ≤ y.ask
  timestamp : y.timestamp = x.timestamp
  null : x.bid = 0 → y.bid = 0

instance (x y : Tick) : Decidable (x.Below y) :=
  decidable_of_iff (x.bid ≤ y.bid ∧ x.ask ≤ y.ask ∧ y.timestamp = x.timestamp ∧
    (x.bid = 0 → y.bid = 0)) ⟨fun ⟨a, b, c, d⟩ => ⟨a, b, c, d⟩, fun ⟨a, b, c, d⟩ => ⟨a, b, c, d⟩⟩

theorem Tick.Below.refl (x : Tick) : x.Below x := ⟨le_rfl, le_rfl, rfl, id⟩

/-- The reference tick is set in the raised state exactly when it is in the other. -/
theorem Tick.Below.bid_ne_zero_iff {x y : Tick} (h : x.Below y) : y.bid ≠ 0 ↔ x.bid ≠ 0 :=
  ⟨fun hy hx => hy (h.null hx), fun hx hy => hx (Nat.le_zero.1 (hy ▸ h.bid))⟩

/-- `c'` is the call `c`, of the same kind, on a tick `Below` it. -/
def Call.Below : Call → Call → Prop
  | .push t, .push t' => t.Below t'
  | .pushTick t, .pushTick t' => t.Below t'
  | _, _ => False

instance : (c c' : Call) → Decidable (c.Below c')
  | .push t, .push t' => inferInstanceAs (Decidable (t.Below t'))
  | .pushTick t, .pushTick t' => inferInstanceAs (Decidable (t.Below t'))
  | .push _, .pushTick _ => isFalse id
  | .pushTick _, .push _ => isFalse id

/-- `r'` is a reply of the kind of `r` with values at least as high: a greater average, or an
average tick at the same time with a bid and an ask at least as high. -/
def Reply.Below : Reply → Reply → Prop
  | .avg v, .avg v' => v ≤ v'
  | .tick t, .tick t' => t.bid ≤ t'.bid ∧ t.ask ≤ t'.ask ∧ t'.timestamp = t.timestamp
  | _, _ => False

instance : (r r' : Reply) → Decidable (r.Below r')
  | .avg v, .avg v' => inferInstanceAs (Decidable (v ≤ v'))
  | .tick _, .tick _ => inferInstanceAs (Decidable (_ ∧ _ ∧ _))
  | .avg _, .tick _ => isFalse id
  | .tick _, .avg _ => isFalse id

/-! ## Computations below others -/

/-- Wherever `y` returns, `x` returns too, with a value `r`-related to `y`'s. -/
def Under {α β : Type} (r : α → β → Prop) (x : Option α) (y : Option β) : Prop :=
  ∀ b, y = some b → ∃ a, x = some a ∧ r a b

section Under

variable {α β γ δ : Type} {r : α → β → Prop} {r' : γ → δ → Prop} {x : Option α} {y : Option β}

theorem under_none : Under r x none := fun _ h => nomatch h

theorem under_some {a : α} {b : β} (h : r a b) : Under r (some a) (some b) :=
  fun _ hb => ⟨a, rfl, Option.some.inj hb ▸ h⟩

theorem Under.of_rel (h : Option.Rel r x y) : Under r x y := by
  cases h with
  | some hab => exact under_some hab
  | none => exact under_none

theorem Under.bind {f : α → Option γ} {g : β → Option δ} (h : Under r x y)
    (hf : ∀ a b, r a b → Under r' (f a) (g b)) : Under r' (x.bind f) (y.bind g) := by
  intro d hd
  obtain ⟨b, hb, hgb⟩ := Option.bind_eq_some.1 hd
  obtain ⟨a, rfl, hab⟩ := h b hb
  exact hf a b hab d hgb

theorem Under.map {f : α → γ} {g : β → δ} (h : Under r x y)
    (hf : ∀ a b, r a b → r' (f a) (g b)) : Under r' (x.map f) (y.map g) := by
  intro d hd
  obtain ⟨b, hb, rfl⟩ := Option.map_eq_some'.1 hd
  obtain ⟨a, rfl, hab⟩ := h b hb
  exact ⟨f a, rfl, hf a b hab⟩

theorem rel_cases (h : Option.Rel r x y) :
    (x = none ∧ y = none) ∨ ∃ a b, x = some a ∧ y = some b ∧ r a b := by
  cases h with
  | some hab => exact .inr ⟨_, _, rfl, rfl, hab⟩
  | none => exact .inl ⟨rfl, rfl⟩

end Under

variable {lim : Option ℕ}

theorem checkedAdd_under {a b a' b' : ℕ} (ha : a ≤ a') (hb : b ≤ b') :
    Under (· ≤ ·) (checkedAdd lim a b) (checkedAdd lim a' b') := by
  intro c hc
  unfold checkedAdd at hc
  split_ifs at hc with hf
  cases hc
  exact ⟨a + b, checkedAdd_of_fits (fits_of_le hf (by omega)), by omega⟩

theorem checkedMul_under {a b a' b' : ℕ} (ha : a ≤ a') (hb : b ≤ b') :
    Under (· ≤ ·) (checkedMul lim a b) (checkedMul lim a' b') := by
  intro c hc
  unfold checkedMul at hc
  split_ifs at hc with hf
  cases hc
  have hle := Nat.mul_le_mul ha hb
  exact ⟨a * b, checkedMul_of_fits (fits_of_le hf hle), hle⟩

theorem checkedDiv_under {a a' : ℕ} (ha : a ≤ a') (d : ℕ) :
    Under (· ≤ ·) (checkedDiv a d) (checkedDiv a' d) := by
  unfold checkedDiv
  split_ifs
  exacts [under_none, under_some (Nat.div_le_div_right ha)]

theorem Tick.Below.mid {x y : Tick} (h : x.Below y) : Under (· ≤ ·) (x.mid lim) (y.mid lim) :=
  (checkedAdd_under h.bid h.ask).map fun _ _ hle => Nat.div_le_div_right hle

namespace SimpleMovingAverage

/-! ## The deque -/

variable {ts ts' : List Tick}

theorem head?_below (h : List.Forall₂ Tick.Below ts ts') :
    Option.Rel Tick.Below ts.head? ts'.head? := by
  cases h with
  | nil => exact .none
  | cons hx _ => exact .some hx

theorem getLast?_below (h : List.Forall₂ Tick.Below ts ts') :
    Option.Rel Tick.Below ts.getLast? ts'.getLast? := by
  rw [← List.head?_reverse, ← List.head?_reverse]
  exact head?_below (List.rel_reverse h)

theorem isOverflown_below (period : ℕ) (h : List.Forall₂ Tick.Below ts ts') :
    isOverflown period ts' = isOverflown period ts := by
  unfold isOverflown
  rcases rel_cases (getLast?_below h) with ⟨hl, hl'⟩ | ⟨l, l', hl, hl', hll⟩
  · rw [hl, hl']; rfl
  rcases rel_cases (head?_below h) with ⟨hf, hf'⟩ | ⟨f, f', hf, hf', hff⟩
  · rw [hl, hl', hf, hf']; rfl
  · simp only [hl, hl', hf, hf', Option.bind_eq_bind, Option.some_bind, hll.timestamp,
      hff.timestamp]

theorem assertOrdered_below (h : List.Forall₂ Tick.Below ts ts') {t t' : Tick}
    (ht : t'.timestamp = t.timestamp) : assertOrdered ts' t' = assertOrdered ts t := by
  unfold assertOrdered
  rcases rel_cases (getLast?_below h) with ⟨hl, hl'⟩ | ⟨l, l', hl, hl', hll⟩
  · rw [hl, hl']
  · simp only [hl, hl', hll.timestamp, ht]

theorem trimLoop_below (period : ℕ) (h : List.Forall₂ Tick.Below ts ts') :
    ∀ {t t' : Tick}, t.Below t' →
      Option.Rel (fun a b => List.Forall₂ Tick.Below a.1 b.1 ∧ a.2.Below b.2)
        (trimLoop period t ts) (trimLoop period t' ts') := by
  induction h with
  | nil => exact fun _ => .none
  | @cons x x' xs xs' hx hxs ih =>
    intro t t' ht
    rw [trimLoop, trimLoop, isOverflown_below period (.cons hx hxs)]
    cases isOverflown period (x :: xs) with
    | none => exact .none
    | some o =>
      cases o
      · exact .some ⟨.cons hx hxs, ht⟩
      · exact ih hx

/-- `s'` is `s` with prices at least as high: the same period, a deque of ticks each `Below` its
own, and a reference tick `Below` `s`'s. -/
structure Below (s s' : SimpleMovingAverage) : Prop where
  period : s'.period = s.period
  ticks : List.Forall₂ Tick.Below s.ticks s'.ticks
  refTick : s.refTick.Below s'.refTick

theorem Below.refl (s : SimpleMovingAverage) : Below s s :=
  ⟨rfl, List.forall₂_same.2 fun x _ => Tick.Below.refl x, Tick.Below.refl _⟩

variable (lim) {s s' : SimpleMovingAverage}

theorem trim_below (h : Below s s') :
    Option.Rel (fun a b => Below a.1 b.1 ∧ a.2.Below b.2) s.trim s'.trim := by
  obtain ⟨p', ts', r'⟩ := s'
  obtain ⟨rfl, hts, hr⟩ := h
  exact rel_bind (trimLoop_below s.period hts (Tick.Below.refl Tick.null))
    fun ⟨_, _⟩ ⟨_, _⟩ ⟨hl, ht⟩ => .some ⟨⟨rfl, hl, hr⟩, ht⟩

theorem enqueue_below (h : Below s s') {t t' : Tick} (ht : t.Below t') :
    Option.Rel Below (s.enqueue t) (s'.enqueue t') := by
  have hts : List.Forall₂ Tick.Below (s.ticks ++ [t]) (s'.ticks ++ [t']) :=
    List.rel_append h.ticks (.cons ht .nil)
  have hs : Below { s with ticks := s.ticks ++ [t] } { s' with ticks := s'.ticks ++ [t'] } :=
    ⟨h.period, hts, h.refTick⟩
  exact enqueue_rel (assertOrdered_below h.ticks ht.timestamp)
    (by rw [h.period, isOverflown_below _ hts]) hs (trim_below hs)
    fun _ _ ⟨hd, hr⟩ => ⟨hd.period, hd.ticks, hr⟩

/-- The averaging loop over a deque `Below` another sums prices at most the other's over the same
times, for a price that is monotone. -/
theorem sumLoop_under {price : Tick → Option ℕ}
    (hprice : ∀ x y, x.Below y → Under (· ≤ ·) (price x) (price y))
    (h : List.Forall₂ Tick.Below ts ts') :
    ∀ {last last' : Tick} {pSum pSum' : ℕ} (tSum : ℕ), last.Below last' → pSum ≤ pSum' →
      Under (fun a b => a.1 ≤ b.1 ∧ a.2 = b.2) (sumLoop lim price last ts pSum tSum)
        (sumLoop lim price last' ts' pSum' tSum) := by
  induction h with
  | nil => exact fun _ _ hp => under_some ⟨hp, rfl⟩
  | @cons t t' _ _ ht _ ih =>
    intro last last' pSum pSum' tSum hl hp
    simp only [sumLoop, ht.timestamp, hl.timestamp]
    cases checkedSub t.timestamp last.timestamp with
    | none => exact under_none
    | some tDiff =>
      refine (hprice last last' hl).bind fun p p' hpp => ?_
      refine (checkedMul_under hpp le_rfl).bind fun pt pt' hpt => ?_
      refine (checkedAdd_under hp hpt).bind fun q q' hq => ?_
      cases checkedAdd lim tSum tDiff with
      | none => exact under_none
      | some tSum' => exact ih tSum' ht hq

/-- `average` for a monotone price is at most its value on a raised state wherever that returns:
the loop's price sum is at most the other's over the same time sum, the reference tick is set in
both or in neither, and then weighs no more. -/
theorem weightedAverage_under (h : Below s s') {price : Tick → Option ℕ}
    (hprice : ∀ x y, x.Below y → Under (· ≤ ·) (price x) (price y)) :
    Under (· ≤ ·) (s.weightedAverage lim price) (s'.weightedAverage lim price) := by
  obtain ⟨p, ts, r⟩ := s
  obtain ⟨p', ts', r'⟩ := s'
  obtain ⟨rfl, hts, hr⟩ := h
  unfold weightedAverage
  cases hts with
  | nil => exact under_none
  | cons ha hl =>
    refine (sumLoop_under lim hprice hl 0 ha le_rfl).bind fun ⟨q, T⟩ ⟨q', T'⟩ ⟨hq, hT⟩ => ?_
    dsimp only at hq hT ⊢
    subst hT
    by_cases hb : r.bid ≠ 0
    · rw [if_pos hb, if_pos (hr.bid_ne_zero_iff.2 hb)]
      cases checkedSub p' T with
      | none => exact under_none
      | some o =>
        exact (hprice _ _ hr).bind fun _ _ hp => (checkedMul_under le_rfl hp).bind
          fun _ _ hm => (checkedAdd_under hq hm).bind fun _ _ hn => checkedDiv_under hn _
    · rw [if_neg hb, if_neg (mt hr.bid_ne_zero_iff.1 hb)]
      exact checkedDiv_under hq _

theorem average_under (h : Below s s') : Under (· ≤ ·) (s.average lim) (s'.average lim) :=
  weightedAverage_under lim h fun _ _ hxy => hxy.mid

theorem averageTick_under (h : Below s s') :
    Under (fun a b => Reply.Below (.tick a) (.tick b)) (s.averageTick lim) (s'.averageTick lim) :=
  (weightedAverage_under lim h fun _ _ hxy => under_some hxy.bid).bind fun _ _ hb =>
    (weightedAverage_under lim h fun _ _ hxy => under_some hxy.ask).bind fun _ _ ha =>
      (Under.of_rel (getLast?_below h.ticks)).bind fun _ _ hx => under_some ⟨hb, ha, hx.timestamp⟩

theorem push_under (h : Below s s') {t t' : Tick} (ht : t.Below t') :
    Under (fun a b => Below a.1 b.1 ∧ Reply.Below (.avg a.2) (.avg b.2)) (s.push lim t)
      (s'.push lim t') := by
  refine (Under.of_rel (enqueue_below h ht)).bind fun ⟨pa, tsa, ra⟩ ⟨pb, tsb, rb⟩ hab => ?_
  have hts := hab.ticks
  dsimp only at hts
  rcases hts with _ | ⟨hx, _ | _⟩
  · exact (average_under lim hab).map fun _ _ hv => ⟨hab, hv⟩
  · exact hx.mid.map fun _ _ hv => ⟨hab, hv⟩
  · exact (average_under lim hab).map fun _ _ hv => ⟨hab, hv⟩

theorem pushTick_under (h : Below s s') {t t' : Tick} (ht : t.Below t') :
    Under (fun a b => Below a.1 b.1 ∧ Reply.Below (.tick a.2) (.tick b.2)) (s.pushTick lim t)
      (s'.pushTick lim t') := by
  refine (Under.of_rel (enqueue_below h ht)).bind fun ⟨pa, tsa, ra⟩ ⟨pb, tsb, rb⟩ hab => ?_
  have hts := hab.ticks
  dsimp only at hts
  rcases hts with _ | ⟨hx, _ | _⟩
  · exact (averageTick_under lim hab).map fun _ _ hv => ⟨hab, hv⟩
  · exact under_some ⟨hab, hx.bid, hx.ask, hx.timestamp⟩
  · exact (averageTick_under lim hab).map fun _ _ hv => ⟨hab, hv⟩

theorem call_under (h : Below s s') :
    ∀ {c c' : Call}, c.Below c' →
      Under (fun a b => Below a.1 b.1 ∧ a.2.Below b.2) (s.call lim c) (s'.call lim c')
  | .push _, .push _, hc => (push_under lim h hc).map fun ⟨_, _⟩ ⟨_, _⟩ hv => hv
  | .pushTick _, .pushTick _, hc => (pushTick_under lim h hc).map fun ⟨_, _⟩ ⟨_, _⟩ hv => hv
  | .push _, .pushTick _, hc => hc.elim
  | .pushTick _, .push _, hc => hc.elim

theorem run_under {cs cs' : List Call} (hc : List.Forall₂ Call.Below cs cs') :
    ∀ {s s' : SimpleMovingAverage}, Below s s' →
      Under (fun a b => Below a.1 b.1 ∧ List.Forall₂ Reply.Below a.2 b.2) (s.run lim cs)
        (s'.run lim cs') := by
  induction hc with
  | nil => exact fun h => under_some ⟨h, .nil⟩
  | cons hc _ ih =>
    exact fun h => (call_under lim h hc).bind fun ⟨_, _⟩ ⟨_, _⟩ ⟨hd, hr⟩ =>
      (ih hd).bind fun ⟨_, _⟩ ⟨_, _⟩ ⟨hd', hrs⟩ => under_some ⟨hd', .cons hr hrs⟩

/-- Raising prices never lowers what the SMA returns: for every width of `usize`, every period and
every two runs of `push` and `push_tick` calls on `SimpleMovingAverage::new`, of the same kinds at
the same times, each bid and ask of the second at least the first's, and a bid of 0 in the first
only where the second has one: if the second run returns, the first returns too, each of its
averages at most the second's and each of its average ticks at the same time with a bid and an
ask at most the second's. -/
theorem higher_prices_higher_replies (lim : Option ℕ) (period : ℕ) {cs cs' : List Call}
    (hc : List.Forall₂ Call.Below cs cs') (rs' : List Reply)
    (hrun : ((new period).run lim cs').map Prod.snd = some rs') :
    ∃ rs, ((new period).run lim cs).map Prod.snd = some rs ∧ List.Forall₂ Reply.Below rs rs' :=
  ((run_under lim hc (Below.refl (new period))).map fun _ _ h => h.2) rs' hrun

/-- Two pushes and a `push_tick` on a 64-bit target, against the same with the second tick's
prices raised. -/
theorem raised_second_tick_raises_replies :
    List.Forall₂ Call.Below [.push ⟨2, 4, 1⟩, .push ⟨6, 8, 2⟩, .pushTick ⟨4, 6, 3⟩]
        [.push ⟨2, 4, 1⟩, .push ⟨10, 12, 2⟩, .pushTick ⟨4, 6, 3⟩] ∧
      ((new 2).run (some 18446744073709551616)
        [.push ⟨2, 4, 1⟩, .push ⟨10, 12, 2⟩, .pushTick ⟨4, 6, 3⟩]).map Prod.snd =
          some [.avg 3, .avg 3, .tick ⟨6, 8, 3⟩] ∧
      ∃ rs, ((new 2).run (some 18446744073709551616)
          [.push ⟨2, 4, 1⟩, .push ⟨6, 8, 2⟩, .pushTick ⟨4, 6, 3⟩]).map Prod.snd = some rs ∧
        List.Forall₂ Reply.Below rs [.avg 3, .avg 3, .tick ⟨6, 8, 3⟩] :=
  have hc : List.Forall₂ Call.Below [.push ⟨2, 4, 1⟩, .push ⟨6, 8, 2⟩, .pushTick ⟨4, 6, 3⟩]
      [.push ⟨2, 4, 1⟩, .push ⟨10, 12, 2⟩, .pushTick ⟨4, 6, 3⟩] := by decide
  ⟨hc, rfl, higher_prices_higher_replies _ _ hc _ rfl⟩

/-- A first tick with bid 0, trimmed at the third push, is taken for no reference tick: the third
average, 10, is above the 5 of the same run with that tick's bid and ask raised to 1. -/
example : ((new 2).run none [.push ⟨0, 0, 1⟩, .push ⟨10, 10, 2⟩, .push ⟨10, 10, 3⟩]).map
      Prod.snd = some [.avg 0, .avg 0, .avg 10] ∧
    ((new 2).run none [.push ⟨1, 1, 1⟩, .push ⟨10, 10, 2⟩, .push ⟨10, 10, 3⟩]).map
      Prod.snd = some [.avg 1, .avg 1, .avg 5] := by
  decide

end SimpleMovingAverage

end TickGrinder
