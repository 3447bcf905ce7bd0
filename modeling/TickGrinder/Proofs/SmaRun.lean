import TickGrinder.Proofs.SmaAverage

/-!
# The states a run of pushes reaches

Over the naturals and with a period of at least one, a push on a state `ofHistory period hs` panics
only on its ordering assertion: the window spans less than the period, so `period - t_sum` does not
underflow, and the divisor is the period or a span of two distinct timestamps
(`reply_ofHistory_isSome`). So a run of strictly increasing ticks never panics and ends in the
spec's state (`run_keeps_window`), and every state a run reaches is such a state
(`run_ofHistory_inv`), from which a push panics exactly when its tick is not newer than the back
(`push_panics_iff_out_of_order`). A period of 0 is accepted by `SMAList::add` and `AddSMA`, and
then `trim` pops the deque empty and `is_overflown` unwraps its missing back on the first push.
-/

namespace TickGrinder

theorem Increasing.concat {l : List Tick} {t : Tick} (h : Increasing l)
    (hl : ∀ x ∈ l, x.timestamp < t.timestamp) : Increasing (l ++ [t]) :=
  List.pairwise_append.mpr ⟨h, List.pairwise_singleton _ _, fun x hx y hy => by
    rw [List.mem_singleton.mp hy]; exact hl x hx⟩

theorem exists_getLast?_ge {l : List Tick} {x : Tick} (h : Increasing l) (hx : x ∈ l) :
    ∃ last ∈ l.getLast?, x.timestamp ≤ last.timestamp := by
  obtain ⟨g, y, rfl⟩ := List.eq_nil_or_concat l |>.resolve_left (List.ne_nil_of_mem hx)
  rw [List.concat_eq_append] at h hx ⊢
  refine ⟨y, by simp, ?_⟩
  rcases List.mem_append.mp hx with hx | hx
  · exact (h.lt_of_concat hx).le
  · rw [List.mem_singleton.mp hx]

namespace SimpleMovingAverage

variable {period : ℕ}

theorem increasing_ofHistory {hs : List Tick} (h : Increasing hs) :
    Increasing (ofHistory period hs).ticks :=
  h.sublist (List.dropWhile_suffix _).sublist

/-- The window spans less than the period: its oldest tick is not stale. -/
theorem span_lt_of_ofHistory (hp : 0 < period) {g : List Tick} {t a : Tick} {l : List Tick}
    (hw : (ofHistory period (g ++ [t])).ticks = a :: l) : span a l < period := by
  rw [ofHistory_ticks_concat hp] at hw
  cases hD : g.dropWhile (stale period t.timestamp) with
  | nil =>
    simp only [hD, List.nil_append, List.cons.injEq] at hw
    obtain ⟨rfl, rfl⟩ := hw
    simpa [span] using hp
  | cons d D =>
    simp only [hD, List.cons_append, List.cons.injEq] at hw
    obtain ⟨rfl, rfl⟩ := hw
    have hd := List.head?_dropWhile_not (stale period t.timestamp) g
    simp only [hD, List.head?_cons, stale, decide_eq_false_iff_not, Nat.not_le] at hd
    simpa [span] using hd

/-- `average` on a window of two ticks or more, over the naturals. -/
theorem weightedAverage_ofHistory (hp : 0 < period) {g : List Tick} {t a b : Tick}
    {l : List Tick} (h : Increasing (g ++ [t]))
    (hw : (ofHistory period (g ++ [t])).ticks = a :: b :: l) {gp : Tick → ℕ}
    {f : Tick → Option ℕ} (hf : ∀ x, f x = some (gp x)) :
    (ofHistory period (g ++ [t])).weightedAverage none f = some
      (if (ofHistory period (g ++ [t])).refTick.bid ≠ 0
        then (spanSum gp a (b :: l) + (period - span a (b :: l))
          * gp (ofHistory period (g ++ [t])).refTick) / period
        else spanSum gp a (b :: l) / span a (b :: l)) := by
  have hinc : Increasing (a :: b :: l) := hw ▸ increasing_ofHistory h
  have hlt := span_lt_of_ofHistory hp hw
  rw [weightedAverage_eq none hw hinc (fun x _ => hf x) (by simp)
    fun _ => ⟨by simpa using hlt.le, by simp⟩]
  split <;> simp [hp, span_pos hinc]

/-- After an increasing history, no call panics over the naturals. -/
theorem reply_ofHistory_isSome (hp : 0 < period) {g : List Tick} {t : Tick}
    (h : Increasing (g ++ [t])) (c : Call) :
    ((ofHistory period (g ++ [t])).reply none c).isSome := by
  have hw := ofHistory_ticks_concat hp g t
  rcases hD : (ofHistory period (g ++ [t])).ticks with _ | ⟨a, _ | ⟨b, l⟩⟩
  · simp [hD] at hw
  · cases c <;> simp [reply, hD]
  · cases c <;> simp [reply, hD, average, averageTick, weightedAverage_ofHistory hp h hD,
      List.getLast?_cons]

theorem replies_isSome (hp : 0 < period) :
    ∀ (hs : List Tick) (cs : List Call), Increasing (hs ++ cs.map Call.tick) →
      (replies none period hs cs).isSome
  | hs, [], _ => rfl
  | hs, c :: cs, h => by
    have h2 : Increasing (hs ++ [c.tick] ++ cs.map Call.tick) := by simpa using h
    obtain ⟨r, hr⟩ := Option.isSome_iff_exists.mp
      (reply_ofHistory_isSome hp (h2.sublist (List.sublist_append_left _ _)) c)
    obtain ⟨rs, hrs⟩ := Option.isSome_iff_exists.mp (replies_isSome hp _ cs h2)
    simp [replies, hr, hrs]

theorem dropWhile_eq_drop {p : Tick → Bool} (l : List Tick) :
    l.dropWhile p = l.drop (l.takeWhile p).length :=
  calc l.dropWhile p = (l.takeWhile p ++ l.dropWhile p).drop (l.takeWhile p).length :=
        (List.drop_left _ _).symm
    _ = l.drop (l.takeWhile p).length := by rw [List.takeWhile_append_dropWhile]

theorem take_takeWhile_length {p : Tick → Bool} (l : List Tick) :
    l.take (l.takeWhile p).length = l.takeWhile p :=
  calc l.take (l.takeWhile p).length
      = (l.takeWhile p ++ l.dropWhile p).take (l.takeWhile p).length := by
        rw [List.takeWhile_append_dropWhile]
    _ = l.takeWhile p := List.take_left _ _

theorem ofHistory_ticks_ne_nil (hp : 0 < period) {hs : List Tick} (hne : hs ≠ []) :
    (ofHistory period hs).ticks ≠ [] := by
  obtain ⟨g, t, rfl⟩ := List.eq_nil_or_concat hs |>.resolve_left hne
  simp [List.concat_eq_append, ofHistory_ticks_concat hp]

/-- For every period of at least one, a run of strictly increasing ticks never panics, and leaves
the ticks from the first one less than `period` before the newest, with the last tick before them
as `ref_tick`, or the null tick. -/
theorem run_keeps_window (hp : 0 < period) {calls : List Call} {hs : List Tick}
    (hhs : calls.map Call.tick = hs) (hinc : Increasing hs) (hne : hs ≠ []) :
    ∃ s rs, (new period).run none calls = some (s, rs) ∧ s.period = period ∧
      ∃ k < hs.length, s.ticks = hs.drop k ∧
        (∀ x ∈ hs.take k, period ≤ newest hs - x.timestamp) ∧
        (∀ x ∈ s.ticks.head?, newest hs - x.timestamp < period) ∧
        s.refTick = (hs.take k).getLast?.getD Tick.null := by
  obtain ⟨rs, hrs⟩ := Option.isSome_iff_exists.mp
    (replies_isSome hp [] calls (by simpa [hhs] using hinc))
  have hrun := run_ofHistory none hp [] calls (by simpa [hhs] using hinc)
  rw [hrs, List.nil_append, hhs] at hrun
  rw [← ofHistory_nil]
  refine ⟨_, rs, hrun, rfl, (hs.takeWhile (stale period (newest hs))).length, ?_, ?_, ?_, ?_, ?_⟩
  · have hlen :=
      congrArg List.length (List.takeWhile_append_dropWhile (stale period (newest hs)) hs)
    have hD := List.length_pos.mpr (ofHistory_ticks_ne_nil hp hne)
    simp only [List.length_append] at hlen
    simp only [ofHistory] at hD
    omega
  · exact dropWhile_eq_drop hs
  · intro x hx
    rw [take_takeWhile_length] at hx
    simpa [stale] using List.mem_takeWhile_imp hx
  · intro x hx
    have hd := List.head?_dropWhile_not (stale period (newest hs)) hs
    simp only [ofHistory, Option.mem_def] at hx
    simpa [hx, stale] using hd
  · simp [ofHistory, take_takeWhile_length]

theorem window_after_three_pushes :
    ∃ s rs, (new 2).run none [.push ⟨2, 2, 1⟩, .pushTick ⟨4, 4, 2⟩, .push ⟨6, 6, 4⟩]
        = some (s, rs) ∧ s.period = 2 ∧
      ∃ k < [Tick.mk 2 2 1, ⟨4, 4, 2⟩, ⟨6, 6, 4⟩].length,
        s.ticks = [Tick.mk 2 2 1, ⟨4, 4, 2⟩, ⟨6, 6, 4⟩].drop k ∧
        (∀ x ∈ [Tick.mk 2 2 1, ⟨4, 4, 2⟩, ⟨6, 6, 4⟩].take k,
          2 ≤ newest [Tick.mk 2 2 1, ⟨4, 4, 2⟩, ⟨6, 6, 4⟩] - x.timestamp) ∧
        (∀ x ∈ s.ticks.head?, newest [Tick.mk 2 2 1, ⟨4, 4, 2⟩, ⟨6, 6, 4⟩] - x.timestamp < 2) ∧
        s.refTick = ([Tick.mk 2 2 1, ⟨4, 4, 2⟩, ⟨6, 6, 4⟩].take k).getLast?.getD Tick.null :=
  run_keeps_window (by decide) rfl (by decide) (by simp)

/-- A tick newer than the whole window is newer than the whole history. -/
theorem increasing_concat_of_window (hp : 0 < period) {hs : List Tick} {t : Tick}
    (h : Increasing hs) (ht : ∀ x ∈ (ofHistory period hs).ticks, x.timestamp < t.timestamp) :
    Increasing (hs ++ [t]) := by
  rcases List.eq_nil_or_concat hs with rfl | ⟨g, y, rfl⟩
  · exact List.pairwise_singleton _ _
  rw [List.concat_eq_append] at h ht ⊢
  have hy : y.timestamp < t.timestamp := ht y (by simp [ofHistory_ticks_concat hp])
  refine h.concat fun x hx => ?_
  rcases List.mem_append.mp hx with hx | hx
  · exact (h.lt_of_concat hx).trans hy
  · rwa [List.mem_singleton.mp hx]

theorem enqueue_eq_none_iff (hp : 0 < period) {hs : List Tick} {t : Tick} (h : Increasing hs) :
    (ofHistory period hs).enqueue t = none ↔
      ∃ x ∈ (ofHistory period hs).ticks, t.timestamp ≤ x.timestamp := by
  constructor
  · intro he
    by_contra hno
    push_neg at hno
    rw [enqueue_ofHistory hp (increasing_concat_of_window hp h hno)] at he
    cases he
  · rintro ⟨x, hx, hle⟩
    obtain ⟨last, hlast, hxl⟩ := exists_getLast?_ge (increasing_ofHistory h) hx
    have ha : assertOrdered (ofHistory period hs).ticks t = none :=
      assertOrdered_eq_none.mpr ⟨last, hlast, hle.trans hxl⟩
    simp [enqueue, ha]

/-- A call after an increasing history panics exactly when its tick is not newer than the back. -/
theorem call_eq_none_iff (hp : 0 < period) {hs : List Tick} (h : Increasing hs) (c : Call) :
    (ofHistory period hs).call none c = none ↔
      ∃ x ∈ (ofHistory period hs).ticks, c.tick.timestamp ≤ x.timestamp := by
  rw [← enqueue_eq_none_iff hp h, call_eq]
  cases he : (ofHistory period hs).enqueue c.tick with
  | none => simp
  | some s' =>
    have hinc : Increasing (hs ++ [c.tick]) := by
      by_contra hno
      apply hno
      refine increasing_concat_of_window hp h fun x hx => ?_
      by_contra hlt
      have := (enqueue_eq_none_iff hp h).mpr ⟨x, hx, Nat.le_of_not_lt hlt⟩
      rw [he] at this
      cases this
    rw [enqueue_ofHistory hp hinc, Option.some_inj] at he
    subst he
    obtain ⟨r, hr⟩ := Option.isSome_iff_exists.mp (reply_ofHistory_isSome hp hinc c)
    simp [hr]

/-- Every state a run reaches over the naturals is the spec's state for an increasing history. -/
theorem run_ofHistory_inv (hp : 0 < period) :
    ∀ (hs : List Tick) (cs : List Call) (s : SimpleMovingAverage) (rs : List Reply),
      Increasing hs → (ofHistory period hs).run none cs = some (s, rs) →
        Increasing (hs ++ cs.map Call.tick) ∧ s = ofHistory period (hs ++ cs.map Call.tick)
  | hs, [], s, rs, h, hrun => by
    simp only [run, Option.some.injEq, Prod.mk.injEq] at hrun
    simp [h, hrun.1]
  | hs, c :: cs, s, rs, h, hrun => by
    simp only [run, Option.bind_eq_bind, Option.bind_eq_some, Prod.exists] at hrun
    obtain ⟨s', r, hc, s'', rs', hcs, hfin⟩ := hrun
    have hinc : Increasing (hs ++ [c.tick]) := by
      refine increasing_concat_of_window hp h fun x hx => Nat.lt_of_not_le fun hle => ?_
      rw [(call_eq_none_iff hp h c).mpr ⟨x, hx, hle⟩] at hc
      cases hc
    rw [call_eq, enqueue_ofHistory hp hinc, Option.some_bind] at hc
    have hs' : s' = ofHistory period (hs ++ [c.tick]) := by
      cases hr : (ofHistory period (hs ++ [c.tick])).reply none c <;> simp_all
    subst hs'
    have := run_ofHistory_inv hp _ cs s'' rs' hinc hcs
    simp_all

/-- For every period of at least one and every state a run reaches, `push` and `push_tick` panic
exactly when the deque holds a tick not older than theirs; with a period of 0 the first push
panics. -/
theorem push_panics_iff_out_of_order :
    (∀ period, 0 < period → ∀ (calls : List Call) (s : SimpleMovingAverage) (rs : List Reply),
      (new period).run none calls = some (s, rs) → ∀ t : Tick,
        (s.push none t = none ↔ ∃ x ∈ s.ticks, t.timestamp ≤ x.timestamp) ∧
        (s.pushTick none t = none ↔ ∃ x ∈ s.ticks, t.timestamp ≤ x.timestamp)) ∧
    ∀ t : Tick, (new 0).push none t = none ∧ (new 0).pushTick none t = none := by
  refine ⟨fun period hp calls s rs hrun t => ?_, fun t => ?_⟩
  · rw [← ofHistory_nil] at hrun
    obtain ⟨h, rfl⟩ := run_ofHistory_inv hp [] calls s rs List.Pairwise.nil hrun
    constructor
    · simpa [call] using call_eq_none_iff hp h (.push t)
    · simpa [call] using call_eq_none_iff hp h (.pushTick t)
  · simp [push, pushTick, enqueue, new, assertOrdered, isOverflown, trim, trimLoop]

/-- With a period of 0 the first push panics, though the deque holds no tick. -/
theorem push_period_zero_panics :
    (new 0).push none ⟨1, 1, 1⟩ = none ∧ (new 0).ticks = [] := by
  decide

end SimpleMovingAverage

end TickGrinder
