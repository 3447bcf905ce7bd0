import TickGrinder.Sma

/-!
# The window an SMA keeps

After the pushes `hs`, with strictly increasing timestamps and a period of at least one, the deque
holds the ticks of `hs` less than `period` before the newest, and `ref_tick` is the newest of the
others, or the null tick (`ofHistory`). One push moves from `ofHistory period hs` to
`ofHistory period (hs ++ [t])` (`enqueue_ofHistory`): `trim` pops exactly the ticks that went stale
(`trimLoop_concat`), and a tick stale for the old newest tick is stale for the new one.

A run of calls therefore passes through the states `ofHistory period` of its prefixes, each call
replying from the state its tick leads to (`run_ofHistory`).
-/

namespace TickGrinder

/-- A tick `period` or more before `now` has left the window. -/
def stale (period now : ℕ) (h : Tick) : Bool := decide (period ≤ now - h.timestamp)

/-- The newest timestamp of a history, 0 for the empty one. -/
def newest (hs : List Tick) : ℕ := (hs.getLast?.map Tick.timestamp).getD 0

@[simp] theorem newest_concat (hs : List Tick) (t : Tick) : newest (hs ++ [t]) = t.timestamp := by
  simp [newest]

theorem stale_self {period : ℕ} (hp : 0 < period) (t : Tick) :
    stale period t.timestamp t = false := by
  simp only [stale, Nat.sub_self, decide_eq_false_iff_not]
  omega

theorem stale_of_le {period now now' : ℕ} {x : Tick} (h : stale period now x = true)
    (hle : now ≤ now') : stale period now' x = true := by
  simp only [stale, decide_eq_true_eq] at *
  omega

theorem getLast?_getD_append (l₁ l₂ : List Tick) (d : Tick) :
    (l₁ ++ l₂).getLast?.getD d = l₂.getLast?.getD (l₁.getLast?.getD d) := by
  rw [List.getLast?_append]
  cases l₂.getLast? <;> rfl

theorem Increasing.lt_of_concat {hs : List Tick} {t x : Tick} (h : Increasing (hs ++ [t]))
    (hx : x ∈ hs) : x.timestamp < t.timestamp :=
  (List.pairwise_append.mp h).2.2 x hx t (List.mem_singleton_self t)

theorem Increasing.newest_lt {hs : List Tick} {t : Tick} (h : Increasing (hs ++ [t]))
    (hne : hs ≠ []) : newest hs < t.timestamp := by
  obtain ⟨g, y, rfl⟩ := List.eq_nil_or_concat hs |>.resolve_left hne
  rw [List.concat_eq_append] at h ⊢
  simpa using h.lt_of_concat (List.mem_append_right g (List.mem_singleton_self y))

namespace SimpleMovingAverage

variable {period : ℕ}

/-- The state the spec describes after the pushes `hs`: the ticks less than `period` before the
newest, and as `ref_tick` the newest of the others, or the null tick. -/
def ofHistory (period : ℕ) (hs : List Tick) : SimpleMovingAverage where
  period := period
  ticks := hs.dropWhile (stale period (newest hs))
  refTick := (hs.takeWhile (stale period (newest hs))).getLast?.getD Tick.null

@[simp] theorem ofHistory_period (hs : List Tick) : (ofHistory period hs).period = period := rfl

@[simp] theorem ofHistory_nil : ofHistory period [] = new period := rfl

/-- The newest tick is never stale, so it ends the window. -/
theorem ofHistory_ticks_concat (hp : 0 < period) (hs : List Tick) (t : Tick) :
    (ofHistory period (hs ++ [t])).ticks
      = hs.dropWhile (stale period t.timestamp) ++ [t] := by
  simp only [ofHistory, newest_concat, List.dropWhile_append]
  split <;> simp_all [stale_self hp]

theorem isOverflown_singleton (x : Tick) : isOverflown period [x] = some (decide (period ≤ 0)) := by
  simp [isOverflown]

theorem isOverflown_cons_concat {y x : Tick} (l : List Tick) (h : y.timestamp ≤ x.timestamp) :
    isOverflown period (y :: (l ++ [x])) = some (stale period x.timestamp y) := by
  simp [isOverflown, List.getLast?_cons, h, stale]

/-- `trim` pops exactly the stale ticks, and leaves the last one popped. -/
theorem trimLoop_concat (hp : 0 < period) :
    ∀ (l : List Tick) (t x : Tick), Increasing (l ++ [x]) →
      trimLoop period t (l ++ [x])
        = some ((l ++ [x]).dropWhile (stale period x.timestamp),
            ((l ++ [x]).takeWhile (stale period x.timestamp)).getLast?.getD t)
  | [], t, x, _ => by simp [trimLoop, isOverflown_singleton, stale_self hp, Nat.not_le.mpr hp]
  | y :: l, t, x, h => by
    have hyx : y.timestamp < x.timestamp :=
      List.rel_of_pairwise_cons h (List.mem_append_right l (List.mem_singleton_self x))
    rw [List.cons_append, trimLoop, isOverflown_cons_concat l hyx.le]
    cases hs : stale period x.timestamp y
    · simp [hs]
    · simp [hs, trimLoop_concat hp l y x h.of_cons, List.getLast?_cons]

theorem assertOrdered_of_lt {l : List Tick} {t : Tick} (h : ∀ x ∈ l, x.timestamp < t.timestamp) :
    assertOrdered l t = some () := by
  unfold assertOrdered
  split
  · rename_i last hl
    simp [h last (List.mem_of_getLast?_eq_some hl)]
  · rfl

theorem assertOrdered_eq_none {l : List Tick} {t : Tick} :
    assertOrdered l t = none ↔ ∃ last ∈ l.getLast?, t.timestamp ≤ last.timestamp := by
  unfold assertOrdered
  split <;> simp_all

/-- `enqueue` on any ordered deque: push the tick, drop what went stale, and keep the newest tick
dropped as `ref_tick`. -/
theorem enqueue_eq {s : SimpleMovingAverage} {t : Tick} (hp : 0 < s.period)
    (h : Increasing (s.ticks ++ [t])) :
    s.enqueue t = some { s with
      ticks := (s.ticks ++ [t]).dropWhile (stale s.period t.timestamp)
      refTick := ((s.ticks ++ [t]).takeWhile (stale s.period t.timestamp)).getLast?.getD
        s.refTick } := by
  obtain ⟨period, ticks, ref⟩ := s
  simp only at hp h ⊢
  simp only [enqueue, assertOrdered_of_lt fun x hx => h.lt_of_concat hx]
  cases ticks with
  | nil => simp [isOverflown_singleton, stale_self hp, Nat.not_le.mpr hp]
  | cons y l =>
    have hyt : y.timestamp < t.timestamp := h.lt_of_concat (List.mem_cons_self y l)
    simp only [List.cons_append, isOverflown_cons_concat l hyt.le]
    cases hs : stale period t.timestamp y
    · simp [hs]
    · have := trimLoop_concat hp (y :: l) Tick.null t h
      simp only [List.cons_append] at this
      simp [hs, trim, this, List.getLast?_cons]

theorem increasing_window {hs : List Tick} {t : Tick} (h : Increasing (hs ++ [t])) :
    Increasing ((ofHistory period hs).ticks ++ [t]) :=
  h.sublist ((List.dropWhile_suffix _).sublist.append_right _)

/-- One push moves the spec's state along the history. -/
theorem enqueue_ofHistory (hp : 0 < period) {hs : List Tick} {t : Tick}
    (h : Increasing (hs ++ [t])) :
    (ofHistory period hs).enqueue t = some (ofHistory period (hs ++ [t])) := by
  rw [enqueue_eq hp (increasing_window h)]
  have hstale : ∀ x ∈ hs.takeWhile (stale period (newest hs)),
      stale period t.timestamp x = true := by
    intro x hx
    refine stale_of_le (List.mem_takeWhile_imp hx) ?_
    rcases eq_or_ne hs [] with rfl | hne
    · exact Nat.zero_le _
    · exact (h.newest_lt hne).le
  have hsplit : hs ++ [t] = hs.takeWhile (stale period (newest hs))
      ++ (hs.dropWhile (stale period (newest hs)) ++ [t]) := by
    rw [← List.append_assoc, List.takeWhile_append_dropWhile]
  simp only [ofHistory, newest_concat, ofHistory_period]
  rw [hsplit, List.dropWhile_append_of_pos hstale, List.takeWhile_append_of_pos hstale,
    getLast?_getD_append]


/-! ## Runs -/

variable (lim : Option ℕ)

/-- What a call returns, from the state its tick leads to. -/
def reply (s : SimpleMovingAverage) : Call → Option Reply
  | .push _ => match s.ticks with
    | [x] => Reply.avg <$> x.mid lim
    | _ => Reply.avg <$> s.average lim
  | .pushTick _ => match s.ticks with
    | [x] => some (.tick x)
    | _ => Reply.tick <$> s.averageTick lim

theorem call_eq (s : SimpleMovingAverage) (c : Call) :
    s.call lim c = (s.enqueue c.tick).bind fun s' => (s', ·) <$> s'.reply lim c := by
  cases c with
  | push t =>
    simp only [call, push, reply, Call.tick]
    cases s.enqueue t with
    | none => rfl
    | some s' =>
      obtain ⟨p, ticks, r⟩ := s'
      rcases ticks with _ | ⟨x, _ | ⟨y, l⟩⟩ <;> simp [Function.comp_def]
  | pushTick t =>
    simp only [call, pushTick, reply, Call.tick]
    cases s.enqueue t with
    | none => rfl
    | some s' =>
      obtain ⟨p, ticks, r⟩ := s'
      rcases ticks with _ | ⟨x, _ | ⟨y, l⟩⟩ <;> simp [Function.comp_def]

/-- The replies of the calls `cs` after the history `hs`, each from the state after its tick. -/
def replies (period : ℕ) : List Tick → List Call → Option (List Reply)
  | _, [] => some []
  | hs, c :: cs => do
    let r ← (ofHistory period (hs ++ [c.tick])).reply lim c
    let rs ← replies period (hs ++ [c.tick]) cs
    pure (r :: rs)

/-- A run passes through the states of its prefixes, and replies from them. -/
theorem run_ofHistory (hp : 0 < period) : ∀ (hs : List Tick) (cs : List Call),
    Increasing (hs ++ cs.map Call.tick) →
      (ofHistory period hs).run lim cs
        = (ofHistory period (hs ++ cs.map Call.tick), ·) <$> replies lim period hs cs
  | hs, [], _ => by simp [run, replies]
  | hs, c :: cs, h => by
    have h2 : Increasing (hs ++ [c.tick] ++ cs.map Call.tick) := by simpa using h
    have h1 : Increasing (hs ++ [c.tick]) := h2.sublist (List.sublist_append_left _ _)
    have ih := run_ofHistory hp (hs ++ [c.tick]) cs h2
    simp only [List.append_assoc, List.singleton_append] at ih
    simp only [run, call_eq, enqueue_ofHistory hp h1, replies, List.map_cons]
    cases hr1 : (ofHistory period (hs ++ [c.tick])).reply lim c <;>
      cases hr : replies lim period (hs ++ [c.tick]) cs <;> simp_all

end SimpleMovingAverage

end TickGrinder
