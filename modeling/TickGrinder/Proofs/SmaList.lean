import TickGrinder.Proofs.SmaRun

/-!
# The SMA list

`SMAList` keeps one SMA per `add`, pushes each tick into all of them in turn, and `remove` drops
the first one with the period. What it is for: each SMA it holds is the spec's state over the
ticks pushed since its `add`. The spec's view of the list is the list of those histories with
their periods, and each call on the list is one step of that view (`apply_ofTracked`): `push_all`
moves every history along, `add` appends an empty one and `remove` drops the first with the
period, whichever SMA was added first. A push panics only on an overflow of the bounded
arithmetic, so with periods of at least one and increasing ticks every run of calls ends in the
state of its histories or, with `usize` arithmetic, in an overflow panic (`run_tracks_windows`).
-/

namespace TickGrinder

namespace SMAList

open SimpleMovingAverage

variable (lim : Option ℕ) {period : ℕ}

/-- The spec's view of an `SMAList`, one step on: each SMA's period with the ticks pushed since its
`add`. -/
def Op.track (a : List (ℕ × List Tick)) : Op → List (ℕ × List Tick)
  | .add period => a ++ [(period, [])]
  | .remove period => a.eraseP fun x => x.1 = period
  | .pushAll t => a.map fun x => (x.1, x.2 ++ [t])

/-- The list that holds, for each history, the spec's state over it. -/
def ofTracked (a : List (ℕ × List Tick)) : SMAList := ⟨a.map fun x => ofHistory x.1 x.2⟩

theorem removeFirst_eq_eraseP (ss : List SimpleMovingAverage) :
    removeFirst period ss = ss.eraseP fun s => s.period = period := by
  induction ss with
  | nil => rfl
  | cons s ss ih => by_cases h : s.period = period <;> simp [removeFirst, h, ih]

theorem add_ofTracked (a : List (ℕ × List Tick)) :
    (ofTracked a).add period = ofTracked (Op.track a (.add period)) := by
  simp [ofTracked, add, Op.track]

theorem remove_ofTracked (a : List (ℕ × List Tick)) :
    (ofTracked a).remove period = ofTracked (Op.track a (.remove period)) := by
  simp only [ofTracked, remove, removeFirst_eq_eraseP, List.eraseP_map, Op.track]
  rfl

/-- A push on the spec's state moves it along the history, and panics exactly where its reply
does. -/
theorem push_fst_ofHistory (hp : 0 < period) {hs : List Tick} {t : Tick}
    (h : Increasing (hs ++ [t])) :
    Prod.fst <$> (ofHistory period hs).push lim t =
      (fun _ => ofHistory period (hs ++ [t])) <$> (ofHistory period (hs ++ [t])).reply lim (.push t) := by
  have h₁ := congrArg (Option.map Prod.fst) (call_eq lim (ofHistory period hs) (.push t))
  simpa [call, Call.tick, enqueue_ofHistory hp h, Option.map_map, Function.comp_def] using h₁

/-- Whether no SMA of the view overflows on the push of `t`. -/
def PushFits (a : List (ℕ × List Tick)) (t : Tick) : Bool :=
  a.all fun x => ((ofHistory x.1 (x.2 ++ [t])).reply lim (.push t)).isSome

theorem mapM_push_ofTracked {t : Tick} :
    ∀ a : List (ℕ × List Tick), (∀ x ∈ a, 0 < x.1 ∧ Increasing (x.2 ++ [t])) →
      (a.map fun x => ofHistory x.1 x.2).mapM (fun s => Prod.fst <$> s.push lim t) =
        if PushFits lim a t then some (ofTracked (Op.track a (.pushAll t))).smas else none
  | [], _ => rfl
  | x :: a, hv => by
    have ih := mapM_push_ofTracked a fun y hy => hv y (List.mem_cons_of_mem _ hy)
    have hx := hv x (.head _)
    simp only [List.map_cons, List.mapM_cons, push_fst_ofHistory lim hx.1 hx.2, ih]
    show _ = if (((ofHistory x.1 (x.2 ++ [t])).reply lim (.push t)).isSome && PushFits lim a t) = true
      then _ else _
    rcases (ofHistory x.1 (x.2 ++ [t])).reply lim (.push t) with _ | r
    · rfl
    · by_cases ha : PushFits lim a t <;> simp [ha, ofTracked, Op.track]

/-- With unbounded arithmetic no push overflows. -/
theorem pushFits_none {t : Tick} {a : List (ℕ × List Tick)}
    (hv : ∀ x ∈ a, 0 < x.1 ∧ Increasing (x.2 ++ [t])) : PushFits none a t = true := by
  simp only [PushFits, List.all_eq_true]
  exact fun x hx => reply_ofHistory_isSome (hv x hx).1 (hv x hx).2 _

/-- One call on the list is one step of the spec's view, unless a push overflows the bounded
arithmetic. -/
theorem apply_ofTracked {a : List (ℕ × List Tick)} {o : Op}
    (hv : ∀ t, o.tick? = some t → ∀ x ∈ a, 0 < x.1 ∧ Increasing (x.2 ++ [t])) :
    (ofTracked a).apply lim o = some (ofTracked (Op.track a o)) ∨
      ((ofTracked a).apply lim o = none ∧ lim ≠ none) := by
  cases o with
  | add p => exact .inl (congrArg some (add_ofTracked a))
  | remove p => exact .inl (congrArg some (remove_ofTracked a))
  | pushAll t =>
    have hv := hv t rfl
    simp only [apply, pushAll]
    rw [show (ofTracked a).smas = a.map fun x => ofHistory x.1 x.2 from rfl,
      mapM_push_ofTracked lim a hv]
    by_cases hf : PushFits lim a t
    · exact .inl (by simp [hf])
    · exact .inr ⟨by simp [hf], fun h => hf (h ▸ pushFits_none hv)⟩

/-- What the spec's view keeps along a run, given the ticks `ts` pushed so far: every period is at
least one, and every history is a suffix of `ts`. -/
def Valid (ts : List Tick) (a : List (ℕ × List Tick)) : Prop :=
  ∀ x ∈ a, 0 < x.1 ∧ x.2 <:+ ts

theorem Valid.track {ts : List Tick} {a : List (ℕ × List Tick)} (hv : Valid ts a) :
    ∀ o : Op, (∀ p, o = .add p → 0 < p) →
      Valid (ts ++ o.tick?.toList) (Op.track a o)
  | .add p, hp => by
    intro x hx
    rcases List.mem_append.1 hx with hx | hx
    · simpa [Op.tick?] using hv x hx
    · simp only [List.mem_singleton] at hx
      subst hx
      exact ⟨hp p rfl, List.nil_suffix⟩
  | .remove p, _ => fun x hx => by simpa [Op.tick?] using hv x (List.mem_of_mem_eraseP hx)
  | .pushAll t, _ => fun y hy => by
    obtain ⟨x, hx, rfl⟩ := List.mem_map.1 hy
    obtain ⟨hp, u, hu⟩ := hv x hx
    exact ⟨hp, u, by simp [Op.tick?, ← hu]⟩

theorem run_ofTracked :
    ∀ (ops : List Op) {ts : List Tick} {a : List (ℕ × List Tick)}, Valid ts a →
      (∀ p, Op.add p ∈ ops → 0 < p) → Increasing (ts ++ ops.filterMap Op.tick?) →
      (ofTracked a).run lim ops = some (ofTracked (ops.foldl Op.track a)) ∨
        ((ofTracked a).run lim ops = none ∧ lim ≠ none)
  | [], _, _, _, _, _ => .inl rfl
  | o :: os, ts, a, hv, hp, h => by
    have hinc : Increasing (ts ++ o.tick?.toList ++ os.filterMap Op.tick?) := by
      cases o <;> simpa [Op.tick?] using h
    have hstep : ∀ t, o.tick? = some t → ∀ x ∈ a, 0 < x.1 ∧ Increasing (x.2 ++ [t]) := by
      intro t ht x hx
      obtain ⟨hpx, u, hu⟩ := hv x hx
      refine ⟨hpx, hinc.sublist ?_⟩
      rw [ht, ← hu]
      exact (List.sublist_append_right u _).trans (by simp)
    rcases apply_ofTracked lim hstep with h₁ | ⟨h₁, hl⟩
    · simp only [run, h₁, Option.some_bind]
      exact run_ofTracked os (hv.track o fun p hpo => hp p (hpo ▸ .head _))
        (fun p h => hp p (.tail _ h)) hinc
    · exact .inr ⟨by simp [run, h₁], hl⟩

example : ([.add 2, .pushAll ⟨1, 1, 1⟩, .add 2, .pushAll ⟨2, 2, 2⟩, .remove 2,
    .pushAll ⟨3, 3, 3⟩] : List Op).foldl Op.track [] = [(2, [⟨2, 2, 2⟩, ⟨3, 3, 3⟩])] := by
  decide

end SMAList

end TickGrinder
