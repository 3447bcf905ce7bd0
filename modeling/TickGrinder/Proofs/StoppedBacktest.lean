import TickGrinder.Proofs.ResumedBacktest
import TickGrinder.Proofs.SimBrokers

/-!
# A stopped backtest winds down

`StopBacktest` sends `Stop` and removes the backtest's handle at once, while its generator may
still be running. What holds instead of the handle tracking liveness: without a handle no later
command reaches the backtest and no `StartBacktest` gives its uuid a handle again, so its engine
moves by its own steps only (`step_unlisted`); each of them leaves it less to do (`measure_lt`);
and the `Stop` on its way keeps a step enabled until the generator has ended
(`StopPending.stopped_of_blocked`). So after the acknowledgement the backtest takes a bounded
number of steps, whatever else the backtester does, and it can be stuck only once it has stopped.

And every backtest can be stopped, by the events about it alone: its generator takes the control
events waiting for it (`drain_control`); once its channel is empty, a backtest whose generator
has not ended still has its handle, by the invariant, so `StopBacktest` puts a `Stop` on the
channel and the generator takes it (`run_stop_consume`).
-/

namespace TickGrinder

open Backtester (EngineStep)

/-- A `Stop` on its way keeps the generator's next step enabled until it has ended. -/
theorem Engine.StopPending.stopped_of_blocked {e : Engine} (hp : e.StopPending)
    (hb : ∀ s : EngineStep, s.apply e = none) : e.phase = .stopped := by
  by_contra hs
  obtain ⟨c, cs, hc⟩ := List.exists_cons_of_ne_nil (List.ne_nil_of_mem (hp hs))
  have h := hb .consume
  simp only [EngineStep.apply, Engine.consume, if_neg hs, hc] at h
  cases c <;> simp at h

namespace Backtester

/-- Whether an event is a step the backtest under `u` takes on its own. -/
def Event.stepOf (u : Uuid) : Event → Bool
  | .consume v | .tick v | .exitSend v | .finish v => decide (v = u)
  | _ => false

variable {b b' : Backtester} {u : Uuid} {e : Engine}

theorem stepEngine_unlisted (s : EngineStep) {v : Uuid} (hu : u ∉ b.runningBacktests)
    (he : b.engines.lookup u = some e) (h : b.stepEngine v s.apply = some b') :
    u ∉ b'.runningBacktests ∧ ∃ e', b'.engines.lookup u = some e' ∧
      (decide (v = u) = false → e' = e) ∧
      (decide (v = u) = true → ∃ s : EngineStep, s.apply e = some e') := by
  obtain ⟨e₁, e₂, he₁, hs, rfl⟩ := stepEngine_cases h
  by_cases hvu : v = u
  · subst hvu
    obtain rfl : e₁ = e := Option.some.inj (he₁.symm.trans he)
    exact ⟨hu, e₂, AList.lookup_insert _, by simp, fun _ => ⟨s, hs⟩⟩
  · exact ⟨hu, e, by rw [AList.lookup_insert_ne (Ne.symm hvu), he], fun _ => rfl, by simp [hvu]⟩

/-- One event on a backtester without a handle for `u`: it gives `u` no handle, and it moves the
engine under `u` only by a step of that engine's own. -/
theorem step_unlisted {ev : Event} (hu : u ∉ b.runningBacktests)
    (he : b.engines.lookup u = some e) (h : step b ev = some b') :
    u ∉ b'.runningBacktests ∧ ∃ e', b'.engines.lookup u = some e' ∧
      (ev.stepOf u = false → e' = e) ∧
      (ev.stepOf u = true → ∃ s : EngineStep, s.apply e = some e') := by
  cases ev with
  | startBacktest d ts v =>
    simp only [step] at h
    split_ifs at h with hv
    obtain ⟨⟨b₁, r⟩, hs, rfl⟩ := Option.map_eq_some'.1 h
    have huv : u ≠ v := fun h => hv (h ▸ AList.lookup_isSome.1 (by simp [he]))
    rcases startBacktest_cases hs with ⟨-, -, rfl⟩ | ⟨-, b₀, ticks, c, hr, hen, rfl⟩
    · exact ⟨hu, e, he, fun _ => rfl, nofun⟩
    · refine ⟨?_, e, ?_, fun _ => rfl, nofun⟩
      · rw [register_runningBacktests, AList.mem_insert, hr]
        exact fun h => h.elim huv hu
      · simp only [register, AList.lookup_insert_ne huv, hen, he]
  | pauseBacktest v | resumeBacktest v | stopBacktest v =>
    obtain ⟨⟨b₁, r⟩, hs, rfl⟩ := Option.map_eq_some'.1 h
    obtain ⟨⟨b₂, r₂⟩, hs₂, hb⟩ := Option.map_eq_some'.1 hs
    have h₁ : b₁.engines = b₂.engines ∧ (u ∈ b₁.runningBacktests → u ∈ b₂.runningBacktests) := by
      cases r₂ <;> cases hb <;> first | exact ⟨rfl, id⟩ | exact ⟨rfl, fun h => (AList.mem_erase.1 h).2⟩
    rw [h₁.1]
    rcases sendBacktestCmd_cases hs₂ with ⟨-, -, rfl⟩ | ⟨hv, -, ⟨-, rfl⟩ | ⟨-, e₂, -, -, rfl⟩⟩
    · exact ⟨fun h => hu (h₁.2 h), e, he, fun _ => rfl, nofun⟩
    · exact ⟨fun h => hu (h₁.2 h), e, he, fun _ => rfl, nofun⟩
    · have huv : u ≠ v := fun h => hu (h ▸ hv)
      exact ⟨fun h => hu (h₁.2 h), e, by rw [AList.lookup_insert_ne huv, he], fun _ => rfl, nofun⟩
  | spawnSimbroker v =>
    simp only [step] at h
    split_ifs at h
    cases h
    exact ⟨hu, e, he, fun _ => rfl, nofun⟩
  | consume v => exact stepEngine_unlisted .consume hu he h
  | tick v => exact stepEngine_unlisted .tick hu he h
  | exitSend v => exact stepEngine_unlisted .exitSend hu he h
  | finish v => exact stepEngine_unlisted .finish hu he h

theorem run_unlisted {evs : List Event} (hu : u ∉ b.runningBacktests)
    (he : b.engines.lookup u = some e) (h : run b evs = some b') :
    u ∉ b'.runningBacktests ∧ ∃ e', b'.engines.lookup u = some e' ∧
      evs.countP (Event.stepOf u) + e'.measure ≤ e.measure := by
  induction evs generalizing b e with
  | nil => cases h; exact ⟨hu, e, he, by simp⟩
  | cons ev evs ih =>
    obtain ⟨b₁, h₁, h₂⟩ := Option.bind_eq_some.1 h
    obtain ⟨hu₁, e₁, he₁, hf, ht⟩ := step_unlisted hu he h₁
    obtain ⟨hu', e', he', hle⟩ := ih hu₁ he₁ h₂
    refine ⟨hu', e', he', ?_⟩
    rw [List.countP_cons]
    cases hs : ev.stepOf u
    · rw [hf hs] at hle
      simpa using hle
    · obtain ⟨s, hs'⟩ := ht hs
      have hlt := Engine.measure_lt s hs'
      simp only [if_true]
      omega

/-- After a `StopBacktest` is acknowledged, in every run of the backtester's events that follows
(the listener's commands and every backtest's own steps, in any interleaving), the backtest never
gets a handle again, takes fewer of its own steps than it had left to do, and can be stuck only
once its generator has ended. -/
theorem stopped_backtest_winds_down (b₀ : Backtester) (hi : b₀.Inv) (u : Uuid) (b : Backtester)
    (h₀ : b₀.stopBacktest u = some (b, .ok)) (evs : List Event) (b' : Backtester)
    (h : run b evs = some b') :
    ∃ e e', b.engines.lookup u = some e ∧ b'.engines.lookup u = some e' ∧
      u ∉ b'.runningBacktests ∧ evs.countP (Event.stepOf u) + e'.measure ≤ e.measure ∧
      ((∀ s : EngineStep, s.apply e' = none) → e'.phase = .stopped) := by
  obtain ⟨hr, hok⟩ := stopBacktest_spec h₀
  have hu : u ∉ b.runningBacktests := fun h => (AList.mem_erase.1 (hr ▸ h)).1 rfl
  have hrun : run b₀ [.stopBacktest u] = some b := by simp [run, step, h₀]
  obtain ⟨e₀, he₀⟩ :=
    Option.isSome_iff_exists.1 (AList.lookup_isSome.2 (hi.started u (hok.1 rfl)))
  obtain ⟨e, he, -⟩ := enginesReach_run hrun u e₀ he₀
  obtain ⟨hu', e', he', hle⟩ := run_unlisted hu he h
  have hp := ((hi.run hrun).run h).stopping u e' he' hu'
  exact ⟨e, e', he, he', hu', hle, hp.stopped_of_blocked⟩

/-- A backtest stopped before it was resumed: its generator takes the `Stop`, and a later
`PauseBacktest` no longer reaches it. -/
theorem stopped_then_consumed_winds_down :
    ∃ b b', ((new (Uuid.ofByte 1)).register ⟨none, none, none, "TEST", .fast 0, .random, .null⟩
        [⟨1, 1, 1⟩, ⟨1, 1, 2⟩] (.pump 0) (Uuid.ofByte 2)).stopBacktest (Uuid.ofByte 2) =
        some (b, .ok) ∧
      run b [.consume (Uuid.ofByte 2), .pauseBacktest (Uuid.ofByte 2)] = some b' ∧
      ∃ e e', b.engines.lookup (Uuid.ofByte 2) = some e ∧
        b'.engines.lookup (Uuid.ofByte 2) = some e' ∧ Uuid.ofByte 2 ∉ b'.runningBacktests ∧
        [Event.consume (Uuid.ofByte 2), .pauseBacktest (Uuid.ofByte 2)].countP
            (Event.stepOf (Uuid.ofByte 2)) + e'.measure ≤ e.measure ∧
        ((∀ s : EngineStep, s.apply e' = none) → e'.phase = .stopped) := by
  obtain ⟨b, b', h₀, h⟩ : ∃ b b',
      ((new (Uuid.ofByte 1)).register ⟨none, none, none, "TEST", .fast 0, .random, .null⟩
        [⟨1, 1, 1⟩, ⟨1, 1, 2⟩] (.pump 0) (Uuid.ofByte 2)).stopBacktest (Uuid.ofByte 2) =
        some (b, .ok) ∧
      run b [.consume (Uuid.ofByte 2), .pauseBacktest (Uuid.ofByte 2)] = some b' :=
    ⟨_, _, rfl, rfl⟩
  exact ⟨b, b', h₀, h, stopped_backtest_winds_down _ ((inv_new _).register _ _ _) _ _ h₀ _ _ h⟩

/-! ## Every backtest can be stopped -/

theorem run_cons_of_step {ev : Event} {evs : List Event} (h : step b ev = some b') :
    run b (ev :: evs) = run b' evs := by
  simp [run, h]

theorem step_consume {e' : Engine} (he : b.engines.lookup u = some e) (hc : e.consume = some e') :
    step b (.consume u) = some { b with engines := b.engines.insert u e' } := by
  simp [step, stepEngine, he, hc]

/-- The generator takes the control events waiting on its channel one by one, until it has ended
or the channel is empty; its sink receives nothing meanwhile, and no handle changes. -/
theorem drain_control (u : Uuid) :
    ∀ (cs : List BacktestCommand) (b : Backtester) (e : Engine), b.engines.lookup u = some e →
      e.control = cs → ∃ n b' e', run b (List.replicate n (.consume u)) = some b' ∧
        b'.engines.lookup u = some e' ∧ b'.runningBacktests = b.runningBacktests ∧
        (e'.phase = .stopped ∨ e'.control = []) ∧ e'.delivered = e.delivered
  | [], b, e, he, hc => ⟨0, b, e, rfl, he, rfl, .inr hc, rfl⟩
  | c :: cs, b, e, he, hc => by
    by_cases hs : e.phase = .stopped
    · exact ⟨0, b, e, rfl, he, rfl, .inl hs, rfl⟩
    obtain ⟨e₁, hc₁, hcs, hdl₁⟩ | hhalt : (∃ e₁, e.consume = some e₁ ∧ e₁.control = cs ∧
        e₁.delivered = e.delivered) ∨ e.consume = some e.halt := by
      cases c <;> simp [Engine.consume, hs, hc]
    · obtain ⟨n, b', e', hr, he', hk, hd, hdl⟩ :=
        drain_control u cs { b with engines := b.engines.insert u e₁ } e₁
          (AList.lookup_insert _) hcs
      refine ⟨n + 1, b', e', ?_, he', hk, hd, hdl.trans hdl₁⟩
      rw [List.replicate_succ, run_cons_of_step (step_consume he hc₁)]
      exact hr
    · exact ⟨1, _, e.halt, run_cons_of_step (step_consume he hhalt), AList.lookup_insert _, rfl,
        .inl rfl, rfl⟩

/-- A backtest with a handle, its generator not ended and nothing waiting on its channel:
`StopBacktest` sends `Stop`, and the generator takes it and ends. -/
theorem run_stop_consume (hu : u ∈ b.runningBacktests) (he : b.engines.lookup u = some e)
    (hst : e.phase ≠ .stopped) (hc : e.control = []) :
    ∃ b', run b [.stopBacktest u, .consume u] = some b' ∧ b'.engines.lookup u = some e.halt := by
  obtain ⟨_, hk⟩ := Option.isSome_iff_exists.1 (AList.lookup_isSome.2 hu)
  have hstop : step b (.stopBacktest u) = some ({ b with
      engines := b.engines.insert u { e with control := [.stop] } }.removeBacktest u) := by
    simp [step, stopBacktest, sendBacktestCmd, hk, he, Engine.send, hst, hc]
  have hhalt : { e with control := [.stop] }.consume = some e.halt := by
    simp [Engine.consume, hst, Engine.halt]
  have hcons := step_consume (b := { b with
    engines := b.engines.insert u { e with control := [.stop] } }.removeBacktest u)
    (AList.lookup_insert _) hhalt
  exact ⟨_, by rw [run_cons_of_step hstop, run_cons_of_step hcons]; rfl, AList.lookup_insert _⟩

/-- Every backtest can always be stopped, by the events about it alone: in every state keeping
the handle invariant (every state reached from `Backtester::new`), for every backtest started, the
generator taking the control events waiting for it, then, if it has not ended, a `StopBacktest`
and the generator taking that `Stop`, end it, with its sink receiving no further tick. -/
theorem backtest_can_always_be_stopped (b : Backtester) (hi : b.Inv) (u : Uuid) (e : Engine)
    (he : b.engines.lookup u = some e) :
    ∃ evs b' e', run b evs = some b' ∧ (∀ ev ∈ evs, ev = .stopBacktest u ∨ ev = .consume u) ∧
      b'.engines.lookup u = some e' ∧ e'.phase = .stopped ∧ e'.delivered = e.delivered := by
  obtain ⟨n, b₁, e₁, hr, he₁, -, hd, hdl⟩ := drain_control u _ b e he rfl
  by_cases hst : e₁.phase = .stopped
  · exact ⟨_, b₁, e₁, hr, fun ev hev => .inr (List.eq_of_mem_replicate hev), he₁, hst, hdl⟩
  have hc := hd.resolve_left hst
  have hu : u ∈ b₁.runningBacktests := by
    by_contra hu
    simpa [hc] using (hi.run hr).stopping u e₁ he₁ hu hst
  obtain ⟨b', hr', he'⟩ := run_stop_consume hu he₁ hst hc
  refine ⟨_ ++ [.stopBacktest u, .consume u], b', e₁.halt, by rw [run_append, hr]; exact hr', ?_,
    he', rfl, hdl⟩
  intro ev hev
  rcases List.mem_append.1 hev with hev | hev
  · exact .inr (List.eq_of_mem_replicate hev)
  · simpa using hev

/-- A backtest just started: its channel is empty, so a `StopBacktest` and the generator taking
the `Stop` end it. -/
theorem started_backtest_stopped :
    ∃ evs b' e', run ((new (Uuid.ofByte 1)).register
        ⟨none, none, none, "TEST", .fast 0, .random, .null⟩ [⟨1, 1, 1⟩, ⟨1, 1, 2⟩] (.pump 0)
        (Uuid.ofByte 2)) evs = some b' ∧
      (∀ ev ∈ evs, ev = .stopBacktest (Uuid.ofByte 2) ∨ ev = .consume (Uuid.ofByte 2)) ∧
      b'.engines.lookup (Uuid.ofByte 2) = some e' ∧ e'.phase = .stopped ∧ e'.delivered = [] :=
  backtest_can_always_be_stopped _ ((inv_new _).register _ _ _) _ _ (AList.lookup_insert _)

end Backtester

end TickGrinder
