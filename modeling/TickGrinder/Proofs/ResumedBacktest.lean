import TickGrinder.Proofs.TickPump

/-!
# A resumed backtest, left alone

A client starts a backtest with a sink and resumes it, as in the early-exit tests of the spec.
From then on the backtest moves by its own steps only, and they end: each takes a control event, a
tick of the stream or the pump's exit, and none adds work back (`measure_lt`), so no sequence of
them is longer than the stream plus five.

The states it passes through are those of `Resumed`: paused with the `Resume` waiting, pumping,
exiting after the closure's `Err`, stopping with the `Stop` of `or_else` waiting, and stopped. In
the only one of them where no step can be taken the backtest has stopped, and its sink has
received exactly what `tickPump` delivers from the whole stream: the ticks through the first that
meets the exit test, no fewer and no more.
-/

namespace TickGrinder

open Backtester (EngineStep)

namespace Engine

/-- A backtest's own steps in turn; `none` when one of them cannot be taken. -/
def steps (e : Engine) : List EngineStep → Option Engine
  | [] => some e
  | s :: ss => s.apply e >>= fun e => steps e ss

/-- What is left for a backtest to do on its own: the ticks of its stream, the events on its
control channel, its generator until it ends, and the pump's closure and its exit. -/
def measure (e : Engine) : ℕ :=
  e.stream.length + e.control.length + (if e.phase = .stopped then 0 else 1) +
    match e.consumer with
    | .pump _ => 3
    | .exiting => 2
    | _ => 0

variable {e e' : Engine}

theorem measure_halt_lt (h : e.phase ≠ .stopped) : e.halt.measure < e.measure := by
  rcases hc : e.consumer with _ | _ | _ | _ | _ <;> simp [measure, halt, hc, h] <;> omega

/-- Every step a backtest takes on its own leaves it less to do. -/
theorem measure_lt (s : EngineStep) (hs : s.apply e = some e') : e'.measure < e.measure := by
  cases s with
  | consume =>
    simp only [EngineStep.apply, consume] at hs
    split_ifs at hs with hp
    rcases hc : e.control with _ | ⟨_ | _ | _, cs⟩ <;> rw [hc] at hs <;> cases hs
    · simp [measure, hc, hp]
    · simp [measure, hc, hp]
    · exact measure_halt_lt hp
  | tick =>
    simp only [EngineStep.apply, tick] at hs
    split at hs <;> cases hs
    · rename_i hst hc
      split_ifs
      · simp [measure, hst, hc]
        omega
      · simp [measure, hst, hc]
    · rename_i hst hc
      simp [measure, hst, hc]
  | exitSend =>
    simp only [EngineStep.apply, exitSend] at hs
    split at hs
    · rename_i hc
      obtain ⟨e₁, hs₁, rfl⟩ := Option.map_eq_some'.1 hs
      simp only [send] at hs₁
      split_ifs at hs₁ with hp hl <;> cases hs₁
      · simp [measure, hc, hp]
      · simp [measure, hc, hp]
        omega
    · cases hs
  | finish =>
    simp only [EngineStep.apply, finish] at hs
    split_ifs at hs with hr
    cases hs
    exact measure_halt_lt fun h => by simp [hr.1] at h

/-- Along any sequence of its own steps a backtest does no more than it had left to do. -/
theorem steps_length {ss : List EngineStep} (h : e.steps ss = some e') :
    ss.length + e'.measure ≤ e.measure := by
  induction ss generalizing e with
  | nil => cases h; simp
  | cons s ss ih =>
    obtain ⟨e₁, h₁, h₂⟩ := Option.bind_eq_some.1 h
    have := ih h₂
    have := measure_lt s h₁
    simp only [List.length_cons]
    omega

/-- The states a backtest of the definition `d` on the stream `s₀`, with a sink, passes through by
its own steps once it has been resumed: paused with the `Resume` waiting; pumping from the count
`i`, where what the pump delivers from `s₀` is what was delivered followed by what it delivers
from the rest of the stream; exiting once the closure has returned `Err`; stopping with the `Stop`
of `or_else` waiting; and stopped, with all the pump delivers delivered from the exit on. -/
inductive Resumed (d : BacktestDefinition) (s₀ : List Tick) : Engine → Prop
  | start : Resumed d s₀ ⟨d, .paused, [.resume], s₀, .pump 0, []⟩
  | pumping {stream delivered : List Tick} {i : ℕ} :
      tickPump d 0 s₀ = (delivered ++ (tickPump d i stream).1, (tickPump d i stream).2) →
      Resumed d s₀ ⟨d, .running, [], stream, .pump i, delivered⟩
  | exiting {stream : List Tick} :
      Resumed d s₀ ⟨d, .running, [], stream, .exiting, (tickPump d 0 s₀).1⟩
  | stopping {stream : List Tick} :
      Resumed d s₀ ⟨d, .running, [.stop], stream, .exited, (tickPump d 0 s₀).1⟩
  | stopped {stream : List Tick} {c : Consumer} : c = .done ∨ c = .exiting ∨ c = .exited →
      Resumed d s₀ ⟨d, .stopped, [], stream, c, (tickPump d 0 s₀).1⟩

variable {d : BacktestDefinition} {s₀ : List Tick}

theorem Resumed.step (h : Resumed d s₀ e) (s : EngineStep) (hs : s.apply e = some e') :
    Resumed d s₀ e' := by
  cases h with
  | start =>
    cases s <;> simp [EngineStep.apply, consume, tick, exitSend, finish] at hs
    exact hs ▸ .pumping (by simp)
  | @pumping stream delivered i hp =>
    cases s <;> cases stream <;> simp [EngineStep.apply, consume, tick, exitSend, finish, halt] at hs
    · rename_i t ts
      subst hs
      by_cases hx : (pumpTick d i t).2 = true
      · have hdl : delivered ++ [t] = (tickPump d 0 s₀).1 := by simp [hp, tickPump, hx]
        simp only [if_pos hx]
        exact hdl ▸ .exiting
      · have hp' : tickPump d i (t :: ts) =
            (t :: (tickPump d (pumpTick d i t).1 ts).1, (tickPump d (pumpTick d i t).1 ts).2) := by
          simp [tickPump, hx]
        rw [hp'] at hp
        simp only [if_neg hx]
        exact .pumping (by simpa using hp)
    · have hdl : delivered = (tickPump d 0 s₀).1 := by simp [hp, tickPump]
      exact hs ▸ hdl ▸ .stopped (.inl rfl)
  | exiting =>
    cases s <;> simp [EngineStep.apply, consume, tick, exitSend, finish, send, halt] at hs
    · exact hs ▸ .stopping
    · exact hs.2 ▸ .stopped (.inr (.inl rfl))
  | stopping =>
    cases s <;> simp [EngineStep.apply, consume, tick, exitSend, finish, send, halt] at hs
    · exact hs ▸ .stopped (.inr (.inr rfl))
    · exact hs.2 ▸ .stopped (.inr (.inr rfl))
  | stopped hc =>
    rcases hc with rfl | rfl | rfl <;> cases s <;>
      simp [EngineStep.apply, consume, tick, exitSend, finish, send, halt] at hs
    exact hs ▸ .stopped (.inr (.inr rfl))
theorem Resumed.steps {ss : List EngineStep} (h : Resumed d s₀ e) (hs : e.steps ss = some e') :
    Resumed d s₀ e' := by
  induction ss generalizing e with
  | nil => cases hs; exact h
  | cons s ss ih =>
    obtain ⟨e₁, h₁, h₂⟩ := Option.bind_eq_some.1 hs
    exact ih (h.step s h₁) h₂

/-- Where a resumed backtest can take no step of its own, it has stopped with all the pump
delivers delivered. -/
theorem Resumed.stopped_of_blocked (h : Resumed d s₀ e) (hq : ∀ s : EngineStep, s.apply e = none) :
    e.phase = .stopped ∧ e.delivered = (tickPump d 0 s₀).1 := by
  cases h with
  | start => simpa [EngineStep.apply, consume] using hq .consume
  | pumping =>
    rename_i stream _ _ _
    cases stream with
    | nil => simpa [EngineStep.apply, finish] using hq .finish
    | cons => simpa [EngineStep.apply, tick] using hq .tick
  | exiting => simpa [EngineStep.apply, exitSend, send] using hq .exitSend
  | stopping => simpa [EngineStep.apply, consume] using hq .consume
  | stopped => exact ⟨rfl, rfl⟩

end Engine

namespace Backtester

/-- Starting a backtest with a sink and resuming it leaves its engine paused with the `Resume`
waiting. -/
theorem run_start_resume {b b' : Backtester} {d : BacktestDefinition} {s : List Tick} {u : Uuid}
    (hd : ∀ sb, d.dataDest ≠ .simBroker sb)
    (h : run b [.startBacktest d (.ok s) u, .resumeBacktest u] = some b') :
    b'.engines.lookup u = some ⟨d, .paused, [.resume], s, .pump 0, []⟩ := by
  obtain ⟨b₁, h₁, h₂⟩ := Option.bind_eq_some.1 h
  simp only [step] at h₁
  split_ifs at h₁
  rw [startBacktest_of_sink hd] at h₁
  cases h₁
  simp [run, step, forwardBacktestCmd, sendBacktestCmd, register, Engine.send] at h₂
  subst h₂
  simp

/-- A backtest with a sink, started and resumed and then sent no further command, takes at most
five more steps of its own than its stream has ticks, whatever their order; and once it can take
no further step it has stopped, and its sink has received exactly what the tick pump delivers
from the whole stream: the ticks through the first that meets the exit test, or all of them. -/
theorem resumed_backtest_runs_to_exit (b b₁ : Backtester) (d : BacktestDefinition)
    (hd : ∀ sb, d.dataDest ≠ .simBroker sb) (s : List Tick) (u : Uuid)
    (h : run b [.startBacktest d (.ok s) u, .resumeBacktest u] = some b₁) :
    ∃ e₁, b₁.engines.lookup u = some e₁ ∧ ∀ (ss : List EngineStep) (e : Engine),
      e₁.steps ss = some e → ss.length ≤ s.length + 5 ∧
        ((∀ st : EngineStep, st.apply e = none) →
          e.phase = .stopped ∧ e.delivered = (tickPump d 0 s).1) := by
  refine ⟨_, run_start_resume hd h, fun ss e hs => ⟨?_, (Engine.Resumed.start.steps hs).stopped_of_blocked⟩⟩
  have := Engine.steps_length hs
  simp [Engine.measure] at this
  omega

/-- Two ticks and `max_tick_n = Some(1)`: the resumed backtest stops after the first. -/
theorem resumed_backtest_of_two_ticks :
    ∃ b₁, run (new (Uuid.ofByte 1))
        [.startBacktest ⟨none, some 1, none, "TEST", .fast 0, .random, .null⟩
            (.ok [⟨1, 1, 1⟩, ⟨1, 1, 2⟩]) (Uuid.ofByte 2), .resumeBacktest (Uuid.ofByte 2)] =
        some b₁ ∧
      ∃ e₁, b₁.engines.lookup (Uuid.ofByte 2) = some e₁ ∧ ∀ (ss : List EngineStep) (e : Engine),
        e₁.steps ss = some e → ss.length ≤ 2 + 5 ∧
          ((∀ st : EngineStep, st.apply e = none) → e.phase = .stopped ∧
            e.delivered = (tickPump ⟨none, some 1, none, "TEST", .fast 0, .random, .null⟩ 0
              [⟨1, 1, 1⟩, ⟨1, 1, 2⟩]).1) := by
  obtain ⟨b₁, h⟩ : ∃ b₁, run (new (Uuid.ofByte 1))
      [.startBacktest ⟨none, some 1, none, "TEST", .fast 0, .random, .null⟩
          (.ok [⟨1, 1, 1⟩, ⟨1, 1, 2⟩]) (Uuid.ofByte 2), .resumeBacktest (Uuid.ofByte 2)] =
      some b₁ := ⟨_, rfl⟩
  exact ⟨b₁, h, resumed_backtest_runs_to_exit _ _ _ (fun _ h => by cases h) _ _ h⟩

example : (Engine.mk ⟨none, some 1, none, "TEST", .fast 0, .random, .null⟩ .paused [.resume]
    [⟨1, 1, 1⟩, ⟨1, 1, 2⟩] (.pump 0) []).steps [.consume, .tick, .exitSend, .consume] =
      some ⟨⟨none, some 1, none, "TEST", .fast 0, .random, .null⟩, .stopped, [], [⟨1, 1, 2⟩], .exited,
        [⟨1, 1, 1⟩]⟩ := by
  decide

end Backtester

end TickGrinder
