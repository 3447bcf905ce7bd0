import TickGrinder.Proofs.BacktestHandles

/-!
# A backtest along the backtester's runs

A backtest's engine changes only by the control events sent to it and by its own steps
(`Engine.Reaches`). No event replaces an engine but by a state it reaches, and `start_backtest`
only adds one, paused with an empty control channel, under a uuid no engine has
(`step_engines_cases`). So every engine of a state a run reaches is one the run started from, or
one a `start_backtest` of the run registered, moved on by sends and steps (`enginesReach_run`).
-/

namespace TickGrinder

namespace Engine

/-- The states a backtest reaches by the control events sent to it and its own steps. -/
inductive Reaches (e : Engine) : Engine → Prop
  | refl : Reaches e e
  | send {e₁ e₂ : Engine} (c : BacktestCommand) : Reaches e e₁ → e₁.send c = some e₂ → Reaches e e₂
  | step {e₁ e₂ : Engine} (s : Backtester.EngineStep) :
      Reaches e e₁ → s.apply e₁ = some e₂ → Reaches e e₂

theorem Reaches.trans {e₁ e₂ e₃ : Engine} (h₁ : e₁.Reaches e₂) (h₂ : e₂.Reaches e₃) :
    e₁.Reaches e₃ := by
  induction h₂ with
  | refl => exact h₁
  | send c _ hs ih => exact .send c ih hs
  | step s _ hs ih => exact .step s ih hs

end Engine

/-! ## The engines along a run -/

namespace Backtester

variable {b b' b₁ : Backtester} {u : Uuid}

/-- The control event an event sends to a backtest: `PauseBacktest`, `ResumeBacktest` and
`StopBacktest` forward theirs to the backtest they name. -/
def Event.command : Event → Option (Uuid × BacktestCommand)
  | .pauseBacktest u => some (u, .pause)
  | .resumeBacktest u => some (u, .resume)
  | .stopBacktest u => some (u, .stop)
  | _ => none

/-- One move of the engine under `u` within the event `ev`: it takes the control event `ev`
sends it, or one of its own steps. -/
def Event.Moves (ev : Event) (u : Uuid) (e e' : Engine) : Prop :=
  (∃ c, ev.command = some (u, c) ∧ e.send c = some e') ∨ ∃ s : EngineStep, s.apply e = some e'

theorem Event.Moves.reaches {ev : Event} {e e' : Engine} (h : ev.Moves u e e') : e.Reaches e' :=
  h.elim (fun ⟨c, _, hs⟩ => .send c .refl hs) fun ⟨s, hs⟩ => .step s .refl hs

theorem stepEngine_moves (s : EngineStep) {ev : Event} (h : b.stepEngine u s.apply = some b') :
    ∃ e e', b.engines.lookup u = some e ∧ ev.Moves u e e' ∧ b'.engines = b.engines.insert u e' := by
  obtain ⟨e, e', he, hs, rfl⟩ := stepEngine_cases h
  exact ⟨e, e', he, .inr ⟨s, hs⟩, rfl⟩

/-- What an event does to the engines: nothing, or it moves the engine under one uuid, or,
starting a backtest, it registers an engine, paused with an empty channel, under the uuid it
draws, which no engine has. -/
theorem step_engines_cases {ev : Event} (h : step b ev = some b') :
    b'.engines = b.engines ∨
    (∃ u e e', b.engines.lookup u = some e ∧ ev.Moves u e e' ∧
      b'.engines = b.engines.insert u e') ∨
    ∃ u d ticks c, u ∉ b.engines ∧ (∃ ts, ev = .startBacktest d ts u) ∧
      b'.engines = b.engines.insert u ⟨d, .paused, [], ticks, c, []⟩ := by
  cases ev with
  | startBacktest d ts u =>
    simp only [step] at h
    split_ifs at h with hu
    obtain ⟨⟨b₁, r⟩, hs, rfl⟩ := Option.map_eq_some'.1 h
    rcases startBacktest_cases hs with ⟨-, -, rfl⟩ | ⟨-, b₀, ticks, c, -, he, rfl⟩
    · exact .inl rfl
    · exact .inr (.inr ⟨u, d, ticks, c, hu, ⟨ts, rfl⟩, by rw [← he]; rfl⟩)
  | pauseBacktest u | resumeBacktest u | stopBacktest u =>
    obtain ⟨⟨b₁, r⟩, hs, rfl⟩ := Option.map_eq_some'.1 h
    obtain ⟨⟨b₂, r₂⟩, hs₂, hb⟩ := Option.map_eq_some'.1 hs
    have he : b₁.engines = b₂.engines := by cases r₂ <;> cases hb <;> rfl
    rcases sendBacktestCmd_cases hs₂ with ⟨-, -, rfl⟩ | ⟨-, -, ⟨-, rfl⟩ | ⟨e, e', he₀, hse, rfl⟩⟩
    · exact .inl he
    · exact .inl he
    · exact .inr (.inl ⟨u, e, e', he₀, .inl ⟨_, rfl, hse⟩, he⟩)
  | spawnSimbroker u =>
    simp only [step] at h
    split_ifs at h
    cases h
    exact .inl rfl
  | consume u => exact .inr (.inl ⟨u, stepEngine_moves .consume h⟩)
  | tick u => exact .inr (.inl ⟨u, stepEngine_moves .tick h⟩)
  | exitSend u => exact .inr (.inl ⟨u, stepEngine_moves .exitSend h⟩)
  | finish u => exact .inr (.inl ⟨u, stepEngine_moves .finish h⟩)

/-- The engine under `u` after one event, for a property its moves keep: the events' control
events to it are those `C` allows. -/
theorem step_engine_keeps {P : Engine → Prop} {C : BacktestCommand → Prop} {ev : Event}
    (hsend : ∀ e e' c, C c → P e → e.send c = some e' → P e')
    (hstep : ∀ (s : EngineStep) e e', P e → s.apply e = some e' → P e')
    (hev : ∀ c, ev.command = some (u, c) → C c) {e : Engine} (he : b.engines.lookup u = some e)
    (hP : P e) (h : step b ev = some b') : ∃ e', b'.engines.lookup u = some e' ∧ P e' := by
  rcases step_engines_cases h with hb | ⟨v, e₁, e', he₁, hm, hb⟩ | ⟨v, d, ticks, c, hv, -, hb⟩ <;>
    rw [hb]
  · exact ⟨e, he, hP⟩
  · by_cases huv : u = v
    · subst huv
      obtain rfl : e = e₁ := Option.some.inj (he.symm.trans he₁)
      refine ⟨e', AList.lookup_insert _, hm.elim (fun ⟨c, hc, hs⟩ => ?_) fun ⟨s, hs⟩ => hstep s _ _ hP hs⟩
      exact hsend _ _ c (hev c hc) hP hs
    · exact ⟨e, by rw [AList.lookup_insert_ne huv, he], hP⟩
  · have huv : u ≠ v := fun h => hv (h ▸ AList.lookup_isSome.1 (Option.isSome_iff_exists.2 ⟨_, he⟩))
    exact ⟨e, by rw [AList.lookup_insert_ne huv, he], hP⟩

theorem run_engine_keeps {P : Engine → Prop} {C : BacktestCommand → Prop} {evs : List Event}
    (hsend : ∀ e e' c, C c → P e → e.send c = some e' → P e')
    (hstep : ∀ (s : EngineStep) e e', P e → s.apply e = some e' → P e')
    (hev : ∀ ev ∈ evs, ∀ c, ev.command = some (u, c) → C c) {e : Engine}
    (he : b.engines.lookup u = some e) (hP : P e) (h : run b evs = some b') :
    ∃ e', b'.engines.lookup u = some e' ∧ P e' := by
  induction evs generalizing b e with
  | nil => cases h; exact ⟨e, he, hP⟩
  | cons ev evs ih =>
    obtain ⟨b₁, h₁, h₂⟩ := Option.bind_eq_some.1 h
    obtain ⟨e₁, he₁, hP₁⟩ :=
      step_engine_keeps hsend hstep (hev ev (List.mem_cons_self _ _)) he hP h₁
    exact ih (fun ev hev' => hev ev (List.mem_cons_of_mem _ hev')) he₁ hP₁ h₂

/-- Every engine of `b` is still in `b'`, in a state it reaches by the control events sent to it
and its own steps. -/
def EnginesReach (b b' : Backtester) : Prop :=
  ∀ u e, b.engines.lookup u = some e → ∃ e', b'.engines.lookup u = some e' ∧ e.Reaches e'

theorem enginesReach_run {evs : List Event} (h : run b evs = some b') : b.EnginesReach b' :=
  fun _ e he => run_engine_keeps (P := e.Reaches) (C := fun _ => True)
    (fun _ _ c _ hr hs => .send c hr hs) (fun s _ _ hr hs => .step s hr hs) (fun _ _ _ _ => trivial)
    he .refl h

end Backtester

end TickGrinder
