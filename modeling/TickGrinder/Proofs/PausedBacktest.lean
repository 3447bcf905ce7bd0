import TickGrinder.Proofs.EngineRuns

/-!
# A paused backtest emits nothing

A backtest whose generator is not running and has no `Resume` waiting on its control channel is
held: a `Pause` or a `Stop` sent to it keeps it so, and of its own steps only taking a control
event can happen, which pauses it again or ends it (`HeldAt.send`, `HeldAt.step`). The engine under a
uuid changes only by such moves (`run_engine_keeps`). So a backtest just started, or one whose
generator has taken a `Pause`, emits nothing until a `ResumeBacktest` names it, whatever the
listener and the other backtests do in between: its sink receives no tick and its stream loses
none.
-/

namespace TickGrinder

namespace Engine

/-- The backtest is held at `e₀`: its generator is not running, no `Resume` waits on its control
channel, and its stream and the ticks its sink has received are those of `e₀`. -/
def HeldAt (e e₀ : Engine) : Prop :=
  e.phase ≠ .running ∧ .resume ∉ e.control ∧ e.stream = e₀.stream ∧ e.delivered = e₀.delivered

variable {e₀ e e' : Engine}

theorem HeldAt.send {c : BacktestCommand} (h : e.HeldAt e₀) (hc : c ≠ .resume)
    (hs : e.send c = some e') : e'.HeldAt e₀ := by
  unfold Engine.send at hs
  split_ifs at hs <;> cases hs
  · exact h
  · exact ⟨h.1, by simpa [Ne.symm hc] using h.2.1, h.2.2⟩

theorem HeldAt.step (s : Backtester.EngineStep) (h : e.HeldAt e₀) (hs : s.apply e = some e') :
    e'.HeldAt e₀ := by
  obtain ⟨hp, hr, hst⟩ := h
  cases s with
  | consume =>
    simp only [Backtester.EngineStep.apply, Engine.consume] at hs
    split_ifs at hs
    rcases hc : e.control with _ | ⟨_ | _ | _, cs⟩ <;> rw [hc] at hs hr <;> cases hs
    · exact ⟨by simp, fun h => hr (List.mem_cons_of_mem _ h), hst⟩
    · exact absurd (List.mem_cons_self _ _) hr
    · exact ⟨by simp [halt], by simp [halt], hst⟩
  | tick =>
    simp only [Backtester.EngineStep.apply, Engine.tick] at hs
    split at hs <;> first | exact absurd ‹_› hp | cases hs
  | exitSend =>
    simp only [Backtester.EngineStep.apply, Engine.exitSend] at hs
    split at hs
    · obtain ⟨e₁, hs₁, rfl⟩ := Option.map_eq_some'.1 hs
      have h₁ := HeldAt.send ⟨hp, hr, hst⟩ (by decide) hs₁
      exact h₁
    · cases hs
  | finish =>
    simp only [Backtester.EngineStep.apply, Engine.finish] at hs
    split_ifs at hs with hf
    exact absurd hf.1 hp

end Engine

namespace Backtester

/-- A backtest that is not running and has no `Resume` waiting on its control channel, such as
one just started or one whose generator has taken a `Pause`, emits nothing: whatever events
follow, the listener's commands and every backtest's own steps, as long as no `ResumeBacktest`
names it, it stays in the backtester without running, its sink receives no further tick and its
stream keeps every tick. -/
theorem paused_backtest_emits_nothing (b : Backtester) (u : Uuid) (e : Engine)
    (he : b.engines.lookup u = some e) (hp : e.phase ≠ .running) (hr : .resume ∉ e.control)
    (evs : List Event) (hev : .resumeBacktest u ∉ evs) (b' : Backtester)
    (h : run b evs = some b') :
    ∃ e', b'.engines.lookup u = some e' ∧ e'.phase ≠ .running ∧ e'.stream = e.stream ∧
      e'.delivered = e.delivered := by
  have hcmd : ∀ ev ∈ evs, ∀ c, ev.command = some (u, c) → c ≠ .resume := by
    rintro ev hm c hc rfl
    cases ev <;> simp only [Event.command, Option.some.injEq, Prod.mk.injEq, reduceCtorEq,
      and_false, and_true] at hc
    exact hev (hc ▸ hm)
  obtain ⟨e', he', hp', -, hst⟩ := run_engine_keeps (P := (·.HeldAt e)) (C := (· ≠ .resume))
    (fun _ _ _ hc h hs => h.send hc hs) (fun s _ _ h hs => h.step s hs) hcmd he
    ⟨hp, hr, rfl, rfl⟩ h
  exact ⟨e', he', hp', hst⟩

/-- A backtest started, then paused, its generator taking the `Pause`, then stopped, its
generator taking the `Stop`. -/
theorem started_backtest_emits_nothing :
    ∃ b', run ((new (Uuid.ofByte 1)).register ⟨none, none, none, "TEST", .fast 0, .random, .null⟩
        [⟨1, 1, 1⟩, ⟨1, 1, 2⟩] (.pump 0) (Uuid.ofByte 2))
        [.pauseBacktest (Uuid.ofByte 2), .consume (Uuid.ofByte 2), .stopBacktest (Uuid.ofByte 2),
          .consume (Uuid.ofByte 2)] = some b' ∧
      ∃ e', b'.engines.lookup (Uuid.ofByte 2) = some e' ∧ e'.phase ≠ .running ∧
        e'.stream = [⟨1, 1, 1⟩, ⟨1, 1, 2⟩] ∧ e'.delivered = [] := by
  obtain ⟨b', h⟩ : ∃ b', run ((new (Uuid.ofByte 1)).register
      ⟨none, none, none, "TEST", .fast 0, .random, .null⟩ [⟨1, 1, 1⟩, ⟨1, 1, 2⟩] (.pump 0)
      (Uuid.ofByte 2))
      [.pauseBacktest (Uuid.ofByte 2), .consume (Uuid.ofByte 2), .stopBacktest (Uuid.ofByte 2),
        .consume (Uuid.ofByte 2)] = some b' := ⟨_, rfl⟩
  exact ⟨b', h, paused_backtest_emits_nothing _ _ _ (AList.lookup_insert _) (by decide)
    (by decide) _ (by simp) _ h⟩

end Backtester

end TickGrinder
