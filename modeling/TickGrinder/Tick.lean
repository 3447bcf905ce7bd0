import Mathlib.Data.List.Basic

/-!
# Ticks and `usize` arithmetic

A tick is a bid, an ask and a timestamp, all `usize`. The tick type lives in `algobot_util`, which
is not part of the sources, so `Tick`, `Tick::null` and `Tick::mid` are modelled from the spec.

Arithmetic is over naturals with the panics a debug build has: an operation whose result leaves
`usize` panics, subtraction below zero and division by zero panic at every width. A panic is
`none`. The range of `usize` is a parameter `lim`: `some (2 ^ w)` on a `w`-bit target, `none` for
the unbounded naturals most statements are made over.
-/

namespace TickGrinder

/-- Whether `n` is a value of `usize` for the range `lim`. -/
def fits : Option ℕ → ℕ → Bool
  | none, _ => true
  | some m, n => decide (n < m)

def checkedAdd (lim : Option ℕ) (a b : ℕ) : Option ℕ :=
  if fits lim (a + b) then some (a + b) else none

def checkedMul (lim : Option ℕ) (a b : ℕ) : Option ℕ :=
  if fits lim (a * b) then some (a * b) else none

def checkedSub (a b : ℕ) : Option ℕ :=
  if b ≤ a then some (a - b) else none

def checkedDiv (a b : ℕ) : Option ℕ :=
  if b = 0 then none else some (a / b)

@[simp] theorem fits_none (n : ℕ) : fits none n = true := rfl

@[simp] theorem fits_some (m n : ℕ) : fits (some m) n = decide (n < m) := rfl

@[simp] theorem checkedAdd_none (a b : ℕ) : checkedAdd none a b = some (a + b) := rfl

@[simp] theorem checkedMul_none (a b : ℕ) : checkedMul none a b = some (a * b) := rfl

theorem fits_of_le {lim : Option ℕ} {a b : ℕ} (h : fits lim a = true) (hle : b ≤ a) :
    fits lim b = true := by
  cases lim <;> simp_all
  omega

theorem checkedAdd_of_fits {lim : Option ℕ} {a b : ℕ} (h : fits lim (a + b) = true) :
    checkedAdd lim a b = some (a + b) := by
  simp [checkedAdd, h]

theorem checkedMul_of_fits {lim : Option ℕ} {a b : ℕ} (h : fits lim (a * b) = true) :
    checkedMul lim a b = some (a * b) := by
  simp [checkedMul, h]

theorem checkedAdd_of_lt {m a b : ℕ} (h : a + b < m) : checkedAdd (some m) a b = some (a + b) := by
  simp [checkedAdd, h]

theorem checkedMul_of_lt {m a b : ℕ} (h : a * b < m) : checkedMul (some m) a b = some (a * b) := by
  simp [checkedMul, h]

@[simp] theorem checkedSub_of_le {a b : ℕ} (h : b ≤ a) : checkedSub a b = some (a - b) := by
  simp [checkedSub, h]

@[simp] theorem checkedDiv_of_pos {a b : ℕ} (h : 0 < b) : checkedDiv a b = some (a / b) := by
  simp [checkedDiv, Nat.pos_iff_ne_zero.mp h]

theorem checkedSub_eq_none {a b : ℕ} : checkedSub a b = none ↔ a < b := by
  unfold checkedSub
  split <;> simp <;> omega

/-- Modelled from the spec: `algobot_util::trading::tick::Tick`. -/
structure Tick where
  bid : ℕ
  ask : ℕ
  timestamp : ℕ
deriving DecidableEq, Repr

namespace Tick

/-- Modelled from the spec: the null tick, the only tick with bid 0. -/
def null : Tick := ⟨0, 0, 0⟩

/-- Modelled from the spec: `mid = (bid + ask) / 2`, the sum a `usize` addition. -/
def mid (lim : Option ℕ) (t : Tick) : Option ℕ :=
  (· / 2) <$> checkedAdd lim t.bid t.ask

/-- The spec's mid-price, over the naturals. -/
def midPrice (t : Tick) : ℕ := (t.bid + t.ask) / 2

@[simp] theorem null_bid : null.bid = 0 := rfl

@[simp] theorem mid_none (t : Tick) : t.mid none = some t.midPrice := rfl

theorem midPrice_le (t : Tick) : t.midPrice ≤ max t.bid t.ask := by
  unfold midPrice
  omega

end Tick

/-- Strictly increasing timestamps, the order the SMA asserts. -/
def Increasing (hs : List Tick) : Prop :=
  hs.Pairwise fun a b => a.timestamp < b.timestamp

instance (hs : List Tick) : Decidable (Increasing hs) :=
  inferInstanceAs (Decidable (List.Pairwise _ hs))

end TickGrinder
