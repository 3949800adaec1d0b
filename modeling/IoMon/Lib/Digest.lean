/-
# Running digests and single-symbol damage

A running digest absorbs one symbol at a time into a state.  When absorbing is injective in the
state and in the symbol, replacing a single symbol of the input always changes the result: the
states part at that symbol and no later symbol can bring them together again.

This is all a checksum such as FNV-1a promises; two changes may well cancel.
-/
import Mathlib.Logic.Function.Basic
import Mathlib.Data.List.Basic

namespace Digest

variable {σ β : Type} {absorb : σ → β → σ}

/-- Absorbing is injective in the state for every symbol, and in the symbol for every state. -/
structure Faithful (absorb : σ → β → σ) : Prop where
  state : ∀ b, Function.Injective fun s => absorb s b
  symbol : ∀ s, Function.Injective (absorb s)

theorem Faithful.foldl_injective (h : Faithful absorb) (bytes : List β) :
    Function.Injective fun s => bytes.foldl absorb s := by
  induction bytes with
  | nil => exact fun s t e => e
  | cons b rest ih =>
    intro s t e
    exact h.state b (ih e)

/-- **A single changed symbol is seen.** -/
theorem Faithful.foldl_set_ne (h : Faithful absorb) (seed : σ) {bytes : List β} {i : Nat}
    (hi : i < bytes.length) {b : β} (hb : b ≠ bytes[i]) :
    (bytes.set i b).foldl absorb seed ≠ bytes.foldl absorb seed := by
  induction bytes generalizing seed i with
  | nil => exact absurd hi (Nat.not_lt_zero i)
  | cons c rest ih =>
    cases i with
    | zero =>
      intro e
      exact hb (h.symbol seed (h.foldl_injective rest e))
    | succ i => exact ih (absorb seed c) (Nat.lt_of_succ_lt_succ hi) hb

end Digest
