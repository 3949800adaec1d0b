/-
# Stores into a buffer of fixed size

An encoder that may not allocate stores its bytes one after the other into an array it was given,
and moves a cursor.  A store past the end of the array is a defect of the encoder, and here it is
`none`.

  * `putAll_of_le` -- what fits is stored, and what was filled before stays;
  * `putAll_filled`, `putAll_inside` -- whatever is stored goes behind what was filled, and leaves
    the cursor in the array.
-/
import Mathlib.Data.List.Basic

namespace FixedBuffer

/-- An array of `n` bytes. -/
structure Buffer (n : Nat) where
  bytes : List UInt8
  size : bytes.length = n
  deriving DecidableEq

def Buffer.zeros (n : Nat) : Buffer n := ⟨List.replicate n 0, List.length_replicate⟩

/-- A buffer being filled: the next byte goes to `pos`. -/
structure Cursor (n : Nat) where
  buf : Buffer n
  pos : Nat
  deriving DecidableEq

variable {n : Nat}

/-- What has been stored. -/
def Cursor.filled (c : Cursor n) : List UInt8 := c.buf.bytes.take c.pos

/-- `buf[pos] = b; inc pos`. -/
def putByte (b : UInt8) (c : Cursor n) : Option (Cursor n) :=
  if c.pos < n then some ⟨⟨c.buf.bytes.set c.pos b, by rw [List.length_set, c.buf.size]⟩, c.pos + 1⟩
  else none

/-- One store after the other. -/
def putAll : List UInt8 → Cursor n → Option (Cursor n)
  | [], c => some c
  | b :: bs, c => (putByte b c).bind (putAll bs)

theorem putAll_append (bs cs : List UInt8) (c : Cursor n) :
    putAll (bs ++ cs) c = (putAll bs c).bind (putAll cs) := by
  induction bs generalizing c with
  | nil => rfl
  | cons b bs ih =>
    rw [List.cons_append, putAll, putAll]
    cases hb : putByte b c with
    | none => rfl
    | some c' => exact ih c'

theorem putAll_cons_cons (b b' : UInt8) (bs : List UInt8) (c : Cursor n) :
    putAll (b :: b' :: bs) c = (putByte b c).bind fun c => putAll (b' :: bs) c := rfl

theorem putAll_singleton (b : UInt8) (c : Cursor n) : putAll [b] c = putByte b c := by
  rw [putAll]
  cases putByte b c <;> rfl

/-- What has been stored stays under a later store. -/
theorem filled_putByte {b : UInt8} {c c' : Cursor n} (h : putByte b c = some c') :
    c'.pos = c.pos + 1 ∧ c'.filled = c.filled ++ [b] := by
  unfold putByte at h
  split at h
  · rename_i hpos
    obtain rfl := Option.some.inj h
    refine ⟨rfl, ?_⟩
    have hlen : c.pos < c.buf.bytes.length := by rw [c.buf.size]; exact hpos
    rw [Cursor.filled, Cursor.filled, List.take_add_one, List.take_set_of_le (Nat.le_refl _),
      List.getElem?_set_self hlen, Option.toList_some]
  · exact absurd h (by simp)

/-- **What fits is stored**, behind what was stored before. -/
theorem putAll_of_le {bs : List UInt8} {c : Cursor n} (h : c.pos + bs.length ≤ n) :
    ∃ c', putAll bs c = some c' ∧ c'.pos = c.pos + bs.length ∧
      c'.filled = c.filled ++ bs := by
  induction bs generalizing c with
  | nil => exact ⟨c, rfl, rfl, (List.append_nil _).symm⟩
  | cons b bs ih =>
    rw [List.length_cons] at h
    obtain ⟨c₁, hput⟩ : ∃ c₁, putByte b c = some c₁ := by
      rw [putByte, if_pos (by omega)]
      exact ⟨_, rfl⟩
    obtain ⟨hpos, hfilled⟩ := filled_putByte hput
    obtain ⟨c', hall, hpos', hfilled'⟩ := ih (c := c₁) (by omega)
    refine ⟨c', ?_, ?_, ?_⟩
    · rw [putAll, hput]
      exact hall
    · rw [hpos', hpos, List.length_cons]
      omega
    · rw [hfilled', hfilled, List.append_assoc, List.singleton_append]

/-- Whatever was stored stands behind what was filled before. -/
theorem putAll_filled {bs : List UInt8} {c c' : Cursor n} (h : putAll bs c = some c') :
    c'.filled = c.filled ++ bs := by
  induction bs generalizing c with
  | nil => rw [← Option.some.inj h, List.append_nil]
  | cons b bs ih =>
    rw [putAll, Option.bind_eq_some_iff] at h
    obtain ⟨c₁, hput, hall⟩ := h
    rw [ih hall, (filled_putByte hput).2, List.append_assoc, List.singleton_append]

/-- A cursor within the array stays there. -/
theorem putAll_inside {bs : List UInt8} {c c' : Cursor n} (hpos : c.pos ≤ n)
    (h : putAll bs c = some c') : c'.pos ≤ n := by
  induction bs generalizing c with
  | nil =>
    rw [← Option.some.inj h]
    exact hpos
  | cons b bs ih =>
    rw [putAll, Option.bind_eq_some_iff] at h
    obtain ⟨c₁, hput, hall⟩ := h
    refine ih ?_ hall
    have hroom : c.pos < n := by
      by_contra hfull
      rw [putByte, if_neg hfull] at hput
      exact absurd hput (by simp)
    rw [(filled_putByte hput).1]
    omega

end FixedBuffer
