/-
# Byte-level codecs: fixed-width little-endian words and LEB128 varints

Two number formats that almost every binary record format is built from, over plain lists of
bytes and naturals, and their round trips.

  * **fixed width.**  `leBytes k v` is the `k` low-order bytes of `v`, least significant first;
    `leNat` reads such a list back, and `loadLe` reads one at an offset of a larger buffer.
  * **varint.**  `putVarint n v` is `v` in groups of seven bits, least significant first, every
    byte but the last with its high bit set, at most `n` groups long.  `getVarint limit` is the
    reader that gives up once the shift reaches `limit`.

Nothing here knows which record is being encoded.
-/
import Mathlib.Data.List.TakeDrop
import Mathlib.Tactic.Ring

namespace ByteCodec

/-! ## 1. Fixed-width little-endian words -/

/-- The `k` low-order bytes of `v`, least significant first. -/
def leBytes : Nat → Nat → List UInt8
  | 0, _ => []
  | k + 1, v => UInt8.ofNat v :: leBytes k (v / 256)

/-- The value of a little-endian byte list. -/
def leNat : List UInt8 → Nat
  | [] => 0
  | b :: t => b.toNat + 256 * leNat t

/-- The `k`-byte word at offset `off` of a buffer. -/
def loadLe (bytes : List UInt8) (off k : Nat) : Nat := leNat ((bytes.drop off).take k)

@[simp] theorem leBytes_length : ∀ (k v : Nat), (leBytes k v).length = k
  | 0, _ => rfl
  | k + 1, v => by simp only [leBytes, List.length_cons, leBytes_length k]

theorem leNat_leBytes (k v : Nat) : leNat (leBytes k v) = v % 256 ^ k := by
  induction k generalizing v with
  | zero => simp only [leBytes, leNat, pow_zero, Nat.mod_one]
  | succ k ih =>
    have hbyte : (UInt8.ofNat v).toNat = v % 256 := UInt8.toNat_ofNat'
    rw [leBytes, leNat, ih, hbyte, pow_succ', Nat.mod_mul]

/-- Writing a word keeps its value modulo the width. -/
theorem leBytes_mod (k v : Nat) : leBytes k (v % 256 ^ k) = leBytes k v := by
  induction k generalizing v with
  | zero => rfl
  | succ k ih =>
    have hlow : UInt8.ofNat (v % 256 ^ (k + 1)) = UInt8.ofNat v := by
      apply UInt8.toNat_inj.mp
      rw [UInt8.toNat_ofNat', UInt8.toNat_ofNat', pow_succ']
      exact Nat.mod_mul_right_mod v 256 (256 ^ k)
    have hhigh : v % 256 ^ (k + 1) / 256 = v / 256 % 256 ^ k := by
      rw [pow_succ', Nat.mod_mul_right_div_self]
    rw [leBytes, leBytes, hlow, hhigh, ih]

theorem leNat_lt (bytes : List UInt8) : leNat bytes < 256 ^ bytes.length := by
  induction bytes with
  | nil => exact Nat.one_pos
  | cons b t ih =>
    have hb : b.toNat < 256 := b.toNat_lt
    rw [leNat, List.length_cons, pow_succ']
    omega

/-- A little-endian word determines its bytes. -/
theorem leNat_injective {a b : List UInt8} (hlen : a.length = b.length)
    (h : leNat a = leNat b) : a = b := by
  induction a generalizing b with
  | nil => exact (List.eq_nil_of_length_eq_zero hlen.symm).symm
  | cons x s ih =>
    cases b with
    | nil => exact absurd hlen (by simp)
    | cons y t =>
      have hx : x.toNat < 256 := x.toNat_lt
      have hy : y.toNat < 256 := y.toNat_lt
      rw [leNat, leNat] at h
      have hhead : x = y := UInt8.toNat_inj.mp (by omega)
      rw [hhead, ih (Nat.succ.inj hlen) (by omega)]

theorem loadLe_lt (bytes : List UInt8) (off k : Nat) : loadLe bytes off k < 256 ^ k := by
  refine Nat.lt_of_lt_of_le (leNat_lt _) (Nat.pow_le_pow_right (by omega) ?_)
  rw [List.length_take]
  omega

/-- A word at the front of a buffer reads back, modulo its width. -/
theorem loadLe_zero_mod (k v : Nat) (rest : List UInt8) :
    loadLe (leBytes k v ++ rest) 0 k = v % 256 ^ k := by
  have htake : (leBytes k v ++ rest).take k = leBytes k v := by
    rw [List.take_append_of_le_length (by simp), List.take_of_length_le (by simp)]
  rw [loadLe, List.drop_zero, htake, leNat_leBytes]

/-- A word at the front of a buffer reads back. -/
theorem loadLe_zero {k v : Nat} (h : v < 256 ^ k) (rest : List UInt8) :
    loadLe (leBytes k v ++ rest) 0 k = v := by
  rw [loadLe_zero_mod, Nat.mod_eq_of_lt h]

/-- An offset past a prefix is an offset into what follows the prefix. -/
theorem loadLe_append (pre rest : List UInt8) (off k : Nat) :
    loadLe (pre ++ rest) (pre.length + off) k = loadLe rest off k := by
  simp only [loadLe, List.drop_append, List.drop_eq_nil_of_le (Nat.le_add_right _ _),
    List.nil_append, Nat.add_sub_cancel_left]

/-- The same, for a prefix that is itself a word: the form a fixed-layout header uses. -/
theorem loadLe_skip {w off : Nat} (h : w ≤ off) (v k : Nat) (rest : List UInt8) :
    loadLe (leBytes w v ++ rest) off k = loadLe rest (off - w) k := by
  have hoff : off = (leBytes w v).length + (off - w) := by
    rw [leBytes_length]; omega
  rw [hoff, loadLe_append, leBytes_length, Nat.add_sub_cancel_left]

/-! ## 2. Varints -/

/-- `v` in groups of seven bits, least significant first, in at most `n` groups. -/
def putVarint : Nat → Nat → List UInt8
  | 0, _ => []
  | n + 1, v =>
    if v / 128 = 0 then [UInt8.ofNat (v % 128)]
    else UInt8.ofNat (v % 128 + 128) :: putVarint n (v / 128)

/-- The reader: `shift` is the weight of the next group and `acc` the groups read so far.  It
fails on a buffer that ends inside the number and when the shift reaches `limit`. -/
def getVarint (limit : Nat) : (shift acc : Nat) → List UInt8 → Option (Nat × List UInt8)
  | _, _, [] => none
  | shift, acc, b :: rest =>
    if shift ≥ limit then none
    else
      let acc' := acc + (b.toNat % 128) * 2 ^ shift
      if b.toNat < 128 then some (acc', rest)
      else getVarint limit (shift + 7) acc' rest

/-- **The varint round trip**, at any shift and accumulator: the form the induction needs.
The last group the writer may emit has weight `shift + 7 * n`, which the reader must accept. -/
theorem getVarint_putVarint {limit : Nat} : ∀ (n v shift acc : Nat) (rest : List UInt8),
    v < 128 ^ (n + 1) → shift + 7 * n < limit →
      getVarint limit shift acc (putVarint (n + 1) v ++ rest) = some (acc + v * 2 ^ shift, rest)
  | n, v, shift, acc, rest, hv, hs => by
    have hlim : ¬ shift ≥ limit := by omega
    unfold putVarint
    split
    · rename_i h0
      have hsmall : v < 128 := by omega
      have hmod : v % 128 = v := Nat.mod_eq_of_lt hsmall
      have hbyte : (UInt8.ofNat v).toNat = v := by
        rw [UInt8.toNat_ofNat']; omega
      simp only [hmod, List.cons_append, List.nil_append, getVarint, if_neg hlim, hbyte,
        if_pos hsmall]
    · rename_i h0
      have hbyte : (UInt8.ofNat (v % 128 + 128)).toNat = v % 128 + 128 := by
        rw [UInt8.toNat_ofNat']; omega
      have hcont : ¬ v % 128 + 128 < 128 := by omega
      cases n with
      | zero => omega
      | succ n =>
        have hv' : v / 128 < 128 ^ (n + 1) := by
          rw [pow_succ'] at hv; exact Nat.div_lt_of_lt_mul hv
        have hvalue : v % 128 * 2 ^ shift + v / 128 * 2 ^ (shift + 7) = v * 2 ^ shift := by
          calc v % 128 * 2 ^ shift + v / 128 * 2 ^ (shift + 7)
              = (v % 128 + 128 * (v / 128)) * 2 ^ shift := by rw [pow_add]; ring
            _ = v * 2 ^ shift := by rw [Nat.mod_add_div]
        simp only [List.cons_append, getVarint, if_neg hlim, hbyte, if_neg hcont]
        rw [getVarint_putVarint n (v / 128) (shift + 7) _ rest hv' (by omega),
          Nat.add_mod_right, Nat.mod_mod, Nat.add_assoc, hvalue]

/-! ## 3. Which bytes a varint is

The number at the front of a buffer is the run of bytes with their high bit set and the byte that
ends it; the reader accepts it when it has at most as many groups as the limit allows. -/

def groupsValue : List UInt8 → Nat
  | [] => 0
  | b :: t => b.toNat % 128 + 128 * groupsValue t

/-- The bytes of the number at the front, if it ends inside the buffer and within `n` groups. -/
def varintGroups (n : Nat) (bytes : List UInt8) : Option (List UInt8) :=
  let run := bytes.takeWhile fun b => decide (128 ≤ b.toNat)
  if run.length < n ∧ run.length < bytes.length then some (bytes.take (run.length + 1)) else none

@[simp] theorem varintGroups_nil (n : Nat) : varintGroups n [] = none := by
  rw [varintGroups, List.takeWhile_nil, if_neg (fun h => absurd h.2 (Nat.lt_irrefl 0))]

theorem varintGroups_zero (bytes : List UInt8) : varintGroups 0 bytes = none := by
  rw [varintGroups, if_neg (fun h => absurd h.1 (Nat.not_lt_zero _))]

theorem varintGroups_last {b : UInt8} (h : b.toNat < 128) (n : Nat) (rest : List UInt8) :
    varintGroups (n + 1) (b :: rest) = some [b] := by
  have hrun : (b :: rest).takeWhile (fun b => decide (128 ≤ b.toNat)) = [] :=
    List.takeWhile_cons_of_neg (by simpa using h)
  rw [varintGroups, hrun]
  exact if_pos ⟨Nat.zero_lt_succ n, Nat.zero_lt_succ _⟩

theorem varintGroups_more {b : UInt8} (h : ¬ b.toNat < 128) (n : Nat) (rest : List UInt8) :
    varintGroups (n + 1) (b :: rest) = (varintGroups n rest).map (b :: ·) := by
  have hrun : (b :: rest).takeWhile (fun b => decide (128 ≤ b.toNat)) =
      b :: rest.takeWhile fun b => decide (128 ≤ b.toNat) :=
    List.takeWhile_cons_of_pos (by simpa using h)
  simp only [varintGroups, hrun, List.length_cons, Nat.add_lt_add_iff_right]
  split <;> rfl

/-- **What the varint reader reads**: the groups at the front, with their weights, if the last of
the `n` groups it may read is the last below the limit. -/
theorem getVarint_eq {limit : Nat} (bytes : List UInt8) (n shift acc : Nat)
    (hn : ∀ j, j < n ↔ shift + 7 * j < limit) :
    getVarint limit shift acc bytes =
      (varintGroups n bytes).map fun bs => (acc + groupsValue bs * 2 ^ shift,
        bytes.drop bs.length) := by
  induction bytes generalizing n shift acc with
  | nil => rw [varintGroups_nil, getVarint, Option.map_none]
  | cons b rest ih =>
    rw [getVarint]
    cases n with
    | zero =>
      have hend : shift ≥ limit := by
        have := hn 0
        omega
      rw [if_pos hend, varintGroups_zero, Option.map_none]
    | succ n =>
      have hgo : ¬ shift ≥ limit := by
        have := (hn 0).mp (Nat.zero_lt_succ n)
        omega
      rw [if_neg hgo]
      by_cases hlast : b.toNat < 128
      · simp only [if_pos hlast, varintGroups_last hlast, Option.map_some, groupsValue,
          List.length_singleton, List.drop_one, List.tail_cons, Nat.mul_zero, Nat.add_zero]
      · have hn' : ∀ j, j < n ↔ shift + 7 + 7 * j < limit := by
          intro j
          have := hn (j + 1)
          omega
        have hvalue : ∀ bs, acc + b.toNat % 128 * 2 ^ shift + groupsValue bs * 2 ^ (shift + 7) =
            acc + groupsValue (b :: bs) * 2 ^ shift := by
          intro bs
          rw [groupsValue, pow_add]
          ring
        rw [varintGroups_more hlast]
        simp only [if_neg hlast, ih n (shift + 7) _ hn', hvalue, Option.map_map]
        rfl

end ByteCodec
