/-
# Reading a process's stat line

`parseProcStat` of `fs_snoop.nim` takes two fields out of a line of `/proc/<pid>/stat`: the run
state, field 3, and the start time, field 22.  The second field is the process name in
parentheses, any bytes at all, so the parser looks for the last closing parenthesis of what was
read and counts blank-separated fields from there.

On a whole line that finds the right fields whatever the name says.  On a line that was cut, the
start time is meant to be zero ("could not tell") where it was not read.  Two cuts break that:

  * between two digits of the start time, the digits read so far are a smaller number
    (`digitsValue_take_ne`);
  * inside the name, a parenthesis of the name is the last one, and the rest of the name can look
    like the rest of a line (`startTicksOf_eq_iff`).

`parseProcStat_cut_iff` says that nothing else does.
-/
import IoMon.Lib.Strings

namespace IoMon

open ByteText

/-! ## 1. The parser -/

/-- The scan from the end for a closing parenthesis. -/
def closeParen : List UInt8 → Option Nat
  | [] => none
  | c :: t =>
    match closeParen t with
    | some i => some (i + 1)
    | none => if c = 41 then some 0 else none

/-- One turn of the field loop: to the next blank, and past the blanks. -/
def nextField (buf : List UInt8) : List UInt8 :=
  (buf.dropWhile (· != 32)).dropWhile (· == 32)

/-- The field loop; it stops early where the bytes run out. -/
def skipFields : Nat → List UInt8 → List UInt8
  | 0, buf => buf
  | n + 1, buf => if buf.isEmpty then [] else skipFields n (nextField buf)

/-- The digit loop, in wrapping 64-bit arithmetic; without a digit the start time stays zero. -/
def leadingTicks (buf : List UInt8) : UInt64 :=
  (buf.takeWhile isDigit).foldl (fun value c => value * 10 + (c.toUInt64 - 48)) 0

structure ProcStat where
  state : UInt8
  startTicks : UInt64
  deriving DecidableEq, Repr

/-- **`parseProcStat`** on the bytes that were read; `none` is the result `false`.  The loop runs
from field 3, the state, to field 22. -/
def parseProcStat (buf : List UInt8) : Option ProcStat :=
  match closeParen buf with
  | none => none
  | some i =>
    match buf.drop (i + 2) with
    | [] => none
    | state :: rest => some ⟨state, leadingTicks (skipFields 19 (state :: rest))⟩

/-- The out-of-band start time: zero where the parser gave up. -/
def startTicksOf (buf : List UInt8) : UInt64 :=
  match parseProcStat buf with
  | none => 0
  | some stat => stat.startTicks

/-! ## 2. A stat line -/

/-- The fields of a stat line: the name is any bytes, the state one byte that is neither a blank
nor a parenthesis, and there are eighteen numbers between it and the start time. -/
structure StatLine where
  pid : UInt64
  name : NimStr
  state : UInt8
  state_ne : state ≠ 32 ∧ state ≠ 41
  before : List Int
  before_length : before.length = 18
  startTicks : UInt64
  after : List Int

/-- Words with a blank after each, then a tail. -/
def wordsThen : List NimStr → NimStr → NimStr
  | [], tail => tail
  | w :: ws, tail => w ++ 32 :: wordsThen ws tail

/-- The bytes the words take up, with their blanks. -/
def wordsLength (ws : List NimStr) : Nat := (ws.map fun w => w.length + 1).sum

theorem wordsThen_length (ws : List NimStr) (tail : NimStr) :
    (wordsThen ws tail).length = wordsLength ws + tail.length := by
  induction ws with
  | nil => exact (Nat.zero_add _).symm
  | cons w ws ih =>
    rw [wordsThen, List.length_append, List.length_cons, ih, wordsLength, wordsLength,
      List.map_cons, List.sum_cons]
    omega

namespace StatLine

variable (p : StatLine)

/-- Up to the parenthesis that closes the name. -/
def head : NimStr := decimal p.pid ++ str " (" ++ p.name

/-- Fields 3 to 21. -/
def words : List NimStr := [p.state] :: p.before.map signedDecimal

/-- What follows the start time. -/
def rest : NimStr := (p.after.flatMap fun n => 32 :: signedDecimal n) ++ [10]

/-- From field 3 on. -/
def fields : NimStr := wordsThen p.words (decimal p.startTicks ++ p.rest)

/-- The line, as the kernel writes it. -/
def text : NimStr := p.head ++ 41 :: 32 :: p.fields

/-- Where the digits of the start time begin. -/
def startAt : Nat := p.head.length + 2 + wordsLength p.words

/-- The read ended between two digits of the start time. -/
def CutsStart (cut : Nat) : Prop :=
  p.startAt < cut ∧ cut < p.startAt + (decimal p.startTicks).length

end StatLine

/-! ## 3. The last parenthesis -/

theorem closeParen_append_of_not_mem {y : List UInt8} (h : 41 ∉ y) (x : List UInt8) :
    closeParen (x ++ y) = closeParen x := by
  have hnone : ∀ y : List UInt8, 41 ∉ y → closeParen y = none := by
    intro y
    induction y with
    | nil => exact fun _ => rfl
    | cons c y ih =>
      intro hy
      rw [List.mem_cons, not_or] at hy
      rw [closeParen, ih hy.2]
      exact if_neg (Ne.symm hy.1)
  induction x with
  | nil => exact hnone y h
  | cons c x ih => rw [List.cons_append, closeParen, closeParen, ih]

theorem closeParen_of_not_mem {y : List UInt8} (h : 41 ∉ y) : closeParen y = none :=
  closeParen_append_of_not_mem h []

/-- **The last parenthesis closes**: what stands before it does not matter. -/
theorem closeParen_append_close {t : List UInt8} (h : 41 ∉ t) (x : List UInt8) :
    closeParen (x ++ 41 :: t) = some x.length := by
  have hlast : ∀ x : List UInt8, closeParen (x ++ [41]) = some x.length := by
    intro x
    induction x with
    | nil => rfl
    | cons c x ih => rw [List.cons_append, closeParen, ih, List.length_cons]
  rw [List.append_cons, closeParen_append_of_not_mem h, hlast]

theorem closeParen_append_of_not_mem_left {x : List UInt8} (h : 41 ∉ x) (y : List UInt8) :
    closeParen (x ++ y) = (closeParen y).map (x.length + ·) := by
  induction x with
  | nil =>
    rw [List.nil_append]
    cases closeParen y <;> simp
  | cons c x ih =>
    rw [List.mem_cons, not_or] at h
    rw [List.cons_append, closeParen, ih h.2]
    cases closeParen y with
    | none => exact if_neg (Ne.symm h.1)
    | some i => simp only [Option.map_some, List.length_cons, Option.some.injEq]; omega

/-- Bytes without a parenthesis in front of what was read change nothing. -/
theorem parseProcStat_append {x : List UInt8} (h : 41 ∉ x) (y : List UInt8) :
    parseProcStat (x ++ y) = parseProcStat y := by
  unfold parseProcStat
  rw [closeParen_append_of_not_mem_left h]
  cases closeParen y with
  | none => rfl
  | some i =>
    have hdrop : (x ++ y).drop (x.length + i + 2) = y.drop (i + 2) := by
      rw [Nat.add_assoc, ← List.drop_drop, List.drop_left]
    simp only [Option.map_some, hdrop]

/-- What a text with a last closing parenthesis is read as. -/
theorem parseProcStat_close {t : List UInt8} (h : 41 ∉ t) (x : List UInt8) :
    parseProcStat (x ++ 41 :: t) =
      match t.drop 1 with
      | [] => none
      | state :: rest => some ⟨state, leadingTicks (skipFields 19 (state :: rest))⟩ := by
  unfold parseProcStat
  rw [closeParen_append_close h]
  have hdrop : (x ++ 41 :: t).drop (x.length + 2) = t.drop 1 := by
    rw [← List.drop_drop, List.drop_left, List.drop_succ_cons]
  simp only [hdrop]

/-! ## 4. Counting fields -/

@[simp] theorem nextField_nil : nextField [] = [] := rfl

theorem skipFields_nil (n : Nat) : skipFields n [] = [] := by
  cases n <;> rfl

theorem skipFields_succ (n : Nat) (buf : List UInt8) :
    skipFields (n + 1) buf = skipFields n (nextField buf) := by
  cases buf with
  | nil => rw [nextField_nil, skipFields_nil, skipFields_nil]
  | cons c t => rfl

/-- **A field of a cut text** ends with its blank, if the cut is behind it; otherwise it is the
last one. -/
theorem nextField_take {w rest : NimStr} (hw : 32 ∉ w) (hrest : rest.head? ≠ some 32) (j : Nat) :
    nextField ((w ++ 32 :: rest).take j) = rest.take (j - (w.length + 1)) := by
  have hword : ∀ v : NimStr, 32 ∉ v → ∀ s, (v ++ s).dropWhile (· != 32) =
      s.dropWhile (· != 32) := by
    intro v hv s
    refine List.dropWhile_append_of_pos fun c hc => ?_
    rw [bne_iff_ne]
    exact fun h => hv (h ▸ hc)
  rcases Nat.lt_or_ge w.length j with hj | hj
  · obtain ⟨i, rfl⟩ := Nat.exists_eq_add_of_le hj
    have htake : (w ++ 32 :: rest).take (w.length + 1 + i) = w ++ 32 :: rest.take i := by
      rw [Nat.add_assoc, List.take_length_add_append, Nat.add_comm 1 i, List.take_succ_cons]
    have hblank : (32 :: rest.take i).dropWhile (· == 32) = rest.take i := by
      rw [List.dropWhile_cons_of_pos (by rfl)]
      cases rest with
      | nil => rw [List.take_nil, List.dropWhile_nil]
      | cons c rest =>
        cases i with
        | zero => rfl
        | succ i =>
          rw [List.take_succ_cons, List.dropWhile_cons_of_neg]
          intro hc
          exact hrest (by rw [List.head?_cons, eq_of_beq hc])
    rw [htake, nextField, hword w hw, List.dropWhile_cons_of_neg (by decide), hblank]
    congr 1
    omega
  · have htake : (w ++ 32 :: rest).take j = w.take j ++ [] := by
      rw [List.take_append_of_le_length hj, List.append_nil]
    rw [htake, nextField, hword _ (fun h => hw (List.mem_of_mem_take h)),
      Nat.sub_eq_zero_of_le (by omega)]
    rfl

/-- **Fields of a cut text**: skipping as many as there are words leaves what was read of the
tail. -/
theorem skipFields_take {ws : List NimStr} (hws : ∀ w ∈ ws, 32 ∉ w ∧ w ≠ []) {tail : NimStr}
    (htail : tail.head? ≠ some 32) (j : Nat) :
    skipFields ws.length ((wordsThen ws tail).take j) = tail.take (j - wordsLength ws) := by
  induction ws generalizing j with
  | nil => rfl
  | cons w ws ih =>
    have hrest : (wordsThen ws tail).head? ≠ some 32 := by
      cases ws with
      | nil => exact htail
      | cons v ws =>
        obtain ⟨hv, hne⟩ := hws v (by simp)
        obtain ⟨c, v', rfl⟩ := List.exists_cons_of_ne_nil hne
        intro h
        exact hv (List.mem_cons.mpr (Or.inl (Option.some.inj h).symm))
    rw [List.length_cons, skipFields_succ, wordsThen,
      nextField_take (hws w (by simp)).1 hrest, ih fun v hv => hws v (by simp [hv])]
    congr 1
    simp only [wordsLength, List.map_cons, List.sum_cons]
    omega

/-! ## 5. The digits of the start time -/

theorem foldl_digits (s : NimStr) (acc : Nat) :
    s.foldl (fun acc c => 10 * acc + (c.toNat - 48)) acc = acc * 10 ^ s.length + digitsValue s := by
  induction s generalizing acc with
  | nil => simp [digitsValue]
  | cons c s ih =>
    have hcons : digitsValue (c :: s) = (c.toNat - 48) * 10 ^ s.length + digitsValue s := by
      rw [digitsValue, List.foldl_cons, Nat.mul_zero, Nat.zero_add]
      exact ih _
    rw [List.foldl_cons, ih, hcons, List.length_cons, pow_succ]
    ring

theorem digitsValue_append (s t : NimStr) :
    digitsValue (s ++ t) = digitsValue s * 10 ^ t.length + digitsValue t := by
  rw [digitsValue, List.foldl_append, foldl_digits]
  rfl

theorem digitsValue_lt {s : NimStr} (h : ∀ c ∈ s, isDigit c = true) :
    digitsValue s < 10 ^ s.length := by
  induction s with
  | nil => decide
  | cons c s ih =>
    have hc : c.toNat - 48 ≤ 9 := by
      have hdigit := h c List.mem_cons_self
      simp only [isDigit, Bool.and_eq_true, decide_eq_true_eq, UInt8.le_iff_toNat_le] at hdigit
      have h57 : (57 : UInt8).toNat = 57 := rfl
      omega
    have hs := ih fun d hd => h d (List.mem_cons_of_mem c hd)
    rw [digitsValue, List.foldl_cons, foldl_digits, List.length_cons, pow_succ]
    have hmul := Nat.mul_le_mul_right (10 ^ s.length) hc
    simp only [Nat.mul_zero, Nat.zero_add]
    omega

/-- A number has no leading zero. -/
theorem pow_length_le (fuel : Nat) {n : Nat} (hn : n ≠ 0) :
    10 ^ ((decimalDigits fuel n).length - 1) ≤ n := by
  induction fuel generalizing n with
  | zero =>
    simp only [decimalDigits, List.length_nil, Nat.zero_sub, pow_zero]
    omega
  | succ fuel ih =>
    unfold decimalDigits
    split
    · simp only [List.length_singleton, Nat.sub_self, pow_zero]
      omega
    · have hdiv : n / 10 ≠ 0 := by omega
      have hih := ih hdiv
      rw [List.length_append, List.length_singleton, Nat.add_sub_cancel]
      cases hlen : (decimalDigits fuel (n / 10)).length with
      | zero =>
        rw [pow_zero]
        omega
      | succ k =>
        rw [hlen, Nat.add_sub_cancel] at hih
        rw [pow_succ]
        omega

/-- **A cut number is another number**, and not zero. -/
theorem digitsValue_take_ne {n : UInt64} {m : Nat} (hpos : 0 < m)
    (hlt : m < (decimal n).length) :
    digitsValue ((decimal n).take m) ≠ 0 ∧ digitsValue ((decimal n).take m) < n.toNat := by
  have hfits : n.toNat < 10 ^ 20 := Nat.lt_trans n.toNat_lt (by decide)
  have hvalue : digitsValue ((decimal n).take m) * 10 ^ ((decimal n).drop m).length +
      digitsValue ((decimal n).drop m) = n.toNat := by
    rw [← digitsValue_append, List.take_append_drop, decimal, digitsValue_decimalDigits _ _ hfits]
  have hdrop : ((decimal n).drop m).length = (decimal n).length - m := List.length_drop
  have hdigits : ∀ c ∈ (decimal n).drop m, isDigit c = true := fun c hc =>
    decimalDigits_isDigit 20 n.toNat c (List.mem_of_mem_drop hc)
  have htail := digitsValue_lt hdigits
  have hne : n.toNat ≠ 0 := by
    intro h0
    rw [decimal, h0] at hlt
    have hone : (decimalDigits 20 0).length = 1 := rfl
    omega
  have hlead := pow_length_le 20 hne
  have hmono : 10 ^ ((decimal n).drop m).length ≤ 10 ^ ((decimal n).length - 1) :=
    Nat.pow_le_pow_right (by decide) (by omega)
  have hhead : digitsValue ((decimal n).take m) ≠ 0 := by
    intro h0
    rw [h0, Nat.zero_mul, Nat.zero_add] at hvalue
    have hle : 10 ^ ((decimal n).length - 1) ≤ n.toNat := hlead
    omega
  refine ⟨hhead, ?_⟩
  have hten : 2 ≤ 10 ^ ((decimal n).drop m).length := by
    have hge : 10 ^ 1 ≤ 10 ^ ((decimal n).drop m).length :=
      Nat.pow_le_pow_right (by decide) (by omega)
    omega
  have hmul := Nat.mul_le_mul_left (digitsValue ((decimal n).take m)) hten
  omega

/-- The digit loop computes the value of the digits in 64 bits. -/
theorem leadingTicks_eq (buf : List UInt8) :
    leadingTicks buf = UInt64.ofNat (digitsValue (buf.takeWhile isDigit)) := by
  have hfold : ∀ (s : NimStr) (acc : Nat), (∀ c ∈ s, isDigit c = true) →
      s.foldl (fun (value : UInt64) c => value * 10 + (c.toUInt64 - 48)) (UInt64.ofNat acc) =
        UInt64.ofNat (s.foldl (fun acc c => 10 * acc + (c.toNat - 48)) acc) := by
    intro s
    induction s with
    | nil => exact fun _ _ => rfl
    | cons c s ih =>
      intro acc hs
      have hc := hs c List.mem_cons_self
      have hstep : UInt64.ofNat acc * 10 + (c.toUInt64 - 48) =
          UInt64.ofNat (10 * acc + (c.toNat - 48)) := by
        have hle : (48 : UInt64) ≤ c.toUInt64 := by
          simp only [isDigit, Bool.and_eq_true, decide_eq_true_eq, UInt8.le_iff_toNat_le] at hc
          rw [UInt64.le_iff_toNat_le, UInt8.toNat_toUInt64]
          exact hc.1
        apply UInt64.toNat_inj.mp
        rw [UInt64.toNat_add, UInt64.toNat_mul, UInt64.toNat_sub_of_le _ _ hle,
          UInt8.toNat_toUInt64, UInt64.toNat_ofNat', UInt64.toNat_ofNat']
        have h10 : (10 : UInt64).toNat = 10 := rfl
        have h48 : (48 : UInt64).toNat = 48 := rfl
        rw [h10, h48]
        omega
      rw [List.foldl_cons, List.foldl_cons, hstep]
      exact ih _ fun d hd => hs d (List.mem_cons_of_mem c hd)
  have hdigits : ∀ c ∈ buf.takeWhile isDigit, isDigit c = true := fun c hc =>
    List.all_eq_true.mp List.all_takeWhile c hc
  exact hfold _ 0 hdigits

/-- What is read of the start time, when the first `m` bytes of its digits and of what follows
were read. -/
theorem leadingTicks_take (n : UInt64) {rest : NimStr} (hrest : ∀ c ∈ rest.head?, isDigit c = false)
    (m : Nat) :
    leadingTicks ((decimal n ++ rest).take m) =
      UInt64.ofNat (digitsValue ((decimal n).take m)) := by
  have hdigits : ∀ c ∈ (decimal n).take m, isDigit c = true := fun c hc =>
    decimalDigits_isDigit 20 n.toNat c (List.mem_of_mem_take hc)
  rw [leadingTicks_eq, List.take_append, List.takeWhile_append_of_pos hdigits]
  have hnil : (rest.take (m - (decimal n).length)).takeWhile isDigit = [] := by
    cases rest with
    | nil => rw [List.take_nil, List.takeWhile_nil]
    | cons c rest =>
      cases m - (decimal n).length with
      | zero => rfl
      | succ i =>
        rw [List.take_succ_cons, List.takeWhile_cons_of_neg]
        rw [hrest c rfl]
        decide
  rw [hnil, List.append_nil]

/-! ## 6. What a text is read as

The start time that is read out of a text, said without the parser: a closing parenthesis with
none behind it, one byte, nineteen fields with their blanks, and digits. -/

/-- `n` fields, each a word and at least one blank, and what follows them. -/
inductive FieldsThen : Nat → NimStr → NimStr → Prop
  | zero (out : NimStr) : FieldsThen 0 out out
  | field {n : Nat} {word gap rest out : NimStr} (hword : 32 ∉ word) (hgap : gap ≠ [])
      (hblank : ∀ c ∈ gap, c = 32) (hrest : rest.head? ≠ some 32) (h : FieldsThen n rest out) :
      FieldsThen (n + 1) (word ++ gap ++ rest) out

/-- The digits a text begins with have the value `v` in 64 bits. -/
def BeginsNumber (out : NimStr) (v : UInt64) : Prop :=
  ∃ digits rest, out = digits ++ rest ∧ digits ≠ [] ∧ (∀ c ∈ digits, isDigit c = true) ∧
    (∀ c ∈ rest.head?, isDigit c = false) ∧ v = UInt64.ofNat (digitsValue digits)

/-- Behind its last closing parenthesis the text goes on like a stat line with start time `v`. -/
def ReadsAsStart (read : NimStr) (v : UInt64) : Prop :=
  ∃ before sep text out, read = before ++ 41 :: sep :: text ∧ 41 ∉ sep :: text ∧
    FieldsThen 19 text out ∧ BeginsNumber out v

theorem head?_dropWhile_ne {p : UInt8 → Bool} (l : NimStr) :
    ∀ c ∈ (l.dropWhile p).head?, p c = false := by
  induction l with
  | nil => exact fun c hc => absurd hc (by simp)
  | cons a l ih =>
    intro c hc
    by_cases ha : p a = true
    · rw [List.dropWhile_cons_of_pos ha] at hc
      exact ih c hc
    · rw [List.dropWhile_cons_of_neg ha, List.head?_cons, Option.mem_some_iff] at hc
      subst hc
      exact Bool.not_eq_true _ ▸ ha

/-- Skipping fields goes past exactly the fields there are. -/
theorem skipFields_eq_iff {n : Nat} {buf out : NimStr} (hout : out ≠ []) :
    skipFields n buf = out ↔ FieldsThen n buf out := by
  constructor
  · intro h
    induction n generalizing buf with
    | zero =>
      obtain rfl : buf = out := h
      exact .zero buf
    | succ n ih =>
      rw [skipFields_succ] at h
      have hnext := ih h
      have hsplit : buf = buf.takeWhile (· != 32) ++
          (buf.dropWhile (· != 32)).takeWhile (· == 32) ++ nextField buf := by
        rw [List.append_assoc, nextField, List.takeWhile_append_dropWhile,
          List.takeWhile_append_dropWhile]
      rw [hsplit]
      refine .field ?_ ?_ ?_ ?_ hnext
      · intro hmem
        have h32 := List.all_eq_true.mp List.all_takeWhile 32 hmem
        exact absurd h32 (by decide)
      · intro hgap
        -- no blank after the word: the word was the last one
        have hend : buf.dropWhile (· != 32) = [] := by
          cases hd : buf.dropWhile (· != 32) with
          | nil => rfl
          | cons c t =>
            have hc := head?_dropWhile_ne (p := (· != 32)) buf c (by rw [hd]; rfl)
            rw [hd, List.takeWhile_cons_of_pos (by simpa using hc)] at hgap
            exact absurd hgap (by simp)
        rw [nextField, hend, List.dropWhile_nil, skipFields_nil] at h
        exact hout h.symm
      · intro c hc
        exact eq_of_beq (List.all_eq_true.mp List.all_takeWhile c hc)
      · intro hhead
        have hc := head?_dropWhile_ne (p := (· == 32)) (buf.dropWhile (· != 32)) 32 hhead
        exact absurd hc (by decide)
  · intro h
    induction h with
    | zero out => rfl
    | @field n word gap rest out hword hgap hblank hrest _ ih =>
      have hnext : nextField (word ++ gap ++ rest) = rest := by
        have hgo : (word ++ (gap ++ rest)).dropWhile (· != 32) = gap ++ rest := by
          rw [List.dropWhile_append_of_pos fun c hc => ?_]
          · obtain ⟨c, gap', rfl⟩ := List.exists_cons_of_ne_nil hgap
            obtain rfl : c = 32 := hblank c (by simp)
            exact List.dropWhile_cons_of_neg (by decide)
          · rw [bne_iff_ne]
            exact fun h => hword (h ▸ hc)
        rw [nextField, List.append_assoc, hgo,
          List.dropWhile_append_of_pos fun c hc => by rw [hblank c hc]; rfl]
        cases rest with
        | nil => rfl
        | cons c rest =>
          rw [List.dropWhile_cons_of_neg]
          intro hc
          exact hrest (by rw [List.head?_cons, eq_of_beq hc])
      rw [skipFields_succ, hnext]
      exact ih hout

theorem leadingTicks_of_beginsNumber {out : NimStr} {v : UInt64} (h : BeginsNumber out v) :
    leadingTicks out = v := by
  obtain ⟨digits, rest, rfl, _, hdigits, hrest, rfl⟩ := h
  rw [leadingTicks_eq, List.takeWhile_append_of_pos hdigits]
  have hnil : rest.takeWhile isDigit = [] := by
    cases rest with
    | nil => rfl
    | cons c rest => exact List.takeWhile_cons_of_neg (by rw [hrest c rfl]; decide)
  rw [hnil, List.append_nil]

theorem beginsNumber_of_leadingTicks {out : NimStr} (h : leadingTicks out ≠ 0) :
    BeginsNumber out (leadingTicks out) := by
  refine ⟨out.takeWhile isDigit, out.dropWhile isDigit, ?_, ?_, ?_, ?_, leadingTicks_eq out⟩
  · exact List.takeWhile_append_dropWhile.symm
  · intro hnil
    rw [leadingTicks_eq, hnil] at h
    exact h rfl
  · exact fun c hc => List.all_eq_true.mp List.all_takeWhile c hc
  · exact head?_dropWhile_ne out

theorem startTicksOf_close {t : List UInt8} (h : 41 ∉ t) (x : List UInt8) :
    startTicksOf (x ++ 41 :: t) = leadingTicks (skipFields 19 (t.drop 1)) := by
  rw [startTicksOf, parseProcStat_close h]
  cases t.drop 1 with
  | nil => rfl
  | cons c t => rfl

theorem startTicksOf_of_not_mem {t : List UInt8} (h : 41 ∉ t) : startTicksOf t = 0 := by
  rw [startTicksOf, parseProcStat, closeParen_of_not_mem h]

/-- The text behind the last closing parenthesis. -/
theorem exists_last_close {s : NimStr} (h : 41 ∈ s) :
    ∃ before t, s = before ++ 41 :: t ∧ 41 ∉ t := by
  induction s with
  | nil => exact absurd h List.not_mem_nil
  | cons c s ih =>
    by_cases hs : 41 ∈ s
    · obtain ⟨before, t, rfl, ht⟩ := ih hs
      exact ⟨c :: before, t, rfl, ht⟩
    · obtain rfl : 41 = c := (List.mem_cons.mp h).resolve_right hs
      exact ⟨[], s, rfl, hs⟩

/-- **A start time that is not zero is read out of exactly these texts.** -/
theorem startTicksOf_eq_iff {read : NimStr} {v : UInt64} (hv : v ≠ 0) :
    startTicksOf read = v ↔ ReadsAsStart read v := by
  constructor
  · rintro rfl
    by_cases hmem : 41 ∈ read
    · obtain ⟨before, t, rfl, ht⟩ := exists_last_close hmem
      rw [startTicksOf_close ht] at hv ⊢
      cases t with
      | nil => exact absurd rfl hv
      | cons sep text =>
        rw [List.drop_succ_cons, List.drop_zero] at hv ⊢
        have hout : skipFields 19 text ≠ [] := by
          intro hnil
          rw [hnil] at hv
          exact hv rfl
        exact ⟨before, sep, text, _, rfl, ht, (skipFields_eq_iff hout).mp rfl,
          beginsNumber_of_leadingTicks hv⟩
    · exact absurd (startTicksOf_of_not_mem hmem) hv
  · rintro ⟨before, sep, text, out, rfl, ht, hfields, hnumber⟩
    have hout : out ≠ [] := by
      obtain ⟨digits, rest, rfl, hne, _⟩ := hnumber
      exact List.append_ne_nil_of_left_ne_nil hne rest
    rw [startTicksOf_close ht, List.drop_succ_cons, List.drop_zero,
      (skipFields_eq_iff hout).mpr hfields, leadingTicks_of_beginsNumber hnumber]

/-! ## 7. Whole lines and cut ones -/

namespace StatLine

variable (p : StatLine)

/-- The read ended inside the name, and the part of it that was read goes on, behind its last
closing parenthesis, like a stat line with another start time. -/
def NameMimics (cut : Nat) : Prop :=
  cut ≤ p.head.length ∧ ∃ v, v ≠ 0 ∧ v ≠ p.startTicks ∧
    ReadsAsStart (p.name.take (cut - (decimal p.pid ++ str " (").length)) v

theorem words_length : p.words.length = 19 := by
  rw [words, List.length_cons, List.length_map, p.before_length]

end StatLine

theorem signedDecimal_spec (n : Int) :
    signedDecimal n ≠ [] ∧ ∀ c ∈ signedDecimal n, isDigit c = true ∨ c = 45 := by
  have hne : ∀ k, decimalDigits 20 k ≠ [] := by
    intro k
    unfold decimalDigits
    split <;> simp
  have hdigits := decimalDigits_isDigit 20 n.natAbs
  unfold signedDecimal
  split
  · refine ⟨List.append_ne_nil_of_right_ne_nil _ (hne _), ?_⟩
    intro c hc
    rcases List.mem_append.mp hc with hc | hc
    · exact Or.inr (List.mem_singleton.mp hc)
    · exact Or.inl (hdigits c hc)
  · exact ⟨hne _, fun c hc => Or.inl (hdigits c hc)⟩

theorem signedDecimal_not_mem {d : UInt8} (hd : isDigit d = false) (h45 : d ≠ 45) (n : Int) :
    d ∉ signedDecimal n := by
  intro hmem
  rcases (signedDecimal_spec n).2 d hmem with h | h
  · rw [hd] at h
    exact absurd h (by decide)
  · exact h45 h

namespace StatLine

variable (p : StatLine)

theorem words_spec : ∀ w ∈ p.words, 32 ∉ w ∧ w ≠ [] := by
  intro w hw
  rcases List.mem_cons.mp hw with rfl | hw
  · exact ⟨fun h => p.state_ne.1 (List.mem_singleton.mp h).symm, by simp⟩
  · obtain ⟨n, _, rfl⟩ := List.mem_map.mp hw
    exact ⟨signedDecimal_not_mem (by decide) (by decide) n, (signedDecimal_spec n).1⟩

theorem rest_head : ∀ c ∈ p.rest.head?, isDigit c = false := by
  intro c hc
  rw [rest] at hc
  cases hafter : p.after with
  | nil =>
    rw [hafter] at hc
    obtain rfl : 10 = c := Option.some.inj hc
    decide
  | cons n ns =>
    rw [hafter] at hc
    obtain rfl : 32 = c := Option.some.inj hc
    decide

theorem decimal_head (n : UInt64) (s : NimStr) : (decimal n ++ s).head? ≠ some 32 := by
  have hne : decimal n ≠ [] := by
    unfold decimal decimalDigits
    split <;> simp
  obtain ⟨c, t, hct⟩ := List.exists_cons_of_ne_nil hne
  rw [hct]
  intro h
  refine decimal_not_mem (c := 32) (by decide) n ?_
  rw [hct, ← Option.some.inj h]
  exact List.mem_cons_self

/-- There is no parenthesis behind the name's. -/
theorem not_mem_fields : 41 ∉ p.fields := by
  have hthen : ∀ (ws : List NimStr) (tail : NimStr), (∀ w ∈ ws, 41 ∉ w) → 41 ∉ tail →
      41 ∉ wordsThen ws tail := by
    intro ws tail hws htail
    induction ws with
    | nil => exact htail
    | cons w ws ih =>
      rw [wordsThen, List.mem_append, List.mem_cons, not_or, not_or]
      exact ⟨hws w (by simp), by decide, ih fun v hv => hws v (by simp [hv])⟩
  apply hthen
  · intro w hw
    rcases List.mem_cons.mp hw with rfl | hw
    · exact fun h => p.state_ne.2 (List.mem_singleton.mp h).symm
    · obtain ⟨n, _, rfl⟩ := List.mem_map.mp hw
      exact signedDecimal_not_mem (by decide) (by decide) n
  · rw [List.mem_append, not_or]
    refine ⟨decimal_not_mem (by decide) _, ?_⟩
    rw [rest, List.mem_append, not_or]
    refine ⟨?_, by decide⟩
    rw [List.mem_flatMap]
    rintro ⟨n, _, hn⟩
    rcases List.mem_cons.mp hn with h | h
    · exact absurd h (by decide)
    · exact signedDecimal_not_mem (by decide) (by decide) n h

/-- **A cut behind the name**: the digits of the start time that were read. -/
theorem startTicksOf_take_behind {cut : Nat} (h : p.head.length < cut) :
    startTicksOf (p.text.take cut) =
      UInt64.ofNat (digitsValue ((decimal p.startTicks).take (cut - p.startAt))) := by
  obtain ⟨j, rfl⟩ := Nat.exists_eq_add_of_lt h
  have htake : p.text.take (p.head.length + j + 1) = p.head ++ 41 :: (32 :: p.fields).take j := by
    rw [text, Nat.add_assoc, List.take_length_add_append, List.take_succ_cons]
  have hnot : 41 ∉ (32 :: p.fields).take j := by
    intro hmem
    rcases List.mem_cons.mp (List.mem_of_mem_take hmem) with h | h
    · exact absurd h (by decide)
    · exact p.not_mem_fields h
  have hdrop : ((32 :: p.fields).take j).drop 1 = p.fields.take (j - 1) := by
    rw [List.drop_take, List.drop_succ_cons, List.drop_zero]
  rw [htake, startTicksOf_close hnot, hdrop, fields, ← p.words_length,
    skipFields_take p.words_spec (decimal_head _ _), leadingTicks_take _ p.rest_head]
  have hread : j - 1 - wordsLength p.words = p.head.length + j + 1 - p.startAt := by
    unfold startAt
    omega
  rw [hread]

/-- **A cut inside the name**: what is read out of the part of it that is there. -/
theorem startTicksOf_take_inside {cut : Nat} (h : cut ≤ p.head.length) :
    startTicksOf (p.text.take cut) =
      startTicksOf (p.name.take (cut - (decimal p.pid ++ str " (").length)) := by
  have htake : p.text.take cut = (decimal p.pid ++ str " (").take cut ++
      p.name.take (cut - (decimal p.pid ++ str " (").length) := by
    rw [text, List.take_append_of_le_length h, head, List.take_append]
  have hnot : 41 ∉ (decimal p.pid ++ str " (").take cut := by
    intro hmem
    rcases List.mem_append.mp (List.mem_of_mem_take hmem) with h | h
    · exact decimal_not_mem (by decide) _ h
    · exact absurd h (by decide)
  rw [htake, startTicksOf, startTicksOf, parseProcStat_append hnot]

/-- **A whole line is read exactly**, whatever the name. -/
theorem parseProcStat_text : parseProcStat p.text = some ⟨p.state, p.startTicks⟩ := by
  have hnot : 41 ∉ 32 :: p.fields := by
    rw [List.mem_cons, not_or]
    exact ⟨by decide, p.not_mem_fields⟩
  have hfields : leadingTicks (skipFields 19 p.fields) = p.startTicks := by
    have hskip := skipFields_take p.words_spec (decimal_head p.startTicks p.rest)
      p.fields.length
    have hall : (wordsThen p.words (decimal p.startTicks ++ p.rest)).take p.fields.length =
        p.fields := List.take_length
    rw [hall, p.words_length] at hskip
    rw [hskip, leadingTicks_take _ p.rest_head, List.take_of_length_le]
    · rw [decimal, digitsValue_decimalDigits 20 _ (Nat.lt_trans p.startTicks.toNat_lt (by decide)),
        UInt64.ofNat_toNat]
    · rw [fields, wordsThen_length, List.length_append]
      omega
  rw [text, parseProcStat_close hnot, List.drop_succ_cons, List.drop_zero]
  obtain ⟨t, ht⟩ : ∃ t, p.fields = p.state :: t := ⟨_, rfl⟩
  rw [ht] at hfields ⊢
  simp only [hfields]

/-- **What a cut line is read as**: on every cut, zero or the true start time, exactly unless the
cut is between two digits of the start time or the name mimics a line. -/
theorem parseProcStat_cut_iff (cut : Nat) :
    parseProcStat p.text = some ⟨p.state, p.startTicks⟩ ∧
      ((startTicksOf (p.text.take cut) = 0 ∨ startTicksOf (p.text.take cut) = p.startTicks) ↔
        ¬ p.CutsStart cut ∧ ¬ p.NameMimics cut) := by
  refine ⟨p.parseProcStat_text, ?_⟩
  rcases Nat.lt_or_ge p.head.length cut with hcut | hcut
  · have hnone : ¬ p.NameMimics cut := fun h => absurd h.1 (by omega)
    rw [p.startTicksOf_take_behind hcut]
    have hwhole : digitsValue (decimal p.startTicks) = p.startTicks.toNat :=
      digitsValue_decimalDigits 20 _ (Nat.lt_trans p.startTicks.toNat_lt (by decide))
    rcases Nat.lt_or_ge p.startAt cut with hstart | hstart
    · rcases Nat.lt_or_ge cut (p.startAt + (decimal p.startTicks).length) with hend | hend
      · -- between two digits
        obtain ⟨hne, hlt⟩ := @digitsValue_take_ne p.startTicks (cut - p.startAt) (by omega)
          (by omega)
        have hsmall := Nat.lt_trans hlt p.startTicks.toNat_lt
        refine iff_of_false ?_ (fun h => h.1 ⟨hstart, hend⟩)
        rintro (h | h)
        · have hnat := congrArg UInt64.toNat h
          rw [UInt64.toNat_ofNat', Nat.mod_eq_of_lt hsmall] at hnat
          exact hne hnat
        · have hnat := congrArg UInt64.toNat h
          rw [UInt64.toNat_ofNat', Nat.mod_eq_of_lt hsmall] at hnat
          omega
      · -- behind the last digit
        refine iff_of_true (Or.inr ?_) ⟨fun h => absurd h.2 (by omega), hnone⟩
        rw [List.take_of_length_le (by omega), hwhole, UInt64.ofNat_toNat]
    · -- before the first digit
      refine iff_of_true (Or.inl ?_) ⟨fun h => absurd h.1 (by omega), hnone⟩
      rw [Nat.sub_eq_zero_of_le hstart, List.take_zero]
      rfl
  · have hnone : ¬ p.CutsStart cut := by
      rintro ⟨hstart, _⟩
      unfold startAt at hstart
      omega
    rw [p.startTicksOf_take_inside hcut]
    constructor
    · rintro h
      refine ⟨hnone, ?_⟩
      rintro ⟨_, v, hv, hne, hread⟩
      rw [(startTicksOf_eq_iff hv).mpr hread] at h
      exact h.elim hv hne
    · rintro ⟨_, hmimic⟩
      by_contra h
      rw [not_or] at h
      exact hmimic ⟨hcut, _, h.1, h.2, (startTicksOf_eq_iff h.1).mp rfl⟩

end StatLine

/-- The stat line of a shell started at tick 123456. -/
def shellLine : StatLine where
  pid := 4242
  name := str "sh"
  state := 83
  state_ne := by decide
  before := [1, 4242, 4242, 0, -1, 4194560, 120, 0, 0, 0, 1, 2, 0, 0, 20, 0, 1, 0]
  before_length := rfl
  startTicks := 123456
  after := [2600960, 400]

/-- A name that goes on like a stat line: a parenthesis, and nineteen fields before a number. -/
def mimicLine : StatLine := { shellLine with
  name := str "x) S 1 1 1 1 1 1 1 1 1 1 1 1 1 1 1 1 1 1 99 " }

/-- **Two short reads with a wrong start time**: one ends behind the second digit of the start
time, the other in the name. -/
theorem parseProcStat_cut_wrong :
    startTicksOf (shellLine.text.take 66) = 12 ∧ shellLine.startTicks = 123456 ∧
      startTicksOf (mimicLine.text.take 50) = 99 ∧ mimicLine.startTicks = 123456 := by
  decide +kernel

end IoMon
