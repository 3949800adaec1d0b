/-
# Byte strings, the way Nim's `strutils` cuts them

A Nim `string` is a sequence of bytes with no encoding promise, so here it is a `List UInt8`.
The operations below are the ones a line-and-token text format needs: literals, prefix and
suffix tests, splitting at a byte, at white space and at line ends, decimal rendering and
parsing, and the byte-wise order that `sort` uses.

The lemmas say how the cutting operations behave under appending, since text formats are grown
by appending fields, and that decimal rendering loses nothing.
-/
import Mathlib.Data.List.Basic
import Mathlib.Tactic.Ring

namespace ByteText

/-! ## 1. Strings and literals -/

/-- A byte string. -/
abbrev NimStr := List UInt8

instance : LawfulBEq NimStr := inferInstanceAs (LawfulBEq (List UInt8))

/-- A string literal, as the UTF-8 bytes the compiler stores. -/
def str (s : String) : NimStr := s.toList.flatMap String.utf8EncodeChar

theorem str_length (s : String) : (str s).length = s.utf8ByteSize := by
  rw [← String.size_toByteArray, ← String.utf8Encode_toList, List.utf8Encode]
  simp [str, ByteArray.size]

/-- `parts.join(sep)`. -/
def joinStr (sep : NimStr) : List NimStr → NimStr
  | [] => []
  | [p] => p
  | p :: q :: rest => p ++ sep ++ joinStr sep (q :: rest)

def startsWith (s needle : NimStr) : Bool := needle.isPrefixOf s

def endsWith (s needle : NimStr) : Bool := needle.isSuffixOf s

theorem startsWith_append (needle rest : NimStr) : startsWith (needle ++ rest) needle = true := by
  simp [startsWith]

theorem eq_append_drop {s needle : NimStr} (h : startsWith s needle = true) :
    s = needle ++ s.drop needle.length := by
  obtain ⟨rest, rfl⟩ := List.isPrefixOf_iff_prefix.mp h
  simp

/-- The byte-wise order of strings. -/
def leStr : NimStr → NimStr → Bool
  | [], _ => true
  | _ :: _, [] => false
  | a :: s, b :: t => if a < b then true else if b < a then false else leStr s t

/-! ## 2. Splitting at a byte -/

/-- Put a byte in front of the first part. -/
def consHead (c : UInt8) : List NimStr → List NimStr
  | [] => [[c]]
  | p :: ps => (c :: p) :: ps

/-- `s.split(sep)`: the parts between the separators, always at least one. -/
def splitAt (sep : UInt8) : NimStr → List NimStr
  | [] => [[]]
  | c :: t => if c = sep then [] :: splitAt sep t else consHead c (splitAt sep t)

/-- `s.split(sep, 1)` when it has two parts: what stands before and after the first separator. -/
def splitFirst (sep : UInt8) : NimStr → Option (NimStr × NimStr)
  | [] => none
  | c :: t =>
    if c = sep then some ([], t)
    else (splitFirst sep t).map fun p => (c :: p.1, p.2)

theorem splitAt_ne_nil (sep : UInt8) (s : NimStr) : splitAt sep s ≠ [] := by
  cases s with
  | nil => simp [splitAt]
  | cons c t =>
    unfold splitAt
    split
    · simp
    · cases splitAt sep t <;> simp [consHead]

theorem consHead_append (c : UInt8) {ps qs : List NimStr} (h : ps ≠ []) :
    consHead c (ps ++ qs) = consHead c ps ++ qs := by
  cases ps with
  | nil => exact absurd rfl h
  | cons p ps => rfl

/-- **A separator is a cut**: the parts of `s`, then the parts of `t`. -/
theorem splitAt_append_sep (sep : UInt8) (t s : NimStr) :
    splitAt sep (s ++ sep :: t) = splitAt sep s ++ splitAt sep t := by
  induction s with
  | nil => simp [splitAt]
  | cons c s ih =>
    simp only [List.cons_append, splitAt]
    split
    · rw [ih, List.cons_append]
    · rw [ih, consHead_append c (splitAt_ne_nil sep s)]

/-- A string without the separator is its own only part. -/
theorem splitAt_of_not_mem (sep : UInt8) (s : NimStr) (h : sep ∉ s) : splitAt sep s = [s] := by
  induction s with
  | nil => rfl
  | cons c s ih =>
    have hc : c ≠ sep := fun e => h (e ▸ List.mem_cons_self ..)
    have hs : sep ∉ s := fun e => h (List.mem_cons_of_mem _ e)
    rw [splitAt, if_neg hc, ih hs, consHead]

/-- The first separator is found behind a prefix that has none. -/
theorem splitFirst_append (sep : UInt8) (v k : NimStr) (h : sep ∉ k) :
    splitFirst sep (k ++ sep :: v) = some (k, v) := by
  induction k with
  | nil => simp [splitFirst]
  | cons c k ih =>
    have hc : c ≠ sep := fun e => h (e ▸ List.mem_cons_self ..)
    have hk : sep ∉ k := fun e => h (List.mem_cons_of_mem _ e)
    rw [List.cons_append, splitFirst, if_neg hc, ih hk]
    rfl

/-- No part of a split holds the separator. -/
theorem not_mem_of_mem_splitAt {sep : UInt8} {s part : NimStr} (h : part ∈ splitAt sep s) :
    sep ∉ part := by
  induction s generalizing part with
  | nil =>
    rw [splitAt, List.mem_singleton] at h
    exact h ▸ List.not_mem_nil
  | cons c s ih =>
    rw [splitAt] at h
    split at h
    · rcases List.mem_cons.mp h with rfl | h
      · exact List.not_mem_nil
      · exact ih h
    · rename_i hc
      cases hs : splitAt sep s with
      | nil => exact absurd hs (splitAt_ne_nil sep s)
      | cons p ps =>
        rw [hs, consHead] at h
        rw [hs] at ih
        rcases List.mem_cons.mp h with rfl | h
        · have hp := ih (List.mem_cons_self ..)
          rw [List.mem_cons, not_or]
          exact ⟨fun e => hc e.symm, hp⟩
        · exact ih (List.mem_cons_of_mem _ h)

/-- What stands behind the first separator is part of the string. -/
theorem mem_of_splitFirst {sep c : UInt8} {s k v : NimStr} (h : splitFirst sep s = some (k, v))
    (hc : c ∈ v) : c ∈ s := by
  induction s generalizing k with
  | nil => exact absurd h (by simp [splitFirst])
  | cons d s ih =>
    rw [splitFirst] at h
    split at h
    · obtain ⟨-, rfl⟩ := Prod.mk.inj (Option.some.inj h)
      exact List.mem_cons_of_mem _ hc
    · obtain ⟨p, hp, hpair⟩ := Option.map_eq_some_iff.mp h
      obtain ⟨-, rfl⟩ := Prod.mk.inj hpair
      exact List.mem_cons_of_mem _ (ih (k := p.1) hp)

theorem not_mem_joinStr {c : UInt8} {sep : NimStr} (hsep : c ∉ sep) :
    ∀ ps : List NimStr, (∀ p ∈ ps, c ∉ p) → c ∉ joinStr sep ps
  | [], _ => by simp [joinStr]
  | [p], h => by simpa [joinStr] using h p (by simp)
  | p :: q :: rest, h => by
    have hp : c ∉ p := h p (by simp)
    have hrest := not_mem_joinStr hsep (q :: rest) fun x hx => h x (List.mem_cons_of_mem _ hx)
    simp only [joinStr, List.mem_append, not_or]
    exact ⟨⟨hp, hsep⟩, hrest⟩

/-- **Joined parts come apart again**, if there is one and none holds the separator. -/
theorem splitAt_joinStr {sep : UInt8} :
    ∀ ps : List NimStr, ps ≠ [] → (∀ p ∈ ps, sep ∉ p) → splitAt sep (joinStr [sep] ps) = ps
  | [], h, _ => absurd rfl h
  | [p], _, hp => splitAt_of_not_mem sep p (hp p (List.mem_cons_self ..))
  | p :: q :: rest, _, hp => by
    have hfirst := splitAt_of_not_mem sep p (hp p (List.mem_cons_self ..))
    have hrest := splitAt_joinStr (q :: rest) (List.cons_ne_nil _ _) fun x hx =>
      hp x (List.mem_cons_of_mem _ hx)
    rw [joinStr, List.append_assoc, List.singleton_append, splitAt_append_sep, hfirst, hrest,
      List.singleton_append]

/-! ## 3. White space -/

/-- `strutils.Whitespace`: blank, tab, line feed, carriage return, vertical tab, form feed. -/
def isSpace (c : UInt8) : Bool :=
  c == 32 || c == 9 || c == 10 || c == 13 || c == 11 || c == 12

/-- `s.strip()`. -/
def strip (s : NimStr) : NimStr :=
  ((s.dropWhile isSpace).reverse.dropWhile isSpace).reverse

/-- The maximal runs of non-space bytes, with `cur` the run being read. -/
def tokensFrom : NimStr → NimStr → List NimStr
  | cur, [] => if cur.isEmpty then [] else [cur]
  | cur, c :: t =>
    if isSpace c then (if cur.isEmpty then tokensFrom [] t else cur :: tokensFrom [] t)
    else tokensFrom (cur ++ [c]) t

/-- `s.splitWhitespace()`. -/
def tokens (s : NimStr) : List NimStr := tokensFrom [] s

/-- White space separates tokens. -/
theorem tokensFrom_append_space (sp : UInt8) (hsp : isSpace sp = true) (t s cur : NimStr) :
    tokensFrom cur (s ++ sp :: t) = tokensFrom cur s ++ tokensFrom [] t := by
  induction s generalizing cur with
  | nil =>
    simp only [List.nil_append, tokensFrom, hsp, if_true]
    split <;> simp
  | cons c s ih =>
    simp only [List.cons_append, tokensFrom]
    split
    · split
      · exact ih []
      · rw [ih [], List.cons_append]
    · exact ih _

theorem tokens_append_space {sp : UInt8} (hsp : isSpace sp = true) (s t : NimStr) :
    tokens (s ++ sp :: t) = tokens s ++ tokens t := tokensFrom_append_space sp hsp t s []

/-- A run without white space is one token. -/
theorem tokensFrom_of_noSpace (s cur : NimStr) (h : ∀ c ∈ s, isSpace c = false)
    (hne : cur ++ s ≠ []) : tokensFrom cur s = [cur ++ s] := by
  induction s generalizing cur with
  | nil =>
    have : cur.isEmpty = false := by
      cases cur with
      | nil => exact absurd rfl hne
      | cons a l => rfl
    simp only [tokensFrom, this, Bool.false_eq_true, if_false, List.append_nil]
  | cons c s ih =>
    have hc : isSpace c = false := h c (List.mem_cons_self ..)
    simp only [tokensFrom, hc, Bool.false_eq_true, if_false]
    rw [ih (cur ++ [c]) (fun d hd => h d (List.mem_cons_of_mem _ hd)) (by simp),
      List.append_assoc, List.singleton_append]

theorem tokens_of_noSpace {s : NimStr} (h : ∀ c ∈ s, isSpace c = false) (hne : s ≠ []) :
    tokens s = [s] := tokensFrom_of_noSpace s [] h hne

/-! ## 4. Lines -/

/-- `s.splitLines()`: a line ends at `\n`, `\r` or `\r\n`; `afterCr` remembers a `\r` just read. -/
def splitLinesFrom : Bool → NimStr → List NimStr
  | _, [] => [[]]
  | afterCr, c :: t =>
    if c = 10 then (if afterCr then splitLinesFrom false t else [] :: splitLinesFrom false t)
    else if c = 13 then [] :: splitLinesFrom true t
    else consHead c (splitLinesFrom false t)

def splitLines (s : NimStr) : List NimStr := splitLinesFrom false s

/-! ## 5. Decimal numbers -/

/-- The decimal digits of `n`, at most `fuel` of them. -/
def decimalDigits : Nat → Nat → NimStr
  | 0, _ => []
  | fuel + 1, n =>
    if n < 10 then [UInt8.ofNat (48 + n)]
    else decimalDigits fuel (n / 10) ++ [UInt8.ofNat (48 + n % 10)]

/-- `$n` for a 64-bit number: twenty digits hold every one. -/
def decimal (n : UInt64) : NimStr := decimalDigits 20 n.toNat

/-- `$n` for a signed 64-bit number. -/
def signedDecimal (n : Int) : NimStr :=
  if n < 0 then str "-" ++ decimalDigits 20 n.natAbs else decimalDigits 20 n.natAbs

def isDigit (c : UInt8) : Bool := 48 ≤ c && c ≤ 57

/-- The value of a digit string. -/
def digitsValue (s : NimStr) : Nat := s.foldl (fun acc c => 10 * acc + (c.toNat - 48)) 0

theorem digit_toNat {d : Nat} (h : d < 10) : (UInt8.ofNat (48 + d)).toNat = 48 + d := by
  rw [UInt8.toNat_ofNat']
  omega

theorem decimalDigits_isDigit (fuel n : Nat) : ∀ c ∈ decimalDigits fuel n, isDigit c = true := by
  induction fuel generalizing n with
  | zero => simp [decimalDigits]
  | succ fuel ih =>
    intro c hc
    have hdigit : ∀ d < 10, isDigit (UInt8.ofNat (48 + d)) = true := by decide
    unfold decimalDigits at hc
    split at hc
    · rename_i hn
      rw [List.mem_singleton] at hc
      exact hc ▸ hdigit n hn
    · rcases List.mem_append.mp hc with hc | hc
      · exact ih (n / 10) c hc
      · rw [List.mem_singleton] at hc
        exact hc ▸ hdigit (n % 10) (Nat.mod_lt _ (by omega))

theorem digitsValue_decimalDigits (fuel n : Nat) (h : n < 10 ^ fuel) :
    digitsValue (decimalDigits fuel n) = n := by
  induction fuel generalizing n with
  | zero =>
    have : n = 0 := by simpa using h
    subst this
    rfl
  | succ fuel ih =>
    unfold decimalDigits
    split
    · rename_i hn
      simp only [digitsValue, List.foldl_cons, List.foldl_nil, digit_toNat hn]
      omega
    · have hrest : n / 10 < 10 ^ fuel := by
        rw [pow_succ'] at h; exact Nat.div_lt_of_lt_mul h
      have ih := ih (n / 10) hrest
      unfold digitsValue at ih ⊢
      rw [List.foldl_append, ih]
      simp only [List.foldl_cons, List.foldl_nil, digit_toNat (Nat.mod_lt n (by omega : 10 > 0))]
      omega

/-- **Rendering is injective.** -/
theorem decimal_injective {m n : UInt64} (h : decimal m = decimal n) : m = n := by
  have hm : m.toNat < 10 ^ 20 := Nat.lt_trans m.toNat_lt (by decide)
  have hn : n.toNat < 10 ^ 20 := Nat.lt_trans n.toNat_lt (by decide)
  have hv := congrArg digitsValue h
  rw [decimal, decimal, digitsValue_decimalDigits _ _ hm, digitsValue_decimalDigits _ _ hn] at hv
  exact UInt64.toNat_inj.mp hv

/-- A byte that is no digit does not occur in a rendering, so it can separate two of them. -/
theorem decimal_not_mem {c : UInt8} (h : isDigit c = false) (n : UInt64) : c ∉ decimal n := by
  intro hc
  rw [decimalDigits_isDigit 20 n.toNat c hc] at h
  exact absurd h (by simp)

/-- The digit loop of `parseBiggestUInt`: 64-bit arithmetic that wraps, with the library's
overflow test `prev > res`; underscores after a digit are skipped.  `none` is the overflow error,
otherwise the value and the rest of the input. -/
def parseDigits (res : UInt64) : NimStr → Option (UInt64 × NimStr)
  | [] => some (res, [])
  | c :: t =>
    if isDigit c then
      let next := res * 10 + (c.toUInt64 - 48)
      if next < res then none else parseDigits next t
    else if c == 95 then parseDigits res t
    else some (res, c :: t)

/-- `parseBiggestUInt(s)`: an optional `+`, then digits up to the end of the string. -/
def parseBiggestUInt (s : NimStr) : Option UInt64 :=
  let body := match s with
    | 43 :: t => t
    | _ => s
  match body with
  | [] => none
  | c :: _ =>
    if isDigit c then
      match parseDigits 0 body with
      | some (v, []) => some v
      | _ => none
    else none

end ByteText
