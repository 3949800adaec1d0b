/-
# JSON trees and their compact text

A tree of the JSON values a document of records is made of, and the text a compact printer gives
it: no white space, fields in the order they were added, strings escaped byte by byte.

The text determines the tree.  Nothing is parsed for this: the escapes of the bytes and the
closing quote are a prefix-free code, a number ends where no digit follows, and what follows a
value inside a document is always a comma or a closing bracket (`Closed`), so two equal texts
open the same value and go on with the same rest (`toUgly_append_injective`).
-/
import Mathlib.Tactic.Ring
import IoMon.Lib.Strings

namespace JsonText

open ByteText

/-! ## 1. Prefix-free codes -/

section PrefixFree

variable {α β : Type}

/-- No code word is the beginning of another one. -/
def PrefixFree (code : α → List β) : Prop := ∀ a b, code a <+: code b → a = b

/-- The first word of a text in a prefix-free code is the only one it can begin with. -/
theorem PrefixFree.head {code : α → List β} (h : PrefixFree code) {a b : α} {x y : List β}
    (hxy : code a ++ x = code b ++ y) : a = b ∧ x = y := by
  have ha : code a <+: code b ++ y := ⟨x, hxy⟩
  have hb : code b <+: code b ++ y := ⟨y, rfl⟩
  have hab : a = b := by
    rcases List.prefix_or_prefix_of_prefix ha hb with hp | hp
    · exact h a b hp
    · exact (h b a hp).symm
  subst hab
  exact ⟨rfl, List.append_cancel_left hxy⟩

/-- **A text with an end mark.**  Where the words and the end mark together are prefix-free, the
marked text determines what was written and what comes after it. -/
theorem PrefixFree.marked {code : Option α → List β} (h : PrefixFree code) (s t : List α)
    {x y : List β}
    (hxy : (s.flatMap fun a => code (some a)) ++ (code none ++ x) =
      (t.flatMap fun a => code (some a)) ++ (code none ++ y)) : s = t ∧ x = y := by
  induction s generalizing t with
  | nil =>
    cases t with
    | nil => exact ⟨rfl, (h.head hxy).2⟩
    | cons b t =>
      rw [List.flatMap_cons, List.append_assoc] at hxy
      exact absurd (h.head hxy).1 (by simp)
  | cons a s ih =>
    cases t with
    | nil =>
      rw [List.flatMap_cons, List.append_assoc] at hxy
      exact absurd (h.head hxy).1 (by simp)
    | cons b t =>
      rw [List.flatMap_cons, List.flatMap_cons, List.append_assoc, List.append_assoc] at hxy
      obtain ⟨hab, hrest⟩ := h.head hxy
      obtain ⟨hst, hxy⟩ := ih t hrest
      exact ⟨by rw [Option.some.inj hab, hst], hxy⟩

end PrefixFree

/-! ## 2. Escapes -/

def upperHexDigit (n : UInt8) : UInt8 := if n < 10 then 48 + n else 55 + n

/-- One byte of a string: the control characters, the quote and the backslash are escaped, every
other byte is copied. -/
def escapeByte (c : UInt8) : NimStr :=
  if c = 10 then str "\\n"
  else if c = 8 then str "\\b"
  else if c = 12 then str "\\f"
  else if c = 9 then str "\\t"
  else if c = 11 then str "\\u000b"
  else if c = 13 then str "\\r"
  else if c = 34 then str "\\\""
  else if c ≤ 7 then str "\\u000" ++ [48 + c]
  else if 14 ≤ c ∧ c ≤ 31 then str "\\u00" ++ [upperHexDigit (c / 16), upperHexDigit (c % 16)]
  else if c = 92 then str "\\\\"
  else [c]

/-- The code of a string body: the escapes, and the quote that ends it. -/
def stringCode : Option UInt8 → NimStr
  | some c => escapeByte c
  | none => [34]

/-- `escapeJson`: the escaped string between quotes. -/
def escapeJson (s : NimStr) : NimStr := 34 :: (s.flatMap escapeByte ++ [34])

/-- The bytes that are escaped. -/
def escapedBytes : List UInt8 := (List.range 32).map UInt8.ofNat ++ [34, 92]

theorem escapeByte_of_not_mem {c : UInt8} (h : c ∉ escapedBytes) : escapeByte c = [c] := by
  have hge : ¬ c.toNat < 32 := by
    intro hlt
    refine h (List.mem_append_left _ (List.mem_map.mpr ⟨c.toNat, List.mem_range.mpr hlt, ?_⟩))
    exact UInt8.ofNat_toNat
  have h34 : c ≠ 34 := fun hc => h (by rw [hc]; decide)
  have h92 : c ≠ 92 := fun hc => h (by rw [hc]; decide)
  have hne : ∀ d : UInt8, d.toNat < 32 → c ≠ d := by
    rintro d hd rfl
    exact hge hd
  have hle : ∀ d : UInt8, d.toNat < 32 → ¬ c ≤ d := by
    intro d hd hc
    rw [UInt8.le_iff_toNat_le] at hc
    exact hge (Nat.lt_of_le_of_lt hc hd)
  unfold escapeByte
  rw [if_neg (hne 10 (by decide)), if_neg (hne 8 (by decide)), if_neg (hne 12 (by decide)),
    if_neg (hne 9 (by decide)), if_neg (hne 11 (by decide)), if_neg (hne 13 (by decide)),
    if_neg h34, if_neg (hle 7 (by decide)), if_neg (fun hc => hle 31 (by decide) hc.2),
    if_neg h92]

/-- The escapes among themselves. -/
theorem escapedBytes_code :
    (∀ c ∈ escapedBytes, (escapeByte c).head? = some 92) ∧
      ∀ c ∈ escapedBytes, ∀ d ∈ escapedBytes, escapeByte c <+: escapeByte d → c = d := by
  decide +kernel

/-- A byte that is copied begins with itself, and that is neither a backslash nor a quote. -/
theorem head_escapeByte (c : UInt8) :
    (escapeByte c).head? = some 92 ∧ c ∈ escapedBytes ∨
      escapeByte c = [c] ∧ c ≠ 92 ∧ c ≠ 34 := by
  by_cases hc : c ∈ escapedBytes
  · exact Or.inl ⟨escapedBytes_code.1 c hc, hc⟩
  · refine Or.inr ⟨escapeByte_of_not_mem hc, ?_, ?_⟩
    · exact fun h => hc (by rw [h]; decide)
    · exact fun h => hc (by rw [h]; decide)

theorem head?_eq_of_prefix {β : Type} {a b : List β} {x : β} (h : a <+: b)
    (ha : a.head? = some x) : b.head? = some x := by
  obtain ⟨t, rfl⟩ := h
  cases a with
  | nil => exact absurd ha (by simp)
  | cons y a => exact ha

/-- **The escapes and the closing quote are prefix-free.** -/
theorem stringCode_prefixFree : PrefixFree stringCode := by
  intro a b hab
  cases a with
  | none =>
    cases b with
    | none => rfl
    | some d =>
      have hd : (escapeByte d).head? = some 34 := head?_eq_of_prefix hab rfl
      rcases head_escapeByte d with ⟨h92, _⟩ | ⟨hcopy, _, h34⟩
      · rw [h92] at hd
        exact absurd hd (by decide)
      · rw [hcopy] at hd
        exact absurd (Option.some.inj hd) h34
  | some c =>
    rcases head_escapeByte c with ⟨hc, hcm⟩ | ⟨hcopy, hc92, hc34⟩
    · have hb : (stringCode b).head? = some 92 := head?_eq_of_prefix hab hc
      cases b with
      | none => exact absurd hb (by decide)
      | some d =>
        rcases head_escapeByte d with ⟨_, hdm⟩ | ⟨hcopyd, hd92, _⟩
        · exact congrArg some (escapedBytes_code.2 c hcm d hdm hab)
        · rw [stringCode, hcopyd] at hb
          exact absurd (Option.some.inj hb) hd92
    · have hb : (stringCode b).head? = some c :=
        head?_eq_of_prefix hab (by rw [stringCode, hcopy]; rfl)
      cases b with
      | none => exact absurd (Option.some.inj hb).symm hc34
      | some d =>
        rcases head_escapeByte d with ⟨hd, _⟩ | ⟨hcopyd, _, _⟩
        · rw [stringCode, hd] at hb
          exact absurd (Option.some.inj hb).symm hc92
        · rw [stringCode, hcopyd] at hb
          exact congrArg some (Option.some.inj hb).symm

theorem escapeJson_append_injective {s t x y : NimStr}
    (h : escapeJson s ++ x = escapeJson t ++ y) : s = t ∧ x = y := by
  simp only [escapeJson, List.cons_append, List.append_assoc, List.nil_append, List.cons.injEq,
    true_and] at h
  exact stringCode_prefixFree.marked s t h

/-! ## 3. Numbers -/

/-- What can follow a value inside a document. -/
def Closed (rest : NimStr) : Prop := ∀ c ∈ rest.head?, c = 44 ∨ c = 93 ∨ c = 125

theorem closed_nil : Closed [] := by simp [Closed]

theorem closed_cons {c : UInt8} (h : c = 44 ∨ c = 93 ∨ c = 125) (rest : NimStr) :
    Closed (c :: rest) := by
  intro d hd
  obtain rfl : c = d := Option.some.inj hd
  exact h

/-- The bytes of a decimal number. -/
def isNumeral (c : UInt8) : Bool := isDigit c || c == 45

theorem signedDecimal_isNumeral (n : Int) : ∀ c ∈ signedDecimal n, isNumeral c = true := by
  have hdigits : ∀ c ∈ decimalDigits 20 n.natAbs, isNumeral c = true := by
    intro c hc
    rw [isNumeral, decimalDigits_isDigit 20 _ c hc, Bool.true_or]
  intro c hc
  unfold signedDecimal at hc
  split at hc
  · rcases List.mem_append.mp hc with hc | hc
    · obtain rfl : c = 45 := List.mem_singleton.mp hc
      decide
    · exact hdigits c hc
  · exact hdigits c hc

/-- A number is the longest run of number bytes, whatever closes it. -/
theorem takeWhile_signedDecimal (n : Int) {rest : NimStr} (h : Closed rest) :
    (signedDecimal n ++ rest).takeWhile isNumeral = signedDecimal n := by
  rw [List.takeWhile_append_of_pos (signedDecimal_isNumeral n)]
  cases rest with
  | nil => rw [List.takeWhile_nil, List.append_nil]
  | cons c rest =>
    have hc : isNumeral c = false := by
      rcases h c rfl with rfl | rfl | rfl <;> decide
    rw [List.takeWhile_cons_of_neg (by rw [hc]; decide), List.append_nil]

theorem decimalDigits_injective {m n : Nat} (hm : m < 10 ^ 20) (hn : n < 10 ^ 20)
    (h : decimalDigits 20 m = decimalDigits 20 n) : m = n := by
  have hv := congrArg digitsValue h
  rwa [digitsValue_decimalDigits 20 m hm, digitsValue_decimalDigits 20 n hn] at hv

theorem natAbs_toInt_lt (n : Int64) : n.toInt.natAbs < 10 ^ 20 := by
  have hlo := n.le_toInt
  have hhi := n.toInt_lt
  omega

theorem signedDecimal_injective {m n : Int64}
    (h : signedDecimal m.toInt = signedDecimal n.toInt) : m = n := by
  have hm := natAbs_toInt_lt m
  have hn := natAbs_toInt_lt n
  have hminus : ∀ k l : Nat, str "-" ++ decimalDigits 20 k ≠ decimalDigits 20 l := by
    intro k l hkl
    have h45 : (45 : UInt8) ∈ decimalDigits 20 l := by
      rw [← hkl]
      exact List.mem_append_left _ (by decide)
    exact absurd (decimalDigits_isDigit 20 l 45 h45) (by decide)
  apply Int64.toInt_inj.mp
  unfold signedDecimal at h
  split at h <;> split at h
  · have habs := decimalDigits_injective hm hn (List.append_cancel_left h)
    omega
  · exact absurd h (hminus _ _)
  · exact absurd h.symm (hminus _ _)
  · have habs := decimalDigits_injective hm hn h
    omega

theorem signedDecimal_append_injective {m n : Int64} {x y : NimStr} (hx : Closed x)
    (hy : Closed y) (h : signedDecimal m.toInt ++ x = signedDecimal n.toInt ++ y) :
    m = n ∧ x = y := by
  have hrun := congrArg (List.takeWhile isNumeral) h
  rw [takeWhile_signedDecimal _ hx, takeWhile_signedDecimal _ hy] at hrun
  obtain rfl := signedDecimal_injective hrun
  exact ⟨rfl, List.append_cancel_left h⟩

/-! ## 4. Trees -/

/-- A JSON value; the fields of an object keep the order they were added in. -/
inductive JsonNode
  | JInt (num : Int64)
  | JBool (bval : Bool)
  | JString (s : NimStr)
  | JArray (elems : List JsonNode)
  | JObject (fields : List (NimStr × JsonNode))

open JsonNode

/-- The field of an object under a key. -/
def JsonNode.field (key : NimStr) : JsonNode → Option JsonNode
  | JObject fields => (fields.find? fun f => f.1 == key).map (·.2)
  | _ => none

mutual

/-- The compact text of a value. -/
def toUgly : JsonNode → NimStr
  | JInt num => signedDecimal num.toInt
  | JBool bval => if bval then str "true" else str "false"
  | JString s => escapeJson s
  | JArray elems => 91 :: (elemsText false elems ++ [93])
  | JObject fields => 123 :: (fieldsText false fields ++ [125])

/-- The elements of an array; the flag says whether a comma is due. -/
def elemsText : Bool → List JsonNode → NimStr
  | _, [] => []
  | comma, e :: es => (if comma then [44] else []) ++ toUgly e ++ elemsText true es

/-- The fields of an object. -/
def fieldsText : Bool → List (NimStr × JsonNode) → NimStr
  | _, [] => []
  | comma, (key, value) :: fs =>
    (if comma then [44] else []) ++ escapeJson key ++ [58] ++ toUgly value ++ fieldsText true fs

end

/-! ## 5. The text determines the tree -/

/-- Which constructor a value was built with. -/
def JsonNode.shape : JsonNode → Nat
  | JInt _ => 0
  | JBool _ => 1
  | JString _ => 2
  | JArray _ => 3
  | JObject _ => 4

/-- The constructor the first byte of a value stands for. -/
def shapeOfHead (c : UInt8) : Nat :=
  if isNumeral c then 0 else if c = 116 ∨ c = 102 then 1 else if c = 34 then 2
  else if c = 91 then 3 else if c = 123 then 4 else 5

theorem decimalDigits_ne_nil (fuel n : Nat) : decimalDigits (fuel + 1) n ≠ [] := by
  unfold decimalDigits
  split <;> simp

theorem signedDecimal_ne_nil (n : Int) : signedDecimal n ≠ [] := by
  unfold signedDecimal
  split
  · exact List.append_ne_nil_of_left_ne_nil (by decide) _
  · exact decimalDigits_ne_nil 19 _

/-- The first byte of a value tells its shape, and none of the shapes begins like a closing. -/
theorem toUgly_head (a : JsonNode) : ∃ c rest, toUgly a = c :: rest ∧ shapeOfHead c = a.shape := by
  cases a with
  | JInt num =>
    obtain ⟨c, rest, hcr⟩ := List.exists_cons_of_ne_nil (signedDecimal_ne_nil num.toInt)
    refine ⟨c, rest, by rw [toUgly, hcr], ?_⟩
    have hc := signedDecimal_isNumeral num.toInt c (by rw [hcr]; exact List.mem_cons_self)
    rw [shapeOfHead, if_pos hc, JsonNode.shape]
  | JBool bval =>
    cases bval with
    | true => exact ⟨116, _, rfl, rfl⟩
    | false => exact ⟨102, _, rfl, rfl⟩
  | JString s => exact ⟨34, _, by rw [toUgly, escapeJson], rfl⟩
  | JArray elems => exact ⟨91, _, by rw [toUgly], rfl⟩
  | JObject fields => exact ⟨123, _, by rw [toUgly], rfl⟩

theorem shape_eq_of_append {a b : JsonNode} {x y : NimStr} (h : toUgly a ++ x = toUgly b ++ y) :
    a.shape = b.shape := by
  obtain ⟨c, rest, ha, hc⟩ := toUgly_head a
  obtain ⟨d, rest', hb, hd⟩ := toUgly_head b
  rw [ha, hb, List.cons_append, List.cons_append] at h
  rw [← hc, ← hd, (List.cons.inj h).1]

/-- A value does not begin like what closes one. -/
theorem toUgly_append_ne {a : JsonNode} {c : UInt8} (hc : c = 44 ∨ c = 93 ∨ c = 125)
    (x y : NimStr) : c :: x ≠ toUgly a ++ y := by
  obtain ⟨d, rest, ha, hd⟩ := toUgly_head a
  intro h
  rw [ha, List.cons_append] at h
  obtain rfl : c = d := (List.cons.inj h).1
  have hshape : a.shape < 5 := by cases a <;> simp [JsonNode.shape]
  rcases hc with rfl | rfl | rfl <;> exact absurd (hd.trans_lt hshape) (by decide)

theorem boolText_append_injective {p q : Bool} {x y : NimStr}
    (h : (if p then str "true" else str "false") ++ x =
      (if q then str "true" else str "false") ++ y) : p = q ∧ x = y := by
  have hne : ∀ u v : NimStr, str "true" ++ u ≠ str "false" ++ v := by
    intro u v huv
    exact absurd (List.cons.inj huv).1 (by decide)
  cases p <;> cases q
  · exact ⟨rfl, List.append_cancel_left h⟩
  · exact absurd h.symm (hne _ _)
  · exact absurd h (hne _ _)
  · exact ⟨rfl, List.append_cancel_left h⟩

/-- An object's field after the comma, if one is due: the key, a colon and the value. -/
theorem fieldText_append_injective {k l u v : NimStr} {comma : Bool} {a b : JsonNode}
    (hvalue : toUgly a ++ u = toUgly b ++ v → a = b ∧ u = v)
    (h : (if comma then [44] else []) ++ escapeJson k ++ [58] ++ toUgly a ++ u =
      (if comma then [44] else []) ++ escapeJson l ++ [58] ++ toUgly b ++ v) :
    k = l ∧ a = b ∧ u = v := by
  simp only [List.append_assoc, List.append_cancel_left_eq] at h
  obtain ⟨hkey, hrest⟩ := escapeJson_append_injective h
  exact ⟨hkey, hvalue (List.append_cancel_left hrest)⟩

/-- What follows an element is a comma or the closing bracket. -/
theorem closed_elemsText (es : List JsonNode) (rest : NimStr) :
    Closed (elemsText true es ++ 93 :: rest) := by
  cases es with
  | nil => exact closed_cons (by decide) rest
  | cons e es =>
    simp only [elemsText, if_true, List.cons_append, List.nil_append]
    exact closed_cons (by decide) _

theorem closed_fieldsText (fs : List (NimStr × JsonNode)) (rest : NimStr) :
    Closed (fieldsText true fs ++ 125 :: rest) := by
  cases fs with
  | nil => exact closed_cons (by decide) rest
  | cons f fs =>
    simp only [fieldsText, if_true, List.cons_append, List.nil_append]
    exact closed_cons (by decide) _

/-- A list that goes on does not look like one that ends. -/
theorem elemsText_cons_ne (comma : Bool) (e : JsonNode) (es : List JsonNode) (x y : NimStr) :
    93 :: x ≠ elemsText comma (e :: es) ++ y := by
  cases comma with
  | true => simp [elemsText]
  | false =>
    simp only [elemsText, Bool.false_eq_true, if_false, List.nil_append, List.append_assoc]
    exact toUgly_append_ne (by decide) _ _

theorem fieldsText_cons_ne (comma : Bool) (f : NimStr × JsonNode)
    (fs : List (NimStr × JsonNode)) (x y : NimStr) :
    125 :: x ≠ fieldsText comma (f :: fs) ++ y := by
  cases comma <;> simp [fieldsText, escapeJson]

mutual

/-- **The text determines the tree**, wherever it stands in a document. -/
theorem toUgly_append_injective : ∀ (a b : JsonNode) {x y : NimStr}, Closed x → Closed y →
    toUgly a ++ x = toUgly b ++ y → a = b ∧ x = y
  | JInt m, b, x, y, hx, hy, h => by
    have hshape := shape_eq_of_append h
    cases b with
    | JInt n =>
      simp only [toUgly] at h
      obtain ⟨hmn, hxy⟩ := signedDecimal_append_injective hx hy h
      exact ⟨by rw [hmn], hxy⟩
    | _ => simp [JsonNode.shape] at hshape
  | JBool p, b, x, y, _, _, h => by
    have hshape := shape_eq_of_append h
    cases b with
    | JBool q =>
      simp only [toUgly] at h
      obtain ⟨hpq, hxy⟩ := boolText_append_injective h
      exact ⟨by rw [hpq], hxy⟩
    | _ => simp [JsonNode.shape] at hshape
  | JString s, b, x, y, _, _, h => by
    have hshape := shape_eq_of_append h
    cases b with
    | JString t =>
      simp only [toUgly] at h
      obtain ⟨hst, hxy⟩ := escapeJson_append_injective h
      exact ⟨by rw [hst], hxy⟩
    | _ => simp [JsonNode.shape] at hshape
  | JArray es, b, x, y, _, _, h => by
    have hshape := shape_eq_of_append h
    cases b with
    | JArray fs =>
      simp only [toUgly, List.cons_append, List.append_assoc, List.nil_append, List.cons.injEq,
        true_and] at h
      obtain ⟨hef, hxy⟩ := elemsText_append_injective false es fs h
      exact ⟨by rw [hef], hxy⟩
    | _ => simp [JsonNode.shape] at hshape
  | JObject es, b, x, y, _, _, h => by
    have hshape := shape_eq_of_append h
    cases b with
    | JObject fs =>
      simp only [toUgly, List.cons_append, List.append_assoc, List.nil_append, List.cons.injEq,
        true_and] at h
      obtain ⟨hef, hxy⟩ := fieldsText_append_injective false es fs h
      exact ⟨by rw [hef], hxy⟩
    | _ => simp [JsonNode.shape] at hshape

theorem elemsText_append_injective : ∀ (comma : Bool) (es fs : List JsonNode) {x y : NimStr},
    elemsText comma es ++ 93 :: x = elemsText comma fs ++ 93 :: y → es = fs ∧ x = y
  | _, [], [], _, _, h => ⟨rfl, (List.cons.inj h).2⟩
  | comma, [], f :: fs, x, y, h => absurd h (elemsText_cons_ne comma f fs x _)
  | comma, e :: es, [], x, y, h => absurd h.symm (elemsText_cons_ne comma e es y _)
  | comma, e :: es, f :: fs, x, y, h => by
    simp only [elemsText, List.append_assoc, List.append_cancel_left_eq] at h
    obtain ⟨hef, hrest⟩ := toUgly_append_injective e f (closed_elemsText es x)
      (closed_elemsText fs y) h
    obtain ⟨hes, hxy⟩ := elemsText_append_injective true es fs hrest
    exact ⟨by rw [hef, hes], hxy⟩

theorem fieldsText_append_injective : ∀ (comma : Bool) (es fs : List (NimStr × JsonNode))
    {x y : NimStr},
    fieldsText comma es ++ 125 :: x = fieldsText comma fs ++ 125 :: y → es = fs ∧ x = y
  | _, [], [], _, _, h => ⟨rfl, (List.cons.inj h).2⟩
  | comma, [], f :: fs, x, y, h => absurd h (fieldsText_cons_ne comma f fs x _)
  | comma, e :: es, [], x, y, h => absurd h.symm (fieldsText_cons_ne comma e es y _)
  | comma, (k, a) :: es, (l, b) :: fs, x, y, h => by
    rw [fieldsText, fieldsText, List.append_assoc _ _ (125 :: x),
      List.append_assoc _ _ (125 :: y)] at h
    obtain ⟨hkl, hab, hrest⟩ := fieldText_append_injective (toUgly_append_injective a b
      (closed_fieldsText es x) (closed_fieldsText fs y)) h
    obtain ⟨hes, hxy⟩ := fieldsText_append_injective true es fs hrest
    exact ⟨by rw [hkl, hab, hes], hxy⟩

end

theorem toUgly_injective {a b : JsonNode} (h : toUgly a = toUgly b) : a = b := by
  refine (toUgly_append_injective a b closed_nil closed_nil ?_).1
  rw [h]

end JsonText
