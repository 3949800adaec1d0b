/-
# The canonical file

`encode.nim` writes a depfile as a header, the frames of the records in canonical order, and a
trailer with the record count and an FNV-1a checksum of the frames.  It has two writers:
`encodeCanonical` builds the whole file in memory, `writeCanonicalInPlace` measures the frames in
one pass and streams them in a second.

  * `writeCanonicalInPlace_eq` -- the two writers produce the same bytes;
  * `canonicalLe_iff` -- the canonical order is a key order, so the sort is a stable sort by it;
  * `canonicalize_canonicalize` -- a file's own records are already canonical.
-/
import Mathlib.Data.Prod.Lex
import Mathlib.Data.List.Lex
import IoMon.Lib.Digest
import IoMon.Lib.StableSort
import IoMon.Encode
import IoMon.Depfile

namespace IoMon

open ByteText ByteCodec StableSort

/-! ## 1. The checksum -/

def FnvOffset : UInt64 := 14695981039346656037
def FnvPrime : UInt64 := 1099511628211

/-- One byte into the checksum. -/
def checksumStep (h : UInt64) (b : UInt8) : UInt64 := (h ^^^ b.toUInt64) * FnvPrime

def checksumUpdate (seed : UInt64) (bytes : List UInt8) : UInt64 := bytes.foldl checksumStep seed

def checksum (bytes : List UInt8) : UInt64 := checksumUpdate FnvOffset bytes

theorem checksumUpdate_append (seed : UInt64) (a b : List UInt8) :
    checksumUpdate seed (a ++ b) = checksumUpdate (checksumUpdate seed a) b :=
  List.foldl_append ..

/-- The prime is odd, so multiplying by it can be undone. -/
def FnvInverse : UInt64 := 14886173955864302971

theorem fnvPrime_mul_inverse : FnvPrime * FnvInverse = 1 := by decide

theorem mul_fnvPrime_injective : Function.Injective fun h : UInt64 => h * FnvPrime := by
  intro x y h
  have hmul : x * FnvPrime * FnvInverse = y * FnvPrime * FnvInverse :=
    congrArg (· * FnvInverse) h
  rwa [UInt64.mul_assoc, UInt64.mul_assoc, fnvPrime_mul_inverse, UInt64.mul_one,
    UInt64.mul_one] at hmul

theorem checksumStep_faithful : Digest.Faithful checksumStep := by
  constructor
  · intro b s t h
    exact (UInt64.xor_left_inj _).mp (mul_fnvPrime_injective h)
  · intro s b c h
    have hbytes : b.toUInt64 = c.toUInt64 := (UInt64.xor_right_inj _).mp
      (mul_fnvPrime_injective h)
    have hnat := congrArg UInt64.toNat hbytes
    rw [UInt8.toNat_toUInt64, UInt8.toNat_toUInt64] at hnat
    exact UInt8.toNat_inj.mp hnat

/-! ## 2. The canonical order as a key order -/

/-- What `canonicalOrder` compares, in the order it compares it. -/
abbrev CanonicalKey := Lex (Nat × Lex (Nat × Lex (Nat × Lex (Nat × List Nat))))

def canonicalKey (r : MonitorRecord) : CanonicalKey :=
  toLex (r.osPid.toNat, toLex (r.threadId.toNat, toLex (r.seq.toNat, toLex (r.kind.ord,
    r.path.map UInt8.toNat))))

theorem leStr_iff (s t : NimStr) :
    leStr s t = true ↔ s.map UInt8.toNat ≤ t.map UInt8.toNat := by
  rw [← not_lt]
  induction s generalizing t with
  | nil => simp [leStr]
  | cons a s ih =>
    cases t with
    | nil => simp [leStr]
    | cons b t =>
      simp only [leStr, List.map_cons, List.cons_lt_cons_iff, UInt8.lt_iff_toNat_lt]
      by_cases hlt : a.toNat < b.toNat
      · simp only [hlt, if_true, true_iff]
        omega
      by_cases hgt : b.toNat < a.toNat
      · simp [hlt, hgt]
      · have heq : a.toNat = b.toNat := by omega
        simp [heq, ih]

/-- **The canonical order is the order of the canonical keys.** -/
theorem canonicalLe_iff (a b : MonitorRecord) :
    canonicalLe a b = true ↔ canonicalKey a ≤ canonicalKey b := by
  unfold canonicalLe canonicalKey
  simp only [Prod.Lex.toLex_le_toLex, ← leStr_iff]
  by_cases hp : a.osPid = b.osPid
  · by_cases ht : a.threadId = b.threadId
    · by_cases hs : a.seq = b.seq
      · by_cases hk : a.kind.ord = b.kind.ord
        · simp [hp, ht, hs, hk]
        · simp [hp, ht, hs, hk]
      · simp [hp, ht, hs, UInt64.toNat_inj, UInt64.lt_iff_toNat_lt]
    · simp [hp, ht, UInt64.toNat_inj, UInt64.lt_iff_toNat_lt]
  · simp [hp, UInt64.toNat_inj, UInt64.lt_iff_toNat_lt]

/-- `sort(canonicalOrder)`. -/
theorem insertionSort_canonicalLe (records : List MonitorRecord) :
    (records.insertionSort fun a b => canonicalLe a b = true) = sortBy canonicalKey records := by
  unfold sortBy
  simp only [canonicalLe_iff]

theorem canonicalize_eq (records : List MonitorRecord) :
    canonicalize records = renumber (sortBy canonicalKey records) := by
  rw [canonicalize, insertionSort_canonicalLe]

/-! ## 3. Renumbering -/

@[simp] theorem renumber_length (records : List MonitorRecord) :
    (renumber records).length = records.length := List.length_mapIdx

@[simp] theorem canonicalize_length (records : List MonitorRecord) :
    (canonicalize records).length = records.length := by
  rw [canonicalize_eq, renumber_length, (sortBy_perm records).length_eq]

/-- Records numbered `n + 1, n + 2, ...` in 64 bits. -/
def NumberedFrom (n : Nat) (records : List MonitorRecord) : Prop :=
  ∀ i, (h : i < records.length) → records[i].seq = UInt64.ofNat (n + i + 1)

theorem numberedFrom_cons {n : Nat} {r : MonitorRecord} {rs : List MonitorRecord} :
    NumberedFrom n (r :: rs) ↔ r.seq = UInt64.ofNat (n + 1) ∧ NumberedFrom (n + 1) rs := by
  constructor
  · intro h
    refine ⟨h 0 (Nat.zero_lt_succ _), fun i hi => ?_⟩
    have hnext := h (i + 1) (Nat.succ_lt_succ hi)
    rw [List.getElem_cons_succ] at hnext
    rw [hnext]
    congr 1
    omega
  · rintro ⟨h0, h⟩ i hi
    cases i with
    | zero => exact h0
    | succ i =>
      rw [List.getElem_cons_succ, h i (Nat.lt_of_succ_lt_succ hi)]
      congr 1
      omega

theorem numberedFrom_renumber (records : List MonitorRecord) :
    NumberedFrom 0 (renumber records) := by
  intro i hi
  simp only [renumber, List.getElem_mapIdx, Nat.zero_add]

/-- Renumbering leaves a list alone exactly when it is numbered from one already. -/
theorem renumber_eq_self {records : List MonitorRecord} :
    renumber records = records ↔ NumberedFrom 0 records := by
  constructor
  · intro h
    rw [← h]
    exact numberedFrom_renumber records
  · intro h
    apply List.ext_getElem (renumber_length records)
    intro i hi hi'
    have hseq : records[i].seq = UInt64.ofNat (i + 1) := by
      rw [h i hi', Nat.zero_add]
    simp only [renumber, List.getElem_mapIdx, ← hseq]

theorem renumber_renumber (records : List MonitorRecord) :
    renumber (renumber records) = renumber records :=
  renumber_eq_self.mpr (numberedFrom_renumber records)

/-- Up to the sequence number, the canonical order only reads the pid and the thread. -/
theorem canonicalKey_renumbered_le {a b : MonitorRecord} (hab : canonicalKey a ≤ canonicalKey b)
    {n m : UInt64} (hnm : n < m) :
    canonicalKey { a with seq := n } ≤ canonicalKey { b with seq := m } := by
  unfold canonicalKey at *
  simp only [Prod.Lex.toLex_le_toLex] at *
  have hseq : n.toNat < m.toNat := UInt64.lt_iff_toNat_lt.mp hnm
  rcases hab with hpid | ⟨hpid, htid | ⟨htid, _⟩⟩
  · exact .inl hpid
  · exact .inr ⟨hpid, .inl htid⟩
  · exact .inr ⟨hpid, .inr ⟨htid, .inl hseq⟩⟩

theorem ofNat_succ_lt {i j n : Nat} (hij : i < j) (hj : j < n) (hn : n < 2 ^ 64) :
    UInt64.ofNat (i + 1) < UInt64.ofNat (j + 1) := by
  rw [UInt64.lt_iff_toNat_lt, UInt64.toNat_ofNat', UInt64.toNat_ofNat',
    Nat.mod_eq_of_lt (by omega), Nat.mod_eq_of_lt (by omega)]
  omega

/-- New numbers in order keep a sorted list sorted. -/
theorem sorted_renumber {records : List MonitorRecord} (hlen : records.length < 2 ^ 64)
    (h : Sorted canonicalKey records) : Sorted canonicalKey (renumber records) := by
  rw [Sorted, List.pairwise_iff_getElem] at *
  intro i j hi hj hij
  rw [renumber_length] at hi hj
  simp only [renumber, List.getElem_mapIdx]
  exact canonicalKey_renumbered_le (h i j hi hj hij) (ofNat_succ_lt hij hj hlen)

theorem sorted_canonicalize {records : List MonitorRecord} (hlen : records.length < 2 ^ 64) :
    Sorted canonicalKey (canonicalize records) := by
  rw [canonicalize_eq]
  refine sorted_renumber ?_ (sorted_sortBy records)
  rwa [(sortBy_perm records).length_eq]

/-- **A sorted list is canonicalized by its numbers alone.** -/
theorem canonicalize_of_sorted {records : List MonitorRecord} (h : Sorted canonicalKey records) :
    canonicalize records = renumber records := by
  rw [canonicalize_eq, sortBy_of_sorted h]

/-- A file's own records are already canonical. -/
theorem canonicalize_canonicalize {records : List MonitorRecord} (hlen : records.length < 2 ^ 64) :
    canonicalize (canonicalize records) = canonicalize records := by
  rw [canonicalize_of_sorted (sorted_canonicalize hlen), canonicalize_eq, renumber_renumber]

/-! ## 4. The file -/

def IomonMagic : NimStr := str "IOMN"

def IomonTrailerMagic : NimStr := str "IOMT"

def CanonicalFileKind : UInt16 := 1

/-- Magic, version, file kind, record count and body length. -/
def fileHeader (count bodyLen : Nat) : List UInt8 :=
  IomonMagic ++ (leBytes 2 IomonVersion.toNat ++ (leBytes 2 CanonicalFileKind.toNat ++
    (leBytes 8 count ++ leBytes 8 bodyLen)))

/-- Trailer magic, record count and body checksum. -/
def fileTrailer (count : Nat) (bodyChecksum : UInt64) : List UInt8 :=
  IomonTrailerMagic ++ (leBytes 8 count ++ leBytes 8 bodyChecksum.toNat)

/-- The whole file, built in memory. -/
def encodeCanonical (records : List MonitorRecord) : List UInt8 :=
  let ordered := canonicalize records
  let body := ordered.flatMap encodeFrame
  fileHeader ordered.length body.length ++ (body ++ fileTrailer ordered.length (checksum body))

/-- One record of the measuring pass: the body length and the checksum so far. -/
def measureFrame (acc : UInt64 × UInt64) (r : MonitorRecord) : UInt64 × UInt64 :=
  let frame := encodeFrame r
  (acc.1 + UInt64.ofNat frame.length, checksumUpdate acc.2 frame)

/-- **The streaming writer**: the bytes it appends to the output file, write by write.  The
first pass measures the frames, the second writes them; the body is never held in memory. -/
def writeCanonicalInPlace (records : List MonitorRecord) : List UInt8 :=
  let ordered := canonicalize records
  let measured := ordered.foldl measureFrame (0, FnvOffset)
  let header := fileHeader ordered.length measured.1.toNat
  let written := ordered.foldl (fun out r => out ++ encodeFrame r) header
  written ++ fileTrailer ordered.length measured.2

/-! ## 5. The two writers agree -/

/-- What the measuring pass computes is the length and the checksum of the body. -/
theorem foldl_measureFrame (records : List MonitorRecord) (len sum : UInt64) :
    records.foldl measureFrame (len, sum) =
      (len + UInt64.ofNat (records.flatMap encodeFrame).length,
        checksumUpdate sum (records.flatMap encodeFrame)) := by
  induction records generalizing len sum with
  | nil => simp [checksumUpdate]
  | cons r rs ih =>
    rw [List.foldl_cons, measureFrame, ih, List.flatMap_cons, List.length_append,
      checksumUpdate_append, UInt64.ofNat_add, UInt64.add_assoc]

theorem foldl_append_encodeFrame (records : List MonitorRecord) (out : List UInt8) :
    records.foldl (fun out r => out ++ encodeFrame r) out =
      out ++ records.flatMap encodeFrame := by
  induction records generalizing out with
  | nil => rw [List.foldl_nil, List.flatMap_nil, List.append_nil]
  | cons r rs ih => rw [List.foldl_cons, ih, List.flatMap_cons, List.append_assoc]

/-- **The two writers produce the same bytes**, for every list of records. -/
theorem writeCanonicalInPlace_eq (records : List MonitorRecord) :
    writeCanonicalInPlace records = encodeCanonical records := by
  have hwrap : ∀ n : Nat, leBytes 8 (UInt64.ofNat n).toNat = leBytes 8 n := by
    intro n
    rw [UInt64.toNat_ofNat']
    exact leBytes_mod 8 n
  unfold writeCanonicalInPlace encodeCanonical
  dsimp only
  rw [foldl_measureFrame, foldl_append_encodeFrame, UInt64.zero_add, List.append_assoc]
  simp only [fileHeader, hwrap, checksum]

end IoMon
