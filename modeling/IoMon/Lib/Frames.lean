/-
# Length-prefixed frame streams, read tolerantly

An append-only log of frames, each a 32-bit little-endian length followed by that many payload
bytes.  A writer that is killed leaves a log whose last frame may be torn; `scan` is the reader
that returns every record before the first damage together with a flag saying whether the end
of the buffer was reached at a frame boundary.

The payload decoder is a parameter, so the whole file is about framing alone:

  * `scan_append_of_clean` -- a cleanly read prefix can be cut off and the rest read on its own;
  * `scan_stream` -- the encoding of a list of records reads back as that list, whatever follows;
  * `scan_torn` -- a prefix of an encoding reads back as a prefix of the list, and the flag is
    raised exactly when the cut is at a frame boundary;
  * `scan_take_stream` -- which records those are: the ones whose frames end at or before the cut.
-/
import Mathlib.Data.List.Basic
import IoMon.Lib.Bytes

namespace ByteCodec

variable {ε α : Type}

/-! ## 1. The reader -/

/-- One payload with its length in front. -/
def frame (payload : List UInt8) : List UInt8 := leBytes 4 payload.length ++ payload

/-- The reader with an explicit bound on the number of frames. -/
def scanFrames (dec : List UInt8 → Except ε α) : Nat → List UInt8 → List α × Bool
  | 0, bytes => ([], bytes.isEmpty)
  | fuel + 1, bytes =>
    if bytes.isEmpty then ([], true)
    else if bytes.length < 4 then ([], false)
    else
      let length := loadLe bytes 0 4
      if length = 0 ∨ bytes.length < 4 + length then ([], false)
      else
        match dec ((bytes.drop 4).take length) with
        | .error _ => ([], false)
        | .ok a =>
          let r := scanFrames dec fuel (bytes.drop (4 + length))
          (a :: r.1, r.2)

/-- **The tolerant reader.**  Every frame takes at least four bytes, so the length of the buffer
bounds the number of frames. -/
def scan (dec : List UInt8 → Except ε α) (bytes : List UInt8) : List α × Bool :=
  scanFrames dec bytes.length bytes

/-! ## 2. The bound is never reached -/

theorem scanFrames_nil (dec : List UInt8 → Except ε α) (fuel : Nat) :
    scanFrames dec fuel [] = ([], true) := by
  cases fuel <;> simp [scanFrames]

/-- More fuel than bytes changes nothing. -/
theorem scanFrames_stable (dec : List UInt8 → Except ε α) :
    ∀ (fuel : Nat) (bytes : List UInt8), bytes.length ≤ fuel →
      scanFrames dec fuel bytes = scanFrames dec bytes.length bytes
  | 0, bytes, h => by
    have hnil : bytes = [] := List.eq_nil_of_length_eq_zero (by omega)
    subst hnil
    rfl
  | fuel + 1, [], h => by rw [scanFrames_nil, List.length_nil, scanFrames_nil]
  | fuel + 1, b :: t, h => by
    have hshort : t.length ≤ fuel := by
      rw [List.length_cons] at h
      omega
    have hrest : ∀ n, ((b :: t).drop (4 + n)).length ≤ t.length := by
      intro n
      simp only [List.length_drop, List.length_cons]
      omega
    have hfuel : ∀ n, scanFrames dec fuel ((b :: t).drop (4 + n)) =
        scanFrames dec t.length ((b :: t).drop (4 + n)) := by
      intro n
      rw [scanFrames_stable dec fuel _ (Nat.le_trans (hrest n) hshort),
        ← scanFrames_stable dec t.length _ (hrest n)]
    simp only [List.length_cons, scanFrames, hfuel]
  termination_by fuel => fuel

@[simp] theorem scan_nil (dec : List UInt8 → Except ε α) : scan dec [] = ([], true) := rfl

/-- The recursion equation of `scan`, free of fuel. -/
theorem scan_eq (dec : List UInt8 → Except ε α) (bytes : List UInt8) (hne : bytes ≠ []) :
    scan dec bytes =
      if bytes.length < 4 then ([], false)
      else if loadLe bytes 0 4 = 0 ∨ bytes.length < 4 + loadLe bytes 0 4 then ([], false)
      else
        match dec ((bytes.drop 4).take (loadLe bytes 0 4)) with
        | .error _ => ([], false)
        | .ok a => (a :: (scan dec (bytes.drop (4 + loadLe bytes 0 4))).1,
            (scan dec (bytes.drop (4 + loadLe bytes 0 4))).2) := by
  cases bytes with
  | nil => exact absurd rfl hne
  | cons b t =>
    have hrest : ((b :: t).drop (4 + loadLe (b :: t) 0 4)).length ≤ t.length := by
      simp only [List.length_drop, List.length_cons]
      omega
    have hscan : scanFrames dec t.length ((b :: t).drop (4 + loadLe (b :: t) 0 4)) =
        scan dec ((b :: t).drop (4 + loadLe (b :: t) 0 4)) := scanFrames_stable dec _ _ hrest
    simp only [scan, List.length_cons, scanFrames, List.isEmpty_cons, Bool.false_eq_true, if_false]
    simp only [← scan.eq_1, hscan]

/-- No whole frame stands at the front of the buffer. -/
def NoFrame (bytes : List UInt8) : Prop :=
  bytes.length < 4 ∨ loadLe bytes 0 4 = 0 ∨ bytes.length < 4 + loadLe bytes 0 4

instance (bytes : List UInt8) : Decidable (NoFrame bytes) :=
  inferInstanceAs (Decidable (_ ∨ _ ∨ _))

/-- The payload of the first frame, and what follows that frame. -/
def firstPayload (bytes : List UInt8) : List UInt8 := (bytes.drop 4).take (loadLe bytes 0 4)

def afterFrame (bytes : List UInt8) : List UInt8 := bytes.drop (4 + loadLe bytes 0 4)

theorem afterFrame_length_lt {bytes : List UInt8} (h : ¬ NoFrame bytes) :
    (afterFrame bytes).length < bytes.length := by
  unfold NoFrame at h
  rw [afterFrame, List.length_drop]
  omega

theorem scan_of_noFrame (dec : List UInt8 → Except ε α) {bytes : List UInt8} (hne : bytes ≠ [])
    (h : NoFrame bytes) : scan dec bytes = ([], false) := by
  rw [scan_eq dec bytes hne]
  rcases h with h | h
  · rw [if_pos h]
  · rw [if_pos h, ite_self]

theorem scan_of_frame (dec : List UInt8 → Except ε α) {bytes : List UInt8}
    (h : ¬ NoFrame bytes) :
    scan dec bytes =
      match dec (firstPayload bytes) with
      | .error _ => ([], false)
      | .ok a => (a :: (scan dec (afterFrame bytes)).1, (scan dec (afterFrame bytes)).2) := by
  have hne : bytes ≠ [] := by
    rintro rfl
    exact h (.inl (Nat.zero_lt_succ _))
  obtain ⟨h4, hfit⟩ := not_or.mp h
  rw [scan_eq dec bytes hne, if_neg h4, if_neg hfit]
  rfl

/-- The payloads of the whole frames at the front of the buffer, decoded or not. -/
def payloads (bytes : List UInt8) : List (List UInt8) :=
  (scan (ε := Empty) .ok bytes).1

@[simp] theorem payloads_nil : payloads [] = [] := rfl

theorem payloads_of_noFrame {bytes : List UInt8} (h : NoFrame bytes) : payloads bytes = [] := by
  by_cases hne : bytes = []
  · rw [hne, payloads_nil]
  · rw [payloads, scan_of_noFrame _ hne h]

theorem payloads_of_frame {bytes : List UInt8} (h : ¬ NoFrame bytes) :
    payloads bytes = firstPayload bytes :: payloads (afterFrame bytes) := by
  rw [payloads, scan_of_frame _ h]
  rfl

/-- What holds of every record whose payload fits a 32-bit length holds of all that is read. -/
theorem scan_forall {dec : List UInt8 → Except ε α} {P : α → Prop}
    (h : ∀ p a, p.length < 256 ^ 4 → dec p = .ok a → P a) (bytes : List UInt8) :
    ∀ a ∈ (scan dec bytes).1, P a := by
  induction hn : bytes.length using Nat.strong_induction_on generalizing bytes with
  | h n ih =>
    by_cases hnil : bytes = []
    · rw [hnil, scan_nil]
      exact fun a ha => absurd ha List.not_mem_nil
    by_cases hno : NoFrame bytes
    · rw [scan_of_noFrame dec hnil hno]
      exact fun a ha => absurd ha List.not_mem_nil
    rw [scan_of_frame dec hno]
    cases hdec : dec (firstPayload bytes) with
    | error e => exact fun a ha => absurd ha List.not_mem_nil
    | ok a =>
      have hlen : (firstPayload bytes).length < 256 ^ 4 := by
        have := loadLe_lt bytes 0 4
        rw [firstPayload, List.length_take]
        omega
      have hrest := ih _ (hn ▸ afterFrame_length_lt hno) (afterFrame bytes) rfl
      intro b hb
      rcases List.mem_cons.mp hb with rfl | hb
      · exact h _ _ hlen hdec
      · exact hrest b hb

/-- Every record takes up a byte at least. -/
theorem scan_length_le (dec : List UInt8 → Except ε α) (bytes : List UInt8) :
    (scan dec bytes).1.length ≤ bytes.length := by
  induction hn : bytes.length using Nat.strong_induction_on generalizing bytes with
  | h n ih =>
    by_cases hnil : bytes = []
    · rw [hnil, scan_nil]
      exact Nat.zero_le n
    by_cases hno : NoFrame bytes
    · rw [scan_of_noFrame dec hnil hno]
      exact Nat.zero_le n
    have hlt := afterFrame_length_lt hno
    rw [scan_of_frame dec hno]
    cases dec (firstPayload bytes) with
    | error e => exact Nat.zero_le n
    | ok a =>
      have hrest := ih _ (hn ▸ hlt) (afterFrame bytes) rfl
      rw [List.length_cons]
      omega

/-! ## 3. One frame in front -/

@[simp] theorem frame_length (p : List UInt8) : (frame p).length = 4 + p.length := by
  simp only [frame, List.length_append, leBytes_length]

theorem frame_append_ne_nil (p rest : List UInt8) : frame p ++ rest ≠ [] := by
  intro h
  have := congrArg List.length h
  simp only [List.length_append, frame_length, List.length_nil] at this
  omega

theorem loadLe_frame {p : List UInt8} (h32 : p.length < 256 ^ 4) (rest : List UInt8) :
    loadLe (frame p ++ rest) 0 4 = p.length := by
  rw [frame, List.append_assoc, loadLe_zero h32]

theorem drop_frame (p rest : List UInt8) : (frame p ++ rest).drop (4 + p.length) = rest := by
  rw [← frame_length p, List.drop_left]

theorem payload_frame (p rest : List UInt8) :
    ((frame p ++ rest).drop 4).take p.length = p := by
  have hdrop : (frame p ++ rest).drop 4 = p ++ rest := by
    rw [frame, List.append_assoc]
    exact List.drop_left' (leBytes_length 4 _)
  rw [hdrop, List.take_left]

/-- A whole frame with a decodable payload is read, and reading goes on after it. -/
theorem scan_frame {dec : List UInt8 → Except ε α} {p : List UInt8} {a : α}
    (hpos : 0 < p.length) (h32 : p.length < 256 ^ 4) (hdec : dec p = .ok a) (rest : List UInt8) :
    scan dec (frame p ++ rest) = (a :: (scan dec rest).1, (scan dec rest).2) := by
  have hload := loadLe_frame h32 rest
  have h4 : ¬ (frame p ++ rest).length < 4 := by
    simp only [List.length_append, frame_length]; omega
  have hfit : ¬ (p.length = 0 ∨ (frame p ++ rest).length < 4 + p.length) := by
    simp only [List.length_append, frame_length]; omega
  rw [scan_eq dec _ (frame_append_ne_nil p rest), if_neg h4, hload, if_neg hfit, payload_frame,
    hdec, drop_frame]

/-- **A cleanly read prefix can be cut off.** -/
theorem scan_append_of_clean {dec : List UInt8 → Except ε α} (bytes rest : List UInt8)
    (h : (scan dec bytes).2 = true) :
    scan dec (bytes ++ rest) = ((scan dec bytes).1 ++ (scan dec rest).1, (scan dec rest).2) := by
  induction hn : bytes.length using Nat.strong_induction_on generalizing bytes with
  | h n ih =>
    by_cases hnil : bytes = []
    · subst hnil
      simp only [List.nil_append, scan_nil]
    · have hne : bytes ++ rest ≠ [] := by simp [hnil]
      rw [scan_eq dec bytes hnil] at h
      split at h
      · exact absurd h (by simp)
      rename_i h4
      split at h
      · exact absurd h (by simp)
      rename_i hfit
      have hload : loadLe (bytes ++ rest) 0 4 = loadLe bytes 0 4 := by
        simp only [loadLe, List.drop_zero]
        rw [List.take_append_of_le_length (by omega)]
      have h4' : ¬ (bytes ++ rest).length < 4 := by
        rw [List.length_append]; omega
      have hfit' : ¬ (loadLe bytes 0 4 = 0 ∨ (bytes ++ rest).length < 4 + loadLe bytes 0 4) := by
        rw [List.length_append]; omega
      have hpay : ((bytes ++ rest).drop 4).take (loadLe bytes 0 4) =
          (bytes.drop 4).take (loadLe bytes 0 4) := by
        rw [List.drop_append_of_le_length (by omega),
          List.take_append_of_le_length (by rw [List.length_drop]; omega)]
      have hdrop : (bytes ++ rest).drop (4 + loadLe bytes 0 4) =
          bytes.drop (4 + loadLe bytes 0 4) ++ rest := List.drop_append_of_le_length (by omega)
      rw [scan_eq dec _ hne, if_neg h4', hload, if_neg hfit', hpay, hdrop,
        scan_eq dec bytes hnil, if_neg h4, if_neg hfit]
      cases hd : dec ((bytes.drop 4).take (loadLe bytes 0 4)) with
      | error e => rw [hd] at h; exact absurd h (by simp)
      | ok a =>
        rw [hd] at h
        have hlt : (bytes.drop (4 + loadLe bytes 0 4)).length < n := by
          rw [List.length_drop]; omega
        have := ih _ hlt (bytes.drop (4 + loadLe bytes 0 4)) h rfl
        simp only [this, List.cons_append]

/-! ## 4. Streams of records

`enc` is the payload encoder that belongs to `dec`.  A record is `Framable` when its payload is
not empty, its length fits the 32-bit prefix and it decodes to itself. -/

section Stream

variable (dec : List UInt8 → Except ε α) (enc : α → List UInt8)

/-- The record survives being put in a frame. -/
def Framable (a : α) : Prop :=
  0 < (enc a).length ∧ (enc a).length < 256 ^ 4 ∧ dec (enc a) = .ok a

/-- The log that holds exactly these records. -/
def stream (as : List α) : List UInt8 := as.flatMap fun a => frame (enc a)

variable {dec enc}

@[simp] theorem stream_nil : stream enc ([] : List α) = [] := rfl

@[simp] theorem stream_cons (a : α) (as : List α) :
    stream enc (a :: as) = frame (enc a) ++ stream enc as := rfl

@[simp] theorem stream_append (as bs : List α) :
    stream enc (as ++ bs) = stream enc as ++ stream enc bs := by
  simp only [stream, List.flatMap_append]

/-- **A written log reads back**, and reading goes on with whatever follows it. -/
theorem scan_stream (as : List α) (h : ∀ a ∈ as, Framable dec enc a) (rest : List UInt8) :
    scan dec (stream enc as ++ rest) = (as ++ (scan dec rest).1, (scan dec rest).2) := by
  induction as with
  | nil => simp only [stream_nil, List.nil_append]
  | cons a as ih =>
    obtain ⟨hpos, h32, hdec⟩ := h a (List.mem_cons_self ..)
    have ih := ih fun b hb => h b (List.mem_cons_of_mem _ hb)
    rw [stream_cons, List.append_assoc, scan_frame hpos h32 hdec, ih, List.cons_append]

/-- A proper, non-empty prefix of one frame is damage. -/
theorem scan_take_frame {p : List UInt8} (h32 : p.length < 256 ^ 4) {n : Nat} (h0 : 0 < n)
    (hn : n < 4 + p.length) : scan dec ((frame p).take n) = ([], false) := by
  have hlen : ((frame p).take n).length = n := by
    rw [List.length_take, frame_length]; omega
  have hne : (frame p).take n ≠ [] := List.ne_nil_of_length_pos (by omega)
  rw [scan_eq dec _ hne]
  by_cases h4 : n < 4
  · rw [if_pos (by omega)]
  · have hload : loadLe ((frame p).take n) 0 4 = p.length := by
      have := loadLe_frame h32 []
      rw [List.append_nil] at this
      rw [← this]
      simp only [loadLe, List.drop_zero, List.take_take]
      rw [Nat.min_eq_left (by omega)]
    rw [if_neg (by omega), hload, if_pos (by omega)]

/-- **A torn log.**  Reading a prefix of a log gives a prefix of its records; if the reader sees
no damage then the prefix is itself the log of those records. -/
theorem scan_torn (as : List α) (h : ∀ a ∈ as, Framable dec enc a) (n : Nat) :
    ∃ k, (scan dec ((stream enc as).take n)).1 = as.take k ∧
      ((scan dec ((stream enc as).take n)).2 = true →
        (stream enc as).take n = stream enc (as.take k)) := by
  induction as generalizing n with
  | nil => exact ⟨0, by simp, by simp⟩
  | cons a as ih =>
    obtain ⟨hpos, h32, hdec⟩ := h a (List.mem_cons_self ..)
    by_cases h0 : n = 0
    · subst h0
      exact ⟨0, by simp, by simp⟩
    by_cases hn : n < 4 + (enc a).length
    · -- the cut is inside the first frame
      have htake : (stream enc (a :: as)).take n = (frame (enc a)).take n := by
        rw [stream_cons, List.take_append_of_le_length (by rw [frame_length]; omega)]
      have hscan : scan dec ((frame (enc a)).take n) = ([], false) :=
        scan_take_frame h32 (by omega) hn
      refine ⟨0, ?_, ?_⟩
      · rw [htake, hscan, List.take_zero]
      · rw [htake, hscan]
        exact fun hf => absurd hf (by simp)
    · have htake : (stream enc (a :: as)).take n =
          frame (enc a) ++ (stream enc as).take (n - (4 + (enc a).length)) := by
        rw [stream_cons, List.take_append, List.take_of_length_le (by rw [frame_length]; omega),
          frame_length]
      obtain ⟨k, hk, hclean⟩ := ih (fun b hb => h b (List.mem_cons_of_mem _ hb))
        (n - (4 + (enc a).length))
      refine ⟨k + 1, ?_, ?_⟩
      · rw [htake, scan_frame hpos h32 hdec, hk, List.take_succ_cons]
      · rw [htake, scan_frame hpos h32 hdec]
        intro hf
        rw [hclean hf, List.take_succ_cons, stream_cons]

/-! ## 5. Cutting a log anywhere

The records of a log carry the offset their frame ends at.  A cut keeps those whose frame ends at
or before it. -/

variable (enc) in
/-- The records whose frames lie wholly before the cut, for a log that begins at `start`. -/
def wholeBefore (cut : Nat) : (start : Nat) → List α → List α
  | _, [] => []
  | start, a :: as =>
    let stop := start + (frame (enc a)).length
    if stop ≤ cut then a :: wholeBefore cut stop as else wholeBefore cut stop as

variable (enc) in
/-- The cut falls between two frames, or at either end of the log. -/
def FrameBoundary (as : List α) (cut : Nat) : Prop :=
  ∃ k ≤ as.length, cut = (stream enc (as.take k)).length

/-- Behind the cut nothing is whole. -/
theorem wholeBefore_of_lt {cut start : Nat} (h : cut < start) (as : List α) :
    wholeBefore enc cut start as = [] := by
  induction as generalizing start with
  | nil => rfl
  | cons a as ih =>
    have hstop : ¬ start + (frame (enc a)).length ≤ cut := by omega
    rw [wholeBefore, if_neg hstop]
    exact ih (by omega)

/-- Only the distance from the start of the log to the cut matters. -/
theorem wholeBefore_shift (d cut start : Nat) (as : List α) :
    wholeBefore enc (cut + d) (start + d) as = wholeBefore enc cut start as := by
  induction as generalizing start with
  | nil => rfl
  | cons a as ih =>
    have hstop : start + d + (frame (enc a)).length = start + (frame (enc a)).length + d := by
      omega
    simp only [wholeBefore, hstop, ih, Nat.add_le_add_iff_right]

theorem frameBoundary_zero (as : List α) : FrameBoundary enc as 0 := ⟨0, Nat.zero_le _, rfl⟩

/-- Past the first frame, the boundaries are those of the rest of the log. -/
theorem frameBoundary_cons_add (a : α) (as : List α) (cut : Nat) :
    FrameBoundary enc (a :: as) ((frame (enc a)).length + cut) ↔ FrameBoundary enc as cut := by
  constructor
  · rintro ⟨k, hk, hcut⟩
    cases k with
    | zero =>
      rw [List.take_zero, stream_nil, List.length_nil, frame_length] at hcut
      omega
    | succ k =>
      rw [List.take_succ_cons, stream_cons, List.length_append] at hcut
      exact ⟨k, Nat.le_of_succ_le_succ hk, by omega⟩
  · rintro ⟨k, hk, rfl⟩
    refine ⟨k + 1, Nat.succ_le_succ hk, ?_⟩
    rw [List.take_succ_cons, stream_cons, List.length_append]

/-- No boundary lies inside the first frame. -/
theorem not_frameBoundary_inside {a : α} {as : List α} {cut : Nat} (h0 : 0 < cut)
    (hcut : cut < (frame (enc a)).length) : ¬ FrameBoundary enc (a :: as) cut := by
  rintro ⟨k, hk, rfl⟩
  cases k with
  | zero => exact absurd h0 (Nat.lt_irrefl 0)
  | succ k =>
    rw [List.take_succ_cons, stream_cons, List.length_append] at hcut
    omega

/-- **A log cut anywhere** reads back as the records whose frames lie wholly before the cut, and
the end is reported clean exactly when the cut falls on a frame boundary. -/
theorem scan_take_stream (as : List α) (h : ∀ a ∈ as, Framable dec enc a) (cut : Nat)
    (hcut : cut ≤ (stream enc as).length) :
    (scan dec ((stream enc as).take cut)).1 = wholeBefore enc cut 0 as ∧
      ((scan dec ((stream enc as).take cut)).2 = true ↔ FrameBoundary enc as cut) := by
  induction as generalizing cut with
  | nil =>
    rw [stream_nil, List.length_nil] at hcut
    obtain rfl : cut = 0 := by omega
    rw [stream_nil, List.take_nil, scan_nil]
    exact ⟨rfl, iff_of_true rfl (frameBoundary_zero [])⟩
  | cons a as ih =>
    obtain ⟨hpos, h32, hdec⟩ := h a (List.mem_cons_self ..)
    by_cases hwhole : (frame (enc a)).length ≤ cut
    · -- the first frame is whole: read it and go on behind it
      obtain ⟨rest, rfl⟩ := Nat.exists_eq_add_of_le hwhole
      have htake : (stream enc (a :: as)).take ((frame (enc a)).length + rest) =
          frame (enc a) ++ (stream enc as).take rest := by
        rw [stream_cons, List.take_length_add_append]
      rw [stream_cons, List.length_append] at hcut
      obtain ⟨hrecords, hclean⟩ := ih (fun b hb => h b (List.mem_cons_of_mem _ hb)) rest (by omega)
      have hshift : wholeBefore enc (rest + (frame (enc a)).length)
          (0 + (frame (enc a)).length) as = wholeBefore enc rest 0 as := wholeBefore_shift ..
      rw [htake, scan_frame hpos h32 hdec]
      refine ⟨?_, hclean.trans (frameBoundary_cons_add a as rest).symm⟩
      rw [wholeBefore, Nat.zero_add, if_pos (Nat.le_add_right ..), hrecords, ← hshift,
        Nat.zero_add, Nat.add_comm rest]
    · -- the cut is in front of the first frame or inside it
      have hlt : cut < (frame (enc a)).length := by omega
      have htake : (stream enc (a :: as)).take cut = (frame (enc a)).take cut := by
        rw [stream_cons, List.take_append_of_le_length (by omega)]
      have hnone : wholeBefore enc cut 0 (a :: as) = [] := by
        rw [wholeBefore, Nat.zero_add, if_neg hwhole, wholeBefore_of_lt hlt]
      rw [htake, hnone]
      by_cases h0 : cut = 0
      · subst h0
        rw [List.take_zero, scan_nil]
        exact ⟨rfl, iff_of_true rfl (frameBoundary_zero _)⟩
      · rw [scan_take_frame h32 (by omega) (by rwa [frame_length] at hlt)]
        refine ⟨rfl, iff_of_false (by simp) ?_⟩
        exact not_frameBoundary_inside (by omega) hlt

end Stream

end ByteCodec
