/-
# What a log says about the fragment file

The file holds what the writes through an open handle left in it: the bytes of records, in batches
and in large frames, and the markers between them.  Here a log is read for how many there are of
each, and for the record bytes behind a cap marker.
-/
import IoMon.Writer.RetiredFragment

namespace IoMon.SlotMachine

open ByteText MonitorRecordKind

/-! ## 1. The file of a log -/

/-- The bytes an event leaves in the fragment file.  A closed handle reaches no file. -/
def SlotEvent.fileBytes : SlotEvent → Nat
  | wrote _ true bytes reached => min reached bytes.length
  | _ => 0

def SlotEvent.isMarker : SlotEvent → Bool
  | wrote (.marker _) _ _ _ => true
  | _ => false

/-- The bytes of records, in batches and in large frames. -/
def SlotEvent.recordBytes (e : SlotEvent) : Nat := if e.isMarker then 0 else e.fileBytes

/-- A whole cap marker. -/
def SlotEvent.isCapMarker : SlotEvent → Bool
  | wrote (.marker detail) true bytes reached =>
    detail == FragmentCapReachedDetail && decide (bytes.length ≤ reached)
  | _ => false

def SlotEvent.markerFrameLen : SlotEvent → Nat
  | wrote (.marker _) _ bytes _ => bytes.length
  | _ => 0

/-- The size of the fragment file. -/
def fileBytes (log : List SlotEvent) : Nat := (log.map SlotEvent.fileBytes).sum

def recordBytes (log : List SlotEvent) : Nat := (log.map SlotEvent.recordBytes).sum

/-- The marker writes, of which none need have reached the file. -/
def markerCount (log : List SlotEvent) : Nat := log.countP SlotEvent.isMarker

def largestMarker (log : List SlotEvent) : Nat := (log.map SlotEvent.markerFrameLen).foldr max 0

def capMarkers (log : List SlotEvent) : Nat := log.countP SlotEvent.isCapMarker

/-- The record bytes behind the first cap marker. -/
def lateBytes : List SlotEvent → Nat
  | [] => 0
  | e :: rest => if e.isCapMarker then recordBytes rest else lateBytes rest

/-! ## 2. What an event adds -/

/-- An event that is neither record bytes nor a cap marker. -/
structure SlotEvent.Plain (e : SlotEvent) : Prop where
  recordBytes : e.recordBytes = 0
  isCapMarker : e.isCapMarker = false

theorem recordBytes_append (log log' : List SlotEvent) :
    recordBytes (log ++ log') = recordBytes log + recordBytes log' := by
  rw [recordBytes, List.map_append, List.sum_append, recordBytes, recordBytes]

theorem fileBytes_append (log log' : List SlotEvent) :
    fileBytes (log ++ log') = fileBytes log + fileBytes log' := by
  rw [fileBytes, List.map_append, List.sum_append, fileBytes, fileBytes]

theorem capMarkers_append (log log' : List SlotEvent) :
    capMarkers (log ++ log') = capMarkers log + capMarkers log' :=
  List.countP_append

theorem recordBytes_singleton (e : SlotEvent) : recordBytes [e] = e.recordBytes := by
  rw [recordBytes, List.map_singleton, List.sum_singleton]

/-- Without a cap marker nothing is late. -/
theorem lateBytes_eq_zero {log : List SlotEvent} (h : capMarkers log = 0) : lateBytes log = 0 := by
  induction log with
  | nil => rfl
  | cons e rest ih =>
    rw [capMarkers, List.countP_cons, Nat.add_eq_zero_iff] at h
    cases he : e.isCapMarker with
    | true => exact absurd h.2 (by simp [he])
    | false =>
      rw [lateBytes, he, if_neg Bool.false_ne_true]
      exact ih h.1

/-- Events without record bytes are never late. -/
theorem lateBytes_append (log : List SlotEvent) {log' : List SlotEvent}
    (h : recordBytes log' = 0) (hlate : lateBytes log' = 0) :
    lateBytes (log ++ log') = lateBytes log := by
  induction log with
  | nil => exact hlate
  | cons e rest ih =>
    rw [List.cons_append, lateBytes, lateBytes]
    split
    · rw [recordBytes_append, h, Nat.add_zero]
    · exact ih

theorem marker_fileBytes_le {e : SlotEvent} (h : e.isMarker = true) :
    e.fileBytes ≤ e.markerFrameLen := by
  cases e with
  | wrote kind slotOpen bytes reached =>
    cases kind with
    | marker detail =>
      cases slotOpen with
      | true => exact Nat.min_le_right reached bytes.length
      | false => exact Nat.zero_le _
    | batch => exact absurd h Bool.false_ne_true
    | giant => exact absurd h Bool.false_ne_true
  | buffered slotOpen r => exact absurd h Bool.false_ne_true
  | closed => exact absurd h Bool.false_ne_true
  | givenUp => exact absurd h Bool.false_ne_true

/-- A file is its records and its markers. -/
theorem fileBytes_le (log : List SlotEvent) :
    fileBytes log ≤ recordBytes log + markerCount log * largestMarker log := by
  induction log with
  | nil => exact Nat.zero_le _
  | cons e rest ih =>
    have hrest : markerCount rest * largestMarker rest ≤
        markerCount rest * largestMarker (e :: rest) :=
      Nat.mul_le_mul_left _ (Nat.le_max_right _ _)
    have hfile : fileBytes (e :: rest) = e.fileBytes + fileBytes rest := List.sum_cons
    have hrecord : recordBytes (e :: rest) = e.recordBytes + recordBytes rest := List.sum_cons
    cases hmarker : e.isMarker with
    | false =>
      have hcount : markerCount (e :: rest) = markerCount rest := by
        rw [markerCount, List.countP_cons_of_neg (by simp [hmarker]), markerCount]
      have hbytes : e.recordBytes = e.fileBytes := by
        rw [SlotEvent.recordBytes, hmarker, if_neg Bool.false_ne_true]
      rw [hcount]
      omega
    | true =>
      have hcount : markerCount (e :: rest) = markerCount rest + 1 := by
        rw [markerCount, List.countP_cons_of_pos hmarker, markerCount]
      have hframe := marker_fileBytes_le hmarker
      have hlargest : e.markerFrameLen ≤ largestMarker (e :: rest) := Nat.le_max_left _ _
      rw [hcount, Nat.succ_mul]
      omega

/-- The same records and the same cap markers. -/
structure SameRecords (log log' : List SlotEvent) : Prop where
  recordBytes : recordBytes log' = recordBytes log
  capMarkers : capMarkers log' = capMarkers log
  lateBytes : lateBytes log' = lateBytes log

theorem SameRecords.refl (log : List SlotEvent) : SameRecords log log := ⟨rfl, rfl, rfl⟩

theorem SameRecords.trans {l m n : List SlotEvent} (h : SameRecords l m) (h' : SameRecords m n) :
    SameRecords l n :=
  ⟨h'.recordBytes.trans h.recordBytes, h'.capMarkers.trans h.capMarkers,
    h'.lateBytes.trans h.lateBytes⟩

theorem sameRecords_plain (log : List SlotEvent) {e : SlotEvent} (h : e.Plain) :
    SameRecords log (log ++ [e]) := by
  have hcap : capMarkers [e] = 0 := by
    rw [SlotMachine.capMarkers, List.countP_singleton, h.isCapMarker, if_neg Bool.false_ne_true]
  have hrecord : recordBytes [e] = 0 := (recordBytes_singleton e).trans h.recordBytes
  refine ⟨?_, ?_, ?_⟩
  · rw [recordBytes_append, hrecord, Nat.add_zero]
  · rw [capMarkers_append, hcap, Nat.add_zero]
  · exact lateBytes_append log hrecord (lateBytes_eq_zero hcap)

end IoMon.SlotMachine
