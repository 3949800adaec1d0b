/-
# One monitor inside another

A monitor that runs inside a monitored process owes its parent the evidence it collects.  Before it
launches its command it writes a PENDING LOSS FRAGMENT into the parent's fragment directory; when it
has its records it writes them, rewritten to the parent's run, into a staging file, renames that
file into place, and only then removes the pending fragment.  A host that dies anywhere in between
leaves the loss behind.

The two procedures are one machine.  Every file operation is one step that succeeds or raises, the C
library may write part of a buffer to the file at any moment, and a kill is a run that stops.

  * `tokens_parentDetail` -- which tokens the rewriting of a detail leaves;
  * `Handoff.Inv` -- what holds at each point, and `Handoff.Inv.step`;
  * `markerHeld_incomplete` -- a parent that finds the pending fragment is incomplete;
  * `nested_handoff_safe` -- the hand-off is crash safe.  The records handed over are all but the
    backend profiles: each consumer stamps its own, and `profile_not_handed_over` shows one that
    stays behind.
-/
import IoMon.Lib.Paths
import IoMon.Merge.Verdict
import IoMon.Shim.RunStamp

namespace IoMon

open ByteText ByteCodec MonitorRecordKind MonitorObservationKind MonitorCompleteness

/-! ## 1. The rewriting of a detail -/

/-- The loop of `parentDetail`.  `skipping` is its inner loop, which drops a token; `fresh` says
that the position is the first one or follows whitespace. -/
def dropRunTokens : (skipping fresh : Bool) → NimStr → NimStr
  | _, _, [] => []
  | true, _, c :: rest =>
      if isSpace c then c :: dropRunTokens false true rest else dropRunTokens true false rest
  | false, fresh, c :: rest =>
      if fresh && startsWith (c :: rest) (str "run=") then dropRunTokens true false rest
      else c :: dropRunTokens false (isSpace c) rest

def parentDetail (detail parentRun sourceRun : NimStr) : NimStr :=
  dropRunTokens false true detail ++ str " run=" ++ parentRun ++ str " nested-run=" ++ sourceRun

/-- The token names a run. -/
def isRunToken (tok : NimStr) : Bool := startsWith tok (str "run=")

/-- A needle without a space is looked for in the text up to the first space. -/
theorem startsWith_append_space {sp : UInt8} (hsp : isSpace sp = true) {needle : NimStr}
    (hneedle : ∀ c ∈ needle, isSpace c = false) (w t : NimStr) :
    startsWith (w ++ sp :: t) needle = startsWith w needle := by
  induction needle generalizing w with
  | nil => simp [startsWith]
  | cons c needle ih =>
      cases w with
      | nil =>
          have hne : (c == sp) = false := by
            rw [beq_eq_false_iff_ne]
            rintro rfl
            have hc := hneedle c (List.mem_cons_self ..)
            rw [hsp] at hc
            cases hc
          rw [List.nil_append, startsWith, startsWith, List.isPrefixOf_cons_cons, hne,
            Bool.false_and]
          rfl
      | cons d w =>
          have hrest := ih (fun e he => hneedle e (List.mem_cons_of_mem _ he)) w
          simp only [startsWith] at hrest
          simp only [startsWith, List.cons_append, List.isPrefixOf_cons_cons, hrest]

theorem startsWith_run_append_space {sp : UInt8} (hsp : isSpace sp = true) (w t : NimStr) :
    startsWith (w ++ sp :: t) (str "run=") = startsWith w (str "run=") :=
  startsWith_append_space hsp (by decide +kernel) w t

/-- What lies behind a space is rewritten on its own. -/
theorem dropRunTokens_append_space {sp : UInt8} (hsp : isSpace sp = true) (t w : NimStr) :
    ∀ skipping fresh, dropRunTokens skipping fresh (w ++ sp :: t) =
      dropRunTokens skipping fresh w ++ sp :: dropRunTokens false true t := by
  have hrun : startsWith (sp :: t) (str "run=") = false := startsWith_run_append_space hsp [] t
  induction w with
  | nil =>
      intro skipping fresh
      cases skipping with
      | true => simp [dropRunTokens, hsp]
      | false => simp [dropRunTokens, hrun, hsp]
  | cons c w ih =>
      intro skipping fresh
      cases skipping with
      | true =>
          simp only [List.cons_append, dropRunTokens]
          split
          · rw [ih, List.cons_append]
          · rw [ih]
      | false =>
          have hword := startsWith_run_append_space hsp (c :: w) t
          rw [List.cons_append] at hword
          simp only [List.cons_append, dropRunTokens, hword]
          split
          · rw [ih]
          · rw [ih, List.cons_append]

/-- A word is dropped as a whole or kept as a whole. -/
theorem dropRunTokens_word {w : NimStr} (h : ∀ c ∈ w, isSpace c = false) :
    dropRunTokens false true w = if isRunToken w then [] else w := by
  have hskip : ∀ v : NimStr, (∀ c ∈ v, isSpace c = false) →
      dropRunTokens true false v = [] := by
    intro v
    induction v with
    | nil => intro _; rfl
    | cons c v ih =>
        intro hv
        rw [dropRunTokens, hv c (List.mem_cons_self ..), if_neg Bool.false_ne_true]
        exact ih fun d hd => hv d (List.mem_cons_of_mem _ hd)
  have hcopy : ∀ v : NimStr, (∀ c ∈ v, isSpace c = false) →
      dropRunTokens false false v = v := by
    intro v
    induction v with
    | nil => intro _; rfl
    | cons c v ih =>
        intro hv
        rw [dropRunTokens, Bool.false_and, if_neg Bool.false_ne_true,
          hv c (List.mem_cons_self ..), ih fun d hd => hv d (List.mem_cons_of_mem _ hd)]
  cases w with
  | nil => rfl
  | cons c w =>
      have hw : ∀ d ∈ w, isSpace d = false := fun d hd => h d (List.mem_cons_of_mem _ hd)
      rw [dropRunTokens, Bool.true_and, isRunToken, hskip w hw, h c (List.mem_cons_self ..),
        hcopy w hw]

/-- Every text is a word, or a word, a space and a shorter text. -/
theorem word_or_split (s : NimStr) : (∀ c ∈ s, isSpace c = false) ∨
    ∃ w sp t, s = w ++ sp :: t ∧ (∀ c ∈ w, isSpace c = false) ∧ isSpace sp = true := by
  induction s with
  | nil => exact .inl (by simp)
  | cons c s ih =>
      cases hc : isSpace c with
      | true => exact .inr ⟨[], c, s, rfl, by simp, hc⟩
      | false =>
          rcases ih with h | ⟨w, sp, t, rfl, hw, hsp⟩
          · exact .inl (List.forall_mem_cons.mpr ⟨hc, h⟩)
          · exact .inr ⟨c :: w, sp, t, rfl, List.forall_mem_cons.mpr ⟨hc, hw⟩, hsp⟩

theorem tokens_dropRunTokens_word {w : NimStr} (h : ∀ c ∈ w, isSpace c = false) :
    tokens (dropRunTokens false true w) = (tokens w).filter fun tok => !isRunToken tok := by
  rw [dropRunTokens_word h]
  by_cases hne : w = []
  · subst hne
    rfl
  · rw [tokens_of_noSpace h hne]
    cases hrun : isRunToken w with
    | true => simp [hrun, tokens, tokensFrom]
    | false => simp [hrun, tokens_of_noSpace h hne]

/-- **The loop drops the run tokens and nothing else.** -/
theorem tokens_dropRunTokens (s : NimStr) :
    tokens (dropRunTokens false true s) = (tokens s).filter fun tok => !isRunToken tok := by
  induction hn : s.length using Nat.strong_induction_on generalizing s with
  | _ n ih =>
      rcases word_or_split s with hword | ⟨w, sp, t, rfl, hw, hsp⟩
      · exact tokens_dropRunTokens_word hword
      · rw [dropRunTokens_append_space hsp, tokens_append_space hsp, tokens_append_space hsp,
          List.filter_append, tokens_dropRunTokens_word hw]
        rw [ih t.length (by rw [← hn, List.length_append, List.length_cons]; omega) t rfl]

/-- **The tokens of a rewritten detail**: those that name no run, in order, then the parent's run,
then where the record comes from. -/
theorem tokens_parentDetail (detail : NimStr) (parent source : RunId) :
    tokens (parentDetail detail parent.text source.text) =
      (tokens detail).filter (fun tok => !isRunToken tok) ++
        [str "run=" ++ parent.text, str "nested-run=" ++ source.text] := by
  have hrun : ∀ c ∈ str "run=" ++ parent.text, isSpace c = false := by
    intro c hc
    rcases List.mem_append.mp hc with hc | hc
    · exact (by decide +kernel : ∀ c ∈ str "run=", isSpace c = false) c hc
    · exact parent.noSpace c hc
  have hnested : ∀ c ∈ str "nested-run=" ++ source.text, isSpace c = false := by
    intro c hc
    rcases List.mem_append.mp hc with hc | hc
    · exact (by decide +kernel : ∀ c ∈ str "nested-run=", isSpace c = false) c hc
    · exact source.noSpace c hc
  have hparts : parentDetail detail parent.text source.text =
      dropRunTokens false true detail ++ 32 :: ((str "run=" ++ parent.text) ++
        32 :: (str "nested-run=" ++ source.text)) := by
    have h1 : str " run=" = 32 :: str "run=" := by decide
    have h2 : str " nested-run=" = 32 :: str "nested-run=" := by decide
    simp [parentDetail, h1, h2]
  have hlit : str "run=" ≠ [] ∧ str "nested-run=" ≠ [] := by decide
  rw [hparts, tokens_append_space (by decide), tokens_append_space (by decide),
    tokens_dropRunTokens, tokens_of_noSpace hrun (by simp [hlit.1]),
    tokens_of_noSpace hnested (by simp [hlit.2])]
  rfl

/-! ## 2. The capture and its files -/

structure NestedCapture where
  parentRun : NimStr
  sourceRun : NimStr
  pendingPath : NimStr
  evidencePath : NimStr
  deriving DecidableEq, Repr

def NestedCapture.active (c : NestedCapture) : Bool := decide (c.pendingPath.length > 0)

def NestedCapture.staging (c : NestedCapture) : NimStr := c.evidencePath ++ str ".partial"

/-- What `startNestedCapture` fills in before its first file operation. -/
def nestedCapture (fragmentDir parentRun sourceRun : NimStr) : NestedCapture :=
  if fragmentDir.isEmpty || parentRun.isEmpty then ⟨[], [], [], []⟩
  else
    let stem := NimPath.joinPath fragmentDir (str "nested-" ++ sourceRun)
    { parentRun := parentRun
      sourceRun := sourceRun
      pendingPath := stem ++ str "-pending.iomon-frag"
      evidencePath := stem ++ str ".iomon-frag" }

/-- The loss that stands for a capture that is not handed over yet. -/
def NestedCapture.pendingRecord (c : NestedCapture) : MonitorRecord :=
  lossRecord (str "nested monitor evidence handoff pending run=" ++ c.parentRun ++
    str " nested-run=" ++ c.sourceRun)

def NestedCapture.reattribute (c : NestedCapture) (record : MonitorRecord) : MonitorRecord :=
  { record with detail := parentDetail record.detail c.parentRun c.sourceRun }

/-- The records that are handed over: each consumer stamps its own profile. -/
def NestedCapture.handed (c : NestedCapture) (records : List MonitorRecord) : List MonitorRecord :=
  (records.filter fun r => r.kind != mrBackendProfile).map c.reattribute

/-! ## 3. The two procedures, operation by operation -/

/-- Where the host is: in `startNestedCapture`, between the two calls, or in
`finishNestedCapture`. -/
inductive HandoffPc
  | openPending
  | writePending
  | closePending (raising : Bool)
  | started
  | running
  | openStaging (records : List MonitorRecord)
  | writeStaging (todo : List MonitorRecord)
  | closeStaging (raising : Bool)
  | moveStaging
  | removePending
  | cleanup
  | ended
  deriving DecidableEq, Repr

/-- The host and the parent's fragment directory.  `buffered` is what was given to the open file so
far; `collected` the records of the nested capture, once there are any. -/
structure Handoff where
  pc : HandoffPc
  dir : NimStr → Option (List UInt8)
  buffered : List UInt8
  launched : Bool
  collected : Option (List MonitorRecord)

/-- What can happen next. -/
inductive HandoffEvent
  /-- the operation at hand succeeds -/
  | succeeds
  /-- it raises; so many bytes of it got through -/
  | raises (through : Nat)
  /-- the C library writes so many bytes of the buffer to the open file -/
  | flush (through : Nat)
  /-- `startMonitor` goes on and spawns the command -/
  | launch
  /-- the merge of the nested capture returned these records -/
  | collect (records : List MonitorRecord)
  /-- another process of the parent's tree writes or removes a file of its own -/
  | other (path : NimStr) (content : Option (List UInt8))

def initialHandoff (c : NestedCapture) (dir : NimStr → Option (List UInt8)) : Handoff where
  pc := if c.active then .openPending else .started
  dir := dir
  buffered := []
  launched := false
  collected := none

/-- The file that is open for writing. -/
def HandoffPc.openFile (c : NestedCapture) : HandoffPc → Option NimStr
  | .writePending | .closePending _ => some c.pendingPath
  | .writeStaging _ | .closeStaging _ => some c.staging
  | _ => none

def Handoff.put (s : Handoff) (path : NimStr) (content : Option (List UInt8)) : Handoff :=
  { s with dir := Function.update s.dir path content }

/-- The operation at the counter succeeds. -/
def Handoff.succeed (c : NestedCapture) (s : Handoff) : Option Handoff :=
  match s.pc with
  | .openPending =>
      some { s.put c.pendingPath (some []) with pc := .writePending, buffered := [] }
  | .writePending =>
      some { s with pc := .closePending false, buffered := encodeFrame c.pendingRecord }
  | .closePending raising =>
      some { s.put c.pendingPath (some s.buffered) with pc := if raising then .ended else .started }
  | .started | .running | .ended => none
  | .openStaging records =>
      some { s.put c.staging (some []) with pc := .writeStaging records, buffered := [] }
  | .writeStaging [] => some { s with pc := .closeStaging false }
  | .writeStaging (source :: todo) =>
      if source.kind = mrBackendProfile then some { s with pc := .writeStaging todo }
      else
        some { s with
          pc := .writeStaging todo
          buffered := s.buffered ++ encodeFrame (c.reattribute source) }
  | .closeStaging raising =>
      some { s.put c.staging (some s.buffered) with
        pc := if raising then .cleanup else .moveStaging }
  | .moveStaging =>
      some { (s.put c.evidencePath (s.dir c.staging)).put c.staging none with pc := .removePending }
  | .removePending => some { s.put c.pendingPath none with pc := .cleanup }
  | .cleanup => some { s.put c.staging none with pc := .ended }

/-- The operation at the counter raises.  A short write leaves part of its frame in the buffer, a
failed close part of the buffer in the file; `finally` closes the file and removes the staging
file. -/
def Handoff.raised (c : NestedCapture) (s : Handoff) (through : Nat) : Option Handoff :=
  match s.pc with
  | .openPending => some { s with pc := .ended }
  | .writePending =>
      some { s with
        pc := .closePending true, buffered := (encodeFrame c.pendingRecord).take through }
  | .closePending _ =>
      some { s.put c.pendingPath (some (s.buffered.take through)) with pc := .ended }
  | .started | .running | .ended => none
  | .openStaging _ => some { s with pc := .cleanup }
  | .writeStaging [] => none
  | .writeStaging (source :: _) =>
      if source.kind = mrBackendProfile then none
      else
        some { s with
          pc := .closeStaging true
          buffered := s.buffered ++ (encodeFrame (c.reattribute source)).take through }
  | .closeStaging _ => some { s.put c.staging (some (s.buffered.take through)) with pc := .cleanup }
  | .moveStaging | .removePending => some { s with pc := .cleanup }
  | .cleanup => some { s with pc := .ended }

/-- Paths are compared byte by byte. -/
local instance lawfulBEqPath : LawfulBEq NimStr := inferInstance

def handoffStep (c : NestedCapture) (s : Handoff) : HandoffEvent → Option Handoff
  | .succeeds => s.succeed c
  | .raises through => s.raised c through
  | .flush through => (s.pc.openFile c).map fun path => s.put path (some (s.buffered.take through))
  | .launch => if s.pc = .started then some { s with pc := .running, launched := true } else none
  | .collect records =>
      if s.pc = .running then
        some { s with
          pc := if c.active then .openStaging records else .ended
          collected := some records }
      else none
  | .other path content =>
      if path ∈ [c.pendingPath, c.staging, c.evidencePath] then none else some (s.put path content)

/-- A run; a kill is where it stops. -/
def handoffRun (c : NestedCapture) (s : Handoff) (events : List HandoffEvent) : Option Handoff :=
  events.foldlM (handoffStep c) s

/-! ## 4. What holds at each point -/

/-- The pending fragment is there, whole. -/
def MarkerHeld (c : NestedCapture) (dir : NimStr → Option (List UInt8)) : Prop :=
  dir c.pendingPath = some (stream encodeRecordPayload [c.pendingRecord])

/-- The evidence fragment is there, and holds these records rewritten to the parent's run. -/
def HandedOver (c : NestedCapture) (dir : NimStr → Option (List UInt8))
    (records : List MonitorRecord) : Prop :=
  dir c.evidencePath = some (stream encodeRecordPayload (c.handed records))

/-- A launched capture is pending or handed over. -/
def Handoff.Safe (c : NestedCapture) (s : Handoff) : Prop :=
  s.launched = true → MarkerHeld c s.dir ∨ ∃ records, s.collected = some records ∧
    HandedOver c s.dir records

/-- **The invariant.**  Until the pending fragment is whole nothing is launched; from then on it is
there until the evidence fragment is. -/
def Handoff.Inv (c : NestedCapture) (s : Handoff) : Prop :=
  match s.pc with
  | .openPending | .writePending | .closePending true => s.launched = false
  | .closePending false => s.launched = false ∧
      s.buffered = stream encodeRecordPayload [c.pendingRecord]
  | .started | .running | .closeStaging true => MarkerHeld c s.dir
  | .openStaging records => MarkerHeld c s.dir ∧ s.collected = some records
  | .writeStaging todo => MarkerHeld c s.dir ∧ ∃ written, s.collected = some (written ++ todo) ∧
      s.buffered = stream encodeRecordPayload (c.handed written)
  | .closeStaging false => MarkerHeld c s.dir ∧ ∃ records, s.collected = some records ∧
      s.buffered = stream encodeRecordPayload (c.handed records)
  | .moveStaging => MarkerHeld c s.dir ∧ ∃ records, s.collected = some records ∧
      s.dir c.staging = some (stream encodeRecordPayload (c.handed records))
  | .removePending => MarkerHeld c s.dir ∧ ∃ records, s.collected = some records ∧
      HandedOver c s.dir records
  | .cleanup | .ended => s.Safe c

/-- The three files of a capture are three. -/
structure NestedCapture.Distinct (c : NestedCapture) : Prop where
  staging_ne_pending : c.staging ≠ c.pendingPath
  evidence_ne_pending : c.evidencePath ≠ c.pendingPath
  evidence_ne_staging : c.evidencePath ≠ c.staging

theorem nestedCapture_distinct {fragmentDir parentRun : NimStr} (hdir : fragmentDir ≠ [])
    (hparent : parentRun ≠ []) (sourceRun : NimStr) :
    (nestedCapture fragmentDir parentRun sourceRun).Distinct := by
  have hguard : (fragmentDir.isEmpty || parentRun.isEmpty) = false := by simp [hdir, hparent]
  rw [nestedCapture, if_neg (by simp [hguard])]
  constructor
  · simp only [NestedCapture.staging, List.append_assoc, ne_eq, List.append_cancel_left_eq]
    decide
  · simp only [ne_eq, List.append_cancel_left_eq]
    decide
  · intro h
    have hlen := congrArg List.length h
    simp only [NestedCapture.staging, List.length_append] at hlen
    have hpos : 0 < (str ".partial").length := by decide
    omega

theorem handed_append (c : NestedCapture) (rs ss : List MonitorRecord) :
    c.handed (rs ++ ss) = c.handed rs ++ c.handed ss := by
  simp [NestedCapture.handed]

section Step

variable {c : NestedCapture} {s s' : Handoff}

@[simp] theorem Handoff.put_pc (path : NimStr) (content : Option (List UInt8)) :
    (s.put path content).pc = s.pc := rfl

@[simp] theorem Handoff.put_launched (path : NimStr) (content : Option (List UInt8)) :
    (s.put path content).launched = s.launched := rfl

@[simp] theorem Handoff.put_collected (path : NimStr) (content : Option (List UInt8)) :
    (s.put path content).collected = s.collected := rfl

@[simp] theorem Handoff.put_buffered (path : NimStr) (content : Option (List UInt8)) :
    (s.put path content).buffered = s.buffered := rfl

@[simp] theorem Handoff.put_dir_self (path : NimStr) (content : Option (List UInt8)) :
    (s.put path content).dir path = content := Function.update_self ..

theorem Handoff.put_dir_of_ne {path path' : NimStr} (h : path' ≠ path)
    (content : Option (List UInt8)) : (s.put path content).dir path' = s.dir path' :=
  Function.update_of_ne h ..

/-- Writing to another file leaves the pending fragment. -/
theorem MarkerHeld.put {path : NimStr} (h : MarkerHeld c s.dir) (hne : c.pendingPath ≠ path)
    (content : Option (List UInt8)) : MarkerHeld c (s.put path content).dir := by
  rw [MarkerHeld, Handoff.put_dir_of_ne hne]
  exact h

theorem HandedOver.put {path : NimStr} {records : List MonitorRecord}
    (h : HandedOver c s.dir records) (hne : c.evidencePath ≠ path)
    (content : Option (List UInt8)) : HandedOver c (s.put path content).dir records := by
  rw [HandedOver, Handoff.put_dir_of_ne hne]
  exact h

theorem Handoff.Safe.put {path : NimStr} (h : s.Safe c) (hp : c.pendingPath ≠ path)
    (he : c.evidencePath ≠ path) (content : Option (List UInt8)) :
    (s.put path content).Safe c := by
  intro hl
  rcases h hl with hm | ⟨records, hc, ho⟩
  · exact .inl (hm.put hp content)
  · exact .inr ⟨records, hc, ho.put he content⟩

/-- Before anything is launched every state is safe. -/
theorem Handoff.Safe.of_not_launched (h : s.launched = false) : s.Safe c := by
  intro hl
  rw [h] at hl
  cases hl

theorem Handoff.Inv.succeed (hd : c.Distinct) (h : s.Inv c) (hs : s.succeed c = some s') :
    s'.Inv c := by
  unfold Handoff.Inv at h
  unfold Handoff.succeed at hs
  cases hpc : s.pc with
  | openPending =>
      simp only [hpc] at h hs
      obtain rfl := Option.some.inj hs
      exact h
  | writePending =>
      simp only [hpc] at h hs
      obtain rfl := Option.some.inj hs
      exact ⟨h, by simp [stream, encodeFrame]⟩
  | closePending raising =>
      simp only [hpc] at h hs
      obtain rfl := Option.some.inj hs
      cases raising with
      | true => exact Handoff.Safe.of_not_launched h
      | false =>
          change MarkerHeld c (s.put c.pendingPath (some s.buffered)).dir
          rw [MarkerHeld, Handoff.put_dir_self, h.2]
  | started =>
      simp only [hpc] at hs
      cases hs
  | running =>
      simp only [hpc] at hs
      cases hs
  | ended =>
      simp only [hpc] at hs
      cases hs
  | openStaging records =>
      simp only [hpc] at h hs
      obtain rfl := Option.some.inj hs
      exact ⟨h.1.put hd.staging_ne_pending.symm _, [], h.2, rfl⟩
  | writeStaging todo =>
      simp only [hpc] at h hs
      obtain ⟨hm, written, hc, hb⟩ := h
      cases todo with
      | nil =>
          obtain rfl := Option.some.inj hs
          rw [List.append_nil] at hc
          exact ⟨hm, written, hc, hb⟩
      | cons source todo =>
          have hc' : s.collected = some ((written ++ [source]) ++ todo) := by
            rw [hc, List.append_assoc, List.singleton_append]
          by_cases hk : source.kind = mrBackendProfile
          · -- the profile stays behind, and the buffer already holds all that was handed
            have hnone : c.handed [source] = [] := by simp [NestedCapture.handed, hk]
            simp only [hk, if_true] at hs
            obtain rfl := Option.some.inj hs
            refine ⟨hm, written ++ [source], hc', ?_⟩
            rw [handed_append, hnone, List.append_nil]
            exact hb
          · have hone : c.handed [source] = [c.reattribute source] := by
              simp [NestedCapture.handed, hk]
            simp only [hk, if_false] at hs
            obtain rfl := Option.some.inj hs
            refine ⟨hm, written ++ [source], hc', ?_⟩
            simp [handed_append, hone, stream, hb, encodeFrame]
  | closeStaging raising =>
      simp only [hpc] at h hs
      obtain rfl := Option.some.inj hs
      cases raising with
      | true => exact fun _ => .inl (MarkerHeld.put h hd.staging_ne_pending.symm _)
      | false =>
          obtain ⟨hm, records, hc, hb⟩ := h
          refine ⟨hm.put hd.staging_ne_pending.symm _, records, hc, ?_⟩
          change (s.put c.staging (some s.buffered)).dir c.staging = _
          rw [Handoff.put_dir_self, hb]
  | moveStaging =>
      simp only [hpc] at h hs
      obtain rfl := Option.some.inj hs
      obtain ⟨hm, records, hc, hstaged⟩ := h
      have hmoved : HandedOver c (s.put c.evidencePath (s.dir c.staging)).dir records := by
        rw [HandedOver, Handoff.put_dir_self, hstaged]
      exact ⟨(hm.put hd.evidence_ne_pending.symm _).put hd.staging_ne_pending.symm _,
        records, hc, hmoved.put hd.evidence_ne_staging _⟩
  | removePending =>
      simp only [hpc] at h hs
      obtain rfl := Option.some.inj hs
      obtain ⟨-, records, hc, ho⟩ := h
      exact fun _ => .inr ⟨records, hc, ho.put hd.evidence_ne_pending _⟩
  | cleanup =>
      simp only [hpc] at h hs
      obtain rfl := Option.some.inj hs
      exact h.put hd.staging_ne_pending.symm hd.evidence_ne_staging none

/-- Wherever the pending fragment is still whole, raising leaves it so. -/
theorem Handoff.Inv.raised (hd : c.Distinct) (h : s.Inv c) {through : Nat}
    (hs : s.raised c through = some s') : s'.Inv c := by
  unfold Handoff.Inv at h
  unfold Handoff.raised at hs
  cases hpc : s.pc with
  | openPending =>
      simp only [hpc] at h hs
      obtain rfl := Option.some.inj hs
      exact Handoff.Safe.of_not_launched h
  | writePending =>
      simp only [hpc] at h hs
      obtain rfl := Option.some.inj hs
      exact h
  | closePending raising =>
      have hl : s.launched = false := by
        cases raising with
        | true => simpa only [hpc] using h
        | false => exact (by simpa only [hpc] using h : _ ∧ _).1
      simp only [hpc] at hs
      obtain rfl := Option.some.inj hs
      exact Handoff.Safe.of_not_launched hl
  | started =>
      simp only [hpc] at hs
      cases hs
  | running =>
      simp only [hpc] at hs
      cases hs
  | ended =>
      simp only [hpc] at hs
      cases hs
  | openStaging records =>
      simp only [hpc] at h hs
      obtain rfl := Option.some.inj hs
      exact fun _ => .inl h.1
  | writeStaging todo =>
      simp only [hpc] at h hs
      cases todo with
      | nil => cases hs
      | cons source todo =>
          by_cases hk : source.kind = mrBackendProfile
          · simp only [hk, if_true] at hs
            cases hs
          · simp only [hk, if_false] at hs
            obtain rfl := Option.some.inj hs
            exact h.1
  | closeStaging raising =>
      have hm : MarkerHeld c s.dir := by
        cases raising with
        | true => simpa only [hpc] using h
        | false => exact (by simpa only [hpc] using h : _ ∧ _).1
      simp only [hpc] at hs
      obtain rfl := Option.some.inj hs
      exact fun _ => .inl (hm.put hd.staging_ne_pending.symm _)
  | moveStaging =>
      simp only [hpc] at h hs
      obtain rfl := Option.some.inj hs
      exact fun _ => .inl h.1
  | removePending =>
      simp only [hpc] at h hs
      obtain rfl := Option.some.inj hs
      exact fun _ => .inl h.1
  | cleanup =>
      simp only [hpc] at h hs
      obtain rfl := Option.some.inj hs
      exact h

/-- A write to a file that no point of the invariant speaks about. -/
theorem Handoff.Inv.put {path : NimStr} (h : s.Inv c) (hp : c.pendingPath ≠ path)
    (he : c.evidencePath ≠ path) (hst : s.pc = .moveStaging → c.staging ≠ path)
    (content : Option (List UInt8)) : (s.put path content).Inv c := by
  unfold Handoff.Inv at h ⊢
  rw [Handoff.put_pc]
  cases hpc : s.pc with
  | openPending | writePending => simpa only [hpc, Handoff.put_launched] using h
  | closePending raising =>
      cases raising <;> simpa only [hpc, Handoff.put_launched, Handoff.put_buffered] using h
  | started | running =>
      simp only [hpc] at h
      exact MarkerHeld.put h hp content
  | openStaging records =>
      simp only [hpc] at h
      exact ⟨h.1.put hp content, h.2⟩
  | writeStaging todo =>
      simp only [hpc] at h
      exact ⟨h.1.put hp content, h.2⟩
  | closeStaging raising =>
      simp only [hpc] at h
      cases raising with
      | true => exact MarkerHeld.put h hp content
      | false => exact ⟨h.1.put hp content, h.2⟩
  | moveStaging =>
      simp only [hpc] at h
      obtain ⟨hm, records, hc, hstaged⟩ := h
      refine ⟨hm.put hp content, records, hc, ?_⟩
      rw [Handoff.put_dir_of_ne (hst hpc)]
      exact hstaged
  | removePending =>
      simp only [hpc] at h
      obtain ⟨hm, records, hc, ho⟩ := h
      exact ⟨hm.put hp content, records, hc, ho.put he content⟩
  | cleanup | ended =>
      simp only [hpc] at h
      exact h.put hp he content

/-- What the C library writes early is the open file: before anything is launched the pending
fragment, afterwards the staging file. -/
theorem Handoff.Inv.flush (hd : c.Distinct) (h : s.Inv c) {path : NimStr}
    (hopen : s.pc.openFile c = some path) (content : Option (List UInt8)) :
    (s.put path content).Inv c := by
  cases hpc : s.pc with
  | writePending =>
      unfold Handoff.Inv at h ⊢
      rw [Handoff.put_pc]
      simpa only [hpc, Handoff.put_launched] using h
  | closePending raising =>
      unfold Handoff.Inv at h ⊢
      rw [Handoff.put_pc]
      cases raising <;> simpa only [hpc, Handoff.put_launched, Handoff.put_buffered] using h
  | writeStaging todo =>
      rw [hpc] at hopen
      obtain rfl := Option.some.inj hopen
      exact h.put hd.staging_ne_pending.symm hd.evidence_ne_staging (by rw [hpc]; rintro ⟨⟩) _
  | closeStaging raising =>
      rw [hpc] at hopen
      obtain rfl := Option.some.inj hopen
      exact h.put hd.staging_ne_pending.symm hd.evidence_ne_staging (by rw [hpc]; rintro ⟨⟩) _
  | openPending | started | running | openStaging _ | moveStaging | removePending | cleanup
  | ended =>
      rw [hpc] at hopen
      cases hopen

/-- **The step lemma.** -/
theorem Handoff.Inv.step (hd : c.Distinct) (hactive : c.active = true) (h : s.Inv c)
    {event : HandoffEvent} (hs : handoffStep c s event = some s') : s'.Inv c := by
  cases event with
  | succeeds => exact h.succeed hd hs
  | raises through => exact h.raised hd hs
  | flush through =>
      obtain ⟨path, hopen, rfl⟩ := Option.map_eq_some_iff.mp hs
      exact h.flush hd hopen _
  | launch =>
      simp only [handoffStep] at hs
      split at hs
      · next hpc =>
          obtain rfl := Option.some.inj hs
          unfold Handoff.Inv at h
          simp only [hpc] at h
          exact h
      · cases hs
  | collect records =>
      simp only [handoffStep] at hs
      split at hs
      · next hpc =>
          obtain rfl := Option.some.inj hs
          unfold Handoff.Inv at h
          simp only [hpc] at h
          exact ⟨h, rfl⟩
      · cases hs
  | other path content =>
      simp only [handoffStep] at hs
      split at hs
      · cases hs
      · next hmem =>
          obtain rfl := Option.some.inj hs
          simp only [List.mem_cons, List.not_mem_nil, or_false, not_or] at hmem
          exact h.put (Ne.symm hmem.1) (Ne.symm hmem.2.2) (fun _ => Ne.symm hmem.2.1) content

/-- The run lemma. -/
theorem Handoff.Inv.run (hd : c.Distinct) (hactive : c.active = true)
    (events : List HandoffEvent) :
    ∀ {s s' : Handoff}, s.Inv c → handoffRun c s events = some s' → s'.Inv c := by
  induction events with
  | nil =>
      intro s s' h hs
      obtain rfl := Option.some.inj hs
      exact h
  | cons event events ih =>
      intro s s' h hs
      rw [handoffRun, List.foldlM_cons] at hs
      obtain ⟨s1, hstep, hrest⟩ := Option.bind_eq_some_iff.mp hs
      exact ih (h.step hd hactive hstep) hrest

/-- The invariant is enough, wherever the run stops. -/
theorem Handoff.Inv.safe (h : s.Inv c) : s.Safe c := by
  unfold Handoff.Inv at h
  cases hpc : s.pc with
  | openPending | writePending =>
      simp only [hpc] at h
      exact Handoff.Safe.of_not_launched h
  | closePending raising =>
      simp only [hpc] at h
      cases raising with
      | true => exact Handoff.Safe.of_not_launched h
      | false => exact Handoff.Safe.of_not_launched h.1
  | started | running =>
      simp only [hpc] at h
      exact fun _ => .inl h
  | closeStaging raising =>
      simp only [hpc] at h
      cases raising with
      | true => exact fun _ => .inl h
      | false => exact fun _ => .inl h.1
  | openStaging _ | writeStaging _ | moveStaging | removePending =>
      simp only [hpc] at h
      exact fun _ => .inl h.1
  | cleanup | ended =>
      simp only [hpc] at h
      exact h

end Step

/-! ## 5. The parent's merge -/

/-- What a monitor inside another knows of it.  The parent's run id comes from the environment,
where the parent put what `newRunId` gave it; macOS bounds a whole environment by 1 MiB. -/
structure NestedRun where
  fragmentDir : NimStr
  parent : RunId
  source : RunId
  inside : fragmentDir ≠ [] ∧ parent.text ≠ []
  bounded : parent.text.length < 2 ^ 20 ∧ source.text.length < 2 ^ 20

def NestedRun.capture (n : NestedRun) : NestedCapture :=
  nestedCapture n.fragmentDir n.parent.text n.source.text

theorem NestedRun.capture_eq (n : NestedRun) : n.capture =
    { parentRun := n.parent.text
      sourceRun := n.source.text
      pendingPath := NimPath.joinPath n.fragmentDir (str "nested-" ++ n.source.text) ++
        str "-pending.iomon-frag"
      evidencePath := NimPath.joinPath n.fragmentDir (str "nested-" ++ n.source.text) ++
        str ".iomon-frag" } := by
  have hguard : (n.fragmentDir.isEmpty || n.parent.text.isEmpty) = false := by
    simp [n.inside.1, n.inside.2]
  rw [NestedRun.capture, nestedCapture, if_neg (by simp [hguard])]

theorem NestedRun.distinct (n : NestedRun) : n.capture.Distinct :=
  nestedCapture_distinct n.inside.1 n.inside.2 _

theorem NestedRun.active (n : NestedRun) : n.capture.active = true := by
  have hlit : 0 < (str "-pending.iomon-frag").length := by decide
  rw [n.capture_eq, NestedCapture.active, decide_eq_true_eq, List.length_append]
  exact Nat.lt_of_lt_of_le hlit (Nat.le_add_left ..)

/-- The text of the loss, up to the run token. -/
def pendingIntro : NimStr := str "nested monitor evidence handoff pending"

/-- It names no run, and no other identity token occurs in it. -/
theorem pendingIntro_tokens : dropRunTokens false true pendingIntro = pendingIntro ∧
    ((tokens pendingIntro).filter fun tok => !isRunToken tok) = tokens pendingIntro ∧
    ∀ key ∈ [StartTimeToken, ChildStartTimeToken, PeerStartTimeToken, NonceToken],
      (key ++ str "=").head? ≠ some 114 ∧ key ≠ [] ∧
        (tokens pendingIntro).filter (tokenStartsWith (key ++ str "=")) = [] := by
  decide +kernel

theorem pendingRecord_detail (n : NestedRun) : n.capture.pendingRecord.detail =
    parentDetail pendingIntro n.parent.text n.source.text := by
  have hintro := pendingIntro_tokens.1
  have hlit : str "nested monitor evidence handoff pending run=" = pendingIntro ++ str " run=" := by
    decide
  rw [n.capture_eq, parentDetail, hintro, NestedCapture.pendingRecord, lossRecord, hlit]

/-- The fragments a parent's merge reads are those of its directory. -/
def ReadsFrom (m : MergeInput) (dir : NimStr → Option (List UInt8)) : Prop :=
  ∀ path content, endsWith path fragmentExt = true → dir path = some content →
    ∃ e ∈ m.entries, e.isFile = true ∧ e.path = path ∧ e.content = some content

theorem pendingPath_isFragment (n : NestedRun) :
    endsWith n.capture.pendingPath fragmentExt = true := by
  have hlit : str "-pending.iomon-frag" = str "-pending" ++ fragmentExt := by decide
  rw [n.capture_eq, hlit, ← List.append_assoc, endsWith, List.isSuffixOf_iff_suffix]
  exact List.suffix_append ..

/-- The token that names the nested run is none that names a run. -/
theorem isRunToken_nested (source : NimStr) : isRunToken (str "nested-run=" ++ source) = false := by
  have hlit : str "nested-run=" = 110 :: str "ested-run=" ∧ str "run=" = 114 :: str "un=" := by
    decide
  rw [isRunToken, startsWith, hlit.1, hlit.2, List.cons_append, List.isPrefixOf_cons_cons]
  rfl

/-- No token that names a run is left by the rewriting. -/
theorem filter_isRunToken_others (toks : List NimStr) :
    (toks.filter fun tok => !isRunToken tok).filter isRunToken = [] := by
  rw [List.filter_filter, List.filter_eq_nil_iff]
  intro tok _
  cases isRunToken tok <;> simp

/-- **A rewritten detail names the parent's run, once.** -/
theorem matchingTokens_run_parentDetail (n : NestedRun) (detail : NimStr) :
    matchingTokens (parentDetail detail n.parent.text n.source.text) RunIdToken =
      [str "run=" ++ n.parent.text] := by
  have hneedle : RunIdToken ++ str "=" = str "run=" := by decide
  have hkeys : ∀ tok, isRunToken tok = false → tokenStartsWith (str "run=") tok = false := by
    intro tok htok
    rw [isRunToken, startsWith] at htok
    rw [tokenStartsWith, htok, Bool.and_false]
  have hothers : ((tokens detail).filter fun tok => !isRunToken tok).filter
      (tokenStartsWith (str "run=")) = [] := by
    rw [List.filter_filter, List.filter_eq_nil_iff]
    intro tok _
    cases htok : isRunToken tok with
    | true => simp
    | false => simp [hkeys tok htok]
  have hrun : tokenStartsWith (str "run=") (str "run=" ++ n.parent.text) = true := by
    have hpos : 0 < n.parent.text.length := List.length_pos_iff.mpr n.inside.2
    rw [tokenStartsWith, Bool.and_eq_true, decide_eq_true_eq, List.length_append]
    exact ⟨by omega, List.isPrefixOf_iff_prefix.mpr (List.prefix_append ..)⟩
  have hnested : tokenStartsWith (str "run=") (str "nested-run=" ++ n.source.text) = false :=
    hkeys _ (isRunToken_nested n.source.text)
  rw [matchingTokens_eq_filter, hneedle, tokens_parentDetail, List.filter_append, hothers,
    List.nil_append, List.filter_cons_of_pos hrun, List.filter_cons_of_neg (by simp [hnested]),
    List.filter_nil]

/-- No identity token occurs twice in the loss. -/
theorem pendingRecord_unambiguous (n : NestedRun) :
    hasDuplicateIdentityToken n.capture.pendingRecord.detail = false := by
  obtain ⟨-, hwords, hkeys⟩ := pendingIntro_tokens
  have hother : ∀ key ∈ [StartTimeToken, ChildStartTimeToken, PeerStartTimeToken, NonceToken],
      detailTokenDuplicate (parentDetail pendingIntro n.parent.text n.source.text) key = false := by
    intro key hkey
    obtain ⟨hhead, hne, hintro⟩ := hkeys key hkey
    have hnot := stampToken_only_run hhead hne n.parent.text
    rw [detailTokenDuplicate, matchingTokens_eq_filter, tokens_parentDetail, hwords,
      List.filter_append, hintro, List.nil_append, List.filter_cons_of_neg (by simp [hnot]),
      decide_eq_false_iff_not]
    have hle := List.length_filter_le (tokenStartsWith (key ++ str "="))
      [str "nested-run=" ++ n.source.text]
    simp only [List.length_singleton] at hle
    omega
  have hrun : detailTokenDuplicate (parentDetail pendingIntro n.parent.text n.source.text)
      RunIdToken = false := by
    rw [detailTokenDuplicate, matchingTokens_run_parentDetail]
    rfl
  rw [pendingRecord_detail, hasDuplicateIdentityToken]
  simp only [List.any_cons, List.any_nil, hrun,
    hother StartTimeToken (by simp), hother ChildStartTimeToken (by simp),
    hother PeerStartTimeToken (by simp), hother NonceToken (by simp), Bool.or_self]

/-- The merge of the parent's run keeps the loss. -/
theorem staleAction_pendingRecord (n : NestedRun) (records : List MonitorRecord) :
    staleAction records n.parent.text n.capture.pendingRecord = .keep := by
  have htoken : detailToken n.capture.pendingRecord.detail RunIdToken = n.parent.text := by
    have hlen : RunIdToken.length + 1 = (str "run=").length := by decide
    rw [detailToken, pendingRecord_detail, matchingTokens_run_parentDetail, hlen]
    exact List.drop_left
  rw [staleAction_of_named n.inside.2 records (by rw [htoken]; exact n.inside.2),
    pendingRecord_unambiguous, if_neg Bool.false_ne_true, if_pos htoken]

theorem fitsWire_pendingRecord (n : NestedRun) : FitsWire n.capture.pendingRecord := by
  have hlit : (str "nested monitor evidence handoff pending run=").length = 44 ∧
      (str " nested-run=").length = 12 := by decide
  obtain ⟨hp, hs⟩ := n.bounded
  rw [n.capture_eq, FitsWire, NestedCapture.pendingRecord, lossRecord, RecordFixedHeaderLen]
  simp only [List.length_append, List.length_nil, hlit.1, hlit.2]
  omega

theorem pendingRecord_not_marker (n : NestedRun) :
    isReadTailMarker n.capture.pendingRecord = false := by
  refine not_marker_of_head (c := 110) ?_ (by decide)
  rw [pendingRecord_detail]
  rfl

/-- **A parent that finds the pending fragment is incomplete.** -/
theorem markerHeld_incomplete (n : NestedRun) {dir : NimStr → Option (List UInt8)}
    (hm : MarkerHeld n.capture dir) {m : MergeInput} (hreads : ReadsFrom m dir)
    (hrun : m.runScope = n.parent.text) : (mergeFragments m).completeness = mcIncomplete := by
  obtain ⟨e, he, hfile, hpath, hcontent⟩ := hreads _ _ (pendingPath_isFragment n) hm
  have hfrag : e ∈ m.fragments := by
    rw [MergeInput.fragments, List.mem_filter, hfile, hpath, pendingPath_isFragment n]
    exact ⟨he, rfl⟩
  have hrecords : n.capture.pendingRecord ∈ e.records := by
    have hfits : ∀ r ∈ [n.capture.pendingRecord], FitsWire r := by
      simpa using fitsWire_pendingRecord n
    have hdec := decodeFramesTolerant_stream hfits []
    rw [List.append_nil] at hdec
    rw [FragmentEntry.records, hcontent]
    simp only [hdec, List.mem_append, List.mem_singleton, true_or]
  have hkept : n.capture.pendingRecord ∈ keptRecords m := by
    rw [keptRecords, mem_staleKept, hrun]
    exact ⟨List.mem_append_left _ (List.mem_flatMap.mpr ⟨e, hfrag, hrecords⟩),
      staleAction_pendingRecord n _⟩
  have hnot : (mergeFragments m).completeness ≠ mcComplete := by
    intro hcomplete
    have hspec := ((mergeFragments_complete_iff_profile m).mp hcomplete).2
    have hmarker := hspec.noLoss _ hkept rfl
    rw [pendingRecord_not_marker] at hmarker
    cases hmarker
  cases hc : (mergeFragments m).completeness with
  | mcComplete => exact absurd hc hnot
  | mcIncomplete => rfl

/-! ## 6. The hand-off -/

theorem Handoff.Inv.initial (n : NestedRun) (dir : NimStr → Option (List UInt8)) :
    (initialHandoff n.capture dir).Inv n.capture := by
  simp only [initialHandoff, n.active, if_true, Handoff.Inv]

/-- An evidence fragment of records that fit their frames reads back as these records. -/
theorem HandedOver.reads {c : NestedCapture} {dir : NimStr → Option (List UInt8)}
    {records : List MonitorRecord} (h : HandedOver c dir records)
    (hfits : ∀ r ∈ c.handed records, FitsWire r) :
    (dir c.evidencePath).map decodeFramesTolerant = some (c.handed records, true) := by
  have hdec := decodeFramesTolerant_stream hfits []
  rw [List.append_nil] at hdec
  rw [show dir c.evidencePath = _ from h, Option.map_some, hdec]
  simp [decodeFramesTolerant]

/-- **The hand-off is crash safe.**  Wherever a run of the host stops: if its command was launched,
the parent's directory holds the pending loss, which makes the parent's merge incomplete, or every
record of the nested capture but the backend profiles, rewritten to the parent's run.  A rewritten
detail has one run token, the parent's, and its other tokens in order, followed by the source
run. -/
theorem nested_handoff_safe (n : NestedRun) (dir : NimStr → Option (List UInt8))
    (events : List HandoffEvent) {s : Handoff}
    (hrun : handoffRun n.capture (initialHandoff n.capture dir) events = some s) :
    (s.launched = true →
      (MarkerHeld n.capture s.dir ∧ ∀ m : MergeInput, ReadsFrom m s.dir →
          m.runScope = n.parent.text → (mergeFragments m).completeness = mcIncomplete) ∨
      ∃ records, s.collected = some records ∧ HandedOver n.capture s.dir records ∧
        ((∀ r ∈ n.capture.handed records, FitsWire r) →
          (s.dir n.capture.evidencePath).map decodeFramesTolerant =
            some (n.capture.handed records, true))) ∧
    ∀ detail,
      (tokens (parentDetail detail n.parent.text n.source.text)).filter isRunToken =
        [str "run=" ++ n.parent.text] ∧
      (tokens (parentDetail detail n.parent.text n.source.text)).filter
          (fun tok => !isRunToken tok) =
        (tokens detail).filter (fun tok => !isRunToken tok) ++
          [str "nested-run=" ++ n.source.text] := by
  have hinv := (Handoff.Inv.initial n dir).run n.distinct n.active events hrun
  refine ⟨fun hl => ?_, fun detail => ?_⟩
  · rcases hinv.safe hl with hm | ⟨records, hc, ho⟩
    · exact .inl ⟨hm, fun m hreads hscope => markerHeld_incomplete n hm hreads hscope⟩
    · exact .inr ⟨records, hc, ho, ho.reads⟩
  · have hparent : isRunToken (str "run=" ++ n.parent.text) = true :=
      List.isPrefixOf_iff_prefix.mpr (List.prefix_append ..)
    have hsource := isRunToken_nested n.source.text
    have hnone := filter_isRunToken_others (tokens detail)
    rw [tokens_parentDetail]
    constructor
    · rw [List.filter_append, hnone, List.nil_append, List.filter_cons_of_pos hparent,
        List.filter_cons_of_neg (by simp [hsource]), List.filter_nil]
    · rw [List.filter_append, List.filter_filter, List.filter_cons_of_neg (by simp [hparent]),
        List.filter_cons_of_pos (by simp [hsource]), List.filter_nil]
      simp only [Bool.and_self]

/-- Run `s` inside run `p`. -/
def sampleNested : NestedRun where
  fragmentDir := str "/f"
  parent := ⟨str "p", by decide +kernel⟩
  source := ⟨str "s", by decide +kernel⟩
  inside := by decide +kernel
  bounded := by decide +kernel

/-- A whole hand-off in which nothing fails. -/
def smoothHandoff (records : List MonitorRecord) : List HandoffEvent :=
  List.replicate 3 .succeeds ++ [.launch, .collect records] ++
    List.replicate (records.length + 6) .succeeds

/-- A read, and the host is killed before it can rename the staging file. -/
theorem nested_handoff_safe_killed : ∃ s : Handoff,
    handoffRun sampleNested.capture (initialHandoff sampleNested.capture fun _ => none)
      ((smoothHandoff [{ kind := mrFileRead, observationKind := moFileRead }]).take 9) = some s ∧
    s.launched = true ∧
    ((MarkerHeld sampleNested.capture s.dir ∧ ∀ m : MergeInput, ReadsFrom m s.dir →
        m.runScope = sampleNested.parent.text → (mergeFragments m).completeness = mcIncomplete) ∨
      ∃ records, s.collected = some records ∧
        HandedOver sampleNested.capture s.dir records ∧
        ((∀ r ∈ sampleNested.capture.handed records, FitsWire r) →
          (s.dir sampleNested.capture.evidencePath).map decodeFramesTolerant =
            some (sampleNested.capture.handed records, true))) := by
  obtain ⟨s, hs⟩ : ∃ s, handoffRun sampleNested.capture
      (initialHandoff sampleNested.capture fun _ => none)
      ((smoothHandoff [{ kind := mrFileRead, observationKind := moFileRead }]).take 9) = some s :=
    Option.isSome_iff_exists.mp (by decide +kernel)
  have hl : s.launched = true := by
    have hmap := congrArg (Option.map Handoff.launched) hs
    rw [Option.map_some] at hmap
    exact Option.some.inj (hmap.symm.trans (by decide +kernel))
  exact ⟨s, hs, hl, (nested_handoff_safe sampleNested _ _ hs).1 hl⟩

/-- **A backend profile is not handed over.** -/
theorem profile_not_handed_over : ¬ ∀ (n : NestedRun) (dir : NimStr → Option (List UInt8))
    (events : List HandoffEvent) (s : Handoff),
    handoffRun n.capture (initialHandoff n.capture dir) events = some s → s.launched = true →
      MarkerHeld n.capture s.dir ∨ ∃ records, s.collected = some records ∧
        s.dir n.capture.evidencePath =
          some (stream encodeRecordPayload (records.map n.capture.reattribute)) := by
  intro hclaim
  let profile : MonitorRecord := { kind := mrBackendProfile, observationKind := moBackendProfile }
  obtain ⟨s, hs⟩ : ∃ s, handoffRun sampleNested.capture
      (initialHandoff sampleNested.capture fun _ => none) (smoothHandoff [profile]) = some s :=
    Option.isSome_iff_exists.mp (by decide +kernel)
  have hend : some (s.launched, s.collected, s.dir sampleNested.capture.pendingPath,
      s.dir sampleNested.capture.evidencePath) = some (true, some [profile], none, some []) := by
    have hmap := congrArg (Option.map fun s : Handoff => (s.launched, s.collected,
      s.dir sampleNested.capture.pendingPath, s.dir sampleNested.capture.evidencePath)) hs
    rw [Option.map_some] at hmap
    exact hmap.symm.trans (by decide +kernel)
  simp only [Option.some.injEq, Prod.mk.injEq] at hend
  obtain ⟨hl, hc, hpending, hevidence⟩ := hend
  rcases hclaim sampleNested _ _ s hs hl with hm | ⟨records, hrec, hall⟩
  · rw [MarkerHeld, hpending] at hm
    cases hm
  · obtain rfl : [profile] = records := Option.some.inj (hc.symm.trans hrec)
    rw [hevidence] at hall
    have hlen := congrArg (Option.map List.length) hall
    revert hlen
    decide +kernel

end IoMon
