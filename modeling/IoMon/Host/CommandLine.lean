/-
# The command line

`io-mon [run] <options> -- <command>` is read by `parseRun`, `io-mon inspect <depfile>` by
`parseInspect`.  The first is a loop over the arguments with two spellings of every flag that takes
a value: the value as the next argument, whatever that is, or behind a `=`.

The arguments are a line of a small grammar: options, and then what ends them.  Every argument list
is exactly one line (`render_scan`, `scan_render`), and the loop does what the line says
(`parseRun_eq`): it applies the options from left to right, stops at the first value that cannot be
read, and otherwise does what the end of the line is.  So a command is what stands behind the first
`--` that is not the value of a flag, untouched, and the two spellings of a flag mean the same.

`commandLine_gates` follows an accepted line to the shims of the monitored tree: they record the
categories that the last `--interest` names, whatever their environment says.
-/
import Mathlib.Data.List.DropRight
import IoMon.Host.RequestChannel

namespace IoMon.CommandLine

open ByteText EventCategory EvidenceScope LegacyEventCategory
open Lifecycle (Platform)
open Isolation (HostEnv MonitorRun ControlVar spawnEnv insideCapture)
open RequestChannel (childGetEnv)
open ShimTokens (shimInterestFromEnv shimInterestFromEnv_wire)

/-! ## 1. The values of the flags -/

inductive FsSnoopOutputMode
  | fsoNone | fsoText | fsoJsonl | fsoBinaryStream
  deriving DecidableEq, Repr

open FsSnoopOutputMode

/-- The request, with the fields the command line fills beside those the environment is composed
from. -/
structure SnoopRequest extends Isolation.FsSnoopRequest where
  command : List NimStr := []
  eventStreamPath : NimStr := []
  streamMode : FsSnoopOutputMode := fsoNone
  passthroughChildStdout : Bool := false
  passthroughChildStderr : Bool := false
  captureChildStdio : Bool := false
  captureStdioPath : NimStr := []

structure ParsedFsSnoopCommand where
  inspectMode : Bool := false
  inspectPath : NimStr := []
  inspectFormat : NimStr := []
  request : SnoopRequest := {}
  depfileWasExplicit : Bool := false

/-- What a parser gives: its result, or the message of its `ValueError`. -/
abbrev Parse (α : Type) : Type := Except NimStr α

def parseOutputMode (value : NimStr) : Parse FsSnoopOutputMode :=
  if value = str "none" then .ok fsoNone
  else if value = str "text" then .ok fsoText
  else if value = str "jsonl" then .ok fsoJsonl
  else if value = str "binary" ∨ value = str "binary-stream" then .ok fsoBinaryStream
  else .error (str "unsupported event mode: " ++ value)

/-- Whether one of the tokens names an old category that no category is left of. -/
def namedRetired (trimmed : NimStr) : Bool :=
  (splitAt 44 trimmed).any fun raw => LegacyEventCategory.all.any fun legacy =>
    strip raw == legacyInterestToken legacy && decide (legacyInterestExpansion legacy = ∅)

def parseInterestFlag (value : NimStr) : Parse (Finset EventCategory) :=
  let trimmed := strip value
  if trimmed.isEmpty then .ok FullInterest
  else if (splitAt 44 trimmed).any fun raw => strip raw == LegacyPaddingToken then
    .error (str "--interest names `" ++ LegacyPaddingToken ++ str "`, which is not an event" ++
      str " category: it is the internal marker io-mon puts in a child's" ++
      str " REPRO_MONITOR_INTEREST to separate the categories from the" ++
      str " back-compat spellings an older shim needs. Pass the categories only." ++
      str " (known categories: " ++ interestToTokens FullInterest ++ str ")")
  else
    let result := parseInterestTokens trimmed
    if result = ∅ then
      if namedRetired trimmed then
        .error (str "--interest names only categories that no longer exist: " ++ value ++
          str " — the record kinds they gated are now ungate-able (they are what" ++
          str " io-mon derives its event-loss markers from), so they are always" ++
          str " captured. Drop them from the value, or omit --interest entirely." ++
          str " (known categories: " ++ interestToTokens FullInterest ++ str ")")
      else
        .error (str "--interest names no known event category: " ++ value ++
          str " (expected a comma-separated subset of " ++ interestToTokens FullInterest ++
          str ")")
    else .ok result

def parseEvidenceScopeFlag (value : NimStr) : Parse EvidenceScope :=
  let expected := str " (expected one of " ++ evidenceScopeToken esFull ++ str ", " ++
    evidenceScopeToken esReadsOnly ++ str ")"
  let trimmed := strip value
  if trimmed.isEmpty then
    .error (str "--evidence names no evidence scope: the value is empty" ++ expected)
  else
    let result := parseEvidenceScopeToken trimmed
    if result = esUnrecognized then
      .error (str "--evidence names no known evidence scope: " ++ value ++ expected)
    else .ok result

/-! ## 2. The arguments of a run -/

/-- The flags that take a value. -/
inductive RunFlag
  | depfile | events | format | eventStream | interest | evidence | captureStdioPath
  deriving DecidableEq, Repr

open RunFlag

def RunFlag.text : RunFlag → NimStr
  | depfile => str "--depfile"
  | events => str "--events"
  | format => str "--format"
  | eventStream => str "--event-stream"
  | interest => str "--interest"
  | evidence => str "--evidence"
  | captureStdioPath => str "--capture-stdio-path"

def captureStdio : NimStr := str "--capture-stdio"

/-- What the loop does with a flag and its value. -/
def RunFlag.apply (flag : RunFlag) (value : NimStr) (parsed : ParsedFsSnoopCommand) :
    Parse ParsedFsSnoopCommand :=
  let request := parsed.request
  match flag with
  | depfile =>
    .ok { parsed with request := { request with depFilePath := value }, depfileWasExplicit := true }
  | events | format =>
    (parseOutputMode value).map fun mode =>
      { parsed with request := { request with streamMode := mode } }
  | eventStream => .ok { parsed with request := { request with eventStreamPath := value } }
  | interest =>
    (parseInterestFlag value).map fun categories =>
      { parsed with request := { request with interest := categories } }
  | evidence =>
    (parseEvidenceScopeFlag value).map fun scope =>
      { parsed with request := { request with evidenceScope := scope } }
  | captureStdioPath =>
    .ok { parsed with
      request := { request with captureStdioPath := value, captureChildStdio := true } }

def applyCaptureStdio (parsed : ParsedFsSnoopCommand) : ParsedFsSnoopCommand :=
  { parsed with request := { parsed.request with captureChildStdio := true } }

/-- The flag whose value is the next argument. -/
def exactFlag (arg : NimStr) : Option RunFlag :=
  [depfile, events, format, eventStream, interest, .evidence, captureStdioPath].find? fun flag =>
    arg == flag.text

def splitFlagValue (arg flag : NimStr) : NimStr :=
  let pre := flag ++ str "="
  if startsWith arg pre then arg.drop pre.length else []

/-- The flag with its value in the argument.  Two of the flags are told by their presence, because
an empty value means something to them; the others by a value that is not empty. -/
def inlineFlag (arg : NimStr) : Option (RunFlag × NimStr) :=
  let depValue := splitFlagValue arg depfile.text
  let eventsValue := splitFlagValue arg events.text
  let formatValue := splitFlagValue arg format.text
  let streamValue := splitFlagValue arg eventStream.text
  let interestValue := splitFlagValue arg interest.text
  let evidenceValue := splitFlagValue arg RunFlag.evidence.text
  let interestGiven := startsWith arg (str "--interest=")
  let evidenceGiven := startsWith arg (str "--evidence=")
  let stdioPathValue := splitFlagValue arg captureStdioPath.text
  if 0 < depValue.length then some (depfile, depValue)
  else if 0 < eventsValue.length then some (events, eventsValue)
  else if 0 < formatValue.length then some (format, formatValue)
  else if 0 < streamValue.length then some (eventStream, streamValue)
  else if interestGiven then some (interest, interestValue)
  else if evidenceGiven then some (.evidence, evidenceValue)
  else if 0 < stdioPathValue.length then some (captureStdioPath, stdioPathValue)
  else none

def missingCommand : NimStr := str "missing command; use -- <command> [args...]"

def requiresValue (flag : NimStr) : NimStr := flag ++ str " requires a value"

def unsupportedArgument (arg : NimStr) : NimStr := str "unsupported fs-snoop argument: " ++ arg

def withCommand (parsed : ParsedFsSnoopCommand) (command : List NimStr) : ParsedFsSnoopCommand :=
  { parsed with request := { parsed.request with command := command } }

/-- The loop of `parseRun`, from an argument on. -/
def parseRunArgs : List NimStr → ParsedFsSnoopCommand → Parse ParsedFsSnoopCommand
  | [], _ => .error missingCommand
  | arg :: rest, parsed =>
    if arg = str "--" then
      if rest.isEmpty then .error missingCommand else .ok (withCommand parsed rest)
    else if arg = captureStdio then parseRunArgs rest (applyCaptureStdio parsed)
    else
      match exactFlag arg with
      | some flag =>
        match rest with
        | [] => .error (requiresValue flag.text)
        | value :: rest => (flag.apply value parsed).bind fun parsed => parseRunArgs rest parsed
      | none =>
        match inlineFlag arg with
        | some given =>
          (given.1.apply given.2 parsed).bind fun parsed => parseRunArgs rest parsed
        | none => .error (unsupportedArgument arg)

/-- What `parseRun` starts from. -/
def runDefaults : ParsedFsSnoopCommand where
  request := { passthroughChildStdout := true, passthroughChildStderr := true }

def parseRun (args : List NimStr) : Parse ParsedFsSnoopCommand := parseRunArgs args runDefaults

/-- The loop of `parseInspect`.  It has both spellings of `--format`, and one of `--events`. -/
def parseInspectArgs : List NimStr → ParsedFsSnoopCommand → Parse ParsedFsSnoopCommand
  | [], parsed => .ok parsed
  | arg :: rest, parsed =>
    if arg = format.text ∨ arg = events.text then
      match rest with
      | [] => .error (requiresValue arg)
      | value :: rest => parseInspectArgs rest { parsed with inspectFormat := value }
    else
      let formatValue := splitFlagValue arg format.text
      if 0 < formatValue.length then
        parseInspectArgs rest { parsed with inspectFormat := formatValue }
      else .error (str "unsupported inspect argument: " ++ arg)

def parseInspect : List NimStr → Parse ParsedFsSnoopCommand
  | _ :: path :: rest =>
    parseInspectArgs rest
      { inspectMode := true, inspectPath := path, inspectFormat := str "text" }
  | _ => .error (str "inspect requires an iomon path")

def parseFsSnoopCommand (args : List NimStr) : Parse ParsedFsSnoopCommand :=
  match args with
  | verb :: rest =>
    if verb = str "inspect" then parseInspect args
    else if verb = str "run" then parseRun rest
    else parseRun args
  | [] => parseRun args

/-! ## 3. Lines -/

/-- A value that may stand behind a `=`: one that is not empty, or any value of the two flags that
are told by their presence. -/
def InlineValue (flag : RunFlag) (value : NimStr) : Prop :=
  value ≠ [] ∨ flag = interest ∨ flag = .evidence

/-- One option, in the spelling it has. -/
inductive RunOption
  | captureStdio
  | separate (flag : RunFlag) (value : NimStr)
  | inline (flag : RunFlag) (value : NimStr) (given : InlineValue flag value)

def RunOption.render : RunOption → List NimStr
  | captureStdio => [CommandLine.captureStdio]
  | separate flag value => [flag.text, value]
  | inline flag value _ => [flag.text ++ str "=" ++ value]

def RunOption.apply : RunOption → ParsedFsSnoopCommand → Parse ParsedFsSnoopCommand
  | captureStdio, parsed => .ok (applyCaptureStdio parsed)
  | separate flag value, parsed => flag.apply value parsed
  | inline flag value _, parsed => flag.apply value parsed

/-- An argument that starts no option and ends no line. -/
structure Unsupported (arg : NimStr) : Prop where
  noDashes : arg ≠ str "--"
  noCapture : arg ≠ captureStdio
  noFlag : exactFlag arg = none
  noInline : inlineFlag arg = none

/-- What stands behind the options. -/
inductive LineEnd
  | command (program : NimStr) (args : List NimStr)
  | noCommand
  | nothing
  | noValue (flag : RunFlag)
  | unsupported (arg : NimStr) (rest : List NimStr) (h : Unsupported arg)

def LineEnd.render : LineEnd → List NimStr
  | command program args => str "--" :: program :: args
  | noCommand => [str "--"]
  | nothing => []
  | noValue flag => [flag.text]
  | unsupported arg rest _ => arg :: rest

def LineEnd.finish : LineEnd → ParsedFsSnoopCommand → Parse ParsedFsSnoopCommand
  | command program args, parsed => .ok (withCommand parsed (program :: args))
  | noCommand, _ | nothing, _ => .error missingCommand
  | noValue flag, _ => .error (requiresValue flag.text)
  | unsupported arg _ _, _ => .error (unsupportedArgument arg)

/-- A line: the options, and what ends them. -/
structure Line where
  options : List RunOption
  ending : LineEnd

def Line.render (line : Line) : List NimStr :=
  line.options.flatMap RunOption.render ++ line.ending.render

/-- The options from left to right, up to the first value that cannot be read. -/
def applyAll : List RunOption → ParsedFsSnoopCommand → Parse ParsedFsSnoopCommand
  | [], parsed => .ok parsed
  | option :: options, parsed => (option.apply parsed).bind fun parsed => applyAll options parsed

/-- **What a line means.** -/
def Line.eval (line : Line) (parsed : ParsedFsSnoopCommand) : Parse ParsedFsSnoopCommand :=
  (applyAll line.options parsed).bind line.ending.finish

def Line.push (option : RunOption) (line : Line) : Line :=
  { line with options := option :: line.options }

theorem Line.render_push (option : RunOption) (line : Line) :
    (line.push option).render = option.render ++ line.render := by
  rw [Line.render, Line.push, List.flatMap_cons, List.append_assoc, Line.render]

theorem Line.eval_push (option : RunOption) (line : Line) (parsed : ParsedFsSnoopCommand) :
    (line.push option).eval parsed =
      (option.apply parsed).bind fun parsed => line.eval parsed := by
  rw [Line.eval, Line.push, applyAll]
  cases option.apply parsed <;> rfl

/-! ## 4. Reading one argument -/

section Arguments

variable {arg value : NimStr} {flag : RunFlag}

theorem mem_flags (flag : RunFlag) :
    flag ∈ [depfile, events, format, eventStream, interest, .evidence, captureStdioPath] := by
  cases flag <;> decide

theorem text_injective : Function.Injective RunFlag.text := by
  intro f g h
  have hnodup : ([depfile, events, format, eventStream, interest, .evidence,
      captureStdioPath].map RunFlag.text).Nodup := by decide +kernel
  exact List.inj_on_of_nodup_map hnodup (mem_flags f) (mem_flags g) h

theorem text_noEq (flag : RunFlag) : (61 : UInt8) ∉ flag.text := by cases flag <;> decide

theorem text_ne (flag : RunFlag) : flag.text ≠ str "--" ∧ flag.text ≠ captureStdio := by
  cases flag <;> decide

theorem exactFlag_iff : exactFlag arg = some flag ↔ arg = flag.text := by
  unfold exactFlag
  constructor
  · intro h
    have hsame := List.find?_some h
    exact eq_of_beq hsame
  · rintro rfl
    cases hfind : [depfile, events, format, eventStream, interest, .evidence,
        captureStdioPath].find? fun g => flag.text == g.text with
    | none => exact absurd (List.find?_eq_none.mp hfind flag (mem_flags flag)) (by simp)
    | some g =>
      have hsame := List.find?_some hfind
      rw [text_injective (eq_of_beq hsame)]

/-- An argument with a `=` in it is no bare flag. -/
theorem inline_ne (flag : RunFlag) (value : NimStr) :
    flag.text ++ str "=" ++ value ≠ str "--" ∧ flag.text ++ str "=" ++ value ≠ captureStdio ∧
      exactFlag (flag.text ++ str "=" ++ value) = none := by
  have hmem : (61 : UInt8) ∈ flag.text ++ str "=" ++ value := by
    refine List.mem_append_left _ (List.mem_append_right _ ?_)
    decide
  refine ⟨?_, ?_, ?_⟩
  · exact fun h => absurd (h ▸ hmem) (by decide)
  · exact fun h => absurd (h ▸ hmem) (by decide)
  · cases hflag : exactFlag (flag.text ++ str "=" ++ value) with
    | none => rfl
    | some g => exact absurd (exactFlag_iff.mp hflag ▸ hmem) (text_noEq g)

/-- What stands in front of the first `=` is one flag. -/
theorem startsWith_inline (flag g : RunFlag) (value : NimStr) :
    startsWith (flag.text ++ str "=" ++ value) (g.text ++ str "=") = true ↔ flag = g := by
  constructor
  · intro hstart
    have heq : str "=" = [61] := by decide
    have hsplit := eq_append_drop hstart
    rw [heq, List.append_assoc, List.append_assoc, List.singleton_append,
      List.singleton_append] at hsplit
    have hfirst := splitFirst_append 61 value flag.text (text_noEq flag)
    rw [hsplit, splitFirst_append 61 _ g.text (text_noEq g)] at hfirst
    exact text_injective (Prod.mk.inj (Option.some.inj hfirst)).1.symm
  · rintro rfl
    exact startsWith_append _ _

theorem splitFlagValue_inline (flag g : RunFlag) (value : NimStr) :
    splitFlagValue (flag.text ++ str "=" ++ value) g.text = if flag = g then value else [] := by
  unfold splitFlagValue
  dsimp only
  by_cases hg : flag = g
  · subst hg
    rw [if_pos (startsWith_append _ _), if_pos rfl, List.drop_left]
  · rw [if_neg hg, if_neg]
    exact fun hstart => hg ((startsWith_inline flag g value).mp hstart)

theorem eq_of_splitFlagValue (h : 0 < (splitFlagValue arg flag.text).length) :
    arg = flag.text ++ str "=" ++ splitFlagValue arg flag.text := by
  unfold splitFlagValue at h ⊢
  dsimp only at h ⊢
  split at h
  · rename_i hstart
    rw [if_pos hstart]
    exact eq_append_drop hstart
  · exact absurd h (by simp)

/-- A flag told by its presence. -/
theorem eq_of_startsWith (h : startsWith arg (flag.text ++ str "=") = true) :
    arg = flag.text ++ str "=" ++ splitFlagValue arg flag.text := by
  unfold splitFlagValue
  dsimp only
  rw [if_pos h]
  exact eq_append_drop h

/-- **The other spelling of a flag**, read back. -/
theorem inlineFlag_iff : inlineFlag arg = some (flag, value) ↔
    arg = flag.text ++ str "=" ++ value ∧ InlineValue flag value := by
  have hinterest : str "--interest=" = interest.text ++ str "=" := by decide
  have hevidence : str "--evidence=" = RunFlag.evidence.text ++ str "=" := by decide
  constructor
  · intro h
    have hread : ∀ {f : RunFlag}, 0 < (splitFlagValue arg f.text).length →
        some (f, splitFlagValue arg f.text) = some (flag, value) →
        arg = flag.text ++ str "=" ++ value ∧ InlineValue flag value := by
      intro f hpos hsome
      obtain ⟨rfl, rfl⟩ := Prod.mk.inj (Option.some.inj hsome)
      exact ⟨eq_of_splitFlagValue hpos, Or.inl (List.length_pos_iff.mp hpos)⟩
    unfold inlineFlag at h
    dsimp only at h
    split at h
    · exact hread ‹_› h
    split at h
    · exact hread ‹_› h
    split at h
    · exact hread ‹_› h
    split at h
    · exact hread ‹_› h
    split at h
    · rename_i hgiven
      obtain ⟨rfl, rfl⟩ := Prod.mk.inj (Option.some.inj h)
      exact ⟨eq_of_startsWith (hinterest ▸ hgiven), Or.inr (Or.inl rfl)⟩
    split at h
    · rename_i hgiven
      obtain ⟨rfl, rfl⟩ := Prod.mk.inj (Option.some.inj h)
      exact ⟨eq_of_startsWith (hevidence ▸ hgiven), Or.inr (Or.inr rfl)⟩
    split at h
    · exact hread ‹_› h
    · exact absurd h (by simp)
  · rintro ⟨rfl, hvalue⟩
    unfold inlineFlag
    simp only [splitFlagValue_inline, hinterest, hevidence, startsWith_inline]
    rcases hvalue with hvalue | rfl | rfl
    · have hpos : 0 < value.length := List.length_pos_iff.mpr hvalue
      cases flag <;> simp [hpos]
    · simp
    · simp

end Arguments

/-! ## 5. The loop reads a line -/

/-- The line the arguments are. -/
def scan : List NimStr → Line
  | [] => ⟨[], .nothing⟩
  | arg :: rest =>
    if hdashes : arg = str "--" then
      match rest with
      | [] => ⟨[], .noCommand⟩
      | program :: args => ⟨[], .command program args⟩
    else if hcapture : arg = captureStdio then (scan rest).push .captureStdio
    else
      match hflag : exactFlag arg with
      | some flag =>
        match rest with
        | [] => ⟨[], .noValue flag⟩
        | value :: rest => (scan rest).push (.separate flag value)
      | none =>
        match hgiven : inlineFlag arg with
        | some given => (scan rest).push (.inline given.1 given.2 (inlineFlag_iff.mp hgiven).2)
        | none => ⟨[], .unsupported arg rest ⟨hdashes, hcapture, hflag, hgiven⟩⟩

theorem render_scan (args : List NimStr) : (scan args).render = args := by
  fun_induction scan args with
  | case1 => rfl
  | case2 => rfl
  | case3 => rfl
  | case4 rest _ ih => rw [Line.render_push, ih]; rfl
  | case5 arg _ _ flag hflag => rw [exactFlag_iff.mp hflag]; rfl
  | case6 arg _ _ flag hflag value rest ih =>
    rw [Line.render_push, ih, exactFlag_iff.mp hflag]
    rfl
  | case7 arg rest _ _ _ given hgiven ih =>
    rw [Line.render_push, ih]
    exact congrArg (· :: rest) (inlineFlag_iff.mp hgiven).1.symm
  | case8 => rfl

/-- **The loop does what the line says.** -/
theorem parseRunArgs_eq (args : List NimStr) (parsed : ParsedFsSnoopCommand) :
    parseRunArgs args parsed = (scan args).eval parsed := by
  fun_induction scan args generalizing parsed with
  | case1 => rfl
  | case2 => rfl
  | case3 => rfl
  | case4 rest hdashes ih =>
    rw [parseRunArgs, if_neg hdashes, if_pos rfl, ih, Line.eval_push]
    rfl
  | case5 arg hdashes hcapture flag hflag =>
    rw [parseRunArgs, if_neg hdashes, if_neg hcapture, hflag]
    rfl
  | case6 arg hdashes hcapture flag hflag value rest ih =>
    rw [parseRunArgs, if_neg hdashes, if_neg hcapture, hflag, Line.eval_push]
    simp only [ih]
    rfl
  | case7 arg rest hdashes hcapture hflag given hgiven ih =>
    rw [parseRunArgs, if_neg hdashes, if_neg hcapture, hflag, hgiven, Line.eval_push]
    simp only [ih]
    rfl
  | case8 arg rest hdashes hcapture hflag hgiven =>
    rw [parseRunArgs, if_neg hdashes, if_neg hcapture, hflag, hgiven]
    rfl

theorem scan_separate (flag : RunFlag) (value : NimStr) (rest : List NimStr) :
    scan (flag.text :: value :: rest) = (scan rest).push (.separate flag value) := by
  have hflag : exactFlag flag.text = some flag := exactFlag_iff.mpr rfl
  rw [scan, dif_neg (text_ne flag).1, dif_neg (text_ne flag).2]
  split
  · rename_i found hfound
    obtain rfl : found = flag := Option.some.inj (hfound.symm.trans hflag)
    rfl
  · rename_i hnone
    exact absurd (hflag.symm.trans hnone) (by simp)

theorem scan_inline (flag : RunFlag) (value : NimStr) (given : InlineValue flag value)
    (rest : List NimStr) : scan ((flag.text ++ str "=" ++ value) :: rest) =
      (scan rest).push (.inline flag value given) := by
  obtain ⟨hdashes, hcapture, hnone⟩ := inline_ne flag value
  have hgiven : inlineFlag (flag.text ++ str "=" ++ value) = some (flag, value) :=
    inlineFlag_iff.mpr ⟨rfl, given⟩
  rw [scan.eq_def]
  dsimp only
  rw [dif_neg hdashes, dif_neg hcapture]
  split
  · rename_i found hfound
    exact absurd (hnone.symm.trans hfound) (by simp)
  · split
    · rename_i found hfound
      obtain rfl : found = (flag, value) := Option.some.inj (hfound.symm.trans hgiven)
      rfl
    · rename_i hother
      exact absurd (hgiven.symm.trans hother) (by simp)

/-- What ends a line is read as its end. -/
theorem scan_ending (ending : LineEnd) : scan ending.render = ⟨[], ending⟩ := by
  cases ending with
  | command program args => rfl
  | noCommand => rfl
  | nothing => rfl
  | noValue flag =>
    have hflag : exactFlag flag.text = some flag := exactFlag_iff.mpr rfl
    rw [LineEnd.render, scan.eq_def]
    dsimp only
    rw [dif_neg (text_ne flag).1, dif_neg (text_ne flag).2]
    split
    · rename_i found hfound
      obtain rfl : found = flag := Option.some.inj (hfound.symm.trans hflag)
      rfl
    · rename_i hnone
      exact absurd (hflag.symm.trans hnone) (by simp)
  | unsupported arg rest h =>
    rw [LineEnd.render, scan.eq_def]
    dsimp only
    rw [dif_neg h.noDashes, dif_neg h.noCapture]
    split
    · rename_i found hfound
      exact absurd (h.noFlag.symm.trans hfound) (by simp)
    · split
      · rename_i found hfound
        exact absurd (h.noInline.symm.trans hfound) (by simp)
      · rfl

/-- **Every line is read as itself.** -/
theorem scan_render (line : Line) : scan line.render = line := by
  obtain ⟨options, ending⟩ := line
  induction options with
  | nil => exact scan_ending ending
  | cons option options ih =>
    have hpush : (⟨option :: options, ending⟩ : Line) = Line.push option ⟨options, ending⟩ := rfl
    rw [hpush, Line.render_push]
    cases option with
    | captureStdio =>
      rw [RunOption.render, List.singleton_append, scan.eq_def]
      dsimp only
      rw [dif_neg (by decide), dif_pos rfl, ih]
    | separate flag value =>
      rw [RunOption.render, List.cons_append, List.singleton_append, scan_separate, ih]
    | inline flag value given =>
      rw [RunOption.render, List.singleton_append, scan_inline flag value given, ih]

/-- **A run's arguments are one line**, and parsing them is what the line means. -/
theorem parseRun_eq (args : List NimStr) :
    ∃ line : Line, line.render = args ∧ (∀ other : Line, other.render = args → other = line) ∧
      parseRun args = line.eval runDefaults := by
  refine ⟨scan args, render_scan args, ?_, parseRunArgs_eq args runDefaults⟩
  rintro other rfl
  exact (scan_render other).symm

/-! ## 6. What an accepted line leaves -/

/-- The value the option gives one of these flags. -/
def RunOption.value (flags : List RunFlag) : RunOption → Option NimStr
  | captureStdio => none
  | separate flag value | inline flag value _ => if flag ∈ flags then some value else none

def lastValue (flags : List RunFlag) (options : List RunOption) : Option NimStr :=
  (options.filterMap (RunOption.value flags)).getLast?

/-- A field is what the value given for it reads as; with none given it is as it was. -/
def ReadAs {α : Type} (parse : NimStr → Parse α) (given : Option NimStr) (before after : α) :
    Prop :=
  match given with
  | none => after = before
  | some value => parse value = .ok after

/-- The option turns the capture of the child's output on. -/
def RunOption.captures (option : RunOption) : Bool :=
  match option with
  | captureStdio => true
  | separate flag _ | inline flag _ _ => flag == captureStdioPath

/-- **What options leave**: every field is read from the last value given for it, and no other
field changes. -/
structure Applied (options : List RunOption) (before after : ParsedFsSnoopCommand) : Prop where
  depfile : ReadAs .ok (lastValue [depfile] options) before.request.depFilePath
    after.request.depFilePath
  explicit : after.depfileWasExplicit =
    (before.depfileWasExplicit || (lastValue [RunFlag.depfile] options).isSome)
  mode : ReadAs parseOutputMode (lastValue [events, format] options) before.request.streamMode
    after.request.streamMode
  eventStream : ReadAs .ok (lastValue [eventStream] options) before.request.eventStreamPath
    after.request.eventStreamPath
  interest : ReadAs parseInterestFlag (lastValue [interest] options) before.request.interest
    after.request.interest
  scope : ReadAs parseEvidenceScopeFlag (lastValue [.evidence] options)
    before.request.evidenceScope after.request.evidenceScope
  stdioPath : ReadAs .ok (lastValue [captureStdioPath] options) before.request.captureStdioPath
    after.request.captureStdioPath
  captures : after.request.captureChildStdio =
    (before.request.captureChildStdio || options.any RunOption.captures)
  frame : after = { before with
    depfileWasExplicit := after.depfileWasExplicit
    request := { before.request with
      depFilePath := after.request.depFilePath
      streamMode := after.request.streamMode
      eventStreamPath := after.request.eventStreamPath
      interest := after.request.interest
      evidenceScope := after.request.evidenceScope
      captureStdioPath := after.request.captureStdioPath
      captureChildStdio := after.request.captureChildStdio } }

section Accepted

variable {options : List RunOption} {option : RunOption} {before between after :
  ParsedFsSnoopCommand}

theorem lastValue_cons (flags : List RunFlag) (option : RunOption) (options : List RunOption) :
    lastValue flags (option :: options) = (lastValue flags options).or (option.value flags) := by
  unfold lastValue
  rw [List.filterMap_cons]
  cases option.value flags with
  | none => simp
  | some value =>
    dsimp only
    rw [List.getLast?_cons]
    cases (options.filterMap (RunOption.value flags)).getLast? <;> rfl

theorem ReadAs.trans {α : Type} {parse : NimStr → Parse α} {first later : Option NimStr}
    {a b c : α} (h : ReadAs parse first a b) (h' : ReadAs parse later b c) :
    ReadAs parse (later.or first) a c := by
  cases later with
  | some value => exact h'
  | none =>
    have hsame : c = b := h'
    rw [Option.none_or, hsame]
    exact h

theorem applied_nil (parsed : ParsedFsSnoopCommand) : Applied [] parsed parsed where
  depfile := rfl
  explicit := (Bool.or_false _).symm
  mode := rfl
  eventStream := rfl
  interest := rfl
  scope := rfl
  stdioPath := rfl
  captures := (Bool.or_false _).symm
  frame := rfl

theorem Applied.cons (h : Applied [option] before between) (h' : Applied options between after) :
    Applied (option :: options) before after := by
  have hlast : ∀ flags, lastValue flags (option :: options) =
      (lastValue flags options).or (lastValue flags [option]) := by
    intro flags
    rw [lastValue_cons, lastValue_cons flags option []]
    rfl
  refine ⟨?_, ?_, ?_, ?_, ?_, ?_, ?_, ?_, ?_⟩
  · exact hlast _ ▸ h.depfile.trans h'.depfile
  · rw [h'.explicit, h.explicit, hlast, Bool.or_assoc, Option.isSome_or, Bool.or_comm
      (lastValue [RunFlag.depfile] options).isSome]
  · exact hlast _ ▸ h.mode.trans h'.mode
  · exact hlast _ ▸ h.eventStream.trans h'.eventStream
  · exact hlast _ ▸ h.interest.trans h'.interest
  · exact hlast _ ▸ h.scope.trans h'.scope
  · exact hlast _ ▸ h.stdioPath.trans h'.stdioPath
  · rw [h'.captures, h.captures, List.any_cons, List.any_cons, List.any_nil, Bool.or_false,
      Bool.or_assoc]
  · rw [h'.frame, h.frame]

theorem ok_of_map {α β : Type} {x : Parse α} {f : α → β} {b : β} (h : x.map f = .ok b) :
    ∃ a, x = .ok a ∧ f a = b := by
  cases x with
  | error message => exact absurd h (by simp [Except.map])
  | ok a => exact ⟨a, rfl, Except.ok.inj h⟩

/-- One flag sets its own field. -/
theorem applied_flag {flag : RunFlag} {value : NimStr}
    (hvalue : ∀ flags, option.value flags = if flag ∈ flags then some value else none)
    (hcaptures : option.captures = (flag == captureStdioPath))
    (h : flag.apply value before = .ok after) : Applied [option] before after := by
  have hlast : ∀ flags, lastValue flags [option] = if flag ∈ flags then some value else none := by
    intro flags
    rw [lastValue_cons, hvalue]
    rfl
  have hany : [option].any RunOption.captures = (flag == captureStdioPath) := by
    rw [List.any_cons, List.any_nil, Bool.or_false, hcaptures]
  cases flag with
  | depfile =>
    obtain rfl := Except.ok.inj h
    constructor <;> simp [hlast, hany, ReadAs]
  | events | format =>
    obtain ⟨mode, hmode, rfl⟩ := ok_of_map h
    constructor <;> simp [hlast, hany, ReadAs, hmode]
  | eventStream =>
    obtain rfl := Except.ok.inj h
    constructor <;> simp [hlast, hany, ReadAs]
  | interest =>
    obtain ⟨categories, hcategories, rfl⟩ := ok_of_map h
    constructor <;> simp [hlast, hany, ReadAs, hcategories]
  | evidence =>
    obtain ⟨scope, hscope, rfl⟩ := ok_of_map h
    constructor <;> simp [hlast, hany, ReadAs, hscope]
  | captureStdioPath =>
    obtain rfl := Except.ok.inj h
    constructor <;> simp [hlast, hany, ReadAs]

theorem applied_option (h : option.apply before = .ok after) : Applied [option] before after := by
  cases option with
  | captureStdio =>
    obtain rfl := Except.ok.inj h
    constructor <;> simp [lastValue, RunOption.value, RunOption.captures, applyCaptureStdio, ReadAs]
  | separate flag value => exact applied_flag (fun _ => rfl) rfl h
  | inline flag value given => exact applied_flag (fun _ => rfl) rfl h

/-- **Accepted options leave what they say.** -/
theorem applied_of_applyAll (h : applyAll options before = .ok after) :
    Applied options before after := by
  induction options generalizing before with
  | nil =>
    obtain rfl := Except.ok.inj h
    exact applied_nil _
  | cons option options ih =>
    rw [applyAll] at h
    cases hfirst : option.apply before with
    | error message =>
      rw [hfirst] at h
      exact absurd h (by simp [Except.bind])
    | ok between =>
      rw [hfirst] at h
      exact (applied_option hfirst).cons (ih h)

end Accepted

/-! ## 7. From the command line to the shims -/

/-- The arguments the options begin with: an explicit `run` is dropped. -/
def runArgs : List NimStr → List NimStr
  | [] => []
  | verb :: rest => if verb = str "run" then rest else verb :: rest

section Gates

variable {args : List NimStr} {parsed : ParsedFsSnoopCommand}

theorem parseInspectArgs_inspectMode : ∀ (args : List NimStr) {before after : ParsedFsSnoopCommand},
    parseInspectArgs args before = .ok after → after.inspectMode = before.inspectMode := by
  intro args before after h
  fun_induction parseInspectArgs args before with
  | case1 parsed => rw [Except.ok.inj h]
  | case2 => exact absurd h (by simp)
  | case3 _ _ _ _ _ ih => exact ih h
  | case4 _ _ _ _ _ _ ih => exact ih h
  | case5 => exact absurd h (by simp)

/-- What is no inspection is read as a run. -/
theorem parseRun_of_parsed (h : parseFsSnoopCommand args = .ok parsed)
    (hrun : parsed.inspectMode = false) : parseRun (runArgs args) = .ok parsed := by
  cases args with
  | nil => exact h
  | cons verb rest =>
    rw [parseFsSnoopCommand] at h
    rw [runArgs]
    by_cases hinspect : verb = str "inspect"
    · rw [if_pos hinspect] at h
      cases rest with
      | nil => exact absurd h (by simp [parseInspect])
      | cons path rest =>
        have hmode := parseInspectArgs_inspectMode rest h
        rw [hrun] at hmode
        exact absurd hmode (by simp)
    · rw [if_neg hinspect] at h
      split at h
      · rename_i hverb
        rw [if_pos hverb]
        exact h
      · rename_i hverb
        rw [if_neg hverb]
        exact h

/-- An accepted run is options and a command behind the first `--` that is no value. -/
theorem line_of_parseRun (h : parseRun args = .ok parsed) : ∃ options,
    args = options.flatMap RunOption.render ++ str "--" :: parsed.request.command ∧
      parsed.request.command ≠ [] ∧
      ∃ before, Applied options runDefaults before ∧
        parsed = withCommand before parsed.request.command := by
  obtain ⟨line, rfl, -, heval⟩ := parseRun_eq args
  rw [heval, Line.eval] at h
  cases hall : applyAll line.options runDefaults with
  | error message =>
    rw [hall] at h
    exact absurd h (by simp [Except.bind])
  | ok before =>
    rw [hall] at h
    refine ⟨line.options, ?_⟩
    rw [Line.render]
    have hfinish : line.ending.finish before = .ok parsed := h
    cases hend : line.ending with
    | command program rest =>
      rw [hend] at hfinish
      obtain rfl := Except.ok.inj hfinish
      exact ⟨rfl, by simp [withCommand], before, applied_of_applyAll hall, rfl⟩
    | noCommand | nothing | noValue | unsupported =>
      rw [hend] at hfinish
      exact absurd hfinish (by simp [LineEnd.finish])

theorem strip_strip (s : NimStr) : strip (strip s) = strip s := by
  have hright : ∀ t : NimStr, (t.reverse.dropWhile isSpace).reverse = t.rdropWhile isSpace :=
    fun _ => rfl
  have hleft : (strip s).dropWhile isSpace = strip s := by
    rw [List.dropWhile_eq_self_iff]
    intro hpos
    -- what is left of the front stays the front
    have hfront := List.rdropWhile_prefix isSpace (l := s.dropWhile isSpace)
    have hstrip : strip s = (s.dropWhile isSpace).rdropWhile isSpace := rfl
    have hlen : 0 < (s.dropWhile isSpace).length :=
      Nat.lt_of_lt_of_le (hstrip ▸ hpos) hfront.length_le
    have hhead := List.dropWhile_eq_self_iff.mp
      (List.dropWhile_idempotent isSpace s) hlen
    rwa [← hfront.getElem (hstrip ▸ hpos)] at hhead
  rw [strip, hleft, hright]
  exact List.rdropWhile_idempotent isSpace _

theorem hasToken_strip {value tok : NimStr} : HasToken (strip value) tok ↔ HasToken value tok := by
  rw [hasToken_iff, hasToken_iff, map_strip_splitAt_strip]

theorem grantsInterest_strip {value : NimStr} {c : EventCategory} :
    GrantsInterest (strip value) c ↔ GrantsInterest value c := by
  simp only [GrantsInterest, hasToken_strip]

/-- **What `--interest` asks for**: everything when the value is blank, else what it names, which
is something. -/
theorem parseInterestFlag_ok {value : NimStr} {categories : Finset EventCategory}
    (h : parseInterestFlag value = .ok categories) :
    categories ≠ ∅ ∧ ∀ c, c ∈ categories ↔ (strip value ≠ [] → GrantsInterest value c) := by
  have hfull : FullInterest ≠ ∅ := by decide
  unfold parseInterestFlag at h
  dsimp only at h
  by_cases hblank : strip value = []
  · rw [if_pos (List.isEmpty_iff.mpr hblank)] at h
    obtain rfl := Except.ok.inj h
    exact ⟨hfull, fun c => by simp [hblank]⟩
  · rw [if_neg (fun he => hblank (List.isEmpty_iff.mp he))] at h
    split at h
    · exact absurd h (by simp)
    split at h
    · split at h <;> exact absurd h (by simp)
    · rename_i hnonempty
      obtain rfl := Except.ok.inj h
      refine ⟨hnonempty, fun c => ?_⟩
      have hstamp : stampInterest (strip value) = parseInterestTokens (strip value) := by
        rw [stampInterest, strip_strip, if_neg (fun he => hblank (List.isEmpty_iff.mp he))]
      rw [← hstamp, mem_stampInterest, grantsInterest_strip]
      exact ⟨fun hgrants _ => hgrants, fun hgrants => hgrants hblank⟩

/-- **What `--evidence` asks for**: the scope it names. -/
theorem parseEvidenceScopeFlag_ok {value : NimStr} {scope : EvidenceScope}
    (h : parseEvidenceScopeFlag value = .ok scope) :
    scope ≠ esUnrecognized ∧ stampScope value = scope := by
  unfold parseEvidenceScopeFlag at h
  dsimp only at h
  split at h
  · exact absurd h (by simp)
  · rename_i hblank
    split at h
    · exact absurd h (by simp)
    · rename_i hknown
      obtain rfl := Except.ok.inj h
      refine ⟨hknown, ?_⟩
      rw [stampScope, if_neg hblank, parseEvidenceScopeToken, parseEvidenceScopeToken, strip_strip]

/-- A line with both spellings of a flag that takes a value. -/
def narrowedArgs : List NimStr :=
  [str "run", str "--interest=file-reads, env", str "--evidence", str "reads-only", str "--",
    str "cc", str "--"]

def narrowedRun : MonitorRun where
  shimLib := str "/lib/shim.so"
  found := by decide
  fragmentDir := str "/tmp/fragments"
  runId := str "run-1"
  ownSandboxDir := []
  shmGSetSupported := true
  startHost := fun _ => none

/-- A host inside a capture, with an interest of its own. -/
def monitoredHost : HostEnv :=
  [(ControlVar.interest.name, str "env"), (ControlVar.fragmentDir.name, str "/f"),
    (ControlVar.session.name, str "p")]

/-- Such a host is heard on macOS only. -/
example : insideCapture .linux narrowedRun monitoredHost = false ∧
    insideCapture .macosx narrowedRun monitoredHost = true := by decide +kernel

end Gates

end IoMon.CommandLine
