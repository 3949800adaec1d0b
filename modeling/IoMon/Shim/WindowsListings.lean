/-
# The directory that a Windows listing names

A listing comes in at one of two layers.  `FindFirstFile` is given a search string, and its hook
takes the pattern off: by the text, where the last component starts with a star.  The NT calls are
given a handle, whose path is in the tables; their own hooks are not registered, so that only the
pointer handed out by the hooked `GetProcAddress` records anything in the shipped shim.

`listedDirectory` is what a search string lists, and `SameDirectory` when two spellings are of one
directory: `C:` is not `C:\`, and a separator at the end makes no difference elsewhere.
-/
import Mathlib.Data.List.DropRight
import IoMon.Shim.WindowsHandles

namespace IoMon

open ByteText MonitorRecordKind MonitorObservationKind

/-! ## 1. Search strings -/

def isSeparator (c : UInt8) : Bool := c == 92 || c == 47

/-- A search string up to the last separator, which is part of it. -/
def directoryPart (s : NimStr) : NimStr := s.rdropWhile fun c => !isSeparator c

def lastComponent (s : NimStr) : NimStr := s.rtakeWhile fun c => !isSeparator c

/-- A component with a star or a question mark. -/
def isPattern (component : NimStr) : Bool := component.contains 42 || component.contains 63

/-- **The directory whose entries are returned.** -/
def listedDirectory (s : NimStr) : NimStr :=
  if isPattern (lastComponent s) then directoryPart s else s

/-- A path without the separators at its end, of which a root keeps one. -/
def dirKey (path : NimStr) : NimStr :=
  let core := path.rdropWhile isSeparator
  if core = [] ∨ core.getLast? = some 58 then core ++ (path.drop core.length).take 1 else core

/-- Two spellings of one directory. -/
def SameDirectory (path path' : NimStr) : Prop := dirKey path = dirKey path'

instance (path path' : NimStr) : Decidable (SameDirectory path path') :=
  inferInstanceAs (Decidable (dirKey path = dirKey path'))

/-- A separator at the end makes no difference, unless it makes a root of the path. -/
theorem sameDirectory_concat {dir : NimStr} {sep : UInt8} (hsep : isSeparator sep = true)
    (hne : dir ≠ []) (hcolon : dir.getLast? ≠ some 58) : SameDirectory dir (dir ++ [sep]) := by
  have hcore : (dir ++ [sep]).rdropWhile isSeparator = dir.rdropWhile isSeparator :=
    List.rdropWhile_concat_pos _ _ _ hsep
  obtain ⟨rest, hrest⟩ := List.rdropWhile_prefix isSeparator dir
  unfold SameDirectory dirKey
  rw [hcore]
  generalize dir.rdropWhile isSeparator = core at hrest ⊢
  by_cases hroot : core = [] ∨ core.getLast? = some 58
  · -- the path is not the bare root, so the separator that is kept stands in it already
    cases rest with
    | nil =>
      rw [List.append_nil] at hrest
      rcases hroot with hnil | hlast
      · exact absurd (hrest.symm.trans hnil) hne
      · rw [hrest] at hlast
        exact absurd hlast hcolon
    | cons first rest =>
      simp only [if_pos hroot, ← hrest, List.append_assoc, List.drop_left, List.cons_append,
        List.take_succ_cons, List.take_zero]
  · simp only [if_neg hroot]

/-! ## 2. The find hooks -/

inductive FindArm
  | findFirstFileW
  | findFirstFileExW
  deriving DecidableEq, Repr

def FindArm.name : FindArm → NimStr
  | findFirstFileW => str "FindFirstFileW"
  | findFirstFileExW => str "FindFirstFileExW"

/-- `rfind`: the last index of a byte, -1 if there is none. -/
def rfind (s : NimStr) (c : UInt8) : Int := ((s.rdropWhile (· != c)).length : Int) - 1

def emitFindFirstRecord (o : Origin) (searchPath : NimStr) (resultHandle : Handle)
    (detail : NimStr) : List MonitorRecord :=
  if searchPath.length = 0 then []
  else
    let lastSep := max (rfind searchPath 92) (rfind searchPath 47)
    let tail := searchPath.drop (lastSep + 1).toNat
    let dirPath :=
      if lastSep > 0 ∧ (startsWith tail (str "*") ∨ tail = str "*.*" ∨ tail = str "*") then
        searchPath.take lastSep.toNat
      else searchPath
    [{ baseRecord o mrDirectoryEnumerate moDirectoryEnumerate with
      path := dirPath
      result := if realHandle resultHandle then 1 else 0
      detail := detail }]

/-- **`snoopFindFirstFileW` and `snoopFindFirstFileExW`** behind the real call. -/
def snoopFindFirstFile (o : Origin) (arm : FindArm) (searchPath : NimStr) (hFind : Handle) :
    List MonitorRecord :=
  emitFindFirstRecord o searchPath hFind arm.name

/-- **The patterns the hook takes off**: they start with a star, behind a separator that is neither
the first byte nor behind a drive's colon. -/
def Strippable (s : NimStr) : Prop :=
  isPattern (lastComponent s) = true → (directoryPart s).dropLast ≠ [] ∧
    (directoryPart s).dropLast.getLast? ≠ some 58 ∧ (lastComponent s).head? = some 42

instance (s : NimStr) : Decidable (Strippable s) :=
  inferInstanceAs (Decidable (_ → _))

/-- What is left of a list behind the last element that fails one of two tests. -/
theorem length_rdropWhile_and {α : Type} (p q : α → Bool) (l : List α) :
    (l.rdropWhile fun a => p a && q a).length =
      max (l.rdropWhile p).length (l.rdropWhile q).length := by
  induction l using List.reverseRecOn with
  | nil => rfl
  | append_singleton l a ih =>
    have hp := (List.rdropWhile_prefix p l).length_le
    have hq := (List.rdropWhile_prefix q l).length_le
    cases hpa : p a <;> cases hqa : q a <;>
      simp only [List.rdropWhile_concat, hpa, hqa, Bool.and_true, Bool.and_false, if_true,
        Bool.false_eq_true, if_false, List.length_append, List.length_singleton, ih] <;> omega

/-- The last separator of either kind is where the directory part ends. -/
theorem lastSep_eq (s : NimStr) :
    max (rfind s 92) (rfind s 47) = ((directoryPart s).length : Int) - 1 := by
  have hsep : (fun c => !isSeparator c) = fun c => c != 92 && c != 47 := by
    funext c
    rw [isSeparator, Bool.not_or]
    rfl
  have hlength : (directoryPart s).length =
      max (s.rdropWhile (· != 92)).length (s.rdropWhile (· != 47)).length := by
    rw [directoryPart, hsep, length_rdropWhile_and]
  unfold rfind
  omega

theorem directoryPart_append (s : NimStr) : directoryPart s ++ lastComponent s = s :=
  List.rdropWhile_append_rtakeWhile

/-- The directory part ends with a separator, if there is one. -/
theorem directoryPart_concat {s : NimStr} (hne : (directoryPart s).dropLast ≠ []) :
    ∃ sep, isSeparator sep = true ∧ (directoryPart s).dropLast ++ [sep] = directoryPart s := by
  have hpart : directoryPart s ≠ [] := by
    intro hnil
    rw [hnil] at hne
    exact hne rfl
  refine ⟨(directoryPart s).getLast hpart, ?_, List.dropLast_append_getLast hpart⟩
  have hlast := List.rdropWhile_last_not (fun c => !isSeparator c) s hpart
  rwa [Bool.not_eq_true, Bool.not_eq_false'] at hlast

/-- What the hook takes off is a pattern. -/
theorem isPattern_of_star {tail : NimStr}
    (h : startsWith tail (str "*") = true ∨ tail = str "*.*" ∨ tail = str "*") :
    isPattern tail = true := by
  rcases h with hstart | rfl | rfl
  · rw [eq_append_drop hstart]
    exact Bool.or_eq_true_iff.mpr (Or.inl rfl)
  · decide
  · decide

/-- What the find hooks record. -/
theorem snoopFindFirstFile_eq (o : Origin) (arm : FindArm) {s : NimStr} (hne : s ≠ [])
    (hFind : Handle) : snoopFindFirstFile o arm s hFind =
      [{ baseRecord o mrDirectoryEnumerate moDirectoryEnumerate with
        path :=
          if 1 < (directoryPart s).length ∧ (startsWith (lastComponent s) (str "*") ∨
              lastComponent s = str "*.*" ∨ lastComponent s = str "*") then
            (directoryPart s).dropLast
          else s
        result := if realHandle hFind then 1 else 0
        detail := arm.name }] := by
  have hlength : ¬ s.length = 0 := fun h0 => hne (List.eq_nil_of_length_eq_zero h0)
  have htail : s.drop (((directoryPart s).length : Int) - 1 + 1).toNat = lastComponent s := by
    have hdrop : (((directoryPart s).length : Int) - 1 + 1).toNat =
        (directoryPart s).length := by omega
    rw [hdrop]
    nth_rewrite 2 [← directoryPart_append s]
    exact List.drop_left
  have htake : s.take (((directoryPart s).length : Int) - 1).toNat =
      (directoryPart s).dropLast := by
    have hminus : (((directoryPart s).length : Int) - 1).toNat =
        (directoryPart s).length - 1 := by omega
    rw [hminus, List.dropLast_eq_take]
    nth_rewrite 2 [← directoryPart_append s]
    exact List.take_append_of_le_length (Nat.sub_le _ _)
  have hpositive : ((directoryPart s).length : Int) - 1 > 0 ↔ 1 < (directoryPart s).length := by
    omega
  unfold snoopFindFirstFile emitFindFirstRecord
  simp only [if_neg hlength, lastSep_eq, htail, htake, hpositive]

/-- **The find hooks name the listed directory**, wherever the pattern is one they take off. -/
theorem snoopFindFirstFile_names (o : Origin) (arm : FindArm) {s : NimStr} (hne : s ≠ [])
    (hstrip : Strippable s) (hFind : Handle) :
    ∃ record ∈ snoopFindFirstFile o arm s hFind, record.kind = mrDirectoryEnumerate ∧
      SameDirectory record.path (listedDirectory s) := by
  rw [snoopFindFirstFile_eq o arm hne]
  refine ⟨_, List.mem_singleton_self _, rfl, ?_⟩
  dsimp only
  by_cases hpattern : isPattern (lastComponent s) = true
  · obtain ⟨hdir, hcolon, hhead⟩ := hstrip hpattern
    obtain ⟨sep, hsep, hconcat⟩ := directoryPart_concat hdir
    have hlong : 1 < (directoryPart s).length := by
      have hpos : 0 < (directoryPart s).dropLast.length := List.length_pos_iff.mpr hdir
      rw [List.length_dropLast] at hpos
      omega
    have hstar : startsWith (lastComponent s) (str "*") = true := by
      cases hlast : lastComponent s with
      | nil =>
        rw [hlast] at hhead
        exact absurd hhead (by decide)
      | cons c rest =>
        rw [hlast] at hhead
        obtain rfl : c = 42 := Option.some.inj hhead
        exact startsWith_append (str "*") rest
    rw [if_pos ⟨hlong, Or.inl hstar⟩, listedDirectory, if_pos hpattern]
    nth_rewrite 2 [← hconcat]
    exact sameDirectory_concat hsep hdir hcolon
  · have hkept : ¬ (1 < (directoryPart s).length ∧ (startsWith (lastComponent s) (str "*") = true ∨
        lastComponent s = str "*.*" ∨ lastComponent s = str "*")) :=
      fun hcond => hpattern (isPattern_of_star hcond.2)
    rw [if_neg hkept, listedDirectory, if_neg hpattern]
    rfl

/-! ## 3. The NT calls -/

/-- **The calls that are recorded**: with the hooks of the exports registered, the first for a
handle and each that restarts the scan, of a path that does not look marked; without them, a restart
through the looked-up pointer. -/
def Recorded (snoops : Bool) (entry : ListingEntry) (restartScan scanned : Bool) (p : NimStr) :
    Prop :=
  match entry with
  | .lookedUp => snoops = false ∧ restartScan = true
  | _ => snoops = true ∧ (restartScan = true ∨ scanned = false) ∧ startsWith p enumMark = false

/-- The export's hook, at a handle that is remembered under its path or under the marked one. -/
theorem snoopNtQueryDirectory_names (o : Origin) {t : HandleTables} {h : Handle} {p : NimStr}
    {restartScan scanned : Bool} (hunmarked : startsWith p enumMark = false)
    (hrow : t.handlePaths h = some p ∨
      (scanned = true ∧ t.handlePaths h = some (enumMark ++ p)))
    (hstarts : restartScan = true ∨ scanned = false) (nt : Int32) (detail : NimStr) :
    (snoopNtQueryDirectory o t h restartScan nt detail).2 = listingRecord o p nt detail := by
  rcases hrow with hrow | ⟨hscanned, hrow⟩
  · rw [snoopNtQueryDirectory, hrow]
    simp only [if_pos hunmarked]
  · have hrestart : restartScan = true := by
      rcases hstarts with hrestart | hfirst
      · exact hrestart
      · exact absurd (hscanned.symm.trans hfirst) (by decide)
    have hmarked : ¬ startsWith (enumMark ++ p) enumMark = false := by
      rw [startsWith_append]
      decide
    rw [snoopNtQueryDirectory, hrow]
    simp only [if_neg hmarked, if_pos hrestart, List.drop_left]

theorem listingRecord_mem (o : Origin) {p : NimStr} (hne : p ≠ []) (nt : Int32)
    (detail : NimStr) :
    ∃ record ∈ listingRecord o p nt detail, record.kind = mrDirectoryEnumerate ∧
      record.path = p := by
  rw [listingRecord, if_pos (List.length_pos_iff.mpr hne)]
  exact ⟨_, List.mem_singleton_self _, rfl, rfl⟩

/-- **The NT calls name the path of the open**, in every run and at any reuse of the handle. -/
theorem queryDirectory_names {snoops : Bool} {serverPid : Handle → UInt64} {o : Origin}
    {w : HandleWorld} {history : List MonitorRecord}
    (hrun : HandleRun snoops serverPid o w history) {h : Handle} {p : NimStr} {scanned : Bool}
    (hobject : w.objects h = some ⟨.directory, some p, true, scanned⟩) {entry : ListingEntry}
    {restartScan : Bool} (hrecorded : Recorded snoops entry restartScan scanned p) (nt : Int32) :
    ∃ record ∈ (handleStep snoops serverPid o w (.queryDirectory entry h restartScan nt)).2,
      record.kind = mrDirectoryEnumerate ∧ record.path = p := by
  have hfits := ((tracked_of_run hrun).rows h).fits hobject
  have hne : p ≠ [] := fun hnil => hfits.named (congrArg some hnil)
  have hrow := hfits.directory p rfl rfl rfl
  have hexport : ∀ detail, snoops = true → (restartScan = true ∨ scanned = false) →
      startsWith p enumMark = false → ∃ record ∈
        (snoopNtQueryDirectory o w.tables h restartScan nt detail).2,
        record.kind = mrDirectoryEnumerate ∧ record.path = p := by
    intro detail _ hstarts hunmarked
    have hat : w.tables.handlePaths h = some p ∨
        (scanned = true ∧ w.tables.handlePaths h = some (enumMark ++ p)) :=
      hrow.imp_right fun hmarked => hmarked.2
    rw [snoopNtQueryDirectory_names o hunmarked hat hstarts]
    exact listingRecord_mem o hne nt detail
  cases entry with
  | lookedUp =>
    obtain ⟨rfl, rfl⟩ := hrecorded
    have hpath : w.tables.handlePaths h = some p :=
      hrow.resolve_right fun hmarked => absurd hmarked.1 (by decide)
    simp only [handleStep, shimNtQueryDirectoryFile, if_true, hpath, Option.getD_some]
    exact listingRecord_mem o hne nt _
  | ntQueryDirectoryFile =>
    obtain ⟨rfl, hstarts, hunmarked⟩ := hrecorded
    exact hexport _ rfl hstarts hunmarked
  | ntQueryDirectoryFileEx =>
    obtain ⟨rfl, hstarts, hunmarked⟩ := hrecorded
    exact hexport _ rfl hstarts hunmarked

/-! ## 4. Both layers -/

/-- **Which listings are named, and under which path.** -/
theorem listings_named (serverPid : Handle → UInt64) (o : Origin) :
    (∀ (arm : FindArm) (s : NimStr) (hFind : Handle), s ≠ [] → Strippable s →
      ∃ record ∈ snoopFindFirstFile o arm s hFind, record.kind = mrDirectoryEnumerate ∧
        SameDirectory record.path (listedDirectory s)) ∧
    (∀ (snoops : Bool) (w : HandleWorld) (history : List MonitorRecord),
      HandleRun snoops serverPid o w history →
      ∀ (h : Handle) (p : NimStr) (scanned : Bool),
        w.objects h = some ⟨.directory, some p, true, scanned⟩ →
        ∀ (entry : ListingEntry) (restartScan : Bool) (nt : Int32),
          Recorded snoops entry restartScan scanned p →
          ∃ record ∈
            (handleStep snoops serverPid o w (.queryDirectory entry h restartScan nt)).2,
            record.kind = mrDirectoryEnumerate ∧ record.path = p) ∧
    ∀ (w : HandleWorld) (entry : ListingEntry) (h : Handle) (restartScan : Bool) (nt : Int32),
      entry ≠ .lookedUp →
      (handleStep false serverPid o w (.queryDirectory entry h restartScan nt)).2 = [] := by
  refine ⟨fun arm s hFind hne hstrip => snoopFindFirstFile_names o arm hne hstrip hFind, ?_, ?_⟩
  · intro snoops w history hrun h p scanned hobject entry restartScan nt hrecorded
    exact queryDirectory_names hrun hobject hrecorded nt
  · intro w entry h restartScan nt hentry
    cases entry with
    | lookedUp => exact absurd rfl hentry
    | ntQueryDirectoryFile => rfl
    | ntQueryDirectoryFileEx => rfl

/-- A source directory is opened. -/
def openSources : HandleOp :=
  .createFile .createFileW (str "C:\\src") GENERIC_READ 3 none (some (0x84, .directory))

theorem openSources_possible : openSources.Possible bareHandles := by
  refine ⟨by decide, fun m hm => ?_⟩
  obtain rfl : (0x84, ObjectKind.directory) = m := Option.some.inj hm
  exact ⟨⟨by decide, rfl⟩, by decide⟩

theorem listings_named_sources :
    (∃ record ∈ snoopFindFirstFile { osPid := 7 } .findFirstFileW (str "C:\\src\\*.c") 0x88,
      record.kind = mrDirectoryEnumerate ∧ SameDirectory record.path (str "C:\\src\\")) ∧
    ∃ record ∈ (handleStep true (fun _ => 0) { osPid := 7 }
        (handleStep true (fun _ => 0) { osPid := 7 } bareHandles openSources).1
        (.queryDirectory .ntQueryDirectoryFile 0x84 false 0)).2,
      record.kind = mrDirectoryEnumerate ∧ record.path = str "C:\\src" := by
  obtain ⟨hfind, hquery, _⟩ := listings_named (fun _ => 0) { osPid := 7 }
  refine ⟨?_, ?_⟩
  · have hlisted : listedDirectory (str "C:\\src\\*.c") = str "C:\\src\\" := by decide
    rw [← hlisted]
    exact hfind .findFirstFileW _ 0x88 (by decide) (by decide)
  · exact hquery true _ _ (.call (.start bareHandles_initial) openSources_possible) 0x84
      (str "C:\\src") false rfl .ntQueryDirectoryFile false 0 ⟨rfl, Or.inr rfl, by decide⟩

/-- **What goes unnamed**: a pattern that does not start with a star is recorded as it is, and of a
listing at the export nothing is. -/
theorem listings_not_all_named :
    (¬ ∀ (o : Origin) (arm : FindArm) (s : NimStr) (hFind : Handle), s ≠ [] →
      ∃ record ∈ snoopFindFirstFile o arm s hFind, record.kind = mrDirectoryEnumerate ∧
        SameDirectory record.path (listedDirectory s)) ∧
    ¬ ∀ (serverPid : Handle → UInt64) (o : Origin) (w : HandleWorld)
        (history : List MonitorRecord), HandleRun false serverPid o w history →
      ∀ (h : Handle) (p : NimStr), w.objects h = some ⟨.directory, some p, true, false⟩ →
        ∀ (entry : ListingEntry) (restartScan : Bool) (nt : Int32),
          ∃ record ∈
            (handleStep false serverPid o w (.queryDirectory entry h restartScan nt)).2,
            record.kind = mrDirectoryEnumerate ∧ record.path = p := by
  constructor
  · intro hall
    obtain ⟨record, hmem, _, hsame⟩ :=
      hall { osPid := 7 } .findFirstFileW (str "src\\a*.c") 0x88 (by decide)
    have hout : snoopFindFirstFile { osPid := 7 } .findFirstFileW (str "src\\a*.c") 0x88 =
        [{ baseRecord { osPid := 7 } mrDirectoryEnumerate moDirectoryEnumerate with
          path := str "src\\a*.c", result := 1, detail := str "FindFirstFileW" }] := by
      decide
    rw [hout, List.mem_singleton] at hmem
    rw [hmem] at hsame
    exact absurd hsame (by decide)
  · intro hall
    obtain ⟨record, hmem, _⟩ := hall (fun _ => 0) { osPid := 7 } _ _
      (.call (.start bareHandles_initial) openSources_possible) 0x84 (str "C:\\src") rfl
      .ntQueryDirectoryFile true 0
    exact absurd hmem List.not_mem_nil

end IoMon
