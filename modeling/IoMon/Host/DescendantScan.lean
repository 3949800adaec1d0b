/-
# Which processes still carry this run's markers

`liveInjectedDescendants` of `fs_snoop.nim` walks the listing of `/proc` once the monitored root
is done.  A pid counts when its environment can be opened, its stat line is understood and does
not say zombie, and its environment block holds `REPRO_MONITOR_SESSION=<run>` or
`REPRO_MONITOR_FRAGMENT_DIR=<dir>` as a whole entry.  To save reading environments, a process
that was created before the root is left out on its start time alone.

The specification (`Process.Counts`) splits the block at its NUL bytes and does not look at start
times.  The two agree on every table in which no process that holds an entry is older than the
root (`liveInjectedDescendants_eq`), and without that the scan leaves out exactly the older ones
(`scan_filter`).  The scan never visits the monitor itself and the root.
-/
import IoMon.Host.ProcStat

namespace IoMon

open ByteText

/-! ## 1. The environment block -/

/-- The entry loop: the bytes up to the next NUL or the end, against both needles. -/
def carriesFrom (sessionNeedle fragmentNeedle : NimStr) : Nat → NimStr → Bool
  | 0, _ => false
  | fuel + 1, buf =>
    if buf.isEmpty then false
    else
      let entry := buf.takeWhile (· != 0)
      if entry = sessionNeedle then true
      else if entry = fragmentNeedle then true
      else carriesFrom sessionNeedle fragmentNeedle fuel (buf.drop (entry.length + 1))

/-- **`environCarriesInvocation`** on the bytes that were read; a turn of the loop takes a byte at
least, so their number is bound enough. -/
def environCarriesInvocation (buf sessionNeedle fragmentNeedle : NimStr) : Bool :=
  carriesFrom sessionNeedle fragmentNeedle buf.length buf

/-- The first entry of a block, and the entries behind it. -/
theorem splitAt_takeWhile (buf : NimStr) :
    splitAt 0 buf = buf.takeWhile (· != 0) ::
      if (buf.takeWhile (· != 0)).length < buf.length then
        splitAt 0 (buf.drop ((buf.takeWhile (· != 0)).length + 1))
      else [] := by
  induction buf with
  | nil => rfl
  | cons c t ih =>
    rw [splitAt]
    by_cases hc : c = 0
    · subst hc
      rw [if_pos rfl, List.takeWhile_cons_of_neg (by decide), List.length_nil,
        if_pos (by simp), List.drop_succ_cons, List.drop_zero]
    · rw [if_neg hc, List.takeWhile_cons_of_pos (by simpa using hc), ih]
      simp only [consHead, List.length_cons, Nat.add_lt_add_iff_right, List.drop_succ_cons]

/-- **The byte search is the search for a whole entry.** -/
theorem environCarriesInvocation_iff {buf session fragment : NimStr} (hs : session ≠ [])
    (hf : fragment ≠ []) :
    environCarriesInvocation buf session fragment = true ↔
      session ∈ splitAt 0 buf ∨ fragment ∈ splitAt 0 buf := by
  have hloop : ∀ fuel buf, buf.length ≤ fuel →
      (carriesFrom session fragment fuel buf = true ↔
        session ∈ splitAt 0 buf ∨ fragment ∈ splitAt 0 buf) := by
    intro fuel
    induction fuel with
    | zero =>
      intro buf hlen
      obtain rfl := List.eq_nil_of_length_eq_zero (Nat.le_zero.mp hlen)
      simp [carriesFrom, splitAt, hs, hf]
    | succ fuel ih =>
      intro buf hlen
      rw [carriesFrom]
      cases buf with
      | nil => simp [splitAt, hs, hf]
      | cons c t =>
        rw [splitAt_takeWhile (c :: t), if_neg (by simp)]
        generalize hentry : (c :: t).takeWhile (· != 0) = entry
        have hnext : (c :: t).drop (entry.length + 1) = t.drop entry.length := rfl
        have hshort : (t.drop entry.length).length ≤ fuel := by
          rw [List.length_drop]
          rw [List.length_cons] at hlen
          omega
        by_cases h1 : entry = session
        · simp only [h1, if_true, List.mem_cons, true_or]
        by_cases h2 : entry = fragment
        · simp only [h2, if_true, List.mem_cons, true_or, or_true, ite_self]
        dsimp only
        rw [if_neg h1, if_neg h2, hnext, ih _ hshort]
        simp only [List.mem_cons, Ne.symm h1, Ne.symm h2, false_or]
        by_cases hend : entry.length < (c :: t).length
        · rw [if_pos hend]
        · have hnil : t.drop entry.length = [] := List.drop_eq_nil_of_le (by
            rw [List.length_cons] at hend
            omega)
          rw [if_neg hend, hnil]
          simp [splitAt, hs, hf]
  exact hloop buf.length buf (Nat.le_refl _)

/-! ## 2. The scan -/

/-- An entry of the listing with what its two files give: `none` where the open fails. -/
structure ProcEntry where
  name : NimStr
  environ : Option NimStr
  stat : Option NimStr
  deriving DecidableEq, Repr

/-- The listing of `/proc`, and whether `readdir` ended in an error. -/
structure ProcDir where
  entries : List ProcEntry
  readError : Bool
  deriving DecidableEq, Repr

def ProcStatBufLen : Nat := 4096

/-- The pid loop; a name of more than ten digits is not plausibly a pid. -/
def pidLoop : (i pid : Nat) → NimStr → Option Nat
  | _, pid, [] => some pid
  | i, pid, c :: t =>
    if isDigit c = false ∨ i ≥ 10 then none else pidLoop (i + 1) (pid * 10 + (c.toNat - 48)) t

def pidOfName (name : NimStr) : Option Nat :=
  if name.isEmpty then none else pidLoop 0 0 name

def sessionNeedle (runId : NimStr) : NimStr := str "REPRO_MONITOR_SESSION=" ++ runId

def fragmentNeedle (fragmentDir : NimStr) : NimStr :=
  str "REPRO_MONITOR_FRAGMENT_DIR=" ++ fragmentDir

def predatesRoot (startTicks rootStartTicks : UInt64) : Bool :=
  decide (rootStartTicks > 0 ∧ startTicks > 0 ∧ startTicks < rootStartTicks)

/-- One run's scan: what it looks for, and the two pids it does not visit. -/
structure Scan where
  runId : NimStr
  fragmentDir : NimStr
  selfPid : Nat
  rootPid : UInt64
  minStartTicks : UInt64
  deriving DecidableEq, Repr

/-- One turn of the loop: the pid that is added, if any. -/
def Scan.visit (scan : Scan) (entry : ProcEntry) : Option Nat :=
  match pidOfName entry.name with
  | none => none
  | some pid =>
    if pid = scan.selfPid ∨ UInt64.ofNat pid = scan.rootPid then none
    else
      match entry.environ with
      | none => none
      | some environ =>
        match entry.stat.bind fun text => parseProcStat (text.take ProcStatBufLen) with
        | none => none
        | some stat =>
          if stat.state = 90 then none
          else if predatesRoot stat.startTicks scan.minStartTicks then none
          else if environ.length > 0 ∧
              environCarriesInvocation environ (sessionNeedle scan.runId)
                (fragmentNeedle scan.fragmentDir) = true then some pid
          else none

/-- **`liveInjectedDescendants`**: the pids and `scanFailed`.  `none` is a `/proc` that cannot be
opened. -/
def liveInjectedDescendants (scan : Scan) (dir : Option ProcDir) : List Nat × Bool :=
  match dir with
  | none => ([], true)
  | some dir => if dir.readError then ([], true) else (dir.entries.filterMap scan.visit, false)

/-! ## 3. A table of processes -/

/-- A process: its stat line, which fits the scan's buffer, and its environment block, `none`
where the scan may not read it. -/
structure Process where
  stat : StatLine
  statFits : stat.text.length ≤ ProcStatBufLen
  pidFits : stat.pid.toNat < 10 ^ 10
  statReadable : Bool
  environ : Option NimStr

/-- A line of the listing: a process, or something that is not one. -/
inductive Listed
  | process (p : Process)
  | other (entry : ProcEntry) (notPid : pidOfName entry.name = none)

def Process.entry (p : Process) : ProcEntry where
  name := decimal p.stat.pid
  environ := p.environ
  stat := if p.statReadable then some p.stat.text else none

def Listed.entry : Listed → ProcEntry
  | .process p => p.entry
  | .other entry _ => entry

def Listed.process? : Listed → Option Process
  | .process p => some p
  | .other _ _ => none

/-- The processes of a listing. -/
def processes (listing : List Listed) : List Process := listing.filterMap Listed.process?

/-- The environment block holds one of the run's two entries, whole. -/
def Process.HoldsEntry (p : Process) (scan : Scan) : Prop :=
  ∃ environ ∈ p.environ, sessionNeedle scan.runId ∈ splitAt 0 environ ∨
    fragmentNeedle scan.fragmentDir ∈ splitAt 0 environ

instance (p : Process) (scan : Scan) : Decidable (p.HoldsEntry scan) :=
  inferInstanceAs (Decidable (∃ environ ∈ p.environ, _ ∨ _))

/-- **A live descendant that was injected**: neither the monitor nor the root, not a zombie, and
holding an entry. -/
def Process.Counts (p : Process) (scan : Scan) : Prop :=
  p.stat.pid.toNat ≠ scan.selfPid ∧ p.stat.pid ≠ scan.rootPid ∧ p.statReadable = true ∧
    p.stat.state ≠ 90 ∧ p.HoldsEntry scan

instance (p : Process) (scan : Scan) : Decidable (p.Counts scan) :=
  inferInstanceAs (Decidable (_ ∧ _ ∧ _ ∧ _ ∧ _))

theorem decimal_ne_nil (n : UInt64) : decimal n ≠ [] := by
  unfold decimal decimalDigits
  split <;> simp

theorem decimal_length_le {n : UInt64} (h : n.toNat < 10 ^ 10) : (decimal n).length ≤ 10 := by
  by_cases hn : n.toNat = 0
  · rw [decimal, hn]
    decide
  · have hle := pow_length_le 20 hn
    by_contra hlong
    have hmono : 10 ^ 10 ≤ 10 ^ ((decimalDigits 20 n.toNat).length - 1) := by
      refine Nat.pow_le_pow_right (by decide) ?_
      rw [decimal] at hlong
      omega
    omega

theorem pidLoop_eq {s : NimStr} (hs : ∀ c ∈ s, isDigit c = true) {i : Nat} (pid : Nat)
    (hi : i + s.length ≤ 10) : pidLoop i pid s = some (pid * 10 ^ s.length + digitsValue s) := by
  induction s generalizing i pid with
  | nil => simp [pidLoop, digitsValue]
  | cons c s ih =>
    rw [List.length_cons] at hi
    have hgo : ¬ (isDigit c = false ∨ i ≥ 10) := by
      rw [hs c List.mem_cons_self]
      simp only [Bool.true_eq_false, false_or]
      omega
    have hcons : digitsValue (c :: s) = (c.toNat - 48) * 10 ^ s.length + digitsValue s :=
      digitsValue_append [c] s ▸ by simp [digitsValue]
    rw [pidLoop, if_neg hgo, ih (fun d hd => hs d (List.mem_cons_of_mem c hd)) _ (by omega), hcons,
      List.length_cons, pow_succ]
    congr 1
    ring

/-- A process is listed under its pid. -/
theorem pidOfName_decimal {n : UInt64} (h : n.toNat < 10 ^ 10) :
    pidOfName (decimal n) = some n.toNat := by
  have hempty : (decimal n).isEmpty = false := by
    rw [Bool.eq_false_iff, ne_eq, List.isEmpty_iff]
    exact decimal_ne_nil n
  have hdigits : ∀ c ∈ decimal n, isDigit c = true := decimalDigits_isDigit 20 n.toNat
  have hlen : 0 + (decimal n).length ≤ 10 := by
    rw [Nat.zero_add]
    exact decimal_length_le h
  have hvalue : digitsValue (decimal n) = n.toNat :=
    digitsValue_decimalDigits 20 _ (Nat.lt_trans n.toNat_lt (by decide))
  rw [pidOfName, if_neg (by rw [hempty]; decide), pidLoop_eq hdigits 0 hlen, hvalue, Nat.zero_mul,
    Nat.zero_add]

/-! ## 4. The scan of a table -/

theorem sessionNeedle_ne_nil (runId : NimStr) : sessionNeedle runId ≠ [] :=
  List.append_ne_nil_of_left_ne_nil (by decide) runId

theorem fragmentNeedle_ne_nil (dir : NimStr) : fragmentNeedle dir ≠ [] :=
  List.append_ne_nil_of_left_ne_nil (by decide) dir

/-- **What the scan does with one process**: it is added when it counts and is not older than the
root. -/
theorem visit_entry (scan : Scan) (p : Process) :
    (p.Counts scan ∧ predatesRoot p.stat.startTicks scan.minStartTicks = false →
      scan.visit p.entry = some p.stat.pid.toNat) ∧
    (¬ (p.Counts scan ∧ predatesRoot p.stat.startTicks scan.minStartTicks = false) →
      scan.visit p.entry = none) := by
  have hpid : UInt64.ofNat p.stat.pid.toNat = p.stat.pid := UInt64.ofNat_toNat
  have hparse : parseProcStat (p.stat.text.take ProcStatBufLen) =
      some ⟨p.stat.state, p.stat.startTicks⟩ := by
    rw [List.take_of_length_le p.statFits, p.stat.parseProcStat_text]
  have hneedles : ∀ environ, environCarriesInvocation environ (sessionNeedle scan.runId)
      (fragmentNeedle scan.fragmentDir) = true ↔
      sessionNeedle scan.runId ∈ splitAt 0 environ ∨
        fragmentNeedle scan.fragmentDir ∈ splitAt 0 environ := fun environ =>
    environCarriesInvocation_iff (sessionNeedle_ne_nil _) (fragmentNeedle_ne_nil _)
  have hvisit : scan.visit p.entry =
      if p.stat.pid.toNat = scan.selfPid ∨ p.stat.pid = scan.rootPid then none
      else
        match p.environ with
        | none => none
        | some environ =>
          match (if p.statReadable then some (ProcStat.mk p.stat.state p.stat.startTicks)
            else none) with
          | none => none
          | some stat =>
            if stat.state = 90 then none
            else if predatesRoot stat.startTicks scan.minStartTicks then none
            else if environ.length > 0 ∧
                environCarriesInvocation environ (sessionNeedle scan.runId)
                  (fragmentNeedle scan.fragmentDir) = true then some p.stat.pid.toNat
            else none := by
    rw [Scan.visit, Process.entry, pidOfName_decimal p.pidFits]
    dsimp only
    rw [hpid]
    cases p.statReadable with
    | true => rw [if_pos rfl, if_pos rfl, Option.bind_some, hparse]
    | false => rfl
  rw [hvisit]
  constructor
  · rintro ⟨⟨hself, hroot, hstat, hstate, environ, henv, hentry⟩, hnew⟩
    have hlen : environ.length > 0 := by
      cases environ with
      | nil => simp [splitAt, sessionNeedle_ne_nil, fragmentNeedle_ne_nil] at hentry
      | cons c t => simp
    rw [if_neg (not_or.mpr ⟨hself, hroot⟩), henv, hstat]
    dsimp only
    rw [if_pos rfl]
    dsimp only
    rw [if_neg hstate, if_neg (by rw [hnew]; decide),
      if_pos ⟨hlen, (hneedles environ).mpr hentry⟩]
  · intro hnot
    split
    · rfl
    · rename_i hvisited
      rw [not_or] at hvisited
      cases henv : p.environ with
      | none => rfl
      | some environ =>
        dsimp only
        cases hstat : p.statReadable with
        | false => rfl
        | true =>
          rw [if_pos rfl]
          dsimp only
          split
          · rfl
          · rename_i hstate
            split
            · rfl
            · rename_i hnew
              rw [if_neg]
              rintro ⟨_, hcarries⟩
              exact hnot ⟨⟨hvisited.1, hvisited.2, hstat, hstate, environ, henv,
                (hneedles environ).mp hcarries⟩, Bool.not_eq_true _ ▸ hnew⟩

/-- **The scan, without a promise about start times**: the processes that count, less those that
are older than the root. -/
theorem scan_filter (scan : Scan) (listing : List Listed) :
    liveInjectedDescendants scan (some ⟨listing.map Listed.entry, false⟩) =
      (((processes listing).filter fun p => p.Counts scan ∧
        predatesRoot p.stat.startTicks scan.minStartTicks = false).map (·.stat.pid.toNat),
        false) := by
  have hlist : (listing.map Listed.entry).filterMap scan.visit =
      ((processes listing).filter fun p => p.Counts scan ∧
        predatesRoot p.stat.startTicks scan.minStartTicks = false).map (·.stat.pid.toNat) := by
    induction listing with
    | nil => rfl
    | cons l listing ih =>
      cases l with
      | other entry notPid =>
        have hskip : scan.visit entry = none := by rw [Scan.visit, notPid]
        have hrest : processes (.other entry notPid :: listing) = processes listing := rfl
        rw [List.map_cons, Listed.entry, List.filterMap_cons, hskip, ih, hrest]
      | process p =>
        have hrest : processes (.process p :: listing) = p :: processes listing := rfl
        rw [List.map_cons, Listed.entry, List.filterMap_cons, hrest, List.filter_cons, ih]
        by_cases hp : p.Counts scan ∧ predatesRoot p.stat.startTicks scan.minStartTicks = false
        · rw [(visit_entry scan p).1 hp, if_pos (decide_eq_true hp), List.map_cons]
        · rw [(visit_entry scan p).2 hp, if_neg (by simpa using hp)]
  rw [liveInjectedDescendants, if_neg Bool.false_ne_true, hlist]

/-- **The pruned scan misses nobody and invents nobody.**  Where no process that holds an entry
is older than the root, it returns the processes that count, in the order they are listed, which
is what the scan without the prune returns. -/
theorem liveInjectedDescendants_eq (scan : Scan) (listing : List Listed)
    (hstart : ∀ p ∈ processes listing, p.HoldsEntry scan →
      scan.minStartTicks ≤ p.stat.startTicks) :
    liveInjectedDescendants scan (some ⟨listing.map Listed.entry, false⟩) =
        (((processes listing).filter fun p => p.Counts scan).map (·.stat.pid.toNat), false) ∧
      liveInjectedDescendants scan (some ⟨listing.map Listed.entry, false⟩) =
        liveInjectedDescendants { scan with minStartTicks := 0 }
          (some ⟨listing.map Listed.entry, false⟩) := by
  have hnew : ∀ p ∈ processes listing, p.Counts scan →
      predatesRoot p.stat.startTicks scan.minStartTicks = false := by
    intro p hp hcounts
    have hle := hstart p hp hcounts.2.2.2.2
    rw [predatesRoot, decide_eq_false_iff_not]
    rintro ⟨_, _, hlt⟩
    exact absurd hlt (UInt64.not_lt.mpr hle)
  have hpruned : (processes listing).filter (fun p => p.Counts scan ∧
      predatesRoot p.stat.startTicks scan.minStartTicks = false) =
      (processes listing).filter fun p => p.Counts scan := by
    refine List.filter_congr fun p hp => ?_
    rw [decide_eq_decide]
    exact ⟨fun h => h.1, fun h => ⟨h, hnew p hp h⟩⟩
  have hfull : (processes listing).filter (fun p =>
      p.Counts { scan with minStartTicks := 0 } ∧ predatesRoot p.stat.startTicks 0 = false) =
      (processes listing).filter fun p => p.Counts scan := by
    refine List.filter_congr fun p _ => ?_
    rw [decide_eq_decide]
    refine ⟨fun h => h.1, fun h => ⟨h, ?_⟩⟩
    rw [predatesRoot, decide_eq_false_iff_not]
    exact fun h => absurd h.1 (by decide)
  rw [scan_filter, scan_filter, hpruned, hfull]
  exact ⟨rfl, rfl⟩

/-- A scan of run `r1`, whose root has pid 4242 and started at tick 123456. -/
def runScan : Scan where
  runId := str "r1"
  fragmentDir := str "/tmp/f"
  selfPid := 100
  rootPid := 4242
  minStartTicks := 123456

/-- The root itself: it was started with the session entry. -/
def rootProcess : Process where
  stat := shellLine
  statFits := by decide +kernel
  pidFits := by decide
  statReadable := true
  environ := some (str "PATH=/bin" ++ 0 :: (str "REPRO_MONITOR_SESSION=r1" ++ [0]))

/-- A descendant whose block ends in the entry without a NUL behind it. -/
def daemonProcess : Process where
  stat := { shellLine with pid := 5000, startTicks := 123500 }
  statFits := by decide +kernel
  pidFits := by decide
  statReadable := true
  environ := some (str "PATH=/bin" ++ 0 :: str "REPRO_MONITOR_FRAGMENT_DIR=/tmp/f")

/-- An older process, with the entry inside another one. -/
def olderProcess : Process where
  stat := { shellLine with pid := 77, startTicks := 9 }
  statFits := by decide +kernel
  pidFits := by decide
  statReadable := true
  environ := some (str "X=REPRO_MONITOR_SESSION=r1" ++ [0])

def runListing : List Listed :=
  [.other ⟨str "self", none, none⟩ (by decide), .process olderProcess, .process rootProcess,
    .process daemonProcess]

theorem liveInjectedDescendants_eq_runListing :
    liveInjectedDescendants runScan (some ⟨runListing.map Listed.entry, false⟩) =
        (((processes runListing).filter fun p => p.Counts runScan).map (·.stat.pid.toNat),
          false) ∧
      liveInjectedDescendants runScan (some ⟨runListing.map Listed.entry, false⟩) =
        liveInjectedDescendants { runScan with minStartTicks := 0 }
          (some ⟨runListing.map Listed.entry, false⟩) :=
  liveInjectedDescendants_eq runScan runListing (by decide +kernel)

/-- **The root is not reported**, though it is alive and its block holds the session entry. -/
theorem root_not_reported :
    rootProcess ∈ processes runListing ∧ rootProcess.HoldsEntry runScan ∧
      rootProcess.stat.state ≠ 90 ∧
      (∀ p ∈ processes runListing, p.HoldsEntry runScan →
        runScan.minStartTicks ≤ p.stat.startTicks) ∧
      liveInjectedDescendants runScan (some ⟨runListing.map Listed.entry, false⟩) =
        ([5000], false) ∧
      rootProcess.stat.pid.toNat ∉ [5000] := by
  refine ⟨?_, ?_⟩
  · simp [processes, runListing, Listed.process?]
  · decide +kernel

end IoMon
