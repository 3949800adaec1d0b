/-
# Whose search path `dlopen` uses

The loader resolves a bare name with the lists of the object that calls `dlopen`, and behind the
shim's wrapper that object is the shim.  So the wrapper makes the search first, with the lists of
the object it was called from, and hands an absolute or relative file name on; on a miss it hands on
the name it was given.

The search it documents goes through the caller's DT_RPATH where there is no DT_RUNPATH, through
LD_LIBRARY_PATH and through the DT_RUNPATH, and stops at the first file that exists and is not of
another ELF class; `$ORIGIN` is expanded, and a directory with another token is left out.  What the
loader itself makes of the name it is handed is not modelled.

  * `expandEntry_written` -- the expansion of an entry, and when it is too long;
  * `resolve_cases` -- what the wrapper hands on, in any world: the name itself, or an existing file
    of that name that is not of another class;
  * `resolve_eq_callerSearch` -- the bytes of the dynamic section, of the lists and of the
    candidates' headers give the documented search.
-/
import IoMon.Types

namespace IoMon.CallerDlopen

open ByteText

/-! ## 1. The wrapper's search -/

/-- `PATH_MAX`. -/
def PathMax : Nat := 4096

def ElfHeaderBytes : Nat := 64

/-- An answer of `read`; the last is end of file or an error. -/
inductive ReadAnswer
  | interrupted
  | bytes (first : UInt8) (more : NimStr)
  | done
  deriving DecidableEq, Repr

/-- An entry of a dynamic section. -/
structure Dyn where
  tag : Int
  val : UInt64
  deriving DecidableEq, Repr

def DT_NULL : Int := 0
def DT_STRTAB : Int := 5
def DT_RPATH : Int := 15
def DT_RUNPATH : Int := 29

/-- A `struct link_map`; a null pointer is `none`. -/
structure LinkMap where
  lName : Option NimStr
  lLd : Option (List Dyn)
  deriving DecidableEq, Repr

/-- What the wrapper asks the process and the file system. -/
structure World where
  /-- whether `access` with `F_OK` succeeds -/
  access : NimStr → Bool
  /-- what the reads give behind an `open` that succeeds -/
  openRead : NimStr → Option (List ReadAnswer)
  /-- `/proc/self/exe` -/
  exe : Option NimStr
  ldLibraryPath : Option NimStr
  /-- the C string at an address -/
  cstr : UInt64 → NimStr
  dladdr : UInt64 → Option LinkMap

/-- Where a walk over a dynamic section is; an offset that was not met is -1. -/
structure DynScan where
  strtab : UInt64 := 0
  rpathOff : UInt64 := 0xFFFFFFFFFFFFFFFF
  runpathOff : UInt64 := 0xFFFFFFFFFFFFFFFF
  deriving DecidableEq, Repr

def DynScan.visit (s : DynScan) (d : Dyn) : DynScan :=
  if d.tag = DT_STRTAB then { s with strtab := d.val }
  else if d.tag = DT_RPATH then { s with rpathOff := d.val }
  else if d.tag = DT_RUNPATH then { s with runpathOff := d.val }
  else s

/-- The string at an offset, unless it is negative as a signed number. -/
def pathAt (w : World) (strtab off : UInt64) : Option NimStr :=
  if off.toNat < 2 ^ 63 then some (w.cstr (strtab + off)) else none

/-- `ct_dlopen_dyn_paths`: DT_RPATH and DT_RUNPATH. -/
def dlopenDynPaths (w : World) (lm : LinkMap) : Option NimStr × Option NimStr :=
  match lm.lLd with
  | none => (none, none)
  | some dyns =>
    let s := (dyns.takeWhile fun d => d.tag ≠ DT_NULL).foldl DynScan.visit {}
    if s.strtab = 0 then (none, none)
    else (pathAt w s.strtab s.rpathOff, pathAt w s.strtab s.runpathOff)

/-- The file of an object; the main program has no name of its own, and `readlink` cuts at the
buffer. -/
def objectFile (w : World) (lm : LinkMap) : Option NimStr :=
  match lm.lName with
  | some (c :: rest) => some (c :: rest)
  | _ =>
    match w.exe with
    | none => none
    | some target =>
      if target.take (PathMax - 1) = [] then none else some (target.take (PathMax - 1))

/-- A file name through its last separator. -/
def throughSep (src : NimStr) : NimStr := (src.reverse.dropWhile (· ≠ 47)).reverse

/-- `ct_dlopen_origin_dir`. -/
def dlopenOriginDir (w : World) (lm : LinkMap) : Option NimStr :=
  match objectFile w lm with
  | none => none
  | some src =>
    let dir := throughSep src
    if dir = [] then some (str ".")
    else
      -- the separator goes, but not the root's
      let out := if 1 < dir.length then dir.dropLast else dir
      if PathMax ≤ out.length then none else some out

/-- The read loop of `ct_dlopen_has_other_elf_class`. -/
def readHeader : List ReadAnswer → NimStr → NimStr
  | [], header => header
  | answer :: rest, header =>
    if ElfHeaderBytes ≤ header.length then header
    else
      match answer with
      | .interrupted => readHeader rest header
      | .bytes first more =>
        readHeader rest (header ++ (first :: more).take (ElfHeaderBytes - header.length))
      | .done => header

/-- A whole header, with the magic, of a class that is not ELFCLASS64. -/
def otherElfClass (header : NimStr) : Bool :=
  decide (header.length = ElfHeaderBytes) && header.take 4 == [0x7f, 0x45, 0x4c, 0x46] &&
    header[4]? != some 2

/-- `ct_dlopen_has_other_elf_class`, on a 64-bit host. -/
def dlopenHasOtherElfClass (w : World) (path : NimStr) : Bool :=
  match w.openRead path with
  | none => false
  | some answers => otherElfClass (readHeader answers [])

/-- The expansion loop of `ct_dlopen_try_dir`; `skip` bytes of a token are left to step over, and a
brace steps over whatever stands behind the name. -/
def expandEntry (origin : NimStr) : NimStr → (skip : Nat) → (expanded : NimStr) → Option NimStr
  | [], _, expanded => some expanded
  | _ :: rest, skip + 1, expanded => expandEntry origin rest skip expanded
  | c :: rest, 0, expanded =>
    if c = 36 then
      let brace := rest.head? == some 123
      let tok := if brace then rest.tail else rest
      if startsWith tok (str "ORIGIN") then
        if PathMax ≤ expanded.length + origin.length then none
        else expandEntry origin rest (if brace then 8 else 6) (expanded ++ origin)
      else none
    else if PathMax ≤ expanded.length + 1 then none
    else expandEntry origin rest 0 (expanded ++ [c])

/-- `ct_dlopen_try_dir`. -/
def dlopenTryDir (w : World) (dir soname origin : NimStr) : Option NimStr :=
  match expandEntry origin dir 0 [] with
  | none => none
  | some expanded =>
    if expanded = [] then none
    else
      let out := expanded ++ 47 :: soname
      if PathMax ≤ out.length then none
      else if w.access out then some out
      else none

/-- `ct_dlopen_search_list`. -/
def dlopenSearchList (w : World) (list : Option NimStr) (soname origin : NimStr) :
    Option NimStr :=
  match list with
  | none => none
  | some list =>
    (splitAt 58 list).findSome? fun dir =>
      if dir = [] then none
      else (dlopenTryDir w dir soname origin).filter fun out => !dlopenHasOtherElfClass w out

/-- `ct_linux_preload_resolve_dlopen_caller_path`. -/
def resolveDlopenCallerPath (w : World) (path : Option NimStr) (caller : UInt64) :
    Option NimStr :=
  match path with
  | none => none
  | some soname =>
    if 47 ∈ soname ∨ caller = 0 then some soname
    else
      match w.dladdr caller with
      | none => some soname
      | some lm =>
        let origin := (dlopenOriginDir w lm).getD []
        let (rpath, runpath) := dlopenDynPaths w lm
        let found :=
          (if runpath.isNone then dlopenSearchList w rpath soname origin else none).or
            ((dlopenSearchList w w.ldLibraryPath soname origin).or
              (dlopenSearchList w runpath soname origin))
        some (found.getD soname)

/-! ## 2. The documented search -/

/-- A piece of an entry: a byte, or the token in one of its two spellings. -/
inductive Piece
  | char (c : UInt8) (plain : c ≠ 36 ∧ c ≠ 58)
  | origin (braced : Bool)
  deriving DecidableEq, Repr

def Piece.written : Piece → NimStr
  | .char c _ => [c]
  | .origin false => str "$ORIGIN"
  | .origin true => str "${ORIGIN}"

def Piece.meant (dir : NimStr) : Piece → NimStr
  | .char c _ => [c]
  | .origin _ => dir

/-- An entry of a list.  It may be empty, and it may end in another token. -/
structure Entry where
  pieces : List Piece
  /-- what stands behind the dollar of another token -/
  other : Option NimStr
  noSep : ∀ text ∈ other, 58 ∉ text
  foreign : ∀ text ∈ other, startsWith text (str "ORIGIN") = false ∧
    startsWith text (str "\x7bORIGIN") = false

def Entry.written (e : Entry) : NimStr :=
  e.pieces.flatMap Piece.written ++ (e.other.map (36 :: ·)).getD []

/-- The directory that an entry means, if any. -/
def Entry.meant (dir : NimStr) (e : Entry) : Option NimStr :=
  if e.other.isSome || e.pieces.isEmpty then none else some (e.pieces.flatMap (Piece.meant dir))

/-- A loaded object. -/
structure Object where
  origin : NimStr
  rpath : Option (List Entry)
  runpath : Option (List Entry)

/-- The directories for a bare name, in order. -/
def Object.dirs (o : Object) (env : Option (List Entry)) : List NimStr :=
  (if o.runpath.isNone then (o.rpath.getD []).filterMap (Entry.meant o.origin) else []) ++
    ((env.getD []).filterMap (Entry.meant o.origin) ++
      (o.runpath.getD []).filterMap (Entry.meant o.origin))

def Object.candidates (o : Object) (env : Option (List Entry)) (soname : NimStr) :
    List NimStr :=
  (o.dirs env).map (· ++ 47 :: soname)

/-- What the reads of a file give in all. -/
def delivered : List ReadAnswer → NimStr
  | .interrupted :: rest => delivered rest
  | .bytes first more :: rest => (first :: more) ++ delivered rest
  | .done :: _ | [] => []

/-- Whether the search stops at a candidate: it exists, and is not skipped for its class. -/
def World.accepts (w : World) (p : NimStr) : Bool :=
  w.access p && !((w.openRead p).any fun answers =>
    otherElfClass ((delivered answers).take ElfHeaderBytes))

/-- A candidate the search can end with also fits a path. -/
def World.stopsAt (w : World) (p : NimStr) : Bool := decide (p.length < PathMax) && w.accepts p

/-- **The documented search**, for a name that the object asks for. -/
def Object.callerSearch (o : Object) (w : World) (env : Option (List Entry)) (name : NimStr) :
    NimStr :=
  if 47 ∈ name then name else ((o.candidates env name).find? w.stopsAt).getD name

/-! ## 3. Entries -/

theorem expandEntry_skip (origin : NimStr) : ∀ (tok rest expanded : NimStr) {skip : Nat},
    skip = tok.length →
    expandEntry origin (tok ++ rest) skip expanded = expandEntry origin rest 0 expanded := by
  intro tok
  induction tok with
  | nil => rintro rest expanded skip rfl; rfl
  | cons c tok ih =>
    rintro rest expanded skip rfl
    rw [List.length_cons, List.cons_append, expandEntry]
    exact ih rest expanded rfl

theorem expandEntry_char {origin rest expanded : NimStr} {c : UInt8} (hc : c ≠ 36) :
    expandEntry origin (c :: rest) 0 expanded =
      if PathMax ≤ expanded.length + 1 then none
      else expandEntry origin rest 0 (expanded ++ [c]) := by
  rw [expandEntry, if_neg hc]

theorem expandEntry_token {origin rest expanded : NimStr} (braced : Bool) :
    expandEntry origin ((Piece.origin braced).written ++ rest) 0 expanded =
      if PathMax ≤ expanded.length + origin.length then none
      else expandEntry origin rest 0 (expanded ++ origin) := by
  cases braced with
  | false =>
    have hlit : (Piece.origin false).written = 36 :: str "ORIGIN" := by decide
    have hhead : ((str "ORIGIN" ++ rest).head? == some 123) = false := by
      have hstr : str "ORIGIN" = 79 :: str "RIGIN" := by decide
      rw [hstr]
      rfl
    rw [hlit, List.cons_append, expandEntry, if_pos rfl]
    simp only [hhead, Bool.false_eq_true, if_false, startsWith_append, if_true]
    rw [expandEntry_skip origin (str "ORIGIN") rest _ (by decide)]
  | true =>
    have hlit : (Piece.origin true).written = 36 :: (str "{ORIGIN}") := by decide
    have hsplit : str "{ORIGIN}" ++ rest = 123 :: (str "ORIGIN" ++ 125 :: rest) := by
      have hstr : str "{ORIGIN}" = 123 :: (str "ORIGIN" ++ [125]) := by decide
      rw [hstr, List.cons_append, List.append_assoc]
      rfl
    have hstart : startsWith (str "{ORIGIN}" ++ rest).tail (str "ORIGIN") = true := by
      rw [hsplit, List.tail_cons]
      exact startsWith_append _ _
    have hhead : ((str "{ORIGIN}" ++ rest).head? == some 123) = true := by
      rw [hsplit]
      rfl
    rw [hlit, List.cons_append, expandEntry, if_pos rfl]
    simp only [hhead, if_true, hstart]
    rw [expandEntry_skip origin (str "{ORIGIN}") rest _ (by decide)]

/-- **The expansion of an entry** up to some point, or `none` where it does not fit with its
terminator. -/
theorem expandEntry_written (origin rest : NimStr) : ∀ (pieces : List Piece) {expanded : NimStr},
    expanded.length < PathMax →
    expandEntry origin (pieces.flatMap Piece.written ++ rest) 0 expanded =
      if (expanded ++ pieces.flatMap (Piece.meant origin)).length < PathMax then
        expandEntry origin rest 0 (expanded ++ pieces.flatMap (Piece.meant origin))
      else none := by
  intro pieces
  induction pieces with
  | nil =>
    intro expanded hfits
    rw [List.flatMap_nil, List.flatMap_nil, List.append_nil, if_pos hfits, List.nil_append]
  | cons p pieces ih =>
    intro expanded hfits
    have hstep : expandEntry origin (p.written ++ (pieces.flatMap Piece.written ++ rest)) 0
        expanded =
        if PathMax ≤ (expanded ++ p.meant origin).length then none
        else expandEntry origin (pieces.flatMap Piece.written ++ rest) 0
          (expanded ++ p.meant origin) := by
      rw [List.length_append]
      cases p with
      | char c plain => exact expandEntry_char plain.1
      | origin braced => exact expandEntry_token braced
    rw [List.flatMap_cons, List.flatMap_cons, List.append_assoc, hstep, ← List.append_assoc]
    split
    · rename_i hlong
      rw [if_neg]
      rw [List.length_append]
      omega
    · rename_i hshort
      exact ih (Nat.lt_of_not_le hshort)

/-- Another token ends the expansion. -/
theorem expandEntry_foreign {origin text expanded : NimStr}
    (hplain : startsWith text (str "ORIGIN") = false)
    (hbraced : startsWith text (str "\x7bORIGIN") = false) :
    expandEntry origin (36 :: text) 0 expanded = none := by
  rw [expandEntry, if_pos rfl]
  dsimp only
  rw [if_neg]
  rw [Bool.not_eq_true]
  cases hbrace : text.head? == some 123 with
  | false => exact hplain
  | true =>
    obtain ⟨rest, rfl⟩ : ∃ rest, text = 123 :: rest := by
      cases text with
      | nil => exact absurd hbrace (by decide)
      | cons c rest => exact ⟨rest, by simpa using hbrace⟩
    have hstr : str "\x7bORIGIN" = 123 :: str "ORIGIN" := by decide
    rw [hstr] at hbraced
    exact hbraced

/-- What an entry's text expands to, and that a list can be split at its entries. -/
theorem Entry.expands {origin : NimStr} (e : Entry) :
    expandEntry origin e.written 0 [] =
      if e.other.isSome then none
      else if (e.pieces.flatMap (Piece.meant origin)).length < PathMax then
        some (e.pieces.flatMap (Piece.meant origin))
      else none := by
  rw [Entry.written, expandEntry_written origin _ e.pieces (by decide), List.nil_append]
  cases hother : e.other with
  | none => rfl
  | some text =>
    obtain ⟨hplain, hbraced⟩ := e.foreign text hother
    have hnone : expandEntry origin (36 :: text) 0 (e.pieces.flatMap (Piece.meant origin)) = none :=
      expandEntry_foreign hplain hbraced
    rw [Option.map_some, Option.getD_some, hnone, ite_self]
    rfl

theorem Entry.sep_notMem (e : Entry) : 58 ∉ e.written := by
  rw [Entry.written, List.mem_append, not_or]
  constructor
  · intro hsep
    obtain ⟨p, -, hmem⟩ := List.mem_flatMap.mp hsep
    cases p with
    | char c plain => exact plain.2 (List.mem_singleton.mp hmem).symm
    | origin braced => cases braced <;> exact absurd hmem (by decide)
  · cases hother : e.other with
    | none => exact List.not_mem_nil
    | some text =>
      intro hsep
      exact e.noSep text hother ((List.mem_cons.mp hsep).resolve_left (by decide))

theorem pieces_ne {pieces : List Piece} (hne : pieces ≠ []) {f : Piece → NimStr}
    (hf : ∀ p, f p ≠ []) : pieces.flatMap f ≠ [] := by
  obtain ⟨p, rest, rfl⟩ := List.exists_cons_of_ne_nil hne
  rw [List.flatMap_cons]
  exact List.append_ne_nil_of_left_ne_nil (hf p) _

theorem Piece.written_ne (p : Piece) : p.written ≠ [] := by
  cases p with
  | char c plain => exact List.cons_ne_nil _ _
  | origin braced => cases braced <;> decide

theorem Piece.meant_ne {origin : NimStr} (horigin : origin ≠ []) (p : Piece) :
    p.meant origin ≠ [] := by
  cases p with
  | char c plain => exact List.cons_ne_nil _ _
  | origin braced => exact horigin

/-! ## 4. Candidates -/

theorem readHeader_eq : ∀ (answers : List ReadAnswer) {header : NimStr},
    header.length ≤ ElfHeaderBytes →
    readHeader answers header = (header ++ delivered answers).take ElfHeaderBytes := by
  intro answers
  induction answers with
  | nil =>
    intro header hle
    rw [readHeader, delivered, List.append_nil, List.take_of_length_le hle]
  | cons answer rest ih =>
    intro header hle
    unfold readHeader
    split
    · rename_i hfull
      rw [List.take_append_of_le_length hfull, List.take_of_length_le hle]
    · cases answer with
      | interrupted => exact ih hle
      | bytes first more =>
        have hlen : (header ++ (first :: more).take (ElfHeaderBytes - header.length)).length ≤
            ElfHeaderBytes := by
          rw [List.length_append, List.length_take]
          omega
        show readHeader rest (header ++ (first :: more).take _) = _
        rw [ih hlen, delivered, ← List.append_assoc]
        -- bytes of the chunk that do not fit are behind the header either way
        rcases Nat.le_total (first :: more).length (ElfHeaderBytes - header.length) with hfit | hcut
        · rw [List.take_of_length_le hfit]
        · have hwhole : (header ++ (first :: more).take (ElfHeaderBytes - header.length)).length =
              ElfHeaderBytes := by
            rw [List.length_append, List.length_take]
            omega
          have hchunk : (header ++ (first :: more)).take ElfHeaderBytes =
              header ++ (first :: more).take (ElfHeaderBytes - header.length) := by
            rw [List.take_append, List.take_of_length_le hle]
          rw [List.take_append_of_le_length (Nat.le_of_eq hwhole.symm),
            List.take_of_length_le (Nat.le_of_eq hwhole), List.take_append_of_le_length ?_, hchunk]
          rw [List.length_append]
          omega
      | done =>
        rw [delivered, List.append_nil, List.take_of_length_le hle]

theorem dlopenHasOtherElfClass_eq (w : World) (path : NimStr) :
    dlopenHasOtherElfClass w path = (w.openRead path).any fun answers =>
      otherElfClass ((delivered answers).take ElfHeaderBytes) := by
  rw [dlopenHasOtherElfClass]
  cases w.openRead path with
  | none => rfl
  | some answers =>
    show otherElfClass (readHeader answers []) = _
    rw [readHeader_eq answers (Nat.zero_le _), List.nil_append]
    rfl

/-- What one entry contributes to a search. -/
theorem tryDir_entry {w : World} {origin soname : NimStr} (horigin : origin ≠ []) (e : Entry) :
    (if e.written = [] then none
      else (dlopenTryDir w e.written soname origin).filter fun out =>
        !dlopenHasOtherElfClass w out) =
      ((e.meant origin).map (· ++ 47 :: soname)).filter w.stopsAt := by
  rw [Entry.meant]
  cases hother : e.other with
  | some text =>
    -- an entry with another token is passed over
    have hnone : dlopenTryDir w e.written soname origin = none := by
      rw [dlopenTryDir, e.expands, hother]
      rfl
    rw [hnone, Option.filter_none, ite_self]
    rfl
  | none =>
    have hwritten : e.written = e.pieces.flatMap Piece.written := by
      rw [Entry.written, hother]
      exact List.append_nil _
    by_cases hempty : e.pieces = []
    · rw [hwritten, hempty, if_pos List.flatMap_nil]
      rfl
    have hdir := pieces_ne hempty (Piece.meant_ne horigin)
    rw [if_neg (hwritten ▸ pieces_ne hempty Piece.written_ne), if_neg (by simp [hempty]),
      Option.map_some, Option.filter_some, dlopenTryDir, e.expands, hother, Option.isSome_none,
      if_neg Bool.false_ne_true]
    generalize hmeant : e.pieces.flatMap (Piece.meant origin) = dir at hdir
    -- a directory that is too long makes too long a candidate
    by_cases hfits : (dir ++ 47 :: soname).length < PathMax
    · have hshort : dir.length < PathMax := by
        rw [List.length_append] at hfits
        omega
      rw [if_pos hshort]
      dsimp only
      rw [if_neg hdir, if_neg (Nat.not_le_of_lt hfits), World.stopsAt, decide_eq_true hfits,
        Bool.true_and, World.accepts, ← dlopenHasOtherElfClass_eq]
      cases haccess : w.access (dir ++ 47 :: soname) with
      | false => rfl
      | true => rw [if_pos rfl, Option.filter_some, Bool.true_and]
    · rw [World.stopsAt, decide_eq_false hfits, Bool.false_and, if_neg Bool.false_ne_true]
      by_cases hshort : dir.length < PathMax
      · rw [if_pos hshort]
        dsimp only
        rw [if_neg hdir, if_pos (Nat.le_of_not_lt hfits)]
        rfl
      · rw [if_neg hshort]
        rfl

/-- The text of a list. -/
def listText (entries : List Entry) : NimStr := joinStr [58] (entries.map Entry.written)

/-- **A search of a list** is a search of the candidates that its entries mean. -/
theorem searchList_entries {w : World} {origin : NimStr} (horigin : origin ≠ []) (soname : NimStr)
    (list : Option (List Entry)) :
    dlopenSearchList w (list.map listText) soname origin =
      (((list.getD []).filterMap (Entry.meant origin)).map (· ++ 47 :: soname)).find?
        w.stopsAt := by
  cases list with
  | none => rfl
  | some entries =>
  have hsplit : dlopenSearchList w (some (listText entries)) soname origin =
      (entries.map Entry.written).findSome? (fun dir =>
        if dir = [] then none
        else (dlopenTryDir w dir soname origin).filter fun out =>
          !dlopenHasOtherElfClass w out) := by
    cases entries with
    | nil => rfl
    | cons e rest =>
      rw [dlopenSearchList, listText, splitAt_joinStr _ (by simp)]
      intro text htext
      obtain ⟨e', -, rfl⟩ := List.mem_map.mp htext
      exact e'.sep_notMem
  rw [Option.map_some, hsplit, Option.getD_some]
  clear hsplit
  induction entries with
  | nil => rfl
  | cons e rest ih =>
    rw [List.map_cons, List.findSome?_cons, tryDir_entry horigin e, ih, List.filterMap_cons]
    cases hmeant : e.meant origin with
    | none => rfl
    | some dir =>
      rw [Option.map_some, Option.filter_some, List.map_cons, List.find?_cons]
      cases w.stopsAt (dir ++ 47 :: soname) <;> rfl

/-- A file the search may end with. -/
structure Found (w : World) (soname out : NimStr) : Prop where
  named : ∃ dir, dir ≠ [] ∧ out = dir ++ 47 :: soname
  fits : out.length < PathMax
  accepted : w.accepts out = true

theorem found_of_searchList {w : World} {list : Option NimStr} {soname origin out : NimStr}
    (h : dlopenSearchList w list soname origin = some out) : Found w soname out := by
  cases list with
  | none => exact absurd h (by simp [dlopenSearchList])
  | some list =>
    obtain ⟨dir, -, hdir⟩ := List.exists_of_findSome?_eq_some h
    split at hdir
    · exact absurd hdir (by simp)
    · obtain ⟨htry, hclass⟩ := Option.filter_eq_some_iff.mp hdir
      rw [dlopenTryDir] at htry
      split at htry
      · exact absurd htry (by simp)
      rename_i expanded hexpanded
      split at htry
      · exact absurd htry (by simp)
      rename_i hne
      dsimp only at htry
      split at htry
      · exact absurd htry (by simp)
      rename_i hfits
      split at htry
      · rename_i haccess
        obtain rfl := Option.some.inj htry
        refine ⟨⟨expanded, hne, rfl⟩, Nat.lt_of_not_le hfits, ?_⟩
        rw [World.accepts, ← dlopenHasOtherElfClass_eq, haccess, hclass]
        rfl
      · exact absurd htry (by simp)

/-- **What the wrapper hands on**, in any world and for any caller: what it was given, or for a bare
name an existing file of that name that the loader does not skip. -/
theorem resolve_cases (w : World) (path : Option NimStr) (caller : UInt64) :
    resolveDlopenCallerPath w path caller = path ∨
      ∃ soname out, path = some soname ∧ 47 ∉ soname ∧
        resolveDlopenCallerPath w path caller = some out ∧ Found w soname out := by
  cases path with
  | none => exact .inl rfl
  | some soname =>
    unfold resolveDlopenCallerPath
    dsimp only
    split
    · exact .inl rfl
    rename_i hbare
    split
    · exact .inl rfl
    generalize hfound : ((if (dlopenDynPaths w _).2.isNone then _ else none).or _) = found
    cases found with
    | none => exact .inl rfl
    | some out =>
      refine .inr ⟨soname, out, rfl, fun h => hbare (.inl h), rfl, ?_⟩
      rcases Option.or_eq_some_iff.mp hfound with h | ⟨-, h⟩
      · split at h
        · exact found_of_searchList h
        · exact absurd h (by simp)
      · rcases Option.or_eq_some_iff.mp h with h | ⟨-, h⟩ <;> exact found_of_searchList h

/-! ## 5. The caller -/

/-- The last entry of a tag before the section's end, which is the one that counts. -/
def lastVal (tag : Int) (dyns : List Dyn) : Option UInt64 :=
  (((dyns.takeWhile fun d => d.tag ≠ DT_NULL).filter fun d => d.tag = tag).map Dyn.val).getLast?

/-- DT_RPATH or DT_RUNPATH of a section, which is a list of entries, or absent. -/
structure ListAt (w : World) (dyns : List Dyn) (strtab : UInt64) (tag : Int)
    (list : Option (List Entry)) : Prop where
  text : (lastVal tag dyns).map (fun off => w.cstr (strtab + off)) = list.map listText
  signed : ∀ off, lastVal tag dyns = some off → off.toNat < 2 ^ 63

/-- The file is directly in the directory, which is the root or the current one where the name says
so. -/
def InDirectory (dir name : NimStr) : Prop :=
  (∃ base, 47 ∉ base ∧ (name = dir ++ 47 :: base ∨ dir = [47] ∧ name = 47 :: base)) ∨
    dir = str "." ∧ 47 ∉ name

/-- A link map is this object's.  Without a string table there are no lists. -/
structure Describes (w : World) (lm : LinkMap) (o : Object) : Prop where
  file : ∃ name, objectFile w lm = some name ∧ InDirectory o.origin name
  origin_ne : o.origin ≠ []
  origin_fits : o.origin.length < PathMax
  lists : ((∀ dyns ∈ lm.lLd, (lastVal DT_STRTAB dyns).getD 0 = 0) ∧ o.rpath = none ∧
      o.runpath = none) ∨
    ∃ dyns strtab, lm.lLd = some dyns ∧ lastVal DT_STRTAB dyns = some strtab ∧ strtab ≠ 0 ∧
      ListAt w dyns strtab DT_RPATH o.rpath ∧ ListAt w dyns strtab DT_RUNPATH o.runpath

/-- LD_LIBRARY_PATH is these directories. -/
def World.HasEnv (w : World) (env : Option (List Entry)) : Prop :=
  w.ldLibraryPath = env.map listText

theorem scan_eq (dyns : List Dyn) (s : DynScan) :
    dyns.foldl DynScan.visit s =
      { strtab := (((dyns.filter fun d => d.tag = DT_STRTAB).map Dyn.val).getLast?).getD s.strtab
        rpathOff :=
          (((dyns.filter fun d => d.tag = DT_RPATH).map Dyn.val).getLast?).getD s.rpathOff
        runpathOff :=
          (((dyns.filter fun d => d.tag = DT_RUNPATH).map Dyn.val).getLast?).getD
            s.runpathOff } := by
  induction dyns generalizing s with
  | nil => rfl
  | cons d dyns ih =>
    rw [List.foldl_cons, ih]
    rcases eq_or_ne d.tag DT_STRTAB with htag | hstrtab
    · simp [DynScan.visit, htag, DT_STRTAB, DT_RPATH, DT_RUNPATH, List.getLast?_cons]
    rcases eq_or_ne d.tag DT_RPATH with htag | hrpath
    · simp [DynScan.visit, htag, DT_STRTAB, DT_RPATH, DT_RUNPATH, List.getLast?_cons]
    rcases eq_or_ne d.tag DT_RUNPATH with htag | hrunpath
    · simp [DynScan.visit, htag, DT_STRTAB, DT_RPATH, DT_RUNPATH, List.getLast?_cons]
    · simp [DynScan.visit, hstrtab, hrpath, hrunpath]

theorem pathAt_lastVal {w : World} {dyns : List Dyn} {strtab : UInt64} {tag : Int}
    {list : Option (List Entry)} (h : ListAt w dyns strtab tag list) :
    pathAt w strtab ((lastVal tag dyns).getD 0xFFFFFFFFFFFFFFFF) =
      list.map listText := by
  rw [← h.text]
  cases hval : lastVal tag dyns with
  | none => rfl
  | some off =>
    rw [Option.getD_some, pathAt, if_pos (h.signed off hval)]
    rfl

theorem Describes.dynPaths {w : World} {lm : LinkMap} {o : Object} (h : Describes w lm o) :
    dlopenDynPaths w lm = (o.rpath.map listText, o.runpath.map listText) := by
  have hscan (dyns : List Dyn) : (dyns.takeWhile fun d => d.tag ≠ DT_NULL).foldl DynScan.visit {} =
      { strtab := (lastVal DT_STRTAB dyns).getD 0
        rpathOff := (lastVal DT_RPATH dyns).getD 0xFFFFFFFFFFFFFFFF
        runpathOff := (lastVal DT_RUNPATH dyns).getD 0xFFFFFFFFFFFFFFFF } := scan_eq _ _
  rcases h.lists with ⟨habsent, hrpath, hrunpath⟩ |
    ⟨dyns, strtab, hdyns, hstrtab, hne, hrpath, hrunpath⟩
  · rw [dlopenDynPaths, hrpath, hrunpath]
    cases hdyns : lm.lLd with
    | none => rfl
    | some dyns =>
      dsimp only
      rw [hscan, if_pos (habsent dyns hdyns)]
      rfl
  · rw [dlopenDynPaths, hdyns]
    dsimp only
    rw [hscan, hstrtab, Option.getD_some, if_neg hne, pathAt_lastVal hrpath,
      pathAt_lastVal hrunpath]

theorem throughSep_append {dir base : NimStr} (hbase : 47 ∉ base) :
    throughSep (dir ++ 47 :: base) = dir ++ [47] := by
  have hdrop : (base.reverse ++ (dir ++ [47]).reverse).dropWhile (· ≠ 47) =
      (dir ++ [47]).reverse := by
    have hall : ∀ c ∈ base.reverse, decide (c ≠ 47) = true := fun c hc =>
      decide_eq_true fun h => hbase (h ▸ List.mem_reverse.mp hc)
    rw [List.dropWhile_append_of_pos hall, List.reverse_append]
    rfl
  have hsplit : (dir ++ 47 :: base).reverse = base.reverse ++ (dir ++ [47]).reverse := by
    rw [← List.reverse_append, List.append_assoc]
    rfl
  rw [throughSep, hsplit, hdrop, List.reverse_reverse]

theorem throughSep_bare {name : NimStr} (hname : 47 ∉ name) : throughSep name = [] := by
  have hall : ∀ c ∈ name.reverse, decide (c ≠ 47) = true := fun c hc =>
    decide_eq_true fun h => hname (h ▸ List.mem_reverse.mp hc)
  rw [throughSep, ← List.append_nil name.reverse, List.dropWhile_append_of_pos hall]
  rfl

theorem Describes.originDir {w : World} {lm : LinkMap} {o : Object} (h : Describes w lm o) :
    dlopenOriginDir w lm = some o.origin := by
  obtain ⟨name, hfile, hdir⟩ := h.file
  rw [dlopenOriginDir, hfile]
  dsimp only
  rcases hdir with ⟨base, hbase, rfl | ⟨hroot, rfl⟩⟩ | ⟨hhere, hname⟩
  · -- the separator behind the directory goes
    have hpos := List.length_pos_of_ne_nil h.origin_ne
    have hlong : 1 < (o.origin ++ [47]).length := by
      rw [List.length_append, List.length_singleton]
      omega
    rw [throughSep_append hbase, if_neg (List.append_ne_nil_of_right_ne_nil _ (by simp)),
      if_pos hlong, List.dropLast_concat, if_neg (Nat.not_le_of_lt h.origin_fits)]
  · have hthrough : throughSep ([] ++ 47 :: base) = [] ++ [47] := throughSep_append hbase
    rw [List.nil_append, List.nil_append] at hthrough
    rw [hthrough, hroot]
    rfl
  · rw [throughSep_bare hname, hhere]
    rfl

/-! ## 6. The wrapper -/

/-- **The wrapper makes the documented search**, for whatever name a caller asks for: what it hands
on is null for null, a file name as it is, and for a bare name the first file that the caller's
lists have, or the name. -/
theorem resolve_eq_callerSearch {w : World} {env : Option (List Entry)} {lm : LinkMap} {o : Object}
    {caller : UInt64} (henv : w.HasEnv env) (hdesc : Describes w lm o) (hcaller : caller ≠ 0)
    (hlm : w.dladdr caller = some lm) (path : Option NimStr) :
    resolveDlopenCallerPath w path caller = path.map (o.callerSearch w env) := by
  cases path with
  | none => rfl
  | some soname =>
  rw [Option.map_some, resolveDlopenCallerPath, Object.callerSearch]
  dsimp only
  by_cases hslash : 47 ∈ soname
  · rw [if_pos (.inl hslash), if_pos hslash]
  rw [if_neg (not_or.mpr ⟨hslash, hcaller⟩), if_neg hslash, hlm]
  dsimp only
  have hlist := searchList_entries (w := w) hdesc.origin_ne soname
  rw [hdesc.originDir, hdesc.dynPaths]
  dsimp only
  rw [Option.getD_some, henv, hlist env, hlist o.rpath, hlist o.runpath, Option.isNone_map,
    Object.candidates, Object.dirs, List.map_append, List.map_append, List.find?_append,
    List.find?_append]
  cases o.runpath.isNone with
  | true => rfl
  | false => rfl

/-- A plug-in host with a DT_RUNPATH relative to itself, a directory that is left to the loader and
a 32-bit library in front. -/
def hostMap : LinkMap where
  lName := some (str "/opt/app/host.so")
  lLd := some [⟨1, 7⟩, ⟨DT_STRTAB, 0x1000⟩, ⟨DT_RUNPATH, 0x20⟩, ⟨DT_NULL, 0⟩, ⟨DT_RPATH, 1⟩]

/-- An entry whose only token is a leading `$ORIGIN`. -/
def originEntry (braced : Bool) (c : UInt8) (plain : c ≠ 36 ∧ c ≠ 58) : Entry where
  pieces := [.origin braced, .char 47 (by decide), .char c plain]
  other := none
  noSep := by simp
  foreign := by simp

def hostObject : Object where
  origin := str "/opt/app"
  rpath := none
  runpath := some [⟨[.char 47 (by decide)], some (str "LIB"), by decide, by decide⟩,
    originEntry true 51 (by decide), originEntry false 54 (by decide)]

def hostWorld : World where
  access := fun p => p == str "/opt/app/3/x.so" || p == str "/opt/app/6/x.so"
  openRead := fun p =>
    if p == str "/opt/app/3/x.so" then
      some [.bytes 0x7f [0x45, 0x4c], .interrupted, .bytes 0x46 (1 :: List.replicate 80 0), .done]
    else some [.bytes 0x7f ([0x45, 0x4c, 0x46, 2] ++ List.replicate 80 0), .done]
  exe := some (str "/opt/app/main")
  ldLibraryPath := some (str ":/l")
  cstr := fun a => if a = 0x1020 then str "/$LIB:${ORIGIN}/3:$ORIGIN/6" else []
  dladdr := fun a => if a = 0x77 then some hostMap else none

def hostEnv : Option (List Entry) :=
  some [⟨[], none, by simp, by simp⟩,
    ⟨[.char 47 (by decide), .char 108 (by decide)], none, by simp, by simp⟩]

theorem hostMap_runpath : ∀ dyns ∈ hostMap.lLd, lastVal DT_RPATH dyns = none ∧
    lastVal DT_RUNPATH dyns = some 0x20 := by
  intro dyns hdyns
  obtain rfl := Option.some.inj hdyns
  exact ⟨by decide, by decide⟩

theorem hostObject_describes : Describes hostWorld hostMap hostObject where
  file := ⟨_, rfl, .inl ⟨str "host.so", by decide, .inl rfl⟩⟩
  origin_ne := by decide
  origin_fits := by decide
  lists := by
    obtain ⟨hrpath, hrunpath⟩ := hostMap_runpath _ rfl
    refine .inr ⟨_, 0x1000, rfl, by decide, by decide, ⟨by decide, ?_⟩, ⟨by decide +kernel, ?_⟩⟩
    · intro off hoff
      cases hrpath.symm.trans hoff
    · intro off hoff
      obtain rfl := Option.some.inj (hrunpath.symm.trans hoff)
      decide

/-- The 32-bit file is passed over. -/
theorem resolve_eq_callerSearch_host :
    resolveDlopenCallerPath hostWorld (some (str "x.so")) 0x77 = some (str "/opt/app/6/x.so") ∧
      resolveDlopenCallerPath hostWorld (some (str "y.so")) 0x77 = some (str "y.so") := by
  have henv : hostWorld.HasEnv hostEnv := by
    rw [World.HasEnv]
    decide +kernel
  have hresolve := resolve_eq_callerSearch henv hostObject_describes (by decide)
    (show hostWorld.dladdr 0x77 = some hostMap from rfl)
  rw [hresolve, hresolve]
  decide +kernel

end IoMon.CallerDlopen
