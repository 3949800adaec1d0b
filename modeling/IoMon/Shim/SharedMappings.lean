/-
# What the shim knows of shared mappings

The paths of the descriptors are names of the files they are open on, and the entries of the list of
mappings are mappings that are still there, each in the table of the thunks too.  `Seen` is what a
run has to meet for that: no call that opens, duplicates or closes a descriptor is muted and no
`munmap` is, and no mapping is laid over a shared one.

  * `Inv.step` -- what one call keeps;
  * `hook_eq_plainHook`, `run_eq_plainRun` -- what the thunks keep away from Nim would have changed
    nothing there;
  * `promotion_attributed` -- a write recorded for an `mprotect` names a file that is mapped shared
    in the range of the call.
-/
import IoMon.Shim.MacMappings

namespace IoMon.SharedMappings

open ByteText Intervals

/-! ## 1. Descriptors -/

/-- A path in the table is a name of what its descriptor is open on, and the bytes of the thunk say
which descriptors have one. -/
structure FdInv (s : ShimState) (opens : Int32 → Option File) : Prop where
  named : ∀ fd p, s.fdPaths fd = some p → p ≠ [] ∧ ∃ file, opens fd = some file ∧ p ∈ file.names
  mirror : ∀ fd : Int32, 0 ≤ fd.toInt → fd.toInt < intreeFdCap →
    s.intreeFds fd.toInt = (s.fdPaths fd).isSome

/-- An entry of the table, with its byte, is set. -/
structure SetsPath (s : ShimState) (fd : Int32) (v : Option NimStr) (s' : ShimState) : Prop where
  paths : s'.fdPaths = Function.update s.fdPaths fd v
  intree : s'.intreeFds = if 0 ≤ fd.toInt ∧ fd.toInt < intreeFdCap then
    Function.update s.intreeFds fd.toInt v.isSome else s.intreeFds
  gate : s'.gate = s.gate
  maps : s'.sharedMmaps = s.sharedMmaps

/-- Neither the paths nor the mappings change. -/
structure SameTables (s s' : ShimState) : Prop where
  paths : s'.fdPaths = s.fdPaths
  intree : s'.intreeFds = s.intreeFds
  gate : s'.gate = s.gate
  maps : s'.sharedMmaps = s.sharedMmaps

theorem SameTables.refl (s : ShimState) : SameTables s s := ⟨rfl, rfl, rfl, rfl⟩

section Descriptors

variable {s s' : ShimState} {opens opens' : Int32 → Option File} {fd : Int32}

theorem setsPath_setIntree (s : ShimState) (fd : Int32) (v : Option NimStr)
    (shmFds : Int32 → Option NimStr) (classified : Int32 → Bool) :
    SetsPath s fd v (setIntree { s with
      fdPaths := Function.update s.fdPaths fd v
      shmFds := shmFds
      classifiedEmptyFds := classified } fd v.isSome) := by
  rw [setIntree]
  split
  · rename_i hin
    exact ⟨rfl, (if_pos hin).symm, rfl, rfl⟩
  · rename_i hout
    exact ⟨rfl, (if_neg hout).symm, rfl, rfl⟩

theorem setsPath_updateFdPath (s : ShimState) (hfd : 0 ≤ fd) (path : NimStr) :
    SetsPath s fd (some path) (updateFdPath s fd path) := by
  rw [updateFdPath, if_neg (Int32.not_lt.mpr hfd)]
  exact setsPath_setIntree s fd (some path) s.shmFds s.classifiedEmptyFds

theorem setsPath_removeFdPath (s : ShimState) (fd : Int32) :
    SetsPath s fd none (removeFdPath s fd) := by
  obtain ⟨hpaths, hintree, hgate, hmaps⟩ :=
    setsPath_setIntree s fd none s.shmFds s.classifiedEmptyFds
  exact ⟨hpaths, hintree, hgate, hmaps⟩

theorem setsPath_copyFdPath (s : ShimState) (oldfd : Int32) (hfd : 0 ≤ fd) :
    SetsPath s fd (if pathForFd s oldfd = [] then none else some (pathForFd s oldfd))
      (copyFdPath s oldfd fd) := by
  rw [copyFdPath, if_neg (Int32.not_lt.mpr hfd)]
  have hsome : decide (pathForFd s oldfd ≠ []) =
      (if pathForFd s oldfd = [] then none else some (pathForFd s oldfd)).isSome := by
    split
    · rename_i h
      exact decide_eq_false (not_not.mpr h)
    · rename_i h
      exact decide_eq_true h
  dsimp only
  rw [hsome]
  exact setsPath_setIntree s fd _ _ _

theorem FdInv.set {v : Option NimStr} (h : FdInv s opens) (hset : SetsPath s fd v s')
    (hv : ∀ p, v = some p → p ≠ [] ∧ ∃ file, opens' fd = some file ∧ p ∈ file.names)
    (hother : ∀ x, x ≠ fd → opens' x = opens x) : FdInv s' opens' where
  named := by
    intro x p hx
    rw [hset.paths] at hx
    by_cases hxfd : x = fd
    · subst hxfd
      rw [Function.update_self] at hx
      exact hv p hx
    · rw [Function.update_of_ne hxfd] at hx
      rw [hother x hxfd]
      exact h.named x p hx
  mirror := by
    intro x hpos hlt
    rw [hset.paths, hset.intree]
    by_cases hxfd : x = fd
    · subst hxfd
      rw [if_pos ⟨hpos, hlt⟩, Function.update_self, Function.update_self]
    · have hne : x.toInt ≠ fd.toInt := fun heq => hxfd (Int32.toInt_inj.mp heq)
      rw [Function.update_of_ne hxfd, ← h.mirror x hpos hlt]
      split
      · rw [Function.update_of_ne hne]
      · rfl

theorem FdInv.same (h : FdInv s opens) (hpaths : s'.fdPaths = s.fdPaths)
    (hintree : s'.intreeFds = s.intreeFds) : FdInv s' opens where
  named := by
    rw [hpaths]
    exact h.named
  mirror := by
    rw [hpaths, hintree]
    exact h.mirror

/-- A descriptor that was closed has no path, whatever it is open on next. -/
theorem FdInv.opened (h : FdInv s opens) (hclosed : opens fd = none) (file : File) :
    FdInv s (Function.update opens fd (some file)) where
  named := by
    intro x p hx
    obtain ⟨hne, f, hopen, hname⟩ := h.named x p hx
    refine ⟨hne, f, ?_, hname⟩
    rwa [Function.update_of_ne]
    rintro rfl
    exact absurd (hclosed.symm.trans hopen) (by simp)
  mirror := h.mirror

/-- A name from the kernel is put into the table. -/
theorem FdInv.recovered {k : Answers} (h : FdInv s opens) (hfd : 0 ≤ fd) {file : File}
    (hopen : opens fd = some file) (htrue : k.truthful (some file) = true) {p : NimStr}
    (hreal : k.realPath = some p) (hp : p ≠ []) : FdInv (updateFdPath s fd p) opens := by
  refine h.set (setsPath_updateFdPath s hfd p) ?_ fun _ _ => rfl
  intro q hq
  obtain rfl := Option.some.inj hq
  refine ⟨hp, file, hopen, ?_⟩
  simp only [Answers.truthful, hreal] at htrue
  simpa [hp] using htrue

theorem pathForFd_ne_nil (h : FdInv s opens) {p : NimStr} (hp : s.fdPaths fd = some p) :
    pathForFd s fd ≠ [] := by
  rw [pathForFd, hp]
  exact (h.named fd p hp).1

/-- What the path of a descriptor is, where it has one. -/
theorem FdInv.path_named (h : FdInv s opens) (hne : pathForFd s fd ≠ []) :
    ∃ file, opens fd = some file ∧ pathForFd s fd ∈ file.names := by
  cases hp : s.fdPaths fd with
  | none =>
    rw [pathForFd, hp] at hne
    exact absurd rfl hne
  | some p =>
    rw [pathForFd, hp]
    exact (h.named fd p hp).2

end Descriptors

/-- What recovery leaves: the state, or a path for the descriptor. -/
theorem recoverNamedFdFile_cases {k : Answers} {s : ShimState} {fd : Int32} {kind : FdKind}
    {detail : NimStr} {r : ShimState × List ShimEvent}
    (h : recoverNamedFdFile k s fd kind detail = some r) :
    ∃ p, p ≠ [] ∧ k.realPath = some p ∧
      r = (updateFdPath s fd p, [.fileRead p detail 0 fd.toUInt32]) := by
  rw [recoverNamedFdFile] at h
  split at h
  · split at h
    · exact absurd h (by simp)
    · rename_i p hreal
      split at h
      · exact absurd h (by simp)
      · rename_i hp
        exact ⟨p, hp, hreal, (Option.some.inj h).symm⟩
  · exact absurd h (by simp)

theorem recoverMapped_cases (k : Answers) (s : ShimState) (prot : UInt32) (fd : Int32) :
    recoverMapped k s prot fd = (s, []) ∨
      ∃ p, p ≠ [] ∧ k.realPath = some p ∧ recoverMapped k s prot fd =
        (updateFdPath s fd p, [.fileRead p (str "mmap-inherited-fd") 0 fd.toUInt32]) := by
  rw [recoverMapped]
  split
  · split
    · exact .inl rfl
    · rename_i id hid
      cases hr : recoverNamedFdFile k s fd id.kind (str "mmap-inherited-fd") with
      | none => exact .inl rfl
      | some r =>
        obtain ⟨p, hp, hreal, rfl⟩ := recoverNamedFdFile_cases hr
        exact .inr ⟨p, hp, hreal, rfl⟩
  · exact .inl rfl

theorem sameTables_mark (s : ShimState) (fd : Int32) :
    SameTables s (markEmptyFdClassified s fd) := by
  rw [markEmptyFdClassified]
  split <;> exact ⟨rfl, rfl, rfl, rfl⟩

theorem recordFdRead_cases (k : Answers) (s : ShimState) (fd : Int32) (nbytes : Int64) :
    SameTables s (recordFdRead k s fd nbytes).1 ∨
      ∃ p, p ≠ [] ∧ k.realPath = some p ∧ 0 ≤ fd ∧
        (recordFdRead k s fd nbytes).1 = updateFdPath s fd p := by
  rw [recordFdRead]
  split
  · rw [classifyEmptyFdRead]
    split
    · exact .inl (.refl s)
    rename_i hclass
    have hfd : 0 ≤ fd := Int32.not_lt.mp fun hneg => hclass (.inl hneg)
    split
    · exact .inl (sameTables_mark s fd)
    rename_i id hid
    split
    iterate 3
      cases hr : recoverNamedFdFile k s fd id.kind (str "inherited-fd") with
      | none => exact .inl (sameTables_mark s fd)
      | some r =>
        obtain ⟨p, hp, hreal, rfl⟩ := recoverNamedFdFile_cases hr
        exact .inr ⟨p, hp, hreal, hfd, rfl⟩
    all_goals exact .inl (sameTables_mark s fd)
  · exact .inl (.refl s)

/-! ## 2. Mappings -/

/-- An entry is in the table of the thunks, and its memory is still the mapping it was made for. -/
structure MapInv (s : ShimState) (pieces : List Piece) : Prop where
  gated : ∀ m ∈ s.sharedMmaps, m.range ∈ s.gate
  placed : ∀ m ∈ s.sharedMmaps, ∃ len file, OnPages m.range.start len ∧
    m.range.stop = m.range.start + len ∧ ⟨pages m.range.start len, file⟩ ∈ pieces ∧
    m.path ∈ file.names

section Mappings

variable {s s' : ShimState} {pieces : List Piece}

theorem MapInv.same (h : MapInv s pieces) (hgate : s'.gate = s.gate)
    (hmaps : s'.sharedMmaps = s.sharedMmaps) : MapInv s' pieces where
  gated := by
    rw [hgate, hmaps]
    exact h.gated
  placed := by
    rw [hmaps]
    exact h.placed

theorem MapInv.append (h : MapInv s pieces) (more : List Piece) : MapInv s (pieces ++ more) := by
  refine ⟨h.gated, fun m hm => ?_⟩
  obtain ⟨l, f, hon, hstop, hpiece, hname⟩ := h.placed m hm
  exact ⟨l, f, hon, hstop, List.mem_append_left _ hpiece, hname⟩

theorem mem_cutPieces {r : Range Nat} {p : Piece} (hp : p ∈ pieces)
    (hapart : meets r p.range = false) : p ∈ cutPieces r pieces := by
  refine List.mem_flatMap.mpr ⟨p, hp, List.mem_map.mpr ⟨p.range, ?_, rfl⟩⟩
  have hapart : rangesIntersect r.start r.stop p.range.start p.range.stop = false := hapart
  rw [cut, hapart, if_neg Bool.false_ne_true]
  exact List.mem_singleton.mpr rfl

theorem mem_fillFree {r : Range Nat} : ∀ {gate gate' : List (Range Nat)},
    fillFree r gate = some gate' → r ∈ gate' ∧ ∀ x ∈ gate, x.start ≠ 0 → x ∈ gate' := by
  intro gate
  induction gate with
  | nil => exact fun h => absurd h (by simp [fillFree])
  | cons slot rest ih =>
    intro gate' h
    rw [fillFree] at h
    split at h
    · rename_i hfree
      obtain rfl := Option.some.inj h
      refine ⟨List.mem_cons_self .., fun x hx hne => ?_⟩
      rcases List.mem_cons.mp hx with rfl | hx
      · exact absurd hfree hne
      · exact List.mem_cons_of_mem _ hx
    · obtain ⟨rest', hrest, rfl⟩ := Option.map_eq_some_iff.mp h
      obtain ⟨hr, hkept⟩ := ih hrest
      refine ⟨List.mem_cons_of_mem _ hr, fun x hx hne => ?_⟩
      rcases List.mem_cons.mp hx with rfl | hx
      · exact List.mem_cons_self ..
      · exact List.mem_cons_of_mem _ (hkept x hx hne)

theorem mem_sharedMmapAdd {gate gate' : List (Range Nat)} {addr len : Nat}
    (hpages : OnPages addr len) (h : sharedMmapAdd gate addr len = some gate') :
    ⟨addr, addr + len⟩ ∈ gate' ∧ ∀ x ∈ gate, x.start ≠ 0 → x ∈ gate' := by
  rw [sharedMmapAdd, hpages.rangeFromAddrLen] at h
  dsimp only at h
  split at h
  · rename_i hin
    obtain rfl := Option.some.inj h
    exact ⟨hin, fun x hx _ => hx⟩
  · exact mem_fillFree h

/-- What is in the list behind a mapping: what was there, with another flag maybe, and the
mapping. -/
theorem mem_rememberRange {r : Range Nat} {path : NimStr} {write : Bool} {m : SharedMmapRange} :
    ∀ {l : List SharedMmapRange}, m ∈ rememberRange r path write l →
      (∃ m₀ ∈ l, m.range = m₀.range ∧ m.path = m₀.path) ∨ (m.range = r ∧ m.path = path) := by
  intro l
  induction l with
  | nil =>
    intro h
    obtain rfl := List.mem_singleton.mp h
    exact .inr ⟨rfl, rfl⟩
  | cons m₀ rest ih =>
    intro h
    rw [rememberRange] at h
    split at h
    · rcases List.mem_cons.mp h with rfl | h
      · refine .inl ⟨m₀, List.mem_cons_self .., ?_⟩
        split <;> exact ⟨rfl, rfl⟩
      · exact .inl ⟨m, List.mem_cons_of_mem _ h, rfl, rfl⟩
    · rcases List.mem_cons.mp h with rfl | h
      · exact .inl ⟨m, List.mem_cons_self .., rfl, rfl⟩
      · rcases ih h with ⟨m₁, hm₁, hsame⟩ | hnew
        · exact .inl ⟨m₁, List.mem_cons_of_mem _ hm₁, hsame⟩
        · exact .inr hnew

theorem rememberSharedMmap_full {addr len : Nat} (hpages : OnPages addr len) (prot : UInt32)
    (path : NimStr) (hgate : sharedMmapAdd s.gate addr len = none) :
    rememberSharedMmap s addr len prot path = s := by
  rw [rememberSharedMmap, hpages.callRange, hgate]
  split <;> rfl

theorem rememberSharedMmap_added {addr len : Nat} (hpages : OnPages addr len) (prot : UInt32)
    {path : NimStr} (hpath : path ≠ []) {gate : List (Range Nat)}
    (hgate : sharedMmapAdd s.gate addr len = some gate) :
    rememberSharedMmap s addr len prot path =
      { s with
        gate := gate
        sharedMmaps := rememberRange ⟨addr, addr + len⟩ path (prot &&& ProtWrite != 0)
          s.sharedMmaps } := by
  rw [rememberSharedMmap, if_neg hpath, hpages.callRange, hgate]

theorem MapInv.remember (h : MapInv s pieces) {addr len : Nat} (hpages : OnPages addr len)
    (prot : UInt32) {path : NimStr} (hpath : path ≠ []) {file : File}
    (hfile : path ∈ file.names) :
    MapInv (rememberSharedMmap s addr len prot path) (pieces ++ [⟨pages addr len, file⟩]) := by
  have hweaken := h.append [⟨pages addr len, file⟩]
  cases hgate : sharedMmapAdd s.gate addr len with
  | none =>
    rw [rememberSharedMmap_full hpages prot path hgate]
    exact hweaken
  | some gate =>
  rw [rememberSharedMmap_added hpages prot hpath hgate]
  obtain ⟨hnew, hold⟩ := mem_sharedMmapAdd hpages hgate
  constructor
  · intro m hm
    rcases mem_rememberRange hm with ⟨m₀, hm₀, hrange, -⟩ | ⟨hrange, -⟩
    · obtain ⟨l, f, hon, -⟩ := h.placed m₀ hm₀
      rw [hrange]
      exact hold _ (h.gated m₀ hm₀) hon.2.1
    · rw [hrange]
      exact hnew
  · intro m hm
    rcases mem_rememberRange hm with ⟨m₀, hm₀, hrange, hsame⟩ | ⟨hrange, hsame⟩
    · rw [hrange, hsame]
      exact hweaken.placed m₀ hm₀
    · rw [hrange, hsame]
      exact ⟨len, file, hpages, rfl, List.mem_append_right _ (List.mem_singleton.mpr rfl), hfile⟩

/-- An entry that a range does not touch: its pages are not touched either. -/
theorem MapInv.apart (h : MapInv s pieces) {addr len : Nat} (hpages : OnPages addr len)
    {m : SharedMmapRange} (hm : m ∈ s.sharedMmaps)
    (hapart : meets ⟨addr, addr + len⟩ m.range = false) :
    ∃ l file, OnPages m.range.start l ∧ m.range.stop = m.range.start + l ∧
      ⟨pages m.range.start l, file⟩ ∈ cutPieces (pages addr len) pieces ∧ m.path ∈ file.names := by
  obtain ⟨l, file, hon, hstop, hpiece, hname⟩ := h.placed m hm
  refine ⟨l, file, hon, hstop, mem_cutPieces hpiece ?_, hname⟩
  have hrange : m.range = ⟨m.range.start, m.range.start + l⟩ := by
    rw [← hstop]
  rw [meets_pages hpages.1 hon.1, ← hrange]
  exact hapart

/-- The table of the thunks answers for every entry. -/
theorem MapInv.overlaps (h : MapInv s pieces) {addr len : Nat} (hpages : OnPages addr len)
    {m : SharedMmapRange} (hm : m ∈ s.sharedMmaps)
    (hmeets : meets ⟨addr, addr + len⟩ m.range = true) :
    sharedMmapOverlaps s.gate addr len = true := by
  obtain ⟨l, file, hon, hstop, -⟩ := h.placed m hm
  have hlen := hpages.2.2.1
  have hl := hon.2.2.1
  rw [sharedMmapOverlaps, hpages.rangeFromAddrLen]
  refine List.any_eq_true.mpr ⟨m.range, h.gated m hm, ?_⟩
  have hvalid : rangeValid ⟨addr, addr + len⟩ = true := by
    rw [rangeValid, Bool.and_eq_true, decide_eq_true_eq, decide_eq_true_eq]
    exact ⟨hpages.2.1, Nat.lt_add_of_pos_right (Nat.pos_of_ne_zero hlen)⟩
  have hvalid' : rangeValid m.range = true := by
    rw [rangeValid, Bool.and_eq_true, decide_eq_true_eq, decide_eq_true_eq, hstop]
    exact ⟨hon.2.1, by omega⟩
  rw [rangeIntersects, hvalid, hvalid', hmeets]
  rfl

/-- Where it has no overlap, the list has none. -/
theorem MapInv.all_apart (h : MapInv s pieces) {addr len : Nat} (hpages : OnPages addr len)
    (hgate : sharedMmapOverlaps s.gate addr len = false) :
    ∀ m ∈ s.sharedMmaps, meets ⟨addr, addr + len⟩ m.range = false := by
  intro m hm
  by_contra hmeets
  rw [Bool.not_eq_false] at hmeets
  exact absurd (hgate.symm.trans (h.overlaps hpages hm hmeets)) Bool.false_ne_true

theorem MapInv.forget (h : MapInv s pieces) {addr len : Nat} (hpages : OnPages addr len) :
    MapInv (forgetSharedMmaps { s with gate := sharedMmapRemoveOverlaps s.gate addr len } addr len)
      (cutPieces (pages addr len) pieces) := by
  rw [forgetSharedMmaps, hpages.callRange]
  have hkept : ∀ m ∈ s.sharedMmaps.filter fun m => !meets ⟨addr, addr + len⟩ m.range,
      m ∈ s.sharedMmaps ∧ meets ⟨addr, addr + len⟩ m.range = false := by
    intro m hm
    obtain ⟨hm, hapart⟩ := List.mem_filter.mp hm
    exact ⟨hm, by simpa using hapart⟩
  constructor
  · intro m hm
    obtain ⟨hm, hapart⟩ := hkept m hm
    have hslot : rangeIntersects ⟨addr, addr + len⟩ m.range = false := by
      rw [rangeIntersects, hapart, Bool.and_false]
    rw [sharedMmapRemoveOverlaps, hpages.rangeFromAddrLen]
    refine List.mem_map.mpr ⟨m.range, h.gated m hm, ?_⟩
    rw [hslot, if_neg Bool.false_ne_true]
  · intro m hm
    obtain ⟨hm, hapart⟩ := hkept m hm
    exact h.apart hpages hm hapart

theorem MapInv.promote (h : MapInv s pieces) (addr len : Nat) :
    MapInv (emitMprotectPromotions s addr len).1 pieces := by
  rw [emitMprotectPromotions]
  split
  · exact h
  rename_i r hr
  have hold : ∀ m ∈ s.sharedMmaps.map (fun m =>
      if promotes r m then { m with mprotectWriteEmitted := true } else m),
      ∃ m₀ ∈ s.sharedMmaps, m.range = m₀.range ∧ m.path = m₀.path := by
    intro m hm
    obtain ⟨m₀, hm₀, rfl⟩ := List.mem_map.mp hm
    refine ⟨m₀, hm₀, ?_⟩
    split <;> exact ⟨rfl, rfl⟩
  constructor
  · intro m hm
    obtain ⟨m₀, hm₀, hrange, -⟩ := hold m hm
    rw [hrange]
    exact h.gated m₀ hm₀
  · intro m hm
    obtain ⟨m₀, hm₀, hrange, hpath⟩ := hold m hm
    rw [hrange, hpath]
    exact h.placed m₀ hm₀

end Mappings

/-! ## 3. A session -/

/-- What holds of a session whose calls were seen. -/
structure Inv (s : Session) : Prop where
  fds : FdInv s.shim s.opens
  maps : MapInv s.shim s.pieces

theorem inv_start (inherited : Int32 → Option File) : Inv (start inherited) where
  fds := ⟨fun _ _ h => absurd h (by simp [start]), fun _ _ _ => rfl⟩
  maps := ⟨fun _ h => absurd h List.not_mem_nil, fun _ h => absurd h List.not_mem_nil⟩

section Steps

variable {s : Session} {e : Event}

/-- What a mapping of a file leaves in the shim: its tables, a path for the descriptor maybe, and
the entry of a shared mapping under the path the descriptor has then. -/
theorem recordMmap_state (k : Answers) (t : ShimState) (result len : Nat) (prot flags : UInt32)
    (fd : Int32) :
    (recordMmap k t result len prot flags fd).1 = t ∨
      (result ≠ MapFailed ∧ 0 ≤ fd ∧ flags &&& MapAnon = 0 ∧
        (recordMmap k t result len prot flags fd).1 =
          if flags &&& MapShared ≠ 0 ∧ pathForFd (recoverMapped k t prot fd).1 fd ≠ [] then
            rememberSharedMmap (recoverMapped k t prot fd).1 result len prot
              (pathForFd (recoverMapped k t prot fd).1 fd)
          else (recoverMapped k t prot fd).1) := by
  rw [recordMmap]
  split
  · exact .inl rfl
  rename_i hcall
  split
  · exact .inl rfl
  rename_i hanon
  split
  · exact .inl rfl
  · refine .inr ⟨fun h => hcall (.inl h), Int32.not_lt.mp fun h => hcall (.inr h),
      not_not.mp hanon, ?_⟩
    dsimp only
    split <;> rfl

theorem cutPieces_of_apart {r : Range Nat} {pieces : List Piece}
    (h : ∀ p ∈ pieces, meets r p.range = false) : cutPieces r pieces = pieces := by
  induction pieces with
  | nil => rfl
  | cons p rest ih =>
    have hp : rangesIntersect r.start r.stop p.range.start p.range.stop = false :=
      h p (List.mem_cons_self ..)
    have hrest := ih fun q hq => h q (List.mem_cons_of_mem _ hq)
    rw [cutPieces] at hrest
    rw [cutPieces, List.flatMap_cons, hrest, cut, hp, if_neg Bool.false_ne_true]
    rfl

/-- Taking away memory that no entry is about keeps the invariant. -/
theorem MapInv.cut_apart {t : ShimState} {pieces : List Piece} (h : MapInv t pieces)
    {addr len : Nat} (hpages : OnPages addr len)
    (hgate : sharedMmapOverlaps t.gate addr len = false) :
    MapInv t (cutPieces (pages addr len) pieces) :=
  ⟨h.gated, fun m hm => h.apart hpages hm (h.all_apart hpages hgate m hm)⟩

theorem rememberSharedMmap_fds (t : ShimState) (addr len : Nat) (prot : UInt32) (path : NimStr) :
    (rememberSharedMmap t addr len prot path).fdPaths = t.fdPaths ∧
      (rememberSharedMmap t addr len prot path).intreeFds = t.intreeFds := by
  rw [rememberSharedMmap]
  split
  · exact ⟨rfl, rfl⟩
  split
  · exact ⟨rfl, rfl⟩
  split <;> exact ⟨rfl, rfl⟩

/-- The file behind a mapping that the kernel allows. -/
theorem allows_mmap {result len : Nat} {prot flags : UInt32} {fd : Int32}
    (hcall : e.call = .mmap result len prot flags fd) (hallows : s.allows e = true)
    (hmapped : result ≠ MapFailed) :
    OnPages result len ∧ (0 ≤ fd → flags &&& MapAnon = 0 →
      ∃ file, s.opens fd = some file ∧ e.answers.truthful (some file) = true) := by
  simp only [Session.allows, hcall, Bool.or_eq_true, Bool.and_eq_true, decide_eq_true_eq,
    beq_iff_eq, bne_iff_ne] at hallows
  obtain ⟨hpages, hfd⟩ := hallows.resolve_left hmapped
  refine ⟨hpages, fun hpos hanon => ?_⟩
  rcases hfd with (hneg | hne) | ⟨hopen, htrue⟩
  · exact absurd hneg (Int32.not_lt.mpr hpos)
  · exact absurd hanon hne
  · obtain ⟨file, hfile⟩ := Option.isSome_iff_exists.mp hopen
    rw [hfile] at htrue
    exact ⟨file, hfile, htrue⟩

theorem recoverMapped_fds (h : FdInv s.shim s.opens) {result len : Nat} {prot flags : UInt32}
    {fd : Int32} (hcall : e.call = .mmap result len prot flags fd) (hallows : s.allows e = true)
    (hmapped : result ≠ MapFailed) (hpos : 0 ≤ fd) (hanon : flags &&& MapAnon = 0) :
    FdInv (recoverMapped e.answers s.shim prot fd).1 s.opens := by
  obtain ⟨-, hfile⟩ := allows_mmap hcall hallows hmapped
  obtain ⟨file, hopen, htrue⟩ := hfile hpos hanon
  rcases recoverMapped_cases e.answers s.shim prot fd with hsame | ⟨p, hp, hreal, hset⟩
  · rw [hsame]
    exact h
  · rw [hset]
    exact h.recovered hpos hopen htrue hreal hp

theorem fds_openat (h : FdInv s.shim s.opens) {path : NimStr} {result : Int32} {file : File}
    (hcall : e.call = .openat path result file) (hseen : Seen s e) (hallows : s.allows e = true) :
    FdInv (hook s.shim e).1 (s.kernel e.call).1 := by
  simp only [Seen, hcall] at hseen
  simp only [Session.allows, hcall, Bool.or_eq_true, Bool.and_eq_true, decide_eq_true_eq] at hallows
  simp only [hook, hookWith, Session.kernel, hcall]
  by_cases hneg : result < 0
  · -- no descriptor: neither side changes
    rw [if_pos hneg, recordCanonicalTarget, if_pos hneg, updateFdPath, if_pos hneg]
    split <;> exact h
  · obtain ⟨⟨⟨hfree, hpath⟩, hname⟩, htrue⟩ := hallows.resolve_left hneg
    have hpos : 0 ≤ result := Int32.not_lt.mp hneg
    have hpath : path ≠ [] := by simpa using hpath
    have hname : path ∈ file.names := by simpa using hname
    rw [if_neg hneg, hseen hpos, if_neg Bool.false_ne_true]
    have hopened : FdInv (updateFdPath s.shim result path)
        (Function.update s.opens result (some file)) := by
      refine h.set (setsPath_updateFdPath s.shim hpos path) ?_
        fun x hx => Function.update_of_ne hx _ _
      intro p hp
      obtain rfl := Option.some.inj hp
      exact ⟨hpath, file, Function.update_self .., hname⟩
    rw [recordCanonicalTarget, if_neg hneg]
    split
    · exact hopened
    · rename_i canonical hreal
      split
      · exact hopened
      · rename_i hne
        exact hopened.recovered hpos (Function.update_self ..) htrue hreal fun h => hne (.inl h)

theorem fds_dup (h : FdInv s.shim s.opens) {oldfd result : Int32}
    (hcall : e.call = .dup oldfd result) (hseen : Seen s e) :
    FdInv (hook s.shim e).1 (s.kernel e.call).1 := by
  simp only [Seen, hcall] at hseen
  simp only [hook, hookWith, Session.kernel, hcall]
  by_cases hneg : result < 0
  · rw [if_pos hneg, if_pos (.inr hneg)]
    exact h
  · have hpos : 0 ≤ result := Int32.not_lt.mp hneg
    rw [if_neg hneg, if_neg (by simp [hseen hpos, hneg])]
    refine h.set (setsPath_copyFdPath s.shim oldfd hpos) ?_ fun x hx => Function.update_of_ne hx _ _
    intro p hp
    split at hp
    · exact absurd hp (by simp)
    · rename_i hne
      obtain rfl := Option.some.inj hp
      rw [Function.update_self]
      exact ⟨hne, h.path_named hne⟩

theorem fds_shmOpen (h : FdInv s.shim s.opens) {name : NimStr} {result : Int32} {object : File}
    (hcall : e.call = .shmOpen name result object) (hallows : s.allows e = true) :
    FdInv (hook s.shim e).1 (s.kernel e.call).1 := by
  simp only [Session.allows, hcall, Bool.or_eq_true, decide_eq_true_eq] at hallows
  simp only [hook, hookWith, Session.kernel, hcall]
  have hopens : FdInv s.shim
      (if result < 0 then s.opens else Function.update s.opens result (some object)) := by
    split
    · exact h
    · rename_i hneg
      exact h.opened (Option.isNone_iff_eq_none.mp (hallows.resolve_left hneg)) object
  split
  · exact hopens
  · rw [recordShmOpen]
    split
    · exact hopens
    · exact hopens.same rfl rfl

theorem fds_mmap (h : FdInv s.shim s.opens) {result len : Nat} {prot flags : UInt32} {fd : Int32}
    (hcall : e.call = .mmap result len prot flags fd) (hallows : s.allows e = true) :
    FdInv (hook s.shim e).1 (s.kernel e.call).1 := by
  simp only [hook, hookWith, Session.kernel, hcall]
  split
  · exact h
  rcases recordMmap_state e.answers s.shim result len prot flags fd with hsame |
    ⟨hmapped, hpos, hanon, hstate⟩
  · rw [hsame]
    exact h
  · have hrecovered := recoverMapped_fds h hcall hallows hmapped hpos hanon
    rw [hstate]
    split
    · exact hrecovered.same (rememberSharedMmap_fds ..).1 (rememberSharedMmap_fds ..).2
    · exact hrecovered

theorem fds_step (h : FdInv s.shim s.opens) (hseen : Seen s e) (hallows : s.allows e = true) :
    FdInv (hook s.shim e).1 (s.kernel e.call).1 := by
  cases hcall : e.call with
  | openat path result file =>
    rw [← hcall]
    exact fds_openat h hcall hseen hallows
  | close fd =>
    simp only [Seen, hcall] at hseen
    simp only [hook, hookWith, Session.kernel, hcall, hseen, Bool.false_eq_true, if_false]
    exact h.set (setsPath_removeFdPath s.shim fd) (fun _ hp => absurd hp (by simp))
      fun x hx => Function.update_of_ne hx _ _
  | dup oldfd result =>
    rw [← hcall]
    exact fds_dup h hcall hseen
  | shmOpen name result object =>
    rw [← hcall]
    exact fds_shmOpen h hcall hallows
  | read fd nbytes =>
    simp only [Session.allows, hcall, Bool.or_eq_true, Bool.and_eq_true, decide_eq_true_eq]
      at hallows
    simp only [hook, hookWith, Session.kernel, hcall]
    split
    · exact h
    rename_i hread
    rcases recordFdRead_cases e.answers s.shim fd nbytes with hsame | ⟨p, hp, hreal, hpos, hset⟩
    · exact h.same hsame.paths hsame.intree
    · obtain ⟨hopen, htrue⟩ := hallows.resolve_left fun hneg => hread (.inr hneg)
      obtain ⟨file, hfile⟩ := Option.isSome_iff_exists.mp hopen
      rw [hfile] at htrue
      rw [hset]
      exact h.recovered hpos hfile htrue hreal hp
  | mmap result len prot flags fd =>
    rw [← hcall]
    exact fds_mmap h hcall hallows
  | mprotect addr len prot succeeds =>
    simp only [hook, hookWith, Session.kernel, hcall]
    split
    · rw [emitMprotectPromotions]
      split <;> exact h.same rfl rfl
    · exact h
  | munmap addr len succeeds =>
    simp only [hook, hookWith, Session.kernel, hcall]
    split
    · split
      · exact h.same rfl rfl
      · rw [forgetSharedMmaps]
        split <;> exact h.same rfl rfl
    · exact h

theorem setIntree_maps (t : ShimState) (fd : Int32) (value : Bool) :
    (setIntree t fd value).gate = t.gate ∧ (setIntree t fd value).sharedMmaps = t.sharedMmaps := by
  rw [setIntree]
  split <;> exact ⟨rfl, rfl⟩

theorem updateFdPath_maps (t : ShimState) (fd : Int32) (path : NimStr) :
    (updateFdPath t fd path).gate = t.gate ∧
      (updateFdPath t fd path).sharedMmaps = t.sharedMmaps := by
  rw [updateFdPath]
  split
  · exact ⟨rfl, rfl⟩
  · exact setIntree_maps ..

theorem MapInv.updateFdPath {t : ShimState} {pieces : List Piece} (h : MapInv t pieces)
    (fd : Int32) (path : NimStr) : MapInv (updateFdPath t fd path) pieces :=
  h.same (updateFdPath_maps t fd path).1 (updateFdPath_maps t fd path).2

theorem MapInv.recoverMapped {t : ShimState} {pieces : List Piece} (h : MapInv t pieces)
    (k : Answers) (prot : UInt32) (fd : Int32) : MapInv (recoverMapped k t prot fd).1 pieces := by
  rcases recoverMapped_cases k t prot fd with hsame | ⟨p, -, -, hset⟩
  · rw [hsame]
    exact h
  · rw [hset]
    exact h.updateFdPath fd p

theorem maps_mmap (h : Inv s) {result len : Nat} {prot flags : UInt32} {fd : Int32}
    (hcall : e.call = .mmap result len prot flags fd) (hseen : Seen s e)
    (hallows : s.allows e = true) : MapInv (hook s.shim e).1 (s.kernel e.call).2 := by
  simp only [Seen, hcall] at hseen
  simp only [hook, hookWith, Session.kernel, hcall]
  by_cases hfailed : result = MapFailed
  · rw [if_pos hfailed]
    split
    · exact h.maps
    · rw [recordMmap, if_pos (.inl hfailed)]
      exact h.maps
  rw [if_neg hfailed, cutPieces_of_apart (hseen hfailed)]
  split
  · exact h.maps.append _
  rcases recordMmap_state e.answers s.shim result len prot flags fd with hsame |
    ⟨-, hpos, hanon, hstate⟩
  · rw [hsame]
    exact h.maps.append _
  · obtain ⟨hpages, hfile⟩ := allows_mmap hcall hallows hfailed
    obtain ⟨file, hopen, htrue⟩ := hfile hpos hanon
    have hfds := recoverMapped_fds h.fds hcall hallows hfailed hpos hanon
    have hmaps := h.maps.recoverMapped e.answers prot fd
    rw [hstate]
    split
    · rename_i hshared
      -- the piece is of the file that the descriptor's path is a name of
      obtain ⟨file', hopen', hname⟩ := hfds.path_named hshared.2
      obtain rfl := Option.some.inj (hopen.symm.trans hopen')
      have hpiece : sharedPiece s.opens result len flags fd = [⟨pages result len, file⟩] := by
        rw [sharedPiece, hopen]
        exact if_pos ⟨hshared.1, hpos, hanon⟩
      rw [hpiece]
      exact hmaps.remember hpages prot hshared.2 hname
    · exact hmaps.append _

theorem maps_munmap (h : MapInv s.shim s.pieces) {addr len : Nat} {succeeds : Bool}
    (hcall : e.call = .munmap addr len succeeds) (hseen : Seen s e) (hallows : s.allows e = true) :
    MapInv (hook s.shim e).1 (s.kernel e.call).2 := by
  simp only [Seen, hcall] at hseen
  simp only [Session.allows, hcall, Bool.or_eq_true, Bool.not_eq_true',
    decide_eq_true_eq] at hallows
  simp only [hook, hookWith, Session.kernel, hcall]
  cases succeeds with
  | false => simpa using h
  | true =>
    have hpages : OnPages addr len := hallows.resolve_left (by simp)
    rw [hseen rfl]
    cases hgate : sharedMmapOverlaps s.shim.gate addr len with
    | true => simpa using h.forget hpages
    | false => simpa using h.cut_apart hpages hgate

theorem maps_step (h : Inv s) (hseen : Seen s e) (hallows : s.allows e = true) :
    MapInv (hook s.shim e).1 (s.kernel e.call).2 := by
  cases hcall : e.call with
  | openat path result file =>
    simp only [hook, hookWith, Session.kernel, hcall]
    split
    · exact h.maps
    · rw [recordCanonicalTarget]
      have hopened := h.maps.updateFdPath result path
      split
      · exact hopened
      split
      · exact hopened
      split
      · exact hopened
      · exact hopened.updateFdPath result _
  | close fd =>
    simp only [hook, hookWith, Session.kernel, hcall]
    split
    · exact h.maps
    · have hsets := setsPath_removeFdPath s.shim fd
      exact h.maps.same hsets.gate hsets.maps
  | dup oldfd result =>
    simp only [hook, hookWith, Session.kernel, hcall]
    split
    · exact h.maps
    · rename_i hdup
      have hpos : 0 ≤ result := Int32.not_lt.mp fun hneg => hdup (.inr hneg)
      have hcopy := setsPath_copyFdPath s.shim oldfd hpos
      exact h.maps.same hcopy.gate hcopy.maps
  | shmOpen name result object =>
    simp only [hook, hookWith, Session.kernel, hcall]
    split
    · exact h.maps
    · rw [recordShmOpen]
      split <;> exact h.maps.same rfl rfl
  | read fd nbytes =>
    simp only [hook, hookWith, Session.kernel, hcall]
    split
    · exact h.maps
    rcases recordFdRead_cases e.answers s.shim fd nbytes with hsame | ⟨p, -, -, -, hset⟩
    · exact h.maps.same hsame.gate hsame.maps
    · rw [hset]
      exact h.maps.updateFdPath fd p
  | mmap result len prot flags fd =>
    rw [← hcall]
    exact maps_mmap h hcall hseen hallows
  | mprotect addr len prot succeeds =>
    simp only [hook, hookWith, Session.kernel, hcall]
    split
    · exact h.maps.promote addr len
    · exact h.maps
  | munmap addr len succeeds =>
    rw [← hcall]
    exact maps_munmap h.maps hcall hseen hallows

theorem step_eq {s' : Session} : step s e = some s' ↔ s.allows e = true ∧
    s' = ⟨(hook s.shim e).1, (s.kernel e.call).1, (s.kernel e.call).2,
      s.events ++ (hook s.shim e).2⟩ := by
  rw [step, stepWith]
  split
  · rename_i hallows
    rw [Option.some.injEq, eq_comm]
    exact (and_iff_right hallows).symm
  · rename_i hrefused
    simp [hrefused]

/-- **What a call keeps.** -/
theorem Inv.step {s' : Session} (h : Inv s) (hseen : Seen s e) (hstep : step s e = some s') :
    Inv s' := by
  obtain ⟨hallows, rfl⟩ := step_eq.mp hstep
  exact ⟨fds_step h.fds hseen hallows, maps_step h hseen hallows⟩

end Steps

/-! ## 4. What the thunks keep away from Nim -/

/-- A descriptor the thunk has a byte for; and a private mapping that is code, or of a descriptor
with a path, is not of a shared-memory object. -/
def Plain (s : Session) (e : Event) : Prop :=
  match e.call with
  | .mmap _ _ prot flags fd => fd.toInt < intreeFdCap ∧
    (flags &&& MapShared = 0 → prot &&& ProtExec ≠ 0 ∨ intreeFdHas s.shim fd = true →
      shmNameForFd s.shim fd = [])
  | _ => True

section Thunks

variable {s : Session} {e : Event}

/-- A descriptor that the thunk knows has a path. -/
theorem FdInv.intree {t : ShimState} {opens : Int32 → Option File} (h : FdInv t opens) {fd : Int32}
    (hcap : fd.toInt < intreeFdCap) (hhas : intreeFdHas t fd = true) : pathForFd t fd ≠ [] := by
  rw [intreeFdHas] at hhas
  split at hhas
  · exact absurd hhas Bool.false_ne_true
  rename_i hneg
  rw [if_neg (by omega), h.mirror fd (by omega) hcap] at hhas
  obtain ⟨p, hp⟩ := Option.isSome_iff_exists.mp hhas
  exact pathForFd_ne_nil h hp

/-- **A mapping that the thunk keeps away from Nim** leaves no trace there. -/
theorem recordMmap_of_kept {t : ShimState} {opens : Int32 → Option File} (h : FdInv t opens)
    (k : Answers) (result len : Nat) {prot flags : UInt32} {fd : Int32}
    (hcap : fd.toInt < intreeFdCap)
    (hshm : flags &&& MapShared = 0 → prot &&& ProtExec ≠ 0 ∨ intreeFdHas t fd = true →
      shmNameForFd t fd = [])
    (hkept : entersMmap t prot flags fd = false) :
    recordMmap k t result len prot flags fd = (t, []) := by
  rw [recordMmap]
  split
  · rfl
  rename_i hcall
  split
  · rfl
  have hpos : 0 ≤ fd := Int32.not_lt.mp fun hneg => hcall (.inr hneg)
  obtain ⟨hprivate, hknown⟩ : flags &&& MapShared = 0 ∧
      (prot &&& ProtExec ≠ 0 ∨ intreeFdHas t fd = true) := by
    simpa only [entersMmap, hpos, decide_true, Bool.true_and, Bool.not_eq_false', Bool.and_eq_true,
      beq_iff_eq, Bool.or_eq_true, bne_iff_ne] using hkept
  have hrecover : recoverMapped k t prot fd = (t, []) := by
    rw [recoverMapped, if_neg]
    rintro ⟨hdata, hempty⟩
    rcases hknown with hexec | hhas
    · exact hexec hdata
    · exact h.intree hcap hhas hempty
  rw [if_neg (not_not.mpr (hshm hprivate hknown)), hrecover]
  dsimp only
  rw [if_neg fun hshared => hshared.1 hprivate]

section Apart

variable {t : ShimState} {pieces : List Piece} {addr len : Nat}

theorem promotions_of_kept (h : MapInv t pieces) (hpages : OnPages addr len)
    (hgate : sharedMmapOverlaps t.gate addr len = false) :
    emitMprotectPromotions t addr len = (t, []) := by
  have hnone : ∀ m ∈ t.sharedMmaps, promotes ⟨addr, addr + len⟩ m = false := by
    intro m hm
    rw [promotes, h.all_apart hpages hgate m hm, Bool.and_false]
  have hfilter : t.sharedMmaps.filter (promotes ⟨addr, addr + len⟩) = [] :=
    List.filter_eq_nil_iff.mpr fun m hm => by simp [hnone m hm]
  have hmap : (t.sharedMmaps.map fun m =>
      if promotes ⟨addr, addr + len⟩ m then { m with mprotectWriteEmitted := true } else m) =
      t.sharedMmaps := by
    refine (List.map_congr_left fun m hm => ?_).trans (List.map_id _)
    rw [hnone m hm]
    rfl
  rw [emitMprotectPromotions, hpages.callRange]
  dsimp only
  rw [hfilter, hmap]
  rfl

theorem forget_of_kept (h : MapInv t pieces) (hpages : OnPages addr len)
    (hgate : sharedMmapOverlaps t.gate addr len = false) :
    sharedMmapRemoveOverlaps t.gate addr len = t.gate ∧ forgetSharedMmaps t addr len = t := by
  have hapart := h.all_apart hpages hgate
  have hfilter : t.sharedMmaps.filter (fun m => !meets ⟨addr, addr + len⟩ m.range) =
      t.sharedMmaps := List.filter_eq_self.mpr fun m hm => by simp [hapart m hm]
  constructor
  · rw [sharedMmapOverlaps, hpages.rangeFromAddrLen] at hgate
    have hslots := List.any_eq_false.mp hgate
    rw [sharedMmapRemoveOverlaps, hpages.rangeFromAddrLen]
    refine (List.map_congr_left fun slot hslot => ?_).trans (List.map_id _)
    rw [if_neg (hslots slot hslot)]
    rfl
  · rw [forgetSharedMmaps, hpages.callRange]
    dsimp only
    rw [hfilter]

end Apart

/-- **The thunks change nothing**, call by call. -/
theorem hook_eq_plainHook (h : Inv s) (hallows : s.allows e = true) (hplain : Plain s e) :
    hook s.shim e = plainHook s.shim e := by
  cases hcall : e.call with
  | mmap result len prot flags fd =>
    simp only [Plain, hcall] at hplain
    simp only [hook, plainHook, hookWith, hcall]
    cases henters : entersMmap s.shim prot flags fd with
    | true => rfl
    | false =>
      have hkept := recordMmap_of_kept h.fds e.answers result len hplain.1 hplain.2 henters
      rw [if_pos (.inr rfl), hkept]
      split <;> rfl
  | mprotect addr len prot succeeds =>
    simp only [Session.allows, hcall, Bool.or_eq_true, Bool.not_eq_true', decide_eq_true_eq]
      at hallows
    simp only [hook, plainHook, hookWith, hcall]
    cases hgate : sharedMmapOverlaps s.shim.gate addr len with
    | true => simp only
    | false =>
      rw [if_neg (by simp)]
      split
      · rename_i hcalled
        have hpages : OnPages addr len := hallows.resolve_left (by simp [hcalled.1])
        exact (promotions_of_kept h.maps hpages hgate).symm
      · rfl
  | munmap addr len succeeds =>
    simp only [Session.allows, hcall, Bool.or_eq_true, Bool.not_eq_true', decide_eq_true_eq]
      at hallows
    simp only [hook, plainHook, hookWith, hcall]
    cases hgate : sharedMmapOverlaps s.shim.gate addr len with
    | true => simp only
    | false =>
      rw [if_neg (by simp)]
      split
      · rename_i hcalled
        have hpages : OnPages addr len := hallows.resolve_left (by simp [hcalled.1])
        obtain ⟨hremove, hforget⟩ := forget_of_kept h.maps hpages hgate
        rw [hremove]
        split
        · rfl
        · exact Prod.ext hforget.symm rfl
      · rfl
  | openat path result file => simp only [hook, plainHook, hookWith, hcall]
  | close fd => simp only [hook, plainHook, hookWith, hcall]
  | dup oldfd result => simp only [hook, plainHook, hookWith, hcall]
  | shmOpen name result object => simp only [hook, plainHook, hookWith, hcall]
  | read fd nbytes => simp only [hook, plainHook, hookWith, hcall]

end Thunks

/-! ## 5. Runs -/

theorem inv_of_run {inherited : Int32 → Option File} {events : List Event} {s : Session}
    (hrun : GuardedRuns.run step (start inherited) events = some s)
    (hseen : GuardedRuns.Meets step Seen (start inherited) events) : Inv s :=
  GuardedRuns.invariant_of_meets (fun h hseen hstep => h.step hseen hstep) events
    (inv_start inherited) hseen hrun

/-- A run that meets both conditions. -/
def SeenPlain (s : Session) (e : Event) : Prop := Seen s e ∧ Plain s e

/-- **The thunks change nothing**, over whole runs: the same tables on both sides, the same
records, and the same calls refused. -/
theorem run_eq_plainRun (inherited : Int32 → Option File) (events : List Event)
    (hseen : GuardedRuns.Meets step SeenPlain (start inherited) events) :
    GuardedRuns.run plainStep (start inherited) events =
      GuardedRuns.run step (start inherited) events := by
  refine GuardedRuns.run_congr (fun h hq hstep => Inv.step h hq.1 hstep) ?_ events
    (inv_start inherited) hseen
  intro s e h hq
  rw [plainStep, step, stepWith, stepWith]
  split
  · rename_i hallows
    rw [hook_eq_plainHook h hallows hq.2]
  · rfl

/-- **A promotion names a file that is mapped there.** -/
theorem promotion_attributed (inherited : Int32 → Option File) (events : List Event) {s : Session}
    (hrun : GuardedRuns.run step (start inherited) events = some s)
    (hseen : GuardedRuns.Meets step Seen (start inherited) events) {e : Event} {addr len : Nat}
    {prot : UInt32} {succeeds : Bool} (hcall : e.call = .mprotect addr len prot succeeds)
    (hallows : s.allows e = true) :
    ∀ w ∈ (hook s.shim e).2, ∃ piece ∈ s.pieces, meets (pages addr len) piece.range = true ∧
      ∃ path ∈ piece.file.names, w = promotedWrite path := by
  have hinv := inv_of_run hrun hseen
  simp only [Session.allows, hcall, Bool.or_eq_true, Bool.not_eq_true', decide_eq_true_eq]
    at hallows
  intro w hw
  simp only [hook, hookWith, hcall] at hw
  split at hw
  · rename_i hcalled
    have hpages : OnPages addr len := hallows.resolve_left (by simp [hcalled.1])
    rw [emitMprotectPromotions, hpages.callRange] at hw
    obtain ⟨m, hm, rfl⟩ := List.mem_map.mp hw
    obtain ⟨hm, hpromotes⟩ := List.mem_filter.mp hm
    rw [promotes, Bool.and_eq_true] at hpromotes
    obtain ⟨l, file, hon, hstop, hpiece, hname⟩ := hinv.maps.placed m hm
    have hrange : m.range = ⟨m.range.start, m.range.start + l⟩ := by
      rw [← hstop]
    refine ⟨_, hpiece, ?_, m.path, hname, rfl⟩
    rw [meets_pages hpages.1 hon.1, ← hrange]
    exact hpromotes.2
  · exact absurd hw List.not_mem_nil

def outFile : File := ⟨[str "/out/a"]⟩

/-- A linker opens its output, maps it, and makes the mapping writable. -/
def linkerOpen : Event := { call := .openat (str "/out/a") 5 outFile }
def linkerMap : Event := { call := .mmap 0x100000000 100 1 1 5 }
def linkerProtect : Event := { call := .mprotect 0x100000000 16384 3 true }

/-- The session behind the open. -/
def linkerOpened : Session :=
  ⟨updateFdPath {} 5 (str "/out/a"), Function.update (fun _ => none) 5 (some outFile), [], []⟩

theorem linkerOpen_step : step (start fun _ => none) linkerOpen = some linkerOpened := by
  rw [step_eq]
  exact ⟨by decide, rfl⟩

theorem linkerMap_step : ∃ s₁, step linkerOpened linkerMap = some s₁ :=
  ⟨_, step_eq.mpr ⟨by decide, rfl⟩⟩

theorem linkerProtect_step (s : Session) :
    ∃ s₂, GuardedRuns.run step s [linkerProtect] = some s₂ := by
  refine ⟨_, GuardedRuns.run_cons.mpr ⟨_, step_eq.mpr ⟨?_, rfl⟩, rfl⟩⟩
  show (!true || decide (OnPages 0x100000000 16384)) = true
  decide

theorem linker_seen : GuardedRuns.Meets step Seen (start fun _ => none)
    ([linkerOpen] ++ linkerMap :: [linkerProtect]) := by
  refine ⟨fun _ => rfl, fun s hs => ⟨?_, fun _ _ => ⟨trivial, fun _ _ => trivial⟩⟩⟩
  obtain rfl := Option.some.inj (linkerOpen_step.symm.trans hs)
  exact fun _ _ hp => absurd hp List.not_mem_nil

/-- It also maps its output privately and makes memory of its own writable. -/
def linkerPrivate : Event := { call := .mmap 0x200000000 100 1 2 5 }
def linkerHeap : Event := { call := .mprotect 0x300000000 16384 3 true }

theorem linkerPrivate_step : step linkerOpened linkerPrivate = some linkerOpened := by
  rw [step_eq]
  exact ⟨by decide, rfl⟩

/-- No entry of the thunks is met. -/
theorem linkerHeap_kept : sharedMmapOverlaps linkerOpened.shim.gate 0x300000000 16384 = false := by
  decide +kernel

theorem linkerHeap_step : step linkerOpened linkerHeap = some linkerOpened := by
  rw [step_eq]
  refine ⟨by decide, ?_⟩
  have hhook : hook linkerOpened.shim linkerHeap = (linkerOpened.shim, []) := by
    simp only [hook, hookWith, linkerHeap, linkerHeap_kept]
    rfl
  rw [hhook]
  rfl

theorem linker_seenPlain : GuardedRuns.Meets step SeenPlain (start fun _ => none)
    [linkerOpen, linkerPrivate, linkerHeap, linkerMap, linkerProtect] := by
  refine ⟨⟨fun _ => rfl, trivial⟩, fun s hs => ?_⟩
  obtain rfl := Option.some.inj (linkerOpen_step.symm.trans hs)
  have hlaid : ∀ result len prot flags fd,
      Seen linkerOpened { call := .mmap result len prot flags fd } :=
    fun _ _ _ _ _ _ _ hp => absurd hp List.not_mem_nil
  refine ⟨⟨hlaid _ _ _ _ _, by decide, fun _ _ => rfl⟩, fun s hs => ?_⟩
  obtain rfl := Option.some.inj (linkerPrivate_step.symm.trans hs)
  refine ⟨⟨trivial, trivial⟩, fun s hs => ?_⟩
  obtain rfl := Option.some.inj (linkerHeap_step.symm.trans hs)
  exact ⟨⟨hlaid _ _ _ _ _, by decide, fun hprivate => absurd hprivate (by decide)⟩,
    fun _ _ => ⟨⟨trivial, trivial⟩, fun _ _ => trivial⟩⟩

/-- The thunks keep two of the five calls away from Nim. -/
theorem run_eq_plainRun_linker :
    (entersMmap linkerOpened.shim 1 2 5 = false ∧
      sharedMmapOverlaps linkerOpened.shim.gate 0x300000000 16384 = false) ∧
    GuardedRuns.run plainStep (start fun _ => none)
        [linkerOpen, linkerPrivate, linkerHeap, linkerMap, linkerProtect] =
      GuardedRuns.run step (start fun _ => none)
        [linkerOpen, linkerPrivate, linkerHeap, linkerMap, linkerProtect] :=
  ⟨⟨by decide, linkerHeap_kept⟩, run_eq_plainRun (fun _ => none) _ linker_seenPlain⟩

theorem promotion_attributed_linker : ∃ s,
    GuardedRuns.run step (start fun _ => none) [linkerOpen, linkerMap] = some s ∧
      ∀ w ∈ (hook s.shim linkerProtect).2, ∃ piece ∈ s.pieces,
        meets (pages 0x100000000 16384) piece.range = true ∧
          ∃ path ∈ piece.file.names, w = promotedWrite path := by
  obtain ⟨s, hmap⟩ := linkerMap_step
  have hrun : GuardedRuns.run step (start fun _ => none) [linkerOpen, linkerMap] = some s :=
    GuardedRuns.run_cons.mpr ⟨_, linkerOpen_step, GuardedRuns.run_cons.mpr ⟨_, hmap, rfl⟩⟩
  have hwhole : GuardedRuns.Meets step Seen (start fun _ => none)
      ([linkerOpen, linkerMap] ++ [linkerProtect]) := linker_seen
  have hallows : s.allows linkerProtect = true := by
    show (!true || decide (OnPages 0x100000000 16384)) = true
    decide
  exact ⟨s, hrun, promotion_attributed (fun _ => none) _ hrun (hwhole.split hrun).1 rfl hallows⟩

end IoMon.SharedMappings
